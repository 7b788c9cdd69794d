import Mathlib.Algebra.Order.Ring.Int
import Mathlib.Data.List.Basic

/-! # Process variables of the translator

`PVInfoBase` says what a process variable is: its device, name and connection, its type with
the enumeration, its units and whether it is ignored.  Two variables have the same definition
if all this agrees, and the same connection if all but the device, the name and the name of the
enumeration agrees.

An enumeration is given in the source by a vector and an index.  The vectors only grow, so here
it is the enumeration itself. -/

namespace Adara.Native

/-- Process variable types. -/
inductive PVType
  | int | uint | float | double | enum | string | uintArray | doubleArray
deriving DecidableEq, Repr

/-- Enumerated type structure, for variables of type `enum`. -/
structure PVEnumeratedType where
  name : List Char
  elementNames : List (List Char)
  elementValues : List UInt32
deriving DecidableEq, Repr

/-- What makes up the definition of a process variable, and the key it was made for. -/
structure PVInfoBase where
  deviceName : List Char
  name : List Char
  connection : List Char
  deviceId : UInt32
  pvId : UInt32
  type : PVType
  enumType : Option PVEnumeratedType
  units : List Char
  ignore : Bool
deriving DecidableEq, Repr

/-- `sameEnum`: an exact match asks for the same name as well. -/
def PVEnumeratedType.sameEnum (a b : PVEnumeratedType) (exactMatch : Bool) : Bool :=
  (!exactMatch || a.name == b.name) && a.elementNames == b.elementNames &&
    a.elementValues == b.elementValues

namespace PVInfoBase

def diffEnum (exactMatch : Bool) : Option PVEnumeratedType → Option PVEnumeratedType → Bool
  | none, none => false
  | some a, some b => !a.sameEnum b exactMatch
  | _, _ => true

/-- `sameDefinitionPVConn`. -/
def sameDefinitionPVConn (p q : PVInfoBase) (exactMatch : Bool) : Bool :=
  p.connection == q.connection && p.type == q.type &&
    !diffEnum exactMatch p.enumType q.enumType && p.units == q.units && p.ignore == q.ignore

def sameDefinition (p q : PVInfoBase) : Bool :=
  p.deviceName == q.deviceName && p.name == q.name && p.sameDefinitionPVConn q true

end PVInfoBase

end Adara.Native
