import Adara.Native.PVInfo
import Mathlib.Logic.Function.Basic

/-! # The translator's registry of process variables

`StreamParser` reads the descriptors of devices.  A variable of a descriptor is found by its
key, the ids of its device and its own, or else by its name and definition, or it is made; a
cross reference by `device:name:connection` tells the last key of a name.  No variable is ever
removed from the list.

A descriptor is its XML elements in their order, with texts and numbers read; a text that is
not a type or a number ends the translation.  A `PVInfoBase*` is a place in the list. -/

namespace Adara.Native

/-- `PVKey`: the ids of the device and of the variable. -/
abbrev PVKey := UInt32 × UInt32

/-- A `process_variable` element.  The text of its type names the enumeration as well. -/
structure VariableElement where
  name : Option (List Char)
  connection : Option (List Char)
  pvId : Option UInt32
  type : Option (PVType × List Char)
  units : List Char
  ignore : Bool
deriving DecidableEq, Repr

/-- The elements of a device descriptor that are read.  Of an enumeration the elements are
    those with a name and a value. -/
inductive DescriptorElement
  | deviceName (name : List Char)
  | variable (v : VariableElement)
  | enumeration (name : Option (List Char)) (elements : List (List Char × UInt32))
deriving DecidableEq, Repr

structure DeviceDescriptor where
  devId : UInt32
  elements : List DescriptorElement
deriving DecidableEq, Repr

/-- The enumeration of an element, if it is complete. -/
def enumerationOf : Option (List Char) → List (List Char × UInt32) → Option PVEnumeratedType
  | some name, e :: es => some ⟨name, (e :: es).map (·.1), (e :: es).map (·.2)⟩
  | _, _ => none

/-- The last enumeration of a name. -/
def enumNamed (enums : List PVEnumeratedType) (name : List Char) : Option PVEnumeratedType :=
  (enums.filter fun e => e.name == name).getLast?

/-- What an element says of a variable, if it has an id, a type, and a name or a connection. -/
def VariableElement.definition (v : VariableElement) (devId : UInt32) (deviceName : List Char)
    (enums : List PVEnumeratedType) : Option PVInfoBase :=
  match v.pvId, v.type with
  | some pvId, some (type, text) =>
    if v.name.isNone && v.connection.isNone then none
    else
      let name := v.name.getD []
      let connection := v.connection.getD []
      some
        { deviceName := deviceName
          name := if name.isEmpty then connection else name
          connection := if connection.isEmpty then name else connection
          deviceId := devId
          pvId := pvId
          type := type
          enumType := if type = .enum then enumNamed enums text else none
          units := v.units
          ignore := v.ignore }
  | _, _ => none

namespace PVInfoBase

def key (p : PVInfoBase) : PVKey := (p.deviceId, p.pvId)

/-- `dev_name + ":" + pv_name + ":" + pv_connection`. -/
def xrefName (p : PVInfoBase) : List Char :=
  p.deviceName ++ ':' :: p.name ++ ':' :: p.connection

end PVInfoBase

/-- `m_pvs_list`, `m_pvs_by_key`, `m_pvs_by_name_xref` and `m_enums_by_dev`. -/
structure PVRegistry where
  pvsList : List PVInfoBase
  pvsByKey : PVKey → Option Nat
  pvsByNameXref : List Char → Option PVKey
  enumsByDev : UInt32 → List PVEnumeratedType

namespace PVRegistry

def init : PVRegistry where
  pvsList := []
  pvsByKey _ := none
  pvsByNameXref _ := none
  enumsByDev _ := []

/-- The variable a key is mapped to. -/
def at? (r : PVRegistry) (key : PVKey) : Option PVInfoBase :=
  (r.pvsByKey key).bind (r.pvsList[·]?)

/-- The key and the name of a definition are mapped to a place in the list. -/
def assign (r : PVRegistry) (d : PVInfoBase) (i : Nat) : PVRegistry :=
  { r with
    pvsByKey := Function.update r.pvsByKey d.key (some i)
    pvsByNameXref := Function.update r.pvsByNameXref d.xrefName (some d.key) }

def eraseKey (r : PVRegistry) (key : PVKey) : PVRegistry :=
  { r with pvsByKey := Function.update r.pvsByKey key none }

def eraseXref (r : PVRegistry) (name : List Char) : PVRegistry :=
  { r with pvsByNameXref := Function.update r.pvsByNameXref name none }

/-- The first variable of the list with a definition. -/
def findSame (r : PVRegistry) (d : PVInfoBase) : Option Nat :=
  r.pvsList.findIdx? (·.sameDefinition d)

variable (makePVInfo : List PVInfoBase → PVInfoBase → Option PVInfoBase)

/-- A new variable is made; an adapter that does not support its type makes none. -/
def create (r : PVRegistry) (d : PVInfoBase) (failed : PVRegistry) : PVRegistry :=
  match makePVInfo r.pvsList d with
  | some p => { r with pvsList := r.pvsList ++ [p] }.assign d r.pvsList.length
  | none => failed

/-- A key that is not in use. -/
def newKey (r : PVRegistry) (d : PVInfoBase) : PVRegistry :=
  match r.pvsByNameXref d.xrefName with
  | some k =>
    match r.pvsByKey k with
    | some i =>
      -- the key was renumbered
      if r.pvsList[i]?.any (·.sameDefinition d) then r.assign d i
      else
        match r.findSame d with
        | some j => r.assign d j
        | none =>
          let r := (r.eraseKey k).eraseXref d.xrefName
          r.create makePVInfo d r
    | none =>
      -- a dangling reference
      let r := r.eraseXref d.xrefName
      r.create makePVInfo d r
  | none =>
    match r.findSame d with
    | some j => r.assign d j
    | none => r.create makePVInfo d r

/-- A key in use, for the variable at a place of the list. -/
def keyInUse (r : PVRegistry) (d : PVInfoBase) (i : Nat) : PVRegistry :=
  match r.pvsList[i]? with
  | none => r
  | some p =>
    if p.sameDefinition d then r
    else
      let r :=
        if d.deviceName ≠ p.deviceName ∨ d.name ≠ p.name ∨ d.connection ≠ p.connection then
          r.eraseXref p.xrefName
        else r
      match r.findSame d with
      | some j => r.assign d j
      | none => r.create makePVInfo d (r.eraseKey d.key)

/-- What is done for a variable of a descriptor. -/
def rxVariable (r : PVRegistry) (d : PVInfoBase) : PVRegistry :=
  match r.pvsByKey d.key with
  | none => r.newKey makePVInfo d
  | some i => r.keyInUse makePVInfo d i

/-- A new enumeration of a device is added. -/
def addEnum (enums : List PVEnumeratedType) (e : PVEnumeratedType) : List PVEnumeratedType :=
  if enums.any (·.sameEnum e true) then enums else enums ++ [e]

/-- One element of a descriptor, with the device name read so far. -/
def rxElement (devId : UInt32) (s : List Char × PVRegistry) :
    DescriptorElement → List Char × PVRegistry
  | .deviceName name => (name, s.2)
  | .enumeration name elements =>
    match enumerationOf name elements with
    | some e =>
      (s.1, { s.2 with enumsByDev :=
        Function.update s.2.enumsByDev devId (addEnum (s.2.enumsByDev devId) e) })
    | none => s
  | .variable v =>
    match v.definition devId s.1 (s.2.enumsByDev devId) with
    | some d => (s.1, s.2.rxVariable makePVInfo d)
    | none => s

/-- `rxPacket` for a device descriptor. -/
def rxPacket (r : PVRegistry) (pkt : DeviceDescriptor) : PVRegistry :=
  (pkt.elements.foldl (rxElement makePVInfo pkt.devId) ([], r)).2

/-- The registry after some descriptors. -/
def rxPackets (pkts : List DeviceDescriptor) : PVRegistry :=
  pkts.foldl (rxPacket makePVInfo) init

end PVRegistry

end Adara.Native
