import Adara.ForStd.Traced
import Adara.Native.MultVariable

/-! # Packets that declare a size

The constructors of `SyncPkt`, `DeviceDescriptorPkt`, `RunInfoPkt`, `GeometryPkt`,
`VariableStringPkt`, `VariableU32ArrayPkt` and `VariableDoubleArrayPkt`: a fixed part of the
payload says how long the string or the array behind it is, and the constructor copies that
out.  Kept beside the packet are the bytes of the payload that the constructor touches,
numbered from its start; a constructor that throws may have touched some as well. -/

namespace Adara.Native

namespace SizedPackets

open MultVariable (timeText validStatus validSeverity doubleAt)

/-- A constructor: it returns its packet or throws `invalid_packet`. -/
abbrev Constructor (α : Type) := Traced String Nat α

/-- The numbers of the bytes `[start, start + n)`. -/
def places (start n : Nat) : List Nat := List.range' start n

/-- The bytes `[start, start + n)`, as `std::string::assign` copies them. -/
def bytesAt (p : Payload) (start n : Nat) : List UInt8 := (places start n).map p.byte

/-! ### Messages -/

/-- How every message starts: the pulse time and the packet, by its version. -/
def packetText (p : Payload) (name : String) : String :=
  timeText p ++
    if p.version = 0 then " " ++ name ++ " V0 packet" else " Newer " ++ name ++ " packet"

/-- The bytes behind the fixed part, with zero bytes spelled out. -/
def dumpText (p : Payload) (fixed : Nat) : String :=
  " [" ++ String.join ((bytesAt p fixed (p.payloadLen - fixed)).map fun b =>
    if b = 0 then "#000" else String.singleton (Char.ofNat b.toNat)) ++ "]"

/-- The message for a string that is longer than the rest of the payload. -/
def undersizeText (p : Payload) (name what : String) (size fixed : Nat) : String :=
  packetText p name ++ " has Undersize " ++ what ++ " string size=" ++ toString size ++
    " vs. available payload=" ++ toString (p.payloadLen - fixed) ++ dumpText p fixed

/-- The message for a value that is longer than the rest of the payload. -/
def undersizeValueText (p : Payload) (name what : String) (size : Nat) : String :=
  packetText p name ++ " has Undersize " ++ what ++ ": " ++ toString size ++ " vs payload " ++
    toString (p.payloadLen - 16)

/-- Throw if the fixed part is not there. -/
def checkFixed (p : Payload) (name text : String) (fixed : Nat) : Constructor Unit :=
  if p.payloadLen < fixed then .throw (packetText p name ++ text ++ toString p.payloadLen)
  else pure ()

/-! ### Packets with a string -/

structure SyncPkt where
  signature : List UInt8
  offset : UInt64
  comment : List UInt8
deriving DecidableEq, Repr

structure DeviceDescriptorPkt where
  devId : UInt32
  desc : List UInt8
deriving DecidableEq, Repr

structure RunInfoPkt where
  xml : List UInt8
deriving DecidableEq, Repr

structure GeometryPkt where
  xml : List UInt8
deriving DecidableEq, Repr

/-- `SyncPkt`.  The sum of the size and 28 is a 32-bit one. -/
def syncPkt (p : Payload) : Constructor SyncPkt := do
  checkFixed p "Sync" " is too small: " 28
  .touch (places 0 28)
  let size := (p.word 6).toNat
  if p.payloadLen < Word32.add size 28 then
    .touch (places 28 (p.payloadLen - 28))
    .throw (undersizeText p "Sync" "Sync Comment" size 28)
  .touch (places 28 size)
  pure ⟨bytesAt p 0 16, doubleAt p 4, bytesAt p 28 size⟩

/-- `DeviceDescriptorPkt`.  The message for a newer version is put together, but not thrown. -/
def deviceDescriptorPkt (p : Payload) : Constructor DeviceDescriptorPkt := do
  checkFixed p "DeviceDescriptor" " is too short: " 8
  .touch (places 4 4)
  let size := (p.word 1).toNat
  if p.payloadLen < size + 8 then
    .touch (places 8 (p.payloadLen - 8))
    if p.version = 0 then
      .throw (undersizeText p "DeviceDescriptor" "Descriptor" size 8)
  .touch (places 0 4 ++ places 8 size)
  pure ⟨p.word 0, bytesAt p 8 size⟩

/-- `RunInfoPkt`, which reads the size before it checks that there is one. -/
def runInfoPkt (p : Payload) : Constructor RunInfoPkt := do
  .touch (places 0 4)
  let size := (p.word 0).toNat
  checkFixed p "RunInfo" " is too short: " 4
  if p.payloadLen < size + 4 then
    .touch (places 4 (p.payloadLen - 4))
    .throw (undersizeText p "RunInfo" "XML" size 4)
  .touch (places 4 size)
  pure ⟨bytesAt p 4 size⟩

/-- `GeometryPkt`. -/
def geometryPkt (p : Payload) : Constructor GeometryPkt := do
  checkFixed p "Geometry" " is too short: " 4
  .touch (places 0 4)
  let size := (p.word 0).toNat
  if p.payloadLen < size + 4 then
    .touch (places 4 (p.payloadLen - 4))
    .throw (undersizeText p "Geometry" "Geometry" size 4)
  .touch (places 4 size)
  pure ⟨bytesAt p 4 size⟩

/-! ### Values of a variable -/

/-- A packet with a value; its other fields are read from the payload by the accessors. -/
structure VariablePkt (α : Type) where
  val : List α
deriving DecidableEq, Repr

/-- The checks of status and severity. -/
def checkStatus (p : Payload) (name : String) : Constructor Unit := do
  .touch (places 8 4)
  if !validStatus p.status then
    .throw (timeText p ++ " " ++ name ++ " packet has invalid status: " ++ toString p.status.toNat)
  .touch (places 8 4)
  if !validSeverity p.severity then
    .throw (timeText p ++ " " ++ name ++ " packet has invalid severity: " ++
      toString p.severity.toNat)

/-- `VariableStringPkt`. -/
def variableStringPkt (p : Payload) : Constructor (VariablePkt UInt8) := do
  checkFixed p "VariableValue (String)" " is too short " 16
  .touch (places 12 4)
  let size := (p.word 3).toNat
  if p.payloadLen < size + 16 then
    .touch (places 16 (p.payloadLen - 16))
    .throw (undersizeValueText p "VariableValue (String)" "Value string" size ++ dumpText p 16)
  checkStatus p "VariableValue (String)"
  .touch (places 16 size)
  pure ⟨bytesAt p 16 size⟩

/-- The constructors for arrays, of elements of `width` bytes.  The product is a 64-bit one. -/
def variableArrayPkt {α : Type} (p : Payload) (name what : String) (width : Nat)
    (elem : Nat → α) : Constructor (VariablePkt α) := do
  checkFixed p name " is too short: " 16
  .touch (places 12 4)
  let count := (p.word 3).toNat
  let size := count * width
  if p.payloadLen < size + 16 then
    .throw (undersizeValueText p name what size)
  checkStatus p name
  .touch (places 16 size)
  pure ⟨(List.range count).map elem⟩

/-- `VariableU32ArrayPkt`. -/
def variableU32ArrayPkt (p : Payload) : Constructor (VariablePkt UInt32) :=
  variableArrayPkt p "VariableValue (U32 Array)" "U32 array" 4 fun i => p.word (4 + i)

/-- `VariableDoubleArrayPkt`. -/
def variableDoubleArrayPkt (p : Payload) : Constructor (VariablePkt UInt64) :=
  variableArrayPkt p "VariableValue (Double Array)" "Double array" 8 fun i =>
    doubleAt p (4 + 2 * i)

/-- The bytes that the accessors of a value touch: `devId`, `varId`, `status` and `severity`,
    and `elemCount`.  Those of the other packets return what the constructor has copied. -/
def variableAccessed : List Nat := places 0 4 ++ places 4 4 ++ places 8 4 ++ places 12 4

end SizedPackets

end Adara.Native
