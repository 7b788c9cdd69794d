import Adara.ForStd.SortedMap
import Adara.ForStd.Word32
import Mathlib.Data.Finset.Dedup
import Mathlib.Data.Finset.Insert
import Mathlib.Data.Finset.SDiff
import Mathlib.Logic.Function.Iterate

/-! # The descriptors and values of the slow devices

`MetaDataMgr` gives each device of each data source an identifier of its own in the output
stream, passes the descriptors and the variable values on under it, and keeps the last ones,
so that every new file can start with them (`onPrologue`).

While a packet is added to the stream the storage manager may start new files, or write a
snapshot of the state to resume from; for each of them it calls `onPrologue`, and what is read
next is the packet that is being added.  How often it does so is an input of the operations. -/

namespace Adara.Native

/-! ### Packets -/

structure DeviceDescriptorPkt where
  devId : UInt32
  sec : UInt32
  nsec : UInt32
  packetLength : UInt32
  description : List UInt8
deriving Repr, DecidableEq

def DeviceDescriptorPkt.remapDeviceId (p : DeviceDescriptorPkt) (dev : UInt32) :
    DeviceDescriptorPkt :=
  { p with devId := dev }

/-- What all variable packets start with. -/
structure VariableHeader where
  sec : UInt32
  nsec : UInt32
  devId : UInt32
  varId : UInt32
  status : UInt16
  severity : UInt16
deriving Repr, DecidableEq

/-- The value of a variable; that of a double is its bits. -/
inductive VariableValue where
  | u32 (val : UInt32)
  | double (val : UInt64)
  | string (val : List UInt8)
  | u32Array (val : List UInt32)
  | doubleArray (val : List UInt64)
deriving Repr, DecidableEq

/-- Several values of a variable, each after its time of flight. -/
inductive MultVariableValue where
  | u32 (vals : List (UInt32 × UInt32))
  | double (vals : List (UInt32 × UInt64))
  | string (vals : List (UInt32 × List UInt8))
  | u32Array (vals : List (UInt32 × List UInt32))
  | doubleArray (vals : List (UInt32 × List UInt64))
deriving Repr, DecidableEq

/-- One of the ten variable packets: `VariableU32Pkt` and so on with one value,
    `MultVariableU32Pkt` and so on with several. -/
inductive VariablePkt where
  | single (hdr : VariableHeader) (val : VariableValue)
  | mult (hdr : VariableHeader) (vals : MultVariableValue)
deriving Repr, DecidableEq

namespace VariablePkt

def hdr : VariablePkt → VariableHeader
  | single hdr _ => hdr
  | mult hdr _ => hdr

def withHdr (hdr : VariableHeader) : VariablePkt → VariablePkt
  | single _ val => single hdr val
  | mult _ vals => mult hdr vals

def remapDeviceId (p : VariablePkt) (dev : UInt32) : VariablePkt :=
  p.withHdr { p.hdr with devId := dev }

/-- `fields[2]` is overwritten with `VariableStatus::UPSTREAM_DISCONNECTED` and
    `VariableSeverity::INVALID`. -/
def upstreamDisconnected (p : VariablePkt) : VariablePkt :=
  p.withHdr { p.hdr with status := 0xfffe, severity := 3 }

end VariablePkt

/-- What `MetaDataMgr` adds to the stream. -/
inductive StreamPkt where
  | descriptor (p : DeviceDescriptorPkt)
  | variable (p : VariablePkt)
deriving Repr, DecidableEq

def nanoPerSecond : Nat := 1000000000

/-! ### The state -/

/-- A device, and the last packet of each of its variables. -/
structure DeviceVariables where
  devId : UInt32
  srcTag : UInt32
  descriptorPkt : DeviceDescriptorPkt
  variablePkts : SortedMap UInt32 VariablePkt
deriving DecidableEq

/-- A prologue that was written: the packets `onPrologue` emitted, if that is defined, what had
    been added to the stream by then, the packet being added if there was one, and the devices
    there were. -/
structure Prologue where
  emitted : Option (List StreamPkt)
  stream : List StreamPkt
  pending : List StreamPkt
  live : List UInt32
deriving DecidableEq

/-- The manager, with the packets and the prologues the storage manager has got from it. -/
structure MetaDataMgr where
  devices : SortedMap UInt32 DeviceVariables
  oldDevices : SortedMap UInt32 DeviceVariables
  devIdMap : SortedMap UInt64 UInt32
  oldDevIdMap : SortedMap UInt64 UInt32
  activeDevId : Finset UInt32
  nextMappedDevId : UInt32
  stream : List StreamPkt
  prologues : List Prologue
deriving DecidableEq

namespace MetaDataMgr

def init : MetaDataMgr where
  devices := SortedMap.empty
  oldDevices := SortedMap.empty
  devIdMap := SortedMap.empty
  oldDevIdMap := SortedMap.empty
  activeDevId := ∅
  nextMappedDevId := 1
  stream := []
  prologues := []

/-! ### The last of several values -/

/-- `while ( ts.tv_nsec >= NANO_PER_SECOND_LL )`; two words of nanoseconds make less than
    nine seconds. -/
def carrySeconds : Nat → Nat → Nat → Nat × Nat
  | 0, sec, nsec => (sec, nsec)
  | n + 1, sec, nsec =>
    if nanoPerSecond ≤ nsec then carrySeconds n (sec + 1) (nsec - nanoPerSecond)
    else (sec, nsec)

/-- The packet with the last value alone, at the time of the packet plus the time of flight.
    Without values `vals[ numVals - 1 ]` lies outside of the vector: what happens then is
    undefined. -/
def extractLast {α : Type} (mk : α → VariableValue) (hdr : VariableHeader)
    (vals : List (UInt32 × α)) : Option VariablePkt :=
  vals.getLast?.map fun (tof, val) =>
    let ts := carrySeconds 9 hdr.sec.toNat (hdr.nsec.toNat + tof.toNat)
    .single { hdr with sec := UInt32.ofNat ts.1, nsec := UInt32.ofNat ts.2 } (mk val)

/-- The five overloads of `extractLastValue`. -/
def extractLastValue (hdr : VariableHeader) : MultVariableValue → Option VariablePkt
  | .u32 vals => extractLast .u32 hdr vals
  | .double vals => extractLast .double hdr vals
  | .string vals => extractLast .string hdr vals
  | .u32Array vals => extractLast .u32Array hdr vals
  | .doubleArray vals => extractLast .doubleArray hdr vals

/-! ### Prologues -/

/-- The packet a prologue has for a variable; it also takes the place of the one kept. -/
def prologuePkt : VariablePkt → Option VariablePkt
  | .single hdr val => some (.single hdr val)
  | .mult hdr vals => extractLastValue hdr vals

/-- The part of a prologue for one device: the descriptor before the variable values. -/
def devicePrologue (dev : DeviceVariables) : Option (List StreamPkt) :=
  (dev.variablePkts.entries.mapM fun e => (prologuePkt e.2).map .variable).map
    (.descriptor dev.descriptorPkt :: ·)

/-- What `onPrologue` emits. -/
def onPrologue (devices : SortedMap UInt32 DeviceVariables) : Option (List StreamPkt) :=
  (devices.entries.mapM fun e => devicePrologue e.2).map List.flatten

/-- What `onPrologue` leaves of a device. -/
def afterPrologue (dev : DeviceVariables) : DeviceVariables :=
  { dev with variablePkts := dev.variablePkts.mapVal fun _ p => (prologuePkt p).getD p }

variable (s : MetaDataMgr)

/-- A prologue is written, where `pending` is what will be read after it. -/
def prologue (pending : List StreamPkt) (s : MetaDataMgr) : MetaDataMgr :=
  { s with
    devices := s.devices.mapVal fun _ dev => afterPrologue dev
    prologues := s.prologues ++
      [⟨onPrologue s.devices, s.stream, pending, s.devices.keys⟩] }

/-- `StorageManager::addPacket`, with `files` prologues on the way. -/
def addPacket (pkt : StreamPkt) (files : Nat) : MetaDataMgr :=
  let s := (prologue [pkt])^[files] s
  { s with stream := s.stream ++ [pkt] }

/-! ### Device identifiers -/

/-- `((uint64_t) srcTag << 32) | dev`. -/
def deviceKey (srcTag dev : UInt32) : UInt64 := srcTag.toUInt64 <<< 32 ||| dev.toUInt64

def lookupMappedDeviceId (dev srcTag : UInt32) : UInt32 :=
  (s.devIdMap.find? (deviceKey srcTag dev)).getD 0

/-- The identifier of an old device that comes back, or 0, and whether it was reinstated. -/
def lookupOldMappedDeviceId (dev srcTag : UInt32) : UInt32 × Bool × MetaDataMgr :=
  let key := deviceKey srcTag dev
  match s.oldDevIdMap.find? key with
  | none => (0, false, s)
  | some mapped =>
    let s := { s with oldDevIdMap := s.oldDevIdMap.erase key }
    match s.oldDevices.find? mapped with
    | none => (0, false, s)
    | some old =>
      (mapped, true,
        { s with
          devices := s.devices.set mapped old
          oldDevices := s.oldDevices.erase mapped
          activeDevId := insert mapped s.activeDevId
          devIdMap := s.devIdMap.set key mapped })

/-- `while ( m_activeDevId.count( m_nextMappedDevId ) ) m_nextMappedDevId++;`, for at most
    `n` turns. -/
def firstInactive (active : Finset UInt32) : Nat → UInt32 → Option UInt32
  | 0, _ => none
  | n + 1, id => if id ∈ active then firstInactive active n (id + 1) else some id

/-- The identifier for a new device.  After `2 ^ 32` turns the loop has seen them all, and
    does not end. -/
def newMappedDevId : Option UInt32 :=
  let first := if s.nextMappedDevId = 0 ∨ s.nextMappedDevId ≥ 0x80000000 then 1
    else s.nextMappedDevId
  firstInactive s.activeDevId (2 ^ 32) first

/-- The identifier of a device, whether it is an old one that was reinstated, and the state
    after; `none` where the call does not end. -/
def allocDev (dev srcTag : UInt32) : Option (UInt32 × Bool × MetaDataMgr) :=
  let mapped := s.lookupMappedDeviceId dev srcTag
  if mapped ≠ 0 then some (mapped, false, s)
  else
    let (old, reconnected, s) := s.lookupOldMappedDeviceId dev srcTag
    if old ≠ 0 then some (old, reconnected, s)
    else
      s.newMappedDevId.map fun id =>
        (id, reconnected,
          { s with
            activeDevId := insert id s.activeDevId
            nextMappedDevId := id + 1
            devIdMap := s.devIdMap.set (deviceKey srcTag dev) id })

/-! ### Descriptors -/

/-- The end of `updateDescriptor`: the descriptor goes into the stream before it is kept. -/
def storeDescriptor (inPkt : DeviceDescriptorPkt) (mapped srcTag : UInt32) (files : Nat) :
    MetaDataMgr :=
  let pkt := inPkt.remapDeviceId mapped
  let s := s.addPacket (.descriptor pkt) files
  { s with
    devices := s.devices.alter mapped fun dev =>
      ⟨inPkt.devId, srcTag, pkt, (dev.map (·.variablePkts)).getD SortedMap.empty⟩ }

/-- What `updateDescriptor` does once the identifier is known. -/
def describe (inPkt : DeviceDescriptorPkt) (mapped srcTag : UInt32) (reconnected : Bool)
    (files : Nat) : MetaDataMgr :=
  match s.devices.find? mapped with
  | none => s.storeDescriptor inPkt mapped srcTag files
  | some dev =>
    if dev.srcTag ≠ srcTag then s
    else if dev.descriptorPkt.packetLength = inPkt.packetLength ∧
        dev.descriptorPkt.description = inPkt.description then
      if reconnected then s.addPacket (.descriptor dev.descriptorPkt) files else s
    else
      let s := { s with devices := s.devices.erase mapped }
      -- an empty description undefines the device
      if inPkt.description = [] then s else s.storeDescriptor inPkt mapped srcTag files

def updateDescriptor (inPkt : DeviceDescriptorPkt) (srcTag : UInt32) (files : Nat) :
    Option MetaDataMgr :=
  (s.allocDev inPkt.devId srcTag).map fun (mapped, reconnected, s) =>
    s.describe inPkt mapped srcTag reconnected files

/-! ### Variable values -/

/-- The old value is removed before the new one goes into the stream. -/
def updateVariable (dev varId : UInt32) (inPkt : VariablePkt) (srcTag : UInt32) (files : Nat) :
    MetaDataMgr :=
  match s.devices.find? dev with
  | none => s
  | some d =>
    if d.srcTag ≠ srcTag then s
    else
      let s :=
        { s with
          devices := s.devices.modify dev fun d =>
            { d with variablePkts := d.variablePkts.erase varId } }
      let s := s.addPacket (.variable inPkt) files
      { s with
        devices := s.devices.modify dev fun d =>
          { d with variablePkts := d.variablePkts.set varId inPkt } }

/-- The ten overloads of `updateValue`. -/
def updateValue (inPkt : VariablePkt) (srcTag : UInt32) (files : Nat) : MetaDataMgr :=
  let mapped := s.lookupMappedDeviceId inPkt.hdr.devId srcTag
  if mapped = 0 then s
  else s.updateVariable mapped inPkt.hdr.varId (inPkt.remapDeviceId mapped) srcTag files

/-! ### Disconnects -/

/-- The packet kept for a variable of a device. -/
def variablePkt? (id varId : UInt32) : Option VariablePkt :=
  (s.devices.find? id).bind (·.variablePkts.find? varId)

/-- One turn of the loop in `upstreamDisconnected`.  The packet is read when its turn comes:
    a prologue before may have changed it. -/
def disconnectVariable (id : UInt32) (files : UInt32 → Nat) (s : MetaDataMgr) (varId : UInt32) :
    MetaDataMgr :=
  match s.variablePkt? id varId with
  | none => s
  | some p => s.addPacket (.variable p.upstreamDisconnected) (files varId)

def upstreamDisconnected (id : UInt32) (dev : DeviceVariables) (files : UInt32 → Nat) :
    MetaDataMgr :=
  dev.variablePkts.keys.foldl (disconnectVariable id files) s

/-- One turn of the loop over `m_devices` in `dropSourceTag`. -/
def dropDevice (srcTag : UInt32) (files : UInt32 → UInt32 → Nat) (s : MetaDataMgr)
    (id : UInt32) : MetaDataMgr :=
  match s.devices.find? id with
  | none => s
  | some dev =>
    if dev.srcTag ≠ srcTag then s
    else
      let s := s.upstreamDisconnected id dev (files id)
      { s with
        oldDevIdMap := s.oldDevIdMap.set (deviceKey srcTag dev.devId) id
        oldDevices := s.oldDevices.set id { dev with variablePkts := SortedMap.empty }
        devices := s.devices.erase id }

def dropSourceTag (srcTag : UInt32) (files : UInt32 → UInt32 → Nat) : MetaDataMgr :=
  let s := s.devices.keys.foldl (dropDevice srcTag files) s
  let dropped := s.devIdMap.filter fun key _ => key >>> 32 = srcTag.toUInt64
  { s with
    devIdMap := s.devIdMap.filter fun key _ => key >>> 32 ≠ srcTag.toUInt64
    activeDevId := s.activeDevId \ (dropped.entries.map Prod.snd).toFinset }

/-! ### Runs -/

/-- What happens to the manager, with the number of prologues asked for while each packet is
    added; `prologue` is a file started at any other time. -/
inductive Event where
  | descriptor (inPkt : DeviceDescriptorPkt) (srcTag : UInt32) (files : Nat)
  | value (inPkt : VariablePkt) (srcTag : UInt32) (files : Nat)
  | drop (srcTag : UInt32) (files : UInt32 → UInt32 → Nat)
  | prologue

/-- `none` where the call does not end. -/
def step : Event → Option MetaDataMgr
  | .descriptor inPkt srcTag files => s.updateDescriptor inPkt srcTag files
  | .value inPkt srcTag files => some (s.updateValue inPkt srcTag files)
  | .drop srcTag files => some (s.dropSourceTag srcTag files)
  | .prologue => some (s.prologue [])

end MetaDataMgr

end Adara.Native
