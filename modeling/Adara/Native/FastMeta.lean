import Adara.ForStd.Timespec
import Adara.Native.MetaDataMgr
import Adara.Native.MultVariable
import Adara.Native.RawData

/-! # Updates of the fast metadata

`FastMeta` turns events of the fast metadata devices into updates of variables: one packet
for each event (`sendUpdate`), or one packet with all events of a device in a pulse
(`sendMultUpdate`).  `SMSControl::buildFastMetaPackets` chooses by the number of events.

The translator reads both kinds back, and files each value under its absolute time. -/

namespace Adara.Native

/-! ### Sending -/

/-- `FastMeta::Variable`, with what the packets need. -/
structure FastVariable where
  devId : UInt32
  varId : UInt32
  persist : Bool
deriving Repr, DecidableEq

/-- The variables by device key, and the devices of the metadata manager with their source
    tags. -/
structure FastMeta where
  vars : SortedMap UInt32 FastVariable
  devices : SortedMap UInt32 UInt32

namespace FastMeta

variable (s : FastMeta)

/-- `VAR_VALUE_U32_TYPE` and its version. -/
def varValueU32Type : UInt32 := UInt32.ofNat (adaraPktType 0x8001 0x00)

/-- `MULT_VAR_VALUE_U32_TYPE` and its version. -/
def multVarValueU32Type : UInt32 := UInt32.ofNat (adaraPktType 0x8101 0x00)

/-- The upper 15 bits of the pixel. -/
def deviceKey (pixel : UInt32) : UInt32 := pixel &&& 0xffff0000

/-- The lower 16 bits of the pixel. -/
def pixelValue (pixel : UInt32) : UInt32 := pixel &&& 0xffff

/-- The time of flight in nanoseconds, without the cycle field.  It is in units of 100ns. -/
def tofNanos (tof : UInt32) : UInt32 := (tof &&& 0x1fffff) * 100

/-- `m_vars[key]`, which makes an entry of zeros where there is none. -/
def varAt (key : UInt32) : FastVariable := (s.vars.find? key).getD ⟨0, 0, false⟩

/-- `while ( ns >= NANO_PER_SECOND_LL )` over 32-bit fields; a word of nanoseconds makes less
    than five seconds. -/
def carryWord : Nat → UInt32 → UInt32 → UInt32 × UInt32
  | 0, sec, ns => (sec, ns)
  | n + 1, sec, ns =>
    if 1000000000 ≤ ns then carryWord n (sec + 1) (ns - 1000000000) else (sec, ns)

/-- `StorageManager::addPacket( pkt, len )`; the length is a 32-bit number. -/
def addPacket (pkt : List UInt32) (len : Nat) : List (List UInt32) :=
  [pkt.take (len % Word32.modulus / 4)]

/-- `MetaDataMgr::updateMappedVariable`.  The wrapper object gets a wrong length, but the
    copy goes by the length in the packet's header. -/
def updateMappedVariable (mappedDev : UInt32) (pkt : List UInt32) : List (List UInt32) :=
  match s.devices.find? mappedDev with
  | none => []
  | some srcTag =>
    if srcTag ≠ 0 then []
    else addPacket pkt (Word32.add (pkt.getD 0 0).toNat PacketHeader.headerLength)

/-- The end of both functions: the packets added to the stream. -/
def send (var : FastVariable) (pkt : List UInt32) : List (List UInt32) :=
  if var.persist then s.updateMappedVariable var.devId pkt else addPacket pkt (pkt.length * 4)

/-- Status and severity, both `OK`. -/
def statusOk : UInt32 := (0 : UInt32) <<< 16 ||| 0

/-- The packet of `sendUpdate`. -/
def updateWords (pulseId : UInt64) (pixel tof : UInt32) : List UInt32 :=
  let time := carryWord 4 (pulseId >>> 32).toUInt32 (tofNanos tof + pulseId.toUInt32)
  let var := s.varAt (deviceKey pixel)
  [16, varValueU32Type, time.1, time.2, var.devId, var.varId, statusOk, pixelValue pixel]

def sendUpdate (pulseId : UInt64) (pixel tof : UInt32) : List (List UInt32) :=
  s.send (s.varAt (deviceKey pixel)) (s.updateWords pulseId pixel tof)

/-- The packet of `sendMultUpdate`, of which the first event gives the device. -/
def multUpdateWords (pulseId : UInt64) (first : Event) (events : List Event) : List UInt32 :=
  let var := s.varAt (deviceKey first.pixel)
  [UInt32.ofNat ((4 + events.length * 2) * 4), multVarValueU32Type, (pulseId >>> 32).toUInt32,
    pulseId.toUInt32, var.devId, var.varId, statusOk, UInt32.ofNat events.length] ++
    events.flatMap fun ev => [tofNanos ev.tof, pixelValue ev.pixel]

def sendMultUpdate (pulseId : UInt64) (events : List Event) : List (List UInt32) :=
  match events with
  | [] => []
  | first :: _ =>
    s.send (s.varAt (deviceKey first.pixel)) (s.multUpdateWords pulseId first events)

/-- `SMSControl::buildFastMetaPackets`, with the events of the pulse by device key. -/
def buildFastMetaPackets (pulseId : UInt64) (events : SortedMap UInt32 (List Event)) :
    List (List UInt32) :=
  events.entries.flatMap fun e =>
    if 3 < e.2.length then s.sendMultUpdate pulseId e.2
    else e.2.flatMap fun ev => s.sendUpdate pulseId ev.pixel ev.tof

end FastMeta

/-! ### Reading -/

/-- A value of a variable, as the translator gets it: `pvValueUpdate`. -/
structure ValueUpdate where
  devId : UInt32
  varId : UInt32
  nanos : Nat
  val : UInt32
deriving Repr, DecidableEq

namespace ValueUpdate

/-- The payload of a packet in memory. -/
def payloadOf (pkt : List UInt32) (behind : Nat → UInt32) : Payload where
  version := adaraPktVersion (pkt.getD 1 0).toNat
  pulseId := (pkt.getD 2 0).toUInt64 <<< 32 ||| (pkt.getD 3 0).toUInt64
  words := (pkt.drop 4).take ((pkt.getD 0 0).toNat / 4)
  length_lt := by
    have hword := (pkt.getD 0 0).toNat_lt
    have htake := List.length_take_le ((pkt.getD 0 0).toNat / 4) (pkt.drop 4)
    simp only [Word32.modulus]
    omega
  behind := behind

/-- The seconds of `timestamp()`. -/
def seconds (pkt : List UInt32) : Nat := Word32.add (pkt.getD 2 0).toNat epicsEpochOffset

/-- `timespec_to_nsec`. -/
def timespecToNsec (ts : Nat × Nat) : Nat := (Timespec.mk ts.1 ts.2).nanos

/-- The checks of `VariableU32Pkt`: the exception thrown, if any. -/
def checkVariableU32 (p : Payload) : Option String :=
  if p.version = 0 ∧ p.payloadLen ≠ 16 then
    some (MultVariable.timeText p ++ " VariableValue (U32) V0 packet is incorrect length: " ++
      toString p.payloadLen)
  else if 0 < p.version ∧ p.payloadLen < 16 then
    some (MultVariable.timeText p ++ " Newer VariableValue (U32) packet is too short: " ++
      toString p.payloadLen)
  else if !MultVariable.validStatus p.status then
    some (MultVariable.timeText p ++ " VariableValue (U32) packet has invalid status: " ++
      toString p.status.toNat)
  else if !MultVariable.validSeverity p.severity then
    some (MultVariable.timeText p ++ " VariableValue (U32) packet has invalid severity: " ++
      toString p.severity.toNat)
  else none

/-- `rxPacket( VariableU32Pkt )`; nothing is filed where the constructor does not return. -/
def rxVariableU32 (pkt : List UInt32) (behind : Nat → UInt32) : Option (List ValueUpdate) :=
  let p := payloadOf pkt behind
  match checkVariableU32 p with
  | some _ => none
  | none =>
    some [⟨p.word 0, p.word 1, timespecToNsec (seconds pkt, (pkt.getD 3 0).toNat), p.word 3⟩]

/-- `rxPacket( MultVariableU32Pkt )`: each value at the time of the packet plus its time of
    flight.  The loop ends early where values or times run out. -/
def rxMultVariableU32 (pkt : List UInt32) (behind : Nat → UInt32) : Option (List ValueUpdate) :=
  let p := payloadOf pkt behind
  match (MultVariable.multVariableU32Pkt p).outcome with
  | .returned tofs vals =>
    some (((tofs.zip vals).take p.numValues).map fun (tof, val) =>
      ⟨p.word 0, p.word 1,
        timespecToNsec (MetaDataMgr.carrySeconds 9 (seconds pkt)
          ((pkt.getD 3 0).toNat + tof.toNat)), val⟩)
  | _ => none

/-- A packet goes to the handler of its type. -/
def rxPacket (behind : Nat → UInt32) (pkt : List UInt32) : Option (List ValueUpdate) :=
  let baseType := adaraBasePktType (pkt.getD 1 0).toNat
  if baseType = 0x8001 then rxVariableU32 pkt behind
  else if baseType = 0x8101 then rxMultVariableU32 pkt behind
  else none

/-- All values in a sequence of packets, in order. -/
def rxPackets (behind : Nat → UInt32) (pkts : List (List UInt32)) : Option (List ValueUpdate) :=
  (pkts.mapM (rxPacket behind)).map List.flatten

end ValueUpdate

end Adara.Native
