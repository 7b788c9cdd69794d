import Adara.Native.Packets

/-! # Data packets of a preprocessor

`RawDataPkt` (and `MappedDataPkt`, which has the same layout) and `RTDLPkt`, with the
accessors the SMS uses.  A packet keeps its payload as 32-bit words; that the
constructor checked the payload length is carried as a field. -/

namespace Adara.Native

/-- One event: time of flight and pixel id. -/
structure Event where
  tof : UInt32
  pixel : UInt32
deriving DecidableEq, Repr

/-- The events in a sequence of words, two words an event. -/
def Event.ofFields : List UInt32 → List Event
  | tof :: pixel :: rest => ⟨tof, pixel⟩ :: ofFields rest
  | _ => []

/-- `DataFlags`. -/
def dataFlagGotNeutrons : UInt32 := 0x1

def dataFlagGotMetadata : UInt32 := 0x2

/-! ### RawDataPkt -/

structure RawDataPkt where
  version : Nat
  pulseId : UInt64
  fields : List UInt32
  six_le : 6 ≤ fields.length
deriving DecidableEq

namespace RawDataPkt

variable (pkt : RawDataPkt)

/-- `m_fields[i]`. -/
def field (i : Nat) : UInt32 := pkt.fields.getD i 0

def sourceID : UInt32 := pkt.field 0

def endOfPulse : Bool := pkt.field 1 &&& 0x80000000 != 0

def pulseSeq : UInt32 := (pkt.field 1 >>> 16) &&& 0x7fff

def sourceSeq : UInt32 := pkt.field 1 &&& 0xffff

def gotDataFlags : Bool := 1 ≤ pkt.version

def dataFlags : UInt32 := if pkt.gotDataFlags then (pkt.field 2 >>> 27) &&& 0x1f else 0

def flavor : UInt32 := (pkt.field 2 >>> 24) &&& 0x7

def pulseCharge : UInt32 := pkt.field 2 &&& 0x00ffffff

/-- The cast to `uint8_t` keeps the low eight bits. -/
def timingStatus : UInt32 := (pkt.field 3 >>> 22) &&& 0xff

def vetoFlags : UInt32 := (pkt.field 3 >>> 10) &&& 0xfff

def cycle : UInt32 := pkt.field 3 &&& 0x3ff

def intraPulseTime : UInt32 := pkt.field 4

def tofField : UInt32 := pkt.field 5

/-- The `num_events()` events at `events()`: as many as the payload holds. -/
def events : List Event := Event.ofFields (pkt.fields.drop 6)

end RawDataPkt

/-! ### RTDLPkt -/

structure RTDLPkt where
  version : Nat
  pulseId : UInt64
  fields : List UInt32
  thirty_le : 30 ≤ fields.length
deriving DecidableEq

namespace RTDLPkt

variable (pkt : RTDLPkt)

/-- `m_fields[i]`. -/
def field (i : Nat) : UInt32 := pkt.fields.getD i 0

def gotDataFlags : Bool := 1 ≤ pkt.version

def dataFlags : UInt32 := if pkt.gotDataFlags then (pkt.field 0 >>> 27) &&& 0x1f else 0

def pulseCharge : UInt32 := pkt.field 0 &&& 0x00ffffff

def vetoFlags : UInt32 := (pkt.field 1 >>> 10) &&& 0xfff

def cycle : UInt32 := pkt.field 1 &&& 0x3ff

def ringPeriod : UInt32 := pkt.field 4 &&& 0xffffff

/-- Overwrite one word of the payload. -/
def setField (i : Nat) (w : UInt32) : RTDLPkt :=
  { pkt with
    fields := pkt.fields.set i w
    thirty_le := by have := pkt.thirty_le; rwa [List.length_set] }

def setPulseCharge (pulseCharge : UInt32) : RTDLPkt :=
  pkt.setField 0 ((pkt.field 0 &&& 0xff000000) ||| (pulseCharge &&& 0x00ffffff))

def setVetoFlags (vetoFlags : UInt32) : RTDLPkt :=
  let bits : UInt32 := (vetoFlags &&& 0xfff) <<< 10
  pkt.setField 1 ((pkt.field 1 &&& 0xffc003ff) ||| bits)

end RTDLPkt

end Adara.Native
