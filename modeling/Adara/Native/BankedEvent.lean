import Adara.Native.PulseEvents

/-! # Banked event packets

`SMSControl::buildBankedPacket`, which writes the events of a pulse without states, and
the `BankedEventPkt` that reads them back: a cursor over the words of the payload, moved
by `firstEvent` and `nextEvent`.

A read outside the words of the packet has no result (`none`), and neither has a loop
that would only stop there. -/

namespace Adara.Native

/-- The two words of an event. -/
def Event.fields (ev : Event) : List UInt32 := [ev.tof, ev.pixel]

/-! ### Writing -/

namespace SMSControl

/-- `BANKED_EVENT_TYPE` and its version. -/
def bankedEventType : UInt32 := UInt32.ofNat (adaraPktType 0x4000 0x01)

/-- The events of one bank, with the bank's id on the wire.  Banks without events are
    left out. -/
def bankWords (maxBank : Nat) (evs : List Event) (bi : Nat) : List UInt32 :=
  if evs = [] then []
  else
    [UInt32.ofNat (bi % (maxBank + 1)) - UInt32.ofNat PixelMap.realBankOffset,
      UInt32.ofNat evs.length] ++ evs.flatMap Event.fields

/-- The section of one source. -/
def sourceWords (maxBank : Nat) (hwId : UInt32) (src : EventSource) : List UInt32 :=
  [hwId, src.intraPulseTime, src.tofField, src.activeBanks] ++
    src.banksArr.zipIdx.flatMap fun e => bankWords maxBank e.1 e.2

/-- The number of header words a source puts into `m_hdrs`. -/
def sourceHdrs (src : EventSource) : Nat :=
  4 + 2 * src.banksArr.countP fun evs => evs ≠ []

/-- The number of words reserved for `m_hdrs`. -/
def reservedHdrs (p : Pulse) : Nat :=
  Word32.add (Word32.add 8 (p.pulseSources.size * 4)) (Word32.mul p.numBanks.toNat 2)

/-- The payload length in the header. -/
def bankedPayloadLen (p : Pulse) : Nat :=
  Word32.sub (Word32.add (Word32.mul (reservedHdrs p) 4) (p.numEvents.toNat * 8)) 16

/-- Flags and veto flags, in one word. -/
def flagsWord (p : Pulse) : UInt32 :=
  let veto : UInt32 := (p.vetoFlags &&& 0xfff) <<< 20
  (p.flags &&& 0xfffff) + veto

/-- The packet header, and the header of banked events. -/
def bankedHeader (pulseEnergy : UInt32 → UInt32) (p : Pulse) : List UInt32 :=
  [UInt32.ofNat (bankedPayloadLen p), bankedEventType,
    ((ofLex p.id).1 >>> 32).toUInt32, (ofLex p.id).1.toUInt32,
    if p.hasFlag PulseFlags.gotNeutrons then p.charge else 0,
    pulseEnergy p.ringPeriod, p.cycle, flagsWord p]

/-- `buildBankedPacket`: the words handed to `addPacket`.  The fragments point into
    `m_hdrs`, so it must not outgrow what was reserved. -/
def buildBankedPacket (maxBank : Nat) (pulseEnergy : UInt32 → UInt32) (p : Pulse) :
    Option (List UInt32) :=
  if reservedHdrs p < 8 + (p.pulseSources.entries.map fun e => sourceHdrs e.2).sum then none
  else
    some (bankedHeader pulseEnergy p ++
      p.pulseSources.entries.flatMap fun e => sourceWords maxBank e.1 e.2)

end SMSControl

/-! ### Reading -/

/-- A `BankedEventPkt`: the payload length from the header, and the words behind it. -/
structure BankedEventPkt where
  payloadLen : Nat
  fields : List UInt32
deriving DecidableEq, Repr

/-- The fields of a `BankedEventPkt` that `firstEvent` and `nextEvent` move.  `m_curEvent`
    is the index of the event it points to. -/
structure EventCursor where
  curEvent : Option Nat
  curFieldIndex : Nat
  sourceStartIndex : Nat
  bankCount : Nat
  tofOffset : UInt32
  isCorrected : Bool
  bankNum : Nat
  bankStartIndex : Nat
  bankId : UInt32
  eventCount : Nat
deriving DecidableEq, Repr

/-- The cursor of a new packet. -/
def EventCursor.new : EventCursor where
  curEvent := none
  curFieldIndex := 0
  sourceStartIndex := 0
  bankCount := 0
  tofOffset := 0
  isCorrected := false
  bankNum := 0
  bankStartIndex := 0
  bankId := 0
  eventCount := 0

/-- `getSourceCORFlag`. -/
def EventCursor.getSourceCORFlag (c : EventCursor) : Bool := c.isCorrected

/-- `getSourceTOFOffset`. -/
def EventCursor.getSourceTOFOffset (c : EventCursor) : UInt32 := c.tofOffset

namespace BankedEventPkt

/-- The exception for a payload that is too short. -/
def tooShort (version : Nat) (secs nsecs : UInt32) (payloadLen : Nat) : String :=
  toString secs.toNat ++ "." ++ toString nsecs.toNat ++
    (if version = 0 then " BankedEvent V0"
      else if version = 1 then " BankedEvent V1"
      else " Newer BankedEvent") ++
    " packet is too short: " ++ toString payloadLen

/-- The constructor. -/
def ofWords : List UInt32 → Except String BankedEventPkt
  | payloadLen :: type :: secs :: nsecs :: fields =>
    if payloadLen.toNat < 16 then
      .error (tooShort (adaraPktVersion type.toNat) secs nsecs payloadLen.toNat)
    else .ok ⟨payloadLen.toNat, fields⟩
  | _ => .error "no packet header"

variable (pkt : BankedEventPkt)

/-- `m_lastFieldIndex`. -/
def lastFieldIndex : Nat := Word32.sub (pkt.payloadLen / 4) 1

/-- `firstEventInBank`. -/
def firstEventInBank (c : EventCursor) : Option EventCursor :=
  match pkt.fields[c.curFieldIndex]?, pkt.fields[Word32.add c.curFieldIndex 1]? with
  | some bankId, some eventCount =>
    let curFieldIndex := Word32.add c.curFieldIndex 2
    some { c with
      bankStartIndex := c.curFieldIndex
      bankId
      eventCount := eventCount.toNat
      curFieldIndex
      curEvent := if 0 < eventCount.toNat then some curFieldIndex else none }
  | _, _ => none

/-- The loop over the banks of a source, until one has an event. -/
def searchBanks : (fuel : Nat) → EventCursor → Option EventCursor
  | 0, _ => none
  | fuel + 1, c =>
    if c.bankNum ≤ c.bankCount ∧ c.curEvent = none then
      (firstEventInBank pkt c).bind fun c =>
        searchBanks fuel
          (if c.curEvent = none then { c with bankNum := Word32.add c.bankNum 1 } else c)
    else some c

/-- `firstEventInSource`. -/
def firstEventInSource (c : EventCursor) : Option EventCursor :=
  let start := c.curFieldIndex
  match pkt.fields[Word32.add start 3]? with
  | none => none
  | some bankCount =>
    let c := { c with sourceStartIndex := start, bankCount := bankCount.toNat }
    if 0 < bankCount.toNat then
      match pkt.fields[Word32.add start 2]? with
      | none => none
      | some tof =>
        searchBanks pkt (pkt.fields.length + 1) { c with
          tofOffset := if tof &&& 0x7fffffff != 0 then 1 else 0
          isCorrected := tof &&& 0x80000000 != 0
          bankNum := 1
          curFieldIndex := Word32.add start 4 }
    else some { c with curFieldIndex := Word32.add start 4, curEvent := none }

/-- The loop over the sources, until one has an event.  The two loops of the source differ
    in how they compare with the last index. -/
def searchSources (inPacket : Nat → Bool) : (fuel : Nat) → EventCursor → Option EventCursor
  | 0, _ => none
  | fuel + 1, c =>
    if c.curEvent = none ∧ inPacket c.curFieldIndex then
      (firstEventInSource pkt c).bind (searchSources inPacket fuel)
    else some c

/-- `firstEvent`. -/
def firstEvent (c : EventCursor) : Option EventCursor :=
  searchSources pkt (fun i => i ≤ pkt.lastFieldIndex) (pkt.fields.length + 1)
    { c with curEvent := none, curFieldIndex := 4 }

/-- `nextEvent`. -/
def nextEvent (c : EventCursor) : Option EventCursor :=
  match c.curEvent with
  | none => some c
  | some _ =>
    let cur := Word32.add c.curFieldIndex 2
    if cur < Word32.add (Word32.add c.bankStartIndex 2) (Word32.mul 2 c.eventCount) then
      some { c with curFieldIndex := cur, curEvent := some cur }
    else
      (searchBanks pkt (pkt.fields.length + 1) { c with
          curFieldIndex := cur
          curEvent := none
          bankNum := Word32.add c.bankNum 1 }).bind
        (searchSources pkt (fun i => i < pkt.lastFieldIndex) (pkt.fields.length + 1))

/-- The calls that move a cursor. -/
inductive CursorCall where
  | firstEvent
  | nextEvent
deriving DecidableEq, Repr

/-- Make a call. -/
def cursorStep (c : EventCursor) : CursorCall → Option EventCursor
  | .firstEvent => firstEvent pkt c
  | .nextEvent => nextEvent pkt c

/-- Read events with `nextEvent` until there are none, each with `curBankId`. -/
def eventsFrom : (fuel : Nat) → EventCursor → Option (List (UInt32 × Event))
  | 0, _ => none
  | fuel + 1, c =>
    match c.curEvent with
    | none => some []
    | some i =>
      match pkt.fields[i]?, pkt.fields[Word32.add i 1]? with
      | some tof, some pixel =>
        ((nextEvent pkt c).bind (eventsFrom fuel)).map fun rest =>
          (c.bankId, ⟨tof, pixel⟩) :: rest
      | _, _ => none

/-- All events of the packet: `firstEvent`, then `nextEvent`. -/
def readEvents : Option (List (UInt32 × Event)) :=
  (firstEvent pkt .new).bind (eventsFrom pkt (pkt.fields.length + 1))

end BankedEventPkt

end Adara.Native
