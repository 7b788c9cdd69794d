import Adara.Native.BankedEvent

/-! # Packets of banked events with states, and of beam monitors

`SMSControl::buildBankedStatePacket`, which writes the events of a pulse with states, and
`buildMonitorPacket`, which writes those of its beam monitors.  The `BeamMonitorPkt` reads
the latter back: a cursor over the words of the payload, moved by `nextSection` and
`nextEvent`.

A read outside the words of the packet has no result (`none`), and neither has a loop that
would only stop there. -/

namespace Adara.Native

namespace SMSControl

/-! ### Banked events with states -/

/-- `BANKED_EVENT_STATE_TYPE` and its version. -/
def bankedEventStateType : UInt32 := UInt32.ofNat (adaraPktType 0x4100 0x00)

/-- The events of one bank and state, with the bank's id on the wire and the state.  Banks
    without events are left out. -/
def bankStateWords (maxBank : Nat) (evs : List Event) (bi : Nat) : List UInt32 :=
  if evs = [] then []
  else
    [UInt32.ofNat (bi % (maxBank + 1)) - UInt32.ofNat PixelMap.realBankOffset,
      UInt32.ofNat (bi / (maxBank + 1)), UInt32.ofNat evs.length] ++ evs.flatMap Event.fields

/-- The section of one source. -/
def sourceStateWords (maxBank : Nat) (hwId : UInt32) (src : EventSource) : List UInt32 :=
  [hwId, src.intraPulseTime, src.tofField, src.activeBanks] ++
    src.banksArr.zipIdx.flatMap fun e => bankStateWords maxBank e.1 e.2

/-- The number of header words a source puts into `m_hdrs`. -/
def sourceStateHdrs (src : EventSource) : Nat :=
  4 + 3 * src.banksArr.countP fun evs => evs ≠ []

/-- The number of words reserved for `m_hdrs`. -/
def reservedStateHdrs (p : Pulse) : Nat :=
  Word32.add (Word32.add 8 (p.pulseSources.size * 4)) (Word32.mul p.numBanks.toNat 3)

/-- The payload length in the header. -/
def bankedStatePayloadLen (p : Pulse) : Nat :=
  Word32.sub (Word32.add (Word32.mul (reservedStateHdrs p) 4) (p.numEvents.toNat * 8)) 16

/-- The packet header, and the header of banked events. -/
def bankedStateHeader (pulseEnergy : UInt32 → UInt32) (p : Pulse) : List UInt32 :=
  [UInt32.ofNat (bankedStatePayloadLen p), bankedEventStateType,
    ((ofLex p.id).1 >>> 32).toUInt32, (ofLex p.id).1.toUInt32,
    if p.hasFlag PulseFlags.gotNeutrons then p.charge else 0,
    pulseEnergy p.ringPeriod, p.cycle, flagsWord p]

/-- `buildBankedStatePacket`: the words handed to `addPacket`.  The fragments point into
    `m_hdrs`, so it must not outgrow what was reserved. -/
def buildBankedStatePacket (maxBank : Nat) (pulseEnergy : UInt32 → UInt32) (p : Pulse) :
    Option (List UInt32) :=
  if reservedStateHdrs p < 8 + (p.pulseSources.entries.map fun e => sourceStateHdrs e.2).sum then
    none
  else
    some (bankedStateHeader pulseEnergy p ++
      p.pulseSources.entries.flatMap fun e => sourceStateWords maxBank e.1 e.2)

/-! ### Beam monitors -/

/-- `BEAM_MONITOR_EVENT_TYPE` and its version. -/
def beamMonitorEventType : UInt32 := UInt32.ofNat (adaraPktType 0x4001 0x01)

/-- The id of a beam monitor with its number of events. -/
def idCount (monId : UInt32) (mon : BeamMonitor) : UInt32 :=
  let id : UInt32 := monId <<< 22
  id ||| UInt32.ofNat mon.eventTof.length

/-- The section of one beam monitor. -/
def monitorWords (monId : UInt32) (mon : BeamMonitor) : List UInt32 :=
  [idCount monId mon, mon.sourceId, mon.tofField] ++ mon.eventTof

/-- The number of words reserved for `m_hdrs`. -/
def reservedMonitorHdrs (p : Pulse) : Nat := Word32.add 8 (p.monitors.size * 3)

/-- The payload length in the header. -/
def monitorPayloadLen (p : Pulse) : Nat :=
  Word32.sub (Word32.mul (Word32.add (reservedMonitorHdrs p) p.numMonEvents.toNat) 4) 16

/-- The packet header, and the header of beam monitor events. -/
def monitorHeader (pulseEnergy : UInt32 → UInt32) (p : Pulse) : List UInt32 :=
  [UInt32.ofNat (monitorPayloadLen p), beamMonitorEventType,
    ((ofLex p.id).1 >>> 32).toUInt32, (ofLex p.id).1.toUInt32,
    if p.hasFlag PulseFlags.gotNeutrons then p.charge else 0,
    pulseEnergy p.ringPeriod, p.cycle, flagsWord p]

/-- `buildMonitorPacket`: the words handed to `addPacket`.  Here too `m_hdrs` must not
    outgrow what was reserved. -/
def buildMonitorPacket (pulseEnergy : UInt32 → UInt32) (p : Pulse) : Option (List UInt32) :=
  if reservedMonitorHdrs p < 8 + 3 * p.monitors.size then none
  else
    some (monitorHeader pulseEnergy p ++
      p.monitors.entries.flatMap fun e => monitorWords e.1 e.2)

end SMSControl

/-! ### Reading beam monitors -/

/-- A `BeamMonitorPkt`: the payload length from the header, and the words behind it. -/
structure BeamMonitorPkt where
  payloadLen : Nat
  fields : List UInt32
deriving DecidableEq, Repr

/-- `m_sectionStartIndex`, which is 0 before the first section, and `m_eventNum`. -/
structure MonitorCursor where
  sectionStartIndex : Nat
  eventNum : Nat
deriving DecidableEq, Repr

/-- What the accessors give for an event. -/
structure MonitorEvent where
  risingEdge : Bool
  cycle : UInt32
  tof : UInt32
deriving DecidableEq, Repr

/-- What the accessors give for a section, and its events. -/
structure MonitorReading where
  monitorID : UInt32
  sourceID : UInt32
  tofOffset : UInt32
  tofCorrected : Bool
  events : List MonitorEvent
deriving DecidableEq, Repr

/-- The bits of an event: the edge, the cycle and the time of flight. -/
def MonitorEvent.ofRaw (rawEvent : UInt32) : MonitorEvent where
  risingEdge := rawEvent &&& 0x80000000 != 0
  cycle := (rawEvent &&& 0x7fe00000) >>> 21
  tof := rawEvent &&& 0x001fffff

namespace BeamMonitorPkt

/-- The exception for a payload that is too short. -/
def tooShort (version : Nat) (secs nsecs : UInt32) (payloadLen : Nat) : String :=
  toString secs.toNat ++ "." ++ toString nsecs.toNat ++
    (if version = 0 then " BeamMonitor V0"
      else if version = 1 then " BeamMonitor V1"
      else " Newer BeamMonitor") ++
    " packet is too short: " ++ toString payloadLen

/-- The constructor. -/
def ofWords : List UInt32 → Except String BeamMonitorPkt
  | payloadLen :: type :: secs :: nsecs :: fields =>
    if payloadLen.toNat < 16 then
      .error (tooShort (adaraPktVersion type.toNat) secs nsecs payloadLen.toNat)
    else .ok ⟨payloadLen.toNat, fields⟩
  | _ => .error "no packet header"

variable (pkt : BeamMonitorPkt)

/-- `EVENT_COUNT_MASK`. -/
def eventCountMask : UInt32 := 0x003fffff

/-- `nextSection`, with its result and the cursor it leaves. -/
def nextSection (c : MonitorCursor) : Option (Bool × MonitorCursor) := do
  let newSectionStart ←
    if c.sectionStartIndex = 0 then some 4
    else
      pkt.fields[c.sectionStartIndex]?.map fun field =>
        Word32.add (Word32.add c.sectionStartIndex 3) (field &&& eventCountMask).toNat
  if Word32.mul newSectionStart 4 < pkt.payloadLen then some (true, ⟨newSectionStart, 0⟩)
  else some (false, c)

/-- `nextEvent`, with the event, if there is one, and the cursor it leaves. -/
def nextEvent (c : MonitorCursor) : Option (Option MonitorEvent × MonitorCursor) := do
  if c.sectionStartIndex = 0 then some (none, c)
  else
    let field ← pkt.fields[c.sectionStartIndex]?
    if c.eventNum < (field &&& eventCountMask).toNat then
      let rawEvent ← pkt.fields[Word32.add (Word32.add c.sectionStartIndex 3) c.eventNum]?
      some (some (.ofRaw rawEvent), { c with eventNum := Word32.add c.eventNum 1 })
    else some (none, c)

/-- The calls that move a cursor. -/
inductive MonitorCall where
  | nextSection
  | nextEvent
deriving DecidableEq, Repr

/-- Make a call. -/
def monitorStep (c : MonitorCursor) : MonitorCall → Option MonitorCursor
  | .nextSection => (nextSection pkt c).map Prod.snd
  | .nextEvent => (nextEvent pkt c).map Prod.snd

/-- Read events with `nextEvent` until there are none. -/
def eventsFrom : (fuel : Nat) → MonitorCursor → Option (List MonitorEvent × MonitorCursor)
  | 0, _ => none
  | fuel + 1, c =>
    (nextEvent pkt c).bind fun
      | (none, c) => some ([], c)
      | (some ev, c) => (eventsFrom fuel c).map fun (evs, c) => (ev :: evs, c)

/-- The accessors of a section, and its events. -/
def readSection (c : MonitorCursor) : Option (MonitorReading × MonitorCursor) := do
  let field ← pkt.fields[c.sectionStartIndex]?
  let sourceID ← pkt.fields[Word32.add c.sectionStartIndex 1]?
  let tof ← pkt.fields[Word32.add c.sectionStartIndex 2]?
  let (events, c) ← eventsFrom pkt (pkt.fields.length + 1) c
  some
    ({ monitorID := field >>> 22
       sourceID
       tofOffset := tof &&& 0x7fffffff
       tofCorrected := tof &&& 0x80000000 != 0
       events }, c)

/-- Read sections with `nextSection` until there are none. -/
def sectionsFrom : (fuel : Nat) → MonitorCursor → Option (List MonitorReading)
  | 0, _ => none
  | fuel + 1, c =>
    (nextSection pkt c).bind fun
      | (false, _) => some []
      | (true, c) =>
        (readSection pkt c).bind fun (reading, c) =>
          (sectionsFrom fuel c).map fun rest => reading :: rest

/-- All sections of a new packet. -/
def readSections : Option (List MonitorReading) :=
  sectionsFrom pkt (pkt.fields.length + 1) ⟨0, 0⟩

end BeamMonitorPkt

end Adara.Native
