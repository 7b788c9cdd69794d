import Adara.Native.Pulse

/-! # Hardware sources

A data source keeps an `HWSource` for every hardware source it hears from, with a short
list of the pulses it has seen last, newest first.  A pulse is found in the list by its
invariants; a pulse that is not there is pushed to the front, and the oldest ones are
ended and popped to keep the list short.  This file models the class, `handleDataPkt`
for the packets of one hardware source, and what `unregisterHWSources` and
`setIntermittent` do to it.

Entries are numbered in the order they are created, and the calls the source makes are
kept in order, with the entries they are made for. -/

namespace Adara.Native

/-- `PulseInvariants`: what stays the same for all packets of a pulse, and two
    tagalongs. -/
structure PulseInvariants where
  pulseId : UInt64
  flavor : UInt32
  intraPulseTime : UInt32
  pulseCharge : UInt32
  cycle : UInt32
  vetoFlags : UInt32
  timingStatus : UInt32
  pulseGood : Bool
  dupCount : UInt32
deriving DecidableEq, Repr

/-- `operator==`, which leaves out the tagalongs. -/
def PulseInvariants.same (p1 p2 : PulseInvariants) : Bool :=
  p1.pulseId = p2.pulseId ∧ p1.flavor = p2.flavor ∧ p1.pulseCharge = p2.pulseCharge ∧
    p1.vetoFlags = p2.vetoFlags ∧ p1.cycle = p2.cycle ∧ p1.timingStatus = p2.timingStatus ∧
    p1.intraPulseTime = p2.intraPulseTime

/-- An entry of `m_pulseSeqList`: the pulse and its packet sequence number. -/
structure PulseEntry where
  serial : Nat
  pulse : PulseInvariants
  seq : UInt32
deriving DecidableEq, Repr

/-- What identifies an entry, and the pulse it stands for in the SMS. -/
structure PulseRef where
  serial : Nat
  pulseId : UInt64
  dupCount : UInt32
deriving DecidableEq, Repr

def PulseEntry.ref (e : PulseEntry) : PulseRef := ⟨e.serial, e.pulse.pulseId, e.pulse.dupCount⟩

/-- The calls a hardware source makes, to `SMSControl` and to its data source. -/
inductive Call where
  | markPartial (ref : PulseRef)
  | markComplete (ref : PulseRef) (smsId : Option (Fin 256))
  | pulseEvents (ref : PulseRef) (pkt : RawDataPkt) (hwId : UInt32)
      (isMapped mixedDataPackets : Bool)
  | registerEventSource
  | unregisterEventSource (smsId : Fin 256)
  | resetMaxTime
deriving DecidableEq

/-- What handling a packet reads from outside: whether the shared count of new pulses
    comes to a refresh of the list bound, the bound, the time in seconds, the options of
    the data source, the intermittent data threshold, and the index a registration would
    return. -/
structure DataEnv where
  refreshMax : Bool
  maxPulseSeqList : UInt32
  now : Int
  checkSourceSequence : Bool
  checkPulseSequence : Bool
  mixedDataPackets : Bool
  ignoreEoP : Bool
  intermittentDataThreshold : UInt32
  registered : Fin 256

/-- `smsId` is `none` for the value `-1` of a source that is not registered. -/
structure HWSource where
  hwId : UInt32
  smsId : Option (Fin 256)
  pulseSeqList : List PulseEntry
  maxPulseSeqList : UInt32
  intermittent : Bool
  recoverPktCount : UInt32
  lastPulse : UInt64
  sourceSeq : UInt32
  /-- The number of entries created. -/
  created : Nat
  /-- The entries `newPulse` has accepted as good. -/
  accepted : List PulseRef
  calls : List Call

namespace HWSource

/-- The constructor. -/
def new (hwId : UInt32) (smsId : Fin 256) (maxPulseSeqList : UInt32) : HWSource where
  hwId
  smsId := some smsId
  pulseSeqList := []
  maxPulseSeqList := if maxPulseSeqList < 1 then 1 else maxPulseSeqList
  intermittent := false
  recoverPktCount := 0
  lastPulse := 0
  sourceSeq := 0xffffffff
  created := 0
  accepted := []
  calls := []

def call (s : HWSource) (c : Call) : HWSource := { s with calls := s.calls ++ [c] }

/-- `m_pulseGood` of the entry at a position. -/
def good (s : HWSource) (i : Nat) : Bool :=
  (s.pulseSeqList[i]?.map (·.pulse.pulseGood)).getD false

/-- Set `m_pulseGood` of the entry at a position. -/
def setGood (s : HWSource) (i : Nat) (good : Bool) : HWSource :=
  { s with
    pulseSeqList :=
      s.pulseSeqList.modify i fun e => { e with pulse := { e.pulse with pulseGood := good } } }

/-! ### Ending a pulse -/

/-- Mark the pulse at a position partial, unless it has been processed. -/
def partialPulse (s : HWSource) (i : Nat) : HWSource :=
  match s.pulseSeqList[i]? with
  | some e => if e.pulse.pulseGood then s.call (.markPartial e.ref) else s
  | none => s

/-- Mark the pulse at a position complete, unless it has been processed, and never
    again. -/
def completePulse (s : HWSource) (i : Nat) : HWSource :=
  match s.pulseSeqList[i]? with
  | some e =>
    if e.pulse.pulseGood then (s.call (.markComplete e.ref s.smsId)).setGood i false else s
  | none => s

/-- The loop over the pulses older than the one at `i`, from position `j` towards the
    front. -/
def endOlder (i : Nat) : (j : Nat) → HWSource → HWSource
  | 0, s => s
  | j + 1, s =>
    if j + 1 = i then s else endOlder i j ((s.partialPulse (j + 1)).completePulse (j + 1))

/-- `endPulse`: without an end of pulse the pulse is partial, with one every older
    pulse is. -/
def endPulse (s : HWSource) (i : Nat) (eop : Bool) : HWSource :=
  if i < s.pulseSeqList.length then
    if eop then (endOlder i (s.pulseSeqList.length - 1) s).completePulse i
    else (s.partialPulse i).completePulse i
  else s

/-! ### Finding or adding a pulse -/

/-- The invariants of a packet's pulse. -/
def invariantsOf (pkt : RawDataPkt) : PulseInvariants where
  pulseId := pkt.pulseId
  flavor := pkt.flavor
  intraPulseTime := pkt.intraPulseTime
  pulseCharge := pkt.pulseCharge
  cycle := pkt.cycle
  vetoFlags := pkt.vetoFlags
  timingStatus := pkt.timingStatus
  pulseGood := false
  dupCount := 0xffffffff

/-- `findPulseSequence`: the entry with these invariants, and the number of entries with
    this pulse id, or what the pulse itself says where it is found. -/
def findPulseSequence (s : HWSource) (pulse : PulseInvariants) : Option Nat × UInt32 :=
  match (s.pulseSeqList.findIdxs (·.pulse.same pulse)).getLast? with
  | some i => (some i, pulse.dupCount)
  | none => (none, UInt32.ofNat (s.pulseSeqList.countP (·.pulse.pulseId = pulse.pulseId)))

/-- Push a new entry to the front. -/
def pushPulse (s : HWSource) (pulse : PulseInvariants) : HWSource :=
  { s with
    pulseSeqList := ⟨s.created, pulse, 0⟩ :: s.pulseSeqList
    created := s.created + 1
    lastPulse := if s.lastPulse < pulse.pulseId then pulse.pulseId else s.lastPulse }

/-- Take over the list bound, which is at least one. -/
def refreshBound (env : DataEnv) (s : HWSource) : HWSource :=
  if env.refreshMax ∧ env.maxPulseSeqList ≠ s.maxPulseSeqList then
    { s with maxPulseSeqList := if env.maxPulseSeqList < 1 then 1 else env.maxPulseSeqList }
  else s

/-- When the oldest pulse has the largest pulse time, that time was bogus: find the
    largest one without it. -/
def resetLastPulse (s : HWSource) (old : PulseEntry) : HWSource :=
  if old.pulse.pulseId = s.lastPulse then
    { s with
      lastPulse := s.pulseSeqList.dropLast.foldl
        (fun m e => if m < e.pulse.pulseId then e.pulse.pulseId else m) 0
      calls := s.calls ++ [.resetMaxTime] }
  else s

/-- End and pop the oldest pulse. -/
def evictOldest (s : HWSource) : HWSource :=
  match s.pulseSeqList.getLast? with
  | none => s
  | some old =>
    let s := (s.resetLastPulse old).endPulse (s.pulseSeqList.length - 1) false
    { s with pulseSeqList := s.pulseSeqList.dropLast }

/-- End and pop the `n` oldest pulses. -/
def evictMany : (n : Nat) → HWSource → HWSource
  | 0, s => s
  | n + 1, s => evictMany n s.evictOldest

/-- The loop that keeps the list within its bound: each round pops one entry. -/
def keepSize (s : HWSource) : HWSource :=
  evictMany (s.pulseSeqList.length - s.maxPulseSeqList.toNat) s

/-- `getPulse`: the state, the position of the packet's pulse, and whether it is new. -/
def getPulse (env : DataEnv) (s : HWSource) (pkt : RawDataPkt) : HWSource × Nat × Bool :=
  let pulse := invariantsOf pkt
  match s.findPulseSequence pulse with
  | (some i, _) => (s, i, false)
  | (none, dupCount) =>
    (((s.pushPulse { pulse with dupCount }).refreshBound env).keepSize, 0, true)

/-! ### Handling a packet -/

def facilityStartTime : Int := 512715600

def secsPerWeek : Int := 604800

/-- Whether a pulse time is neither before the facility started nor more than a week
    ahead. -/
def pulseTimeGood (now : Int) (pulseId : UInt64) : Bool :=
  let sec : Int := (pulseId >>> 32).toNat
  facilityStartTime ≤ sec ∧ sec ≤ now - epicsEpochOffset + secsPerWeek

/-- `newPulse`: whether the entry at `i` counts as good. -/
def newPulse (env : DataEnv) (s : HWSource) (pkt : RawDataPkt) (i : Nat) : HWSource :=
  let good := pulseTimeGood env.now pkt.pulseId
  let s := s.setGood i good
  match s.pulseSeqList[i]? with
  | some e => if good then { s with accepted := s.accepted ++ [e.ref] } else s
  | none => s

/-- `checkPulseSeq`. -/
def checkPulseSeq (s : HWSource) (pkt : RawDataPkt) (i : Nat) : HWSource × Bool :=
  match s.pulseSeqList[i]? with
  | some e =>
    ({ s with
        pulseSeqList := s.pulseSeqList.modify i fun e => { e with seq := (e.seq + 1) % 0x8000 } },
      pkt.pulseSeq = e.seq)
  | none => (s, pkt.pulseSeq = 0xffffffff)

/-- `checkSourceSeq`: the first sequence number is taken as it comes. -/
def checkSourceSeq (s : HWSource) (pkt : RawDataPkt) : HWSource × Bool :=
  if pkt.sourceSeq = s.sourceSeq then
    ({ s with sourceSeq := (s.sourceSeq + 1) % 0x10000 }, true)
  else
    ({ s with sourceSeq := (pkt.sourceSeq + 1) % 0x10000 }, s.sourceSeq = 0xffffffff)

/-- An intermittent source counts the packets it sends again, and is registered anew
    when there are enough. -/
def recover (env : DataEnv) (s : HWSource) : HWSource :=
  let recoverCount := s.recoverPktCount + 1
  if recoverCount < env.intermittentDataThreshold then { s with recoverPktCount := recoverCount }
  else
    { s.call .registerEventSource with
      smsId := some env.registered, intermittent := false, recoverPktCount := 0 }

/-- Pass the events of a good pulse on, and mark it partial after a sequence error. -/
def passEvents (env : DataEnv) (s : HWSource) (pkt : RawDataPkt) (isMapped : Bool) (i : Nat)
    (sourceSeqOk : Bool) : HWSource :=
  match s.pulseSeqList[i]? with
  | none => s
  | some e =>
    if e.pulse.pulseGood then
      let s := s.call (.pulseEvents e.ref pkt s.hwId isMapped env.mixedDataPackets)
      let (s, pulseSeqOk) := if env.checkPulseSequence then s.checkPulseSeq pkt i else (s, true)
      if !pulseSeqOk || !sourceSeqOk then s.call (.markPartial e.ref) else s
    else s

/-- `handleDataPkt` from the point where it has dealt with intermittent sources. -/
def processPulse (env : DataEnv) (s : HWSource) (pkt : RawDataPkt) (isMapped : Bool) (i : Nat)
    (isNewPulse sourceSeqOk : Bool) : HWSource :=
  let s := if isNewPulse then s.newPulse env pkt i else s
  let s := s.passEvents env pkt isMapped i sourceSeqOk
  if !env.ignoreEoP && pkt.endOfPulse then s.endPulse i true else s

/-- `handleDataPkt`. -/
def handleDataPkt (env : DataEnv) (s : HWSource) (pkt : RawDataPkt) (isMapped : Bool) : HWSource :=
  let (s, i, isNewPulse) := s.getPulse env pkt
  let (s, sourceSeqOk) :=
    if env.checkSourceSequence then s.checkSourceSeq pkt else (s, true)
  if s.intermittent then
    if !isNewPulse && pkt.events.length = 0 then s.setGood i false
    else (s.recover env).processPulse env pkt isMapped i isNewPulse sourceSeqOk
  else s.processPulse env pkt isMapped i isNewPulse sourceSeqOk

/-! ### Leaving -/

/-- End every pulse, from position `j` towards the front. -/
def endAll : (j : Nat) → HWSource → HWSource
  | 0, s => s
  | j + 1, s => endAll j (s.endPulse j false)

/-- `unregisterHWSources`, for this source: a registered source ends its pulses, oldest
    first, and is unregistered. -/
def unregister (s : HWSource) : HWSource :=
  match s.smsId with
  | none => s
  | some smsId =>
    ({ endAll s.pulseSeqList.length s with pulseSeqList := [] }).call (.unregisterEventSource smsId)

/-- `DataSource::setIntermittent`, for this source: an intermittent source forgets what
    it would have to complete. -/
def setIntermittent (env : DataEnv) (s : HWSource) (intermittent : Bool) : HWSource :=
  if intermittent then
    { s with
      pulseSeqList := s.pulseSeqList.map fun e =>
        { e with pulse := { e.pulse with pulseGood := false } }
      smsId := none
      intermittent := true }
  else
    { s.call .registerEventSource with smsId := some env.registered, intermittent := false }

end HWSource

end Adara.Native
