import Adara.Native.PulseEvents

/-! # The pulse buffer of the SMS

`SMSControl` collects pulses in a map ordered by pulse identifier until every
registered event source has completed them, and then records a prefix of the map.
This file models that part of the class: registration of event sources, `getPulse`
with its iterator cache and its overflow path, `pulseEvents`, `pulseRTDL`,
`markPartial`, `markComplete` and `popPulseBuffer`.

An iterator into the map is the serial number of the node it points to: nodes are
numbered in the order `getPulse` creates them, which is the order of the pulse
identifiers in `History.created`.  Dereferencing an iterator whose node is gone, or
one that never pointed anywhere, has no result (`none`).  `recordPulse` is taken not
to throw. -/

namespace Adara.Native

/-- A node of `m_pulses`. -/
structure Node where
  serial : Nat
  pulse : Pulse

abbrev PulseMap := SortedMap PulseIdentifier Node

/-- `(uint32_t) -1`. -/
def word32Max : Nat := 2 ^ 32 - 1

/-- What never changes while the SMS runs: the pixel map, the veto bits of the
    configured target station, and the bounds on the time between pulses. -/
structure Config where
  pixelMap : PixelMap
  targetVetoMask : UInt32
  interPulseTimeMin : UInt64
  interPulseTimeMax : UInt64

/-- What a call reads from outside: the control PVs, and the number of data
    sources. -/
structure Env where
  noEoPPulseBufferSize : Nat
  maxPulseBufferSize : Nat
  intermittentDataThreshold : Nat
  doPulsePchgCorrect : Bool
  doPulseVetoCorrect : Bool
  noRTDLPulses : Bool
  events : EventPVs
  numDataSources : Nat

/-- The settings taken over from the control PVs, each at its own rate. -/
structure Settings where
  noEoPPulseBufferSize : Nat
  maxPulseBufferSize : Nat
  intermittentDataThreshold : Nat
  doPulsePchgCorrect : Bool
  doPulseVetoCorrect : Bool
  events : EventSettings

/-- What `recordPulse` itself keeps between calls. -/
structure RecordState where
  noRTDLPulses : Bool
  cnt : Nat
  numStatesLast : Nat
  numStatesResetCount : UInt32

/-- One recording step: the buffer it started from, and the entries passed to
    `recordPulse` in order, as they were recorded. -/
structure Recording where
  buffered : List (PulseIdentifier × Nat)
  recorded : List (PulseIdentifier × Node)

/-- What the buffer has done so far: the pulses created, recorded and dropped, and the
    data sources marked intermittent. -/
structure History where
  created : List PulseIdentifier
  recordings : List Recording
  dropped : List (PulseIdentifier × Node)
  intermittent : List (Nat × Fin 256)

structure SMSControl where
  pulses : PulseMap
  eventSources : SourceSet
  eventSourcesIndex : Fin 256 → Nat
  noRegisteredEventSources : Bool
  noRegisteredEventSourcesCount : Nat
  lastPid : PulseIdentifier
  lastPulseIt : Option Nat
  lastPulseId : UInt64
  lastRingPeriod : UInt32
  settings : Settings
  record : RecordState
  getPulseCnt : Nat
  pulseEventsCnt : Nat
  markCompleteCnt : Nat
  history : History

namespace SMSControl

/-- The state after the constructor.  `memory` is what `m_eventSourcesIndex` happens to
    hold, as no constructor writes it; `m_lastPulseIt` points nowhere, and `m_lastPid` is
    value-initialised. -/
def initial (settings : Settings) (noRTDLPulses : Bool) (memory : Fin 256 → Nat) : SMSControl where
  pulses := .empty
  eventSources := ∅
  eventSourcesIndex := memory
  noRegisteredEventSources := true
  noRegisteredEventSourcesCount := 0
  lastPid := .mk 0 0
  lastPulseIt := none
  lastPulseId := 0
  lastRingPeriod := 0
  settings
  record := { noRTDLPulses, cnt := 0, numStatesLast := 1, numStatesResetCount := 10 }
  getPulseCnt := 0
  pulseEventsCnt := 0
  markCompleteCnt := 0
  history := { created := [], recordings := [], dropped := [], intermittent := [] }

/-! ### Iterators -/

/-- The entry an iterator points to. -/
def deref (S : SMSControl) (it : Option Nat) : Option (PulseIdentifier × Node) :=
  it.bind fun serial => S.pulses.entries.find? (fun e => e.2.serial = serial)

/-- Change the pulse of one entry in place. -/
def updatePulse (S : SMSControl) (pid : PulseIdentifier) (f : Pulse → Pulse) : SMSControl :=
  { S with
    pulses := S.pulses.mapVal fun k n => if k = pid then { n with pulse := f n.pulse } else n }

/-- The position of the last entry whose pulse is pending on no source. -/
def lastComplete (entries : List (PulseIdentifier × Node)) : Option Nat :=
  (entries.findIdxs (fun e => e.2.pulse.pending = ∅)).getLast?

/-! ### Taking over control PVs -/

def takeNoEoP (env : Env) (S : SMSControl) : SMSControl :=
  { S with settings := { S.settings with noEoPPulseBufferSize := env.noEoPPulseBufferSize } }

def takeMaxBuffer (env : Env) (S : SMSControl) : SMSControl :=
  { S with settings := { S.settings with maxPulseBufferSize := env.maxPulseBufferSize } }

def takeCorrections (env : Env) (S : SMSControl) : SMSControl :=
  { S with
    settings := { S.settings with
      doPulsePchgCorrect := env.doPulsePchgCorrect
      doPulseVetoCorrect := env.doPulseVetoCorrect } }

/-! ### Recording -/

/-- `correctPChargeVeto`: charge and veto flags of a pulse come with the next one,
    unless that is too near or too far in time. -/
def correctPChargeVeto (cfg : Config) (s : Settings) (p next : Pulse) : Pulse :=
  let sec (id : UInt64) : UInt64 := id >>> 32
  let nsec (id : UInt64) : UInt64 := id &&& 0xffffffff
  let pulseId := (ofLex p.id).1
  let nextPulseId := (ofLex next.id).1
  let interPulseTime :=
    (sec nextPulseId - sec pulseId) * 1000000000 + (nsec nextPulseId - nsec pulseId)
  if cfg.interPulseTimeMin < interPulseTime ∧ interPulseTime < cfg.interPulseTimeMax then
    let p :=
      if s.doPulsePchgCorrect then
        { p.clearFlag PulseFlags.pchargeUncorrected with
          charge :=
            match next.rtdl with
            | some rtdl => if next.charge = 0 then rtdl.pulseCharge else next.charge
            | none => next.charge }
      else p
    let p :=
      if s.doPulseVetoCorrect then
        { p.clearFlag PulseFlags.vetoUncorrected with vetoFlags := next.vetoFlags }
      else p
    match p.rtdl, next.rtdl with
    | some rtdl, some nextRtdl =>
      let rtdl :=
        if s.doPulsePchgCorrect then rtdl.setPulseCharge nextRtdl.pulseCharge else rtdl
      let rtdl := if s.doPulseVetoCorrect then rtdl.setVetoFlags nextRtdl.vetoFlags else rtdl
      { p with rtdl := some rtdl }
    | _, _ => p
  else p

/-- The number of states in the banked events of a pulse, counting state 0. -/
def pulseNumStates (cfg : Config) (p : Pulse) : Nat :=
  (p.pulseSources.entries.flatMap fun e =>
    (e.2.banksArr.findIdxs (· ≠ [])).map (· / (maxBank cfg.pixelMap + 1) + 1)).foldl max 1

/-- What building the banked packet of a pulse does to the state counts: after ten
    pulses with fewer states the number for new sources goes down. -/
def countStates (cfg : Config) (r : RecordState) (p : Pulse) : RecordState :=
  let numStates := if p.hasFlag PulseFlags.hasStates then pulseNumStates cfg p else 1
  if numStates < r.numStatesLast then
    let resetCount := r.numStatesResetCount - 1
    { r with
      numStatesResetCount := resetCount
      numStatesLast := if resetCount = 0 then numStates else r.numStatesLast }
  else if p.hasFlag PulseFlags.hasStates ∧ r.numStatesLast = numStates then
    { r with numStatesResetCount := 10 }
  else r

/-- `recordPulse`: the pulse as its packets are built from it. -/
def recordPulse (cfg : Config) (env : Env) (r : RecordState) (p : Pulse) :
    RecordState × Pulse :=
  let r :=
    if p.rtdl.isSome then r
    else
      let cnt := Word32.add r.cnt 1
      { r with cnt, noRTDLPulses := if cnt % 3600 = 0 then env.noRTDLPulses else r.noRTDLPulses }
  let p := p.setFlagIf p.rtdl.isNone PulseFlags.missingRtdl
  let p := p.setFlagIf (p.vetoFlags &&& cfg.targetVetoMask != 0) PulseFlags.pulseVeto
  (countStates cfg r p, p)

/-- The loop that records the first `n` entries.  A recorded entry that is the cached
    one invalidates the cache, except in the overflow path of `getPulse`, which
    overwrites the cache anyway; that path also marks pulses still pending as partial. -/
def recordLoop (cfg : Config) (env : Env) (s : Settings) (overflow : Bool) :
    (n : Nat) → RecordState → PulseIdentifier → List (PulseIdentifier × Node) →
      RecordState × PulseIdentifier × List (PulseIdentifier × Node)
  | 0, r, lastPid, _ => (r, lastPid, [])
  | _ + 1, r, lastPid, [] => (r, lastPid, [])
  | n + 1, r, lastPid, e :: rest =>
    let p := e.2.pulse.setFlagIf (overflow && e.2.pulse.pending ≠ ∅) PulseFlags.partialData
    let p :=
      match rest.head? with
      | some next =>
        if s.doPulsePchgCorrect || s.doPulseVetoCorrect then
          correctPChargeVeto cfg s p next.2.pulse
        else p
      | none => p
    let (r, p) := recordPulse cfg env r p
    let lastPid := if !overflow && e.1 = lastPid then invalidPid else lastPid
    let (r, lastPid, recorded) := recordLoop cfg env s overflow n r lastPid rest
    (r, lastPid, (e.1, { e.2 with pulse := p }) :: recorded)

/-- Record the first `n` pulses of the buffer and erase them. -/
def recordPrefix (cfg : Config) (env : Env) (overflow : Bool) (n : Nat) (S : SMSControl) :
    SMSControl :=
  let (record, lastPid, recorded) :=
    recordLoop cfg env S.settings overflow n S.record S.lastPid S.pulses.entries
  { S with
    record
    lastPid
    pulses := S.pulses.drop recorded.length
    history := { S.history with
      recordings := S.history.recordings ++
        [{ buffered := S.pulses.entries.map fun e => (e.1, e.2.serial), recorded }] } }

/-- The walk back from the end of the buffer over the pulses to hold back, `hold` of
    them still to go.  `rit` counts how far the reverse iterator is from the end, and
    pushes the last pulse to record (`lastMinusBuffer`) along when it catches up. -/
def holdBack (size : Nat) : (hold : Nat) → (lastMinusBuffer rit : Nat) → Option Nat
  | 0, lastMinusBuffer, _ => some lastMinusBuffer
  | hold + 1, lastMinusBuffer, rit =>
    if rit < size then
      if lastMinusBuffer = size - 1 - rit then
        if lastMinusBuffer ≠ 0 then holdBack size hold (lastMinusBuffer - 1) (rit + 1) else none
      else holdBack size hold lastMinusBuffer (rit + 1)
    else none

/-! ### Event sources -/

/-- `registerEventSource`: the first free index, an exception where there is none. -/
def registerEventSource (S : SMSControl) (srcId : Nat) :
    Except String (SMSControl × Fin 256) :=
  match (List.finRange 256).find? (fun i => i ∉ S.eventSources) with
  | none => .error "No more event sources available"
  | some i => .ok
    ({ S with
        noRegisteredEventSources := false
        noRegisteredEventSourcesCount :=
          if S.noRegisteredEventSources then 0 else S.noRegisteredEventSourcesCount
        eventSources := insert i S.eventSources
        eventSourcesIndex := Function.update S.eventSourcesIndex i (Word32.sub srcId 1) }, i)

/-- Release every pulse from a source that goes away. -/
def releaseAll (S : SMSControl) (smsId : Fin 256) : SMSControl :=
  { S with
    pulses := S.pulses.mapVal fun _ n => { n with pulse := n.pulse.releasePartial smsId } }

/-- Record what a departing source has completed.  Pulses are held back unless it is
    the last registered source. -/
def recordReleased (cfg : Config) (env : Env) (S : SMSControl) : SMSControl :=
  match lastComplete S.pulses.entries with
  | none => S
  | some last =>
    let S := takeNoEoP env S
    let hold := if 1 < S.eventSources.card then S.settings.noEoPPulseBufferSize else 0
    match holdBack S.pulses.size hold last 0 with
    | none => S
    | some lastMinusBuffer =>
      recordPrefix cfg env false (lastMinusBuffer + 1) (takeCorrections env S)

/-- Free the index of a source. -/
def freeIndex (S : SMSControl) (smsId : Fin 256) : SMSControl :=
  let eventSources := S.eventSources.erase smsId
  { S with
    eventSources
    eventSourcesIndex := Function.update S.eventSourcesIndex smsId word32Max
    noRegisteredEventSources := if eventSources = ∅ then true else S.noRegisteredEventSources
    noRegisteredEventSourcesCount :=
      if eventSources = ∅ then 0 else S.noRegisteredEventSourcesCount }

/-- `unregisterEventSource`.  The source id only shows in log messages; without an
    index (`-1`) nothing happens. -/
def unregisterEventSource (cfg : Config) (env : Env) (S : SMSControl) (smsId : Option (Fin 256)) :
    SMSControl :=
  match smsId with
  | none => S
  | some i => freeIndex (recordReleased cfg env (releaseAll S i)) i

/-! ### Looking up a pulse -/

/-- Flush a buffer that has grown above the limit, so that it is below it with the new
    pulse. -/
def flushOverflow (cfg : Config) (env : Env) (S : SMSControl) : SMSControl :=
  let S := if S.getPulseCnt % 3600 = 0 then takeMaxBuffer env S else S
  if S.settings.maxPulseBufferSize < S.pulses.size then
    recordPrefix cfg env true ((S.pulses.size - S.settings.maxPulseBufferSize + 1) % 2 ^ 32)
      (takeCorrections env S)
  else S

/-- A new pulse as `getPulse` prepares it: its charge and veto flags are still those of
    the pulse before. -/
def newPulse (S : SMSControl) (pid : PulseIdentifier) : Pulse :=
  (((Pulse.new pid S.eventSources).setFlag PulseFlags.pchargeUncorrected).setFlag
    PulseFlags.vetoUncorrected).setFlagIf (0 < (ofLex pid).2) PulseFlags.duplicatePulse

/-- The end of `getPulse`: insert a new pulse and cache it. -/
def insertPulse (S : SMSControl) (pid : PulseIdentifier) (p : Pulse) : SMSControl :=
  { S with
    pulses := S.pulses.insert pid ⟨S.history.created.length, p⟩
    lastPid := pid
    lastPulseIt := some S.history.created.length
    history := { S.history with created := S.history.created ++ [pid] } }

/-- Count a pulse to be created, and note the last pulse id before it. -/
def countPulse (S : SMSControl) (pid : PulseIdentifier) : SMSControl :=
  { S with
    getPulseCnt := Word32.add S.getPulseCnt 1
    lastPulseId :=
      match S.pulses.entries.getLast? with
      | some e => (ofLex e.1).1
      | none => (ofLex pid).1 }

/-- `getPulse` on an identifier that is not in the buffer.  Every 60th time it checks
    for overflow. -/
def createPulse (cfg : Config) (env : Env) (S : SMSControl) (pid : PulseIdentifier) :
    SMSControl :=
  let S := countPulse S pid
  let p := newPulse S pid
  insertPulse (if S.getPulseCnt % 60 = 0 then flushOverflow cfg env S else S) pid p

/-- `getPulse`: the cached iterator, the entry found, or a new entry. -/
def getPulse (cfg : Config) (env : Env) (S : SMSControl) (pid : PulseIdentifier) :
    SMSControl × Option Nat :=
  if pid = S.lastPid then (S, S.lastPulseIt)
  else
    match S.pulses.find? pid with
    | some n => ({ S with lastPid := pid, lastPulseIt := some n.serial }, some n.serial)
    | none =>
      let S := createPulse cfg env S pid
      (S, S.lastPulseIt)

/-- `getPulse`, and the entry behind the iterator it returns. -/
def lookup (cfg : Config) (env : Env) (S : SMSControl) (pid : PulseIdentifier) :
    Option (SMSControl × PulseIdentifier × Node) :=
  let (S, it) := getPulse cfg env S pid
  (S.deref it).map fun e => (S, e.1, e.2)

/-! ### Events and marks -/

/-- The event counts `pulseEvents` adds up for its caller. -/
structure EventCounts where
  eventCount : Nat
  metaCount : Nat
  errCount : Nat
  monitorCount : Nat

/-- Count a call of `pulseEvents`; once a minute it takes over its PVs. -/
def countPulseEvents (env : Env) (S : SMSControl) : SMSControl :=
  let cnt := Word32.add S.pulseEventsCnt 1
  { S with
    pulseEventsCnt := cnt
    settings := { S.settings with
      events :=
        if cnt % 3600 = 0 then S.settings.events.refresh env.events else S.settings.events } }

/-- Keep the state counts the event loop has updated. -/
def storeStates (S : SMSControl) (a : EventLoop) : SMSControl :=
  { S with
    record := { S.record with
      numStatesLast := a.numStatesLast, numStatesResetCount := a.numStatesResetCount } }

/-- `pulseEvents`. -/
def pulseEvents (cfg : Config) (env : Env) (S : SMSControl) (pkt : RawDataPkt) (hwId : UInt32)
    (dup : UInt32) (isMapped mixedDataPackets : Bool) : Option (SMSControl × EventCounts) :=
  (lookup cfg env S (.mk pkt.pulseId dup)).bind fun (S, pid, n) =>
    let S := countPulseEvents env S
    (fileEvents S.settings.events cfg.pixelMap S.lastRingPeriod S.record.numStatesLast
        S.record.numStatesResetCount pkt hwId isMapped n.pulse).map fun a =>
      (storeStates (S.updatePulse pid fun _ => finishEvents pkt hwId mixedDataPackets a) a,
        ⟨a.eventCount, a.metaCount, a.errCount, a.monitorCount⟩)

/-- `markPartial`. -/
def markPartial (cfg : Config) (env : Env) (S : SMSControl) (pulseId : UInt64) (dup : UInt32) :
    Option SMSControl :=
  (lookup cfg env S (.mk pulseId dup)).map fun (S, pid, _) =>
    S.updatePulse pid (·.setFlag PulseFlags.partialData)

/-! ### Completing pulses -/

/-- Count one more pulse for each source it is pending on, up to the first source that
    reaches the threshold. -/
def scanSources (threshold : Nat) (pending : SourceSet) :
    List (Fin 256) → (Fin 256 → Nat) → Except (Fin 256) (Fin 256 → Nat)
  | [], counts => .ok counts
  | i :: is, counts =>
    if i ∈ pending then
      if threshold ≤ counts i + 1 then .error i
      else scanSources threshold pending is (Function.update counts i (counts i + 1))
    else scanSources threshold pending is counts

/-- The first source found pending for `threshold` pulses. -/
def findIntermittent (threshold : Nat) :
    List (PulseIdentifier × Node) → (Fin 256 → Nat) → Option (Fin 256)
  | [], _ => none
  | e :: rest, counts =>
    match scanSources threshold e.2.pulse.pending (List.finRange 256) counts with
    | .error i => some i
    | .ok counts => findIntermittent threshold rest counts

/-- The intermittent source `markComplete` identifies, when there are enough pulses and
    more than one source. -/
def intermittentSource (S : SMSControl) : Option (Fin 256) :=
  let threshold := S.settings.intermittentDataThreshold
  if 0 < threshold ∧ threshold < S.pulses.size ∧ 1 < S.eventSources.card then
    findIntermittent threshold S.pulses.entries fun _ => 0
  else none

/-- Whether an index leads back to a data source. -/
def indexValid (env : Env) (S : SMSControl) (i : Fin 256) : Bool :=
  S.eventSourcesIndex i ≠ word32Max ∧ S.eventSourcesIndex i < env.numDataSources

/-- `setIntermittent` on the data source behind an index. -/
def markIntermittent (S : SMSControl) (i : Fin 256) : SMSControl :=
  { S with
    history := { S.history with
      intermittent := S.history.intermittent ++ [(S.eventSourcesIndex i, i)] } }

/-- Unregister an intermittent source, once its data source is marked. -/
def dropIntermittent (cfg : Config) (env : Env) (S : SMSControl) : SMSControl :=
  match intermittentSource S with
  | none => S
  | some i =>
    if indexValid env S i then unregisterEventSource cfg env (markIntermittent S i) (some i)
    else S

/-- The first lines of `markComplete`: once a minute take over the threshold. -/
def refreshThreshold (env : Env) (S : SMSControl) : SMSControl :=
  let cnt := Word32.add S.markCompleteCnt 1
  { S with
    markCompleteCnt := cnt
    settings := { S.settings with
      intermittentDataThreshold :=
        if cnt % 3600 = 0 then env.intermittentDataThreshold
        else S.settings.intermittentDataThreshold } }

/-- Mark the current pulse complete for a source.  Pulses before it will not be completed
    by that source any more. -/
def completeFor (S : SMSControl) (current : PulseIdentifier) (smsId : Option (Fin 256)) :
    SMSControl :=
  match smsId with
  | none => S
  | some i =>
    { S with
      pulses := S.pulses.mapVal fun pid n =>
        if pid < current then { n with pulse := n.pulse.releasePartial i }
        else if pid = current then
          { n with pulse := { n.pulse with pending := n.pulse.pending.erase i } }
        else n }

/-- The last pulse to record, before any is held back: the current pulse if it is now
    complete, else the last complete one before it, which is looked for only where a
    source is given. -/
def lastToRecord (S : SMSControl) (current : PulseIdentifier) (smsId : Option (Fin 256)) :
    Option Nat :=
  let before := S.pulses.entries.takeWhile (·.1 < current)
  match S.pulses.find? current with
  | none => none
  | some n =>
    if n.pulse.pending = ∅ then some before.length
    else if smsId.isSome then lastComplete before
    else none

/-- The recording part of `markComplete`. -/
def recordCompleted (cfg : Config) (env : Env) (S : SMSControl) (last : Nat) : SMSControl :=
  let refresh := S.markCompleteCnt % 600 = 0
  let S := if refresh then takeNoEoP env S else S
  match holdBack S.pulses.size S.settings.noEoPPulseBufferSize last 0 with
  | none => S
  | some lastMinusBuffer =>
    recordPrefix cfg env false (lastMinusBuffer + 1) (if refresh then takeCorrections env S else S)

/-- `markComplete`, from the point where it has looked up its pulse. -/
def completeCurrent (cfg : Config) (env : Env) (S : SMSControl) (current : PulseIdentifier)
    (smsId : Option (Fin 256)) : SMSControl :=
  let S := completeFor S current smsId
  match lastToRecord S current smsId with
  | none => S
  | some last => recordCompleted cfg env S last

/-- `markComplete`. -/
def markComplete (cfg : Config) (env : Env) (S : SMSControl) (pulseId : UInt64) (dup : UInt32)
    (smsId : Option (Fin 256)) : Option SMSControl :=
  let S := dropIntermittent cfg env (refreshThreshold env S)
  (lookup cfg env S (.mk pulseId dup)).map fun (S, current, _) =>
    completeCurrent cfg env S current smsId

/-- What a pulse takes from its RTDL. -/
def takeRTDL (pkt : RTDLPkt) (p : Pulse) : Pulse :=
  let neutrons := pkt.gotDataFlags && pkt.dataFlags &&& dataFlagGotNeutrons != 0
  let metadata := pkt.gotDataFlags && pkt.dataFlags &&& dataFlagGotMetadata != 0
  { (p.setFlagIf neutrons PulseFlags.gotNeutrons).setFlagIf metadata PulseFlags.gotMetadata with
    vetoFlags := pkt.vetoFlags
    cycle := pkt.cycle
    ringPeriod := pkt.ringPeriod
    rtdl := some pkt }

def storeRing (S : SMSControl) (pkt : RTDLPkt) : SMSControl :=
  { S with lastRingPeriod := pkt.ringPeriod }

/-- Count a pulse for which no event source was registered. -/
def countUnregistered (S : SMSControl) (p : Pulse) : SMSControl :=
  { S with
    noRegisteredEventSourcesCount :=
      if p.numEventSources = 0 then Word32.add S.noRegisteredEventSourcesCount 1
      else S.noRegisteredEventSourcesCount }

/-- `pulseRTDL`: without any event source to wait for, the pulse is complete but
    partial. -/
def pulseRTDL (cfg : Config) (env : Env) (S : SMSControl) (pkt : RTDLPkt) (dup : UInt32) :
    Option SMSControl :=
  (lookup cfg env S (.mk pkt.pulseId dup)).bind fun (S, pid, n) =>
    if n.pulse.rtdl.isSome then some S
    else
      let S := storeRing (S.updatePulse pid (takeRTDL pkt)) pkt
      if n.pulse.pending = ∅ then
        let S := countUnregistered S n.pulse
        let S := S.updatePulse pid (·.setFlag PulseFlags.partialData)
        markComplete cfg env S pkt.pulseId dup none
      else some S

/-! ### Popping a pulse by hand -/

/-- The position a pop index stands for: counted from the end when negative, from one
    otherwise, with zero meaning the first. -/
def popPosition (size : Nat) (pulseIndex : Int) : Option Nat :=
  if size = 0 then none
  else if size < pulseIndex.natAbs then none
  else if pulseIndex < 0 then some (size - pulseIndex.natAbs)
  else some (pulseIndex.natAbs - 1)

/-- `popPulseBuffer`. -/
def popPulseBuffer (S : SMSControl) (pulseIndex : Int) : SMSControl :=
  match popPosition S.pulses.size pulseIndex with
  | none => S
  | some i =>
    match S.pulses.entries[i]? with
    | none => S
    | some e =>
      { S with
        lastPid := if e.1 = S.lastPid then invalidPid else S.lastPid
        pulses := S.pulses.eraseIdx i
        history := { S.history with dropped := S.history.dropped ++ [e] } }

end SMSControl

end Adara.Native
