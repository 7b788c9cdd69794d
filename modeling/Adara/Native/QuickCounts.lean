import Adara.Native.FastMeta
import Adara.Native.QuickCounter

/-! # Counting the events of a quick counter

The statistics of `QuickCounter`, and what `SMSControl::pulseEvents` does for the counters with
a packet: the triggers among its events start and stop counters, then the registered counters
get their counts, in the pulses of the triggers event by event, in any other pulse all or none.

The elapsed time, a floating-point number nothing else depends on, is left out. -/

namespace Adara.Native

/-! ### Statistics -/

/-- The statistics of a count. -/
structure CountStats where
  startPulseId : UInt64
  startTof : UInt32
  startTime : Timespec
  stopPulseId : UInt64
  stopTof : UInt32
  stopTime : Timespec
  doneTime : Timespec
  detectorCountsAll : UInt32
  monitorCountsAll : UInt32
  updateDetCountPvsCnt : UInt32
  updateMonCountPvsCnt : UInt32
deriving DecidableEq, Repr

namespace CountStats

/-- `reset_stats` -/
def reset : CountStats where
  startPulseId := 0
  startTof := 0
  startTime := ⟨0, 0⟩
  stopPulseId := 0
  stopTof := 0
  stopTime := ⟨0, 0⟩
  doneTime := ⟨0, 0⟩
  detectorCountsAll := 0
  monitorCountsAll := 0
  updateDetCountPvsCnt := 0
  updateMonCountPvsCnt := 0

/-- The time of a trigger.  The nanoseconds may be above a second. -/
def triggerTime (pulseId : UInt64) (tof : UInt32) : Timespec :=
  ⟨(pulseId >>> 32).toNat, (FastMeta.tofNanos tof).toNat + (pulseId &&& 0xffffffff).toNat⟩

/-- The end of a count, with the timeout added.  A loop carries the nanoseconds. -/
def addTimeout (stopTime delay : Timespec) : Timespec :=
  let nsec := stopTime.nsec + delay.nsec
  ⟨stopTime.sec + delay.sec + nsec / Timespec.nanoPerSecond, nsec % Timespec.nanoPerSecond⟩

/-- The statistics at a start trigger. -/
def started (pulseId : UInt64) (tof : UInt32) : CountStats :=
  { reset with
    startPulseId := pulseId
    startTof := FastMeta.tofNanos tof
    startTime := triggerTime pulseId tof }

/-- The statistics at a stop trigger, with the timeout as it is then. -/
def stopped (st : CountStats) (delay : Timespec) (pulseId : UInt64) (tof : UInt32) : CountStats :=
  { st with
    stopPulseId := pulseId
    stopTof := FastMeta.tofNanos tof
    stopTime := triggerTime pulseId tof
    doneTime := addTimeout (triggerTime pulseId tof) delay }

end CountStats

/-! ### Events of a packet -/

namespace Event

def isDetector (ev : Event) : Bool := ev.pixel &&& 0xf0000000 = 0

def isMonitor (ev : Event) : Bool := ev.pixel &&& 0xf0000000 = 0x40000000

/-- Cases 5 and 6 of the switch on the event type. -/
def isFastMeta (ev : Event) : Bool := ev.pixel >>> 28 = 5 ∨ ev.pixel >>> 28 = 6

end Event

namespace RawDataPkt

variable (pkt : RawDataPkt)

/-- The time of the pulse of a packet. -/
def pulseTime : Timespec := ⟨(pkt.pulseId >>> 32).toNat, (pkt.pulseId &&& 0xffffffff).toNat⟩

/-- The number of events with a property. -/
def numWith (p : Event → Bool) : UInt32 := UInt32.ofNat (pkt.events.countP p)

end RawDataPkt

/-! ### Counters and their statistics -/

/-- All counters with their statistics. -/
structure QuickCounts (κ : Type*) where
  regs : QuickCounters κ
  stats : κ → CountStats

namespace QuickCounts

variable {κ : Type*} [DecidableEq κ] (s : QuickCounts κ) (c : κ)

/-- The state is what the PV says.  A start trigger is ignored while the counter waits, and
    when it is done unless it resets itself. -/
def ignoresStart : Bool :=
  (s.regs.counter c).pvCounting = qcWaiting ∨
    ((s.regs.counter c).pvCounting = qcDoneCounting ∧ ¬ (s.regs.counter c).autoReset)

/-- `startCounting` -/
def startCounting (pulseId : UInt64) (tof : UInt32) : QuickCounts κ where
  regs := s.regs.startCounting c
  stats :=
    if s.ignoresStart c then s.stats
    else Function.update s.stats c (.started pulseId tof)

/-- `stopCounting` -/
def stopCounting (delay : Timespec) (pulseId : UInt64) (tof : UInt32) : QuickCounts κ where
  regs := s.regs.stopCounting c
  stats := Function.update s.stats c
    (if (s.regs.counter c).counting ≠ qcCounting then .reset
      else (s.stats c).stopped delay pulseId tof)

/-- `doneCounting` -/
def doneCounting : QuickCounts κ := { s with regs := s.regs.doneCounting c }

/-- Whether a counter takes counts. -/
def takesCounts : Bool :=
  (s.regs.counter c).counting = qcCounting ∨ (s.regs.counter c).counting = qcWaiting

/-- `addDetectorAllCounts` -/
def addDetectorAllCounts (counts : UInt32) : QuickCounts κ :=
  if s.takesCounts c then
    { regs := if (s.stats c).updateDetCountPvsCnt % 1000 = 0 then s.regs.updatePvs c else s.regs
      stats := Function.update s.stats c
        { s.stats c with
          detectorCountsAll := (s.stats c).detectorCountsAll + counts
          updateDetCountPvsCnt := (s.stats c).updateDetCountPvsCnt + 1 } }
  else s

/-- `addMonitorAllCounts` -/
def addMonitorAllCounts (counts : UInt32) : QuickCounts κ :=
  if s.takesCounts c then
    { regs := if (s.stats c).updateMonCountPvsCnt % 1000 = 0 then s.regs.updatePvs c else s.regs
      stats := Function.update s.stats c
        { s.stats c with
          monitorCountsAll := (s.stats c).monitorCountsAll + counts
          updateMonCountPvsCnt := (s.stats c).updateMonCountPvsCnt + 1 } }
  else s

/-! ### A packet -/

/-- What the fast metadata say of an event: the counter it triggers. -/
abbrev Triggers (κ : Type*) := UInt32 → Option κ

/-- The part of the event loop that is about counters: a trigger starts its counter, or stops
    it with a value of zero. -/
def trigger (triggers : Triggers κ) (delay : κ → Timespec) (pulseId : UInt64) (s : QuickCounts κ)
    (ev : Event) : QuickCounts κ :=
  if ev.isFastMeta then
    match triggers (FastMeta.deviceKey ev.pixel) with
    | none => s
    | some c =>
      if FastMeta.pixelValue ev.pixel ≠ 0 then s.startCounting c pulseId ev.tof
      else s.stopCounting c (delay c) pulseId ev.tof
  else s

/-- The number of events a registered counter takes of a packet, of those of one kind: in the
    first pulse of the count those from the start on, in its last pulse those up to the stop,
    in another pulse all or none. -/
def countsOf (kind : Event → Bool) (counting : UInt32) (st : CountStats) (pkt : RawDataPkt) :
    Option UInt32 :=
  if pkt.pulseId = st.startPulseId then
    let count := pkt.numWith fun ev => kind ev && st.startTof ≤ FastMeta.tofNanos ev.tof
    if count ≠ 0 then some count else none
  else if pkt.pulseId = st.stopPulseId then
    let count := pkt.numWith fun ev => kind ev && FastMeta.tofNanos ev.tof ≤ st.stopTof
    if count ≠ 0 then some count else none
  else if st.startTime.nanos ≤ pkt.pulseTime.nanos ∧
      (counting = qcCounting ∨
        (counting = qcWaiting ∧ pkt.pulseTime.nanos ≤ st.stopTime.nanos)) then
    some (pkt.numWith kind)
  else none

def countDetector (pkt : RawDataPkt) (s : QuickCounts κ) (c : κ) : QuickCounts κ :=
  match countsOf Event.isDetector (s.regs.counter c).counting (s.stats c) pkt with
  | none => s
  | some counts => s.addDetectorAllCounts c counts

def countMonitor (pkt : RawDataPkt) (s : QuickCounts κ) (c : κ) : QuickCounts κ :=
  match countsOf Event.isMonitor (s.regs.counter c).counting (s.stats c) pkt with
  | none => s
  | some counts => s.addMonitorAllCounts c counts

/-- A counter has waited long enough. -/
def checkDone (pkt : RawDataPkt) (s : QuickCounts κ) (c : κ) : QuickCounts κ :=
  if (s.regs.counter c).counting = qcWaiting ∧
      (s.stats c).doneTime.nanos ≤ pkt.pulseTime.nanos then s.doneCounting c
  else s

/-- The loop over the registered monitor counters, with `n` rounds left.  A counter that is
    done is erased while the loop goes on. -/
def monitorLoop (pkt : RawDataPkt) : (n i : Nat) → QuickCounts κ → QuickCounts κ
  | 0, _, s => s
  | n + 1, i, s =>
    match s.regs.monitorAll.counters[i]? with
    | none => s
    | some c => monitorLoop pkt n (i + 1) (checkDone pkt (countMonitor pkt s c) c)

/-- What `pulseEvents` does for the counters.  `delay` is what the timeout of each counter
    comes to in seconds and nanoseconds. -/
def pulseEvents (triggers : Triggers κ) (delay : κ → Timespec) (s : QuickCounts κ)
    (pkt : RawDataPkt) : QuickCounts κ :=
  let s := pkt.events.foldl (trigger triggers delay pkt.pulseId) s
  let s := s.regs.detectorAll.counters.foldl (countDetector pkt) s
  monitorLoop pkt s.regs.monitorAll.counters.length 0 s

end QuickCounts

end Adara.Native
