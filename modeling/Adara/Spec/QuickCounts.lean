import Adara.Native.QuickCounts
import Adara.Native.PulseEvents
import Adara.Spec.QuickCounter

/-! # The total of a quick counter

A counter that counts alone takes the events of the pulses in its window.  Of the pulse of the
start trigger it takes those from the start on, of that of the stop trigger those up to the
stop; any other pulse it takes as a whole, if the pulse starts within the window, whenever its
events are (`total_of_count`).  So an event is taken by its own time where no event is later
than the next pulse. -/

namespace Adara.Spec.QuickCounts

open Adara.Native Adara.Native.QuickCounts Adara.Spec.QuickCounter

variable {κ : Type*}

/-! ### A counter that counts alone -/

/-- No counter is registered. -/
structure Idle (s : QuickCounts κ) : Prop where
  detectorAll : s.regs.detectorAll = ⟨[], 0⟩
  monitorAll : s.regs.monitorAll = ⟨[], 0⟩

/-- The counter is the only one that is registered. -/
structure Alone (s : QuickCounts κ) (c : κ) : Prop where
  detectorAll : s.regs.detectorAll = ⟨[c], 1⟩
  monitorAll : s.regs.monitorAll = ⟨[c], 1⟩

theorem Alone.of_kept {s s' : QuickCounts κ} {c : κ} (h : Alone s c)
    (hkept : Kept c s.regs s'.regs) : Alone s' c :=
  ⟨hkept.detectorAll.trans h.detectorAll, hkept.monitorAll.trans h.monitorAll⟩

/-- The statistics of a count without what it has taken. -/
def window (st : CountStats) : CountStats :=
  { st with
    detectorCountsAll := 0, monitorCountsAll := 0
    updateDetCountPvsCnt := 0, updateMonCountPvsCnt := 0 }

/-- What a counter takes of a packet depends on its window. -/
theorem countsOf_window (kind : Event → Bool) (counting : UInt32) (st : CountStats)
    (pkt : RawDataPkt) : countsOf kind counting (window st) pkt = countsOf kind counting st pkt :=
  rfl

/-- The counter has taken `d` detector events and `m` monitor events. -/
structure Taken (c : κ) (d m : UInt32) (s s' : QuickCounts κ) : Prop where
  alone : Alone s c → Alone s' c
  counting : (s'.regs.counter c).counting = (s.regs.counter c).counting
  window_eq : window (s'.stats c) = window (s.stats c)
  detector : (s'.stats c).detectorCountsAll = (s.stats c).detectorCountsAll + d
  monitor : (s'.stats c).monitorCountsAll = (s.stats c).monitorCountsAll + m

theorem Taken.refl {c : κ} {s : QuickCounts κ} : Taken c 0 0 s s :=
  ⟨id, rfl, rfl, (UInt32.add_zero _).symm, (UInt32.add_zero _).symm⟩

theorem Taken.trans {c : κ} {s s' s'' : QuickCounts κ} {d m d' m' : UInt32}
    (h : Taken c d m s s') (h' : Taken c d' m' s' s'') : Taken c (d + d') (m + m') s s'' where
  alone hs := h'.alone (h.alone hs)
  counting := h'.counting.trans h.counting
  window_eq := h'.window_eq.trans h.window_eq
  detector := by rw [h'.detector, h.detector, UInt32.add_assoc]
  monitor := by rw [h'.monitor, h.monitor, UInt32.add_assoc]

section Counter

variable [DecidableEq κ] {c : κ} {s : QuickCounts κ}

theorem startCounting_spec (hs : Idle s) (hstart : s.ignoresStart c = false) (pulseId : UInt64)
    (tof : UInt32) :
    Alone (s.startCounting c pulseId tof) c ∧
      ((s.startCounting c pulseId tof).regs.counter c).counting = qcCounting ∧
      (s.startCounting c pulseId tof).stats c = .started pulseId tof := by
  have hstarts : Starts s.regs c := by
    simpa [ignoresStart, Starts] using hstart
  have hbegun := begun_startCounting hstarts
  refine ⟨⟨?_, ?_⟩, hbegun.counting, ?_⟩
  · show (s.regs.startCounting c).detectorAll = _
    rw [hbegun.detectorAll, hs.detectorAll]
    rfl
  · show (s.regs.startCounting c).monitorAll = _
    rw [hbegun.monitorAll, hs.monitorAll]
    rfl
  · simp [QuickCounts.startCounting, hstart]

theorem stopCounting_spec (hs : Alone s c) (hcounting : (s.regs.counter c).counting = qcCounting)
    (delay : Timespec) (pulseId : UInt64) (tof : UInt32) :
    Alone (s.stopCounting c delay pulseId tof) c ∧
      ((s.stopCounting c delay pulseId tof).regs.counter c).counting = qcWaiting ∧
      (s.stopCounting c delay pulseId tof).stats c = (s.stats c).stopped delay pulseId tof := by
  refine ⟨hs.of_kept kept_stopCounting.1, ?_, ?_⟩
  · show ((s.regs.stopCounting c).counter c).counting = _
    rw [QuickCounters.stopCounting, if_neg (not_not.mpr hcounting), counting_updatePvs,
      QuickCounters.setCounting, counter_modify]
  · simp [QuickCounts.stopCounting, hcounting]

/-- Showing the values now and then does not change what is counted. -/
theorem kept_ite_updatePvs (shown : Prop) [Decidable shown] (regs : QuickCounters κ) :
    Kept c regs (if shown then regs.updatePvs c else regs) ∧
      ((if shown then regs.updatePvs c else regs).counter c).counting =
        (regs.counter c).counting := by
  split
  · exact ⟨kept_updatePvs, counting_updatePvs⟩
  · exact ⟨⟨fun _ _ => rfl, rfl, rfl, rfl, rfl⟩, rfl⟩

theorem addDetectorAllCounts_spec (hs : s.takesCounts c = true) (counts : UInt32) :
    Taken c counts 0 s (s.addDetectorAllCounts c counts) := by
  obtain ⟨hkept, hcounting⟩ :=
    kept_ite_updatePvs (c := c) ((s.stats c).updateDetCountPvsCnt % 1000 = 0) s.regs
  rw [addDetectorAllCounts, if_pos hs]
  refine ⟨fun h => h.of_kept hkept, hcounting, ?_, ?_, ?_⟩ <;> simp [window]

theorem addMonitorAllCounts_spec (hs : s.takesCounts c = true) (counts : UInt32) :
    Taken c 0 counts s (s.addMonitorAllCounts c counts) := by
  obtain ⟨hkept, hcounting⟩ :=
    kept_ite_updatePvs (c := c) ((s.stats c).updateMonCountPvsCnt % 1000 = 0) s.regs
  rw [addMonitorAllCounts, if_pos hs]
  refine ⟨fun h => h.of_kept hkept, hcounting, ?_, ?_, ?_⟩ <;> simp [window]

/-! ### A packet -/

/-- What `pulseEvents` does for the counters behind the event loop. -/
def countAll (s : QuickCounts κ) (pkt : RawDataPkt) : QuickCounts κ :=
  let s := s.regs.detectorAll.counters.foldl (countDetector pkt) s
  monitorLoop pkt s.regs.monitorAll.counters.length 0 s

theorem pulseEvents_eq (triggers : Triggers κ) (delay : κ → Timespec) (s : QuickCounts κ)
    (pkt : RawDataPkt) :
    pulseEvents triggers delay s pkt =
      countAll (pkt.events.foldl (trigger triggers delay pkt.pulseId) s) pkt :=
  rfl

/-- The events of one kind that the counter takes of a packet. -/
def taken (kind : Event → Bool) (counting : UInt32) (st : CountStats) (pkt : RawDataPkt) :
    UInt32 :=
  (countsOf kind counting st pkt).getD 0

/-- The counter, as the only one that is registered, takes its part of a packet; then it may be
    done. -/
theorem countAll_spec (hs : Alone s c) (htakes : s.takesCounts c = true) (pkt : RawDataPkt) :
    ∃ s', Taken c (taken Event.isDetector (s.regs.counter c).counting (s.stats c) pkt)
        (taken Event.isMonitor (s.regs.counter c).counting (s.stats c) pkt) s s' ∧
      countAll s pkt = checkDone pkt s' c := by
  have hdetector : Taken c (taken Event.isDetector (s.regs.counter c).counting (s.stats c) pkt) 0
      s (countDetector pkt s c) := by
    simp only [countDetector, taken]
    split
    · rename_i hnone
      rw [hnone]
      exact .refl
    · rename_i counts hsome
      rw [hsome]
      exact addDetectorAllCounts_spec htakes counts
  have halone := hdetector.alone hs
  have hmonitor : Taken c 0 (taken Event.isMonitor (s.regs.counter c).counting (s.stats c) pkt)
      (countDetector pkt s c) (countMonitor pkt (countDetector pkt s c) c) := by
    -- the window is still the same
    have hcounts : countsOf Event.isMonitor ((countDetector pkt s c).regs.counter c).counting
        ((countDetector pkt s c).stats c) pkt =
          countsOf Event.isMonitor (s.regs.counter c).counting (s.stats c) pkt := by
      rw [← countsOf_window, hdetector.window_eq, hdetector.counting, countsOf_window]
    simp only [countMonitor, taken, hcounts]
    split
    · rename_i hnone
      rw [hnone]
      exact .refl
    · rename_i counts hsome
      rw [hsome]
      refine addMonitorAllCounts_spec ?_ counts
      rw [takesCounts, hdetector.counting]
      exact htakes
  refine ⟨countMonitor pkt (countDetector pkt s c) c, ?_, ?_⟩
  · have hboth := hdetector.trans hmonitor
    rwa [UInt32.add_zero, UInt32.zero_add] at hboth
  · simp only [countAll, hs.detectorAll, List.foldl_cons, List.foldl_nil, halone.monitorAll,
      List.length_cons, List.length_nil, monitorLoop, List.getElem?_cons_zero]

end Counter

/-! ### A count -/

/-- The number of events of one kind in packets, of those that are taken. -/
def numOf (kind : Event → Bool) (takes : RawDataPkt → Event → Bool) (pkts : List RawDataPkt) :
    Nat :=
  (pkts.map fun p => p.events.countP fun ev => kind ev && takes p ev).sum

/-- What is delivered during a count: the packet with the start trigger, those up to the packet
    with the stop trigger, and those up to the packet with which the counter is done. -/
structure Count where
  first : RawDataPkt
  startEv : Event
  between : List RawDataPkt
  last : RawDataPkt
  stopEv : Event
  late : List RawDataPkt

namespace Count

variable (d : Count)

def packets : List RawDataPkt := d.first :: d.between ++ d.last :: d.late

def startTime : Timespec := CountStats.triggerTime d.first.pulseId d.startEv.tof

def stopTime : Timespec := CountStats.triggerTime d.last.pulseId d.stopEv.tof

/-- The events that are taken of a packet, before the stop trigger and from there on. -/
def takes (stopped : Bool) (p : RawDataPkt) (ev : Event) : Bool :=
  if p.pulseId = d.first.pulseId then
    FastMeta.tofNanos d.startEv.tof ≤ FastMeta.tofNanos ev.tof
  else if stopped ∧ p.pulseId = d.last.pulseId then
    FastMeta.tofNanos ev.tof ≤ FastMeta.tofNanos d.stopEv.tof
  else
    d.startTime.nanos ≤ p.pulseTime.nanos ∧ (stopped → p.pulseTime.nanos ≤ d.stopTime.nanos)

/-- The number of events that are taken. -/
def numTaken (kind : Event → Bool) : Nat :=
  numOf kind (d.takes false) (d.first :: d.between) + numOf kind (d.takes true) (d.last :: d.late)

/-- The number of events whose own time is in the window. -/
def numWithin (kind : Event → Bool) : Nat :=
  numOf kind (fun p ev =>
    let time := CountStats.triggerTime p.pulseId ev.tof
    d.startTime.nanos ≤ time.nanos ∧ time.nanos ≤ d.stopTime.nanos) d.packets

end Count

/-- No event of the packet is a trigger. -/
def Quiet (triggers : Triggers κ) (evs : List Event) : Prop :=
  ∀ ev ∈ evs, ev.isFastMeta = true → triggers (FastMeta.deviceKey ev.pixel) = none

/-- The only trigger in the packet is `ev`, for the counter `c`. -/
def TriggeredBy (triggers : Triggers κ) (c : κ) (pkt : RawDataPkt) (ev : Event) : Prop :=
  ∃ before after, pkt.events = before ++ ev :: after ∧ Quiet triggers before ∧
    Quiet triggers after ∧ ev.isFastMeta = true ∧
    triggers (FastMeta.deviceKey ev.pixel) = some c

/-- The packets have one start trigger and one stop trigger for the counter, in different
    pulses, come in the order of their pulses, and the counter is done with the last one. -/
structure IsCount (triggers : Triggers κ) (delay : Timespec) (c : κ) (d : Count) : Prop where
  start : TriggeredBy triggers c d.first d.startEv
  start_value : FastMeta.pixelValue d.startEv.pixel ≠ 0
  stop : TriggeredBy triggers c d.last d.stopEv
  stop_value : FastMeta.pixelValue d.stopEv.pixel = 0
  quiet : ∀ p ∈ d.between ++ d.late, Quiet triggers p.events
  pulses : d.first.pulseId ≠ d.last.pulseId
  inOrder : (d.packets.map (·.pulseId)).Pairwise (· ≤ ·)
  done : ∃ waited p, d.last :: d.late = waited ++ [p] ∧
    (∀ q ∈ waited, q.pulseTime.nanos < (CountStats.addTimeout d.stopTime delay).nanos) ∧
    (CountStats.addTimeout d.stopTime delay).nanos ≤ p.pulseTime.nanos

/-! ### The counts of a packet -/

/-- The upper four bits of a pixel are its event type. -/
theorem pixel_and (pixel : UInt32) :
    pixel &&& (0xf0000000 : UInt32) = (pixel >>> 28) <<< (28 : UInt32) := by
  apply UInt32.toBitVec_inj.mp
  apply BitVec.eq_of_getLsbD_eq
  intro i hi
  have hmask : ∀ i < 32, (0xf0000000#32).getLsbD i = decide (28 ≤ i) := by decide
  by_cases h : 28 ≤ i
  · simp [hmask i hi, -BitVec.getLsbD_eq_getElem, h, show 28 + (i - 28) = i by omega]
    exact fun _ => hi
  · simp [hmask i hi, -BitVec.getLsbD_eq_getElem, h]

theorem pixel_and_eq_iff {pixel kind : UInt32} (hkind : kind < 16) :
    pixel &&& (0xf0000000 : UInt32) = kind <<< (28 : UInt32) ↔ pixel >>> 28 = kind := by
  have hlt : (pixel >>> 28).toNat < 16 := by
    have := pixel.toNat_lt
    rw [UInt32.toNat_shiftRight, show (28 : UInt32).toNat % 32 = 28 from rfl,
      Nat.shiftRight_eq_div_pow]
    omega
  rw [pixel_and]
  refine ⟨fun h => UInt32.toNat_inj.mp ?_, fun h => by rw [h]⟩
  have hnat := congrArg UInt32.toNat h
  have hkind : kind.toNat < 16 := hkind
  rw [UInt32.toNat_shiftLeft, UInt32.toNat_shiftLeft, show (28 : UInt32).toNat % 32 = 28 from rfl,
    Nat.shiftLeft_eq, Nat.shiftLeft_eq] at hnat
  omega

theorem isDetector_iff (ev : Event) : ev.isDetector = true ↔ ev.pixel >>> 28 = 0 := by
  rw [Event.isDetector, decide_eq_true_eq, show (0 : UInt32) = (0 : UInt32) <<< (28 : UInt32) by decide]
  exact pixel_and_eq_iff (by decide)

theorem isMonitor_iff (ev : Event) : ev.isMonitor = true ↔ ev.pixel >>> 28 = 4 := by
  rw [Event.isMonitor, decide_eq_true_eq,
    show (0x40000000 : UInt32) = (4 : UInt32) <<< (28 : UInt32) by decide]
  exact pixel_and_eq_iff (by decide)

theorem counts_growBanks {maxBank state : Nat} {a a' : EventLoop}
    (h : growBanks maxBank state a = some a') :
    a'.eventCount = a.eventCount ∧ a'.monitorCount = a.monitorCount := by
  simp only [growBanks] at h
  split at h
  · split at h
    · cases h
    · exact Option.some.inj h ▸ ⟨rfl, rfl⟩
  · exact Option.some.inj h ▸ ⟨rfl, rfl⟩

theorem counts_fileBanked {s : EventSettings} {maxBank : Nat} {pl : Placement} {tof : UInt32}
    {a a' : EventLoop} (h : fileBanked s maxBank pl tof a = some a') :
    a'.eventCount = a.eventCount ∧ a'.monitorCount = a.monitorCount := by
  simp only [fileBanked, Option.bind_eq_some_iff] at h
  obtain ⟨b, hgrow, hpush⟩ := h
  have hb : b.eventCount = a.eventCount ∧ b.monitorCount = a.monitorCount := by
    have hcounts := counts_growBanks hgrow
    exact hcounts
  simp only [pushBanked] at hpush
  split at hpush
  · cases hpush
  · exact Option.some.inj hpush ▸ hb

theorem counts_handleEvent {s : EventSettings} {pm : PixelMap} {pkt : RawDataPkt}
    {isMapped : Bool} {a a' : EventLoop} {ev : Event}
    (h : handleEvent s pm pkt isMapped a ev = some a') :
    a'.eventCount = a.eventCount + [ev].countP Event.isDetector ∧
      a'.monitorCount = a.monitorCount + [ev].countP Event.isMonitor := by
  have hdetector := isDetector_iff ev
  have hmonitor := isMonitor_iff ev
  simp only [handleEvent] at h
  simp only [List.countP_singleton]
  split at h
  · rename_i hkind
    cases h
    simp [hdetector, hmonitor, hkind]
  · split at h
    · rename_i hkind
      cases h
      simp [hdetector, hmonitor, hkind]
    · split at h
      · rename_i hkind
        obtain ⟨hevents, hmonitors⟩ := counts_fileBanked h
        simp [hdetector, hmonitor, hkind, hevents, hmonitors]
      · rename_i h4 _ h0
        rw [if_neg (mt hdetector.mp h0), if_neg (mt hmonitor.mp h4)]
        split at h
        · cases h
          exact ⟨rfl, rfl⟩
        · split at h
          · have hcounts := counts_fileBanked h
            exact hcounts
          · have hcounts := counts_fileBanked h
            exact hcounts

theorem counts_handleEvents {s : EventSettings} {pm : PixelMap} {pkt : RawDataPkt}
    {isMapped : Bool} {a a' : EventLoop} {evs : List Event}
    (h : handleEvents s pm pkt isMapped a evs = some a') :
    a'.eventCount = a.eventCount + evs.countP Event.isDetector ∧
      a'.monitorCount = a.monitorCount + evs.countP Event.isMonitor := by
  induction evs generalizing a with
  | nil =>
    cases h
    exact ⟨rfl, rfl⟩
  | cons ev evs ih =>
    simp only [handleEvents, Option.bind_eq_some_iff] at h
    obtain ⟨b, hev, hrest⟩ := h
    obtain ⟨hevents, hmonitors⟩ := ih hrest
    obtain ⟨hevent, hmonitor⟩ := counts_handleEvent hev
    have hsplit (kind : Event → Bool) :
        (ev :: evs).countP kind = [ev].countP kind + evs.countP kind := by
      rw [← List.singleton_append, List.countP_append]
    rw [hevents, hmonitors, hevent, hmonitor, hsplit, hsplit]
    exact ⟨Nat.add_assoc .., Nat.add_assoc ..⟩

/-- The counts that the event loop of `pulseEvents` ends with, which a pulse within the window
    is counted by. -/
theorem counts_fileEvents {s : EventSettings} {pm : PixelMap} {ring : UInt32}
    {numStatesLast : Nat} {resetCount : UInt32} {pkt : RawDataPkt} {hwId : UInt32}
    {isMapped : Bool} {p : Pulse} {a : EventLoop}
    (h : fileEvents s pm ring numStatesLast resetCount pkt hwId isMapped p = some a) :
    UInt32.ofNat a.eventCount = pkt.numWith Event.isDetector ∧
      UInt32.ofNat a.monitorCount = pkt.numWith Event.isMonitor := by
  obtain ⟨hevents, hmonitors⟩ := counts_handleEvents h
  rw [hevents, hmonitors]
  exact ⟨by rw [Nat.zero_add]; rfl, by rw [Nat.zero_add]; rfl⟩

/-! ### What is taken of a packet -/

theorem getD_counts (count : UInt32) :
    (if count ≠ 0 then some count else none).getD 0 = count := by
  by_cases h : count = 0
  · rw [if_neg (not_not.mpr h), h]
    rfl
  · rw [if_pos h]
    rfl

section Packet

variable {kind : Event → Bool} {counting : UInt32} {st : CountStats} {p : RawDataPkt}

theorem taken_first (h : p.pulseId = st.startPulseId) :
    taken kind counting st p =
      p.numWith fun ev => kind ev && st.startTof ≤ FastMeta.tofNanos ev.tof := by
  rw [taken, countsOf, if_pos h]
  exact getD_counts _

theorem taken_last (hfirst : p.pulseId ≠ st.startPulseId) (h : p.pulseId = st.stopPulseId) :
    taken kind counting st p =
      p.numWith fun ev => kind ev && FastMeta.tofNanos ev.tof ≤ st.stopTof := by
  rw [taken, countsOf, if_neg hfirst, if_pos h]
  exact getD_counts _

theorem taken_whole (hfirst : p.pulseId ≠ st.startPulseId) (hlast : p.pulseId ≠ st.stopPulseId) :
    taken kind counting st p =
      if st.startTime.nanos ≤ p.pulseTime.nanos ∧
          (counting = qcCounting ∨
            (counting = qcWaiting ∧ p.pulseTime.nanos ≤ st.stopTime.nanos)) then
        p.numWith kind
      else 0 := by
  rw [taken, countsOf, if_neg hfirst, if_neg hlast]
  split <;> rfl

/-- Where it does not depend on the event, a packet is taken as a whole or not at all. -/
theorem numWith_and (kind : Event → Bool) (b : Bool) (p : RawDataPkt) :
    (p.numWith fun ev => kind ev && b) = if b then p.numWith kind else 0 := by
  cases b with
  | false => simp [RawDataPkt.numWith]
  | true => simp [RawDataPkt.numWith]

end Packet

/-- While the counter counts. -/
theorem taken_counting (d : Count) (kind : Event → Bool) {p : RawDataPkt}
    (hp : p.pulseId = 0 → p.pulseId = d.first.pulseId) :
    taken kind qcCounting (.started d.first.pulseId d.startEv.tof) p =
      p.numWith fun ev => kind ev && d.takes false p ev := by
  by_cases hfirst : p.pulseId = d.first.pulseId
  · rw [taken_first hfirst]
    simp only [Count.takes, if_pos hfirst]
    rfl
  · rw [taken_whole hfirst fun h => hfirst (hp h)]
    simp only [Count.takes, if_neg hfirst, Bool.false_eq_true, false_and, if_false, false_imp_iff,
      and_true, true_or]
    rw [numWith_and]
    simp only [decide_eq_true_eq]
    rfl

/-- While the counter waits. -/
theorem taken_waiting (d : Count) (delay : Timespec) (kind : Event → Bool) (p : RawDataPkt) :
    taken kind qcWaiting ((CountStats.started d.first.pulseId d.startEv.tof).stopped delay
        d.last.pulseId d.stopEv.tof) p =
      p.numWith fun ev => kind ev && d.takes true p ev := by
  by_cases hfirst : p.pulseId = d.first.pulseId
  · rw [taken_first hfirst]
    simp only [Count.takes, if_pos hfirst]
    rfl
  · by_cases hlast : p.pulseId = d.last.pulseId
    · rw [taken_last hfirst hlast]
      simp only [Count.takes, if_neg hfirst, if_pos (And.intro True.intro hlast)]
      rfl
    · rw [taken_whole hfirst hlast]
      simp only [Count.takes, if_neg hfirst, hlast, and_false, if_false, true_imp_iff]
      rw [numWith_and]
      simp only [decide_eq_true_eq, show qcWaiting ≠ qcCounting by decide, false_or, true_and]
      rfl

/-! ### Runs of packets -/

section Runs

variable [DecidableEq κ] {triggers : Triggers κ} {delay : κ → Timespec} {c : κ}
  {s : QuickCounts κ}

theorem foldl_trigger_quiet {evs : List Event} (h : Quiet triggers evs) (pulseId : UInt64)
    (s : QuickCounts κ) : evs.foldl (trigger triggers delay pulseId) s = s := by
  induction evs with
  | nil => rfl
  | cons ev evs ih =>
    obtain ⟨hev, hrest⟩ := List.forall_mem_cons.mp h
    have hsame : trigger triggers delay pulseId s ev = s := by
      rw [trigger]
      split
      · rename_i hfast
        rw [hev hfast]
      · rfl
    rw [List.foldl_cons, hsame]
    exact ih hrest

theorem foldl_trigger {pkt : RawDataPkt} {ev : Event} (h : TriggeredBy triggers c pkt ev)
    (s : QuickCounts κ) :
    pkt.events.foldl (trigger triggers delay pkt.pulseId) s =
      if FastMeta.pixelValue ev.pixel ≠ 0 then s.startCounting c pkt.pulseId ev.tof
      else s.stopCounting c (delay c) pkt.pulseId ev.tof := by
  obtain ⟨before, after, hevs, hbefore, hafter, hfast, hkey⟩ := h
  rw [hevs, List.foldl_append, foldl_trigger_quiet hbefore, List.foldl_cons,
    foldl_trigger_quiet hafter, trigger, if_pos hfast, hkey]

/-- A counter that has taken `d` and `m` events so far, in its window `w`. -/
structure Progress (c : κ) (counting : UInt32) (w : CountStats) (d m : Nat) (s : QuickCounts κ) :
    Prop where
  alone : Alone s c
  counting : (s.regs.counter c).counting = counting
  window_eq : window (s.stats c) = window w
  detector : (s.stats c).detectorCountsAll = UInt32.ofNat d
  monitor : (s.stats c).monitorCountsAll = UInt32.ofNat m

theorem Progress.step {counting : UInt32} {w : CountStats} {d m : Nat}
    (h : Progress c counting w d m s)
    (hcounting : counting = qcCounting ∨ counting = qcWaiting)
    {takes : RawDataPkt → Event → Bool} {pkt : RawDataPkt}
    (htakes : ∀ kind, taken kind counting w pkt =
      pkt.numWith fun ev => kind ev && takes pkt ev) :
    ∃ s', Progress c counting w (d + numOf Event.isDetector takes [pkt])
        (m + numOf Event.isMonitor takes [pkt]) s' ∧
      countAll s pkt = checkDone pkt s' c := by
  have htaken (kind : Event → Bool) : taken kind (s.regs.counter c).counting (s.stats c) pkt =
      UInt32.ofNat (numOf kind takes [pkt]) := by
    have hwindow : taken kind counting (s.stats c) pkt = taken kind counting w pkt := by
      rw [taken, taken, ← countsOf_window, h.window_eq, countsOf_window]
    rw [h.counting, hwindow, htakes]
    simp [RawDataPkt.numWith, numOf]
  have hactive : s.takesCounts c = true := by
    rw [takesCounts, h.counting]
    exact decide_eq_true hcounting
  obtain ⟨s', hs', hdone⟩ := countAll_spec h.alone hactive pkt
  rw [htaken, htaken] at hs'
  refine ⟨s', ⟨hs'.alone h.alone, hs'.counting.trans h.counting,
    hs'.window_eq.trans h.window_eq, ?_, ?_⟩, hdone⟩
  · rw [hs'.detector, h.detector, UInt32.ofNat_add]
  · rw [hs'.monitor, h.monitor, UInt32.ofNat_add]

theorem numOf_cons (kind : Event → Bool) (takes : RawDataPkt → Event → Bool) (p : RawDataPkt)
    (pkts : List RawDataPkt) :
    numOf kind takes (p :: pkts) = numOf kind takes [p] + numOf kind takes pkts := by
  simp [numOf]

/-- Packets that do not make the counter done. -/
theorem Progress.run {counting : UInt32} {w : CountStats} {d m : Nat}
    (h : Progress c counting w d m s) (hcounting : counting = qcCounting ∨ counting = qcWaiting)
    {takes : RawDataPkt → Event → Bool} {pkts : List RawDataPkt}
    (htakes : ∀ p ∈ pkts, ∀ kind, taken kind counting w p =
      p.numWith fun ev => kind ev && takes p ev)
    (hdone : ∀ p ∈ pkts, counting = qcWaiting → p.pulseTime.nanos < w.doneTime.nanos) :
    Progress c counting w (d + numOf Event.isDetector takes pkts)
      (m + numOf Event.isMonitor takes pkts) (pkts.foldl countAll s) := by
  induction pkts generalizing s d m with
  | nil => exact h
  | cons p pkts ih =>
    obtain ⟨htakes, htakesRest⟩ := List.forall_mem_cons.mp htakes
    obtain ⟨hdone, hdoneRest⟩ := List.forall_mem_cons.mp hdone
    obtain ⟨s', hs', hcheck⟩ := h.step hcounting htakes
    have hsame : checkDone p s' c = s' := by
      rw [checkDone, if_neg]
      rintro ⟨hwaiting, hlate⟩
      have htime : (s'.stats c).doneTime = w.doneTime :=
        show (window (s'.stats c)).doneTime = (window w).doneTime by rw [hs'.window_eq]
      rw [htime] at hlate
      exact absurd hlate (Nat.not_le.mpr (hdone (hs'.counting.symm.trans hwaiting)))
    rw [numOf_cons Event.isDetector, numOf_cons Event.isMonitor, ← Nat.add_assoc, ← Nat.add_assoc,
      List.foldl_cons, hcheck, hsame]
    exact ih hs' htakesRest hdoneRest

theorem foldl_pulseEvents {pkts : List RawDataPkt} (h : ∀ p ∈ pkts, Quiet triggers p.events)
    (s : QuickCounts κ) : pkts.foldl (pulseEvents triggers delay) s = pkts.foldl countAll s := by
  induction pkts generalizing s with
  | nil => rfl
  | cons p pkts ih =>
    obtain ⟨hp, hrest⟩ := List.forall_mem_cons.mp h
    rw [List.foldl_cons, List.foldl_cons, pulseEvents_eq, foldl_trigger_quiet hp, ih hrest]

/-- The packets up to the stop trigger. -/
theorem IsCount.counted {d : Count} (h : IsCount triggers (delay c) c d) (hs : Idle s)
    (hstart : s.ignoresStart c = false) :
    Progress c qcCounting (.started d.first.pulseId d.startEv.tof)
      (numOf Event.isDetector (d.takes false) (d.first :: d.between))
      (numOf Event.isMonitor (d.takes false) (d.first :: d.between))
      ((d.first :: d.between).foldl (pulseEvents triggers delay) s) := by
  obtain ⟨halone, hcounting, hstats⟩ :=
    startCounting_spec hs hstart d.first.pulseId d.startEv.tof
  have hbegun : Progress c qcCounting (.started d.first.pulseId d.startEv.tof) 0 0
      (s.startCounting c d.first.pulseId d.startEv.tof) :=
    ⟨halone, hcounting, by rw [hstats], by rw [hstats]; rfl, by rw [hstats]; rfl⟩
  -- no pulse is in front of the first one
  have hzero : ∀ p ∈ d.first :: d.between, p.pulseId = 0 → p.pulseId = d.first.pulseId := by
    intro p hp hzero
    have hle : d.first.pulseId ≤ p.pulseId := by
      obtain rfl | hp := List.mem_cons.mp hp
      · exact UInt64.le_refl _
      · have horder := h.inOrder
        rw [Count.packets, List.cons_append, List.map_cons, List.pairwise_cons] at horder
        exact horder.1 _ (List.mem_map_of_mem (List.mem_append_left _ hp))
    rw [hzero] at hle ⊢
    exact (UInt64.le_zero_iff.mp hle).symm
  rw [List.foldl_cons, pulseEvents_eq, foldl_trigger h.start, if_pos h.start_value,
    foldl_pulseEvents fun p hp => h.quiet p (List.mem_append_left _ hp),
    ← Nat.zero_add (numOf Event.isDetector _ _), ← Nat.zero_add (numOf Event.isMonitor _ _)]
  exact hbegun.run (.inl rfl) (fun p hp kind => taken_counting d kind (hzero p hp))
    (fun _ _ heq => absurd heq (by decide))

theorem numOf_append (kind : Event → Bool) (takes : RawDataPkt → Event → Bool)
    (pkts pkts' : List RawDataPkt) :
    numOf kind takes (pkts ++ pkts') = numOf kind takes pkts + numOf kind takes pkts' := by
  simp [numOf]

theorem IsCount.stopped {d : Count} (h : IsCount triggers (delay c) c d) (hs : Idle s)
    (hstart : s.ignoresStart c = false) :
    let s' := d.packets.foldl (pulseEvents triggers delay) s
    (s'.regs.counter c).counting = qcDoneCounting ∧
      (s'.stats c).detectorCountsAll = UInt32.ofNat (d.numTaken Event.isDetector) ∧
      (s'.stats c).monitorCountsAll = UInt32.ofNat (d.numTaken Event.isMonitor) := by
  have hcounted := h.counted hs hstart
  simp only [Count.packets, Count.numTaken, List.foldl_append]
  -- the state and the counts when the stop event comes
  generalize (d.first :: d.between).foldl (pulseEvents triggers delay) s = s₁ at hcounted ⊢
  generalize numOf Event.isDetector (d.takes false) (d.first :: d.between) = detectors
    at hcounted ⊢
  generalize numOf Event.isMonitor (d.takes false) (d.first :: d.between) = monitors
    at hcounted ⊢
  obtain ⟨halone, hwaiting, hstats⟩ :=
    stopCounting_spec hcounted.alone hcounted.counting (delay c) d.last.pulseId d.stopEv.tof
  -- the stop event leaves the count waiting, with its window closed
  have hstopped : Progress c qcWaiting
      ((CountStats.started d.first.pulseId d.startEv.tof).stopped (delay c) d.last.pulseId
        d.stopEv.tof) detectors monitors
      (s₁.stopCounting c (delay c) d.last.pulseId d.stopEv.tof) := by
    refine ⟨halone, hwaiting, ?_, ?_, ?_⟩
    · rw [hstats]
      exact congrArg (fun st : CountStats => st.stopped (delay c) d.last.pulseId d.stopEv.tof)
        hcounted.window_eq
    · rw [hstats]
      exact hcounted.detector
    · rw [hstats]
      exact hcounted.monitor
  rw [List.foldl_cons, pulseEvents_eq, foldl_trigger h.stop, if_neg (not_not.mpr h.stop_value),
    foldl_pulseEvents fun p hp => h.quiet p (List.mem_append_right _ hp)]
  generalize s₁.stopCounting c (delay c) d.last.pulseId d.stopEv.tof = s₂ at hstopped ⊢
  obtain ⟨waited, p, hpackets, hbefore, hdone⟩ := h.done
  have htakes := fun (q : RawDataPkt) (kind : Event → Bool) => taken_waiting d (delay c) kind q
  -- while it waits, it goes on taking the events inside the window
  have hwaited := hstopped.run (.inr rfl) (fun q (_ : q ∈ waited) kind => htakes q kind)
    (fun q hq _ => hbefore q hq)
  obtain ⟨s₃, hlast, hcheck⟩ := hwaited.step (.inr rfl) (htakes p)
  -- the last packet is the first behind the timeout
  have hend : (d.last :: d.late).foldl countAll s₂ = s₃.doneCounting c := by
    have htime : (s₃.stats c).doneTime = CountStats.addTimeout d.stopTime (delay c) :=
      show (window (s₃.stats c)).doneTime = _ by rw [hlast.window_eq]; rfl
    rw [hpackets, List.foldl_append, List.foldl_cons, List.foldl_nil, hcheck, checkDone,
      if_pos ⟨hlast.counting, by rw [htime]; exact hdone⟩]
  show (((d.last :: d.late).foldl countAll s₂).regs.counter c).counting = _ ∧
    (((d.last :: d.late).foldl countAll s₂).stats c).detectorCountsAll = _ ∧
    (((d.last :: d.late).foldl countAll s₂).stats c).monitorCountsAll = _
  rw [hend]
  refine ⟨(finished_doneCounting hlast.counting).counting, ?_, ?_⟩
  · refine hlast.detector.trans ?_
    rw [hpackets, numOf_append, Nat.add_assoc]
  · refine hlast.monitor.trans ?_
    rw [hpackets, numOf_append, Nat.add_assoc]

end Runs

/-! ### Events by their own time -/

theorem nanos_triggerTime (pulseId : UInt64) (tof : UInt32) :
    (CountStats.triggerTime pulseId tof).nanos =
      (pulseId >>> 32).toNat * 1000000000 +
        ((FastMeta.tofNanos tof).toNat + (pulseId &&& 0xffffffff).toNat) := by
  have htof := (FastMeta.tofNanos tof).toNat_lt
  obtain ⟨hsec, hnsec⟩ := UInt64.halves_lt pulseId
  simp only [CountStats.triggerTime, Timespec.nanos, Timespec.nanoPerSecond]
  omega

theorem nanos_pulseTime (p : RawDataPkt) :
    p.pulseTime.nanos =
      (p.pulseId >>> 32).toNat * 1000000000 + (p.pulseId &&& 0xffffffff).toNat := by
  obtain ⟨hsec, hnsec⟩ := UInt64.halves_lt p.pulseId
  simp only [RawDataPkt.pulseTime, Timespec.nanos, Timespec.nanoPerSecond]
  omega

theorem nanos_triggerTime_eq (p : RawDataPkt) (tof : UInt32) :
    (CountStats.triggerTime p.pulseId tof).nanos =
      p.pulseTime.nanos + (FastMeta.tofNanos tof).toNat := by
  rw [nanos_triggerTime, nanos_pulseTime]
  omega

/-- Events of one pulse are in the order of their times of flight. -/
theorem nanos_triggerTime_le {pulseId : UInt64} {tof tof' : UInt32} :
    (CountStats.triggerTime pulseId tof).nanos ≤ (CountStats.triggerTime pulseId tof').nanos ↔
      FastMeta.tofNanos tof ≤ FastMeta.tofNanos tof' := by
  rw [nanos_triggerTime, nanos_triggerTime, UInt32.le_iff_toNat_le]
  omega

/-- Every event comes before the next pulse. -/
def Count.EndsBeforeNext (d : Count) : Prop :=
  ∀ p ∈ d.packets, ∀ q ∈ d.packets, p.pulseId < q.pulseId → ∀ ev ∈ p.events,
    (CountStats.triggerTime p.pulseId ev.tof).nanos < q.pulseTime.nanos

/-- The stop trigger comes with the first packet of its pulse. -/
def Count.StopsAtOnce (d : Count) : Prop := ∀ p ∈ d.between, p.pulseId ≠ d.last.pulseId

theorem TriggeredBy.mem {triggers : Triggers κ} {c : κ} {pkt : RawDataPkt} {ev : Event}
    (h : TriggeredBy triggers c pkt ev) : ev ∈ pkt.events := by
  obtain ⟨before, after, hevs, -⟩ := h
  rw [hevs]
  exact List.mem_append_right _ List.mem_cons_self

theorem numOf_congr {kind : Event → Bool} {takes takes' : RawDataPkt → Event → Bool}
    {pkts : List RawDataPkt} (h : ∀ p ∈ pkts, ∀ ev ∈ p.events, takes p ev = takes' p ev) :
    numOf kind takes pkts = numOf kind takes' pkts := by
  refine congrArg List.sum (List.map_congr_left fun p hp => ?_)
  exact List.countP_congr fun ev hev => by rw [h p hp ev hev]

section Within

variable {triggers : Triggers κ} {delay : Timespec} {c : κ} {d : Count}

/-- Up to the stop trigger pulses lie between those of the triggers, and then behind them. -/
theorem IsCount.pulseId_le (h : IsCount triggers delay c d) {p : RawDataPkt} :
    (p ∈ d.first :: d.between → d.first.pulseId ≤ p.pulseId ∧ p.pulseId ≤ d.last.pulseId) ∧
      (p ∈ d.last :: d.late → d.last.pulseId ≤ p.pulseId) := by
  have horder := h.inOrder
  rw [Count.packets, List.map_append, List.pairwise_append, List.map_cons, List.map_cons,
    List.pairwise_cons, List.pairwise_cons] at horder
  obtain ⟨⟨hfirst, -⟩, ⟨hlast, -⟩, hcross⟩ := horder
  constructor
  · intro hp
    refine ⟨?_, hcross _ (List.mem_map_of_mem hp) _ List.mem_cons_self⟩
    obtain rfl | hp := List.mem_cons.mp hp
    · exact UInt64.le_refl _
    · exact hfirst _ (List.mem_map_of_mem hp)
  · intro hp
    obtain rfl | hp := List.mem_cons.mp hp
    · exact UInt64.le_refl _
    · exact hlast _ (List.mem_map_of_mem hp)

/-- The own time of an event is in the window. -/
def Count.Within (d : Count) (p : RawDataPkt) (ev : Event) : Prop :=
  d.startTime.nanos ≤ (CountStats.triggerTime p.pulseId ev.tof).nanos ∧
    (CountStats.triggerTime p.pulseId ev.tof).nanos ≤ d.stopTime.nanos

theorem IsCount.takes_before (h : IsCount triggers delay c d) (hends : d.EndsBeforeNext)
    {p : RawDataPkt} (hp : p ∈ d.first :: d.between) (hlt : p.pulseId < d.last.pulseId)
    {ev : Event} (hev : ev ∈ p.events) : d.takes false p ev = true ↔ d.Within p ev := by
  have hmem : p ∈ d.packets := List.mem_append_left _ hp
  have hlast : d.last ∈ d.packets := List.mem_append_right _ List.mem_cons_self
  -- the event comes before the pulse of the stop trigger
  have hstop : (CountStats.triggerTime p.pulseId ev.tof).nanos ≤ d.stopTime.nanos := by
    have hbefore := hends p hmem d.last hlast hlt ev hev
    rw [Count.stopTime, nanos_triggerTime_eq d.last]
    omega
  by_cases hfirst : p.pulseId = d.first.pulseId
  · simp only [Count.takes, if_pos hfirst, decide_eq_true_eq, Count.Within]
    rw [Count.startTime, ← hfirst, nanos_triggerTime_le]
    exact (and_iff_left hstop).symm
  · have hgt : d.first.pulseId < p.pulseId :=
      lt_of_le_of_ne (h.pulseId_le.1 hp).1 (Ne.symm hfirst)
    have hstart : d.startTime.nanos < p.pulseTime.nanos :=
      hends d.first (List.mem_append_left _ List.mem_cons_self) p hmem hgt _ h.start.mem
    have htime := nanos_triggerTime_eq p ev.tof
    simp only [Count.takes, if_neg hfirst, Bool.false_eq_true, false_and, if_false,
      decide_eq_true_eq, false_imp_iff, and_true]
    exact iff_of_true hstart.le ⟨by omega, hstop⟩

theorem IsCount.takes_after (h : IsCount triggers delay c d) (hends : d.EndsBeforeNext)
    {p : RawDataPkt} (hp : p ∈ d.last :: d.late) {ev : Event} :
    d.takes true p ev = true ↔ d.Within p ev := by
  have hmem : p ∈ d.packets := List.mem_append_right _ hp
  have hlt : d.first.pulseId < d.last.pulseId :=
    lt_of_le_of_ne (h.pulseId_le.1 List.mem_cons_self).2 h.pulses
  have hgt : d.first.pulseId < p.pulseId := lt_of_lt_of_le hlt (h.pulseId_le.2 hp)
  have hstart : d.startTime.nanos < p.pulseTime.nanos :=
    hends d.first (List.mem_append_left _ List.mem_cons_self) p hmem hgt _ h.start.mem
  have htime := nanos_triggerTime_eq p ev.tof
  have hwithin : d.startTime.nanos ≤ (CountStats.triggerTime p.pulseId ev.tof).nanos := by omega
  by_cases hlast : p.pulseId = d.last.pulseId
  · simp only [Count.takes, if_neg hgt.ne', if_pos (And.intro True.intro hlast),
      decide_eq_true_eq, Count.Within]
    rw [and_iff_right hwithin, Count.stopTime, ← hlast, nanos_triggerTime_le]
  · -- the pulse is behind the stop trigger
    have hbehind : d.stopTime.nanos < p.pulseTime.nanos :=
      hends d.last (List.mem_append_right _ List.mem_cons_self) p hmem
        (lt_of_le_of_ne (h.pulseId_le.2 hp) (Ne.symm hlast)) _ h.stop.mem
    simp only [Count.takes, if_neg hgt.ne', hlast, and_false, if_false, decide_eq_true_eq,
      true_imp_iff, Count.Within]
    exact iff_of_false (fun hle => by omega) (fun hle => by omega)

/-- Where every event comes before the next pulse, the events that are taken are those whose own
    time is in the window. -/
theorem IsCount.numTaken_eq (h : IsCount triggers delay c d) (hends : d.EndsBeforeNext)
    (hatOnce : d.StopsAtOnce) (kind : Event → Bool) : d.numTaken kind = d.numWithin kind := by
  have hlt : d.first.pulseId < d.last.pulseId :=
    lt_of_le_of_ne (h.pulseId_le.1 List.mem_cons_self).2 h.pulses
  rw [Count.numTaken, Count.numWithin, Count.packets, numOf_append]
  congr 1
  · refine numOf_congr fun p hp ev hev => ?_
    have hbefore : p.pulseId < d.last.pulseId := by
      obtain rfl | hp := List.mem_cons.mp hp
      · exact hlt
      · exact lt_of_le_of_ne (h.pulseId_le.1 (List.mem_cons_of_mem _ hp)).2 (hatOnce p hp)
    rw [Bool.eq_iff_iff, decide_eq_true_eq]
    exact h.takes_before hends hp hbefore hev
  · refine numOf_congr fun p hp ev hev => ?_
    rw [Bool.eq_iff_iff, decide_eq_true_eq]
    exact h.takes_after hends hp

end Within

/-- The total of a counter that counts alone, once it is done: the events of the pulses in its
    window.  Where every event comes before the next pulse, and the stop trigger with the first
    packet of its pulse, these are the events whose own time is in the window. -/
theorem total_of_count [DecidableEq κ] {triggers : Triggers κ} {delay : κ → Timespec} {c : κ}
    {s : QuickCounts κ} {d : Count} (hs : Idle s) (hstart : s.ignoresStart c = false)
    (h : IsCount triggers (delay c) c d) :
    let s' := d.packets.foldl (pulseEvents triggers delay) s
    ((s'.regs.counter c).counting = qcDoneCounting ∧
      (s'.stats c).detectorCountsAll = UInt32.ofNat (d.numTaken Event.isDetector) ∧
      (s'.stats c).monitorCountsAll = UInt32.ofNat (d.numTaken Event.isMonitor)) ∧
    (d.EndsBeforeNext → d.StopsAtOnce → ∀ kind, d.numTaken kind = d.numWithin kind) :=
  ⟨h.stopped hs hstart, h.numTaken_eq⟩

/-! ### An event that is later than its pulse -/

/-- A packet with one event. -/
def packetOf (pulseId : UInt64) (tof pixel : UInt32) : RawDataPkt :=
  ⟨1, pulseId, [0, 0, 0, 0, 0, 0, tof, pixel], Nat.le_add_right 6 2⟩

/-- Pulses at 1.0 s, 1.02 s, 1.04 s and 1.2 s.  The counter is started at 1.0 s and stopped at
    1.041 s; the pulse between has a detector event at 1.06 s. -/
def lateEvent : Count where
  first := packetOf 0x100000000 0 0x50000001
  startEv := ⟨0, 0x50000001⟩
  between := [packetOf 0x101312d00 400000 5]
  last := packetOf 0x102625a00 10000 0x50000000
  stopEv := ⟨10000, 0x50000000⟩
  late := [packetOf 0x10bebc200 0 5]

/-- One counter, which has not counted yet. -/
def idle : QuickCounts Nat := ⟨idleCounters, fun _ => .reset⟩

def oneCounter : Triggers Nat := fun key => if key = 0x50000000 then some 0 else none

/-- The counter is done a tenth of a second behind the stop. -/
def tenthSecond : Nat → Timespec := fun _ => ⟨0, 100000000⟩

theorem isCount_lateEvent : IsCount oneCounter (tenthSecond 0) 0 lateEvent where
  start := ⟨[], [], rfl, nofun, nofun, rfl, rfl⟩
  start_value := by decide
  stop := ⟨[], [], rfl, nofun, nofun, rfl, rfl⟩
  stop_value := by decide
  quiet := by
    unfold Quiet
    decide
  pulses := by decide
  inOrder := by decide
  done := ⟨[lateEvent.last], _, rfl, by decide, by decide⟩

theorem total_of_count_lateEvent :
    let s' := lateEvent.packets.foldl (pulseEvents oneCounter tenthSecond) idle
    (s'.regs.counter 0).counting = qcDoneCounting ∧
      (s'.stats 0).detectorCountsAll = UInt32.ofNat (lateEvent.numTaken Event.isDetector) ∧
      (s'.stats 0).monitorCountsAll = UInt32.ofNat (lateEvent.numTaken Event.isMonitor) :=
  (@total_of_count Nat _ oneCounter tenthSecond 0 idle lateEvent ⟨rfl, rfl⟩ (by decide)
    isCount_lateEvent).1

/-- The late event is taken, although it is not in the window. -/
theorem not_total_within :
    ¬ ∀ (triggers : Triggers Nat) (delay : Nat → Timespec) (c : Nat) (s : QuickCounts Nat)
      (d : Count), Idle s → s.ignoresStart c = false → IsCount triggers (delay c) c d →
        ((d.packets.foldl (pulseEvents triggers delay) s).stats c).detectorCountsAll =
          UInt32.ofNat (d.numWithin Event.isDetector) := by
  intro hall
  have hwithin := hall oneCounter tenthSecond 0 idle lateEvent ⟨rfl, rfl⟩ (by decide)
    isCount_lateEvent
  have htaken := (@IsCount.stopped Nat _ oneCounter tenthSecond 0 idle lateEvent
    isCount_lateEvent ⟨rfl, rfl⟩ (by decide)).2.1
  rw [hwithin, show lateEvent.numTaken Event.isDetector = 1 by decide,
    show lateEvent.numWithin Event.isDetector = 0 by decide] at htaken
  exact absurd htaken (by decide)

end Adara.Spec.QuickCounts
