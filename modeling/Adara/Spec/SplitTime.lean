import Adara.Native.SourceTimes
import Adara.Native.StorageManager
import Mathlib.Data.Int.ConditionallyCompleteOrder
import Mathlib.Data.List.MinMax
import Mathlib.Order.ConditionallyCompleteLattice.Basic
import Mathlib.Order.Nat

/-! # Where a long container is split

The cut-off of a split is meant to be the newest time of the sources, or the time of the clock if
that is less.  The two are in different epochs, and are compared as they are.  So the cut-off is
right only where no source is ahead of the clock (`maxTime_iff`). -/

namespace Adara.Spec.SplitTime

open Adara.Native Timespec

/-! ### The newest time -/

/-- The times of the sources that have one. -/
def reported (s : SourceTimes) : List Timespec := s.dataSourcesMaxTimes.filter fun t => !t.isZero

/-- The loop finds the first of the latest times, as unsigned numbers. -/
theorem foldl_newer (times : List Timespec) :
    times.foldl SourceTimes.newer ⟨0, 0⟩ =
      ((times.filter fun t => !t.isZero).argmax nanos).getD ⟨0, 0⟩ := by
  induction times using List.reverseRecOn with
  | nil => rfl
  | append_singleton times last ih =>
    rw [List.foldl_append, List.foldl_cons, List.foldl_nil, ih, List.filter_append,
      List.filter_singleton, SourceTimes.newer]
    cases hlast : last.isZero with
    | true => rw [Bool.not_true, cond_false, List.append_nil, if_pos rfl]
    | false =>
      rw [Bool.not_false, cond_true, List.argmax_concat, if_neg Bool.false_ne_true]
      cases hbest : (times.filter fun t => !t.isZero).argmax nanos with
      | none => rfl
      | some best =>
        have hzero : best.isZero = false := by
          have hmem := List.argmax_mem hbest
          rw [List.mem_filter, Bool.not_eq_true'] at hmem
          exact hmem.2
        rw [Option.getD_some, hzero, if_neg Bool.false_ne_true]
        simp only [before_iff]
        split <;> rfl

/-- A time is from two words, less the difference of the epochs. -/
structure FromWords (t : Timespec) : Prop where
  sec_ge : -631152000 ≤ t.sec
  sec_lt : t.sec < 2 ^ 32
  nsec_nonneg : 0 ≤ t.nsec
  nsec_lt : t.nsec < 2 ^ 32

theorem fromWords_zero : FromWords ⟨0, 0⟩ := ⟨by decide, by decide, by decide, by decide⟩

/-- The time of a packet in the EPICS epoch. -/
theorem fromWords_epicsTime (sec nsec : UInt32) :
    FromWords (SourceTimes.epicsTime ⟨sec.toNat, nsec.toNat⟩) := by
  have hsec : sec.toNat < 2 ^ 32 := sec.toNat_lt
  have hnsec : nsec.toNat < 2 ^ 32 := nsec.toNat_lt
  rw [SourceTimes.epicsTime, epicsEpochOffset]
  split <;> constructor <;> simp only <;> omega

/-- What holds of the times at any moment. -/
structure Kept (s : SourceTimes) : Prop where
  fromWords : ∀ t ∈ s.dataSourcesMaxTimes, FromWords t
  newest : s.newestMaxDataSourceTime = ((reported s).argmax nanos).getD ⟨0, 0⟩

theorem kept_init : Kept SourceTimes.init := by
  refine ⟨fun t ht => ?_, rfl⟩
  rw [SourceTimes.init, List.mem_singleton] at ht
  rw [ht]
  exact fromWords_zero

theorem Kept.addDataSource {s : SourceTimes} (h : Kept s) : Kept s.addDataSource := by
  constructor
  · intro t ht
    rw [SourceTimes.addDataSource, List.mem_append, List.mem_singleton] at ht
    rcases ht with ht | rfl
    · exact h.fromWords t ht
    · exact fromWords_zero
  · have hsame : reported s.addDataSource = reported s := by
      rw [reported, SourceTimes.addDataSource, List.filter_append]
      exact List.append_nil _
    rw [hsame]
    exact h.newest

theorem Kept.updateMaxDataSourceTime {s : SourceTimes} (h : Kept s) (srcId : Nat)
    (sec nsec : UInt32) : Kept (s.updateMaxDataSourceTime srcId ⟨sec.toNat, nsec.toNat⟩) := by
  rw [SourceTimes.updateMaxDataSourceTime]
  split
  · refine ⟨fun t ht => ?_, foldl_newer _⟩
    rcases List.mem_or_eq_of_mem_set ht with ht | rfl
    · exact h.fromWords t ht
    · exact fromWords_epicsTime sec nsec
  · exact h

theorem kept_reports (reports : List SourceTimes.Report) :
    Kept (reports.foldl SourceTimes.report SourceTimes.init) := by
  induction reports using List.reverseRecOn with
  | nil => exact kept_init
  | append_singleton reports last ih =>
    rw [List.foldl_append, List.foldl_cons, List.foldl_nil]
    cases last with
    | addDataSource => exact ih.addDataSource
    | updateMaxDataSourceTime srcId sec nsec => exact ih.updateMaxDataSourceTime srcId.toNat sec nsec

/-! ### The cut-off -/

/-- The beginning of the EPICS epoch, on the clock. -/
def epoch : Int := epicsEpochOffset * Timespec.nanoPerSecond

/-- A time that the clock can tell. -/
structure Wallclock where
  time : Timespec
  sec_nonneg : 0 ≤ time.sec
  nsec_nonneg : 0 ≤ time.nsec
  nsec_lt : time.nsec < Timespec.nanoPerSecond
  /-- The comparison multiplies signed numbers of 64 bits. -/
  total_lt : time.total < 2 ^ 63

/-- What the cut-off is meant to be, with the times of the sources that have one. -/
structure CutOff (times : List Timespec) (now newest cut : Timespec) : Prop where
  no_time : times = [] → newest = ⟨0, 0⟩
  is_max : times ≠ [] → newest ∈ times ∧ ∀ t ∈ times, t.total ≤ newest.total
  total_eq : cut.total = min newest.total (now.total - epoch) + 1
  nsec_nonneg : 0 ≤ cut.nsec
  nsec_lt : cut.nsec < Timespec.nanoPerSecond

/-- No source is ahead of the clock or before 1990, and the nanosecond field of the first of the
    latest times needs no second carry. -/
structure InTime (times : List Timespec) (now : Timespec) : Prop where
  epoch_le : epoch ≤ now.total
  nonneg : ∀ t ∈ times, 0 ≤ t.total
  le_now : ∀ t ∈ times, t.total ≤ now.total - epoch
  nsec_lt : ∀ t ∈ times.argmax total, t.nsec < 2 * Timespec.nanoPerSecond - 1

/-- What is the first of the greatest depends on the order only. -/
theorem argmax_congr {α β γ : Type} [DecidableEq α] [LinearOrder β] [LinearOrder γ] {f : α → β}
    {g : α → γ} {l : List α} (h : ∀ a ∈ l, ∀ b ∈ l, f a ≤ f b ↔ g a ≤ g b) :
    l.argmax f = l.argmax g := by
  ext m
  rw [List.argmax_eq_some_iff, List.argmax_eq_some_iff]
  refine and_congr_right fun hm => and_congr ?_ ?_
  · exact forall₂_congr fun a ha => h a ha m hm
  · exact forall₂_congr fun a ha => imp_congr_left (h m hm a ha)

theorem FromWords.total_lt {t : Timespec} (h : FromWords t) :
    -2 ^ 63 ≤ t.total ∧ t.total < 2 ^ 63 := by
  obtain ⟨h1, h2, h3, h4⟩ := h
  simp only [total, Timespec.nanoPerSecond]
  omega

/-- Times in order of their unsigned numbers, when none is negative. -/
theorem argmax_nanos {times : List Timespec} (hwords : ∀ t ∈ times, FromWords t)
    (hnonneg : ∀ t ∈ times, 0 ≤ t.total) : times.argmax nanos = times.argmax total := by
  refine argmax_congr fun a ha b hb => ?_
  have hlta := (hwords a ha).total_lt.2
  have hltb := (hwords b hb).total_lt.2
  have heqa := nanos_of_nonneg (hnonneg a ha) (by omega)
  have heqb := nanos_of_nonneg (hnonneg b hb) (by omega)
  omega

theorem Wallclock.nanos_eq (now : Wallclock) : (now.time.nanos : Int) = now.time.total := by
  have hnonneg : 0 ≤ now.time.total := by
    have hsec := now.sec_nonneg
    have hnsec := now.nsec_nonneg
    simp only [total, Timespec.nanoPerSecond]
    omega
  have hlt := now.total_lt
  exact nanos_of_nonneg hnonneg (by omega)

/-- The newest time is not after the clock, as unsigned numbers. -/
theorem before_eq_false_iff {now : Wallclock} {newest : Timespec} (h : FromWords newest) :
    now.time.before newest = false ↔ 0 ≤ newest.total ∧ newest.total ≤ now.time.total := by
  have hnow := now.nanos_eq
  have hlt := now.total_lt
  obtain ⟨hge, hltNewest⟩ := h.total_lt
  rw [Bool.eq_false_iff, ne_eq, before_iff, Nat.not_lt]
  by_cases hneg : newest.total < 0
  · have hbig := nanos_of_neg hneg hge
    omega
  · have heq := nanos_of_nonneg (show 0 ≤ newest.total by omega) (by omega)
    omega

/-- The cut-off of a split. -/
def cutOff (newest now : Timespec) : Timespec :=
  if now.before newest then now.succ else newest.succ

theorem maxTime_eq (newest now : Timespec) (switch : StorageManager.SwitchIO) :
    StorageManager.SplitIO.maxTime ⟨newest, now, switch⟩ = cutOff newest now := by
  rw [StorageManager.SplitIO.maxTime, cutOff]
  simp only
  split <;> rfl

/-- The slot at an iterator after a slot is changed. -/
theorem slotAt_setSlot (m : StorageManager) (slot : Slot) (n : Nat) :
    (m.setSlot slot).slotAt n =
      (m.slotAt n).map fun slot' => if slot'.node = slot.node then slot else slot' := by
  have hnode : ((fun s : Slot => s.node == n) ∘
      fun slot' => if slot'.node = slot.node then slot else slot') = fun s => s.node == n := by
    funext slot'
    simp only [Function.comp]
    split
    · next heq => rw [heq]
    · rfl
  rw [StorageManager.slotAt, StorageManager.setSlot, List.find?_map, hnode]
  rfl

theorem node_of_slotAt {m : StorageManager} {n : Nat} {slot : Slot} (h : m.slotAt n = some slot) :
    slot.node = n := by
  have hfound := List.find?_some (p := fun s : Slot => s.node == n) h
  exact beq_iff_eq.mp hfound

/-- A container that stays on the stack gets its end, and there is a new slot in front. -/
theorem endCurrentContainer_stays {m m' : StorageManager} {n it : Nat} {c : StoredContainer}
    {newStart : Timespec} {opens : Bool} (hat : m.containerAt n = some c)
    (hconnected : m.numConnected ≠ 0)
    (h : m.endCurrentContainer n newStart false opens = (m', some it)) :
    it = m.nextNode ∧ ∃ modes, m'.containerStack = ⟨m.nextNode, none⟩ ::
      (m.setSlot ⟨n, some { c with maxTime := newStart.pred, modes }⟩).containerStack := by
  have hzero : (m.numConnected == 0) = false := beq_eq_false_iff_ne.mpr hconnected
  rw [StorageManager.endCurrentContainer, hat] at h
  simp only [hzero, Bool.or_false, Bool.false_eq_true, if_false] at h
  cases hmodes : StorageManager.getLastPrologueFiles c.modes opens with
  | none =>
    rw [hmodes] at h
    cases h
  | some modes =>
    rw [hmodes] at h
    cases h
    exact ⟨rfl, modes, rfl⟩

/-- A container that starts is in its slot, from its minimum time on. -/
theorem startContainer_starts {m m' : StorageManager} {n run : Nat} {minTime : Timespec}
    {paused lastPrologue : Bool} {io : StorageManager.StartIO}
    (h : m.startContainer n minTime paused run lastPrologue io = (m', true)) :
    ∃ modes, m' = m.setSlot ⟨n, some ⟨minTime, ⟨0, 0⟩, modes⟩⟩ := by
  rw [StorageManager.startContainer] at h
  split at h
  · cases h
  · exact ⟨_, (Prod.mk.inj h).1.symm⟩

/-- A container that stays on the stack when it is split ends before the cut-off, and the new one
    begins there. -/
theorem splitContainer_boundary {m m' : StorageManager} {n it : Nat} {c : StoredContainer}
    {io : StorageManager.SplitIO} (hat : m.containerAt n = some c)
    (hnew : m.slotAt m.nextNode = none) (hstays : c.modes.pauseModeStack.length ≠ 1)
    (hconnected : m.numConnected ≠ 0) (h : m.splitContainer n c io = (m', some it)) :
    (m'.containerAt it).map StoredContainer.minTime = some io.maxTime ∧
      (m'.containerAt n).map StoredContainer.maxTime = some io.maxTime.pred := by
  have hone : (c.modes.pauseModeStack.length == 1) = false := beq_eq_false_iff_ne.mpr hstays
  rw [StorageManager.splitContainer, hone] at h
  simp only [Bool.false_eq_true, if_false] at h
  split at h
  · cases h
  · next m₁ it₁ hend =>
    split at h
    · next m₂ hstart =>
      cases h
      obtain ⟨rfl, modes, hstack⟩ := endCurrentContainer_stays hat hconnected hend
      obtain ⟨modes', rfl⟩ := startContainer_starts hstart
      obtain ⟨slot, hslot, -⟩ := Option.bind_eq_some_iff.mp hat
      have hne : m.nextNode ≠ n := by
        rintro rfl
        rw [hnew] at hslot
        cases hslot
      constructor
      · have hfront : m₁.slotAt m.nextNode = some ⟨m.nextNode, none⟩ := by
          rw [StorageManager.slotAt, hstack, List.find?_cons_of_pos (by simp)]
        rw [StorageManager.containerAt, slotAt_setSlot, hfront, Option.map_some, if_pos rfl]
        rfl
      · have hold : m₁.slotAt n =
            some ⟨n, some { c with maxTime := io.maxTime.pred, modes }⟩ := by
          rw [StorageManager.slotAt, hstack,
            List.find?_cons_of_neg (by simpa using hne), ← StorageManager.slotAt,
            slotAt_setSlot, hslot, Option.map_some, if_pos (node_of_slotAt hslot)]
        rw [StorageManager.containerAt, slotAt_setSlot, hold, Option.map_some, if_neg hne.symm]
        rfl
    · cases h

section
variable {times : List Timespec} {newest : Timespec} {now : Wallclock}
  (hwords : ∀ t ∈ times, FromWords t) (hnewest : newest = (times.argmax nanos).getD ⟨0, 0⟩)

include hnewest in
theorem nanos_le_newest {t : Timespec} (ht : t ∈ times) : t.nanos ≤ newest.nanos := by
  cases hbest : times.argmax nanos with
  | none =>
    rw [List.argmax_eq_none.mp hbest] at ht
    cases ht
  | some best =>
    rw [hnewest, hbest, Option.getD_some]
    exact List.le_of_mem_argmax ht hbest

include hwords hnewest

theorem fromWords_newest : FromWords newest := by
  rw [hnewest]
  cases hbest : times.argmax nanos with
  | none => exact fromWords_zero
  | some best => exact hwords best (List.argmax_mem hbest)

/-- A cut-off that is right is from the newest time: on the clock, it is in the wrong epoch. -/
theorem CutOff.inTime (h : CutOff times now.time newest (cutOff newest now.time)) :
    InTime times now.time := by
  have hfrom := fromWords_newest hwords hnewest
  have hepoch : epoch = 631152000000000000 := by decide
  have htotal := h.total_eq
  have hnsec := h.nsec_lt
  cases hbefore : now.time.before newest with
  | true =>
    rw [cutOff, hbefore, if_pos rfl, total_succ] at htotal
    omega
  | false =>
    rw [cutOff, hbefore, if_neg Bool.false_ne_true] at htotal hnsec
    rw [total_succ] at htotal
    obtain ⟨hnonneg, hle⟩ := (before_eq_false_iff hfrom).mp hbefore
    have hlt := hfrom.total_lt.2
    have hnanos := nanos_of_nonneg hnonneg (by omega)
    have hall : ∀ t ∈ times, 0 ≤ t.total := by
      intro t ht
      by_contra hneg
      have hbig := nanos_of_neg (show t.total < 0 by omega) (hwords t ht).total_lt.1
      have hmax := nanos_le_newest hnewest ht
      omega
    refine ⟨by omega, hall, fun t ht => ?_, fun t ht => ?_⟩
    · have hmax := (h.is_max (List.ne_nil_of_mem ht)).2 t ht
      omega
    · -- the time found is the first of the latest
      rw [← argmax_nanos hwords hall] at ht
      have heq : newest = t := by rw [hnewest, ht, Option.getD_some]
      rw [succ_nsec_lt_iff, heq] at hnsec
      exact hnsec

theorem InTime.cutOff (h : InTime times now.time) :
    CutOff times now.time newest (cutOff newest now.time) := by
  have hfrom := fromWords_newest hwords hnewest
  have hepoch : epoch = 631152000000000000 := by decide
  have hepochLe := h.epoch_le
  -- without a time of a source the newest is 0, else it is the first of the latest
  have hbest : (times = [] ∧ newest = ⟨0, 0⟩) ∨ newest ∈ times.argmax total := by
    rw [argmax_nanos hwords h.nonneg] at hnewest
    cases hbest : times.argmax total with
    | none =>
      rw [hbest] at hnewest
      exact .inl ⟨List.argmax_eq_none.mp hbest, hnewest⟩
    | some best =>
      rw [hbest] at hnewest
      exact .inr (congrArg some hnewest.symm)
  have hrange : 0 ≤ newest.total ∧ newest.total ≤ now.time.total - epoch := by
    rcases hbest with ⟨-, hzero⟩ | hbest
    · have htotal : (⟨0, 0⟩ : Timespec).total = 0 := rfl
      rw [hzero, htotal]
      omega
    · have hmem := List.argmax_mem hbest
      exact ⟨h.nonneg _ hmem, h.le_now _ hmem⟩
  have hnsec : newest.nsec < 2 * Timespec.nanoPerSecond - 1 := by
    rcases hbest with ⟨-, hzero⟩ | hbest
    · rw [hzero]
      decide
    · exact h.nsec_lt _ hbest
  -- no source is ahead of the wallclock, so the branch that assigns it is not taken
  have hbefore : now.time.before newest = false :=
    (before_eq_false_iff hfrom).mpr ⟨hrange.1, by omega⟩
  rw [SplitTime.cutOff, hbefore, if_neg Bool.false_ne_true]
  constructor
  · intro hnil
    rcases hbest with ⟨-, hzero⟩ | hbest
    · exact hzero
    · rw [hnil] at hbest
      cases hbest
  · intro hne
    rcases hbest with ⟨hnil, -⟩ | hbest
    · exact absurd hnil hne
    · exact ⟨List.argmax_mem hbest, fun t ht => List.le_of_mem_argmax ht hbest⟩
  · rw [total_succ]
    omega
  · exact succ_nsec_nonneg hfrom.nsec_nonneg
  · exact succ_nsec_lt_iff.mpr hnsec

end

/-- For every sequence of reports and every time of the clock: the newest time is the maximum, and
    the cut-off of a split (by `addPacket` or by `savePacket`) is one nanosecond after the lesser of
    it and the clock, both in the EPICS epoch, just if no source is ahead of the clock or before
    1990, and the latest time has a nanosecond field that one carry brings under a second. -/
theorem maxTime_iff (reports : List SourceTimes.Report) (now : Wallclock)
    (switch : StorageManager.SwitchIO) :
    let s := reports.foldl SourceTimes.report SourceTimes.init
    CutOff (reported s) now.time s.newestMaxDataSourceTime
        (StorageManager.SplitIO.maxTime ⟨s.newestMaxDataSourceTime, now.time, switch⟩) ↔
      InTime (reported s) now.time := by
  intro s
  obtain ⟨hall, hnewest⟩ := kept_reports reports
  have hwords : ∀ t ∈ reported s, FromWords t := fun t ht => hall t (List.mem_of_mem_filter ht)
  rw [maxTime_eq]
  exact ⟨fun h => h.inTime hwords hnewest, fun h => h.cutOff hwords hnewest⟩

/-- With a source ahead of the clock by more than three years, the cut-off is ahead of it as
    well. -/
theorem maxTime_future :
    let s := [SourceTimes.Report.addDataSource,
      .updateMaxDataSourceTime 1 1800000000 0].foldl SourceTimes.report SourceTimes.init
    let cut := StorageManager.SplitIO.maxTime
      ⟨s.newestMaxDataSourceTime, ⟨1700000000, 0⟩, ⟨true, ⟨true, true⟩⟩⟩
    cut = ⟨1168848000, 1⟩ ∧ ¬ CutOff (reported s) ⟨1700000000, 0⟩ s.newestMaxDataSourceTime cut := by
  refine ⟨by decide, fun h => ?_⟩
  exact absurd h.total_eq (by decide)

end Adara.Spec.SplitTime
