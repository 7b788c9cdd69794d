import Adara.ForStd.Runs
import Adara.Native.QuickCounter
import Mathlib.Data.List.Nodup

/-! # The registered counters are those that count

A counter is unregistered by its id, its position when it was registered.  As counters ahead of
it are erased it moves up, and the id is the position of another counter, or of none.  So the
registries are exact as long as no counter is overtaken, finishing after one that was counting
when it started, and none is started again while it counts (`registry_exact_iff`). -/

namespace Adara.Spec.QuickCounter

open Adara.Native Adara.Native.QuickCounters

variable {κ : Type*}

/-! ### The line of counters -/

/-- The ids of a line whose first counter is at position `k`.  That of a counter that was
    overtaken is too large. -/
def Placed (id : κ → Int) : Int → List (κ × Bool) → Prop
  | _, [] => True
  | k, e :: L => (if e.2 then k < id e.1 else id e.1 = k) ∧ Placed id (k + 1) L

section Line

variable {id id' : κ → Int} {k : Int} {L : List (κ × Bool)} {c : κ}

theorem Placed.le (h : Placed id k L) : ∀ e ∈ L, k ≤ id e.1 := by
  induction L generalizing k with
  | nil => simp
  | cons e L ih =>
    refine List.forall_mem_cons.mpr ⟨?_, fun e' he' => ?_⟩
    · have hid := h.1
      split at hid <;> omega
    · have hle := ih h.2 e' he'
      omega

/-- Ids that are too large stay so when the counters move up. -/
theorem Placed.advance (h : Placed id (k + 1) L) :
    Placed id k (L.map fun e => (e.1, true)) := by
  induction L generalizing k with
  | nil => trivial
  | cons e L ih =>
    have hle := h.le e List.mem_cons_self
    exact ⟨Int.lt_of_lt_of_le (Int.lt_succ k) hle, ih h.2⟩

theorem Placed.congr (h : Placed id k L) (hid : ∀ e ∈ L, id' e.1 = id e.1) :
    Placed id' k L := by
  induction L generalizing k with
  | nil => trivial
  | cons e L ih =>
    obtain ⟨he, hrest⟩ := List.forall_mem_cons.mp hid
    exact ⟨by rw [he]; exact h.1, ih h.2 hrest⟩

theorem Placed.concat (h : Placed id k L) (hc : id c = k + L.length) :
    Placed id k (L ++ [(c, false)]) := by
  induction L generalizing k with
  | nil => exact ⟨by simpa using hc, trivial⟩
  | cons e L ih =>
    refine ⟨h.1, ih h.2 ?_⟩
    rw [hc, List.length_cons]
    omega

variable [DecidableEq κ]

/-- A counter of the line finishes: all behind it have been overtaken. -/
def finish (c : κ) : List (κ × Bool) → List (κ × Bool)
  | [] => []
  | e :: L => if e.1 = c then L.map fun e => (e.1, true) else e :: finish c L

theorem map_fst_finish (c : κ) (L : List (κ × Bool)) :
    (finish c L).map Prod.fst = (L.map Prod.fst).erase c := by
  induction L with
  | nil => rfl
  | cons e L ih =>
    rw [finish, List.map_cons, List.erase_cons]
    by_cases he : e.1 = c
    · rw [if_pos he, if_pos (beq_iff_eq.mpr he), List.map_map]
      rfl
    · rw [if_neg he, if_neg (by simpa using he), List.map_cons, ih]

theorem Placed.finish (h : Placed id k L) (c : κ) : Placed id k (finish c L) := by
  induction L generalizing k with
  | nil => trivial
  | cons e L ih =>
    rw [QuickCounter.finish]
    split
    · exact h.2.advance
    · exact ⟨h.1, ih h.2⟩

/-- The id of a counter that was not overtaken is its position, that of another is behind. -/
theorem Placed.idxOf (h : Placed id k L) (hnodup : (L.map Prod.fst).Nodup) {b : Bool}
    (hc : (c, b) ∈ L) :
    if b then k + (L.map Prod.fst).idxOf c < id c else id c = k + (L.map Prod.fst).idxOf c := by
  induction L generalizing k with
  | nil => simp at hc
  | cons e L ih =>
    rw [List.map_cons] at hnodup ⊢
    obtain ⟨hnew, hnodup⟩ := List.nodup_cons.mp hnodup
    rcases List.mem_cons.mp hc with rfl | hc
    · have hid := h.1
      simpa using hid
    · have hne : e.1 ≠ c := fun heq => hnew (heq ▸ List.mem_map_of_mem hc)
      have hid := ih h.2 hnodup hc
      rw [List.idxOf_cons_ne _ hne]
      split at hid
      · rename_i hb
        rw [if_pos hb]
        omega
      · rename_i hb
        rw [if_neg hb]
        omega

end Line

/-! ### A registry -/

/-- A registry has the counters of the line, and their ids. -/
structure Tracks (r : CounterRegistry κ) (id : κ → Int) (L : List (κ × Bool)) : Prop where
  counters_eq : r.counters = L.map Prod.fst
  num_eq : r.num = L.length
  placed : Placed id 0 L

section Registry

variable {r : CounterRegistry κ} {id id' : κ → Int} {L : List (κ × Bool)} {c : κ}

theorem Tracks.congr (h : Tracks r id L) (hid : ∀ c ∈ L.map Prod.fst, id' c = id c) :
    Tracks r id' L :=
  ⟨h.counters_eq, h.num_eq, h.placed.congr fun _ he => hid _ (List.mem_map_of_mem he)⟩

theorem Tracks.register (h : Tracks r id L) (hid : id c = r.num) :
    Tracks (r.register c).1 id (L ++ [(c, false)]) where
  counters_eq := by
    rw [List.map_append, ← h.counters_eq]
    rfl
  num_eq := by
    rw [CounterRegistry.register, h.num_eq, List.length_append]
    rfl
  placed := h.placed.concat (by rw [hid, h.num_eq, Int.zero_add])

variable [DecidableEq κ]

/-- The id of a counter that was not overtaken erases it. -/
theorem Tracks.unregister (h : Tracks r id L) (hnodup : (L.map Prod.fst).Nodup)
    (hc : (c, false) ∈ L) :
    (r.unregister (id c)).counters = r.counters.erase c ∧
      Tracks (r.unregister (id c)) id (finish c L) := by
  have hmem : c ∈ L.map Prod.fst := List.mem_map_of_mem hc
  have hlt := List.idxOf_lt_length_of_mem hmem
  have hid : id c = (L.map Prod.fst).idxOf c := by
    have hidx := h.placed.idxOf hnodup hc
    rwa [if_neg Bool.false_ne_true, Int.zero_add] at hidx
  have herase : r.unregister (id c) = ⟨r.counters.erase c, r.num - 1⟩ := by
    rw [CounterRegistry.unregister, hid, h.counters_eq, if_neg (by omega), Int.toNat_natCast,
      List.eraseIdx_idxOf_eq_erase]
  refine ⟨by rw [herase], by rw [herase, map_fst_finish, h.counters_eq], ?_, h.placed.finish c⟩
  have hlen := congrArg List.length (map_fst_finish c L)
  rw [List.length_map, List.length_erase_of_mem hmem, List.length_map] at hlen
  rw [List.length_map] at hlt
  rw [herase, hlen]
  show r.num - 1 = _
  rw [h.num_eq]
  omega

/-- The id of a counter that was overtaken does not erase it. -/
theorem Tracks.mem_unregister (h : Tracks r id L) (hnodup : (L.map Prod.fst).Nodup)
    (hc : (c, true) ∈ L) : c ∈ (r.unregister (id c)).counters := by
  have hmem : c ∈ L.map Prod.fst := List.mem_map_of_mem hc
  have hlt := List.idxOf_lt_length_of_mem hmem
  have hid := h.placed.idxOf hnodup hc
  rw [if_pos rfl, Int.zero_add] at hid
  rw [CounterRegistry.unregister, h.counters_eq]
  split
  · exact h.counters_eq ▸ hmem
  · refine List.mem_eraseIdx_iff_getElem.mpr ⟨(L.map Prod.fst).idxOf c, hlt, by omega, ?_⟩
    exact List.getElem_idxOf hlt

end Registry

/-! ### What a call does -/

/-- The counter counts, or waits for late events. -/
def Active (s : QuickCounters κ) (c : κ) : Prop :=
  (s.counter c).counting = qcCounting ∨ (s.counter c).counting = qcWaiting

instance (s : QuickCounters κ) (c : κ) : Decidable (Active s c) :=
  inferInstanceAs (Decidable (_ ∨ _))

/-- A start trigger starts a count, as the PVs stand. -/
def Starts (s : QuickCounters κ) (c : κ) : Prop :=
  (s.counter c).pvCounting ≠ qcWaiting ∧
    ((s.counter c).pvCounting = qcDoneCounting → (s.counter c).autoReset)

instance (s : QuickCounters κ) (c : κ) : Decidable (Starts s c) :=
  inferInstanceAs (Decidable (_ ∧ _))

/-- A counter has started to count. -/
structure Begun (c : κ) (s s' : QuickCounters κ) : Prop where
  others : ∀ c' ≠ c, s'.counter c' = s.counter c'
  counting : (s'.counter c).counting = qcCounting
  detectorAll : s'.detectorAll = (s.detectorAll.register c).1
  detectorId : (s'.counter c).detectorCountsAllId = s.detectorAll.num
  monitorAll : s'.monitorAll = (s.monitorAll.register c).1
  monitorId : (s'.counter c).monitorCountsAllId = s.monitorAll.num

/-- A counter is done. -/
structure Finished (c : κ) (s s' : QuickCounters κ) : Prop where
  others : ∀ c' ≠ c, s'.counter c' = s.counter c'
  counting : (s'.counter c).counting = qcDoneCounting
  detectorAll :
    s'.detectorAll = s.detectorAll.unregister (s.counter c).detectorCountsAllId
  monitorAll : s'.monitorAll = s.monitorAll.unregister (s.counter c).monitorCountsAllId

/-- Only the state of a counter, or what its PVs say, has changed. -/
structure Kept (c : κ) (s s' : QuickCounters κ) : Prop where
  others : ∀ c' ≠ c, s'.counter c' = s.counter c'
  detectorAll : s'.detectorAll = s.detectorAll
  detectorId : (s'.counter c).detectorCountsAllId = (s.counter c).detectorCountsAllId
  monitorAll : s'.monitorAll = s.monitorAll
  monitorId : (s'.counter c).monitorCountsAllId = (s.counter c).monitorCountsAllId

theorem Begun.after {s s' t : QuickCounters κ} {c : κ} (ht : Kept c s t) (h : Begun c t s') :
    Begun c s s' where
  others c' hne := (h.others c' hne).trans (ht.others c' hne)
  counting := h.counting
  detectorAll := by rw [h.detectorAll, ht.detectorAll]
  detectorId := by rw [h.detectorId, ht.detectorAll]
  monitorAll := by rw [h.monitorAll, ht.monitorAll]
  monitorId := by rw [h.monitorId, ht.monitorAll]

theorem active_of_counting_eq {s s' : QuickCounters κ} {c : κ}
    (h : (s'.counter c).counting = (s.counter c).counting) :
    Active s' c ↔ Active s c := by
  rw [Active, Active, h]

theorem active_of_ne {s s' : QuickCounters κ} {c : κ}
    (hothers : ∀ c' ≠ c, s'.counter c' = s.counter c') {c' : κ}
    (hne : c' ≠ c) : Active s' c' ↔ Active s c' :=
  active_of_counting_eq (by rw [hothers c' hne])

section Step

variable [DecidableEq κ]
variable {s s' : QuickCounters κ} {c : κ}

theorem begun_startCount : Begun c s (s.startCount c) := by
  constructor
  case others =>
    intro c' hne
    simp [startCount, setCounting, updatePvs, QuickCounters.modify, registerDetectorAllCounter,
      registerMonitorAllCounter, hne]
  all_goals
    simp [startCount, setCounting, updatePvs, QuickCounters.modify, registerDetectorAllCounter,
      registerMonitorAllCounter, CounterRegistry.register]

theorem counter_modify (f : QuickCounter → QuickCounter) :
    (s.modify c f).counter c = f (s.counter c) := by
  simp [QuickCounters.modify]

theorem kept_modify {f : QuickCounter → QuickCounter}
    (hdetector : (f (s.counter c)).detectorCountsAllId = (s.counter c).detectorCountsAllId)
    (hmonitor : (f (s.counter c)).monitorCountsAllId = (s.counter c).monitorCountsAllId) :
    Kept c s (s.modify c f) where
  others c' hne := by simp [QuickCounters.modify, hne]
  detectorAll := rfl
  detectorId := by rw [counter_modify, hdetector]
  monitorAll := rfl
  monitorId := by rw [counter_modify, hmonitor]

theorem begun_startCounting (h : Starts s c) : Begun c s (s.startCounting c) := by
  have hkept : Kept c s (s.modify c fun qc => { qc with counting := qc.pvCounting }) :=
    kept_modify rfl rfl
  have hbegun := begun_startCount.after hkept
  rw [startCounting]
  simp only [counter_modify]
  split
  · exact hbegun
  · rw [if_neg h.1]
    split
    · rename_i hdone
      rw [if_pos (h.2 hdone)]
      exact hbegun
    · exact hbegun

/-- A trigger that starts no count still takes the state from the PV. -/
theorem startCounting_ignored (h : ¬ Starts s c) :
    s.startCounting c = s.modify c fun qc => { qc with counting := qc.pvCounting } := by
  rw [startCounting]
  simp only [counter_modify]
  by_cases hwaiting : (s.counter c).pvCounting = qcWaiting
  · rw [if_neg (by rw [hwaiting]; decide), if_pos hwaiting]
  · have hdone : (s.counter c).pvCounting = qcDoneCounting ∧ ¬ (s.counter c).autoReset :=
      Classical.not_imp.mp fun hauto => h ⟨hwaiting, hauto⟩
    rw [if_neg (by rw [hdone.1]; decide), if_neg hwaiting, if_pos hdone.1, if_neg hdone.2]

theorem finished_doneCounting (h : (s.counter c).counting = qcWaiting) :
    Finished c s (s.doneCounting c) := by
  rw [doneCounting, if_neg (not_not.mpr h)]
  constructor
  case others =>
    intro c' hne
    simp [setCounting, updatePvs, QuickCounters.modify, unregisterDetectorAllCounter,
      unregisterMonitorAllCounter, hne]
  all_goals
    simp [setCounting, updatePvs, QuickCounters.modify, unregisterDetectorAllCounter,
      unregisterMonitorAllCounter]

theorem kept_updatePvs : Kept c s (s.updatePvs c) where
  others c' hne := by simp [updatePvs, QuickCounters.modify, hne]
  detectorAll := rfl
  detectorId := by simp [updatePvs, QuickCounters.modify]
  monitorAll := rfl
  monitorId := by simp [updatePvs, QuickCounters.modify]

theorem counting_updatePvs : ((s.updatePvs c).counter c).counting = (s.counter c).counting := by
  simp [updatePvs, QuickCounters.modify]

/-- A stop trigger leaves a counter registered that was. -/
theorem kept_stopCounting :
    Kept c s (s.stopCounting c) ∧ (Active (s.stopCounting c) c ↔ Active s c) := by
  rw [stopCounting]
  split
  · exact ⟨kept_updatePvs, active_of_counting_eq counting_updatePvs⟩
  · rename_i hcounting
    have hset : Kept c s (s.setCounting c qcWaiting) := kept_modify rfl rfl
    have hupdate : Kept c (s.setCounting c qcWaiting)
        ((s.setCounting c qcWaiting).updatePvs c) := kept_updatePvs
    refine ⟨⟨fun c' hne => ?_, rfl, ?_, rfl, ?_⟩, ?_⟩
    · rw [hupdate.others c' hne, hset.others c' hne]
    · rw [hupdate.detectorId, hset.detectorId]
    · rw [hupdate.monitorId, hset.monitorId]
    · refine iff_of_true (.inr ?_) (.inl (not_not.mp hcounting))
      rw [counting_updatePvs, setCounting, counter_modify]

end Step

/-! ### Exact registries -/

/-- A registry has the counters that count or wait, each once. -/
structure RegistryExact (s : QuickCounters κ) (r : CounterRegistry κ) : Prop where
  nodup : r.counters.Nodup
  mem_iff : ∀ c, c ∈ r.counters ↔ Active s c

structure Exact (s : QuickCounters κ) : Prop where
  detector : RegistryExact s s.detectorAll
  monitor : RegistryExact s s.monitorAll

/-- The counters with their line: those counting, as they started, and whether one ahead of
    them has finished since. -/
abbrev Line (κ : Type*) := QuickCounters κ × List (κ × Bool)

/-- The registries have the counters of the line, with their ids. -/
structure Lined (x : Line κ) : Prop where
  nodup : (x.2.map Prod.fst).Nodup
  active : ∀ c, c ∈ x.2.map Prod.fst ↔ Active x.1 c
  detector : Tracks x.1.detectorAll (fun c => (x.1.counter c).detectorCountsAllId) x.2
  monitor : Tracks x.1.monitorAll (fun c => (x.1.counter c).monitorCountsAllId) x.2

theorem Lined.exact {x : Line κ} (h : Lined x) : Exact x.1 where
  detector := ⟨h.detector.counters_eq ▸ h.nodup, h.detector.counters_eq ▸ h.active⟩
  monitor := ⟨h.monitor.counters_eq ▸ h.nodup, h.monitor.counters_eq ▸ h.active⟩

theorem lined_initial {s : QuickCounters κ} (h : s.Initial) : Lined (s, []) where
  nodup := List.nodup_nil
  active c := by
    refine iff_of_false List.not_mem_nil ?_
    rw [Active, h.counting]
    decide
  detector := ⟨by rw [h.detectorAll]; rfl, by rw [h.detectorAll]; rfl, trivial⟩
  monitor := ⟨by rw [h.monitorAll]; rfl, by rw [h.monitorAll]; rfl, trivial⟩

section Line

variable [DecidableEq κ]

/-- The registries are exact before and after a call, and a counter that is done is the only
    one to be erased. -/
structure StepExact (s : QuickCounters κ) (op : CounterOp κ) : Prop where
  before : Exact s
  after : Exact (s.step op)
  detector : ∀ c, op = .done c → (s.counter c).counting = qcWaiting →
    (s.step op).detectorAll.counters = s.detectorAll.counters.erase c
  monitor : ∀ c, op = .done c → (s.counter c).counting = qcWaiting →
    (s.step op).monitorAll.counters = s.monitorAll.counters.erase c

/-- The line after a call. -/
def nextLine (x : Line κ) : CounterOp κ → List (κ × Bool)
  | .start c => if Starts x.1 c then x.2 ++ [(c, false)] else x.2
  | .done c => if (x.1.counter c).counting = qcWaiting then finish c x.2 else x.2
  | _ => x.2

def lineStep (x : Line κ) (op : CounterOp κ) : Option (Line κ) :=
  some (x.1.step op, nextLine x op)

/-- A start trigger finds the PV at `QC_WAITING` just where the counter is registered: while
    it shows the state, where the counter is not counting.  A counter that is done has not
    been overtaken. -/
def Proper (x : Line κ) : CounterOp κ → Prop
  | .start c => (x.1.counter c).pvCounting = qcWaiting ↔ Active x.1 c
  | .done c => (x.1.counter c).counting = qcWaiting → (c, false) ∈ x.2
  | _ => True

variable {s s' : QuickCounters κ} {L : List (κ × Bool)} {c : κ}

theorem Lined.keep (h : Lined (s, L)) (hkept : Kept c s s')
    (hactive : Active s' c ↔ Active s c) : Lined (s', L) where
  nodup := h.nodup
  active c' := by
    by_cases hc : c' = c
    · rw [hc, hactive]
      exact h.active c
    · rw [active_of_ne hkept.others hc]
      exact h.active c'
  detector := by
    show Tracks s'.detectorAll _ L
    rw [hkept.detectorAll]
    refine h.detector.congr fun c' _ => ?_
    by_cases hc : c' = c
    · rw [hc, hkept.detectorId]
    · rw [hkept.others c' hc]
  monitor := by
    show Tracks s'.monitorAll _ L
    rw [hkept.monitorAll]
    refine h.monitor.congr fun c' _ => ?_
    by_cases hc : c' = c
    · rw [hc, hkept.monitorId]
    · rw [hkept.others c' hc]

theorem Lined.begin (h : Lined (s, L)) (hactive : ¬ Active s c) (hbegun : Begun c s s') :
    Lined (s', L ++ [(c, false)]) := by
  have hnew : c ∉ L.map Prod.fst := fun hc => hactive ((h.active c).mp hc)
  have hothers : ∀ c' ∈ L.map Prod.fst, s'.counter c' = s.counter c' := fun c' hc' =>
    hbegun.others c' fun heq => hnew (heq ▸ hc')
  refine ⟨?_, fun c' => ?_, ?_, ?_⟩
  · rw [List.map_append]
    exact List.nodup_append.mpr ⟨h.nodup, List.nodup_singleton _, fun c₁ h₁ c₂ h₂ heq => by
      have hc₂ : c₂ = c := List.mem_singleton.mp h₂
      exact hnew (hc₂ ▸ heq ▸ h₁)⟩
  · rw [List.map_append, List.mem_append, h.active]
    by_cases hc : c' = c
    · exact iff_of_true (.inr (List.mem_singleton.mpr hc)) (.inl (hc ▸ hbegun.counting))
    · rw [active_of_ne hbegun.others hc]
      exact or_iff_left fun hmem => hc (List.mem_singleton.mp hmem)
  · show Tracks s'.detectorAll _ _
    rw [hbegun.detectorAll]
    refine Tracks.register (h.detector.congr fun c' hc' => ?_) hbegun.detectorId
    rw [hothers c' hc']
  · show Tracks s'.monitorAll _ _
    rw [hbegun.monitorAll]
    refine Tracks.register (h.monitor.congr fun c' hc' => ?_) hbegun.monitorId
    rw [hothers c' hc']

theorem Lined.finish (h : Lined (s, L)) (hc : (c, false) ∈ L) (hfinished : Finished c s s') :
    Lined (s', finish c L) ∧
      s'.detectorAll.counters = s.detectorAll.counters.erase c ∧
      s'.monitorAll.counters = s.monitorAll.counters.erase c := by
  obtain ⟨hdetector, hdetectorTracks⟩ := h.detector.unregister h.nodup hc
  obtain ⟨hmonitor, hmonitorTracks⟩ := h.monitor.unregister h.nodup hc
  have hgone : c ∉ (QuickCounter.finish c L).map Prod.fst := by
    rw [map_fst_finish]
    exact h.nodup.not_mem_erase
  have hothers : ∀ c' ∈ (QuickCounter.finish c L).map Prod.fst, s'.counter c' = s.counter c' :=
    fun c' hc' => hfinished.others c' fun heq => hgone (heq ▸ hc')
  refine ⟨⟨?_, fun c' => ?_, ?_, ?_⟩, ?_, ?_⟩
  · rw [map_fst_finish]
    exact h.nodup.erase c
  · by_cases heq : c' = c
    · refine iff_of_false (heq ▸ hgone) ?_
      rw [heq, Active, hfinished.counting]
      decide
    · rw [map_fst_finish, List.mem_erase_of_ne heq, active_of_ne hfinished.others heq]
      exact h.active c'
  · show Tracks s'.detectorAll _ _
    rw [hfinished.detectorAll]
    refine hdetectorTracks.congr fun c' hc' => ?_
    rw [hothers c' hc']
  · show Tracks s'.monitorAll _ _
    rw [hfinished.monitorAll]
    refine hmonitorTracks.congr fun c' hc' => ?_
    rw [hothers c' hc']
  · rw [hfinished.detectorAll, hdetector]
  · rw [hfinished.monitorAll, hmonitor]

/-- A proper call keeps the line, and the registries exact. -/
theorem Lined.step {x : Line κ} (h : Lined x) {op : CounterOp κ} (hop : Proper x op) :
    Lined (x.1.step op, nextLine x op) ∧ StepExact x.1 op := by
  have hmain : Lined (x.1.step op, nextLine x op) ∧
      ∀ c, op = .done c → (x.1.counter c).counting = qcWaiting →
        (x.1.step op).detectorAll.counters = x.1.detectorAll.counters.erase c ∧
        (x.1.step op).monitorAll.counters = x.1.monitorAll.counters.erase c := by
    obtain ⟨s, L⟩ := x
    cases op with
    | start c =>
      refine ⟨?_, fun _ heq => by cases heq⟩
      by_cases hstarts : Starts s c
      · rw [nextLine, if_pos hstarts]
        exact h.begin (mt hop.mpr hstarts.1) (begun_startCounting hstarts)
      · -- the state the PV shows is no other for the registries
        rw [nextLine, if_neg hstarts, QuickCounters.step, startCounting_ignored hstarts]
        have hpv : (s.counter c).pvCounting = qcWaiting ↔ Active s c := hop
        refine h.keep (kept_modify rfl rfl) ?_
        rw [← hpv, Active, counter_modify]
        refine ⟨fun hactive => hactive.resolve_left fun hcounting => hstarts ?_, .inr⟩
        have hpv : (s.counter c).pvCounting = qcCounting := hcounting
        exact ⟨by rw [hpv]; decide, by rw [hpv]; exact fun hdone => absurd hdone (by decide)⟩
    | stop c =>
      exact ⟨h.keep kept_stopCounting.1 kept_stopCounting.2, fun _ heq => by cases heq⟩
    | done c =>
      by_cases hwaiting : (s.counter c).counting = qcWaiting
      · obtain ⟨hlined, herase⟩ := h.finish (hop hwaiting) (finished_doneCounting hwaiting)
        rw [nextLine, if_pos hwaiting]
        refine ⟨hlined, fun c' heq _ => ?_⟩
        cases heq
        exact herase
      · have hsame : s.step (.done c) = s := if_pos hwaiting
        rw [nextLine, if_neg hwaiting, hsame]
        refine ⟨h, fun c' heq hc' => ?_⟩
        cases heq
        exact absurd hc' hwaiting
    | counts c =>
      refine ⟨?_, fun _ heq => by cases heq⟩
      rw [QuickCounters.step, addCounts]
      split
      · exact h
      · exact h.keep kept_updatePvs (active_of_counting_eq counting_updatePvs)
    | writeCounting c value =>
      refine ⟨?_, fun _ heq => by cases heq⟩
      show Lined (s.modify c fun qc => { qc with pvCounting := value }, L)
      exact h.keep (kept_modify rfl rfl) (active_of_counting_eq (by rw [counter_modify]))
    | writeAutoReset c value =>
      refine ⟨?_, fun _ heq => by cases heq⟩
      show Lined (s.modify c fun qc => { qc with pvAutoReset := value }, L)
      exact h.keep (kept_modify rfl rfl) (active_of_counting_eq (by rw [counter_modify]))
  exact ⟨hmain.1, h.exact, hmain.1.exact, fun c heq hc => (hmain.2 c heq hc).1,
    fun c heq hc => (hmain.2 c heq hc).2⟩

/-- A call that is not proper leaves the registries wrong. -/
theorem Lined.proper {x : Line κ} (h : Lined x) {op : CounterOp κ} (hop : StepExact x.1 op) :
    Proper x op := by
  obtain ⟨s, L⟩ := x
  cases op with
  | start c =>
    have hbefore := hop.before.detector.mem_iff c
    have hafter := hop.after.detector
    by_cases hstarts : Starts s c
    · -- the counter is registered, so it was not before
      refine iff_of_false hstarts.1 fun hactive => ?_
      have hnodup := hafter.nodup
      rw [QuickCounters.step, (begun_startCounting hstarts).detectorAll] at hnodup
      exact (List.nodup_append.mp hnodup).2.2 c (hbefore.mpr hactive) c
        (List.mem_singleton_self c) rfl
    · have hmem := hafter.mem_iff c
      rw [QuickCounters.step, startCounting_ignored hstarts, Active, counter_modify] at hmem
      have hsame := hbefore.symm.trans hmem
      refine ⟨fun hpv => hsame.mpr (.inr hpv), fun hactive => ?_⟩
      refine (hsame.mp hactive).resolve_left fun hcounting => hstarts ?_
      have hpv : (s.counter c).pvCounting = qcCounting := hcounting
      exact ⟨by rw [hpv]; decide, by rw [hpv]; exact fun hdone => absurd hdone (by decide)⟩
  | done c =>
    intro hwaiting
    obtain ⟨⟨c', overtaken⟩, hmem, rfl⟩ := List.mem_map.mp ((h.active c).mpr (.inr hwaiting))
    cases overtaken with
    | false => exact hmem
    | true =>
      -- the counter is still registered
      have hfinished := finished_doneCounting hwaiting
      have hstill := h.detector.mem_unregister h.nodup hmem
      have hactive := (hop.after.detector.mem_iff c').mp (by
        rw [QuickCounters.step, hfinished.detectorAll]
        exact hstill)
      rw [QuickCounters.step, Active, hfinished.counting] at hactive
      exact absurd hactive (by decide)
  | stop c => trivial
  | counts c => trivial
  | writeCounting c value => trivial
  | writeAutoReset c value => trivial

theorem Lined.along_iff {x : Line κ} (h : Lined x) (ops : List (CounterOp κ)) :
    Runs.along lineStep (fun x op => StepExact x.1 op) x ops ↔
      Runs.along lineStep Proper x ops := by
  induction ops generalizing x with
  | nil => exact Iff.rfl
  | cons op ops ih =>
    constructor
    · intro hops
      have hop := h.proper hops.1
      exact ⟨hop, fun y hy => (ih (Option.some.inj hy ▸ (h.step hop).1)).mp (hops.2 y hy)⟩
    · intro hops
      obtain ⟨hlined, hexact⟩ := h.step hops.1
      exact ⟨hexact, fun y hy => (ih (Option.some.inj hy ▸ hlined)).mpr (hops.2 y hy)⟩

/-- The registries are exact all along a run just where every call of it is proper. -/
theorem registry_exact_iff {s : QuickCounters κ} (h : s.Initial) (ops : List (CounterOp κ)) :
    Runs.along lineStep (fun x op => StepExact x.1 op) (s, []) ops ↔
      Runs.along lineStep Proper (s, []) ops :=
  (lined_initial h).along_iff ops

end Line

/-! ### Runs without writes -/

/-- The PV shows the state of every counter. -/
def Shown (s : QuickCounters κ) : Prop :=
  ∀ c, (s.counter c).pvCounting = (s.counter c).counting

/-- With the state shown, a start trigger is proper where it is not redundant. -/
theorem Shown.proper_start {x : Line κ} (h : Shown x.1) (c : κ) :
    Proper x (.start c) ↔ (x.1.counter c).counting ≠ qcCounting := by
  show ((x.1.counter c).pvCounting = qcWaiting ↔ Active x.1 c) ↔ _
  rw [h c, Active]
  refine ⟨fun hiff hcounting => ?_, fun hne => ⟨.inr, fun hactive => hactive.resolve_left hne⟩⟩
  have hwaiting := hiff.mpr (.inl hcounting)
  rw [hcounting] at hwaiting
  exact absurd hwaiting (by decide)

section Shown

variable [DecidableEq κ]

theorem shown_of_others {s s' : QuickCounters κ} {c : κ} (h : Shown s)
    (hothers : ∀ c' ≠ c, s'.counter c' = s.counter c')
    (hc : (s'.counter c).pvCounting = (s'.counter c).counting) : Shown s' := by
  intro c'
  by_cases hne : c' = c
  · rw [hne, hc]
  · rw [hothers c' hne, h c']

theorem Shown.updatePvs {s : QuickCounters κ} {c : κ}
    (h : ∀ c' ≠ c, (s.counter c').pvCounting = (s.counter c').counting) :
    Shown (s.updatePvs c) := by
  intro c'
  by_cases hne : c' = c
  · simp [hne, QuickCounters.updatePvs, QuickCounters.modify]
  · rw [kept_updatePvs.others c' hne, h c' hne]

theorem Shown.setCounting {s : QuickCounters κ} (h : Shown s) (c : κ) (counting : UInt32) :
    ∀ c' ≠ c, ((s.setCounting c counting).counter c').pvCounting =
      ((s.setCounting c counting).counter c').counting := by
  intro c' hne
  have hothers : (s.setCounting c counting).counter c' = s.counter c' := by
    simp [QuickCounters.setCounting, QuickCounters.modify, hne]
  rw [hothers, h c']

theorem Shown.startCount {s : QuickCounters κ} (h : Shown s) (c : κ) :
    Shown (s.startCount c) :=
  shown_of_others h begun_startCount.others (by
    simp [QuickCounters.startCount, QuickCounters.setCounting, QuickCounters.updatePvs,
      QuickCounters.modify, registerDetectorAllCounter, registerMonitorAllCounter])

/-- It does so as long as nothing else writes it. -/
theorem Shown.step {s : QuickCounters κ} (h : Shown s) {op : CounterOp κ}
    (hop : ∀ c value, op ≠ .writeCounting c value) : Shown (s.step op) := by
  cases op with
  | start c =>
    have hsynced : Shown (s.modify c fun qc => { qc with counting := qc.pvCounting }) :=
      shown_of_others h (kept_modify rfl rfl).others (by rw [counter_modify])
    rw [QuickCounters.step, startCounting]
    split
    · exact hsynced.startCount c
    · split
      · exact hsynced
      · split
        · split
          · exact hsynced.startCount c
          · exact hsynced
        · exact hsynced.startCount c
  | stop c =>
    rw [QuickCounters.step, stopCounting]
    split
    · exact .updatePvs fun c' _ => h c'
    · exact .updatePvs (h.setCounting c qcWaiting)
  | done c =>
    by_cases hwaiting : (s.counter c).counting = qcWaiting
    · refine shown_of_others h (finished_doneCounting hwaiting).others ?_
      rw [QuickCounters.step, doneCounting, if_neg (not_not.mpr hwaiting)]
      simp [QuickCounters.setCounting, QuickCounters.updatePvs, QuickCounters.modify,
        unregisterDetectorAllCounter, unregisterMonitorAllCounter]
    · have hsame : s.step (.done c) = s := if_pos hwaiting
      rw [hsame]
      exact h
  | counts c =>
    rw [QuickCounters.step, addCounts]
    split
    · exact h
    · exact .updatePvs fun c' _ => h c'
  | writeCounting c value => exact absurd rfl (hop c value)
  | writeAutoReset c value =>
    refine shown_of_others (c := c) h (fun c' hne => ?_) ?_
    · simp [QuickCounters.step, QuickCounters.modify, hne]
    · simpa [QuickCounters.step, QuickCounters.modify] using h c

end Shown

/-! ### Two counters -/

/-- Counters that have not counted yet. -/
def idleCounters : QuickCounters Nat where
  counter := fun _ => ⟨qcNotCounting, false, 0, 0, qcNotCounting, false⟩
  detectorAll := ⟨[], 0⟩
  monitorAll := ⟨[], 0⟩
  cnt := 0

theorem initial_idleCounters : idleCounters.Initial :=
  ⟨fun _ => rfl, fun _ => rfl, rfl, rfl⟩

instance [DecidableEq κ] (x : Line κ) : (op : CounterOp κ) → Decidable (Proper x op)
  | .start _ => inferInstanceAs (Decidable (_ ↔ _))
  | .done _ => inferInstanceAs (Decidable (_ → _))
  | .stop _ | .counts _ | .writeCounting _ _ | .writeAutoReset _ _ => instDecidableTrue

/-- Two counters that are done in the order opposite to that in which they started. -/
theorem registry_exact_nested :
    Runs.along lineStep (fun x op => StepExact x.1 op) (idleCounters, [])
      [.start 0, .start 1, .stop 1, .done 1, .stop 0, .done 0] :=
  (registry_exact_iff initial_idleCounters _).mpr (by decide)

/-- Two counters that are done in the order in which they started: the second is still
    registered. -/
theorem not_exact_of_overtaken :
    ¬ ∀ s : QuickCounters Nat, s.Initial → ∀ ops : List (CounterOp Nat),
      (∀ op ∈ ops, ∃ c, op = .start c ∨ op = .stop c ∨ op = .done c) →
        Runs.along (fun s op => some (s.step op)) StepExact s ops := by
  intro hall
  have hrun := hall idleCounters initial_idleCounters
    ([.start 0, .start 1, .stop 0, .done 0, .stop 1] ++ [.done 1]) (by simp)
  have hlast := ((Runs.along_append.mp hrun).2 _ rfl).1
  exact absurd ((hlast.after.detector.mem_iff 1).mp (by decide)) (by decide)

end Adara.Spec.QuickCounter
