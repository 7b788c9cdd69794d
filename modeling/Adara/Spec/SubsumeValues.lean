import Adara.Native.PVLog
import Adara.Native.SubsumeValues
import Mathlib.Data.List.Perm.Basic
import Mathlib.Tactic.Linarith

/-! # What the log of a duplicate adds

`subsumeValues` compares the next entry of each log.  Within the tolerance, the duplicate's
entry is dropped if its value is equal, else it is added behind the own one (`Merged`).  So an
entry is compared with one other of its time only: in logs with several values at a time it may
be added although the own log has it (`not_exact_sameTime`).

The loop ends if times within the tolerance are also approximately equal (`ends_subsume`).
Otherwise it does not: its comparisons leave out times within the tolerance that are smaller
than a second and not approximately equal (`not_ends_of_stuck`). -/

namespace Adara.Spec.SubsumeValues

open Adara.Native Adara.Native.Subsume

variable {α : Type*} {epsilon : ℚ} {valuesEqual : α → α → Bool}

/-! ### Merged logs -/

/-- How the logs of a variable and its duplicate make one: what is added from the duplicate, and
    what is dropped, with the own entries it matches. -/
inductive Merged (epsilon : ℚ) (valuesEqual : α → α → Bool) :
    (ours dup result added : List (α × ℚ)) → (matched : List ((α × ℚ) × (α × ℚ))) → Prop where
  | nil (ours) : Merged epsilon valuesEqual ours [] ours [] []
  | rest (dup) : Merged epsilon valuesEqual [] dup dup dup []
  | skip {e d ours dup result added matched} (h : e.2 < d.2 - epsilon)
      (m : Merged epsilon valuesEqual ours (d :: dup) result added matched) :
      Merged epsilon valuesEqual (e :: ours) (d :: dup) (e :: result) added matched
  | add {e d ours dup result added matched} (h : d.2 < e.2 - epsilon)
      (m : Merged epsilon valuesEqual (e :: ours) dup result added matched) :
      Merged epsilon valuesEqual (e :: ours) (d :: dup) (d :: result) (d :: added) matched
  | same {e d ours dup result added matched} (h : |e.2 - d.2| ≤ epsilon)
      (heq : valuesEqual e.1 d.1 = true)
      (m : Merged epsilon valuesEqual ours dup result added matched) :
      Merged epsilon valuesEqual (e :: ours) (d :: dup) (e :: result) added ((e, d) :: matched)
  | differ {e d ours dup result added matched} (h : |e.2 - d.2| ≤ epsilon)
      (hne : valuesEqual e.1 d.1 = false)
      (m : Merged epsilon valuesEqual ours dup result added matched) :
      Merged epsilon valuesEqual (e :: ours) (d :: dup) (e :: d :: result) (d :: added) matched

section Merged

variable {ours dup result added : List (α × ℚ)} {matched : List ((α × ℚ) × (α × ℚ))}

/-- Any two logs can be merged: within the tolerance the values decide. -/
theorem exists_merged (epsilon : ℚ) (valuesEqual : α → α → Bool) (ours dup : List (α × ℚ)) :
    ∃ result added matched, Merged epsilon valuesEqual ours dup result added matched := by
  -- each step shortens one of the logs, or both
  induction hn : ours.length + dup.length using Nat.strong_induction_on
    generalizing ours dup with
  | _ n ih =>
    match ours, dup with
    | ours, [] => exact ⟨_, _, _, .nil ours⟩
    | [], dup => exact ⟨_, _, _, .rest dup⟩
    | e :: ours, d :: dup =>
      simp only [List.length_cons] at hn
      by_cases hskip : e.2 < d.2 - epsilon
      · obtain ⟨_, _, _, hm⟩ := ih _ (by rw [← hn, List.length_cons]; omega) ours (d :: dup) rfl
        exact ⟨_, _, _, .skip hskip hm⟩
      by_cases hadd : d.2 < e.2 - epsilon
      · obtain ⟨_, _, _, hm⟩ := ih _ (by rw [← hn, List.length_cons]; omega) (e :: ours) dup rfl
        exact ⟨_, _, _, .add hadd hm⟩
      have hclose : |e.2 - d.2| ≤ epsilon := abs_le.mpr ⟨by linarith, by linarith⟩
      obtain ⟨_, _, _, hm⟩ := ih _ (by omega) ours dup rfl
      cases heq : valuesEqual e.1 d.1 with
      | true => exact ⟨_, _, _, .same hclose heq hm⟩
      | false => exact ⟨_, _, _, .differ hclose heq hm⟩

theorem Merged.perm (m : Merged epsilon valuesEqual ours dup result added matched) :
    result.Perm (ours ++ added) := by
  induction m with
  | nil ours => rw [List.append_nil]
  | rest dup => exact .refl _
  | skip _ _ ih => exact ih.cons _
  | add _ _ ih => exact (ih.cons _).trans List.perm_middle.symm
  | same _ _ _ ih => exact ih.cons _
  | differ _ _ _ ih => exact ((ih.cons _).trans List.perm_middle.symm).cons _

theorem Merged.ours_sublist (m : Merged epsilon valuesEqual ours dup result added matched) :
    ours.Sublist result := by
  induction m with
  | nil ours => exact .refl _
  | rest dup => exact List.nil_sublist _
  | skip _ _ ih => exact ih.cons_cons _
  | add _ _ ih => exact ih.cons _
  | same _ _ _ ih => exact ih.cons_cons _
  | differ _ _ _ ih => exact (ih.cons _).cons_cons _

theorem Merged.added_sublist (m : Merged epsilon valuesEqual ours dup result added matched) :
    added.Sublist result := by
  induction m with
  | nil ours => exact List.nil_sublist _
  | rest dup => exact .refl _
  | skip _ _ ih => exact ih.cons _
  | add _ _ ih => exact ih.cons_cons _
  | same _ _ _ ih => exact ih.cons _
  | differ _ _ _ ih => exact (ih.cons_cons _).cons _

/-- Every entry of the duplicate is added or matched. -/
theorem Merged.dup_perm (m : Merged epsilon valuesEqual ours dup result added matched) :
    dup.Perm (added ++ matched.map Prod.snd) := by
  induction m with
  | nil ours => exact .refl _
  | rest dup => rw [List.map_nil, List.append_nil]
  | skip _ _ ih => exact ih
  | add _ _ ih => exact ih.cons _
  | same _ _ _ ih => exact (ih.cons _).trans List.perm_middle.symm
  | differ _ _ _ ih => exact ih.cons _

theorem Merged.added_sublist_dup (m : Merged epsilon valuesEqual ours dup result added matched) :
    added.Sublist dup := by
  induction m with
  | nil ours => exact .refl _
  | rest dup => exact .refl _
  | skip _ _ ih => exact ih
  | add _ _ ih => exact ih.cons_cons _
  | same _ _ _ ih => exact ih.cons _
  | differ _ _ _ ih => exact ih.cons_cons _

/-- Own entries match one entry each, in order. -/
theorem Merged.matched_sublist (m : Merged epsilon valuesEqual ours dup result added matched) :
    (matched.map Prod.fst).Sublist ours := by
  induction m with
  | nil ours => exact List.nil_sublist _
  | rest dup => exact .refl _
  | skip _ _ ih => exact ih.cons _
  | add _ _ ih => exact ih
  | same _ _ _ ih => exact ih.cons_cons _
  | differ _ _ _ ih => exact ih.cons _

/-- The entries match: equal values, at times within the tolerance. -/
def Match (epsilon : ℚ) (valuesEqual : α → α → Bool) (e d : α × ℚ) : Bool :=
  valuesEqual e.1 d.1 && |e.2 - d.2| ≤ epsilon

theorem Merged.match_of_mem (m : Merged epsilon valuesEqual ours dup result added matched) :
    ∀ p ∈ matched, Match epsilon valuesEqual p.1 p.2 = true := by
  induction m with
  | nil ours => exact nofun
  | rest dup => exact nofun
  | skip _ _ ih => exact ih
  | add _ _ ih => exact ih
  | same h heq _ ih =>
    refine List.forall_mem_cons.mpr ⟨?_, ih⟩
    simp [Match, heq, h]
  | differ _ _ _ ih => exact ih

/-- Times that do not decrease. -/
def Sorted (log : List (α × ℚ)) : Prop := log.Pairwise (·.2 ≤ ·.2)

theorem Merged.mem_or_mem (m : Merged epsilon valuesEqual ours dup result added matched)
    {f : α × ℚ} (hf : f ∈ result) : f ∈ ours ∨ f ∈ dup :=
  (List.mem_append.mp (m.perm.mem_iff.mp hf)).imp id fun h => m.added_sublist_dup.subset h

/-- An entry may be in front of a merged log, if it may be in front of both logs. -/
theorem Merged.forall_le {t : ℚ} (m : Merged epsilon valuesEqual ours dup result added matched)
    (hours : ∀ f ∈ ours, t ≤ f.2 + epsilon) (hdup : ∀ f ∈ dup, t ≤ f.2 + epsilon) :
    ∀ f ∈ result, t ≤ f.2 + epsilon :=
  fun f hf => (m.mem_or_mem hf).elim (hours f) (hdup f)

/-- In a sorted log all entries are late enough for a time that the first one allows. -/
theorem Sorted.forall_le {t : ℚ} {d : α × ℚ} {log : List (α × ℚ)} (h : Sorted (d :: log))
    (hd : t ≤ d.2 + epsilon) : ∀ f ∈ d :: log, t ≤ f.2 + epsilon := by
  refine List.forall_mem_cons.mpr ⟨hd, fun f hf => ?_⟩
  have hle := (List.pairwise_cons.mp h).1 f hf
  linarith

/-- The merged log is sorted up to the tolerance. -/
theorem Merged.sorted (hε : 0 ≤ epsilon)
    (m : Merged epsilon valuesEqual ours dup result added matched) (hours : Sorted ours)
    (hdup : Sorted dup) : result.Pairwise (fun e f => e.2 ≤ f.2 + epsilon) := by
  induction m with
  | nil ours => exact hours.imp fun h => by linarith
  | rest dup => exact hdup.imp fun h => by linarith
  | skip h m ih =>
    have hrest := (List.pairwise_cons.mp hours).2
    refine List.pairwise_cons.mpr ⟨m.forall_le (fun f hf => ?_) ?_, ih hrest hdup⟩
    · exact hours.forall_le (by linarith) f (List.mem_cons_of_mem _ hf)
    · exact hdup.forall_le (by linarith)
  | add h m ih =>
    have hrest := (List.pairwise_cons.mp hdup).2
    refine List.pairwise_cons.mpr ⟨m.forall_le ?_ fun f hf => ?_, ih hours hrest⟩
    · exact hours.forall_le (by linarith)
    · exact hdup.forall_le (by linarith) f (List.mem_cons_of_mem _ hf)
  | same h heq m ih =>
    have hrest := (List.pairwise_cons.mp hours).2
    have hrest' := (List.pairwise_cons.mp hdup).2
    have hclose := abs_le.mp h
    refine List.pairwise_cons.mpr ⟨m.forall_le (fun f hf => ?_) fun f hf => ?_, ih hrest hrest'⟩
    · exact hours.forall_le (by linarith) f (List.mem_cons_of_mem _ hf)
    · exact hdup.forall_le (by linarith) f (List.mem_cons_of_mem _ hf)
  | differ h hne m ih =>
    have hrest := (List.pairwise_cons.mp hours).2
    have hrest' := (List.pairwise_cons.mp hdup).2
    have hclose := abs_le.mp h
    -- neither entry is too late for what is left of the other log
    refine List.pairwise_cons.mpr ⟨List.forall_mem_cons.mpr ⟨by linarith, ?_⟩,
      List.pairwise_cons.mpr ⟨m.forall_le (fun f hf => ?_) fun f hf => ?_, ih hrest hrest'⟩⟩
    · refine m.forall_le (fun f hf => ?_) fun f hf => ?_
      · exact hours.forall_le (by linarith) f (List.mem_cons_of_mem _ hf)
      · exact hdup.forall_le (by linarith) f (List.mem_cons_of_mem _ hf)
    · exact hours.forall_le (by linarith) f (List.mem_cons_of_mem _ hf)
    · exact hdup.forall_le (by linarith) f (List.mem_cons_of_mem _ hf)

/-! ### One value at a time -/

/-- No two entries of a log are near the same time. -/
def Apart (epsilon : ℚ) (log : List (α × ℚ)) : Prop :=
  log.Pairwise fun e f => e.2 + 2 * epsilon < f.2

/-- An own entry matches the entry of the duplicate. -/
def Matched (epsilon : ℚ) (valuesEqual : α → α → Bool) (ours : List (α × ℚ)) (d : α × ℚ) : Bool :=
  ours.any fun e => Match epsilon valuesEqual e d

theorem match_eq_false {e d : α × ℚ} (h : e.2 + epsilon < d.2 ∨ d.2 + epsilon < e.2) :
    Match epsilon valuesEqual e d = false := by
  rw [Match, Bool.and_eq_false_iff]
  right
  rw [decide_eq_false_iff_not, abs_le]
  rintro ⟨h₁, h₂⟩
  obtain h | h := h <;> linarith

theorem matched_eq_false {d : α × ℚ} (h : ∀ e ∈ ours, Match epsilon valuesEqual e d = false) :
    Matched epsilon valuesEqual ours d = false :=
  List.any_eq_false.mpr fun e he => by rw [h e he]; exact Bool.false_ne_true

/-- An own entry that matches none of the log makes no difference. -/
theorem filter_matched_cons {e : α × ℚ} {dup : List (α × ℚ)}
    (h : ∀ d ∈ dup, Match epsilon valuesEqual e d = false) :
    dup.filter (fun d => !Matched epsilon valuesEqual (e :: ours) d) =
      dup.filter fun d => !Matched epsilon valuesEqual ours d :=
  List.filter_congr fun d hd => by rw [Matched, List.any_cons, h d hd, Bool.false_or, Matched]

/-- In logs with one value at a time just the entries that are not matched are added. -/
theorem Merged.added_eq (hε : 0 ≤ epsilon)
    (m : Merged epsilon valuesEqual ours dup result added matched) (hours : Apart epsilon ours)
    (hdup : Apart epsilon dup) :
    added = dup.filter fun d => !Matched epsilon valuesEqual ours d := by
  induction m with
  | nil ours => rfl
  | rest dup => exact (List.filter_eq_self.mpr fun _ _ => rfl).symm
  | @skip e d ours dup result added matched h m ih =>
    rw [ih (List.pairwise_cons.mp hours).2 hdup, filter_matched_cons]
    refine List.forall_mem_cons.mpr ⟨match_eq_false (.inl (by linarith)), fun f hf => ?_⟩
    have hlt := (List.pairwise_cons.mp hdup).1 f hf
    exact match_eq_false (.inl (by linarith))
  | @add e d ours dup result added matched h m ih =>
    have hnone : Matched epsilon valuesEqual (e :: ours) d = false := by
      refine matched_eq_false (List.forall_mem_cons.mpr ⟨match_eq_false (.inr (by linarith)), ?_⟩)
      intro f hf
      have hlt := (List.pairwise_cons.mp hours).1 f hf
      exact match_eq_false (.inr (by linarith))
    rw [ih hours (List.pairwise_cons.mp hdup).2, List.filter_cons_of_pos (by rw [hnone]; rfl)]
  | @same e d ours dup result added matched h heq m ih =>
    have hclose := abs_le.mp h
    have hmatched : Matched epsilon valuesEqual (e :: ours) d = true := by
      simp [Matched, Match, heq, h]
    rw [ih (List.pairwise_cons.mp hours).2 (List.pairwise_cons.mp hdup).2,
      List.filter_cons_of_neg (by rw [hmatched]; exact Bool.false_ne_true), filter_matched_cons]
    intro f hf
    have hlt := (List.pairwise_cons.mp hdup).1 f hf
    exact match_eq_false (.inl (by linarith))
  | @differ e d ours dup result added matched h hne m ih =>
    have hclose := abs_le.mp h
    have hnone : Matched epsilon valuesEqual (e :: ours) d = false := by
      refine matched_eq_false (List.forall_mem_cons.mpr ⟨by simp [Match, hne], fun f hf => ?_⟩)
      have hlt := (List.pairwise_cons.mp hours).1 f hf
      exact match_eq_false (.inr (by linarith))
    rw [ih (List.pairwise_cons.mp hours).2 (List.pairwise_cons.mp hdup).2,
      List.filter_cons_of_pos (by rw [hnone]; rfl), filter_matched_cons]
    intro f hf
    have hlt := (List.pairwise_cons.mp hdup).1 f hf
    exact match_eq_false (.inl (by linarith))

end Merged

/-! ### The loop -/

/-- The loop has the own entries `done` behind it and `ours` in front of it, and has `dup` left of
    the duplicate. -/
structure At (done ours dup : List (α × ℚ)) (m : Subsume α) : Prop where
  values : m.valueBuffer = (done ++ ours).map Prod.fst
  times : m.timeBuffer = (done ++ ours).map Prod.snd
  ival : m.ival = done.length
  itim : m.itim = done.length
  index : ours ≠ [] → m.index.toNat = done.length
  valuesDup : m.valuesDup = dup.map Prod.fst
  timesDup : m.timesDup = dup.map Prod.snd

theorem at_start (ours dup : List (α × ℚ)) :
    At [] ours dup (start (ours.map Prod.fst) (ours.map Prod.snd) (dup.map Prod.fst)
      (dup.map Prod.snd)) :=
  ⟨rfl, rfl, rfl, rfl, fun _ => rfl, rfl, rfl⟩

theorem insertIdx_length_append {β : Type*} (l₁ l₂ : List β) (b : β) :
    (l₁ ++ l₂).insertIdx l₁.length b = l₁ ++ b :: l₂ := by
  induction l₁ with
  | nil => rfl
  | cons a l₁ ih => rw [List.cons_append, List.length_cons, List.insertIdx_succ_cons, ih,
      List.cons_append]

/-- The same for the values or the times of a log. -/
theorem insertIdx_map {β : Type*} (f : α × ℚ → β) (done ours : List (α × ℚ)) (d : α × ℚ) :
    ((done ++ ours).map f).insertIdx done.length (f d) = (done ++ d :: ours).map f := by
  have h := insertIdx_length_append (done.map f) (ours.map f) (f d)
  rw [List.length_map] at h
  rw [List.map_append, h, List.map_append, List.map_cons]

section Round

variable {done ours dup : List (α × ℚ)} {m : Subsume α} {e d : α × ℚ}

theorem At.valuesDup_ne_nil (h : At done ours (d :: dup) m) : m.valuesDup ≠ [] := by
  rw [h.valuesDup]
  exact List.cons_ne_nil _ _

variable (epsilon valuesEqual)

/-- At the end of the own log, the entry of the duplicate is appended. -/
theorem At.round_end (h : At done [] (d :: dup) m) :
    ∃ m', m.round epsilon valuesEqual = some m' ∧ At (done ++ [d]) [] dup m' := by
  have hvalues : m.valueBuffer.insertIdx m.ival d.1 = ((done ++ [d]) ++ []).map Prod.fst := by
    rw [h.values, h.ival, insertIdx_map Prod.fst, List.append_nil]
  have htimes : m.timeBuffer.insertIdx m.itim d.2 = ((done ++ [d]) ++ []).map Prod.snd := by
    rw [h.times, h.itim, insertIdx_map Prod.snd, List.append_nil]
  have hend : m.ival = m.valueBuffer.length := by
    rw [h.ival, h.values, List.append_nil, List.length_map]
  refine ⟨{ m.insert d.1 d.2 with
    ival := (m.insert d.1 d.2).valueBuffer.length, itim := (m.insert d.1 d.2).timeBuffer.length
    valuesDup := dup.map Prod.fst, timesDup := dup.map Prod.snd },
    by simp only [Subsume.round, h.valuesDup, h.timesDup, List.map_cons, if_pos hend],
    hvalues, htimes, ?_, ?_, fun hne => absurd rfl hne, rfl, rfl⟩
  · show (m.valueBuffer.insertIdx m.ival d.1).length = _
    rw [hvalues, List.length_map, List.append_nil]
  · show (m.timeBuffer.insertIdx m.itim d.2).length = _
    rw [htimes, List.length_map, List.append_nil]

/-- Elsewhere, the next entries are compared. -/
theorem At.round_eq (h : At done (e :: ours) (d :: dup) m) :
    m.round epsilon valuesEqual =
      if e.2 < d.2 - epsilon then some m.advance
      else if d.2 < e.2 - epsilon then
        some { (m.insert d.1 d.2).resetIterators with
          valuesDup := dup.map Prod.fst, timesDup := dup.map Prod.snd }
      else if approximatelyEqual e.2 d.2 epsilon then
        if valuesEqual e.1 d.1 then
          some { m.advance with valuesDup := dup.map Prod.fst, timesDup := dup.map Prod.snd }
        else
          some { (m.advance.insert d.1 d.2).resetIterators with
            valuesDup := dup.map Prod.fst, timesDup := dup.map Prod.snd }
      else some m := by
  have hne : m.ival ≠ m.valueBuffer.length := by
    rw [h.ival, h.values, List.length_map, List.length_append, List.length_cons]
    omega
  have hvalue : m.valueBuffer[m.ival]? = some e.1 := by
    rw [h.values, h.ival, List.getElem?_map, List.getElem?_append_right (Nat.le_refl _),
      Nat.sub_self, List.getElem?_cons_zero, Option.map_some]
  have htime : m.timeBuffer[m.itim]? = some e.2 := by
    rw [h.times, h.itim, List.getElem?_map, List.getElem?_append_right (Nat.le_refl _),
      Nat.sub_self, List.getElem?_cons_zero, Option.map_some]
  simp only [Subsume.round, h.valuesDup, h.timesDup, List.map_cons, if_neg hne, hvalue, htime]

variable {epsilon valuesEqual}

theorem At.index_add_one (h : At done (e :: ours) dup m) (hsize : done.length + 1 < 2 ^ 32) :
    (m.index + 1).toNat = done.length + 1 := by
  rw [UInt32.toNat_add, h.index (List.cons_ne_nil _ _)]
  exact Nat.mod_eq_of_lt hsize

/-- The own entry is left behind. -/
theorem At.advance (h : At done (e :: ours) dup m) (hsize : done.length + 1 < 2 ^ 32) :
    At (done ++ [e]) ours dup m.advance where
  values := by
    rw [List.append_assoc]
    exact h.values
  times := by
    rw [List.append_assoc]
    exact h.times
  ival := by
    rw [List.length_append]
    exact congrArg (· + 1) h.ival
  itim := by
    rw [List.length_append]
    exact congrArg (· + 1) h.itim
  index _ := by
    rw [List.length_append]
    exact h.index_add_one hsize
  valuesDup := h.valuesDup
  timesDup := h.timesDup

/-- The next entry of the duplicate is dropped. -/
theorem At.drop (h : At done ours (d :: dup) m) :
    At done ours dup { m with valuesDup := dup.map Prod.fst, timesDup := dup.map Prod.snd } :=
  ⟨h.values, h.times, h.ival, h.itim, h.index, rfl, rfl⟩

/-- An entry of the duplicate is inserted and left behind. -/
theorem At.insert (h : At done ours (d :: dup) m) (hindex : m.index.toNat = done.length)
    (hsize : done.length + 1 < 2 ^ 32) :
    At (done ++ [d]) ours dup
      { (m.insert d.1 d.2).resetIterators with
        valuesDup := dup.map Prod.fst, timesDup := dup.map Prod.snd } := by
  have hnext : (m.index + 1).toNat = (done ++ [d]).length := by
    rw [UInt32.toNat_add, hindex, List.length_append]
    exact Nat.mod_eq_of_lt hsize
  refine ⟨?_, ?_, hnext, hnext, fun _ => hnext, rfl, rfl⟩
  · show m.valueBuffer.insertIdx m.ival d.1 = _
    rw [h.values, h.ival, insertIdx_map Prod.fst, List.append_assoc, List.singleton_append]
  · show m.timeBuffer.insertIdx m.itim d.2 = _
    rw [h.times, h.itim, insertIdx_map Prod.snd, List.append_assoc, List.singleton_append]

end Round

/-- Times within the tolerance are approximately equal. -/
def Covered (epsilon : ℚ) (ours dup : List (α × ℚ)) : Prop :=
  ∀ e ∈ ours, ∀ d ∈ dup, |e.2 - d.2| ≤ epsilon → approximatelyEqual e.2 d.2 epsilon = true

theorem Covered.tail_left {ours dup : List (α × ℚ)} {e : α × ℚ}
    (h : Covered epsilon (e :: ours) dup) : Covered epsilon ours dup :=
  fun f hf => h f (List.mem_cons_of_mem _ hf)

theorem Covered.tail_right {ours dup : List (α × ℚ)} {d : α × ℚ}
    (h : Covered epsilon ours (d :: dup)) : Covered epsilon ours dup :=
  fun e he f hf => h e he f (List.mem_cons_of_mem _ hf)

/-- Within the tolerance the third comparison decides. -/
theorem Covered.if_close {ours dup : List (α × ℚ)} {e d : α × ℚ} {β : Type*} {a b c r : β}
    (h : Covered epsilon (e :: ours) (d :: dup)) (hclose : |e.2 - d.2| ≤ epsilon) :
    (if e.2 < d.2 - epsilon then a else if d.2 < e.2 - epsilon then b
      else if approximatelyEqual e.2 d.2 epsilon then c else r) = c := by
  have happrox := h e (List.mem_cons_self ..) d (List.mem_cons_self ..) hclose
  have habs := abs_le.mp hclose
  rw [if_neg (by linarith), if_neg (by linarith), if_pos happrox]

theorem rounds_succ {n : Nat} {m m' : Subsume α} (hne : m.valuesDup ≠ [])
    (h : m.round epsilon valuesEqual = some m') :
    rounds epsilon valuesEqual (n + 1) m = rounds epsilon valuesEqual n m' := by
  rw [rounds, if_neg (by rwa [List.isEmpty_iff]), h, Option.bind_some]

/-- The loop runs from a state to its end, and the buffers hold the log then. -/
def EndsWith (epsilon : ℚ) (valuesEqual : α → α → Bool) (m : Subsume α) (log : List (α × ℚ)) :
    Prop :=
  ∃ m', Ends epsilon valuesEqual m m' ∧ m'.valueBuffer = log.map Prod.fst ∧
    m'.timeBuffer = log.map Prod.snd

theorem EndsWith.of_round {m m' : Subsume α} {log : List (α × ℚ)}
    (h : EndsWith epsilon valuesEqual m' log) (hne : m.valuesDup ≠ [])
    (hround : m.round epsilon valuesEqual = some m') : EndsWith epsilon valuesEqual m log := by
  obtain ⟨m'', ⟨hend, n, hn⟩, hbuffers⟩ := h
  exact ⟨m'', ⟨hend, n + 1, (rounds_succ hne hround).trans hn⟩, hbuffers⟩

/-- What a round leaves behind is in front of the rest of the log. -/
theorem EndsWith.cons {m m' : Subsume α} {done log : List (α × ℚ)} {f : α × ℚ}
    (h : EndsWith epsilon valuesEqual m' (done ++ [f] ++ log)) (hne : m.valuesDup ≠ [])
    (hround : m.round epsilon valuesEqual = some m') :
    EndsWith epsilon valuesEqual m (done ++ f :: log) := by
  rw [List.append_assoc, List.singleton_append] at h
  exact h.of_round hne hround

section Run

variable {done ours dup : List (α × ℚ)} {m : Subsume α}

/-- Nothing is left of the duplicate. -/
theorem At.endsWith_nil (h : At done ours [] m) :
    EndsWith epsilon valuesEqual m (done ++ ours) :=
  ⟨m, ⟨h.valuesDup, 0, rfl⟩, h.values, h.times⟩

/-- The rest of the duplicate is appended. -/
theorem At.endsWith_end (h : At done [] dup m) :
    EndsWith epsilon valuesEqual m (done ++ dup) := by
  induction dup generalizing done m with
  | nil => exact h.endsWith_nil
  | cons d dup ih =>
    obtain ⟨m', hround, h'⟩ := h.round_end epsilon valuesEqual
    exact (ih h').cons h.valuesDup_ne_nil hround

/-- The loop from a place in the logs merges what is in front of it. -/
theorem At.endsWith {result added : List (α × ℚ)} {matched : List ((α × ℚ) × (α × ℚ))}
    (hm : Merged epsilon valuesEqual ours dup result added matched) (h : At done ours dup m)
    (hε : 0 ≤ epsilon) (hcovered : Covered epsilon ours dup)
    (hsize : done.length + ours.length + dup.length < 2 ^ 32) :
    EndsWith epsilon valuesEqual m (done ++ result) := by
  induction hm generalizing done m with
  | nil ours => exact h.endsWith_nil
  | rest dup => exact h.endsWith_end
  | @skip e d ours dup result added matched hlt hm ih =>
    have hround := h.round_eq epsilon valuesEqual
    rw [if_pos hlt] at hround
    simp only [List.length_cons] at hsize
    refine EndsWith.cons (ih (h.advance (by omega)) hcovered.tail_left ?_) h.valuesDup_ne_nil hround
    rw [List.length_append, List.length_singleton, List.length_cons]
    omega
  | @add e d ours dup result added matched hlt hm ih =>
    have hround := h.round_eq epsilon valuesEqual
    have hskip : ¬ e.2 < d.2 - epsilon := by linarith
    rw [if_neg hskip, if_pos hlt] at hround
    simp only [List.length_cons] at hsize
    have hinsert := h.insert (h.index (List.cons_ne_nil _ _)) (by omega)
    refine EndsWith.cons (ih hinsert hcovered.tail_right ?_) h.valuesDup_ne_nil hround
    rw [List.length_append, List.length_singleton, List.length_cons]
    omega
  | @same e d ours dup result added matched hclose heq hm ih =>
    have hround := h.round_eq epsilon valuesEqual
    rw [hcovered.if_close hclose, if_pos heq] at hround
    simp only [List.length_cons] at hsize
    have hdrop := (h.advance (by omega)).drop
    refine EndsWith.cons (ih hdrop hcovered.tail_left.tail_right ?_) h.valuesDup_ne_nil hround
    rw [List.length_append, List.length_singleton]
    omega
  | @differ e d ours dup result added matched hclose hne hm ih =>
    have hround := h.round_eq epsilon valuesEqual
    rw [hcovered.if_close hclose, if_neg (by rw [hne]; exact Bool.false_ne_true)] at hround
    simp only [List.length_cons] at hsize
    have hlength : (done ++ [e]).length = done.length + 1 := List.length_append
    have hindex : m.advance.index.toNat = (done ++ [e]).length := by
      rw [hlength]
      exact h.index_add_one (by omega)
    have hinsert := (h.advance (by omega)).insert hindex (by omega)
    -- the entry is inserted behind the own one
    have hend := ih hinsert hcovered.tail_left.tail_right (by simp; omega)
    rw [List.append_assoc, List.append_assoc] at hend
    exact hend.of_round h.valuesDup_ne_nil hround

/-- At times within the tolerance that are not approximately equal a round does nothing. -/
theorem At.round_stuck {e d : α × ℚ} (h : At done (e :: ours) (d :: dup) m)
    (hclose : |e.2 - d.2| ≤ epsilon) (hne : approximatelyEqual e.2 d.2 epsilon = false) :
    m.round epsilon valuesEqual = some m := by
  have habs := abs_le.mp hclose
  rw [h.round_eq, if_neg (by linarith), if_neg (by linarith),
    if_neg (by rw [hne]; exact Bool.false_ne_true)]

/-- From there the loop does not end. -/
theorem At.not_ends {e d : α × ℚ} (h : At done (e :: ours) (d :: dup) m)
    (hclose : |e.2 - d.2| ≤ epsilon) (hne : approximatelyEqual e.2 d.2 epsilon = false)
    (m' : Subsume α) : ¬ Ends epsilon valuesEqual m m' := by
  have hstay : ∀ n, rounds epsilon valuesEqual n m = some m := by
    intro n
    induction n with
    | zero => rfl
    | succ n ih => rw [rounds_succ h.valuesDup_ne_nil (h.round_stuck hclose hne), ih]
  rintro ⟨hend, n, hn⟩
  rw [hstay n, Option.some.injEq] at hn
  exact h.valuesDup_ne_nil (hn ▸ hend)

end Run

/-- Logs that begin at such times are never merged. -/
theorem not_ends_of_stuck {e d : α × ℚ} (ours dup : List (α × ℚ)) (hclose : |e.2 - d.2| ≤ epsilon)
    (hne : approximatelyEqual e.2 d.2 epsilon = false) (m' : Subsume α) :
    ¬ Ends epsilon valuesEqual (start ((e :: ours).map Prod.fst) ((e :: ours).map Prod.snd)
      ((d :: dup).map Prod.fst) ((d :: dup).map Prod.snd)) m' :=
  (at_start (e :: ours) (d :: dup)).not_ends hclose hne m'

/-- So are the start of a run and half of the tolerance later. -/
example : |(0 : ℚ) - 5 / 10 ^ 15| ≤ 1 / 10 ^ 14 ∧
    approximatelyEqual 0 (5 / 10 ^ 15) (1 / 10 ^ 14) = false := by
  constructor
  · norm_num [abs_of_neg]
  · rw [approximatelyEqual, decide_eq_false_iff_not]
    norm_num [abs_of_neg]

/-- Times are covered if they are the same, or from a second on. -/
theorem approximatelyEqual_of_one_le {a b : ℚ} (hε : 0 ≤ epsilon) (hclose : |a - b| ≤ epsilon)
    (h : a = b ∨ 1 ≤ |a|) : approximatelyEqual a b epsilon = true := by
  rw [approximatelyEqual, decide_eq_true_iff]
  obtain rfl | h := h
  · rw [sub_self, abs_zero, if_neg (lt_irrefl _)]
    exact mul_nonneg (abs_nonneg a) hε
  · refine hclose.trans ?_
    split
    · exact le_mul_of_one_le_left hε (by linarith)
    · exact le_mul_of_one_le_left hε h

/-! ### The merged log -/

/-- The loop ends, and merges the two logs: it keeps the own entries in order, and adds the
    entries of the duplicate that it does not match with an own one. -/
theorem ends_subsume (hε : 0 < epsilon) (valuesEqual : α → α → Bool) {ours dup : List (α × ℚ)}
    (hours : Sorted ours) (hdup : Sorted dup) (hcovered : Covered epsilon ours dup)
    (hsize : ours.length + dup.length < 2 ^ 32) :
    ∃ (m' : Subsume α) (result added : List (α × ℚ)) (matched : List ((α × ℚ) × (α × ℚ))),
      Ends epsilon valuesEqual (start (ours.map Prod.fst) (ours.map Prod.snd)
        (dup.map Prod.fst) (dup.map Prod.snd)) m' ∧
      m'.valueBuffer = result.map Prod.fst ∧ m'.timeBuffer = result.map Prod.snd ∧
      result.Pairwise (fun e f => e.2 ≤ f.2 + epsilon) ∧
      ours.Sublist result ∧ added.Sublist result ∧ result.Perm (ours ++ added) ∧
      added.Sublist dup ∧ dup.Perm (added ++ matched.map Prod.snd) ∧
      (matched.map Prod.fst).Sublist ours ∧
      (∀ p ∈ matched, Match epsilon valuesEqual p.1 p.2 = true) ∧
      (Apart epsilon ours → Apart epsilon dup →
        added = dup.filter fun d => !Matched epsilon valuesEqual ours d) := by
  obtain ⟨result, added, matched, hm⟩ := exists_merged epsilon valuesEqual ours dup
  have hsize' : 0 + ours.length + dup.length < 2 ^ 32 := by omega
  obtain ⟨m', hends, hvalues, htimes⟩ :=
    At.endsWith hm (at_start ours dup) hε.le hcovered hsize'
  exact ⟨m', result, added, matched, hends, hvalues, htimes, hm.sorted hε.le hours hdup,
    hm.ours_sublist, hm.added_sublist, hm.perm, hm.added_sublist_dup, hm.dup_perm,
    hm.matched_sublist, hm.match_of_mem, hm.added_eq hε.le⟩

theorem ends_subsume_twoLogs :
    ∃ m', Ends (1 / 10 ^ 14) (· == ·) (start [1, 2] [0, 1] [1, 3] [0, 1 / 2]) m' ∧
      m'.valueBuffer.length = m'.timeBuffer.length := by
  have hcovered : Covered (1 / 10 ^ 14) [(1, 0), (2, 1)] [(1, 0), (3, 1 / 2)] := by
    intro e he d hd hclose
    refine approximatelyEqual_of_one_le (by norm_num) hclose ?_
    simp only [List.mem_cons, List.not_mem_nil, or_false] at he hd
    obtain rfl | rfl := he
    · obtain rfl | rfl := hd
      · exact .inl rfl
      · norm_num [abs_of_neg] at hclose
    · exact .inr (by norm_num)
  obtain ⟨m', result, _, _, hends, hvalues, htimes, -⟩ :=
    ends_subsume (by norm_num) (· == ·) (by norm_num [Sorted]) (by norm_num [Sorted]) hcovered
      (by decide)
  exact ⟨m', hends, by rw [hvalues, htimes, List.length_map, List.length_map]⟩

/-- The second of two values at the same time is added again: the loop compares it with the
    first. -/
theorem not_exact_sameTime :
    ¬ ∀ ours dup : List (Nat × ℚ), Sorted ours → Sorted dup →
      Covered (1 / 10 ^ 14) ours dup → ∀ m', Ends (1 / 10 ^ 14) (· == ·)
        (start (ours.map Prod.fst) (ours.map Prod.snd) (dup.map Prod.fst) (dup.map Prod.snd)) m' →
      m'.valueBuffer.length =
        (ours ++ dup.filter fun d => !Matched (1 / 10 ^ 14) (· == ·) ours d).length := by
  intro h
  have hcovered : Covered (1 / 10 ^ 14) [(1, 0), (2, 0)] [(2, 0)] := by
    intro e he d hd hclose
    refine approximatelyEqual_of_one_le (by norm_num) hclose (.inl ?_)
    simp only [List.mem_cons, List.not_mem_nil, or_false] at he hd
    obtain rfl | rfl := he <;> rw [hd]
  have hm : Merged (1 / 10 ^ 14) (· == ·) [(1, 0), (2, 0)] [(2, 0)] [(1, 0), (2, 0), (2, 0)]
      [(2, 0)] [] := .differ (by norm_num) rfl (.nil _)
  obtain ⟨m', hends, hvalues, -⟩ :=
    At.endsWith hm (at_start _ _) (by norm_num) hcovered (by decide)
  have hlength := h _ _ (by norm_num [Sorted]) (by norm_num [Sorted]) hcovered m' hends
  have hmatched : Matched (1 / 10 ^ 14) (· == ·) [(1, 0), (2, 0)] (2, 0) = true := by
    norm_num [Matched, Match]
  rw [hvalues, List.filter_cons_of_neg (by rw [hmatched]; exact Bool.false_ne_true)] at hlength
  exact absurd hlength (by decide)

/-! ### Logs in nanoseconds -/

section Nanoseconds

variable {D : Type} [PVDouble D]

/-- An entry of a log in whole nanoseconds, in seconds. -/
def seconds (e : PVEntry D) : PVValue D × ℚ := (e.value, e.time / 10 ^ 9)

omit [PVDouble D] in
/-- Different times are a nanosecond apart. -/
theorem seconds_lt_sub (hlt : epsilon < 1 / 10 ^ 9) {e d : PVEntry D} (h : e.time < d.time) :
    (seconds e).2 < (seconds d).2 - epsilon := by
  have hcast : (e.time : ℚ) + 1 ≤ d.time := by exact_mod_cast h
  show (e.time : ℚ) / 10 ^ 9 < d.time / 10 ^ 9 - epsilon
  linarith

omit [PVDouble D] in
theorem seconds_close (hε : 0 ≤ epsilon) {e d : PVEntry D} (h : ¬ e.time < d.time)
    (h' : ¬ d.time < e.time) : |(seconds e).2 - (seconds d).2| ≤ epsilon := by
  rw [seconds, seconds, le_antisymm (not_lt.mp h') (not_lt.mp h), sub_self, abs_zero]
  exact hε

omit [PVDouble D] in
theorem covered_seconds (hε : 0 ≤ epsilon) (hlt : epsilon < 1 / 10 ^ 9)
    (ours dup : List (PVEntry D)) :
    Covered epsilon (ours.map seconds) (dup.map seconds) := by
  intro e' he d' hd hclose
  obtain ⟨e, -, rfl⟩ := List.mem_map.mp he
  obtain ⟨d, -, rfl⟩ := List.mem_map.mp hd
  have habs := abs_le.mp hclose
  refine approximatelyEqual_of_one_le hε hclose (.inl ?_)
  obtain h | h | h := lt_trichotomy e.time d.time
  · exact absurd (seconds_lt_sub hlt h) (by linarith)
  · rw [seconds, seconds, h]
  · exact absurd (seconds_lt_sub hlt h) (by linarith)

/-- The logs of `PVInfo` are merged as here. -/
theorem merged_subsumeValues (hε : 0 ≤ epsilon) (hlt : epsilon < 1 / 10 ^ 9)
    (ours dup : List (PVEntry D)) :
    ∃ added matched, Merged epsilon PVValue.valuesEqual (ours.map seconds) (dup.map seconds)
      ((PVInfo.subsumeValues ours dup).map seconds) added matched := by
  induction ours, dup using PVInfo.subsumeValues.induct with
  | case1 ours => exact ⟨[], [], by simpa [PVInfo.subsumeValues] using .nil _⟩
  | case2 dup =>
    refine ⟨dup.map seconds, [], ?_⟩
    have hrest : PVInfo.subsumeValues [] dup = dup := by cases dup <;> simp [PVInfo.subsumeValues]
    rw [hrest]
    exact .rest _
  | case3 e ours d dup h ih =>
    obtain ⟨added, matched, hm⟩ := ih
    refine ⟨added, matched, ?_⟩
    rw [PVInfo.subsumeValues, if_pos h]
    exact .skip (seconds_lt_sub hlt h) hm
  | case4 e ours d dup h h' ih =>
    obtain ⟨added, matched, hm⟩ := ih
    refine ⟨seconds d :: added, matched, ?_⟩
    rw [PVInfo.subsumeValues, if_neg h, if_pos h']
    exact .add (seconds_lt_sub hlt h') hm
  | case5 e ours d dup h h' heq ih =>
    obtain ⟨added, matched, hm⟩ := ih
    refine ⟨added, (seconds e, seconds d) :: matched, ?_⟩
    rw [PVInfo.subsumeValues, if_neg h, if_neg h', if_pos heq]
    exact .same (seconds_close hε h h') heq hm
  | case6 e ours d dup h h' heq ih =>
    obtain ⟨added, matched, hm⟩ := ih
    refine ⟨seconds d :: added, matched, ?_⟩
    rw [PVInfo.subsumeValues, if_neg h, if_neg h', if_neg heq]
    exact .differ (seconds_close hε h h') (Bool.eq_false_of_not_eq_true heq) hm

/-- So the loop leaves the merged log in the buffers. -/
theorem endsWith_subsumeValues (hε : 0 ≤ epsilon) (hlt : epsilon < 1 / 10 ^ 9)
    (ours dup : List (PVEntry D)) (hsize : ours.length + dup.length < 2 ^ 32) :
    EndsWith epsilon PVValue.valuesEqual
      (start ((ours.map seconds).map Prod.fst) ((ours.map seconds).map Prod.snd)
        ((dup.map seconds).map Prod.fst) ((dup.map seconds).map Prod.snd))
      ((PVInfo.subsumeValues ours dup).map seconds) := by
  obtain ⟨added, matched, hm⟩ := merged_subsumeValues hε hlt ours dup
  refine At.endsWith hm (at_start _ _) hε (covered_seconds hε hlt ours dup) ?_
  rw [List.length_map, List.length_map, List.length_nil, Nat.zero_add]
  exact hsize

end Nanoseconds

end Adara.Spec.SubsumeValues
