import Mathlib.Data.List.Basic
import Mathlib.Logic.Function.Iterate

/-! # Maximal runs

A list falls into maximal runs of elements that meet a condition, and the gaps between them
(`runs`).  A `Replacer` goes through the list once, keeps the gaps, and puts some marks in the
place of each run; how many depends on its state and on the length of the run (`emit_eq`).  Two
ways to mark the same runs give the same list just if no gap has anything but marks while one of
them is ahead (`weave_eq_iff`). -/

namespace MaximalRuns

variable {α σ : Type*} {p : α → Bool}

/-- The gaps and the lengths of the runs behind them.  The last gap may have no run behind it. -/
def runs (p : α → Bool) : List α → List (List α × Nat)
  | [] => [([], 0)]
  | x :: xs =>
    match p x, runs p xs with
    | _, [] => []
    | false, (gap, n) :: rest => (x :: gap, n) :: rest
    | true, ([], n) :: rest => ([], n + 1) :: rest
    | true, (y :: gap, n) :: rest => ([], 1) :: (y :: gap, n) :: rest

theorem runs_ne_nil (xs : List α) : runs p xs ≠ [] := by
  cases xs with
  | nil => exact List.cons_ne_nil _ _
  | cons x xs =>
    rw [runs]
    split
    · exact absurd ‹_› (runs_ne_nil xs)
    · exact List.cons_ne_nil _ _
    · exact List.cons_ne_nil _ _
    · exact List.cons_ne_nil _ _

/-- Only the first gap can be empty. -/
theorem gap_ne_nil (xs : List α) : ∀ e ∈ (runs p xs).tail, e.1 ≠ [] := by
  induction xs with
  | nil => exact nofun
  | cons x xs ih =>
    rw [runs]
    split
    · exact nofun
    · rename_i heq
      rw [heq] at ih
      exact ih
    · rename_i heq
      rw [heq] at ih
      exact ih
    · rename_i heq
      rw [heq] at ih
      exact List.forall_mem_cons.mpr ⟨List.cons_ne_nil _ _, ih⟩

/-! ### Marks in the place of runs -/

/-- Gaps with marks behind them. -/
def weave (mark : α) (entries : List (List α × Nat)) : List α :=
  entries.flatMap fun e => e.1 ++ List.replicate e.2 mark

/-- Whether a mark is put for an element of a run, and what the state becomes. -/
structure Replacer (σ : Type*) where
  puts : σ → Bool
  inRun : σ → σ
  inGap : σ → σ

namespace Replacer

variable (r : Replacer σ)

/-- The list with marks in the place of its runs. -/
def emit (p : α → Bool) (mark : α) : σ → List α → List α
  | _, [] => []
  | s, x :: xs =>
    if p x then List.replicate (r.puts s).toNat mark ++ emit p mark (r.inRun s) xs
    else x :: emit p mark (r.inGap s) xs

/-- The marks put for a run. -/
def marks : σ → (n : Nat) → Nat
  | _, 0 => 0
  | s, n + 1 => (r.puts s).toNat + marks (r.inRun s) n

/-- The marks put for some runs. -/
def allMarks : σ → List (List α × Nat) → List (List α × Nat)
  | _, [] => []
  | s, (gap, n) :: rest =>
    let s' := r.inGap^[gap.length] s
    (gap, r.marks s' n) :: allMarks (r.inRun^[n] s') rest

theorem emit_eq (mark : α) (s : σ) (xs : List α) :
    r.emit p mark s xs = weave mark (r.allMarks s (runs p xs)) := by
  induction xs generalizing s with
  | nil => rfl
  | cons x xs ih =>
    obtain ⟨⟨gap, n⟩, rest, heq⟩ := List.exists_cons_of_ne_nil (runs_ne_nil (p := p) xs)
    rw [emit, ih, ih, runs, heq]
    cases hx : p x with
    | false =>
      rw [if_neg Bool.false_ne_true]
      rfl
    | true =>
      rw [if_pos rfl]
      cases gap with
      | nil =>
        -- the run gets longer
        simp only [weave, allMarks, List.flatMap_cons, List.nil_append, List.length_nil,
          Function.iterate_zero, id_eq, marks, Function.iterate_succ_apply]
        rw [← List.append_assoc, List.replicate_append_replicate]
      | cons y gap =>
        simp only [weave, allMarks, List.flatMap_cons, List.nil_append, List.length_nil,
          Function.iterate_zero, id_eq, marks, Nat.add_zero, Function.iterate_one]

end Replacer

/-! ### The same marks -/

variable {mark : α}

/-- Of two ways to mark, `ahead` is how many marks more the first has put.  Behind a gap with
    anything else than marks there is no way to make up for it. -/
def Balanced (mark : α) : (ahead : Int) → List (List α × Nat × Nat) → Prop
  | ahead, [] => ahead = 0
  | ahead, (gap, a, b) :: rest =>
    ((∃ x ∈ gap, x ≠ mark) → ahead = 0) ∧ Balanced mark (ahead + a - b) rest

theorem replicate_append_cons (u : Nat) (xs : List α) :
    List.replicate u mark ++ mark :: xs = mark :: (List.replicate u mark ++ xs) := by
  rw [← List.cons_append, ← List.replicate_succ, List.replicate_succ', List.append_assoc,
    List.singleton_append]

/-- What comes behind some marks is not behind more of them. -/
theorem replicate_append_ne {u v : Nat} (h : u < v) {x : α} (hx : x ≠ mark) (xs ys : List α) :
    List.replicate u mark ++ x :: xs ≠ List.replicate v mark ++ ys := by
  intro heq
  have hget := congrArg (·[u]?) heq
  rw [List.getElem?_append_right (Nat.le_of_eq List.length_replicate),
    List.length_replicate, Nat.sub_self, List.getElem?_cons_zero,
    List.getElem?_append_left (by rw [List.length_replicate]; exact h),
    List.getElem?_replicate, if_pos h] at hget
  exact hx (Option.some.inj hget)

/-- Marks pass a gap of marks only. -/
theorem gap_iff (u v : Nat) (gap xs ys : List α) :
    List.replicate u mark ++ (gap ++ xs) = List.replicate v mark ++ (gap ++ ys) ↔
      ((∃ x ∈ gap, x ≠ mark) → u = v) ∧
        List.replicate u mark ++ xs = List.replicate v mark ++ ys := by
  induction gap with
  | nil => simp
  | cons x gap ih =>
    by_cases hx : x = mark
    · subst hx
      have hex : (∃ y ∈ x :: gap, y ≠ x) ↔ ∃ y ∈ gap, y ≠ x := by simp
      rw [List.cons_append, List.cons_append, replicate_append_cons, replicate_append_cons,
        List.cons.injEq, eq_self, true_and, ih, hex]
    · have hex : ∃ y ∈ x :: gap, y ≠ mark := ⟨x, List.mem_cons_self, hx⟩
      rw [forall_prop_of_true hex]
      constructor
      · intro heq
        -- the first element that is no mark is at the same place
        have huv : u = v := by
          rcases Nat.lt_trichotomy u v with hlt | huv | hlt
          · exact absurd heq (replicate_append_ne hlt hx _ _)
          · exact huv
          · exact absurd heq.symm (replicate_append_ne hlt hx _ _)
        subst huv
        have hrest := List.append_cancel_left heq
        rw [List.cons_append, List.cons_append, List.cons.injEq] at hrest
        exact ⟨rfl, congrArg _ (List.append_cancel_left hrest.2)⟩
      · rintro ⟨rfl, heq⟩
        rw [List.append_cancel_left heq]

/-- Two ways to mark the same runs. -/
theorem weave_eq_iff (entries : List (List α × Nat × Nat)) :
    weave mark (entries.map fun e => (e.1, e.2.1)) =
        weave mark (entries.map fun e => (e.1, e.2.2)) ↔ Balanced mark 0 entries := by
  have hfrom : ∀ u v : Nat,
      List.replicate u mark ++ weave mark (entries.map fun e => (e.1, e.2.1)) =
          List.replicate v mark ++ weave mark (entries.map fun e => (e.1, e.2.2)) ↔
        Balanced mark (u - v) entries := by
    induction entries with
    | nil =>
      intro u v
      simp only [List.map_nil, weave, List.flatMap_nil, List.append_nil, Balanced]
      constructor
      · intro heq
        have hlen := congrArg List.length heq
        rw [List.length_replicate, List.length_replicate] at hlen
        omega
      · intro heq
        rw [show u = v by omega]
    | cons e entries ih =>
      intro u v
      obtain ⟨gap, a, b⟩ := e
      have hnext := ih (u + a) (v + b)
      rw [List.replicate_add, List.replicate_add, List.append_assoc, List.append_assoc] at hnext
      simp only [List.map_cons, weave, List.flatMap_cons, List.append_assoc] at hnext ⊢
      rw [gap_iff, hnext, Balanced]
      have hahead : ((u + a : Nat) : Int) - ((v + b : Nat) : Int) = u - v + a - b := by omega
      rw [hahead]
      refine and_congr_left fun _ => imp_congr_right fun _ => ?_
      omega
  have hstart := hfrom 0 0
  rwa [List.replicate_zero, List.nil_append, List.nil_append] at hstart

/-- The marks that two replacers put for some runs. -/
def bothMarks {τ : Type*} (r : Replacer σ) (r' : Replacer τ) :
    σ → τ → List (List α × Nat) → List (List α × Nat × Nat)
  | _, _, [] => []
  | s, t, (gap, n) :: rest =>
    let s' := r.inGap^[gap.length] s
    let t' := r'.inGap^[gap.length] t
    (gap, r.marks s' n, r'.marks t' n) :: bothMarks r r' (r.inRun^[n] s') (r'.inRun^[n] t') rest

/-- Two replacers do the same to a list just if no run shows that one is ahead. -/
theorem emit_eq_emit_iff {τ : Type*} (r : Replacer σ) (r' : Replacer τ) (s : σ) (t : τ)
    (xs : List α) :
    r.emit p mark s xs = r'.emit p mark t xs ↔ Balanced mark 0 (bothMarks r r' s t (runs p xs)) := by
  have hmarks : ∀ (entries : List (List α × Nat)) s t,
      (bothMarks r r' s t entries).map (fun e => (e.1, e.2.1)) = r.allMarks s entries ∧
        (bothMarks r r' s t entries).map (fun e => (e.1, e.2.2)) = r'.allMarks t entries := by
    intro entries
    induction entries with
    | nil => exact fun _ _ => ⟨rfl, rfl⟩
    | cons e entries ih =>
      intro s t
      obtain ⟨hfst, hsnd⟩ := ih (r.inRun^[e.2] (r.inGap^[e.1.length] s))
        (r'.inRun^[e.2] (r'.inGap^[e.1.length] t))
      exact ⟨congrArg _ hfst, congrArg _ hsnd⟩
  obtain ⟨hfst, hsnd⟩ := hmarks (runs p xs) s t
  rw [r.emit_eq, r'.emit_eq, ← hfst, ← hsnd]
  exact weave_eq_iff _

end MaximalRuns
