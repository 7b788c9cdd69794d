import Mathlib.Algebra.BigOperators.Group.List.Basic
import Mathlib.Algebra.Order.Ring.Int
import Mathlib.Data.List.Induction

/-! # Tallies with counters that wrap

Elements are sorted into bins, and each bin counts its elements modulo `m`.  `tally` is what the
counters hold, and the lemmas about a further element say which counter it changes.  No element is
missing from the sum of the counters just if none has wrapped (`sum_tally_add_iff`). -/

namespace WrappingTally

variable {α : Type*} {m bins : Nat} {binOf : α → Option Nat} {xs : List α}

/-- The elements of a bin. -/
def inBin (binOf : α → Option Nat) (i : Nat) (xs : List α) : Nat :=
  xs.countP fun x => binOf x = some i

/-- The elements of no bin. -/
def inNone (binOf : α → Option Nat) (xs : List α) : Nat := xs.countP fun x => binOf x = none

/-- The counters of some bins. -/
def tally (m bins : Nat) (binOf : α → Option Nat) (xs : List α) : List Nat :=
  (List.range bins).map fun i => inBin binOf i xs % m

@[simp] theorem length_tally : (tally m bins binOf xs).length = bins := by
  rw [tally, List.length_map, List.length_range]

@[simp] theorem tally_nil : tally m bins binOf [] = List.replicate bins 0 := by
  simp [tally, inBin, List.map_const']

theorem inBin_concat (i : Nat) (x : α) :
    inBin binOf i (xs ++ [x]) = inBin binOf i xs + if binOf x = some i then 1 else 0 := by
  rw [inBin, inBin, List.countP_append, List.countP_singleton]
  simp only [decide_eq_true_eq]

theorem inNone_concat (x : α) :
    inNone binOf (xs ++ [x]) = inNone binOf xs + if binOf x = none then 1 else 0 := by
  rw [inNone, inNone, List.countP_append, List.countP_singleton]
  simp only [decide_eq_true_eq]

/-- An element of no bin changes no counter. -/
theorem tally_concat_none {x : α} (h : binOf x = none) :
    tally m bins binOf (xs ++ [x]) = tally m bins binOf xs := by
  refine List.map_congr_left fun i _ => ?_
  rw [inBin_concat, h, if_neg nofun, Nat.add_zero]

/-- An element of a bin is added to the counter of this bin. -/
theorem tally_concat_some {x : α} {i : Nat} (h : binOf x = some i) :
    tally m bins binOf (xs ++ [x]) =
      (tally m bins binOf xs).modify i fun count => (count + 1) % m := by
  refine List.ext_getElem (by simp) fun j hj hj' => ?_
  rw [List.getElem_modify]
  simp only [tally, List.getElem_map, List.getElem_range]
  rw [inBin_concat, h]
  by_cases hij : i = j
  · rw [if_pos (congrArg some hij), if_pos hij, Nat.mod_add_mod]
  · rw [if_neg (fun heq => hij (Option.some.inj heq)), if_neg hij, Nat.add_zero]

theorem sum_indicator (i bins : Nat) :
    ((List.range bins).map fun j => if some i = some j then 1 else 0).sum =
      if i < bins then 1 else 0 := by
  induction bins with
  | zero => rfl
  | succ bins ih =>
    rw [List.range_succ, List.map_append, List.sum_append, ih, List.map_singleton,
      List.sum_singleton]
    simp only [Option.some.injEq]
    split <;> split <;> split <;> omega

/-- Every element is of one bin or of none. -/
theorem sum_inBin_add (h : ∀ x ∈ xs, ∀ i, binOf x = some i → i < bins) :
    ((List.range bins).map fun i => inBin binOf i xs).sum + inNone binOf xs = xs.length := by
  induction xs using List.reverseRecOn with
  | nil => simp [inBin, inNone]
  | append_singleton xs x ih =>
    have hrest := ih fun y hy => h y (List.mem_append_left _ hy)
    have hx := h x (List.mem_append_right _ (List.mem_singleton.mpr rfl))
    simp only [inBin_concat, inNone_concat, List.sum_map_add, List.length_append,
      List.length_singleton]
    cases hbin : binOf x with
    | none =>
      have hzero : ((List.range bins).map fun i =>
          if (none : Option Nat) = some i then 1 else 0).sum = 0 := by simp
      rw [hzero, if_pos rfl]
      omega
    | some i =>
      rw [sum_indicator, if_pos (hx i hbin), if_neg nofun]
      omega

/-- Sums are the same just if all terms are, where each is at most the other. -/
theorem sum_map_eq_iff {is : List Nat} {f g : Nat → Nat} (hle : ∀ i, f i ≤ g i) :
    (is.map f).sum ≤ (is.map g).sum ∧
      ((is.map f).sum = (is.map g).sum ↔ ∀ i ∈ is, f i = g i) := by
  induction is with
  | nil => simp
  | cons i is ih =>
    obtain ⟨hsum, hiff⟩ := ih
    have hi := hle i
    rw [List.map_cons, List.map_cons, List.sum_cons, List.sum_cons, List.forall_mem_cons, ← hiff]
    constructor
    · omega
    · omega

/-- The counters have all elements of a bin just if none has wrapped. -/
theorem sum_tally_add_iff (hm : 0 < m) (h : ∀ x ∈ xs, ∀ i, binOf x = some i → i < bins) :
    (tally m bins binOf xs).sum + inNone binOf xs = xs.length ↔
      ∀ i, inBin binOf i xs < m := by
  have hall := sum_inBin_add h
  obtain ⟨-, hiff⟩ := @sum_map_eq_iff (List.range bins) (fun i => inBin binOf i xs % m)
    (fun i => inBin binOf i xs) fun i => Nat.mod_le _ _
  have hmod : ∀ i, inBin binOf i xs % m = inBin binOf i xs ↔ inBin binOf i xs < m := fun i =>
    ⟨fun heq => heq ▸ Nat.mod_lt _ hm, Nat.mod_eq_of_lt⟩
  rw [tally]
  constructor
  · intro hsum i
    by_cases hi : i < bins
    · exact (hmod i).mp (hiff.mp (by omega) i (List.mem_range.mpr hi))
    · -- there are no elements behind the last bin
      have hzero : inBin binOf i xs = 0 := by
        rw [inBin, List.countP_eq_zero]
        intro x hx hbin
        exact hi (h x hx i (of_decide_eq_true hbin))
      omega
  · intro hlt
    have hsum := hiff.mpr fun i _ => (hmod i).mpr (hlt i)
    omega

end WrappingTally
