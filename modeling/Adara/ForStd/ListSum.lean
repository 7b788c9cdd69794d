import Mathlib.Algebra.BigOperators.Group.List.Basic
import Mathlib.Algebra.Order.Ring.Int
import Mathlib.Data.List.Perm.Basic

/-! # Sums over lists

A weight is added up over the elements of a list.  The sum is split along a predicate, and is the
same for two lists without duplicates that have the same elements. -/

namespace List

variable {α : Type*} {l m : List α}

/-- The elements that have a property and those that do not add up to the whole. -/
theorem sum_map_filter_add (w : α → Nat) (p : α → Bool) (l : List α) :
    ((l.filter p).map w).sum + ((l.filter fun a => !p a).map w).sum = (l.map w).sum := by
  rw [← sum_append, ← map_append]
  exact ((filter_append_perm p l).map w).sum_eq

theorem sum_map_eq_of_mem_iff (w : α → Nat) (hl : l.Nodup) (hm : m.Nodup)
    (h : ∀ a, a ∈ l ↔ a ∈ m) : (l.map w).sum = (m.map w).sum :=
  (((perm_ext_iff_of_nodup hl hm).mpr h).map w).sum_eq

end List
