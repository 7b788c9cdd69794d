import Mathlib.Data.List.Basic
import Mathlib.Data.List.Nodup

/-! # Moving elements from one array to another

`relocate` moves elements one after the other from given places of one list to given
places of another, and leaves a filler behind.  It has no result when a place lies
outside its list.  Where no place is used twice, every element arrives
(`relocate_spec`). -/

section Relocate

variable {α : Type*}

/-- Move the element at the first place of every pair to the second, leaving `hole`
    behind. -/
def relocate (hole : α) : List (Nat × Nat) → (old new : List α) → Option (List α)
  | [], _, new => some new
  | (i, j) :: moves, old, new =>
    match old[i]? with
    | none => none
    | some x =>
      if j < new.length then relocate hole moves (old.set i hole) (new.set j x) else none

/-- Elements moved to distinct places from distinct places arrive, and the other places
    keep what they had. -/
theorem relocate_spec {hole : α} {moves : List (Nat × Nat)} {old new : List α}
    (hfrom : (moves.map Prod.fst).Nodup) (hto : (moves.map Prod.snd).Nodup)
    (hin : ∀ m ∈ moves, m.1 < old.length ∧ m.2 < new.length) :
    ∃ res, relocate hole moves old new = some res ∧ res.length = new.length ∧
      (∀ m ∈ moves, res[m.2]? = old[m.1]?) ∧
      ∀ k, k ∉ moves.map Prod.snd → res[k]? = new[k]? := by
  induction moves generalizing old new with
  | nil => exact ⟨new, rfl, rfl, fun m hm => absurd hm List.not_mem_nil, fun k _ => rfl⟩
  | cons m moves ih =>
    obtain ⟨i, j⟩ := m
    simp only [List.map_cons, List.nodup_cons] at hfrom hto
    obtain ⟨hi, hj⟩ := hin (i, j) (List.mem_cons_self ..)
    simp only at hi hj
    have hin' : ∀ m ∈ moves,
        m.1 < (old.set i hole).length ∧ m.2 < (new.set j old[i]).length := by
      intro m hm
      rw [List.length_set, List.length_set]
      exact hin m (List.mem_cons_of_mem _ hm)
    obtain ⟨res, hres, hlen, hmoved, hkept⟩ := ih hfrom.2 hto.2 hin'
    refine ⟨res, ?_, by rw [hlen, List.length_set], ?_, ?_⟩
    · rw [relocate, List.getElem?_eq_getElem hi]
      show (if j < new.length then _ else _) = _
      rw [if_pos hj, hres]
    · intro m hm
      rcases List.mem_cons.mp hm with rfl | hm
      · -- nothing is moved to `j` again
        rw [hkept j hto.1, List.getElem?_set_self hj, List.getElem?_eq_getElem hi]
      · have hne : i ≠ m.1 := fun h => hfrom.1 (h ▸ List.mem_map_of_mem hm)
        rw [hmoved m hm, List.getElem?_set_ne hne]
    · intro k hk
      simp only [List.map_cons, List.mem_cons, not_or] at hk
      rw [hkept k hk.2, List.getElem?_set_ne (Ne.symm hk.1)]

end Relocate
