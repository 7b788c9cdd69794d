import Mathlib.Data.List.Basic

/-! # Writing an array place by place

`writeAll` writes values at indices, one after the other.  In the end there is in each place the
value that was written last (`lastWrite`), or what was there before. -/

namespace ArrayWrites

variable {α : Type*} {writes : List (Nat × α)} {a : Array α} {i : Nat}

/-- Write values at indices; a place out of bounds has no result. -/
def writeAll : List (Nat × α) → Array α → Option (Array α)
  | [], a => some a
  | (i, v) :: writes, a => if h : i < a.size then writeAll writes (a.set i v h) else none

/-- The value that is written last at an index. -/
def lastWrite : List (Nat × α) → Nat → Option α
  | [], _ => none
  | (j, v) :: writes, i => (lastWrite writes i).or (if j = i then some v else none)

theorem lastWrite_eq_none (h : ∀ w ∈ writes, w.1 ≠ i) : lastWrite writes i = none := by
  induction writes with
  | nil => rfl
  | cons w writes ih =>
    obtain ⟨hw, hrest⟩ := List.forall_mem_cons.mp h
    rw [lastWrite, ih hrest, if_neg hw, Option.or_none]

theorem exists_lastWrite {v : α} (h : (i, v) ∈ writes) : ∃ u, lastWrite writes i = some u := by
  induction writes with
  | nil => cases h
  | cons w writes ih =>
    rw [lastWrite]
    rcases List.mem_cons.mp h with rfl | h
    · rw [if_pos rfl]
      cases lastWrite writes i with
      | none => exact ⟨v, rfl⟩
      | some u => exact ⟨u, rfl⟩
    · obtain ⟨u, hu⟩ := ih h
      rw [hu]
      exact ⟨u, rfl⟩

/-- A value with no write at its index behind it is the last there. -/
theorem lastWrite_append {after : List (Nat × α)} (before : List (Nat × α)) {v : α}
    (h : ∀ w ∈ after, w.1 ≠ i) : lastWrite (before ++ (i, v) :: after) i = some v := by
  induction before with
  | nil =>
    rw [List.nil_append, lastWrite, lastWrite_eq_none h, if_pos rfl]
    rfl
  | cons w before ih =>
    rw [List.cons_append, lastWrite, ih]
    rfl

/-- A last value was written. -/
theorem mem_of_lastWrite {v : α} (h : lastWrite writes i = some v) : (i, v) ∈ writes := by
  induction writes with
  | nil => cases h
  | cons w writes ih =>
    obtain ⟨j, u⟩ := w
    rw [lastWrite, Option.or_eq_some_iff] at h
    rcases h with h | ⟨-, h⟩
    · exact List.mem_cons_of_mem _ (ih h)
    · split at h
      · next heq =>
        obtain rfl := Option.some.inj h
        exact heq ▸ List.mem_cons_self ..
      · cases h

/-- Writes in bounds have a result, with the last value in every place. -/
theorem writeAll_spec (h : ∀ w ∈ writes, w.1 < a.size) :
    ∃ b, writeAll writes a = some b ∧ b.size = a.size ∧
      ∀ i, b[i]? = (lastWrite writes i).or a[i]? := by
  induction writes generalizing a with
  | nil => exact ⟨a, rfl, rfl, fun i => rfl⟩
  | cons w writes ih =>
    obtain ⟨j, v⟩ := w
    obtain ⟨hj, hrest⟩ := List.forall_mem_cons.mp h
    have hsize : (a.set j v hj).size = a.size := Array.size_set hj
    obtain ⟨b, hb, hbsize, hget⟩ := ih (a := a.set j v hj) (by rwa [hsize])
    refine ⟨b, ?_, hbsize.trans hsize, fun i => ?_⟩
    · rw [writeAll, dif_pos hj]
      exact hb
    · rw [hget i, lastWrite, Option.or_assoc, Array.getElem?_set]
      by_cases hij : j = i
      · rw [if_pos hij, if_pos hij]
        rfl
      · rw [if_neg hij, if_neg hij]
        rfl

end ArrayWrites
