import Mathlib.Data.List.Basic

/-! # Buffers with a size in use

A buffer that is filled and emptied over and over without ever being shrunk: only its
first `size` cells are in use, and the cells behind them hold whatever was there before
(`none` where nothing was).  A reader that takes the cells in use, and then empties the
buffer, gets everything that was pushed, once and in order (`Delivers`). -/

structure InUseBuffer (α : Type*) where
  cells : List (Option α)
  size : Nat
deriving DecidableEq, Repr

namespace InUseBuffer

variable {α : Type*}

/-- A buffer without cells. -/
def empty : InUseBuffer α := ⟨[], 0⟩

/-- The cells in use. -/
def inUse (b : InUseBuffer α) : List (Option α) := b.cells.take b.size

/-- Make it `n` cells, if there are fewer. -/
def resize (b : InUseBuffer α) (n : Nat) : InUseBuffer α :=
  { b with cells := b.cells ++ List.replicate (n - b.cells.length) none }

/-- Write behind the cells in use; `none` where there are not enough cells. -/
def push (b : InUseBuffer α) (xs : List α) : Option (InUseBuffer α) :=
  let stop := b.size + xs.length
  if stop ≤ b.cells.length then
    some ⟨b.cells.take b.size ++ xs.map some ++ b.cells.drop stop, stop⟩
  else none

/-- Keep the cells, with none of them in use. -/
def clear (b : InUseBuffer α) : InUseBuffer α := { b with size := 0 }

/-- What has been taken from the buffer so far, followed by what is in use, is `xs`. -/
structure Delivers (b : InUseBuffer α) (taken : List (Option α)) (xs : List α) : Prop where
  size_le : b.size ≤ b.cells.length
  eq : taken ++ b.inUse = xs.map some

theorem length_resize (b : InUseBuffer α) (n : Nat) :
    (b.resize n).cells.length = max b.cells.length n := by
  rw [resize, List.length_append, List.length_replicate]
  omega

namespace Delivers

variable {b : InUseBuffer α} {taken : List (Option α)} {xs : List α}

theorem empty : Delivers (α := α) .empty [] [] := ⟨Nat.le_refl _, rfl⟩

/-- New cells come behind those in use. -/
theorem resize (h : Delivers b taken xs) (n : Nat) : Delivers (b.resize n) taken xs where
  size_le := by
    have hle := h.size_le
    rw [length_resize]
    show b.size ≤ _
    omega
  eq := by
    rw [← h.eq]
    simp only [inUse, InUseBuffer.resize, List.take_append_of_le_length h.size_le]

/-- With room for them, the elements come behind those before, over stale ones. -/
theorem push (h : Delivers b taken xs) {ys : List α}
    (hroom : b.size + ys.length ≤ b.cells.length) :
    ∃ b', b.push ys = some b' ∧ b'.size = b.size + ys.length ∧ Delivers b' taken (xs ++ ys) := by
  have hsize := h.size_le
  have hpre : (b.cells.take b.size ++ ys.map some).length = b.size + ys.length := by
    rw [List.length_append, List.length_take, List.length_map, Nat.min_eq_left hsize]
  refine ⟨_, by rw [InUseBuffer.push, if_pos hroom], rfl, ?_, ?_⟩
  · rw [List.length_append, hpre]
    exact Nat.le_add_right _ _
  · rw [inUse, List.take_append_of_le_length (Nat.le_of_eq hpre.symm), ← hpre,
      List.take_length, List.map_append, ← h.eq, inUse, List.append_assoc]

/-- Taking what is in use loses nothing. -/
theorem clear (h : Delivers b taken xs) : Delivers b.clear (taken ++ b.inUse) xs where
  size_le := Nat.zero_le _
  eq := by
    have hnone : b.clear.inUse = [] := List.take_zero
    rw [hnone, List.append_nil]
    exact h.eq

end Delivers

end InUseBuffer
