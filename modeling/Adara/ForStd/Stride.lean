import Mathlib.Algebra.Order.Ring.Int
import Mathlib.Tactic.Linarith

/-! # Arithmetic progressions of 32-bit words

`Stride.point a d i` is the word reached from `a` by `i` steps of `d`, with wrap-around.  Where
a step fits 16 bits with its sign (`Half`), up to `2 ^ 15` points are distinct (`point_ne`), and
their number can be computed from the first and the last (`count_points`).  A `Small` step is
not the smallest of these; it can be cut to 16 bits and extended again (`extend_small`). -/

namespace Stride

/-- The word `i` steps of `d` from `a`. -/
def point (a d : UInt32) (i : Nat) : UInt32 := a + UInt32.ofNat i * d

/-- A step that fits 16 bits, the smallest value apart. -/
def Small (d : UInt32) : Prop := -32767 ≤ d.toInt32.toInt ∧ d.toInt32.toInt ≤ 32767

instance (d : UInt32) : Decidable (Small d) := inferInstanceAs (Decidable (_ ∧ _))

/-- A step that fits 16 bits. -/
def Half (d : UInt32) : Prop := -32768 ≤ d.toInt32.toInt ∧ d.toInt32.toInt ≤ 32767

variable {a d : UInt32}

theorem Small.half (h : Small d) : Half d :=
  ⟨Int.le_trans (by decide) h.1, h.2⟩

/-- A half word, extended with its sign. -/
theorem half_extend (x : Int16) : Half x.toInt32.toUInt32 := by
  have hlow : -32768 ≤ x.toInt := x.le_toInt
  have hhigh : x.toInt ≤ 32767 := x.toInt_le
  rw [Half, show x.toInt32.toUInt32.toInt32 = x.toInt32 from rfl, Int16.toInt_toInt32]
  constructor <;> omega

@[simp] theorem point_zero (a d : UInt32) : point a d 0 = a := by
  simp [point]

theorem point_succ (a d : UInt32) (i : Nat) : point a d (i + 1) = point a d i + d := by
  rw [point, point, UInt32.ofNat_add]
  grind

/-- One step of the difference leads to the second point. -/
theorem point_one_sub (a b : UInt32) : point a (b - a) 1 = b := by
  have hone : point a (b - a) (0 + 1) = a + (b - a) := by rw [point_succ, point_zero]
  rw [hone]
  grind

theorem eq_zero_of_toInt (h : d.toInt32.toInt = 0) : d = 0 := by
  have hint : d.toInt32 = (0 : UInt32).toInt32 := Int32.toInt_inj.mp h
  rw [← UInt32.toUInt32_toInt32 d, hint]
  rfl

/-- A few small steps do not overflow. -/
theorem toInt_steps (h : Half d) {n : Nat} (hn : n ≤ 0x7fff) :
    (UInt32.ofNat n * d).toInt32.toInt = n * d.toInt32.toInt := by
  obtain ⟨hlow, hhigh⟩ := h
  have hmul : (UInt32.ofNat n * d).toInt32 = Int32.ofNat n * d.toInt32 := rfl
  rw [hmul, Int32.toInt_mul, Int32.toInt_ofNat_of_lt (by omega)]
  apply Int.bmod_eq_of_le
  · show -2147483648 ≤ (n : Int) * d.toInt32.toInt
    nlinarith
  · show (n : Int) * d.toInt32.toInt < 2147483648
    nlinarith

/-- Some small steps lead away. -/
theorem point_ne (h : Half d) (hd : d ≠ 0) {i j : Nat} (hij : i < j) (hj : j ≤ 0x7fff) :
    point a d i ≠ point a d j := by
  intro heq
  have hsteps : UInt32.ofNat (j - i) * d = 0 := by
    have hj' : UInt32.ofNat j = UInt32.ofNat i + UInt32.ofNat (j - i) := by
      rw [← UInt32.ofNat_add]
      congr 1
      omega
    rw [point, point, hj'] at heq
    grind
  have hzero : ((j - i : Nat) : Int) * d.toInt32.toInt = 0 := by
    rw [← toInt_steps h (by omega : j - i ≤ 0x7fff), hsteps]
    rfl
  rcases Int.mul_eq_zero.mp hzero with hcount | hstep
  · omega
  · exact hd (eq_zero_of_toInt hstep)

/-- The difference of the ends, one step added, divided by the step. -/
theorem count_points (h : Half d) (hd : d ≠ 0) {n : Nat} (hn : n < 0x7fff) :
    (point a d n).toInt32 - a.toInt32 + d.toInt32 ≠ Int32.minValue ∧
      (((point a d n).toInt32 - a.toInt32 + d.toInt32) / d.toInt32).toInt16.toInt = n + 1 := by
  have hsum : (point a d n).toInt32 - a.toInt32 + d.toInt32 =
      (UInt32.ofNat (n + 1) * d).toInt32 := by
    have hword : point a d n - a + d = UInt32.ofNat (n + 1) * d := by
      rw [point, UInt32.ofNat_add]
      grind
    rw [← hword]
    rfl
  have hint := toInt_steps h (by omega : n + 1 ≤ 0x7fff)
  have hne : d.toInt32.toInt ≠ 0 := fun hzero => hd (eq_zero_of_toInt hzero)
  obtain ⟨hlow, hhigh⟩ := h
  rw [hsum]
  constructor
  · intro hmin
    have hmin' := congrArg Int32.toInt hmin
    rw [hint, Int32.toInt_minValue] at hmin'
    have hbound : (-2147483648 : Int) < ((n + 1 : Nat) : Int) * d.toInt32.toInt := by
      push_cast
      nlinarith
    omega
  · have hcount : (((n + 1 : Nat) : Int).bmod (2 ^ 32)) = ((n + 1 : Nat) : Int) :=
      Int.bmod_eq_of_le (by omega) (by omega)
    rw [Int32.toInt_toInt16, Int32.toInt_div, hint, Int.mul_tdiv_cancel _ hne, hcount,
      Int.bmod_eq_of_le (by omega) (by omega)]
    omega

/-- A small step is not changed by being cut to 16 bits and extended again. -/
theorem extend_small (h : Small d) : d.toUInt16.toInt16.toInt32 = d.toInt32 := by
  obtain ⟨hlow, hhigh⟩ := h
  have hcut : d.toUInt16.toInt16 = d.toInt32.toInt16 := by
    apply Int16.toBitVec_inj.mp
    simp [BitVec.signExtend_eq_setWidth_of_le]
  apply Int32.toInt_inj.mp
  rw [hcut, Int16.toInt_toInt32, Int32.toInt_toInt16]
  apply Int.bmod_eq_of_le <;> omega

/-! ### Two half words in a word -/

theorem high_half (high low : UInt32) :
    (((high <<< 16) ||| (low &&& 0xffff)) >>> 16).toUInt16 = high.toUInt16 := by
  have hmask : ∀ i : Fin 16, (65535#32)[16 + i.val] = false := by decide
  apply UInt16.toBitVec_inj.mp
  ext i hi
  have hlt : 16 + i < 32 := by omega
  have hbit := hmask ⟨i, hi⟩
  simp [hlt, hbit]
  exact (BitVec.getLsbD_eq_getElem (by omega)).symm

theorem low_half (high low : UInt32) :
    (((high <<< 16) ||| (low &&& 0xffff)) &&& 0xffff).toUInt16 = low.toUInt16 := by
  have hmask : ∀ i : Fin 16, (65535#16)[i.val] = true := by decide
  apply UInt16.toBitVec_inj.mp
  ext i hi
  have hbit := hmask ⟨i, hi⟩
  simp only at hbit
  simp [hbit]

end Stride
