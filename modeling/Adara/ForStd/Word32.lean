import Mathlib.Algebra.Order.Ring.Int

/-! # Unsigned 32-bit words

Arithmetic of unsigned 32-bit integers on `Nat`, with every reduction modulo
`2 ^ 32` written out, and the little-endian layout of a word in four bytes.
Where no operand leaves the word range the `_of_lt` and `_of_le` lemmas drop the
reduction; everywhere else the wrapped value stays visible. -/

namespace Word32

/-- The number of values of a word. -/
abbrev modulus : Nat := 2 ^ 32

/-- Unsigned addition. -/
def add (a b : Nat) : Nat := (a + b) % modulus

/-- Unsigned subtraction: `a - b` when `b ≤ a`, and otherwise the wrapped
    difference. -/
def sub (a b : Nat) : Nat := (a + (modulus - b % modulus)) % modulus

/-- Unsigned multiplication. -/
def mul (a b : Nat) : Nat := (a * b) % modulus

/-- The signed number with the same bits. -/
def toInt (a : Nat) : Int := if a < 2 ^ 31 then a else (a : Int) - modulus

theorem add_lt (a b : Nat) : add a b < modulus := Nat.mod_lt _ (by decide)

theorem sub_lt (a b : Nat) : sub a b < modulus := Nat.mod_lt _ (by decide)

theorem mul_lt (a b : Nat) : mul a b < modulus := Nat.mod_lt _ (by decide)

/-- A sum that fits in a word is not reduced. -/
theorem add_of_lt {a b : Nat} (h : a + b < modulus) : add a b = a + b :=
  Nat.mod_eq_of_lt h

/-- A product that fits in a word is not reduced. -/
theorem mul_of_lt {a b : Nat} (h : a * b < modulus) : mul a b = a * b :=
  Nat.mod_eq_of_lt h

/-- A difference that does not go below zero is not reduced. -/
theorem sub_of_le {a b : Nat} (hb : b ≤ a) (ha : a < modulus) : sub a b = a - b := by
  unfold sub
  rw [Nat.mod_eq_of_lt (by omega : b < modulus)]
  have h : a + (modulus - b) = (a - b) + modulus := by omega
  rw [h, Nat.add_mod_right, Nat.mod_eq_of_lt (by omega)]

/-! ### Words in memory -/

/-- The `i`-th word of a byte string, low byte first.  Bytes past the end read as
    zero. -/
def ofBytes (bytes : List UInt8) (i : Nat) : Nat :=
  (bytes.getD (4 * i) 0).toNat + 256 * (bytes.getD (4 * i + 1) 0).toNat +
    65536 * (bytes.getD (4 * i + 2) 0).toNat + 16777216 * (bytes.getD (4 * i + 3) 0).toNat

/-- Four bytes never make more than a word. -/
theorem ofBytes_lt (bytes : List UInt8) (i : Nat) : ofBytes bytes i < modulus := by
  have hb : ∀ b : UInt8, b.toNat < 256 := fun b => UInt8.toNat_lt b
  have h0 := hb (bytes.getD (4 * i) 0)
  have h1 := hb (bytes.getD (4 * i + 1) 0)
  have h2 := hb (bytes.getD (4 * i + 2) 0)
  have h3 := hb (bytes.getD (4 * i + 3) 0)
  simp only [ofBytes, modulus]
  omega

/-- A word is read from its own four bytes: what follows them does not matter. -/
theorem ofBytes_append {xs : List UInt8} (ys : List UInt8) {i : Nat}
    (h : 4 * i + 3 < xs.length) : ofBytes (xs ++ ys) i = ofBytes xs i := by
  have hget : ∀ j, j < xs.length → (xs ++ ys).getD j 0 = xs.getD j 0 := fun j hj => by
    simp [List.getD_eq_getElem?_getD, List.getElem?_append_left hj]
  simp only [ofBytes]
  rw [hget _ (by omega), hget _ (by omega), hget _ (by omega), hget _ h]

end Word32

/-! ### The order of words -/

instance instLinearOrderUInt32 : LinearOrder UInt32 where
  le_refl := UInt32.le_refl
  le_trans := fun _ _ _ => UInt32.le_trans
  lt_iff_le_not_ge := fun a b => by
    rw [UInt32.le_iff_toNat_le, UInt32.lt_iff_toNat_lt, UInt32.le_iff_toNat_le]
    omega
  le_antisymm := fun _ _ => UInt32.le_antisymm
  le_total := UInt32.le_total
  toDecidableLE := fun _ _ => inferInstance
  toDecidableLT := fun _ _ => inferInstance

instance instLinearOrderUInt64 : LinearOrder UInt64 where
  le_refl := UInt64.le_refl
  le_trans := fun _ _ _ => UInt64.le_trans
  lt_iff_le_not_ge := fun a b => by
    rw [UInt64.le_iff_toNat_le, UInt64.lt_iff_toNat_lt, UInt64.le_iff_toNat_le]
    omega
  le_antisymm := fun _ _ => UInt64.le_antisymm
  le_total := UInt64.le_total
  toDecidableLE := fun _ _ => inferInstance
  toDecidableLT := fun _ _ => inferInstance

/-- The two halves of a 64-bit word are words. -/
theorem UInt64.halves_lt (w : UInt64) :
    (w >>> 32).toNat < 2 ^ 32 ∧ (w &&& 0xffffffff).toNat < 2 ^ 32 := by
  constructor
  · have := w.toNat_lt
    rw [UInt64.toNat_shiftRight, show (32 : UInt64).toNat % 64 = 32 from rfl,
      Nat.shiftRight_eq_div_pow]
    omega
  · rw [UInt64.toNat_and]
    exact Nat.and_lt_two_pow _ (by decide)
