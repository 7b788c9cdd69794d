import Mathlib.Algebra.Order.Ring.Int

/-! # Times in seconds and nanoseconds

A time as two signed fields, with the arithmetic that C programs do on it by hand: one
nanosecond more or less with a carry between the fields, the sum of two times, and the
comparison of the nanoseconds as unsigned 64-bit numbers.  A time with both fields zero
often stands for no time at all, so it is tested on the fields.  On valid times the fields
and the nanoseconds say the same. -/

/-- A time in seconds and nanoseconds, the fields as they are. -/
structure Timespec where
  sec : Int
  nsec : Int
deriving DecidableEq, Repr

namespace Timespec

/-- Nanoseconds in a second. -/
abbrev nanoPerSecond : Int := 1000000000

/-- The nanoseconds of a time, as an unsigned 64-bit number. -/
def nanos (t : Timespec) : Nat := ((t.sec * nanoPerSecond + t.nsec) % 2 ^ 64).toNat

/-- Both fields are zero. -/
def isZero (t : Timespec) : Bool := t.sec == 0 && t.nsec == 0

/-- One nanosecond less. -/
def pred (t : Timespec) : Timespec :=
  if 0 < t.nsec then { t with nsec := t.nsec - 1 } else ⟨t.sec - 1, nanoPerSecond - 1⟩

/-- One nanosecond more. -/
def succ (t : Timespec) : Timespec :=
  if nanoPerSecond ≤ t.nsec + 1 then ⟨t.sec + 1, t.nsec + 1 - nanoPerSecond⟩
  else { t with nsec := t.nsec + 1 }

/-- The sum of two times, with at most one carry. -/
def add (t d : Timespec) : Timespec :=
  if nanoPerSecond ≤ t.nsec + d.nsec then
    ⟨t.sec + d.sec + 1, t.nsec + d.nsec - nanoPerSecond⟩
  else ⟨t.sec + d.sec, t.nsec + d.nsec⟩

/-- `a` comes before `b`. -/
def before (a b : Timespec) : Bool := decide (a.nanos < b.nanos)

/-- The nanoseconds of the field are less than a second, and the seconds are those of some
    centuries. -/
structure Valid (t : Timespec) : Prop where
  nsec_nonneg : 0 ≤ t.nsec
  nsec_lt : t.nsec < nanoPerSecond
  sec_nonneg : 0 ≤ t.sec
  sec_lt : t.sec < 2 ^ 33

instance (t : Timespec) : Decidable t.Valid :=
  decidable_of_iff (0 ≤ t.nsec ∧ t.nsec < nanoPerSecond ∧ 0 ≤ t.sec ∧ t.sec < 2 ^ 33)
    ⟨fun ⟨h1, h2, h3, h4⟩ => ⟨h1, h2, h3, h4⟩, fun ⟨h1, h2, h3, h4⟩ => ⟨h1, h2, h3, h4⟩⟩

theorem before_iff {a b : Timespec} : a.before b = true ↔ a.nanos < b.nanos :=
  decide_eq_true_iff

theorem not_before_iff {a b : Timespec} : (!a.before b) = true ↔ b.nanos ≤ a.nanos := by
  simp [before]

theorem Valid.nanos_eq {t : Timespec} (h : t.Valid) :
    (t.nanos : Int) = t.sec * nanoPerSecond + t.nsec := by
  obtain ⟨h1, h2, h3, h4⟩ := h
  simp only [nanos, nanoPerSecond] at *
  omega

theorem Valid.isZero_iff {t : Timespec} (h : t.Valid) : t.isZero = true ↔ t.nanos = 0 := by
  have heq := h.nanos_eq
  obtain ⟨h1, h2, h3, h4⟩ := h
  simp only [isZero, Bool.and_eq_true, beq_iff_eq, nanoPerSecond] at *
  omega

theorem valid_zero : (⟨0, 0⟩ : Timespec).Valid := by decide

theorem eq_of_isZero {t : Timespec} (h : t.isZero = true) : t = ⟨0, 0⟩ := by
  simp only [isZero, Bool.and_eq_true, beq_iff_eq] at h
  cases t
  simpa using h

/-- Before a valid time after zero comes the valid time one nanosecond earlier. -/
theorem Valid.pred {t : Timespec} (h : t.Valid) (hpos : 0 < t.nanos) :
    t.pred.Valid ∧ t.pred.nanos + 1 = t.nanos := by
  have heq := h.nanos_eq
  obtain ⟨h1, h2, h3, h4⟩ := h
  have hvalid : t.pred.Valid := by
    unfold Timespec.pred
    split
    · exact ⟨by show 0 ≤ t.nsec - 1; omega, by show t.nsec - 1 < _; omega, h3, h4⟩
    · have hsec : 0 < t.sec := by
        simp only [nanoPerSecond] at *
        omega
      refine ⟨?_, ?_, ?_, ?_⟩ <;> simp only [nanoPerSecond] <;> omega
  refine ⟨hvalid, ?_⟩
  have heq' := hvalid.nanos_eq
  unfold Timespec.pred at heq' ⊢
  split at heq' <;> simp_all only [nanoPerSecond, if_true, if_false] <;> omega

/-- A time with a proper nanosecond field is one nanosecond before the next one. -/
theorem pred_succ {t : Timespec} (h0 : 0 ≤ t.nsec) (h : t.nsec < nanoPerSecond) :
    t.succ.pred = t := by
  obtain ⟨sec, nsec⟩ := t
  simp only [succ, pred, nanoPerSecond] at *
  split
  · have hcarry : ¬0 < nsec + 1 - 1000000000 := by omega
    rw [if_neg hcarry, Timespec.mk.injEq]
    exact ⟨Int.add_sub_cancel sec 1, by omega⟩
  · have hpos : 0 < nsec + 1 := by omega
    rw [if_pos hpos, Timespec.mk.injEq]
    exact ⟨rfl, Int.add_sub_cancel nsec 1⟩

/-- The sum of two times, as long as it stays in the range of the comparison. -/
theorem Valid.nanos_add {t d : Timespec} (h : t.Valid) (hd : d.Valid) :
    (t.add d).nanos = t.nanos + d.nanos := by
  have heq := h.nanos_eq
  have hdeq := hd.nanos_eq
  obtain ⟨h1, h2, h3, h4⟩ := h
  obtain ⟨d1, d2, d3, d4⟩ := hd
  unfold add
  split <;> simp only [nanos, nanoPerSecond] at * <;> omega

/-! ### The nanoseconds as they are -/

/-- The nanoseconds of a time, as a signed number. -/
def total (t : Timespec) : Int := t.sec * nanoPerSecond + t.nsec

/-- The unsigned number is the same where the time is not negative. -/
theorem nanos_of_nonneg {t : Timespec} (h : 0 ≤ t.total) (hlt : t.total < 2 ^ 64) :
    (t.nanos : Int) = t.total := by
  rw [nanos, ← total]
  omega

/-- A negative time is behind the times of the upper half. -/
theorem nanos_of_neg {t : Timespec} (h : t.total < 0) (hlt : -2 ^ 63 ≤ t.total) :
    2 ^ 63 ≤ t.nanos := by
  rw [nanos, ← total]
  omega

@[simp] theorem total_succ (t : Timespec) : t.succ.total = t.total + 1 := by
  rw [succ]
  split <;> simp only [total, nanoPerSecond] <;> omega

/-- One carry is enough for a nanosecond field of less than two seconds. -/
theorem succ_nsec_lt_iff {t : Timespec} :
    t.succ.nsec < nanoPerSecond ↔ t.nsec < 2 * nanoPerSecond - 1 := by
  rw [succ]
  split <;> simp only [nanoPerSecond] at * <;> omega

theorem succ_nsec_nonneg {t : Timespec} (h : 0 ≤ t.nsec) : 0 ≤ t.succ.nsec := by
  rw [succ]
  split <;> simp only [nanoPerSecond] at * <;> omega

end Timespec
