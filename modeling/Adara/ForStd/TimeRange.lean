import Adara.ForStd.Timeline
import Adara.ForStd.Timespec

/-! # Ranges of times

A range from a first time to a last one, where a last time of zero stands for none.  It is a
period of nanoseconds. -/

namespace Timespec

structure Range where
  first : Timespec
  last : Timespec
deriving DecidableEq, Repr

namespace Range

/-- The time is in the range. -/
def holds (r : Range) (ts : Timespec) : Bool :=
  !ts.before r.first && (r.last.isZero || !r.last.before ts)

/-- The range ended a timeout ago. -/
def expired (r : Range) (now timeout : Timespec) : Bool :=
  !r.last.isZero && !now.before (r.last.add timeout)

def period (r : Range) : Period :=
  ⟨r.first.nanos, if r.last.isZero then none else some r.last.nanos⟩

theorem holds_iff {r : Range} {ts : Timespec} :
    r.holds ts = true ↔ r.period.Holds ts.nanos := by
  simp only [holds, period, Period.Holds, Bool.and_eq_true, Bool.or_eq_true, not_before_iff]
  refine and_congr_right fun _ => ?_
  cases r.last.isZero <;> simp

theorem expired_iff {r : Range} {now timeout : Timespec} (htimeout : timeout.Valid)
    (hlast : r.last.Valid) {e : Nat} (he : r.period.hi = some e) :
    (!r.expired now timeout) = decide (now.nanos < e + timeout.nanos) := by
  simp only [period] at he
  split at he
  · cases he
  · rename_i hzero
    obtain rfl := Option.some.inj he
    simp [expired, hzero, before, hlast.nanos_add htimeout]

/-- A range without an end is a period that is not over. -/
theorem period_zero (first : Timespec) :
    (Range.mk first ⟨0, 0⟩).period = ⟨first.nanos, none⟩ := rfl

/-- A range that ends right before a time is over by then. -/
theorem period_pred {t : Timespec} (ht : t.Valid) (hpos : 1 < t.nanos) (first : Timespec) :
    t.pred.Valid ∧ t.pred.nanos + 1 = t.nanos ∧
      (Range.mk first t.pred).period = ⟨first.nanos, some t.pred.nanos⟩ := by
  obtain ⟨hvalid, hpred⟩ := ht.pred (by omega)
  have hzero : t.pred.isZero = false := by
    rw [Bool.eq_false_iff, Ne, hvalid.isZero_iff]
    omega
  exact ⟨hvalid, hpred, by simp [period, hzero]⟩

end Range

end Timespec
