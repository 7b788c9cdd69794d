import Adara.ForStd.Word32
import Mathlib.Algebra.Order.Ring.Rat
import Mathlib.Algebra.Order.Group.Unbundled.Abs

/-! # Merging the log of a duplicate

`PVInfo::subsumeValues` as a loop over four iterators, with its three comparisons of times.  An
insertion invalidates the iterators into the own buffers, which are made again from an index
kept next to them.  Times are rational numbers here, and the tolerance is a parameter; what is
logged is left out.

An access outside a buffer has no result (`none`). -/

namespace Adara.Native

/-- `approximatelyEqual`, which scales the tolerance. -/
def approximatelyEqual (a b epsilon : ℚ) : Bool :=
  |a - b| ≤ (if |a| < |b| then |b| else |a|) * epsilon

/-- The state of the loop: the own buffers with the positions of `ival` and `itim`, the index,
    and what is left of the duplicate's buffers. -/
structure Subsume (α : Type*) where
  valueBuffer : List α
  timeBuffer : List ℚ
  ival : Nat
  itim : Nat
  index : UInt32
  valuesDup : List α
  timesDup : List ℚ
deriving DecidableEq

namespace Subsume

variable {α : Type*}

def start (values : List α) (times : List ℚ) (valuesDup : List α) (timesDup : List ℚ) :
    Subsume α where
  valueBuffer := values
  timeBuffer := times
  ival := 0
  itim := 0
  index := 0
  valuesDup
  timesDup

/-- `++ival; ++itim; ++index;` -/
def advance (m : Subsume α) : Subsume α :=
  { m with ival := m.ival + 1, itim := m.itim + 1, index := m.index + 1 }

/-- Insert at the iterators. -/
def insert (m : Subsume α) (value : α) (time : ℚ) : Subsume α :=
  { m with
    valueBuffer := m.valueBuffer.insertIdx m.ival value
    timeBuffer := m.timeBuffer.insertIdx m.itim time }

/-- Count an insertion, and make the iterators from the index. -/
def resetIterators (m : Subsume α) : Subsume α :=
  let index := m.index + 1
  { m with index, ival := index.toNat, itim := index.toNat }

/-- One round of the loop. -/
def round (epsilon : ℚ) (valuesEqual : α → α → Bool) (m : Subsume α) : Option (Subsume α) :=
  match m.valuesDup, m.timesDup with
  | valueDup :: valuesDup, timeDup :: timesDup =>
    if m.ival = m.valueBuffer.length then
      let m := m.insert valueDup timeDup
      some { m with
        ival := m.valueBuffer.length, itim := m.timeBuffer.length, valuesDup, timesDup }
    else
      match m.valueBuffer[m.ival]?, m.timeBuffer[m.itim]? with
      | some value, some time =>
        if time < timeDup - epsilon then some m.advance
        else if timeDup < time - epsilon then
          some { (m.insert valueDup timeDup).resetIterators with valuesDup, timesDup }
        else if approximatelyEqual time timeDup epsilon then
          if valuesEqual value valueDup then some { m.advance with valuesDup, timesDup }
          else
            some { (m.advance.insert valueDup timeDup).resetIterators with valuesDup, timesDup }
        else some m
      | _, _ => none
  | _, _ => none

/-- At most so many rounds, as long as there are values of the duplicate. -/
def rounds (epsilon : ℚ) (valuesEqual : α → α → Bool) : Nat → Subsume α → Option (Subsume α)
  | 0, m => some m
  | n + 1, m =>
    if m.valuesDup.isEmpty then some m
    else (m.round epsilon valuesEqual).bind (rounds epsilon valuesEqual n)

/-- The loop ends in a state. -/
def Ends (epsilon : ℚ) (valuesEqual : α → α → Bool) (m m' : Subsume α) : Prop :=
  m'.valuesDup = [] ∧ ∃ n, rounds epsilon valuesEqual n m = some m'

end Subsume

end Adara.Native
