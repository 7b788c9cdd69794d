import Adara.Native.HWSource

/-! # What ending and evicting pulses leaves alone

The operations of a hardware source on its list end pulses and pop them.  None of them
changes what the pulses are (`tags`), what is registered, or how many entries were
created (`SameSource`). -/

namespace Adara.Spec.HWSource

open Adara.Native Adara.Native.HWSource

/-! ### The source itself -/

/-- The same source, but for its list and the calls it made. -/
structure SameSource (s s' : HWSource) : Prop where
  smsId : s'.smsId = s.smsId
  maxPulseSeqList : s'.maxPulseSeqList = s.maxPulseSeqList
  intermittent : s'.intermittent = s.intermittent
  created : s'.created = s.created
  accepted : s'.accepted = s.accepted

theorem SameSource.refl (s : HWSource) : SameSource s s := ⟨rfl, rfl, rfl, rfl, rfl⟩

theorem SameSource.trans {s₁ s₂ s₃ : HWSource} (h : SameSource s₁ s₂) (h' : SameSource s₂ s₃) :
    SameSource s₁ s₃ where
  smsId := h'.smsId.trans h.smsId
  maxPulseSeqList := h'.maxPulseSeqList.trans h.maxPulseSeqList
  intermittent := h'.intermittent.trans h.intermittent
  created := h'.created.trans h.created
  accepted := h'.accepted.trans h.accepted

theorem sameSource_partialPulse (s : HWSource) (i : Nat) : SameSource s (s.partialPulse i) := by
  unfold partialPulse
  split
  · split
    · exact ⟨rfl, rfl, rfl, rfl, rfl⟩
    · exact .refl s
  · exact .refl s

theorem sameSource_completePulse (s : HWSource) (i : Nat) : SameSource s (s.completePulse i) := by
  unfold completePulse
  split
  · split
    · exact ⟨rfl, rfl, rfl, rfl, rfl⟩
    · exact .refl s
  · exact .refl s

theorem sameSource_endOlder (i j : Nat) (s : HWSource) : SameSource s (endOlder i j s) := by
  induction j generalizing s with
  | zero => exact .refl s
  | succ j ih =>
    unfold endOlder
    split
    · exact .refl s
    · exact ((sameSource_partialPulse s _).trans (sameSource_completePulse _ _)).trans (ih _)

theorem sameSource_endPulse (s : HWSource) (i : Nat) (eop : Bool) :
    SameSource s (s.endPulse i eop) := by
  unfold endPulse
  split
  · split
    · exact (sameSource_endOlder i _ s).trans (sameSource_completePulse _ i)
    · exact (sameSource_partialPulse s i).trans (sameSource_completePulse _ i)
  · exact .refl s

theorem sameSource_evictOldest (s : HWSource) : SameSource s s.evictOldest := by
  unfold evictOldest
  split
  · exact .refl s
  · rename_i old _
    have hreset : SameSource s (s.resetLastPulse old) := by
      unfold resetLastPulse
      split <;> exact ⟨rfl, rfl, rfl, rfl, rfl⟩
    have hend := hreset.trans (sameSource_endPulse (s.resetLastPulse old)
      (s.pulseSeqList.length - 1) false)
    exact ⟨hend.smsId, hend.maxPulseSeqList, hend.intermittent, hend.created, hend.accepted⟩

theorem sameSource_evictMany (n : Nat) (s : HWSource) : SameSource s (evictMany n s) := by
  induction n generalizing s with
  | zero => exact .refl s
  | succ n ih => exact (sameSource_evictOldest s).trans (ih _)

/-! ### The list without its bookkeeping -/

/-- An entry without the flag that says whether it has been processed. -/
def bare (e : PulseEntry) : PulseEntry := { e with pulse := { e.pulse with pulseGood := false } }

def bareList (s : HWSource) : List PulseEntry := s.pulseSeqList.map bare

theorem bareList_setGood (s : HWSource) (i : Nat) (good : Bool) :
    bareList (s.setGood i good) = bareList s := by
  apply List.ext_getElem
  · simp [bareList, setGood]
  · intro j h₁ h₂
    simp only [bareList, setGood, List.getElem_map, List.getElem_modify]
    split <;> rfl

theorem bareList_partialPulse (s : HWSource) (i : Nat) :
    bareList (s.partialPulse i) = bareList s := by
  unfold partialPulse
  split
  · split <;> rfl
  · rfl

theorem bareList_completePulse (s : HWSource) (i : Nat) :
    bareList (s.completePulse i) = bareList s := by
  unfold completePulse
  split
  · split
    · exact bareList_setGood _ i false
    · rfl
  · rfl

theorem bareList_endOlder (i j : Nat) (s : HWSource) : bareList (endOlder i j s) = bareList s := by
  induction j generalizing s with
  | zero => rfl
  | succ j ih =>
    unfold endOlder
    split
    · rfl
    · rw [ih, bareList_completePulse, bareList_partialPulse]

/-- Ending a pulse changes no pulse. -/
theorem bareList_endPulse (s : HWSource) (i : Nat) (eop : Bool) :
    bareList (s.endPulse i eop) = bareList s := by
  unfold endPulse
  split
  · split
    · rw [bareList_completePulse, bareList_endOlder]
    · rw [bareList_completePulse, bareList_partialPulse]
  · rfl

/-- An eviction pops the last pulse. -/
theorem bareList_evictOldest (s : HWSource) : bareList s.evictOldest = (bareList s).dropLast := by
  unfold evictOldest
  split
  · rename_i h
    simp [bareList, List.getLast?_eq_none_iff.mp h]
  · rename_i old _
    have hreset : bareList (s.resetLastPulse old) = bareList s := by
      unfold resetLastPulse
      split <;> rfl
    have hend := (bareList_endPulse (s.resetLastPulse old)
      (s.pulseSeqList.length - 1) false).trans hreset
    simp only [bareList, List.map_dropLast] at hend ⊢
    rw [hend]

theorem bareList_evictMany (n : Nat) (s : HWSource) :
    bareList (evictMany n s) = (bareList s).take ((bareList s).length - n) := by
  induction n generalizing s with
  | zero => rw [Nat.sub_zero, List.take_length]; rfl
  | succ n ih =>
    rw [evictMany, ih, bareList_evictOldest, List.length_dropLast, List.dropLast_eq_take,
      List.take_take]
    congr 1
    omega

/-- Keeping the list within its bound keeps the newest pulses. -/
theorem bareList_keepSize (s : HWSource) :
    bareList s.keepSize = (bareList s).take s.maxPulseSeqList.toNat := by
  have hlength : (bareList s).length = s.pulseSeqList.length := List.length_map ..
  rw [keepSize, bareList_evictMany, ← hlength]
  rcases Nat.le_total (bareList s).length s.maxPulseSeqList.toNat with h | h
  · rw [List.take_of_length_le (by omega), List.take_of_length_le h]
  · congr 1
    omega

end Adara.Spec.HWSource
