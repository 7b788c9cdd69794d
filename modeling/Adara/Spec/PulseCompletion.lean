import Adara.ForStd.Runs
import Adara.Spec.HWSource

/-! # Every good pulse is completed once

A pulse that `newPulse` accepts stays good in the list until it is completed, at its own
end of pulse, with a later one, when it is evicted, or when the source leaves.  The
accepted pulses are at any time the completed ones and the good ones in the list, each
once (`Balanced`); leaving empties the list.  An end of pulse completes the good pulses
from the oldest up to its own, in that order (`completed_endPulse`). -/

namespace Adara.Spec.PulseCompletion

open Adara.Native Adara.Native.HWSource Adara.Spec.HWSource

/-! ### Completed pulses and good pulses -/

/-- The pulses a source has called `markComplete` for, in order, with the index it gave. -/
def completed (s : HWSource) : List (PulseRef × Option (Fin 256)) :=
  s.calls.filterMap fun
    | .markComplete ref smsId => some (ref, smsId)
    | _ => none

/-- The good ones of some entries. -/
def goodRefs (l : List PulseEntry) : List PulseRef :=
  (l.filter (·.pulse.pulseGood)).map (·.ref)

/-- What is still to be completed. -/
def openRefs (s : HWSource) : List PulseRef := goodRefs s.pulseSeqList

/-- The pulses with the index they are completed with. -/
def withId (s : HWSource) (refs : List PulseRef) : List (PulseRef × Option (Fin 256)) :=
  refs.map fun ref => (ref, s.smsId)

theorem completed_call (s : HWSource) (c : Call) :
    completed (s.call c) = completed s ++ match c with
      | .markComplete ref smsId => [(ref, smsId)]
      | _ => [] := by
  cases c <;> simp [completed, call]

@[simp] theorem goodRefs_nil : goodRefs [] = [] := rfl

theorem goodRefs_cons (e : PulseEntry) (l : List PulseEntry) :
    goodRefs (e :: l) = if e.pulse.pulseGood then e.ref :: goodRefs l else goodRefs l := by
  by_cases h : e.pulse.pulseGood <;> simp [goodRefs, h]

theorem goodRefs_append (l l' : List PulseEntry) :
    goodRefs (l ++ l') = goodRefs l ++ goodRefs l' := by
  simp [goodRefs]

/-! ### Completing one pulse -/

/-- An entry that has been processed. -/
def processed (e : PulseEntry) : PulseEntry := { e with pulse := { e.pulse with pulseGood := false } }

/-- Completing the pulse at a position: it is the one completed if it was good, and is
    not good any more. -/
theorem completePulse_eq (s : HWSource) {i : Nat} (h : i < s.pulseSeqList.length) :
    (s.completePulse i).pulseSeqList = s.pulseSeqList.modify i processed ∧
      completed (s.completePulse i) =
        completed s ++ withId s (goodRefs [s.pulseSeqList[i]]) := by
  unfold completePulse
  rw [List.getElem?_eq_getElem h]
  by_cases hgood : s.pulseSeqList[i].pulse.pulseGood
  · simp only [hgood, if_true]
    apply And.intro rfl
    show completed (s.call _) = _
    rw [completed_call, goodRefs_cons, if_pos hgood]
    rfl
  · -- processing it again changes nothing
    have hsame : processed s.pulseSeqList[i] = s.pulseSeqList[i] := by
      simp only [processed, ← Bool.eq_false_of_not_eq_true hgood]
    simp only [hgood, Bool.false_eq_true, if_false]
    constructor
    · apply List.ext_getElem
      · simp
      · intro j h₁ h₂
        rw [List.getElem_modify]
        split
        · rename_i hj
          subst hj
          exact hsame.symm
        · rfl
    · rw [goodRefs_cons, if_neg hgood]
      simp [withId]

/-- Marking a pulse partial completes none. -/
theorem partialPulse_eq (s : HWSource) (i : Nat) :
    (s.partialPulse i).pulseSeqList = s.pulseSeqList ∧
      completed (s.partialPulse i) = completed s := by
  unfold partialPulse
  split
  · split
    · apply And.intro rfl
      rw [completed_call, List.append_nil]
    · exact ⟨rfl, rfl⟩
  · exact ⟨rfl, rfl⟩

/-- Both marks, as the loop over older pulses makes them. -/
private theorem partialComplete_eq (s : HWSource) {i : Nat} (h : i < s.pulseSeqList.length) :
    ((s.partialPulse i).completePulse i).pulseSeqList = s.pulseSeqList.modify i processed ∧
      completed ((s.partialPulse i).completePulse i) =
        completed s ++ withId s (goodRefs [s.pulseSeqList[i]]) := by
  obtain ⟨hlist, hcompleted⟩ := partialPulse_eq s i
  have hcomplete := completePulse_eq (s.partialPulse i) (hlist.symm ▸ h)
  have hid : (s.partialPulse i).smsId = s.smsId := (sameSource_partialPulse s i).smsId
  simp only [hlist, hcompleted, withId, hid] at hcomplete
  exact hcomplete

/-! ### An end of pulse -/

/-- The loop over the older pulses completes the good ones among them, oldest first, and
    leaves the pulse at `i` and those before it alone. -/
theorem endOlder_eq {i j : Nat} (hij : i ≤ j) (s : HWSource) (hj : j < s.pulseSeqList.length) :
    completed (endOlder i j s) = completed s ++
        withId s (goodRefs ((s.pulseSeqList.take (j + 1)).drop (i + 1)).reverse) ∧
      ∀ m ≤ i, (endOlder i j s).pulseSeqList[m]? = s.pulseSeqList[m]? := by
  induction j generalizing s with
  | zero =>
    obtain rfl : i = 0 := Nat.le_zero.mp hij
    apply And.intro _ (fun _ _ => rfl)
    rw [List.drop_eq_nil_of_le (by rw [List.length_take]; omega)]
    simp [endOlder, withId]
  | succ j ih =>
    unfold endOlder
    by_cases heq : j + 1 = i
    · rw [if_pos heq]
      apply And.intro _ (fun _ _ => rfl)
      rw [List.drop_eq_nil_of_le (by rw [List.length_take]; omega)]
      simp [withId]
    · rw [if_neg heq]
      obtain ⟨hlist, hcompleted⟩ := partialComplete_eq s hj
      have hid : ((s.partialPulse (j + 1)).completePulse (j + 1)).smsId = s.smsId :=
        ((sameSource_partialPulse s _).trans (sameSource_completePulse _ _)).smsId
      obtain ⟨hrest, hbefore⟩ := ih (by omega) ((s.partialPulse (j + 1)).completePulse (j + 1))
        (by rw [hlist, List.length_modify]; omega)
      constructor
      · -- the pulses before position `j + 1` are those of `s`
        have htake : (s.pulseSeqList.modify (j + 1) processed).take (j + 1) =
            s.pulseSeqList.take (j + 1) := by
          rw [List.modify_eq_take_drop, List.take_left' (by rw [List.length_take]; omega)]
        have hlast : (s.pulseSeqList.take (j + 1 + 1)).drop (i + 1) =
            (s.pulseSeqList.take (j + 1)).drop (i + 1) ++ [s.pulseSeqList[j + 1]] := by
          rw [← List.take_append_getElem hj, List.drop_append_of_le_length
            (by rw [List.length_take]; omega)]
        rw [hrest, hcompleted, hlist, htake, hlast, List.reverse_append, List.reverse_singleton,
          List.singleton_append]
        simp only [withId, hid, goodRefs_cons, List.append_assoc]
        split <;> simp
      · intro m hm
        have hne : j + 1 ≠ m := by omega
        rw [hbefore m hm, hlist, List.getElem?_modify]
        simp [hne]

/-- An end of pulse completes the good pulses from the oldest one up to its own. -/
theorem completed_endPulse (s : HWSource) {i : Nat} (hi : i < s.pulseSeqList.length) :
    completed (s.endPulse i true) = completed s ++
      withId s (goodRefs (s.pulseSeqList.drop i).reverse) := by
  obtain ⟨holder, hbefore⟩ := endOlder_eq (i := i) (j := s.pulseSeqList.length - 1) (by omega) s
    (by omega)
  have hid := (sameSource_endOlder i (s.pulseSeqList.length - 1) s).smsId
  -- the loop leaves the pulse at `i` to the last step
  have hself := hbefore i (Nat.le_refl i)
  rw [List.getElem?_eq_getElem hi, List.getElem?_eq_some_iff] at hself
  obtain ⟨hi', hself⟩ := hself
  have hcomplete := (completePulse_eq _ hi').2
  have hwhole : s.pulseSeqList.length - 1 + 1 = s.pulseSeqList.length := by omega
  unfold endPulse
  rw [if_pos hi, if_pos rfl, hcomplete, holder, hself, hwhole, List.take_length,
    List.drop_eq_getElem_cons hi, List.reverse_cons, goodRefs_append]
  simp [withId, hid]

/-! ### The balance -/

/-- `s'` differs from `s` in what has been completed: what was open in `s` is now open or
    completed, and no pulse has become good. -/
structure Keeps (s s' : HWSource) : Prop where
  source : SameSource s s'
  balance : (completed s' ++ withId s' (openRefs s')).Perm (completed s ++ withId s (openRefs s))
  good : ∀ i, s.good i = false → s'.good i = false

theorem Keeps.refl (s : HWSource) : Keeps s s := ⟨.refl s, List.Perm.refl _, fun _ h => h⟩

theorem Keeps.trans {s₁ s₂ s₃ : HWSource} (h : Keeps s₁ s₂) (h' : Keeps s₂ s₃) : Keeps s₁ s₃ where
  source := h.source.trans h'.source
  balance := h'.balance.trans h.balance
  good := fun i hi => h'.good i (h.good i hi)

/-- The same list, and the same pulses completed. -/
theorem Keeps.of_eq {s s' : HWSource} (hsource : SameSource s s')
    (hlist : s'.pulseSeqList = s.pulseSeqList) (hcompleted : completed s' = completed s) :
    Keeps s s' where
  source := hsource
  balance := by rw [hcompleted, withId, openRefs, hlist, hsource.smsId]; rfl
  good := fun i hi => by simpa only [HWSource.good, hlist] using hi

theorem partialPulse_keeps (s : HWSource) (i : Nat) : Keeps s (s.partialPulse i) :=
  .of_eq (sameSource_partialPulse s i) (partialPulse_eq s i).1 (partialPulse_eq s i).2

/-- Processing an entry takes it out of the open ones. -/
private theorem goodRefs_modify {l : List PulseEntry} {i : Nat} (h : i < l.length) :
    (goodRefs [l[i]] ++ goodRefs (l.modify i processed)).Perm (goodRefs l) := by
  have hmodify : goodRefs (l.modify i processed) =
      goodRefs (l.take i) ++ goodRefs (l.drop (i + 1)) := by
    rw [List.modify_eq_take_cons_drop h, goodRefs_append, goodRefs_cons]
    rfl
  have hsplit : goodRefs l =
      goodRefs (l.take i) ++ (goodRefs [l[i]] ++ goodRefs (l.drop (i + 1))) := by
    rw [← goodRefs_append, List.singleton_append, ← List.drop_eq_getElem_cons h,
      ← goodRefs_append, List.take_append_drop]
  rw [hmodify, hsplit, ← List.append_assoc, ← List.append_assoc]
  exact List.perm_append_comm.append_right _

theorem completePulse_keeps (s : HWSource) (i : Nat) : Keeps s (s.completePulse i) := by
  by_cases hi : i < s.pulseSeqList.length
  · obtain ⟨hlist, hcompleted⟩ := completePulse_eq s hi
    constructor
    · exact sameSource_completePulse s i
    · rw [hcompleted, List.append_assoc]
      apply List.Perm.append_left
      rw [withId, withId, withId, (sameSource_completePulse s i).smsId, ← List.map_append, openRefs,
        hlist]
      exact (goodRefs_modify hi).map _
    · intro j hj
      simp only [HWSource.good, hlist, List.getElem?_modify] at hj ⊢
      cases hget : s.pulseSeqList[j]? with
      | none => simp
      | some e =>
        rw [hget] at hj
        simp only [Option.map_eq_map, Option.map_some, Option.getD_some] at hj ⊢
        split
        · rfl
        · exact hj
  · have hsame : s.completePulse i = s := by
      unfold completePulse
      rw [List.getElem?_eq_none (Nat.not_lt.mp hi)]
    rw [hsame]
    exact .refl s

theorem endOlder_keeps (i j : Nat) (s : HWSource) : Keeps s (endOlder i j s) := by
  induction j generalizing s with
  | zero => exact .refl s
  | succ j ih =>
    unfold endOlder
    split
    · exact .refl s
    · exact ((partialPulse_keeps s _).trans (completePulse_keeps _ _)).trans (ih _)

theorem endPulse_keeps (s : HWSource) (i : Nat) (eop : Bool) : Keeps s (s.endPulse i eop) := by
  unfold endPulse
  split
  · split
    · exact (endOlder_keeps i _ s).trans (completePulse_keeps _ i)
    · exact (partialPulse_keeps s i).trans (completePulse_keeps _ i)
  · exact .refl s

/-- A pulse that has been completed is not good. -/
theorem good_completePulse (s : HWSource) (i : Nat) : (s.completePulse i).good i = false := by
  by_cases hi : i < s.pulseSeqList.length
  · simp only [HWSource.good, (completePulse_eq s hi).1, List.getElem?_modify,
      List.getElem?_eq_getElem hi]
    rfl
  · have hsame : s.completePulse i = s := by
      unfold completePulse
      rw [List.getElem?_eq_none (Nat.not_lt.mp hi)]
    rw [hsame, HWSource.good, List.getElem?_eq_none (Nat.not_lt.mp hi)]
    rfl

/-- So is one that has been ended. -/
theorem good_endPulse (s : HWSource) (i : Nat) (eop : Bool) : (s.endPulse i eop).good i = false := by
  unfold endPulse
  split
  · split
    · exact good_completePulse _ i
    · exact good_completePulse _ i
  · rename_i hi
    rw [HWSource.good, List.getElem?_eq_none (Nat.not_lt.mp hi)]
    rfl

/-! ### Evictions -/

/-- Dropping an entry that is not good changes nothing to be completed. -/
private theorem goodRefs_dropLast {l : List PulseEntry}
    (h : ((l[l.length - 1]?).map (·.pulse.pulseGood)).getD false = false) :
    goodRefs l.dropLast = goodRefs l := by
  rcases List.eq_nil_or_concat l with rfl | ⟨l, e, rfl⟩
  · rfl
  · rw [List.concat_eq_append, List.length_append] at h
    have he : e.pulse.pulseGood = false := by simpa using h
    rw [List.concat_eq_append, List.dropLast_concat, goodRefs_append, goodRefs_cons]
    simp [he]

theorem evictOldest_keeps (s : HWSource) : Keeps s s.evictOldest := by
  have hsource := sameSource_evictOldest s
  cases hlast : s.pulseSeqList.getLast? with
  | none =>
    have hsame : s.evictOldest = s := by simp only [evictOldest, hlast]
    rw [hsame]
    exact .refl s
  | some old =>
    have hreset : Keeps s (s.resetLastPulse old) := by
      unfold resetLastPulse
      split
      · exact .of_eq ⟨rfl, rfl, rfl, rfl, rfl⟩ rfl
          ((completed_call s .resetMaxTime).trans (List.append_nil _))
      · exact .refl s
    have hend := hreset.trans (endPulse_keeps (s.resetLastPulse old)
      (s.pulseSeqList.length - 1) false)
    have hgood := good_endPulse (s.resetLastPulse old) (s.pulseSeqList.length - 1) false
    have hlength : ((s.resetLastPulse old).endPulse (s.pulseSeqList.length - 1) false).pulseSeqList.length =
        s.pulseSeqList.length := by
      have hbare := congrArg List.length (bareList_endPulse (s.resetLastPulse old)
        (s.pulseSeqList.length - 1) false)
      rw [bareList, bareList, List.length_map, List.length_map] at hbare
      rw [hbare]
      unfold resetLastPulse
      split <;> rfl
    have hevict : s.evictOldest =
        { (s.resetLastPulse old).endPulse (s.pulseSeqList.length - 1) false with
          pulseSeqList := ((s.resetLastPulse old).endPulse
            (s.pulseSeqList.length - 1) false).pulseSeqList.dropLast } := by
      simp only [evictOldest, hlast]
    generalize (s.resetLastPulse old).endPulse (s.pulseSeqList.length - 1) false = t at *
    rw [hevict] at hsource ⊢
    constructor
    · exact hsource
    · -- the last pulse has been ended, so nothing is lost with it
      have hopen : goodRefs t.pulseSeqList.dropLast = goodRefs t.pulseSeqList := by
        apply goodRefs_dropLast
        rw [hlength]
        exact hgood
      show (completed t ++ withId t (goodRefs t.pulseSeqList.dropLast)).Perm _
      rw [hopen]
      exact hend.balance
    · intro i hi
      have hti := hend.good i hi
      simp only [HWSource.good, List.getElem?_dropLast] at hti ⊢
      split
      · exact hti
      · rfl

theorem evictMany_keeps (n : Nat) (s : HWSource) : Keeps s (evictMany n s) := by
  induction n generalizing s with
  | zero => exact .refl s
  | succ n ih => exact (evictOldest_keeps s).trans (ih _)

/-! ### One packet -/

/-- A registered source whose accepted pulses are the completed and the good ones. -/
structure Balanced (smsId : Fin 256) (s : HWSource) : Prop where
  smsId_eq : s.smsId = some smsId
  intermittent_eq : s.intermittent = false
  balance : (completed s ++ withId s (openRefs s)).Perm (withId s s.accepted)
  serial_lt : ∀ ref ∈ s.accepted, ref.serial < s.created
  nodup : (s.accepted.map (·.serial)).Nodup

theorem Balanced.keeps {smsId : Fin 256} {s s' : HWSource} (hs : Balanced smsId s)
    (h : Keeps s s') : Balanced smsId s' where
  smsId_eq := h.source.smsId.trans hs.smsId_eq
  intermittent_eq := h.source.intermittent.trans hs.intermittent_eq
  balance := by
    have hid : withId s' s'.accepted = withId s s.accepted := by
      rw [withId, withId, h.source.smsId, h.source.accepted]
    rw [hid]
    exact h.balance.trans hs.balance
  serial_lt := by
    rw [h.source.accepted, h.source.created]
    exact hs.serial_lt
  nodup := by
    rw [h.source.accepted]
    exact hs.nodup

private theorem refreshBound_balanced {smsId : Fin 256} (env : DataEnv) {s : HWSource}
    (hs : Balanced smsId s) : Balanced smsId (s.refreshBound env) := by
  unfold refreshBound
  split
  · exact ⟨hs.smsId_eq, hs.intermittent_eq, hs.balance, hs.serial_lt, hs.nodup⟩
  · exact hs

/-- The position `i` holds an entry that was created last and not accepted yet. -/
structure Newest (s : HWSource) (i : Nat) : Prop where
  good_eq : s.good i = false
  serial_lt : ∀ e, s.pulseSeqList[i]? = some e → e.serial < s.created
  accepted_lt : ∀ e, s.pulseSeqList[i]? = some e → ∀ ref ∈ s.accepted, ref.serial < e.serial

/-- `getPulse` keeps the balance; a new pulse is in front and not good yet. -/
theorem getPulse_balanced {smsId : Fin 256} (env : DataEnv) {s : HWSource} (pkt : RawDataPkt)
    (hs : Balanced smsId s) :
    Balanced smsId (getPulse env s pkt).1 ∧
      ((getPulse env s pkt).2.2 = true →
        Newest (getPulse env s pkt).1 (getPulse env s pkt).2.1) := by
  simp only [getPulse]
  split
  · exact ⟨hs, fun h => nomatch h⟩
  · rename_i dupCount _
    generalize hp : { invariantsOf pkt with dupCount } = p
    have hgood : p.pulseGood = false := hp ▸ rfl
    have hpush : Balanced smsId (s.pushPulse p) := by
      constructor
      · exact hs.smsId_eq
      · exact hs.intermittent_eq
      · show (completed s ++ withId s (goodRefs (⟨s.created, p, 0⟩ :: s.pulseSeqList))).Perm _
        rw [goodRefs_cons, if_neg (by simp [hgood])]
        exact hs.balance
      · exact fun ref href => Nat.lt_succ_of_lt (hs.serial_lt ref href)
      · exact hs.nodup
    have hrefresh := refreshBound_balanced env hpush
    have hlist : ((s.pushPulse p).refreshBound env).pulseSeqList =
        ⟨s.created, p, 0⟩ :: s.pulseSeqList := by
      unfold refreshBound
      split <;> rfl
    have hcreated : ((s.pushPulse p).refreshBound env).created = s.created + 1 ∧
        ((s.pushPulse p).refreshBound env).accepted = s.accepted := by
      unfold refreshBound
      split <;> exact ⟨rfl, rfl⟩
    generalize (s.pushPulse p).refreshBound env = t at hrefresh hlist hcreated ⊢
    have hkeeps := evictMany_keeps (t.pulseSeqList.length - t.maxPulseSeqList.toNat) t
    apply And.intro (hrefresh.keeps hkeeps)
    intro _
    -- what is left at the front is the entry pushed there
    have hfront : ∀ e, t.keepSize.pulseSeqList[0]? = some e → e.serial = s.created := by
      intro e he
      have hbare := bareList_keepSize t
      have hget := congrArg (·[0]?) hbare
      simp only [bareList, List.getElem?_map, he, Option.map_some, List.getElem?_take, hlist,
        List.map_cons, List.getElem?_cons_zero] at hget
      split at hget
      · exact congrArg PulseEntry.serial (Option.some.inj hget)
      · cases hget
    constructor
    · apply hkeeps.good 0
      simp only [HWSource.good, hlist, List.getElem?_cons_zero, Option.map_some, hgood,
        Option.getD_some]
    · intro e he
      rw [hfront e he]
      show s.created < (evictMany _ t).created
      rw [hkeeps.source.created, hcreated.1]
      exact Nat.lt_succ_self _
    · intro e he ref href
      rw [hfront e he]
      have : (evictMany _ t).accepted = s.accepted := hkeeps.source.accepted.trans hcreated.2
      exact hs.serial_lt ref (this ▸ href)

/-- `newPulse` accepts the newest entry, or leaves everything as it is. -/
theorem newPulse_balanced {smsId : Fin 256} (env : DataEnv) {s : HWSource} (pkt : RawDataPkt)
    {i : Nat} (hs : Balanced smsId s) (hnewest : Newest s i) :
    Balanced smsId (newPulse env s pkt i) := by
  by_cases hi : i < s.pulseSeqList.length
  · have hget := List.getElem?_eq_getElem hi
    have hbad : s.pulseSeqList[i].pulse.pulseGood = false := by
      have := hnewest.good_eq
      simpa only [HWSource.good, hget, Option.map_some, Option.getD_some] using this
    have hlength : i < (s.setGood i (pulseTimeGood env.now pkt.pulseId)).pulseSeqList.length := by
      simpa [setGood] using hi
    have hentry : (s.setGood i (pulseTimeGood env.now pkt.pulseId)).pulseSeqList[i] =
        { s.pulseSeqList[i] with
          pulse := { s.pulseSeqList[i].pulse with
            pulseGood := pulseTimeGood env.now pkt.pulseId } } := by
      simp [setGood]
    have hrestore : (s.setGood i (pulseTimeGood env.now pkt.pulseId)).pulseSeqList.modify i
        processed = s.pulseSeqList := by
      apply List.ext_getElem
      · simp [setGood]
      · intro j h₁ h₂
        rw [List.getElem_modify]
        simp only [setGood, List.getElem_modify]
        split
        · rename_i hj
          subst hj
          simp only [processed, ← hbad]
        · rfl
    have hperm := goodRefs_modify hlength
    rw [hrestore, hentry] at hperm
    simp only [newPulse, List.getElem?_eq_getElem hlength, hentry]
    cases hgood : pulseTimeGood env.now pkt.pulseId with
    | true =>
      rw [hgood] at hperm
      -- the accepted entry is one more open pulse
      rw [goodRefs_cons, if_pos rfl] at hperm
      have hkey : (PulseEntry.ref { s.pulseSeqList[i] with
          pulse := { s.pulseSeqList[i].pulse with pulseGood := true } }) =
          s.pulseSeqList[i].ref := rfl
      rw [hkey] at hperm
      constructor
      · exact hs.smsId_eq
      · exact hs.intermittent_eq
      · show (completed s ++ withId s (goodRefs (s.setGood i true).pulseSeqList)).Perm
          (withId s (s.accepted ++ [s.pulseSeqList[i].ref]))
        have hopen : (withId s (goodRefs (s.setGood i true).pulseSeqList)).Perm
            (withId s (openRefs s) ++ withId s [s.pulseSeqList[i].ref]) := by
          rw [withId, withId, withId, ← List.map_append]
          exact (hperm.symm.trans List.perm_append_comm).map _
        have happend : withId s (s.accepted ++ [s.pulseSeqList[i].ref]) =
            withId s s.accepted ++ withId s [s.pulseSeqList[i].ref] := List.map_append
        rw [happend]
        apply (hopen.append_left _).trans
        rw [← List.append_assoc]
        exact hs.balance.append_right _
      · intro ref href
        rcases List.mem_append.mp href with href | href
        · exact hs.serial_lt ref href
        · rw [List.mem_singleton.mp href]
          exact hnewest.serial_lt _ hget
      · show ((s.accepted ++ [s.pulseSeqList[i].ref]).map (·.serial)).Nodup
        rw [List.map_append, List.map_singleton, List.nodup_append']
        apply And.intro hs.nodup
        apply And.intro (List.nodup_singleton _)
        intro n hn hn'
        obtain ⟨ref, href, rfl⟩ := List.mem_map.mp hn
        have := hnewest.accepted_lt _ hget ref href
        rw [List.mem_singleton.mp hn'] at this
        exact Nat.lt_irrefl _ this
    | false =>
      rw [hgood] at hperm hrestore
      rw [goodRefs_cons, if_neg (by simp), goodRefs_nil, List.nil_append] at hperm
      constructor
      · exact hs.smsId_eq
      · exact hs.intermittent_eq
      · show (completed s ++ withId s (goodRefs (s.setGood i false).pulseSeqList)).Perm _
        exact ((hperm.symm.map _).append_left _).trans hs.balance
      · exact hs.serial_lt
      · exact hs.nodup
  · have hnone : (s.setGood i (pulseTimeGood env.now pkt.pulseId)).pulseSeqList[i]? = none := by
      apply List.getElem?_eq_none
      simpa [setGood] using hi
    have hlist : (s.setGood i (pulseTimeGood env.now pkt.pulseId)).pulseSeqList =
        s.pulseSeqList := List.modify_eq_self (Nat.not_lt.mp hi)
    simp only [newPulse, hnone]
    constructor
    · exact hs.smsId_eq
    · exact hs.intermittent_eq
    · show (completed s ++ withId s (goodRefs (s.setGood i _).pulseSeqList)).Perm _
      rw [hlist]
      exact hs.balance
    · exact hs.serial_lt
    · exact hs.nodup

/-- Counting packets of an entry keeps what it stands for. -/
private theorem goodRefs_modify_seq (l : List PulseEntry) (i : Nat) (f : UInt32 → UInt32) :
    goodRefs (l.modify i fun e => { e with seq := f e.seq }) = goodRefs l := by
  by_cases hi : i < l.length
  · rw [List.modify_eq_take_cons_drop hi, goodRefs_append, goodRefs_cons]
    conv_rhs => rw [← List.take_append_drop i l, List.drop_eq_getElem_cons hi, goodRefs_append,
      goodRefs_cons]
    rfl
  · rw [List.modify_eq_self (Nat.not_lt.mp hi)]

private theorem checkPulseSeq_balanced {smsId : Fin 256} {s : HWSource} (pkt : RawDataPkt) (i : Nat)
    (hs : Balanced smsId s) : Balanced smsId (s.checkPulseSeq pkt i).1 := by
  unfold checkPulseSeq
  split
  · constructor
    · exact hs.smsId_eq
    · exact hs.intermittent_eq
    · show (completed s ++ withId s (goodRefs (s.pulseSeqList.modify i _))).Perm _
      rw [goodRefs_modify_seq s.pulseSeqList i fun seq => (seq + 1) % 0x8000]
      exact hs.balance
    · exact hs.serial_lt
    · exact hs.nodup
  · exact hs

/-- A call that completes no pulse. -/
private theorem call_balanced {smsId : Fin 256} {s : HWSource} (c : Call)
    (hc : ∀ ref k, c ≠ .markComplete ref k) (hs : Balanced smsId s) : Balanced smsId (s.call c) := by
  have hcompleted : completed (s.call c) = completed s := by
    rw [completed_call]
    cases c with
    | markComplete ref k => exact absurd rfl (hc ref k)
    | _ => exact List.append_nil _
  exact hs.keeps (.of_eq ⟨rfl, rfl, rfl, rfl, rfl⟩ rfl hcompleted)

private theorem passEvents_balanced {smsId : Fin 256} (env : DataEnv) {s : HWSource}
    (pkt : RawDataPkt) (isMapped : Bool) (i : Nat) (ok : Bool) (hs : Balanced smsId s) :
    Balanced smsId (s.passEvents env pkt isMapped i ok) := by
  cases hget : s.pulseSeqList[i]? with
  | none =>
    simp only [passEvents, hget]
    exact hs
  | some e =>
    by_cases hgood : e.pulse.pulseGood
    · have hpass := call_balanced (.pulseEvents e.ref pkt s.hwId isMapped env.mixedDataPackets)
        (fun _ _ h => nomatch h) hs
      simp only [passEvents, hget, hgood, if_true]
      cases env.checkPulseSequence with
      | true =>
        have hcheck := checkPulseSeq_balanced pkt i hpass
        simp only [if_true]
        split
        · exact call_balanced _ (fun _ _ h => nomatch h) hcheck
        · exact hcheck
      | false =>
        simp only [Bool.false_eq_true, if_false]
        split
        · exact call_balanced _ (fun _ _ h => nomatch h) hpass
        · exact hpass
    · simp only [passEvents, hget, if_neg hgood]
      exact hs

private theorem processPulse_balanced {smsId : Fin 256} (env : DataEnv) {s : HWSource}
    (pkt : RawDataPkt) (isMapped : Bool) {i : Nat} {isNewPulse : Bool} (ok : Bool)
    (hs : Balanced smsId s) (hnew : isNewPulse = true → Newest s i) :
    Balanced smsId (s.processPulse env pkt isMapped i isNewPulse ok) := by
  have hgood : Balanced smsId (if isNewPulse then s.newPulse env pkt i else s) := by
    split
    · rename_i h
      exact newPulse_balanced env pkt hs (hnew h)
    · exact hs
  have hpass := passEvents_balanced env pkt isMapped i ok hgood
  simp only [processPulse]
  split
  · exact hpass.keeps (endPulse_keeps _ i true)
  · exact hpass

/-- A packet keeps the balance. -/
theorem handleDataPkt_balanced {smsId : Fin 256} (env : DataEnv) {s : HWSource} (pkt : RawDataPkt)
    (isMapped : Bool) (hs : Balanced smsId s) :
    Balanced smsId (s.handleDataPkt env pkt isMapped) := by
  obtain ⟨hget, hnew⟩ := getPulse_balanced env pkt hs
  simp only [handleDataPkt]
  generalize getPulse env s pkt = r at hget hnew ⊢
  obtain ⟨t, i, isNewPulse⟩ := r
  simp only at hget hnew ⊢
  -- checking the source sequence touches neither the list nor the calls
  have hcheck : Balanced smsId (if env.checkSourceSequence then t.checkSourceSeq pkt
        else (t, true)).1 ∧
      (isNewPulse = true → Newest (if env.checkSourceSequence then t.checkSourceSeq pkt
        else (t, true)).1 i) := by
    unfold checkSourceSeq
    split
    · split
      · exact ⟨⟨hget.1, hget.2, hget.3, hget.4, hget.5⟩,
          fun h => ⟨(hnew h).1, (hnew h).2, (hnew h).3⟩⟩
      · exact ⟨⟨hget.1, hget.2, hget.3, hget.4, hget.5⟩,
          fun h => ⟨(hnew h).1, (hnew h).2, (hnew h).3⟩⟩
    · exact ⟨hget, hnew⟩
  generalize (if env.checkSourceSequence then t.checkSourceSeq pkt else (t, true)) = c at hcheck ⊢
  obtain ⟨u, ok⟩ := c
  simp only at hcheck ⊢
  rw [hcheck.1.intermittent_eq]
  exact processPulse_balanced env pkt isMapped ok hcheck.1 hcheck.2

/-! ### Leaving -/

private theorem endAll_keeps (j : Nat) (s : HWSource) : Keeps s (endAll j s) := by
  induction j generalizing s with
  | zero => exact .refl s
  | succ j ih => exact (endPulse_keeps s j false).trans (ih _)

/-- Ending every pulse leaves none good. -/
private theorem good_endAll {i j : Nat} (hij : i < j) (s : HWSource) :
    (endAll j s).good i = false := by
  induction j generalizing s with
  | zero => exact absurd hij (Nat.not_lt_zero i)
  | succ j ih =>
    rcases Nat.lt_succ_iff_lt_or_eq.mp hij with hlt | rfl
    · exact ih hlt _
    · exact (endAll_keeps i (s.endPulse i false)).good i (good_endPulse s i false)

private theorem openRefs_eq_nil {s : HWSource} (h : ∀ i, s.good i = false) : openRefs s = [] := by
  rw [openRefs, goodRefs, List.map_eq_nil_iff, List.filter_eq_nil_iff]
  intro e he
  obtain ⟨i, hi, rfl⟩ := List.getElem_of_mem he
  have := h i
  rw [HWSource.good, List.getElem?_eq_getElem hi] at this
  simpa using this

/-- A source that leaves has completed every pulse it accepted. -/
theorem completed_unregister {smsId : Fin 256} {s : HWSource} (hs : Balanced smsId s) :
    (completed s.unregister).Perm (s.accepted.map fun ref => (ref, some smsId)) ∧
      s.unregister.accepted = s.accepted := by
  have hkeeps := endAll_keeps s.pulseSeqList.length s
  have hnone : openRefs (endAll s.pulseSeqList.length s) = [] := by
    apply openRefs_eq_nil
    intro i
    by_cases hi : i < s.pulseSeqList.length
    · exact good_endAll hi s
    · apply hkeeps.good i
      rw [HWSource.good, List.getElem?_eq_none (Nat.not_lt.mp hi)]
      rfl
  have hbalance := (hs.keeps hkeeps).balance
  rw [hnone, withId, withId, List.map_nil, List.append_nil, hkeeps.source.accepted,
    hkeeps.source.smsId, hs.smsId_eq] at hbalance
  simp only [unregister, hs.smsId_eq]
  constructor
  · rw [completed_call, List.append_nil]
    exact hbalance
  · exact hkeeps.source.accepted

/-! ### Runs -/

inductive Op where
  | handleDataPkt (env : DataEnv) (pkt : RawDataPkt) (isMapped : Bool)
  | setIntermittent (env : DataEnv) (intermittent : Bool)

def step (s : HWSource) : Op → Option HWSource
  | .handleDataPkt env pkt isMapped => some (s.handleDataPkt env pkt isMapped)
  | .setIntermittent env intermittent => some (s.setIntermittent env intermittent)

private theorem balanced_run {smsId : Fin 256} {s s' : HWSource} {ops : List Op}
    (hs : Balanced smsId s) (hnever : ∀ env b, .setIntermittent env b ∉ ops)
    (h : Runs.run step s ops = some s') : Balanced smsId s' := by
  induction ops generalizing s with
  | nil => exact Option.some.inj h ▸ hs
  | cons op ops ih =>
    obtain ⟨t, ht, hrest⟩ := Runs.run_cons h
    apply ih _ (fun env b hmem => hnever env b (List.mem_cons_of_mem _ hmem)) hrest
    cases op with
    | handleDataPkt env pkt isMapped =>
      cases ht
      exact handleDataPkt_balanced env pkt isMapped hs
    | setIntermittent env b => exact absurd (List.mem_cons_self ..) (hnever env b)

/-- A source that is never marked intermittent completes every pulse it accepted as good
    exactly once by the time it has left, with its own index, and no other pulse.  An end
    of pulse completes the good pulses at or behind its own in the list, oldest first. -/
theorem completed_once (hwId : UInt32) (smsId : Fin 256) (maxPulseSeqList : UInt32)
    (ops : List Op) (s : HWSource)
    (h : Runs.run step (HWSource.new hwId smsId maxPulseSeqList) ops = some s)
    (hnever : ∀ env b, .setIntermittent env b ∉ ops) :
    (completed s.unregister).Perm (s.unregister.accepted.map fun ref => (ref, some smsId)) ∧
      (s.unregister.accepted.map (·.serial)).Nodup ∧
      ∀ (t : HWSource) (i : Nat), i < t.pulseSeqList.length →
        completed (t.endPulse i true) = completed t ++
          ((t.pulseSeqList.drop i).filter (·.pulse.pulseGood)).reverse.map
            fun e => (e.ref, t.smsId) := by
  have hnew : Balanced smsId (HWSource.new hwId smsId maxPulseSeqList) :=
    ⟨rfl, rfl, List.Perm.refl _, fun _ h => absurd h List.not_mem_nil, List.nodup_nil⟩
  have hs := balanced_run hnew hnever h
  obtain ⟨hcompleted, haccepted⟩ := completed_unregister hs
  rw [haccepted]
  apply And.intro hcompleted
  apply And.intro hs.nodup
  intro t i hi
  rw [completed_endPulse t hi, withId, goodRefs, List.filter_reverse, List.map_map]
  rfl

/-- A packet that ends its pulse. -/
def lastPacket : RawDataPkt where
  version := 0
  pulseId := 0x2000000000000000
  fields := [1, 0x80000000, 0, 0, 0, 0]
  six_le := Nat.le_refl 6

/-- A packet that leaves its pulse open. -/
def openPacket : RawDataPkt where
  version := 0
  pulseId := 0x2000000100000000
  fields := [1, 0, 0, 0, 0, 0]
  six_le := Nat.le_refl 6

def trustingEnv : DataEnv where
  refreshMax := false
  maxPulseSeqList := 2
  now := 1500000000
  checkSourceSequence := false
  checkPulseSequence := false
  mixedDataPackets := false
  ignoreEoP := false
  intermittentDataThreshold := 0
  registered := 0

/-- One pulse is completed at its end, one when the source leaves. -/
theorem completed_once_two :
    let s := ((HWSource.new 1 0 2).handleDataPkt trustingEnv lastPacket false).handleDataPkt
      trustingEnv openPacket false
    (completed s.unregister).Perm (s.unregister.accepted.map fun ref => (ref, some 0)) ∧
      s.unregister.accepted.length = 2 := by
  apply And.intro _ (by decide)
  exact (completed_once 1 0 2
    [.handleDataPkt trustingEnv lastPacket false, .handleDataPkt trustingEnv openPacket false] _ rfl
    (fun env b h => by simp at h)).1

end Adara.Spec.PulseCompletion
