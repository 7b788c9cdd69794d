import Adara.Spec.PulseFlags
import Adara.Spec.Release
import Adara.Spec.PulseCache

/-! # What `markComplete` records

A source that completes a pulse gives up on all pulses before it.  Of the buffer, everything up
to the last pulse that is complete then is recorded, but for the pulses held back at the end of
the buffer (`completeCurrent_rule`).  Looking the pulse up may create it, and creating it may
flush a buffer that has grown too large: what the flush records comes on top of the rule. -/

namespace Adara.Spec.PulseBuffer

open Adara.Native Adara.Native.SMSControl

/-! ### The rule -/

/-- With `i` cleared, the pulse is pending on no source. -/
def CompleteFor (i : Fin 256) (e : PulseIdentifier × Node) : Prop :=
  e.2.pulse.pending.erase i = ∅

/-- The greatest pulse at or before `pid` that is complete once `i` is cleared. -/
structure IsLast (entries : List (PulseIdentifier × Node)) (pid : PulseIdentifier) (i : Fin 256)
    (last : PulseIdentifier) : Prop where
  complete : ∃ e ∈ entries, e.1 = last ∧ last ≤ pid ∧ CompleteFor i e
  greatest : ∀ e ∈ entries, e.1 ≤ pid → CompleteFor i e → e.1 ≤ last

/-- The pulses passed to `recordPulse`, as they were recorded. -/
def recordedEntries (S : SMSControl) : List (PulseIdentifier × Node) :=
  S.history.recordings.flatMap (·.recorded)

/-- The rule for a source `i` that completes the pulse `pid` of the buffer of `B`, with `hold`
    pulses held back: `n` pulses are recorded, those not after the last complete one and not
    among the last `hold`. -/
structure Rule (pid : PulseIdentifier) (i : Fin 256) (hold : Nat) (B S' : SMSControl)
    (n : Nat) (new : List (PulseIdentifier × Node)) : Prop where
  counted : ∀ j (hj : j < B.pulses.entries.length),
    j < n ↔ j + hold < B.pulses.entries.length ∧
      ∃ last, IsLast B.pulses.entries pid i last ∧ B.pulses.entries[j].1 ≤ last
  recorded : recordedEntries S' = recordedEntries B ++ new
  inOrder : new.map ident = (B.pulses.entries.take n).map ident
  erased : S'.pulses.entries.map ident = (B.pulses.entries.drop n).map ident
  givenUp : ∀ e ∈ B.pulses.entries, e.1 < pid → i ∈ e.2.pulse.pending →
    ∀ e' ∈ new ++ S'.pulses.entries, ident e' = ident e →
      e'.2.pulse.hasFlag PulseFlags.partialData = true
  later : ∀ e ∈ B.pulses.entries, pid < e.1 → e ∈ S'.pulses.entries
  cleared : ∀ e ∈ S'.pulses.entries, e.1 ≤ pid → i ∉ e.2.pulse.pending

/-! ### What is recorded -/

/-- Outside the overflow path, a prefix is recorded without another change to the buffer; a
    partial pulse is recorded as one. -/
theorem recordPrefix_entries (cfg : Config) (env : Env) {n : Nat} (S : SMSControl)
    (hn : n ≤ S.pulses.entries.length) :
    ∃ new, recordedEntries (recordPrefix cfg env false n S) = recordedEntries S ++ new ∧
      new.map ident = (S.pulses.entries.take n).map ident ∧
      ∀ e ∈ S.pulses.entries, e.2.pulse.hasFlag PulseFlags.partialData = true →
        ∀ e' ∈ new, ident e' = ident e → e'.2.pulse.hasFlag PulseFlags.partialData = true := by
  refine ⟨_, by simp only [recordedEntries, recordPrefix, List.flatMap_append,
    List.flatMap_singleton]; rfl, recordLoop_recorded .., ?_⟩
  intro e he hpartial e' he' hident
  obtain ⟨j, hj, rfl⟩ := List.mem_iff_getElem.mp he'
  have hjn : j < n := by
    rw [length_recordLoop] at hj
    omega
  have hrecorded := getElem?_recordLoop cfg env S.settings false hjn S.record S.lastPid
    S.pulses.entries
  rw [List.getElem?_eq_getElem hj,
    List.getElem?_eq_getElem (show j < S.pulses.entries.length by omega), Option.map_some,
    Option.some_inj] at hrecorded
  -- the entry that was recorded is `e`
  have hkey : S.pulses.entries[j].1 = e.1 := by
    have := congrArg Prod.fst hident
    rwa [hrecorded] at this
  have hentry : S.pulses.entries[j] = e :=
    SortedMap.eq_of_key_eq S.pulses.sorted (List.getElem_mem _) he hkey
  rw [hrecorded, hentry]
  exact hasFlag_asRecorded_of cfg S.settings false _ (by decide) (by decide) hpartial

/-! ### The last complete pulse -/

section Complete

variable {B : SMSControl} {pid : PulseIdentifier} {i : Fin 256}

/-- What completing `pid` for `i` makes of an entry. -/
def completed (pid : PulseIdentifier) (i : Fin 256) (e : PulseIdentifier × Node) :
    PulseIdentifier × Node :=
  (e.1, if e.1 < pid then { e.2 with pulse := e.2.pulse.releasePartial i }
    else if e.1 = pid then
      { e.2 with pulse := { e.2.pulse with pending := e.2.pulse.pending.erase i } }
    else e.2)

theorem entries_completeFor (B : SMSControl) (pid : PulseIdentifier) (i : Fin 256) :
    (completeFor B pid (some i)).pulses.entries = B.pulses.entries.map (completed pid i) :=
  SortedMap.entries_mapVal ..

@[simp] theorem completed_fst (e : PulseIdentifier × Node) : (completed pid i e).1 = e.1 := rfl

@[simp] theorem ident_completed (e : PulseIdentifier × Node) :
    ident (completed pid i e) = ident e := by
  simp only [ident, completed]
  split
  · rfl
  · split <;> rfl

theorem pending_completed {e : PulseIdentifier × Node} (h : e.1 ≤ pid) :
    (completed pid i e).2.pulse.pending = e.2.pulse.pending.erase i := by
  simp only [completed]
  split
  · rw [Pulse.pending_releasePartial]
  · rename_i hlt
    rw [if_pos (h.eq_of_not_lt hlt)]

theorem completed_of_gt {e : PulseIdentifier × Node} (h : pid < e.1) : completed pid i e = e := by
  simp only [completed, if_neg h.not_gt, if_neg h.ne']

/-- The buffer in front of a pulse, the pulse, and the buffer behind it. -/
theorem entries_split {n : Node} (hfound : B.pulses.find? pid = some n) :
    ∃ before after, B.pulses.entries = before ++ (pid, n) :: after ∧
      (∀ e ∈ before, e.1 < pid) ∧ ∀ e ∈ after, pid < e.1 := by
  obtain ⟨before, after, hsplit⟩ := List.append_of_mem (SortedMap.find?_eq_some.mp hfound)
  have hsorted := B.pulses.sorted
  rw [hsplit, List.pairwise_append, List.pairwise_cons] at hsorted
  exact ⟨before, after, hsplit, fun e he => hsorted.2.2 e he _ List.mem_cons_self, hsorted.2.1.1⟩

/-- What is looked at, when `pid` is completed for `i`. -/
theorem lastToRecord_eq {n : Node} {before after : List (PulseIdentifier × Node)}
    (hsplit : B.pulses.entries = before ++ (pid, n) :: after) (hbefore : ∀ e ∈ before, e.1 < pid) :
    lastToRecord (completeFor B pid (some i)) pid (some i) =
      if n.pulse.pending.erase i = ∅ then some before.length
      else lastComplete (before.map (completed pid i)) := by
  have hentries := entries_completeFor B pid i
  rw [hsplit, List.map_append, List.map_cons] at hentries
  have htake : (completeFor B pid (some i)).pulses.entries.takeWhile (·.1 < pid) =
      before.map (completed pid i) := by
    rw [hentries, List.takeWhile_append_of_pos, List.takeWhile_cons_of_neg, List.append_nil]
    · simp
    · intro e he
      obtain ⟨e', he', rfl⟩ := List.mem_map.mp he
      exact decide_eq_true (hbefore e' he')
  have hfind : (completeFor B pid (some i)).pulses.find? pid = some (completed pid i (pid, n)).2 := by
    rw [SortedMap.find?_eq_some, hentries]
    exact List.mem_append_right _ List.mem_cons_self
  simp only [lastToRecord, htake, hfind, Option.isSome_some, if_true, List.length_map]
  rw [pending_completed (le_refl pid)]

/-- The source looks for the last pulse that is complete, up to its own. -/
theorem lastToRecord_spec {n : Node} (hfound : B.pulses.find? pid = some n) :
    match lastToRecord (completeFor B pid (some i)) pid (some i) with
    | none => ∀ e ∈ B.pulses.entries, e.1 ≤ pid → ¬ CompleteFor i e
    | some last => ∃ h : last < B.pulses.entries.length,
        IsLast B.pulses.entries pid i B.pulses.entries[last].1 := by
  obtain ⟨before, after, hsplit, hbefore, hafter⟩ := entries_split hfound
  rw [lastToRecord_eq hsplit hbefore]
  -- an entry up to `pid` is in front of it, or its own
  have hcases : ∀ e ∈ B.pulses.entries, e.1 ≤ pid → e ∈ before ∨ e = (pid, n) := by
    intro e he hle
    rw [hsplit] at he
    obtain he | he := List.mem_append.mp he
    · exact .inl he
    · obtain rfl | he := List.mem_cons.mp he
      · exact .inr rfl
      · exact absurd (hafter e he) hle.not_gt
  by_cases hown : n.pulse.pending.erase i = ∅
  · rw [if_pos hown]
    have hlt : before.length < B.pulses.entries.length := by simp [hsplit]
    have hentry : B.pulses.entries[before.length] = (pid, n) := by simp [hsplit]
    refine ⟨hlt, ⟨(pid, n), hentry ▸ List.getElem_mem hlt, by rw [hentry], by rw [hentry], hown⟩, ?_⟩
    intro e _ hle _
    rw [hentry]
    exact hle
  · rw [if_neg hown]
    cases hlast : lastComplete (before.map (completed pid i)) with
    | none =>
      rw [lastComplete_eq_none] at hlast
      intro e he hle hcomplete
      obtain he | rfl := hcases e he hle
      · apply hlast _ (List.mem_map_of_mem he)
        rw [pending_completed hle]
        exact hcomplete
      · exact hown hcomplete
    | some last =>
      obtain ⟨hlt, hcomplete, hgreatest⟩ := lastComplete_eq_some.mp hlast
      rw [List.length_map] at hlt
      have hle : ∀ q (hq : q < before.length), before[q].1 ≤ pid := fun q hq =>
        (hbefore _ (List.getElem_mem hq)).le
      rw [List.getElem_map, pending_completed (hle last hlt)] at hcomplete
      have hlt' : last < B.pulses.entries.length := by
        simp only [hsplit, List.length_append]
        omega
      have hentry : B.pulses.entries[last] = before[last] := by
        simp only [hsplit, List.getElem_append_left hlt]
      refine ⟨hlt', ⟨before[last], hentry ▸ List.getElem_mem hlt', by rw [hentry],
        hentry ▸ hle last hlt, hcomplete⟩, ?_⟩
      intro e he hle' hcomplete'
      obtain he | rfl := hcases e he hle'
      · obtain ⟨q, hq, rfl⟩ := List.mem_iff_getElem.mp he
        rw [hentry]
        by_cases hql : last < q
        · have := hgreatest q hql (by rwa [List.length_map])
          rw [List.getElem_map, pending_completed (hle q hq)] at this
          exact absurd hcomplete' this
        · -- an entry in front of the last complete one
          obtain heq | hlt'' := Nat.eq_or_lt_of_le (Nat.not_lt.mp hql)
          · exact le_of_eq (congrArg (fun e : PulseIdentifier × Node => e.1) (by simp [heq]))
          · have hsorted := B.pulses.sorted
            rw [hsplit, List.pairwise_append] at hsorted
            exact (List.pairwise_iff_getElem.mp hsorted.1 q last hq hlt hlt'').le
      · exact absurd hcomplete' hown

/-! ### The walk back -/

/-- The number of pulses that are recorded. -/
def recordCount (size hold : Nat) : Option Nat → Nat
  | none => 0
  | some last => if hold < size then min (last + 1) (size - hold) else 0

/-- Taking over settings leaves the buffer alone, and what was recorded. -/
structure SameRecord (S T : SMSControl) : Prop where
  pulses : T.pulses = S.pulses
  recordings : T.history.recordings = S.history.recordings

theorem recordCompleted_eq (cfg : Config) (env : Env) {S : SMSControl} {last : Nat}
    (hlast : last < S.pulses.size) :
    ∃ T, SameRecord S T ∧
      let S' := recordCompleted cfg env S last
      let n := recordCount S.pulses.size S'.settings.noEoPPulseBufferSize (some last)
      (n = 0 ∧ S' = T) ∨ S' = recordPrefix cfg env false n T := by
  simp only [recordCompleted]
  generalize hT : (if S.markCompleteCnt % 600 = 0 then takeNoEoP env S else S) = T
  have hsame : SameRecord S T := by
    subst hT
    split <;> exact ⟨rfl, rfl⟩
  have hhold := holdBack_eq T.pulses.size T.settings.noEoPPulseBufferSize
    (show 0 < T.pulses.size by rw [hsame.pulses]; omega)
    (show last ≤ T.pulses.size - 1 - 0 by rw [hsame.pulses]; omega)
  rw [Nat.zero_add] at hhold
  rw [hhold, hsame.pulses]
  by_cases hroom : T.settings.noEoPPulseBufferSize < S.pulses.size
  · rw [if_pos hroom]
    generalize hU : (if S.markCompleteCnt % 600 = 0 then takeCorrections env T else T) = U
    have hsame' : SameRecord T U ∧
        U.settings.noEoPPulseBufferSize = T.settings.noEoPPulseBufferSize := by
      subst hU
      split <;> exact ⟨⟨rfl, rfl⟩, rfl⟩
    refine ⟨U, ⟨hsame'.1.pulses.trans hsame.pulses, hsame'.1.recordings.trans hsame.recordings⟩,
      .inr ?_⟩
    have hsettings : (recordPrefix cfg env false
        (min last (S.pulses.size - 1 - T.settings.noEoPPulseBufferSize) + 1)
        U).settings.noEoPPulseBufferSize = T.settings.noEoPPulseBufferSize := hsame'.2
    have hcount : min last (S.pulses.size - 1 - T.settings.noEoPPulseBufferSize) + 1 =
        min (last + 1) (S.pulses.size - T.settings.noEoPPulseBufferSize) := by omega
    dsimp only
    rw [hsettings, recordCount, if_pos hroom, hcount]
  · rw [if_neg hroom]
    exact ⟨T, hsame, .inl ⟨if_neg hroom, rfl⟩⟩

/-- What completing a pulse does, in terms of the number of pulses it records. -/
structure Completed (pid : PulseIdentifier) (i : Fin 256) (B S' : SMSControl) (n : Nat)
    (new : List (PulseIdentifier × Node)) : Prop where
  recorded : recordedEntries S' = recordedEntries B ++ new
  inOrder : new.map ident = (B.pulses.entries.take n).map ident
  entries : S'.pulses.entries = (B.pulses.entries.map (completed pid i)).drop n
  flagged : ∀ e ∈ B.pulses.entries.map (completed pid i),
    e.2.pulse.hasFlag PulseFlags.partialData = true →
    ∀ e' ∈ new, ident e' = ident e → e'.2.pulse.hasFlag PulseFlags.partialData = true

theorem Completed.of_same {T : SMSControl} (h : SameRecord (completeFor B pid (some i)) T) :
    Completed pid i B T 0 [] where
  recorded := by
    rw [recordedEntries, h.recordings, List.append_nil]
    rfl
  inOrder := rfl
  entries := by rw [h.pulses, entries_completeFor, List.drop_zero]
  flagged := nofun

theorem Completed.of_recordPrefix (cfg : Config) (env : Env) {T : SMSControl} {n : Nat}
    (h : SameRecord (completeFor B pid (some i)) T) (hn : n ≤ B.pulses.entries.length) :
    ∃ new, Completed pid i B (recordPrefix cfg env false n T) n new := by
  have hentries : T.pulses.entries = B.pulses.entries.map (completed pid i) := by
    rw [h.pulses, entries_completeFor]
  obtain ⟨new, hrecorded, hinOrder, hflagged⟩ := recordPrefix_entries cfg env T
    (show n ≤ T.pulses.entries.length by rwa [hentries, List.length_map])
  refine ⟨new, ?_, ?_, ?_, ?_⟩
  · rw [hrecorded, recordedEntries, h.recordings]
    rfl
  · rw [hinOrder, hentries, ← List.map_take, List.map_map]
    exact List.map_congr_left fun e _ => ident_completed e
  · rw [(recordPrefix_recorded cfg env false n T).pulses, SortedMap.entries_drop, hentries]
  · rwa [hentries] at hflagged

theorem completeCurrent_completed (cfg : Config) (env : Env) {n : Node}
    (hfound : B.pulses.find? pid = some n) :
    let S' := completeCurrent cfg env B pid (some i)
    ∃ new, Completed pid i B S'
      (recordCount B.pulses.size S'.settings.noEoPPulseBufferSize
        (lastToRecord (completeFor B pid (some i)) pid (some i))) new := by
  have hspec := lastToRecord_spec (i := i) hfound
  have hsize : (completeFor B pid (some i)).pulses.size = B.pulses.size := SortedMap.size_mapVal ..
  simp only [completeCurrent]
  cases hlast : lastToRecord (completeFor B pid (some i)) pid (some i) with
  | none => exact ⟨[], .of_same ⟨rfl, rfl⟩⟩
  | some last =>
    rw [hlast] at hspec
    obtain ⟨hlt, -⟩ := hspec
    have hlt' : last < (completeFor B pid (some i)).pulses.size := by
      rw [hsize]
      exact hlt
    obtain ⟨T, hsame, hend⟩ := recordCompleted_eq cfg env hlt'
    dsimp only at hend ⊢
    rw [hsize] at hend
    generalize hcount : recordCount B.pulses.size
      (recordCompleted cfg env (completeFor B pid (some i)) last).settings.noEoPPulseBufferSize
      (some last) = count at hend ⊢
    obtain ⟨hzero, hT⟩ | hrecord := hend
    · rw [hzero, hT]
      exact ⟨[], .of_same hsame⟩
    · rw [hrecord]
      refine Completed.of_recordPrefix cfg env hsame ?_
      rw [← hcount, recordCount]
      split
      · exact (Nat.min_le_left _ _).trans hlt
      · exact Nat.zero_le _

/-- The pulses counted are those up to the last complete one, but for those held back. -/
theorem lt_recordCount {hold : Nat} {last : Option Nat}
    (hlast : match last with
      | none => ∀ e ∈ B.pulses.entries, e.1 ≤ pid → ¬ CompleteFor i e
      | some last => ∃ h : last < B.pulses.entries.length,
          IsLast B.pulses.entries pid i B.pulses.entries[last].1)
    {j : Nat} (hj : j < B.pulses.entries.length) :
    j < recordCount B.pulses.size hold last ↔ j + hold < B.pulses.entries.length ∧
      ∃ k, IsLast B.pulses.entries pid i k ∧ B.pulses.entries[j].1 ≤ k := by
  cases last with
  | none =>
    refine iff_of_false (Nat.not_lt_zero j) ?_
    rintro ⟨-, k, ⟨⟨e, he, rfl, hle, hcomplete⟩, -⟩, -⟩
    exact hlast e he hle hcomplete
  | some last =>
    obtain ⟨hlt, hIsLast⟩ := hlast
    have hbehind : (∃ k, IsLast B.pulses.entries pid i k ∧ B.pulses.entries[j].1 ≤ k) ↔ j ≤ last := by
      constructor
      · rintro ⟨k, ⟨⟨e, he, rfl, hle, hcomplete⟩, -⟩, hjk⟩
        by_contra hlater
        have hsorted := List.pairwise_iff_getElem.mp B.pulses.sorted last j hlt hj (by omega)
        exact (hjk.trans (hIsLast.greatest e he hle hcomplete)).not_gt hsorted
      · intro hle
        refine ⟨_, hIsLast, ?_⟩
        obtain rfl | hlt' := Nat.eq_or_lt_of_le hle
        · exact le_refl _
        · exact (List.pairwise_iff_getElem.mp B.pulses.sorted j last hj hlt hlt').le
    have hsize : B.pulses.size = B.pulses.entries.length := rfl
    rw [hbehind, recordCount, hsize]
    split <;> omega

/-- The rule, from the point where the pulse has been looked up. -/
theorem completeCurrent_rule (cfg : Config) (env : Env) {n : Node}
    (hfound : B.pulses.find? pid = some n) :
    ∃ count new, Rule pid i
      (completeCurrent cfg env B pid (some i)).settings.noEoPPulseBufferSize B
      (completeCurrent cfg env B pid (some i)) count new := by
  obtain ⟨new, h⟩ := completeCurrent_completed (i := i) cfg env hfound
  refine ⟨_, new, fun j hj => lt_recordCount (lastToRecord_spec hfound) hj, h.recorded, h.inOrder,
    ?_, ?_, ?_, ?_⟩
  · rw [h.entries, ← List.map_drop, List.map_map]
    exact List.map_congr_left fun e _ => ident_completed e
  · intro e he hlt hpending e' he' hident
    have hpartial : (completed pid i e).2.pulse.hasFlag PulseFlags.partialData = true := by
      simp only [completed, if_pos hlt]
      exact hasFlag_releasePartial hpending
    have hmem : completed pid i e ∈ B.pulses.entries.map (completed pid i) := List.mem_map_of_mem he
    obtain he' | he' := List.mem_append.mp he'
    · exact h.flagged _ hmem hpartial e' he' (hident.trans (ident_completed e).symm)
    · rw [h.entries] at he'
      obtain ⟨e'', he'', rfl⟩ := List.mem_map.mp (List.mem_of_mem_drop he')
      rw [ident_completed] at hident
      have hkey : e''.1 = e.1 := (Prod.ext_iff.mp hident).1
      obtain rfl := SortedMap.eq_of_key_eq B.pulses.sorted he'' he hkey
      exact hpartial
  · intro e he hgt
    obtain ⟨j, hj, rfl⟩ := List.mem_iff_getElem.mp he
    rw [h.entries, List.mem_drop_iff_getElem]
    -- a pulse behind `pid` is not counted
    have hkept : ¬ j < recordCount B.pulses.size
        (completeCurrent cfg env B pid (some i)).settings.noEoPPulseBufferSize
        (lastToRecord (completeFor B pid (some i)) pid (some i)) := by
      intro hcounted
      obtain ⟨-, k, ⟨⟨_, _, rfl, hk, _⟩, _⟩, hjk⟩ :=
        (lt_recordCount (lastToRecord_spec hfound) hj).mp hcounted
      exact (hjk.trans hk).not_gt hgt
    refine ⟨j - recordCount B.pulses.size
      (completeCurrent cfg env B pid (some i)).settings.noEoPPulseBufferSize
      (lastToRecord (completeFor B pid (some i)) pid (some i)), ?_, ?_⟩
    · rw [List.length_map]
      omega
    · simp only [List.getElem_map, Nat.add_sub_cancel' (Nat.not_lt.mp hkept)]
      exact completed_of_gt hgt
  · intro e he hle
    rw [h.entries] at he
    obtain ⟨e', he', rfl⟩ := List.mem_map.mp (List.mem_of_mem_drop he)
    have hle' : e'.1 ≤ pid := hle
    rw [pending_completed hle']
    exact Finset.notMem_erase i _

end Complete

/-! ### Looking up the pulse -/

/-- Nodes have numbers of their own, and the cached iterator, where it points to an entry, points
    to the one with the cached identifier. -/
structure IteratorsSound (S : SMSControl) : Prop where
  distinct : ∀ e ∈ S.pulses.entries, ∀ e' ∈ S.pulses.entries, e.2.serial = e'.2.serial → e.1 = e'.1
  numbered : ∀ e ∈ S.pulses.entries, e.2.serial < S.history.created.length
  cached : ∀ e ∈ S.pulses.entries, S.lastPulseIt = some e.2.serial → e.1 = S.lastPid

/-- The number of pulses that creating a pulse flushes. -/
def overflowCount (env : Env) (S : SMSControl) : Nat :=
  let cnt := Word32.add S.getPulseCnt 1
  let maxBuffer :=
    if cnt % 3600 = 0 then env.maxPulseBufferSize else S.settings.maxPulseBufferSize
  if cnt % 60 = 0 ∧ maxBuffer < S.pulses.size then (S.pulses.size - maxBuffer + 1) % 2 ^ 32 else 0

/-- `B` is `S` with the pulse `pid` looked up.  A pulse that is not in the buffer is created,
    pending on the registered sources, and before that the overflow is recorded. -/
structure LookedUp (env : Env) (S : SMSControl) (pid : PulseIdentifier) (B : SMSControl) : Prop where
  found : pid ∈ S.pulses.keys → B.pulses = S.pulses ∧ recordedEntries B = recordedEntries S
  created : pid ∉ S.pulses.keys → ∃ node flushed,
    B.pulses = (S.pulses.drop (overflowCount env S)).insert pid node ∧
    node.pulse.pending = S.eventSources ∧
    recordedEntries B = recordedEntries S ++ flushed ∧
    flushed.map ident = (S.pulses.entries.take (overflowCount env S)).map ident

section Lookup

variable {cfg : Config} {env : Env} {S B : SMSControl} {pid : PulseIdentifier}

theorem IteratorsSound.deref {serial : Nat} {e : PulseIdentifier × Node}
    (h : S.deref (some serial) = some e) : e ∈ S.pulses.entries ∧ e.2.serial = serial := by
  have hfind : S.pulses.entries.find? (fun e => e.2.serial = serial) = some e := h
  exact ⟨List.mem_of_find?_eq_some hfind, by simpa using List.find?_some hfind⟩

/-- Creating a pulse records the overflow and inserts the pulse. -/
theorem createPulse_spec (cfg : Config) (env : Env) (S : SMSControl) (pid : PulseIdentifier) :
    ∃ T flushed p, createPulse cfg env S pid = insertPulse T pid p ∧
      T.pulses = S.pulses.drop (overflowCount env S) ∧ T.history.created = S.history.created ∧
      p.pending = S.eventSources ∧ recordedEntries T = recordedEntries S ++ flushed ∧
      flushed.map ident = (S.pulses.entries.take (overflowCount env S)).map ident := by
  have hpending : (newPulse (countPulse S pid) pid).pending = S.eventSources := by
    simp only [newPulse, Pulse.setFlagIf]
    split <;> rfl
  have hnone : S.pulses.drop 0 = S.pulses := SortedMap.ext (List.drop_zero ..)
  -- the buffer is looked after on every 60th pulse only
  by_cases hcheck : (countPulse S pid).getPulseCnt % 60 = 0
  · have hcreate : createPulse cfg env S pid =
        insertPulse (flushOverflow cfg env (countPulse S pid)) pid (newPulse (countPulse S pid) pid) := by
      simp only [createPulse, if_pos hcheck]
    rw [hcreate]
    simp only [flushOverflow]
    -- whether or not the size was taken anew, the pulses and the history are those of `S`
    generalize hT : (if (countPulse S pid).getPulseCnt % 3600 = 0 then
      takeMaxBuffer env (countPulse S pid) else countPulse S pid) = T
    have hsame : T.pulses = S.pulses ∧ T.history = S.history ∧ T.settings.maxPulseBufferSize =
        if (countPulse S pid).getPulseCnt % 3600 = 0 then env.maxPulseBufferSize
        else S.settings.maxPulseBufferSize := by
      subst hT
      split <;> exact ⟨rfl, rfl, rfl⟩
    have hcount : overflowCount env S = if T.settings.maxPulseBufferSize < T.pulses.size then
        (T.pulses.size - T.settings.maxPulseBufferSize + 1) % 2 ^ 32 else 0 := by
      have hcheck' : Word32.add S.getPulseCnt 1 % 60 = 0 := hcheck
      rw [hsame.1, hsame.2.2]
      simp only [overflowCount, hcheck', true_and]
      rfl
    split
    -- the pulses recorded on the overflow are a prefix of the buffer
    · rename_i hoverflow
      rw [if_pos hoverflow] at hcount
      have hrec := recordPrefix_recorded cfg env true (overflowCount env S) (takeCorrections env T)
      rw [← hcount]
      obtain ⟨rec, hrecordings, -, hident⟩ := hrec.recordings
      refine ⟨_, rec.recorded, _, rfl, ?_, ?_, hpending, ?_, ?_⟩
      · rw [hrec.pulses]
        exact congrArg (fun m => SortedMap.drop m (overflowCount env S)) hsame.1
      · rw [hrec.created]
        exact congrArg History.created hsame.2.1
      · rw [recordedEntries, hrecordings, List.flatMap_append, List.flatMap_singleton]
        exact congrArg (fun h : History => h.recordings.flatMap (·.recorded) ++ rec.recorded) hsame.2.1
      · rw [hident]
        exact congrArg (fun m : PulseMap => (m.entries.take (overflowCount env S)).map ident) hsame.1
    · rename_i hroom
      rw [if_neg hroom] at hcount
      rw [hcount, hnone]
      refine ⟨T, [], _, rfl, hsame.1, congrArg History.created hsame.2.1, hpending, ?_, rfl⟩
      rw [List.append_nil]
      exact congrArg (fun h : History => h.recordings.flatMap (·.recorded)) hsame.2.1
  · have hcount : overflowCount env S = 0 := if_neg fun h => hcheck h.1
    have hcreate : createPulse cfg env S pid =
        insertPulse (countPulse S pid) pid (newPulse (countPulse S pid) pid) := by
      simp only [createPulse, if_neg hcheck]
    rw [hcount, hnone]
    exact ⟨_, [], _, hcreate, rfl, rfl, hpending, (List.append_nil _).symm, rfl⟩

/-- Looking up a pulse ends at its entry. -/
theorem lookup_spec {k : PulseIdentifier} {n : Node} (hS : IteratorsSound S)
    (h : lookup cfg env S pid = some (B, k, n)) :
    k = pid ∧ B.pulses.find? pid = some n ∧ LookedUp env S pid B := by
  obtain ⟨hB, hderef, hfound⟩ := lookup_eq_some h
  suffices hkey : k = pid ∧ LookedUp env S pid B from ⟨hkey.1, hkey.1 ▸ hfound, hkey.2⟩
  unfold getPulse at hB hderef
  split at hB
  · -- the cached iterator
    rename_i hlast
    subst hB
    rw [if_pos hlast] at hderef
    obtain ⟨serial, hserial, -⟩ := Option.bind_eq_some_iff.mp hderef
    dsimp only at hserial
    rw [hserial] at hderef
    obtain ⟨hmem, hnumber⟩ := IteratorsSound.deref hderef
    have hk : k = pid :=
      (hS.cached (k, n) hmem (hserial.trans (congrArg some hnumber.symm))).trans hlast.symm
    refine ⟨hk, fun _ => ⟨rfl, rfl⟩, fun hnot => absurd ?_ hnot⟩
    exact hk ▸ List.mem_map_of_mem hmem
  · rename_i hlast
    rw [if_neg hlast] at hderef
    split at hB
    · rename_i m hm
      simp only [hm] at hderef
      subst hB
      obtain ⟨hmem, hnumber⟩ := IteratorsSound.deref hderef
      have hentry := SortedMap.find?_eq_some.mp hm
      refine ⟨hS.distinct (k, n) hmem (pid, m) hentry hnumber, fun _ => ⟨rfl, rfl⟩,
        fun hnot => absurd ?_ hnot⟩
      exact List.mem_map_of_mem hentry
    · rename_i hnone
      simp only [hnone] at hderef
      obtain ⟨T, flushed, p, hcreate, hpulses, hcreated, hpending, hrecorded, hident⟩ :=
        createPulse_spec cfg env S pid
      rw [hcreate] at hB hderef
      subst hB
      rw [SortedMap.find?_eq_none] at hnone
      have hsub : ∀ e ∈ T.pulses.entries, e ∈ S.pulses.entries := by
        rw [hpulses]
        exact fun e he => List.mem_of_mem_drop he
      have hfresh : T.pulses.find? pid = none := by
        rw [SortedMap.find?_eq_none]
        intro hmem
        obtain ⟨e, he, hkey⟩ := List.mem_map.mp hmem
        exact hnone (hkey ▸ List.mem_map_of_mem (hsub e he))
      refine ⟨?_, fun hmem => absurd hmem hnone, fun _ =>
        ⟨⟨T.history.created.length, p⟩, flushed, ?_, hpending, hrecorded, hident⟩⟩
      · -- the number of the new node is its own
        obtain ⟨hmem, hnumber⟩ := IteratorsSound.deref hderef
        obtain heq | hold := (SortedMap.mem_insert hfresh).mp hmem
        · exact congrArg Prod.fst heq
        · have hlt := hS.numbered (k, n) (hsub _ hold)
          rw [hnumber, hcreated] at hlt
          exact absurd hlt (Nat.lt_irrefl _)
      · exact congrArg (fun m => SortedMap.insert m pid ⟨T.history.created.length, p⟩) hpulses

end Lookup

/-! ### Iterators in a run -/

/-- The cached iterator, where it points to an entry, points to the one with the cached
    identifier. -/
def CacheLeads (S : SMSControl) : Prop :=
  ∀ e ∈ S.pulses.entries, S.lastPulseIt = some e.2.serial → e.1 = S.lastPid

theorem Conserved.eq_of_serial {S : SMSControl} (hS : Conserved S) {e e' : PulseIdentifier × Node}
    (he : e ∈ S.pulses.entries) (he' : e' ∈ S.pulses.entries) (h : e.2.serial = e'.2.serial) :
    e.1 = e'.1 := by
  have hcreated := hS.created_serial (SortedMap.find?_eq_some.mpr he)
  rw [h, hS.created_serial (SortedMap.find?_eq_some.mpr he')] at hcreated
  exact (Option.some.inj hcreated).symm

theorem Conserved.serial_lt {S : SMSControl} (hS : Conserved S) {e : PulseIdentifier × Node}
    (he : e ∈ S.pulses.entries) : e.2.serial < S.history.created.length :=
  (List.getElem?_eq_some_iff.mp (hS.created_serial (SortedMap.find?_eq_some.mpr he))).1

theorem CacheLeads.move {cfg : Config} {S S' : SMSControl} (h : Move cfg S S') (hS : Conserved S)
    (hcache : CacheLeads S) : CacheLeads S' := by
  intro e he hit
  cases h with
  | data h =>
    obtain ⟨f, hf, hserial, -⟩ := h.pulses
    rw [hf, SortedMap.entries_mapVal] at he
    obtain ⟨e', he', rfl⟩ := List.mem_map.mp he
    rw [h.lastPid]
    rw [h.lastPulseIt, hserial] at hit
    exact hcache e' he' hit
  | record env n =>
    have hrec := recordPrefix_recorded cfg env false n S
    rw [hrec.pulses, SortedMap.entries_drop] at he
    rw [hrec.lastPulseIt] at hit
    have hkey := hcache e (List.mem_of_mem_drop he) hit
    rw [recordPrefix_lastPid, if_neg, hkey]
    -- the cached entry is not one of the first `n`
    intro hmem
    have hnodup := S.pulses.keys_nodup
    rw [SortedMap.keys, ← List.take_append_drop n S.pulses.entries, List.map_append,
      List.nodup_append] at hnodup
    exact hnodup.2.2 _ hmem _ (List.mem_map_of_mem he) hkey.symm
  | create env pid hfresh =>
    obtain ⟨S₁, p, hflush, hcreate, -⟩ := createPulse_eq cfg env S pid
    rw [hcreate] at he hit ⊢
    obtain rfl | hold := (SortedMap.mem_insert (hflush.fresh hfresh)).mp he
    · rfl
    · have hlt := (hflush.conserved hS).serial_lt hold
      rw [← Option.some.inj hit] at hlt
      exact absurd hlt (Nat.lt_irrefl _)
  | hit pid n hfound =>
    exact hS.eq_of_serial he (SortedMap.find?_eq_some.mp hfound) (Option.some.inj hit).symm
  | pop pulseIndex =>
    obtain h | ⟨i, hi, h⟩ := popPulseBuffer_cases S pulseIndex
    · rw [h] at he hit ⊢
      exact hcache e he hit
    · rw [h] at he hit ⊢
      dsimp only at he hit ⊢
      have hkey := hcache e (List.mem_of_mem_eraseIdx he) hit
      rw [if_neg, hkey]
      intro hpopped
      have hnodup := S.pulses.keys_nodup
      rw [SortedMap.keys, ← ((List.getElem_cons_eraseIdx_perm hi).map Prod.fst).nodup_iff,
        List.map_cons, List.nodup_cons] at hnodup
      exact hnodup.1 (hpopped.trans hkey.symm ▸ List.mem_map_of_mem he)
  | register srcId i hreg =>
    unfold registerEventSource at hreg
    split at hreg
    · cases hreg
    · cases hreg
      exact hcache e he hit
  | free i hreleased => exact hcache e he hit

/-- The iterators are sound in every state of a run. -/
theorem iteratorsSound_run {cfg : Config} {settings : Settings} {noRTDLPulses : Bool}
    {memory : Fin 256 → Nat} {ops : List (Env × Op)} {S : SMSControl}
    (h : Runs.run (step cfg) (initial settings noRTDLPulses memory) ops = some S) :
    IteratorsSound S := by
  have hboth : Conserved S ∧ CacheLeads S :=
    invariant_of_moves (I := fun S => Conserved S ∧ CacheLeads S)
      (fun hmove hS => ⟨hS.1.move hmove, hS.2.move hmove hS.1⟩) h
      ⟨List.Perm.refl _, fun e he => absurd he List.not_mem_nil⟩
  exact ⟨fun e he e' he' => hboth.1.eq_of_serial he he', fun e he => hboth.1.serial_lt he, hboth.2⟩

/-! ### The main result -/

/-- The call takes no source for intermittent, or none that it can unregister. -/
def NoIntermittent (env : Env) (S : SMSControl) : Prop :=
  ∀ i, intermittentSource (refreshThreshold env S) = some i →
    indexValid env (refreshThreshold env S) i = false

theorem noIntermittent_of_none {env : Env} {S : SMSControl}
    (h : intermittentSource (refreshThreshold env S) = none) : NoIntermittent env S :=
  fun _ hi => nomatch h.symm.trans hi

theorem dropIntermittent_eq {cfg : Config} {env : Env} {S : SMSControl} (h : NoIntermittent env S) :
    dropIntermittent cfg env (refreshThreshold env S) = refreshThreshold env S := by
  unfold dropIntermittent
  split
  · rfl
  · rename_i i hi
    rw [h i hi]
    rfl

/-- A call of `markComplete` that drops no intermittent source looks its pulse up, and records
    by the rule. -/
theorem markComplete_rule (cfg : Config) :
    (∀ settings noRTDLPulses memory ops S,
      Runs.run (step cfg) (initial settings noRTDLPulses memory) ops = some S → IteratorsSound S) ∧
    ∀ env S S' pulseId dup i, IteratorsSound S → NoIntermittent env S →
      markComplete cfg env S pulseId dup (some i) = some S' →
      ∃ B, LookedUp env S (.mk pulseId dup) B ∧
        ∃ n new, Rule (.mk pulseId dup) i S'.settings.noEoPPulseBufferSize B S' n new := by
  refine ⟨fun settings noRTDLPulses memory ops S h => iteratorsSound_run h, ?_⟩
  intro env S S' pulseId dup i hS hnone h
  simp only [markComplete, dropIntermittent_eq hnone, Option.map_eq_some_iff] at h
  obtain ⟨⟨B, current, n⟩, hlookup, rfl⟩ := h
  have hS₁ : IteratorsSound (refreshThreshold env S) := ⟨hS.distinct, hS.numbered, hS.cached⟩
  obtain ⟨rfl, hfound, hlooked⟩ := lookup_spec hS₁ hlookup
  exact ⟨B, ⟨hlooked.found, hlooked.created⟩, completeCurrent_rule cfg env hfound⟩

/-- One source, and one pulse that it has sent. -/
def onePulse : List (Env × Op) :=
  [(smallEnv, .registerEventSource firstSource), (smallEnv, .getPulse (.mk 1 0))]

theorem markComplete_rule_onePulse :
    ∃ S S' B, Runs.run (step smallConfig) (initial smallSettings false fun _ => word32Max) onePulse =
        some S ∧
      markComplete smallConfig smallEnv S 1 0 (some 0) = some S' ∧
      LookedUp smallEnv S (.mk 1 0) B ∧
      ∃ n new, Rule (.mk 1 0) 0 S'.settings.noEoPPulseBufferSize B S' n new := by
  obtain ⟨hruns, hcalls⟩ := markComplete_rule smallConfig
  have hsound := hruns smallSettings false (fun _ => word32Max) onePulse _ rfl
  obtain ⟨B, hlooked, hrule⟩ := hcalls smallEnv _ _ 1 0 0 hsound (noIntermittent_of_none rfl) rfl
  exact ⟨_, _, B, rfl, rfl, hlooked, hrule⟩

def twoSources : Finset (Fin 256) := {⟨0, by decide⟩, ⟨1, by decide⟩}

/-- A pulse that waits for two sources. -/
def waiting (id : UInt64) : Pulse := Pulse.new (.mk id 0) twoSources

/-- Three pulses that wait for two sources, in a buffer that is to hold one, before the sixtieth
    pulse is created. -/
def fullBuffer : SMSControl :=
  { initial { smallSettings with maxPulseBufferSize := 1, intermittentDataThreshold := 0 } false
      fun _ => word32Max with
    pulses := ((SortedMap.empty.insert (.mk 1 0) ⟨0, waiting 1⟩).insert (.mk 2 0)
      ⟨1, waiting 2⟩).insert (.mk 3 0) ⟨2, waiting 3⟩
    eventSources := twoSources
    getPulseCnt := 59
    history := { created := [.mk 1 0, .mk 2 0, .mk 3 0], recordings := [], dropped := []
                 intermittent := [] } }

/-- With no complete pulse in the buffer, three are recorded, since creating the fourth flushes
    them. -/
theorem not_rule_of_overflow :
    ¬ ∀ cfg env S S' pulseId dup i, IteratorsSound S → NoIntermittent env S →
      markComplete cfg env S pulseId dup (some i) = some S' →
      ∃ B n new, recordedEntries B = recordedEntries S ∧
        (∀ e ∈ S.pulses.entries, e ∈ B.pulses.entries) ∧
        Rule (.mk pulseId dup) i S'.settings.noEoPPulseBufferSize B S' n new := by
  intro h
  have hsound : IteratorsSound fullBuffer := ⟨by decide, by decide, by decide⟩
  obtain ⟨S', hS', hrecorded, herased, hhold⟩ : ∃ S',
      markComplete smallConfig smallEnv fullBuffer 4 0 (some 0) = some S' ∧
      (recordedEntries S').map ident = [(.mk 1 0, 0), (.mk 2 0, 1), (.mk 3 0, 2)] ∧
      S'.pulses.entries.map ident = [(.mk 4 0, 3)] ∧ S'.settings.noEoPPulseBufferSize = 0 :=
    ⟨_, rfl, by decide, by decide, by decide⟩
  obtain ⟨B, n, new, hrec, hsub, hrule⟩ :=
    h smallConfig smallEnv fullBuffer S' 4 0 0 hsound (noIntermittent_of_none (by decide)) hS'
  have hnew : new.map ident = [(.mk 1 0, 0), (.mk 2 0, 1), (.mk 3 0, 2)] := by
    rw [← hrecorded, hrule.recorded, hrec]
    rfl
  have hB : B.pulses.entries.map ident =
      [(.mk 1 0, 0), (.mk 2 0, 1), (.mk 3 0, 2), (.mk 4 0, 3)] := by
    rw [← List.take_append_drop n B.pulses.entries, List.map_append, ← hrule.inOrder,
      ← hrule.erased, hnew, herased]
    rfl
  have hlen : B.pulses.entries.length = 4 := by simpa using congrArg List.length hB
  have hn : n = 3 := by
    have htake := congrArg List.length (hrule.inOrder.symm.trans hnew)
    simp only [List.length_map, List.length_take, hlen, List.length_cons, List.length_nil] at htake
    omega
  have hlastKey : B.pulses.entries[3].1 = .mk 4 0 := by
    have hident : (B.pulses.entries.map ident)[3]? = some (.mk 4 0, 3) := by
      rw [hB]
      rfl
    rw [List.getElem?_map, List.getElem?_eq_getElem (by omega)] at hident
    exact (Prod.ext_iff.mp (Option.some.inj hident)).1
  obtain ⟨-, last, hlast, -⟩ := (hrule.counted 0 (by omega)).mp (by omega)
  have hlater := mt (hrule.counted 3 (by omega)).mpr (by omega)
  obtain ⟨e, he, rfl, hle, hcomplete⟩ := hlast.complete
  -- the complete pulse would be the new one, or one of those that wait
  have hkeys : e.1 = .mk 4 0 ∨ e.1 ∈ fullBuffer.pulses.keys := by
    have hmem := List.mem_map_of_mem he (f := ident)
    rw [hB] at hmem
    simp only [List.mem_cons, List.not_mem_nil, or_false] at hmem
    obtain hmem | hmem | hmem | hmem := hmem
    · exact .inr ((Prod.ext_iff.mp hmem).1 ▸ by decide)
    · exact .inr ((Prod.ext_iff.mp hmem).1 ▸ by decide)
    · exact .inr ((Prod.ext_iff.mp hmem).1 ▸ by decide)
    · exact .inl (Prod.ext_iff.mp hmem).1
  obtain hnew | hkey := hkeys
  · exact hlater ⟨by omega, e.1, hlast, by rw [hlastKey, hnew]⟩
  · obtain ⟨e', he', hkey⟩ := List.mem_map.mp hkey
    obtain rfl := SortedMap.eq_of_key_eq B.pulses.sorted (hsub e' he') he hkey
    have hwaiting : ∀ e ∈ fullBuffer.pulses.entries, e.2.pulse.pending.erase 0 ≠ ∅ := by decide
    exact hwaiting e' he' hcomplete

end Adara.Spec.PulseBuffer
