import Adara.Native.StateIndex
import Mathlib.Data.List.Induction
import Mathlib.Data.List.Pairwise
import Mathlib.Order.Basic

/-! # Replay from the index

The index is made by calls of `indexState`: for each new file, and for state files in between.
Replay starts at the newest entry before the start time, or at the oldest, and goes on with each
file that is new after it, once (`iterateHistory_spec`). -/

namespace Adara.Spec.StateIndex

open Adara.Native Adara.Native.StateIndex

variable {φ : Type}

/-! ### How the index is made -/

/-- A call of `indexState`, at a time of the pulses. -/
structure Indexed (φ : Type) where
  pulseTime : UInt32
  state : Option φ
  data : φ
  dataOffset : Nat
deriving DecidableEq, Repr

def Indexed.entry (call : Indexed φ) : IndexEntry φ :=
  ⟨call.state, call.data, call.pulseTime, call.dataOffset⟩

/-- Make the calls, one after another. -/
def indexAll (index : StateIndex φ) (calls : List (Indexed φ)) : StateIndex φ :=
  calls.foldl (fun index call =>
    { index with pulseTime := call.pulseTime }.indexState call.state call.data call.dataOffset)
    index

theorem entries_indexAll (index : StateIndex φ) (calls : List (Indexed φ)) :
    (indexAll index calls).entries = (calls.map Indexed.entry).reverse ++ index.entries := by
  induction calls generalizing index with
  | nil => rfl
  | cons call calls ih =>
    rw [indexAll, List.foldl_cons, ← indexAll, ih, List.map_cons, List.reverse_cons,
      List.append_assoc]
    rfl

/-- One more call. -/
theorem entries_indexState {index : StateIndex φ} {calls : List (Indexed φ)}
    (h : index.entries = (calls.map Indexed.entry).reverse) (state : Option φ) (data : φ)
    (dataOffset : Nat) : (index.indexState state data dataOffset).entries =
      ((calls ++ [Indexed.mk index.pulseTime state data dataOffset]).map Indexed.entry).reverse := by
  rw [indexState, h, List.map_append, List.reverse_append]
  rfl

/-- Whatever happens, the index is made by calls: those since it was cleared. -/
theorem exists_indexAll (changes : List (Change φ)) :
    ∃ calls : List (Indexed φ),
      (changes.foldl change {}).entries = (indexAll {} calls).entries := by
  suffices h : ∃ calls : List (Indexed φ),
      (changes.foldl change {}).entries = (calls.map Indexed.entry).reverse by
    obtain ⟨calls, hcalls⟩ := h
    exact ⟨calls, by rw [hcalls, entries_indexAll, List.append_nil]⟩
  induction changes using List.reverseRecOn with
  | nil => exact ⟨[], rfl⟩
  | append_singleton changes last ih =>
    obtain ⟨calls, hcalls⟩ := ih
    rw [List.foldl_append, List.foldl_cons, List.foldl_nil]
    cases last with
    | pulse seconds => exact ⟨calls, hcalls⟩
    | fileCreated f addStateToIndex =>
      rw [change, fileCreated]
      split
      · exact ⟨_, entries_indexState hcalls none f 0⟩
      · exact ⟨calls, hcalls⟩
    | snapshot state file resumeLocation =>
      rw [change, snapshot]
      split
      · exact ⟨_, entries_indexState hcalls (some state) file resumeLocation⟩
      · exact ⟨calls, hcalls⟩
    | clear => exact ⟨[], rfl⟩

/-- An entry at the start of a file is for a new file, one that is not in the index. -/
def OnlyNew (calls : List (Indexed φ)) : Prop :=
  calls.Pairwise fun earlier later => later.dataOffset = 0 → earlier.data ≠ later.data

instance [DecidableEq φ] (calls : List (Indexed φ)) : Decidable (OnlyNew calls) :=
  inferInstanceAs (Decidable (calls.Pairwise _))

/-- An entry inside a file is for a file that is in the index. -/
def InsideIndexed (calls : List (Indexed φ)) : Prop :=
  ∀ older call newer, calls = older ++ call :: newer → call.dataOffset ≠ 0 →
    call.data ∈ older.map Indexed.data

/-- The new files. -/
def newFiles (calls : List (Indexed φ)) : List φ :=
  (calls.filter fun call => call.dataOffset = 0).map Indexed.data

/-- The files that are not seen before, each where it is seen first. -/
def firstIndexed [DecidableEq φ] (seen : List φ) : List φ → List φ
  | [] => []
  | file :: files =>
    if file ∈ seen then firstIndexed seen files else file :: firstIndexed (file :: seen) files

/-- With each file in the index from its start on, those indexed first are the new ones. -/
theorem newFiles_eq_firstIndexed [DecidableEq φ] {older newer : List (Indexed φ)}
    (hnew : OnlyNew (older ++ newer)) (hinside : InsideIndexed (older ++ newer)) {seen : List φ}
    (hseen : ∀ file, file ∈ seen ↔ file ∈ older.map Indexed.data) :
    newFiles newer = firstIndexed seen (newer.map Indexed.data) := by
  induction newer generalizing older seen with
  | nil => rfl
  | cons call newer ih =>
    have happend : older ++ call :: newer = older ++ [call] ++ newer := by
      rw [List.append_assoc, List.singleton_append]
    have hrest := @ih (older ++ [call]) (happend ▸ hnew) (happend ▸ hinside)
    rw [List.map_cons, firstIndexed, newFiles, List.filter_cons]
    by_cases hoffset : call.dataOffset = 0
    · have hfresh : call.data ∉ seen := by
        intro hmem
        obtain ⟨earlier, hearlier, hdata⟩ := List.mem_map.mp ((hseen _).mp hmem)
        have hpairs := (List.pairwise_append.mp hnew).2.2 earlier hearlier call List.mem_cons_self
        exact hpairs hoffset hdata
      have hseen' : ∀ file, file ∈ call.data :: seen ↔
          file ∈ (older ++ [call]).map Indexed.data := by
        intro file
        rw [List.mem_cons, hseen, List.map_append, List.mem_append, List.map_singleton,
          List.mem_singleton, or_comm]
      rw [if_pos (decide_eq_true hoffset), if_neg hfresh, List.map_cons, ← newFiles,
        hrest hseen']
    · have hold : call.data ∈ seen := (hseen _).mpr (hinside older call newer rfl hoffset)
      have hseen' : ∀ file, file ∈ seen ↔ file ∈ (older ++ [call]).map Indexed.data := by
        intro file
        rw [hseen, List.map_append, List.mem_append, List.map_singleton, List.mem_singleton]
        refine ⟨Or.inl, fun hmem => hmem.elim id fun heq => ?_⟩
        rw [heq, ← hseen]
        exact hold
      rw [decide_eq_false hoffset, if_neg Bool.false_ne_true, if_pos hold, ← newFiles,
        hrest hseen']

/-! ### Where replay starts -/

/-- The entry to start at: of those before the start time the newest, or else the oldest. -/
structure Start (startSeconds : UInt32) (older : List (Indexed φ)) (chosen : Indexed φ)
    (newer : List (Indexed φ)) : Prop where
  newest : ∀ call ∈ newer, ¬ call.pulseTime < startSeconds
  before : chosen.pulseTime < startSeconds ∨ older = []

/-- The reverse iterator is at the entry to start at, and goes on with the newer ones. -/
theorem findStart_spec {startSeconds : UInt32} {v : Indexed φ} {passed rest : List (Indexed φ)}
    (hpassed : ∀ call ∈ passed, ¬ call.pulseTime < startSeconds) :
    ∃ older chosen newer,
      findStart startSeconds v.entry ((v :: passed).map Indexed.entry)
        (rest.map Indexed.entry) = (chosen :: newer).map Indexed.entry ∧
      rest.reverse ++ v :: passed = older ++ chosen :: newer ∧
      Start startSeconds older chosen newer := by
  induction rest generalizing v passed with
  | nil => exact ⟨[], v, passed, rfl, rfl, hpassed, .inr rfl⟩
  | cons next rest ih =>
    rw [List.map_cons (l := rest), findStart]
    split
    · next hbefore => exact ⟨(next :: rest).reverse, v, passed, rfl, rfl, hpassed, .inl hbefore⟩
    · next hnot =>
      obtain ⟨older, chosen, newer, hfind, hcalls, hstart⟩ :=
        ih (List.forall_mem_cons.mpr ⟨hnot, hpassed⟩)
      refine ⟨older, chosen, newer, hfind, ?_, hstart⟩
      rw [List.reverse_cons, List.append_assoc, List.singleton_append]
      exact hcalls

theorem dataOnlyFiles_entries (calls : List (Indexed φ)) :
    dataOnlyFiles (calls.map Indexed.entry) = (newFiles calls).map (·, 0) := by
  induction calls with
  | nil => rfl
  | cons call calls ih =>
    rw [List.map_cons, dataOnlyFiles, ih, newFiles, newFiles, List.filter_cons]
    by_cases hoffset : call.dataOffset = 0
    · have honly : call.entry.isDataOnly = true := decide_eq_true hoffset
      rw [if_pos honly, if_pos (decide_eq_true hoffset)]
      rfl
    · have honly : call.entry.isDataOnly = false := decide_eq_false hoffset
      rw [honly, if_neg Bool.false_ne_true, decide_eq_false hoffset, if_neg Bool.false_ne_true]

/-- A file that is new after an entry is not the file of the entry, and is new once. -/
theorem nodup_newFiles {older newer : List (Indexed φ)} {chosen : Indexed φ}
    (hnew : OnlyNew (older ++ chosen :: newer)) : (chosen.data :: newFiles newer).Nodup := by
  have hlater := List.pairwise_cons.mp (List.pairwise_append.mp hnew).2.1
  rw [List.nodup_cons]
  constructor
  · intro hmem
    obtain ⟨call, hcall, hdata⟩ := List.mem_map.mp hmem
    rw [List.mem_filter, decide_eq_true_iff] at hcall
    exact hlater.1 call hcall.1 hcall.2 hdata.symm
  · rw [newFiles, List.Nodup, List.pairwise_map, List.pairwise_filter]
    refine hlater.2.imp fun hpair _ hoffset => ?_
    exact hpair (of_decide_eq_true hoffset)

/-- Replay from a start time.  With the entries of the index as they were made, oldest first, it
    begins at the newest one before that time, or at the oldest.  The callback is given the state
    file there, then the data file from its offset on, and then each file that is new after that
    entry at 0, in their order; no data file is given twice.  Where each entry inside a file is for
    a file that is in the index, these are the files that were indexed first after that entry. -/
theorem iterateHistory_spec [DecidableEq φ] (index : StateIndex φ) (calls : List (Indexed φ))
    (transient : φ) (current : CurrentFile φ) (startSeconds : UInt32)
    (hempty : index.entries = []) (hcalls : calls ≠ []) (hnew : OnlyNew calls)
    (hstart : startSeconds ≠ 0) :
    ∃ older chosen newer, calls = older ++ chosen :: newer ∧
      Start startSeconds older chosen newer ∧
      (indexAll index calls).iterateHistory transient current startSeconds =
        .ok (chosen.state.toList.map (·, 0) ++
          (chosen.data, chosen.dataOffset) :: (newFiles newer).map (·, 0)) ∧
      (chosen.data :: newFiles newer).Nodup ∧
      (InsideIndexed calls → newFiles newer =
        firstIndexed ((older ++ [chosen]).map Indexed.data) (newer.map Indexed.data)) := by
  -- the newest entry is at the front of the index
  obtain ⟨rest, v, hlast⟩ := (List.eq_nil_or_concat calls).resolve_left hcalls
  rw [List.concat_eq_append] at hlast
  have hentries : (indexAll index calls).entries =
      v.entry :: rest.reverse.map Indexed.entry := by
    rw [entries_indexAll, hempty, List.append_nil, hlast, List.map_append, List.reverse_append,
      List.map_reverse]
    rfl
  obtain ⟨older, chosen, newer, hfind, hsplit, hchosen⟩ :=
    @findStart_spec φ startSeconds v [] rest.reverse nofun
  rw [List.reverse_reverse, ← hlast] at hsplit
  refine ⟨older, chosen, newer, hsplit, hchosen, ?_, nodup_newFiles (hsplit ▸ hnew), ?_⟩
  · rw [iterateHistory, if_neg hstart, hentries]
    rw [List.map_cons, List.map_nil, List.map_cons] at hfind
    simp only
    rw [hfind]
    simp only
    rw [dataOnlyFiles_entries]
    rfl
  · intro hinside
    have happend : older ++ [chosen] ++ newer = calls := by
      rw [hsplit, List.append_assoc, List.singleton_append]
    exact newFiles_eq_firstIndexed (happend ▸ hnew) (happend ▸ hinside) fun _ => Iff.rfl

/-- Two state files in the file 10, one in the file 11, and the file 12 in the same second. -/
def threeFiles : List (Indexed Nat) :=
  [⟨1, none, 10, 0⟩, ⟨5, some 90, 10, 400⟩, ⟨7, some 91, 10, 800⟩, ⟨7, none, 11, 0⟩,
    ⟨9, some 92, 11, 64⟩, ⟨9, none, 12, 0⟩]

/-- Replay from second 7 begins in the middle of the file 10. -/
theorem iterateHistory_spec_threeFiles :
    (indexAll ({} : StateIndex Nat) threeFiles).iterateHistory 99 ⟨12, 4096⟩ 7 =
        .ok [(90, 0), (10, 400), (11, 0), (12, 0)] ∧
      ∃ older chosen newer, threeFiles = older ++ chosen :: newer ∧
        Start 7 older chosen newer ∧ (chosen.data :: newFiles newer).Nodup := by
  obtain ⟨older, chosen, newer, hcalls, hstart, _, hnodup, _⟩ :=
    iterateHistory_spec ({} : StateIndex Nat) threeFiles 99 ⟨12, 4096⟩ 7 rfl (by decide)
      (by decide) (by decide)
  exact ⟨rfl, older, chosen, newer, hcalls, hstart, hnodup⟩

end Adara.Spec.StateIndex
