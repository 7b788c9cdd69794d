import Adara.Spec.Release

/-! # Pulses wait for registered sources only

Every buffered pulse is pending on registered sources, a registration hands out a free
index, and a source that goes away leaves no pulse waiting for it; the last one to go
empties the buffer.  These hold in every run, whatever the memory under
`m_eventSourcesIndex` held at the start.  That the index of an unregistered source is
`-1` holds only if the memory held `-1` everywhere, since no constructor writes it. -/

namespace Adara.Spec.PulseBuffer

open Adara.Native Adara.Native.SMSControl

/-- Every buffered pulse is pending on registered sources. -/
def PendingRegistered (S : SMSControl) : Prop :=
  ∀ e ∈ S.pulses.entries, e.2.pulse.pending ⊆ S.eventSources

/-- A source is registered exactly when its index is not `-1`. -/
def IndexRegistered (S : SMSControl) : Prop :=
  ∀ i, i ∈ S.eventSources ↔ S.eventSourcesIndex i ≠ word32Max

/-! ### Registration -/

/-- What a successful registration does: it takes a free index, the first one. -/
theorem registerEventSource_ok {S S' : SMSControl} {srcId : Nat} {i : Fin 256}
    (h : S.registerEventSource srcId = .ok (S', i)) :
    i ∉ S.eventSources ∧ S'.eventSources = insert i S.eventSources ∧
      S'.eventSourcesIndex = Function.update S.eventSourcesIndex i (Word32.sub srcId 1) ∧
      S'.pulses = S.pulses := by
  unfold registerEventSource at h
  split at h
  · cases h
  · rename_i hfree
    cases h
    have hi := List.find?_some hfree
    exact ⟨by simpa using hi, rfl, rfl, rfl⟩

/-- The index stored for a source id is never `-1`. -/
private theorem srcIndex_ne (srcId : SrcId) : Word32.sub srcId 1 ≠ word32Max := by
  obtain ⟨n, hpos, hlt⟩ := srcId
  rw [Word32.sub_of_le hpos hlt]
  show n - 1 ≠ 2 ^ 32 - 1
  omega

/-! ### The invariants -/

theorem SameBuffer.pendingRegistered {S S' : SMSControl} (h : SameBuffer S S')
    (hS : PendingRegistered S) : PendingRegistered S' := by
  obtain ⟨f, hf, -, hpending⟩ := h.pulses
  intro e he
  rw [hf, SortedMap.entries_mapVal, List.mem_map] at he
  obtain ⟨e', he', rfl⟩ := he
  rw [h.eventSources]
  exact (hpending e' he').trans (hS e' he')

theorem Recorded.pendingRegistered {S S' : SMSControl} {n : Nat} (h : Recorded S S' n)
    (hS : PendingRegistered S) : PendingRegistered S' := by
  intro e he
  rw [h.pulses, SortedMap.entries_drop] at he
  rw [h.eventSources]
  exact hS e (List.mem_of_mem_drop he)

private theorem Flushed.eventSources {S S' : SMSControl} (h : Flushed S S') :
    S'.eventSources = S.eventSources ∧ S'.eventSourcesIndex = S.eventSourcesIndex := by
  cases h with
  | kept h => exact ⟨h.eventSources, h.eventSourcesIndex⟩
  | recorded T n h hrec =>
    exact ⟨hrec.eventSources.trans h.eventSources,
      hrec.eventSourcesIndex.trans h.eventSourcesIndex⟩

private theorem Flushed.pendingRegistered {S S' : SMSControl} (h : Flushed S S')
    (hS : PendingRegistered S) : PendingRegistered S' := by
  cases h with
  | kept h => exact h.pendingRegistered hS
  | recorded T n h hrec => exact hrec.pendingRegistered (h.pendingRegistered hS)

/-- Every move keeps pulses pending on registered sources only. -/
theorem PendingRegistered.move {cfg : Config} {S S' : SMSControl} (h : Move cfg S S')
    (hS : PendingRegistered S) : PendingRegistered S' := by
  cases h with
  | data h => exact h.pendingRegistered hS
  | record env n => exact (recordPrefix_recorded ..).pendingRegistered hS
  | create env pid hfresh =>
    obtain ⟨S₁, p, hflush, hcreate, hpending⟩ := createPulse_eq cfg env S pid
    rw [hcreate]
    intro e he
    show e.2.pulse.pending ⊆ S₁.eventSources
    rcases (SortedMap.mem_insert (hflush.fresh hfresh)).mp he with rfl | he
    · -- the new pulse waits for the sources registered now
      rw [hflush.eventSources.1, hpending]
    · exact hflush.pendingRegistered hS e he
  | hit pid n hfound => exact hS
  | pop pulseIndex =>
    rcases popPulseBuffer_cases S pulseIndex with h | ⟨i, hi, h⟩
    · rwa [h]
    · rw [h]
      intro e he
      exact hS e (List.mem_of_mem_eraseIdx he)
  | register srcId i hreg =>
    obtain ⟨-, hsources, -, hpulses⟩ := registerEventSource_ok hreg
    intro e he
    rw [hpulses] at he
    rw [hsources]
    exact (hS e he).trans (Finset.subset_insert _ _)
  | free i hreleased =>
    intro e he j hj
    apply Finset.mem_erase.mpr
    apply And.intro _ (hS e he hj)
    rintro rfl
    exact hreleased e he hj

/-- Every move keeps the index in step with the registered sources. -/
theorem IndexRegistered.move {cfg : Config} {S S' : SMSControl} (h : Move cfg S S')
    (hS : IndexRegistered S) : IndexRegistered S' := by
  cases h with
  | data h =>
    intro i
    rw [h.eventSources, h.eventSourcesIndex]
    exact hS i
  | record env n =>
    intro i
    rw [(recordPrefix_recorded ..).eventSources, (recordPrefix_recorded ..).eventSourcesIndex]
    exact hS i
  | create env pid hfresh =>
    obtain ⟨S₁, p, hflush, hcreate, -⟩ := createPulse_eq cfg env S pid
    rw [hcreate]
    intro i
    show i ∈ S₁.eventSources ↔ S₁.eventSourcesIndex i ≠ word32Max
    rw [hflush.eventSources.1, hflush.eventSources.2]
    exact hS i
  | hit pid n hfound => exact hS
  | pop pulseIndex =>
    rcases popPulseBuffer_cases S pulseIndex with h | ⟨i, hi, h⟩
    · rwa [h]
    · rw [h]
      exact hS
  | register srcId i hreg =>
    obtain ⟨-, hsources, hindex, -⟩ := registerEventSource_ok hreg
    intro j
    rw [hsources, hindex]
    -- registering and freeing change the index of the one source only
    by_cases hj : j = i
    · subst hj
      simp [srcIndex_ne srcId]
    · rw [Finset.mem_insert, Function.update_of_ne hj]
      exact (or_iff_right hj).trans (hS j)
  | free i hreleased =>
    intro j
    show j ∈ S.eventSources.erase i ↔
      Function.update S.eventSourcesIndex i word32Max j ≠ word32Max
    by_cases hj : j = i
    · subst hj
      simp
    · rw [Finset.mem_erase, Function.update_of_ne hj]
      exact (and_iff_right hj).trans (hS j)

/-! ### A source goes away -/

section Unregister

variable {cfg : Config} {env : Env}

/-- No pulse waits for a source that is gone. -/
theorem unregisterEventSource_not_pending (S : SMSControl) (i : Fin 256) :
    ∀ e ∈ (unregisterEventSource cfg env S (some i)).pulses.entries, i ∉ e.2.pulse.pending := by
  intro e he
  exact releaseAll_not_pending S i e (recordReleased_subset _ he)

/-- When the last source goes away, every pulse is complete and none is held back. -/
private theorem releasedCount_last {S : SMSControl} (hS : PendingRegistered S) {i : Fin 256}
    (hlast : S.eventSources = {i}) :
    releasedCount env (releaseAll S i) = (bufferedPulses S).length := by
  have hcomplete : ∀ e ∈ (releaseAll S i).pulses.entries, e.2.pulse.pending = ∅ := by
    intro e he
    simp only [releaseAll, SortedMap.entries_mapVal, List.mem_map] at he
    obtain ⟨e', he', rfl⟩ := he
    have hsub := hS e' he'
    rw [hlast] at hsub
    show (e'.2.pulse.releasePartial i).pending = ∅
    rw [Pulse.pending_releasePartial, Finset.erase_eq_empty_iff]
    exact Finset.subset_singleton_iff.mp hsub
  have hhold : heldBack env (releaseAll S i) = 0 := by
    apply if_neg
    show ¬ 1 < S.eventSources.card
    rw [hlast, Finset.card_singleton]
    exact Nat.lt_irrefl 1
  have hlength : (releaseAll S i).pulses.entries.length = (bufferedPulses S).length := by
    simp [releaseAll, bufferedPulses]
  simp only [releasedCount, hhold, SortedMap.size, hlength]
  cases h : lastComplete (releaseAll S i).pulses.entries with
  | none =>
    -- an empty buffer: no entry is incomplete
    rw [lastComplete_eq_none] at h
    cases hentries : (releaseAll S i).pulses.entries with
    | nil => rw [← hlength, hentries]; rfl
    | cons e rest =>
      have hmem : e ∈ (releaseAll S i).pulses.entries := hentries ▸ List.mem_cons_self ..
      exact absurd (hcomplete e hmem) (h e hmem)
  | some k =>
    obtain ⟨hk, -, hafter⟩ := lastComplete_eq_some.mp h
    have hkl : ¬ k + 1 < (releaseAll S i).pulses.entries.length := by
      intro hlt
      exact hafter (k + 1) (Nat.lt_succ_self k) hlt (hcomplete _ (List.getElem_mem hlt))
    rw [hlength] at hk hkl
    simp only
    rw [if_pos (by omega)]
    omega

/-- The last source to go leaves the buffer empty, with every pulse recorded. -/
theorem unregisterEventSource_last {S : SMSControl} (hS : PendingRegistered S) {i : Fin 256}
    (hlast : S.eventSources = {i}) :
    (unregisterEventSource cfg env S (some i)).pulses.entries = [] ∧
      recordedPulses (unregisterEventSource cfg env S (some i)) =
        recordedPulses S ++ bufferedPulses S := by
  have htaken := (releaseAll_sameBuffer S i).trans_taken
    (recordReleased_taken cfg env (releaseAll S i))
  rw [releasedCount_last hS hlast] at htaken
  constructor
  · have hempty := htaken.buffered
    rw [List.drop_length] at hempty
    exact List.map_eq_nil_iff.mp hempty
  · have hrecorded := htaken.recorded
    rwa [List.take_length] at hrecorded

end Unregister

/-! ### The main result -/

/-- What is expected of the event sources in a state, and of the operations on it. -/
structure SourcesSound (cfg : Config) (S : SMSControl) : Prop where
  pending : PendingRegistered S
  index : IndexRegistered S
  registers_free : ∀ srcId S' i, S.registerEventSource srcId = .ok (S', i) → i ∉ S.eventSources
  unregisters : ∀ env i, ∀ e ∈ (unregisterEventSource cfg env S (some i)).pulses.entries,
    i ∉ e.2.pulse.pending
  unregisters_last : ∀ env i, S.eventSources = {i} →
    (unregisterEventSource cfg env S (some i)).pulses.entries = [] ∧
      recordedPulses (unregisterEventSource cfg env S (some i)) =
        recordedPulses S ++ bufferedPulses S

/-- Everything expected of the event sources holds in every state reached, except that
    the index follows the registered sources only if it was `-1` everywhere when the SMS
    was constructed. -/
theorem sourcesSound_iff (cfg : Config) (settings : Settings) (noRTDLPulses : Bool)
    (memory : Fin 256 → Nat) :
    (∀ (ops : List (Env × Op)) (S : SMSControl),
      Runs.run (step cfg) (initial settings noRTDLPulses memory) ops = some S →
      SourcesSound cfg S) ↔ ∀ i, memory i = word32Max := by
  constructor
  · intro h i
    -- the state right after construction, with no source registered
    have hindex := (h [] _ rfl).index i
    by_contra hne
    exact absurd (hindex.mpr hne) (Finset.notMem_empty i)
  · intro hmemory ops S h
    have hpending : PendingRegistered S :=
      invariant_of_moves PendingRegistered.move h (fun _ he => absurd he List.not_mem_nil)
    have hindex : IndexRegistered S := by
      apply invariant_of_moves IndexRegistered.move h
      intro i
      exact iff_of_false (Finset.notMem_empty i) (fun hne => hne (hmemory i))
    exact
      { pending := hpending
        index := hindex
        registers_free := fun _ _ _ hreg => (registerEventSource_ok hreg).1
        unregisters := fun _ i => unregisterEventSource_not_pending S i
        unregisters_last := fun _ _ hlast => unregisterEventSource_last hpending hlast }

/-- With zeroed memory the index of a source that was never registered is not `-1`. -/
theorem not_sourcesSound_of_zeroed :
    ¬ ∀ (cfg : Config) (settings : Settings) (noRTDLPulses : Bool) (memory : Fin 256 → Nat)
      (ops : List (Env × Op)) (S : SMSControl),
      Runs.run (step cfg) (initial settings noRTDLPulses memory) ops = some S →
      SourcesSound cfg S := by
  intro h
  -- one source is registered, and gets the first index
  have hindex := (h smallConfig smallSettings false (fun _ => 0)
    [(smallEnv, .registerEventSource ⟨1, by decide⟩)] _ rfl).index 1
  exact absurd (hindex.mpr (by decide)) (by decide)

end Adara.Spec.PulseBuffer
