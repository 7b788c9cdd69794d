import Adara.Spec.PulseBuffer

/-! # The ledger of the pulse buffer

Every pulse ever created is in exactly one place: buffered, recorded once, or dropped
by hand.  A pulse is identified by its key together with the number of its node, since
the same key can be created again after its pulse has left the buffer.  The ledger is
an invariant of the elementary moves (`Conserved.move`), as is the shape of the
recording steps (`InOrder.move`): each records a prefix of the buffer in increasing
order. -/

namespace Adara.Spec.PulseBuffer

open Adara.Native Adara.Native.SMSControl

/-! ### Where a pulse can be -/

/-- The pulses in the buffer. -/
def bufferedPulses (S : SMSControl) : List (PulseIdentifier × Nat) := S.pulses.entries.map ident

/-- The pulses passed to `recordPulse`. -/
def recordedPulses (S : SMSControl) : List (PulseIdentifier × Nat) :=
  S.history.recordings.flatMap fun r => r.recorded.map ident

/-- The pulses dropped by `popPulseBuffer`. -/
def droppedPulses (S : SMSControl) : List (PulseIdentifier × Nat) := S.history.dropped.map ident

/-- Buffered, recorded and dropped pulses together are the pulses created, each once. -/
def Conserved (S : SMSControl) : Prop :=
  (bufferedPulses S ++ recordedPulses S ++ droppedPulses S).Perm S.history.created.zipIdx

/-- A recording step takes a prefix of the buffer, in increasing order. -/
def Recording.InOrder (r : Recording) : Prop :=
  r.recorded.map ident <+: r.buffered ∧ (r.recorded.map Prod.fst).Pairwise (· < ·)

def InOrder (S : SMSControl) : Prop := ∀ r ∈ S.history.recordings, Recording.InOrder r

/-! ### Steps that change no place -/

theorem SameBuffer.buffered_eq {S S' : SMSControl} (h : SameBuffer S S') :
    bufferedPulses S' = bufferedPulses S := by
  obtain ⟨f, hf, hserial, -⟩ := h.pulses
  simp only [bufferedPulses, hf, SortedMap.entries_mapVal, List.map_map]
  apply List.map_congr_left
  intro e _
  simp only [Function.comp, ident, hserial]

theorem SameBuffer.keys_eq {S S' : SMSControl} (h : SameBuffer S S') :
    S'.pulses.keys = S.pulses.keys := by
  obtain ⟨f, hf, -, -⟩ := h.pulses
  rw [hf, SortedMap.keys_mapVal]

theorem SameBuffer.conserved {S S' : SMSControl} (h : SameBuffer S S') (hS : Conserved S) :
    Conserved S' := by
  simp only [Conserved, recordedPulses, droppedPulses, h.buffered_eq, h.created, h.recordings,
    h.dropped]
  exact hS

theorem SameBuffer.inOrder {S S' : SMSControl} (h : SameBuffer S S') (hS : InOrder S) :
    InOrder S' := by
  simp only [InOrder, h.recordings]
  exact hS

/-! ### Recording a prefix -/

/-- A recording step moves the first `n` buffered pulses over to the recorded ones. -/
theorem Recorded.moved {S S' : SMSControl} {n : Nat} (h : Recorded S S' n) :
    bufferedPulses S' = (bufferedPulses S).drop n ∧
      recordedPulses S' = recordedPulses S ++ (bufferedPulses S).take n := by
  obtain ⟨rec, hrec, -, hidents⟩ := h.recordings
  constructor
  · simp only [bufferedPulses, h.pulses, SortedMap.entries_drop, List.map_drop]
  · simp only [recordedPulses, hrec, List.flatMap_append, List.flatMap_singleton, hidents,
      bufferedPulses, List.map_take]

theorem Recorded.conserved {S S' : SMSControl} {n : Nat} (h : Recorded S S' n)
    (hS : Conserved S) : Conserved S' := by
  obtain ⟨hbuffered, hrecorded⟩ := h.moved
  have hdropped : droppedPulses S' = droppedPulses S := by simp only [droppedPulses, h.dropped]
  simp only [Conserved, hbuffered, hrecorded, hdropped, h.created]
  apply List.Perm.trans _ hS
  apply List.Perm.append_right
  calc List.Perm ((bufferedPulses S).drop n ++ (recordedPulses S ++ (bufferedPulses S).take n))
        (recordedPulses S ++ (bufferedPulses S).take n ++ (bufferedPulses S).drop n) :=
          List.perm_append_comm
    _ = recordedPulses S ++ bufferedPulses S := by
          rw [List.append_assoc, List.take_append_drop]
    List.Perm _ (bufferedPulses S ++ recordedPulses S) := List.perm_append_comm

theorem Recorded.inOrder {S S' : SMSControl} {n : Nat} (h : Recorded S S' n) (hS : InOrder S) :
    InOrder S' := by
  obtain ⟨rec, hrec, hbuffer, hidents⟩ := h.recordings
  intro r hr
  rw [hrec, List.mem_append, List.mem_singleton] at hr
  rcases hr with hr | rfl
  · exact hS r hr
  · constructor
    · rw [hidents, hbuffer, List.map_take]
      exact List.take_prefix _ _
    · -- the keys are those of the first `n` entries of the map
      have hkeys : r.recorded.map Prod.fst = (S.pulses.entries.take n).map Prod.fst := by
        have := congrArg (List.map Prod.fst) hidents
        rw [List.map_map, List.map_map] at this
        exact this
      rw [hkeys]
      exact S.pulses.keys_take_sorted n

/-! ### Creating and dropping a pulse -/

private theorem insertPulse_conserved {S : SMSControl} {pid : PulseIdentifier} {p : Pulse}
    (hfresh : S.pulses.find? pid = none) (hS : Conserved S) : Conserved (insertPulse S pid p) := by
  have hperm := (SortedMap.insert_perm (m := S.pulses) (k := pid)
    ⟨S.history.created.length, p⟩ hfresh).map ident
  have hcreated : (S.history.created ++ [pid]).zipIdx =
      S.history.created.zipIdx ++ [(pid, S.history.created.length)] := by
    simp [List.zipIdx_append]
  show (_ ++ recordedPulses S ++ droppedPulses S).Perm (S.history.created ++ [pid]).zipIdx
  rw [hcreated]
  apply ((hperm.append_right _).append_right _).trans
  exact (hS.cons _).trans (List.perm_append_singleton _ _).symm

theorem Flushed.conserved {S S' : SMSControl} (h : Flushed S S') (hS : Conserved S) :
    Conserved S' := by
  cases h with
  | kept h => exact h.conserved hS
  | recorded T n h hrec => exact hrec.conserved (h.conserved hS)

theorem Flushed.inOrder {S S' : SMSControl} (h : Flushed S S') (hS : InOrder S) :
    InOrder S' := by
  cases h with
  | kept h => exact h.inOrder hS
  | recorded T n h hrec => exact hrec.inOrder (h.inOrder hS)

/-- A flush adds no entry. -/
theorem Flushed.fresh {S S' : SMSControl} (h : Flushed S S') {pid : PulseIdentifier}
    (hpid : S.pulses.find? pid = none) : S'.pulses.find? pid = none := by
  rw [SortedMap.find?_eq_none] at hpid ⊢
  cases h with
  | kept h => rwa [h.keys_eq]
  | recorded T n h hrec =>
    intro hmem
    apply hpid
    rw [← h.keys_eq]
    rw [hrec.pulses, SortedMap.keys, SortedMap.entries_drop, List.map_drop] at hmem
    exact List.drop_subset _ _ hmem

/-- What `popPulseBuffer` does: nothing, or it drops the entry at a position. -/
theorem popPulseBuffer_cases (S : SMSControl) (pulseIndex : Int) :
    S.popPulseBuffer pulseIndex = S ∨
      ∃ i, ∃ h : i < S.pulses.entries.length, S.popPulseBuffer pulseIndex =
        { S with
          lastPid := if S.pulses.entries[i].1 = S.lastPid then invalidPid else S.lastPid
          pulses := S.pulses.eraseIdx i
          history := { S.history with
            dropped := S.history.dropped ++ [S.pulses.entries[i]] } } := by
  unfold popPulseBuffer
  split
  · exact .inl rfl
  · split
    · exact .inl rfl
    · rename_i i _ _ e he
      obtain ⟨hi, rfl⟩ := List.getElem?_eq_some_iff.mp he
      exact .inr ⟨i, hi, rfl⟩

private theorem popPulseBuffer_conserved (S : SMSControl) (pulseIndex : Int) (hS : Conserved S) :
    Conserved (S.popPulseBuffer pulseIndex) := by
  rcases popPulseBuffer_cases S pulseIndex with h | ⟨i, hi, h⟩
  · rwa [h]
  · rw [h]
    have hperm : (bufferedPulses S).Perm
        (ident S.pulses.entries[i] :: (S.pulses.entries.eraseIdx i).map ident) :=
      ((List.getElem_cons_eraseIdx_perm hi).map ident).symm
    show ((S.pulses.entries.eraseIdx i).map ident ++ recordedPulses S ++
      (S.history.dropped ++ [S.pulses.entries[i]]).map ident).Perm S.history.created.zipIdx
    apply List.Perm.trans _ hS
    rw [List.map_append, List.map_singleton, ← List.append_assoc]
    apply (List.perm_append_singleton _ _).trans
    exact ((hperm.append_right _).append_right _).symm

/-! ### The invariants -/

/-- Every move keeps the ledger. -/
theorem Conserved.move {cfg : Config} {S S' : SMSControl} (h : Move cfg S S')
    (hS : Conserved S) : Conserved S' := by
  cases h with
  | data h => exact h.conserved hS
  | record env n => exact (recordPrefix_recorded ..).conserved hS
  | create env pid hfresh =>
    obtain ⟨S₁, p, hflush, hcreate, -⟩ := createPulse_eq cfg env S pid
    rw [hcreate]
    exact insertPulse_conserved (hflush.fresh hfresh) (hflush.conserved hS)
  | hit pid n hfound => exact hS
  | pop pulseIndex => exact popPulseBuffer_conserved S pulseIndex hS
  | register srcId i hreg =>
    unfold registerEventSource at hreg
    split at hreg
    · cases hreg
    · cases hreg
      exact hS
  | free i hreleased => exact hS

/-- Every recording is a prefix of its buffer, in order, and stays one. -/
theorem InOrder.move {cfg : Config} {S S' : SMSControl} (h : Move cfg S S') (hS : InOrder S) :
    InOrder S' := by
  cases h with
  | data h => exact h.inOrder hS
  | record env n => exact (recordPrefix_recorded ..).inOrder hS
  | create env pid hfresh =>
    obtain ⟨S₁, p, hflush, hcreate, -⟩ := createPulse_eq cfg env S pid
    rw [hcreate]
    exact hflush.inOrder hS
  | hit pid n hfound => exact hS
  | pop pulseIndex =>
    rcases popPulseBuffer_cases S pulseIndex with h | ⟨i, hi, h⟩
    · rwa [h]
    · rw [h]
      exact hS
  | register srcId i hreg =>
    unfold registerEventSource at hreg
    split at hreg
    · cases hreg
    · cases hreg
      exact hS
  | free i hreleased => exact hS

section Runs

variable {cfg : Config} {settings : Settings} {noRTDLPulses : Bool} {memory : Fin 256 → Nat}
  {ops : List (Env × Op)} {S : SMSControl}

theorem conserved_run (h : Runs.run (step cfg) (initial settings noRTDLPulses memory) ops = some S) :
    Conserved S :=
  invariant_of_moves Conserved.move h (List.Perm.refl _)

theorem inOrder_run (h : Runs.run (step cfg) (initial settings noRTDLPulses memory) ops = some S) :
    InOrder S :=
  invariant_of_moves InOrder.move h (fun _ hr => absurd hr List.not_mem_nil)

end Runs

/-! ### Nodes are numbered in order of creation -/

/-- The number of a buffered node is the place of its key among the keys created. -/
theorem Conserved.created_serial {S : SMSControl} (hS : Conserved S) {pid : PulseIdentifier}
    {n : Node} (h : S.pulses.find? pid = some n) : S.history.created[n.serial]? = some pid := by
  have hmem : ident (pid, n) ∈ bufferedPulses S :=
    List.mem_map_of_mem (SortedMap.find?_eq_some.mp h)
  have := hS.mem_iff.mp (List.mem_append_left _ (List.mem_append_left _ hmem))
  exact List.mem_zipIdx_iff_getElem?.mp this

/-- An iterator to a buffered node leads to its entry. -/
theorem Conserved.deref_eq {S : SMSControl} (hS : Conserved S) {pid : PulseIdentifier} {n : Node}
    (h : S.pulses.find? pid = some n) : S.deref (some n.serial) = some (pid, n) := by
  have hmem := SortedMap.find?_eq_some.mp h
  have hsome : (S.pulses.entries.find? (fun e => e.2.serial = n.serial)).isSome := by
    rw [List.find?_isSome]
    exact ⟨(pid, n), hmem, by simp⟩
  obtain ⟨e, he⟩ := Option.isSome_iff_exists.mp hsome
  have hserial : e.2.serial = n.serial := by simpa using List.find?_some he
  have heMem := List.mem_of_find?_eq_some he
  -- both nodes carry the same number, so they have the same key
  have hkey : some e.1 = some pid := by
    rw [← hS.created_serial (SortedMap.find?_eq_some.mpr heMem), hserial, hS.created_serial h]
  have : e = (pid, n) := SortedMap.eq_of_key_eq S.pulses.sorted heMem hmem (Option.some.inj hkey)
  show S.pulses.entries.find? (fun e => e.2.serial = n.serial) = _
  rw [he, this]

end Adara.Spec.PulseBuffer
