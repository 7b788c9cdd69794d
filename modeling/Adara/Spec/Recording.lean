import Adara.ForStd.Runs
import Adara.Native.Recording
import Adara.Spec.Publication

/-! # Failed starts and stops of a recording

A call of `setRecording` that is accepted leaves the four components that know whether a run
is recorded in agreement, whatever state they were in and whatever was thrown in its earlier
tries.  A call that is refused after the storage manager has thrown never does: the tries have
set `m_inRun`, and nothing clears it when the start is given up; a stop has cleared
`m_currentRunNumber` before its first try, and nothing sets it again. -/

namespace Adara.Spec.Recording

open Adara.Native Adara.Native.Recording Adara.Native.Recorder

/-! ### The storage manager -/

theorem containerAt_head {s : StorageManager} {slot : Slot}
    (h : s.containerStack.head? = some slot) : s.containerAt slot.node = slot.container := by
  obtain ⟨slots, hstack⟩ := List.head?_eq_some_iff.mp h
  simp [StorageManager.containerAt, StorageManager.slotAt, hstack]

theorem setSlot_head {s : StorageManager} {slot : Slot} (x : Option StoredContainer)
    (h : s.containerStack.head? = some slot) :
    (s.setSlot ⟨slot.node, x⟩).containerStack.head? = some ⟨slot.node, x⟩ := by
  simp [StorageManager.setSlot, List.head?_map, h]

theorem current_setSlot {s : StorageManager} {slot : Slot} (c : StoredContainer)
    (h : s.containerStack.head? = some slot) :
    current (s.setSlot ⟨slot.node, some c⟩) = some c := by
  rw [current, setSlot_head (some c) h]
  rfl

/-- The switch is that of the container stack, which does not tell what is thrown. -/
theorem switchContainer_fst (s : StorageManager) (newStart : Timespec) (run : Nat)
    (f : SwitchFaults) :
    (switchContainer s newStart run f).1 = s.switchContainer newStart run f.switchIO := by
  rw [switchContainer, StorageManager.switchContainer]
  cases s.containerStack.head? with
  | none => rfl
  | some slot =>
    simp only [SwitchFaults.switchIO]
    obtain ⟨s, it⟩ := s.endCurrentContainer slot.node newStart false f.prologue.isNone
    cases it with
    | none => rfl
    | some n =>
      simp only [startContainer]
      split
      · -- a slot that is full is left as it is
        rename_i hfull
        rw [StorageManager.startContainer, hfull]
        rfl
      · rfl

/-- Without a current container there is nothing to end. -/
theorem switchContainer_empty {s : StorageManager} (h : current s = none) (newStart : Timespec)
    (run : Nat) (io : StorageManager.SwitchIO) : s.switchContainer newStart run io = s := by
  rw [StorageManager.switchContainer]
  cases hhead : s.containerStack.head? with
  | none => rfl
  | some slot =>
    have hslot : s.containerAt slot.node = none := by
      rw [containerAt_head hhead]
      simpa [current, hhead] using h
    simp only [StorageManager.endCurrentContainer, hslot]

theorem startRecording_fst (s : StorageManager) (t : Timespec) (run : Nat) (f : SwitchFaults) :
    (startRecording s t run f).1 = s.startRecording t run f.switchIO := by
  rw [startRecording, StorageManager.startRecording]
  by_cases hrun : run = 0
  · simp [hrun]
  rw [if_neg hrun]
  cases hcurrent : current s with
  | none =>
    rw [switchContainer_empty hcurrent, ite_self]
  | some c =>
    rw [current] at hcurrent
    by_cases hc : c.modes.runNumber = 0
    · simp [hrun, hcurrent, hc, switchContainer_fst]
    · simp [hcurrent, hc]

theorem stopRecording_fst (s : StorageManager) (t : Timespec) (f : SwitchFaults) :
    (stopRecording s t f).1 = s.stopRecording t f.switchIO := by
  rw [stopRecording, StorageManager.stopRecording]
  cases hcurrent : current s with
  | none => rw [switchContainer_empty hcurrent]
  | some c => exact switchContainer_fst s t.succ 0 f

/-- The slot for the next container is the first of the stack. -/
theorem endCurrentContainer_head {s s' : StorageManager} {slot : Slot} {newStart : Timespec}
    {terminate opens : Bool} {n : Nat} (hhead : s.containerStack.head? = some slot)
    (h : s.endCurrentContainer slot.node newStart terminate opens = (s', some n)) :
    ∃ x, s'.containerStack.head? = some ⟨n, x⟩ := by
  unfold StorageManager.endCurrentContainer at h
  split at h
  · cases h
  · dsimp only at h
    split at h
    · simp only [Prod.mk.injEq, Option.some.injEq] at h
      obtain ⟨rfl, rfl⟩ := h
      exact ⟨none, setSlot_head none hhead⟩
    · split at h
      · cases h
      · simp only [Prod.mk.injEq, Option.some.injEq] at h
        obtain ⟨rfl, rfl⟩ := h
        exact ⟨none, rfl⟩

/-- The container takes the packets from its start on: it has no end, and its current mode has
    a file. -/
def accepts (c : StoredContainer) : Bool :=
  c.maxTime.isZero && c.modes.pauseModeStack.head?.any (·.file.isSome)

/-- The current container takes packets, and is one of the run `run`. -/
def Records (s : StorageManager) (run : Nat) : Prop :=
  ∃ c, current s = some c ∧ accepts c = true ∧ c.modes.runNumber = run

theorem startContainer_records {s s' : StorageManager} {n : Nat} {x : Option StoredContainer}
    {minTime : Timespec} {run : Nat} {f : SwitchFaults}
    (hhead : s.containerStack.head? = some ⟨n, x⟩)
    (h : startContainer s n minTime run f = (s', none)) : Records s' run := by
  unfold startContainer at h
  split at h
  · cases h
  rename_i hempty
  simp only [Prod.mk.injEq, Option.map_eq_none_iff] at h
  obtain ⟨rfl, hstart⟩ := h
  have hio : f.startIO = ⟨true, true⟩ := by simp [SwitchFaults.startIO, hstart]
  simp only [StorageManager.startContainer, hio, hempty, Bool.not_true, Bool.or_self,
    Bool.false_eq_true, if_false, TimedContainer.start_eq, if_true]
  exact ⟨_, current_setSlot _ hhead, rfl, rfl⟩

theorem switchContainer_records {s s' : StorageManager} {newStart : Timespec} {run : Nat}
    {f : SwitchFaults} (h : switchContainer s newStart run f = (s', none)) : Records s' run := by
  unfold switchContainer at h
  split at h
  · cases h
  · rename_i slot hhead
    split at h
    · cases h
    · rename_i s₁ n hend
      obtain ⟨x, hhead₁⟩ := endCurrentContainer_head hhead hend
      exact startContainer_records hhead₁ h

/-- A start that throws nothing has the current container record the run. -/
theorem startRecording_records {s s' : StorageManager} {t : Timespec} {run : Nat}
    {f : SwitchFaults} (h : startRecording s t run f = (s', none)) :
    run ≠ 0 ∧ Records s' run := by
  unfold startRecording at h
  split at h
  · cases h
  · rename_i hrun
    split at h
    · cases h
    · split at h
      · cases h
      · exact ⟨hrun, switchContainer_records h⟩

theorem stopRecording_records {s s' : StorageManager} {t : Timespec} {f : SwitchFaults}
    (h : stopRecording s t f = (s', none)) : Records s' 0 := by
  unfold stopRecording at h
  split at h
  · cases h
  · exact switchContainer_records h

/-! ### The tries -/

/-- What no try changes. -/
structure Kept (s s' : Recorder) : Prop where
  recording : s'.recording = s.recording
  currentRunNumber : s'.currentRunNumber = s.currentRunNumber

theorem Kept.refl (s : Recorder) : Kept s s := ⟨rfl, rfl⟩

theorem Kept.trans {s s' s'' : Recorder} (h : Kept s s') (h' : Kept s' s'') : Kept s s'' :=
  ⟨h'.recording.trans h.recording, h'.currentRunNumber.trans h.currentRunNumber⟩

theorem beforeNewRun_spec {s s' : Recorder} {calls : List MarkerCall} {e : Option Exception}
    (h : s.beforeNewRun calls = some (s', e)) :
    Kept s s' ∧ s'.inRun = (s.inRun || e.isNone) := by
  obtain ⟨⟨storage, thrown⟩, -, h⟩ := Option.map_eq_some_iff.mp h
  cases thrown <;>
  · obtain ⟨rfl, rfl⟩ := Prod.mk.inj h
    exact ⟨⟨rfl, rfl⟩, by simp⟩

theorem runStop_spec {s s' : Recorder} {ts : Timespec} {calls : List MarkerCall}
    {comment : PacketIO} {e : Option Exception}
    (h : s.runStop ts calls comment = some (s', e)) :
    Kept s s' ∧ s'.inRun = (s.inRun && e.isSome) := by
  obtain ⟨⟨storage, thrown⟩, -, h⟩ := Option.map_eq_some_iff.mp h
  cases thrown <;>
  · obtain ⟨rfl, rfl⟩ := Prod.mk.inj h
    exact ⟨⟨rfl, rfl⟩, by simp⟩

/-- The thrower is the storage manager. -/
def FromStorage (e : Thrown) : Prop := e.thrower = .storage

instance (e : Thrown) : Decidable (FromStorage e) := inferInstanceAs (Decidable (_ = _))

/-- A try of a start sets `m_inRun` before the storage manager is asked, and nothing clears
    it. -/
structure StartSpec (s s' : Recorder) (e : Option Thrown) : Prop extends Kept s s' where
  keepsInRun : s.inRun = true → s'.inRun = true
  setsInRun : (∀ e' ∈ e, FromStorage e') → s'.inRun = true
  records : e = none → s.currentRunNumber ≠ 0 ∧ Records s'.storage s.currentRunNumber

theorem tryStart_spec {ts : Timespec} {s s' : Recorder} {io : StartTry} {e : Option Thrown}
    (h : tryStart ts s io = some (s', e)) : StartSpec s s' e := by
  obtain ⟨⟨s₁, thrown⟩, hbefore, h⟩ := Option.map_eq_some_iff.mp h
  obtain ⟨hkept, hinRun⟩ := beforeNewRun_spec hbefore
  cases thrown with
  | some e =>
    obtain ⟨rfl, rfl⟩ := Prod.mk.inj h
    refine ⟨hkept, fun hs => by simp [hinRun, hs], fun hall => ?_, nofun⟩
    cases hall ⟨.markers, e⟩ rfl
  | none =>
    have hset : s₁.inRun = true := by simp [hinRun]
    obtain ⟨rfl, rfl⟩ := Prod.mk.inj h
    refine ⟨⟨hkept.recording, hkept.currentRunNumber⟩, fun _ => hset, fun _ => hset, fun hnone => ?_⟩
    rw [← hkept.currentRunNumber]
    exact startRecording_records (Prod.ext rfl (Option.map_eq_none_iff.mp hnone))

structure StopSpec (s s' : Recorder) (e : Option Thrown) : Prop extends Kept s s' where
  stopped : e = none → s'.inRun = false ∧ Records s'.storage 0

theorem tryStop_spec {ts : Timespec} {s s' : Recorder} {io : StopTry} {e : Option Thrown}
    (h : tryStop ts s io = some (s', e)) : StopSpec s s' e := by
  obtain ⟨⟨s₁, thrown⟩, hstop, h⟩ := Option.map_eq_some_iff.mp h
  obtain ⟨hkept, hinRun⟩ := runStop_spec hstop
  cases thrown with
  | some e =>
    obtain ⟨rfl, rfl⟩ := Prod.mk.inj h
    exact ⟨hkept, nofun⟩
  | none =>
    obtain ⟨rfl, rfl⟩ := Prod.mk.inj h
    refine ⟨⟨hkept.recording, hkept.currentRunNumber⟩, fun hnone => ⟨by simp [hinRun], ?_⟩⟩
    exact stopRecording_records (Prod.ext rfl (Option.map_eq_none_iff.mp hnone))

/-! ### The calls -/

/-- The recorder is usable: the current container takes packets, and whether it records a run
    is what the others say. -/
structure Usable (s : Recorder) : Prop where
  current : ∃ c, current s.storage = some c ∧ accepts c = true ∧
    (s.recording = true ↔ c.modes.runNumber ≠ 0)
  currentRunNumber : s.currentRunNumber = 0 ↔ s.recording = false
  inRun : s.inRun = s.recording

@[simp] theorem started_succeeded (o : Answer) : (started o).succeeded = o.succeeded := by
  unfold started
  split <;> rfl

@[simp] theorem started_failures (o : Answer) : (started o).failures = o.failures := by
  unfold started
  split <;> rfl

@[simp] theorem stopped_succeeded (o : Answer) : (stopped o).succeeded = o.succeeded := by
  unfold stopped
  split <;> rfl

@[simp] theorem stopped_failures (o : Answer) : (stopped o).failures = o.failures := by
  unfold stopped
  split <;> rfl

section Start

variable {ts : Timespec} {s : Recorder} {tries : List StartTry} {o : Answer}
  (h : Retry.run (tryStart ts) Thrown.bails s tries = some o)

include h

theorem start_kept : Kept s o.state :=
  Retry.run_invariant (fun _ _ _ _ hkept hstep => hkept.trans (tryStart_spec hstep).toKept)
    (Kept.refl s) h

theorem started_usable (hsucceeded : o.succeeded = true) : Usable (started o).state := by
  obtain ⟨hinRun, hrun, c, hc, haccepts, hnumber⟩ :=
    Retry.run_succeeded (I := Kept s)
      (Q := fun s' => s'.inRun = true ∧ s.currentRunNumber ≠ 0 ∧
        Records s'.storage s.currentRunNumber)
      (fun _ _ _ _ hkept hstep => hkept.trans (tryStart_spec hstep).toKept)
      (fun s₁ t s₂ hkept hstep => by
        have hspec := tryStart_spec hstep
        rw [← hkept.currentRunNumber]
        exact ⟨hspec.setsInRun nofun, hspec.records rfl⟩)
      (Kept.refl s) h hsucceeded
  have hkept := start_kept h
  rw [started, if_pos hsucceeded]
  refine ⟨⟨c, hc, haccepts, ?_⟩, ?_, hinRun⟩
  · simp [hnumber, hrun]
  · simp [hkept.currentRunNumber, hrun]

/-- The start was given up, and the markers are left in the run. -/
theorem started_not_usable (hrecording : s.recording = false) (hsucceeded : o.succeeded = false)
    (hthrown : ∃ e ∈ o.failures, FromStorage e) : ¬ Usable (started o).state := by
  intro husable
  have hinRun : o.state.inRun = true := by
    refine Retry.run_failure (Q := fun s' => s'.inRun = true)
      (fun s₁ t s₂ e he hstep => ?_) (fun s₁ t s₂ e hset hstep => ?_) h hthrown
    · exact (tryStart_spec hstep).setsInRun fun e' he' => Option.some.inj he' ▸ he
    · exact (tryStart_spec hstep).keepsInRun hset
  have hagree := husable.inRun
  rw [started, if_neg (by simp [hsucceeded])] at hagree
  rw [hinRun, (start_kept h).recording, hrecording] at hagree
  cases hagree

end Start

section Stop

variable {ts : Timespec} {s : Recorder} {tries : List StopTry} {o : Answer}
  (h : Retry.run (tryStop ts) Thrown.bails s tries = some o)

include h

theorem stop_kept : Kept s o.state :=
  Retry.run_invariant (fun _ _ _ _ hkept hstep => hkept.trans (tryStop_spec hstep).toKept)
    (Kept.refl s) h

theorem stopped_usable (hcleared : s.currentRunNumber = 0) (hsucceeded : o.succeeded = true) :
    Usable (stopped o).state := by
  obtain ⟨hinRun, c, hc, haccepts, hnumber⟩ :
      o.state.inRun = false ∧ Records o.state.storage 0 :=
    Retry.run_succeeded (I := fun _ => True) (fun _ _ _ _ _ _ => trivial)
      (fun _ _ _ _ hstep => (tryStop_spec hstep).stopped rfl) trivial h hsucceeded
  have hkept := stop_kept h
  rw [stopped, if_pos hsucceeded]
  refine ⟨⟨c, hc, haccepts, ?_⟩, ?_, hinRun⟩
  · simp [hnumber]
  · simp [hkept.currentRunNumber, hcleared]

/-- The run goes on, without its number. -/
theorem stopped_not_usable (hcleared : s.currentRunNumber = 0) (hrecording : s.recording = true)
    (hsucceeded : o.succeeded = false) : ¬ Usable (stopped o).state := by
  intro husable
  have hkept := stop_kept h
  have hagree := husable.currentRunNumber
  rw [stopped, if_neg (by simp [hsucceeded])] at hagree
  rw [hkept.currentRunNumber, hkept.recording, hcleared, hrecording] at hagree
  simp at hagree

end Stop

/-- After a call of `setRecording` in which the storage manager has thrown, the recorder is
    usable if and only if the setting was accepted. -/
theorem usable_iff_accepted {s : Recorder} {r : Request} {o : Answer}
    (h : s.setRecording r = some o) (hthrown : ∃ e ∈ o.failures, FromStorage e) :
    Usable o.state ↔ o.succeeded = true := by
  unfold setRecording at h
  split at h
  · -- nothing is tried
    obtain rfl := Option.some.inj h
    simp at hthrown
  · rename_i hvalue
    cases r with
    | start ts refused tries =>
      have hrecording : s.recording = false :=
        Bool.eq_false_iff.mpr fun htrue => hvalue htrue.symm
      dsimp only at h
      split at h
      · obtain rfl := Option.some.inj h
        simp at hthrown
      · obtain ⟨o, hrun, rfl⟩ := Option.map_eq_some_iff.mp h
        rw [started_failures] at hthrown
        rw [started_succeeded]
        cases hsucceeded : o.succeeded with
        | true => exact iff_of_true (started_usable hrun hsucceeded) rfl
        | false =>
          exact iff_of_false (started_not_usable hrun hrecording hsucceeded hthrown) (by simp)
    | stop ts tries =>
      have hrecording : s.recording = true :=
        Bool.ne_false_iff.mp fun hfalse => hvalue hfalse.symm
      obtain ⟨o, hrun, rfl⟩ := Option.map_eq_some_iff.mp h
      rw [stopped_succeeded]
      cases hsucceeded : o.succeeded with
      | true => exact iff_of_true (stopped_usable hrun rfl hsucceeded) rfl
      | false => exact iff_of_false (stopped_not_usable hrun rfl hrecording hsucceeded) (by simp)

/-- The prologue files of the old container cannot be made at first. -/
def delayed : Request :=
  .start ⟨5, 0⟩ false fun i => ⟨[], ⟨if i = 0 then some .other else none, none⟩⟩

def connected : Op := .storage (.checkRequiredDataSources 1) rfl

/-- The recorder when one source is connected. -/
def withSource : Recorder :=
  { init ⟨1, 0⟩ true 7 with storage := (StorageManager.init ⟨1, 0⟩ true).checkRequiredDataSources 1 }

theorem usable_iff_accepted_delayed :
    ∃ o, withSource.setRecording delayed = some o ∧ (Usable o.state ↔ o.succeeded = true) ∧
      o.succeeded = true := by
  refine ⟨_, rfl, usable_iff_accepted (s := withSource) (r := delayed) rfl ?_, ?_⟩ <;> decide

/-- The state directory of the new container cannot be made. -/
def unmade : Request :=
  .start ⟨5, 0⟩ false fun _ => ⟨[], ⟨none, some (.container, .other)⟩⟩

theorem not_usable_of_refused :
    ¬ ∀ {ops : List Op} {s : Recorder} {r : Request} {o : Answer},
      Runs.run step (init ⟨1, 0⟩ true 7) ops = some s → s.setRecording r = some o →
        (∃ e ∈ o.failures, FromStorage e) → o.succeeded = false → Usable o.state := by
  intro h
  have husable := @h [connected] withSource unmade _ rfl rfl (by decide) (by decide)
  exact absurd husable.inRun (by decide)

/-! ### Runs -/

/-- The three variables agree on whether a run is recorded. -/
structure Agree (s : Recorder) : Prop where
  currentRunNumber : s.currentRunNumber = 0 ↔ s.recording = false
  inRun : s.inRun = s.recording

theorem Usable.agree {s : Recorder} (h : Usable s) : Agree s := ⟨h.currentRunNumber, h.inRun⟩

/-- A call of `setRecording` is refused before its first try, if it is refused. -/
def GivesUpEarly (s : Recorder) : Op → Prop
  | .setRecording r => ∀ o ∈ s.setRecording r, o.succeeded = false → o.failures = []
  | .storage .. => True

theorem setRecording_agree {s : Recorder} {r : Request} {o : Answer} (hagree : Agree s)
    (h : s.setRecording r = some o) (hearly : o.succeeded = false → o.failures = []) :
    Agree o.state := by
  unfold setRecording at h
  split at h
  · exact Option.some.inj h ▸ hagree
  · cases r with
    | start ts refused tries =>
      dsimp only at h
      split at h
      · exact Option.some.inj h ▸ hagree
      · obtain ⟨o, hrun, rfl⟩ := Option.map_eq_some_iff.mp h
        rw [started_succeeded, started_failures] at hearly
        rw [List.ofFn_succ] at hrun
        have hsucceeded : o.succeeded = true := Bool.of_not_eq_false fun hrefused =>
          Retry.failures_ne_nil hrun hrefused (hearly hrefused)
        exact (started_usable hrun hsucceeded).agree
    | stop ts tries =>
      obtain ⟨o, hrun, rfl⟩ := Option.map_eq_some_iff.mp h
      rw [stopped_succeeded, stopped_failures] at hearly
      rw [List.ofFn_succ] at hrun
      have hsucceeded : o.succeeded = true := Bool.of_not_eq_false fun hrefused =>
        Retry.failures_ne_nil hrun hrefused (hearly hrefused)
      exact (stopped_usable hrun rfl hsucceeded).agree

/-- Where no call gives up after a try, the variables agree in every state. -/
theorem agree_of_run {minTime : Timespec} {opens : Bool} {next : Nat} {ops : List Op}
    {s : Recorder} (h : Runs.run step (init minTime opens next) ops = some s)
    (hearly : Runs.along step GivesUpEarly (init minTime opens next) ops) : Agree s := by
  refine Runs.invariant_along (I := Agree) (fun s a s' hagree hok hstep => ?_)
    ⟨iff_of_true rfl rfl, rfl⟩ hearly h
  cases a with
  | setRecording r =>
    obtain ⟨o, ho, rfl⟩ := Option.map_eq_some_iff.mp hstep
    exact setRecording_agree hagree ho (hok o ho)
  | storage call hcall =>
    obtain ⟨storage, -, rfl⟩ := Option.map_eq_some_iff.mp hstep
    exact ⟨hagree.currentRunNumber, hagree.inRun⟩

/-! ### The empty slot -/

/-- The slot of the current container is empty, and no lookup is answered from the cache. -/
def Stuck (s : StorageManager) : Prop :=
  (∃ n, s.containerStack.head? = some ⟨n, none⟩) ∧ s.lastTs = ⟨-1, -1⟩

/-- While a source is connected, a switch that throws before it has made the new container
    leaves the slot empty. -/
theorem switchContainer_stuck {s : StorageManager} {c : StoredContainer} {newStart : Timespec}
    {run : Nat} {e : Exception} (hconnected : s.numConnected ≠ 0) (hcurrent : current s = some c)
    (hmodes : c.modes.pauseModeStack ≠ []) :
    Stuck (switchContainer s newStart run ⟨none, some (.container, e)⟩).1 := by
  obtain ⟨slot, hhead, hslot⟩ := Option.bind_eq_some_iff.mp hcurrent
  obtain ⟨m, older, hstack⟩ := List.exists_cons_of_ne_nil hmodes
  have hat : s.containerAt slot.node = some c := by rw [containerAt_head hhead, hslot]
  -- the prologue files can be made
  obtain ⟨modes, hlast⟩ : ∃ modes, StorageManager.getLastPrologueFiles c.modes true = some modes := by
    rw [StorageManager.getLastPrologueFiles, hstack]
    by_cases hm : m.hasLastPrologue <;> simp [hm]
  rw [switchContainer, hhead]
  simp only [StorageManager.endCurrentContainer, hat, hconnected, hlast, beq_iff_eq, Bool.false_or,
    Option.isNone_none, if_false]
  refine ⟨⟨s.nextNode, ?_⟩, ?_⟩ <;>
    simp [startContainer, StorageManager.startContainer, SwitchFaults.startIO,
      StorageManager.containerAt, StorageManager.slotAt, StorageManager.setSlot]

theorem Stuck.findContainerByTime {s : StorageManager} (h : Stuck s) {ts : Timespec}
    (hts : ts ≠ ⟨-1, -1⟩) (check : Bool) (oldTs timeout : Timespec) :
    s.findContainerByTime false ts check oldTs timeout = none := by
  obtain ⟨⟨n, hhead⟩, hlast⟩ := h
  obtain ⟨slots, hstack⟩ := List.head?_eq_some_iff.mp hhead
  have hcache : s.usesCache false ts check = false := by
    simp [StorageManager.usesCache, hlast, hts]
  have hempty : s.looksAtEmpty false = true := by
    simp [StorageManager.looksAtEmpty, hstack]
  simp [StorageManager.findContainerByTime, hcache, hempty]

/-- The time of a packet is not the one that a cache without a lookup has. -/
def Timed : MarkerCall → Prop
  | .packet ts _ => ts ≠ ⟨-1, -1⟩
  | .resume .. => True

/-- The markers get nothing done. -/
theorem Stuck.perform {s : StorageManager} (h : Stuck s) {call : MarkerCall}
    (htimed : Timed call) : perform s call = none := by
  cases call with
  | packet ts io =>
    rw [Recording.perform, StorageManager.addPacket, h.findContainerByTime htimed]
    rfl
  | resume t io thrown =>
    obtain ⟨⟨n, hhead⟩, -⟩ := h
    simp [Recording.perform, StorageManager.resumeRecording, StorageManager.onCurrent, hhead]

theorem Stuck.performAll {s s' : StorageManager} (h : Stuck s) {calls : List MarkerCall}
    (htimed : ∀ call ∈ calls, Timed call) {e : Option Exception}
    (hperform : performAll s calls = some (s', e)) : calls = [] ∧ s' = s ∧ e = none := by
  cases calls with
  | nil =>
    obtain ⟨rfl, rfl⟩ := Prod.mk.inj (Option.some.inj hperform)
    exact ⟨rfl, rfl, rfl⟩
  | cons call calls =>
    rw [Recording.performAll, h.perform (htimed call List.mem_cons_self)] at hperform
    cases hperform

theorem Stuck.startRecording {s : StorageManager} (h : Stuck s) (t : Timespec) (run : Nat)
    (f : SwitchFaults) : startRecording s t run f = (s, some .logic) := by
  obtain ⟨⟨n, hhead⟩, -⟩ := h
  simp [Recording.startRecording, current, hhead]

theorem tryStart_stuck {ts : Timespec} {s s' : Recorder} {io : StartTry} {e : Option Thrown}
    (htry : tryStart ts s io = some (s', e)) (h : Stuck s.storage)
    (htimed : ∀ call ∈ io.calls, Timed call) :
    e = some ⟨.storage, .logic⟩ ∧ s'.storage = s.storage := by
  obtain ⟨⟨s₁, thrown⟩, hbefore, htry⟩ := Option.map_eq_some_iff.mp htry
  obtain ⟨⟨storage, thrown'⟩, hperform, hbefore⟩ := Option.map_eq_some_iff.mp hbefore
  obtain ⟨-, rfl, rfl⟩ := h.performAll htimed hperform
  obtain ⟨rfl, rfl⟩ := Prod.mk.inj hbefore
  simp only [Stuck.startRecording h, Option.map_some] at htry
  obtain ⟨rfl, rfl⟩ := Prod.mk.inj htry
  exact ⟨rfl, rfl⟩

theorem tryStop_stuck {ts : Timespec} (s : Recorder) (h : Stuck s.storage) {io : StopTry}
    (hts : ts ≠ ⟨-1, -1⟩) (htimed : ∀ call ∈ io.calls, Timed call) :
    tryStop ts s io = none := by
  have hcomment : ∀ call ∈ io.calls ++ [.packet ts io.comment], Timed call := by
    intro call hcall
    obtain hcall | hcall := List.mem_append.mp hcall
    · exact htimed call hcall
    · exact List.mem_singleton.mp hcall ▸ hts
  cases hperform : Recording.performAll s.storage (io.calls ++ [.packet ts io.comment]) with
  | none => rw [Recorder.tryStop, runStop, hperform, Option.map_none, Option.map_none]
  | some r => exact absurd (h.performAll hcomment hperform).1 (by simp)

/-- The packets that the markers add in a call of `setRecording` have proper times. -/
def TimedRequest : Request → Prop
  | .start _ _ tries => ∀ i, ∀ call ∈ (tries i).calls, Timed call
  | .stop ts tries => ts ≠ ⟨-1, -1⟩ ∧ ∀ i, ∀ call ∈ (tries i).calls, Timed call

/-- Nothing can be recorded any more: a start is refused at its first try at the latest, and a
    stop uses a pointer to nothing. -/
theorem Stuck.setRecording {s : Recorder} (h : Stuck s.storage) {r : Request}
    (htimed : TimedRequest r) (hvalue : r.value ≠ s.recording) {o : Answer}
    (hset : s.setRecording r = some o) :
    r.value = true ∧ o.succeeded = false ∧ o.state.storage = s.storage := by
  unfold Recorder.setRecording at hset
  rw [if_neg hvalue] at hset
  cases r with
  | start ts refused tries =>
    refine ⟨rfl, ?_⟩
    dsimp only at hset
    split at hset
    · obtain rfl := Option.some.inj hset
      exact ⟨rfl, rfl⟩
    · obtain ⟨o, hrun, rfl⟩ := Option.map_eq_some_iff.mp hset
      rw [List.ofFn_succ] at hrun
      obtain ⟨s', hstep, -⟩ | ⟨s', e, hstep, -, rfl⟩ | ⟨s', e, o', hstep, hgoes, -⟩ :=
        Retry.run_cons hrun
      · cases (tryStart_stuck hstep h (htimed 0)).1
      · exact ⟨rfl, (tryStart_stuck hstep h (htimed 0)).2⟩
      · obtain rfl := Option.some.inj (tryStart_stuck hstep h (htimed 0)).1
        cases hgoes
  | stop ts tries =>
    obtain ⟨o, hrun, rfl⟩ := Option.map_eq_some_iff.mp hset
    rw [List.ofFn_succ] at hrun
    obtain ⟨r, hstep, -⟩ := Option.bind_eq_some_iff.mp hrun
    rw [tryStop_stuck { s with currentRunNumber := 0 } h htimed.1 (htimed.2 0)] at hstep
    cases hstep

end Adara.Spec.Recording
