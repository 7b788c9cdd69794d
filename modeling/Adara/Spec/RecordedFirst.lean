import Mathlib.Data.List.Find
import Adara.Spec.STCClientMgr

/-! # The run being recorded goes first

`nextRun` sends the run that is being recorded before any other, as long as the current run
is that run while it waits.  The current run is lost when the container of an older run ends
in between, and it is another one when an older run that is still on the stack is queued
again. -/

namespace Adara.Spec.STCClientMgr

open Adara.Native Adara.Native.STCClientMgr

/-- The container of the run that started last, of those that are still recording. -/
def recording (m : STCClientMgr) : Option ContId :=
  m.started.find? fun c => (m.conts c).active

/-- The one that is left when the container `c` ends. -/
def recordingWithout (m : STCClientMgr) (c : ContId) : Option ContId :=
  m.started.find? fun d => d ≠ c && (m.conts d).active

/-- A run of this number waits. -/
abbrev Waits (m : STCClientMgr) (run : Nat) : Prop := (m.pendingRuns.find? run).isSome

/-- `nextRun` returns the run that is being recorded, if it waits. -/
def RecordedFirst (m : STCClientMgr) : Prop :=
  ∀ c, recording m = some c → Waits m (m.runOf c) →
    ∃ d m', m.nextRun = some (d, m') ∧ m.runOf d = m.runOf c

/-- The steps that leave the run being recorded the current one while it waits:
    - a run that starts has a number that does not wait, except as the current run;
    - a container of a run ends only while the run that is recorded then does not wait;
    - a run found on the disk is not the recorded run, unless that waits already;
    - a run that is queued again is the recorded run, or it does not displace it. -/
def KeepsFirst (m : STCClientMgr) : STCClientMgr.Event → Prop
  | .start run _ => run = 0 ∨ ¬ Waits m run ∨ m.currentRun = run
  | .finish c => m.runOf c = 0 ∨ ∀ d ∈ recordingWithout m c, ¬ Waits m (m.runOf d)
  | .queueRuns runs _ => ∀ d ∈ recording m, m.runOf d ∈ runs → Waits m (m.runOf d)
  | .clientComplete c disp _ =>
    Requeues m c disp → ¬ Waits m (m.runOf c) → ∀ d ∈ recording m,
      if (m.conts c).active then m.runOf d = m.runOf c ∨ ¬ Waits m (m.runOf d)
      else m.runOf d ≠ m.runOf c
  | _ => True

instance (m : STCClientMgr) : (e : STCClientMgr.Event) → Decidable (KeepsFirst m e)
  | .start run _ => inferInstanceAs (Decidable (run = 0 ∨ ¬ Waits m run ∨ m.currentRun = run))
  | .finish c =>
    inferInstanceAs (Decidable (m.runOf c = 0 ∨ ∀ d ∈ recordingWithout m c, ¬ Waits m (m.runOf d)))
  | .queueRuns runs _ =>
    inferInstanceAs (Decidable (∀ d ∈ recording m, m.runOf d ∈ runs → Waits m (m.runOf d)))
  | .clientComplete c disp _ =>
    inferInstanceAs (Decidable (Requeues m c disp → ¬ Waits m (m.runOf c) → ∀ d ∈ recording m,
      if (m.conts c).active then m.runOf d = m.runOf c ∨ ¬ Waits m (m.runOf d)
      else m.runOf d ≠ m.runOf c))
  | .lookupComplete _ _ | .connectComplete _ | .connectTimeout | .reconnectTimeout _
  | .transientTimeout _ | .lookupTimeout _ | .setMaxConnections _ _
  | .setMaxRequeueCount _ => instDecidableTrue

/-- While the recorded run waits it is the current run. -/
def Current (m : STCClientMgr) : Prop :=
  ∀ c, recording m = some c → Waits m (m.runOf c) → m.currentRun = m.runOf c

variable {m m' : STCClientMgr}

theorem recording_started {c : ContId} (hinv : Inv m) (h : recording m = some c) :
    m.runOf c ≠ 0 ∧ c < m.created :=
  hinv.started c (List.mem_of_find?_eq_some h)

theorem Current.recordedFirst (hinv : Inv m) (h : Current m) : RecordedFirst m := by
  intro c hc hwait
  have hcur := h c hc hwait
  have hne : m.currentRun ≠ 0 := hcur.symm ▸ (recording_started hinv hc).1
  obtain ⟨e, he⟩ := Option.isSome_iff_exists.mp hwait
  obtain ⟨r, d, s, hfind, hr, hnext⟩ := nextRun_spec hinv (SortedMap.size_pos he)
  refine ⟨d, _, hnext, ?_⟩
  rw [(hinv.pending r d hfind).1, hr hne, hcur]

/-! ### What keeps it -/

theorem startConnect_current (h : Current m) (gai : Bool) : Current (m.startConnect gai) := by
  obtain ⟨l, t, c, heq⟩ := startConnect_eq m gai
  rw [heq]
  exact h

/-- Without the container that ends the others are found as before. -/
theorem finish_recording (m : STCClientMgr) (c : ContId) :
    recording (m.setCont c { m.conts c with active := false }) = recordingWithout m c := by
  refine List.find?_congr fun d _ => ?_
  by_cases hd : d = c
  · subst hd
    simp [setCont]
  · simp [setCont, hd]

theorem finish_current {c : ContId} (hinv : Inv m) (h : Current m)
    (hok : m.runOf c = 0 ∨ ∀ d ∈ recordingWithout m c, ¬ Waits m (m.runOf d)) :
    Current ((m.setCont c { m.conts c with active := false }).containerChange c false true) := by
  let r := { m.conts c with active := false }
  have hruns : ∀ d, (m.setCont c r).runOf d = m.runOf d := setCont_runOf rfl
  simp only [containerChange]
  rw [hruns]
  split
  · -- not a run: it was not being recorded
    rename_i hzero
    have hsame : recording (m.setCont c r) = recording m := by
      refine List.find?_congr fun d hd => ?_
      have hne : d ≠ c := by
        rintro rfl
        exact (hinv.started d hd).1 hzero
      simp [setCont, hne]
    intro d hd hwait
    rw [hsame] at hd
    rw [hruns] at hwait ⊢
    exact h d hd hwait
  · rename_i hrun
    intro d hd hwait
    have hd : recordingWithout m c = some d := finish_recording m c ▸ hd
    have hwait : Waits m (m.runOf d) := hruns d ▸ hwait
    exact absurd hwait (hok.resolve_left hrun d hd)

/-- What waits once a run is queued: what did before, and that run. -/
theorem queueRun_waits (m : STCClientMgr) (c : ContId) (run : Nat) :
    Waits (m.queueRun c) run ↔ run = m.runOf c ∨ Waits m run := by
  unfold queueRun
  split
  · rename_i hsome
    refine ⟨.inr, fun h => h.elim (fun heq => ?_) id⟩
    rw [heq]
    exact hsome
  · rename_i hnone
    have hnone : m.pendingRuns.find? (m.runOf c) = none := by simpa using hnone
    by_cases hrun : run = m.runOf c
    · refine ⟨fun _ => .inl hrun, fun _ => ?_⟩
      rw [hrun]
      exact Option.isSome_iff_exists.mpr ⟨c, SortedMap.find?_insert_self c hnone⟩
    · simp only [Waits, SortedMap.find?_insert_of_ne c hrun, hrun, false_or]

/-- The current run once a run is queued. -/
theorem queueRun_currentRun (m : STCClientMgr) (c : ContId) :
    (m.queueRun c).currentRun =
      if ¬ Waits m (m.runOf c) ∧ (m.conts c).active then m.runOf c else m.currentRun := by
  unfold queueRun
  split
  · rename_i hsome
    rw [if_neg fun h => h.1 hsome]
  · rename_i hnone
    show (if (m.conts c).active then m.runOf c else m.currentRun) = _
    by_cases hact : (m.conts c).active
    · rw [if_pos hact, if_pos ⟨hnone, hact⟩]
    · rw [if_neg hact, if_neg fun h => hact h.2]

theorem queueRun_recording (m : STCClientMgr) (c : ContId) :
    recording (m.queueRun c) = recording m := by
  obtain ⟨p, r, heq⟩ := queueRun_eq m c
  rw [heq]
  rfl

theorem queueRun_runOf (m : STCClientMgr) (c d : ContId) : (m.queueRun c).runOf d = m.runOf d := by
  obtain ⟨p, r, heq⟩ := queueRun_eq m c
  rw [heq]
  rfl

/-- A run that is queued does not displace the recorded one. -/
theorem queueRun_current {c : ContId} (h : Current m)
    (hok : ¬ Waits m (m.runOf c) → ∀ d ∈ recording m,
      if (m.conts c).active then m.runOf d = m.runOf c ∨ ¬ Waits m (m.runOf d)
      else m.runOf d ≠ m.runOf c) : Current (m.queueRun c) := by
  intro d hd hwait
  rw [queueRun_recording] at hd
  rw [queueRun_runOf, queueRun_waits] at hwait
  rw [queueRun_runOf, queueRun_currentRun]
  by_cases hc : Waits m (m.runOf c)
  · -- ignored: a run of this number waits
    rw [if_neg fun hn => hn.1 hc]
    exact h d hd (hwait.elim (fun heq => heq ▸ hc) id)
  · have hok := hok hc d hd
    by_cases hact : (m.conts c).active
    · rw [if_pos hact] at hok
      rw [if_pos ⟨hc, hact⟩]
      obtain hrun | hno := hok
      · exact hrun.symm
      · exact (hwait.resolve_right hno).symm
    · rw [if_neg hact] at hok
      rw [if_neg fun hn => hact hn.2]
      exact h d hd (hwait.resolve_left hok)

theorem create_conts_old (m : STCClientMgr) (run : Nat) (active : Bool) {c : ContId}
    (hc : c < m.created) : (m.create run active).conts c = m.conts c :=
  Function.update_of_ne (Nat.ne_of_lt hc) ..

theorem create_recording (hinv : Inv m) (run : Nat) (active : Bool) :
    recording (m.create run active) = recording m :=
  List.find?_congr fun c hc => by rw [create_conts_old m run active (hinv.started c hc).2]

theorem create_current (hinv : Inv m) (h : Current m) (run : Nat) (active : Bool) :
    Current (m.create run active) := by
  intro c hc hwait
  rw [create_recording hinv] at hc
  have hrun : (m.create run active).runOf c = m.runOf c :=
    congrArg RunContainer.runNumber (create_conts_old m run active (recording_started hinv hc).2)
  rw [hrun] at hwait ⊢
  exact h c hc hwait

/-- A new run is the one being recorded, and it is queued as the current run. -/
theorem begun_current {run : Nat} (hinv : Inv m) (hrun : run ≠ 0)
    (hok : ¬ Waits m run ∨ m.currentRun = run) : Current ((begun m run).queueRun m.created) := by
  have hself : (begun m run).conts m.created = ⟨run, true, false, false, 0⟩ :=
    create_conts m run true
  have hrec : recording (begun m run) = some m.created := by
    simp only [recording, begun, List.find?_cons]
    rw [create_conts]
  intro d hd _
  rw [queueRun_recording, hrec] at hd
  cases hd
  rw [queueRun_runOf, queueRun_currentRun, begun_runOf, hself]
  obtain hno | hcur := hok
  · exact if_pos ⟨hno, rfl⟩
  · -- it waits already, as the current run
    have hwait : Waits m run := by
      obtain ⟨c, hc, -⟩ := hinv.current (hcur.symm ▸ hrun)
      exact Option.isSome_iff_exists.mpr ⟨c, hcur ▸ hc⟩
    rw [if_neg fun hn => hn.1 hwait]
    exact hcur

theorem handedOver_current {r : Nat} {c : ContId} (hinv : Inv m) (h : Current m)
    (hcur : m.currentRun ≠ 0 → r = m.currentRun) (s : QueueMode) :
    Current (handedOver m r c s) := by
  intro d hd hwait
  have hd : recording m = some d := hd
  have hwait : ((m.pendingRuns.erase r).find? (m.runOf d)).isSome := hwait
  rw [SortedMap.find?_erase] at hwait
  split at hwait
  · cases hwait
  · -- the recorded run would have been taken
    rename_i hne
    have heq := h d hd hwait
    exact absurd (heq.symm.trans (hcur (heq ▸ (recording_started hinv hd).1)).symm) hne

theorem takenBack_current {r : Nat} {c : ContId} (hinv : Inv m) (h : Current m)
    (hfind : m.pendingRuns.find? r = some c) (hcur : m.currentRun ≠ 0 → r = m.currentRun)
    (s : QueueMode) : Current (takenBack m r c s) := by
  intro d hd hwait
  have heq : m.currentRun = m.runOf d := h d hd hwait
  have hne : m.currentRun ≠ 0 := heq ▸ (recording_started hinv hd).1
  -- it was the recorded run that was taken, and its container is active
  obtain ⟨e, he, hact⟩ := hinv.current hne
  rw [← hcur hne, hfind] at he
  cases he
  show (if (m.conts c).active then r else 0) = m.runOf d
  rw [if_pos hact, hcur hne, heq]

/-! ### Events -/

theorem connectComplete_current (hinv : Inv m) (h : Current m) (hsize : 0 < m.pendingRuns.size)
    (io : ConnectIO) (hm : m.connectComplete io = some m') : Current m' := by
  obtain heq | ⟨heq, -⟩ | ⟨r, c, s, hfind, hcur, -, -, heq⟩ := connectComplete_cases hinv hsize io
  · cases heq.symm.trans hm
    exact h
  · cases heq.symm.trans hm
    exact h
  · cases heq.symm.trans hm
    split
    · exact startConnect_current (handedOver_current hinv h hcur s) io.gai
    · exact takenBack_current hinv h hfind hcur s

/-- Runs found on the disk are inactive, and the recorded one is not among them. -/
theorem queueAll_current {runs : List Nat} (hinv : Inv m) (h : Current m) (hzero : 0 ∉ runs)
    (hok : ∀ d ∈ recording m, m.runOf d ∈ runs → Waits m (m.runOf d)) :
    Current (runs.foldl queueScanned m) := by
  induction runs generalizing m with
  | nil => exact h
  | cons run runs ih =>
    rw [List.mem_cons, not_or] at hzero
    have hnew : (m.create run false).conts m.created = ⟨run, false, false, false, 0⟩ :=
      create_conts m run false
    have hnewRun : (m.create run false).runOf m.created = run := by rw [runOf, hnew]
    have hold : ∀ d, recording m = some d → (m.create run false).runOf d = m.runOf d := fun d hd =>
      congrArg RunContainer.runNumber (create_conts_old m run false (recording_started hinv hd).2)
    refine ih (queueScanned_inv hinv (Ne.symm hzero.1)) ?_ hzero.2 ?_
    · refine queueRun_current (create_current hinv h run false) fun hno d hd => ?_
      rw [create_recording hinv] at hd
      rw [hnewRun] at hno
      rw [hnew, if_neg Bool.false_ne_true, hnewRun, hold d hd]
      intro heq
      exact hno (heq ▸ hok d hd (heq ▸ List.mem_cons_self))
    · intro d hd hmem
      rw [queueScanned, queueRun_recording, create_recording hinv] at hd
      rw [queueScanned, queueRun_runOf, hold d hd] at hmem ⊢
      exact (queueRun_waits ..).mpr (.inr (hok d hd (List.mem_cons_of_mem _ hmem)))

/-- A change that leaves the container's number and whether it is active. -/
theorem setCont_recording {c : ContId} {r : RunContainer} (hact : r.active = (m.conts c).active) :
    recording (m.setCont c r) = recording m := by
  refine List.find?_congr fun d _ => ?_
  by_cases hd : d = c
  · subst hd
    simpa [setCont] using hact
  · simp [setCont, hd]

theorem setCont_current {c : ContId} {r : RunContainer} (h : Current m)
    (hrun : r.runNumber = m.runOf c) (hact : r.active = (m.conts c).active) :
    Current (m.setCont c r) := by
  intro d hd hwait
  rw [setCont_recording hact] at hd
  rw [setCont_runOf hrun] at hwait ⊢
  exact h d hd hwait

/-- A run that is queued again does not displace the recorded one. -/
theorem requeue_current {c : ContId} (h : Current m)
    (hok : ¬ Waits m (m.runOf c) → ∀ d ∈ recording m,
      if (m.conts c).active then m.runOf d = m.runOf c ∨ ¬ Waits m (m.runOf d)
      else m.runOf d ≠ m.runOf c) : Current (m.backOff.queueRun c) := by
  obtain ⟨t, ht⟩ := backOff_eq m
  rw [ht]
  refine queueRun_current ?_ hok
  exact h

theorem settle_current {c : ContId} (h : Current m) (disp : Disposition)
    (hok : Requeues m c disp → ¬ Waits m (m.runOf c) → ∀ d ∈ recording m,
      if (m.conts c).active then m.runOf d = m.runOf c ∨ ¬ Waits m (m.runOf d)
      else m.runOf d ≠ m.runOf c) : Current (m.settle c disp) := by
  cases disp with
  | success => exact setCont_current h rfl rfl
  | permamentFail => exact setCont_current h rfl rfl
  | connectionLoss => exact requeue_current h (hok trivial)
  | invalidProtocol => exact requeue_current h (hok trivial)
  | transientFail =>
    let n := { m with maxRequeueCount := m.pvMaxRequeueCount }
    have hn : Current n := h
    by_cases hmax : (m.conts c).requeueCount ≥ m.pvMaxRequeueCount
    · let r := { m.conts c with manual := true }
      have heq : m.settle c .transientFail = n.setCont c r := if_pos hmax
      rw [heq]
      exact setCont_current hn rfl rfl
    · let r := { m.conts c with requeueCount := (m.conts c).requeueCount + 1 }
      have heq : m.settle c .transientFail = (n.setCont c r).backOff.queueRun c := if_neg hmax
      rw [heq]
      refine requeue_current (setCont_current hn rfl rfl) ?_
      -- the count does not matter to the condition
      have hruns : ∀ d, (n.setCont c r).runOf d = m.runOf d := setCont_runOf (m := n) (r := r) rfl
      have hrec : recording (n.setCont c r) = recording m := setCont_recording (m := n) (r := r) rfl
      have hact : ((n.setCont c r).conts c).active = (m.conts c).active := by
        show (Function.update m.conts c r c).active = _
        rw [Function.update_self]
      rw [hrec, hact, hruns]
      intro hno d hd
      rw [hruns]
      exact hok (Nat.lt_of_not_le hmax) hno d hd

theorem step_current (m : STCClientMgr) (e : STCClientMgr.Event) (m' : STCClientMgr) (h : Inv m ∧ Current m)
    (hok : KeepsFirst m e) (hstep : step m e = some m') : Inv m' ∧ Current m' := by
  refine ⟨step_inv m e m' h.1 hstep, ?_⟩
  obtain ⟨hinv, h⟩ := h
  rw [step] at hstep
  split at hstep
  · rename_i hp
    cases e with
    | start run gai =>
      rw [handle_start] at hstep
      cases hstep
      split
      · exact create_current hinv h run true
      · rename_i hrun
        exact startConnect_current (begun_current hinv hrun (hok.resolve_left hrun)) gai
    | finish c =>
      cases hstep
      exact finish_current hinv h hok
    | queueRuns runs gai =>
      cases hstep
      have hall := queueAll_current hinv h hp hok
      split
      · exact hall
      · exact startConnect_current hall gai
    | lookupComplete own io =>
      obtain ⟨-, heq⟩ | ⟨hconn, -, heq | heq | ⟨-, -, -, heq⟩⟩ := lookupComplete_cases m _ own io
      -- without a connection neither the queue nor the recording run changes
      · cases heq.symm.trans hstep
        exact h
      · cases heq.symm.trans hstep
        exact h
      · cases heq.symm.trans hstep
        exact h
      · have hopened : Current (opened m (if own then m.lookups - 1 else m.lookups)) := h
        exact connectComplete_current (opened_inv hinv hconn _) hopened
          (hinv.waiting (.inl hconn)) io.complete (heq.symm.trans hstep)
    | connectComplete io =>
      exact connectComplete_current hinv h (hinv.waiting (.inr hp)) io hstep
    | connectTimeout =>
      cases hstep
      exact h
    | reconnectTimeout gai =>
      cases hstep
      exact startConnect_current (m := { m with reconnectTimer := false, connecting := false }) h gai
    | transientTimeout gai =>
      cases hstep
      exact startConnect_current (m := { m with transientTimer := false, backoff := false }) h gai
    | lookupTimeout gai =>
      cases hstep
      exact startConnect_current (m := { m with lookupTimer := false, connecting := false }) h gai
    | clientComplete c disp gai =>
      cases hstep
      have hleft : Current (dequeueRun { m with clients := m.clients.erase c } c) := h
      have hsettled := settle_current hleft disp hok
      refine startConnect_current ?_ gai
      exact hsettled
    | setMaxConnections n gai =>
      cases hstep
      exact startConnect_current (m := { m with pvMaxConnections := n }) h gai
    | setMaxRequeueCount n =>
      cases hstep
      exact h
  · cases hstep

/-- In every run whose steps keep the recorded run current, `nextRun` returns the run that is
    being recorded whenever that waits. -/
theorem recordedFirst_of_run (maxConnections maxRequeueCount : Nat) (es : List STCClientMgr.Event)
    (m : STCClientMgr)
    (hok : Runs.along step KeepsFirst (init maxConnections maxRequeueCount) es)
    (hrun : Runs.run step (init maxConnections maxRequeueCount) es = some m) :
    RecordedFirst m := by
  have hstart : Current (init maxConnections maxRequeueCount) := nofun
  obtain ⟨hinv, hcurrent⟩ := Runs.invariant_along step_current ⟨init_inv .., hstart⟩ hok hrun
  exact hcurrent.recordedFirst hinv

/-- One run is being sent when the next starts. -/
def nextStarted : List STCClientMgr.Event :=
  [.start 1 true, .lookupComplete true ⟨true, true, .done, true, ⟨.none, true, true⟩⟩,
    .queueRuns [5, 9] true, .start 2 true]

theorem recordedFirst_of_run_nextStarted :
    ∃ m, Runs.run step (init 3 5) nextStarted = some m ∧ recording m = some 3 ∧
      Waits m (m.runOf 3) ∧ RecordedFirst m := by
  refine ⟨(Runs.run step (init 3 5) nextStarted).get (by decide), (Option.some_get _).symm,
    by decide, by decide, ?_⟩
  exact recordedFirst_of_run 3 5 nextStarted _ (by decide) (Option.some_get _).symm

/-- Two runs wait, and the container of the first one ends. -/
def olderEnded : List STCClientMgr.Event := [.start 1 true, .start 2 true, .finish 0]

/-- The second one is being recorded, but the first is sent. -/
theorem not_recordedFirst_of_olderEnded :
    ∃ m, Runs.run step (init 3 5) olderEnded = some m ∧ recording m = some 1 ∧
      Waits m (m.runOf 1) ∧ ¬ RecordedFirst m := by
  refine ⟨(Runs.run step (init 3 5) olderEnded).get (by decide), (Option.some_get _).symm,
    by decide, by decide, fun h => ?_⟩
  obtain ⟨d, m', hnext, hd⟩ := h 1 (by decide) (by decide)
  have htaken : (((Runs.run step (init 3 5) olderEnded).get (by decide)).nextRun.map Prod.fst) =
      some 0 := by decide
  rw [hnext] at htaken
  cases htaken
  exact absurd hd (by decide)

end Adara.Spec.STCClientMgr
