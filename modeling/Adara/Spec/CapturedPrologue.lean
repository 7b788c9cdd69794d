import Adara.Spec.PrologueCaptures

/-! # Captured prologues

The state that is saved is the one before the change that ends a mode or a container
(`captured_of_run`), but not if a scan goes on when a run starts or stops: the packets have the
current scan index then, which is zero (`not_written_startRun`).  Nor is it where a container is
split between a pause and a resume or after both, for no handler is called by a split. -/

namespace Adara.Spec.CapturedPrologue

open Adara.Native Adara.Native.Markers
open Adara.Spec.Markers (Inv)

variable {env : Markers.Env} {s t u : Markers}

theorem withScan_inv (h : Inv s) (r : Request) (scanIndex : UInt32) :
    Inv (withScan s r scanIndex) := by
  rw [withScan]
  split
  · exact h
  · exact h.withScanIndex scanIndex scanIndex

/-- The run of a pause is the one that is saved. -/
def SavedRun (s : Markers) : Prop :=
  s.inRun = true → s.isPaused = true → s.lastInRun = true ∧ s.lastRunNumber = s.runNumber

theorem SavedRun.of_status (h : statusOf t = statusOf s) (hs : SavedRun s) : SavedRun t := by
  simp only [statusOf, Status.mk.injEq] at h
  simpa [SavedRun, h] using hs

theorem SavedRun.of_not_paused (h : s.isPaused = false) : SavedRun s :=
  fun _ hpaused => absurd (hpaused.symm.trans h) (by decide)

theorem SavedRun.withScan (h : SavedRun s) (r : Request) (scanIndex : UInt32) :
    SavedRun (withScan s r scanIndex) := by
  rw [CapturedPrologue.withScan]
  split
  · exact h
  · exact h

theorem step_savedRun {op : Op} (h : step env s op = some t) (hs : SavedRun s) : SavedRun t := by
  -- pausing saves the run number, and only the start or the end of a run changes it
  cases op with
  | pause r =>
    refine .of_status (pause_captures h).2 ?_
    rw [pausedState]
    split
    · exact fun hrun _ => ⟨hrun, rfl⟩
    · exact hs
  | resume r =>
    refine .of_status (resume_captures h).2 ?_
    split
    · exact .of_not_paused rfl
    · exact hs
  | startScan r indexPV => exact .of_status (startScan_captures h).status (hs.withScan r indexPV)
  | stopScan r => exact .of_status (stopScan_captures h).status (hs.withScan r 0)
  | annotate r pv => exact hs.of_status (comment_captures h).status
  | addAnnotationComment r pv => exact hs.of_status (comment_captures h).status
  | addScanComment r pv => exact hs.of_status (comment_captures h).status
  | addSystemComment time scanIndex text => exact hs.of_status (comment_captures h).status
  | addRunComment r pv => exact hs.of_status (addNote_captures h).status
  | addNotesComment r pv => exact hs.of_status (addNote_captures h).status
  | startRun runNumber time pausedPV notesPV connected =>
    cases hrun : s.inRun with
    | false =>
      have hbegun : SavedRun (begunState s runNumber pausedPV) := .of_not_paused rfl
      exact hbegun.of_status (startRun_captures hrun h).2
    | true =>
      rw [step, startRun, if_pos hrun] at h
      exact Option.some.inj h ▸ hs
  | stopRun time pausedPV connected =>
    cases hrun : s.inRun with
    | false =>
      rw [step, stopRun, if_pos (by rw [hrun]; rfl)] at h
      exact Option.some.inj h ▸ hs
    | true =>
      have hended : SavedRun (endedState s pausedPV) := .of_not_paused rfl
      exact hended.of_status (stopRun_captures hrun h).2
  | data event => exact hs.of_status (data_captures h).status
  | expire modes =>
    obtain rfl := Option.some.inj h
    exact hs
  | setRunNotesUpdates enabled =>
    obtain rfl := Option.some.inj h
    exact hs

/-! ### The states before -/

/-- The states that a step finds where it captures a last prologue: where a mode or the container
    ends by the request, the change that it makes has not been made yet. -/
def closings (env : Markers.Env) (s : Markers) : Op → List Markers
  | .pause r => packetCapture env s ++ (pauseTurn env s r).map fun _ => s
  | .resume r =>
    ((resumeTurn s r).map fun _ => s) ++
      andThen (s.resumeMode env r (r.scanIndex s)) (packetCapture env)
  | .startScan r indexPV => packetCapture env (withScan s r indexPV)
  | .stopScan r => packetCapture env (withScan s r 0)
  | .startRun runNumber time pausedPV notesPV connected =>
    if s.inRun then []
    else
      ((startTurn s runNumber pausedPV).map fun _ => s) ++
        startPackets env s runNumber time pausedPV ++
          (andThen (s.beforeNewRun env runNumber time pausedPV notesPV)
            (endCapture connected)).map fun _ => s
  | .stopRun time pausedPV connected =>
    if s.inRun then
      (stopTurn s pausedPV ++
        andThen (s.runStop env time pausedPV) (endCapture connected)).map fun _ => s
    else []
  | .data event => splitCapture s event
  | _ => []

/-- What is saved of scans and pauses is what there is. -/
structure Mirrored (s : Markers) : Prop where
  scanIndex : s.lastScanIndex = s.scanIndex
  isPaused : s.lastIsPaused = s.isPaused

instance (s : Markers) : Decidable (Mirrored s) :=
  decidable_of_iff (s.lastScanIndex = s.scanIndex ∧ s.lastIsPaused = s.isPaused)
    ⟨fun h => ⟨h.1, h.2⟩, fun h => ⟨h.1, h.2⟩⟩

/-- The state in which the packet of a resume is put out. -/
def resumedState (s : Markers) (r : Request) : Markers :=
  if r.passThru ≠ .passThru then { s.saveLast (r.scanIndex s) with isPaused := false }
  else { s with isPausedPT := false }

/-- A container that a packet splits and that is kept finds what it is in saved, a request that
    ends a mode has the index of the scan, and no scan goes on when a run starts or stops. -/
def Good (env : Markers.Env) (s : Markers) : Op → Prop
  | .pause r =>
    (packetCapture env s ≠ [] → Mirrored s) ∧
      (pauseTurn env s r ≠ [] → r.scanIndex s = s.scanIndex)
  | .resume r =>
    (resumeTurn s r ≠ [] → r.scanIndex s = s.scanIndex) ∧
      (andThen (s.resumeMode env r (r.scanIndex s)) (packetCapture env) ≠ [] →
        Mirrored (resumedState s r))
  | .startScan r indexPV =>
    packetCapture env (withScan s r indexPV) ≠ [] → Mirrored (withScan s r indexPV)
  | .stopScan r => packetCapture env (withScan s r 0) ≠ [] → Mirrored (withScan s r 0)
  | .startRun runNumber time pausedPV notesPV connected =>
    s.inRun = false →
      (startTurn s runNumber pausedPV ≠ [] → s.lastScanIndex = s.scanIndex) ∧
      (startPackets env s runNumber time pausedPV ≠ [] →
        (s.isPaused || pausedPV) = false ∧ s.lastScanIndex = s.scanIndex) ∧
      (andThen (s.beforeNewRun env runNumber time pausedPV notesPV) (endCapture connected) ≠ [] →
        s.scanIndex = 0 ∧ (s.isPaused || pausedPV) = s.isPaused)
  | .stopRun time pausedPV connected =>
    s.inRun = true →
      (stopTurn s pausedPV ≠ [] → s.scanIndex = 0 ∧ s.lastScanIndex = 0) ∧
      (andThen (s.runStop env time pausedPV) (endCapture connected) ≠ [] →
        s.scanIndex = 0 ∧ (s.isPaused || pausedPV) = s.isPaused)
  | .data event => splitCapture s event ≠ [] → Mirrored s
  | _ => True

instance (env : Markers.Env) (s : Markers) : (op : Op) → Decidable (Good env s op)
  | .pause _ => inferInstanceAs (Decidable ((_ → _) ∧ (_ → _)))
  | .resume _ => inferInstanceAs (Decidable ((_ → _) ∧ (_ → _)))
  | .startScan _ _ => inferInstanceAs (Decidable (_ → _))
  | .stopScan _ => inferInstanceAs (Decidable (_ → _))
  | .startRun _ _ _ _ _ =>
    inferInstanceAs (Decidable (_ → (_ → _) ∧ (_ → _) ∧ (_ → _)))
  | .stopRun _ _ _ => inferInstanceAs (Decidable (_ → (_ → _) ∧ (_ → _)))
  | .data _ => inferInstanceAs (Decidable (_ → _))
  | .annotate _ _ | .addAnnotationComment _ _ | .addScanComment _ _ | .addSystemComment _ _ _
  | .addRunComment _ _ | .addNotesComment _ _ | .expire _ | .setRunNotesUpdates _ =>
    instDecidableTrue

/-- The last prologues have what prologues of the other states would have. -/
def Tells (env : Markers.Env) (us vs : List Markers) : Prop :=
  us.map (written env .captured) = vs.map (written env .stream)

theorem Tells.nil (env : Markers.Env) : Tells env [] [] := rfl

theorem Tells.append {us us' vs vs' : List Markers} (h : Tells env us vs)
    (h' : Tells env us' vs') : Tells env (us ++ us') (vs ++ vs') := by
  rw [Tells, List.map_append, List.map_append, h, h']

theorem tells_map {us : List Markers} {f : Markers → Markers}
    (h : ∀ u ∈ us, written env .captured u = written env .stream (f u)) :
    Tells env us (us.map f) := by
  rw [Tells, List.map_map]
  exact List.map_congr_left h

theorem tells_self {us : List Markers}
    (h : ∀ u ∈ us, written env .captured u = written env .stream u) : Tells env us us := by
  have hmap := tells_map (f := id) h
  rwa [List.map_id] at hmap

theorem mem_lastCapture (h : u ∈ lastCapture s) : u = s := by
  rw [lastCapture] at h
  split at h
  · exact absurd h List.not_mem_nil
  · exact List.mem_singleton.mp h

theorem mem_turnCapture {paused : Bool} (h : u ∈ turnCapture paused s) :
    u = s ∧ s.filePaused ≠ paused := by
  rw [turnCapture] at h
  split at h
  · exact absurd h List.not_mem_nil
  · next hfile => exact ⟨mem_lastCapture h, hfile⟩

theorem mem_endCapture {connected : Bool} (h : u ∈ endCapture connected s) : u = s := by
  rw [endCapture] at h
  split at h
  · exact mem_lastCapture h
  · exact absurd h List.not_mem_nil

theorem mem_andThen {r : Option Markers} {f : Markers → List Markers} (h : u ∈ andThen r f) :
    ∃ v, r = some v ∧ u ∈ f v := by
  obtain ⟨v, hv, hu⟩ := List.mem_flatMap.mp h
  exact ⟨v, Option.mem_toList.mp hv, hu⟩

/-- A container that is split and kept has had a pause or a resume, and is not of a run. -/
theorem mem_splitCapture {event : FileEvent} (hinv : Inv s) (h : u ∈ splitCapture s event) :
    u = s ∧ s.inRun = false ∧ s.lastInRun = false := by
  cases event with
  | split connected =>
    rw [splitCapture] at h
    split at h
    · exact absurd h List.not_mem_nil
    · next hrun =>
      have hrun' : s.inRun = false := Bool.eq_false_iff.mpr hrun
      split at h
      · next hkept => exact ⟨mem_lastCapture h, hrun', hinv.settled.stale hrun' hkept.1⟩
      · exact absurd h List.not_mem_nil
  | _ => exact absurd h List.not_mem_nil

theorem splitCapture_tells {event : FileEvent} (hinv : Inv s)
    (h : splitCapture s event ≠ [] → Mirrored s) :
    Tells env (splitCapture s event) (splitCapture s event) := by
  apply tells_self
  intro u hu
  obtain ⟨rfl, hrun, hlast⟩ := mem_splitCapture hinv hu
  obtain ⟨hscan, hpaused⟩ := h (List.ne_nil_of_mem hu)
  rw [written_eq, written_eq, if_pos rfl, if_neg (by decide)]
  -- without a run its number is not told
  simp [Status.saved, Status.current, statusOf, hscan, hpaused, hrun, hlast, Status.scanMark,
    Status.pauseMark, runTag, runLabel]

theorem packetCapture_tells (hinv : Inv s) (h : packetCapture env s ≠ [] → Mirrored s) :
    Tells env (packetCapture env s) (packetCapture env s) := splitCapture_tells hinv h

/-- A pause ends a mode: the state before it is saved, and the scan is that of the packets. -/
theorem pauseTurn_tells {r : Request} (h : pauseTurn env s r ≠ [] → r.scanIndex s = s.scanIndex) :
    Tells env (pauseTurn env s r) ((pauseTurn env s r).map fun _ => s) := by
  apply tells_map
  intro u hu
  have hscan := h (List.ne_nil_of_mem hu)
  obtain ⟨v, hpacket, hu⟩ := mem_andThen hu
  split at hu
  · obtain ⟨rfl, -⟩ := mem_turnCapture hu
    rw [written_congr (saveLast_status (emitPacket_captures hpacket).status _ _), written_eq,
      written_eq, if_pos rfl, if_neg (by decide)]
    simp [Status.saved, Status.current, statusOf, saveLast, hscan]
  · exact absurd hu List.not_mem_nil

theorem resumeTurn_tells {r : Request} (h : resumeTurn s r ≠ [] → r.scanIndex s = s.scanIndex) :
    Tells env (resumeTurn s r) ((resumeTurn s r).map fun _ => s) := by
  apply tells_map
  intro u hu
  have hscan := h (List.ne_nil_of_mem hu)
  rw [resumeTurn] at hu
  split at hu
  · obtain ⟨rfl, -⟩ := mem_turnCapture hu
    rw [written_eq, written_eq, if_pos rfl, if_neg (by decide)]
    simp [Status.saved, Status.current, statusOf, saveLast, hscan]
  · exact absurd hu List.not_mem_nil

theorem Mirrored.of_status (h : statusOf t = statusOf s) (hs : Mirrored s) : Mirrored t := by
  simp only [statusOf, Status.mk.injEq] at h
  obtain ⟨hscan, hpaused⟩ := hs
  exact ⟨by simp [h, hscan], by simp [h, hpaused]⟩

theorem resumePacket_tells (hinv : Inv s) {r : Request}
    (h : andThen (s.resumeMode env r (r.scanIndex s)) (packetCapture env) ≠ [] →
      Mirrored (resumedState s r)) :
    Tells env (andThen (s.resumeMode env r (r.scanIndex s)) (packetCapture env))
      (andThen (s.resumeMode env r (r.scanIndex s)) (packetCapture env)) := by
  obtain ⟨u, hmode, -, hu⟩ := Markers.resumeMode_steps env hinv r (r.scanIndex s)
  rw [andThen_some hmode] at h ⊢
  apply packetCapture_tells hu
  exact fun hne => (h hne).of_status (resumeMode_captures hmode).2

/-- A run starts in a pause: nothing has changed since the pause but the scan. -/
theorem startTurn_tells (hinv : Inv s) (hrun : s.inRun = false) {runNumber : UInt32}
    {pausedPV : Bool} (h : startTurn s runNumber pausedPV ≠ [] → s.lastScanIndex = s.scanIndex) :
    Tells env (startTurn s runNumber pausedPV) ((startTurn s runNumber pausedPV).map fun _ => s) := by
  apply tells_map
  intro u hu
  have hscan := h (List.ne_nil_of_mem hu)
  rw [startTurn] at hu
  split at hu
  · obtain ⟨rfl, hfile⟩ := mem_turnCapture hu
    have hpaused : s.isPaused = true := hinv.files ▸ Bool.ne_false_iff.mp hfile
    have hlast := hinv.pausedLast hrun hpaused
    rw [written_eq, written_eq, if_pos rfl, if_neg (by decide)]
    simp [Status.saved, Status.current, statusOf, withRun, hscan, hpaused, hrun, hlast]
  · exact absurd hu List.not_mem_nil

theorem startPackets_tells (hinv : Inv s) {runNumber : UInt32} {time : WallTime} {pausedPV : Bool}
    (h : startPackets env s runNumber time pausedPV ≠ [] →
      (s.isPaused || pausedPV) = false ∧ s.lastScanIndex = s.scanIndex) :
    Tells env (startPackets env s runNumber time pausedPV)
      (startPackets env s runNumber time pausedPV) := by
  by_cases hnil : startPackets env s runNumber time pausedPV = []
  · rw [hnil]
    exact Tells.nil env
  · obtain ⟨hpaused, hscan⟩ := h hnil
    have hwarned : (withRun s runNumber).resumeBeforeRun env time pausedPV =
        some { withRun s runNumber with lastIsPaused := false } := by
      rw [resumeBeforeRun, if_neg]
      exact Bool.eq_false_iff.mp hpaused
    rw [startPackets, if_neg (Bool.eq_false_iff.mp hpaused), andThen_some hwarned, List.nil_append]
    split
    · apply packetCapture_tells
      · exact ⟨hinv.files, hinv.fresh, ⟨hinv.settled.quiet, hinv.settled.stale⟩, hinv.pausedLast,
          hinv.filled⟩
      · exact fun _ => ⟨hscan, (Bool.or_eq_false_iff.mp hpaused).1.symm⟩
    · exact Tells.nil env

theorem startEnd_tells (hrun : s.inRun = false) {runNumber : UInt32} {time : WallTime}
    {pausedPV connected : Bool} {notesPV : Option (WallTime × Text)}
    (h : andThen (s.beforeNewRun env runNumber time pausedPV notesPV) (endCapture connected) ≠ [] →
      s.scanIndex = 0 ∧ (s.isPaused || pausedPV) = s.isPaused) :
    Tells env (andThen (s.beforeNewRun env runNumber time pausedPV notesPV) (endCapture connected))
      ((andThen (s.beforeNewRun env runNumber time pausedPV notesPV)
        (endCapture connected)).map fun _ => s) := by
  apply tells_map
  intro u hu
  obtain ⟨hscan, hpaused⟩ := h (List.ne_nil_of_mem hu)
  obtain ⟨v, hbegin, hu⟩ := mem_andThen hu
  obtain rfl := mem_endCapture hu
  rw [written_congr (beforeNewRun_captures hbegin).2, written_eq, written_eq, if_pos rfl,
    if_neg (by decide)]
  simp [Status.saved, Status.current, statusOf, begunState, withRun, hscan, hpaused, hrun,
    Status.scanMark, Status.pauseMark, runLabel]

theorem stopTurn_tells (hinv : Inv s) (hsaved : SavedRun s) (hrun : s.inRun = true)
    {pausedPV : Bool} (h : stopTurn s pausedPV ≠ [] → s.scanIndex = 0 ∧ s.lastScanIndex = 0) :
    Tells env (stopTurn s pausedPV) ((stopTurn s pausedPV).map fun _ => s) := by
  apply tells_map
  intro u hu
  obtain ⟨hscan, hlastScan⟩ := h (List.ne_nil_of_mem hu)
  rw [stopTurn] at hu
  split at hu
  · obtain ⟨rfl, hfile⟩ := mem_turnCapture hu
    have hpaused : s.isPaused = true := hinv.files ▸ Bool.ne_false_iff.mp hfile
    obtain ⟨hlast, hnumber⟩ := hsaved hrun hpaused
    rw [written_eq, written_eq, if_pos rfl, if_neg (by decide)]
    simp [Status.saved, Status.current, statusOf, hscan, hlastScan, hpaused, hrun, hlast, hnumber]
  · exact absurd hu List.not_mem_nil

theorem stopEnd_tells (hsaved : SavedRun s) (hrun : s.inRun = true) {time : WallTime}
    {pausedPV connected : Bool}
    (h : andThen (s.runStop env time pausedPV) (endCapture connected) ≠ [] →
      s.scanIndex = 0 ∧ (s.isPaused || pausedPV) = s.isPaused) :
    Tells env (andThen (s.runStop env time pausedPV) (endCapture connected))
      ((andThen (s.runStop env time pausedPV) (endCapture connected)).map fun _ => s) := by
  apply tells_map
  intro u hu
  obtain ⟨hscan, hpaused⟩ := h (List.ne_nil_of_mem hu)
  obtain ⟨v, hstop, hu⟩ := mem_andThen hu
  obtain rfl := mem_endCapture hu
  rw [written_congr (runStop_captures hrun hstop).2, written_eq, written_eq, if_pos rfl,
    if_neg (by decide)]
  cases hnow : s.isPaused with
  | false =>
    rw [hnow] at hpaused
    simp [Status.saved, Status.current, statusOf, endedState, hscan, hpaused, hnow,
      Status.scanMark, Status.pauseMark]
  | true =>
    obtain ⟨-, hnumber⟩ := hsaved hrun hnow
    simp [Status.saved, Status.current, statusOf, endedState, hscan, hnow, hnumber,
      Status.scanMark]

/-- What is captured in a step is what the prologues before it would have been. -/
theorem step_tells {op : Op} (hinv : Inv s) (hsaved : SavedRun s) (h : Good env s op) :
    Tells env (captures env s op) (closings env s op) := by
  cases op with
  | pause r => exact (packetCapture_tells hinv h.1).append (pauseTurn_tells h.2)
  | resume r => exact (resumeTurn_tells h.1).append (resumePacket_tells hinv h.2)
  | startScan r indexPV => exact packetCapture_tells (withScan_inv hinv r indexPV) h
  | stopScan r => exact packetCapture_tells (withScan_inv hinv r 0) h
  | startRun runNumber time pausedPV notesPV connected =>
    rw [captures, closings]
    split
    · exact Tells.nil env
    · next hrun =>
      have hrun' : s.inRun = false := Bool.eq_false_iff.mpr hrun
      obtain ⟨hturn, hpackets, hend⟩ := h hrun'
      exact ((startTurn_tells hinv hrun' hturn).append (startPackets_tells hinv hpackets)).append
        (startEnd_tells hrun' hend)
  | stopRun time pausedPV connected =>
    rw [captures, closings]
    split
    · next hrun =>
      obtain ⟨hturn, hend⟩ := h hrun
      rw [List.map_append]
      exact (stopTurn_tells hinv hsaved hrun hturn).append (stopEnd_tells hsaved hrun hend)
    · exact Tells.nil env
  | data event => exact splitCapture_tells hinv h
  | _ => exact Tells.nil env

/-! ### Runs -/

/-- The states in which a run captures last prologues, and those that it finds there. -/
def captured (env : Markers.Env) (ops : List Op) : List Markers :=
  Runs.collect (step env) (captures env) init ops

def closed (env : Markers.Env) (ops : List Op) : List Markers :=
  Runs.collect (step env) (closings env) init ops

theorem run_marks {ops : List Op} (h : run env ops = some t) :
    marks t.out = (captured env ops).flatMap (written env .captured) :=
  Runs.run_collect (P := Adds env) (fun s => adds_of_out (t := s) rfl) Adds.trans
    (fun _ _ _ => step_marks) h

theorem lasting_true : Markers.Lasting (fun _ => True) fun _ => True :=
  ⟨fun _ _ => trivial, fun _ _ => trivial, fun _ _ => trivial, fun _ _ _ => trivial⟩

theorem step_inv {op : Op} (hinv : Inv s) (h : step env s op = some t) : Inv t := by
  have hallowed : ∀ enabled, op = .setRunNotesUpdates enabled → True := fun _ _ => trivial
  obtain ⟨u, hu, hinv', -⟩ := Markers.step_lasting env lasting_true hallowed hinv trivial
  rwa [Option.some.inj (h.symm.trans hu)]

theorem run_tells {ops : List Op} (h : Runs.along (step env) (Good env) init ops) :
    Tells env (captured env ops) (closed env ops) := by
  refine Runs.collect_along (I := fun s => Inv s ∧ SavedRun s) (Tells.nil env) Tells.append ?_ ?_
    ⟨Markers.init_inv, SavedRun.of_not_paused rfl⟩ h
  · exact fun s op hs hgood => step_tells hs.1 hs.2 hgood
  · exact fun s op t hs ht => ⟨step_inv hs.1 ht, step_savedRun ht hs.2⟩

/-- What a prologue tells of a state: a scan that goes on, with its index, and a pause. -/
structure Describes (s : Markers) (ms : List Mark) : Prop where
  scan : (∃ m ∈ ms, m.1 = .scanStart) ↔ s.scanIndex ≠ 0
  index : ∀ m ∈ ms, m.1 = .scanStart → m.2.1 = s.scanIndex ∧ ∃ tag,
    m.2.2 = "[NEW RUN FILE CONTINUATION] ".toList ++ tag ++ scanLabel s.scanIndex " Started.".toList
  paused : (∃ m ∈ ms, m.1 = .pause) ↔ s.isPaused = true

theorem length_digits (n : UInt32) : (digits n).length ≤ 10 :=
  (Nat.length_toDigits_le_iff (by decide) (by decide)).mpr
    (Nat.lt_of_lt_of_le n.toNat_lt (by decide))

theorem length_runTag (inRun paused : Bool) (runNumber : UInt32) :
    (runTag inRun paused runNumber).length ≤ 24 := by
  have hdigits := length_digits runNumber
  rw [runTag]
  split
  · decide
  · split
    · simp only [List.length_append]
      have h₁ : "[PAUSED Run ".toList.length = 12 := by decide
      have h₂ : "] ".toList.length = 2 := by decide
      omega
    · simp only [List.length_append]
      have h₁ : "[Run ".toList.length = 5 := by decide
      have h₂ : "] ".toList.length = 2 := by decide
      omega

/-- The text of a scan that goes on fits into its packet. -/
theorem take_scanText (inRun paused : Bool) (runNumber scanIndex : UInt32) :
    ("[NEW RUN FILE CONTINUATION] ".toList ++ runTag inRun paused runNumber ++
        scanLabel scanIndex " Started.".toList).take 65535 =
      "[NEW RUN FILE CONTINUATION] ".toList ++ runTag inRun paused runNumber ++
        scanLabel scanIndex " Started.".toList := by
  apply List.take_of_length_le
  have htag := length_runTag inRun paused runNumber
  have hdigits := length_digits scanIndex
  have h₁ : "[NEW RUN FILE CONTINUATION] ".toList.length = 28 := by decide
  have h₂ : "Scan #".toList.length = 6 := by decide
  have h₃ : " Started.".toList.length = 9 := by decide
  -- `delta`, since the equation of `scanLabel` makes Lean decode its text
  have hlabel : (scanLabel scanIndex " Started.".toList).length =
      "Scan #".toList.length + (digits scanIndex).length + " Started.".toList.length := by
    delta scanLabel
    rw [List.length_append, List.length_append]
  simp only [List.length_append]
  omega

theorem mem_scanMark {m : Mark} {scanIndex packetIndex : UInt32} {paused inRun : Bool}
    {runNumber : UInt32} :
    m ∈ Status.scanMark scanIndex packetIndex paused inRun runNumber ↔
      scanIndex ≠ 0 ∧ m = (.scanStart, packetIndex, "[NEW RUN FILE CONTINUATION] ".toList ++
        runTag inRun paused runNumber ++ scanLabel scanIndex " Started.".toList) := by
  rw [← take_scanText, Status.scanMark]
  split
  · next hscan => exact List.mem_singleton.trans (and_iff_right hscan).symm
  · next hscan => exact iff_of_false List.not_mem_nil fun h => hscan h.1

theorem mem_pauseMark {m : Mark} {packetIndex : UInt32} {paused inRun : Bool}
    {runNumber : UInt32} (h : m ∈ Status.pauseMark packetIndex paused inRun runNumber) :
    paused = true ∧ m.1 = .pause := by
  rw [Status.pauseMark] at h
  split at h
  · next hpaused => exact ⟨hpaused, List.mem_singleton.mp h ▸ rfl⟩
  · exact absurd h List.not_mem_nil

theorem exists_pauseMark (packetIndex : UInt32) (inRun : Bool) (runNumber : UInt32) :
    ∃ m ∈ Status.pauseMark packetIndex true inRun runNumber, m.1 = .pause :=
  ⟨_, List.mem_singleton.mpr rfl, rfl⟩

theorem written_describes (env : Markers.Env) (s : Markers) : Describes s (written env .stream s) := by
  rw [written_eq, if_neg (by decide), Status.current]
  refine ⟨⟨?_, ?_⟩, ?_, ⟨?_, ?_⟩⟩
  · rintro ⟨m, hm, htype⟩
    rcases List.mem_append.mp hm with hm | hm
    · exact (mem_scanMark.mp hm).1
    · exact absurd ((mem_pauseMark hm).2.symm.trans htype) (by decide)
  · exact fun hscan => ⟨_, List.mem_append_left _ (mem_scanMark.mpr ⟨hscan, rfl⟩), rfl⟩
  · intro m hm htype
    rcases List.mem_append.mp hm with hm | hm
    · obtain ⟨-, rfl⟩ := mem_scanMark.mp hm
      exact ⟨rfl, _, rfl⟩
    · exact absurd ((mem_pauseMark hm).2.symm.trans htype) (by decide)
  · rintro ⟨m, hm, htype⟩
    rcases List.mem_append.mp hm with hm | hm
    · obtain ⟨-, rfl⟩ := mem_scanMark.mp hm
      cases htype
    · exact (mem_pauseMark hm).1
  · intro hpaused
    have hpaused' : (statusOf s).isPaused = true := hpaused
    rw [hpaused']
    obtain ⟨m, hm, htype⟩ := exists_pauseMark (statusOf s).scanIndex (statusOf s).inRun
      (statusOf s).runNumber
    exact ⟨m, List.mem_append_right _ hm, htype⟩

/-- The last prologues that a run captures are those of the containers before they ended. -/
theorem captured_of_run (env : Markers.Env) (ops : List Op)
    (h : Runs.along (step env) (Good env) init ops) :
    ∃ t, run env ops = some t ∧
      marks t.out = (captured env ops).flatMap (written env .captured) ∧
      (captured env ops).map (written env .captured) =
        (closed env ops).map (written env .stream) ∧
      ∀ s ∈ closed env ops, Describes s (written env .stream s) := by
  obtain ⟨t, ht, -⟩ := Markers.run_lasting env lasting_true ops (fun _ _ _ _ => trivial)
    Markers.init_inv trivial
  exact ⟨t, ht, run_marks ht, run_tells h, fun s _ => written_describes env s⟩

/-- Nothing happens to the files but what requests do. -/
def plainEnv : Markers.Env := ⟨fun _ => .goesOn, fun _ => ⟨0, 0⟩⟩

def noon : WallTime := ⟨⟨43200, 0⟩, by decide⟩

/-- A run with scans and a pause, and data sources at its start and its stop. -/
def pausedRun : List Op :=
  [.startRun 7 noon false none true, .startScan (.ofTime noon) 5, .pause (.ofTime noon),
    .resume (.ofTime noon), .stopScan (.ofTime noon), .stopRun noon false true]

theorem captured_of_run_pausedRun :
    Runs.along (step plainEnv) (Good plainEnv) init pausedRun ∧
      ∃ t, run plainEnv pausedRun = some t ∧
        marks t.out = (captured plainEnv pausedRun).flatMap (written plainEnv .captured) ∧
        (captured plainEnv pausedRun).map (written plainEnv .captured) =
          (closed plainEnv pausedRun).map (written plainEnv .stream) ∧
        ∀ s ∈ closed plainEnv pausedRun, Describes s (written plainEnv .stream s) := by
  have h : Runs.along (step plainEnv) (Good plainEnv) init pausedRun := by
    decide +kernel
  exact ⟨h, captured_of_run plainEnv pausedRun h⟩

/-- A run starts in a scan, with data sources. -/
def scanThenRun : List Op := [.startScan (.ofTime noon) 5, .startRun 7 noon false none true]

/-- The packet of the scan that goes on has no index, and its text has the one it had. -/
theorem not_written_startRun :
    (captured plainEnv scanThenRun).map (written plainEnv .captured) ≠
      (closed plainEnv scanThenRun).map (written plainEnv .stream) := by
  decide +kernel

end Adara.Spec.CapturedPrologue
