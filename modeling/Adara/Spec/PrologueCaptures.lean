import Adara.Spec.MarkerSteps

/-! # Captures of prologues

When a mode or a container ends, `onPrologue` writes a last prologue for it from the last state
that the handlers have saved.  The states in which this happens in a step are listed by
`captures`, and `step_marks` says that they are all. -/

namespace Adara.Spec.CapturedPrologue

open Adara.Native Adara.Native.Markers
open Adara.Spec.Markers (Inv)

variable {env : Markers.Env} {s t u : Markers}

/-! ### Markers of a prologue -/

/-- A marker without its time. -/
abbrev Mark := MarkerType × UInt32 × Text

def markOf (em : Emission) : Mark := (em.marker.type, em.marker.scanIndex, em.marker.comment)

/-- The markers of scans and pauses that go on, in the captured prologues. -/
def marks (out : List Emission) : List Mark :=
  (out.filter fun em => em.sink = .captured ∧ em.origin = .continuation).map markOf

/-- The markers that a prologue has in a state behind the queues. -/
def written (env : Markers.Env) (sink : Sink) (s : Markers) : List Mark :=
  ((s.emitContinuations env sink).out.drop s.out.length).map markOf

/-- What the prologues depend on. -/
structure Status where
  runNumber : UInt32
  lastRunNumber : UInt32
  scanIndex : UInt32
  lastScanIndex : UInt32
  isPaused : Bool
  isPausedPT : Bool
  lastIsPaused : Bool
  inRun : Bool
  lastInRun : Bool

def statusOf (s : Markers) : Status where
  runNumber := s.runNumber
  lastRunNumber := s.lastRunNumber
  scanIndex := s.scanIndex
  lastScanIndex := s.lastScanIndex
  isPaused := s.isPaused
  isPausedPT := s.isPausedPT
  lastIsPaused := s.lastIsPaused
  inRun := s.inRun
  lastInRun := s.lastInRun

namespace Status

/-- The scan that goes on, with the index its packet has. -/
def scanMark (scanIndex packetIndex : UInt32) (isPaused inRun : Bool) (runNumber : UInt32) :
    List Mark :=
  if scanIndex ≠ 0 then
    [markOf ⟨marker ⟨0, 0⟩ .scanStart packetIndex []
      ("[NEW RUN FILE CONTINUATION] ".toList ++ runTag inRun isPaused runNumber ++
        scanLabel scanIndex " Started.".toList), .continuation, .stream⟩]
  else []

def pauseMark (packetIndex : UInt32) (isPaused inRun : Bool) (runNumber : UInt32) : List Mark :=
  if isPaused then
    [markOf ⟨marker ⟨0, 0⟩ .pause packetIndex []
      ("[NEW RUN FILE CONTINUATION] ".toList ++ (if !inRun then "[PRE-RUN] ".toList else []) ++
        runLabel inRun runNumber ++ "Paused.".toList), .continuation, .stream⟩]
  else []

/-- The markers for the current state. -/
def current (c : Status) : List Mark :=
  scanMark c.scanIndex c.scanIndex (c.isPaused || c.isPausedPT) c.inRun c.runNumber ++
    pauseMark c.scanIndex c.isPaused c.inRun c.runNumber

/-- The markers for the saved state, in packets with the current scan index. -/
def saved (c : Status) : List Mark :=
  scanMark c.lastScanIndex c.scanIndex (c.lastIsPaused || c.isPausedPT) c.lastInRun
      c.lastRunNumber ++
    pauseMark c.scanIndex c.lastIsPaused c.lastInRun c.lastRunNumber

end Status

theorem emitPrologue_out (type : MarkerType) (comment : Text) (sink : Sink) (s : Markers) :
    (s.emitPrologue env type comment sink).out =
      s.out ++ [⟨marker (env.now s.out.length) type s.scanIndex [] comment, .continuation, sink⟩] :=
  rfl

/-- A scan that goes on, and a pause, of any state. -/
theorem continuations_out (sink : Sink) (s : Markers) (scanIndex : UInt32)
    (tagPaused isPaused inRun : Bool) (runNumber : UInt32) :
    ∃ ms, (let t :=
          if scanIndex ≠ 0 then
            s.emitPrologue env .scanStart
              ("[NEW RUN FILE CONTINUATION] ".toList ++ runTag inRun tagPaused runNumber ++
                scanLabel scanIndex " Started.".toList) sink
          else s
        if isPaused then
          t.emitPrologue env .pause
            ("[NEW RUN FILE CONTINUATION] ".toList ++ (if !inRun then "[PRE-RUN] ".toList else []) ++
              runLabel inRun runNumber ++ "Paused.".toList) sink
        else t).out = s.out ++ ms ∧
      (∀ em ∈ ms, em.sink = sink ∧ em.origin = .continuation) ∧
      ms.map markOf = Status.scanMark scanIndex s.scanIndex tagPaused inRun runNumber ++
        Status.pauseMark s.scanIndex isPaused inRun runNumber := by
  by_cases hscan : scanIndex ≠ 0
  · simp only [if_pos hscan, Status.scanMark]
    cases isPaused with
    | false =>
      refine ⟨_, emitPrologue_out _ _ _ s, ?_, rfl⟩
      exact List.forall_mem_singleton.mpr ⟨rfl, rfl⟩
    | true =>
      -- the pause comes behind the scan
      refine ⟨_, (emitPrologue_out _ _ _ _).trans (List.append_assoc _ _ _), ?_, rfl⟩
      exact List.forall_mem_cons.mpr ⟨⟨rfl, rfl⟩, List.forall_mem_singleton.mpr ⟨rfl, rfl⟩⟩
  · simp only [if_neg hscan, Status.scanMark]
    cases isPaused with
    | false => exact ⟨[], (List.append_nil _).symm, List.forall_mem_nil _, rfl⟩
    | true =>
      refine ⟨_, emitPrologue_out _ _ _ s, ?_, rfl⟩
      exact List.forall_mem_singleton.mpr ⟨rfl, rfl⟩

theorem emitContinuations_out (env : Markers.Env) (sink : Sink) (s : Markers) :
    ∃ ms, (s.emitContinuations env sink).out = s.out ++ ms ∧
      (∀ em ∈ ms, em.sink = sink ∧ em.origin = .continuation) ∧
      ms.map markOf = if sink = .captured then (statusOf s).saved else (statusOf s).current := by
  by_cases hsink : sink = .captured
  · simp only [emitContinuations, hsink, decide_true, if_true]
    exact continuations_out .captured s s.lastScanIndex (s.lastIsPaused || s.isPausedPT)
      s.lastIsPaused s.lastInRun s.lastRunNumber
  · simp only [emitContinuations, hsink, decide_false, Bool.false_eq_true, if_false]
    exact continuations_out sink s s.scanIndex (s.isPaused || s.isPausedPT) s.isPaused s.inRun
      s.runNumber

/-- What a prologue has depends on the status only. -/
theorem written_eq (env : Markers.Env) (sink : Sink) (s : Markers) :
    written env sink s =
      if sink = .captured then (statusOf s).saved else (statusOf s).current := by
  obtain ⟨ms, hout, -, hms⟩ := emitContinuations_out env sink s
  rw [written, hout, List.drop_left, hms]

/-! ### What a call captures -/

/-- A call adds the prologues of these states to the captured ones. -/
def Adds (env : Markers.Env) (s t : Markers) (us : List Markers) : Prop :=
  marks t.out = marks s.out ++ us.flatMap (written env .captured)

theorem Adds.trans {us vs : List Markers} (h : Adds env s t us) (h' : Adds env t u vs) :
    Adds env s u (us ++ vs) := by
  rw [Adds, h', h, List.flatMap_append, List.append_assoc]

theorem Adds.trans_nil {us : List Markers} (h : Adds env s t us) (h' : Adds env t u []) :
    Adds env s u us := by
  have hall := h.trans h'
  rwa [List.append_nil] at hall

theorem adds_of_out (h : t.out = s.out) : Adds env s t [] := by
  rw [Adds, h]
  exact (List.append_nil _).symm

/-- And it keeps the status. -/
structure Captures (env : Markers.Env) (s t : Markers) (us : List Markers) : Prop where
  status : statusOf t = statusOf s
  adds : Adds env s t us

theorem Captures.refl (env : Markers.Env) (s : Markers) : Captures env s s [] :=
  ⟨rfl, (List.append_nil _).symm⟩

theorem Captures.trans {us vs : List Markers} (h : Captures env s t us) (h' : Captures env t u vs) :
    Captures env s u (us ++ vs) :=
  ⟨h'.status.trans h.status, h.adds.trans h'.adds⟩

theorem marks_append (out out' : List Emission) : marks (out ++ out') = marks out ++ marks out' := by
  rw [marks, List.filter_append, List.map_append]
  rfl

/-- What is emitted for a request or a queue is no mark. -/
theorem marks_eq_nil {ms : List Emission} (h : ∀ em ∈ ms, em.sink = .captured →
    em.origin ≠ .continuation) : marks ms = [] := by
  rw [marks, List.map_eq_nil_iff, List.filter_eq_nil_iff]
  intro em hem hmark
  obtain ⟨hsink, horigin⟩ := of_decide_eq_true hmark
  exact h em hem hsink horigin

theorem put_captures (m : Marker) (o : Origin) (s : Markers) :
    Captures env s (s.put m o .stream) [] := by
  refine ⟨rfl, ?_⟩
  have hnil : marks [⟨m, o, .stream⟩] = [] :=
    marks_eq_nil (List.forall_mem_singleton.mpr nofun)
  show marks (s.out ++ [⟨m, o, .stream⟩]) = _
  rw [marks_append, hnil]
  rfl

theorem dumpRunNotesComment_captures {prologue : Bool} {sink : Sink} (hsink : sink ≠ .captured)
    (h : s.dumpRunNotesComment env prologue sink = some t) : Captures env s t [] := by
  rw [dumpRunNotesComment] at h
  split at h
  · obtain rfl := Option.some.inj h
    exact .refl env s
  · obtain ⟨-, h⟩ := Option.ite_none_right_eq_some.mp h
    obtain rfl := Option.some.inj h
    refine ⟨rfl, ?_⟩
    show marks (s.out ++ [_]) = _
    rw [marks_append, marks_eq_nil (List.forall_mem_singleton.mpr fun h => absurd h hsink)]
    rfl

/-- The packets of a dump are emitted for queues. -/
theorem origin_of_mapM {scanIndex : UInt32} {sink : Sink} {xs : List (Kind × Queued)}
    {ms : List Emission} (h : xs.mapM (emissionOf scanIndex sink) = some ms) :
    ∀ em ∈ ms, em.origin ≠ .continuation := by
  induction xs generalizing ms with
  | nil =>
    obtain rfl := Option.some.inj h
    exact List.forall_mem_nil _
  | cons x xs ih =>
    rw [List.mapM_cons] at h
    obtain ⟨em, hem, h⟩ := Option.bind_eq_some_iff.mp h
    obtain ⟨rest, hrest, h⟩ := Option.bind_eq_some_iff.mp h
    obtain rfl := Option.some.inj h
    obtain ⟨c, -, rfl⟩ := Option.map_eq_some_iff.mp hem
    exact List.forall_mem_cons.mpr ⟨nofun, ih hrest⟩

theorem dumpQueuedComments_captures {prologue : Bool} {sink : Sink}
    (h : s.dumpQueuedComments env prologue sink = some t) : Captures env s t [] := by
  have hdump : ∀ (scanIndex : UInt32) {ms : List Emission} (v : Markers), statusOf v = statusOf s →
      s.queuedInOrder.mapM (emissionOf scanIndex sink) = some ms → v.out = s.out ++ ms →
      Captures env s v [] := by
    intro scanIndex ms v hstatus hms hout
    refine ⟨hstatus, ?_⟩
    rw [Adds, hout, marks_append, marks_eq_nil fun em hem _ => origin_of_mapM hms em hem]
    rfl
  rw [dumpQueuedComments] at h
  by_cases hsink : sink = .captured
  · simp only [hsink, decide_true, if_true] at h hdump
    split at h
    · obtain rfl := Option.some.inj h
      exact .refl env s
    · obtain ⟨-, h⟩ := Option.ite_none_right_eq_some.mp h
      obtain ⟨ms, hms, rfl⟩ := Option.map_eq_some_iff.mp h
      exact hdump _ _ rfl hms rfl
  · simp only [hsink, decide_false, Bool.false_eq_true, if_false] at h
    split at h
    · obtain rfl := Option.some.inj h
      exact .refl env s
    · obtain ⟨-, h⟩ := Option.ite_none_right_eq_some.mp h
      obtain ⟨ms, hms, rfl⟩ := Option.map_eq_some_iff.mp h
      exact hdump _ _ rfl hms rfl

theorem emitContinuations_captures (env : Markers.Env) (sink : Sink) (s : Markers) :
    Captures env s (s.emitContinuations env sink) (if sink = .captured then [s] else []) := by
  refine ⟨?_, ?_⟩
  · have hput : ∀ {c : Prop} [Decidable c] {v : Markers} {type : MarkerType} {text : Text},
        statusOf (if c then v.emitPrologue env type text sink else v) = statusOf v := by
      intro c _ v type text
      split <;> rfl
    exact hput.trans hput
  · obtain ⟨ms, hout, hem, hms⟩ := emitContinuations_out env sink s
    rw [Adds, hout, marks_append]
    split
    · next hsink =>
      have hall : ms.filter (fun em => em.sink = .captured ∧ em.origin = .continuation) = ms :=
        List.filter_eq_self.mpr fun em h => decide_eq_true (hsink ▸ hem em h)
      have hmarks : marks ms = (statusOf s).saved := by
        rw [marks, hall, hms, if_pos hsink]
      rw [hmarks, List.flatMap_singleton, written_eq, if_pos rfl]
    · next hsink =>
      rw [marks_eq_nil fun em h hcaptured => absurd ((hem em h).1.symm.trans hcaptured) hsink]
      rfl

/-- The prologue is the same for states of one status. -/
theorem written_congr (h : statusOf t = statusOf s) (sink : Sink) :
    written env sink t = written env sink s := by
  rw [written_eq, written_eq, h]

/-- A prologue captures if it is for that. -/
theorem onPrologue_captures {sink : Sink} (h : s.onPrologue env sink = some t) :
    Captures env s t (if sink = .captured then [s] else []) := by
  obtain ⟨v, w, hv, hdump, rfl⟩ : ∃ v w, Captures env s v [] ∧
      v.dumpQueuedComments env true sink = some w ∧ w.emitContinuations env sink = t := by
    by_cases hsink : sink = .captured
    · simp only [onPrologue, hsink, if_true, Option.bind_eq_bind, Option.bind_some] at h
      obtain ⟨w, hdump, h⟩ := Option.bind_eq_some_iff.mp h
      exact ⟨s, w, .refl env s, hsink ▸ hdump, hsink ▸ Option.some.inj h⟩
    · simp only [onPrologue, hsink, if_false, Option.bind_eq_bind] at h
      obtain ⟨v, hnotes, h⟩ := Option.bind_eq_some_iff.mp h
      obtain ⟨w, hdump, h⟩ := Option.bind_eq_some_iff.mp h
      exact ⟨v, w, dumpRunNotesComment_captures hsink hnotes, hdump, Option.some.inj h⟩
  have hw := hv.trans (dumpQueuedComments_captures hdump)
  have hall := hw.trans (emitContinuations_captures env sink w)
  refine ⟨hall.status, ?_⟩
  rw [Adds, hall.adds]
  split
  · simp only [List.append_nil, List.nil_append, List.flatMap_singleton]
    rw [written_congr hw.status]
  · rfl

/-! ### Files and modes -/

/-- The state in which a last prologue is captured, if there is none yet. -/
def lastCapture (s : Markers) : List Markers := if s.hasLastPrologue then [] else [s]

/-- A container that is split is kept if a mode of it has ended and there are data sources. -/
def splitCapture (s : Markers) : FileEvent → List Markers
  | .split connected =>
    if s.inRun then [] else if s.modes ≠ 1 ∧ connected = true then lastCapture s else []
  | _ => []

/-- What a packet makes captured that is put out. -/
def packetCapture (env : Markers.Env) (s : Markers) : List Markers :=
  splitCapture s (env.files s.out.length)

/-- The file is to be a paused one or not, and the mode ends if it is of the other kind. -/
def turnCapture (paused : Bool) (s : Markers) : List Markers :=
  if s.filePaused = paused then [] else lastCapture s

theorem newFile_captures (h : s.newFile env = some t) : Captures env s t [] := by
  rw [newFile] at h
  split at h
  · obtain rfl := Option.some.inj h
    exact .refl env s
  · exact onPrologue_captures h

theorem captureLast_captures (h : s.captureLast env = some t) :
    Captures env s t (lastCapture s) := by
  rw [captureLast] at h
  rw [lastCapture]
  split at h
  · next hlast =>
    obtain rfl := Option.some.inj h
    rw [if_pos hlast]
    exact .refl env s
  · next hlast =>
    rw [if_neg hlast]
    exact onPrologue_captures h

theorem captureIf_captures {kept : Bool} (h : s.captureIf env kept = some t) :
    Captures env s t (if kept then lastCapture s else []) := by
  rw [captureIf] at h
  split at h
  · next hkept =>
    rw [if_pos hkept]
    exact captureLast_captures h
  · next hkept =>
    obtain rfl := Option.some.inj h
    rw [if_neg hkept]
    exact .refl env s

/-- What the storage manager knows of its current mode does not matter. -/
theorem Captures.file {us : List Markers} (h : Captures env s t us) (filePaused : Bool)
    (modes : Nat) (hasLastPrologue : Bool) :
    Captures env s { t with
      modes := modes, hasLastPrologue := hasLastPrologue, filePaused := filePaused } us :=
  ⟨h.status, h.adds⟩

theorem turnMode_captures {paused : Bool} (h : s.turnMode env paused = some t) :
    Captures env s t (lastCapture s) := by
  obtain ⟨u, hlast, h⟩ := Option.bind_eq_some_iff.mp h
  have hall := ((captureLast_captures hlast).file paused (u.modes + 1) false).trans
    (newFile_captures h)
  rwa [List.append_nil] at hall

theorem pauseRecording_captures (h : s.pauseRecording env = some t) :
    Captures env s t (turnCapture true s) := by
  rw [pauseRecording] at h
  rw [turnCapture]
  split at h
  · next hfile =>
    obtain rfl := Option.some.inj h
    rw [if_pos hfile]
    exact .refl env s
  · next hfile =>
    rw [if_neg hfile]
    exact turnMode_captures h

theorem resumeRecording_captures (h : s.resumeRecording env = some t) :
    Captures env s t (turnCapture false s) := by
  rw [resumeRecording] at h
  rw [turnCapture]
  split at h
  · next hfile =>
    rw [if_neg (by rw [hfile]; decide)]
    exact turnMode_captures h
  · next hfile =>
    obtain rfl := Option.some.inj h
    rw [if_pos (Bool.eq_false_iff.mpr hfile)]
    exact .refl env s

theorem switchContainer_captures {connected : Bool} (h : s.switchContainer env connected = some t) :
    Captures env s t (if connected then lastCapture s else []) := by
  obtain ⟨u, hlast, h⟩ := Option.bind_eq_some_iff.mp h
  have hall := ((captureIf_captures hlast).file false 1 false).trans (newFile_captures h)
  rwa [List.append_nil] at hall

theorem splitContainer_captures {connected : Bool} (h : s.splitContainer env connected = some t) :
    Captures env s t (if s.modes ≠ 1 ∧ connected = true then lastCapture s else []) := by
  obtain ⟨u, hlast, h⟩ := Option.bind_eq_some_iff.mp h
  have hkept := captureIf_captures hlast
  simp only [Bool.and_eq_true, decide_eq_true_iff] at hkept
  have hall := (hkept.file u.filePaused 1 (u.hasLastPrologue ||
    (decide (s.modes ≠ 1) && connected))).trans (newFile_captures h)
  rwa [List.append_nil] at hall

theorem beforeWrite_captures {event : FileEvent} (h : s.beforeWrite env event = some t) :
    Captures env s t (splitCapture s event) := by
  cases event with
  | goesOn =>
    obtain rfl := Option.some.inj h
    exact .refl env s
  | full => exact newFile_captures h
  | split connected =>
    rw [beforeWrite] at h
    rw [splitCapture]
    split at h
    · next hrun =>
      rw [if_pos hrun]
      exact newFile_captures h
    · next hrun =>
      rw [if_neg hrun]
      exact splitContainer_captures h
  | snapshot =>
    obtain rfl := Option.some.inj h
    exact .refl env s

theorem afterWrite_captures {event : FileEvent} (h : s.afterWrite env event = some t) :
    Captures env s t [] := by
  cases event with
  | snapshot =>
    have hprologue : s.onPrologue env .snapshot = some t := h
    exact onPrologue_captures hprologue
  | _ =>
    obtain rfl := Option.some.inj h
    exact .refl env s

theorem emitPacket_captures {m : Marker} {o : Origin} (h : s.emitPacket env m o = some t) :
    Captures env s t (packetCapture env s) := by
  obtain ⟨u, hbefore, hafter⟩ := Option.bind_eq_some_iff.mp h
  have hall := ((beforeWrite_captures hbefore).trans (put_captures m o u)).trans
    (afterWrite_captures hafter)
  rwa [List.append_nil, List.append_nil] at hall

/-- In a run no container is split. -/
theorem packetCapture_inRun (h : s.inRun = true) : packetCapture env s = [] := by
  rw [packetCapture]
  cases env.files s.out.length with
  | split connected => rw [splitCapture, if_pos h]
  | _ => rfl

/-! ### Captures of a step -/

/-- The captures from the state a call comes to. -/
def andThen (r : Option Markers) (f : Markers → List Markers) : List Markers := r.toList.flatMap f

theorem andThen_some {f : Markers → List Markers} {r : Option Markers} (h : r = some t) :
    andThen r f = f t := by
  rw [h]
  exact List.flatMap_singleton f t

/-- The packet of a pause. -/
def pausePacket (s : Markers) (r : Request) : Marker :=
  marker r.time.toStamp .pause (r.scanIndex s) (runLabel s.inRun s.runNumber ++ "Paused.".toList)
    (if r.passThru ≠ .ignore then r.ptComment else [])

/-- The mode that a pause ends. -/
def pauseTurn (env : Markers.Env) (s : Markers) (r : Request) : List Markers :=
  andThen (s.emitPacket env (pausePacket s r) .request) fun u =>
    if r.passThru ≠ .passThru then
      turnCapture true { u.saveLast (r.scanIndex s) with isPaused := true }
    else []

/-- The mode that a resume ends. -/
def resumeTurn (s : Markers) (r : Request) : List Markers :=
  if r.passThru ≠ .passThru then
    turnCapture false { s.saveLast (r.scanIndex s) with isPaused := false }
  else []

/-- The state with the index of a scan that starts or stops. -/
def withScan (s : Markers) (r : Request) (scanIndex : UInt32) : Markers :=
  if r.passThru ≠ .ignore then s
  else { s with scanIndex := scanIndex, lastScanIndex := scanIndex }

/-- The state with the number of a run that starts. -/
def withRun (s : Markers) (runNumber : UInt32) : Markers :=
  { s with lastRunNumber := s.runNumber, runNumber := runNumber }

/-- The mode that the start of a run ends, if it is paused. -/
def startTurn (s : Markers) (runNumber : UInt32) (pausedPV : Bool) : List Markers :=
  if s.isPaused || pausedPV then
    turnCapture false { withRun s runNumber with lastIsPaused := true, isPaused := false }
  else []

/-- The packets at the start of a run. -/
def startPackets (env : Markers.Env) (s : Markers) (runNumber : UInt32) (time : WallTime)
    (pausedPV : Bool) : List Markers :=
  (if s.isPaused || pausedPV then
    andThen ({ withRun s runNumber with
      lastIsPaused := true, isPaused := false }.resumeRecording env) (packetCapture env)
  else []) ++
    andThen ((withRun s runNumber).resumeBeforeRun env time pausedPV) fun u =>
      if u.scanIndex ≠ 0 then packetCapture env u else []

/-- The mode that the stop of a run ends, if it is paused. -/
def stopTurn (s : Markers) (pausedPV : Bool) : List Markers :=
  if s.isPaused || pausedPV then
    turnCapture false { s with lastIsPaused := true, isPaused := false, scanIndex := 0 }
  else []

/-- The container that ends with the state there is then. -/
def endCapture (connected : Bool) (u : Markers) : List Markers :=
  if connected then lastCapture u else []

/-- The states in which a step captures a last prologue. -/
def captures (env : Markers.Env) (s : Markers) : Op → List Markers
  | .pause r => packetCapture env s ++ pauseTurn env s r
  | .resume r =>
    resumeTurn s r ++ andThen (s.resumeMode env r (r.scanIndex s)) (packetCapture env)
  | .startScan r indexPV => packetCapture env (withScan s r indexPV)
  | .stopScan r => packetCapture env (withScan s r 0)
  | .startRun runNumber time pausedPV notesPV connected =>
    if s.inRun then []
    else
      startTurn s runNumber pausedPV ++ startPackets env s runNumber time pausedPV ++
        andThen (s.beforeNewRun env runNumber time pausedPV notesPV) (endCapture connected)
  | .stopRun time pausedPV connected =>
    if s.inRun then
      stopTurn s pausedPV ++ andThen (s.runStop env time pausedPV) (endCapture connected)
    else []
  | .data event => splitCapture s event
  -- comments go to the stream in a run only
  | _ => []

/-! ### Requests -/

/-- What is queued or noted does not matter. -/
theorem captures_of_eq (hstatus : statusOf t = statusOf s) (hout : t.out = s.out) :
    Captures env s t [] :=
  ⟨hstatus, adds_of_out hout⟩

theorem pushBeforeRun_captures (env : Markers.Env) (s : Markers) (e : Entry) :
    Captures env s (s.pushBeforeRun e) [] := by
  rw [pushBeforeRun]
  split
  · exact .refl env s
  · exact captures_of_eq rfl rfl

theorem emitPacket_inRun {m : Marker} {o : Origin} (hrun : s.inRun = true)
    (h : s.emitPacket env m o = some t) : Captures env s t [] := by
  have hpacket := emitPacket_captures h
  rwa [packetCapture_inRun hrun] at hpacket

/-- The state after a pause, without what was put out. -/
def pausedState (s : Markers) (r : Request) : Markers :=
  if r.passThru ≠ .passThru then { s.saveLast (r.scanIndex s) with isPaused := true }
  else { s with isPausedPT := true }

theorem saveLast_status (h : statusOf u = statusOf s) (scanIndex : UInt32) (isPaused : Bool) :
    statusOf { u.saveLast scanIndex with isPaused := isPaused } =
      statusOf { s.saveLast scanIndex with isPaused := isPaused } := by
  simp only [statusOf, Status.mk.injEq] at h
  simp [statusOf, saveLast, h]

theorem withPausedPT_status (h : statusOf u = statusOf s) (isPausedPT : Bool) :
    statusOf { u with isPausedPT := isPausedPT } = statusOf { s with isPausedPT := isPausedPT } := by
  simp only [statusOf, Status.mk.injEq] at h
  simp [statusOf, h]

theorem pauseMode_captures {r : Request} {scanIndex : UInt32}
    (h : s.pauseMode env r scanIndex = some t) :
    Adds env s t (if r.passThru ≠ .passThru then
        turnCapture true { s.saveLast scanIndex with isPaused := true } else []) ∧
      statusOf t = statusOf (if r.passThru ≠ .passThru then
        { s.saveLast scanIndex with isPaused := true } else { s with isPausedPT := true }) := by
  rw [pauseMode] at h
  split at h
  · next hpass =>
    rw [if_pos hpass, if_pos hpass]
    have hturn := pauseRecording_captures h
    exact ⟨hturn.adds, hturn.status⟩
  · next hpass =>
    obtain rfl := Option.some.inj h
    rw [if_neg hpass, if_neg hpass]
    exact ⟨adds_of_out rfl, rfl⟩

theorem resumeMode_captures {r : Request} (h : s.resumeMode env r (r.scanIndex s) = some t) :
    Adds env s t (resumeTurn s r) ∧
      statusOf t = statusOf (if r.passThru ≠ .passThru then
        { s.saveLast (r.scanIndex s) with isPaused := false }
      else { s with isPausedPT := false }) := by
  rw [resumeMode] at h
  rw [resumeTurn]
  split at h
  · next hpass =>
    rw [if_pos hpass, if_pos hpass]
    have hturn := resumeRecording_captures h
    exact ⟨hturn.adds, hturn.status⟩
  · next hpass =>
    obtain rfl := Option.some.inj h
    rw [if_neg hpass, if_neg hpass]
    exact ⟨adds_of_out rfl, rfl⟩

theorem pause_captures {r : Request} (h : s.pause env r = some t) :
    Adds env s t (packetCapture env s ++ pauseTurn env s r) ∧
      statusOf t = statusOf (pausedState s r) := by
  obtain ⟨u, hpacket, h⟩ := Option.bind_eq_some_iff.mp h
  obtain ⟨v, hmode, h⟩ := Option.bind_eq_some_iff.mp h
  obtain rfl := Option.some.inj h
  have hu := emitPacket_captures hpacket
  obtain ⟨hturn, hstatus⟩ := pauseMode_captures hmode
  have hpush := pushBeforeRun_captures env v
  have hpauseTurn : pauseTurn env s r = if r.passThru ≠ .passThru then
      turnCapture true { u.saveLast (r.scanIndex s) with isPaused := true } else [] :=
    andThen_some hpacket
  refine ⟨?_, (hpush _).status.trans (hstatus.trans ?_)⟩
  · rw [hpauseTurn]
    exact (hu.adds.trans hturn).trans_nil (hpush _).adds
  · rw [pausedState]
    split
    · exact saveLast_status hu.status _ _
    · exact withPausedPT_status hu.status _

theorem resume_captures {r : Request} (h : s.resume env r = some t) :
    Adds env s t (captures env s (.resume r)) ∧
      statusOf t = statusOf (if r.passThru ≠ .passThru then
        { s.saveLast (r.scanIndex s) with isPaused := false }
      else { s with isPausedPT := false }) := by
  obtain ⟨u, hmode, h⟩ := Option.bind_eq_some_iff.mp h
  obtain ⟨v, hpacket, h⟩ := Option.bind_eq_some_iff.mp h
  obtain rfl := Option.some.inj h
  obtain ⟨hturn, hstatus⟩ := resumeMode_captures hmode
  have hv := emitPacket_captures hpacket
  have hpush := pushBeforeRun_captures env v
  refine ⟨?_, (hpush _).status.trans (hv.status.trans hstatus)⟩
  rw [captures, andThen_some hmode]
  exact (hturn.trans hv.adds).trans_nil (hpush _).adds

theorem scanPacket_captures {kind : Kind} {verb : Text} {r : Request} {scanIndex : UInt32}
    (h : s.scanPacket env kind verb r scanIndex = some t) :
    Captures env s t (packetCapture env s) := by
  obtain ⟨u, hpacket, h⟩ := Option.bind_eq_some_iff.mp h
  have hu := emitPacket_captures hpacket
  split at h
  · obtain rfl := Option.some.inj h
    exact hu
  · obtain rfl := Option.some.inj h
    exact ⟨hu.status, hu.adds⟩

theorem startScan_captures {r : Request} {indexPV : UInt32}
    (h : s.startScan env r indexPV = some t) :
    Captures env (withScan s r indexPV) t (packetCapture env (withScan s r indexPV)) := by
  rw [startScan] at h
  rw [withScan]
  split at h
  · next hpass =>
    rw [if_pos hpass]
    exact scanPacket_captures h
  · next hpass =>
    rw [if_neg hpass]
    exact scanPacket_captures h

theorem stopScan_captures {r : Request} (h : s.stopScan env r = some t) :
    Captures env (withScan s r 0) t (packetCapture env (withScan s r 0)) := by
  rw [stopScan] at h
  rw [withScan]
  split at h
  · next hpass =>
    rw [if_pos hpass]
    exact scanPacket_captures h
  · next hpass =>
    rw [if_neg hpass]
    exact scanPacket_captures h

theorem comment_captures {kind : Kind} {time : Stamp} {scanIndex : UInt32} {label text : Text}
    (h : s.comment env kind time scanIndex label text = some t) : Captures env s t [] := by
  rw [Markers.comment] at h
  split at h
  · next hrun =>
    exact emitPacket_inRun (Bool.and_eq_true_iff.mp hrun).1 h
  · obtain rfl := Option.some.inj h
    exact captures_of_eq rfl rfl

theorem addNote_captures {time : Stamp} {scanIndex : UInt32} {text : Text}
    (h : s.addNote env time scanIndex text = some t) : Captures env s t [] := by
  rw [addNote] at h
  split at h
  · next hrun =>
    have hrun' := (Bool.and_eq_true_iff.mp hrun).1
    split at h
    all_goals
      obtain ⟨u, hpacket, h⟩ := Option.bind_eq_some_iff.mp h
      obtain rfl := Option.some.inj h
      have hu := emitPacket_inRun hrun' hpacket
      exact ⟨hu.status, hu.adds⟩
  · obtain rfl := Option.some.inj h
    exact captures_of_eq rfl rfl

/-! ### Starts and stops of runs -/

theorem resumeBeforeRun_captures {time : WallTime} {pausedPV : Bool}
    (h : s.resumeBeforeRun env time pausedPV = some t) :
    Adds env s t (if s.isPaused || pausedPV then
        turnCapture false { s with lastIsPaused := true, isPaused := false } ++
          andThen ({ s with lastIsPaused := true, isPaused := false }.resumeRecording env)
            (packetCapture env)
      else []) ∧
      statusOf t = statusOf { s with
        lastIsPaused := s.isPaused || pausedPV, isPaused := false } := by
  rw [resumeBeforeRun] at h
  split at h
  · next hpaused =>
    obtain ⟨u, hresume, h⟩ := Option.bind_eq_some_iff.mp h
    obtain ⟨v, hpacket, h⟩ := Option.bind_eq_some_iff.mp h
    obtain rfl := Option.some.inj h
    have hu := resumeRecording_captures hresume
    have hv := emitPacket_captures hpacket
    rw [if_pos hpaused, hpaused, andThen_some hresume]
    exact ⟨hu.adds.trans hv.adds, hv.status.trans hu.status⟩
  · next hpaused =>
    obtain rfl := Option.some.inj h
    rw [if_neg hpaused, Bool.eq_false_iff.mpr hpaused]
    have hnone : s.isPaused = false := (Bool.or_eq_false_iff.mp (Bool.eq_false_iff.mpr hpaused)).1
    exact ⟨adds_of_out rfl, by simp [statusOf, hnone]⟩

theorem stopScanBeforeRun_captures {time : WallTime} (h : s.stopScanBeforeRun env time = some t) :
    Adds env s t (if s.scanIndex ≠ 0 then packetCapture env s else []) ∧
      statusOf t = statusOf { s with lastScanIndex := s.scanIndex, scanIndex := 0 } := by
  rw [stopScanBeforeRun] at h
  split at h
  · next hscan =>
    obtain ⟨u, hpacket, h⟩ := Option.bind_eq_some_iff.mp h
    obtain rfl := Option.some.inj h
    have hu := emitPacket_captures hpacket
    have hstatus := hu.status
    simp only [statusOf, Status.mk.injEq] at hstatus
    rw [if_pos hscan]
    exact ⟨hu.adds, by simp [statusOf, push, hstatus]⟩
  · next hscan =>
    obtain rfl := Option.some.inj h
    rw [if_neg hscan]
    have hzero : s.scanIndex = 0 := Decidable.not_not.mp hscan
    exact ⟨adds_of_out rfl, by simp [statusOf, hzero]⟩

theorem reuseNotes_captures {notesPV : Option (WallTime × Text)}
    (h : s.reuseNotes env notesPV = some t) : Captures env s t [] := by
  cases notesPV with
  | none =>
    obtain rfl := Option.some.inj h
    exact .refl env s
  | some note =>
    rw [reuseNotes] at h
    split at h
    · exact addNote_captures h
    · obtain rfl := Option.some.inj h
      exact .refl env s

/-- The state after the first part of a run's start, without what was put out. -/
def begunState (s : Markers) (runNumber : UInt32) (pausedPV : Bool) : Markers :=
  { withRun s runNumber with
    lastIsPaused := s.isPaused || pausedPV
    isPaused := false
    lastScanIndex := s.scanIndex
    scanIndex := 0
    lastInRun := s.inRun
    inRun := true }

theorem beforeNewRun_captures {runNumber : UInt32} {time : WallTime} {pausedPV : Bool}
    {notesPV : Option (WallTime × Text)}
    (h : s.beforeNewRun env runNumber time pausedPV notesPV = some t) :
    Adds env s t (startTurn s runNumber pausedPV ++ startPackets env s runNumber time pausedPV) ∧
      statusOf t = statusOf (begunState s runNumber pausedPV) := by
  obtain ⟨u, hresume, h⟩ := Option.bind_eq_some_iff.mp h
  obtain ⟨v, hscan, h⟩ := Option.bind_eq_some_iff.mp h
  obtain ⟨w, hnotes, h⟩ := Option.bind_eq_some_iff.mp h
  obtain rfl := Option.some.inj h
  obtain ⟨hadds₁, hstatus₁⟩ := resumeBeforeRun_captures hresume
  obtain ⟨hadds₂, hstatus₂⟩ := stopScanBeforeRun_captures hscan
  have hnotes' := reuseNotes_captures hnotes
  have hlist : startTurn s runNumber pausedPV ++ startPackets env s runNumber time pausedPV =
      (if s.isPaused || pausedPV then
        turnCapture false { withRun s runNumber with lastIsPaused := true, isPaused := false } ++
          andThen ({ withRun s runNumber with
            lastIsPaused := true, isPaused := false }.resumeRecording env) (packetCapture env)
      else []) ++ if u.scanIndex ≠ 0 then packetCapture env u else [] := by
    have hscan' : andThen ((withRun s runNumber).resumeBeforeRun env time pausedPV)
        (fun u => if u.scanIndex ≠ 0 then packetCapture env u else []) =
          if u.scanIndex ≠ 0 then packetCapture env u else [] := andThen_some hresume
    rw [startTurn, startPackets, hscan', ← List.append_assoc]
    split
    · rfl
    · rfl
  have hadds : Adds env s v
      (startTurn s runNumber pausedPV ++ startPackets env s runNumber time pausedPV) := by
    rw [hlist]
    exact hadds₁.trans hadds₂
  refine ⟨hadds.trans_nil hnotes'.adds, ?_⟩
  have hstatus₃ := hnotes'.status
  simp only [statusOf, push, Status.mk.injEq] at hstatus₁ hstatus₂ hstatus₃
  simp [statusOf, begunState, withRun, hstatus₁, hstatus₂, hstatus₃]

/-- The state after the first part of a run's stop, without what was put out. -/
def endedState (s : Markers) (pausedPV : Bool) : Markers :=
  { s with
    lastIsPaused := s.isPaused || pausedPV
    isPaused := false
    lastScanIndex := s.scanIndex
    scanIndex := 0
    lastInRun := s.inRun
    inRun := false }

theorem resumeBeforeStop_captures {time : WallTime} {pausedPV : Bool} (hrun : s.inRun = true)
    (h : s.resumeBeforeStop env time pausedPV = some t) :
    Adds env s t (stopTurn s pausedPV) ∧
      statusOf t = statusOf { s with
        lastIsPaused := s.isPaused || pausedPV, isPaused := false } := by
  rw [resumeBeforeStop] at h
  rw [stopTurn]
  split at h
  · next hpaused =>
    obtain ⟨u, hresume, h⟩ := Option.bind_eq_some_iff.mp h
    obtain ⟨v, hnotes, h⟩ := Option.bind_eq_some_iff.mp h
    obtain ⟨w, hdump, h⟩ := Option.bind_eq_some_iff.mp h
    have hu := resumeRecording_captures hresume
    have hv := dumpRunNotesComment_captures (by decide) hnotes
    have hw := hv.trans (dumpQueuedComments_captures hdump)
    have hstatus₁ := hu.status
    have hstatus₂ := hw.status
    simp only [statusOf, Status.mk.injEq] at hstatus₁ hstatus₂
    have hrun' : w.inRun = true := by simp [hstatus₁, hstatus₂, hrun]
    have ht := hw.trans (emitPacket_inRun hrun' h)
    have hstatus₃ := ht.status
    simp only [statusOf, Status.mk.injEq] at hstatus₃
    rw [if_pos hpaused, hpaused]
    -- the scan index is back before anything is put out
    have hadds : Adds env s u _ := hu.adds
    exact ⟨hadds.trans_nil ht.adds, by simp [statusOf, hstatus₁, hstatus₃]⟩
  · next hpaused =>
    obtain rfl := Option.some.inj h
    rw [if_neg hpaused, Bool.eq_false_iff.mpr hpaused]
    have hnone : s.isPaused = false := (Bool.or_eq_false_iff.mp (Bool.eq_false_iff.mpr hpaused)).1
    exact ⟨adds_of_out rfl, by simp [statusOf, hnone]⟩

theorem stopScanBeforeStop_captures {time : WallTime} (hrun : s.inRun = true)
    (h : s.stopScanBeforeStop env time = some t) :
    Adds env s t [] ∧
      statusOf t = statusOf { s with lastScanIndex := s.scanIndex, scanIndex := 0 } := by
  rw [stopScanBeforeStop] at h
  split at h
  · obtain ⟨u, hpacket, h⟩ := Option.bind_eq_some_iff.mp h
    obtain rfl := Option.some.inj h
    have hu := emitPacket_inRun hrun hpacket
    have hstatus := hu.status
    simp only [statusOf, Status.mk.injEq] at hstatus
    exact ⟨hu.adds, by simp [statusOf, hstatus]⟩
  · next hscan =>
    obtain rfl := Option.some.inj h
    have hzero : s.scanIndex = 0 := Decidable.not_not.mp hscan
    exact ⟨adds_of_out rfl, by simp [statusOf, hzero]⟩

theorem runStop_captures {time : WallTime} {pausedPV : Bool} (hrun : s.inRun = true)
    (h : s.runStop env time pausedPV = some t) :
    Adds env s t (stopTurn s pausedPV) ∧ statusOf t = statusOf (endedState s pausedPV) := by
  obtain ⟨u, hresume, h⟩ := Option.bind_eq_some_iff.mp h
  obtain ⟨v, hnotes, h⟩ := Option.bind_eq_some_iff.mp h
  obtain ⟨w, hdump, h⟩ := Option.bind_eq_some_iff.mp h
  obtain ⟨x, hscan, h⟩ := Option.bind_eq_some_iff.mp h
  obtain ⟨y, hpacket, h⟩ := Option.bind_eq_some_iff.mp h
  obtain rfl := Option.some.inj h
  obtain ⟨hadds₁, hstatus₁⟩ := resumeBeforeStop_captures hrun hresume
  have hw := (dumpRunNotesComment_captures (by decide) hnotes).trans
    (dumpQueuedComments_captures hdump)
  have hstatus₂ := hw.status
  simp only [statusOf, Status.mk.injEq] at hstatus₁ hstatus₂
  have hrun₁ : w.inRun = true := by simp [hstatus₁, hstatus₂, hrun]
  obtain ⟨hadds₂, hstatus₃⟩ := stopScanBeforeStop_captures hrun₁ hscan
  simp only [statusOf, Status.mk.injEq] at hstatus₃
  have hrun₂ : x.inRun = true := by simp [hstatus₃, hrun₁]
  have hy := emitPacket_inRun hrun₂ hpacket
  have hstatus₄ := hy.status
  simp only [statusOf, Status.mk.injEq] at hstatus₄
  refine ⟨((hadds₁.trans_nil hw.adds).trans_nil hadds₂).trans_nil hy.adds, ?_⟩
  simp [statusOf, endedState, hstatus₁, hstatus₂, hstatus₃, hstatus₄]

/-! ### Steps -/

theorem withScan_out (s : Markers) (r : Request) (scanIndex : UInt32) :
    (withScan s r scanIndex).out = s.out := by
  rw [withScan]
  split <;> rfl

theorem startRun_captures {runNumber : UInt32} {time : WallTime} {pausedPV : Bool}
    {notesPV : Option (WallTime × Text)} {connected : Bool} (hrun : s.inRun = false)
    (h : s.startRun env runNumber time pausedPV notesPV connected = some t) :
    Adds env s t (captures env s (.startRun runNumber time pausedPV notesPV connected)) ∧
      statusOf t = statusOf (begunState s runNumber pausedPV) := by
  rw [startRun, if_neg (by simp [hrun])] at h
  obtain ⟨u, hbegin, hswitch⟩ := Option.bind_eq_some_iff.mp h
  obtain ⟨hadds, hstatus⟩ := beforeNewRun_captures hbegin
  have ht := switchContainer_captures hswitch
  refine ⟨?_, ht.status.trans hstatus⟩
  rw [captures, if_neg (by simp [hrun]), andThen_some hbegin]
  exact hadds.trans ht.adds

theorem stopRun_captures {time : WallTime} {pausedPV connected : Bool} (hrun : s.inRun = true)
    (h : s.stopRun env time pausedPV connected = some t) :
    Adds env s t (captures env s (.stopRun time pausedPV connected)) ∧
      statusOf t = statusOf (endedState s pausedPV) := by
  rw [stopRun, if_neg (by simp [hrun])] at h
  obtain ⟨u, hstop, hswitch⟩ := Option.bind_eq_some_iff.mp h
  obtain ⟨hadds, hstatus⟩ := runStop_captures hrun hstop
  have ht := switchContainer_captures hswitch
  refine ⟨?_, ht.status.trans hstatus⟩
  rw [captures, if_pos hrun, andThen_some hstop]
  exact hadds.trans ht.adds

theorem data_captures {event : FileEvent} (h : step env s (.data event) = some t) :
    Captures env s t (splitCapture s event) := by
  obtain ⟨u, hbefore, hafter⟩ := Option.bind_eq_some_iff.mp h
  have hall := (beforeWrite_captures hbefore).trans (afterWrite_captures hafter)
  rwa [List.append_nil] at hall

/-- A step captures in these states and in no others. -/
theorem step_marks {op : Op} (h : step env s op = some t) : Adds env s t (captures env s op) := by
  cases op with
  | pause r => exact (pause_captures h).1
  | resume r => exact (resume_captures h).1
  | startScan r indexPV =>
    have hadds := (startScan_captures h).adds
    rwa [Adds, withScan_out] at hadds
  | stopScan r =>
    have hadds := (stopScan_captures h).adds
    rwa [Adds, withScan_out] at hadds
  | annotate r pv => exact (comment_captures h).adds
  | addAnnotationComment r pv => exact (comment_captures h).adds
  | addScanComment r pv => exact (comment_captures h).adds
  | addSystemComment time scanIndex text => exact (comment_captures h).adds
  | addRunComment r pv => exact (addNote_captures h).adds
  | addNotesComment r pv => exact (addNote_captures h).adds
  | startRun runNumber time pausedPV notesPV connected =>
    cases hrun : s.inRun with
    | false => exact (startRun_captures hrun h).1
    | true =>
      rw [step, startRun, if_pos hrun] at h
      rw [captures, if_pos hrun]
      obtain rfl := Option.some.inj h
      exact adds_of_out rfl
  | stopRun time pausedPV connected =>
    cases hrun : s.inRun with
    | false =>
      rw [step, stopRun, if_pos (by rw [hrun]; rfl)] at h
      rw [captures, if_neg (by simp [hrun])]
      obtain rfl := Option.some.inj h
      exact adds_of_out rfl
    | true => exact (stopRun_captures hrun h).1
  | data event => exact (data_captures h).adds
  | expire modes =>
    obtain rfl := Option.some.inj h
    exact adds_of_out rfl
  | setRunNotesUpdates enabled =>
    obtain rfl := Option.some.inj h
    exact adds_of_out rfl

end Adara.Spec.CapturedPrologue
