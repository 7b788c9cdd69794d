import Adara.ForStd.QueueMerge
import Adara.ForStd.Runs
import Adara.Native.AutoSave

/-! # Markers

`Markers` puts the operators' pauses, scans and comments into the stream.  What comes before a
run, or while it is paused, is also queued, or only queued, and is dumped when the run has
begun, or is resumed: each new file starts with a prologue, and `onPrologue` dumps the queues
into it.

Files are begun by the storage manager, of which the model has just what decides when it calls
`onPrologue`.  A packet may find its file full, and the first file of a pause mode begins when
the mode does; when a mode or a container ends, a last prologue is captured for it.

A step has no result (`none`) where a queue is dumped while one of its entries starts a file:
`onPrologue` is called inside of the loop then, and clears the queues under its iterators. -/

namespace Adara.Native

namespace Markers

/-- Comments as bytes. -/
abbrev Text := List Char

/-! ### Times -/

/-- A wallclock time. -/
structure Stamp where
  sec : Nat
  nsec : Nat
deriving DecidableEq, Repr

namespace Stamp

/-- `timespec_to_nsec` -/
def nanos (t : Stamp) : Nat := (t.sec * 1000000000 + t.nsec) % 2 ^ 64

/-- The next nanosecond. -/
def succ (t : Stamp) : Stamp :=
  if 1000000000 ≤ t.nsec + 1 then ⟨t.sec + 1, t.nsec + 1 - 1000000000⟩ else ⟨t.sec, t.nsec + 1⟩

end Stamp

/-- A time that comes with a request: 64 bits hold its nanoseconds, and those after it. -/
structure WallTime extends Stamp where
  fits : sec * 1000000000 + nsec + 2 < 2 ^ 64
deriving DecidableEq

/-! ### Packets -/

/-- `ADARA::MarkerType` -/
inductive MarkerType where
  | generic
  | scanStart
  | scanStop
  | pause
  | resume
  | overallRunComment
  | system
deriving DecidableEq, Repr

/-- The contents of a stream annotation. -/
structure Marker where
  time : Stamp
  type : MarkerType
  scanIndex : UInt32
  comment : Text
deriving DecidableEq, Repr

/-- The packet `emitPacket` makes: "We only allow so much content..." -/
def marker (time : Stamp) (type : MarkerType) (scanIndex : UInt32) (label comment : Text) :
    Marker where
  time := time
  type := type
  scanIndex := if type = .overallRunComment then 0 else scanIndex
  comment := (label ++ comment).take 65535

/-! ### Queues -/

/-- The queues, by what they hold. -/
inductive Kind where
  | pause
  | resume
  | scanStart
  | scanStop
  | scanComment
  | notes
  | annotationComment
  | system
deriving DecidableEq, Repr

namespace Kind

/-- In the order `dumpQueuedComments` looks at them. -/
def all : List Kind :=
  [pause, resume, scanStart, scanStop, scanComment, notes, annotationComment, system]

/-- The position in that order. -/
def idx : Kind → Nat
  | pause => 0
  | resume => 1
  | scanStart => 2
  | scanStop => 3
  | scanComment => 4
  | notes => 5
  | annotationComment => 6
  | system => 7

/-- `markerType` -/
def markerType : Kind → MarkerType
  | pause => .pause
  | resume => .resume
  | scanStart => .scanStart
  | scanStop => .scanStop
  | scanComment => .generic
  | notes => .generic
  | annotationComment => .generic
  | system => .system

/-- `is_scan`: the entries have their scan index in the text. -/
def isScan : Kind → Bool
  | scanStart | scanStop | scanComment => true
  | _ => false

/-- `prefix` -/
def label : Kind → Text
  | notes => "[DISCARDED RUN NOTES] ".toList
  | _ => []

end Kind

/-- A time and a text, as they are queued. -/
abbrev Queued := Stamp × Text

/-- What a request wants to be queued. -/
structure Entry where
  kind : Kind
  time : Stamp
  scanIndex : UInt32
  text : Text
deriving DecidableEq, Repr

/-- A number as it is written to a stream. -/
def digits (n : UInt32) : Text := Nat.toDigits 10 n.toNat

/-- The string that is queued. -/
def Entry.queued (e : Entry) : Queued :=
  (e.time, if e.kind.isScan then digits e.scanIndex ++ '|' :: e.text else e.text)

/-- The scan index and the text of a queued string, the index in front of the first `|` if the
    kind has one.  It must be a number. -/
def decode (kind : Kind) (scanIndex : UInt32) (text : Text) : Option (UInt32 × Text) :=
  if kind.isScan ∧ '|' ∈ text then
    (AutoSave.lexicalCast (text.takeWhile (· ≠ '|'))).map fun n =>
      (UInt32.ofNat n.toNat, (text.dropWhile (· ≠ '|')).tail)
  else some (scanIndex, text)

/-! ### What is put out -/

/-- What a packet is emitted for. -/
inductive Origin where
  | request
  | note (entry : Queued)
  | queue (kind : Kind) (entry : Queued)
  | continuation
deriving DecidableEq, Repr

/-- Where a packet goes: the stream, the last prologue captured for a mode or a container, or
    a snapshot of the state. -/
inductive Sink where
  | stream
  | captured
  | snapshot
deriving DecidableEq, Repr

structure Emission where
  marker : Marker
  origin : Origin
  sink : Sink
deriving DecidableEq, Repr

/-- A dump of the queues that is not for a captured prologue: what it found, the scan index it
    had, what it emitted and what it left. -/
structure Dump where
  found : Kind → List Queued
  scanIndex : UInt32
  emitted : List Emission
  left : Kind → List Queued

/-! ### Files -/

/-- What a packet added to the stream finds: a file to go to, a full one, or a full one that
    makes a container without a run be split.  Or it is followed by a snapshot of the state. -/
inductive FileEvent where
  | goesOn
  | full
  | split (connected : Bool)
  | snapshot
deriving DecidableEq, Repr

/-- The files found by the packets, by how many were put out before, and the time on the
    clock. -/
structure Env where
  files : Nat → FileEvent
  now : Nat → Stamp

end Markers

open Markers

/-- `Markers`, with what the storage manager knows of its current mode: whether its file is a
    paused one, how many modes there are in the container, and whether it has a last prologue
    already.  The last four fields are what was put out, what was queued, the dumps and the run
    notes there were. -/
structure Markers where
  inRun : Bool
  isPaused : Bool
  isPausedPT : Bool
  lastInRun : Bool
  lastIsPaused : Bool
  notesCommentSet : Bool
  useFirstNotesComment : Bool
  runNumber : UInt32
  lastRunNumber : UInt32
  scanIndex : UInt32
  lastScanIndex : UInt32
  queues : Kind → List Queued
  runNotesUpdates : Bool
  filePaused : Bool
  modes : Nat
  hasLastPrologue : Bool
  out : List Emission
  entries : List Entry
  dumps : List Dump
  noted : List Queued

namespace Markers

def init : Markers where
  inRun := false
  isPaused := false
  isPausedPT := false
  lastInRun := false
  lastIsPaused := false
  notesCommentSet := false
  useFirstNotesComment := false
  runNumber := 0
  lastRunNumber := 0
  scanIndex := 0
  lastScanIndex := 0
  queues := fun _ => []
  runNotesUpdates := false
  filePaused := false
  modes := 1
  hasLastPrologue := false
  out := []
  entries := []
  dumps := []
  noted := []

variable (env : Env) (s : Markers)

def put (m : Marker) (origin : Origin) (sink : Sink) : Markers :=
  { s with out := s.out ++ [⟨m, origin, sink⟩] }

/-- `push_back`, with the scan index in front if the queue has it there. -/
def push (e : Entry) : Markers :=
  { s with
    queues := Function.update s.queues e.kind (s.queues e.kind ++ [e.queued])
    entries := s.entries ++ [e] }

/-! ### Dumps -/

/-- The run notes `dumpRunNotesComment` takes: the first or the last there are. -/
def chosenNote : Option Queued :=
  if !s.inRun || s.isPaused then none
  else if !s.notesCommentSet || s.runNotesUpdates then
    if s.useFirstNotesComment then (s.queues .notes).head? else (s.queues .notes).getLast?
  else none

/-- The notes are taken out of the queue. -/
def takeNote (e : Queued) (sink : Sink) : Markers :=
  { s.put (marker e.1 .overallRunComment s.scanIndex [] e.2) (.queue .notes e) sink with
    queues := Function.update s.queues .notes
      (if s.useFirstNotesComment then (s.queues .notes).tail else (s.queues .notes).dropLast)
    notesCommentSet := true }

/-- `dumpRunNotesComment`, into a prologue or as a packet. -/
def dumpRunNotesComment (prologue : Bool) (sink : Sink) : Option Markers :=
  match s.chosenNote with
  | none => some s
  | some e =>
    if prologue ∨ env.files s.out.length = .goesOn then some (s.takeNote e sink) else none

/-- All queues in the order of their times. -/
def queuedInOrder : List (Kind × Queued) :=
  QueueMerge.merge (fun e : Queued => e.1.nanos) Kind.all (2 ^ 64 - 1)
    (QueueMerge.total Kind.all s.queues) s.queues

/-- The packet for an entry of a queue. -/
def emissionOf (scanIndex : UInt32) (sink : Sink) (x : Kind × Queued) : Option Emission :=
  (decode x.1 scanIndex x.2.2).map fun (index, comment) =>
    ⟨marker x.2.1 x.1.markerType index x.1.label comment, .queue x.1 x.2, sink⟩

/-- `dumpQueuedComments`; a captured prologue leaves the queues as they are. -/
def dumpQueuedComments (prologue : Bool) (sink : Sink) : Option Markers :=
  let capture := decide (sink = .captured)
  let scanIndex := if capture then s.lastScanIndex else s.scanIndex
  let isPaused := if capture then s.lastIsPaused else s.isPaused
  let inRun := if capture then s.lastInRun else s.inRun
  if !inRun || isPaused then some s
  else if prologue ∨
      ∀ i < s.queuedInOrder.length, env.files (s.out.length + i) = .goesOn then
    (s.queuedInOrder.mapM (emissionOf scanIndex sink)).map fun ms =>
      if capture then { s with out := s.out ++ ms }
      else
        { s with
          out := s.out ++ ms
          queues := fun _ => []
          dumps := s.dumps ++ [⟨s.queues, scanIndex, ms, fun _ => []⟩] }
  else none

/-- `Run n `, or that there is none. -/
def runLabel (inRun : Bool) (runNumber : UInt32) : Text :=
  if inRun then "Run ".toList ++ digits runNumber ++ " ".toList else "Data Collection ".toList

/-- The run or its absence in brackets. -/
def runTag (inRun paused : Bool) (runNumber : UInt32) : Text :=
  if !inRun then "[PRE-RUN] ".toList
  else if paused then "[PAUSED Run ".toList ++ digits runNumber ++ "] ".toList
  else "[Run ".toList ++ digits runNumber ++ "] ".toList

def scanLabel (scanIndex : UInt32) (verb : Text) : Text :=
  "Scan #".toList ++ digits scanIndex ++ verb

/-- `emitPrologue` -/
def emitPrologue (type : MarkerType) (comment : Text) (sink : Sink) : Markers :=
  s.put (marker (env.now s.out.length) type s.scanIndex [] comment) .continuation sink

/-- What `onPrologue` adds behind the queues: a scan that goes on, and a pause. -/
def emitContinuations (sink : Sink) : Markers :=
  let capture := decide (sink = .captured)
  let runNumber := if capture then s.lastRunNumber else s.runNumber
  let scanIndex := if capture then s.lastScanIndex else s.scanIndex
  let isPaused := if capture then s.lastIsPaused else s.isPaused
  let inRun := if capture then s.lastInRun else s.inRun
  let s :=
    if scanIndex ≠ 0 then
      s.emitPrologue env .scanStart
        ("[NEW RUN FILE CONTINUATION] ".toList ++ runTag inRun (isPaused || s.isPausedPT) runNumber ++
          scanLabel scanIndex " Started.".toList) sink
    else s
  if isPaused then
    s.emitPrologue env .pause
      ("[NEW RUN FILE CONTINUATION] ".toList ++ (if !inRun then "[PRE-RUN] ".toList else []) ++
        runLabel inRun runNumber ++ "Paused.".toList) sink
  else s

/-- `onPrologue`; the notes are not touched for a captured prologue. -/
def onPrologue (sink : Sink) : Option Markers := do
  let s ← if sink = .captured then some s else s.dumpRunNotesComment env true sink
  let s ← s.dumpQueuedComments env true sink
  some (s.emitContinuations env sink)

/-! ### The storage manager -/

/-- A new file of the current mode, which starts with a last prologue if there is one. -/
def newFile : Option Markers := if s.hasLastPrologue then some s else s.onPrologue env .stream

/-- `getLastPrologueFiles` -/
def captureLast : Option Markers := if s.hasLastPrologue then some s else s.onPrologue env .captured

def captureIf (kept : Bool) : Option Markers := if kept then s.captureLast env else some s

/-- The current mode ends, and one with its first file begins. -/
def turnMode (paused : Bool) : Option Markers := do
  let s ← s.captureLast env
  { s with modes := s.modes + 1, hasLastPrologue := false, filePaused := paused }.newFile env

/-- `pauseRecording` -/
def pauseRecording : Option Markers := if s.filePaused then some s else s.turnMode env true

/-- `resumeRecording` -/
def resumeRecording : Option Markers := if s.filePaused then s.turnMode env false else some s

/-- `endCurrentContainer` and `startContainer`, for the start and the stop of a run.  The old
    container is kept as long as there are data sources. -/
def switchContainer (connected : Bool) : Option Markers := do
  let s ← s.captureIf env connected
  { s with modes := 1, hasLastPrologue := false, filePaused := false }.newFile env

/-- A container without a run gets too many files.  One with several modes is kept as long as
    there are data sources; a last prologue goes on to the new container. -/
def splitContainer (connected : Bool) : Option Markers := do
  let kept := decide (s.modes ≠ 1) && connected
  let s ← s.captureIf env kept
  { s with modes := 1, hasLastPrologue := s.hasLastPrologue || kept }.newFile env

/-- What happens before a packet is written. -/
def beforeWrite : FileEvent → Option Markers
  | .goesOn => some s
  | .full => s.newFile env
  | .split connected => if s.inRun then s.newFile env else s.splitContainer env connected
  | .snapshot => some s

/-- And after it. -/
def afterWrite : FileEvent → Option Markers
  | .snapshot => s.onPrologue env .snapshot
  | _ => some s

/-- `emitPacket` with `addPacket`. -/
def emitPacket (m : Marker) (origin : Origin) : Option Markers := do
  let event := env.files s.out.length
  let s ← s.beforeWrite env event
  (s.put m origin .stream).afterWrite env event

/-! ### Requests -/

/-- `PassThru` -/
inductive PassThru where
  | ignore
  | passThru
  | execute
deriving DecidableEq, Repr

/-- The arguments of a handler. -/
structure Request where
  time : WallTime
  passThru : PassThru
  ptScanIndex : UInt32
  ptComment : Text
deriving DecidableEq

/-- Nothing is passed on. -/
def Request.ofTime (time : WallTime) : Request := ⟨time, .ignore, 0, []⟩

def Request.scanIndex (r : Request) (s : Markers) : UInt32 :=
  if r.passThru ≠ .ignore then r.ptScanIndex else s.scanIndex

/-- The comment of the request, or else that of a PV, if it is valid. -/
def Request.comment (r : Request) (pv : Option Text) : Text :=
  if r.passThru ≠ .ignore then r.ptComment else pv.getD "(No Comment)".toList

/-- The last state, before a pause or a resume. -/
def saveLast (scanIndex : UInt32) : Markers :=
  { s with
    lastRunNumber := s.runNumber
    lastIsPaused := s.isPaused
    lastScanIndex := scanIndex
    lastInRun := s.inRun }

/-- An entry that is queued "for later" if there is no run. -/
def pushBeforeRun (e : Entry) : Markers := if s.inRun then s else s.push e

/-- A pause that is not just passed through. -/
def pauseMode (r : Request) (scanIndex : UInt32) : Option Markers :=
  if r.passThru ≠ .passThru then
    { s.saveLast scanIndex with isPaused := true }.pauseRecording env
  else some { s with isPausedPT := true }

def pause (r : Request) : Option Markers := do
  let comment := if r.passThru ≠ .ignore then r.ptComment else []
  let scanIndex := r.scanIndex s
  let label := runLabel s.inRun s.runNumber ++ "Paused.".toList
  let s ← s.emitPacket env (marker r.time.toStamp .pause scanIndex label comment) .request
  let s ← s.pauseMode env r scanIndex
  some (s.pushBeforeRun
    ⟨.pause, r.time.toStamp, scanIndex, "[PRE-RUN] ".toList ++ label ++ comment⟩)

/-- A resume that is not just passed through. -/
def resumeMode (r : Request) (scanIndex : UInt32) : Option Markers :=
  if r.passThru ≠ .passThru then
    { s.saveLast scanIndex with isPaused := false }.resumeRecording env
  else some { s with isPausedPT := false }

def resume (r : Request) : Option Markers := do
  let comment := if r.passThru ≠ .ignore then r.ptComment else []
  let scanIndex := r.scanIndex s
  let label := runLabel s.inRun s.runNumber ++ "Resumed.".toList
  let s ← s.resumeMode env r scanIndex
  let s ← s.emitPacket env (marker r.time.toStamp .resume scanIndex label comment) .request
  some (s.pushBeforeRun
    ⟨.resume, r.time.toStamp, scanIndex, "[PRE-RUN] ".toList ++ label ++ comment⟩)

/-- The packet of a scan's start or stop, which is also queued before a run or while it is
    paused, without the comment. -/
def scanPacket (kind : Kind) (verb : Text) (r : Request) (scanIndex : UInt32) : Option Markers := do
  let comment := if r.passThru ≠ .ignore then r.ptComment else []
  let label := runTag s.inRun (s.isPaused || s.isPausedPT) s.runNumber ++ scanLabel scanIndex verb
  let s ← s.emitPacket env (marker r.time.toStamp kind.markerType scanIndex label comment) .request
  if s.inRun && !s.isPaused then some s
  else some (s.push ⟨kind, r.time.toStamp, scanIndex, label⟩)

/-- `startScan`, with the value of the scan index PV. -/
def startScan (r : Request) (indexPV : UInt32) : Option Markers :=
  if r.passThru ≠ .ignore then
    s.scanPacket env .scanStart " Started.".toList r r.ptScanIndex
  else
    { s with scanIndex := indexPV, lastScanIndex := indexPV }.scanPacket env .scanStart
      " Started.".toList r indexPV

def stopScan (r : Request) : Option Markers :=
  if r.passThru ≠ .ignore then
    s.scanPacket env .scanStop " Stopped.".toList r r.ptScanIndex
  else
    { s with scanIndex := 0, lastScanIndex := 0 }.scanPacket env .scanStop
      " Stopped.".toList r s.scanIndex

/-- A comment goes to the stream in a run that is not paused, and to its queue otherwise. -/
def comment (kind : Kind) (time : Stamp) (scanIndex : UInt32) (label text : Text) :
    Option Markers :=
  if s.inRun && !s.isPaused then
    s.emitPacket env (marker time kind.markerType scanIndex label text) .request
  else
    some (s.push ⟨kind, time, scanIndex,
      runTag s.inRun (s.isPaused || s.isPausedPT) s.runNumber ++ label ++ text⟩)

def annotate (r : Request) (pv : Option Text) : Option Markers :=
  s.comment env .annotationComment r.time.toStamp (r.scanIndex s) [] (r.comment pv)

def addAnnotationComment (r : Request) (pv : Option Text) : Option Markers :=
  s.comment env .annotationComment r.time.toStamp (r.scanIndex s) [] (r.comment pv)

def addScanComment (r : Request) (pv : Option Text) : Option Markers :=
  let scanIndex := r.scanIndex s
  let label :=
    if scanIndex ≠ 0 then "Scan ".toList ++ digits scanIndex ++ ": ".toList
    else "Pre-Scan: ".toList
  s.comment env .scanComment r.time.toStamp scanIndex label (r.comment pv)

def addSystemComment (time : WallTime) (scanIndex : UInt32) (text : Text) : Option Markers :=
  s.comment env .system time.toStamp scanIndex [] text

/-- The body of `addRunComment` and `addNotesComment`: in a run the first notes are set, and
    others are discarded; otherwise they are queued, as the first or the last to look for. -/
def addNote (time : Stamp) (scanIndex : UInt32) (text : Text) : Option Markers :=
  if s.inRun && !s.isPaused then
    if !s.notesCommentSet || s.runNotesUpdates then do
      let s ← s.emitPacket env (marker time .overallRunComment scanIndex [] text)
        (.note (time, text))
      some { s with notesCommentSet := true, noted := s.noted ++ [(time, text)] }
    else do
      let s ← s.emitPacket env (marker time .generic scanIndex Kind.notes.label text)
        (.note (time, text))
      some { s with noted := s.noted ++ [(time, text)] }
  else
    let s := { s with useFirstNotesComment := s.inRun, noted := s.noted ++ [(time, text)] }
    some (s.push ⟨.notes, time, scanIndex, text⟩)

def addRunComment (r : Request) (pv : Option Text) : Option Markers :=
  s.addNote env r.time.toStamp (r.scanIndex s) (r.comment pv)

def addNotesComment (r : Request) (pv : Option Text) : Option Markers :=
  s.addNote env r.time.toStamp (r.scanIndex s) (r.comment pv)

/-! ### Runs -/

/-- The first part of `beforeNewRun`: a pause ends, with a warning that is also queued. -/
def resumeBeforeRun (time : WallTime) (pausedPV : Bool) : Option Markers :=
  if s.isPaused || pausedPV then do
    let comment := "Warning: Run Resumed at New Run Start!".toList
    let s ← { s with lastIsPaused := true, isPaused := false }.resumeRecording env
    let s ← s.emitPacket env (marker time.toStamp .resume s.scanIndex [] comment) .request
    some (s.push ⟨.resume, time.toStamp, s.scanIndex, "[PRE-RUN] ".toList ++ comment⟩)
  else some { s with lastIsPaused := false }

/-- The second part: a scan ends. -/
def stopScanBeforeRun (time : WallTime) : Option Markers :=
  if s.scanIndex ≠ 0 then do
    let comment := "Warning: Scan Stopped at New Run Start!".toList
    let index := s.scanIndex
    let s ← s.emitPacket env (marker time.toStamp .scanStop index [] comment) .request
    let s := s.push ⟨.scanStop, time.toStamp, index, "[PRE-RUN] ".toList ++ comment⟩
    some { s with lastScanIndex := index, scanIndex := 0 }
  else some { s with lastScanIndex := 0 }

/-- The run notes of the last run are used again, if they persist and there are no others. -/
def reuseNotes : Option (WallTime × Text) → Option Markers
  | some (ts, text) =>
    if s.queues .notes = [] then s.addNotesComment env (.ofTime ts) (some text) else some s
  | none => some s

/-- `beforeNewRun`, with the value of the paused PV, and time and value of the run notes PV if
    it is valid. -/
def beforeNewRun (runNumber : UInt32) (time : WallTime) (pausedPV : Bool)
    (notesPV : Option (WallTime × Text)) : Option Markers := do
  let s := { s with lastRunNumber := s.runNumber, runNumber := runNumber }
  let s ← s.resumeBeforeRun env time pausedPV
  let s ← s.stopScanBeforeRun env time
  let s := s.push ⟨.annotationComment, time.succ, s.scanIndex,
    "Run ".toList ++ digits runNumber ++ " Started.".toList⟩
  let s ← s.reuseNotes env notesPV
  some { s with lastInRun := s.inRun, inRun := true }

/-- The part of `runStop` for a run that is paused. -/
def resumeBeforeStop (time : WallTime) (pausedPV : Bool) : Option Markers :=
  if s.isPaused || pausedPV then do
    let saveScanIndex := s.scanIndex
    let s ← { s with lastIsPaused := true, isPaused := false, scanIndex := 0 }.resumeRecording env
    let s := { s with scanIndex := saveScanIndex }
    let s ← s.dumpRunNotesComment env false .stream
    let s ← s.dumpQueuedComments env false .stream
    s.emitPacket env (marker time.toStamp .resume s.scanIndex []
      "Warning: Run Resumed at Run Stop!".toList) .request
  else some { s with lastIsPaused := false }

/-- The part of `runStop` for a run with a scan. -/
def stopScanBeforeStop (time : WallTime) : Option Markers :=
  if s.scanIndex ≠ 0 then do
    let index := s.scanIndex
    let s ← s.emitPacket env (marker time.toStamp .scanStop index []
      "Warning: Scan Stopped at Run Stop!".toList) .request
    some { s with lastScanIndex := index, scanIndex := 0 }
  else some { s with lastScanIndex := 0 }

/-- `runStop` -/
def runStop (time : WallTime) (pausedPV : Bool) : Option Markers := do
  let s ← s.resumeBeforeStop env time pausedPV
  let s ← s.dumpRunNotesComment env false .stream
  let s ← s.dumpQueuedComments env false .stream
  let s ← s.stopScanBeforeStop env time
  let s ← s.emitPacket env (marker time.toStamp .generic s.scanIndex []
    ("Run ".toList ++ digits s.runNumber ++ " Stopped.".toList)) .request
  some { s with lastInRun := s.inRun, inRun := false, notesCommentSet := false }

/-- `setRecording( true )`, where nothing fails. -/
def startRun (runNumber : UInt32) (time : WallTime) (pausedPV : Bool)
    (notesPV : Option (WallTime × Text)) (connected : Bool) : Option Markers :=
  if s.inRun then some s
  else do
    let s ← s.beforeNewRun env runNumber time pausedPV notesPV
    s.switchContainer env connected

/-- `setRecording( false )`, where nothing fails. -/
def stopRun (time : WallTime) (pausedPV connected : Bool) : Option Markers :=
  if !s.inRun then some s
  else do
    let s ← s.runStop env time pausedPV
    s.switchContainer env connected

/-! ### Steps -/

inductive Op where
  | pause (r : Request)
  | resume (r : Request)
  | startScan (r : Request) (indexPV : UInt32)
  | stopScan (r : Request)
  | annotate (r : Request) (pv : Option Text)
  | addAnnotationComment (r : Request) (pv : Option Text)
  | addScanComment (r : Request) (pv : Option Text)
  | addSystemComment (time : WallTime) (scanIndex : UInt32) (text : Text)
  | addRunComment (r : Request) (pv : Option Text)
  | addNotesComment (r : Request) (pv : Option Text)
  | startRun (runNumber : UInt32) (time : WallTime) (pausedPV : Bool)
      (notesPV : Option (WallTime × Text)) (connected : Bool)
  | stopRun (time : WallTime) (pausedPV connected : Bool)
  /-- Another packet is added. -/
  | data (event : FileEvent)
  /-- Old modes of the container expire. -/
  | expire (modes : Nat)
  | setRunNotesUpdates (enabled : Bool)
deriving DecidableEq

def step (s : Markers) : Op → Option Markers
  | .pause r => s.pause env r
  | .resume r => s.resume env r
  | .startScan r indexPV => s.startScan env r indexPV
  | .stopScan r => s.stopScan env r
  | .annotate r pv => s.annotate env r pv
  | .addAnnotationComment r pv => s.addAnnotationComment env r pv
  | .addScanComment r pv => s.addScanComment env r pv
  | .addSystemComment time scanIndex text => s.addSystemComment env time scanIndex text
  | .addRunComment r pv => s.addRunComment env r pv
  | .addNotesComment r pv => s.addNotesComment env r pv
  | .startRun runNumber time pausedPV notesPV connected =>
    s.startRun env runNumber time pausedPV notesPV connected
  | .stopRun time pausedPV connected => s.stopRun env time pausedPV connected
  | .data event => do
    let s ← s.beforeWrite env event
    s.afterWrite env event
  | .expire modes => some { s with modes := max 1 (min modes s.modes) }
  | .setRunNotesUpdates enabled => some { s with runNotesUpdates := enabled }

def run : List Op → Option Markers := Runs.run (step env) init

end Markers

end Adara.Native
