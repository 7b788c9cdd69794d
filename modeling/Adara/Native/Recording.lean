import Adara.ForStd.Retry
import Adara.Native.StorageManager

/-! # The start and the stop of a recording

`SMSControl::setRecording`, with the exceptions of what it calls.  Whether a run is recorded
is known to four components, each with its own copy: the current container of the storage
manager, `m_recording` and `m_currentRunNumber` of the control, and `m_inRun` of the markers.

The storage manager is the one of the container stack, which a call that throws leaves as it
is at that moment; here the exception is part of the result.  What the markers do with it
depends on a pause, a scan and the queued comments, and is an argument: the calls they make,
in order.  As there, `none` means that the code would use a pointer to nothing.  Left out are
the PVs, the texts of the errors and the waiting between two tries. -/

namespace Adara.Native

/-- What the `catch` clauses tell apart: `std::logic_error`, and all others. -/
inductive Exception where
  | logic
  | other
deriving DecidableEq, Repr

namespace Recording

/-! ### The storage manager -/

/-- Where the start of a container throws: before there is one in its slot
    (`retireIndexDir`, `mkdirat`, `StorageContainer::create`), before that has its first file,
    or when the others are told of the file. -/
inductive StartPoint where
  | container
  | file
  | notification
deriving DecidableEq, Repr

/-- What is thrown in the switch to another container: for the prologue files of the old one,
    and in the start of the new one. -/
structure SwitchFaults where
  prologue : Option Exception
  start : Option (StartPoint × Exception)
deriving DecidableEq, Repr

namespace SwitchFaults

/-- What the start of the container meets. -/
def startIO (f : SwitchFaults) : StorageManager.StartIO :=
  { created := f.start.all (·.1 != .container), opens := f.start.all (·.1 != .file) }

def switchIO (f : SwitchFaults) : StorageManager.SwitchIO := ⟨f.prologue.isNone, f.startIO⟩

end SwitchFaults

/-- `startContainer` -/
def startContainer (s : StorageManager) (n : Nat) (minTime : Timespec) (run : Nat)
    (f : SwitchFaults) : StorageManager × Option Exception :=
  if (s.containerAt n).isSome then (s, some .logic)
  else ((s.startContainer n minTime false run false f.startIO).1, f.start.map (·.2))

/-- `endCurrentContainer` and `startContainer` -/
def switchContainer (s : StorageManager) (newStart : Timespec) (run : Nat) (f : SwitchFaults) :
    StorageManager × Option Exception :=
  match s.containerStack.head? with
  | none => (s, some .logic)
  | some slot =>
    match s.endCurrentContainer slot.node newStart false f.prologue.isNone with
    | (s, none) => (s, some (f.prologue.getD .logic))
    | (s, some n) => startContainer s n newStart run f

/-- The current container. -/
def current (s : StorageManager) : Option StoredContainer :=
  s.containerStack.head?.bind (·.container)

/-- `startRecording`, at a time after the epoch of the packets. -/
def startRecording (s : StorageManager) (runStart : Timespec) (run : Nat) (f : SwitchFaults) :
    StorageManager × Option Exception :=
  if run = 0 then (s, some .logic)
  else
    match current s with
    | none => (s, some .logic)
    | some c =>
      if c.modes.runNumber ≠ 0 then (s, some .logic) else switchContainer s runStart run f

/-- `stopRecording` -/
def stopRecording (s : StorageManager) (runStop : Timespec) (f : SwitchFaults) :
    StorageManager × Option Exception :=
  match current s with
  | none => (s, some .logic)
  | some _ => switchContainer s runStop.succ 0 f

/-! ### The markers -/

/-- What a packet of the markers meets, with what is thrown after its container was found. -/
structure PacketIO where
  oldTs : Timespec
  timeout : Timespec
  write : TimedContainer.WriteIO
  split : StorageManager.SplitIO
  thrown : Option Exception
deriving DecidableEq, Repr

/-- A call of the markers: a packet, or `SMSControl::resumeRecording`. -/
inductive MarkerCall where
  | packet (ts : Timespec) (io : PacketIO)
  | resume (t : Timespec) (io : TimedContainer.PauseIO) (thrown : Option Exception)
deriving DecidableEq, Repr

/-- The container of a packet was found. -/
def findsContainer (s : StorageManager) (ts : Timespec) (io : PacketIO) : Bool :=
  ((s.findContainerByTime false ts false io.oldTs io.timeout).bind fun (s, found) =>
    found.bind s.containerAt).isSome

def perform (s : StorageManager) : MarkerCall → Option (StorageManager × Option Exception)
  | .packet ts io =>
    (s.addPacket false ts false io.oldTs io.timeout io.write io.split).map fun s' =>
      (s', if findsContainer s ts io then io.thrown else some .logic)
  | .resume t io thrown => (s.resumeRecording t io).map (·, thrown)

/-- Calls are made until one throws. -/
def performAll (s : StorageManager) :
    List MarkerCall → Option (StorageManager × Option Exception)
  | [] => some (s, none)
  | call :: calls =>
    (perform s call).bind fun
      | (s, some e) => some (s, some e)
      | (s, none) => performAll s calls

end Recording

open Recording

/-- The components that know whether a run is recorded. -/
structure Recorder where
  storage : StorageManager
  /-- `SMSControl::m_recording` -/
  recording : Bool
  currentRunNumber : Nat
  nextRunNumber : Nat
  /-- `Markers::m_inRun` -/
  inRun : Bool
deriving DecidableEq, Repr

namespace Recorder

/-- `Markers::beforeNewRun` -/
def beforeNewRun (s : Recorder) (calls : List MarkerCall) :
    Option (Recorder × Option Exception) :=
  (performAll s.storage calls).map fun
    | (storage, some e) => ({ s with storage }, some e)
    | (storage, none) => ({ s with storage, inRun := true }, none)

/-- `Markers::runStop`, whose last packet is the comment that the run has stopped. -/
def runStop (s : Recorder) (ts : Timespec) (calls : List MarkerCall) (comment : PacketIO) :
    Option (Recorder × Option Exception) :=
  (performAll s.storage (calls ++ [.packet ts comment])).map fun
    | (storage, some e) => ({ s with storage }, some e)
    | (storage, none) => ({ s with storage, inRun := false }, none)

/-! ### The tries -/

/-- Who throws. -/
inductive Thrower where
  | markers
  | storage
deriving DecidableEq, Repr

structure Thrown where
  thrower : Thrower
  exception : Exception
deriving DecidableEq, Repr

/-- "Logic Error" Means Something Bad Happened, Just Bail... -/
def Thrown.bails (e : Thrown) : Bool := e.exception == .logic

/-- What one try of a start meets. -/
structure StartTry where
  calls : List MarkerCall
  faults : SwitchFaults
deriving DecidableEq, Repr

def tryStart (ts : Timespec) (s : Recorder) (io : StartTry) :
    Option (Recorder × Option Thrown) :=
  (s.beforeNewRun io.calls).map fun
    | (s, some e) => (s, some ⟨.markers, e⟩)
    | (s, none) =>
      let (storage, e) := startRecording s.storage ts s.currentRunNumber io.faults
      ({ s with storage }, e.map (⟨.storage, ·⟩))

/-- What one try of a stop meets. -/
structure StopTry where
  calls : List MarkerCall
  comment : PacketIO
  faults : SwitchFaults
deriving DecidableEq, Repr

def tryStop (ts : Timespec) (s : Recorder) (io : StopTry) : Option (Recorder × Option Thrown) :=
  (s.runStop ts io.calls io.comment).map fun
    | (s, some e) => (s, some ⟨.markers, e⟩)
    | (s, none) =>
      let (storage, e) := stopRecording s.storage ts io.faults
      ({ s with storage }, e.map (⟨.storage, ·⟩))

/-! ### The calls -/

/-- `setRecording( true )` or `setRecording( false )`, with what its three tries meet.  A start
    is `refused` if the run info is not valid, a required source is missing, or the next run
    number cannot be stored. -/
inductive Request where
  | start (ts : Timespec) (refused : Bool) (tries : Fin 3 → StartTry)
  | stop (ts : Timespec) (tries : Fin 3 → StopTry)

def Request.value : Request → Bool
  | .start .. => true
  | .stop .. => false

/-- What `setRecording` comes to: it succeeds if the setting is accepted, and its failures are
    the exceptions that were caught. -/
abbrev Answer := Retry.Outcome Recorder Thrown

/-- The end of a start: the run number is cleared if no try has succeeded. -/
def started (o : Answer) : Answer :=
  if o.succeeded then { o with state := { o.state with recording := true } }
  else { o with state := { o.state with currentRunNumber := 0 } }

/-- The end of a stop. -/
def stopped (o : Answer) : Answer :=
  if o.succeeded then { o with state := { o.state with recording := false } } else o

/-- `setRecording` -/
def setRecording (s : Recorder) (r : Request) : Option Answer :=
  if r.value = s.recording then some ⟨s, !r.value, []⟩
  else
    match r with
    | .start ts refused tries =>
      if refused then some ⟨s, false, []⟩
      else
        let s := { s with
          currentRunNumber := s.nextRunNumber, nextRunNumber := increment s.nextRunNumber }
        (Retry.run (tryStart ts) Thrown.bails s (List.ofFn tries)).map started
    | .stop ts tries =>
      let s := { s with currentRunNumber := 0 }
      (Retry.run (tryStop ts) Thrown.bails s (List.ofFn tries)).map stopped

/-- A start or a stop of a recording, as the storage manager sees it. -/
def switches : StorageManager.Op → Bool
  | .startRecording .. => true
  | .stopRecording .. => true
  | _ => false

/-- Whatever else is asked of the storage manager, it is not asked to switch. -/
inductive Op where
  | setRecording (r : Request)
  | storage (call : StorageManager.Op) (h : switches call = false)

def step (s : Recorder) : Op → Option Recorder
  | .setRecording r => (s.setRecording r).map (·.state)
  | .storage call _ => (s.storage.step call).map fun storage => { s with storage }

/-- The recorder when the storage manager has started. -/
def init (minTime : Timespec) (opens : Bool) (nextRunNumber : Nat) : Recorder :=
  { storage := StorageManager.init minTime opens
    recording := false, currentRunNumber := 0, nextRunNumber, inRun := false }

end Recorder

end Adara.Native
