import Adara.ForStd.Timespec
import Adara.Native.StorageContainer

/-! # Containers with their times

A `StorageContainer` again, now with what the model of the announcements leaves out: the
time range of each pause mode, the mode, file and pause file numbers, the run status that a
file opens and ends with, and the lookup of a pause mode by time with its cache.

A pause mode is a node of the stack, with a number that stays its own: an iterator is such a
number, and `end()` is `none`.  A call that throws leaves the container as it is at that
moment; `newFile` throws when `openat` fails, and the mode is then without a file.  The
32-bit numbers are `Nat` with the wrap written out.  Left out are the contents of the files,
the saved input streams and the count of all files. -/

namespace Adara.Native

/-- `ADARA::RunStatus::Enum`, as far as the data files use it. -/
inductive RunStatus where
  | noRun
  | newRun
  | runEof
  | runBof
  | endRun
deriving DecidableEq, Repr

/-- A file made by `StorageFile::newFile`: its numbers, and the run status it opened with and
    was terminated with. -/
structure DataFile where
  modeNumber : Nat
  fileNumber : Nat
  pauseFileNumber : Nat
  paused : Bool
  opening : RunStatus
  closing : Option RunStatus
deriving DecidableEq, Repr

/-- `StorageContainer::PauseMode`, and its node of the stack. -/
structure TimedMode where
  node : Nat
  file : Option FileId
  pendingFiles : List FileId
  hasLastPrologue : Bool
  minTime : Timespec
  maxTime : Timespec
  numModes : Nat
  numFiles : Nat
  numPauseFiles : Nat
  paused : Bool
deriving DecidableEq, Repr

/-- Pre-increment of a 32-bit number. -/
def increment (n : Nat) : Nat := (n + 1) % 2 ^ 32

theorem increment_of_lt {n : Nat} (h : n + 1 < 2 ^ 32) : increment n = n + 1 :=
  Nat.mod_eq_of_lt h

structure TimedContainer where
  runNumber : Nat
  active : Bool
  pauseModeStack : List TimedMode
  nextNode : Nat
  /-- The files made so far; the number of a file is its place here. -/
  made : List DataFile
  files : List FileId
  /-- The files `m_newFile` was signalled for, in order. -/
  signalled : List FileId
  lastFound : Option Nat
  lastTs : Timespec
  lastOldTs : Timespec
  lastIgnorePktTimestamp : Bool
  lastCheckOldPausemodes : Bool
deriving DecidableEq, Repr

namespace TimedMode

/-- The time is in the range of the mode, whose end is open when it is zero. -/
def holds (m : TimedMode) (ts : Timespec) : Bool :=
  !ts.before m.minTime && (m.maxTime.isZero || !m.maxTime.before ts)

/-- A mode with a maximum time expires when the oldest time of the sources reaches that plus
    the timeout. -/
def expired (oldTs timeout : Timespec) (m : TimedMode) : Bool :=
  !m.maxTime.isZero && !oldTs.before (m.maxTime.add timeout)

end TimedMode

namespace TimedContainer

/-- The container made by `create`, before its first file. -/
def create (runNumber : Nat) (minTime : Timespec) : TimedContainer :=
  { runNumber, active := true
    pauseModeStack := [⟨0, none, [], false, minTime, ⟨0, 0⟩, 0, 0, 0, false⟩]
    nextNode := 1, made := [], files := [], signalled := []
    lastFound := none, lastTs := ⟨-1, -1⟩, lastOldTs := ⟨-1, -1⟩
    lastIgnorePktTimestamp := true, lastCheckOldPausemodes := false }

/-- The pause mode at an iterator. -/
def modeAt (c : TimedContainer) (n : Nat) : Option TimedMode :=
  c.pauseModeStack.find? (·.node == n)

/-- A pause mode is changed in place. -/
def setMode (c : TimedContainer) (m : TimedMode) : TimedContainer :=
  { c with pauseModeStack := c.pauseModeStack.map fun m' => if m'.node = m.node then m else m' }

/-- No pause mode comes after this one on the stack. -/
def isOldest (c : TimedContainer) (n : Nat) : Bool :=
  c.pauseModeStack.getLast?.map (·.node) == some n

/-- Files are put on the file list, and `m_newFile` is signalled for each. -/
def publish (c : TimedContainer) (fs : List FileId) : TimedContainer :=
  { c with files := c.files ++ fs, signalled := c.signalled ++ fs }

/-- `m_last_ts` is reset. -/
def resetLastTs (c : TimedContainer) : TimedContainer := { c with lastTs := ⟨-1, -1⟩ }

/-! ### Files -/

/-- The status a file of mode `m` opens with. -/
def openingStatus (c : TimedContainer) (m : TimedMode) : RunStatus :=
  if c.runNumber = 0 then .noRun
  else if m.numModes = 0 then .newRun
  else .runBof

/-- The status a file is terminated with. -/
def closingStatus (c : TimedContainer) : RunStatus :=
  if c.runNumber = 0 then .noRun
  else if c.active then .runEof
  else .endRun

/-- The numbers of a mode, set for its next file. -/
def nextNumbers (m : TimedMode) (paused : Bool) (minTime : Timespec) : TimedMode :=
  let numModes := if m.numModes = 0 then 1 else m.numModes
  if paused then
    { m with paused, minTime, numModes, numPauseFiles := increment m.numPauseFiles }
  else { m with paused, minTime, numModes, numFiles := increment m.numFiles }

/-- `newFile`, where `opens` says whether `openat` succeeds. -/
def newFile (c : TimedContainer) (n : Nat) (paused : Bool) (minTime : Timespec) (opens : Bool) :
    TimedContainer :=
  match c.modeAt n with
  | none => c
  | some m =>
    if m.file.isSome then c
    else
      let status := c.openingStatus m
      let m := nextNumbers m paused minTime
      if !opens then c.setMode m
      else
        let f := c.made.length
        let file : DataFile :=
          ⟨m.numModes, m.numFiles, if paused then m.numPauseFiles else 0, paused, status, none⟩
        let made := c.made ++ [file]
        if c.isOldest n then
          (({ c with made }).setMode { m with file := some f, pendingFiles := [] }).publish
            (m.pendingFiles ++ [f])
        else
          ({ c with made }).setMode { m with file := some f, pendingFiles := m.pendingFiles ++ [f] }

/-- `StorageFile::terminate` of the file of a mode, if it has one. -/
def endFile (c : TimedContainer) (m : TimedMode) : TimedContainer :=
  match m.file with
  | none => c
  | some f =>
    { c with made := c.made.modify f fun d => { d with closing := some c.closingStatus } }

/-- `terminateFile` with `do_terminate`, of mode `m`. -/
def closeFile (c : TimedContainer) (m : TimedMode) (newStart : Timespec) : TimedContainer :=
  (c.endFile m).setMode { m with maxTime := newStart.pred, file := none }

/-- `terminateFile` without `do_terminate`, of mode `m`, and the new mode that comes on top
    of it.  `opens` says whether the prologue file can be made, where there is none yet. -/
def stackMode (c : TimedContainer) (m : TimedMode) (newStart : Timespec) (opens : Bool) :
    TimedContainer × Option TimedMode :=
  let m := { m with maxTime := newStart.pred }
  if !m.hasLastPrologue && !opens then (c.setMode m, none)
  else
    let c := c.setMode { m with hasLastPrologue := true }
    let top : TimedMode :=
      ⟨c.nextNode, none, [], false, ⟨0, 0⟩, ⟨0, 0⟩, m.numModes, m.numFiles, m.numPauseFiles,
        m.paused⟩
    (({ c with pauseModeStack := top :: c.pauseModeStack, nextNode := c.nextNode + 1 }).resetLastTs,
      some top)

/-! ### Writing -/

/-- The end of the file of mode `n`, and the next file in the same mode and range. -/
def rollOver (c : TimedContainer) (n : Nat) (paused : Bool) (minTime maxTime : Timespec)
    (opens : Bool) : TimedContainer :=
  match c.modeAt n with
  | none => c
  | some m => (c.closeFile m maxTime).newFile n paused minTime opens

/-- The attempts to write to the file of mode `n`, with the files they went to.  After each
    failed one the file is rotated; `failed` says for each whether the next file opens.  How
    many failures are allowed is decided by a counter that all containers share. -/
def writeLoop (c : TimedContainer) (n : Nat) (paused : Bool) (minTime maxTime : Timespec) :
    List Bool → TimedContainer × List FileId
  | [] => (c, ((c.modeAt n).bind (·.file)).toList)
  | opens :: failed =>
    match (c.modeAt n).bind (·.file) with
    | none => (c, [])
    | some f =>
      let (c, fs) :=
        (c.rollOver n paused minTime maxTime opens).writeLoop n paused minTime maxTime failed
      (c, f :: fs)

/-- What a call of `write` meets: whether the file of the mode is oversize, whether the file
    that is then needed opens, and the failed attempts. -/
structure WriteIO where
  oversize : Bool
  opens : Bool
  failed : List Bool
deriving DecidableEq, Repr

/-- The start of `write`: an oversize file is ended, and a file is made where there is none. -/
def readyFile (c : TimedContainer) (m : TimedMode) (maxTime : Timespec) (io : WriteIO) :
    TimedContainer :=
  if m.file.isSome && !io.oversize then c
  else if m.file.isSome then
    (c.closeFile m maxTime).newFile m.node m.paused m.minTime io.opens
  else c.newFile m.node m.paused m.minTime io.opens

/-- `write` to mode `n`, with the files the packet was written to. -/
def write (c : TimedContainer) (n : Nat) (io : WriteIO) : Option (TimedContainer × List FileId) :=
  (c.modeAt n).map fun m =>
    let maxTime := m.maxTime.succ
    (c.readyFile m maxTime io).writeLoop n m.paused m.minTime maxTime io.failed

/-! ### Pausing -/

/-- What `pause` and `resume` meet: whether the prologue file and the new file open. -/
structure PauseIO where
  prologueOpens : Bool
  opens : Bool
deriving DecidableEq, Repr

/-- The file of a mode is a paused one, or not. -/
def fileIs (c : TimedContainer) (m : TimedMode) (paused : Bool) : Bool :=
  (m.file.bind (c.made[·]?)).any (·.paused == paused)

/-- `pause` -/
def pause (c : TimedContainer) (pauseTime : Timespec) (io : PauseIO) : Option TimedContainer :=
  c.pauseModeStack.head?.map fun m =>
    if c.fileIs m false then
      match c.stackMode m pauseTime io.prologueOpens with
      | (c, none) => c
      | (c, some top) =>
        (c.setMode { top with numModes := increment top.numModes, numFiles := 1 }).newFile
          top.node true pauseTime io.opens
    else c.newFile m.node true pauseTime io.opens

/-- `resume` -/
def resume (c : TimedContainer) (resumeTime : Timespec) (io : PauseIO) : Option TimedContainer :=
  c.pauseModeStack.head?.map fun m =>
    if c.fileIs m true then
      match c.stackMode m resumeTime io.prologueOpens with
      | (c, none) => c
      | (c, some top) =>
        (c.setMode { top with
          numModes := increment top.numModes, numFiles := 0, numPauseFiles := 0 }).newFile
          top.node false resumeTime io.opens
    else (c.setMode { m with numPauseFiles := 0 }).newFile m.node false resumeTime io.opens

/-! ### The lookup by time -/

/-- Everything is the same as in the last lookup. -/
def sameLookup (c : TimedContainer) (ignorePktTimestamp : Bool) (ts : Timespec)
    (checkOldPausemodes : Bool) : Bool :=
  ignorePktTimestamp == c.lastIgnorePktTimestamp &&
    checkOldPausemodes == c.lastCheckOldPausemodes && ts == c.lastTs

/-- The shortcut is taken: for a check of the old modes the oldest time of the sources has to
    be the same as well. -/
def usesCache (c : TimedContainer) (ignorePktTimestamp : Bool) (ts : Timespec)
    (checkOldPausemodes : Bool) (oldTs : Timespec) : Bool :=
  c.sameLookup ignorePktTimestamp ts checkOldPausemodes &&
    (!checkOldPausemodes || c.lastFound.isNone || oldTs == c.lastOldTs)

/-- The search of the stack: the first mode if the time is ignored, else the first whose
    range holds it. -/
def searchModes (c : TimedContainer) (ignorePktTimestamp : Bool) (ts : Timespec) : Option Nat :=
  if ignorePktTimestamp then c.pauseModeStack.head?.map (·.node)
  else (c.pauseModeStack.find? (·.holds ts)).map (·.node)

/-- Where the search found nothing: a time before the oldest mode goes to the current one. -/
def sawtooth (c : TimedContainer) (ts : Timespec) : Option Nat :=
  c.pauseModeStack.getLast?.bind fun m =>
    if m.file.isSome && ts.before m.minTime then c.pauseModeStack.head?.map (·.node) else none

/-- The lookup without its shortcut. -/
def lookup (c : TimedContainer) (ignorePktTimestamp : Bool) (ts : Timespec) : Option Nat :=
  (c.searchModes ignorePktTimestamp ts).or (c.sawtooth ts)

/-- A mode is closed: its deferred files are published, and its file is ended. -/
def closeMode (c : TimedContainer) (m : TimedMode) : TimedContainer :=
  (c.publish m.pendingFiles).endFile m

/-- The modes that have expired are closed, oldest first, and the others are left. -/
def closeExpired (c : TimedContainer) (oldTs timeout : Timespec) :
    List TimedMode → TimedContainer × List TimedMode
  | [] => (c, [])
  | m :: ms =>
    let (c, kept) := c.closeExpired oldTs timeout ms
    if m.expired oldTs timeout then (c.closeMode m, kept) else (c, m :: kept)

/-- The deferred files of the oldest mode are published. -/
def flushOldest (c : TimedContainer) : TimedContainer :=
  match c.pauseModeStack.getLast? with
  | none => c
  | some m => (c.setMode { m with pendingFiles := [] }).publish m.pendingFiles

/-- The modes up to the one at an iterator, and those behind it. -/
def splitBehind (c : TimedContainer) (n : Nat) : List TimedMode × List TimedMode :=
  c.pauseModeStack.splitAt (c.pauseModeStack.findIdx (·.node == n) + 1)

/-- The check for old pause modes, behind the one that was found. -/
def expireModes (c : TimedContainer) (found : Nat) (oldTs timeout : Timespec) : TimedContainer :=
  let (front, behind) := c.splitBehind found
  let (c, kept) := c.closeExpired oldTs timeout behind
  { ({ c with pauseModeStack := front ++ kept }).flushOldest with lastOldTs := oldTs }

/-- The mode a lookup has found before it checks the old modes: the same lookup at another
    time of the sources uses the mode of the last one. -/
def foundMode (c : TimedContainer) (ignorePktTimestamp : Bool) (ts : Timespec)
    (checkOldPausemodes : Bool) : Option Nat :=
  if c.sameLookup ignorePktTimestamp ts checkOldPausemodes && checkOldPausemodes then c.lastFound
  else c.searchModes ignorePktTimestamp ts

/-- `getPauseModeByTime`, with the oldest time of the sources and the cleanup timeout. -/
def getPauseModeByTime (c : TimedContainer) (ignorePktTimestamp : Bool) (ts : Timespec)
    (checkOldPausemodes : Bool) (oldTs timeout : Timespec) : TimedContainer × Option Nat :=
  if c.usesCache ignorePktTimestamp ts checkOldPausemodes oldTs then (c, c.lastFound)
  else
    let found := c.foundMode ignorePktTimestamp ts checkOldPausemodes
    let c :=
      match found with
      | some n => if checkOldPausemodes then c.expireModes n oldTs timeout else c
      | none => c
    let result := found.or (c.sawtooth ts)
    ({ c with
      lastFound := result, lastTs := ts, lastIgnorePktTimestamp := ignorePktTimestamp
      lastCheckOldPausemodes := checkOldPausemodes }, result)

/-! ### The end of a container -/

/-- The modes of a list are closed from the last to the first. -/
def closeModes (c : TimedContainer) (ms : List TimedMode) : TimedContainer :=
  ms.foldr (fun m c => c.closeMode m) c

/-- `terminate` -/
def terminate (c : TimedContainer) : TimedContainer :=
  match c.pauseModeStack with
  | [] => { c with active := false }
  | m :: older =>
    let c := { c.closeModes older with active := false }
    { (c.closeMode m).resetLastTs with pauseModeStack := [] }

/-- How `startContainer` starts a container: paused or not, and its first file. -/
def start (runNumber : Nat) (minTime : Timespec) (paused opens : Bool) : TimedContainer :=
  let c := create runNumber minTime
  let c :=
    if paused then
      { c with pauseModeStack :=
          c.pauseModeStack.map fun m => { m with paused := true, numFiles := 1 } }
    else c
  c.newFile 0 paused minTime opens

/-! ### The calls -/

/-- The calls on a container between its start and its end. -/
inductive Call where
  | write (n : Nat) (io : WriteIO)
  | pause (t : Timespec) (io : PauseIO)
  | resume (t : Timespec) (io : PauseIO)
  | getPauseModeByTime (ignorePktTimestamp : Bool) (ts : Timespec) (checkOldPausemodes : Bool)
      (oldTs timeout : Timespec)
deriving DecidableEq, Repr

/-- One call.  A mode that is not on the stack cannot be written to. -/
def step (c : TimedContainer) : Call → Option TimedContainer
  | .write n io => (c.write n io).map (·.1)
  | .pause t io => c.pause t io
  | .resume t io => c.resume t io
  | .getPauseModeByTime ignore ts check oldTs timeout =>
    some (c.getPauseModeByTime ignore ts check oldTs timeout).1

end TimedContainer

end Adara.Native
