import Adara.Native.TimedContainer

/-! # The stack of containers

The part of `StorageManager` that decides which container a packet goes to: the stack with
the current container first, the start and the end of a container, the split of a long one
and the lookup by time with its cache.

A slot of the stack is a node of the list, with a number that stays its own.  It is empty
between the end of a container and the start of the next one, and stays so if the start
throws.  A function that throws leaves the manager as it is at that moment; `none` for a whole
call means that the code would use a pointer to nothing.  Left out are the data files of the
saved input streams, the state index and the accounting of blocks. -/

namespace Adara.Native

/-- A container with its time range. -/
structure StoredContainer where
  minTime : Timespec
  maxTime : Timespec
  modes : TimedContainer
deriving DecidableEq, Repr

structure Slot where
  node : Nat
  container : Option StoredContainer
deriving DecidableEq, Repr

structure StorageManager where
  /-- `m_containerStack` -/
  containerStack : List Slot
  nextNode : Nat
  /-- `SMSControl::m_numConnectedDataSources` -/
  numConnected : Nat
  /-- The containers that were terminated, in order. -/
  ended : List TimedContainer
  lastFound : Option Nat
  lastTs : Timespec
  lastIgnorePktTimestamp : Bool
  lastCheckOldContainers : Bool
deriving DecidableEq, Repr

namespace StoredContainer

/-- The time is in the range of the container, whose end is open when it is zero. -/
def holds (c : StoredContainer) (ts : Timespec) : Bool :=
  !ts.before c.minTime && (c.maxTime.isZero || !c.maxTime.before ts)

def expired (oldTs timeout : Timespec) (c : StoredContainer) : Bool :=
  !c.maxTime.isZero && !oldTs.before (c.maxTime.add timeout)

end StoredContainer

namespace Slot

def holds (ts : Timespec) (s : Slot) : Bool := s.container.any (·.holds ts)

/-- The time is before the container of the slot. -/
def older (ts : Timespec) (s : Slot) : Bool := s.container.any (ts.before ·.minTime)

def expired (oldTs timeout : Timespec) (s : Slot) : Bool :=
  s.container.any (·.expired oldTs timeout)

end Slot

namespace StorageManager

/-- The slot at an iterator. -/
def slotAt (s : StorageManager) (n : Nat) : Option Slot :=
  s.containerStack.find? (·.node == n)

/-- A slot is changed in place. -/
def setSlot (s : StorageManager) (slot : Slot) : StorageManager :=
  { s with containerStack :=
      s.containerStack.map fun slot' => if slot'.node = slot.node then slot else slot' }

/-- The container at an iterator. -/
def containerAt (s : StorageManager) (n : Nat) : Option StoredContainer :=
  (s.slotAt n).bind (·.container)

/-- The pause modes of the container at an iterator are changed. -/
def setModes (s : StorageManager) (n : Nat) (modes : TimedContainer) : StorageManager :=
  match s.containerAt n with
  | none => s
  | some c => s.setSlot ⟨n, some { c with modes }⟩

/-- A container is terminated. -/
def terminated (s : StorageManager) (c : StoredContainer) : StorageManager :=
  { s with ended := s.ended ++ [c.modes.terminate] }

/-! ### Containers -/

/-- The current mode of a container, with the prologue files of its current time: they are
    made unless it has them, which may fail. -/
def getLastPrologueFiles (c : TimedContainer) (opens : Bool) : Option TimedContainer :=
  c.pauseModeStack.head?.bind fun m =>
    if m.hasLastPrologue then some c
    else if opens then some (c.setMode { m with hasLastPrologue := true })
    else none

/-- `endCurrentContainer`, of the container at `n`, with the iterator of the slot for the next
    one. -/
def endCurrentContainer (s : StorageManager) (n : Nat) (newStart : Timespec)
    (doTerminate prologueOpens : Bool) : StorageManager × Option Nat :=
  match s.containerAt n with
  | none => (s, none)
  | some c =>
    let c := { c with maxTime := newStart.pred }
    if doTerminate || s.numConnected == 0 then ((s.terminated c).setSlot ⟨n, none⟩, some n)
    else
      match getLastPrologueFiles c.modes prologueOpens with
      | none => (s.setSlot ⟨n, some c⟩, none)
      | some modes =>
        let s := s.setSlot ⟨n, some { c with modes }⟩
        ({ s with
          containerStack := ⟨s.nextNode, none⟩ :: s.containerStack
          nextNode := s.nextNode + 1, lastTs := ⟨-1, -1⟩ }, some s.nextNode)

/-- What the start of a container meets: whether its directories can be made, and whether
    its first file opens. -/
structure StartIO where
  created : Bool
  opens : Bool
deriving DecidableEq, Repr

/-- `startContainer` in the slot at `n`; with `lastPrologue` the prologue files of the last
    container are copied.  The flag says whether it came to its end. -/
def startContainer (s : StorageManager) (n : Nat) (minTime : Timespec) (paused : Bool)
    (run : Nat) (lastPrologue : Bool) (io : StartIO) : StorageManager × Bool :=
  if (s.containerAt n).isSome || !io.created then (s, false)
  else
    let modes := TimedContainer.start run minTime paused io.opens
    let modes :=
      { modes with pauseModeStack :=
          modes.pauseModeStack.map fun m => { m with hasLastPrologue := lastPrologue } }
    (s.setSlot ⟨n, some ⟨minTime, ⟨0, 0⟩, modes⟩⟩, io.opens)

/-- What the switch to another container meets. -/
structure SwitchIO where
  prologueOpens : Bool
  start : StartIO
deriving DecidableEq, Repr

/-- The end of the current container, and the start of the next one. -/
def switchContainer (s : StorageManager) (newStart : Timespec) (run : Nat) (io : SwitchIO) :
    StorageManager :=
  match s.containerStack.head? with
  | none => s
  | some slot =>
    match s.endCurrentContainer slot.node newStart false io.prologueOpens with
    | (s, none) => s
    | (s, some n) => (s.startContainer n newStart false run false io.start).1

/-- `startRecording`, at a time after the epoch of the packets. -/
def startRecording (s : StorageManager) (runStart : Timespec) (run : Nat) (io : SwitchIO) :
    StorageManager :=
  let recording :=
    (s.containerStack.head?.bind (·.container)).any fun c => decide (c.modes.runNumber ≠ 0)
  if run = 0 || recording then s else s.switchContainer runStart run io

/-- `stopRecording`: the next container starts one nanosecond after the stop. -/
def stopRecording (s : StorageManager) (runStop : Timespec) (io : SwitchIO) : StorageManager :=
  s.switchContainer runStop.succ 0 io

/-- `cleanContainerStack` -/
def cleanContainerStack (s : StorageManager) : StorageManager :=
  match s.containerStack with
  | [] => s
  | slot :: older =>
    if slot.container.isNone then s
    else
      { s with
        containerStack := [slot]
        ended := s.ended ++ older.filterMap (·.container.map (·.modes.terminate))
        lastTs := ⟨-1, -1⟩ }

/-- `SMSControl::checkRequiredDataSources`, with the number of sources that are connected. -/
def checkRequiredDataSources (s : StorageManager) (connected : Nat) : StorageManager :=
  { (if connected = 0 then s.cleanContainerStack else s) with numConnected := connected }

/-! ### The lookup by time -/

/-- Everything is the same as in the last lookup, so its container is used. -/
def usesCache (s : StorageManager) (ignorePktTimestamp : Bool) (ts : Timespec)
    (checkOldContainers : Bool) : Bool :=
  ignorePktTimestamp == s.lastIgnorePktTimestamp &&
    checkOldContainers == s.lastCheckOldContainers && ts == s.lastTs

/-- The search: the first container if the time is ignored, else the first whose range holds
    it. -/
def searchContainers (s : StorageManager) (ignorePktTimestamp : Bool) (ts : Timespec) :
    Option Nat :=
  if ignorePktTimestamp then s.containerStack.head?.map (·.node)
  else (s.containerStack.find? (·.holds ts)).map (·.node)

/-- Where the search found nothing: a time before the oldest container goes to the current
    one. -/
def sawtooth (s : StorageManager) (ts : Timespec) : Option Nat :=
  s.containerStack.getLast?.bind fun slot =>
    if slot.older ts then s.containerStack.head?.map (·.node) else none

/-- The lookup without its shortcut. -/
def lookup (s : StorageManager) (ignorePktTimestamp : Bool) (ts : Timespec) : Option Nat :=
  (s.searchContainers ignorePktTimestamp ts).or (s.sawtooth ts)

/-- The containers behind the one that was found that have expired are terminated. -/
def expireContainers (s : StorageManager) (found : Nat) (oldTs timeout : Timespec) :
    StorageManager :=
  let (front, behind) :=
    s.containerStack.splitAt (s.containerStack.findIdx (·.node == found) + 1)
  { s with
    containerStack := front ++ behind.filter (!·.expired oldTs timeout)
    ended := s.ended ++
      (behind.filter (·.expired oldTs timeout)).filterMap (·.container.map (·.modes.terminate)) }

/-- The search looks at a slot that is empty. -/
def looksAtEmpty (s : StorageManager) (ignorePktTimestamp : Bool) : Bool :=
  (if ignorePktTimestamp then s.containerStack.tail else s.containerStack).any
    (·.container.isNone)

/-- `findContainerByTime`, with the oldest time of the sources and the cleanup timeout. -/
def findContainerByTime (s : StorageManager) (ignorePktTimestamp : Bool) (ts : Timespec)
    (checkOldContainers : Bool) (oldTs timeout : Timespec) :
    Option (StorageManager × Option Nat) :=
  if s.usesCache ignorePktTimestamp ts checkOldContainers then some (s, s.lastFound)
  else if s.looksAtEmpty ignorePktTimestamp then none
  else
    let found := s.searchContainers ignorePktTimestamp ts
    let s :=
      match found with
      | some n => if checkOldContainers then s.expireContainers n oldTs timeout else s
      | none => s
    let result := found.or (s.sawtooth ts)
    some ({ s with
      lastFound := result, lastTs := ts, lastIgnorePktTimestamp := ignorePktTimestamp
      lastCheckOldContainers := checkOldContainers }, result)

/-! ### Packets -/

/-- What the split of a container meets, with the newest time of the sources and the time of
    the clock. -/
structure SplitIO where
  newest : Timespec
  now : Timespec
  switch : SwitchIO
deriving DecidableEq, Repr

namespace SplitIO

/-- The lesser of the two times, and one nanosecond more. -/
def maxTime (io : SplitIO) : Timespec :=
  (if io.now.before io.newest then io.now else io.newest).succ

end SplitIO

/-- A container without a run that has no end yet is split when its next file would be the
    101st. -/
def isLong (c : StoredContainer) : Bool :=
  c.modes.runNumber == 0 && c.maxTime.isZero && decide (100 < 1 + c.modes.made.length)

/-- The container at `n` is split.  It is terminated if it has one pause mode, and a new one
    with its range comes in its place; else the new one begins where it ends.  With the
    iterator of the new container, unless the split throws. -/
def splitContainer (s : StorageManager) (n : Nat) (c : StoredContainer) (io : SplitIO) :
    StorageManager × Option Nat :=
  let doTerminate := c.modes.pauseModeStack.length == 1
  let paused := c.modes.pauseModeStack.head?.any (·.paused)
  let lastPrologue := c.modes.pauseModeStack.head?.any (·.hasLastPrologue) || !doTerminate
  let minTime := if doTerminate then c.minTime else io.maxTime
  match s.endCurrentContainer n io.maxTime doTerminate io.switch.prologueOpens with
  | (s, none) => (s, none)
  | (s, some it) =>
    match s.startContainer it minTime paused 0 lastPrologue io.switch.start with
    | (s, true) => (s, some it)
    | (s, false) => (s, none)

/-- A packet is written to mode `p` of the container at `n`, whose current mode has to have a
    file. -/
def writeTo (s : StorageManager) (n p : Nat) (io : TimedContainer.WriteIO) :
    Option StorageManager :=
  (s.containerAt n).bind fun c =>
    if (c.modes.pauseModeStack.head?.bind (·.file)).isNone then none
    else (c.modes.write p io).map fun r => s.setModes n r.1

/-- `addPacket`.  The packet goes to the mode that was looked up before the split; if its
    container was terminated, to the current mode of the new one. -/
def addPacket (s : StorageManager) (ignorePktTimestamp : Bool) (ts : Timespec)
    (checkOldContainers : Bool) (oldTs timeout : Timespec) (io : TimedContainer.WriteIO)
    (split : SplitIO) : Option StorageManager :=
  (s.findContainerByTime ignorePktTimestamp ts checkOldContainers oldTs timeout).bind
    fun (s, found) =>
      match found.bind fun n => (s.containerAt n).map (n, ·) with
      | none => some s
      | some (n, c) =>
        let (modes, mode) :=
          c.modes.getPauseModeByTime ignorePktTimestamp ts checkOldContainers oldTs timeout
        let s := s.setModes n modes
        (mode.bind fun p => modes.modeAt p).bind fun m =>
          if m.file.isSome && io.oversize && isLong { c with modes } then
            match s.splitContainer n { c with modes } split with
            | (s, none) => some s
            | (s, some it) =>
              if modes.pauseModeStack.length == 1 then
                (s.containerAt it).bind fun new =>
                  new.modes.pauseModeStack.head?.bind fun top =>
                    s.writeTo it top.node { io with oversize := false }
              else if s.numConnected == 0 then none
              else s.writeTo n m.node io
          else s.writeTo n m.node io

/-- `savePacket`, where `oversize` says whether the file of the saved stream is. -/
def savePacket (s : StorageManager) (ignorePktTimestamp : Bool) (ts : Timespec)
    (oldTs timeout : Timespec) (oversize : Bool) (split : SplitIO) : Option StorageManager :=
  (s.findContainerByTime ignorePktTimestamp ts false oldTs timeout).map fun (s, found) =>
    match found.bind fun n => (s.containerAt n).map (n, ·) with
    | none => s
    | some (n, c) => if oversize && isLong c then (s.splitContainer n c split).1 else s

/-- `checkContainerTimeout` -/
def checkContainerTimeout (s : StorageManager) (ts oldTs timeout : Timespec) :
    Option StorageManager :=
  (s.findContainerByTime false ts true oldTs timeout).bind fun (s, found) =>
    found.bind fun n => (s.containerAt n).map fun c =>
      s.setModes n (c.modes.getPauseModeByTime false ts true oldTs timeout).1

/-- A call on the current container. -/
def onCurrent (s : StorageManager) (f : TimedContainer → Option TimedContainer) :
    Option StorageManager :=
  s.containerStack.head?.bind fun slot =>
    slot.container.bind fun c => (f c.modes).map (s.setModes slot.node)

/-- `pauseRecording` -/
def pauseRecording (s : StorageManager) (t : Timespec) (io : TimedContainer.PauseIO) :
    Option StorageManager :=
  s.onCurrent (·.pause t io)

/-- `resumeRecording` -/
def resumeRecording (s : StorageManager) (t : Timespec) (io : TimedContainer.PauseIO) :
    Option StorageManager :=
  s.onCurrent (·.resume t io)

/-! ### The calls -/

/-- The manager when it has started, with a first container. -/
def init (minTime : Timespec) (opens : Bool) : StorageManager :=
  { containerStack := [⟨0, some ⟨minTime, ⟨0, 0⟩, TimedContainer.start 0 minTime false opens⟩⟩]
    nextNode := 1, numConnected := 0, ended := []
    lastFound := none, lastTs := ⟨-1, -1⟩
    lastIgnorePktTimestamp := true, lastCheckOldContainers := false }

inductive Op where
  | startRecording (runStart : Timespec) (run : Nat) (io : SwitchIO)
  | stopRecording (runStop : Timespec) (io : SwitchIO)
  | pauseRecording (t : Timespec) (io : TimedContainer.PauseIO)
  | resumeRecording (t : Timespec) (io : TimedContainer.PauseIO)
  | checkRequiredDataSources (connected : Nat)
  | addPacket (ignorePktTimestamp : Bool) (ts : Timespec) (checkOldContainers : Bool)
      (oldTs timeout : Timespec) (io : TimedContainer.WriteIO) (split : SplitIO)
  | savePacket (ignorePktTimestamp : Bool) (ts oldTs timeout : Timespec) (oversize : Bool)
      (split : SplitIO)
  | checkContainerTimeout (ts oldTs timeout : Timespec)
deriving DecidableEq, Repr

def step (s : StorageManager) : Op → Option StorageManager
  | .startRecording t run io => some (s.startRecording t run io)
  | .stopRecording t io => some (s.stopRecording t io)
  | .pauseRecording t io => s.pauseRecording t io
  | .resumeRecording t io => s.resumeRecording t io
  | .checkRequiredDataSources connected => some (s.checkRequiredDataSources connected)
  | .addPacket ignore ts check oldTs timeout io split =>
    s.addPacket ignore ts check oldTs timeout io split
  | .savePacket ignore ts oldTs timeout oversize split =>
    s.savePacket ignore ts oldTs timeout oversize split
  | .checkContainerTimeout ts oldTs timeout => s.checkContainerTimeout ts oldTs timeout

end StorageManager

end Adara.Native
