import Adara.Native.StorageFile

/-! # Containers

A `StorageContainer` holds the files of one run.  Pausing and resuming a run stacks pause
modes, since packets can still belong to an older one; each mode has the file that is
written to and a list of files that are deferred.  Only the files of the oldest mode are
put on the file list and announced at once, those of a newer one are deferred until it is
the oldest, or is closed.

A call changes the modes and leaves a list of actions, which are then carried out in
order: announcing a file, writing to one, terminating one, and clearing `m_active`.  The
subscribers are called from these actions.  Which modes have expired is given to
`getPauseModeByTime` here instead of the times it compares.  Left out are the file names
with their numbers, the prologue files, the saved input streams and the times. -/

namespace Adara.Native

structure PauseMode where
  file : Option FileId
  pendingFiles : List FileId
  paused : Bool
deriving DecidableEq, Repr

/-- What a call does in order, once the pause modes are changed. -/
inductive Action where
  /-- `m_files.push_back`, and `m_newFile` is signalled. -/
  | added (f : FileId)
  /-- Bytes are written to a file. -/
  | append (f : FileId) (bs : List UInt8)
  /-- `StorageFile::notify` -/
  | notify (f : FileId)
  /-- `StorageFile::terminate` -/
  | terminate (f : FileId)
  /-- `m_active = false` -/
  | inactive
deriving DecidableEq, Repr

structure StorageContainer where
  store : FileStore
  created : Nat
  pauseModeStack : List PauseMode
  files : List FileId
  active : Bool

namespace StorageContainer

/-- `create`: no file yet, and one pause mode, which is not paused. -/
def create : StorageContainer :=
  { store := fun _ => ⟨[], false, false, false, 0, 0⟩, created := 0,
    pauseModeStack := [⟨none, [], false⟩], files := [], active := true }

/-- What is needed to make a new file: whether `openat` succeeds, and the bytes the file
    starts with, its prologue included. -/
structure NewFile where
  opens : Bool
  bytes : List UInt8
deriving DecidableEq, Repr

/-- `newFile` in mode `m`, which is number `k` of the stack. -/
def newFile (c : StorageContainer) (k : Nat) (m : PauseMode) (paused : Bool) (nf : NewFile) :
    StorageContainer × List Action :=
  if m.file.isSome then (c, [])
  else if !nf.opens then
    ({ c with pauseModeStack := c.pauseModeStack.set k { m with paused } }, [])
  else
    let f := c.created
    let c :=
      { c with
        store := Function.update c.store f ⟨nf.bytes, true, paused, false, 0, 1⟩
        created := f + 1 }
    if k + 1 = c.pauseModeStack.length then
      ({ c with pauseModeStack := c.pauseModeStack.set k ⟨some f, [], paused⟩ },
        m.pendingFiles.map .added ++ [.added f])
    else
      -- not the oldest mode: the file is deferred
      ({ c with
          pauseModeStack :=
            c.pauseModeStack.set k ⟨some f, m.pendingFiles ++ [f], paused⟩ }, [])

/-- `terminateFile` with `do_terminate`, in mode `m`. -/
def closeFile (c : StorageContainer) (k : Nat) (m : PauseMode) : StorageContainer × List Action :=
  ({ c with pauseModeStack := c.pauseModeStack.set k { m with file := none } },
    m.file.toList.map .terminate)

/-- `terminateFile` without `do_terminate`: the mode stays on the stack, below a new one
    that has no file yet. -/
def stackMode (c : StorageContainer) (m : PauseMode) : StorageContainer :=
  { c with pauseModeStack := ⟨none, [], m.paused⟩ :: c.pauseModeStack }

/-- The end of the current file and the start of the next one in the same mode. -/
def rollOver (c : StorageContainer) (k : Nat) (m : PauseMode) (nf : NewFile) :
    StorageContainer × List Action :=
  let (c, closed) := c.closeFile k m
  let (c, opened) := c.newFile k { m with file := none } m.paused nf
  (c, closed ++ opened)

/-- `write` to the file of mode `k`, once the file is there. -/
def writeFile (c : StorageContainer) (k : Nat) (pkt : List UInt8) (notify : Bool) : List Action :=
  match c.pauseModeStack[k]?.bind (·.file) with
  | none => []
  | some f => .append f pkt :: if notify then [.notify f] else []

/-- The start of `write`: a file that is oversize is rolled over, and a file is made where
    there is none. -/
def readyFile (c : StorageContainer) (k : Nat) (m : PauseMode) (nf : NewFile) :
    StorageContainer × List Action :=
  match m.file with
  | none => c.newFile k m m.paused nf
  | some f => if (c.store f).oversize then c.rollOver k m nf else (c, [])

/-- `write` to mode `k` -/
def write (c : StorageContainer) (k : Nat) (pkt : List UInt8) (notify : Bool) (nf : NewFile) :
    Option (StorageContainer × List Action) :=
  c.pauseModeStack[k]?.map fun m =>
    let (c, opened) := c.readyFile k m nf
    (c, opened ++ c.writeFile k pkt notify)

/-- A failed attempt in `write`: a part of the packet reached the disk, and the file is
    rotated. -/
def writeFailed (c : StorageContainer) (k : Nat) (part : List UInt8) (notify : Bool)
    (nf : NewFile) : Option (StorageContainer × List Action) :=
  c.pauseModeStack[k]?.bind fun m =>
    if m.file.isSome then
      let written := c.writeFile k part notify
      let (c, rolled) := c.rollOver k m nf
      some (c, written ++ rolled)
    else none

/-- `pause` with `paused`, and `resume` without: the current file is left to its mode if
    it is of the other kind. -/
def changeMode (c : StorageContainer) (paused : Bool) (nf : NewFile) :
    Option (StorageContainer × List Action) :=
  c.pauseModeStack.head?.map fun m =>
    match m.file with
    | none => c.newFile 0 m paused nf
    | some f =>
      if (c.store f).paused = paused then (c, [])
      else (c.stackMode m).newFile 0 ⟨none, [], m.paused⟩ paused nf

/-- `pause` -/
def pause (c : StorageContainer) (nf : NewFile) : Option (StorageContainer × List Action) :=
  c.changeMode true nf

/-- `resume` -/
def resume (c : StorageContainer) (nf : NewFile) : Option (StorageContainer × List Action) :=
  c.changeMode false nf

/-- A mode is closed: its deferred files are announced, and its file is terminated. -/
def closeMode (m : PauseMode) : List Action :=
  m.pendingFiles.map .added ++ m.file.toList.map .terminate

/-- The modes that have not expired, and those that have. -/
def splitExpired : List PauseMode → List Bool → List PauseMode × List PauseMode
  | [], _ => ([], [])
  | m :: ms, expired =>
    let (kept, gone) := splitExpired ms expired.tail
    if expired.headD false then (kept, m :: gone) else (m :: kept, gone)

/-- The check for old modes in `getPauseModeByTime`, oldest first, behind the first mode
    and the mode that was found; `expired` says which of these have expired.  Then the
    deferred files of the oldest mode that is left are announced. -/
def expireModes (c : StorageContainer) (found : Nat) (expired : List Bool) :
    StorageContainer × List Action :=
  let (kept, gone) := splitExpired (c.pauseModeStack.drop (found + 1)) expired
  let stack := c.pauseModeStack.take (found + 1) ++ kept
  let closed := gone.reverse.flatMap closeMode
  match stack.getLast? with
  | none => ({ c with pauseModeStack := stack }, closed)
  | some m =>
    ({ c with pauseModeStack := stack.dropLast ++ [{ m with pendingFiles := [] }] },
      closed ++ m.pendingFiles.map .added)

/-- `notify` of the current file. -/
def notify (c : StorageContainer) : Option (StorageContainer × List Action) :=
  c.pauseModeStack.head?.map fun m => (c, m.file.toList.map .notify)

/-- `terminate`: the older modes are closed, oldest first; then the container is no longer
    active, and the current mode is closed. -/
def terminate (c : StorageContainer) : StorageContainer × List Action :=
  ({ c with pauseModeStack := [] },
    c.pauseModeStack.tail.reverse.flatMap closeMode ++
      .inactive :: c.pauseModeStack.head?.toList.flatMap closeMode)

end StorageContainer

end Adara.Native
