import Adara.Native.Packets

/-! # Writing to data files

`StorageFile::write` with its loops over `writev`, the writes of a file's own packets, and
`StorageContainer::write`, which rotates a file that cannot be written.  A file has here the
bytes on disk next to the size recorded for it, and an `IoVector` is changed by the writes that
use it.

What each call of `write` or `writev` returns is given, as a list for each function that loops
over them; a list that does not fit has no result.  Opening a file, which throws if it fails,
the times of the modes, and the run status packets, whose bytes are given, are left out. -/

namespace Adara.Native

/-- What a call of `write` or `writev` returns: the bytes written, or no positive number, with
    whether `errno` is `EAGAIN` or `EINTR`. -/
inductive Sys where
  | wrote (n : Nat)
  | failed (again : Bool)
deriving DecidableEq, Repr

/-- For each entry the bytes from `iov_base` on. -/
abbrev IoVector := List (List UInt8)

def iovMax : Nat := 1024

/-- `storage.syncdist` and `storage.filesize` -/
structure FileConfig where
  maxSyncDistance : Nat
  maxFileSize : Nat
deriving DecidableEq, Repr

/-- A file with its bytes on disk. -/
structure OutputFile where
  bytes : List UInt8
  size : Nat
  syncDistance : Nat
  active : Bool
  oversize : Bool
deriving DecidableEq, Repr

/-! ### Packets of the file -/

/-- The bytes of a word, low byte first. -/
def wordBytes (w : UInt32) : List UInt8 :=
  [w.toUInt8, (w >>> 8).toUInt8, (w >>> 16).toUInt8, (w >>> 24).toUInt8]

def syncSignature : List UInt8 :=
  [0x53, 0x4e, 0x53, 0x41, 0x44, 0x41, 0x52, 0x41, 0x4f, 0x52, 0x4e, 0x4c, 0x00, 0x00, 0xf0, 0x7f]

/-- `sync_packet`, with its time in EPICS time. -/
def syncPacket (sec nsec : UInt32) (offset : Nat) : List UInt8 :=
  wordBytes 28 ++ wordBytes 0x400800 ++ wordBytes sec ++ wordBytes nsec ++ syncSignature ++
    wordBytes (.ofNat offset) ++ wordBytes (.ofNat (offset / 2 ^ 32)) ++ wordBytes 0

/-- A loop over `write`: the bytes it writes, and whether these are all. -/
def writeBytes (bytes : List UInt8) : List Sys → Option (List UInt8 × Bool)
  | [] => if bytes = [] then some ([], true) else none
  | r :: rs =>
    if bytes = [] then none
    else match r with
      | .wrote n =>
        if 0 < n ∧ n ≤ bytes.length then
          (writeBytes (bytes.drop n) rs).map fun (written, all) => (bytes.take n ++ written, all)
        else none
      | .failed true => writeBytes bytes rs
      | .failed false => if rs = [] then some ([], false) else none

/-- What `addSync` meets: the time, and the results of its writes. -/
structure SyncIO where
  sec : UInt32
  nsec : UInt32
  results : List Sys
deriving DecidableEq, Repr

/-- What `write` meets: the results of its calls of `writev`, and what `addSync` meets. -/
structure FileIO where
  results : List Sys
  sync : SyncIO
deriving DecidableEq, Repr

namespace OutputFile

def append (f : OutputFile) (bs : List UInt8) : OutputFile :=
  { f with bytes := f.bytes ++ bs, size := f.size + bs.length }

def addSync (cfg : FileConfig) (f : OutputFile) (io : SyncIO) : Option OutputFile :=
  (writeBytes (syncPacket io.sec io.nsec f.size) io.results).map fun (written, _) =>
    let f := f.append written
    { f with syncDistance := f.syncDistance % cfg.maxSyncDistance }

/-- `notify`, without its signal. -/
def notify (cfg : FileConfig) (f : OutputFile) : OutputFile :=
  if cfg.maxFileSize ≤ f.size then { f with oversize := true } else f

end OutputFile

/-! ### Packets of others -/

/-- Take so many bytes off the entries from `vec` on, and move `vec` past those that are used
    up: the entries before it and from it on. -/
def advance (done : IoVector) : IoVector → Nat → IoVector × IoVector
  | vec, 0 => (done, vec)
  | [], _ => (done, [])
  | v :: vec, rc =>
    if v.length ≤ rc then advance (done ++ [v]) vec (rc - v.length) else (done, v.drop rc :: vec)

/-- The state of the loops in `write`; `started` is its `partial`. -/
structure Writing where
  file : OutputFile
  done : IoVector
  vec : IoVector
  remaining : Nat
  started : Bool
deriving DecidableEq, Repr

namespace Writing

/-- Reset to the start of the vector. -/
def reset (len : Nat) (w : Writing) : Writing :=
  { w with done := [], vec := w.done ++ w.vec, remaining := len }

/-- What `writev` is given. -/
def asked (w : Writing) : List UInt8 := (w.vec.take iovMax).flatten

/-- `writev` wrote so many bytes. -/
def wrote (w : Writing) (n : Nat) : Writing :=
  { w with
    file :=
      { w.file with
        bytes := w.file.bytes ++ w.asked.take n
        size := w.file.size + n
        syncDistance := w.file.syncDistance + n }
    started := true }

/-- On to what remains. -/
def next (w : Writing) (n : Nat) : Writing :=
  { w with
    remaining := w.remaining - n
    done := (advance w.done w.vec n).1
    vec := (advance w.done w.vec n).2 }

/-- The loops of `write`, from a count of retries on: `writev` is called until all is written
    or it fails, and again from the start if it failed before anything was written. -/
def loop (len : Nat) : Nat → Writing → List Sys → Option (Writing × Bool)
  | _, w, [] => if w.remaining = 0 then some (w, true) else none
  | retryCount, w, r :: rs =>
    if w.remaining = 0 then none
    else match r with
      | .failed true => loop len retryCount w rs
      | .failed false =>
        if !w.started && retryCount + 1 < 3 then loop len (retryCount + 1) (w.reset len) rs
        else if rs = [] then some (w, false)
        else none
      | .wrote n =>
        if 0 < n ∧ n ≤ w.asked.length then
          if n = w.remaining then if rs = [] then some (w.wrote n, true) else none
          else loop len retryCount ((w.wrote n).next n) rs
        else none

end Writing

namespace OutputFile

/-- `write`, with the vector as it leaves it. -/
def write (cfg : FileConfig) (f : OutputFile) (iovec : IoVector) (len : Nat) (doNotify : Bool)
    (io : FileIO) : Option (OutputFile × IoVector × Bool) := do
  let (w, ok) ← Writing.loop len 0 ⟨f, [], iovec, len, false⟩ io.results
  let f ← (if cfg.maxSyncDistance ≤ w.file.syncDistance ∧ w.file.active then
    w.file.addSync cfg io.sync else some w.file)
  some (if doNotify then f.notify cfg else f, w.done ++ w.vec, ok)

/-- `addRunStatus` of a packet. -/
def addRunStatus (cfg : FileConfig) (f : OutputFile) (pkt : List UInt8) (io : FileIO) :
    Option OutputFile :=
  (f.write cfg [pkt] pkt.length false io).map (·.1)

/-- `terminate`, with the last run status packet. -/
def terminate (cfg : FileConfig) (f : OutputFile) (pkt : List UInt8) (io : FileIO) :
    Option OutputFile :=
  { f with syncDistance := 0, active := false }.addRunStatus cfg pkt io

/-- `catFile`, with what is read from the other file, a buffer at a time. -/
def catFile (f : OutputFile) : List (List UInt8 × List Sys) → Option OutputFile
  | [] => some f
  | (buf, results) :: rest => do
    let (written, all) ← writeBytes buf results
    let f := f.append written
    let f := { f with syncDistance := f.syncDistance + written.length }
    if all then f.catFile rest else if rest = [] then some f else none

/-- `addPrologue` of packets in turn. -/
def addPrologues (cfg : FileConfig) (f : OutputFile) : List (IoVector × FileIO) → Option OutputFile
  | [] => some f
  | (iovec, io) :: rest => do
    let (f, _, _) ← f.write cfg iovec iovec.flatten.length false io
    f.addPrologues cfg rest

end OutputFile

/-- What comes first in a file: the packets that those add who are told of the new file, or a
    copy of the prologue of an old mode. -/
inductive FileHead where
  | fileCreated (pkts : List (IoVector × FileIO))
  | lastPrologueFile (bufs : List (List UInt8 × List Sys))
deriving DecidableEq, Repr

/-- What the making of a file meets. -/
structure NewFileIO where
  sync : SyncIO
  status : List UInt8
  statusIO : FileIO
  prologue : FileHead
deriving DecidableEq, Repr

/-- What the end of a file meets. -/
structure EndFileIO where
  status : List UInt8
  statusIO : FileIO
deriving DecidableEq, Repr

namespace OutputFile

/-- `StorageFile::newFile` -/
def newFile (cfg : FileConfig) (io : NewFileIO) : Option OutputFile := do
  let f ← OutputFile.addSync cfg ⟨[], 0, 0, true, false⟩ io.sync
  f.addRunStatus cfg io.status io.statusIO

def addPrologue (cfg : FileConfig) (f : OutputFile) : FileHead → Option OutputFile
  | .fileCreated pkts => f.addPrologues cfg pkts
  | .lastPrologueFile bufs => f.catFile bufs

end OutputFile

/-! ### The container -/

/-- The files of a container in the order they are made, the current file of each mode, and the
    count of retries that all calls of `write` share. -/
structure OutputContainer where
  files : List OutputFile
  modes : List (Option Nat)
  retryCount : UInt32
deriving DecidableEq, Repr

/-- One attempt to write a packet, with what rotates the file if it fails. -/
structure Attempt where
  write : FileIO
  endFile : EndFileIO
  newFile : NewFileIO
deriving DecidableEq, Repr

/-- What `write` meets: the end of an oversize file, a new file, and the attempts. -/
structure ContainerIO where
  endFile : EndFileIO
  newFile : NewFileIO
  attempts : List Attempt
deriving DecidableEq, Repr

namespace OutputContainer

variable (cfg : FileConfig)

def start : OutputContainer := ⟨[], [none], 0⟩

/-- The file of a mode. -/
def fileOf (c : OutputContainer) (k : Nat) : Option Nat := c.modes[k]?.join

/-- `terminateFile` with `do_terminate`. -/
def terminateFile (c : OutputContainer) (k : Nat) (io : EndFileIO) : Option OutputContainer := do
  let n ← c.fileOf k
  let f ← c.files[n]?
  let f ← f.terminate cfg io.status io.statusIO
  some { c with files := c.files.set n f, modes := c.modes.set k none }

/-- `newFile` -/
def newFile (c : OutputContainer) (k : Nat) (io : NewFileIO) : Option OutputContainer := do
  let f ← OutputFile.newFile cfg io
  let f ← f.addPrologue cfg io.prologue
  some { c with files := c.files ++ [f], modes := c.modes.set k (some c.files.length) }

/-- The loop of `write`. -/
def attempts (c : OutputContainer) (k : Nat) (iovec : IoVector) (len : Nat) (notify : Bool) :
    List Attempt → Option (OutputContainer × Bool)
  | [] => none
  | a :: rest => do
    let n ← c.fileOf k
    let f ← c.files[n]?
    let (f, iovec, ok) ← f.write cfg iovec len notify a.write
    let c := { c with files := c.files.set n f }
    if ok then if rest = [] then some ({ c with retryCount := 0 }, true) else none
    else
      let counted : OutputContainer := { c with retryCount := c.retryCount + 1 }
      if c.retryCount < (5 : UInt32) then
        let c ← counted.terminateFile cfg k a.endFile
        let c ← c.newFile cfg k a.newFile
        c.attempts k iovec len notify rest
      else if rest = [] then some (counted, false)
      else none

/-- The start of `write`: an oversize file is ended, and a file is made where there is none. -/
def readyFile (c : OutputContainer) (k : Nat) (io : ContainerIO) : Option OutputContainer := do
  let c ← (match (c.fileOf k).bind (c.files[·]?) with
    | some f => if f.oversize then c.terminateFile cfg k io.endFile else some c
    | none => some c)
  if (c.fileOf k).isSome then some c else c.newFile cfg k io.newFile

/-- `write` of a packet. -/
def write (c : OutputContainer) (k : Nat) (iovec : IoVector) (notify : Bool) (io : ContainerIO) :
    Option (OutputContainer × Bool) := do
  let c ← c.readyFile cfg k io
  c.attempts cfg k iovec iovec.flatten.length notify io.attempts

/-- What is done to a container: a packet is written to a mode, a mode comes on top with a file
    of its own, or the file of a mode is ended. -/
inductive Op where
  | write (k : Nat) (iovec : IoVector) (notify : Bool) (io : ContainerIO)
  | pushMode (io : NewFileIO)
  | terminateFile (k : Nat) (io : EndFileIO)
deriving DecidableEq, Repr

def step (c : OutputContainer) : Op → Option OutputContainer
  | .write k iovec notify io => (c.write cfg k iovec notify io).map (·.1)
  | .pushMode io => { c with modes := none :: c.modes }.newFile cfg 0 io
  | .terminateFile k io => c.terminateFile cfg k io

end OutputContainer

end Adara.Native
