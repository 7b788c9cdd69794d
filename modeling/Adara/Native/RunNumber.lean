import Adara.ForStd.CrashFS
import Adara.Native.BlockAccount

/-! # The next run number

`StorageManager` keeps the next run number in a file.  `updateNextRun` writes a temporary and
renames it, and `cleanupRunFiles` completes or undoes at start-up what an earlier process left.
The state has one value for each system call that the process may be at, so that it may stop,
or the machine may crash, before and after every one of them. -/

namespace Adara.Native

open CrashFS (FS)

/-- `m_run_filename` and `m_run_tempname` -/
inductive RunName
  | file | temp
deriving DecidableEq, Repr

/-- An optional sign: whether it is a minus. -/
def takeSign : List Char → Bool × List Char
  | '-' :: rest => (true, rest)
  | '+' :: rest => (false, rest)
  | cs => (false, cs)

theorem takeSign_of_isDigit {c : Char} {cs : List Char} (h : c.isDigit = true) :
    takeSign (c :: cs) = (false, c :: cs) := by
  have hne : ∀ x : Char, x.isDigit = false → c ≠ x := by
    rintro x hx rfl
    exact absurd (hx.symm.trans h) (by decide)
  have hminus := hne '-' (by decide)
  have hplus := hne '+' (by decide)
  unfold takeSign
  split <;> simp_all

/-- The value of a digit in a base up to 16; 16 for what is none. -/
def digitValue (c : Char) : Nat :=
  if c.isDigit then c.toNat - '0'.toNat
  else if ['a', 'b', 'c', 'd', 'e', 'f'].contains c.toLower then c.toLower.toNat - 'a'.toNat + 10
  else 16

/-- The base that a prefix stands for. -/
def takeBase : List Char → Nat × List Char
  | '0' :: x :: c :: rest =>
    if (x = 'x' ∨ x = 'X') ∧ digitValue c < 16 then (16, c :: rest) else (8, '0' :: x :: c :: rest)
  | '0' :: rest => (8, '0' :: rest)
  | cs => (10, cs)

/-- `strtol` with base 0, and what it leaves, for a number that fits. -/
def strtol (cs : List Char) : Int × List Char :=
  let (negative, cs) := takeSign (cs.dropWhile isSpace)
  let (base, cs) := takeBase cs
  let n := (cs.takeWhile (digitValue · < base)).foldl (fun n c => base * n + digitValue c) 0
  (if negative then -n else n, cs.dropWhile (digitValue · < base))

/-- `readRunFile`, for a file that can be read.  A number of nothing is zero. -/
def readRunFile (text : Option (List Char)) : Nat :=
  match text with
  | none => 0
  | some text =>
    let buffer := text.take 16
    if buffer.length < 1 ∨ buffer.length = 16 then 0
    else
      let (run, rest) := strtol buffer
      -- a newline is fine, and so is a terminator
      if rest.head?.any (fun c => !isSpace c && c != '\x00') then 0
      else if run ≤ 0 ∨ 2 ^ 32 ≤ run then 0
      else run.toNat

/-- `boost::lexical_cast` of a number. -/
def runText (run : Nat) : List Char := Nat.toDigits 10 run

/-- What the process does next. -/
inductive RunProc
  | down
  /-- The start-up found no valid number. -/
  | missing
  /-- `cleanupRunFiles` -/
  | cleanUnlink | cleanRename | cleanSync
  | idle (next : Nat)
  /-- `updateNextRun`, before the temporary is opened. -/
  | opening (next : Nat)
  | writing (next fd : Nat)
  | syncing (next fd : Nat) (failed : Bool)
  | closing (next fd : Nat) (failed : Bool)
  | moving (next : Nat)
  | unlinking (next : Nat)
  | syncingDir (next : Nat)
deriving DecidableEq, Repr

structure RunNumbers where
  fs : FS RunName Char
  proc : RunProc
  /-- The run numbers for which the update had passed. -/
  used : List Nat
  /-- The numbers read at start-up, each with the run numbers used before. -/
  starts : List (Nat × List Nat)

namespace RunNumbers

/-- The recorder is down, with a number in the file. -/
def init (text : List Char) : RunNumbers :=
  ⟨⟨[⟨text, []⟩], fun name => if name = .file then some 0 else none, []⟩, .down, [], []⟩

inductive Op
  /-- The process starts; the temporary may turn out to be unreadable. -/
  | start (readable : Bool)
  /-- A run is started. -/
  | setRecording
  /-- The external PV sets the next run number. -/
  | external (run : Nat)
  /-- The next system call of the process: whether it succeeds, and of a write how much of the
      text it wrote. -/
  | call (ok : Bool) (written : Nat)
  /-- The process ends. -/
  | stop
  /-- The machine goes down, and leaves one of the directories and of each file one text. -/
  | crash (k : Nat) (choose : Nat → Nat)

/-- `m_nextRunNumber + 1` -/
def succ32 (next : Nat) : Nat := (next + 1) % 2 ^ 32

/-- `getNextRun` -/
def started (s : RunNumbers) : RunNumbers :=
  let next := readRunFile (s.fs.read .file)
  if next = 0 then { s with proc := .missing }
  else { s with proc := .idle next, starts := (next, s.used) :: s.starts }

/-- The system call the process is at. -/
def call (s : RunNumbers) (ok : Bool) (written : Nat) : Option RunNumbers :=
  match s.proc with
  | .down | .missing | .idle _ => none
  | .cleanUnlink =>
    if ok then some { s with fs := s.fs.unlink .temp }.started else some { s with proc := .down }
  | .cleanRename =>
    if ok then some { s with fs := s.fs.rename .temp .file, proc := .cleanSync }
    else some { s with proc := .down }
  | .cleanSync =>
    if ok then some { s with fs := s.fs.syncDir }.started else some { s with proc := .down }
  | .opening next =>
    if ok then
      let (fs, fd) := s.fs.openTrunc .temp
      some { s with fs, proc := .writing next fd }
    else some { s with proc := .idle next }
  | .writing next fd =>
    let text := runText (succ32 next)
    if ok then
      some { s with
        fs := s.fs.write fd (text.take written)
        proc := .syncing next fd (decide (written < text.length)) }
    else some { s with proc := .syncing next fd true }
  | .syncing next fd failed =>
    some { s with
      fs := if ok then s.fs.fsync fd else s.fs
      proc := .closing next fd (failed || !ok) }
  | .closing next _ failed =>
    some { s with proc := if failed || !ok then .idle next else .moving next }
  | .moving next =>
    if ok then some { s with fs := s.fs.rename .temp .file, proc := .syncingDir next }
    else some { s with proc := .unlinking next }
  | .unlinking next =>
    some { s with fs := if ok then s.fs.unlink .temp else s.fs, proc := .idle next }
  | .syncingDir next =>
    if ok then
      -- the check has passed
      some { s with fs := s.fs.syncDir, proc := .idle (succ32 next), used := next :: s.used }
    else some { s with proc := .idle next }

def step (s : RunNumbers) : Op → Option RunNumbers
  | .start readable =>
    if s.proc = .down then
      let nextrun := readRunFile (s.fs.read .file)
      let temprun := if readable then readRunFile (s.fs.read .temp) else 0
      some { s with
        proc :=
          if nextrun = 0 then .missing
          else if temprun ≤ nextrun then .cleanUnlink
          else .cleanRename }
    else none
  | .setRecording =>
    match s.proc with
    | .idle next => some { s with proc := .opening next }
    | _ => none
  | .external run =>
    match s.proc with
    | .idle _ => if run < 2 ^ 32 then some { s with proc := .idle run } else none
    | _ => none
  | .call ok written => s.call ok written
  | .stop => some { s with proc := .down }
  | .crash k choose => (s.fs.crash k choose).map fun fs => { s with fs, proc := .down }

end RunNumbers

end Adara.Native
