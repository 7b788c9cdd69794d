import Adara.Native.Purge

/-! # The blocks in use

`StorageManager` counts the blocks of its closed files in `m_blocks_used`: those that the scan of
the existing storage finds, and then those of each file that is closed.  A purge in the
background reports the blocks it freed, which are subtracted when its completion is read.

The counters are 64 bits wide.  Beside them the state has the files that were counted and are
still to be purged. -/

namespace Adara.Native

/-! ### Names of files -/

/-- The blanks that a conversion skips. -/
def isSpace (c : Char) : Bool := [' ', '\t', '\n', '\x0b', '\x0c', '\r'].contains c

theorem isSpace_of_isDigit {c : Char} (h : c.isDigit = true) : isSpace c = false := by
  rw [isSpace, List.contains_eq_mem, decide_eq_false_iff_not]
  intro hblank
  simp only [List.mem_cons, List.not_mem_nil, or_false] at hblank
  rcases hblank with rfl | rfl | rfl | rfl | rfl | rfl <;> exact absurd h (by decide)

/-- The conversion `%u`: a number, which saturates at 64 bits before it is cut to 32. -/
def scanUnsigned (cs : List Char) : Option (Nat × List Char) :=
  let cs := cs.dropWhile isSpace
  let (negative, cs) :=
    match cs with
    | '-' :: rest => (true, rest)
    | '+' :: rest => (false, rest)
    | _ => (false, cs)
  let digits := cs.takeWhile (·.isDigit)
  let n := digits.foldl (fun n c => 10 * n + (c.toNat - '0'.toNat)) 0
  if digits.isEmpty then none
  else
    let n := if 2 ^ 64 ≤ n then 2 ^ 64 - 1 else if negative then 2 ^ 64 - n else n
    some (n % 2 ^ 32, cs.drop digits.length)

/-- What a number in the name of a file is. -/
inductive NameField
  | mode | file | pause | addendum | run | source | save
deriving DecidableEq, Repr

/-- A format of `sscanf`: each conversion with the text before it.  The text after the last one
    has no part in how many conversions there are. -/
abbrev NameFormat := List (String × NameField)

/-- The values of all conversions, unless one of them fails. -/
def NameFormat.scan : NameFormat → List Char → Option (List (NameField × Nat))
  | [], _ => some []
  | (text, field) :: rest, cs =>
    if text.toList.isPrefixOf cs then
      match scanUnsigned (cs.drop text.length) with
      | none => none
      | some (n, cs) => (scan rest cs).map ((field, n) :: ·)
    else none

/-- The known names of files in the order in which they are tried, with whether the file counts
    as a saved one. -/
def nameFormats : List (Bool × NameFormat) :=
  [(false, [("m", .mode), ("-f", .file), ("-p", .pause), ("-run-", .run)]),
    (false, [("f", .file), ("-p", .pause), ("-run-", .run)]),
    (false, [("m", .mode), ("-f", .file), ("-p", .pause)]),
    (false, [("f", .file), ("-p", .pause)]),
    (true, [("ds", .source), ("-s", .save), ("-run-", .run)]),
    (true, [("ds", .source), ("-s", .save)]),
    (false, [("m", .mode), ("-f", .file), ("-add", .addendum), ("-run-", .run)]),
    (false, [("f", .file), ("-add", .addendum), ("-run-", .run)]),
    (true, [("prologue-ds", .source), ("-run-", .run)]),
    (true, [("prologue-ds", .source)]),
    (true, [("prologue-m", .mode), ("-run-", .run)]),
    (true, [("prologue-m", .mode)]),
    (false, [("m", .mode), ("-f", .file), ("-run-", .run)]),
    (false, [("f", .file), ("-run-", .run)]),
    (false, [("m", .mode), ("-f", .file)]),
    (false, [("f", .file)])]

/-- What `importFile` takes a file for. -/
inductive Imported
  | data | saved | ignored
deriving DecidableEq, Repr

/-- `StorageFile::importFile`, for a file in a container of this run. -/
def importFile (unreadable : Fails) (run : Nat) (f : DiskFile) : Imported :=
  let found := nameFormats.findSome? fun (saved, format) =>
    (format.scan f.name.toList).map (saved, ·)
  match found with
  | none => .ignored
  | some (saved, values) =>
    let value (field : NameField) := values.lookup field
    if value .addendum = some 0 then .ignored
    else if saved then .saved
    else if value .file = some 0 ∨ value .pause = some 0 then .ignored
    else if (value .run).getD 0 ≠ run then .ignored
    else if unreadable f.path then .ignored
    else .data

/-! ### The scan -/

/-- The data files of a container that are imported so. -/
def importedAs (kind : Imported) (unreadable : Fails) (disk : Disk) (daily container : String) :
    List DiskFile :=
  match validatePath container with
  | none => []
  | some run =>
    (disk.entries daily container).filter fun f =>
      f.isData && importFile unreadable run f == kind

/-- `StorageContainer::blocks`, once the container is scanned: the sizes of the saved files are
    added up before they are rounded. -/
def containerBlocks (blockSize : Nat) (unreadable : Fails) (disk : Disk)
    (dir : String × String) : Nat :=
  ((importedAs .data unreadable disk dir.1 dir.2).map fun f => blocksOf blockSize f.size).sum +
    blocksOf blockSize ((importedAs .saved unreadable disk dir.1 dir.2).map (·.size)).sum

/-- The containers that `scanStorage` counts: those in valid daily directories which were not
    created after the scan started. -/
def scannedContainers (old : String → Bool) (disk : Disk) : List (String × String) :=
  disk.containers.filter fun dir =>
    isValidDaily dir.1 && (validatePath dir.2).isSome && old dir.2

/-! ### The account -/

/-- What the background thread signals: `IOCMD_DONE` -/
def ioDone : Nat := 2 ^ 52 + 2

/-- `IOCMD_INITIAL` -/
def ioInitial : Nat := 2 ^ 52 + 3

structure BlockAccount where
  purgeState : PurgeState
  blocksUsed : Nat
  scannedBlocks : Nat
  purgedBlocks : Nat
  ioActive : Bool
  /-- The background thread has scanned the storage. -/
  scanned : Bool
  /-- The count of `m_ioCompleteEvent`. -/
  event : Nat
  /-- The containers that were made since the start. -/
  made : List (String × String)
  openFiles : List DiskFile
  /-- The files that were counted, without those a purge removed. -/
  accounted : List DiskFile
deriving DecidableEq, Repr

namespace BlockAccount

/-- The SMS starts on a disk that has some files. -/
def init (disk : Disk) : BlockAccount :=
  ⟨⟨disk, [], false⟩, 0, 0, 0, true, false, 0, [], [], []⟩

/-- What happens to the storage: containers and files are made, files grow and are closed, and
    the background thread scans and purges. -/
inductive Op
  | create (daily container : String)
  /-- A file of the recorder is made, or grows to this size. -/
  | write (f : DiskFile)
  /-- A file is closed for good. -/
  | terminate (f : DiskFile)
  /-- A prologue file or a marker is made, which is not counted. -/
  | leave (f : DiskFile)
  | scan (unreadable : Fails)
  | purge (requested : Nat) (io : PurgeIO)
  /-- The completion is read, if it can be. -/
  | ioCompleted (reads : Bool)

/-- `addBaseStorage` -/
def addBaseStorage (blockSize : Nat) (s : BlockAccount) (size : Nat) : BlockAccount :=
  { s with blocksUsed := (s.blocksUsed + blocksOf blockSize size) % 2 ^ 64 }

/-- `ioCompleted` -/
def ioCompleted (s : BlockAccount) (reads : Bool) : BlockAccount :=
  if !reads then { s with ioActive := false }
  else if s.event = ioInitial then
    { s with
      blocksUsed := (s.blocksUsed + s.scannedBlocks) % 2 ^ 64
      scannedBlocks := 0
      event := 0
      ioActive := false }
  else
    { s with
      blocksUsed := (s.blocksUsed + 2 ^ 64 - s.purgedBlocks) % 2 ^ 64
      purgedBlocks := 0
      event := 0
      ioActive := false }

variable (blockSize : Nat) (old : String → Bool)

/-- The files that the scan counts. -/
def scannedFiles (unreadable : Fails) (disk : Disk) : List DiskFile :=
  (scannedContainers old disk).flatMap fun dir =>
    importedAs .data unreadable disk dir.1 dir.2 ++ importedAs .saved unreadable disk dir.1 dir.2

/-- A file is open with this path. -/
def isOpen (s : BlockAccount) (f : DiskFile) : Bool := s.openFiles.any (·.path == f.path)

def setFiles (s : BlockAccount) (files openFiles : List DiskFile) : BlockAccount :=
  { s with
    purgeState := { s.purgeState with disk := { s.purgeState.disk with files } }
    openFiles }

/-- One step.  The files of the recorder are data, and in containers that it made; a path is taken
    once. -/
def step (s : BlockAccount) : Op → Option BlockAccount
  | .create d c =>
    let disk := s.purgeState.disk
    if (d, c) ∈ disk.containers then none
    else
      let dailies := if d ∈ disk.dailies then disk.dailies else d :: disk.dailies
      let disk := { disk with dailies, containers := (d, c) :: disk.containers }
      some { s with
        purgeState := { s.purgeState with disk }
        made := (d, c) :: s.made }
  | .write f =>
    let files := s.purgeState.disk.files
    let grow (g : DiskFile) := if g.path = f.path then f else g
    if (f.daily, f.container) ∈ s.made ∧ f.isData = true then
      -- a file that is open may have lost its name to a purge
      if s.isOpen f then some (s.setFiles (files.map grow) (s.openFiles.map grow))
      else if files.any (·.path == f.path) then none
      else some (s.setFiles (f :: files) (f :: s.openFiles))
    else none
  | .terminate f =>
    if f ∈ s.openFiles then
      some { addBaseStorage blockSize s f.size with
        openFiles := s.openFiles.filter (· ≠ f)
        accounted := f :: s.accounted }
    else none
  | .leave f =>
    if s.purgeState.disk.files.any (·.path == f.path) || s.isOpen f then none
    else some (s.setFiles (f :: s.purgeState.disk.files) s.openFiles)
  | .scan unreadable =>
    let disk := s.purgeState.disk
    if s.scanned then none
    else
      some { s with
        scannedBlocks := (s.scannedBlocks +
          ((scannedContainers old disk).map (containerBlocks blockSize unreadable disk)).sum) %
            2 ^ 64
        accounted := scannedFiles old unreadable disk ++ s.accounted
        scanned := true
        event := s.event + ioInitial }
  | .purge requested io =>
    if s.ioActive || !s.scanned || decide (¬ (io.listed.getD []).Nodup) then none
    else
      let (purgeState, purged) := purgeData blockSize s.purgeState requested io
      some { s with
        purgeState
        purgedBlocks := (s.purgedBlocks + purged) % 2 ^ 64
        accounted := s.accounted.filter (· ∈ purgeState.disk.files)
        event := s.event + ioDone
        ioActive := true }
  | .ioCompleted reads => if s.event = 0 then none else some (s.ioCompleted reads)

end BlockAccount

end Adara.Native
