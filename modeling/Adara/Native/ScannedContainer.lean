import Adara.Native.BlockAccount
import Adara.Native.TimedContainer

/-! # Containers on the disk

`StorageFile::makePath` names a file by its numbers, and when the SMS starts again,
`StorageContainer::scan` imports the files of a container, sorts them, and checks with `validate`
that none is missing.

Which names `importFile` takes is in the model of the blocks in use; here the numbers come with
them. -/

namespace Adara.Native

/-- The numbers of a `StorageFile`. -/
structure FileNumbers where
  modeNumber : Nat
  fileNumber : Nat
  pauseFileNumber : Nat
  paused : Bool
deriving DecidableEq, Repr

def DataFile.numbers (d : DataFile) : FileNumbers :=
  ⟨d.modeNumber, d.fileNumber, d.pauseFileNumber, d.paused⟩

/-! ### Names -/

/-- The conversion `%08u`. -/
def paddedNumber (n : Nat) : List Char :=
  List.replicate (8 - (Nat.toDigits 10 n).length) '0' ++ Nat.toDigits 10 n

/-- `snprintf` into a buffer, which keeps what fits in front of the terminator. -/
def snprintf (size : Nat) (text : List Char) : List Char := text.take (size - 1)

/-- What `makePath` puts into `name`. -/
def nameText (isPrologue : Bool) (f : FileNumbers) : List Char :=
  if isPrologue then
    if f.fileNumber ≠ 0 then "/prologue-ds".toList ++ paddedNumber f.pauseFileNumber
    else "/prologue-m".toList ++ paddedNumber f.modeNumber
  else if f.paused then
    "/m".toList ++ paddedNumber f.modeNumber ++ "-f".toList ++ paddedNumber f.fileNumber ++
      "-p".toList ++ paddedNumber f.pauseFileNumber
  else "/m".toList ++ paddedNumber f.modeNumber ++ "-f".toList ++ paddedNumber f.fileNumber

/-- The run in the name of a file. -/
def runPostfix (runNumber : Nat) : List Char :=
  if runNumber ≠ 0 then snprintf 32 ("-run-".toList ++ Nat.toDigits 10 runNumber) else []

/-- `makePath`, of a file in a container with this name. -/
def makePath (isPrologue : Bool) (container : List Char) (runNumber : Nat) (f : FileNumbers) :
    List Char :=
  container ++ snprintf 32 (nameText isPrologue f) ++ runPostfix runNumber ++ ".adara".toList

/-- The last part of the path. -/
def fileName (isPrologue : Bool) (runNumber : Nat) (f : FileNumbers) : List Char :=
  (snprintf 32 (nameText isPrologue f)).tail ++ runPostfix runNumber ++ ".adara".toList

/-! ### The scan -/

/-- A `StorageFile` that was imported. -/
structure ScannedFile extends FileNumbers where
  addendum : Bool
  addendumFileNumber : Nat
  size : Nat
deriving DecidableEq, Repr

/-- The `StorageFile` that `importFile` makes, whose name is one of a paused file if it has a
    pause file number. -/
def importNumbers (unreadable : Fails) (run : Nat) (f : DiskFile) : Option ScannedFile :=
  if importFile unreadable run f = .data then
    (nameFormats.findSome? fun (_, format) => format.scan f.name.toList).map fun values =>
      let value (field : NameField) := (values.lookup field).getD 0
      { modeNumber := value .mode
        fileNumber := value .file
        pauseFileNumber := value .pause
        paused := (values.lookup .pause).isSome || value .pause != 0
        addendum := (values.lookup .addendum).isSome
        addendumFileNumber := value .addendum
        size := f.size }
  else none

/-- `order_by_filenumber` -/
def orderByFilenumber (a b : ScannedFile) : Bool :=
  if a.modeNumber = b.modeNumber then
    if a.fileNumber = b.fileNumber then
      if a.addendumFileNumber ≠ 0 ∨ b.addendumFileNumber ≠ 0 then
        decide (a.addendumFileNumber < b.addendumFileNumber)
      else decide (a.pauseFileNumber < b.pauseFileNumber)
    else decide (a.fileNumber < b.fileNumber)
  else decide (a.modeNumber < b.modeNumber)

/-- `m_files` after the scan of a directory with these files. -/
def scanFiles (unreadable : Fails) (run : Nat) (entries : List DiskFile) : List ScannedFile :=
  ((entries.filter (·.isData)).filterMap (importNumbers unreadable run)).mergeSort fun a b =>
    !orderByFilenumber b a

/-! ### The check -/

/-- Post-decrement of a 32-bit number. -/
def decrement (n : Nat) : Nat := (n + (2 ^ 32 - 1)) % 2 ^ 32

/-- The local variables of `validate`. -/
structure Expected where
  addendum : Nat
  pause : Nat
  file : Nat
  mode : Nat
  useModeIndex : Bool
  lastPaused : Bool
deriving DecidableEq, Repr

namespace Expected

/-- "funny logic...! ;-D" -/
def init : Expected := ⟨0, 0, 0, 0, false, true⟩

/-- A mode with the other pause state begins: it is numbered itself, or in the former naming
    convention the files go on. -/
def turnPaused (e : Expected) : Expected :=
  if e.useModeIndex then { e with mode := increment e.mode, file := 1 }
  else { e with file := decrement e.file }

def turnRunning (e : Expected) : Expected :=
  if e.useModeIndex then { e with mode := increment e.mode, file := 1 }
  else { e with file := increment e.file }

/-- A paused file has to be the next one. -/
def nextPaused (e : Expected) (f : ScannedFile) : Option Expected :=
  let e := { e with addendum := 0 }
  let e := if !e.lastPaused then e.turnPaused else e
  let e := { e with pause := increment e.pause }
  if f.modeNumber ≠ e.mode ∨ f.fileNumber ≠ e.file ∨ f.addendumFileNumber ≠ e.addendum ∨
      f.pauseFileNumber ≠ e.pause then none
  else some { e with lastPaused := true }

/-- And so has a file that is not paused, which may be an addendum to the one before. -/
def nextRunning (e : Expected) (f : ScannedFile) : Option Expected :=
  let e := { e with pause := 0 }
  let e := if e.lastPaused then e.turnRunning else e
  let e :=
    if f.addendum then { e with addendum := increment e.addendum, file := decrement e.file }
    else { e with addendum := 0 }
  if f.modeNumber ≠ e.mode ∨ f.fileNumber ≠ e.file ∨ f.addendumFileNumber ≠ e.addendum ∨
      f.pauseFileNumber ≠ e.pause then none
  else some { e with lastPaused := false, file := increment e.file }

/-- One file, unless it is not the next one. -/
def next (e : Expected) (first : Bool) (f : ScannedFile) : Option Expected :=
  let useModeIndex := decide (0 < f.modeNumber)
  -- the naming convention does not change
  if e.useModeIndex ≠ useModeIndex ∧ first = false then none
  else
    let e := { e with useModeIndex }
    if f.paused then e.nextPaused f else e.nextRunning f

end Expected

/-- The loop of `validate`, from a file on. -/
def validateFrom (e : Expected) (first : Bool) : List ScannedFile → Bool
  | [] => false
  | f :: fs =>
    match e.next first f with
    | none => true
    | some e => validateFrom e false fs

/-- `validate`: whether something is wrong with the files. -/
def validate (files : List ScannedFile) : Bool :=
  if files.isEmpty then true else validateFrom .init true files

end Adara.Native
