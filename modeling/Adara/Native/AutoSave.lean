import Adara.ForStd.TextLines
import Adara.ForStd.Timespec
import Adara.Native.RunNumber
import Mathlib.Logic.Function.Basic

/-! # Saved PVs

`StorageManager` appends the value of a PV to a file each time it changes, and reads the file
when it starts.  A line of the file has the time, the name and the value, in which newlines
are escaped. -/

namespace Adara.Native

/-- The arguments of `autoSavePV`. -/
structure AutoSaveCall where
  name : List Char
  value : List Char
  sec : Int
  nsec : Nat
deriving DecidableEq, Repr

/-- The time as a `timespec`. -/
def AutoSaveCall.time (c : AutoSaveCall) : Timespec := ⟨c.sec, c.nsec⟩

namespace AutoSave

/-! ### Writing -/

/-- `encodeAutoSaveString` -/
def encodeAutoSaveString : List Char → List Char
  | [] => []
  | c :: cs =>
    if c = '\n' then '%' :: '0' :: 'A' :: encodeAutoSaveString cs
    else c :: encodeAutoSaveString cs

/-- A number as it is written to a stream. -/
def intText (n : Int) : List Char :=
  if n < 0 then '-' :: Nat.toDigits 10 n.natAbs else Nat.toDigits 10 n.natAbs

/-- Seconds and nanoseconds, these with `setw(9)` and `setfill('0')`. -/
def timeText (c : AutoSaveCall) : List Char :=
  intText c.sec ++ '.' ::
    (List.replicate (9 - (Nat.toDigits 10 c.nsec).length) '0' ++ Nat.toDigits 10 c.nsec)

/-- The line `autoSavePV` writes. -/
def autoSaveLine (c : AutoSaveCall) : List Char :=
  timeText c ++ ' ' :: (c.name ++ ' ' :: encodeAutoSaveString c.value)

/-- The file after calls of `autoSavePV` whose writes complete. -/
def autoSaveFile (calls : List AutoSaveCall) : List Char :=
  calls.flatMap fun c => autoSaveLine c ++ ['\n']

/-! ### Reading -/

/-- `decodeAutoSaveString` -/
def decodeAutoSaveString : List Char → List Char
  | '%' :: '0' :: 'A' :: cs => '\n' :: decodeAutoSaveString cs
  | c :: cs => c :: decodeAutoSaveString cs
  | [] => []

/-- `boost::lexical_cast` to a number that fits. -/
def lexicalCast (cs : List Char) : Option Int :=
  let (negative, digits) := takeSign cs
  if digits = [] ∨ ¬ digits.all Char.isDigit then none
  else
    let n : Int := Nat.ofDigitChars 10 digits 0
    some (if negative then -n else n)

/-- `parseTimeString` -/
def parseTimeString (text : List Char) : Option Timespec :=
  match text.dropWhile (· ≠ '.') with
  | [] => none
  | _ :: nsec => do
    let sec ← lexicalCast (text.takeWhile (· ≠ '.'))
    let nsec ← lexicalCast nsec
    some ⟨sec, nsec⟩

/-- A line of the file: the name, and time and value as texts.  Without a value the line is
    skipped, by the exception of `at`. -/
def parseAutoSaveLine (line : List Char) : Option (List Char × List Char × List Char) :=
  let (pvTime, rest) := TextLines.word isSpace line
  if (parseTimeString pvTime).isNone then none
  else
    let (pvName, rest) := TextLines.word isSpace rest
    match rest with
    | [] => none
    | c :: rest =>
      let pvValue := if c = ' ' then rest else c :: rest
      some (pvName, pvTime, decodeAutoSaveString pvValue)

/-- `m_autoSaveConfig` -/
abbrev Config := List Char → Option (List Char × List Char)

/-- Take over a line; a later one replaces an earlier one. -/
def addLine (config : Config) (line : List Char) : Config :=
  match parseAutoSaveLine line with
  | none => config
  | some (pvName, entry) => Function.update config pvName (some entry)

/-- `parseAutoSaveFile`, for a file that can be read. -/
def parseAutoSaveFile (text : List Char) : Config :=
  (TextLines.getlines '\n' text).foldl addLine fun _ => none

/-- `getAutoSavePV` -/
def getAutoSavePV (config : Config) (pvName : List Char) : Option (List Char × Timespec) := do
  let (pvTime, pvValue) ← config pvName
  let time ← parseTimeString pvTime
  some (pvValue, time)

end AutoSave

end Adara.Native
