import Adara.ForStd.SortedMap
import Adara.ForStd.TextLines
import Adara.Native.BlockAccount
import Adara.Native.PulseEvents

/-! # Pixel map files

`PixelMap::readMap` reads a file of lines with a physical and a logical pixel id and a bank.
In place of an id a range may stand, `start:stop:step`, and the loop that expands a line goes
through the two ranges at once.  The constructor makes lookup tables of the map.

A loop that does not end and an access outside of a table have no result (`none`). -/

namespace Adara.Native

namespace PixelMap

/-- `TempMap`: the logical id and the bank of a physical id. -/
abbrev TempMap := SortedMap UInt32 (UInt32 × UInt16)

/-- Why there is no map. -/
inductive ReadFailure where
  | error (msg : String)
  /-- A word is too long for its buffer. -/
  | overrun
deriving DecidableEq, Repr

/-! ### Lines -/

/-- The conversion `%d`: a number, which saturates at 64 bits before it is cut to 32. -/
def scanSigned (cs : List Char) : Option (Int32 × List Char) :=
  let cs := cs.dropWhile isSpace
  let (negative, cs) :=
    match cs with
    | '-' :: rest => (true, rest)
    | '+' :: rest => (false, rest)
    | _ => (false, cs)
  let digits := cs.takeWhile (·.isDigit)
  let n := digits.foldl (fun n c => 10 * n + (c.toNat - '0'.toNat)) 0
  if digits.isEmpty then none
  else
    let i : Int := if negative then max (-n) (-2 ^ 63) else min n (2 ^ 63 - 1)
    some (Int32.ofInt i, cs.drop digits.length)

/-- A closed-form specification, with the stop as it is written. -/
structure PixelRange where
  start : UInt32
  last : UInt32
  step : Int32
deriving DecidableEq, Repr

/-- The stop "One Past" the last id, for the loop. -/
def PixelRange.stop (r : PixelRange) : UInt32 := r.last + r.step.toUInt32

/-- `sscanf` with "%u:%u:%d". -/
def scanRange (cs : List Char) : Option PixelRange := do
  let (start, cs) ← scanUnsigned cs
  let cs ← if cs.head? = some ':' then some cs.tail else none
  let (last, cs) ← scanUnsigned cs
  let cs ← if cs.head? = some ':' then some cs.tail else none
  let (step, _) ← scanSigned cs
  some ⟨UInt32.ofNat start, UInt32.ofNat last, step⟩

/-- `sizeof( physical_buf )`, which is `sizeof( logical_buf )`. -/
def bufSize : Nat := 255

/-- What a line says. -/
structure LineSpec where
  physical : PixelRange
  logical : PixelRange
  bank : UInt32
deriving DecidableEq, Repr

/-- The error for a word that is no id and no range. -/
def badSpecification (kind : String) (lineno : Nat) (word : List Char) : ReadFailure :=
  .error ("Bad " ++ kind ++ " PixelId Entry Specification in Pixel Map File, line " ++
    toString lineno ++ " [" ++ String.ofList word ++ "]")

/-- A word is a range, or a single id. -/
def parseWord (kind : String) (lineno : Nat) (word : List Char) :
    Except ReadFailure PixelRange :=
  if word.contains ':' then
    match scanRange word with
    | some r => .ok r
    | none => .error (badSpecification kind lineno word)
  else
    match scanUnsigned word with
    | some (id, _) => .ok ⟨UInt32.ofNat id, UInt32.ofNat id, 1⟩
    | none => .error (badSpecification kind lineno word)

/-- The error for a line that has not just two words and a number. -/
def badEntry (lineno : Nat) : ReadFailure :=
  .error ("Bad Entry in Pixel Map File, line " ++ toString lineno)

/-- What a line says, unless it is blank. -/
def parseLine (lineno : Nat) (line : List Char) : Except ReadFailure (Option LineSpec) :=
  -- Truncate at the comment character
  let line := line.takeWhile (· ≠ '#')
  if line.all fun c => c = ' ' ∨ c = '\t' then .ok none
  else
    let text := line.takeWhile (· ≠ '\x00')
    let (physicalWord, text) := TextLines.word isSpace text
    if bufSize ≤ physicalWord.length then .error .overrun
    else
      let (logicalWord, text) := TextLines.word isSpace text
      if bufSize ≤ logicalWord.length then .error .overrun
      else if physicalWord = [] ∨ logicalWord = [] then .error (badEntry lineno)
      else
        match scanUnsigned text with
        | none => .error (badEntry lineno)
        | some (bank, text) =>
          if (TextLines.word isSpace text).1 ≠ [] then .error (badEntry lineno)
          else do
            let physical ← parseWord "Physical" lineno physicalWord
            let logical ← parseWord "Logical" lineno logicalWord
            .ok (some ⟨physical, logical, UInt32.ofNat bank⟩)

/-! ### Pixels -/

/-- The map and `output_pixels`. -/
structure ReadState where
  map : TempMap
  outputPixels : List UInt32
deriving DecidableEq

/-- Nothing is read yet. -/
def ReadState.empty : ReadState := ⟨.empty, []⟩

/-- An error with the number of the line. -/
def lineError (msg : String) (lineno : Nat) : ReadFailure :=
  .error (msg ++ " in Pixel Map File, line " ++ toString lineno)

/-- The body of the loop over the pixels of a line, with the bank as it leaves it. -/
def addPixel (allowNonOneToOne : Bool) (lineno : Nat) (physical logical bank : UInt32)
    (s : ReadState) : Except ReadFailure (ReadState × UInt32) :=
  if physical &&& 0x80000000 ≠ 0 then
    .error (lineError "Physical PixelId has Error Bit Set" lineno)
  else if (s.map.find? physical).isSome then
    .error (lineError ("Duplicate Physical PixelId " ++ toString physical.toNat) lineno)
  else if !allowNonOneToOne && s.outputPixels.contains logical then
    .error (lineError ("Duplicate Logical PixelId " ++ toString logical.toNat) lineno)
  else if bank = 0xffff then
    .error (lineError "Reserved Bank Id (Unmapped Bank)" lineno)
  else if bank = 0xfffe then
    .error (lineError "Reserved Bank Id (Error Bank)" lineno)
  else if bank ≠ -1 ∧ 0x10000 ≤ bank then
    .error (lineError "Out-of-Range Bank" lineno)
  else
    -- Unused "Gap" in PixelId Space, Mark as Being "Unmapped" Bank
    let bank := if bank = -1 then 0xffff else bank
    .ok (⟨s.map.insert physical (logical, bank.toUInt16), logical :: s.outputPixels⟩, bank)

/-- The error for ranges that do not end together. -/
def misalignment (lineno : Nat) (physical logical : PixelRange) : ReadFailure :=
  .error ("Misalignment Error in Pixel Map Shorthand - Physical and Logical Sequences" ++
    " Did Not End Together: physical_start=" ++ toString physical.start.toNat ++
    " physical_stop=" ++ toString physical.stop.toNat ++
    " physical_step=" ++ toString physical.step.toInt ++
    " logical_start=" ++ toString logical.start.toNat ++
    " logical_stop=" ++ toString logical.stop.toNat ++
    " logical_step=" ++ toString logical.step.toInt ++ ", line " ++ toString lineno)

/-- The loop over the pixels of a line. -/
def expand (allowNonOneToOne : Bool) (lineno : Nat) (ps ls : PixelRange) :
    (fuel : Nat) → (physical logical bank : UInt32) → ReadState →
      Option (Except ReadFailure ReadState)
  | 0, _, _, _, _ => none
  | fuel + 1, physical, logical, bank, s =>
    if physical ≠ ps.stop ∧ logical ≠ ls.stop then
      match addPixel allowNonOneToOne lineno physical logical bank s with
      | .error e => some (.error e)
      | .ok (s, bank) =>
        -- the logical ids start again when they are through and the physical are not
        let logical :=
          if allowNonOneToOne ∧ logical + ls.step.toUInt32 = ls.stop ∧
              physical + ps.step.toUInt32 ≠ ps.stop then ls.start - ls.step.toUInt32
          else logical
        expand allowNonOneToOne lineno ps ls fuel (physical + ps.step.toUInt32)
          (logical + ls.step.toUInt32) bank s
    else if physical ≠ ps.stop ∨ logical ≠ ls.stop then
      some (.error (misalignment lineno ps ls))
    else some (.ok s)

/-- More pixels than there are without the error bit. -/
def expandFuel : Nat := 2 ^ 31 + 1

/-- Read a line. -/
def readLine (allowNonOneToOne : Bool) (lineno : Nat) (line : List Char) (s : ReadState) :
    Option (Except ReadFailure ReadState) :=
  match parseLine lineno line with
  | .error e => some (.error e)
  | .ok none => some (.ok s)
  | .ok (some spec) =>
    expand allowNonOneToOne lineno spec.physical spec.logical expandFuel spec.physical.start
      spec.logical.start spec.bank s

/-- Read lines, the first of which has the given number. -/
def readLines (allowNonOneToOne : Bool) : (lineno : Nat) → List (List Char) → ReadState →
    Option (Except ReadFailure ReadState)
  | _, [], s => some (.ok s)
  | lineno, line :: lines, s =>
    (readLine allowNonOneToOne lineno line s).bind fun
      | .error e => some (.error e)
      | .ok s => readLines allowNonOneToOne (lineno + 1) lines s

/-- `readMap`, of a file with this text, if it can be opened; `readError` tells whether it is the
    end of the file that ends the reading. -/
def readMap (allowNonOneToOne : Bool) (path : String) (text : Option (List Char))
    (readError : Bool) : Option (Except ReadFailure TempMap) :=
  match text with
  | none => some (.error (.error ("Unable to Open Pixel Map File " ++ path)))
  | some text =>
    (readLines allowNonOneToOne 1 (TextLines.getlines '\n' text) .empty).map fun
      | .error e => .error e
      | .ok s =>
        if readError then .error (.error ("Read Error in Pixel Map File " ++ path))
        else if s.map.size = 0 then .error (.error ("No Mapping in Pixel Map File " ++ path))
        else .ok s.map

end PixelMap

end Adara.Native
