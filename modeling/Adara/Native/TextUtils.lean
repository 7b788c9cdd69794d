import Adara.Native.RunNumber

/-! # Strings

`Utils` has a few functions for strings: `sanitizeString` replaces characters that are bad in a
name, and lists of numbers are printed and parsed as text.

A position that `find_first_of` does not find is `none`.  The loops have fuel, and without enough
of it no result (`none`). -/

namespace Adara.Native

/-- `find_first_of`: the first position from `pos` on with a character of a set. -/
def findFirstOf (str set : List Char) (pos : Nat) : Option Nat :=
  ((str.drop pos).findIdx? set.contains).map (pos + ·)

/-! ### Bad characters -/

def allBad : List Char := " \t'\"`,.;:<>[]\x7b\x7d()|/\\?~!@#$%^&*+=".toList

/-- In a URI, dots, colons, slashes and some more are fine. -/
def uriBad : List Char := " \t'\"`;<>[]\x7b\x7d|\\~!@#$%^*+".toList

def allValues : List Char := "'\"`;<>|?~!#$&*".toList

def badCharacters (preserveUri preserveWhitespace : Bool) : List Char :=
  if preserveUri then uriBad else if preserveWhitespace then allValues else allBad

/-- The loop: `last` is the position of the last hit, and `0` before there was one. -/
def sanitizeLoop (bad : List Char) :
    (fuel : Nat) → (str : List Char) → (last : Nat) → (changed : Bool) → Option (List Char × Bool)
  | 0, _, _, _ => none
  | fuel + 1, str, last, changed =>
    match findFirstOf str bad last with
    | none => some (str, changed)
    | some next =>
      if next ≠ last + 1 ∨ last = 0 then sanitizeLoop bad fuel (str.set next '-') next true
      else sanitizeLoop bad fuel (str.eraseIdx next) next true

/-- `sanitizeString`: the string, and whether it is said to have changed. -/
def sanitizeString (preserveUri preserveWhitespace : Bool) (str : List Char) :
    Option (List Char × Bool) :=
  sanitizeLoop (badCharacters preserveUri preserveWhitespace) (str.length + 1) str 0 false

/-! ### Lists of numbers -/

/-- What is between the numbers of a list. -/
def arraySep : List Char := "[, ]".toList

/-- `operator>>` into a number, from a stream of its own.  There is 0 for what is no number, the
    largest for one that is too large, and the number stays as it is if there are only blanks. -/
def extractUnsigned (value : UInt32) (token : List Char) : UInt32 :=
  let cs := token.dropWhile isSpace
  let (negative, number) := takeSign cs
  let digits := number.takeWhile (·.isDigit)
  let n := Nat.ofDigitChars 10 digits 0
  if cs = [] then value
  else if digits = [] then 0
  else if 2 ^ 32 ≤ n then 0xffffffff
  else if negative then 0 - UInt32.ofNat n
  else UInt32.ofNat n

/-- The loop from position `b` on.  `value` is what the variable holds for the next number. -/
def parseArrayLoop :
    (fuel : Nat) → (arrayStr : List Char) → (b : Nat) → (value : UInt32) →
      (arrayVec : List UInt32) → Option (List UInt32)
  | 0, _, _, _, _ => none
  | fuel + 1, arrayStr, b, value, arrayVec =>
    if b < arrayStr.length then
      let e := (findFirstOf arrayStr arraySep b).getD arrayStr.length
      if b ≠ e then
        let value := extractUnsigned value ((arrayStr.drop b).take (e - b))
        parseArrayLoop fuel arrayStr (e + 1) value (arrayVec ++ [value])
      else parseArrayLoop fuel arrayStr (b + 1) value arrayVec
    else some arrayVec

/-- `parseArrayString`, where a number that is not set yet holds `value`. -/
def parseArrayString (value : UInt32) (arrayStr : List Char) : Option (List UInt32) :=
  parseArrayLoop (arrayStr.length + 1) arrayStr 0 value []

/-- The numbers, with a separator before each but the first. -/
def printNumbers : (first : Bool) → List UInt32 → List Char
  | _, [] => []
  | first, v :: vs =>
    (if first then [] else ", ".toList) ++ Nat.toDigits 10 v.toNat ++ printNumbers false vs

/-- `printArrayString`. -/
def printArrayString (arrayVec : List UInt32) : List Char :=
  "[".toList ++ printNumbers true arrayVec ++ "]".toList

end Adara.Native
