import Adara.ForStd.Word32

/-! # Packets with several values of a variable

The constructors of `MultVariableU32Pkt`, `MultVariableDoublePkt`,
`MultVariableStringPkt`, `MultVariableU32ArrayPkt` and `MultVariableDoubleArrayPkt`:
they check the payload, and copy the values and their times of flight out of it.

A constructor returns, throws `invalid_packet`, or never comes to an end.  It reads the
payload by 32-bit words, and the positions of the words it reads are kept; what lies
behind the payload in memory is arbitrary. -/

namespace Adara.Native

/-- A packet as the constructors see it. -/
structure Payload where
  version : Nat
  pulseId : UInt64
  words : List UInt32
  length_lt : words.length * 4 < Word32.modulus
  /-- The memory behind the payload. -/
  behind : Nat → UInt32

namespace Payload

variable (p : Payload)

/-- `m_payload_len`. -/
def payloadLen : Nat := p.words.length * 4

/-- `m_fields[i]`. -/
def word (i : Nat) : UInt32 := (p.words[i]?).getD (p.behind (i - p.words.length))

/-- The `i`-th byte from the start of the payload. -/
def byte (i : Nat) : UInt8 := (p.word (i / 4) >>> UInt32.ofNat (8 * (i % 4))).toUInt8

def status : UInt32 := p.word 2 >>> 16

def severity : UInt32 := p.word 2 &&& 0xffff

def numValues : Nat := (p.word 3).toNat

end Payload

/-- How a constructor ends. -/
inductive Outcome (α : Type) where
  | returned (tofs : List UInt32) (vals : List α)
  | threw (what : String)
  | ranAway
deriving Repr, DecidableEq

/-- How a constructor ends, and the words it has read. -/
structure Decoded (α : Type) where
  outcome : Outcome α
  reads : List Nat
deriving Repr, DecidableEq

/-- Put a value in front of those decoded after it. -/
def Decoded.push {α : Type} (d : Decoded α) (tof : UInt32) (val : α) (reads : List Nat) :
    Decoded α where
  outcome :=
    match d.outcome with
    | .returned tofs vals => .returned (tof :: tofs) (val :: vals)
    | .threw what => .threw what
    | .ranAway => .ranAway
  reads := reads ++ d.reads

namespace MultVariable

/-! ### The checks all constructors share -/

/-- `validate_status`, with `true` for a valid one. -/
def validStatus (status : UInt32) : Bool := status ≤ 21 || status = 0xfffe || status = 0xffff

/-- `validate_severity`, with `true` for a valid one. -/
def validSeverity (severity : UInt32) : Bool := severity ≤ 3 || severity = 0xffff

/-- The pulse time, as every message starts. -/
def timeText (p : Payload) : String :=
  toString (p.pulseId >>> 32).toNat ++ "." ++ toString p.pulseId.toUInt32.toNat

/-- What the message calls the packet, by its version. -/
def packetText (p : Payload) (label : String) : String :=
  timeText p ++
    if p.version = 0 then " MultVariableValue (" ++ label ++ ") V0 packet"
    else " Newer MultVariableValue (" ++ label ++ ") packet"

/-- The checks before any value is read: the length of the header, the length `size`
    computed from the number of values, status and severity.  The exception thrown, if
    any. -/
def checkHeader (p : Payload) (label tooShort arrays : String) (size : Nat) : Option String :=
  if p.payloadLen < 16 then
    some (packetText p label ++ tooShort ++ toString p.payloadLen)
  else if p.payloadLen < size + 16 then
    some (packetText p label ++ " has Undersize " ++ arrays ++ " arrays: " ++ toString size ++
      " vs payload " ++ toString (p.payloadLen - 16))
  else if !validStatus p.status then
    some (timeText p ++ " MultVariableValue (" ++ label ++ ") packet has invalid status: " ++
      toString p.status.toNat)
  else if !validSeverity p.severity then
    some (timeText p ++ " MultVariableValue (" ++ label ++ ") packet has invalid severity: " ++
      toString p.severity.toNat)
  else none

/-- The words the checks read: the number of values, then status and severity. -/
def headerReads (p : Payload) (size : Nat) : List Nat :=
  if p.payloadLen < 16 then [] else if p.payloadLen < size + 16 then [3] else [3, 2]

/-- A constructor: the checks, then the loop over the values. -/
def construct {α : Type} (p : Payload) (label tooShort arrays : String) (size : Nat)
    (values : Decoded α) : Decoded α :=
  match checkHeader p label tooShort arrays size with
  | some what => ⟨.threw what, headerReads p size⟩
  | none => ⟨values.outcome, headerReads p size ++ values.reads⟩

/-! ### Values of a fixed size -/

/-- The loop over values of `width` words: a time of flight, then the value. -/
def copyFixed {α : Type} (p : Payload) (width : Nat) (value : Nat → α) :
    (n ptr : Nat) → Decoded α
  | 0, _ => ⟨.returned [] [], []⟩
  | n + 1, ptr =>
    Decoded.push (copyFixed p width value n (ptr + 1 + width)) (p.word ptr) (value (ptr + 1))
      (List.range' ptr (1 + width))

/-- The eight bytes of a double at a position. -/
def doubleAt (p : Payload) (ptr : Nat) : UInt64 :=
  (p.word (ptr + 1)).toUInt64 <<< 32 ||| (p.word ptr).toUInt64

/-- `MultVariableU32Pkt`.  The product with 2 is a 32-bit one. -/
def multVariableU32Pkt (p : Payload) : Decoded UInt32 :=
  construct p "U32" " is too short: " "U32 TOF/Value" (Word32.mul p.numValues 2 * 4)
    (copyFixed p 1 p.word p.numValues 4)

/-- `MultVariableDoublePkt`.  The size of a value is a 64-bit number, and so is the
    product. -/
def multVariableDoublePkt (p : Payload) : Decoded UInt64 :=
  construct p "Double" " is too short: " "Double TOF/Value" (p.numValues * (4 + 8))
    (copyFixed p 2 (doubleAt p) p.numValues 4)

/-! ### Strings -/

/-- The bytes the exception shows, with zero bytes spelled out. -/
def dumpText (p : Payload) (str bound : Nat) : String :=
  String.join ((List.range bound).map fun i =>
    if p.byte (str * 4 + i) = 0 then "#000"
    else String.singleton (Char.ofNat (p.byte (str * 4 + i)).toNat))

/-- The loop over strings.  The message of the exception shows the rest of the payload;
    the loop that writes it counts with 32 bits up to a 64-bit bound. -/
def copyStrings (p : Payload) : (n ptr remaining : Nat) → Decoded (List UInt8)
  | 0, _, _ => ⟨.returned [] [], []⟩
  | n + 1, ptr, remaining =>
    let size := (p.word (ptr + 1)).toNat
    let str := ptr + 2
    if remaining < size + 8 then
      let bound := (remaining + 2 ^ 64 - 4) % 2 ^ 64
      if Word32.modulus ≤ bound then ⟨.ranAway, [ptr, ptr + 1]⟩
      else
        ⟨.threw (packetText p "String" ++ " has Undersize String Values array: " ++ toString size ++
            " vs remaining payload " ++ toString remaining ++ " [" ++ dumpText p str bound ++ "]"),
          [ptr, ptr + 1] ++ List.range' str ((bound + 3) / 4)⟩
    else
      let roundup := (size + 3) / 4
      Decoded.push (copyStrings p n (str + roundup) (Word32.sub remaining ((roundup + 2) * 4)))
        (p.word ptr) ((List.range' (str * 4) size).map p.byte)
        ([ptr, ptr + 1] ++ List.range' str roundup)

/-- `MultVariableStringPkt`.  Here the size is a 32-bit number. -/
def multVariableStringPkt (p : Payload) : Decoded (List UInt8) :=
  construct p "String" " is too short " "String TOF/Length"
    (Word32.mul (Word32.mul p.numValues 2) 4)
    (copyStrings p p.numValues 4 (p.payloadLen - 16))

/-! ### Arrays -/

/-- The loop over arrays: `need` is the number of bytes an array of some size takes with
    its header, `advance` its number of words. -/
def copyArrays {α : Type} (p : Payload) (label : String) (need advance : Nat → Nat) (width : Nat)
    (value : Nat → α) : (n ptr remaining : Nat) → Decoded (List α)
  | 0, _, _ => ⟨.returned [] [], []⟩
  | n + 1, ptr, remaining =>
    let size := (p.word (ptr + 1)).toNat
    let arr := ptr + 2
    if remaining < need size then
      ⟨.threw (packetText p label ++ " has Undersize " ++ label ++ " Values array: " ++
          toString size ++ " vs remaining payload " ++ toString remaining),
        [ptr, ptr + 1]⟩
    else
      Decoded.push
        (copyArrays p label need advance width value n (arr + advance size)
          (Word32.sub remaining ((advance size + 2) * 4)))
        (p.word ptr) ((List.range size).map fun i => value (arr + width * i))
        ([ptr, ptr + 1] ++ List.range' arr (width * size))

/-- `MultVariableU32ArrayPkt`. -/
def multVariableU32ArrayPkt (p : Payload) : Decoded (List UInt32) :=
  construct p "U32 Array" " is too short: " "U32 Array TOF/Length"
    (Word32.mul p.numValues 2 * 4)
    (copyArrays p "U32 Array" (fun size => (size + 2) * 4) (fun size => size) 1 p.word
      p.numValues 4 (p.payloadLen - 16))

/-- `MultVariableDoubleArrayPkt`. -/
def multVariableDoubleArrayPkt (p : Payload) : Decoded (List UInt64) :=
  construct p "Double Array" " is too short: " "Double Array TOF/Length"
    (Word32.mul p.numValues 2 * 4)
    (copyArrays p "Double Array" (fun size => size * 8 + 8)
      (fun size => size * 8 / 4 % Word32.modulus) 2 (doubleAt p)
      p.numValues 4 (p.payloadLen - 16))

end MultVariable

end Adara.Native
