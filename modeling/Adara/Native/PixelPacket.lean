import Adara.Native.PixelMapping

/-! # The original pixel mapping packet

`PixelMap::genPacket` inverts the map and cuts it, in the order of the logical pixel ids, into
sections of one bank with consecutive logical ids.  First the sections are counted, then each
is written: its first logical id, bank and count, and the physical ids.  `StreamParser` looks
for the largest bank before it reads the sections.

A read behind the end of the payload or of the map has no result (`none`). -/

namespace Adara.Native

/-! ### Writing -/

/-- `inverted`: the physical id and the bank by logical id. -/
def PixelFile.inverted (file : PixelFile) : SortedMap UInt32 (UInt32 × UInt16) :=
  file.map.entries.foldl (fun inverted e => inverted.insert e.2.1 (e.1, e.2.2)) .empty

/-- The section that is counted, and the counts of those before it. -/
structure SectionCounter where
  expected : UInt32
  entries : UInt16
  bank : UInt16
  sections : List UInt16
deriving DecidableEq

namespace SectionCounter

/-- `max_section_pixelid_count`. -/
def maxSectionPixelidCount : UInt16 := 0xffff

/-- The counter for the first pixel. -/
def first (logical : UInt32) (bank : UInt16) : SectionCounter where
  expected := logical + 1
  entries := 1
  bank := bank
  sections := []

/-- The loop body for the next pixel. -/
def addPixel (c : SectionCounter) (e : UInt32 × UInt32 × UInt16) : SectionCounter :=
  let (logical, _, bank) := e
  let c :=
    if logical ≠ c.expected ∨ bank ≠ c.bank ∨ maxSectionPixelidCount ≤ c.entries then
      { c with sections := c.sections ++ [c.entries], entries := 0, bank := bank }
    else c
  { c with entries := c.entries + 1, expected := logical + 1 }

/-- All counts, with that of the last section. -/
def allSections (c : SectionCounter) : List UInt16 := c.sections ++ [c.entries]

end SectionCounter

namespace PixelMappingPkt

/-- The counts of the sections of an inverted map. -/
def countSections : List (UInt32 × UInt32 × UInt16) → Option (List UInt16)
  | [] => none
  | (logical, _, bank) :: rest =>
    some (rest.foldl SectionCounter.addPixel (.first logical bank)).allSections

/-- The words of the sections. -/
def writeSections : List UInt16 → List (UInt32 × UInt32 × UInt16) → Option (List UInt32)
  | [], _ => some []
  | entries :: sections, it =>
    match it with
    | [] => none
    | (logical, _, bank) :: _ =>
      if entries.toNat ≤ it.length then
        (writeSections sections (it.drop entries.toNat)).map fun words =>
          logical :: ((bank.toUInt32 <<< 16) ||| entries.toUInt32) ::
            (it.take entries.toNat).map (fun e => e.2.1) ++ words
      else none

/-- `genPacket`: the words of the payload. -/
def genPacket (file : PixelFile) : Option (List UInt32) :=
  (countSections file.inverted.entries).bind fun sections =>
    writeSections sections file.inverted.entries

/-! ### Reading -/

/-- The bank id and the count of a section. -/
def bankId (word : UInt32) : UInt16 := (word >>> 16).toUInt16

def pixelCount (word : UInt32) : Nat := (word &&& 0xffff).toUInt16.toNat

/-- The walk for the largest bank id. -/
def maxBankId (payload : List UInt32) : (fuel : Nat) → (rpos : Nat) → (bankCount : UInt16) →
    Option UInt16
  | 0, _, _ => none
  | fuel + 1, rpos, bankCount =>
    if rpos < payload.length then
      match payload.drop (rpos + 1) with
      | [] => none
      | word :: _ =>
        maxBankId payload fuel (rpos + 2 + pixelCount word)
          (if bankId word ≠ PixelFile.unmappedBank ∧ bankCount < bankId word then bankId word
            else bankCount)
    else some bankCount

/-- The loop over the pixels of a section. -/
def pushLogical : (baseLogical : UInt32) → List UInt32 → BankPixels → BankPixels
  | _, [], bi => bi
  | logical, physical :: physicals, bi =>
    pushLogical (logical + 1) physicals (bi.push physical logical)

/-- Read the section at a position. -/
def readSection (payload : List UInt32) (banks : BankTable BankPixels) (rpos : Nat) :
    Option (BankTable BankPixels × Nat) :=
  match payload.drop rpos with
  | baseLogical :: word :: rest =>
    if bankId word = PixelFile.unmappedBank then some (banks, rpos + 2 + pixelCount word)
    else do
      let key := .bank (bankId word).toNat 0
      let banks ← PixelMappingAlt.createBank banks key
      if pixelCount word ≤ rest.length then
        let bi ← PixelMappingAlt.bankAt banks key
        let banks ← banks.write (banks.index key)
          (pushLogical baseLogical (rest.take (pixelCount word)) bi)
        some (banks, rpos + 2 + pixelCount word)
      else none
  | _ => none

/-- The walk over the sections, and the position where it ends. -/
def readSections (payload : List UInt32) : (fuel : Nat) → BankTable BankPixels → (rpos : Nat) →
    Option (BankTable BankPixels × Nat)
  | 0, _, _ => none
  | fuel + 1, banks, rpos =>
    if rpos < payload.length then do
      let (banks, rpos) ← readSection payload banks rpos
      readSections payload fuel banks rpos
    else some (banks, rpos)

/-- `rxPacket` for the payload of a `PixelMappingPkt`: the banks, and the position where the
    walk ends.  Each section has two words at least. -/
def rxPacket (payload : List UInt32) : Option (BankTable BankPixels × Nat) := do
  let bankCount ← maxBankId payload (payload.length + 1) 0 0
  let banks ← (BankTable.new BankPixels).reallocateBanksArray bankCount.toNat 0
  let (banks, rpos) ← readSections payload (payload.length + 1) banks 0
  let banks ← PixelMappingAlt.createBank banks .unmapped
  let banks ← PixelMappingAlt.createBank banks .error
  some (banks, rpos)

end PixelMappingPkt

end Adara.Native
