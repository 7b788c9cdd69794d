import Adara.ForStd.SortedMap
import Adara.ForStd.Word32
import Adara.Native.BankTable
import Adara.Native.Packets

/-! # Pixel mapping packets

The pixel map goes to the translator as a sequence of sections.  `PixelMap::genAltPacket`
cuts the map, in the order of the physical pixel ids, into sections of one bank in which
both ids advance by constant steps; a section of several pixels is written by its ends and
steps, one of a single pixel directly.  `StreamParser` reads the sections back and appends
their pixel ids to the banks.

Signed additions wrap around here.  A read outside the packet or the bank array, a division
that overflows and a loop that does not end have no result (`none`). -/

namespace Adara.Native

/-! ### Writing -/

/-- A `TempMap` read from a file, with the setting `m_allowNonOneToOnePixelMapping`.
    `readMap` refuses a file without entries, and one with a repeated logical id unless that
    is allowed. -/
structure PixelFile where
  map : SortedMap UInt32 (UInt32 × UInt16)
  allowNonOneToOne : Bool
  nonempty : map.entries ≠ []
  oneToOne : allowNonOneToOne = false → (map.entries.map fun e => e.2.1).Nodup

namespace PixelFile

/-- `PixelMap::UNMAPPED_BANK`. -/
def unmappedBank : UInt16 := 0xffff

/-- The largest bank id in use, which is `m_numBanks - 1`. -/
def maxBankId (file : PixelFile) : UInt16 :=
  file.map.entries.foldl (fun numBanks e =>
    if e.2.2 ≠ unmappedBank ∧ numBanks < e.2.2 then e.2.2 else numBanks) 0

end PixelFile

/-- The bookkeeping of `genAltPacket`: the section under construction, and the words of the
    sections before it. -/
structure AltBuilder where
  physicalStart : UInt32
  physicalStop : UInt32
  physicalStep : Int32
  logicalStart : UInt32
  logicalStop : UInt32
  logicalStep : Int32
  stepsSet : Bool
  lastPhysical : UInt32
  lastLogical : UInt32
  nextPhysical : UInt32
  nextLogical : UInt32
  entries : Nat
  lastBank : UInt16
  sectionWords : List UInt32
deriving DecidableEq

namespace AltBuilder

/-- `max_section_pixelid_count`. -/
def maxSectionPixelidCount : Nat := 0x7fff

/-- The builder for the first pixel. -/
def first (physical logical : UInt32) (bank : UInt16) : AltBuilder where
  physicalStart := physical
  physicalStop := physical
  physicalStep := 0
  logicalStart := logical
  logicalStop := logical
  logicalStep := 0
  stepsSet := false
  lastPhysical := physical
  lastLogical := logical
  nextPhysical := -1
  nextLogical := -1
  entries := 1
  lastBank := bank
  sectionWords := []

variable (b : AltBuilder)

/-- Bank id, shorthand bit and count in one word. -/
def bankAndCount (shorthand : UInt32) : UInt32 :=
  (b.lastBank.toUInt32 <<< 16) ||| (shorthand <<< 15) ||| UInt32.ofNat b.entries

/-- A section in the shorthand format. -/
def shorthandSection : List UInt32 :=
  [b.physicalStart, b.bankAndCount 1, b.physicalStop, b.logicalStart,
    (b.physicalStep.toUInt32 <<< 16) ||| (b.logicalStep.toUInt32 &&& 0xffff), b.logicalStop]

/-- A section in the direct format, for the one pixel it has. -/
def directSection : List UInt32 := [b.physicalStart, b.bankAndCount 0, b.logicalStart]

/-- Push the section under construction, unless it is unmapped. -/
def pushSection : AltBuilder :=
  if b.lastBank ≠ PixelFile.unmappedBank then
    let words :=
      if b.physicalStart ≠ b.physicalStop ∧ b.physicalStep ≠ 0 ∧
          b.logicalStart ≠ b.logicalStop ∧ b.logicalStep ≠ 0 then b.shorthandSection
      else b.directSection
    { b with sectionWords := b.sectionWords ++ words }
  else b

/-- Whether a pixel does not continue the section. -/
def cuts (allowNonOneToOne : Bool) (physical logical : UInt32) (bank : UInt16) : Prop :=
  bank ≠ b.lastBank ∨
    (b.stepsSet = true ∧ (physical ≠ b.nextPhysical ∨ logical ≠ b.nextLogical)) ∨
    (allowNonOneToOne = true ∧ logical = b.lastLogical) ∨
    maxSectionPixelidCount ≤ b.entries

instance (allowNonOneToOne : Bool) (physical logical : UInt32) (bank : UInt16) :
    Decidable (b.cuts allowNonOneToOne physical logical bank) :=
  inferInstanceAs (Decidable (_ ∨ _))

/-- Push the section, and start a new one at a pixel. -/
def startSection (physical logical : UInt32) (bank : UInt16) : AltBuilder :=
  { b.pushSection with
    physicalStart := physical
    physicalStop := -1
    physicalStep := 0
    logicalStart := logical
    logicalStop := -1
    logicalStep := 0
    stepsSet := false
    lastPhysical := -1
    lastLogical := -1
    nextPhysical := -1
    nextLogical := -1
    entries := 0
    lastBank := bank }

/-- Whether a step has no room in 16 bits. -/
def stepOverflow (step : Int32) : Prop := 32767 < step ∨ step < -32767

instance (step : Int32) : Decidable (stepOverflow step) := inferInstanceAs (Decidable (_ ∨ _))

/-- Push the first pixel of the section as it is, and go on with the last. -/
def dumpFirst (physical logical : UInt32) : AltBuilder :=
  { b with
    sectionWords := b.sectionWords ++ b.directSection
    physicalStart := physical
    physicalStop := physical
    physicalStep := 0
    logicalStart := logical
    logicalStop := logical
    logicalStep := 0
    stepsSet := false
    lastPhysical := physical
    lastLogical := logical
    nextPhysical := -1
    nextLogical := -1
    entries := 0 }

/-- The loop body of `genAltPacket`. -/
def addPixel (allowNonOneToOne : Bool) (b : AltBuilder) (e : UInt32 × UInt32 × UInt16) :
    AltBuilder :=
  let (physical, logical, bank) := e
  have b :=
    if b.cuts allowNonOneToOne physical logical bank then b.startSection physical logical bank
    else if b.stepsSet = false then
      { b with
        physicalStep := (physical - b.lastPhysical).toInt32
        logicalStep := (logical - b.lastLogical).toInt32
        stepsSet := true }
    else b
  have b :=
    { b with
      physicalStop := physical
      logicalStop := logical
      lastPhysical := physical
      lastLogical := logical }
  have b :=
    if b.stepsSet = true then
      if stepOverflow b.physicalStep ∨ stepOverflow b.logicalStep then
        b.dumpFirst physical logical
      else
        { b with
          nextPhysical := physical + b.physicalStep.toUInt32
          nextLogical := logical + b.logicalStep.toUInt32 }
    else b
  { b with entries := b.entries + 1 }

end AltBuilder

/-- The words of the sections of `genAltPacket`. -/
def altSectionWords (allowNonOneToOne : Bool) : List (UInt32 × UInt32 × UInt16) → List UInt32
  | [] => []
  | (physical, logical, bank) :: rest =>
    (rest.foldl (AltBuilder.addPixel allowNonOneToOne)
      (AltBuilder.first physical logical bank)).pushSection.sectionWords

/-- `genAltPacket`: the words of the payload. -/
def genAltPacket (file : PixelFile) : List UInt32 :=
  file.maxBankId.toUInt32 :: altSectionWords file.allowNonOneToOne file.map.entries

/-- A packet with a mapping: its size, and all its words. -/
structure AltPacket where
  packetSize : UInt32
  words : List UInt32
deriving DecidableEq, Repr

/-- `genAltPacket`, at a time; the words are written into a buffer of the packet's size. -/
def genAltPacketAt (file : PixelFile) (tvSec tvNsec : UInt32) : Option AltPacket :=
  let sectionWords := altSectionWords file.allowNonOneToOne file.map.entries
  -- the size in bytes is cut to 32 bits
  let payload := UInt32.ofNat (4 * sectionWords.length) + 4
  let packetSize := payload + UInt32.ofNat PacketHeader.headerLength
  let words :=
    payload :: UInt32.ofNat (adaraPktType 0x4102 1) :: (tvSec - UInt32.ofNat epicsEpochOffset) ::
      tvNsec :: genAltPacket file
  if 4 * words.length ≤ packetSize.toNat then some ⟨packetSize, words⟩ else none

/-! ### Reading -/

/-- The pixel ids of a `BankInfo`. -/
structure BankPixels where
  logicalPixelids : List UInt32
  physicalPixelids : List UInt32
deriving DecidableEq, Repr

/-- What the reader does with a section: append it, or skip it for its bank or its count, or
    give up on the packet for a step of zero. -/
inductive SectionOutcome where
  | appended
  | unmapped
  | countMismatch
  | zeroStep
deriving DecidableEq, Repr

namespace BankPixels

def empty : BankPixels := ⟨[], []⟩

/-- Append a pixel. -/
def push (bi : BankPixels) (physical logical : UInt32) : BankPixels where
  logicalPixelids := bi.logicalPixelids ++ [logical]
  physicalPixelids := bi.physicalPixelids ++ [physical]

/-- The loop over a shorthand section, with the end of it. -/
def pushShorthand (physicalStop physicalStep logicalStop logicalStep : Int32) :
    (fuel : Nat) → (physical logical : Int32) → BankPixels → Option BankPixels
  | 0, _, _, _ => none
  | fuel + 1, physical, logical, bi =>
    if physical ≠ physicalStop ∧ logical ≠ logicalStop then
      pushShorthand physicalStop physicalStep logicalStop logicalStep fuel
        (physical + physicalStep) (logical + logicalStep)
        (bi.push physical.toUInt32 logical.toUInt32)
    else some (bi.push physicalStop.toUInt32 logicalStop.toUInt32)

/-- The loop over a direct section. -/
def pushDirect : (physical : UInt32) → List UInt32 → BankPixels → BankPixels
  | _, [], bi => bi
  | physical, logical :: logicals, bi =>
    pushDirect (physical + 1) logicals (bi.push physical logical)

end BankPixels

namespace PixelMappingAlt

/-- The largest number of times `pushShorthand` can come by new ids. -/
def shorthandFuel : Nat := 2 ^ 32

/-- The number of pixel ids from a start to a stop. -/
def count (start stop step : Int32) : Option Int16 :=
  if stop - start + step = Int32.minValue ∧ step = -1 then none
  else some ((stop - start + step) / step).toInt16

/-- Read the bank array where there is a `BankInfo`. -/
def bankAt (banks : BankTable BankPixels) (key : BankKey) : Option BankPixels :=
  (banks.read (banks.index key)).join

/-- Make the `BankInfo` of a bank, if there is none. -/
def createBank (banks : BankTable BankPixels) (key : BankKey) :
    Option (BankTable BankPixels) := do
  match ← banks.read (banks.index key) with
  | some _ => some banks
  | none => banks.write (banks.index key) .empty

/-- The rest of a shorthand section, behind the bank word. -/
def shorthandSection (banks : BankTable BankPixels) (physicalStart : UInt32) (bankId : UInt16)
    (pixelCount : Nat) (rpos : List UInt32) :
    Option (SectionOutcome × BankTable BankPixels × List UInt32) :=
  match rpos with
  | physicalStop :: logicalStart :: steps :: logicalStop :: rpos => do
    let physicalStep := (steps >>> 16).toUInt16.toInt16.toInt32
    let logicalStep := (steps &&& 0xffff).toUInt16.toInt16.toInt32
    if physicalStep = 0 ∨ logicalStep = 0 then some (.zeroStep, banks, rpos)
    else
      let cnt ← count physicalStart.toInt32 physicalStop.toInt32 physicalStep
      if cnt.toInt ≠ pixelCount then some (.countMismatch, banks, rpos)
      else
        let cnt ← count logicalStart.toInt32 logicalStop.toInt32 logicalStep
        if cnt.toInt ≠ pixelCount then some (.countMismatch, banks, rpos)
        else if bankId = PixelFile.unmappedBank then some (.unmapped, banks, rpos)
        else
          let bi ← bankAt banks (.bank bankId.toNat 0)
          let bi ← bi.pushShorthand physicalStop.toInt32 physicalStep logicalStop.toInt32
            logicalStep shorthandFuel physicalStart.toInt32 logicalStart.toInt32
          let banks ← banks.write (banks.index (.bank bankId.toNat 0)) bi
          some (.appended, banks, rpos)
  | _ => none

/-- The rest of a direct section, behind the bank word. -/
def directSection (banks : BankTable BankPixels) (physicalStart : UInt32) (bankId : UInt16)
    (pixelCount : Nat) (rpos : List UInt32) :
    Option (SectionOutcome × BankTable BankPixels × List UInt32) :=
  if bankId = PixelFile.unmappedBank then some (.unmapped, banks, rpos.drop pixelCount)
  else if pixelCount ≤ rpos.length then do
    let bi ← bankAt banks (.bank bankId.toNat 0)
    let bi := bi.pushDirect physicalStart (rpos.take pixelCount)
    let banks ← banks.write (banks.index (.bank bankId.toNat 0)) bi
    some (.appended, banks, rpos.drop pixelCount)
  else none

/-- Read a section. -/
def readSection (banks : BankTable BankPixels) (rpos : List UInt32) :
    Option (SectionOutcome × BankTable BankPixels × List UInt32) :=
  match rpos with
  | physicalStart :: word :: rpos => do
    let bankId := (word >>> 16).toUInt16
    let pixelCount := (word &&& 0x7fff).toNat
    let banks ←
      if bankId = PixelFile.unmappedBank then some banks
      else createBank banks (.bank bankId.toNat 0)
    if (word &&& 0x8000) >>> 15 ≠ 0 then
      shorthandSection banks physicalStart bankId pixelCount rpos
    else directSection banks physicalStart bankId pixelCount rpos
  | _ => none

/-- The loop over the sections, up to the end of the payload or a step of zero. -/
def readSections : (fuel : Nat) → BankTable BankPixels → List UInt32 →
    Option (List SectionOutcome × BankTable BankPixels)
  | _, banks, [] => some ([], banks)
  | 0, _, _ :: _ => none
  | fuel + 1, banks, word :: rpos => do
    let (outcome, banks, rpos) ← readSection banks (word :: rpos)
    if outcome = .zeroStep then some ([outcome], banks)
    else
      let (outcomes, banks) ← readSections fuel banks rpos
      some (outcome :: outcomes, banks)

/-- `rxPacket` for the payload of a `PixelMappingAltPkt`: what was done with the sections,
    and the banks. -/
def rxPacket (payload : List UInt32) :
    Option (List SectionOutcome × BankTable BankPixels) :=
  match payload with
  | [] => none
  | numBanks :: rpos => do
    let banks ← (BankTable.new BankPixels).reallocateBanksArray numBanks.toUInt16.toNat 0
    let (outcomes, banks) ← readSections rpos.length banks rpos
    if .zeroStep ∈ outcomes then some (outcomes, banks)
    else
      let banks ← createBank banks .unmapped
      let banks ← createBank banks .error
      some (outcomes, banks)

end PixelMappingAlt

end Adara.Native
