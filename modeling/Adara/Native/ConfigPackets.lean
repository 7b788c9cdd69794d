import Adara.Native.Packets
import Adara.Native.SizedPackets

/-! # Packets with a list of configurations

`BeamMonitorConfigPkt` and `DetectorBankSetsPkt` have a count and so many sections.  Those of
the beam monitors have one size; the constructor for the detector bank sets walks through its
sections, and keeps tables of where they start and where their bank ids end.  Kept beside what
a constructor or an accessor returns are the words of the payload that it reads. -/

namespace Adara.Native

namespace Payload

/-- The packet copied to other memory, by its length in 32 bits. -/
def copy (p : Payload) (behind : Nat → UInt32) : Payload :=
  have hle : (p.words.take ((Word32.add p.payloadLen PacketHeader.headerLength -
      PacketHeader.headerLength) / 4)).length ≤ p.words.length := List.length_take_le' ..
  { p with
    words := p.words.take ((Word32.add p.payloadLen PacketHeader.headerLength -
      PacketHeader.headerLength) / 4)
    length_lt := Nat.lt_of_le_of_lt (Nat.mul_le_mul_right 4 hle) p.length_lt
    behind }

end Payload

open MultVariable (doubleAt)
open SizedPackets (Constructor packetText checkFixed)

/-- What an accessor reads: the word at a position. -/
def readWord (p : Payload) (i : Nat) : Constructor UInt32 := do
  .touch [i]
  pure (p.word i)

/-- A double, which has two words. -/
def readDouble (p : Payload) (i : Nat) : Constructor UInt64 := do
  .touch [i, i + 1]
  pure (doubleAt p i)

/-- `HISTO_FORMAT`, and `EVENT_FORMAT`. -/
def histoFormatWord : UInt32 := 2

def eventFormatWord : UInt32 := 1

/-! ### Beam monitors -/

/-- `BeamMonitorConfigPkt`. -/
structure BeamMonitorConfigPkt where
  payload : Payload
  /-- `m_sectionSize`, in bytes. -/
  sectionSize : Nat

/-- The constructor.  The expected length is computed with 32 bits. -/
def beamMonitorConfigPkt (p : Payload) : Constructor BeamMonitorConfigPkt := do
  -- four words and a double
  let sectionSize := 4 * 4 + 8
  let count ← readWord p 0
  let expected := Word32.add 4 (count.toNat * sectionSize)
  let expected := if 1 ≤ p.version then Word32.add expected (count.toNat * 4) else expected
  if p.version = 0 ∧ p.payloadLen ≠ expected then
    .throw (MultVariable.timeText p ++ " BeamMonitorConfig V0 packet is incorrect length: " ++
      toString p.payloadLen ++ " != " ++ toString expected)
  else if p.version = 1 ∧ p.payloadLen ≠ expected then
    .throw (MultVariable.timeText p ++ " BeamMonitorConfig V1 packet is incorrect length: " ++
      toString p.payloadLen ++ " != " ++ toString expected)
  else if 1 < p.version ∧ p.payloadLen < expected then
    .throw (MultVariable.timeText p ++ " Newer BeamMonitorConfig packet is too short: " ++
      toString p.payloadLen ++ " < " ++ toString expected)
  else pure ⟨p, sectionSize⟩

namespace BeamMonitorConfigPkt

variable (pkt : BeamMonitorConfigPkt)

/-- The copy constructor. -/
def copy (behind : Nat → UInt32) : BeamMonitorConfigPkt :=
  ⟨pkt.payload.copy behind, pkt.sectionSize⟩

def beamMonCount : Constructor UInt32 := readWord pkt.payload 0

/-- The word that a section begins with. -/
def sectionAt (index : UInt32) : Nat := (4 + index.toNat * pkt.sectionSize) / 4

/-- A word of a section. -/
def sectionWord (k : Nat) (index : UInt32) : Constructor UInt32 := do
  if index < (← pkt.beamMonCount) then readWord pkt.payload (pkt.sectionAt index + k) else pure 0

def bmonId (index : UInt32) : Constructor UInt32 := pkt.sectionWord 0 index

def tofOffset (index : UInt32) : Constructor UInt32 := pkt.sectionWord 1 index

def tofMax (index : UInt32) : Constructor UInt32 := pkt.sectionWord 2 index

def tofBin (index : UInt32) : Constructor UInt32 := pkt.sectionWord 3 index

def distance (index : UInt32) : Constructor UInt64 := do
  if index < (← pkt.beamMonCount) then readDouble pkt.payload (pkt.sectionAt index + 4) else pure 0

/-- The formats are behind all sections. -/
def format (index : UInt32) : Constructor UInt32 := do
  if 1 ≤ pkt.payload.version then
    if index < (← pkt.beamMonCount) then
      readWord pkt.payload (pkt.sectionAt (← pkt.beamMonCount) + index.toNat)
    else pure histoFormatWord
  else pure histoFormatWord

end BeamMonitorConfigPkt

/-! ### Detector bank sets -/

/-- `DetectorBankSetsPkt`. -/
structure DetectorBankSetsPkt where
  payload : Payload
  /-- `m_sectionOffsets`. -/
  sectionOffsets : List UInt32
  /-- `m_after_banks_offset`. -/
  afterBanksOffset : List UInt32

namespace DetectorBankSetsPkt

/-- `m_name_offset`, in words, and `m_suffix_offset`. -/
def nameOffset : UInt32 := 4

def suffixOffset : UInt32 := 4

/-- The size of a section up to its bank ids, and behind them. -/
def baseSectionOffsetPart1 : UInt32 := nameOffset + 2

def baseSectionOffsetPart2 : UInt32 := 3 + 2 + suffixOffset

def baseSectionOffsetNoBanks : UInt32 := baseSectionOffsetPart1 + baseSectionOffsetPart2

/-- The message for a packet that ends within a section. -/
def tooShortText (p : Payload) (i numSets : Nat) (sectionOffset : UInt32) : String :=
  packetText p "DetectorBankSets" ++ ": too short for Set " ++ toString (i + 1) ++ " of " ++
    toString numSets ++ " sectionOffset=" ++ toString sectionOffset.toNat ++
    " baseSectionOffsetNoBanks=" ++ toString baseSectionOffsetNoBanks.toNat ++
    " payload_len=" ++ toString p.payloadLen

/-- The loop over the sections from the `i`-th on: the tables, and where the sections end.  Sums
    are computed with 32 bits, and products with 64. -/
def walkSections (p : Payload) (numSets : Nat) : (n : Nat) → (i : Nat) →
    (sectionOffset : UInt32) → Constructor (List UInt32 × List UInt32 × UInt32)
  | 0, _, sectionOffset => pure ([], [], sectionOffset)
  | n + 1, i, sectionOffset => do
    if p.payloadLen < (sectionOffset + baseSectionOffsetNoBanks).toNat * 4 then
      .throw (tooShortText p i numSets sectionOffset)
    else do
      let bankCount ← readWord p (sectionOffset + nameOffset + 1).toNat
      let afterBanks := sectionOffset + (baseSectionOffsetPart1 + bankCount)
      let (offsets, afters, last) ←
        walkSections p numSets n (i + 1) (afterBanks + baseSectionOffsetPart2)
      pure (sectionOffset :: offsets, afterBanks :: afters, last)

end DetectorBankSetsPkt

/-- The constructor. -/
def detectorBankSetsPkt (p : Payload) : Constructor DetectorBankSetsPkt := do
  checkFixed p "DetectorBankSets" " is too short for Count! " 4
  let numSets ← readWord p 0
  if numSets < 1 then pure ⟨p, [], []⟩
  else do
    let (offsets, afters, last) ←
      DetectorBankSetsPkt.walkSections p numSets.toNat numSets.toNat 0 1
    if p.payloadLen < last.toNat * 4 then
      .throw (packetText p "DetectorBankSets" ++ ": overall too short " ++ " numSets=" ++
        toString numSets.toNat ++ " baseSectionOffsetNoBanks=" ++
        toString DetectorBankSetsPkt.baseSectionOffsetNoBanks.toNat ++
        " final sectionOffset=" ++ toString last.toNat ++ " payload_len=" ++
        toString p.payloadLen)
    else pure ⟨p, offsets, afters⟩

namespace DetectorBankSetsPkt

variable (pkt : DetectorBankSetsPkt)

/-- The copy constructor.  It copies as many entries of the tables as the copied count says;
    where they have fewer, there is no result. -/
def copy (behind : Nat → UInt32) : Option DetectorBankSetsPkt :=
  let payload := pkt.payload.copy behind
  let numSets := (payload.word 0).toNat
  if numSets < 1 then some ⟨payload, [], []⟩
  else if numSets ≤ pkt.sectionOffsets.length ∧ numSets ≤ pkt.afterBanksOffset.length then
    some ⟨payload, pkt.sectionOffsets.take numSets, pkt.afterBanksOffset.take numSets⟩
  else none

def detBankSetCount : Constructor UInt32 := readWord pkt.payload 0

/-- An accessor with a default for an index that is out of range. -/
def indexed {α : Type} (index : UInt32) (other : α) (x : Constructor α) : Constructor α := do
  if index < (← pkt.detBankSetCount) then x else pure other

/-- The entries of the tables. -/
def sectionStart (index : UInt32) : UInt32 := pkt.sectionOffsets.getD index.toNat 0

def afterBanks (index : UInt32) : UInt32 := pkt.afterBanksOffset.getD index.toNat 0

def sectionOffset (index : UInt32) : Constructor UInt32 :=
  pkt.indexed index 0 (pure (pkt.sectionStart index))

/-- `strncpy` of at most 16 bytes from a word on, which ends behind a zero byte. -/
def readString (p : Payload) (i : Nat) : Constructor (List UInt8) :=
  let text := (SizedPackets.bytesAt p (4 * i) 16).takeWhile (· ≠ 0)
  do
    .touch ((List.range (min 16 (text.length + 1))).map fun k => (4 * i + k) / 4)
    pure text

def name (index : UInt32) : Constructor (List UInt8) :=
  pkt.indexed index "<Out Of Range!>".toUTF8.data.toList
    (readString pkt.payload (pkt.sectionStart index).toNat)

def flags (index : UInt32) : Constructor UInt32 :=
  pkt.indexed index 0 (readWord pkt.payload (pkt.sectionStart index + nameOffset).toNat)

def bankCount (index : UInt32) : Constructor UInt32 :=
  pkt.indexed index 0 (readWord pkt.payload (pkt.sectionStart index + nameOffset + 1).toNat)

/-- The bank ids behind the pointer, as many as `bankCount` says. -/
def banklist (index : UInt32) : Constructor (List UInt32) := do
  let count ← pkt.bankCount index
  pkt.indexed index [] do
    let start := (pkt.sectionStart index + nameOffset + 2).toNat
    .touch (List.range' start count.toNat)
    pure ((List.range' start count.toNat).map pkt.payload.word)

def tofOffset (index : UInt32) : Constructor UInt32 :=
  pkt.indexed index 0 (readWord pkt.payload (pkt.afterBanks index).toNat)

def tofMax (index : UInt32) : Constructor UInt32 :=
  pkt.indexed index 0 (readWord pkt.payload (pkt.afterBanks index + 1).toNat)

def tofBin (index : UInt32) : Constructor UInt32 :=
  pkt.indexed index 0 (readWord pkt.payload (pkt.afterBanks index + 2).toNat)

def throttle (index : UInt32) : Constructor UInt64 :=
  pkt.indexed index 0 (readDouble pkt.payload (pkt.afterBanks index + 3).toNat)

def suffix (index : UInt32) : Constructor (List UInt8) :=
  pkt.indexed index ("out-of-range-" ++ toString index.toNat).toUTF8.data.toList
    (readString pkt.payload (pkt.afterBanks index + 5).toNat)

end DetectorBankSetsPkt

end Adara.Native
