import Adara.Spec.PixelMapping

/-! # What is in the packet of a pixel map

A section of a packet tells its length and its pixels by itself, so a packet has its sections in
one way only (`sections_unique`).  The sections of the packet of a map are right if no pixel that
is too far away from an unmapped one before it has that one written (`accountedFor_iff`). -/

namespace Adara.Spec.PixelAccount

open Adara.Native Adara.Spec.PixelSections Adara.Spec.PixelMapping

/-! ### Sections by themselves -/

/-- The count in a bank word. -/
def wordCount (word : UInt32) : Nat := (word &&& 0x7fff).toNat

/-- The bank in a bank word. -/
def wordBank (word : UInt32) : UInt16 := (word >>> 16).toUInt16

/-- The shorthand bit of a bank word. -/
def wordShorthand (word : UInt32) : Nat := ((word &&& 0x8000) >>> 15).toNat

/-- A step of 16 bits, with its sign. -/
def wordStep (half : UInt16) : UInt32 := half.toInt16.toInt32.toUInt32

/-- The pixels of a section with this bank word: in the shorthand format the ids step from the
    starts to the stops, in the direct format the logical ids are listed. -/
def contentsPixels (start word : UInt32) (contents : List UInt32) :
    Option (List (UInt32 × UInt32)) :=
  if wordShorthand word = 1 then
    match contents with
    | [stop, logicalStart, steps, logicalStop] =>
      let pixels := (List.range (wordCount word)).map fun i =>
        (Stride.point start (wordStep (steps >>> 16).toUInt16) i,
          Stride.point logicalStart (wordStep (steps &&& 0xffff).toUInt16) i)
      if pixels.getLast? = some (stop, logicalStop) then some pixels else none
    | _ => none
  else if contents.length = wordCount word then
    some (contents.zipIdx.map fun c => (start + UInt32.ofNat c.2, c.1))
  else none

/-- The section has a bank, and pixels that the map has for this bank. -/
def SectionOk (map : SortedMap UInt32 (UInt32 × UInt16)) (ws : List UInt32) : Prop :=
  ∃ start word contents pixels, ws = start :: word :: contents ∧
    contentsPixels start word contents = some pixels ∧ pixels ≠ [] ∧
    wordBank word ≠ PixelFile.unmappedBank ∧
    ∀ p ∈ pixels, map.find? p.1 = some (p.2, wordBank word)

/-- The packet at every time has a header and the largest bank id, and then sections that are
    right; the length in the header is the bytes behind it, and the packet has no others. -/
def AccountedFor (file : PixelFile) : Prop :=
  ∀ tvSec tvNsec, ∃ pkt payload type sec nsec sections,
    genAltPacketAt file tvSec tvNsec = some pkt ∧
      pkt.words = payload :: type :: sec :: nsec :: file.maxBankId.toUInt32 ::
        List.flatten sections ∧
      payload.toNat = 4 + 4 * (List.flatten sections).length ∧
      pkt.packetSize.toNat = PacketHeader.headerLength + payload.toNat ∧
      ∀ s ∈ sections, SectionOk file.map s

/-! ### The length of a section -/

/-- The number of words of a section with this bank word. -/
def wordLength (word : UInt32) : Nat := if wordShorthand word = 1 then 6 else 2 + wordCount word

/-- A section whose length is in its second word. -/
def Delimited (ws : List UInt32) : Prop :=
  ∃ start word contents, ws = start :: word :: contents ∧ ws.length = wordLength word

theorem delimited_of_pixels {start word : UInt32} {contents : List UInt32}
    {pixels : List (UInt32 × UInt32)} (h : contentsPixels start word contents = some pixels) :
    Delimited (start :: word :: contents) := by
  refine ⟨start, word, contents, rfl, ?_⟩
  unfold contentsPixels at h
  rw [wordLength, List.length_cons, List.length_cons]
  split at h
  · next hshort =>
    rw [if_pos hshort]
    split at h
    · rfl
    · cases h
  · next hdirect =>
    rw [if_neg hdirect]
    split at h
    · next hlength => omega
    · cases h

/-- Sections that tell their length are found in one way. -/
theorem sections_unique {sections sections' : List (List UInt32)}
    (h : ∀ s ∈ sections, Delimited s) (h' : ∀ s ∈ sections', Delimited s)
    (hflat : sections.flatten = sections'.flatten) : sections = sections' := by
  induction sections generalizing sections' with
  | nil =>
    cases sections' with
    | nil => rfl
    | cons s' sections' =>
      obtain ⟨start, word, contents, rfl, -⟩ := h' s' (List.mem_cons_self ..)
      cases hflat
  | cons s sections ih =>
    obtain ⟨hs, hrest⟩ := List.forall_mem_cons.mp h
    obtain ⟨start, word, contents, rfl, hlength⟩ := hs
    cases sections' with
    | nil => cases hflat
    | cons s' sections' =>
      obtain ⟨hs', hrest'⟩ := List.forall_mem_cons.mp h'
      obtain ⟨start', word', contents', rfl, hlength'⟩ := hs'
      rw [List.flatten_cons, List.flatten_cons] at hflat
      -- the second word is the same, and so is the length
      have hword : word = word' := (List.cons.inj (List.cons.inj hflat).2).1
      obtain ⟨hhead, htail⟩ := List.append_inj hflat (by rw [hlength, hlength', hword])
      rw [hhead, ih hrest hrest' htail]

/-! ### The words of runs -/

theorem wordStep_small {d : UInt32} (h : Stride.Small d) : wordStep d.toUInt16 = d := by
  rw [wordStep, Stride.extend_small h, UInt32.toUInt32_toInt32]

/-- The words of a run are a section with its pixels. -/
theorem words_pixels {r : PixelRun} (h : r.Wf) :
    ∃ start word contents, r.words = start :: word :: contents ∧ wordBank word = r.bank ∧
      contentsPixels start word contents = some (r.entries.map fun e => (e.1, e.2.1)) := by
  rw [PixelRun.words]
  by_cases hmany : 1 < r.count
  · obtain ⟨hbank, hshort, hcount⟩ := r.bankWord_fields 1 h.le (by decide)
    obtain ⟨hphysical, -, hlogical, -⟩ := h.steps hmany
    rw [if_pos hmany]
    refine ⟨_, _, _, rfl, hbank, ?_⟩
    have hone : wordShorthand (r.bankWord 1) = 1 := hshort
    have hwordCount : wordCount (r.bankWord 1) = r.count := hcount
    unfold contentsPixels
    rw [if_pos hone]
    simp only
    rw [Stride.high_half, Stride.low_half, wordStep_small hphysical, wordStep_small hlogical,
      hwordCount]
    have hpixels : (List.range r.count).map (fun i =>
        (Stride.point r.physicalStart r.physicalStep i,
          Stride.point r.logicalStart r.logicalStep i)) =
        r.entries.map fun e => (e.1, e.2.1) := by
      rw [PixelRun.entries, List.map_map]
      rfl
    rw [if_pos, hpixels]
    rw [List.getLast?_map, List.getLast?_range, if_neg (by omega)]
    rfl
  · obtain ⟨hbank, hshort, hcount⟩ := r.bankWord_fields 0 h.le (by decide)
    have hone : r.count = 1 := by
      have hpos := h.pos
      omega
    rw [if_neg hmany]
    refine ⟨_, _, _, rfl, hbank, ?_⟩
    have hdirect : wordShorthand (r.bankWord 0) ≠ 1 := by
      have hzero : wordShorthand (r.bankWord 0) = 0 := hshort
      omega
    have hwordCount : wordCount (r.bankWord 0) = r.count := hcount
    unfold contentsPixels
    rw [if_neg hdirect, hwordCount, hone, if_pos (by rfl), PixelRun.entries, hone]
    simp

theorem delimited_words {r : PixelRun} (h : r.Wf) : Delimited r.words := by
  obtain ⟨start, word, contents, hwords, -, hpixels⟩ := words_pixels h
  rw [hwords]
  exact delimited_of_pixels hpixels

/-! ### Unmapped pixels -/

/-- An unmapped pixel by itself is not followed by one that is too far away for a step. -/
def Reaches (allow : Bool) (r r' : PixelRun) : Prop :=
  r.bank = PixelFile.unmappedBank → r'.bank = PixelFile.unmappedBank → r.count = 1 →
    (allow = true ∧ r'.logicalStart = r.logicalStart) ∨
      Stride.Small (r'.physicalStart - r.physicalStart) ∧
        Stride.Small (r'.logicalStart - r.logicalStart)

/-- The runs with a bank. -/
def mappedRuns (runs : List PixelRun) : List PixelRun :=
  runs.filter fun r => r.bank ≠ PixelFile.unmappedBank

/-- The first run starts with what is under way. -/
theorem head_stretches (allow : Bool) (r : PixelRun) (es : List Entry) :
    ∃ r' rest, stretches allow r es = r' :: rest ∧ r'.bank = r.bank ∧
      r'.physicalStart = r.physicalStart ∧ r'.logicalStart = r.logicalStart := by
  induction es generalizing r with
  | nil => exact ⟨r, [], rfl, rfl, rfl, rfl⟩
  | cons e es ih =>
    rw [stretches]
    cases hextend : r.extend allow e with
    | none => exact ⟨r, _, rfl, rfl, rfl, rfl⟩
    | some r' =>
      obtain ⟨r'', rest, heq, hbank, hphysical, hlogical⟩ := ih r'
      have hkept : r'.bank = r.bank ∧ r'.physicalStart = r.physicalStart ∧
          r'.logicalStart = r.logicalStart := by
        rw [PixelRun.extend] at hextend
        split at hextend
        · cases hextend
        split at hextend
        · split at hextend
          · exact Option.some.inj hextend ▸ ⟨rfl, rfl, rfl⟩
          · cases hextend
        · split at hextend
          · exact Option.some.inj hextend ▸ ⟨rfl, rfl, rfl⟩
          · cases hextend
      exact ⟨r'', rest, heq, hbank.trans hkept.1, hphysical.trans hkept.2.1,
        hlogical.trans hkept.2.2⟩

theorem not_tooFar_iff {allow : Bool} {r r' : PixelRun} {e : Entry} (hbank : r'.bank = e.2.2)
    (hphysical : r'.physicalStart = e.1) (hlogical : r'.logicalStart = e.2.1) :
    Reaches allow r r' ↔ ¬(r.bank = PixelFile.unmappedBank ∧ r.TooFar allow e) := by
  rw [Reaches, hbank, hphysical, hlogical]
  constructor
  · rintro h ⟨hunmapped, hfar⟩
    rcases h hunmapped (hfar.bank_eq.trans hunmapped) hfar.single with hsame | hsmall
    · exact hfar.distinct hsame
    · exact hfar.far hsmall
  · intro h hunmapped hunmapped' hone
    by_contra hnot
    rw [not_or] at hnot
    exact h ⟨hunmapped, hunmapped'.trans hunmapped.symm, hone, hnot.1, hnot.2⟩

/-- All that is emitted has a bank just if the runs reach each other; then it is the runs with a
    bank. -/
theorem emitted_mapped_iff (allow : Bool) (r : PixelRun) (es : List Entry) :
    ((∀ x ∈ emitted allow r es, x.bank ≠ PixelFile.unmappedBank) ↔
        (stretches allow r es).IsChain (Reaches allow)) ∧
      ((∀ x ∈ emitted allow r es, x.bank ≠ PixelFile.unmappedBank) →
        emitted allow r es = mappedRuns (stretches allow r es)) := by
  induction es generalizing r with
  | nil =>
    rw [emitted, stretches, mappedRuns]
    by_cases hbank : r.bank ≠ PixelFile.unmappedBank
    · rw [if_pos hbank, List.filter_cons_of_pos (by simpa using hbank)]
      refine ⟨⟨fun _ => .singleton r, fun _ x hx => ?_⟩, fun _ => rfl⟩
      rwa [List.mem_singleton.mp hx]
    · rw [if_neg hbank, List.filter_cons_of_neg (by simpa using hbank)]
      exact ⟨⟨fun _ => .singleton r, fun _ x hx => absurd hx List.not_mem_nil⟩, fun _ => rfl⟩
  | cons e es ih =>
    rw [emitted, stretches]
    cases hextend : r.extend allow e with
    | some r' => exact ih r'
    | none =>
      -- the run ends at `e`: whether it reaches the next one depends on that one's first pixel
      -- only
      obtain ⟨hiff, heq⟩ := ih (.single e.1 e.2.1 e.2.2)
      obtain ⟨r', rest, hhead, hbank, hphysical, hlogical⟩ :=
        head_stretches allow (.single e.1 e.2.1 e.2.2) es
      have hreaches := @not_tooFar_iff allow r r' e hbank hphysical hlogical
      have hchain : (r :: stretches allow (.single e.1 e.2.1 e.2.2) es).IsChain (Reaches allow) ↔
          Reaches allow r r' ∧
            (stretches allow (.single e.1 e.2.1 e.2.2) es).IsChain (Reaches allow) := by
        rw [hhead]
        exact List.isChain_cons_cons
      simp only
      rw [hchain, hreaches, ← hiff, List.forall_mem_append, mappedRuns]
      by_cases hmapped : r.bank ≠ PixelFile.unmappedBank
      · rw [if_pos (.inl hmapped), List.forall_mem_singleton,
          List.filter_cons_of_pos (by simpa using hmapped)]
        refine ⟨and_congr_left fun _ => ⟨fun _ h => hmapped h.1, fun _ => hmapped⟩, fun h => ?_⟩
        rw [heq h.2]
        rfl
      -- an unmapped run is emitted just if the next pixel is too far away from it
      · by_cases hfar : r.TooFar allow e
        · rw [if_pos (.inr hfar), List.forall_mem_singleton]
          refine ⟨and_congr_left fun _ => ⟨fun h => absurd h hmapped, fun h => ?_⟩,
            fun h => absurd h.1 hmapped⟩
          exact absurd ⟨not_not.mp hmapped, hfar⟩ h
        · rw [if_neg (not_or.mpr ⟨hmapped, hfar⟩), List.nil_append,
            List.filter_cons_of_neg (by simpa using hmapped)]
          refine ⟨and_congr_left fun _ => ⟨fun _ h => hfar h.2, fun _ x hx => ?_⟩,
            fun h => heq h.2⟩
          exact absurd hx List.not_mem_nil

theorem emittedOf_mapped_iff (allow : Bool) (es : List Entry) :
    ((∀ x ∈ emittedOf allow es, x.bank ≠ PixelFile.unmappedBank) ↔
        (runsOf allow es).IsChain (Reaches allow)) ∧
      ((∀ x ∈ emittedOf allow es, x.bank ≠ PixelFile.unmappedBank) →
        emittedOf allow es = mappedRuns (runsOf allow es)) := by
  cases es with
  | nil => exact ⟨⟨fun _ => .nil, fun _ x hx => absurd hx List.not_mem_nil⟩, fun _ => rfl⟩
  | cons e es => exact emitted_mapped_iff allow _ es

/-! ### The packet -/

/-- The packet has the room that it takes, if the size has 32 bits. -/
theorem genAltPacketAt_eq (file : PixelFile) (tvSec tvNsec : UInt32) :
    genAltPacketAt file tvSec tvNsec =
      if 4 * (altSectionWords file.allowNonOneToOne file.map.entries).length + 20 < 2 ^ 32 then
        some
          { packetSize := UInt32.ofNat
              (4 * (altSectionWords file.allowNonOneToOne file.map.entries).length + 20)
            words :=
              UInt32.ofNat
                  (4 * (altSectionWords file.allowNonOneToOne file.map.entries).length + 4) ::
                UInt32.ofNat (adaraPktType 0x4102 1) ::
                (tvSec - UInt32.ofNat epicsEpochOffset) :: tvNsec :: genAltPacket file }
      else none := by
  have hwords : (genAltPacket file).length =
      (altSectionWords file.allowNonOneToOne file.map.entries).length + 1 := rfl
  rw [genAltPacketAt]
  generalize altSectionWords file.allowNonOneToOne file.map.entries = ws at hwords ⊢
  have hpayload : UInt32.ofNat (4 * ws.length) + 4 = UInt32.ofNat (4 * ws.length + 4) := by
    rw [UInt32.ofNat_add]
    rfl
  have hsize : UInt32.ofNat (4 * ws.length + 4) + UInt32.ofNat PacketHeader.headerLength =
      UInt32.ofNat (4 * ws.length + 20) := by
    rw [← UInt32.ofNat_add, PacketHeader.headerLength]
  simp only [hpayload, hsize, List.length_cons, hwords]
  rw [UInt32.toNat_ofNat']
  by_cases hlt : 4 * ws.length + 20 < 2 ^ 32
  · rw [if_pos hlt, Nat.mod_eq_of_lt hlt, if_pos (by omega)]
  · -- what is left of the size is less than 32 bits
    have hmod := Nat.mod_lt (4 * ws.length + 20) (show 0 < 2 ^ 32 by omega)
    rw [if_neg hlt, if_neg (by omega)]

theorem sectionOk_words {file : PixelFile} {r : PixelRun} (h : r.Wf)
    (hmem : ∀ e ∈ r.entries, e ∈ file.map.entries) (hbank : r.bank ≠ PixelFile.unmappedBank) :
    SectionOk file.map r.words := by
  obtain ⟨start, word, contents, hwords, hword, hpixels⟩ := words_pixels h
  refine ⟨start, word, contents, _, hwords, hpixels, ?_, hword ▸ hbank, ?_⟩
  · have hpos := h.pos
    rw [ne_eq, List.map_eq_nil_iff, PixelRun.entries, List.map_eq_nil_iff, List.range_eq_nil]
    omega
  · intro p hp
    obtain ⟨e, he, rfl⟩ := List.mem_map.mp hp
    have hrun : e.2.2 = r.bank := by
      obtain ⟨i, -, rfl⟩ := List.mem_map.mp he
      rfl
    rw [hword, ← hrun]
    exact SortedMap.find?_eq_some.mpr (hmem e he)

theorem bank_of_sectionOk {file : PixelFile} {r : PixelRun} (h : r.Wf)
    (hok : SectionOk file.map r.words) : r.bank ≠ PixelFile.unmappedBank := by
  obtain ⟨start, word, contents, hwords, hword, -⟩ := words_pixels h
  obtain ⟨start', word', contents', pixels, hwords', -, -, hbank, -⟩ := hok
  rw [hwords] at hwords'
  rw [← hword, (List.cons.inj (List.cons.inj hwords').2).1]
  exact hbank

/-- Where the packet is right, its size has 32 bits and no run without a bank is written. -/
theorem emitted_of_accountedFor {file : PixelFile} (h : AccountedFor file) :
    4 * (altSectionWords file.allowNonOneToOne file.map.entries).length + 20 < 2 ^ 32 ∧
      ∀ r ∈ emittedOf file.allowNonOneToOne file.map.entries,
        r.bank ≠ PixelFile.unmappedBank := by
  obtain ⟨hwords, hwritten⟩ := altSectionWords_emittedOf (entries_distinct file)
  obtain ⟨pkt, payload, type, sec, nsec, sections, hpkt, hpktWords, -, -, hok⟩ := h 0 0
  rw [genAltPacketAt_eq] at hpkt
  split at hpkt
  swap
  · cases hpkt
  next hlt =>
  refine ⟨hlt, fun r hr => ?_⟩
  obtain rfl := Option.some.inj hpkt
  obtain ⟨-, -, -, -, htail⟩ : _ ∧ _ ∧ _ ∧ _ ∧ genAltPacket file =
      file.maxBankId.toUInt32 :: List.flatten sections := by
    simpa only [List.cons.injEq] using hpktWords
  have hflat : sections.flatten =
      ((emittedOf file.allowNonOneToOne file.map.entries).map PixelRun.words).flatten := by
    rw [← List.flatMap_def]
    exact (List.cons.inj htail).2.symm.trans hwords
  have hsections := sections_unique
    (fun s hs => by
      obtain ⟨start, word, contents, pixels, rfl, hpixels, -⟩ := hok s hs
      exact delimited_of_pixels hpixels)
    (fun s hs => by
      obtain ⟨r', hr', rfl⟩ := List.mem_map.mp hs
      exact delimited_words (hwritten r' hr').1) hflat
  exact bank_of_sectionOk (hwritten r hr).1 (hok _ (hsections ▸ List.mem_map_of_mem hr))

/-- The packet is right just if the size has 32 bits and no pixel is too far away from an unmapped
    one that is a run by itself. -/
theorem accountedFor_iff (file : PixelFile) :
    AccountedFor file ↔
      (runsOf file.allowNonOneToOne file.map.entries).IsChain (Reaches file.allowNonOneToOne) ∧
        4 * (allWords (mappedRuns (runsOf file.allowNonOneToOne file.map.entries))).length + 20 <
          2 ^ 32 := by
  obtain ⟨hwords, hwritten⟩ := altSectionWords_emittedOf (entries_distinct file)
  obtain ⟨hiff, hmapped⟩ := emittedOf_mapped_iff file.allowNonOneToOne file.map.entries
  constructor
  · intro h
    obtain ⟨hlt, hbanks⟩ := emitted_of_accountedFor h
    rw [hwords, hmapped hbanks] at hlt
    exact ⟨hiff.mp hbanks, hlt⟩
  · rintro ⟨hchain, hlt⟩ tvSec tvNsec
    have hbanks := hiff.mpr hchain
    rw [← hmapped hbanks, ← hwords] at hlt
    have hpkt := genAltPacketAt_eq file tvSec tvNsec
    rw [if_pos hlt] at hpkt
    have hflat : ((emittedOf file.allowNonOneToOne file.map.entries).map PixelRun.words).flatten =
        altSectionWords file.allowNonOneToOne file.map.entries := by
      rw [← List.flatMap_def]
      exact hwords.symm
    have hmem : ∀ r ∈ emittedOf file.allowNonOneToOne file.map.entries,
        ∀ e ∈ r.entries, e ∈ file.map.entries := by
      intro r hr e he
      rw [hmapped hbanks] at hr
      rw [← allEntries_runsOf file.allowNonOneToOne file.map.entries]
      exact List.mem_flatMap.mpr ⟨r, List.mem_of_mem_filter hr, he⟩
    refine ⟨_, UInt32.ofNat
        (4 * (altSectionWords file.allowNonOneToOne file.map.entries).length + 4),
      UInt32.ofNat (adaraPktType 0x4102 1), tvSec - UInt32.ofNat epicsEpochOffset, tvNsec,
      (emittedOf file.allowNonOneToOne file.map.entries).map PixelRun.words, hpkt, ?_, ?_, ?_,
      ?_⟩
    · rw [hflat]
      rfl
    · rw [hflat, UInt32.toNat_ofNat', Nat.mod_eq_of_lt (by omega)]
      omega
    · rw [UInt32.toNat_ofNat', UInt32.toNat_ofNat', Nat.mod_eq_of_lt hlt,
        Nat.mod_eq_of_lt (by omega), PacketHeader.headerLength]
      omega
    · intro s hs
      obtain ⟨r, hr, rfl⟩ := List.mem_map.mp hs
      exact sectionOk_words (hwritten r hr).1 (hmem r hr) (hbanks r hr)

/-- Two unmapped pixels with more than 16 bits between them. -/
def farUnmapped : PixelFile where
  map := (SortedMap.empty.insert 0 (0, 0xffff)).insert 100000 (1, 0xffff)
  allowNonOneToOne := false
  nonempty := by decide
  oneToOne := fun _ => by decide

/-- The first of them is written as a section without a bank. -/
theorem not_accountedFor : ¬∀ file, AccountedFor file := by
  intro h
  obtain ⟨-, hbanks⟩ := emitted_of_accountedFor (h farUnmapped)
  exact hbanks (.single 0 0 0xffff) (by exact List.mem_cons_self ..) rfl

end Adara.Spec.PixelAccount
