import Adara.Native.PixelPacket
import Adara.Spec.PixelMapping

/-! # Reading back the original pixel mapping packet

A `LogicalRun` is what a section of the packet stands for: pixels of one bank with consecutive
logical ids, and any physical ids.  `genPacket` cuts the inverted map into runs
(`countSections_eq`) and writes their words; the reader gives every bank the pixels of its runs,
and ends where the payload does. -/

namespace Adara.Spec.PixelPacket

open Adara.Native Adara.Native.PixelMappingPkt
open Adara.Native.PixelMappingAlt (createBank bankAt)
open Adara.Spec.BankTable Adara.Spec.PixelSections Adara.Spec.PixelMapping

/-! ### The inverted map -/

/-- A pixel with its logical id in front, as the inverted map has it. -/
def flip (e : Entry) : UInt32 × UInt32 × UInt16 := (e.2.1, e.1, e.2.2)

theorem foldl_inverted_perm {es : List Entry} {m : SortedMap UInt32 (UInt32 × UInt16)}
    (hnodup : (es.map fun e => e.2.1).Nodup) (hnew : ∀ e ∈ es, e.2.1 ∉ m.keys) :
    (es.foldl (fun inverted e => inverted.insert e.2.1 (e.1, e.2.2)) m).entries.Perm
      (m.entries ++ es.map flip) := by
  induction es generalizing m with
  | nil => rw [List.map_nil, List.append_nil]; rfl
  | cons e es ih =>
    rw [List.map_cons, List.nodup_cons] at hnodup
    have hnone : m.find? e.2.1 = none := SortedMap.find?_eq_none.mpr (hnew e List.mem_cons_self)
    have hrest : ∀ e' ∈ es, e'.2.1 ∉ (m.insert e.2.1 (e.1, e.2.2)).keys := by
      intro e' he' hmem
      rw [SortedMap.mem_keys] at hmem
      obtain ⟨v, hv⟩ := hmem
      rcases (SortedMap.mem_insert hnone).mp hv with heq | hold
      · have hkey : e'.2.1 = e.2.1 := (Prod.ext_iff.mp heq).1
        exact hnodup.1 (hkey ▸ List.mem_map_of_mem he')
      · exact hnew e' (List.mem_cons_of_mem _ he') (SortedMap.mem_keys.mpr ⟨v, hold⟩)
    rw [List.foldl_cons, List.map_cons]
    have hperm := SortedMap.insert_perm (e.1, e.2.2) hnone
    refine (ih hnodup.2 hrest).trans ((hperm.append_right _).trans ?_)
    exact List.perm_middle.symm

/-- A one-to-one map is inverted without losing a pixel. -/
theorem inverted_perm {file : PixelFile} (h : (file.map.entries.map fun e => e.2.1).Nodup) :
    file.inverted.entries.Perm (file.map.entries.map flip) := by
  have hnew : ∀ e ∈ file.map.entries,
      e.2.1 ∉ (SortedMap.empty : SortedMap UInt32 (UInt32 × UInt16)).keys :=
    fun _ _ => List.not_mem_nil
  exact foldl_inverted_perm h hnew

/-! ### Runs of logical ids -/

structure LogicalRun where
  logical : UInt32
  bank : UInt16
  physicals : List UInt32

namespace LogicalRun

/-- The pixels from a logical id on. -/
def entriesFrom (bank : UInt16) : UInt32 → List UInt32 → List Entry
  | _, [] => []
  | logical, physical :: physicals =>
    (physical, logical, bank) :: entriesFrom bank (logical + 1) physicals

/-- A run that a section has room for. -/
structure Wf (r : LogicalRun) : Prop where
  pos : 0 < r.physicals.length
  le : r.physicals.length ≤ 0xffff

variable (r : LogicalRun)

def entries : List Entry := entriesFrom r.bank r.logical r.physicals

def count : UInt16 := UInt16.ofNat r.physicals.length

/-- Bank id and count. -/
def bankWord : UInt32 := (r.bank.toUInt32 <<< 16) ||| r.count.toUInt32

/-- The words of the section. -/
def words : List UInt32 := r.logical :: r.bankWord :: r.physicals

/-- The run with a pixel more. -/
def extend (physical : UInt32) : LogicalRun := { r with physicals := r.physicals ++ [physical] }

theorem entriesFrom_append (bank : UInt16) (logical : UInt32) (ps ps' : List UInt32) :
    entriesFrom bank logical (ps ++ ps') =
      entriesFrom bank logical ps ++ entriesFrom bank (logical + UInt32.ofNat ps.length) ps' := by
  induction ps generalizing logical with
  | nil => simp [entriesFrom]
  | cons p ps ih =>
    rw [List.cons_append, entriesFrom, entriesFrom, ih, List.length_cons, List.cons_append]
    congr 3
    rw [UInt32.ofNat_add, UInt32.add_assoc, UInt32.add_comm 1]
    rfl

theorem entries_extend (physical : UInt32) :
    (r.extend physical).entries =
      r.entries ++ [(physical, r.logical + UInt32.ofNat r.physicals.length, r.bank)] := by
  rw [entries, extend, entriesFrom_append]
  rfl

theorem length_entries : r.entries.length = r.physicals.length := by
  have hlength : ∀ (logical : UInt32) (ps : List UInt32),
      (entriesFrom r.bank logical ps).length = ps.length := by
    intro logical ps
    induction ps generalizing logical with
    | nil => rfl
    | cons p ps ih => rw [entriesFrom, List.length_cons, ih, List.length_cons]
  exact hlength r.logical r.physicals

theorem bank_of_mem {e : Entry} (h : e ∈ r.entries) : e.2.2 = r.bank := by
  have hbank : ∀ (logical : UInt32) (ps : List UInt32),
      ∀ e ∈ entriesFrom r.bank logical ps, e.2.2 = r.bank := by
    intro logical ps
    induction ps generalizing logical with
    | nil => exact fun _ he => absurd he List.not_mem_nil
    | cons p ps ih => exact List.forall_mem_cons.mpr ⟨rfl, ih _⟩
  exact hbank r.logical r.physicals e h

theorem map_physical : r.entries.map (fun e => e.1) = r.physicals := by
  have hmap : ∀ (logical : UInt32) (ps : List UInt32),
      (entriesFrom r.bank logical ps).map (fun e => e.1) = ps := by
    intro logical ps
    induction ps generalizing logical with
    | nil => rfl
    | cons p ps ih => rw [entriesFrom, List.map_cons, ih]
  exact hmap r.logical r.physicals

theorem count_toNat (h : r.Wf) : r.count.toNat = r.physicals.length := by
  have hle := h.le
  rw [count, UInt16.toNat_ofNat', Nat.mod_eq_of_lt (by omega)]

/-- The reader finds bank and count in the bank word. -/
theorem bankWord_fields (h : r.Wf) :
    bankId r.bankWord = r.bank ∧ pixelCount r.bankWord = r.physicals.length := by
  have hbank := r.bank.toNat_lt
  have hcount := r.count.toNat_lt
  have hword : r.bankWord.toNat = 65536 * r.bank.toNat + r.count.toNat := by
    rw [bankWord, UInt32.toNat_or, UInt32.toNat_shiftLeft, UInt16.toNat_toUInt32,
      UInt16.toNat_toUInt32]
    show (r.bank.toNat <<< 16) % 2 ^ 32 ||| _ = _
    rw [Nat.mod_eq_of_lt (by rw [Nat.shiftLeft_eq]; omega : r.bank.toNat <<< 16 < 2 ^ 32),
      ← Nat.shiftLeft_add_eq_or_of_lt (by omega : r.count.toNat < 2 ^ 16), Nat.shiftLeft_eq]
    omega
  constructor
  · apply UInt16.toNat_inj.mp
    rw [bankId, UInt32.toNat_toUInt16, UInt32.toNat_shiftRight, hword]
    show (_ >>> 16) % _ = _
    rw [Nat.shiftRight_eq_div_pow]
    omega
  · rw [← r.count_toNat h, pixelCount, UInt32.toNat_toUInt16, UInt32.toNat_and, hword]
    show (_ &&& (2 ^ 16 - 1)) % _ = _
    rw [Nat.and_two_pow_sub_one_eq_mod]
    omega

end LogicalRun

/-- The pixels of some runs. -/
def allPixels (runs : List LogicalRun) : List Entry := runs.flatMap LogicalRun.entries

/-- The words of their sections. -/
def runWords (runs : List LogicalRun) : List UInt32 := runs.flatMap LogicalRun.words

/-! ### Counting the sections -/

/-- The counter stands for the runs so far, and one that may go on. -/
structure Counts (c : SectionCounter) (runs : List LogicalRun) (cur : LogicalRun) : Prop where
  wf : ∀ r ∈ runs, r.Wf
  curWf : cur.Wf
  expected : c.expected = cur.logical + UInt32.ofNat cur.physicals.length
  entries : c.entries = cur.count
  bank : c.bank = cur.bank
  sections : c.sections = runs.map LogicalRun.count

variable {c : SectionCounter} {runs : List LogicalRun} {cur : LogicalRun}

/-- The run of a single pixel. -/
def single (e : UInt32 × UInt32 × UInt16) : LogicalRun := ⟨e.1, e.2.2, [e.2.1]⟩

theorem single_wf (e : UInt32 × UInt32 × UInt16) : (single e).Wf :=
  ⟨Nat.one_pos, show 1 ≤ 65535 by decide⟩

theorem counts_first (e : UInt32 × UInt32 × UInt16) :
    Counts (.first e.1 e.2.2) [] (single e) :=
  { wf := fun _ h => absurd h List.not_mem_nil
    curWf := single_wf e
    expected := rfl
    entries := rfl
    bank := rfl
    sections := rfl }

/-- A pixel continues the run, or begins a new one. -/
theorem Counts.add (h : Counts c runs cur) (e : UInt32 × UInt32 × UInt16) :
    ∃ runs' cur', Counts (c.addPixel e) runs' cur' ∧
      allPixels (runs' ++ [cur']) = allPixels (runs ++ [cur]) ++ [(e.2.1, e.1, e.2.2)] := by
  obtain ⟨logical, physical, bank⟩ := e
  rw [SectionCounter.addPixel]
  -- the counter ends a section just where the run ends
  by_cases hcut : logical ≠ c.expected ∨ bank ≠ c.bank ∨
      SectionCounter.maxSectionPixelidCount ≤ c.entries
  · refine ⟨runs ++ [cur], single (logical, physical, bank), ?_, ?_⟩
    · simp only [if_pos hcut]
      exact
        { wf := by
            rw [List.forall_mem_append, List.forall_mem_singleton]
            exact ⟨h.wf, h.curWf⟩
          curWf := single_wf _
          expected := rfl
          entries := rfl
          bank := rfl
          sections := by rw [h.sections, h.entries, List.map_append, List.map_singleton] }
    · rw [allPixels, List.flatMap_append]
      rfl
  · rw [not_or, not_or, not_not, not_not] at hcut
    obtain ⟨hexpected, hbank, hroom⟩ := hcut
    -- the 16-bit counter has not wrapped yet
    have hroom' : cur.physicals.length < 0xffff := by
      have hnum := cur.count_toNat h.curWf
      have hlt : c.entries < SectionCounter.maxSectionPixelidCount := UInt16.not_le.mp hroom
      rw [h.entries, UInt16.lt_iff_toNat_lt, hnum] at hlt
      exact hlt
    refine ⟨runs, cur.extend physical, ?_, ?_⟩
    · rw [if_neg (by simp [hexpected, hbank, hroom])]
      exact
        { wf := h.wf
          curWf := ⟨by simp [LogicalRun.extend], by simp [LogicalRun.extend]; omega⟩
          expected := by
            simp only [hexpected, h.expected, LogicalRun.extend, List.length_append,
              List.length_singleton, UInt32.ofNat_add, UInt32.add_assoc]
            rfl
          entries := by
            simp only [h.entries, LogicalRun.count, LogicalRun.extend, List.length_append,
              List.length_singleton, UInt16.ofNat_add]
            rfl
          bank := h.bank
          sections := h.sections }
    · rw [allPixels, allPixels, List.flatMap_append, List.flatMap_append, List.flatMap_singleton,
        List.flatMap_singleton, LogicalRun.entries_extend, hexpected, h.expected, hbank, h.bank,
        List.append_assoc]

theorem Counts.addAll (h : Counts c runs cur) (es : List (UInt32 × UInt32 × UInt16)) :
    ∃ runs' cur', Counts (es.foldl SectionCounter.addPixel c) runs' cur' ∧
      allPixels (runs' ++ [cur']) =
        allPixels (runs ++ [cur]) ++ es.map fun e => (e.2.1, e.1, e.2.2) := by
  induction es generalizing c runs cur with
  | nil => exact ⟨runs, cur, h, by rw [List.map_nil, List.append_nil]⟩
  | cons e es ih =>
    obtain ⟨runs₁, cur₁, hcounts, hpixels⟩ := h.add e
    obtain ⟨runs₂, cur₂, hcounts', hpixels'⟩ := ih hcounts
    refine ⟨runs₂, cur₂, hcounts', ?_⟩
    rw [hpixels', hpixels, List.map_cons, List.append_assoc, List.singleton_append]

/-- The counts are those of runs that have the pixels in the order of their logical ids. -/
theorem countSections_eq {es : List (UInt32 × UInt32 × UInt16)} (hne : es ≠ []) :
    ∃ runs : List LogicalRun, countSections es = some (runs.map LogicalRun.count) ∧
      (∀ r ∈ runs, r.Wf) ∧ allPixels runs = es.map fun e => (e.2.1, e.1, e.2.2) := by
  obtain ⟨e, rest, rfl⟩ := List.exists_cons_of_ne_nil hne
  obtain ⟨runs, cur, hcounts, hpixels⟩ := (counts_first e).addAll rest
  refine ⟨runs ++ [cur], ?_, ?_, ?_⟩
  · rw [countSections, SectionCounter.allSections, hcounts.sections, hcounts.entries,
      List.map_append, List.map_singleton]
  · rw [List.forall_mem_append, List.forall_mem_singleton]
    exact ⟨hcounts.wf, hcounts.curWf⟩
  · rw [hpixels]
    rfl

/-! ### Writing the sections -/

theorem allPixels_cons (r : LogicalRun) (runs : List LogicalRun) :
    allPixels (r :: runs) = r.entries ++ allPixels runs := List.flatMap_cons

theorem runWords_cons (r : LogicalRun) (runs : List LogicalRun) :
    runWords (r :: runs) = r.words ++ runWords runs := List.flatMap_cons

theorem writeSections_eq {runs : List LogicalRun} (hwf : ∀ r ∈ runs, r.Wf) :
    writeSections (runs.map LogicalRun.count) ((allPixels runs).map flip) =
      some (runWords runs) := by
  induction runs with
  | nil => rfl
  | cons r runs ih =>
    obtain ⟨hr, hrest⟩ := List.forall_mem_cons.mp hwf
    have hcount := r.count_toNat hr
    have hlength : (r.entries.map flip).length = r.physicals.length := by
      rw [List.length_map, r.length_entries]
    have hphysicals : (r.entries.map flip).map (fun e => e.2.1) = r.physicals := by
      rw [List.map_map, ← r.map_physical]
      rfl
    -- the first pixel of the section gives logical id and bank
    obtain ⟨tail, htail⟩ : ∃ tail, (r.entries ++ allPixels runs).map flip =
        (r.logical, r.physicals.headD 0, r.bank) :: tail := by
      cases hp : r.physicals with
      | nil =>
        have hpos := hr.pos
        rw [hp, List.length_nil] at hpos
        omega
      | cons p ps =>
        rw [LogicalRun.entries, hp]
        exact ⟨_, rfl⟩
    rw [allPixels_cons, List.map_cons]
    simp only [writeSections, htail]
    rw [← htail, List.map_append, List.take_left' (hlength.trans hcount.symm),
      List.drop_left' (hlength.trans hcount.symm), ih hrest, hphysicals, if_pos]
    · rfl
    · rw [List.length_append, hlength, hcount]
      omega

/-- The packet of a one-to-one map has the words of runs with its pixels. -/
theorem genPacket_eq {file : PixelFile} (h : (file.map.entries.map fun e => e.2.1).Nodup) :
    ∃ runs : List LogicalRun, genPacket file = some (runWords runs) ∧ (∀ r ∈ runs, r.Wf) ∧
      (allPixels runs).Perm file.map.entries := by
  have hperm := inverted_perm h
  have hne : file.inverted.entries ≠ [] := by
    intro hnil
    rw [hnil, List.nil_perm, List.map_eq_nil_iff] at hperm
    exact file.nonempty hperm
  obtain ⟨runs, hcount, hwf, hpixels⟩ := countSections_eq hne
  have hflip : (allPixels runs).map flip = file.inverted.entries := by
    rw [hpixels, List.map_map]
    exact List.map_id _
  refine ⟨runs, ?_, hwf, ?_⟩
  · rw [genPacket, hcount, Option.bind_some, ← hflip, writeSections_eq hwf]
  · rw [hpixels]
    refine (hperm.map fun e => (e.2.1, e.1, e.2.2)).trans ?_
    rw [List.map_map]
    exact List.Perm.of_eq (List.map_id _)

/-! ### The largest bank -/

/-- A step of the search for the largest bank id. -/
def larger (bankCount : UInt16) (r : LogicalRun) : UInt16 :=
  if r.bank ≠ PixelFile.unmappedBank ∧ bankCount < r.bank then r.bank else bankCount

theorem foldl_larger (runs : List LogicalRun) (n : UInt16) :
    n.toNat ≤ (runs.foldl larger n).toNat ∧
      (∀ r ∈ runs, r.bank ≠ PixelFile.unmappedBank →
        r.bank.toNat ≤ (runs.foldl larger n).toNat) ∧
      (runs.foldl larger n = n ∨
        ∃ r ∈ runs, r.bank ≠ PixelFile.unmappedBank ∧ r.bank = runs.foldl larger n) := by
  induction runs generalizing n with
  | nil => exact ⟨Nat.le_refl _, fun _ h => absurd h List.not_mem_nil, .inl rfl⟩
  | cons r runs ih =>
    obtain ⟨hle, hall, hmem⟩ := ih (larger n r)
    rw [List.foldl_cons]
    have hstep : n.toNat ≤ (larger n r).toNat ∧
        (r.bank ≠ PixelFile.unmappedBank → r.bank.toNat ≤ (larger n r).toNat) := by
      rw [larger]
      split
      · rename_i hlarger
        have hlt := UInt16.lt_iff_toNat_lt.mp hlarger.2
        exact ⟨by omega, fun _ => Nat.le_refl _⟩
      · rename_i hnot
        refine ⟨Nat.le_refl _, fun hbank => ?_⟩
        rw [not_and, UInt16.lt_iff_toNat_lt] at hnot
        have hge := hnot hbank
        omega
    refine ⟨by omega, ?_, ?_⟩
    · rw [List.forall_mem_cons]
      exact ⟨fun hbank => Nat.le_trans (hstep.2 hbank) hle, hall⟩
    · rcases hmem with heq | ⟨r', hr', hbank, heq⟩
      · rw [heq, larger]
        split
        · rename_i hlarger
          exact .inr ⟨r, List.mem_cons_self, hlarger.1, rfl⟩
        · exact .inl rfl
      · exact .inr ⟨r', List.mem_cons_of_mem _ hr', hbank, heq⟩

/-- The words behind a position. -/
theorem drop_words {payload pre post : List UInt32} {r : LogicalRun}
    (h : payload = pre ++ (r.words ++ post)) :
    payload.drop pre.length = r.logical :: r.bankWord :: (r.physicals ++ post) ∧
      payload.drop (pre.length + 1) = r.bankWord :: (r.physicals ++ post) := by
  have hdrop : payload.drop pre.length = r.logical :: r.bankWord :: (r.physicals ++ post) := by
    rw [h, List.drop_left]
    rfl
  refine ⟨hdrop, ?_⟩
  rw [← List.drop_drop, hdrop, List.drop_succ_cons, List.drop_zero]

/-- A walk goes on behind the section. -/
theorem next_words {payload pre : List UInt32} {r : LogicalRun} {runs : List LogicalRun}
    (h : payload = pre ++ runWords (r :: runs)) :
    payload = pre ++ (r.words ++ runWords runs) ∧
      payload = (pre ++ r.words) ++ runWords runs ∧
      (pre ++ r.words).length = pre.length + 2 + r.physicals.length ∧
      pre.length < payload.length := by
  rw [runWords_cons] at h
  refine ⟨h, by rw [h, List.append_assoc], ?_, ?_⟩
  · rw [List.length_append, LogicalRun.words, List.length_cons, List.length_cons]
    omega
  · rw [h, List.length_append, List.length_append, LogicalRun.words, List.length_cons]
    omega

theorem maxBankId_eq {payload : List UInt32} {runs : List LogicalRun} (hwf : ∀ r ∈ runs, r.Wf)
    (pre : List UInt32) (h : payload = pre ++ runWords runs) (fuel : Nat) (n : UInt16)
    (hfuel : runs.length < fuel) :
    maxBankId payload fuel pre.length n = some (runs.foldl larger n) := by
  induction runs generalizing pre fuel n with
  | nil =>
    obtain ⟨fuel, rfl⟩ : ∃ f, fuel = f + 1 := ⟨fuel - 1, by omega⟩
    have hend : payload.length = pre.length := by
      rw [h, List.length_append, runWords, List.flatMap_nil, List.length_nil, Nat.add_zero]
    rw [maxBankId, if_neg (by omega)]
    rfl
  | cons r runs ih =>
    obtain ⟨hr, hrest⟩ := List.forall_mem_cons.mp hwf
    obtain ⟨fuel, rfl⟩ : ∃ f, fuel = f + 1 := ⟨fuel - 1, by omega⟩
    obtain ⟨hhere, hnext, hlength, hlt⟩ := next_words h
    obtain ⟨hbank, hcount⟩ := r.bankWord_fields hr
    rw [List.length_cons] at hfuel
    rw [maxBankId, if_pos hlt, (drop_words hhere).2]
    simp only
    rw [hbank, hcount, ← hlength]
    exact ih hrest _ hnext fuel _ (by omega)

/-! ### Reading the sections -/

theorem pushLogical_eq (bank : UInt16) (logical : UInt32) (physicals : List UInt32)
    (bi : BankPixels) :
    pushLogical logical physicals bi =
      appendPixels bi (LogicalRun.entriesFrom bank logical physicals) := by
  induction physicals generalizing logical bi with
  | nil => simp [pushLogical, appendPixels, LogicalRun.entriesFrom]
  | cons p ps ih =>
    rw [pushLogical, ih, LogicalRun.entriesFrom, ← appendPixels_push]

variable {maxBank : Nat} {banks : BankTable BankPixels} {es : List Entry}

/-- A section is appended to its bank, or passed over if it is unmapped. -/
theorem readSection_run {payload pre post : List UInt32} {r : LogicalRun}
    (h : Holds maxBank banks es) (hr : r.Wf)
    (hle : r.bank ≠ PixelFile.unmappedBank → r.bank.toNat ≤ maxBank)
    (hpayload : payload = pre ++ (r.words ++ post)) :
    ∃ banks', readSection payload banks pre.length =
        some (banks', pre.length + 2 + r.physicals.length) ∧
      Holds maxBank banks' (es ++ mapped r.entries) := by
  obtain ⟨hbank, hcount⟩ := r.bankWord_fields hr
  rw [readSection, (drop_words hpayload).1]
  simp only [hbank, hcount]
  by_cases hunmapped : r.bank = PixelFile.unmappedBank
  · have hnone : mapped r.entries = [] := by
      rw [mapped, List.filter_eq_nil_iff]
      intro e he
      rw [r.bank_of_mem he, hunmapped]
      simp
    rw [if_pos hunmapped, hnone, List.append_nil]
    exact ⟨banks, rfl, h⟩
  · have hne : r.entries ≠ [] := by
      intro hnil
      have hlength := r.length_entries
      have hpos := hr.pos
      rw [hnil, List.length_nil] at hlength
      omega
    obtain ⟨banks₁, banks₂, hcreate, hbi, hwrite, hholds⟩ :=
      h.storeAll hne (fun _ he => r.bank_of_mem he) hunmapped (hle hunmapped)
    have hroom : r.physicals.length ≤ (r.physicals ++ post).length := by
      rw [List.length_append]
      omega
    refine ⟨banks₂, ?_, hholds⟩
    rw [if_neg hunmapped]
    simp only [hcreate, Option.bind_eq_bind, Option.bind_some, if_pos hroom, hbi, List.take_left,
      pushLogical_eq r.bank]
    rw [← LogicalRun.entries, hwrite]
    rfl

/-- All sections are read, up to the end of the payload. -/
theorem readSections_runs {payload : List UInt32} {runs : List LogicalRun}
    (h : Holds maxBank banks es) (hwf : ∀ r ∈ runs, r.Wf)
    (hle : ∀ r ∈ runs, r.bank ≠ PixelFile.unmappedBank → r.bank.toNat ≤ maxBank)
    (pre : List UInt32) (hpayload : payload = pre ++ runWords runs) (fuel : Nat)
    (hfuel : runs.length < fuel) :
    ∃ banks', readSections payload fuel banks pre.length = some (banks', payload.length) ∧
      Holds maxBank banks' (es ++ mapped (allPixels runs)) := by
  induction runs generalizing pre fuel banks es with
  | nil =>
    obtain ⟨fuel, rfl⟩ : ∃ f, fuel = f + 1 := ⟨fuel - 1, by omega⟩
    have hend : payload.length = pre.length := by
      rw [hpayload, List.length_append, runWords, List.flatMap_nil, List.length_nil, Nat.add_zero]
    refine ⟨banks, ?_, by simpa [allPixels, mapped] using h⟩
    rw [readSections, if_neg (by omega), hend]
  | cons r runs ih =>
    obtain ⟨hr, hrest⟩ := List.forall_mem_cons.mp hwf
    obtain ⟨hle₁, hle₂⟩ := List.forall_mem_cons.mp hle
    obtain ⟨fuel, rfl⟩ : ∃ f, fuel = f + 1 := ⟨fuel - 1, by omega⟩
    obtain ⟨hhere, hnext, hlength, hlt⟩ := next_words hpayload
    rw [List.length_cons] at hfuel
    obtain ⟨banks₁, hread, hholds⟩ := readSection_run h hr hle₁ hhere
    obtain ⟨banks₂, hreads, hholds'⟩ := ih hholds hrest hle₂ _ hnext fuel (by omega)
    refine ⟨banks₂, ?_, ?_⟩
    · rw [readSections, if_pos hlt]
      simp only [hread, Option.bind_eq_bind, Option.bind_some]
      rw [← hlength]
      exact hreads
    · rw [allPixels_cons, mapped_append, ← List.append_assoc]
      exact hholds'

/-- Without a bank array no section of a bank is read. -/
theorem readSection_new (payload : List UInt32) (rpos : Nat) :
    readSection payload (.new BankPixels) rpos = none ∨
      ∃ rpos', readSection payload (.new BankPixels) rpos = some (.new BankPixels, rpos') := by
  rw [readSection]
  split
  · rename_i baseLogical word rest heq
    split
    · exact .inr ⟨_, rfl⟩
    · exact .inl rfl
  · exact .inl rfl

theorem readSections_new (payload : List UInt32) (fuel rpos : Nat) :
    readSections payload fuel (.new BankPixels) rpos = none ∨
      ∃ rpos', readSections payload fuel (.new BankPixels) rpos =
        some (.new BankPixels, rpos') := by
  induction fuel generalizing rpos with
  | zero => exact .inl rfl
  | succ fuel ih =>
    rw [readSections]
    split
    · rcases readSection_new payload rpos with hnone | ⟨rpos', hsome⟩
      · rw [hnone]
        exact .inl rfl
      · rw [hsome]
        exact ih rpos'
    · exact .inr ⟨rpos, rfl⟩

/-! ### The round trip -/

/-- What is stored are just these pixels, each once, in some order. -/
def HasPixels (bi : Option BankPixels) (es : List Entry) : Prop :=
  ∃ es', es'.Perm es ∧ bi = stored es'

/-- The packet is read to the end of its payload, and gives every bank just the pixels the map
    has for it; so does the alternate packet of the map. -/
def RoundTrip (file : PixelFile) : Prop :=
  ∃ payload banks outcomes altBanks, genPacket file = some payload ∧
    rxPacket payload = some (banks, payload.length) ∧
    PixelMappingAlt.rxPacket (genAltPacket file) = some (outcomes, altBanks) ∧
    ∀ bank, bank ≠ PixelFile.unmappedBank →
      HasPixels (banks.find? (.bank bank.toNat 0)) (bankEntries file bank) ∧
        HasPixels (altBanks.find? (.bank bank.toNat 0)) (bankEntries file bank)

theorem length_le_runWords (runs : List LogicalRun) : runs.length ≤ (runWords runs).length := by
  induction runs with
  | nil => exact Nat.le_refl _
  | cons r runs ih =>
    rw [runWords_cons, List.length_append, LogicalRun.words, List.length_cons, List.length_cons]
    omega

/-- The packet is read back where the array of banks is allocated. -/
theorem rxPacket_runs {runs : List LogicalRun} (hwf : ∀ r ∈ runs, r.Wf)
    (hpos : 0 < (runs.foldl larger 0).toNat) :
    ∃ banks, rxPacket (runWords runs) = some (banks, (runWords runs).length) ∧
      ∀ bankId, banks.find? (.bank bankId 0) = stored (pixelsOf (mapped (allPixels runs)) bankId) := by
  have hfuel : runs.length < (runWords runs).length + 1 :=
    Nat.lt_succ_of_le (length_le_runWords runs)
  obtain ⟨banks, hbanks, hholds⟩ := exists_holds hpos
  obtain ⟨-, hle, -⟩ := foldl_larger runs 0
  obtain ⟨banks₁, hread, hholds₁⟩ := readSections_runs hholds hwf hle []
    (List.nil_append _).symm ((runWords runs).length + 1) hfuel
  obtain ⟨banks₂, banks₃, hunmapped, herror, hfind⟩ := hholds₁.createSpecial
  have hmax := maxBankId_eq hwf [] (List.nil_append _).symm ((runWords runs).length + 1) 0 hfuel
  rw [List.length_nil] at hmax hread
  refine ⟨banks₃, ?_, hfind⟩
  simp only [rxPacket, hmax, hbanks, hread, hunmapped, herror, Option.bind_eq_bind,
    Option.bind_some]

/-- No array is allocated for bank 0 alone. -/
theorem rxPacket_eq_none {runs : List LogicalRun} (hwf : ∀ r ∈ runs, r.Wf)
    (hzero : runs.foldl larger 0 = 0) : rxPacket (runWords runs) = none := by
  have hfuel : runs.length < (runWords runs).length + 1 :=
    Nat.lt_succ_of_le (length_le_runWords runs)
  have hmax := maxBankId_eq hwf [] (List.nil_append _).symm ((runWords runs).length + 1) 0 hfuel
  have hnew : (BankTable.new BankPixels).reallocateBanksArray (0 : UInt16).toNat 0 =
    some (.new BankPixels) := rfl
  rw [List.length_nil, hzero] at hmax
  simp only [rxPacket, hmax, hnew, Option.bind_eq_bind, Option.bind_some]
  rcases readSections_new (runWords runs) ((runWords runs).length + 1) 0 with
    hnone | ⟨rpos, hsome⟩
  · rw [hnone]
    rfl
  · rw [hsome]
    rfl

/-- Some pixel is mapped to a bank with an id above 0. -/
def HasBank (es : List Entry) : Prop := ∃ e ∈ es, e.2.2 ≠ PixelFile.unmappedBank ∧ 0 < e.2.2

theorem foldl_larger_eq_zero {runs : List LogicalRun} (hwf : ∀ r ∈ runs, r.Wf)
    (h : ¬ HasBank (allPixels runs)) : runs.foldl larger 0 = 0 := by
  obtain ⟨-, -, hmem⟩ := foldl_larger runs 0
  rcases hmem with heq | ⟨r, hr, hbank, heq⟩
  · exact heq
  · by_contra hne
    obtain ⟨e, he⟩ : ∃ e, e ∈ r.entries := by
      apply List.exists_mem_of_length_pos
      rw [r.length_entries]
      exact (hwf r hr).pos
    have hpos : 0 < e.2.2 := by
      rw [r.bank_of_mem he, heq]
      exact UInt16.pos_iff_ne_zero.mpr hne
    exact h ⟨e, List.mem_flatMap.mpr ⟨r, hr, he⟩, r.bank_of_mem he ▸ hbank, hpos⟩

theorem foldl_larger_pos {runs : List LogicalRun} (h : HasBank (allPixels runs)) :
    0 < (runs.foldl larger 0).toNat := by
  obtain ⟨e, he, hbank, hpos⟩ := h
  obtain ⟨r, hr, her⟩ := List.mem_flatMap.mp he
  obtain ⟨-, hle, -⟩ := foldl_larger runs 0
  rw [r.bank_of_mem her] at hbank hpos
  have hle' := hle r hr hbank
  rw [UInt16.lt_iff_toNat_lt] at hpos
  exact Nat.lt_of_lt_of_le hpos hle'

/-- Three pixels of two banks, with a gap and a step down. -/
def threePixels : PixelFile where
  map := ⟨[(7, 4, 1), (8, 3, 1), (20, 9, 2)], by decide⟩
  allowNonOneToOne := false
  nonempty := by simp
  oneToOne := by decide

end Adara.Spec.PixelPacket
