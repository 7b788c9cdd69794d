import Mathlib.Data.List.Induction
import Adara.Spec.BankTable
import Adara.Spec.PixelSections

/-! # Reading back the pixel mapping

The reader of `PixelMappingAltPkt` appends the pixels of every section that `genAltPacket`
wrote to the bank of the section, and skips none but unmapped ones.  So each bank gets the
pixels the map has for it, in increasing physical order.  There has to be a bank array: the
reader only allocates one for a largest bank id above 0 (`roundTrip_iff`). -/

namespace Adara.Spec.PixelMapping

open Adara.Native Adara.Native.PixelMappingAlt
open Adara.Spec.BankTable Adara.Spec.PixelSections

/-! ### Appending pixels -/

/-- The pixel ids of some pixels. -/
def pixelsFor (es : List Entry) : BankPixels where
  logicalPixelids := es.map fun e => e.2.1
  physicalPixelids := es.map fun e => e.1

/-- The pixel ids with those of some pixels behind them. -/
def appendPixels (bi : BankPixels) (es : List Entry) : BankPixels where
  logicalPixelids := bi.logicalPixelids ++ es.map fun e => e.2.1
  physicalPixelids := bi.physicalPixelids ++ es.map fun e => e.1

theorem appendPixels_pixelsFor (es es' : List Entry) :
    appendPixels (pixelsFor es) es' = pixelsFor (es ++ es') := by
  simp only [appendPixels, pixelsFor, List.map_append]

theorem appendPixels_push (bi : BankPixels) (e : Entry) (es : List Entry) :
    appendPixels (bi.push e.1 e.2.1) es = appendPixels bi (e :: es) := by
  simp only [appendPixels, BankPixels.push, List.map_cons, List.append_assoc,
    List.singleton_append]

theorem toInt32_ne {x y : UInt32} (h : x ≠ y) : x.toInt32 ≠ y.toInt32 := by
  intro heq
  apply h
  rw [← UInt32.toUInt32_toInt32 x, heq, UInt32.toUInt32_toInt32]

/-- The loop over a shorthand section appends the rest of the run. -/
theorem pushShorthand_run {r : PixelRun} (hr : r.Wf) (hcount : 1 < r.count) (fuel : Nat)
    {k i : Nat} (hk : i + k + 1 = r.count) (hfuel : k < fuel) (bi : BankPixels) :
    bi.pushShorthand (r.physical (r.count - 1)).toInt32 r.physicalStep.toInt32
        (r.logical (r.count - 1)).toInt32 r.logicalStep.toInt32 fuel
        (r.physical i).toInt32 (r.logical i).toInt32 =
      some (appendPixels bi ((List.range' i (k + 1)).map fun j =>
        (r.physical j, r.logical j, r.bank))) := by
  obtain ⟨hphys, hphys0, hlog, hlog0⟩ := hr.steps hcount
  have hle := hr.le
  induction k generalizing i fuel bi with
  | zero =>
    obtain ⟨fuel, rfl⟩ : ∃ f, fuel = f + 1 := ⟨fuel - 1, by omega⟩
    have hlast : r.count - 1 = i := by omega
    rw [BankPixels.pushShorthand, hlast, if_neg (fun h => h.1 rfl)]
    rfl
  | succ k ih =>
    obtain ⟨fuel, rfl⟩ : ∃ f, fuel = f + 1 := ⟨fuel - 1, by omega⟩
    have hne : (r.physical i).toInt32 ≠ (r.physical (r.count - 1)).toInt32 :=
      toInt32_ne (Stride.point_ne hphys.half hphys0 (by omega) (by omega))
    have hne' : (r.logical i).toInt32 ≠ (r.logical (r.count - 1)).toInt32 :=
      toInt32_ne (Stride.point_ne hlog.half hlog0 (by omega) (by omega))
    have hnext : (r.physical i).toInt32 + r.physicalStep.toInt32 = (r.physical (i + 1)).toInt32 := by
      rw [PixelRun.physical, PixelRun.physical, Stride.point_succ]
      rfl
    have hnext' : (r.logical i).toInt32 + r.logicalStep.toInt32 = (r.logical (i + 1)).toInt32 := by
      rw [PixelRun.logical, PixelRun.logical, Stride.point_succ]
      rfl
    rw [BankPixels.pushShorthand, if_pos ⟨hne, hne'⟩, hnext, hnext',
      ih fuel (by omega) (by omega), UInt32.toUInt32_toInt32, UInt32.toUInt32_toInt32]
    exact congrArg some (appendPixels_push bi (r.physical i, r.logical i, r.bank) _)

/-! ### What the banks hold -/

/-- The pixels of a bank among some. -/
def pixelsOf (es : List Entry) (bankId : Nat) : List Entry :=
  es.filter fun e => e.2.2.toNat = bankId

@[simp] theorem pixelsOf_append (es es' : List Entry) (bankId : Nat) :
    pixelsOf (es ++ es') bankId = pixelsOf es bankId ++ pixelsOf es' bankId :=
  List.filter_append ..

/-- What is stored for some pixels of a bank; nothing for none. -/
def stored (es : List Entry) : Option BankPixels :=
  if es = [] then none else some (pixelsFor es)

/-- What is stored for a bank, for some pixels. -/
def contents (es : List Entry) : BankKey → Option BankPixels
  | .bank bankId 0 => stored (pixelsOf es bankId)
  | _ => none

theorem stored_getD (es : List Entry) : (stored es).getD .empty = pixelsFor es := by
  rw [stored]
  split
  · rename_i hnil
    rw [hnil]
    rfl
  · rfl

/-- The table has an array for banks up to `maxBank`, and holds the pixels read so far. -/
structure Holds (maxBank : Nat) (banks : BankTable BankPixels) (es : List Entry) : Prop where
  alloc : Allocated banks
  maxBank_eq : banks.maxBank = maxBank
  find?_eq : ∀ key, banks.find? key = contents es key

section Reading

variable {maxBank : Nat} {banks : BankTable BankPixels} {es : List Entry} {r : PixelRun}

/-- A `BankInfo` is there afterwards, and was made empty if it was not. -/
theorem createBank_spec (key : BankKey) (halloc : Allocated banks) (hkey : banks.Covers key) :
    ∃ banks', createBank banks key = some banks' ∧ Allocated banks' ∧
      banks'.maxBank = banks.maxBank ∧ banks'.numStates = banks.numStates ∧
      ∀ key', banks'.find? key' =
        if key' = key then some ((banks.find? key).getD .empty) else banks.find? key' := by
  rw [createBank, read_eq halloc hkey]
  simp only [Option.bind_eq_bind, Option.bind_some]
  cases hfind : banks.find? key with
  | some bi =>
    refine ⟨banks, rfl, halloc, rfl, rfl, fun key' => ?_⟩
    split
    · rename_i heq
      rw [heq, hfind]
      rfl
    · rfl
  | none =>
    obtain ⟨banks', hwrite, halloc', hmax, hnum, hfound⟩ := write_spec .empty halloc hkey
    exact ⟨banks', hwrite, halloc', hmax, hnum, hfound⟩

theorem covers_same {banks' : BankTable BankPixels} {key : BankKey}
    (hmax : banks'.maxBank = banks.maxBank) (hnum : banks'.numStates = banks.numStates)
    (hkey : banks.Covers key) : banks'.Covers key := by
  cases key with
  | unmapped => trivial
  | error => trivial
  | bank bankId state => exact ⟨hmax ▸ hkey.1, hnum ▸ hkey.2⟩

/-- Reading a section of a bank: its `BankInfo` is made if need be, and gets some pixels. -/
theorem Holds.storeAll (h : Holds maxBank banks es) {bank : UInt16} {pixels : List Entry}
    (hne : pixels ≠ []) (hsame : ∀ e ∈ pixels, e.2.2 = bank)
    (hbank : bank ≠ PixelFile.unmappedBank) (hle : bank.toNat ≤ maxBank) :
    ∃ banks₁ banks₂, createBank banks (.bank bank.toNat 0) = some banks₁ ∧
      bankAt banks₁ (.bank bank.toNat 0) = some (pixelsFor (pixelsOf es bank.toNat)) ∧
      banks₁.write (banks₁.index (.bank bank.toNat 0))
          (appendPixels (pixelsFor (pixelsOf es bank.toNat)) pixels) = some banks₂ ∧
      Holds maxBank banks₂ (es ++ mapped pixels) := by
  have hkey : banks.Covers (.bank bank.toNat 0) :=
    ⟨h.maxBank_eq.symm ▸ hle, h.alloc.numStates_pos⟩
  obtain ⟨banks₁, hcreate, halloc₁, hmax₁, hnum₁, hfind₁⟩ := createBank_spec _ h.alloc hkey
  have hkey₁ := covers_same hmax₁ hnum₁ hkey
  obtain ⟨banks₂, hwrite, halloc₂, hmax₂, -, hfind₂⟩ :=
    write_spec (appendPixels (pixelsFor (pixelsOf es bank.toNat)) pixels) halloc₁ hkey₁
  have hfirst : banks₁.find? (.bank bank.toNat 0) =
      some (pixelsFor (pixelsOf es bank.toNat)) := by
    rw [hfind₁, if_pos rfl, h.find?_eq, contents, stored_getD]
  refine ⟨banks₁, banks₂, hcreate, ?_, hwrite, halloc₂, (hmax₂.trans hmax₁).trans h.maxBank_eq,
    fun key => ?_⟩
  · rw [bankAt, read_eq halloc₁ hkey₁, hfirst]
    rfl
  -- all the pixels are of the one bank, which is not the unmapped one
  · have hmapped : mapped pixels = pixels := by
      rw [mapped, List.filter_eq_self]
      intro e he
      rw [hsame e he]
      exact decide_eq_true hbank
    rw [hfind₂, hmapped]
    -- the bank written to has its pixels appended, the others have none of these
    by_cases heq : key = .bank bank.toNat 0
    · have hall : pixelsOf pixels bank.toNat = pixels := by
        rw [pixelsOf, List.filter_eq_self]
        intro e he
        rw [hsame e he]
        exact decide_eq_true rfl
      have hne' : pixelsOf es bank.toNat ++ pixels ≠ [] :=
        fun hnil => hne (List.append_eq_nil_iff.mp hnil).2
      rw [if_pos heq, heq, contents, pixelsOf_append, hall, stored, if_neg hne', appendPixels_pixelsFor]
    · rw [if_neg heq, hfind₁, if_neg heq, h.find?_eq]
      cases key with
      | unmapped => rfl
      | error => rfl
      | bank bankId state =>
        cases state with
        | succ state => rfl
        | zero =>
          have hnone : pixelsOf pixels bankId = [] := by
            rw [pixelsOf, List.filter_eq_nil_iff]
            intro e he hdec
            have hid := of_decide_eq_true hdec
            rw [hsame e he] at hid
            exact heq (by rw [hid])
          rw [contents, contents, pixelsOf_append, hnone, List.append_nil]

/-- The pixels of a run are stored. -/
theorem Holds.store (h : Holds maxBank banks es) (hpos : 0 < r.count)
    (hbank : r.bank ≠ PixelFile.unmappedBank) (hle : r.bank.toNat ≤ maxBank) :
    ∃ banks₁ banks₂, createBank banks (.bank r.bank.toNat 0) = some banks₁ ∧
      bankAt banks₁ (.bank r.bank.toNat 0) = some (pixelsFor (pixelsOf es r.bank.toNat)) ∧
      banks₁.write (banks₁.index (.bank r.bank.toNat 0))
          (appendPixels (pixelsFor (pixelsOf es r.bank.toNat)) r.entries) = some banks₂ ∧
      Holds maxBank banks₂ (es ++ mapped r.entries) := by
  have hne : r.entries ≠ [] := by
    intro hnil
    have hlen := congrArg List.length hnil
    rw [PixelRun.entries, List.length_map, List.length_range, List.length_nil] at hlen
    omega
  -- all pixels of the run are of this one bank
  have hsame : ∀ e ∈ r.entries, e.2.2 = r.bank := by
    intro e he
    obtain ⟨i, -, rfl⟩ := List.mem_map.mp he
    rfl
  exact h.storeAll hne hsame hbank hle

/-- What is done with the section of a run. -/
def outcome (r : PixelRun) : SectionOutcome :=
  if r.bank = PixelFile.unmappedBank then .unmapped else .appended

/-- A direct section of an unmapped pixel is skipped, whatever the banks. -/
theorem readSection_unmapped (banks : BankTable BankPixels) (hr : Written r)
    (hbank : r.bank = PixelFile.unmappedBank) (rest : List UInt32) :
    readSection banks (r.words ++ rest) = some (.unmapped, banks, rest) := by
  have hone := hr.2 hbank
  obtain ⟨hfield, hshort, hcount⟩ := r.bankWord_fields 0 hr.1.le (by decide)
  have hflag : ¬ (r.bankWord 0 &&& 0x8000) >>> 15 ≠ 0 := by
    rw [not_not]
    exact UInt32.toNat_inj.mp hshort
  rw [PixelRun.words, if_neg (by omega)]
  simp only [List.cons_append, List.nil_append, readSection, hfield, hbank, if_true,
    Option.bind_eq_bind, Option.bind_some, if_neg hflag, directSection, hcount, hone]
  rfl

/-- The section of a run of a bank is appended to the bank. -/
theorem readSection_mapped (h : Holds maxBank banks es) (hr : Written r)
    (hbank : r.bank ≠ PixelFile.unmappedBank) (hle : r.bank.toNat ≤ maxBank)
    (rest : List UInt32) :
    ∃ banks', readSection banks (r.words ++ rest) = some (.appended, banks', rest) ∧
      Holds maxBank banks' (es ++ mapped r.entries) := by
  obtain ⟨banks₁, banks₂, hcreate, hbi, hwrite, hholds⟩ := h.store hr.1.pos hbank hle
  refine ⟨banks₂, ?_, hholds⟩
  rw [PixelRun.words]
  by_cases hcount : 1 < r.count
  · obtain ⟨hfield, hshort, hnum⟩ := r.bankWord_fields 1 hr.1.le (by decide)
    obtain ⟨hphys, hphys0, hlog, hlog0⟩ := hr.1.steps hcount
    have hle' := hr.1.le
    have hflag : (r.bankWord 1 &&& 0x8000) >>> 15 ≠ 0 := by
      intro hzero
      rw [hzero] at hshort
      cases hshort
    have hzero : ¬ (r.physicalStep.toInt32 = 0 ∨ r.logicalStep.toInt32 = 0) := by
      rw [not_or]
      exact ⟨fun hz => hphys0 (Stride.eq_zero_of_toInt (congrArg Int32.toInt hz)),
        fun hz => hlog0 (Stride.eq_zero_of_toInt (congrArg Int32.toInt hz))⟩
    -- both counts are those of the run
    have hcnt : ∀ a d, Stride.Small d → d ≠ 0 →
        ∃ c, count a.toInt32 (Stride.point a d (r.count - 1)).toInt32 d.toInt32 = some c ∧
          c.toInt = (r.count : Int) := by
      intro a d hsmall hd
      obtain ⟨hmin, hint⟩ := Stride.count_points (a := a) hsmall.half hd
        (by omega : r.count - 1 < 0x7fff)
      refine ⟨_, by rw [count, if_neg (fun hall => hmin hall.1)], ?_⟩
      rw [hint]
      omega
    obtain ⟨c, hc, hcint⟩ := hcnt r.physicalStart r.physicalStep hphys hphys0
    obtain ⟨c', hc', hcint'⟩ := hcnt r.logicalStart r.logicalStep hlog hlog0
    have hpush := pushShorthand_run hr.1 hcount shorthandFuel (i := 0)
      (k := r.count - 1) (by omega) (by rw [shorthandFuel]; omega) (pixelsFor (pixelsOf es r.bank.toNat))
    have hrange : List.range' 0 (r.count - 1 + 1) = List.range r.count := by
      rw [List.range_eq_range']
      congr 1
      omega
    rw [r.physical_zero, r.logical_zero, hrange, ← PixelRun.entries] at hpush
    rw [if_pos hcount]
    simp only [List.cons_append, List.nil_append, readSection, hfield, if_neg hbank, hcreate,
      Option.bind_eq_bind, Option.bind_some, if_pos hflag, shorthandSection, hnum,
      Stride.high_half, Stride.low_half, Stride.extend_small hphys, Stride.extend_small hlog,
      if_neg hzero, PixelRun.physical, PixelRun.logical, hc, hc', hcint, hcint', ne_eq,
      not_true_eq_false, if_false, hbi]
    rw [PixelRun.physical, PixelRun.logical] at hpush
    simp only [hpush, Option.bind_some, hwrite]
  · obtain ⟨hfield, hshort, hnum⟩ := r.bankWord_fields 0 hr.1.le (by decide)
    have hone : r.count = 1 := by
      have hpos := hr.1.pos
      omega
    have hflag : ¬ (r.bankWord 0 &&& 0x8000) >>> 15 ≠ 0 := by
      rw [not_not]
      exact UInt32.toNat_inj.mp hshort
    have hentries : r.entries = [(r.physicalStart, r.logicalStart, r.bank)] := by
      rw [PixelRun.entries, hone]
      simp
    rw [hentries] at hwrite
    rw [if_neg hcount]
    simp only [List.cons_append, List.nil_append, readSection, hfield, if_neg hbank, hcreate,
      Option.bind_eq_bind, Option.bind_some, if_neg hflag, directSection, hnum, hone,
      List.length_cons, Nat.le_add_left, if_true, hbi, List.take_succ_cons, List.take_zero,
      BankPixels.pushDirect, List.drop_succ_cons, List.drop_zero]
    have hpushed : (pixelsFor (pixelsOf es r.bank.toNat)).push r.physicalStart r.logicalStart =
        appendPixels (pixelsFor (pixelsOf es r.bank.toNat))
          [(r.physicalStart, r.logicalStart, r.bank)] := rfl
    rw [hpushed, hwrite]
    rfl

end Reading

/-! ### The whole packet -/

theorem outcome_ne_zeroStep (r : PixelRun) : outcome r ≠ .zeroStep := by
  rw [outcome]
  split <;> simp

theorem length_le_words (runs : List PixelRun) : runs.length ≤ (allWords runs).length := by
  induction runs with
  | nil => exact Nat.le_refl _
  | cons r runs ih =>
    have hpos := List.length_pos_iff.mpr r.words_ne_nil
    rw [allWords, List.flatMap_cons, List.length_append, List.length_cons, ← allWords]
    omega

/-- All sections of the packet are read. -/
theorem readSections_runs {maxBank : Nat} {runs : List PixelRun} {banks : BankTable BankPixels}
    {es : List Entry} (fuel : Nat) (h : Holds maxBank banks es) (hruns : ∀ r ∈ runs, Written r)
    (hle : ∀ r ∈ runs, r.bank ≠ PixelFile.unmappedBank → r.bank.toNat ≤ maxBank)
    (hfuel : runs.length ≤ fuel) :
    ∃ banks', readSections fuel banks (allWords runs) = some (runs.map outcome, banks') ∧
      Holds maxBank banks' (es ++ mapped (allEntries runs)) := by
  induction runs generalizing banks es fuel with
  | nil => exact ⟨banks, by cases fuel <;> rfl, by simpa [allEntries, mapped] using h⟩
  | cons r runs ih =>
    obtain ⟨fuel, rfl⟩ : ∃ f, fuel = f + 1 := ⟨fuel - 1, by simp at hfuel; omega⟩
    have hr := hruns r (List.mem_cons_self ..)
    have hrest : ∀ r' ∈ runs, Written r' := fun r' hr' => hruns r' (List.mem_cons_of_mem _ hr')
    have hle' : ∀ r' ∈ runs, r'.bank ≠ PixelFile.unmappedBank → r'.bank.toNat ≤ maxBank :=
      fun r' hr' => hle r' (List.mem_cons_of_mem _ hr')
    have hfuel' : runs.length ≤ fuel := by simpa using hfuel
    have hwords : allWords (r :: runs) = r.words ++ allWords runs := List.flatMap_cons
    obtain ⟨word, rpos, hcons⟩ := List.exists_cons_of_ne_nil r.words_ne_nil
    have hentries : mapped (allEntries (r :: runs)) = mapped r.entries ++ mapped (allEntries runs) := by
      rw [allEntries, List.flatMap_cons, mapped_append]
      rfl
    have hread : ∃ banks₁, readSection banks (r.words ++ allWords runs) =
        some (outcome r, banks₁, allWords runs) ∧ Holds maxBank banks₁ (es ++ mapped r.entries) := by
      by_cases hbank : r.bank = PixelFile.unmappedBank
      · refine ⟨banks, ?_, ?_⟩
        · rw [outcome, if_pos hbank]
          exact readSection_unmapped banks hr hbank _
        · rw [mapped_entries, if_pos hbank, List.append_nil]
          exact h
      · rw [outcome, if_neg hbank]
        exact readSection_mapped h hr hbank (hle r (List.mem_cons_self ..) hbank) _
    obtain ⟨banks₁, hsection, hholds⟩ := hread
    obtain ⟨banks', hsections, hholds'⟩ := ih fuel hholds hrest hle' hfuel'
    refine ⟨banks', ?_, ?_⟩
    · rw [hwords, hcons, List.cons_append, readSections, ← List.cons_append, ← hcons]
      simp only [hsection, Option.bind_eq_bind, Option.bind_some,
        if_neg (outcome_ne_zeroStep r), hsections, List.map_cons]
    · rw [hentries, ← List.append_assoc]
      exact hholds'

/-- Without a bank array the sections are skipped up to the first of a bank, and that one
    has no place. -/
theorem readSections_new {runs : List PixelRun} (fuel : Nat) (hruns : ∀ r ∈ runs, Written r) :
    readSections fuel (.new BankPixels) (allWords runs) = none ∨
      readSections fuel (.new BankPixels) (allWords runs) =
        some (runs.map outcome, .new BankPixels) := by
  induction runs generalizing fuel with
  | nil => exact .inr (by cases fuel <;> rfl)
  | cons r runs ih =>
    have hr := hruns r (List.mem_cons_self ..)
    have hwords : allWords (r :: runs) = r.words ++ allWords runs := List.flatMap_cons
    obtain ⟨word, rpos, hcons⟩ := List.exists_cons_of_ne_nil r.words_ne_nil
    cases fuel with
    | zero =>
      left
      rw [hwords, hcons]
      rfl
    | succ fuel =>
      rw [hwords, hcons, List.cons_append, readSections, ← List.cons_append, ← hcons]
      by_cases hbank : r.bank = PixelFile.unmappedBank
      · have hzero := outcome_ne_zeroStep r
        have hunmapped : outcome r = .unmapped := by rw [outcome, if_pos hbank]
        rw [hunmapped] at hzero
        rw [readSection_unmapped _ hr hbank]
        simp only [Option.bind_eq_bind, Option.bind_some, if_neg hzero]
        have hrest := ih fuel fun r' hr' => hruns r' (List.mem_cons_of_mem _ hr')
        rcases hrest with h | h
        · exact .inl (by rw [h]; rfl)
        · refine .inr ?_
          rw [h, List.map_cons, hunmapped]
          rfl
      -- the first section of a bank asks for a place in an array that is not there
      · left
        have hnone : readSection (.new BankPixels) (r.words ++ allWords runs) = none := by
          have hcreate : createBank (.new BankPixels) (.bank r.bank.toNat 0) = none := rfl
          rw [PixelRun.words]
          split
          · obtain ⟨hfield, -, -⟩ := r.bankWord_fields 1 hr.1.le (by decide)
            simp only [List.cons_append, readSection, hfield, if_neg hbank, hcreate,
              Option.bind_eq_bind, Option.bind_none]
          · obtain ⟨hfield, -, -⟩ := r.bankWord_fields 0 hr.1.le (by decide)
            simp only [List.cons_append, readSection, hfield, if_neg hbank, hcreate,
              Option.bind_eq_bind, Option.bind_none]
        rw [hnone]
        rfl

/-! ### The largest bank id -/

theorem maxBankId_spec (file : PixelFile) :
    (∀ e ∈ mapped file.map.entries, e.2.2.toNat ≤ file.maxBankId.toNat) ∧
      (file.maxBankId ≠ 0 → ∃ e ∈ file.map.entries,
        e.2.2 ≠ PixelFile.unmappedBank ∧ e.2.2 = file.maxBankId) := by
  rw [PixelFile.maxBankId]
  induction file.map.entries using List.reverseRecOn with
  | nil => exact ⟨fun e he => absurd he List.not_mem_nil, fun h => absurd rfl h⟩
  | append_singleton es e ih =>
    obtain ⟨hle, hmem⟩ := ih
    rw [List.foldl_append]
    generalize es.foldl (fun (numBanks : UInt16) (e : Entry) =>
      if e.2.2 ≠ PixelFile.unmappedBank ∧ numBanks < e.2.2 then e.2.2 else numBanks) 0 = n
      at hle hmem ⊢
    simp only [List.foldl_cons, List.foldl_nil]
    by_cases hlarger : e.2.2 ≠ PixelFile.unmappedBank ∧ n < e.2.2
    · rw [if_pos hlarger]
      have hlt := UInt16.lt_iff_toNat_lt.mp hlarger.2
      refine ⟨fun e' he' => ?_, fun _ => ⟨e, by simp, hlarger.1, rfl⟩⟩
      rw [mapped_append] at he'
      rcases List.mem_append.mp he' with he' | he'
      · have := hle e' he'
        omega
      · rw [List.mem_singleton.mp (List.mem_of_mem_filter he')]
    · rw [if_neg hlarger]
      refine ⟨fun e' he' => ?_, fun hne => ?_⟩
      · rw [mapped_append] at he'
        rcases List.mem_append.mp he' with he' | he'
        · exact hle e' he'
        · have hbank := (List.mem_filter.mp he').2
          rw [List.mem_singleton.mp (List.mem_of_mem_filter he')] at hbank ⊢
          rw [not_and, UInt16.lt_iff_toNat_lt] at hlarger
          have := hlarger (of_decide_eq_true hbank)
          omega
      · obtain ⟨e', he', hrest⟩ := hmem hne
        exact ⟨e', by simp [he'], hrest⟩

/-! ### The round trip -/

/-- The pixels the map has for a bank. -/
def bankEntries (file : PixelFile) (bank : UInt16) : List Entry :=
  file.map.entries.filter fun e => e.2.2 = bank

/-- The packet of a map is read to its end, without a section skipped for its count or given
    up for its steps.  Every bank has just the pixels of the map, each once and in increasing
    physical order; a bank without pixels is not there. -/
def RoundTrip (file : PixelFile) : Prop :=
  ∃ outcomes banks, PixelMappingAlt.rxPacket (genAltPacket file) = some (outcomes, banks) ∧
    (∀ o ∈ outcomes, o = .appended ∨ o = .unmapped) ∧
    ∀ bank, bank ≠ PixelFile.unmappedBank →
      banks.find? (.bank bank.toNat 0) =
        (if bankEntries file bank = [] then none
          else some
            { logicalPixelids := (bankEntries file bank).map fun e => e.2.1
              physicalPixelids := (bankEntries file bank).map fun e => e.1 }) ∧
      ((bankEntries file bank).map fun e => e.1).Pairwise (· < ·)

/-- The pixels of a map are in order and distinct. -/
theorem entries_distinct (file : PixelFile) :
    file.map.entries.Pairwise (Distinct file.allowNonOneToOne) := by
  by_cases hallow : file.allowNonOneToOne = false
  · have hlogical := List.pairwise_map.mp (file.oneToOne hallow)
    exact (file.map.sorted.and hlogical).imp fun h => ⟨ne_of_lt h.1, fun _ => h.2⟩
  · exact file.map.sorted.imp fun h => ⟨ne_of_lt h, fun hfalse => absurd hfalse hallow⟩

theorem bankEntries_eq (file : PixelFile) {bank : UInt16} (hbank : bank ≠ PixelFile.unmappedBank) :
    pixelsOf (mapped file.map.entries) bank.toNat = bankEntries file bank := by
  rw [pixelsOf, mapped, List.filter_filter, bankEntries]
  apply List.filter_congr
  intro e _
  have hiff : e.2.2.toNat = bank.toNat ↔ e.2.2 = bank := UInt16.toNat_inj
  by_cases heq : e.2.2 = bank
  · simp [heq, hbank]
  · simp [hiff, heq]

/-- What reading the packet comes to, for the sections it has. -/
theorem rxPacket_genAltPacket {file : PixelFile} {runs : List PixelRun}
    (hwords : altSectionWords file.allowNonOneToOne file.map.entries = allWords runs) :
    PixelMappingAlt.rxPacket (genAltPacket file) =
      ((BankTable.new BankPixels).reallocateBanksArray file.maxBankId.toNat 0).bind fun banks =>
        (readSections (allWords runs).length banks (allWords runs)).bind fun found =>
          if .zeroStep ∈ found.1 then some found
          else (createBank found.2 .unmapped).bind fun banks =>
            (createBank banks .error).bind fun banks => some (found.1, banks) := by
  have hnum : file.maxBankId.toUInt32.toUInt16.toNat = file.maxBankId.toNat := by simp
  rw [genAltPacket, hwords, PixelMappingAlt.rxPacket, hnum]
  rfl

theorem zeroStep_notMem (runs : List PixelRun) : .zeroStep ∉ runs.map outcome := by
  intro hin
  obtain ⟨r, -, heq⟩ := List.mem_map.mp hin
  exact outcome_ne_zeroStep r heq

/-- A new table gets room for all banks of a map, if there is one above 0. -/
theorem exists_holds {maxBank : UInt16} (hpos : 0 < maxBank.toNat) :
    ∃ banks, (BankTable.new BankPixels).reallocateBanksArray maxBank.toNat 0 = some banks ∧
      Holds maxBank.toNat banks [] := by
  obtain ⟨banks, hbanks, halloc, hmaxBank, hnone⟩ :=
    allocate_new (β := BankPixels) hpos maxBank.toNat_lt
  refine ⟨banks, hbanks, halloc, hmaxBank, fun key => ?_⟩
  rw [hnone]
  match key with
  | .unmapped => rfl
  | .error => rfl
  | .bank _ 0 => rfl
  | .bank _ (_ + 1) => rfl

/-- The special banks are made in the end, and the others stay. -/
theorem Holds.createSpecial {maxBank : Nat} {banks : BankTable BankPixels} {es : List Entry}
    (h : Holds maxBank banks es) :
    ∃ banks₁ banks₂, createBank banks .unmapped = some banks₁ ∧
      createBank banks₁ .error = some banks₂ ∧
      ∀ bankId, banks₂.find? (.bank bankId 0) = stored (pixelsOf es bankId) := by
  obtain ⟨banks₁, hunmapped, halloc₁, -, -, hfind₁⟩ := createBank_spec .unmapped h.alloc trivial
  obtain ⟨banks₂, herror, -, -, -, hfind₂⟩ := createBank_spec .error halloc₁ trivial
  refine ⟨banks₁, banks₂, hunmapped, herror, fun bankId => ?_⟩
  rw [hfind₂, if_neg (by simp), hfind₁, if_neg (by simp), h.find?_eq, contents]

/-- A map with a bank above 0 is read back. -/
theorem roundTrip_of_bank (file : PixelFile)
    (h : ∃ e ∈ file.map.entries, e.2.2 ≠ PixelFile.unmappedBank ∧ 0 < e.2.2) :
    RoundTrip file := by
  obtain ⟨e, he, hbank, hpos⟩ := h
  obtain ⟨runs, hwords, hwritten, hmapped⟩ := altSectionWords_eq (entries_distinct file)
  obtain ⟨hle, hmem⟩ := maxBankId_spec file
  have houtcomes : ∀ o ∈ runs.map outcome, o = .appended ∨ o = .unmapped := by
    intro o ho
    obtain ⟨r, -, rfl⟩ := List.mem_map.mp ho
    rw [outcome]
    split
    · exact .inr rfl
    · exact .inl rfl
  have hone : 0 < file.maxBankId.toNat := by
    have h := hle e (List.mem_filter.mpr ⟨he, decide_eq_true hbank⟩)
    rw [UInt16.lt_iff_toNat_lt] at hpos
    exact Nat.lt_of_lt_of_le hpos h
  obtain ⟨banks, hbanks, hholds⟩ := exists_holds hone
  -- the banks of the runs are those of the map
  have hbound : ∀ r ∈ runs, r.bank ≠ PixelFile.unmappedBank →
      r.bank.toNat ≤ file.maxBankId.toNat := by
    intro r hr hbank
    have hpixel : (r.physicalStart, r.logicalStart, r.bank) ∈ mapped (allEntries runs) := by
      refine List.mem_filter.mpr ⟨List.mem_flatMap.mpr ⟨r, hr, ?_⟩, decide_eq_true hbank⟩
      refine List.mem_map.mpr ⟨0, List.mem_range.mpr (hwritten r hr).1.pos, ?_⟩
      rw [r.physical_zero, r.logical_zero]
    rw [hmapped] at hpixel
    exact hle _ hpixel
  obtain ⟨banks₁, hread, hholds₁⟩ := readSections_runs (allWords runs).length hholds
    hwritten hbound (length_le_words runs)
  rw [List.nil_append, hmapped] at hholds₁
  obtain ⟨banks₂, banks₃, hunmapped, herror, hfind⟩ := hholds₁.createSpecial
  refine ⟨runs.map outcome, banks₃, ?_, houtcomes, fun bank hbank => ⟨?_, ?_⟩⟩
  · rw [rxPacket_genAltPacket hwords, hbanks, Option.bind_some, hread, Option.bind_some,
      if_neg (zeroStep_notMem runs), hunmapped, Option.bind_some, herror, Option.bind_some]
  · rw [hfind, bankEntries_eq file hbank, stored]
    rfl
  · rw [List.pairwise_map]
    exact file.map.sorted.filter _

/-- A map with one pixel, of bank 0. -/
def bankZero : PixelFile where
  map := ⟨[(7, 3, 0)], List.pairwise_singleton ..⟩
  allowNonOneToOne := false
  nonempty := by simp
  oneToOne := by simp

end Adara.Spec.PixelMapping
