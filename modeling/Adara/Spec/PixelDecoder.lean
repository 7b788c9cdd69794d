import Adara.ForStd.Stride
import Adara.Spec.PixelMapping

/-! # Decoding any pixel mapping

The reader of a `PixelMappingAltPkt` believes most of what the payload says: that a section is
complete, that its bank is among those the packet makes room for, and that the ranges of a
shorthand section end where they say.  It checks the number of pixels of the two ranges; but a
range whose length is no multiple of its step has the same number, and its end is never met.
`Decodable` is what a payload has to have, and just then every section that is not skipped
appends as many pixels as it announces to one bank (`robust_iff`). -/

namespace Adara.Spec.PixelDecoder

open Adara.Native Adara.Native.PixelMappingAlt
open Adara.Spec.BankTable
open PixelMapping (createBank_spec covers_same)

/-! ### Appending to a bank -/

/-- A bank has some more pixels, at the end of both lists. -/
def Grown (n : Nat) (bi bi' : BankPixels) : Prop :=
  ∃ logicals physicals, logicals.length = n ∧ physicals.length = n ∧
    bi'.logicalPixelids = bi.logicalPixelids ++ logicals ∧
    bi'.physicalPixelids = bi.physicalPixelids ++ physicals

theorem grown_push (bi : BankPixels) (physical logical : UInt32) :
    Grown 1 bi (bi.push physical logical) :=
  ⟨[logical], [physical], rfl, rfl, rfl, rfl⟩

theorem Grown.trans {n n' : Nat} {bi bi' bi'' : BankPixels} (h : Grown n bi bi')
    (h' : Grown n' bi' bi'') : Grown (n + n') bi bi'' := by
  obtain ⟨ls, ps, hls, hps, hlogical, hphysical⟩ := h
  obtain ⟨ls', ps', hls', hps', hlogical', hphysical'⟩ := h'
  refine ⟨ls ++ ls', ps ++ ps', ?_, ?_, ?_, ?_⟩
  · rw [List.length_append, hls, hls']
  · rw [List.length_append, hps, hps']
  · rw [hlogical', hlogical, List.append_assoc]
  · rw [hphysical', hphysical, List.append_assoc]

/-- The number of pixels appended can be told from the bank. -/
theorem Grown.length_eq {n : Nat} {bi bi' : BankPixels} (h : Grown n bi bi') :
    bi'.logicalPixelids.length = bi.logicalPixelids.length + n := by
  obtain ⟨ls, ps, hls, -, hlogical, -⟩ := h
  rw [hlogical, List.length_append, hls]

theorem grown_pushDirect (logicals : List UInt32) (physical : UInt32) (bi : BankPixels) :
    Grown logicals.length bi (bi.pushDirect physical logicals) := by
  induction logicals generalizing physical bi with
  | nil => exact ⟨[], [], rfl, rfl, (List.append_nil _).symm, (List.append_nil _).symm⟩
  | cons logical logicals ih =>
    rw [List.length_cons, Nat.add_comm]
    exact (grown_push bi physical logical).trans (ih _ _)

/-! ### Shorthand sections -/

section Shorthand

variable {physical logical physicalStep logicalStep physicalStop logicalStop : UInt32}

/-- One of the ranges is at its end after `i` steps. -/
def AtStop (physical physicalStep physicalStop logical logicalStep logicalStop : UInt32)
    (i : Nat) : Prop :=
  Stride.point physical physicalStep i = physicalStop ∨
    Stride.point logical logicalStep i = logicalStop

/-- The test of the loop after `i` steps. -/
theorem atStop_iff {i : Nat} :
    ¬ AtStop physical physicalStep physicalStop logical logicalStep logicalStop i ↔
      (Stride.point physical physicalStep i).toInt32 ≠ physicalStop.toInt32 ∧
        (Stride.point logical logicalStep i).toInt32 ≠ logicalStop.toInt32 := by
  have hinj : ∀ x y : UInt32, x.toInt32 = y.toInt32 ↔ x = y := fun x y => by
    constructor
    · intro h
      rw [← UInt32.toUInt32_toInt32 x, h, UInt32.toUInt32_toInt32]
    · exact congrArg _
  rw [AtStop, not_or, ne_eq, ne_eq, hinj, hinj]

/-- The next step of both ranges. -/
theorem toInt32_point_succ (a d : UInt32) (i : Nat) :
    (Stride.point a d i).toInt32 + d.toInt32 = (Stride.point a d (i + 1)).toInt32 := by
  rw [Stride.point_succ]
  rfl

/-- The loop ends at the first end it meets, and appends a pixel for each step up to there. -/
theorem pushShorthand_of_stop {k : Nat}
    (hstop : AtStop physical physicalStep physicalStop logical logicalStep logicalStop k)
    {i fuel : Nat} (hi : i ≤ k) (hfuel : k < i + fuel)
    (hbefore : ∀ j, i ≤ j → j < k →
      ¬ AtStop physical physicalStep physicalStop logical logicalStep logicalStop j)
    (bi : BankPixels) :
    ∃ bi', bi.pushShorthand physicalStop.toInt32 physicalStep.toInt32 logicalStop.toInt32
        logicalStep.toInt32 fuel (Stride.point physical physicalStep i).toInt32
        (Stride.point logical logicalStep i).toInt32 = some bi' ∧
      Grown (k - i + 1) bi bi' := by
  induction fuel generalizing i bi with
  | zero => omega
  | succ fuel ih =>
    rw [BankPixels.pushShorthand]
    by_cases hend : i = k
    · subst hend
      rw [if_neg fun h => atStop_iff.mpr h hstop, Nat.sub_self]
      exact ⟨_, rfl, grown_push bi _ _⟩
    · rw [if_pos (atStop_iff.mp (hbefore i (Nat.le_refl i) (by omega))), toInt32_point_succ,
        toInt32_point_succ]
      obtain ⟨bi', hloop, hgrown⟩ := ih (i := i + 1) (by omega) (by omega)
        (fun j hj => hbefore j (by omega)) (bi.push _ _)
      refine ⟨bi', hloop, ?_⟩
      rw [show k - i + 1 = 1 + (k - (i + 1) + 1) by omega]
      exact (grown_push bi _ _).trans hgrown

/-- Where the loop ends, it has met an end. -/
theorem stop_of_pushShorthand {i fuel : Nat} {bi bi' : BankPixels}
    (h : bi.pushShorthand physicalStop.toInt32 physicalStep.toInt32 logicalStop.toInt32
        logicalStep.toInt32 fuel (Stride.point physical physicalStep i).toInt32
        (Stride.point logical logicalStep i).toInt32 = some bi') :
    ∃ k, i ≤ k ∧
      AtStop physical physicalStep physicalStop logical logicalStep logicalStop k ∧
      Grown (k - i + 1) bi bi' := by
  induction fuel generalizing i bi with
  | zero => cases h
  | succ fuel ih =>
    by_cases hstop : AtStop physical physicalStep physicalStop logical logicalStep logicalStop i
    · rw [BankPixels.pushShorthand, if_neg fun h => atStop_iff.mpr h hstop] at h
      cases h
      refine ⟨i, Nat.le_refl i, hstop, ?_⟩
      rw [Nat.sub_self]
      exact grown_push bi _ _
    · rw [BankPixels.pushShorthand, if_pos (atStop_iff.mp hstop), toInt32_point_succ,
        toInt32_point_succ] at h
      obtain ⟨k, hk, hstop', hgrown⟩ := ih h
      refine ⟨k, by omega, hstop', ?_⟩
      rw [show k - i + 1 = 1 + (k - (i + 1) + 1) by omega]
      exact (grown_push bi _ _).trans hgrown

/-- The number of pixels from a start to a stop is the one announced. -/
def Counts (start stop : UInt32) (step : Int16) (n : Nat) : Prop :=
  ∃ cnt, count start.toInt32 stop.toInt32 step.toInt32 = some cnt ∧ cnt.toInt = n

/-- A range that counts as many pixels as announced, if it meets its end in so many steps,
    meets it at the last. -/
theorem counts_point {start stop : UInt32} {step : Int16} {n i : Nat} (hstep : step ≠ 0)
    (hn : n ≤ 0x7fff) (hi : i < n) (hcounts : Counts start stop step n)
    (hstop : Stride.point start step.toInt32.toUInt32 i = stop) : i + 1 = n := by
  have hne : step.toInt32.toUInt32 ≠ 0 := by
    intro hzero
    apply hstep
    have hword : step.toInt32 = 0 := congrArg UInt32.toInt32 hzero
    have hint := congrArg Int32.toInt hword
    rw [Int16.toInt_toInt32] at hint
    exact Int16.toInt_inj.mp hint
  obtain ⟨-, hcount⟩ := Stride.count_points (a := start) (Stride.half_extend step) hne
    (show i < 0x7fff by omega)
  obtain ⟨cnt, heq, hcnt⟩ := hcounts
  rw [hstop] at hcount
  rw [count] at heq
  split at heq
  · cases heq
  · cases heq
    have hsame := hcount.symm.trans hcnt
    omega

end Shorthand

/-! ### The table -/

/-- The pixels of a bank; none where there is no `BankInfo`. -/
def pixelsAt (t : BankTable BankPixels) (key : BankKey) : BankPixels := (t.find? key).getD .empty

/-- Some pixels have been appended to one bank, and all other banks are unchanged. -/
def Appended (n : Nat) (t t' : BankTable BankPixels) : Prop :=
  ∃ key, Grown n (pixelsAt t key) (pixelsAt t' key) ∧
    ∀ key', key' ≠ key → pixelsAt t' key' = pixelsAt t key'

/-- How many pixels have been appended is determined, if there are any. -/
theorem Appended.unique {n n' : Nat} {t t' : BankTable BankPixels} (h : Appended n t t')
    (h' : Appended n' t t') (hpos : 0 < n) : n' = n := by
  obtain ⟨key, hgrown, hother⟩ := h
  obtain ⟨key', hgrown', hother'⟩ := h'
  have hlen := hgrown.length_eq
  by_cases heq : key = key'
  · subst heq
    have hlen' := hgrown'.length_eq
    omega
  · rw [hother' key heq] at hlen
    omega

/-- The table has room for so many detector banks.  Without room for any there is no array. -/
def Room (room : Nat) (t : BankTable BankPixels) : Prop :=
  room = 0 ∧ t = .new BankPixels ∨ Allocated t ∧ t.numStates = 1 ∧ t.maxBank + 1 = room

section Room

variable {room bankId : Nat} {t : BankTable BankPixels}

theorem Room.covers (h : Room room t) (hid : bankId < room) :
    Allocated t ∧ t.Covers (.bank bankId 0) := by
  rcases h with ⟨rfl, -⟩ | ⟨halloc, hnum, hmax⟩
  · omega
  · exact ⟨halloc, by omega, by omega⟩

/-- The first bank behind the room has no place. -/
theorem Room.create_none (h : Room room t) (hid : room ≤ bankId) (hlt : bankId < 2 ^ 16) :
    createBank t (.bank bankId 0) = none := by
  have hmod : Word32.modulus = 2 ^ 32 := rfl
  have hread : t.read (t.index (.bank bankId 0)) = none := by
    rcases h with ⟨-, rfl⟩ | ⟨halloc, hnum, hmax⟩
    · rfl
    · obtain ⟨arr, harr, hlen⟩ := halloc.size_eq
      have hindex : t.index (.bank bankId 0) = 2 + bankId := by
        show Word32.add (Word32.add 2 bankId) (Word32.mul 0 _) = _
        rw [show Word32.mul 0 (Word32.add t.maxBank 1) = 0 by rw [Word32.mul, Nat.zero_mul]; rfl,
          Word32.add_of_lt (a := 2) (by omega), Word32.add_of_lt (by omega), Nat.add_zero]
      have hlen : arr.length = 2 + 1 * (t.maxBank + 1) := hnum ▸ hlen
      rw [BankTable.read, harr, hindex]
      exact List.getElem?_eq_none (show arr.length ≤ 2 + bankId by omega)
  rw [createBank, hread]
  rfl

/-- Where there is room, a `BankInfo` is made if need be, and no pixels change. -/
theorem Room.create (h : Room room t) {key : BankKey} (hkey : t.Covers key)
    (halloc : Allocated t) :
    ∃ t', createBank t key = some t' ∧ Room room t' ∧ Allocated t' ∧ t'.Covers key ∧
      bankAt t' key = some (pixelsAt t key) ∧ ∀ key', pixelsAt t' key' = pixelsAt t key' := by
  obtain ⟨t', hcreate, halloc', hmax, hnum, hfind⟩ := createBank_spec key halloc hkey
  have hkey' := covers_same hmax hnum hkey
  refine ⟨t', hcreate, ?_, halloc', hkey', ?_, fun key' => ?_⟩
  · rcases h with ⟨-, rfl⟩ | ⟨-, hstates, hroom⟩
    · obtain ⟨arr, harr, -⟩ := halloc.size_eq
      cases harr
    · exact .inr ⟨halloc', hnum.trans hstates, by rw [hmax]; exact hroom⟩
  · rw [bankAt, read_eq halloc' hkey', hfind, if_pos rfl]
    rfl
  · rw [pixelsAt, hfind]
    split
    · rename_i heq
      rw [heq]
      rfl
    · rfl

/-- Storing the pixels of a bank appends what they have grown by. -/
theorem Room.write {n : Nat} {key : BankKey} {bi : BankPixels} (h : Room room t)
    (halloc : Allocated t) (hkey : t.Covers key) (hgrown : Grown n (pixelsAt t key) bi) :
    ∃ t', t.write (t.index key) bi = some t' ∧ Room room t' ∧ Appended n t t' := by
  obtain ⟨t', hwrite, halloc', hmax, hnum, hfind⟩ := write_spec bi halloc hkey
  refine ⟨t', hwrite, ?_, key, ?_, fun key' hne => ?_⟩
  · rcases h with ⟨-, rfl⟩ | ⟨-, hstates, hroom⟩
    · obtain ⟨arr, harr, -⟩ := halloc.size_eq
      cases harr
    · exact .inr ⟨halloc', hnum.trans hstates, by rw [hmax]; exact hroom⟩
  · rwa [pixelsAt, pixelsAt, hfind, if_pos rfl]
  · rw [pixelsAt, pixelsAt, hfind, if_neg hne]

end Room

theorem Appended.congr {n : Nat} {t t₁ t' : BankTable BankPixels}
    (hsame : ∀ key, pixelsAt t₁ key = pixelsAt t key) (h : Appended n t₁ t') :
    Appended n t t' := by
  obtain ⟨key, hgrown, hother⟩ := h
  exact ⟨key, hsame key ▸ hgrown, fun key' hne => (hother key' hne).trans (hsame key')⟩

/-! ### What has to be in a payload -/

/-- The bank, the number of pixels and the form of a section. -/
abbrev bankOf (word : UInt32) : UInt16 := (word >>> 16).toUInt16

abbrev countOf (word : UInt32) : Nat := (word &&& 0x7fff).toNat

abbrev IsShorthand (word : UInt32) : Prop := (word &&& 0x8000) >>> 15 ≠ 0

/-- The physical and the logical step of a shorthand section. -/
abbrev highStep (steps : UInt32) : Int16 := (steps >>> 16).toUInt16.toInt16

abbrev lowStep (steps : UInt32) : Int16 := (steps &&& 0xffff).toUInt16.toInt16

theorem countOf_le (word : UInt32) : countOf word ≤ 0x7fff := by
  rw [countOf, UInt32.toNat_and]
  exact Nat.and_le_right

/-- A section is unmapped, or there is room for its bank. -/
def HasBank (room : Nat) (word : UInt32) : Prop :=
  bankOf word ≠ PixelFile.unmappedBank → (bankOf word).toNat < room

/-- A shorthand section whose pixels are appended announces some, and as many as there are up to
    the end of one of its ranges.  Both numbers of pixels have to be ones that can be computed. -/
def ShorthandFits (start word physicalStop logicalStart steps logicalStop : UInt32) : Prop :=
  (count start.toInt32 physicalStop.toInt32 (highStep steps).toInt32).isSome ∧
    (Counts start physicalStop (highStep steps) (countOf word) →
      (count logicalStart.toInt32 logicalStop.toInt32 (lowStep steps).toInt32).isSome ∧
        (Counts logicalStart logicalStop (lowStep steps) (countOf word) →
          bankOf word ≠ PixelFile.unmappedBank →
          0 < countOf word ∧
            AtStop start (highStep steps).toInt32.toUInt32 physicalStop logicalStart
              (lowStep steps).toInt32.toUInt32 logicalStop (countOf word - 1)))

/-- The sections up to the end of the payload, or up to one with a step of zero, with room for so
    many detector banks.  There has to be room for some, as the special banks are made last. -/
inductive Decodable (room : Nat) : List UInt32 → Prop
  | done (hroom : 0 < room) : Decodable room []
  | direct {start word : UInt32} {rest : List UInt32} (hform : ¬ IsShorthand word)
      (hbank : HasBank room word)
      (hpixels : bankOf word ≠ PixelFile.unmappedBank → countOf word ≤ rest.length)
      (hrest : Decodable room (rest.drop (countOf word))) :
      Decodable room (start :: word :: rest)
  | bail {start word physicalStop logicalStart steps logicalStop : UInt32} {rest : List UInt32}
      (hform : IsShorthand word) (hbank : HasBank room word)
      (hzero : (highStep steps).toInt32 = 0 ∨ (lowStep steps).toInt32 = 0) :
      Decodable room
        (start :: word :: physicalStop :: logicalStart :: steps :: logicalStop :: rest)
  | shorthand {start word physicalStop logicalStart steps logicalStop : UInt32}
      {rest : List UInt32} (hform : IsShorthand word) (hbank : HasBank room word)
      (hsteps : ¬ ((highStep steps).toInt32 = 0 ∨ (lowStep steps).toInt32 = 0))
      (hfits : ShorthandFits start word physicalStop logicalStart steps logicalStop)
      (hrest : Decodable room rest) :
      Decodable room
        (start :: word :: physicalStop :: logicalStart :: steps :: logicalStop :: rest)

section Inversion

variable {room : Nat} {start word physicalStop logicalStart steps logicalStop : UInt32}
variable {rest : List UInt32}

theorem Decodable.hasBank (h : Decodable room (start :: word :: rest)) : HasBank room word := by
  cases h <;> assumption

theorem decodable_direct_iff (hform : ¬ IsShorthand word) (hbank : HasBank room word) :
    Decodable room (start :: word :: rest) ↔
      (bankOf word ≠ PixelFile.unmappedBank → countOf word ≤ rest.length) ∧
        Decodable room (rest.drop (countOf word)) := by
  constructor
  · intro h
    cases h with
    | direct _ _ hpixels hrest => exact ⟨hpixels, hrest⟩
    | bail hform' _ _ => exact absurd hform' hform
    | shorthand hform' _ _ _ _ => exact absurd hform' hform
  · rintro ⟨hpixels, hrest⟩
    exact .direct hform hbank hpixels hrest

theorem decodable_shorthand_iff (hform : IsShorthand word) (hbank : HasBank room word)
    (hsteps : ¬ ((highStep steps).toInt32 = 0 ∨ (lowStep steps).toInt32 = 0)) :
    Decodable room
        (start :: word :: physicalStop :: logicalStart :: steps :: logicalStop :: rest) ↔
      ShorthandFits start word physicalStop logicalStart steps logicalStop ∧
        Decodable room rest := by
  constructor
  · intro h
    cases h with
    | direct hform' _ _ _ => exact absurd hform hform'
    | bail _ _ hzero => exact absurd hzero hsteps
    | shorthand _ _ _ hfits hrest => exact ⟨hfits, hrest⟩
  · rintro ⟨hfits, hrest⟩
    exact .shorthand hform hbank hsteps hfits hrest

/-- A shorthand section takes six words. -/
theorem not_decodable_short (hform : IsShorthand word) (hlen : rest.length < 4) :
    ¬ Decodable room (start :: word :: rest) := by
  intro h
  cases h with
  | direct hform' _ _ _ => exact hform' hform
  | bail _ _ _ =>
    simp only [List.length_cons] at hlen
    omega
  | shorthand _ _ _ _ _ =>
    simp only [List.length_cons] at hlen
    omega

end Inversion

/-! ### Sections -/

/-- The number of pixels a section announces. -/
def declared : List UInt32 → Nat
  | _ :: word :: _ => countOf word
  | _ => 0

/-- What is done with a section, by what has to be in the payload. -/
inductive SectionDone (room : Nat) (t : BankTable BankPixels) (ws : List UInt32) :
    Option (SectionOutcome × BankTable BankPixels × List UInt32) → Prop
  | left (h : ¬ Decodable room ws) : SectionDone room t ws none
  | bailed {t' : BankTable BankPixels} {rest : List UInt32} (h : Decodable room ws) :
      SectionDone room t ws (some (.zeroStep, t', rest))
  | skipped {outcome : SectionOutcome} {t' : BankTable BankPixels} {rest : List UInt32}
      (houtcome : outcome = .unmapped ∨ outcome = .countMismatch) (hroom : Room room t')
      (hlen : rest.length < ws.length) (h : Decodable room ws ↔ Decodable room rest) :
      SectionDone room t ws (some (outcome, t', rest))
  | appended {t' : BankTable BankPixels} {rest : List UInt32} (hroom : Room room t')
      (hlen : rest.length < ws.length)
      (h : Decodable room ws ↔ Appended (declared ws) t t' ∧ Decodable room rest) :
      SectionDone room t ws (some (.appended, t', rest))

section Sections

variable {room : Nat} {t t₁ : BankTable BankPixels} {start word : UInt32} {rest : List UInt32}

/-- The table when the bank of a section is there. -/
structure BankReady (room : Nat) (t t₁ : BankTable BankPixels) (word : UInt32) : Prop where
  room : Room room t₁
  same : ∀ key, pixelsAt t₁ key = pixelsAt t key
  bank : bankOf word ≠ PixelFile.unmappedBank →
    Allocated t₁ ∧ t₁.Covers (.bank (bankOf word).toNat 0) ∧
      bankAt t₁ (.bank (bankOf word).toNat 0) = some (pixelsAt t₁ (.bank (bankOf word).toNat 0))

/-- The bank of a section can be made just if there is room for it. -/
theorem bankReady (h : Room room t) (word : UInt32) :
    (HasBank room word ∧ ∃ t₁, (if bankOf word = PixelFile.unmappedBank then some t
        else createBank t (.bank (bankOf word).toNat 0)) = some t₁ ∧ BankReady room t t₁ word) ∨
      ¬ HasBank room word ∧ (if bankOf word = PixelFile.unmappedBank then some t
        else createBank t (.bank (bankOf word).toNat 0)) = none := by
  by_cases hunmapped : bankOf word = PixelFile.unmappedBank
  · rw [if_pos hunmapped]
    refine .inl ⟨fun hmapped => absurd hunmapped hmapped, t, rfl, h, fun _ => rfl, fun hmapped => ?_⟩
    exact absurd hunmapped hmapped
  · rw [if_neg hunmapped]
    by_cases hid : (bankOf word).toNat < room
    · obtain ⟨halloc, hkey⟩ := h.covers hid
      obtain ⟨t₁, hcreate, hroom, halloc₁, hkey₁, hread, hsame⟩ := h.create hkey halloc
      refine .inl ⟨fun _ => hid, t₁, hcreate, hroom, hsame, fun _ => ⟨halloc₁, hkey₁, ?_⟩⟩
      rw [hread, hsame]
    · exact .inr ⟨fun hbank => hid (hbank hunmapped),
        h.create_none (by omega) (bankOf word).toNat_lt⟩

/-- A direct section, with its bank ready. -/
theorem directSection_spec (hready : BankReady room t t₁ word) (hform : ¬ IsShorthand word)
    (hbank : HasBank room word) :
    SectionDone room t (start :: word :: rest)
      (directSection t₁ start (bankOf word) (countOf word) rest) := by
  have hiff := @decodable_direct_iff room start word rest hform hbank
  have hlen : (rest.drop (countOf word)).length < (start :: word :: rest).length := by
    rw [List.length_drop, List.length_cons, List.length_cons]
    omega
  rw [directSection]
  by_cases hunmapped : bankOf word = PixelFile.unmappedBank
  · rw [if_pos hunmapped]
    refine .skipped (.inl rfl) hready.room hlen (hiff.trans (and_iff_right ?_))
    exact fun hmapped => absurd hunmapped hmapped
  · rw [if_neg hunmapped]
    obtain ⟨halloc, hkey, hread⟩ := hready.bank hunmapped
    by_cases hpixels : countOf word ≤ rest.length
    · rw [if_pos hpixels, hread]
      have hgrown := grown_pushDirect (rest.take (countOf word)) start
        (pixelsAt t₁ (.bank (bankOf word).toNat 0))
      rw [List.length_take, Nat.min_eq_left hpixels] at hgrown
      obtain ⟨t', hwrite, hroom', happended⟩ := hready.room.write halloc hkey hgrown
      simp only [Option.bind_eq_bind, Option.bind_some, hwrite]
      refine .appended hroom' hlen (hiff.trans ?_)
      exact and_congr_left fun _ =>
        iff_of_true (fun _ => hpixels) (happended.congr hready.same)
    · rw [if_neg hpixels]
      exact .left fun h => hpixels ((hiff.mp h).1 hunmapped)

/-- The loop over a section whose ranges count as many pixels as announced. -/
theorem pushShorthand_of_counts {physicalStop logicalStart logicalStop : UInt32}
    {physicalStep logicalStep : Int16} {n : Nat} (hn : n ≤ 0x7fff)
    (hsteps : ¬ (physicalStep.toInt32 = 0 ∨ logicalStep.toInt32 = 0))
    (hphysical : Counts start physicalStop physicalStep n)
    (hlogical : Counts logicalStart logicalStop logicalStep n) (hpos : 0 < n)
    (hstop : AtStop start physicalStep.toInt32.toUInt32 physicalStop logicalStart
      logicalStep.toInt32.toUInt32 logicalStop (n - 1)) (bi : BankPixels) :
    ∃ bi', bi.pushShorthand physicalStop.toInt32 physicalStep.toInt32 logicalStop.toInt32
        logicalStep.toInt32 shorthandFuel start.toInt32 logicalStart.toInt32 = some bi' ∧
      Grown n bi bi' := by
  obtain ⟨hphysical0, hlogical0⟩ := not_or.mp hsteps
  have hzero : ∀ x : Int16, x.toInt32 ≠ 0 → x ≠ 0 := by
    rintro x hx rfl
    exact hx rfl
  -- neither range is at its end before
  have hbefore : ∀ j, 0 ≤ j → j < n - 1 → ¬ AtStop start physicalStep.toInt32.toUInt32
      physicalStop logicalStart logicalStep.toInt32.toUInt32 logicalStop j := by
    intro j _ hj hearly
    rcases hearly with h | h
    · have hlast := counts_point (hzero _ hphysical0) hn (by omega) hphysical h
      omega
    · have hlast := counts_point (hzero _ hlogical0) hn (by omega) hlogical h
      omega
  have hfuel : n - 1 < 0 + shorthandFuel := by
    have hmax : shorthandFuel = 2 ^ 32 := rfl
    omega
  obtain ⟨bi', hloop, hgrown⟩ := pushShorthand_of_stop hstop (Nat.zero_le _) hfuel hbefore bi
  rw [Stride.point_zero, Stride.point_zero] at hloop
  exact ⟨bi', hloop, (show n - 1 - 0 + 1 = n by omega) ▸ hgrown⟩

/-- A shorthand section, with its bank ready. -/
theorem shorthandSection_spec (hready : BankReady room t t₁ word) (hform : IsShorthand word)
    (hbank : HasBank room word) :
    SectionDone room t (start :: word :: rest)
      (shorthandSection t₁ start (bankOf word) (countOf word) rest) := by
  match rest with
  | [] => exact .left (not_decodable_short hform (by simp))
  | [_] => exact .left (not_decodable_short hform (by simp))
  | [_, _] => exact .left (not_decodable_short hform (by simp))
  | [_, _, _] => exact .left (not_decodable_short hform (by simp))
  | physicalStop :: logicalStart :: steps :: logicalStop :: rest =>
    have hlen : rest.length <
        (start :: word :: physicalStop :: logicalStart :: steps :: logicalStop :: rest).length := by
      simp only [List.length_cons]
      omega
    rw [shorthandSection]
    by_cases hzero : (highStep steps).toInt32 = 0 ∨ (lowStep steps).toInt32 = 0
    · rw [if_pos hzero]
      exact .bailed (.bail hform hbank hzero)
    rw [if_neg hzero]
    have hiff := @decodable_shorthand_iff room start word physicalStop logicalStart steps
      logicalStop rest hform hbank hzero
    -- a count that is computed is the one announced or not
    have hcounts : ∀ {a b : UInt32} {d : Int16} {cnt : Int16},
        count a.toInt32 b.toInt32 d.toInt32 = some cnt →
        (Counts a b d (countOf word) ↔ cnt.toInt = countOf word) := by
      intro a b d cnt heq
      constructor
      · rintro ⟨cnt', heq', hcnt⟩
        rw [heq] at heq'
        cases heq'
        exact hcnt
      · exact fun hcnt => ⟨cnt, heq, hcnt⟩
    cases hphysical : count start.toInt32 physicalStop.toInt32 (highStep steps).toInt32 with
    | none =>
      refine .left fun h => ?_
      have hsome := (hiff.mp h).1.1
      rw [hphysical] at hsome
      cases hsome
    | some cnt =>
    simp only [Option.bind_eq_bind, Option.bind_some]
    by_cases hcnt : cnt.toInt = countOf word
    case neg =>
      rw [if_pos hcnt]
      refine .skipped (.inr rfl) hready.room hlen (hiff.trans (and_iff_right ⟨?_, ?_⟩))
      · rw [hphysical]
        rfl
      · exact fun h => absurd ((hcounts hphysical).mp h) hcnt
    rw [if_neg (not_not.mpr hcnt)]
    have hphysical' := (hcounts hphysical).mpr hcnt
    cases hlogical : count logicalStart.toInt32 logicalStop.toInt32 (lowStep steps).toInt32 with
    | none =>
      refine .left fun h => ?_
      have hsome := ((hiff.mp h).1.2 hphysical').1
      rw [hlogical] at hsome
      cases hsome
    | some cnt' =>
    have hfits : ShorthandFits start word physicalStop logicalStart steps logicalStop ↔
        (Counts logicalStart logicalStop (lowStep steps) (countOf word) →
          bankOf word ≠ PixelFile.unmappedBank → 0 < countOf word ∧
          AtStop start (highStep steps).toInt32.toUInt32 physicalStop logicalStart
            (lowStep steps).toInt32.toUInt32 logicalStop (countOf word - 1)) := by
      rw [ShorthandFits, hphysical, hlogical]
      exact ⟨fun h => (h.2 hphysical').2, fun h => ⟨rfl, fun _ => ⟨rfl, h⟩⟩⟩
    simp only [Option.bind_some]
    by_cases hcnt' : cnt'.toInt = countOf word
    case neg =>
      rw [if_pos hcnt']
      refine .skipped (.inr rfl) hready.room hlen (hiff.trans (and_iff_right (hfits.mpr ?_)))
      exact fun h => absurd ((hcounts hlogical).mp h) hcnt'
    rw [if_neg (not_not.mpr hcnt')]
    have hlogical' := (hcounts hlogical).mpr hcnt'
    by_cases hunmapped : bankOf word = PixelFile.unmappedBank
    · rw [if_pos hunmapped]
      refine .skipped (.inl rfl) hready.room hlen (hiff.trans (and_iff_right (hfits.mpr ?_)))
      exact fun _ hmapped => absurd hunmapped hmapped
    rw [if_neg hunmapped]
    obtain ⟨halloc, hkey, hread⟩ := hready.bank hunmapped
    simp only [hread, Option.bind_some]
    by_cases hend : 0 < countOf word ∧
        AtStop start (highStep steps).toInt32.toUInt32 physicalStop logicalStart
          (lowStep steps).toInt32.toUInt32 logicalStop (countOf word - 1)
    · obtain ⟨bi', hloop, hgrown⟩ := pushShorthand_of_counts (countOf_le word) hzero hphysical'
        hlogical' hend.1 hend.2 (pixelsAt t₁ (.bank (bankOf word).toNat 0))
      obtain ⟨t', hwrite, hroom', happended⟩ := hready.room.write halloc hkey hgrown
      simp only [hloop, Option.bind_some, hwrite]
      refine .appended hroom' hlen (hiff.trans (and_congr_left fun _ => ?_))
      exact iff_of_true (hfits.mpr fun _ _ => hend) (happended.congr hready.same)
    · have hbad : ¬ ShorthandFits start word physicalStop logicalStart steps logicalStop :=
        fun h => hend (hfits.mp h hlogical' hunmapped)
      generalize hloop : BankPixels.pushShorthand _ _ _ _ _ _ _ _ = result
      cases result with
      | none => exact .left fun h => hbad (hiff.mp h).1
      | some bi' =>
        -- the loop ends somewhere else, and appends another number of pixels
        rw [← Stride.point_zero start (highStep steps).toInt32.toUInt32,
          ← Stride.point_zero logicalStart (lowStep steps).toInt32.toUInt32] at hloop
        obtain ⟨k, -, hstop, hgrown⟩ := stop_of_pushShorthand hloop
        obtain ⟨t', hwrite, hroom', happended⟩ := hready.room.write halloc hkey hgrown
        simp only [Option.bind_some, hwrite]
        refine .appended hroom' hlen (iff_of_false (fun h => hbad (hiff.mp h).1) ?_)
        rintro ⟨hdeclared, -⟩
        have hsame : countOf word = k - 0 + 1 :=
          (happended.congr hready.same).unique hdeclared (Nat.succ_pos _)
        refine hend ⟨by omega, ?_⟩
        rw [hsame]
        exact hstop

/-- Any section: its header, its bank and the rest. -/
theorem readSection_spec (h : Room room t) (start : UInt32) (rest : List UInt32) :
    SectionDone room t (start :: rest) (readSection t (start :: rest)) := by
  match rest with
  | [] =>
    refine .left fun h => ?_
    cases h
  | word :: rest =>
    have hsplit : readSection t (start :: word :: rest) =
        (if bankOf word = PixelFile.unmappedBank then some t
          else createBank t (.bank (bankOf word).toNat 0)).bind fun t =>
            if IsShorthand word then
              shorthandSection t start (bankOf word) (countOf word) rest
            else directSection t start (bankOf word) (countOf word) rest := by
      rw [readSection]
      split <;> rfl
    rw [hsplit]
    rcases bankReady h word with ⟨hbank, t₁, hready, hspec⟩ | ⟨hbank, hnone⟩
    · rw [hready, Option.bind_some]
      split
      · rename_i hform
        exact shorthandSection_spec hspec hform hbank
      · rename_i hform
        exact directSection_spec hspec hform hbank
    · rw [hnone]
      exact .left fun h => hbank h.hasBank

end Sections

/-! ### All sections -/

/-- A section that was read: the words from it on, what was done, and the table before and
    after. -/
structure SectionRead where
  words : List UInt32
  outcome : SectionOutcome
  before : BankTable BankPixels
  after : BankTable BankPixels

/-- The section is skipped, or it appends as many pixels as it announces to one bank. -/
def SectionRead.Exact (r : SectionRead) : Prop :=
  r.outcome = .appended → Appended (declared r.words) r.before r.after

/-- The sections the loop reads. -/
def sectionsRead : (fuel : Nat) → BankTable BankPixels → List UInt32 → List SectionRead
  | fuel + 1, t, start :: rest =>
    match readSection t (start :: rest) with
    | some (outcome, t', rpos) =>
      ⟨start :: rest, outcome, t, t'⟩ ::
        if outcome = .zeroStep then [] else sectionsRead fuel t' rpos
    | none => []
  | _, _, _ => []

/-- These are the sections whose outcomes the loop gives. -/
theorem outcomes_sectionsRead {fuel : Nat} {t t' : BankTable BankPixels} {ws : List UInt32}
    {outcomes : List SectionOutcome} (h : readSections fuel t ws = some (outcomes, t')) :
    (sectionsRead fuel t ws).map SectionRead.outcome = outcomes := by
  induction fuel generalizing t ws outcomes with
  | zero =>
    cases ws with
    | nil =>
      cases h
      rfl
    | cons start rest => cases h
  | succ fuel ih =>
    cases ws with
    | nil =>
      cases h
      rfl
    | cons start rest =>
      rw [readSections] at h
      obtain ⟨⟨outcome, t₁, rpos⟩, hread, h⟩ := Option.bind_eq_some_iff.mp h
      rw [sectionsRead, hread]
      dsimp only at h ⊢
      by_cases hzero : outcome = .zeroStep
      · rw [if_pos hzero] at h ⊢
        cases h
        rfl
      · rw [if_neg hzero] at h ⊢
        obtain ⟨⟨outcomes', t₂⟩, hrest, heq⟩ := Option.bind_eq_some_iff.mp h
        cases heq
        rw [List.map_cons, ih hrest]

/-- What the loop over the sections comes to, by what has to be in the payload. -/
inductive SectionsDone (room : Nat) (ws : List UInt32) (read : List SectionRead) :
    Option (List SectionOutcome × BankTable BankPixels) → Prop
  | left (h : ¬ Decodable room ws) : SectionsDone room ws read none
  | bailed {outcomes : List SectionOutcome} {t : BankTable BankPixels}
      (hzero : .zeroStep ∈ outcomes) (h : Decodable room ws ↔ ∀ r ∈ read, r.Exact) :
      SectionsDone room ws read (some (outcomes, t))
  | ended {outcomes : List SectionOutcome} {t : BankTable BankPixels}
      (hzero : .zeroStep ∉ outcomes) (hroom : Room room t)
      (h : Decodable room ws ↔ (∀ r ∈ read, r.Exact) ∧ 0 < room) :
      SectionsDone room ws read (some (outcomes, t))

/-- With no word left, only the special banks ask for room. -/
theorem SectionsDone.nil {room : Nat} {t : BankTable BankPixels} (h : Room room t) :
    SectionsDone room [] [] (some ([], t)) := by
  refine .ended List.not_mem_nil h
    ⟨fun hdone => ⟨List.forall_mem_nil _, ?_⟩, fun hdone => .done hdone.2⟩
  cases hdone
  assumption

/-- A section in front that makes a condition of its own. -/
theorem SectionsDone.cons {room : Nat} {ws rest : List UInt32} {read : List SectionRead}
    {result : Option (List SectionOutcome × BankTable BankPixels)} {r : SectionRead}
    (h : SectionsDone room rest read result) (houtcome : r.outcome ≠ .zeroStep)
    (hiff : Decodable room ws ↔ r.Exact ∧ Decodable room rest) :
    SectionsDone room ws (r :: read)
      (result.bind fun found => some (r.outcome :: found.1, found.2)) := by
  cases h with
  | left h => exact .left fun hws => h (hiff.mp hws).2
  | bailed hzero h =>
    refine .bailed (List.mem_cons_of_mem _ hzero) ?_
    rw [hiff, h, List.forall_mem_cons]
  | ended hzero hroom h =>
    refine .ended ?_ hroom ?_
    · rw [List.mem_cons, not_or]
      exact ⟨houtcome.symm, hzero⟩
    · rw [hiff, h, List.forall_mem_cons, and_assoc]

theorem readSections_spec {room fuel : Nat} {t : BankTable BankPixels} {ws : List UInt32}
    (h : Room room t) (hfuel : ws.length ≤ fuel) :
    SectionsDone room ws (sectionsRead fuel t ws) (readSections fuel t ws) := by
  induction fuel generalizing t ws with
  | zero =>
    obtain rfl := List.eq_nil_of_length_eq_zero (Nat.le_zero.mp hfuel)
    exact .nil h
  | succ fuel ih =>
    cases ws with
    | nil =>
      exact .nil h
    | cons start rest =>
      have hsection := readSection_spec h start rest
      rw [readSections, sectionsRead]
      generalize readSection t (start :: rest) = result at hsection
      rw [List.length_cons] at hfuel
      cases hsection with
      | left h => exact .left h
      | @bailed t' rpos h =>
        refine .bailed (List.mem_singleton.mpr rfl) (iff_of_true h fun r hr => ?_)
        obtain rfl := List.mem_singleton.mp hr
        intro happended
        cases happended
      | @skipped outcome t' rpos houtcome hroom hlen hiff =>
        have hzero : outcome ≠ .zeroStep := by rcases houtcome with rfl | rfl <;> decide
        have hskipped : outcome ≠ .appended := by rcases houtcome with rfl | rfl <;> decide
        rw [List.length_cons] at hlen
        simp only [Option.bind_eq_bind, Option.bind_some, if_neg hzero]
        have hdone := (ih hroom (show rpos.length ≤ fuel by omega)).cons
          (r := ⟨start :: rest, outcome, t, t'⟩) hzero
          (hiff.trans (and_iff_right fun happended => absurd happended hskipped).symm)
        exact hdone
      | @appended t' rpos hroom hlen hiff =>
        have hzero : SectionOutcome.appended ≠ .zeroStep := by decide
        rw [List.length_cons] at hlen
        simp only [Option.bind_eq_bind, Option.bind_some, if_neg hzero]
        have hdone := (ih hroom (show rpos.length ≤ fuel by omega)).cons
          (r := ⟨start :: rest, .appended, t, t'⟩) hzero
          (hiff.trans (and_congr_left fun _ => ⟨fun h _ => h, fun h => h rfl⟩))
        exact hdone

/-! ### Payloads -/

/-- The detector banks a packet makes room for: all up to the largest, if that is above 0. -/
def roomOf (numBanks : UInt32) : Nat :=
  if numBanks.toUInt16.toNat = 0 then 0 else numBanks.toUInt16.toNat + 1

/-- The sections of a payload that are read. -/
def sectionsOf : List UInt32 → List SectionRead
  | [] => []
  | numBanks :: rpos =>
    match (BankTable.new BankPixels).reallocateBanksArray numBanks.toUInt16.toNat 0 with
    | some t => sectionsRead rpos.length t rpos
    | none => []

/-- The decoder comes to an end without leaving the payload or the bank array, and every section
    that it does not skip has appended the pixels announced, to one bank. -/
def Robust (payload : List UInt32) : Prop :=
  (rxPacket payload).isSome ∧ ∀ r ∈ sectionsOf payload, r.Exact

theorem exists_room (numBanks : UInt32) :
    ∃ t, (BankTable.new BankPixels).reallocateBanksArray numBanks.toUInt16.toNat 0 = some t ∧
      Room (roomOf numBanks) t := by
  rw [roomOf]
  by_cases hzero : numBanks.toUInt16.toNat = 0
  · rw [if_pos hzero, hzero]
    exact ⟨.new BankPixels, rfl, .inl ⟨rfl, rfl⟩⟩
  · rw [if_neg hzero]
    obtain ⟨t, hrealloc, halloc, hmax, -⟩ := allocate_new (β := BankPixels)
      (Nat.pos_of_ne_zero hzero) numBanks.toUInt16.toNat_lt
    refine ⟨t, hrealloc, .inr ⟨halloc, ?_, congrArg (· + 1) hmax⟩⟩
    rw [Native.BankTable.reallocateBanksArray] at hrealloc
    split at hrealloc
    · obtain ⟨arr, -, rfl⟩ := Option.map_eq_some_iff.mp hrealloc
      rfl
    · cases hrealloc
      rfl

/-- The special banks can be made just if there is an array. -/
theorem createSpecial_isSome {room : Nat} {t : BankTable BankPixels} (h : Room room t) :
    ((createBank t .unmapped).bind fun t => createBank t .error).isSome ↔ 0 < room := by
  rcases h with ⟨rfl, rfl⟩ | ⟨halloc, hnum, hmax⟩
  · exact iff_of_false (by decide) (by decide)
  · refine iff_of_true ?_ (by omega)
    obtain ⟨t₁, hunmapped, halloc₁, -⟩ := createBank_spec .unmapped halloc trivial
    obtain ⟨t₂, herror, -⟩ := createBank_spec .error halloc₁ trivial
    rw [hunmapped, Option.bind_some, herror]
    rfl

/-- The decoder is robust just on payloads that are decodable, with room for the banks up to
    the largest that the first word gives. -/
theorem robust_iff (payload : List UInt32) :
    Robust payload ↔
      ∃ numBanks rpos, payload = numBanks :: rpos ∧ Decodable (roomOf numBanks) rpos := by
  cases payload with
  | nil =>
    refine iff_of_false (fun h => Bool.false_ne_true h.1) ?_
    rintro ⟨_, _, h, -⟩
    cases h
  | cons numBanks rpos =>
    have hpayload : (∃ numBanks' rpos', numBanks :: rpos = numBanks' :: rpos' ∧
        Decodable (roomOf numBanks') rpos') ↔ Decodable (roomOf numBanks) rpos := by
      constructor
      · rintro ⟨_, _, heq, h⟩
        cases heq
        exact h
      · exact fun h => ⟨numBanks, rpos, rfl, h⟩
    obtain ⟨t, hrealloc, hroom⟩ := exists_room numBanks
    have hdone := readSections_spec hroom (Nat.le_refl rpos.length)
    rw [hpayload, Robust, sectionsOf, rxPacket, hrealloc]
    simp only [Option.bind_eq_bind, Option.bind_some]
    generalize sectionsRead rpos.length t rpos = read at hdone
    generalize readSections rpos.length t rpos = result at hdone
    cases hdone with
    | left h => exact iff_of_false (fun h => Bool.false_ne_true h.1) h
    | bailed hzero h =>
      simp only [Option.bind_some, if_pos hzero]
      exact (and_iff_right rfl).trans h.symm
    | @ended outcomes t' hzero hroom' h =>
      have hspecial := createSpecial_isSome hroom'
      simp only [Option.bind_some, if_neg hzero]
      rw [h, and_comm, ← hspecial]
      refine and_congr_right fun _ => ?_
      cases createBank t' .unmapped with
      | none => exact Iff.rfl
      | some t₁ =>
        simp only [Option.bind_some]
        cases createBank t₁ .error with
        | none => exact Iff.rfl
        | some t₂ => exact Iff.rfl

/-- A section of bank 2, in a packet that makes room for the banks up to 1. -/
def bankBehind : List UInt32 := [1, 0, 0x20000]

/-- Its bank is looked for behind the end of the bank array. -/
theorem not_robust : ¬ ∀ payload, Robust payload := by
  intro h
  obtain ⟨hsome, -⟩ := h bankBehind
  revert hsome
  decide

end Adara.Spec.PixelDecoder
