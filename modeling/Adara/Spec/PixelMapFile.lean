import Adara.Spec.PixelRanges
import Adara.Spec.ScannedContainer
import Mathlib.Data.Nat.Bitwise

/-! # Reading a pixel map file line by line

A line adds its pixels one after the other.  The loop ends, since every pixel has a new physical
id without the error bit (`readMap_isSome`).  The bank is not the same for all pixels of a line:
the one that marks pixels as unmapped is replaced by a reserved one with the first of them
(`expand_ok_iff`). -/

namespace Adara.Spec.PixelMapFile

open Adara.Native Adara.Native.PixelMap Adara.Spec.PixelRanges

variable {allow : Bool} {lineno fuel : Nat} {physical logical bank : UInt32} {s s' : ReadState}
variable {ps ls : PixelRange} {pixels : List (UInt32 × UInt32)} {line : List Char}

/-! ### One pixel -/

/-- The bank is one of a detector, or stands for none. -/
def BankOk (bank : UInt32) : Prop :=
  bank ≠ 0xffff ∧ bank ≠ 0xfffe ∧ (bank = -1 ∨ bank < 0x10000)

instance (bank : UInt32) : Decidable (BankOk bank) := inferInstanceAs (Decidable (_ ∧ _))

/-- The pixel is added to what is read so far. -/
structure Accepts (allow : Bool) (physical logical bank : UInt32) (s : ReadState) : Prop where
  noErrorBit : physical.toNat < 2 ^ 31
  newPhysical : s.map.find? physical = none
  newLogical : allow = true ∨ logical ∉ s.outputPixels
  bankOk : BankOk bank

instance (allow : Bool) (physical logical bank : UInt32) (s : ReadState) :
    Decidable (Accepts allow physical logical bank s) :=
  decidable_of_iff (physical.toNat < 2 ^ 31 ∧ s.map.find? physical = none ∧
      (allow = true ∨ logical ∉ s.outputPixels) ∧ BankOk bank)
    ⟨fun ⟨h1, h2, h3, h4⟩ => ⟨h1, h2, h3, h4⟩, fun h =>
      ⟨h.noErrorBit, h.newPhysical, h.newLogical, h.bankOk⟩⟩

/-- The bank as it is stored. -/
def storedBank (bank : UInt32) : UInt32 := if bank = -1 then 0xffff else bank

/-- What is read with one more pixel. -/
def add (s : ReadState) (physical logical bank : UInt32) : ReadState :=
  ⟨s.map.insert physical (logical, (storedBank bank).toUInt16), logical :: s.outputPixels⟩

theorem errorBit_eq_zero (x : UInt32) : x &&& 0x80000000 = 0 ↔ x.toNat < 2 ^ 31 := by
  have hlt := x.toNat_lt
  rw [← UInt32.toNat_inj, UInt32.toNat_and]
  show x.toNat &&& 2 ^ 31 = 0 ↔ _
  rw [Nat.and_two_pow]
  cases hbit : x.toNat.testBit 31 with
  | false =>
    simp only [Bool.toNat_false, Nat.zero_mul, true_iff]
    rw [Nat.testBit_eq_decide_div_mod_eq, decide_eq_false_iff_not] at hbit
    omega
  | true =>
    have := Nat.ge_two_pow_of_testBit hbit
    simp only [Bool.toNat_true]
    omega

/-- The checks of a pixel, one after the other. -/
theorem addPixel_cases (allow : Bool) (lineno : Nat) (physical logical bank : UInt32)
    (s : ReadState) :
    (Accepts allow physical logical bank s ∧ addPixel allow lineno physical logical bank s =
        .ok (add s physical logical bank, storedBank bank)) ∨
      (¬Accepts allow physical logical bank s ∧
        ∃ e, addPixel allow lineno physical logical bank s = .error e) := by
  -- each failed check refuses the pixel by a field of `Accepts`, and what passes all has them all
  rw [addPixel]
  split
  · next h => exact .inr ⟨fun hacc => h ((errorBit_eq_zero _).mpr hacc.noErrorBit), _, rfl⟩
  next herror =>
  split
  · next h => exact .inr ⟨fun hacc => by simp [hacc.newPhysical] at h, _, rfl⟩
  next hphysical =>
  split
  · next h =>
    refine .inr ⟨fun hacc => ?_, _, rfl⟩
    rw [Bool.and_eq_true, Bool.not_eq_true', List.contains_iff_mem] at h
    exact hacc.newLogical.elim (by simp [h.1]) (fun hnew => hnew h.2)
  next hlogical =>
  split
  · next h => exact .inr ⟨fun hacc => hacc.bankOk.1 h, _, rfl⟩
  next hunmapped =>
  split
  · next h => exact .inr ⟨fun hacc => hacc.bankOk.2.1 h, _, rfl⟩
  next herrorBank =>
  split
  · next h =>
    refine .inr ⟨fun hacc => ?_, _, rfl⟩
    exact hacc.bankOk.2.2.elim h.1 (fun hlt => absurd h.2 (not_le.mpr hlt))
  next hrange =>
  refine .inl ⟨⟨?_, ?_, ?_, hunmapped, herrorBank, ?_⟩, rfl⟩
  · exact (errorBit_eq_zero _).mp (not_not.mp herror)
  · exact Option.not_isSome_iff_eq_none.mp hphysical
  · by_cases hallow : allow = true
    · exact .inl hallow
    · refine .inr fun hmem => hlogical ?_
      rw [Bool.and_eq_true, List.contains_iff_mem]
      exact ⟨by simpa using hallow, hmem⟩
  · by_cases hbank : bank = -1
    · exact .inl hbank
    · exact .inr (not_le.mp fun hle => hrange ⟨hbank, hle⟩)

/-! ### The end of the loop -/

/-- No pixel that is read has the error bit. -/
def Valid (s : ReadState) : Prop := ∀ k ∈ s.map.keys, k.toNat < 2 ^ 31

theorem Valid.add (h : Valid s) (hacc : Accepts allow physical logical bank s) :
    Valid (add s physical logical bank) := by
  intro k hk
  rcases SortedMap.mem_keys_alter.mp hk with rfl | hk
  · exact hacc.noErrorBit
  · exact h k hk

theorem Valid.size_le (h : Valid s) : s.map.size ≤ 2 ^ 31 := by
  have hnodup : (s.map.keys.map UInt32.toNat).Nodup :=
    s.map.keys_nodup.map fun a b => UInt32.toNat_inj.mp
  have hsub : s.map.keys.map UInt32.toNat ⊆ List.range (2 ^ 31) := by
    intro n hn
    obtain ⟨k, hk, rfl⟩ := List.mem_map.mp hn
    exact List.mem_range.mpr (h k hk)
  have hle := List.Nodup.length_le_of_subset hnodup hsub
  simpa [SortedMap.keys, SortedMap.size] using hle

/-- The loop ends, since there are only so many pixels without the error bit. -/
theorem expand_isSome (hs : Valid s) (hfuel : 2 ^ 31 < fuel + s.map.size) :
    ∃ r, expand allow lineno ps ls fuel physical logical bank s = some r ∧
      ∀ s', r = .ok s' → Valid s' := by
  induction fuel generalizing physical logical bank s with
  | zero =>
    have := hs.size_le
    omega
  | succ fuel ih =>
    rw [expand]
    split
    · rcases addPixel_cases allow lineno physical logical bank s with ⟨hacc, hadd⟩ | ⟨-, e, hadd⟩
      · rw [hadd]
        apply ih (hs.add hacc)
        have hsize : (add s physical logical bank).map.size = s.map.size + 1 :=
          SortedMap.size_insert _ hacc.newPhysical
        omega
      · rw [hadd]
        exact ⟨_, rfl, by simp⟩
    · split
      · exact ⟨_, rfl, by simp⟩
      · exact ⟨_, rfl, fun s' h => Except.ok.inj h ▸ hs⟩

theorem readLine_isSome (hs : Valid s) : ∃ r, readLine allow lineno line s = some r ∧
    ∀ s', r = .ok s' → Valid s' := by
  rw [readLine]
  split
  · exact ⟨_, rfl, by simp⟩
  · exact ⟨_, rfl, fun s' h => Except.ok.inj h ▸ hs⟩
  · apply expand_isSome hs
    rw [expandFuel]
    omega

theorem readLines_isSome (lines : List (List Char)) (hs : Valid s) :
    ∃ r, readLines allow lineno lines s = some r ∧ ∀ s', r = .ok s' → Valid s' := by
  induction lines generalizing lineno s with
  | nil => exact ⟨_, rfl, fun s' h => Except.ok.inj h ▸ hs⟩
  | cons line lines ih =>
    obtain ⟨r, hr, hvalid⟩ := @readLine_isSome allow lineno s line hs
    rw [readLines, hr, Option.bind_some]
    cases r with
    | error e => exact ⟨_, rfl, by simp⟩
    | ok s' => exact ih (hvalid s' rfl)

theorem valid_empty : Valid .empty := by simp [Valid, ReadState.empty, SortedMap.keys]

/-- Reading a map always ends. -/
theorem readMap_isSome (allow : Bool) (path : String) (text : Option (List Char))
    (readError : Bool) : (readMap allow path text readError).isSome := by
  cases text with
  | none => rfl
  | some text =>
    obtain ⟨r, hr, -⟩ := @readLines_isSome allow 1 _ (TextLines.getlines '\n' text) valid_empty
    rw [readMap, hr]
    rfl

/-! ### What is kept while a map is read -/

section Invariant

variable {P : ReadState → Prop}

/-- What adding a pixel keeps is kept by a line. -/
theorem readLine_invariant (hkept : ∀ {s physical logical bank},
      Accepts allow physical logical bank s → P s → P (add s physical logical bank))
    (hs : P s) (h : readLine allow lineno line s = some (.ok s')) : P s' := by
  have hexpand : ∀ ps ls fuel physical logical bank s, P s →
      expand allow lineno ps ls fuel physical logical bank s = some (.ok s') → P s' := by
    intro ps ls fuel
    induction fuel with
    | zero => intro _ _ _ _ _ h; cases h
    | succ fuel ih =>
      intro physical logical bank s hs h
      rw [expand] at h
      split at h
      · rcases addPixel_cases allow lineno physical logical bank s with
          ⟨hacc, hadd⟩ | ⟨-, e, hadd⟩
        · rw [hadd] at h
          exact ih _ _ _ _ (hkept hacc hs) h
        · rw [hadd] at h
          cases h
      · split at h
        · cases h
        · exact Except.ok.inj (Option.some.inj h) ▸ hs
  rw [readLine] at h
  split at h
  · cases h
  · exact Except.ok.inj (Option.some.inj h) ▸ hs
  · exact hexpand _ _ _ _ _ _ _ hs h

theorem readLines_invariant (hkept : ∀ {s physical logical bank},
      Accepts allow physical logical bank s → P s → P (add s physical logical bank))
    {lines : List (List Char)} (hs : P s)
    (h : readLines allow lineno lines s = some (.ok s')) : P s' := by
  induction lines generalizing lineno s with
  | nil => exact Except.ok.inj (Option.some.inj h) ▸ hs
  | cons line lines ih =>
    obtain ⟨r, hr, hrest⟩ := Option.bind_eq_some_iff.mp h
    cases r with
    | error e => cases hrest
    | ok t => exact ih (readLine_invariant hkept hs hr) hrest

/-- A map that is read has entries, and what adding a pixel keeps. -/
theorem readMap_invariant (hkept : ∀ {s physical logical bank},
      Accepts allow physical logical bank s → P s → P (add s physical logical bank))
    {path : String} {text : Option (List Char)} {readError : Bool} {map : TempMap}
    (hempty : P .empty) (h : readMap allow path text readError = some (.ok map)) :
    ∃ s, P s ∧ s.map = map ∧ map.size ≠ 0 := by
  cases text with
  | none => cases h
  | some text =>
    obtain ⟨r, hr, hmap⟩ := Option.map_eq_some_iff.mp h
    cases r with
    | error e => cases hmap
    | ok s =>
      simp only at hmap
      split at hmap
      · cases hmap
      split at hmap
      · cases hmap
      next hsize =>
      obtain rfl := Except.ok.inj hmap
      exact ⟨s, readLines_invariant hkept hempty hr, rfl, hsize⟩

end Invariant

/-! ### The pixels of a line -/

/-- Add pixels, each with the bank that the one before it leaves. -/
def addAll (allow : Bool) (next : UInt32 → UInt32) :
    List (UInt32 × UInt32) → UInt32 → ReadState → Option ReadState
  | [], _, s => some s
  | (physical, logical) :: pixels, bank, s =>
    if Accepts allow physical logical bank s then
      addAll allow next pixels (next bank) (add s physical logical bank)
    else none

/-- The loop adds the pixels that it goes through, if it ends with both ranges. -/
theorem expand_ok_iff {k : Nat} {r : Except ReadFailure ReadState}
    (h : expand allow lineno ps ls fuel (pixel allow ps ls k).1 (pixel allow ps ls k).2 bank s =
      some r) :
    r = .ok s' ↔ ∃ d, (∀ i < d, Continues allow ps ls (k + i)) ∧ Ends allow ps ls (k + d) ∧
      addAll allow storedBank ((List.range' k d).map (pixel allow ps ls)) bank s = some s' := by
  -- on the fuel: the loop's next pixel is the pixel at `k + 1` of the same two ranges
  induction fuel generalizing k bank s with
  | zero => cases h
  | succ fuel ih =>
    rw [expand] at h
    by_cases hgo : Continues allow ps ls k
    -- the loop goes on, so a `d` that ends it is not 0, and is one more than that of the rest
    · have hzero : ¬Ends allow ps ls k := fun hend => hgo.1 hend.1
      rw [if_pos (show (pixel allow ps ls k).1 ≠ ps.stop ∧ (pixel allow ps ls k).2 ≠ ls.stop
        from hgo)] at h
      have hstep : ∀ d, ((∀ i < d + 1, Continues allow ps ls (k + i)) ↔
          ∀ i < d, Continues allow ps ls (k + 1 + i)) := by
        intro d
        constructor
        · intro hall i hi
          rw [Nat.add_right_comm]
          exact hall (i + 1) (by omega)
        · intro hall i hi
          cases i with
          | zero => exact hgo
          | succ i =>
            have := hall i (by omega)
            rwa [Nat.add_right_comm] at this
      have hsucc : (∃ d, (∀ i < d, Continues allow ps ls (k + i)) ∧ Ends allow ps ls (k + d) ∧
          addAll allow storedBank ((List.range' k d).map (pixel allow ps ls)) bank s = some s') ↔
          ∃ d, (∀ i < d, Continues allow ps ls (k + 1 + i)) ∧ Ends allow ps ls (k + 1 + d) ∧
            addAll allow storedBank (pixel allow ps ls k ::
              (List.range' (k + 1) d).map (pixel allow ps ls)) bank s = some s' := by
        constructor
        · rintro ⟨d, hall, hend, hadd⟩
          cases d with
          | zero => exact absurd hend hzero
          | succ d =>
            refine ⟨d, (hstep d).mp hall, ?_, hadd⟩
            rwa [Nat.add_right_comm]
        · rintro ⟨d, hall, hend, hadd⟩
          refine ⟨d + 1, (hstep d).mpr hall, ?_, hadd⟩
          rwa [Nat.add_right_comm] at hend
      rw [hsucc]
      -- the pixel is added, or the line is refused there
      rcases addPixel_cases allow lineno (pixel allow ps ls k).1 (pixel allow ps ls k).2 bank s with
        ⟨hacc, hadd⟩ | ⟨hacc, e, hadd⟩
      · rw [hadd] at h
        have hlogical := pixel_succ allow ps ls k
        simp only [hlogical] at h
        rw [ih (k := k + 1) h]
        refine exists_congr fun d => and_congr_right fun _ => and_congr_right fun _ => ?_
        rw [addAll, if_pos hacc]
      · rw [hadd] at h
        obtain rfl := Option.some.inj h
        constructor
        · intro h
          cases h
        · rintro ⟨d, -, -, hadd⟩
          rw [addAll, if_neg hacc] at hadd
          cases hadd
    -- the loop is over at `k`: only `d = 0` is left
    · rw [if_neg (show ¬((pixel allow ps ls k).1 ≠ ps.stop ∧ (pixel allow ps ls k).2 ≠ ls.stop)
        from hgo)] at h
      have hd : ∀ d, (∀ i < d, Continues allow ps ls (k + i)) → d = 0 := by
        intro d hall
        cases d with
        | zero => rfl
        | succ d => exact absurd (hall 0 (by omega)) hgo
      split at h
      · next hmis =>
        obtain rfl := Option.some.inj h
        constructor
        · intro h
          cases h
        · rintro ⟨d, hall, hend, -⟩
          obtain rfl := hd d hall
          exact absurd hmis (by rw [not_or, not_not, not_not]; exact hend)
      · next hend =>
        rw [not_or, not_not, not_not] at hend
        obtain rfl := Option.some.inj h
        constructor
        · intro h
          exact ⟨0, by simp, hend, by rw [Except.ok.inj h]; rfl⟩
        · rintro ⟨d, hall, -, hadd⟩
          obtain rfl := hd d hall
          exact congrArg _ (Option.some.inj hadd)

end Adara.Spec.PixelMapFile
