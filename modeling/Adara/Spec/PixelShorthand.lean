import Adara.Spec.PixelMapFile
import Mathlib.Data.List.TakeWhile

/-! # What the lines of a pixel map file add

A line of one pixel is read as such (`parseLine_explicitLine`).  A line with ranges adds the
pixels that it denotes, unless a range is closed (`readLine_iff`).  What a line adds does not
depend on its number, so lines can be taken apart (`process_append`). -/

namespace Adara.Spec.PixelShorthand

open Adara.Native Adara.Native.PixelMap Adara.Spec.PixelRanges Adara.Spec.PixelMapFile

variable {allow : Bool} {lineno : Nat} {bank : UInt32} {s s' : ReadState} {spec : LineSpec}
variable {pixels : List (UInt32 × UInt32)} {line : List Char}

/-! ### Explicit lines -/

/-- The line of one pixel. -/
def explicitLine (bank : UInt32) (pixel : UInt32 × UInt32) : List Char :=
  Nat.toDigits 10 pixel.1.toNat ++ ' ' :: (Nat.toDigits 10 pixel.2.toNat ++
    ' ' :: Nat.toDigits 10 bank.toNat)

/-- The range of a single id. -/
def single (id : UInt32) : PixelRange := ⟨id, id, 1⟩

theorem toDigits_length (x : UInt32) : (Nat.toDigits 10 x.toNat).length ≤ 10 := by
  have hlt := x.toNat_lt
  exact (Nat.length_toDigits_le_iff (by decide) (by decide)).mpr (by omega)

/-- A line of one pixel has digits and blanks only. -/
theorem mem_explicitLine {pixel : UInt32 × UInt32} {c : Char} (h : c ∈ explicitLine bank pixel) :
    c.isDigit = true ∨ c = ' ' := by
  simp only [explicitLine, List.mem_append, List.mem_cons] at h
  rcases h with h | rfl | h | rfl | h
  · exact .inl (AutoSave.isDigit_toDigits _ _ h)
  · exact .inr rfl
  · exact .inl (AutoSave.isDigit_toDigits _ _ h)
  · exact .inr rfl
  · exact .inl (AutoSave.isDigit_toDigits _ _ h)

theorem ne_of_mem_explicitLine {pixel : UInt32 × UInt32} {c d : Char}
    (h : c ∈ explicitLine bank pixel) (hd : d.isDigit = false) (hblank : d ≠ ' ') : c ≠ d := by
  rintro rfl
  rcases mem_explicitLine h with hdigit | hspace
  · rw [hd] at hdigit
    cases hdigit
  · exact hblank hspace

theorem takeWhile_explicitLine {pixel : UInt32 × UInt32} {d : Char} (hd : d.isDigit = false)
    (hblank : d ≠ ' ') :
    (explicitLine bank pixel).takeWhile (· ≠ d) = explicitLine bank pixel := by
  rw [List.takeWhile_eq_self_iff]
  intro c hc
  simpa using ne_of_mem_explicitLine hc hd hblank

theorem parseWord_toDigits (kind : String) (lineno : Nat) (id : UInt32) :
    parseWord kind lineno (Nat.toDigits 10 id.toNat) = .ok (single id) := by
  have hcolon : (Nat.toDigits 10 id.toNat).contains ':' = false := by
    rw [List.contains_eq_mem, decide_eq_false_iff_not]
    intro hmem
    exact absurd (AutoSave.isDigit_toDigits _ _ hmem) (by decide)
  have hscan := @ScannedContainer.scanUnsigned_toDigits _ [] id.toNat_lt (by simp)
  rw [List.append_nil] at hscan
  rw [parseWord, hcolon, if_neg Bool.false_ne_true, hscan]
  simp only [UInt32.ofNat_toNat, single]

/-- A line of one pixel is read as such. -/
theorem parseLine_explicitLine (lineno : Nat) (bank : UInt32) (pixel : UInt32 × UInt32) :
    parseLine lineno (explicitLine bank pixel) =
      .ok (some ⟨single pixel.1, single pixel.2, bank⟩) := by
  have hspace : isSpace ' ' = true := by decide
  have hdigits : ∀ (x : UInt32), ∀ c ∈ Nat.toDigits 10 x.toNat, isSpace c = false :=
    fun x c hc => isSpace_of_isDigit (AutoSave.isDigit_toDigits _ _ hc)
  have hblank : ((explicitLine bank pixel).all fun c => c = ' ' ∨ c = '\t') = false := by
    obtain ⟨c, cs, hcs⟩ := List.exists_cons_of_ne_nil (AutoSave.toDigits_ne_nil pixel.1.toNat)
    have hc : c.isDigit = true := AutoSave.isDigit_toDigits _ _ (hcs ▸ List.mem_cons_self ..)
    rw [explicitLine, hcs, List.cons_append, List.all_cons, Bool.and_eq_false_iff]
    left
    rw [decide_eq_false_iff_not]
    rintro (rfl | rfl) <;> cases hc
  have hphysical := TextLines.word_append (AutoSave.toDigits_ne_nil _) (hdigits pixel.1) hspace
    (Nat.toDigits 10 pixel.2.toNat ++ ' ' :: Nat.toDigits 10 bank.toNat)
  have hlogical := TextLines.word_append (AutoSave.toDigits_ne_nil _) (hdigits pixel.2) hspace
    (Nat.toDigits 10 bank.toNat)
  have hscan := @ScannedContainer.scanUnsigned_toDigits _ [] bank.toNat_lt (by simp)
  rw [List.append_nil] at hscan
  have hskip : scanUnsigned (' ' :: Nat.toDigits 10 bank.toNat) =
      scanUnsigned (Nat.toDigits 10 bank.toNat) := by
    rw [scanUnsigned, List.dropWhile_cons_of_pos hspace, scanUnsigned]
  have hone := toDigits_length pixel.1
  have htwo := toDigits_length pixel.2
  rw [parseLine, takeWhile_explicitLine (by decide) (by decide), hblank,
    if_neg Bool.false_ne_true, takeWhile_explicitLine (by decide) (by decide), explicitLine]
  simp only [hphysical, TextLines.word_cons hspace, hlogical, bufSize]
  rw [if_neg (by omega), if_neg (by omega),
    if_neg (not_or.mpr ⟨AutoSave.toDigits_ne_nil _, AutoSave.toDigits_ne_nil _⟩), hskip, hscan]
  simp only [TextLines.word, List.dropWhile_nil, List.takeWhile_nil, ne_eq, not_true, if_false,
    parseWord_toDigits, UInt32.ofNat_toNat]
  rfl

theorem single_isCount (id : UInt32) : IsCount (single id) 1 := ⟨Nat.one_pos, rfl, by omega⟩

theorem single_not_closed (id : UInt32) : ¬Closed (single id) := by
  intro h
  have hone : id + 0 = id + 1 := (UInt32.add_zero id).trans h
  exact absurd ((UInt32.add_right_inj id).mp hone) (by decide)

/-! ### What a line adds -/

/-- What is read, if there is no error. -/
def accepted {α : Type} (r : Option (Except ReadFailure α)) : Option α := r.bind Except.toOption

/-- The number of a line is in the texts of its errors only. -/
theorem parseLine_toOption (lineno lineno' : Nat) (line : List Char) :
    (parseLine lineno line).toOption = (parseLine lineno' line).toOption := by
  have hword : ∀ kind word, (parseWord kind lineno word).toOption =
      (parseWord kind lineno' word).toOption := by
    intro kind word
    rw [parseWord, parseWord]
    split <;> split <;> rfl
  simp only [parseLine]
  split
  · rfl
  split
  · rfl
  split
  · rfl
  split
  · rfl
  split
  · rfl
  next bank text _ =>
  split
  · rfl
  have hphysical := hword "Physical" (TextLines.word isSpace
    ((line.takeWhile (· ≠ '#')).takeWhile (· ≠ '\x00'))).1
  have hlogical := hword "Logical" (TextLines.word isSpace (TextLines.word isSpace
    ((line.takeWhile (· ≠ '#')).takeWhile (· ≠ '\x00'))).2).1
  generalize parseWord "Physical" lineno _ = p at hphysical ⊢
  generalize parseWord "Physical" lineno' _ = p' at hphysical ⊢
  generalize parseWord "Logical" lineno _ = l at hlogical ⊢
  generalize parseWord "Logical" lineno' _ = l' at hlogical ⊢
  cases p <;> cases p' <;> cases l <;> cases l' <;> simp_all [Except.toOption, bind, Except.bind]

theorem parseLine_ok {o : Option LineSpec} (h : parseLine lineno line = .ok o) (lineno' : Nat) :
    parseLine lineno' line = .ok o := by
  have heq := parseLine_toOption lineno lineno' line
  rw [h] at heq
  cases hparse : parseLine lineno' line with
  | error e =>
    rw [hparse] at heq
    cases heq
  | ok o' =>
    rw [hparse] at heq
    rw [Option.some.inj heq]

/-- What a line adds: nothing where both ranges are closed, else the pixels that it denotes. -/
theorem readLine_iff (hs : Valid s) (hline : parseLine lineno line = .ok (some spec)) :
    accepted (readLine allow lineno line s) = some s' ↔
      (Closed spec.physical ∧ Closed spec.logical ∧ s' = s) ∨
      ¬Closed spec.physical ∧ ¬Closed spec.logical ∧ ∃ pixels,
        Denotes allow spec.physical spec.logical pixels ∧
          addAll allow storedBank pixels spec.bank s = some s' := by
  obtain ⟨r, hr, -⟩ := @readLine_isSome allow lineno s line hs
  have hexpand := hr
  rw [readLine, hline] at hexpand
  have hok := @expand_ok_iff allow lineno expandFuel spec.bank s s' spec.physical spec.logical 0 r
    hexpand
  have haccepted : accepted (readLine allow lineno line s) = some s' ↔ r = .ok s' := by
    rw [hr]
    cases r <;> simp [accepted, Except.toOption]
  rw [haccepted, hok]
  simp only [Nat.zero_add, ← List.range_eq_range']
  constructor
  · rintro ⟨d, hgo, hend, hadd⟩
    by_cases hd : d = 0
    · subst hd
      exact .inl ⟨hend.1, hend.2, (Option.some.inj hadd).symm⟩
    · have hne : (List.range d).map (pixel allow spec.physical spec.logical) ≠ [] := by
        rw [ne_eq, List.map_eq_nil_iff, List.range_eq_nil]
        exact hd
      obtain ⟨hps, hls, hdenotes⟩ := (loop_iff _ hne).mp ⟨d, hgo, hend, rfl⟩
      exact .inr ⟨hps, hls, _, hdenotes, hadd⟩
  · rintro (⟨hps, hls, rfl⟩ | ⟨hps, hls, pixels, hdenotes, hadd⟩)
    · exact ⟨0, by simp, ⟨hps, hls⟩, rfl⟩
    · obtain ⟨n, hgo, hend, rfl⟩ := (loop_iff _ hdenotes.ne_nil).mpr ⟨hps, hls, hdenotes⟩
      exact ⟨n, hgo, hend, hadd⟩

/-- What a line adds does not depend on its number. -/
theorem readLine_lineno (hs : Valid s) (lineno' : Nat) :
    accepted (readLine allow lineno line s) = accepted (readLine allow lineno' line s) := by
  cases hparse : parseLine lineno line with
  | error e =>
    have heq := parseLine_toOption lineno lineno' line
    cases hparse' : parseLine lineno' line with
    | error e' => rw [readLine, hparse, readLine, hparse']; rfl
    | ok o =>
      rw [hparse, hparse'] at heq
      cases heq
  | ok o =>
    have hparse' := parseLine_ok hparse lineno'
    cases o with
    | none => rw [readLine, hparse, readLine, hparse']
    | some spec =>
      ext s'
      rw [readLine_iff hs hparse, readLine_iff hs hparse']

/-! ### Lines one after the other -/

/-- What lines add. -/
def process (allow : Bool) (lines : List (List Char)) (s : ReadState) : Option ReadState :=
  accepted (readLines allow 1 lines s)

theorem valid_of_accepted (hs : Valid s) (h : accepted (readLine allow lineno line s) = some s') :
    Valid s' := by
  obtain ⟨r, hr, hvalid⟩ := @readLine_isSome allow lineno s line hs
  rw [hr] at h
  cases r with
  | error e => cases h
  | ok t => exact Option.some.inj h ▸ hvalid t rfl

theorem readLines_lineno (lines : List (List Char)) (hs : Valid s) (lineno lineno' : Nat) :
    accepted (readLines allow lineno lines s) = accepted (readLines allow lineno' lines s) := by
  induction lines generalizing s lineno lineno' with
  | nil => rfl
  | cons line lines ih =>
    have hline := @readLine_lineno allow lineno s line hs lineno'
    obtain ⟨r, hr, hvalid⟩ := @readLine_isSome allow lineno s line hs
    obtain ⟨r', hr', -⟩ := @readLine_isSome allow lineno' s line hs
    rw [hr, hr'] at hline
    rw [readLines, hr, readLines, hr']
    cases r with
    | error e =>
      cases r' with
      | error e' => rfl
      | ok t' => cases hline
    | ok t =>
      cases r' with
      | error e' => cases hline
      | ok t' =>
        obtain rfl := Option.some.inj hline
        exact ih (hvalid t rfl) _ _

theorem process_cons (hs : Valid s) (line : List Char) (lines : List (List Char)) :
    process allow (line :: lines) s =
      (accepted (readLine allow 1 line s)).bind (process allow lines) := by
  obtain ⟨r, hr, hvalid⟩ := @readLine_isSome allow 1 s line hs
  rw [process, readLines, hr]
  cases r with
  | error e => rfl
  | ok t => exact readLines_lineno lines (hvalid t rfl) 2 1

theorem process_valid {lines : List (List Char)} (hs : Valid s)
    (h : process allow lines s = some s') : Valid s' := by
  obtain ⟨r, hr, hvalid⟩ := @readLines_isSome allow 1 s lines hs
  rw [process, hr] at h
  cases r with
  | error e => cases h
  | ok t => exact Option.some.inj h ▸ hvalid t rfl

theorem process_append (before after : List (List Char)) (hs : Valid s) :
    process allow (before ++ after) s = (process allow before s).bind (process allow after) := by
  induction before generalizing s with
  | nil => rfl
  | cons line before ih =>
    rw [List.cons_append, process_cons hs, process_cons hs]
    cases hline : accepted (readLine allow 1 line s) with
    | none => rfl
    | some t => exact ih (valid_of_accepted hs hline)

/-- The lines of some pixels add these pixels, each with the same bank. -/
theorem process_explicit (bank : UInt32) (pixels : List (UInt32 × UInt32)) (hs : Valid s) :
    process allow (pixels.map (explicitLine bank)) s = addAll allow id pixels bank s := by
  induction pixels generalizing s with
  | nil => rfl
  | cons pixel pixels ih =>
    have hdenotes : ∀ l, Denotes allow (single pixel.1) (single pixel.2) l ↔ l = [pixel] := by
      intro l
      constructor
      · rintro ⟨n, m, hn, hm, -, -, rfl⟩
        obtain rfl := hn.unique (single_isCount pixel.1)
        simp [nth, single]
      · rintro rfl
        refine ⟨1, 1, single_isCount _, single_isCount _, Nat.dvd_refl 1, .inr rfl, ?_⟩
        simp [nth, single]
    have hline : accepted (readLine allow 1 (explicitLine bank pixel) s) =
        addAll allow id [pixel] bank s := by
      ext s'
      rw [readLine_iff hs (parseLine_explicitLine 1 bank pixel)]
      simp only [single_not_closed, false_and, false_or, not_false_eq_true, true_and, hdenotes,
        exists_eq_left]
      rfl
    rw [List.map_cons, process_cons hs, hline]
    by_cases hacc : Accepts allow pixel.1 pixel.2 bank s
    · have hsingle : addAll allow id [pixel] bank s = some (add s pixel.1 pixel.2 bank) := by
        rw [addAll, if_pos hacc]
        rfl
      rw [hsingle, addAll, if_pos hacc]
      exact ih (hs.add hacc)
    · have hsingle : addAll allow id [pixel] bank s = none := by rw [addAll, if_neg hacc]
      rw [hsingle, addAll, if_neg hacc]
      rfl

end Adara.Spec.PixelShorthand
