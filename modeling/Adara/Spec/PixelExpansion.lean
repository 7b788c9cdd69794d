import Adara.Spec.PixelShorthand

/-! # Shorthand lines and what they stand for

A line with ranges means the lines that it denotes, each with one pixel, wherever it stands in a
file (`MeansExpansion`).  It does unless the loop does not begin for a range whose stop is just
before its start, or the bank is the one for unmapped pixels and there are several of them. -/

namespace Adara.Spec.PixelExpansion

open Adara.Native Adara.Native.PixelMap Adara.Spec.PixelRanges Adara.Spec.PixelMapFile
open Adara.Spec.PixelShorthand

variable {allow readError : Bool} {lineno : Nat} {bank : UInt32} {s s' : ReadState}
variable {spec : LineSpec} {pixels : List (UInt32 × UInt32)} {line : List Char} {path : String}

/-! ### Adding the pixels of a line -/

/-- Pixels that are added have no error bit, their bank is one, and each is an entry more. -/
theorem addAll_some {next : UInt32 → UInt32} (h : addAll allow next pixels bank s = some s') :
    (∀ p ∈ pixels, p.1.toNat < 2 ^ 31) ∧ (pixels ≠ [] → BankOk bank) ∧
      s'.map.size = s.map.size + pixels.length := by
  induction pixels generalizing bank s with
  | nil =>
    obtain rfl := Option.some.inj h
    simp
  | cons pixel pixels ih =>
    rw [addAll] at h
    split at h
    · next hacc =>
      obtain ⟨hbits, -, hsize⟩ := ih h
      have hadd : (add s pixel.1 pixel.2 bank).map.size = s.map.size + 1 :=
        SortedMap.size_insert _ hacc.newPhysical
      refine ⟨List.forall_mem_cons.mpr ⟨hacc.noErrorBit, hbits⟩, fun _ => hacc.bankOk, ?_⟩
      rw [hsize, hadd, List.length_cons]
      omega
    · cases h

/-- Pixels that are new and distinct are added, with one bank for all of them. -/
theorem addAll_isSome (hbits : ∀ p ∈ pixels, p.1.toNat < 2 ^ 31) (hbank : BankOk bank)
    (hphysical : (pixels.map Prod.fst).Nodup)
    (hlogical : allow = false → (pixels.map Prod.snd).Nodup)
    (hnew : ∀ p ∈ pixels, s.map.find? p.1 = none)
    (hunused : allow = false → ∀ p ∈ pixels, p.2 ∉ s.outputPixels) :
    ∃ s', addAll allow id pixels bank s = some s' := by
  induction pixels generalizing s with
  | nil => exact ⟨s, rfl⟩
  | cons pixel pixels ih =>
    obtain ⟨hbit, hbits⟩ := List.forall_mem_cons.mp hbits
    obtain ⟨hfirst, hnew⟩ := List.forall_mem_cons.mp hnew
    obtain ⟨hnot, hphysical⟩ := List.nodup_cons.mp hphysical
    have hacc : Accepts allow pixel.1 pixel.2 bank s := by
      refine ⟨hbit, hfirst, ?_, hbank⟩
      cases allow with
      | true => exact .inl rfl
      | false => exact .inr (hunused rfl pixel (List.mem_cons_self ..))
    rw [addAll, if_pos hacc]
    apply ih hbits hphysical
    · exact fun hfalse => (List.nodup_cons.mp (hlogical hfalse)).2
    · intro p hp
      have hne : p.1 ≠ pixel.1 := fun heq => hnot (heq ▸ List.mem_map_of_mem hp)
      exact (SortedMap.find?_insert_of_ne _ hne).trans (hnew p hp)
    · intro hfalse p hp hmem
      rcases List.mem_cons.mp hmem with heq | hmem
      · exact (List.nodup_cons.mp (hlogical hfalse)).1 (heq ▸ List.mem_map_of_mem hp)
      · exact hunused hfalse p (List.mem_cons_of_mem _ hp) hmem

/-- A bank that is not the special one stays as it is. -/
theorem addAll_storedBank (hbank : bank ≠ -1) :
    addAll allow storedBank pixels bank s = addAll allow id pixels bank s := by
  have hstored : storedBank bank = bank := if_neg hbank
  induction pixels generalizing s with
  | nil => rfl
  | cons pixel pixels ih =>
    rw [addAll, addAll, hstored, ih]
    rfl

/-- The special bank is a reserved one for the second pixel. -/
theorem addAll_unmapped (hlength : 2 ≤ pixels.length) :
    addAll allow storedBank pixels (-1) s = none := by
  match pixels, hlength with
  | first :: second :: pixels, _ =>
    rw [addAll]
    split
    · rw [addAll, if_neg (fun hacc => hacc.bankOk.1 rfl)]
    · rfl

/-! ### A file and its lines -/

/-- The map of a file, if there is one. -/
def outcome (allow : Bool) (path : String) (text : List Char) (readError : Bool) :
    Option TempMap :=
  accepted (readMap allow path (some text) readError)

/-- The map, unless it is empty or the reading has failed. -/
def finish (readError : Bool) (s : ReadState) : Option TempMap :=
  if readError then none else if s.map.size = 0 then none else some s.map

theorem outcome_eq (allow : Bool) (path : String) (text : List Char) (readError : Bool) :
    outcome allow path text readError =
      (process allow (TextLines.getlines '\n' text) .empty).bind (finish readError) := by
  obtain ⟨r, hr, -⟩ := @readLines_isSome allow 1 _ (TextLines.getlines '\n' text) valid_empty
  rw [outcome, readMap, process, hr]
  cases r with
  | error e => rfl
  | ok s =>
    show (if readError then Except.error _ else if s.map.size = 0 then Except.error _
      else Except.ok s.map).toOption = finish readError s
    rw [finish]
    cases readError with
    | true => rfl
    | false =>
      rw [if_neg Bool.false_ne_true, if_neg Bool.false_ne_true]
      split <;> rfl

/-- In every file, a line means the lines of the pixels that it denotes, and it is an error if
    there are no such pixels. -/
def MeansExpansion (allow : Bool) (line : List Char) (spec : LineSpec) : Prop :=
  ∀ path readError before after text, TextLines.getlines '\n' text = before ++ line :: after →
    (∀ pixels, Denotes allow spec.physical spec.logical pixels → ∀ text',
      TextLines.getlines '\n' text' = before ++ pixels.map (explicitLine spec.bank) ++ after →
        outcome allow path text' readError = outcome allow path text readError) ∧
    ((∀ pixels, ¬Denotes allow spec.physical spec.logical pixels) →
      outcome allow path text readError = none)

/-- Not both ranges are closed.  Where the pixels can be added, none of the ranges is, and there
    is only one pixel if it is unmapped. -/
def WellStated (allow : Bool) (spec : LineSpec) : Prop :=
  ¬(Closed spec.physical ∧ Closed spec.logical) ∧
    ∀ pixels, Denotes allow spec.physical spec.logical pixels →
      (∀ p ∈ pixels, p.1.toNat < 2 ^ 31) → BankOk spec.bank →
        ¬Closed spec.physical ∧ ¬Closed spec.logical ∧ (spec.bank = -1 → pixels.length = 1)

theorem outcome_of_lines {before after : List (List Char)} {text : List Char}
    (hlines : TextLines.getlines '\n' text = before ++ line :: after) :
    outcome allow path text readError = ((process allow before .empty).bind fun s =>
      (accepted (readLine allow 1 line s)).bind (process allow after)).bind (finish readError) := by
  rw [outcome_eq, hlines, process_append before _ valid_empty]
  cases hbefore : process allow before .empty with
  | none => rfl
  | some s =>
    rw [Option.bind_some, Option.bind_some, process_cons (process_valid valid_empty hbefore)]

theorem outcome_of_pixels {before after : List (List Char)} {text : List Char}
    (hlines : TextLines.getlines '\n' text =
      before ++ pixels.map (explicitLine bank) ++ after) :
    outcome allow path text readError = ((process allow before .empty).bind fun s =>
      (addAll allow id pixels bank s).bind (process allow after)).bind (finish readError) := by
  rw [outcome_eq, hlines, List.append_assoc, process_append before _ valid_empty]
  cases hbefore : process allow before .empty with
  | none => rfl
  | some s =>
    have hvalid := process_valid valid_empty hbefore
    rw [Option.bind_some, Option.bind_some, process_append _ _ hvalid,
      process_explicit bank pixels hvalid]

/-- A line that is well stated adds its pixels. -/
theorem readLine_of_wellStated (hspec : WellStated allow spec)
    (hparse : parseLine 1 line = .ok (some spec)) (hs : Valid s)
    (hdenotes : Denotes allow spec.physical spec.logical pixels) :
    accepted (readLine allow 1 line s) = addAll allow id pixels spec.bank s := by
  obtain ⟨hopen, hpixels⟩ := hspec
  ext s'
  rw [readLine_iff hs hparse]
  constructor
  · rintro (⟨hps, hls, -⟩ | ⟨-, -, pixels', hdenotes', hadd⟩)
    · exact absurd ⟨hps, hls⟩ hopen
    · obtain rfl := hdenotes'.unique hdenotes
      by_cases hbank : spec.bank = -1
      · obtain ⟨hbits, hok, -⟩ := addAll_some hadd
        obtain ⟨-, -, hone⟩ := hpixels _ hdenotes hbits (hok hdenotes.ne_nil)
        -- there is no second pixel, for which the bank would have changed
        obtain ⟨pixel, rfl⟩ := List.length_eq_one_iff.mp (hone hbank)
        exact hadd
      · rwa [addAll_storedBank hbank] at hadd
  · intro hadd
    obtain ⟨hbits, hok, -⟩ := addAll_some hadd
    obtain ⟨hps, hls, hone⟩ := hpixels _ hdenotes hbits (hok hdenotes.ne_nil)
    refine .inr ⟨hps, hls, pixels, hdenotes, ?_⟩
    by_cases hbank : spec.bank = -1
    · obtain ⟨pixel, rfl⟩ := List.length_eq_one_iff.mp (hone hbank)
      exact hadd
    · rwa [addAll_storedBank hbank]

theorem newline_not_mem_explicitLine (pixel : UInt32 × UInt32) :
    '\n' ∉ explicitLine bank pixel := fun h =>
  ne_of_mem_explicitLine h (by decide) (by decide) rfl

/-- A line means its expansion just if it is well stated. -/
theorem meansExpansion_of_wellStated (hparse : parseLine 1 line = .ok (some spec))
    (hspec : WellStated allow spec) : MeansExpansion allow line spec := by
  intro path readError before after text hlines
  rw [outcome_of_lines hlines]
  constructor
  · intro pixels hdenotes text' hlines'
    rw [outcome_of_pixels hlines']
    cases hbefore : process allow before .empty with
    | none => rfl
    | some s =>
      have hvalid := process_valid valid_empty hbefore
      rw [Option.bind_some, Option.bind_some, readLine_of_wellStated hspec hparse hvalid hdenotes]
  · intro hnone
    cases hbefore : process allow before .empty with
    | none => rfl
    | some s =>
      have hline : accepted (readLine allow 1 line s) = none := by
        rw [Option.eq_none_iff_forall_ne_some]
        intro s' hread
        rcases (readLine_iff (process_valid valid_empty hbefore) hparse).mp hread with
          ⟨hps, hls, -⟩ | ⟨-, -, pixels, hdenotes, -⟩
        · exact hspec.1 ⟨hps, hls⟩
        · exact hnone pixels hdenotes
      rw [Option.bind_some, hline]
      rfl

/-- A file with these lines. -/
def fileOf (lines : List (List Char)) : List Char := lines.flatMap fun line => line ++ ['\n']

theorem not_closed_of_meansExpansion (hparse : parseLine 1 line = .ok (some spec))
    (hnewline : '\n' ∉ line) (hmeans : MeansExpansion allow line spec) :
    ¬(Closed spec.physical ∧ Closed spec.logical) := by
  rintro ⟨hps, hls⟩
  -- the file has a pixel in front of the line
  have hfirst : process allow [explicitLine 1 (0, 0)] .empty = some (add .empty 0 0 1) := by
    have hadd := @process_explicit allow _ 1 [(0, 0)] valid_empty
    rw [List.map_cons, List.map_nil] at hadd
    rw [hadd]
    cases allow <;> rfl
  have hline : accepted (readLine allow 1 line (add .empty 0 0 1)) =
      some (add .empty 0 0 1) :=
    (readLine_iff (process_valid valid_empty hfirst) hparse).mpr (.inl ⟨hps, hls, rfl⟩)
  have hlines : TextLines.getlines '\n' (fileOf [explicitLine 1 (0, 0), line]) =
      [explicitLine 1 (0, 0)] ++ line :: [] := by
    apply TextLines.getlines_flatMap
    intro l hl
    rcases List.mem_pair.mp hl with rfl | rfl
    · exact newline_not_mem_explicitLine _
    · exact hnewline
  obtain ⟨hsame, herror⟩ := hmeans "" false _ _ _ hlines
  have hmap := @outcome_of_lines allow false line "" _ _ _ hlines
  rw [hfirst, Option.bind_some, hline] at hmap
  have hone : outcome allow "" (fileOf [explicitLine 1 (0, 0), line]) false =
      some (add .empty 0 0 1).map := hmap
  by_cases hdenotes : ∃ pixels, Denotes allow spec.physical spec.logical pixels
  · obtain ⟨pixels, hdenotes⟩ := hdenotes
    have hlines' : TextLines.getlines '\n' (fileOf ([explicitLine 1 (0, 0)] ++
        pixels.map (explicitLine spec.bank) ++ [])) =
        [explicitLine 1 (0, 0)] ++ pixels.map (explicitLine spec.bank) ++ [] := by
      apply TextLines.getlines_flatMap
      intro l hl
      rw [List.append_nil, List.mem_append, List.mem_singleton, List.mem_map] at hl
      rcases hl with rfl | ⟨pixel, -, rfl⟩ <;> exact newline_not_mem_explicitLine _
    have hexplicit := @outcome_of_pixels allow false spec.bank pixels "" _ _ _ hlines'
    rw [hsame pixels hdenotes _ hlines', hone, hfirst, Option.bind_some] at hexplicit
    cases hadd : addAll allow id pixels spec.bank (add .empty 0 0 1) with
    | none =>
      rw [hadd] at hexplicit
      cases hexplicit
    | some s' =>
      -- the pixels of the line are more entries
      obtain ⟨-, -, hsize⟩ := addAll_some hadd
      have hlength := List.length_pos_of_ne_nil hdenotes.ne_nil
      have hfinish : finish false s' = some s'.map := by
        rw [finish, if_neg Bool.false_ne_true, if_neg (by omega)]
      rw [hadd, Option.bind_some] at hexplicit
      have heq : some (add .empty 0 0 1).map = finish false s' := hexplicit
      rw [hfinish] at heq
      rw [← Option.some.inj heq] at hsize
      omega
  · rw [herror (fun pixels h => hdenotes ⟨pixels, h⟩)] at hone
    cases hone

theorem wellStated_of_meansExpansion (hparse : parseLine 1 line = .ok (some spec))
    (hnewline : '\n' ∉ line) (hmeans : MeansExpansion allow line spec) :
    WellStated allow spec := by
  have hopen := not_closed_of_meansExpansion hparse hnewline hmeans
  refine ⟨hopen, fun pixels hdenotes hbits hbank => ?_⟩
  obtain ⟨hphysical, hlogical⟩ := hdenotes.nodup
  obtain ⟨s', hadd⟩ := @addAll_isSome allow spec.bank .empty pixels hbits hbank hphysical hlogical
    (fun _ _ => rfl) (fun _ _ _ => List.not_mem_nil)
  have hempty : process allow [] .empty = some .empty := rfl
  have hlines : TextLines.getlines '\n' (fileOf [line]) = [] ++ line :: [] := by
    apply TextLines.getlines_flatMap
    intro l hl
    rwa [List.mem_singleton.mp hl]
  have hlines' : TextLines.getlines '\n' (fileOf ([] ++ pixels.map (explicitLine spec.bank) ++
      [])) = [] ++ pixels.map (explicitLine spec.bank) ++ [] := by
    apply TextLines.getlines_flatMap
    intro l hl
    rw [List.append_nil, List.nil_append, List.mem_map] at hl
    obtain ⟨pixel, -, rfl⟩ := hl
    exact newline_not_mem_explicitLine _
  -- the file of the explicit lines is accepted
  have hexplicit : outcome allow "" (fileOf ([] ++ pixels.map (explicitLine spec.bank) ++ []))
      false = some s'.map := by
    obtain ⟨-, -, hsize⟩ := addAll_some hadd
    have hlength := List.length_pos_of_ne_nil hdenotes.ne_nil
    have hfinish : finish false s' = some s'.map := by
      rw [finish, if_neg Bool.false_ne_true, if_neg (by omega)]
    have hout := @outcome_of_pixels allow false spec.bank pixels "" _ _ _ hlines'
    rw [hempty, Option.bind_some, hadd] at hout
    exact hout.trans hfinish
  rw [(hmeans "" false _ _ _ hlines).1 pixels hdenotes _ hlines', outcome_of_lines hlines, hempty,
    Option.bind_some] at hexplicit
  cases hread : accepted (readLine allow 1 line .empty) with
  | none =>
    rw [hread] at hexplicit
    cases hexplicit
  | some t =>
    rcases (readLine_iff valid_empty hparse).mp hread with
      ⟨hps, hls, -⟩ | ⟨hps, hls, pixels', hdenotes', hadd'⟩
    · exact absurd ⟨hps, hls⟩ hopen
    · obtain rfl := hdenotes'.unique hdenotes
      refine ⟨hps, hls, fun hunmapped => ?_⟩
      have hlength := List.length_pos_of_ne_nil hdenotes.ne_nil
      by_contra hne
      rw [hunmapped, addAll_unmapped (by omega)] at hadd'
      cases hadd'

/-- Every file is read to an end.  In every file, a line means the lines of its pixels just if not
    both ranges are closed and, where its pixels can be added, no range is closed and an unmapped
    pixel is the only one. -/
theorem meansExpansion_iff (hparse : parseLine lineno line = .ok (some spec))
    (hnewline : '\n' ∉ line) :
    (∀ path text readError, (readMap allow path text readError).isSome) ∧
      (MeansExpansion allow line spec ↔ WellStated allow spec) := by
  have hfirst := parseLine_ok hparse 1
  exact ⟨readMap_isSome allow, wellStated_of_meansExpansion hfirst hnewline,
    meansExpansion_of_wellStated hfirst⟩

/-- The range `1:2:1`. -/
def oneToTwo : PixelRange := ⟨1, 2, 1⟩

theorem parseLine_twoUnmapped :
    parseLine 1 "1:2:1 1:2:1 -1".toList = .ok (some ⟨oneToTwo, oneToTwo, -1⟩) := by rfl

theorem denotes_twoUnmapped (allow : Bool) :
    Denotes allow oneToTwo oneToTwo [(1, 1), (2, 2)] := by
  have hcount : IsCount oneToTwo 2 := by
    refine ⟨by decide, rfl, fun k hk => ?_⟩
    obtain rfl : k = 0 := by omega
    decide
  exact ⟨2, 2, hcount, hcount, Nat.dvd_refl 2, .inr rfl, rfl⟩

theorem meansExpansion_iff_twoUnmapped :
    (parseLine 1 "1:2:1 1:2:1 -1".toList = .ok (some ⟨oneToTwo, oneToTwo, -1⟩) ∧
      '\n' ∉ "1:2:1 1:2:1 -1".toList) ∧
    (∀ path text readError, (readMap false path text readError).isSome) ∧
    (MeansExpansion false "1:2:1 1:2:1 -1".toList ⟨oneToTwo, oneToTwo, -1⟩ ↔
      WellStated false ⟨oneToTwo, oneToTwo, -1⟩) :=
  ⟨⟨parseLine_twoUnmapped, by decide⟩, meansExpansion_iff parseLine_twoUnmapped (by decide)⟩

/-- Two unmapped pixels can be listed one by one, but not as ranges. -/
theorem not_meansExpansion : ¬∀ allow lineno line spec,
    parseLine lineno line = .ok (some spec) → '\n' ∉ line → MeansExpansion allow line spec := by
  intro h
  have hmeans := h false 1 _ _ parseLine_twoUnmapped (by decide)
  have hspec := wellStated_of_meansExpansion parseLine_twoUnmapped (by decide) hmeans
  have hphysical : ∀ p ∈ [((1 : UInt32), (1 : UInt32)), (2, 2)], p.1.toNat < 2 ^ 31 :=
    List.forall_mem_cons.mpr ⟨by decide, List.forall_mem_singleton.mpr (by decide)⟩
  obtain ⟨-, -, hone⟩ := hspec.2 _ (denotes_twoUnmapped false) hphysical (by decide)
  exact absurd (hone rfl) (by decide)

end Adara.Spec.PixelExpansion
