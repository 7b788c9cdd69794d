import Adara.Native.AutoSave
import Mathlib.Data.List.Infix

/-! # Saved PVs are read back

Time, name and text of a PV are read back from its line.  A newline in the value is restored,
but so is one where the value itself has `%0A`: just these values are not
(`auto_save_round_trip_iff`). -/

namespace Adara.Spec.AutoSave

open Adara.Native Adara.Native.AutoSave

/-! ### Values -/

/-- What stands for a newline. -/
def escape : List Char := ['%', '0', 'A']

theorem newline_notMem_encode (value : List Char) : '\n' ∉ encodeAutoSaveString value := by
  induction value with
  | nil => exact List.not_mem_nil
  | cons c value ih =>
    rw [encodeAutoSaveString]
    split
    · simp [ih]
    · rename_i hne
      simp [ih, Ne.symm hne]

/-- Newlines are written as escapes, and every escape is read as a newline. -/
theorem decode_encode (value : List Char) :
    decodeAutoSaveString (encodeAutoSaveString value) = decodeAutoSaveString value := by
  fun_induction decodeAutoSaveString value with
  | case1 value ih => simp [encodeAutoSaveString, decodeAutoSaveString, ih]
  | case2 c value hplain ih =>
    by_cases hc : c = '\n'
    · rw [encodeAutoSaveString, if_pos hc, decodeAutoSaveString, ih, hc]
    · -- the text behind `c` becomes no escape by the encoding
      rw [encodeAutoSaveString, if_neg hc, decodeAutoSaveString, ih]
      intro rest hpercent hrest
      match value, hrest, hplain with
      | [], hrest, _ => cases hrest
      | zero :: value, hrest, hplain =>
        rw [encodeAutoSaveString] at hrest
        split at hrest
        · cases hrest
        · match value, hrest, hplain with
          | [], hrest, _ => cases hrest
          | a :: value, hrest, hplain =>
            rw [encodeAutoSaveString] at hrest
            split at hrest
            · cases hrest
            · injection hrest with hzero hrest
              injection hrest with ha _
              exact hplain value hpercent (by rw [hzero, ha])
  | case3 => rfl

theorem decode_eq_self_iff (value : List Char) :
    decodeAutoSaveString value = value ↔ ¬ escape <:+: value := by
  fun_induction decodeAutoSaveString value with
  | case1 value ih =>
    refine iff_of_false (fun heq => by cases heq) (not_not.mpr ?_)
    exact ⟨[], value, rfl⟩
  | case2 c value hplain ih =>
    have hprefix : ¬ escape <+: c :: value := by
      rintro ⟨rest, heq⟩
      injection heq with hc heq
      exact hplain rest hc.symm heq.symm
    rw [List.infix_cons_iff, or_iff_right hprefix, ← ih]
    exact ⟨fun heq => (List.cons.inj heq).2, fun heq => by rw [heq]⟩
  | case3 => exact iff_of_true rfl (by simp [escape])

/-- A value is restored where it has no escape of its own. -/
theorem decode_encode_iff (value : List Char) :
    decodeAutoSaveString (encodeAutoSaveString value) = value ↔ ¬ escape <:+: value := by
  rw [decode_encode]
  exact decode_eq_self_iff value

/-! ### Times -/

theorem lexicalCast_digits {digits : List Char} (hne : digits ≠ [])
    (hdigits : ∀ c ∈ digits, c.isDigit = true) :
    lexicalCast digits = some ((Nat.ofDigitChars 10 digits 0 : Nat) : Int) := by
  obtain ⟨c, digits, rfl⟩ := List.exists_cons_of_ne_nil hne
  have hsign : takeSign (c :: digits) = (false, c :: digits) :=
    takeSign_of_isDigit (hdigits c List.mem_cons_self)
  simp [lexicalCast, hsign, List.all_eq_true.mpr hdigits]

theorem isDigit_toDigits (n : Nat) : ∀ c ∈ Nat.toDigits 10 n, c.isDigit = true := fun _ hc =>
  Nat.isDigit_of_mem_toDigits (by decide) (by decide) hc

theorem toDigits_ne_nil (n : Nat) : Nat.toDigits 10 n ≠ [] := by
  have hpos := Nat.length_toDigits_pos (b := 10) (n := n)
  exact List.ne_nil_of_length_pos hpos

theorem lexicalCast_intText (n : Int) : lexicalCast (intText n) = some n := by
  rw [intText]
  by_cases hneg : n < 0
  · have hall : (Nat.toDigits 10 n.natAbs).all Char.isDigit = true :=
      List.all_eq_true.mpr (isDigit_toDigits _)
    rw [if_pos hneg]
    simp only [lexicalCast, takeSign, toDigits_ne_nil, hall, Nat.ofDigitChars_ten_toDigits]
    simp only [not_true, or_self, if_false, if_true, Option.some.injEq]
    omega
  · rw [if_neg hneg, lexicalCast_digits (toDigits_ne_nil _) (isDigit_toDigits _),
      Nat.ofDigitChars_ten_toDigits, Option.some.injEq]
    omega

/-- Digits, a minus and the dot. -/
theorem mem_timeText {c : AutoSaveCall} {x : Char} (h : x ∈ timeText c) :
    x.isDigit = true ∨ x = '-' ∨ x = '.' := by
  simp only [timeText, List.mem_append, List.mem_cons, List.mem_replicate] at h
  rcases h with h | rfl | ⟨-, rfl⟩ | h
  · rw [intText] at h
    split at h
    · rcases List.mem_cons.mp h with rfl | h
      · exact .inr (.inl rfl)
      · exact .inl (isDigit_toDigits _ _ h)
    · exact .inl (isDigit_toDigits _ _ h)
  · exact .inr (.inr rfl)
  · exact .inl rfl
  · exact .inl (isDigit_toDigits _ _ h)

theorem isSpace_of_mem_timeText {c : AutoSaveCall} {x : Char} (h : x ∈ timeText c) :
    isSpace x = false := by
  rcases mem_timeText h with hdigit | rfl | rfl
  · exact isSpace_of_isDigit hdigit
  · decide
  · decide

/-- The time is read back. -/
theorem parseTimeString_timeText (c : AutoSaveCall) :
    parseTimeString (timeText c) = some c.time := by
  have hsec : ∀ x ∈ intText c.sec, (decide (x ≠ '.')) = true := by
    intro x hx
    refine decide_eq_true ?_
    rintro rfl
    rw [intText] at hx
    split at hx
    · rcases List.mem_cons.mp hx with heq | hx
      · cases heq
      · exact absurd (isDigit_toDigits _ _ hx) (by decide)
    · exact absurd (isDigit_toDigits _ _ hx) (by decide)
  have hnsec : lexicalCast (List.replicate (9 - (Nat.toDigits 10 c.nsec).length) '0' ++
      Nat.toDigits 10 c.nsec) = some (c.nsec : Int) := by
    -- the zeros in front do not matter
    rw [lexicalCast_digits, Nat.ofDigitChars_append, Nat.ofDigitChars_replicate_zero,
      Nat.mul_zero, Nat.ofDigitChars_ten_toDigits]
    · exact List.append_ne_nil_of_right_ne_nil _ (toDigits_ne_nil _)
    · intro x hx
      rcases List.mem_append.mp hx with hx | hx
      · rw [List.eq_of_mem_replicate hx]
        rfl
      · exact isDigit_toDigits _ _ hx
  rw [parseTimeString, timeText, List.takeWhile_append_of_pos hsec,
    List.dropWhile_append_of_pos hsec]
  simp [lexicalCast_intText, hnsec, AutoSaveCall.time]

/-! ### Lines -/

/-- A name the reader can tell from the rest of the line. -/
structure Readable (c : AutoSaveCall) : Prop where
  ne_nil : c.name ≠ []
  isSpace : ∀ x ∈ c.name, isSpace x = false

theorem timeText_ne_nil (c : AutoSaveCall) : timeText c ≠ [] := by simp [timeText]

theorem parseAutoSaveLine_eq {c : AutoSaveCall} (h : Readable c) :
    parseAutoSaveLine (autoSaveLine c) =
      some (c.name, timeText c, decodeAutoSaveString (encodeAutoSaveString c.value)) := by
  have htime : TextLines.word isSpace (autoSaveLine c) =
      (timeText c, ' ' :: (c.name ++ ' ' :: encodeAutoSaveString c.value)) :=
    TextLines.word_append (timeText_ne_nil c) (fun _ hx => isSpace_of_mem_timeText hx) rfl _
  have hname : TextLines.word isSpace (' ' :: (c.name ++ ' ' :: encodeAutoSaveString c.value)) =
      (c.name, ' ' :: encodeAutoSaveString c.value) := by
    rw [TextLines.word_cons rfl, TextLines.word_append h.ne_nil h.isSpace rfl]
  rw [parseAutoSaveLine, htime]
  simp only [parseTimeString_timeText, Option.isNone_some, Bool.false_eq_true, if_false, hname,
    if_true]

/-- No line gives a PV without a name. -/
theorem name_ne_nil_of_parse {line pvName : List Char} {entry : List Char × List Char}
    (h : parseAutoSaveLine line = some (pvName, entry)) : pvName ≠ [] := by
  rw [parseAutoSaveLine] at h
  simp only at h
  split at h
  · cases h
  · split at h
    · cases h
    · rename_i hrest
      injection h with h
      injection h with hname _
      rintro rfl
      rw [TextLines.word_snd_eq_nil hname] at hrest
      cases hrest

theorem newline_notMem_autoSaveLine {c : AutoSaveCall}
    (h : ∀ x ∈ c.name, isSpace x = false) : '\n' ∉ autoSaveLine c := by
  rw [autoSaveLine]
  simp only [List.mem_append, List.mem_cons, not_or]
  refine ⟨fun htime => ?_, by decide, fun hname => ?_, by decide, newline_notMem_encode c.value⟩
  · exact absurd (isSpace_of_mem_timeText htime) (by decide)
  · exact absurd (h _ hname) (by decide)

/-! ### The file -/

/-- The last call for a PV. -/
def lastSaved (calls : List AutoSaveCall) (pvName : List Char) : Option AutoSaveCall :=
  (calls.filter fun c => c.name = pvName).getLast?

/-- The file is read line by line. -/
theorem parseAutoSaveFile_eq {calls : List AutoSaveCall}
    (h : ∀ c ∈ calls, ∀ x ∈ c.name, isSpace x = false) :
    parseAutoSaveFile (autoSaveFile calls) =
      (calls.map autoSaveLine).foldl addLine fun _ => none := by
  have hlines : autoSaveFile calls =
      (calls.map autoSaveLine).flatMap fun line => line ++ ['\n'] := by
    rw [List.flatMap_map]
    rfl
  rw [parseAutoSaveFile, hlines, TextLines.getlines_flatMap]
  intro line hline
  obtain ⟨c, hc, rfl⟩ := List.mem_map.mp hline
  exact newline_notMem_autoSaveLine (h c hc)

/-- No PV without a name is read. -/
theorem config_nil (text : List Char) : parseAutoSaveFile text [] = none := by
  rw [parseAutoSaveFile]
  induction TextLines.getlines '\n' text using List.reverseRecOn with
  | nil => rfl
  | append_singleton lines line ih =>
    rw [List.foldl_append, List.foldl_cons, List.foldl_nil, addLine]
    cases hparse : parseAutoSaveLine line with
    | none => exact ih
    | some result =>
      simp only
      rw [Function.update_of_ne (Ne.symm (name_ne_nil_of_parse hparse)), ih]

/-- The configuration has, of every PV, what the line of its last call says. -/
theorem config_eq {calls : List AutoSaveCall} (h : ∀ c ∈ calls, Readable c)
    (pvName : List Char) :
    parseAutoSaveFile (autoSaveFile calls) pvName = (lastSaved calls pvName).map fun c =>
      (timeText c, decodeAutoSaveString (encodeAutoSaveString c.value)) := by
  rw [parseAutoSaveFile_eq fun c hc => (h c hc).isSpace]
  induction calls using List.reverseRecOn with
  | nil => rfl
  | append_singleton calls c ih =>
    have hc := h c (List.mem_append_right _ List.mem_cons_self)
    rw [List.map_append, List.foldl_append, List.map_singleton, List.foldl_cons, List.foldl_nil,
      addLine, parseAutoSaveLine_eq hc, lastSaved, List.filter_append]
    simp only
    by_cases heq : pvName = c.name
    · simp [heq]
    · rw [Function.update_of_ne heq, ih fun c' hc' => h c' (List.mem_append_left _ hc')]
      simp [lastSaved, Ne.symm heq]

/-- Where no PV without a name was saved, all lines can be read. -/
theorem readable_of_lastSaved {calls : List AutoSaveCall}
    (hnames : ∀ c ∈ calls, ∀ x ∈ c.name, isSpace x = false)
    (h : ∀ c, lastSaved calls [] ≠ some c) : ∀ c ∈ calls, Readable c := by
  intro c hc
  refine ⟨fun hnil => ?_, hnames c hc⟩
  have hnone : lastSaved calls [] = none := Option.eq_none_iff_forall_ne_some.mpr h
  rw [lastSaved, List.getLast?_eq_none_iff, List.filter_eq_nil_iff] at hnone
  exact hnone c hc (by simp [hnil])

theorem round_trip_of_plain {calls : List AutoSaveCall}
    (hnames : ∀ c ∈ calls, ∀ x ∈ c.name, isSpace x = false)
    (hplain : ∀ pvName c, lastSaved calls pvName = some c →
      pvName ≠ [] ∧ ¬ escape <:+: c.value) (pvName : List Char) :
    getAutoSavePV (parseAutoSaveFile (autoSaveFile calls)) pvName =
      (lastSaved calls pvName).map fun c => (c.value, c.time) := by
  have hread := readable_of_lastSaved hnames fun c hc => (hplain [] c hc).1 rfl
  rw [getAutoSavePV, config_eq hread]
  cases hlast : lastSaved calls pvName with
  | none => rfl
  | some c =>
    simp only [Option.map_some, Option.bind_eq_bind, Option.bind_some, parseTimeString_timeText,
      (decode_encode_iff c.value).mpr (hplain pvName c hlast).2]

theorem plain_of_round_trip {calls : List AutoSaveCall}
    (hnames : ∀ c ∈ calls, ∀ x ∈ c.name, isSpace x = false)
    (hall : ∀ pvName, getAutoSavePV (parseAutoSaveFile (autoSaveFile calls)) pvName =
      (lastSaved calls pvName).map fun c => (c.value, c.time)) {pvName : List Char}
    {c : AutoSaveCall} (hlast : lastSaved calls pvName = some c) :
    pvName ≠ [] ∧ ¬ escape <:+: c.value := by
  have hne : ∀ pvName c, lastSaved calls pvName = some c → pvName ≠ [] := by
    rintro _ c hlast rfl
    have hnone := hall []
    rw [hlast, getAutoSavePV, config_nil] at hnone
    cases hnone
  have hread := readable_of_lastSaved hnames fun c hc => hne [] c hc rfl
  have hvalue := hall pvName
  rw [getAutoSavePV, config_eq hread, hlast] at hvalue
  simp only [Option.map_some, Option.bind_eq_bind, Option.bind_some, parseTimeString_timeText,
    Option.some.injEq, Prod.mk.injEq, and_true] at hvalue
  exact ⟨hne pvName c hlast, (decode_encode_iff c.value).mp hvalue⟩

/-- A string is restored just where it has no escape of its own, and after any calls every PV
    has its last value and time just where that is so of all last values, and no name is
    empty. -/
theorem auto_save_round_trip_iff {calls : List AutoSaveCall}
    (hnames : ∀ c ∈ calls, ∀ x ∈ c.name, isSpace x = false) :
    (∀ value, decodeAutoSaveString (encodeAutoSaveString value) = value ↔
        ¬ escape <:+: value) ∧
      ((∀ pvName, getAutoSavePV (parseAutoSaveFile (autoSaveFile calls)) pvName =
          (lastSaved calls pvName).map fun c => (c.value, c.time)) ↔
        ∀ pvName c, lastSaved calls pvName = some c →
          pvName ≠ [] ∧ ¬ escape <:+: c.value) :=
  ⟨decode_encode_iff, fun hall _ _ hlast => plain_of_round_trip hnames hall hlast,
    fun hplain pvName => round_trip_of_plain hnames hplain pvName⟩

/-- Calls for two PVs, one with a newline in its value and one with an empty value. -/
def someCalls : List AutoSaveCall :=
  [⟨['P'], ['x'], 7, 5⟩, ⟨['Q'], [], 8, 0⟩, ⟨['P'], [' ', '%', '\n'], 9, 10⟩]

theorem someCalls_names : ∀ c ∈ someCalls, ∀ x ∈ c.name, isSpace x = false := by
  intro c hc
  simp only [someCalls, List.mem_cons, List.not_mem_nil, or_false] at hc
  rcases hc with rfl | rfl | rfl
  all_goals
    rw [List.forall_mem_singleton]
    decide

theorem auto_save_round_trip_someCalls :
    (∀ value, decodeAutoSaveString (encodeAutoSaveString value) = value ↔
        ¬ escape <:+: value) ∧
      ((∀ pvName, getAutoSavePV (parseAutoSaveFile (autoSaveFile someCalls)) pvName =
          (lastSaved someCalls pvName).map fun c => (c.value, c.time)) ↔
        ∀ pvName c, lastSaved someCalls pvName = some c →
          pvName ≠ [] ∧ ¬ escape <:+: c.value) :=
  auto_save_round_trip_iff someCalls_names

/-- The value `%0A` is read back as a newline. -/
theorem not_round_trip_escape :
    ¬ ∀ calls : List AutoSaveCall,
      (∀ c ∈ calls, c.name ≠ [] ∧ ∀ x ∈ c.name, isSpace x = false) →
        ∀ pvName, getAutoSavePV (parseAutoSaveFile (autoSaveFile calls)) pvName =
          (lastSaved calls pvName).map fun c => (c.value, c.time) := by
  intro hall
  have hname : ∀ c ∈ [(⟨['P'], escape, 7, 5⟩ : AutoSaveCall)],
      c.name ≠ [] ∧ ∀ x ∈ c.name, isSpace x = false := by
    rw [List.forall_mem_singleton, List.forall_mem_singleton]
    decide
  have hread := hall [⟨['P'], escape, 7, 5⟩] hname ['P']
  exact absurd hread (by decide)

end Adara.Spec.AutoSave
