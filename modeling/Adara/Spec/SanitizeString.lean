import Adara.ForStd.MaximalRuns
import Adara.Native.TextUtils

/-! # Sanitized strings

`sanitizeString` should put one '-' in the place of each maximal run of bad characters.  It goes
by the distance to the last hit, in a string that gets shorter: a run at the start and a run of
three or more get too many, and a run one character behind a removed one may get none.  The rest
of what it should do it does for every string (`sanitizeString_spec`). -/

namespace Adara.Spec.SanitizeString

open Adara.Native MaximalRuns

/-! ### One '-' for each run -/

/-- The string with one '-' in the place of each maximal run, behind a bad character or not. -/
def collapse (bad : Char → Bool) : (inRun : Bool) → List Char → List Char
  | _, [] => []
  | inRun, c :: cs =>
    if bad c then (if inRun then [] else ['-']) ++ collapse bad true cs
    else c :: collapse bad false cs

/-- What the function is for. -/
def Sanitizes (preserveUri preserveWhitespace : Bool) (str : List Char) : Prop :=
  ∃ out changed, sanitizeString preserveUri preserveWhitespace str = some (out, changed) ∧
    (∀ c ∈ out, c ∉ badCharacters preserveUri preserveWhitespace) ∧
    out = collapse (badCharacters preserveUri preserveWhitespace).contains false str ∧
    (changed = true ↔ out ≠ str) ∧
    sanitizeString preserveUri preserveWhitespace out = some (out, false)

/-! ### The loop -/

/-- Where the loop is when it comes to a character. -/
inductive Place where
  /-- At the start of the string. -/
  | start
  /-- Not behind the last hit, or this was at the start. -/
  | free
  /-- The last hit is the character before. -/
  | behind
  /-- The last hit was here, and has been removed. -/
  | removed
deriving DecidableEq, Repr

/-- What the loop does with bad characters. -/
def sanitizer : Replacer Place where
  puts place := place ≠ .behind
  inRun
    | .start => .free
    | .free => .behind
    | .behind => .removed
    | .removed => .behind
  inGap
    | .start => .free
    | .free => .free
    | .behind => .free
    | .removed => .behind

/-- The part of the string that is done, and the last hit. -/
def At (place : Place) (done : List Char) (last : Nat) : Prop :=
  match place with
  | .start => done = [] ∧ last = 0
  | .free => done ≠ [] ∧ (last = 0 ∨ last + 1 < done.length)
  | .behind => last ≠ 0 ∧ last + 1 = done.length
  | .removed => last ≠ 0 ∧ last = done.length

section Loop

variable {bad : List Char} {place : Place} {done rest : List Char} {last : Nat} {c : Char}

/-- The first bad character is behind the part that is done. -/
theorem findFirstOf_append (hle : last ≤ done.length)
    (hdone : ∀ d ∈ done.drop last, bad.contains d = false) (rest : List Char) :
    findFirstOf (done ++ rest) bad last =
      (rest.findIdx? bad.contains).map (done.length + ·) := by
  have hnone : (done.drop last).findIdx? bad.contains = none := by
    rw [List.findIdx?_eq_none_iff]
    exact hdone
  rw [findFirstOf, List.drop_append_of_le_length hle, List.findIdx?_append, hnone,
    Option.none_or, List.length_drop, Option.map_map]
  congr 1
  funext i
  show last + (i + (done.length - last)) = done.length + i
  omega

/-- A good character stays, and the loop does not come to it. -/
theorem At.inGap (h : At place done last) : At (sanitizer.inGap place) (done ++ [c]) last := by
  have hlen : (done ++ [c]).length = done.length + 1 := List.length_append
  have hne : done ++ [c] ≠ [] := List.concat_ne_nil c done
  cases place with
  | start => exact ⟨hne, .inl h.2⟩
  | free => exact ⟨hne, h.2.imp_right fun hlt => by omega⟩
  | behind => exact ⟨hne, .inr (by have := h.2; omega)⟩
  | removed => exact ⟨h.1, by rw [hlen, h.2]⟩

/-- The test for a character to be replaced. -/
theorem At.puts (h : At place done last) :
    (done.length ≠ last + 1 ∨ last = 0) ↔ sanitizer.puts place = true := by
  rw [sanitizer, decide_eq_true_iff]
  cases place with
  | start => exact iff_of_true (.inr h.2) nofun
  | free => exact iff_of_true (h.2.elim .inr fun hlt => .inl (by omega)) nofun
  | behind =>
    refine iff_of_false ?_ fun hne => hne rfl
    rintro (hne | hzero)
    · exact hne h.2.symm
    · exact h.1 hzero
  | removed => exact iff_of_true (.inl (by have := h.2; omega)) nofun

/-- A bad character is replaced. -/
theorem At.replaced (h : At place done last) (hputs : sanitizer.puts place = true) :
    At (sanitizer.inRun place) (done ++ ['-']) done.length := by
  have hlen : (done ++ ['-']).length = done.length + 1 := List.length_append
  cases place with
  | start => exact ⟨List.concat_ne_nil _ _, .inl (by rw [h.1]; rfl)⟩
  | free => exact ⟨fun hzero => h.1 (List.length_eq_zero_iff.mp hzero), hlen.symm⟩
  | behind => exact absurd hputs (by decide)
  | removed => exact ⟨h.2 ▸ h.1, hlen.symm⟩

/-- A bad character is removed. -/
theorem At.removed (h : At place done last) (hputs : sanitizer.puts place = false) :
    At (sanitizer.inRun place) done done.length := by
  cases place with
  | behind => exact ⟨by have := h.2; omega, rfl⟩
  | start => cases hputs
  | free => cases hputs
  | removed => cases hputs

/-- The loop goes through the rest of the string once. -/
theorem sanitizeLoop_eq (hdash : bad.contains '-' = false) {fuel : Nat} {changed : Bool}
    (h : At place done last) (hle : last ≤ done.length)
    (hdone : ∀ d ∈ done.drop last, bad.contains d = false)
    (hfuel : rest.countP bad.contains < fuel) :
    sanitizeLoop bad fuel (done ++ rest) last changed =
      some (done ++ sanitizer.emit bad.contains '-' place rest,
        changed || rest.any bad.contains) := by
  -- on what is left of the string; `At` ties the stale position `last` to the place in the runs
  induction rest generalizing place done last fuel changed with
  | nil =>
    obtain ⟨fuel, rfl⟩ : ∃ f, fuel = f + 1 := ⟨fuel - 1, by omega⟩
    rw [sanitizeLoop, findFirstOf_append hle hdone]
    simp [Replacer.emit]
  | cons c rest ih =>
    cases hc : bad.contains c with
    | false =>
      -- a good character is not searched for: it joins what lies behind the search
      have hdone' : ∀ d ∈ (done ++ [c]).drop last, bad.contains d = false := by
        rw [List.drop_append_of_le_length hle, List.forall_mem_append]
        exact ⟨hdone, List.forall_mem_singleton.mpr hc⟩
      have hfuel' : rest.countP bad.contains < fuel := by
        rwa [List.countP_cons_of_neg (by rw [hc]; exact Bool.false_ne_true)] at hfuel
      have hnext := @ih _ (done ++ [c]) last fuel changed h.inGap
        (by rw [List.length_append]; omega) hdone' hfuel'
      rw [List.append_assoc, List.append_assoc, List.singleton_append, List.singleton_append]
        at hnext
      rw [hnext, Replacer.emit, hc, if_neg Bool.false_ne_true, List.any_cons, hc, Bool.false_or]
    | true =>
      rw [List.countP_cons_of_pos hc] at hfuel
      -- a bad character costs one unit of fuel, and is replaced or removed
      obtain ⟨fuel, rfl⟩ : ∃ f, fuel = f + 1 := ⟨fuel - 1, by omega⟩
      have hfind : findFirstOf (done ++ c :: rest) bad last = some done.length := by
        rw [findFirstOf_append hle hdone, List.findIdx?_cons, hc]
        rfl
      rw [sanitizeLoop, hfind, Replacer.emit, hc, if_pos rfl, List.any_cons, hc, Bool.true_or,
        Bool.or_true]
      simp only
      cases hputs : sanitizer.puts place with
      | true =>
        have hset : (done ++ c :: rest).set done.length '-' = done ++ ['-'] ++ rest := by
          rw [List.set_append_right _ _ (Nat.le_refl _), Nat.sub_self, List.set_cons_zero,
            List.append_assoc, List.singleton_append]
        rw [if_pos (h.puts.mpr hputs), hset, ih (h.replaced hputs) (by simp) (by simpa using hdash)
          (by omega), Bool.true_or, List.append_assoc]
        rfl
      | false =>
        have herase : (done ++ c :: rest).eraseIdx done.length = done ++ rest := by
          rw [List.eraseIdx_append_of_length_le (Nat.le_refl _), Nat.sub_self,
            List.eraseIdx_cons_zero]
        have hnot : ¬ (done.length ≠ last + 1 ∨ last = 0) := fun hor =>
          Bool.false_ne_true (hputs.symm.trans (h.puts.mp hor))
        rw [if_neg hnot, herase, ih (h.removed hputs) (Nat.le_refl _) (by simp) (by omega),
          Bool.true_or]
        rfl

end Loop

/-! ### What holds for every string -/

section Every

variable {preserveUri preserveWhitespace : Bool} {str : List Char}

theorem dash_not_bad (preserveUri preserveWhitespace : Bool) :
    (badCharacters preserveUri preserveWhitespace).contains '-' = false := by
  cases preserveUri <;> cases preserveWhitespace <;> decide

/-- Nothing bad is put out. -/
theorem emit_good {bad : Char → Bool} (hdash : bad '-' = false) (place : Place) :
    ∀ c ∈ sanitizer.emit bad '-' place str, bad c = false := by
  induction str generalizing place with
  | nil => exact nofun
  | cons c str ih =>
    rw [Replacer.emit]
    cases hc : bad c with
    | false =>
      rw [if_neg Bool.false_ne_true]
      exact List.forall_mem_cons.mpr ⟨hc, ih _⟩
    | true =>
      rw [if_pos rfl, List.forall_mem_append]
      exact ⟨fun d hd => (List.eq_of_mem_replicate hd).symm ▸ hdash, ih _⟩

/-- A string without bad characters stays as it is. -/
theorem emit_of_good {bad : Char → Bool} (h : ∀ c ∈ str, bad c = false) (place : Place) :
    sanitizer.emit bad '-' place str = str := by
  induction str generalizing place with
  | nil => rfl
  | cons c str ih =>
    obtain ⟨hc, hrest⟩ := List.forall_mem_cons.mp h
    rw [Replacer.emit, hc, if_neg Bool.false_ne_true, ih hrest]

theorem sanitizeString_eq (preserveUri preserveWhitespace : Bool) (str : List Char) :
    sanitizeString preserveUri preserveWhitespace str =
      some (sanitizer.emit (badCharacters preserveUri preserveWhitespace).contains '-' .start str,
        str.any (badCharacters preserveUri preserveWhitespace).contains) := by
  have hloop := @sanitizeLoop_eq (badCharacters preserveUri preserveWhitespace) .start [] str 0
    (dash_not_bad _ _) (str.length + 1) false ⟨rfl, rfl⟩ (Nat.le_refl 0) nofun
    (Nat.lt_succ_of_le List.countP_le_length)
  rwa [List.nil_append, List.nil_append, Bool.false_or] at hloop

/-- It ends, leaves nothing bad, tells whether the string has changed, and changes nothing when
    it is called again. -/
theorem sanitizeString_spec (preserveUri preserveWhitespace : Bool) (str : List Char) :
    ∃ out changed, sanitizeString preserveUri preserveWhitespace str = some (out, changed) ∧
      (∀ c ∈ out, c ∉ badCharacters preserveUri preserveWhitespace) ∧
      (changed = true ↔ out ≠ str) ∧
      sanitizeString preserveUri preserveWhitespace out = some (out, false) := by
  set bad := badCharacters preserveUri preserveWhitespace with hbad
  have hgood : ∀ c ∈ sanitizer.emit bad.contains '-' .start str, bad.contains c = false :=
    emit_good (dash_not_bad preserveUri preserveWhitespace) .start
  refine ⟨_, _, sanitizeString_eq preserveUri preserveWhitespace str, ?_, ?_, ?_⟩
  · intro c hc hmem
    have hfalse := hgood c hc
    rw [List.contains_eq_mem, decide_eq_false_iff_not] at hfalse
    exact hfalse hmem
  · constructor
    · intro hany heq
      -- a bad character that is not there any more
      obtain ⟨c, hc, hcbad⟩ := List.any_eq_true.mp hany
      rw [← heq] at hc
      exact absurd (hcbad.symm.trans (hgood c hc)) (by decide)
    · intro hne
      by_contra hany
      rw [Bool.not_eq_true, List.any_eq_false] at hany
      exact hne (emit_of_good (fun c hc => Bool.eq_false_iff.mpr (hany c hc)) _)
  · rw [sanitizeString_eq, ← hbad, emit_of_good hgood]
    have hnone : (sanitizer.emit bad.contains '-' .start str).any bad.contains = false :=
      List.any_eq_false.mpr fun c hc => Bool.eq_false_iff.mp (hgood c hc)
    rw [hnone]

end Every

/-! ### Runs -/

/-- The '-' put for a run of `n`, behind a gap.  At the start of the string the first two of a run
    are both replaced, and from then on every other one.  Elsewhere it is every other one from the
    first on; but from the second on, where the run before had its last character removed, and
    only one character is between. -/
def dashes (removed : Bool) (gap n : Nat) : Nat :=
  if gap = 0 then if n = 0 then 0 else 1 + n / 2
  else if removed ∧ gap = 1 then n / 2
  else (n + 1) / 2

/-- Whether the last character of the run is removed. -/
def lastRemoved (removed : Bool) (gap n : Nat) : Bool :=
  if gap = 0 then decide (3 ≤ n ∧ n % 2 = 1)
  else if removed ∧ gap = 1 then decide (n % 2 = 1)
  else decide (0 < n ∧ n % 2 = 0)

/-- Every run gets one '-'; or else what one run gets more another gets less, with nothing but '-'
    between them in the string, so that it does not show.  `ahead` is what the runs so far got
    more. -/
def Fits (removed : Bool) (ahead : Int) : List (List Char × Nat) → Prop
  | [] => ahead = 0
  | (gap, n) :: rest =>
    ((∃ c ∈ gap, c ≠ '-') → ahead = 0) ∧
      Fits (lastRemoved removed gap.length n)
        (ahead + dashes removed gap.length n - (min n 1 : Nat)) rest

instance decidableFits :
    (removed : Bool) → (ahead : Int) → (entries : List (List Char × Nat)) →
      Decidable (Fits removed ahead entries)
  | _, ahead, [] => inferInstanceAs (Decidable (ahead = 0))
  | removed, ahead, (gap, n) :: rest =>
    have : Decidable (∃ c ∈ gap, c ≠ '-') := List.decidableBEx (· ≠ '-') gap
    have := decidableFits (lastRemoved removed gap.length n)
      (ahead + dashes removed gap.length n - (min n 1 : Nat)) rest
    inferInstanceAs (Decidable (((∃ c ∈ gap, c ≠ '-') → ahead = 0) ∧ Fits _ _ rest))

-- a run of four gets one too many, and the next one none; the '-' between does not show it
example : Fits false 0 (runs allBad.contains "a????-?b".toList) := by decide

section Runs

theorem marks_eq (n : Nat) :
    sanitizer.marks .free n = (n + 1) / 2 ∧ sanitizer.marks .removed n = (n + 1) / 2 ∧
      sanitizer.marks .behind n = n / 2 := by
  induction n with
  | zero => exact ⟨rfl, rfl, rfl⟩
  | succ n ih =>
    obtain ⟨-, hremoved, hbehind⟩ := ih
    have hfree : sanitizer.marks .free (n + 1) = 1 + sanitizer.marks .behind n := rfl
    have hremoved' : sanitizer.marks .removed (n + 1) = 1 + sanitizer.marks .behind n := rfl
    have hbehind' : sanitizer.marks .behind (n + 1) = 0 + sanitizer.marks .removed n := rfl
    rw [hfree, hremoved', hbehind', hbehind, hremoved]
    omega

/-- Behind a run, the last character was removed or not by the parity of its length. -/
theorem inRun_iterate (n : Nat) :
    (sanitizer.inRun^[n] .behind = .removed ↔ n % 2 = 1) ∧
      (sanitizer.inRun^[n] .removed = .removed ↔ n % 2 = 0) := by
  induction n with
  | zero => decide
  | succ n ih =>
    obtain ⟨hbehind, hremoved⟩ := ih
    rw [Function.iterate_succ_apply, Function.iterate_succ_apply]
    have hb : sanitizer.inRun .behind = .removed := rfl
    have hr : sanitizer.inRun .removed = .behind := rfl
    rw [hb, hr, hremoved, hbehind]
    omega

/-- A gap of two characters or more, or one that is not behind a removed one. -/
theorem inGap_iterate {place : Place} {gap : Nat} (hgap : gap ≠ 0)
    (h : ¬ (place = .removed ∧ gap = 1)) : sanitizer.inGap^[gap] place = .free := by
  obtain ⟨gap, rfl⟩ := Nat.exists_eq_succ_of_ne_zero hgap
  have hfree : ∀ k, sanitizer.inGap^[k] .free = .free := by
    intro k
    induction k with
    | zero => rfl
    | succ k ih => rwa [Function.iterate_succ_apply]
  rw [Function.iterate_succ_apply]
  cases place with
  | removed =>
    cases gap with
    | zero => exact absurd ⟨rfl, rfl⟩ h
    | succ gap => exact hfree gap
  | start => exact hfree gap
  | free => exact hfree gap
  | behind => exact hfree gap

theorem inRun_iterate_free (n : Nat) :
    sanitizer.inRun^[n] .free = .removed ↔ 0 < n ∧ n % 2 = 0 := by
  cases n with
  | zero => decide
  | succ n =>
    have hfree : sanitizer.inRun .free = .behind := rfl
    rw [Function.iterate_succ_apply, hfree, (inRun_iterate n).1]
    omega

/-- What is put for a run, and what that leaves behind it. -/
theorem marks_run {place : Place} {gap : Nat} (h : gap = 0 → place = .start) (n : Nat) :
    sanitizer.marks (sanitizer.inGap^[gap] place) n = dashes (place = .removed) gap n ∧
      decide (sanitizer.inRun^[n] (sanitizer.inGap^[gap] place) = .removed) =
        lastRemoved (place = .removed) gap n := by
  rw [dashes, lastRemoved]
  by_cases hgap : gap = 0
  · rw [if_pos hgap, if_pos hgap, h hgap, hgap, Function.iterate_zero_apply]
    cases n with
    | zero => decide
    | succ n =>
      have hstart : sanitizer.marks .start (n + 1) = 1 + sanitizer.marks .free n := rfl
      have hnext : sanitizer.inRun .start = .free := rfl
      rw [hstart, (marks_eq n).1, if_neg (Nat.succ_ne_zero n), Function.iterate_succ_apply, hnext,
        decide_eq_decide, inRun_iterate_free]
      omega
  · rw [if_neg hgap, if_neg hgap]
    by_cases hnear : place = .removed ∧ gap = 1
    · -- one character behind a removed one
      obtain ⟨rfl, rfl⟩ := hnear
      have hbehind : sanitizer.inGap^[1] .removed = .behind := rfl
      rw [hbehind, (marks_eq n).2.2, decide_eq_decide.mpr (inRun_iterate n).1]
      exact ⟨rfl, rfl⟩
    · have hnot : ¬ (decide (place = .removed) = true ∧ gap = 1) := by
        rwa [decide_eq_true_iff]
      rw [if_neg hnot, if_neg hnot, inGap_iterate hgap hnear, (marks_eq n).1,
        decide_eq_decide.mpr (inRun_iterate_free n)]
      exact ⟨rfl, rfl⟩

/-! ### The condition -/

/-- One mark for each run. -/
def once : Replacer Bool where
  puts inRun := !inRun
  inRun _ := true
  inGap _ := false

theorem collapse_eq (bad : Char → Bool) (inRun : Bool) (str : List Char) :
    collapse bad inRun str = once.emit bad '-' inRun str := by
  induction str generalizing inRun with
  | nil => rfl
  | cons c str ih =>
    rw [collapse, Replacer.emit, ih, ih]
    cases inRun <;> rfl

theorem marks_once (n : Nat) : once.marks false n = min n 1 ∧ once.marks true n = 0 := by
  induction n with
  | zero => exact ⟨rfl, rfl⟩
  | succ n ih =>
    have hfalse : once.marks false (n + 1) = 1 + once.marks true n := rfl
    have htrue : once.marks true (n + 1) = 0 + once.marks true n := rfl
    rw [hfalse, htrue, ih.2]
    omega

/-- The string shows what the loop does just if it does not fit. -/
theorem balanced_iff_fits {place : Place} {inRun : Bool} {ahead : Int}
    {entries : List (List Char × Nat)}
    (hfirst : ∀ e ∈ entries.head?, e.1 = [] → place = .start ∧ inRun = false)
    (hrest : ∀ e ∈ entries.tail, e.1 ≠ []) :
    MaximalRuns.Balanced '-' ahead (bothMarks sanitizer once place inRun entries) ↔
      Fits (place = .removed) ahead entries := by
  induction entries generalizing place inRun ahead with
  | nil => exact Iff.rfl
  | cons e entries ih =>
    obtain ⟨gap, n⟩ := e
    have hgap : gap.length = 0 → place = .start ∧ inRun = false := fun hzero =>
      hfirst _ rfl (List.length_eq_zero_iff.mp hzero)
    obtain ⟨hmarks, hlast⟩ := marks_run (fun hzero => (hgap hzero).1) n
    have honce : once.inGap^[gap.length] inRun = false := by
      cases hlen : gap.length with
      | zero => exact (hgap hlen).2
      | succ k => rw [Function.iterate_succ_apply']; rfl
    have hnext : ∀ e ∈ entries.head?, e.1 = [] →
        sanitizer.inRun^[n] (sanitizer.inGap^[gap.length] place) = .start ∧
          once.inRun^[n] (once.inGap^[gap.length] inRun) = false := fun e he hnil =>
      absurd hnil (hrest e (List.mem_of_mem_head? he))
    rw [bothMarks, MaximalRuns.Balanced, ih hnext fun e he => hrest e (List.mem_of_mem_tail he), Fits, hmarks,
      hlast, honce, (marks_once n).1]

end Runs

/-- A string is sanitized as it should be just if no run shows that it got too many or too few. -/
theorem sanitizes_iff (preserveUri preserveWhitespace : Bool) (str : List Char) :
    Sanitizes preserveUri preserveWhitespace str ↔
      Fits false 0 (runs (badCharacters preserveUri preserveWhitespace).contains str) := by
  set bad := badCharacters preserveUri preserveWhitespace with hbad
  have hfits := @balanced_iff_fits .start false 0 (runs bad.contains str)
    (fun _ _ _ => ⟨rfl, rfl⟩) (gap_ne_nil str)
  have hemit := @emit_eq_emit_iff _ _ bad.contains '-' _ sanitizer once .start false str
  rw [hfits] at hemit
  obtain ⟨out, changed, hrun, hgood, hchanged, hagain⟩ :=
    sanitizeString_spec preserveUri preserveWhitespace str
  have hout : out = sanitizer.emit bad.contains '-' .start str := by
    rw [sanitizeString_eq] at hrun
    exact (Prod.mk.inj (Option.some.inj hrun)).1.symm
  have hiff : out = collapse bad.contains false str ↔ Fits false 0 (runs bad.contains str) := by
    rw [hout, collapse_eq]
    exact hemit
  rw [← hiff, Sanitizes, ← hbad]
  constructor
  · rintro ⟨out', changed', hrun', -, hcollapse, -⟩
    cases hrun.symm.trans hrun'
    exact hcollapse
  · exact fun hcollapse => ⟨out, changed, hrun, hgood, hcollapse, hchanged, hagain⟩

/-- A run of three. -/
theorem not_sanitizes : ¬ Sanitizes false false "run???1".toList := by
  rintro ⟨out, changed, hrun, -, hcollapse, -⟩
  have hout : sanitizeString false false "run???1".toList = some ("run--1".toList, true) := by
    decide
  cases hrun.symm.trans hout
  exact absurd hcollapse (by decide)

end Adara.Spec.SanitizeString
