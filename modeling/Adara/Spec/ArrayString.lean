import Adara.Native.TextUtils
import Adara.Spec.AutoSave
import Mathlib.Data.List.TakeWhile

/-! # Lists of numbers as text

A list of numbers is parsed token by token, where a token is a maximal part of the text without
a separator (`parseArrayString_eq`).  A list that is printed has the digits of its numbers for
tokens, so it is parsed back (`arrayString_roundTrip`). -/

namespace Adara.Spec.ArrayString

open Adara.Native

/-! ### Tokens -/

/-- Whether a character is between numbers. -/
abbrev isSep (c : Char) : Bool := arraySep.contains c

/-- The parts of a text between the separators that are not empty. -/
def tokens (text : List Char) : List (List Char) :=
  (text.splitOnP isSep).filter fun token => !token.isEmpty

/-- The numbers of some tokens.  A token of blanks only has the number of the one before. -/
def numbers : (value : UInt32) → List (List Char) → List UInt32
  | _, [] => []
  | value, token :: rest =>
    extractUnsigned value token :: numbers (extractUnsigned value token) rest

theorem length_numbers (value : UInt32) (ts : List (List Char)) :
    (numbers value ts).length = ts.length := by
  induction ts generalizing value with
  | nil => rfl
  | cons token ts ih => rw [numbers, List.length_cons, ih, List.length_cons]

section Tokens

variable {c : Char} {token text : List Char}

@[simp] theorem tokens_nil : tokens [] = [] := rfl

theorem tokens_cons (hc : isSep c = true) : tokens (c :: text) = tokens text := by
  rw [tokens, ← List.nil_append (c :: text),
    List.splitOnP_append_cons_of_forall_mem (fun x hx => absurd hx List.not_mem_nil) _ hc,
    List.filter_cons_of_neg (by simp)]
  rfl

theorem tokens_append (hne : token ≠ []) (htoken : ∀ d ∈ token, isSep d = false)
    (hc : isSep c = true) : tokens (token ++ c :: text) = token :: tokens text := by
  rw [tokens, List.splitOnP_append_cons_of_forall_mem htoken _ hc,
    List.filter_cons_of_pos (by simpa using hne)]
  rfl

theorem tokens_singleton (hne : token ≠ []) (htoken : ∀ d ∈ token, isSep d = false) :
    tokens token = [token] := by
  rw [tokens, List.splitOnP_eq_singleton htoken, List.filter_cons_of_pos (by simpa using hne)]
  rfl

end Tokens

/-! ### The parser -/

/-- Where the next separator is: behind what has none. -/
theorem findFirstOf_getD (text : List Char) {b : Nat} (hb : b ≤ text.length) :
    (findFirstOf text arraySep b).getD text.length =
      b + ((text.drop b).takeWhile fun c => !isSep c).length := by
  have hfind : ∀ xs : List Char, (xs.findIdx? isSep).getD xs.length =
      (xs.takeWhile fun c => !isSep c).length := by
    intro xs
    induction xs with
    | nil => rfl
    | cons x xs ih =>
      rw [List.findIdx?_cons, List.takeWhile_cons]
      cases isSep x with
      | true => rfl
      | false =>
        show _ = (List.takeWhile (fun c => !isSep c) xs).length + 1
        rw [← ih]
        cases xs.findIdx? isSep <;> rfl
  have hdrop := hfind (text.drop b)
  rw [List.length_drop] at hdrop
  rw [findFirstOf, ← hdrop]
  show (Option.map _ ((text.drop b).findIdx? isSep)).getD _ = _
  cases (text.drop b).findIdx? isSep with
  | none =>
    show text.length = b + (text.length - b)
    omega
  | some i => rfl

/-- The loop pushes the numbers of the tokens that are left, with fuel for every character. -/
theorem parseArrayLoop_eq {fuel b : Nat} {text : List Char} {value : UInt32}
    {arrayVec : List UInt32} (hfuel : text.length - b < fuel) :
    parseArrayLoop fuel text b value arrayVec =
      some (arrayVec ++ numbers value (tokens (text.drop b))) := by
  induction fuel generalizing b value arrayVec with
  | zero => omega
  | succ fuel ih =>
    rw [parseArrayLoop]
    by_cases hb : b < text.length
    · rw [if_pos hb, findFirstOf_getD text (by omega)]
      set token := (text.drop b).takeWhile fun c => !isSep c with htoken
      have hsplit : token ++ (text.drop b).dropWhile (fun c => !isSep c) = text.drop b :=
        List.takeWhile_append_dropWhile
      have hclear : ∀ d ∈ token, isSep d = false := fun d hd => by
        simpa using List.all_eq_true.mp (List.all_takeWhile (p := fun c => !isSep c)) d hd
      have hnext : ∀ c cs, (text.drop b).dropWhile (fun c => !isSep c) = c :: cs →
          isSep c = true := fun c cs heq => by
        have hhead := List.head?_dropWhile_not (fun c => !isSep c) (text.drop b)
        rw [heq] at hhead
        simpa using hhead
      have hbehind : text.drop (b + token.length + 1) =
          ((text.drop b).dropWhile fun c => !isSep c).tail := by
        rw [← List.tail_drop, ← List.drop_drop, ← hsplit, List.drop_left, hsplit]
      have hlen := congrArg List.length hsplit
      rw [List.length_append, List.length_drop] at hlen
      by_cases hne : token = []
      · -- there is a separator at `b`
        rw [hne, List.length_nil] at hlen hbehind ⊢
        rw [if_neg (by simp), ih (by omega), hbehind]
        rw [hne, List.nil_append] at hsplit
        cases hrest : text.drop b with
        | nil => rw [List.drop_eq_nil_iff] at hrest; omega
        | cons c cs =>
          rw [hrest] at hsplit hnext
          rw [hsplit, tokens_cons (hnext c cs hsplit), List.tail_cons]
      · have hpos := List.length_pos_of_ne_nil hne
        have htake : (text.drop b).take (b + token.length - b) = token := by
          rw [Nat.add_sub_cancel_left, ← hsplit, List.take_left]
        simp only [htake]
        rw [if_pos (by omega), ih (by omega), hbehind, List.append_assoc]
        congr 2
        conv_rhs => rw [← hsplit]
        cases hrest : (text.drop b).dropWhile fun c => !isSep c with
        | nil =>
          rw [List.append_nil, tokens_singleton hne hclear]
          rfl
        | cons c cs =>
          rw [tokens_append hne hclear (hnext c cs hrest)]
          rfl
    · rw [if_neg hb, List.drop_eq_nil_iff.mpr (by omega), tokens_nil, numbers, List.append_nil]

/-- A text is parsed to the numbers of its tokens. -/
theorem parseArrayString_eq (value : UInt32) (text : List Char) :
    parseArrayString value text = some (numbers value (tokens text)) := by
  rw [parseArrayString, parseArrayLoop_eq (by omega), List.nil_append, List.drop_zero]

/-! ### The printer -/

/-- The digits of a number. -/
abbrev digits (v : UInt32) : List Char := Nat.toDigits 10 v.toNat

theorem isSep_of_isDigit {c : Char} (h : c.isDigit = true) : isSep c = false := by
  rw [isSep, List.contains_eq_mem, decide_eq_false_iff_not]
  intro hmem
  have hmem' : c ∈ ['[', ',', ' ', ']'] := hmem
  simp only [List.mem_cons, List.not_mem_nil, or_false] at hmem'
  rcases hmem' with rfl | rfl | rfl | rfl <;> cases h

theorem isSep_digits (v : UInt32) : ∀ c ∈ digits v, isSep c = false := fun c hc =>
  isSep_of_isDigit (AutoSave.isDigit_toDigits _ c hc)

/-- Behind a number there is a separator. -/
theorem printNumbers_append (vs : List UInt32) :
    ∃ c cs, printNumbers false vs ++ "]".toList = c :: cs ∧ isSep c = true := by
  cases vs with
  | nil => exact ⟨']', [], rfl, by decide⟩
  | cons v vs =>
    exact ⟨',', ' ' :: digits v ++ printNumbers false vs ++ "]".toList, rfl, by decide⟩

/-- The tokens of what is printed behind the first number, and of all. -/
theorem tokens_printNumbers (vs : List UInt32) (first : Bool) :
    tokens (printNumbers first vs ++ "]".toList) = vs.map digits := by
  induction vs generalizing first with
  | nil =>
    show tokens [']'] = []
    decide
  | cons v vs ih =>
    have hfrom : tokens (digits v ++ (printNumbers false vs ++ "]".toList)) =
        digits v :: vs.map digits := by
      obtain ⟨c, cs, heq, hc⟩ := printNumbers_append vs
      have hrest := ih false
      rw [heq, tokens_cons hc] at hrest
      rw [heq, tokens_append (AutoSave.toDigits_ne_nil _) (isSep_digits v) hc, hrest]
    rw [printNumbers, List.map_cons, List.append_assoc, List.append_assoc]
    cases first with
    | true => exact hfrom
    | false =>
      show tokens (',' :: ' ' :: (digits v ++ (printNumbers false vs ++ "]".toList))) = _
      rw [tokens_cons (by decide), tokens_cons (by decide), hfrom]

/-- A number is read from its digits. -/
theorem extractUnsigned_digits (value v : UInt32) : extractUnsigned value (digits v) = v := by
  have hdigits := AutoSave.isDigit_toDigits v.toNat
  obtain ⟨d, ds, heq⟩ := List.exists_cons_of_ne_nil (AutoSave.toDigits_ne_nil v.toNat)
  have hd : d.isDigit = true := hdigits d (heq ▸ List.mem_cons_self)
  have hspace := isSpace_of_isDigit hd
  have hskip : (digits v).dropWhile isSpace = d :: ds := by
    rw [digits, heq, List.dropWhile_cons_of_neg (by rw [hspace]; exact Bool.false_ne_true)]
  have hall : (d :: ds).takeWhile (·.isDigit) = d :: ds := by
    rw [List.takeWhile_eq_self_iff]
    exact heq ▸ hdigits
  have hvalue : Nat.ofDigitChars 10 (d :: ds) 0 = v.toNat := by
    rw [← heq]
    exact Nat.ofDigitChars_ten_toDigits
  have hsign : takeSign (d :: ds) = (false, d :: ds) := takeSign_of_isDigit hd
  have hlt := v.toNat_lt
  rw [extractUnsigned, hskip, hsign]
  simp only [hall, hvalue]
  rw [if_neg (List.cons_ne_nil _ _), if_neg (List.cons_ne_nil _ _), if_neg (by omega),
    if_neg Bool.false_ne_true, UInt32.ofNat_toNat]

theorem numbers_digits (value : UInt32) (vs : List UInt32) :
    numbers value (vs.map digits) = vs := by
  induction vs generalizing value with
  | nil => rfl
  | cons v vs ih => rw [List.map_cons, numbers, extractUnsigned_digits, ih]

/-- A list that is printed is parsed back; and every text is parsed, with a number for each
    token. -/
theorem arrayString_roundTrip (value : UInt32) :
    (∀ arrayVec : List UInt32,
      parseArrayString value (printArrayString arrayVec) = some arrayVec) ∧
    ∀ arrayStr : List Char, ∃ arrayVec, parseArrayString value arrayStr = some arrayVec ∧
      arrayVec.length = (tokens arrayStr).length := by
  constructor
  · intro arrayVec
    have htokens : tokens (printArrayString arrayVec) = arrayVec.map digits := by
      show tokens ('[' :: (printNumbers true arrayVec ++ "]".toList)) = _
      rw [tokens_cons (by decide), tokens_printNumbers]
    rw [parseArrayString_eq, htokens, numbers_digits]
  · exact fun arrayStr => ⟨_, parseArrayString_eq value arrayStr, length_numbers _ _⟩

end Adara.Spec.ArrayString
