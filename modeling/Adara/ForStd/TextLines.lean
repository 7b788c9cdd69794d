import Mathlib.Data.List.Basic

/-! # Reading a text by lines and words

`getlines` has the lines of a text as they are read one by one, the last of them with or
without its newline.  `word` skips blanks and takes a word, and leaves what is behind it.  The
alphabet, the newline and the blanks are parameters. -/

namespace TextLines

variable {α : Type*}

section Lines

variable [DecidableEq α] (newline : α)

/-- The lines of a text, the first of which has begun with `cur`, reversed. -/
def linesFrom : (cur : List α) → List α → List (List α)
  | [], [] => []
  | cur, [] => [cur.reverse]
  | cur, c :: text =>
    if c = newline then cur.reverse :: linesFrom [] text else linesFrom (c :: cur) text

def getlines (text : List α) : List (List α) := linesFrom newline [] text

variable {newline}

theorem linesFrom_append {line : List α} (h : newline ∉ line) (cur text : List α) :
    linesFrom newline cur (line ++ newline :: text) =
      (cur.reverse ++ line) :: linesFrom newline [] text := by
  induction line generalizing cur with
  | nil => simp [linesFrom]
  | cons c line ih =>
    have hne : newline ≠ c := List.ne_of_not_mem_cons h
    rw [List.cons_append, linesFrom, if_neg (Ne.symm hne), ih (List.not_mem_of_not_mem_cons h)]
    simp

/-- A text written line by line is read back so. -/
theorem getlines_flatMap {lines : List (List α)} (h : ∀ line ∈ lines, newline ∉ line) :
    getlines newline (lines.flatMap fun line => line ++ [newline]) = lines := by
  induction lines with
  | nil => rfl
  | cons line lines ih =>
    obtain ⟨hline, hrest⟩ := List.forall_mem_cons.mp h
    rw [List.flatMap_cons, List.append_assoc]
    show linesFrom newline [] (line ++ newline :: _) = _
    rw [linesFrom_append hline]
    exact congrArg _ (ih hrest)

end Lines

section Words

variable {isSpace : α → Bool} {w : List α}

/-- Skip blanks and take a word, with what is left. -/
def word (isSpace : α → Bool) (text : List α) : List α × List α :=
  let text := text.dropWhile isSpace
  (text.takeWhile fun c => !isSpace c, text.dropWhile fun c => !isSpace c)

/-- A word with a blank behind it is taken, with a blank in front of it or without. -/
theorem word_append (hw : w ≠ []) (hspace : ∀ c ∈ w, isSpace c = false) {b : α}
    (hb : isSpace b = true) (rest : List α) :
    word isSpace (w ++ b :: rest) = (w, b :: rest) := by
  obtain ⟨c, w, rfl⟩ := List.exists_cons_of_ne_nil hw
  obtain ⟨hc, hrest⟩ := List.forall_mem_cons.mp hspace
  have hdrop : ((c :: w) ++ b :: rest).dropWhile isSpace = (c :: w) ++ b :: rest := by
    simp [hc]
  have hnot : ∀ x ∈ c :: w, (!isSpace x) = true := fun x hx => by rw [hspace x hx]; rfl
  rw [word, hdrop, List.takeWhile_append_of_pos hnot, List.dropWhile_append_of_pos hnot,
    List.takeWhile_cons_of_neg (by simp [hb]), List.dropWhile_cons_of_neg (by simp [hb]),
    List.append_nil]

theorem word_cons {b : α} (hb : isSpace b = true) (text : List α) :
    word isSpace (b :: text) = word isSpace text := by
  rw [word, List.dropWhile_cons_of_pos hb, word]

/-- No word is found only where nothing is left. -/
theorem word_snd_eq_nil {text : List α} (h : (word isSpace text).1 = []) :
    (word isSpace text).2 = [] := by
  rw [word] at h ⊢
  simp only at h ⊢
  cases hdrop : text.dropWhile isSpace with
  | nil => rfl
  | cons c rest =>
    have hc : isSpace c = false := by
      have hhead := List.head_dropWhile_not isSpace (l := text) (by rw [hdrop]; simp)
      simpa [hdrop] using hhead
    rw [hdrop, List.takeWhile_cons_of_pos (by simp [hc])] at h
    cases h

end Words

end TextLines
