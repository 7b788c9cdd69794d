import Mathlib.Logic.Relation
import Adara.Spec.FileOrder

/-! # The files of the modes

The numbers of the files that a container makes, without the container.  A mode makes its next
file, a new mode begins with its first file, or older modes are closed (`Series.Step`).  In
whatever order this happens, the files of each mode are complete, and sorted by their modes the
files follow each other (`Series.Regular.isChain`). -/

namespace Adara.Spec.ScannedContainer

open Adara.Native

/-- The files made so far, and the last one of each mode that is not closed, of the newest mode
    first. -/
structure Series where
  files : List FileNumbers
  current : List FileNumbers

namespace Series

/-- What happens to the files.  The premise says that only the newest mode makes files. -/
inductive Step (newestOnly : Prop) : Series → Series → Prop where
  | next {files pre post : List FileNumbers} {f : FileNumbers} (newest : newestOnly → pre = [])
      (fits : Nameable (nextFile f)) :
    Step newestOnly ⟨files, pre ++ f :: post⟩
      ⟨files ++ [nextFile f], pre ++ nextFile f :: post⟩
  | turn {files post : List FileNumbers} {f : FileNumbers}
      (fits : Nameable (firstFile (f.modeNumber + 1) (!f.paused))) :
    Step newestOnly ⟨files, f :: post⟩
      ⟨files ++ [firstFile (f.modeNumber + 1) (!f.paused)],
        firstFile (f.modeNumber + 1) (!f.paused) :: f :: post⟩
  | close {files post post' : List FileNumbers} {f : FileNumbers} (sublist : post'.Sublist post) :
    Step newestOnly ⟨files, f :: post⟩ ⟨files, f :: post'⟩

abbrev Steps (newestOnly : Prop) : Series → Series → Prop :=
  Relation.ReflTransGen (Step newestOnly)

/-- A container with its first file. -/
def first (paused : Bool) : Series := ⟨[firstFile 1 paused], [firstFile 1 paused]⟩

end Series

/-! ### Modes -/

/-- The files of mode `k`. -/
def ofMode (k : Nat) (fs : List FileNumbers) : List FileNumbers :=
  fs.filter fun f => f.modeNumber == k

theorem mem_ofMode {k : Nat} {fs : List FileNumbers} {f : FileNumbers} :
    f ∈ ofMode k fs ↔ f ∈ fs ∧ f.modeNumber = k := by
  rw [ofMode, List.mem_filter, beq_iff_eq]

theorem ofMode_append (k : Nat) (fs gs : List FileNumbers) :
    ofMode k (fs ++ gs) = ofMode k fs ++ ofMode k gs :=
  List.filter_append fs gs

theorem ofMode_concat (fs : List FileNumbers) (g : FileNumbers) :
    ofMode g.modeNumber (fs ++ [g]) = ofMode g.modeNumber fs ++ [g] := by
  simp [ofMode]

theorem ofMode_concat_ne {k : Nat} {fs : List FileNumbers} {g : FileNumbers}
    (h : g.modeNumber ≠ k) : ofMode k (fs ++ [g]) = ofMode k fs := by
  simp [ofMode, h]

theorem ofMode_eq_nil {k : Nat} {fs : List FileNumbers} (h : ∀ f ∈ fs, f.modeNumber ≠ k) :
    ofMode k fs = [] := by
  rw [ofMode, List.filter_eq_nil_iff]
  simpa using h

theorem ofMode_ofMode (j k : Nat) (fs : List FileNumbers) :
    ofMode j (ofMode k fs) = if j = k then ofMode k fs else [] := by
  split
  · next h =>
    subst h
    exact List.filter_eq_self.mpr fun f hf => beq_iff_eq.mpr (mem_ofMode.mp hf).2
  · next h =>
    exact ofMode_eq_nil fun f hf heq => h (heq.symm.trans (mem_ofMode.mp hf).2)

/-- Paused and running modes take turns. -/
def modePaused (firstPaused : Bool) : Nat → Bool
  | 0 => !firstPaused
  | k + 1 => !modePaused firstPaused k

/-- These are the files of mode `k`, from the first one on. -/
structure Complete (firstPaused : Bool) (k : Nat) (fs : List FileNumbers) : Prop where
  head : fs.head? = some (firstFile k (modePaused firstPaused k))
  next : fs.IsChain fun f g => g = nextFile f
  paused : ∀ f ∈ fs, f.paused = modePaused firstPaused k

theorem Complete.ne_nil {p : Bool} {k : Nat} {fs : List FileNumbers} (h : Complete p k fs) :
    fs ≠ [] := by
  rintro rfl
  cases h.head

theorem Complete.concat {p : Bool} {k : Nat} {fs : List FileNumbers} {f : FileNumbers}
    (h : Complete p k fs) (hlast : fs.getLast? = some f) : Complete p k (fs ++ [nextFile f]) := by
  refine ⟨?_, ?_, ?_⟩
  · rw [List.head?_append, h.head]
    rfl
  · refine List.isChain_append.mpr ⟨h.next, List.isChain_singleton _, fun x hx y hy => ?_⟩
    obtain rfl := Option.some.inj (hlast.symm.trans hx)
    exact (Option.some.inj hy).symm
  · intro g hg
    rcases List.mem_append.mp hg with hg | hg
    · exact h.paused g hg
    · rw [List.mem_singleton.mp hg, nextFile_paused]
      exact h.paused f (List.mem_of_getLast? hlast)

theorem Proper.nextFile {f : FileNumbers} (h : Proper f) : Proper (nextFile f) := by
  obtain ⟨m, n, k, p⟩ := f
  cases p with
  | true => exact ⟨h.fileNumber, fun _ => Nat.succ_ne_zero _, nofun⟩
  | false => exact ⟨Nat.succ_ne_zero _, nofun, h.running⟩

theorem proper_firstFile (k : Nat) (p : Bool) : Proper (firstFile k p) := by
  cases p with
  | true => exact ⟨Nat.one_ne_zero, fun _ => Nat.one_ne_zero, nofun⟩
  | false => exact ⟨Nat.one_ne_zero, nofun, fun _ => rfl⟩

theorem complete_first (p : Bool) (k : Nat) : Complete p k [firstFile k (modePaused p k)] :=
  ⟨rfl, List.isChain_singleton _, fun _ hf => List.mem_singleton.mp hf ▸ rfl⟩

/-! ### Steps -/

namespace Series

/-- The number of the newest mode. -/
def top (s : Series) : Nat := (s.current.head?.map (·.modeNumber)).getD 0

/-- The modes up to the newest are complete, and for each that is not closed its last file is
    known. -/
structure Regular (p : Bool) (s : Series) : Prop where
  current : s.current ≠ []
  named : ∀ f ∈ s.files, Named f
  le_top : ∀ f ∈ s.files, f.modeNumber ≤ s.top
  complete : ∀ k, 0 < k → k ≤ s.top → Complete p k (ofMode k s.files)
  latest : ∀ f ∈ s.current, (ofMode f.modeNumber s.files).getLast? = some f
  modes : s.current.Pairwise fun f g => g.modeNumber < f.modeNumber

theorem Regular.mem {p : Bool} {s : Series} (h : s.Regular p) {f : FileNumbers}
    (hf : f ∈ s.current) : f ∈ s.files :=
  (mem_ofMode.mp (List.mem_of_getLast? (h.latest f hf))).1

theorem Regular.paused {p : Bool} {s : Series} (h : s.Regular p) {f : FileNumbers}
    (hf : f ∈ s.files) : f.paused = modePaused p f.modeNumber :=
  (h.complete _ (h.named f hf).mode (h.le_top f hf)).paused f (mem_ofMode.mpr ⟨hf, rfl⟩)

theorem first_regular {p : Bool} : (first p).Regular p := by
  have hmode : ofMode 1 (first p).files = [firstFile 1 (modePaused p 1)] := by
    cases p <;> rfl
  refine ⟨List.cons_ne_nil _ _, ?_, ?_, ?_, ?_, List.pairwise_singleton _ _⟩
  · intro f hf
    rw [List.mem_singleton.mp hf]
    cases p <;> exact ⟨by constructor <;> decide, by constructor <;> decide, by decide⟩
  · intro f hf
    exact List.mem_singleton.mp hf ▸ Nat.le_refl 1
  · intro k hk hle
    obtain rfl : k = 1 := Nat.le_antisymm hle hk
    rw [hmode]
    exact complete_first p 1
  · intro f hf
    obtain rfl := List.mem_singleton.mp hf
    cases p <;> rfl

theorem top_append_cons (pre post : List FileNumbers) (files : List FileNumbers) {f g : FileNumbers}
    (h : g.modeNumber = f.modeNumber) (files' : List FileNumbers) :
    top ⟨files', pre ++ g :: post⟩ = top ⟨files, pre ++ f :: post⟩ := by
  cases pre <;> simp [top, h]

/-- A mode makes its next file. -/
theorem Regular.next {p : Bool} {files pre post : List FileNumbers} {f : FileNumbers}
    (h : Regular p ⟨files, pre ++ f :: post⟩) (hfits : Nameable (nextFile f)) :
    Regular p ⟨files ++ [nextFile f], pre ++ nextFile f :: post⟩ := by
  have hmode := nextFile_modeNumber f
  have hf : f ∈ pre ++ f :: post := by simp
  have hnamed := h.named f (h.mem hf)
  -- the next file is of the same mode, so the series of the others are as they were
  have htop : top ⟨files ++ [nextFile f], pre ++ nextFile f :: post⟩ =
      top ⟨files, pre ++ f :: post⟩ := top_append_cons pre post files hmode _
  have hlast : (ofMode f.modeNumber files).getLast? = some f := h.latest f hf
  have hconcat : ofMode f.modeNumber (files ++ [nextFile f]) =
      ofMode f.modeNumber files ++ [nextFile f] := hmode ▸ ofMode_concat files (nextFile f)
  have hother : ∀ k, k ≠ f.modeNumber → ofMode k (files ++ [nextFile f]) = ofMode k files :=
    fun k hk => ofMode_concat_ne (fun heq => hk (heq.symm.trans hmode))
  have hmodes := h.modes
  constructor
  · simp
  · intro g hg
    rcases List.mem_append.mp hg with hg | hg
    · exact h.named g hg
    · rw [List.mem_singleton.mp hg]
      exact ⟨hfits, hnamed.proper.nextFile, hmode ▸ hnamed.mode⟩
  · intro g hg
    rw [htop]
    rcases List.mem_append.mp hg with hg | hg
    · exact h.le_top g hg
    · rw [List.mem_singleton.mp hg, hmode]
      exact h.le_top f (h.mem hf)
  · intro k hk hle
    rw [htop] at hle
    have hcomplete := h.complete k hk hle
    -- the series of this mode goes on at its end
    by_cases heq : k = f.modeNumber
    · subst heq
      rw [hconcat]
      exact hcomplete.concat hlast
    · rw [hother k heq]
      exact hcomplete
  · intro g hg
    simp only [List.pairwise_append, List.pairwise_cons] at hmodes
    rcases List.mem_append.mp hg with hpre | hpost
    · rw [hother _ (Nat.ne_of_gt (hmodes.2.2 g hpre f List.mem_cons_self))]
      exact h.latest g (List.mem_append_left _ hpre)
    · rcases List.mem_cons.mp hpost with rfl | hpost
      · rw [hmode, hconcat]
        exact List.getLast?_concat
      · rw [hother _ (Nat.ne_of_lt (hmodes.2.1.1 g hpost))]
        exact h.latest g (List.mem_append_right _ (List.mem_cons_of_mem _ hpost))
  · simp only [List.pairwise_append, List.pairwise_cons, List.mem_cons, forall_eq_or_imp,
      hmode] at hmodes ⊢
    exact hmodes

/-- A new mode begins. -/
theorem Regular.turn {p : Bool} {files post : List FileNumbers} {f : FileNumbers}
    (h : Regular p ⟨files, f :: post⟩)
    (hfits : Nameable (firstFile (f.modeNumber + 1) (!f.paused))) :
    Regular p ⟨files ++ [firstFile (f.modeNumber + 1) (!f.paused)],
      firstFile (f.modeNumber + 1) (!f.paused) :: f :: post⟩ := by
  have hf : f ∈ f :: post := List.mem_cons_self
  have hpaused : (!f.paused) = modePaused p (f.modeNumber + 1) := by
    rw [h.paused (h.mem hf)]
    rfl
  rw [hpaused] at hfits ⊢
  have hle : ∀ g ∈ files, g.modeNumber ≤ f.modeNumber := h.le_top
  -- the files there are belong to the modes up to `f`, so the new one stands alone in its mode
  have hnew : ofMode (f.modeNumber + 1) (files ++ [firstFile (f.modeNumber + 1)
      (modePaused p (f.modeNumber + 1))]) =
        [firstFile (f.modeNumber + 1) (modePaused p (f.modeNumber + 1))] := by
    refine (ofMode_concat files (firstFile (f.modeNumber + 1) _)).trans ?_
    have hnil : ofMode (f.modeNumber + 1) files = [] :=
      ofMode_eq_nil fun g hg => Nat.ne_of_lt (Nat.lt_succ_of_le (hle g hg))
    show ofMode (f.modeNumber + 1) files ++ _ = _
    rw [hnil]
    rfl
  have hother : ∀ k, k ≤ f.modeNumber → ofMode k (files ++ [firstFile (f.modeNumber + 1)
      (modePaused p (f.modeNumber + 1))]) = ofMode k files :=
    fun k hk => ofMode_concat_ne (Nat.ne_of_gt (Nat.lt_succ_of_le hk))
  constructor
  · simp
  · intro g hg
    rcases List.mem_append.mp hg with hg | hg
    · exact h.named g hg
    · rw [List.mem_singleton.mp hg]
      exact ⟨hfits, proper_firstFile _ _, Nat.succ_pos _⟩
  · intro g hg
    rcases List.mem_append.mp hg with hg | hg
    · exact Nat.le_succ_of_le (hle g hg)
    · exact List.mem_singleton.mp hg ▸ Nat.le_refl _
  · intro k hk hle'
    have hle' : k ≤ f.modeNumber + 1 := hle'
    rcases Nat.le_succ_iff.mp hle' with hold | rfl
    · rw [hother k hold]
      exact h.complete k hk hold
    · rw [hnew]
      exact complete_first p _
  · intro g hg
    rcases List.mem_cons.mp hg with rfl | hg
    · exact congrArg List.getLast? hnew
    · rw [hother _ (hle g (h.mem hg))]
      exact h.latest g hg
  · exact List.pairwise_cons.mpr ⟨fun g hg => Nat.lt_succ_of_le (hle g (h.mem hg)), h.modes⟩

/-- Older modes are closed. -/
theorem Regular.close {p : Bool} {files post post' : List FileNumbers} {f : FileNumbers}
    (h : Regular p ⟨files, f :: post⟩) (hsublist : post'.Sublist post) :
    Regular p ⟨files, f :: post'⟩ :=
  ⟨List.cons_ne_nil _ _, h.named, h.le_top, h.complete,
    fun g hg => h.latest g ((hsublist.cons_cons f).subset hg),
    h.modes.sublist (hsublist.cons_cons f)⟩

theorem Steps.regular {newestOnly : Prop} {p : Bool} {s s' : Series} (h : Steps newestOnly s s')
    (hs : s.Regular p) : s'.Regular p := by
  induction h with
  | refl => exact hs
  | tail _ hlast ih =>
    cases hlast with
    | next _ fits => exact ih.next fits
    | turn fits => exact ih.turn fits
    | close sublist => exact ih.close sublist

end Series

/-! ### The order of the modes -/

/-- The files in the order of their modes, and those of each mode in the order they were made
    in. -/
structure InModes (files ordered : List FileNumbers) : Prop where
  perm : ordered.Perm files
  modes : ordered.Pairwise fun f g => f.modeNumber ≤ g.modeNumber
  ofMode : ∀ k, ofMode k ordered = ofMode k files

/-- The files of the modes up to `k`. -/
def upToMode (files : List FileNumbers) : Nat → List FileNumbers
  | 0 => []
  | k + 1 => upToMode files k ++ ofMode (k + 1) files

theorem ofMode_upToMode (files : List FileNumbers) (j k : Nat) :
    ofMode j (upToMode files k) = if 0 < j ∧ j ≤ k then ofMode j files else [] := by
  induction k with
  | zero =>
    rw [if_neg (by omega)]
    rfl
  | succ k ih =>
    rw [upToMode, ofMode_append, ih, ofMode_ofMode]
    by_cases hnew : j = k + 1
    · rw [if_neg (by omega), if_pos hnew, if_pos (by omega), hnew, List.nil_append]
    · rw [if_neg hnew, List.append_nil]
      by_cases hold : 0 < j ∧ j ≤ k
      · rw [if_pos hold, if_pos (by omega)]
      · rw [if_neg hold, if_neg (by omega)]

theorem perm_upToMode (files : List FileNumbers) (k : Nat) :
    (upToMode files k).Perm (files.filter fun f => decide (0 < f.modeNumber ∧ f.modeNumber ≤ k)) := by
  induction k with
  | zero =>
    rw [List.filter_eq_nil_iff.mpr fun f _ => by simp; omega]
    exact .nil
  | succ k ih =>
    have hsplit := List.filter_append_perm (fun f : FileNumbers => decide (f.modeNumber ≤ k))
      (files.filter fun f => decide (0 < f.modeNumber ∧ f.modeNumber ≤ k + 1))
    refine List.Perm.trans ?_ hsplit
    rw [List.filter_filter, List.filter_filter]
    refine List.Perm.append (ih.trans (.of_eq ?_)) (.of_eq ?_)
    · apply List.filter_congr
      intro f _
      rw [← Bool.decide_and, decide_eq_decide]
      omega
    · apply List.filter_congr
      intro f _
      rw [Bool.eq_iff_iff, beq_iff_eq, ← decide_not, ← Bool.decide_and, decide_eq_true_iff]
      omega

namespace Series

/-- Sorted by their modes the files follow each other. -/
theorem Regular.isChain {p : Bool} {s : Series} (h : s.Regular p) {k : Nat} (hk : k ≤ s.top) :
    (upToMode s.files k).IsChain Follows := by
  induction k with
  | zero => exact List.isChain_nil
  | succ k ih =>
    have hnew := h.complete (k + 1) k.succ_pos hk
    refine List.isChain_append.mpr
      ⟨ih (Nat.le_of_succ_le hk), hnew.next.imp fun _ _ => .inl, fun x hx y hy => ?_⟩
    -- the last file of mode `k`, and the first one of the next mode
    obtain rfl := Option.some.inj (hnew.head.symm.trans hy)
    cases k with
    | zero => cases hx
    | succ k =>
      have hold := h.complete (k + 1) k.succ_pos (Nat.le_of_succ_le hk)
      rw [upToMode, List.getLast?_append_of_ne_nil _ hold.ne_nil] at hx
      have hmem := List.mem_of_getLast? hx
      right
      rw [(mem_ofMode.mp hmem).2, hold.paused x hmem]
      rfl

theorem Regular.head? {p : Bool} {s : Series} (h : s.Regular p) {k : Nat} (hk : k < s.top) :
    (upToMode s.files (k + 1)).head? = some (firstFile 1 p) := by
  induction k with
  | zero =>
    have hfirst := (h.complete 1 Nat.one_pos hk).head
    rw [upToMode, upToMode, List.nil_append, hfirst]
    cases p <;> rfl
  | succ k ih =>
    rw [upToMode, List.head?_append, ih (Nat.lt_of_succ_lt hk)]
    rfl

theorem Regular.top_pos {p : Bool} {s : Series} (h : s.Regular p) : 0 < s.top := by
  obtain ⟨f, post, hcurrent⟩ := List.exists_cons_of_ne_nil h.current
  have hf := h.mem (f := f) (by simp [hcurrent])
  exact Nat.lt_of_lt_of_le (h.named f hf).mode (h.le_top f hf)

/-- The files of all modes. -/
def inModes (s : Series) : List FileNumbers := upToMode s.files s.top

theorem Regular.perm {p : Bool} {s : Series} (h : s.Regular p) : s.inModes.Perm s.files := by
  refine (perm_upToMode s.files s.top).trans (.of_eq (List.filter_eq_self.mpr fun f hf => ?_))
  exact decide_eq_true ⟨(h.named f hf).mode, h.le_top f hf⟩

theorem Regular.inModes {p : Bool} {s : Series} (h : s.Regular p) : InModes s.files s.inModes := by
  refine ⟨h.perm, (pairwise_before (h.isChain (Nat.le_refl _))).imp fun hb => ?_, fun k => ?_⟩
  · simp only [Before] at hb
    omega
  · rw [Series.inModes, ofMode_upToMode]
    split
    · rfl
    · next hk =>
      refine (ofMode_eq_nil fun f hf heq => hk ?_).symm
      exact heq ▸ ⟨(h.named f hf).mode, h.le_top f hf⟩

/-! ### The newest mode -/

/-- The last file was made by the newest mode, and all follow each other. -/
structure Newest (s : Series) : Prop where
  isChain : s.files.IsChain Follows
  last : s.files.getLast? = s.current.head?

theorem Newest.concat {files current : List FileNumbers} {f g : FileNumbers}
    (h : Newest ⟨files, f :: current⟩) (hg : Follows f g) (current' : List FileNumbers) :
    Newest ⟨files ++ [g], g :: current'⟩ := by
  refine ⟨List.isChain_append.mpr ⟨h.isChain, List.isChain_singleton _, fun x hx y hy => ?_⟩, ?_⟩
  · obtain rfl := Option.some.inj (h.last.symm.trans hx)
    exact Option.some.inj hy ▸ hg
  · exact List.getLast?_concat

theorem Steps.newest {s s' : Series} (h : Steps True s s') (hs : s.Newest) : s'.Newest := by
  induction h with
  | refl => exact hs
  | tail _ hlast ih =>
    cases hlast with
    | next newest =>
      obtain rfl := newest trivial
      exact ih.concat (.inl rfl) _
    | turn => exact ih.concat (.inr rfl) _
    | close => exact ⟨ih.isChain, ih.last⟩

/-- If only the newest mode makes files, then the order of the modes is the one in which the
    files were made. -/
theorem Regular.eq_files {p : Bool} {s : Series} (h : s.Regular p) (hs : s.Newest) :
    s.inModes = s.files := by
  refine List.Perm.eq_of_pairwise (fun f g _ _ hfg hgf => ?_)
    (pairwise_before (h.isChain (Nat.le_refl _))) (pairwise_before hs.isChain) h.perm
  simp only [Before] at hfg hgf
  omega

end Series

end Adara.Spec.ScannedContainer
