import Mathlib.Data.List.Perm.Basic
import Mathlib.Data.List.ProdSigma

/-! # Sorting a list into classes

A list is sorted into classes: for every class, in the order in which the classes are given, the
elements of that class.  Where the classes are all different and each element has one of them, no
element is lost and none is there twice (`perm_classes`). -/

namespace List

variable {α γ : Type*} [DecidableEq γ]

/-- The elements by class. -/
def classes (cls : α → γ) (cs : List γ) (l : List α) : List α :=
  cs.flatMap fun c => l.filter fun a => cls a = c

theorem classes_cons (cls : α → γ) (c : γ) (cs : List γ) (l : List α) :
    classes cls (c :: cs) l = (l.filter fun a => cls a = c) ++ classes cls cs l :=
  flatMap_cons

/-- Elements of another class do not matter. -/
theorem classes_filter_ne {cls : α → γ} {c : γ} {cs : List γ} (hc : c ∉ cs) (l : List α) :
    classes cls cs (l.filter fun a => !decide (cls a = c)) = classes cls cs l := by
  rw [classes, classes]
  apply flatMap_congr
  intro c' hc'
  rw [filter_filter]
  apply filter_congr
  intro a _
  by_cases hcls : cls a = c'
  · have hne : cls a ≠ c := fun heq => hc (heq ▸ hcls ▸ hc')
    simp [hcls, hcls ▸ hne]
  · simp [hcls]

theorem perm_classes {cls : α → γ} {cs : List γ} (hcs : cs.Nodup) {l : List α}
    (hl : ∀ a ∈ l, cls a ∈ cs) : (classes cls cs l).Perm l := by
  induction cs generalizing l with
  | nil =>
    have hnil : l = [] := eq_nil_iff_forall_not_mem.mpr fun a ha => not_mem_nil (hl a ha)
    rw [hnil]
    exact Perm.refl _
  | cons c cs ih =>
    obtain ⟨hc, hcs⟩ := nodup_cons.mp hcs
    -- the elements of the first class, and those of the others
    refine Perm.trans ?_ (filter_append_perm (fun a => decide (cls a = c)) l)
    rw [classes_cons, ← classes_filter_ne hc]
    apply Perm.append_left
    apply ih hcs
    intro a ha
    obtain ⟨hmem, hne⟩ := mem_filter.mp ha
    simp only [Bool.not_eq_true', decide_eq_false_iff_not] at hne
    exact (mem_cons.mp (hl a hmem)).resolve_left hne

/-- Elements of no class are left out. -/
theorem perm_classes_filter {cls : α → γ} {cs : List γ} (hcs : cs.Nodup) {p : α → Bool}
    (hp : ∀ a, p a = true ↔ cls a ∈ cs) (l : List α) :
    (classes cls cs l).Perm (l.filter p) := by
  have hfilter : classes cls cs (l.filter p) = classes cls cs l := by
    rw [classes, classes]
    apply flatMap_congr
    intro c hc
    rw [filter_filter]
    apply filter_congr
    intro a _
    by_cases hcls : cls a = c
    · simp [hcls, (hp a).mpr (hcls ▸ hc)]
    · simp [hcls]
  rw [← hfilter]
  exact perm_classes hcs fun a ha => (hp a).mp (mem_filter.mp ha).2

end List
