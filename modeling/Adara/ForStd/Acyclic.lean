import Mathlib.Data.Finset.Card
import Mathlib.Logic.Relation

/-! # Relations without cycles

A relation where no path leads back to where it starts.  If all that it leads to is in a finite set,
what can be reached from an element counts down along every path (`Acyclic.exists_rank`), so a
recursion along the relation comes to an end at a depth that is known beforehand, and what holds of
an element once it holds of all that lead to it holds of every element (`Acyclic.induction`). -/

namespace Relation

variable {α : Type*} {r r' : α → α → Prop}

/-- No path leads back to where it starts. -/
def Acyclic (r : α → α → Prop) : Prop := ∀ a, ¬ TransGen r a a

theorem Acyclic.mono (h : Acyclic r) (hsub : ∀ a b, r' a b → r a b) : Acyclic r' :=
  fun a hcycle => h a (TransGen.mono hsub _ _ hcycle)

/-- A path where only one element is led to in a new way, either was there or goes through this
    element. -/
theorem transGen_of_new_target {t : α} (hnew : ∀ a b, r' a b → r a b ∨ b = t) {a b : α}
    (h : TransGen r' a b) : TransGen r a b ∨ TransGen r' a t ∧ ReflTransGen r' t b := by
  induction h with
  | single hab =>
    rcases hnew _ _ hab with hold | rfl
    · exact .inl (.single hold)
    · exact .inr ⟨.single hab, .refl⟩
  | tail hpath hstep ih =>
    rcases ih with hold | ⟨hto, hfrom⟩
    · rcases hnew _ _ hstep with holdStep | rfl
      · exact .inl (hold.tail holdStep)
      · exact .inr ⟨hpath.tail hstep, .refl⟩
    · exact .inr ⟨hto, hfrom.tail hstep⟩

/-- New ways to one element make no cycle, unless it lies on one. -/
theorem Acyclic.new_target (h : Acyclic r) {t : α} (hnew : ∀ a b, r' a b → r a b ∨ b = t)
    (ht : ¬ TransGen r' t t) : Acyclic r' := by
  intro a hcycle
  rcases transGen_of_new_target hnew hcycle with hold | ⟨hto, hfrom⟩
  · exact h a hold
  · exact ht (.trans_right hfrom hto)

section Finite

variable {s : Finset α}

/-- What can be reached becomes less along every step. -/
theorem Acyclic.exists_rank (h : Acyclic r) (hs : ∀ a b, r a b → b ∈ s) :
    ∃ rank : α → Nat, (∀ a b, r a b → rank b < rank a) ∧ ∀ a, rank a ≤ s.card := by
  classical
  refine ⟨fun a => (s.filter (TransGen r a)).card, fun a b hab => ?_, fun a =>
    Finset.card_le_card (Finset.filter_subset _ _)⟩
  apply Finset.card_lt_card
  rw [Finset.ssubset_iff_of_subset]
  · -- the element itself is reached from `a`, but not from itself
    exact ⟨b, Finset.mem_filter.mpr ⟨hs a b hab, .single hab⟩, fun hmem =>
      h b (Finset.mem_filter.mp hmem).2⟩
  · intro c hc
    obtain ⟨hmem, hpath⟩ := Finset.mem_filter.mp hc
    exact Finset.mem_filter.mpr ⟨hmem, hpath.head hab⟩

/-- Induction along the paths: an element comes after all that lead to it. -/
theorem Acyclic.induction (h : Acyclic r) (hs : ∀ a b, r a b → b ∈ s) {P : α → Prop}
    (hstep : ∀ b, (∀ a, r a b → P a) → P b) (b : α) : P b := by
  obtain ⟨rank, hrank, hle⟩ := h.exists_rank hs
  -- the rank grows against the direction of the paths, up to the size of the set
  induction hn : s.card - rank b using Nat.strong_induction_on generalizing b with
  | _ n ih =>
    apply hstep
    intro a hab
    have hlt := hrank a b hab
    have hbound := hle a
    exact ih (s.card - rank a) (by omega) a rfl

end Finite

end Relation
