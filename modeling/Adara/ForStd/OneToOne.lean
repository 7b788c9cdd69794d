import Adara.ForStd.SortedMap
import Mathlib.Data.Finset.Dedup
import Mathlib.Data.Finset.SDiff

/-! # One-to-one maps

A map that gives every key a value of its own, beside the set of the values in use.  The two
stay in step when a new value is taken, and when the keys that meet a condition are removed
together with their values. -/

namespace SortedMap

variable {κ β : Type*} [LinearOrder κ] {m : SortedMap κ β} {S : Finset β}

/-- The values of the map are those in `S`, each under one key. -/
structure OneToOne (m : SortedMap κ β) (S : Finset β) : Prop where
  injective : ∀ k k' v, m.find? k = some v → m.find? k' = some v → k = k'
  image : ∀ v, v ∈ S ↔ ∃ k, m.find? k = some v

theorem oneToOne_empty : OneToOne (empty : SortedMap κ β) ∅ where
  injective _ _ _ h := nomatch h
  image v := ⟨fun h => absurd h (Finset.notMem_empty v), fun ⟨_, h⟩ => nomatch h⟩

variable [DecidableEq β]

/-- A new key gets a value that is not in use. -/
theorem OneToOne.set (h : OneToOne m S) {k : κ} {v : β} (hk : m.find? k = none) (hv : v ∉ S) :
    OneToOne (m.set k v) (Insert.insert v S) where
  injective k₁ k₂ w h₁ h₂ := by
    have hused : ∀ k', m.find? k' ≠ some v := fun k' hk' => hv ((h.image v).mpr ⟨k', hk'⟩)
    rw [find?_set] at h₁ h₂
    split at h₁ <;> split at h₂
    · rw [‹k₁ = k›, ‹k₂ = k›]
    · exact absurd (h₂.trans h₁.symm) (hused k₂)
    · exact absurd (h₁.trans h₂.symm) (hused k₁)
    · exact h.injective k₁ k₂ w h₁ h₂
  image w := by
    rw [Finset.mem_insert, h.image w]
    refine ⟨?_, fun ⟨k', hk'⟩ => ?_⟩
    · rintro (rfl | ⟨k', hk'⟩)
      · exact ⟨k, by rw [find?_set, if_pos rfl]⟩
      · have hne : k' ≠ k := fun heq => by rw [heq, hk] at hk'; cases hk'
        exact ⟨k', by rw [find?_set, if_neg hne, hk']⟩
    · rw [find?_set] at hk'
      split at hk'
      · exact .inl (Option.some.inj hk').symm
      · exact .inr ⟨k', hk'⟩

/-- The keys that meet a condition go, and their values are not in use any more. -/
theorem OneToOne.filter (h : OneToOne m S) (p : κ → Bool) :
    OneToOne (m.filter fun k _ => !p k)
      (S \ ((m.filter fun k _ => p k).entries.map Prod.snd).toFinset) where
  injective k k' v hk hk' := by
    rw [find?_filter, Option.filter_eq_some_iff] at hk hk'
    exact h.injective k k' v hk.1 hk'.1
  image v := by
    have hgone : v ∈ ((m.filter fun k _ => p k).entries.map Prod.snd).toFinset ↔
        ∃ k, m.find? k = some v ∧ p k = true := by
      simp only [List.mem_toFinset, List.mem_map, Prod.exists, exists_eq_right]
      refine exists_congr fun k => ?_
      rw [← find?_eq_some, find?_filter, Option.filter_eq_some_iff]
    rw [Finset.mem_sdiff, hgone, h.image v]
    refine ⟨fun ⟨⟨k, hk⟩, hnot⟩ => ⟨k, ?_⟩, fun ⟨k, hk⟩ => ?_⟩
    · rw [find?_filter, hk]
      have hp : p k = false := Bool.eq_false_iff.mpr fun hp => hnot ⟨k, hk, hp⟩
      simp [hp]
    · rw [find?_filter, Option.filter_eq_some_iff, Bool.not_eq_true'] at hk
      refine ⟨⟨k, hk.1⟩, fun ⟨k', hk', hp⟩ => ?_⟩
      -- the value has one key only, and that one stays
      rw [h.injective k' k v hk' hk.1, hk.2] at hp
      cases hp

end SortedMap
