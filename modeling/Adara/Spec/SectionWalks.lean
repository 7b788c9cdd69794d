import Adara.Native.StreamParser
import Adara.Spec.StreamPackets

/-! # Walking the sections of banked events

A payload of banked events is a list of sources, each with the banks its header announces.
Nothing checks these numbers, so a walk stays in the payload just if they are right:
`Walkable` is what a walk needs of the words, by rules that say what it skips behind the
header of a bank.  The translator's loops stay in the payload just if it is walkable by their
rules (`walkSources_isSome_iff`). -/

namespace Adara.Spec.SectionWalks

open Adara.Native

/-- How a walk takes the banks: the words it skips behind the header of a bank, what it needs
    of the bank, and how many words may be left at the end, depending on whether a bank with
    events has been found. -/
structure WalkRules where
  withState : Bool
  skip : BankSection → Nat
  fits : BankSection → Prop
  tail : Bool → Nat

/-- The words have what a walk reads: the headers of `bankCount` banks of a source, and then
    sources with all their banks up to the end. -/
inductive Walkable (rules : WalkRules) : (found : Bool) → (bankCount : Nat) → List UInt32 → Prop
  | done {found : Bool} {ws : List UInt32} (hend : ws.length ≤ rules.tail found) :
      Walkable rules found 0 ws
  | source {found : Bool} {sourceId intraPulse tof bankCount : UInt32} {ws : List UInt32}
      (hrest : Walkable rules found bankCount.toNat ws) :
      Walkable rules found 0 (sourceId :: intraPulse :: tof :: bankCount :: ws)
  | bank {found : Bool} {k : Nat} {ws : List UInt32} {bank : BankSection}
      (hread : readBankHeader rules.withState ws = some bank) (hfits : rules.fits bank)
      (hrest : Walkable rules (found || 0 < bank.eventCount) k
        (bank.rpos.drop (rules.skip bank))) :
      Walkable rules found (k + 1) ws

section Walkable

variable {rules : WalkRules} {found : Bool} {k : Nat} {ws : List UInt32} {bank : BankSection}

/-- A bank is walkable with its header, and what is behind it. -/
theorem walkable_bank_iff (hread : readBankHeader rules.withState ws = some bank) :
    Walkable rules found (k + 1) ws ↔ rules.fits bank ∧
      Walkable rules (found || 0 < bank.eventCount) k (bank.rpos.drop (rules.skip bank)) := by
  constructor
  · intro h
    cases h with
    | bank hread' hfits hrest =>
      obtain rfl := Option.some.inj (hread.symm.trans hread')
      exact ⟨hfits, hrest⟩
  · rintro ⟨hfits, hrest⟩
    exact .bank hread hfits hrest

theorem not_walkable_bank (hread : readBankHeader rules.withState ws = none) :
    ¬ Walkable rules found (k + 1) ws := by
  intro h
  cases h with
  | bank hread' _ _ =>
    rw [hread] at hread'
    cases hread'

/-- A source is walkable with its header, if more words are left than may be. -/
theorem walkable_source_iff {sourceId intraPulse tof bankCount : UInt32}
    (hmore : rules.tail found < ws.length + 4) :
    Walkable rules found 0 (sourceId :: intraPulse :: tof :: bankCount :: ws) ↔
      Walkable rules found bankCount.toNat ws := by
  constructor
  · intro h
    cases h with
    | done hend =>
      simp only [List.length_cons] at hend
      omega
    | source hrest => exact hrest
  · exact .source

/-- A header that is cut off is not walkable. -/
theorem not_walkable_source (hmore : rules.tail found < ws.length) (hshort : ws.length < 4) :
    ¬ Walkable rules found 0 ws := by
  intro h
  cases h with
  | done hend => omega
  | source _ =>
    simp only [List.length_cons] at hshort
    omega

/-- Where the end does not depend on it, it does not matter what has been found. -/
theorem Walkable.of_tail_eq (htail : ∀ found found', rules.tail found = rules.tail found')
    (h : Walkable rules found k ws) (found' : Bool) : Walkable rules found' k ws := by
  induction h generalizing found' with
  | done hend => exact .done (htail _ _ ▸ hend)
  | source _ ih => exact .source (ih found')
  | bank hread hfits _ ih => exact .bank hread hfits (ih _)

end Walkable

/-! ### The translator -/

/-- The rules of the translator's loops, with what is needed of a bank. -/
def translatorRules (withState : Bool) (fits : BankSection → Prop) : WalkRules where
  withState
  skip := BankSection.eventWords
  fits
  tail := fun _ => 0

/-- The header of a bank takes up words. -/
theorem length_readBankHeader {withState : Bool} {ws : List UInt32} {bank : BankSection}
    (h : readBankHeader withState ws = some bank) : bank.rpos.length < ws.length := by
  match withState, ws, h with
  | false, _ :: _ :: _, rfl => simp only [List.length_cons]; omega
  | true, _ :: _ :: _ :: _, rfl => simp only [List.length_cons]; omega

section Translator

variable {σ : Type} {withState : Bool} {process : σ → BankSection → Option σ}
variable {fits : BankSection → Prop}

/-- What the loop over the banks of a source leaves to walk. -/
inductive BanksWalked (withState : Bool) (fits : BankSection → Prop) (k : Nat)
    (ws : List UInt32) : Option (σ × List UInt32) → Prop
  | left (h : ¬ Walkable (translatorRules withState fits) false k ws) :
      BanksWalked withState fits k ws none
  | walked {s : σ} {rest : List UInt32} (hle : rest.length ≤ ws.length)
      (h : Walkable (translatorRules withState fits) false k ws ↔
        Walkable (translatorRules withState fits) false 0 rest) :
      BanksWalked withState fits k ws (some (s, rest))

/-- The loop over the banks leaves the payload where they are not walkable. -/
theorem walkBanks_spec (hprocess : ∀ s bank, (process s bank).isSome ↔ fits bank) (k : Nat)
    (s : σ) (ws : List UInt32) :
    BanksWalked withState fits k ws (walkBanks withState process k s ws) := by
  induction k generalizing s ws with
  | zero => exact .walked (Nat.le_refl _) Iff.rfl
  | succ k ih =>
    rw [walkBanks]
    cases hread : readBankHeader withState ws with
    | none => exact .left (not_walkable_bank hread)
    | some bank =>
      have hiff := @walkable_bank_iff (translatorRules withState fits) false k ws bank hread
      have hlen := length_readBankHeader hread
      simp only [Option.bind_eq_bind, Option.bind_some]
      cases hbank : process s bank with
      | none =>
        have hnot : ¬ fits bank := fun hfits => by simpa [hbank] using (hprocess s bank).mpr hfits
        exact .left fun h => hnot (hiff.mp h).1
      | some s' =>
        have hfits : fits bank := (hprocess s bank).mp (by rw [hbank]; rfl)
        -- what has been found does not matter for these rules
        have hrest : Walkable (translatorRules withState fits) false (k + 1) ws ↔
            Walkable (translatorRules withState fits) false k
              (bank.rpos.drop bank.eventWords) :=
          hiff.trans ⟨fun h => h.2.of_tail_eq (fun _ _ => rfl) _,
            fun h => ⟨hfits, h.of_tail_eq (fun _ _ => rfl) _⟩⟩
        have hwalked := ih s' (bank.rpos.drop bank.eventWords)
        rw [Option.bind_some]
        generalize walkBanks withState process k s' (bank.rpos.drop bank.eventWords) = result
          at hwalked
        cases hwalked with
        | left h => exact .left (mt hrest.mp h)
        | walked hle h =>
          rw [List.length_drop] at hle
          exact .walked (by omega) (hrest.trans h)

/-- The translator's loops come to the end of the payload just if it is walkable. -/
theorem walkSources_isSome_iff (hprocess : ∀ s bank, (process s bank).isSome ↔ fits bank)
    {fuel : Nat} {ws : List UInt32} (hfuel : ws.length ≤ fuel) (s : σ) :
    (walkSources withState process fuel s ws).isSome ↔
      Walkable (translatorRules withState fits) false 0 ws := by
  induction fuel generalizing s ws with
  | zero =>
    obtain rfl := List.eq_nil_of_length_eq_zero (Nat.le_zero.mp hfuel)
    exact iff_of_true rfl (.done (Nat.le_refl 0))
  | succ fuel ih =>
    have hcut : ∀ ws : List UInt32, 0 < ws.length → ws.length < 4 →
        ¬ Walkable (translatorRules withState fits) false 0 ws :=
      fun _ hmore hshort => not_walkable_source hmore hshort
    match ws with
    | [] => exact iff_of_true rfl (.done (Nat.le_refl 0))
    | [_] => exact iff_of_false Bool.false_ne_true (hcut _ (by simp) (by simp))
    | [_, _] => exact iff_of_false Bool.false_ne_true (hcut _ (by simp) (by simp))
    | [_, _, _] => exact iff_of_false Bool.false_ne_true (hcut _ (by simp) (by simp))
    | _ :: _ :: _ :: bankCount :: ws =>
      simp only [List.length_cons] at hfuel
      rw [walkable_source_iff (Nat.succ_pos _), walkSources]
      have hwalked := @walkBanks_spec σ withState process fits hprocess bankCount.toNat s ws
      generalize walkBanks withState process bankCount.toNat s ws = result at hwalked
      cases hwalked with
      | left h => exact iff_of_false Bool.false_ne_true h
      | walked hle h => exact (ih (by omega) _).trans h.symm

/-- A packet that the translator gets through has a walkable payload, whatever it does with
    the banks. -/
theorem walkable_of_rxBanked {ready withState : Bool} {p : StreamParser} {payload : List UInt32}
    (hnew : StreamParser.isDuplicate payload = some false)
    (h : (StreamParser.rxBanked ready withState p payload).isSome) :
    Walkable (translatorRules withState fun _ => True) false 0 (payload.drop 4) := by
  rw [StreamParser.rxBanked, hnew] at h
  simp only [Option.bind_eq_bind, Option.bind_some, Bool.false_eq_true, if_false] at h
  rw [StreamPackets.walkSources_eq] at h
  obtain ⟨p', hrun⟩ := Option.isSome_iff_exists.mp h
  obtain ⟨banks, hbanks, -⟩ := Option.bind_eq_some_iff.mp hrun
  have htotal : ∀ banks : List BankSection,
      (Runs.run (fun (_ : Unit) (_ : BankSection) => some ()) () banks).isSome := by
    intro banks
    induction banks with
    | nil => rfl
    | cons bank banks ih => exact ih
  have hwalk : (walkSources withState (fun (_ : Unit) (_ : BankSection) => some ()) payload.length
      () (payload.drop 4)).isSome := by
    rw [StreamPackets.walkSources_eq, hbanks]
    exact htotal banks
  have hfuel : (payload.drop 4).length ≤ payload.length := by
    rw [List.length_drop]
    omega
  exact (walkSources_isSome_iff (fun _ _ => iff_of_true rfl trivial) hfuel ()).mp hwalk

end Translator

end Adara.Spec.SectionWalks
