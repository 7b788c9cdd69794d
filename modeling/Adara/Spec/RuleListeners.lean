import Adara.Spec.RuleRuns

/-! # What listeners are told

A listener that was attached outside a batch can tell from its notifications which facts are
asserted (`heard_of_run`): every change is told as it happens, or in a batch the difference is told
at its end.  One that is attached within a batch cannot, nor can those that `synchronize` takes
over (`ListenOk`). -/

namespace Adara.Spec.RuleEngine

open Adara.Native Adara.Native.RuleEngine Relation

variable {Id V : Type} [LinearOrder Id]

/-- Whether a fact is asserted, for one who is told of changes. -/
def believed (id : Id) : Bool → List (Notification Id) → Bool
  | before, [] => before
  | before, .asserted f :: notes => believed id (before || decide (f = id)) notes
  | before, .retracted f :: notes => believed id (before && !decide (f = id)) notes

theorem believed_append (id : Id) (before : Bool) (notes notes' : List (Notification Id)) :
    believed id before (notes ++ notes') = believed id (believed id before notes) notes' := by
  induction notes generalizing before with
  | nil => rfl
  | cons note notes ih =>
    cases note with
    | asserted f => exact ih _
    | retracted f => exact ih _

theorem believed_asserted (id : Id) (before : Bool) (ids : List Id) :
    believed id before (ids.map .asserted) = (before || decide (id ∈ ids)) := by
  induction ids generalizing before with
  | nil => rw [List.map_nil, believed, decide_eq_false List.not_mem_nil, Bool.or_false]
  | cons f ids ih =>
    rw [List.map_cons, believed, ih, Bool.or_assoc, ← Bool.decide_or]
    congr 1
    rw [decide_eq_decide, List.mem_cons, eq_comm]

theorem believed_retracted (id : Id) (before : Bool) (ids : List Id) :
    believed id before (ids.map .retracted) = (before && !decide (id ∈ ids)) := by
  induction ids generalizing before with
  | nil => rw [List.map_nil, believed, decide_eq_false List.not_mem_nil, Bool.not_false,
      Bool.and_true]
  | cons f ids ih =>
    rw [List.map_cons, believed, ih, Bool.and_assoc, ← Bool.not_or, ← Bool.decide_or]
    congr 2
    rw [decide_eq_decide, List.mem_cons, eq_comm]

/-- The same listeners with the same books. -/
structure SameBooks (E T : RuleEngine Id V) : Prop where
  batch : T.batch = E.batch
  listeners : T.listeners = E.listeners
  oldFacts : T.oldFacts = E.oldFacts
  newFacts : T.newFacts = E.newFacts

/-- Listeners know what is asserted; in a batch, what was when it began, and then the engine knows
    what is now. -/
structure Told (E : RuleEngine Id V) : Prop where
  books : E.batch = false → E.oldFacts = [] ∧ E.newFacts = []
  outside : E.batch = false → ∀ l ∈ E.listeners, ∀ id,
    believed id false l.heard = (E.fact id).asserted
  inside : E.batch = true → ∀ l ∈ E.listeners, ∀ id,
    believed id false l.heard = decide (id ∈ E.oldFacts.map Prod.fst)
  nodup : E.newFacts.Nodup
  newFacts : E.batch = true → ∀ id, id ∈ E.newFacts ↔ (E.fact id).asserted = true

section Steps

variable {E E₀ E' T : RuleEngine Id V} {id : Id}

theorem Told.same (h : Told E) (hbooks : SameBooks E T)
    (hasserted : ∀ id, (T.fact id).asserted = (E.fact id).asserted) : Told T where
  books hbatch := by
    rw [hbooks.oldFacts, hbooks.newFacts]
    exact h.books (hbooks.batch ▸ hbatch)
  outside hbatch := by
    simp only [hbooks.listeners, hasserted]
    exact h.outside (hbooks.batch ▸ hbatch)
  inside hbatch := by
    rw [hbooks.listeners, hbooks.oldFacts]
    exact h.inside (hbooks.batch ▸ hbatch)
  nodup := hbooks.newFacts ▸ h.nodup
  newFacts hbatch := by
    simp only [hbooks.newFacts, hasserted]
    exact h.newFacts (hbooks.batch ▸ hbatch)

/-- What listeners have heard, when all are told something. -/
theorem mem_tellListeners {notes : List (Notification Id)} {l : Listener Id}
    (hl : l ∈ (T.tellListeners notes).listeners) :
    ∃ l₀ ∈ T.listeners, l.heard = l₀.heard ++ notes := by
  obtain ⟨l₀, hl₀, rfl⟩ := List.mem_map.mp hl
  exact ⟨l₀, hl₀, rfl⟩

/-- A fact is asserted, and that is told. -/
theorem Told.assert (h : Told E) (hbooks : SameBooks E T) (hself : (T.fact id).asserted = true)
    (hothers : ∀ id', id' ≠ id → (T.fact id').asserted = (E.fact id').asserted) :
    Told (T.notifyAssert id) := by
  have hfact := fact_of_facts (notifyAssert_same T id).1
  cases hbatch : T.batch with
  | true =>
    have hE : E.batch = true := hbooks.batch ▸ hbatch
    have hdef : T.notifyAssert id =
        { T with newFacts := if id ∈ T.newFacts then T.newFacts else T.newFacts ++ [id] } := by
      rw [notifyAssert, hbatch, if_pos rfl]
    have hmem : ∀ id', id' ∈ (T.notifyAssert id).newFacts ↔ id' = id ∨ id' ∈ E.newFacts := by
      intro id'
      rw [hdef, ← hbooks.newFacts]
      dsimp only
      split
      · rename_i hin
        exact ⟨.inr, Or.rec (fun heq => heq ▸ hin) fun h => h⟩
      · rw [List.mem_append, List.mem_singleton, or_comm]
    refine ⟨fun hfalse => ?_, fun hfalse => ?_, fun _ => ?_, ?_, fun _ id' => ?_⟩
    · rw [hdef] at hfalse
      exact absurd (hbatch.symm.trans hfalse) Bool.true_eq_false.mp
    · rw [hdef] at hfalse
      exact absurd (hbatch.symm.trans hfalse) Bool.true_eq_false.mp
    · rw [hdef]
      dsimp only
      rw [hbooks.listeners, hbooks.oldFacts]
      exact h.inside hE
    · rw [hdef]
      dsimp only
      have hnodup := hbooks.newFacts ▸ h.nodup
      split
      · exact hnodup
      · rename_i hnot
        refine List.nodup_append.mpr ⟨hnodup, List.nodup_singleton _, fun a ha b hb hab => ?_⟩
        exact hnot (List.mem_singleton.mp hb ▸ hab ▸ ha)
    · rw [hmem, hfact]
      by_cases heq : id' = id
      · rw [heq]
        exact iff_of_true (.inl rfl) hself
      · rw [hothers id' heq, ← h.newFacts hE]
        exact or_iff_right heq
  | false =>
    have hE : E.batch = false := hbooks.batch ▸ hbatch
    have hdef : T.notifyAssert id = T.tellListeners [.asserted id] := by
      rw [notifyAssert, hbatch, if_neg Bool.false_ne_true]
    obtain ⟨hold, hnew⟩ := h.books hE
    rw [hdef]
    refine ⟨fun _ => ⟨hbooks.oldFacts.trans hold, hbooks.newFacts.trans hnew⟩,
      fun _ l hl id' => ?_, fun htrue => ?_, ?_, fun htrue => ?_⟩
    · obtain ⟨l₀, hl₀, hheard⟩ := mem_tellListeners hl
      rw [hbooks.listeners] at hl₀
      show believed id' false l.heard = (T.fact id').asserted
      rw [hheard, believed_append, h.outside hE l₀ hl₀, believed, believed]
      by_cases heq : id' = id
      · rw [heq, decide_eq_true rfl, Bool.or_true, hself]
      · rw [decide_eq_false (Ne.symm heq), Bool.or_false, hothers id' heq]
    · exact absurd (hbatch.symm.trans htrue) Bool.false_ne_true
    · show T.newFacts.Nodup
      rw [hbooks.newFacts, hnew]
      exact List.nodup_nil
    · exact absurd (hbatch.symm.trans htrue) Bool.false_ne_true

/-- A fact is retracted, and that is told. -/
theorem Told.retract (h : Told E) (hbooks : SameBooks E T) (hself : (T.fact id).asserted = false)
    (hothers : ∀ id', id' ≠ id → (T.fact id').asserted = (E.fact id').asserted) :
    Told (T.notifyRetract id) := by
  have hfact := fact_of_facts (notifyRetract_same T id).1
  cases hbatch : T.batch with
  | true =>
    have hE : E.batch = true := hbooks.batch ▸ hbatch
    have hdef : T.notifyRetract id = { T with newFacts := T.newFacts.erase id } := by
      rw [notifyRetract, hbatch, if_pos rfl]
    have hnodup := hbooks.newFacts ▸ h.nodup
    refine ⟨fun hfalse => ?_, fun hfalse => ?_, fun _ => ?_, ?_, fun _ id' => ?_⟩
    · rw [hdef] at hfalse
      exact absurd (hbatch.symm.trans hfalse) Bool.true_eq_false.mp
    · rw [hdef] at hfalse
      exact absurd (hbatch.symm.trans hfalse) Bool.true_eq_false.mp
    · rw [hdef]
      dsimp only
      rw [hbooks.listeners, hbooks.oldFacts]
      exact h.inside hE
    · rw [hdef]
      exact hnodup.erase id
    · rw [hfact, hdef]
      show id' ∈ T.newFacts.erase id ↔ _
      rw [hnodup.mem_erase_iff, hbooks.newFacts, h.newFacts hE]
      by_cases heq : id' = id
      · rw [heq, hself]
        exact iff_of_false (fun hand => hand.1 rfl) Bool.false_ne_true
      · rw [hothers id' heq]
        exact and_iff_right heq
  | false =>
    have hE : E.batch = false := hbooks.batch ▸ hbatch
    have hdef : T.notifyRetract id = T.tellListeners [.retracted id] := by
      rw [notifyRetract, hbatch, if_neg Bool.false_ne_true]
    obtain ⟨hold, hnew⟩ := h.books hE
    rw [hdef]
    refine ⟨fun _ => ⟨hbooks.oldFacts.trans hold, hbooks.newFacts.trans hnew⟩,
      fun _ l hl id' => ?_, fun htrue => ?_, ?_, fun htrue => ?_⟩
    · obtain ⟨l₀, hl₀, hheard⟩ := mem_tellListeners hl
      rw [hbooks.listeners] at hl₀
      show believed id' false l.heard = (T.fact id').asserted
      rw [hheard, believed_append, h.outside hE l₀ hl₀, believed, believed]
      by_cases heq : id' = id
      · rw [heq, decide_eq_true rfl, Bool.not_true, Bool.and_false, hself]
      · rw [decide_eq_false (Ne.symm heq), Bool.not_false, Bool.and_true, hothers id' heq]
    · exact absurd (hbatch.symm.trans htrue) Bool.false_ne_true
    · show T.newFacts.Nodup
      rw [hbooks.newFacts, hnew]
      exact List.nodup_nil
    · exact absurd (hbatch.symm.trans htrue) Bool.false_ne_true

/-- `assert` for a fact, before the rules are told. -/
theorem Told.asserting (h : Told E) (hchanged : Changed E E₀ id) (hbooks : SameBooks E E₀)
    (value : Value V) : Told ((E₀.modifyFact id (asserting value)).notifyAssert id) := by
  obtain ⟨hmodify, hself⟩ :=
    hchanged.modify (f := RuleEngine.asserting value) (fun _ => rfl) fun _ => rfl
  refine h.assert ⟨hbooks.batch, hbooks.listeners, hbooks.oldFacts, hbooks.newFacts⟩ ?_ ?_
  · rw [hself]
    rfl
  · intro id' hne
    rw [hmodify.others id' hne]

/-- `retract` for a fact, before the rules are told. -/
theorem Told.retracting (h : Told E) (hthere : (E.facts.find? id).isSome) :
    Told ((E.modifyFact id retracting).notifyRetract id) := by
  obtain ⟨hmodify, hself⟩ :=
    (Changed.refl hthere).modify (f := RuleEngine.retracting) (fun _ => rfl) fun _ => rfl
  refine h.retract ⟨rfl, rfl, rfl, rfl⟩ ?_ ?_
  · rw [hself]
    rfl
  · intro id' hne
    rw [hmodify.others id' hne]

/-- An evaluation tells listeners of what it changes. -/
theorem Move.told (hmove : Move E E') (hE : Wired E) (h : Told E) : Told E' := by
  cases hmove with
  | keep id rule rule' hrule hexpr hinputs hasserts =>
    exact h.same ⟨rfl, rfl, rfl, rfl⟩ fun _ => rfl
  | assert id v hrule =>
    exact h.asserting (.refl (hE.output id hrule).1) ⟨rfl, rfl, rfl, rfl⟩ (.real v)
  | retract id hrule => exact h.retracting (hE.output id hrule).1

theorem Moves.told (hmoves : Moves E E') (hE : Wired E) (h : Told E) : Told E' := by
  have hboth : Wired E' ∧ Told E' := by
    induction hmoves with
    | refl => exact ⟨hE, h⟩
    | tail _ hmove ih => exact ⟨hmove.wired ih.1, hmove.told ih.1 ih.2⟩
  exact hboth.2

end Steps

/-! ### Batches -/

section Batches

variable {E : RuleEngine Id V}

theorem mem_getAsserted (id : Id) : id ∈ E.getAsserted ↔ (E.fact id).asserted = true := by
  rw [getAsserted, List.mem_filter]
  refine and_iff_right_of_imp fun hasserted => ?_
  by_contra hnot
  rw [RuleEngine.fact, SortedMap.find?_eq_none.mpr hnot] at hasserted
  cases hasserted

theorem Told.attach (h : Told E) (hbatch : E.batch = false) (listener : Nat) :
    Told (E.attach listener) := by
  rw [RuleEngine.attach]
  split
  · exact h
  · refine ⟨h.books, fun _ l hl id => ?_, fun htrue => ?_, h.nodup, h.newFacts⟩
    · rcases List.mem_append.mp hl with hl | hl
      · exact h.outside hbatch l hl id
      · -- the new one is sent what is asserted
        rw [List.mem_singleton.mp hl]
        show believed id false (E.getAsserted.map .asserted) = (E.fact id).asserted
        rw [believed_asserted, Bool.false_or, Bool.eq_iff_iff, decide_eq_true_eq,
          mem_getAsserted]
    · exact absurd (hbatch.symm.trans htrue) Bool.false_ne_true

theorem Told.detach (h : Told E) (listener : Nat) : Told (E.detach listener) where
  books := h.books
  outside hbatch l hl := h.outside hbatch l (List.mem_of_mem_eraseP hl)
  inside hbatch l hl := h.inside hbatch l (List.mem_of_mem_eraseP hl)
  nodup := h.nodup
  newFacts := h.newFacts

theorem Told.beginBatch (h : Told E) : Told E.beginBatch := by
  rw [RuleEngine.beginBatch]
  split
  · exact h
  · rename_i hbatch
    have hbatch := Bool.not_eq_true _ ▸ hbatch
    obtain ⟨-, hnew⟩ := h.books hbatch
    have hnodup : E.getAsserted.Nodup := E.facts.keys_nodup.filter _
    have hnow : (E.newFacts ++ E.getAsserted.filter fun id => id ∉ E.newFacts) =
        E.getAsserted := by
      rw [hnew, List.nil_append, List.filter_eq_self]
      exact fun id _ => decide_eq_true List.not_mem_nil
    rw [hnow]
    refine ⟨fun hfalse => ?_, fun hfalse => ?_, fun _ l hl id => ?_, hnodup,
      fun _ id => mem_getAsserted id⟩
    · exact absurd hfalse.symm Bool.false_ne_true
    · exact absurd hfalse.symm Bool.false_ne_true
    · rw [h.outside hbatch l hl, List.map_map]
      show _ = decide (id ∈ E.getAsserted.map fun id => id)
      rw [List.map_id', Bool.eq_iff_iff, decide_eq_true_eq, mem_getAsserted]

variable [DecidableEq V]

/-- At the end of a batch the difference to its beginning is told. -/
theorem believed_batchNotes (h : Told E) (hbatch : E.batch = true) (id : Id) :
    believed id (decide (id ∈ E.oldFacts.map Prod.fst)) E.batchNotes = (E.fact id).asserted := by
  have hretracted : (E.oldFacts.filter fun e => e.1 ∉ E.newFacts).map
      (fun e => Notification.retracted e.1) =
        ((E.oldFacts.filter fun e => e.1 ∉ E.newFacts).map Prod.fst).map
          Notification.retracted := by
    rw [List.map_map]
    rfl
  rw [batchNotes, hretracted, believed_append, believed_retracted, believed_asserted, Bool.eq_iff_iff,
    ← h.newFacts hbatch]
  simp only [Bool.or_eq_true, Bool.and_eq_true, Bool.not_eq_true', decide_eq_true_eq,
    decide_eq_false_iff_not, List.mem_filter, List.mem_map]
  constructor
  · rintro (⟨⟨e, he, rfl⟩, hnot⟩ | ⟨hmem, -⟩)
    · by_contra hnew
      exact hnot ⟨e, ⟨he, hnew⟩, rfl⟩
    · exact hmem
  · intro hmem
    cases hfind : E.oldFacts.find? fun e => e.1 = id with
    | none => exact .inr ⟨hmem, rfl⟩
    | some e =>
      have heq : e.1 = id := by simpa using List.find?_some hfind
      refine .inl ⟨⟨e, List.mem_of_find?_eq_some hfind, heq⟩, ?_⟩
      rintro ⟨e', ⟨-, hnot⟩, rfl⟩
      exact hnot hmem

theorem Told.endBatch (h : Told E) : Told E.endBatch := by
  rw [RuleEngine.endBatch]
  split
  · rename_i hbatch
    refine ⟨fun _ => ⟨rfl, rfl⟩, fun _ l hl id => ?_, fun htrue => ?_, List.nodup_nil,
      fun htrue => ?_⟩
    · obtain ⟨l₀, hl₀, hheard⟩ := mem_tellListeners hl
      rw [hheard, believed_append, h.inside hbatch l₀ hl₀]
      exact believed_batchNotes h hbatch id
    · exact absurd htrue Bool.false_ne_true
    · exact absurd htrue Bool.false_ne_true
  · exact h

end Batches

/-! ### Calls -/

section Calls

variable [EngineReal V] [DecidableEq V] {s : Sheet Id V} {E E₀ E' : RuleEngine Id V} {id : Id}

/-- A fact of no rule is asserted, and the rules are told. -/
theorem Told.assertFact {depth : Nat} {value : Value V} (h : Told E) (hE : Wired E)
    (hchanged : Changed E E₀ id) (hbooks : SameBooks E E₀) (hrule : E.rules.find? id = none)
    (hassert : assertFact (update depth) E₀ id value = some E') : Told E' := by
  obtain ⟨hmodify, hself⟩ :=
    hchanged.modify (f := RuleEngine.asserting value) (fun _ => rfl) fun _ => rfl
  obtain ⟨hfacts, hrules⟩ := notifyAssert_same (E₀.modifyFact id (RuleEngine.asserting value)) id
  have hwired := (hmodify.same hfacts hrules).wired hE hrule fun himplicit => by
    rw [fact_of_facts hfacts, hself] at himplicit
    cases himplicit
  exact (update_moves _ _ _ _ hassert).told hwired (h.asserting hchanged hbooks value)

/-- A fact of no rule is retracted, and the rules are told. -/
theorem Told.retractFact {depth : Nat} (h : Told E) (hE : Wired E)
    (hthere : (E.facts.find? id).isSome) (hrule : E.rules.find? id = none)
    (hretract : retractFact (update depth) E id = some E') : Told E' := by
  obtain ⟨hmodify, hself⟩ :=
    (Changed.refl hthere).modify (f := RuleEngine.retracting) (fun _ => rfl) fun _ => rfl
  obtain ⟨hfacts, hrules⟩ := notifyRetract_same (E.modifyFact id RuleEngine.retracting) id
  have hwired := (hmodify.same hfacts hrules).wired hE hrule fun _ => by
    rw [fact_of_facts hfacts, hself]
    rfl
  exact (update_moves _ _ _ _ hretract).told hwired (h.retracting hthere)

theorem Told.assertInto {value new : Value V} {fact₀ : Fact Id V} (h : Told E) (hE : Wired E)
    (hdeps : fact₀.ruleDeps = []) (houtput : fact₀.ruleOutput = false)
    (hassert : (match E.facts.find? id with
      | some fact =>
        if fact.ruleOutput then some E
        else if !fact.asserted || decide (fact.value ≠ value) then
          RuleEngine.assertFact (update E.depth) E id value
        else some E
      | none =>
        RuleEngine.assertFact (update E.depth) { E with facts := E.facts.set id fact₀ } id new) =
        some E') : Told E' := by
  split at hassert
  · rename_i fact hfound
    split at hassert
    · exact Option.some.inj hassert ▸ h
    · rename_i hout
      split at hassert
      · have hrule := rules_none hE ((fact_of_find? hfound) ▸ Bool.not_eq_true _ ▸ hout)
        exact h.assertFact hE (.refl (hfound ▸ rfl)) ⟨rfl, rfl, rfl, rfl⟩ hrule hassert
      · exact Option.some.inj hassert ▸ h
  · rename_i hnone
    have hplain : (E.fact id).ruleOutput = false := by
      rw [RuleEngine.fact, hnone]
      rfl
    have hrule := rules_none hE hplain
    exact h.assertFact hE (.new hnone hdeps houtput) ⟨rfl, rfl, rfl, rfl⟩ hrule hassert

theorem Told.retractId (h : Told E) (hE : Wired E) (hretract : E.retractId id = some E') :
    Told E' := by
  rw [RuleEngine.retractId] at hretract
  split at hretract
  · rename_i hboth
    rw [Bool.and_eq_true, Bool.not_eq_true'] at hboth
    have hthere : (E.facts.find? id).isSome := by
      by_contra hnot
      rw [RuleEngine.fact, Option.not_isSome_iff_eq_none.mp hnot] at hboth
      cases hboth.1
    exact h.retractFact hE hthere (rules_none hE hboth.2) hretract
  · exact Option.some.inj hretract ▸ h

omit [EngineReal V] [DecidableEq V] in
/-- Deleting a rule is nothing to listeners. -/
theorem deleteRule_books (E : RuleEngine Id V) (id : Id) (rule : Rule Id V) :
    SameBooks E (E.deleteRule id rule) := by
  have hfold : ∀ (vars : List (Variable Id)) (T : RuleEngine Id V), SameBooks E T →
      SameBooks E (vars.foldl
        (fun E v => E.modifyFact v.fact fun fact => fact.removeRuleDependency id) T) := by
    intro vars
    induction vars with
    | nil => exact fun T hT => hT
    | cons v vars ih =>
      intro T hT
      exact ih _ ⟨hT.batch, hT.listeners, hT.oldFacts, hT.newFacts⟩
  obtain ⟨hbatch, hlisteners, hold, hnew⟩ := hfold rule.expr.vars E ⟨rfl, rfl, rfl, rfl⟩
  exact ⟨hbatch, hlisteners, hold, hnew⟩

theorem Told.undefineRule (h : Told E) (hE : Settled E) (hundefine : E.undefineRule id = some E') :
    Told E' := by
  rw [RuleEngine.undefineRule] at hundefine
  split at hundefine
  · exact Option.some.inj hundefine ▸ h
  · rename_i rule hrule
    obtain ⟨S, hS, rfl⟩ := Option.map_eq_some_iff.mp hundefine
    have hmove : Move E ((E.modifyFact id RuleEngine.retracting).notifyRetract id) :=
      .retract id (hrule ▸ rfl)
    have hwired := hmove.wired hE.wired
    have hmoves := update_moves _ _ _ _ hS
    obtain ⟨hwiredS, hsame⟩ := hmoves.wired hwired
    have hruleS : (S.rules.find? id).map Rule.expr = some rule.expr := by
      rw [((hmove.sameOthers hE.wired).trans hsame).rules, hrule]
      rfl
    obtain ⟨ruleS, hfound, hexpr⟩ := Option.map_eq_some_iff.mp hruleS
    have hdelete : S.deleteRule id rule = S.deleteRule id ruleS := by
      rw [deleteRule, deleteRule, hexpr]
    obtain ⟨-, -, hfacts⟩ := deleteRule_same hwiredS hfound
    refine (hmoves.told hwired (hmove.told hE.wired h)).same (deleteRule_books S id rule)
      fun id' => ?_
    rw [hdelete, hfacts]
    rfl

theorem Told.defineRule {expr : RuleExpr Id V} (h : Told E) (hE : Settled E)
    (hdefine : E.defineRule id expr = some E') : Told E' := by
  rw [RuleEngine.defineRule] at hdefine
  split at hdefine
  · cases hdefine
  · rename_i hfree
    dsimp only at hdefine
    split at hdefine
    · obtain ⟨hbatch, hlisteners, hnew, hold⟩ := (compiled_vars id expr.vars _).others
      have hwith : Told (withRule E id expr) := h.same ⟨hbatch, hlisteners, hold, hnew⟩ fun id' =>
        (compile_same E id expr id').1
      exact (evaluate_moves (update_moves _) hdefine).told
        (wired_withRule hE.wired (Bool.not_eq_true _ ▸ hfree)) hwith
    · cases hdefine

omit [DecidableEq V] in
/-- What one turn of a loop keeps of an engine that follows a sheet, the loop keeps. -/
theorem Told.foldlM {α : Type} {f : RuleEngine Id V → α → Option (RuleEngine Id V)}
    {g : Sheet Id V → α → Sheet Id V}
    (hstep : ∀ s E a, Agrees s E → ∃ E', f E a = some E' ∧ Agrees (g s a) E')
    (htold : ∀ E a E', Settled E → Told E → f E a = some E' → Told E') {l : List α}
    (hA : Agrees s E) (h : Told E) (hloop : l.foldlM f E = some E') : Told E' := by
  rw [Runs.foldlM_eq_run] at hloop
  have hboth : (∃ s, Agrees s E') ∧ Told E' := by
    refine Runs.invariant (I := fun E => (∃ s, Agrees s E) ∧ Told E) ?_ ⟨⟨s, hA⟩, h⟩ hloop
    rintro E a E' ⟨⟨s, hs⟩, hE⟩ ha
    obtain ⟨T, hT, hagrees⟩ := hstep s E a hs
    cases hT.symm.trans ha
    exact ⟨⟨_, hagrees⟩, htold E a _ hs.settled hE ha⟩
  exact hboth.2

/-- Listeners are attached outside of batches, and not taken over from another engine. -/
def ListenOk (E : RuleEngine Id V) : Call Id V → Bool
  | .attach _ => !E.batch
  | .synchronize _ => false
  | _ => true

/-- No call leaves a listener in doubt. -/
theorem Told.call {c : Call Id V} (hA : Agrees s E) (h : Told E) (hok : HandleOk E c)
    (hlisten : ListenOk E c) (hcall : E.call c = some E') : Told E' := by
  have hE := hA.settled
  cases c with
  | defineRule id expr => exact h.defineRule hE hcall
  | undefineRule id => exact h.undefineRule hE hcall
  | undefineAllRules =>
    exact Told.foldlM (fun s E id h => Agrees.undefineRule h id)
      (fun E id E' hE h => h.undefineRule hE) hA h hcall
  | assertId id => exact h.assertInto hE.wired rfl rfl hcall
  | assertValue id value => exact h.assertInto hE.wired rfl rfl hcall
  | retractId id => exact h.retractId hE.wired hcall
  | retractWhere p =>
    exact Told.foldlM (fun s E id h => Agrees.retractId h id)
      (fun E id E' hE h => h.retractId hE.wired) hA h hcall
  | getFactHandle id =>
    rw [RuleEngine.call, RuleEngine.getFactHandle] at hcall
    split at hcall
    · rename_i T hget
      split at hget
      · cases hget
      · cases hget
        cases hcall
        exact h.same ⟨rfl, rfl, rfl, rfl⟩ fun id' => by rw [fact_getFact]
    · exact Option.some.inj hcall ▸ h
  | assertHandle id =>
    obtain ⟨hthere, hout⟩ := hok id rfl
    have hrule := rules_none hE.wired hout
    rw [RuleEngine.call, RuleEngine.assertHandle] at hcall
    split at hcall
    · exact Option.some.inj hcall ▸ h
    · exact h.assertFact hE.wired (.refl hthere) ⟨rfl, rfl, rfl, rfl⟩ hrule hcall
  | assertHandleValue id value =>
    obtain ⟨hthere, hout⟩ := hok id rfl
    have hrule := rules_none hE.wired hout
    rw [RuleEngine.call, RuleEngine.assertHandleValue] at hcall
    split at hcall
    · exact h.assertFact hE.wired (.refl hthere) ⟨rfl, rfl, rfl, rfl⟩ hrule hcall
    · exact Option.some.inj hcall ▸ h
  | retractHandle id =>
    obtain ⟨hthere, hout⟩ := hok id rfl
    have hrule := rules_none hE.wired hout
    rw [RuleEngine.call, RuleEngine.retractHandle] at hcall
    split at hcall
    · exact h.retractFact hE.wired hthere hrule hcall
    · exact Option.some.inj hcall ▸ h
  | attach listener =>
    exact Option.some.inj hcall ▸ h.attach (Bool.not_eq_true' _ ▸ hlisten) listener
  | detach listener => exact Option.some.inj hcall ▸ h.detach listener
  | beginBatch => exact Option.some.inj hcall ▸ h.beginBatch
  | endBatch => exact Option.some.inj hcall ▸ h.endBatch
  | synchronize source => cases hlisten

omit [EngineReal V] [DecidableEq V] in
theorem told_new : Told (.new : RuleEngine Id V) where
  books _ := ⟨rfl, rfl⟩
  outside _ _ hl := absurd hl List.not_mem_nil
  inside hbatch := absurd hbatch Bool.false_ne_true
  nodup := List.nodup_nil
  newFacts hbatch := absurd hbatch Bool.false_ne_true

theorem told_of_run {calls : List (Call Id V)}
    (hok : Runs.along call (fun E c => HandleOk E c ∧ ListenOk E c = true) .new calls)
    (hrun : Runs.run call .new calls = some E) : Told E := by
  have hboth : (∃ s, Agrees s E) ∧ Told E := by
    refine Runs.invariant_along (I := fun E => (∃ s, Agrees s E) ∧ Told E) ?_
      ⟨⟨_, agrees_new⟩, told_new⟩ hok hrun
    rintro E c E' ⟨⟨s, hs⟩, hE⟩ ⟨hhandle, hlisten⟩ hcall
    obtain ⟨T, hT, hagrees⟩ := hs.call hhandle (definable_of_call hs hcall)
    cases hT.symm.trans hcall
    exact ⟨⟨_, hagrees⟩, hE.call hs hhandle hlisten hcall⟩
  exact hboth.2

/-- A listener, and a batch that ends with other facts asserted than it began with. -/
def batchCalls : List (Call Nat Int) :=
  [.attach 0] ++ sampleCalls ++
    [.beginBatch, .assertValue 2 (.int 6), .assertValue 3 .void, .retractHandle 1, .endBatch]

end Calls

end Adara.Spec.RuleEngine
