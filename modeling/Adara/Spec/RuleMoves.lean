import Adara.Native.RuleEngine
import Mathlib.Data.List.Nodup

/-! # What evaluating rules can change

An evaluation changes what a rule keeps of its inputs, and asserts or retracts the output of a rule
(`Move`).  All that `update` does is a sequence of these (`update_moves`), so it leaves alone how
rules depend on facts and every fact that no rule puts out (`Moves.wired`). -/

namespace Adara.Spec.RuleEngine

open Adara.Native Adara.Native.RuleEngine

variable {Id V : Type} [LinearOrder Id]

/-! ### Facts -/

section Facts

variable {E : RuleEngine Id V} {id : Id}

/-- Notifications change neither facts nor rules. -/
theorem notifyAssert_same (E : RuleEngine Id V) (id : Id) :
    (E.notifyAssert id).facts = E.facts ∧ (E.notifyAssert id).rules = E.rules := by
  rw [notifyAssert]
  split <;> exact ⟨rfl, rfl⟩

theorem notifyRetract_same (E : RuleEngine Id V) (id : Id) :
    (E.notifyRetract id).facts = E.facts ∧ (E.notifyRetract id).rules = E.rules := by
  rw [notifyRetract]
  split <;> exact ⟨rfl, rfl⟩

theorem fact_of_find? {fact : Fact Id V} (h : E.facts.find? id = some fact) :
    E.fact id = fact := by
  rw [RuleEngine.fact, h]
  rfl

theorem fact_of_facts {E E' : RuleEngine Id V} (h : E'.facts = E.facts) : E'.fact = E.fact := by
  funext id
  rw [RuleEngine.fact, h]
  rfl

/-- Changing a fact that is there. -/
theorem fact_modifyFact (h : (E.facts.find? id).isSome) (f : Fact Id V → Fact Id V) (id' : Id) :
    (E.modifyFact id f).fact id' = if id' = id then f (E.fact id) else E.fact id' := by
  obtain ⟨fact, hfact⟩ := Option.isSome_iff_exists.mp h
  rw [RuleEngine.fact, modifyFact, SortedMap.find?_modify]
  split
  · rename_i heq
    rw [heq, fact_of_find? hfact, hfact]
    rfl
  · rfl

theorem fact_modifyFact_of_ne {id' : Id} (h : id' ≠ id) (f : Fact Id V → Fact Id V) :
    (E.modifyFact id f).fact id' = E.fact id' := by
  rw [RuleEngine.fact, modifyFact, SortedMap.find?_modify, if_neg h]
  rfl

end Facts

/-! ### Moves -/

/-- A fact as it is asserted, and as it is retracted. -/
def asserting (value : Value V) (fact : Fact Id V) : Fact Id V :=
  { fact with asserted := true, implicit := false, value }

def retracting (fact : Fact Id V) : Fact Id V := { fact with asserted := false }

/-- One elementary change by an evaluation. -/
inductive Move : RuleEngine Id V → RuleEngine Id V → Prop
  | keep {E : RuleEngine Id V} (id : Id) (rule rule' : Rule Id V)
      (hrule : E.rules.find? id = some rule) (hexpr : rule'.expr = rule.expr)
      (hinputs : rule'.inputs.map Prod.fst = rule.inputs.map Prod.fst)
      (hasserts : rule'.asserts.map Prod.fst = rule.asserts.map Prod.fst) :
      Move E { E with rules := E.rules.set id rule' }
  | assert {E : RuleEngine Id V} (id : Id) (v : V) (hrule : (E.rules.find? id).isSome) :
      Move E ((E.modifyFact id (asserting (.real v))).notifyAssert id)
  | retract {E : RuleEngine Id V} (id : Id) (hrule : (E.rules.find? id).isSome) :
      Move E ((E.modifyFact id retracting).notifyRetract id)

/-- A sequence of elementary changes. -/
abbrev Moves : RuleEngine Id V → RuleEngine Id V → Prop := Relation.ReflTransGen Move

/-- What follows the dependencies of a fact only makes moves. -/
def ByMoves (update : RuleEngine Id V → Id → Option (RuleEngine Id V)) : Prop :=
  ∀ E id E', update E id = some E' → Moves E E'

section Decompose

variable [EngineReal V]

theorem tell_names (facts : Id → Fact Id V) (changed : Id) (rule : Rule Id V) :
    (rule.tell facts changed).expr = rule.expr ∧
      (rule.tell facts changed).inputs.map Prod.fst = rule.inputs.map Prod.fst ∧
      (rule.tell facts changed).asserts.map Prod.fst = rule.asserts.map Prod.fst := by
  refine ⟨rfl, ?_, ?_⟩
  · simp only [Rule.tell]
    split
    · rw [List.map_map]
      apply List.map_congr_left
      intro e _
      simp only [Function.comp]
      split <;> rfl
    · rfl
  · simp only [Rule.tell, List.map_map]
    apply List.map_congr_left
    intro e _
    simp only [Function.comp]
    split <;> rfl

omit [LinearOrder Id] in
theorem refresh_names (facts : Id → Fact Id V) (rule : Rule Id V) :
    (rule.refresh facts).expr = rule.expr ∧
      (rule.refresh facts).inputs.map Prod.fst = rule.inputs.map Prod.fst ∧
      (rule.refresh facts).asserts.map Prod.fst = rule.asserts.map Prod.fst := by
  refine ⟨rfl, ?_, ?_⟩
  · simp only [Rule.refresh, List.map_map]
    apply List.map_congr_left
    intro e _
    simp only [Function.comp]
    split <;> rfl
  · simp only [Rule.refresh, List.map_map]
    rfl

variable [DecidableEq V] {upd : RuleEngine Id V → Id → Option (RuleEngine Id V)}
  {E E' : RuleEngine Id V} {id : Id}

theorem react_moves (hupd : ByMoves upd) {rule : Rule Id V} (hrule : (E.rules.find? id).isSome)
    (h : react upd E id rule = some E') : Moves E E' := by
  rw [react] at h
  split at h
  · split at h
    · exact (hupd _ _ _ h).head (.assert id _ hrule)
    · exact Option.some.inj h ▸ .refl
  · split at h
    · exact (hupd _ _ _ h).head (.retract id hrule)
    · exact Option.some.inj h ▸ .refl

theorem evaluate_moves (hupd : ByMoves upd) {changed : Option Id}
    (h : evaluate upd changed E id = some E') : Moves E E' := by
  rw [evaluate] at h
  split at h
  · cases h
  · rename_i rule hrule
    have hset : ∀ rule', ((E.rules.set id rule').find? id).isSome := by
      intro rule'
      rw [SortedMap.find?_set, if_pos rfl]
      rfl
    cases changed with
    | some changed =>
      obtain ⟨hexpr, hinputs, hasserts⟩ := tell_names E.fact changed rule
      exact (react_moves hupd (hset _) h).head (.keep id rule _ hrule hexpr hinputs hasserts)
    | none =>
      obtain ⟨hexpr, hinputs, hasserts⟩ := refresh_names E.fact rule
      exact (react_moves hupd (hset _) h).head (.keep id rule _ hrule hexpr hinputs hasserts)

theorem evaluateAll_moves (hupd : ByMoves upd) {changed : Id} {ids : List Id}
    (h : evaluateAll upd changed E ids = some E') : Moves E E' := by
  induction ids generalizing E with
  | nil => exact Option.some.inj h ▸ .refl
  | cons id ids ih =>
    obtain ⟨T, hfirst, hrest⟩ := Option.bind_eq_some_iff.mp h
    exact (evaluate_moves hupd hfirst).trans (ih hrest)

/-- Following the dependencies of a fact makes moves only. -/
theorem update_moves (depth : Nat) : ByMoves (update depth : RuleEngine Id V → _) := by
  induction depth with
  | zero =>
    intro E id E' h
    cases h
  | succ depth ih =>
    intro E id E' h
    exact evaluateAll_moves ih h

end Decompose

/-! ### Wiring -/

/-- Rules and facts are connected: a fact knows the rules that mention it, the output of a rule is
    a fact of its own that only this rule asserts, and a rule keeps a value for each variable. -/
structure Wired (E : RuleEngine Id V) : Prop where
  deps : ∀ id rule, rule ∈ (E.fact id).ruleDeps ↔
    ∃ r, E.rules.find? rule = some r ∧ id ∈ r.expr.vars.map Variable.fact
  nodup : ∀ id, (E.fact id).ruleDeps.Nodup
  mentioned : ∀ id r, E.rules.find? id = some r →
    ∀ v ∈ r.expr.vars, (E.facts.find? v.fact).isSome
  output : ∀ id, (E.rules.find? id).isSome → (E.facts.find? id).isSome ∧
    (E.fact id).ruleOutput = true ∧ (E.fact id).implicit = false ∧
    ((E.fact id).asserted = true → ∃ v, (E.fact id).value = .real v)
  names : ∀ id r, E.rules.find? id = some r → r.inputs.map Prod.fst = r.expr.inputs ∧
    r.asserts.map Prod.fst = r.expr.assertions
  fresh : ∀ id, (E.fact id).implicit = true → (E.fact id).asserted = false

/-- Both engines have the same rules with the same dependencies, and the same facts. -/
structure SameWiring (E E' : RuleEngine Id V) : Prop where
  rules : ∀ id, (E'.rules.find? id).map Rule.expr = (E.rules.find? id).map Rule.expr
  keys : E'.facts.keys = E.facts.keys
  deps : ∀ id, (E'.fact id).ruleDeps = (E.fact id).ruleDeps
  outputs : ∀ id, (E'.fact id).ruleOutput = (E.fact id).ruleOutput

/-- Moreover the facts that no rule puts out are as they were. -/
structure SameOthers (E E' : RuleEngine Id V) : Prop extends SameWiring E E' where
  others : ∀ id, E.rules.find? id = none → E'.fact id = E.fact id
  batch : E'.batch = E.batch

section Wiring

variable {E E' T : RuleEngine Id V} {id : Id}

theorem SameWiring.isSome (h : SameWiring E E') (id : Id) :
    (E'.rules.find? id).isSome = (E.rules.find? id).isSome := by
  rw [← Option.isSome_map, h.rules, Option.isSome_map]

theorem SameWiring.none_iff (h : SameWiring E E') (id : Id) :
    E'.rules.find? id = none ↔ E.rules.find? id = none := by
  rw [← Option.isNone_iff_eq_none, ← Option.isNone_iff_eq_none, ← Option.not_isSome,
    ← Option.not_isSome, h.isSome]

theorem SameOthers.refl (E : RuleEngine Id V) : SameOthers E E :=
  ⟨⟨fun _ => rfl, rfl, fun _ => rfl, fun _ => rfl⟩, fun _ _ => rfl, rfl⟩

theorem SameOthers.trans (h : SameOthers E E') (h' : SameOthers E' T) : SameOthers E T where
  rules id := (h'.rules id).trans (h.rules id)
  keys := h'.keys.trans h.keys
  deps id := (h'.deps id).trans (h.deps id)
  outputs id := (h'.outputs id).trans (h.outputs id)
  others id hid := (h'.others id ((h.none_iff id).mpr hid)).trans (h.others id hid)
  batch := h'.batch.trans h.batch

/-- A rule stored in the place of one with the same expression. -/
theorem find?_keep {rule rule' : Rule Id V} (hrule : E.rules.find? id = some rule)
    (hexpr : rule'.expr = rule.expr) (id' : Id) :
    ((E.rules.set id rule').find? id').map Rule.expr = (E.rules.find? id').map Rule.expr := by
  rw [SortedMap.find?_set]
  split
  · rename_i heq
    rw [heq, hrule, Option.map_some, Option.map_some, hexpr]
  · rfl

/-- Changing a fact that a rule puts out, without its dependencies. -/
theorem sameOthers_modifyFact (hE : Wired E) (hrule : (E.rules.find? id).isSome)
    {f : Fact Id V → Fact Id V} (hdeps : ∀ fact, (f fact).ruleDeps = fact.ruleDeps)
    (houtput : ∀ fact, (f fact).ruleOutput = fact.ruleOutput) :
    SameOthers E (E.modifyFact id f) := by
  have hfact := fact_modifyFact (hE.output id hrule).1 f
  refine ⟨⟨fun _ => rfl, SortedMap.keys_modify _ _ _, fun id' => ?_, fun id' => ?_⟩,
    fun id' hid' => ?_, rfl⟩
  · rw [hfact]
    split
    · rename_i heq
      rw [hdeps, heq]
    · rfl
  · rw [hfact]
    split
    · rename_i heq
      rw [houtput, heq]
    · rfl
  · rw [hfact, if_neg]
    rintro rfl
    rw [hid'] at hrule
    cases hrule

/-- Notifications change no wiring. -/
theorem sameOthers_of_same (hfacts : T.facts = E.facts) (hrules : T.rules = E.rules)
    (hbatch : T.batch = E.batch) : SameOthers E T where
  rules _ := by rw [hrules]
  keys := by rw [hfacts]
  deps _ := by rw [fact_of_facts hfacts]
  outputs _ := by rw [fact_of_facts hfacts]
  others _ _ := by rw [fact_of_facts hfacts]
  batch := hbatch

theorem sameOthers_notifyAssert (E : RuleEngine Id V) (id : Id) :
    SameOthers E (E.notifyAssert id) := by
  obtain ⟨hfacts, hrules⟩ := notifyAssert_same E id
  apply sameOthers_of_same hfacts hrules
  rw [notifyAssert]
  split <;> rfl

theorem sameOthers_notifyRetract (E : RuleEngine Id V) (id : Id) :
    SameOthers E (E.notifyRetract id) := by
  obtain ⟨hfacts, hrules⟩ := notifyRetract_same E id
  apply sameOthers_of_same hfacts hrules
  rw [notifyRetract]
  split <;> rfl

theorem Move.sameOthers (h : Move E E') (hE : Wired E) : SameOthers E E' := by
  cases h with
  | keep id rule rule' hrule hexpr hinputs hasserts =>
    exact ⟨⟨find?_keep hrule hexpr, rfl, fun _ => rfl, fun _ => rfl⟩, fun _ _ => rfl, rfl⟩
  | assert id v hrule =>
    have hmodify : SameOthers E (E.modifyFact id (asserting (.real v))) :=
      sameOthers_modifyFact hE hrule (fun _ => rfl) (fun _ => rfl)
    exact hmodify.trans (sameOthers_notifyAssert _ _)
  | retract id hrule =>
    have hmodify : SameOthers E (E.modifyFact id retracting) :=
      sameOthers_modifyFact hE hrule (fun _ => rfl) (fun _ => rfl)
    exact hmodify.trans (sameOthers_notifyRetract _ _)

theorem isSome_find?_of_keys (h : E'.facts.keys = E.facts.keys) (id : Id) :
    (E'.facts.find? id).isSome = (E.facts.find? id).isSome := by
  have hnone : E'.facts.find? id = none ↔ E.facts.find? id = none := by
    rw [SortedMap.find?_eq_none, SortedMap.find?_eq_none, h]
  rw [Bool.eq_iff_iff, ← Option.ne_none_iff_isSome, ← Option.ne_none_iff_isSome, Ne, hnone]

/-- With the same rules and dependencies, what is left to say is about the facts. -/
theorem Wired.same (hE : Wired E)
    (hrules : ∀ id, (E'.rules.find? id).map Rule.expr = (E.rules.find? id).map Rule.expr)
    (hdeps : ∀ id, (E'.fact id).ruleDeps = (E.fact id).ruleDeps)
    (hthere : ∀ id, (E.facts.find? id).isSome → (E'.facts.find? id).isSome)
    (hnames : ∀ id r, E'.rules.find? id = some r → r.inputs.map Prod.fst = r.expr.inputs ∧
      r.asserts.map Prod.fst = r.expr.assertions)
    (houtput : ∀ id, (E.rules.find? id).isSome → (E'.fact id).ruleOutput = true ∧
      (E'.fact id).implicit = false ∧
      ((E'.fact id).asserted = true → ∃ v, (E'.fact id).value = .real v))
    (hfresh : ∀ id, E.rules.find? id = none → (E'.fact id).implicit = true →
      (E'.fact id).asserted = false) : Wired E' where
  deps id rule := by
    rw [hdeps, hE.deps]
    have hexpr := hrules rule
    constructor
    · rintro ⟨r, hr, hmem⟩
      rw [hr, Option.map_some] at hexpr
      obtain ⟨r', hr', heq⟩ := Option.map_eq_some_iff.mp hexpr
      exact ⟨r', hr', heq ▸ hmem⟩
    · rintro ⟨r', hr', hmem⟩
      rw [hr', Option.map_some] at hexpr
      obtain ⟨r, hr, heq⟩ := Option.map_eq_some_iff.mp hexpr.symm
      exact ⟨r, hr, heq ▸ hmem⟩
  nodup id := by
    rw [hdeps]
    exact hE.nodup id
  mentioned id r' hr' v hv := by
    have hexpr := hrules id
    rw [hr', Option.map_some] at hexpr
    obtain ⟨r, hr, heq⟩ := Option.map_eq_some_iff.mp hexpr.symm
    exact hthere _ (hE.mentioned id r hr v (heq ▸ hv))
  output id hid := by
    rw [← Option.isSome_map (f := Rule.expr), hrules, Option.isSome_map] at hid
    exact ⟨hthere id (hE.output id hid).1, houtput id hid⟩
  names := hnames
  fresh id himplicit := by
    cases hid : E.rules.find? id with
    | some r =>
      have hsome : (E.rules.find? id).isSome := hid ▸ rfl
      rw [(houtput id hsome).2.1] at himplicit
      cases himplicit
    | none => exact hfresh id hid himplicit

theorem Move.wired (h : Move E E') (hE : Wired E) : Wired E' := by
  have hsame := h.sameOthers hE
  refine hE.same hsame.rules hsame.deps (fun id => ?_) ?_ ?_ fun id hid => ?_
  · rw [isSome_find?_of_keys hsame.keys]
    exact fun hid => hid
  · cases h with
    | keep id rule rule' hrule hexpr hinputs hasserts =>
      intro id' r hr
      rw [SortedMap.find?_set] at hr
      split at hr
      · cases hr
        rw [hinputs, hasserts, hexpr]
        exact hE.names id rule hrule
      · exact hE.names id' r hr
    | assert id v hrule =>
      intro id' r hr
      rw [(notifyAssert_same _ _).2] at hr
      exact hE.names id' r hr
    | retract id hrule =>
      intro id' r hr
      rw [(notifyRetract_same _ _).2] at hr
      exact hE.names id' r hr
  · intro id' hid'
    obtain ⟨-, hruleOutput, himplicit, hreal⟩ := hE.output id' hid'
    rw [hsame.outputs]
    refine ⟨hruleOutput, ?_⟩
    cases h with
    | keep id rule rule' hrule hexpr hinputs hasserts => exact ⟨himplicit, hreal⟩
    | assert id v hrule =>
      rw [fact_of_facts (notifyAssert_same _ _).1, fact_modifyFact (hE.output id hrule).1]
      split
      · exact ⟨rfl, fun _ => ⟨v, rfl⟩⟩
      · exact ⟨himplicit, hreal⟩
    | retract id hrule =>
      rw [fact_of_facts (notifyRetract_same _ _).1, fact_modifyFact (hE.output id hrule).1]
      split
      · rename_i heq
        rw [heq] at himplicit
        exact ⟨himplicit, fun hasserted => by cases hasserted⟩
      · exact ⟨himplicit, hreal⟩
  · rw [hsame.others id hid]
    exact hE.fresh id

theorem Moves.wired (h : Moves E E') (hE : Wired E) : Wired E' ∧ SameOthers E E' := by
  induction h with
  | refl => exact ⟨hE, .refl E⟩
  | tail _ hmove ih =>
    exact ⟨hmove.wired ih.1, ih.2.trans (hmove.sameOthers ih.1)⟩

end Wiring

end Adara.Spec.RuleEngine
