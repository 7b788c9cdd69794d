import Adara.Spec.RuleSettling

/-! # Rules come and go

What the facts and their dependencies are when a rule has been compiled (`compile_same`), and when
one has been deleted (`deleteRule_same`).  Both keep the wiring (`wired_withRule`,
`wired_deleteRule`). -/

namespace Adara.Spec.RuleEngine

open Adara.Native Adara.Native.RuleEngine

variable {Id V : Type} [LinearOrder Id]

/-! ### Compiling and deleting a rule -/

section Compile

variable {E : RuleEngine Id V} {id : Id}

theorem find?_getFact (E : RuleEngine Id V) (id id' : Id) :
    (E.getFact id).facts.find? id' =
      if id' = id then some (E.fact id) else E.facts.find? id' := by
  rw [getFact, SortedMap.insert, SortedMap.find?_alter]
  rfl

theorem fact_getFact (E : RuleEngine Id V) (id : Id) : (E.getFact id).fact = E.fact := by
  funext id'
  rw [RuleEngine.fact, find?_getFact]
  split
  · rename_i heq
    rw [heq]
    rfl
  · rfl

theorem isSome_getFact (E : RuleEngine Id V) (id id' : Id) :
    ((E.getFact id).facts.find? id').isSome ↔ id' = id ∨ (E.facts.find? id').isSome := by
  rw [find?_getFact]
  split
  · rename_i heq
    exact ⟨fun _ => .inl heq, fun _ => rfl⟩
  · rename_i hne
    exact ⟨.inr, fun h => h.resolve_left hne⟩

theorem isSome_modifyFact (E : RuleEngine Id V) (id : Id) (f : Fact Id V → Fact Id V) (id' : Id) :
    ((E.modifyFact id f).facts.find? id').isSome = (E.facts.find? id').isSome :=
  isSome_find?_of_keys (SortedMap.keys_modify _ _ _) id'

/-- A dependency that is there is not added again. -/
theorem addRuleDependency_again (fact : Fact Id V) (rule : Id) :
    (fact.addRuleDependency rule).addRuleDependency rule = fact.addRuleDependency rule := by
  have hmem : rule ∈ (fact.addRuleDependency rule).ruleDeps := by
    rw [Fact.addRuleDependency]
    split
    · rename_i h
      exact h
    · exact List.mem_append_right _ (List.mem_singleton_self _)
  rw [Fact.addRuleDependency, if_pos hmem]

/-- What compiling an expression leaves: its facts are there and know the rule. -/
structure Compiled (rule : Id) (vars : List (Variable Id)) (E E' : RuleEngine Id V) : Prop where
  rules : E'.rules = E.rules
  fact : ∀ id, E'.fact id =
    if id ∈ vars.map Variable.fact then (E.fact id).addRuleDependency rule else E.fact id
  there : ∀ id, (E'.facts.find? id).isSome ↔
    id ∈ vars.map Variable.fact ∨ (E.facts.find? id).isSome
  others : E'.batch = E.batch ∧ E'.listeners = E.listeners ∧ E'.newFacts = E.newFacts ∧
    E'.oldFacts = E.oldFacts

theorem compiled_vars (rule : Id) (vars : List (Variable Id)) (E : RuleEngine Id V) :
    Compiled rule vars E (vars.foldl (addVariable rule) E) := by
  induction vars generalizing E with
  | nil =>
    exact ⟨rfl, fun _ => (if_neg List.not_mem_nil).symm,
      fun _ => ⟨.inr, Or.rec (fun h => absurd h List.not_mem_nil) fun h => h⟩, rfl, rfl, rfl, rfl⟩
  | cons v vars ih =>
    have hthere : ((E.getFact v.fact).facts.find? v.fact).isSome :=
      (isSome_getFact E v.fact v.fact).mpr (.inl rfl)
    have hfact := fact_modifyFact hthere fun fact => fact.addRuleDependency rule
    obtain ⟨hrules, hfacts, hthere', hothers⟩ := ih (addVariable rule E v)
    refine ⟨hrules, fun id => ?_, fun id => ?_, hothers⟩
    · rw [List.foldl_cons, hfacts, addVariable, hfact, fact_getFact, List.map_cons]
      by_cases hid : id = v.fact
      · rw [if_pos hid, if_pos (List.mem_cons.mpr (.inl hid)), hid, addRuleDependency_again,
          ite_self]
      · rw [if_neg hid]
        by_cases hmem : id ∈ vars.map Variable.fact
        · rw [if_pos hmem, if_pos (List.mem_cons_of_mem _ hmem)]
        · rw [if_neg hmem, if_neg (fun h => (List.mem_cons.mp h).elim hid hmem)]
    · rw [List.foldl_cons, hthere', addVariable, isSome_modifyFact, isSome_getFact, List.map_cons,
        List.mem_cons, or_assoc, or_left_comm]

/-- The fact of a new rule is its output. -/
def claiming (fact : Fact Id V) : Fact Id V := { fact with ruleOutput := true, implicit := false }

/-- The facts of a new rule, when its expression is compiled. -/
theorem compile_fact (E : RuleEngine Id V) (id : Id) (expr : RuleExpr Id V) (id' : Id) :
    (E.compile id expr).fact id' =
      let fact := if id' = id then claiming (E.fact id) else E.fact id'
      if id' ∈ expr.vars.map Variable.fact then fact.addRuleDependency id else fact := by
  have hthere : ((E.getFact id).facts.find? id).isSome :=
    (isSome_getFact E id id).mpr (.inl rfl)
  rw [compile, (compiled_vars id expr.vars _).fact]
  have hclaim := fact_modifyFact hthere claiming id'
  rw [fact_getFact] at hclaim
  exact congrArg (fun fact : Fact Id V =>
    if id' ∈ expr.vars.map Variable.fact then fact.addRuleDependency id else fact) hclaim

theorem compile_there (E : RuleEngine Id V) (id : Id) (expr : RuleExpr Id V) (id' : Id) :
    ((E.compile id expr).facts.find? id').isSome ↔
      id' ∈ expr.vars.map Variable.fact ∨ id' = id ∨ (E.facts.find? id').isSome := by
  rw [compile, (compiled_vars id expr.vars _).there, isSome_modifyFact, isSome_getFact]

/-- The rules are those of before until the new one is entered. -/
theorem compile_rules (E : RuleEngine Id V) (id : Id) (expr : RuleExpr Id V) :
    (E.compile id expr).rules = E.rules :=
  (compiled_vars id expr.vars _).rules

theorem addRuleDependency_same (fact : Fact Id V) (rule : Id) :
    (fact.addRuleDependency rule).asserted = fact.asserted ∧
      (fact.addRuleDependency rule).implicit = fact.implicit ∧
      (fact.addRuleDependency rule).ruleOutput = fact.ruleOutput ∧
      (fact.addRuleDependency rule).value = fact.value := by
  rw [Fact.addRuleDependency]
  split <;> exact ⟨rfl, rfl, rfl, rfl⟩

theorem mem_addRuleDependency (fact : Fact Id V) (rule rule' : Id) :
    rule' ∈ (fact.addRuleDependency rule).ruleDeps ↔ rule' ∈ fact.ruleDeps ∨ rule' = rule := by
  rw [Fact.addRuleDependency]
  split
  · rename_i hmem
    exact ⟨.inl, Or.rec (fun h => h) fun h => h ▸ hmem⟩
  · rw [List.mem_append, List.mem_singleton]

theorem nodup_addRuleDependency {fact : Fact Id V} (h : fact.ruleDeps.Nodup) (rule : Id) :
    (fact.addRuleDependency rule).ruleDeps.Nodup := by
  rw [Fact.addRuleDependency]
  split
  · exact h
  · rename_i hnot
    exact List.nodup_append.mpr ⟨h, List.nodup_singleton _, fun a ha b hb hab =>
      hnot (List.mem_singleton.mp hb ▸ hab ▸ ha)⟩

/-- All that compiling an expression changes in a fact. -/
theorem compile_same (E : RuleEngine Id V) (id : Id) (expr : RuleExpr Id V) (id' : Id) :
    ((E.compile id expr).fact id').asserted = (E.fact id').asserted ∧
      ((E.compile id expr).fact id').value = (E.fact id').value ∧
      (id' ≠ id → ((E.compile id expr).fact id').implicit = (E.fact id').implicit ∧
        ((E.compile id expr).fact id').ruleOutput = (E.fact id').ruleOutput) ∧
      (id' = id → ((E.compile id expr).fact id').implicit = false ∧
        ((E.compile id expr).fact id').ruleOutput = true) ∧
      (∀ rule, rule ∈ ((E.compile id expr).fact id').ruleDeps ↔ rule ∈ (E.fact id').ruleDeps ∨
        rule = id ∧ id' ∈ expr.vars.map Variable.fact) := by
  rw [compile_fact]
  dsimp only
  -- the fact before the dependency is added
  generalize hfact : (if id' = id then claiming (E.fact id) else E.fact id') = fact
  have hsame : fact.asserted = (E.fact id').asserted ∧ fact.value = (E.fact id').value ∧
      (id' ≠ id → fact.implicit = (E.fact id').implicit ∧
        fact.ruleOutput = (E.fact id').ruleOutput) ∧
      (id' = id → fact.implicit = false ∧ fact.ruleOutput = true) ∧
      fact.ruleDeps = (E.fact id').ruleDeps := by
    subst hfact
    split
    · rename_i heq
      subst heq
      exact ⟨rfl, rfl, fun hne => absurd rfl hne, fun _ => ⟨rfl, rfl⟩, rfl⟩
    · rename_i hne
      exact ⟨rfl, rfl, fun _ => ⟨rfl, rfl⟩, fun heq => absurd heq hne, rfl⟩
  obtain ⟨hasserted, hvalue, hothers, hown, hdeps⟩ := hsame
  split
  · rename_i hmem
    obtain ⟨hasserted', himplicit', houtput', hvalue'⟩ := addRuleDependency_same fact id
    rw [hasserted', himplicit', houtput', hvalue']
    refine ⟨hasserted, hvalue, hothers, hown, fun rule => ?_⟩
    rw [mem_addRuleDependency, hdeps, and_iff_left hmem]
  · rename_i hmem
    refine ⟨hasserted, hvalue, hothers, hown, fun rule => ?_⟩
    rw [hdeps]
    exact ⟨.inl, fun h => h.elim (fun h => h) fun h => absurd h.2 hmem⟩

theorem nodup_compile (hE : Wired E) (expr : RuleExpr Id V) (id' : Id) :
    ((E.compile id expr).fact id').ruleDeps.Nodup := by
  rw [compile_fact]
  dsimp only
  have hnodup : (if id' = id then claiming (E.fact id) else E.fact id').ruleDeps.Nodup := by
    split
    · exact hE.nodup id
    · exact hE.nodup id'
  split
  · exact nodup_addRuleDependency hnodup id
  · exact hnodup

end Compile

/-! ### Rules come and go -/

section Rules

variable [EngineReal V] {E : RuleEngine Id V} {id : Id} {expr : RuleExpr Id V}

/-- The engine with a new rule that is not evaluated yet. -/
def withRule (E : RuleEngine Id V) (id : Id) (expr : RuleExpr Id V) : RuleEngine Id V :=
  { E.compile id expr with rules := (E.compile id expr).rules.set id (.new expr) }

theorem find?_withRule (E : RuleEngine Id V) (id : Id) (expr : RuleExpr Id V) (id' : Id) :
    (withRule E id expr).rules.find? id' =
      if id' = id then some (.new expr) else E.rules.find? id' := by
  rw [withRule, SortedMap.find?_set, compile_rules]

omit [EngineReal V] in
/-- An identifier that is not in use is one of no rule, and of no fact that was asserted. -/
theorem free_of_not_inUse (hE : Wired E) (hfree : E.idInUse id = false) :
    E.rules.find? id = none ∧ (E.fact id).asserted = false := by
  rw [idInUse, Bool.or_eq_false_iff] at hfree
  obtain ⟨hrule, hfact⟩ := hfree
  refine ⟨Option.isNone_iff_eq_none.mp (Option.isSome_eq_false_iff.mp hrule), ?_⟩
  apply hE.fresh
  rw [RuleEngine.fact]
  cases hfound : E.facts.find? id with
  | none => rfl
  | some fact =>
    rw [hfound, Option.any_some, Bool.not_eq_false'] at hfact
    exact hfact

omit [LinearOrder Id] in
theorem new_names (expr : RuleExpr Id V) :
    (Rule.new expr).inputs.map Prod.fst = expr.inputs ∧
      (Rule.new expr).asserts.map Prod.fst = expr.assertions := by
  constructor
  · rw [Rule.new, List.map_map]
    exact List.map_id _
  · rw [Rule.new, List.map_map]
    exact List.map_id _

theorem wired_withRule (hE : Wired E) (hfree : E.idInUse id = false) :
    Wired (withRule E id expr) := by
  obtain ⟨hrule, hretracted⟩ := free_of_not_inUse hE hfree
  constructor
  · intro id' rule
    obtain ⟨-, -, -, -, hdeps⟩ := compile_same E id expr id'
    show rule ∈ ((E.compile id expr).fact id').ruleDeps ↔ _
    rw [hdeps, hE.deps, find?_withRule]
    by_cases heq : rule = id
    · rw [if_pos heq, heq, hrule]
      constructor
      · rintro (⟨r, hr, -⟩ | ⟨-, hmem⟩)
        · cases hr
        · exact ⟨_, rfl, hmem⟩
      · rintro ⟨r, hr, hmem⟩
        cases hr
        exact .inr ⟨rfl, hmem⟩
    · rw [if_neg heq]
      exact ⟨fun h => h.resolve_right fun h => heq h.1, .inl⟩
  · exact nodup_compile hE expr
  · intro id' r hr v hv
    show ((E.compile id expr).facts.find? v.fact).isSome
    rw [compile_there]
    rw [find?_withRule] at hr
    split at hr
    · cases hr
      exact .inl (List.mem_map_of_mem hv)
    · exact .inr (.inr (hE.mentioned id' r hr v hv))
  · intro id' hid'
    obtain ⟨hasserted, hvalue, hothers, hown, -⟩ := compile_same E id expr id'
    show ((E.compile id expr).facts.find? id').isSome ∧
      ((E.compile id expr).fact id').ruleOutput = true ∧
      ((E.compile id expr).fact id').implicit = false ∧ (((E.compile id expr).fact id').asserted =
        true → ∃ v, ((E.compile id expr).fact id').value = .real v)
    rw [compile_there, hasserted, hvalue]
    rw [find?_withRule] at hid'
    by_cases heq : id' = id
    · obtain ⟨himplicit, houtput⟩ := hown heq
      refine ⟨.inr (.inl heq), houtput, himplicit, fun h => ?_⟩
      rw [heq, hretracted] at h
      cases h
    · rw [if_neg heq] at hid'
      obtain ⟨hthere, houtput, himplicit, hreal⟩ := hE.output id' hid'
      obtain ⟨himplicit', houtput'⟩ := hothers heq
      exact ⟨.inr (.inr hthere), houtput'.trans houtput, himplicit'.trans himplicit, hreal⟩
  · intro id' r hr
    rw [find?_withRule] at hr
    split at hr
    · cases hr
      exact new_names expr
    · exact hE.names id' r hr
  · intro id'
    obtain ⟨hasserted, -, hothers, hown, -⟩ := compile_same E id expr id'
    show ((E.compile id expr).fact id').implicit = true →
      ((E.compile id expr).fact id').asserted = false
    rw [hasserted]
    by_cases heq : id' = id
    · rw [heq]
      exact fun _ => hretracted
    · rw [(hothers heq).1]
      exact hE.fresh id'

end Rules

section Delete

variable {E : RuleEngine Id V} {id : Id} {rule : Rule Id V}

/-- A dependency that is removed is not there to be removed again. -/
theorem removeRuleDependency_again {fact : Fact Id V} (h : fact.ruleDeps.Nodup) (rule : Id) :
    (fact.removeRuleDependency rule).removeRuleDependency rule =
      fact.removeRuleDependency rule := by
  rw [Fact.removeRuleDependency, Fact.removeRuleDependency, List.erase_of_not_mem h.not_mem_erase]

/-- The facts when the variables of a rule are disconnected. -/
theorem removed_vars {vars : List (Variable Id)} (hnodup : ∀ id, (E.fact id).ruleDeps.Nodup)
    (hthere : ∀ v ∈ vars, (E.facts.find? v.fact).isSome) (rule : Id) :
    let E' := vars.foldl
      (fun E v => E.modifyFact v.fact fun fact => fact.removeRuleDependency rule) E
    E'.rules = E.rules ∧ E'.facts.keys = E.facts.keys ∧ ∀ id, E'.fact id =
      if id ∈ vars.map Variable.fact then (E.fact id).removeRuleDependency rule
      else E.fact id := by
  induction vars generalizing E with
  | nil => exact ⟨rfl, rfl, fun _ => (if_neg List.not_mem_nil).symm⟩
  | cons v vars ih =>
    obtain ⟨hv, hrest⟩ := List.forall_mem_cons.mp hthere
    have hfact := fact_modifyFact hv fun fact => fact.removeRuleDependency rule
    obtain ⟨hrules, hkeys, hfacts⟩ :=
      @ih (E.modifyFact v.fact fun fact => fact.removeRuleDependency rule)
        (fun id => by
          rw [hfact]
          split
          · exact (hnodup v.fact).erase rule
          · exact hnodup id)
        (fun w hw => by
          rw [isSome_modifyFact]
          exact hrest w hw)
    refine ⟨hrules, hkeys.trans (SortedMap.keys_modify _ _ _), fun id => ?_⟩
    rw [List.foldl_cons, hfacts, hfact, List.map_cons]
    by_cases hid : id = v.fact
    · rw [if_pos hid, if_pos (List.mem_cons.mpr (.inl hid)), hid,
        removeRuleDependency_again (hnodup v.fact), ite_self]
    · rw [if_neg hid]
      by_cases hmem : id ∈ vars.map Variable.fact
      · rw [if_pos hmem, if_pos (List.mem_cons_of_mem _ hmem)]
      · rw [if_neg hmem, if_neg (fun h => (List.mem_cons.mp h).elim hid hmem)]

/-- All that deleting a rule changes. -/
theorem deleteRule_same (hE : Wired E) (hrule : E.rules.find? id = some rule) :
    (∀ id', (E.deleteRule id rule).rules.find? id' =
        if id' = id then none else E.rules.find? id') ∧
      (E.deleteRule id rule).facts.keys = E.facts.keys ∧
      ∀ id', (E.deleteRule id rule).fact id' = (E.fact id').removeRuleDependency id := by
  obtain ⟨hrules, hkeys, hfacts⟩ :=
    removed_vars hE.nodup (hE.mentioned id rule hrule) id
  refine ⟨fun id' => ?_, hkeys, fun id' => ?_⟩
  · rw [deleteRule]
    dsimp only
    rw [hrules, SortedMap.find?_erase]
  · refine (hfacts id').trans ?_
    split
    · rfl
    · -- a fact that the rule does not mention does not know it
      rename_i hnot
      rw [Fact.removeRuleDependency, List.erase_of_not_mem]
      rw [hE.deps]
      rintro ⟨r, hr, hmem⟩
      cases hrule.symm.trans hr
      exact hnot hmem

theorem mem_deleteRule (hE : Wired E) (hrule : E.rules.find? id = some rule) (id' rule' : Id) :
    rule' ∈ ((E.deleteRule id rule).fact id').ruleDeps ↔
      rule' ≠ id ∧ rule' ∈ (E.fact id').ruleDeps := by
  rw [(deleteRule_same hE hrule).2.2]
  exact (hE.nodup id').mem_erase_iff

theorem wired_deleteRule (hE : Wired E) (hrule : E.rules.find? id = some rule) :
    Wired (E.deleteRule id rule) := by
  obtain ⟨hrules, hkeys, hfacts⟩ := deleteRule_same hE hrule
  have hthere := isSome_find?_of_keys hkeys
  have hfound : ∀ {id' r}, (E.deleteRule id rule).rules.find? id' = some r →
      id' ≠ id ∧ E.rules.find? id' = some r := by
    intro id' r hr
    rw [hrules] at hr
    split at hr
    · cases hr
    · rename_i hne
      exact ⟨hne, hr⟩
  constructor
  · intro id' rule'
    rw [mem_deleteRule hE hrule, hE.deps]
    constructor
    · rintro ⟨hne, r, hr, hmem⟩
      exact ⟨r, by rw [hrules, if_neg hne, hr], hmem⟩
    · rintro ⟨r, hr, hmem⟩
      obtain ⟨hne, hr⟩ := hfound hr
      exact ⟨hne, r, hr, hmem⟩
  · intro id'
    rw [hfacts]
    exact (hE.nodup id').erase id
  · intro id' r hr v hv
    rw [hthere]
    exact hE.mentioned id' r (hfound hr).2 v hv
  · intro id' hid'
    obtain ⟨r, hr⟩ := Option.isSome_iff_exists.mp hid'
    obtain ⟨-, hr⟩ := hfound hr
    rw [hthere, hfacts]
    exact hE.output id' (hr ▸ rfl)
  · intro id' r hr
    exact hE.names id' r (hfound hr).2
  · intro id'
    rw [hfacts]
    exact hE.fresh id'

end Delete

end Adara.Spec.RuleEngine
