import Adara.Spec.RuleDepth

/-! # What a call changes

Between calls an engine is settled (`Settled`): its rules know what is asserted, their outputs
follow, and no rule depends on itself.  A call from outside asserts or retracts a fact of no rule
(`Effect`), or a rule comes or goes; when it returns the engine is settled again. -/

namespace Adara.Spec.RuleEngine

open Adara.Native Adara.Native.RuleEngine Relation

variable {Id V : Type} [LinearOrder Id] [EngineReal V]

/-- Every rule knows what is asserted and its output follows, and none depends on itself. -/
structure Settled (E : RuleEngine Id V) : Prop where
  wired : Wired E
  acyclic : Acyclic (Edge E)
  settling : Settling (fun _ _ => False) (fun _ => False) E

/-- The value of a fact that is asserted. -/
def status (E : RuleEngine Id V) (id : Id) : Option (Value V) :=
  if (E.fact id).asserted then some (E.fact id).value else none

section Status

variable {E E' : RuleEngine Id V} {id : Id}

omit [EngineReal V] in
theorem status_of_asserted (h : (E.fact id).asserted = true) :
    status E id = some (E.fact id).value := if_pos h

omit [EngineReal V] in
theorem status_of_retracted (h : (E.fact id).asserted = false) : status E id = none :=
  if_neg (Bool.not_eq_true _ ▸ h)

omit [EngineReal V] in
theorem status_congr (h : E'.fact id = E.fact id) : status E' id = status E id := by
  rw [status, status, h]

/-- A fact of no rule is asserted or retracted, and the rules have followed. -/
structure Effect (E E' : RuleEngine Id V) (id : Id) (value : Option (Value V)) : Prop where
  settled : Settled E'
  rules : ∀ id', (E'.rules.find? id').map Rule.expr = (E.rules.find? id').map Rule.expr
  there : ∀ id', (E'.facts.find? id').isSome ↔ id' = id ∨ (E.facts.find? id').isSome
  outputs : ∀ id', (E'.fact id').ruleOutput = (E.fact id').ruleOutput
  status : ∀ id', E.rules.find? id' = none →
    status E' id' = if id' = id then value else status E id'

/-- Nothing happens. -/
theorem Effect.refl (hE : Settled E) (hthere : (E.facts.find? id).isSome) :
    Effect E E id (RuleEngine.status E id) where
  settled := hE
  rules _ := rfl
  there id' := ⟨.inr, Or.rec (fun heq => heq ▸ hthere) fun h => h⟩
  outputs _ := rfl
  status id' _ := by
    split
    · rename_i heq
      rw [heq]
    · rfl

end Status

/-! ### Facts of no rule -/

section Facts

variable {E E₀ T : RuleEngine Id V} {id : Id}

/-- A fact is changed from outside, before the rules are told. -/
structure Changed (E T : RuleEngine Id V) (id : Id) : Prop where
  rules : T.rules = E.rules
  there : ∀ id', (T.facts.find? id').isSome ↔ id' = id ∨ (E.facts.find? id').isSome
  others : ∀ id', id' ≠ id → T.fact id' = E.fact id'
  deps : (T.fact id).ruleDeps = (E.fact id).ruleDeps
  output : (T.fact id).ruleOutput = (E.fact id).ruleOutput

omit [EngineReal V] in
/-- A fact that is there is changed. -/
theorem Changed.modify (h : Changed E E₀ id) {f : Fact Id V → Fact Id V}
    (hdeps : ∀ fact, (f fact).ruleDeps = fact.ruleDeps)
    (houtput : ∀ fact, (f fact).ruleOutput = fact.ruleOutput) :
    Changed E (E₀.modifyFact id f) id ∧
      (E₀.modifyFact id f).fact id = f (E₀.fact id) := by
  have hfact := fact_modifyFact ((h.there id).mpr (.inl rfl)) f
  have hself : (E₀.modifyFact id f).fact id = f (E₀.fact id) := by rw [hfact, if_pos rfl]
  refine ⟨⟨h.rules, fun id' => ?_, fun id' hne => ?_, ?_, ?_⟩, hself⟩
  · rw [isSome_modifyFact]
    exact h.there id'
  · rw [hfact, if_neg hne]
    exact h.others id' hne
  · rw [hself, hdeps]
    exact h.deps
  · rw [hself, houtput]
    exact h.output

omit [EngineReal V] in
theorem Changed.same (h : Changed E E₀ id) (hfacts : T.facts = E₀.facts)
    (hrules : T.rules = E₀.rules) : Changed E T id := by
  have hfact := fact_of_facts hfacts
  refine ⟨hrules.trans h.rules, ?_, ?_, ?_, ?_⟩
  · rw [hfacts]
    exact h.there
  · rw [hfact]
    exact h.others
  · rw [hfact]
    exact h.deps
  · rw [hfact]
    exact h.output

omit [EngineReal V] in
theorem Changed.refl (hthere : (E.facts.find? id).isSome) : Changed E E id :=
  ⟨rfl, fun _ => ⟨.inr, Or.rec (fun heq => heq ▸ hthere) fun h => h⟩, fun _ _ => rfl, rfl, rfl⟩

omit [EngineReal V] in
/-- A fact that is new has no dependencies. -/
theorem Changed.new (hnew : E.facts.find? id = none) {fact : Fact Id V}
    (hdeps : fact.ruleDeps = []) (houtput : fact.ruleOutput = false) :
    Changed E { E with facts := E.facts.set id fact } id := by
  have hfind := SortedMap.find?_set E.facts id
  have hdefault : E.fact id = .new false true := by
    rw [RuleEngine.fact, hnew]
    rfl
  have hself : RuleEngine.fact { E with facts := E.facts.set id fact } id = fact := by
    rw [RuleEngine.fact, hfind, if_pos rfl]
    rfl
  refine ⟨rfl, fun id' => ?_, fun id' hne => ?_, ?_, ?_⟩
  · rw [hfind]
    split
    · rename_i heq
      exact ⟨fun _ => .inl heq, fun _ => rfl⟩
    · rename_i hne
      exact ⟨.inr, fun h => h.resolve_left hne⟩
  · rw [RuleEngine.fact, hfind, if_neg hne]
    rfl
  · rw [hself, hdefault, hdeps]
    rfl
  · rw [hself, hdefault, houtput]
    rfl

omit [EngineReal V] in
theorem Changed.sameWiring (h : Changed E T id) (id' : Id) :
    (T.fact id').ruleDeps = (E.fact id').ruleDeps ∧
      (T.fact id').ruleOutput = (E.fact id').ruleOutput := by
  by_cases heq : id' = id
  · rw [heq]
    exact ⟨h.deps, h.output⟩
  · rw [h.others id' heq]
    exact ⟨rfl, rfl⟩

omit [EngineReal V] in
theorem Changed.wired (h : Changed E T id) (hE : Wired E) (hrule : E.rules.find? id = none)
    (hfresh : (T.fact id).implicit = true → (T.fact id).asserted = false) : Wired T := by
  refine hE.same (fun _ => by rw [h.rules]) (fun id' => (h.sameWiring id').1)
    (fun id' hid' => (h.there id').mpr (.inr hid')) ?_ (fun id' hid' => ?_) (fun id' _ => ?_)
  · rw [h.rules]
    exact hE.names
  · rw [h.others]
    · exact (hE.output id' hid').2
    · rintro rfl
      rw [hrule] at hid'
      cases hid'
  · by_cases heq : id' = id
    · rw [heq]
      exact hfresh
    · rw [h.others id' heq]
      exact hE.fresh id'

variable [DecidableEq V]

/-- The rules are told of a fact that was changed from outside. -/
theorem Settled.told (hE : Settled E) (h : Changed E T id) (hrule : E.rules.find? id = none)
    (hfresh : (T.fact id).implicit = true → (T.fact id).asserted = false) :
    ∃ E', update E.depth T id = some E' ∧ Effect E E' id (status T id) := by
  have hT := h.wired hE.wired hrule hfresh
  have hedge : ∀ f g, Edge T f g → Edge E f g := by
    intro f g hfg
    rw [Edge, (h.sameWiring f).1] at hfg
    exact hfg
  have hacyclic : Acyclic (Edge T) := hE.acyclic.mono hedge
  obtain ⟨E', hE', -⟩ := update_ends hT hacyclic id
  rw [RuleEngine.depth, h.rules] at hE'
  obtain ⟨hwired, hsame⟩ := (update_moves _ _ _ _ hE').wired hT
  -- no rule has the changed fact as its output
  have hsettling : Settling (fun _ id' => False ∨ id' = id) (fun _ => False) T := by
    refine (hE.settling.change h.rules h.others).mono (fun _ => rfl) (fun _ => rfl) ?_
    intro id' rule hid'
    refine ⟨hid', ?_⟩
    rintro (hfalse | rfl)
    · exact hfalse
    · rw [h.rules, hrule] at hid'
      cases hid'
  refine ⟨E', hE', ⟨hwired, hacyclic.mono fun f g => hsame.edge.mp,
    update_settles _ _ _ _ _ _ hT hsettling hE'⟩, fun id' => ?_, fun id' => ?_, fun id' => ?_,
    fun id' hid' => ?_⟩
  · rw [hsame.rules, h.rules]
  · rw [isSome_find?_of_keys hsame.keys]
    exact h.there id'
  · rw [hsame.outputs]
    exact (h.sameWiring id').2
  · have hfact : E'.fact id' = T.fact id' := hsame.others id' (by rw [h.rules, hid'])
    rw [status_congr hfact]
    split
    · rename_i heq
      rw [heq]
    · rename_i hne
      exact status_congr (h.others id' hne)

theorem assertFact_effect (hE : Settled E) (h : Changed E E₀ id)
    (hrule : E.rules.find? id = none) (value : Value V) :
    ∃ E', assertFact (update E.depth) E₀ id value = some E' ∧ Effect E E' id (some value) := by
  obtain ⟨hmodify, hself⟩ := h.modify (f := asserting value) (fun _ => rfl) (fun _ => rfl)
  obtain ⟨hfacts, hrules⟩ := notifyAssert_same (E₀.modifyFact id (asserting value)) id
  have hfact := fact_of_facts hfacts
  obtain ⟨E', hE', heffect⟩ := hE.told (hmodify.same hfacts hrules) hrule (by
    rw [hfact, hself]
    intro himplicit
    cases himplicit)
  have hstatus : status ((E₀.modifyFact id (asserting value)).notifyAssert id) id =
      some value := by
    rw [status, hfact, hself]
    rfl
  exact ⟨E', hE', hstatus ▸ heffect⟩

theorem retractFact_effect (hE : Settled E) (hthere : (E.facts.find? id).isSome)
    (hrule : E.rules.find? id = none) :
    ∃ E', retractFact (update E.depth) E id = some E' ∧ Effect E E' id none := by
  obtain ⟨hmodify, hself⟩ :=
    (Changed.refl hthere).modify (f := retracting) (fun _ => rfl) (fun _ => rfl)
  obtain ⟨hfacts, hrules⟩ := notifyRetract_same (E.modifyFact id retracting) id
  have hfact := fact_of_facts hfacts
  obtain ⟨E', hE', heffect⟩ := hE.told (hmodify.same hfacts hrules) hrule (by
    rw [hfact, hself]
    exact fun _ => rfl)
  have hstatus : status ((E.modifyFact id retracting).notifyRetract id) id = none := by
    rw [status, hfact, hself]
    rfl
  exact ⟨E', hE', hstatus ▸ heffect⟩

omit [DecidableEq V] in
/-- A fact that is only looked up is there afterwards. -/
theorem getFact_effect (hE : Settled E) (id : Id) :
    Effect E (E.getFact id) id (status E id) := by
  have hfact := fact_getFact E id
  have hwired : Wired (E.getFact id) := by
    refine hE.wired.same (fun _ => rfl) (fun _ => by rw [hfact])
      (fun id' hid' => (isSome_getFact E id id').mpr (.inr hid')) hE.wired.names
      (fun id' hid' => ?_) (fun id' _ => ?_)
    · rw [hfact]
      exact (hE.wired.output id' hid').2
    · rw [hfact]
      exact hE.wired.fresh id'
  refine ⟨⟨hwired, hE.acyclic.mono fun f g hfg => ?_, ?_⟩, fun _ => rfl, isSome_getFact E id,
    fun _ => by rw [hfact], fun id' _ => ?_⟩
  · rw [Edge, hfact] at hfg
    exact hfg
  · exact hE.settling.mono (fun _ => by rw [hfact]) (fun _ => by rw [hfact])
      fun _ _ hrule => ⟨hrule, fun hfalse => hfalse⟩
  · rw [status_congr (congrFun hfact id')]
    split
    · rename_i heq
      rw [heq]
    · rfl

end Facts

/-! ### Rules come and go -/

section Rules

variable [DecidableEq V] {E : RuleEngine Id V} {id : Id} {expr : RuleExpr Id V}

/-- A rule whose identifier is in use, or that would be part of a cycle, is not defined. -/
theorem defineRule_none (hE : Settled E)
    (h : E.idInUse id = true ∨ TransGen (Edge (E.compile id expr)) id id) :
    E.defineRule id expr = none := by
  rw [defineRule]
  split
  · rfl
  · rename_i hfree
    have hpath := h.resolve_left hfree
    dsimp only
    split
    · rename_i hfalse
      exact absurd hpath ((isCircular_spec hE.wired hE.acyclic id expr).mp hfalse)
    · rfl

/-- A rule is there, and the other rules and the facts of no rule are as they were. -/
structure Defined (E E' : RuleEngine Id V) (id : Id) (expr : RuleExpr Id V) : Prop where
  settled : Settled E'
  rules : ∀ id', (E'.rules.find? id').map Rule.expr =
    if id' = id then some expr else (E.rules.find? id').map Rule.expr
  there : ∀ id', (E'.facts.find? id').isSome ↔
    id' ∈ expr.vars.map Variable.fact ∨ id' = id ∨ (E.facts.find? id').isSome
  outputs : ∀ id', (E'.fact id').ruleOutput = if id' = id then true else (E.fact id').ruleOutput
  status : ∀ id', E.rules.find? id' = none → id' ≠ id → status E' id' = status E id'

omit [DecidableEq V] in
/-- A new rule that is evaluated against no particular fact knows what is asserted. -/
theorem settling_withRule (hE : Settled E) :
    let T := withRule E id expr
    Settling (fun _ _ => False) (fun rule => False ∨ rule = id)
      { T with rules := T.rules.set id ((Rule.new expr).refresh T.fact) } := by
  have hsame := compile_same E id expr
  constructor
  · intro id' rule hrule
    rw [SortedMap.find?_set] at hrule
    split at hrule
    · cases hrule
      exact cached_refresh _ _
    · rename_i hne
      rw [find?_withRule, if_neg hne] at hrule
      exact (hE.settling.cached id' rule hrule).congr (fun id => (hsame id).1)
        (fun id => (hsame id).2.1)
  · intro id' rule hrule hnot
    rw [not_or] at hnot
    rw [SortedMap.find?_set, if_neg hnot.2, find?_withRule, if_neg hnot.2] at hrule
    obtain ⟨hfires, hreal⟩ := hE.settling.follows id' rule hrule hnot.1
    refine ⟨(hsame id').1.trans hfires, fun hasserted => (hsame id').2.1.trans (hreal ?_)⟩
    exact (hsame id').1.symm.trans hasserted

theorem defineRule_effect (hE : Settled E) (hfree : E.idInUse id = false)
    (hpath : ¬ TransGen (Edge (E.compile id expr)) id id) :
    ∃ E', E.defineRule id expr = some E' ∧ Defined E E' id expr := by
  have hspec := (isCircular_spec hE.wired hE.acyclic id expr).mpr hpath
  let T := withRule E id expr
  have hdef : E.defineRule id expr = evaluate (update T.depth) none T id := by
    rw [defineRule, hfree, if_neg Bool.false_ne_true]
    dsimp only
    rw [hspec]
    rfl
  have hwired : Wired T := wired_withRule hE.wired hfree
  have hacyclic : Acyclic (Edge T) := hE.acyclic.new_target (fun f g => edge_compile) hpath
  have hrule : T.rules.find? id = some (.new expr) := by rw [find?_withRule, if_pos rfl]
  -- evaluating the rule comes to an end
  obtain ⟨rank, hrank, hdepth⟩ := exists_rank hwired hacyclic
  obtain ⟨E', hE', -⟩ := evaluate_ends none (update_endsBelow T.depth) hwired hrank
    (hrule ▸ rfl) (hdepth id)
  obtain ⟨hwired', hsame⟩ := (evaluate_moves (update_moves _) hE').wired hwired
  have hsettling : Settling (fun _ _ => False) (fun _ => False) E' := by
    have hreact := hE'
    rw [evaluate, hrule] at hreact
    obtain ⟨hexpr, hinputs, hasserts⟩ := refresh_names T.fact (.new expr)
    refine Settling.react (update_settles _)
      ((Move.keep id _ _ hrule hexpr hinputs hasserts).wired hwired) ?_
      (settling_withRule hE) hreact
    rw [SortedMap.find?_set, if_pos rfl]
  refine ⟨E', hdef.trans hE', ⟨hwired', hacyclic.mono fun f g => hsame.edge.mp, hsettling⟩,
    fun id' => ?_, fun id' => ?_, fun id' => ?_, fun id' hid' hne => ?_⟩
  · rw [hsame.rules, find?_withRule]
    split <;> rfl
  · rw [isSome_find?_of_keys hsame.keys]
    exact compile_there E id expr id'
  · rw [hsame.outputs]
    obtain ⟨-, -, hothers, hown, -⟩ := compile_same E id expr id'
    split
    · rename_i heq
      exact (hown heq).2
    · rename_i hne
      exact (hothers hne).2
  · have hfact : E'.fact id' = T.fact id' :=
      hsame.others id' (by rw [find?_withRule, if_neg hne, hid'])
    obtain ⟨hasserted, hvalue, -⟩ := compile_same E id expr id'
    rw [status_congr hfact, status, status]
    exact if_congr (by rw [← hasserted]; rfl) (congrArg some hvalue) rfl

/-- A rule is gone, and its output is retracted. -/
structure Undefined (E E' : RuleEngine Id V) (id : Id) : Prop where
  settled : Settled E'
  rules : ∀ id', (E'.rules.find? id').map Rule.expr =
    if id' = id then none else (E.rules.find? id').map Rule.expr
  keys : E'.facts.keys = E.facts.keys
  outputs : ∀ id', (E'.fact id').ruleOutput = (E.fact id').ruleOutput
  status : ∀ id', E.rules.find? id' = none → status E' id' = status E id'
  retracted : (E.rules.find? id).isSome → RuleEngine.status E' id = none

theorem undefineRule_effect (hE : Settled E) (id : Id) :
    ∃ E', E.undefineRule id = some E' ∧ Undefined E E' id := by
  rw [undefineRule]
  split
  · rename_i hnone
    refine ⟨E, rfl, hE, fun id' => ?_, rfl, fun _ => rfl, fun _ _ => rfl, fun hsome => ?_⟩
    · split
      · rename_i heq
        rw [heq, hnone]
        rfl
      · rfl
    · rw [hnone] at hsome
      cases hsome
  · rename_i rule hrule
    have hthere := (hE.wired.output id (hrule ▸ rfl)).1
    let T := (E.modifyFact id retracting).notifyRetract id
    obtain ⟨hfacts, hrules⟩ := notifyRetract_same (E.modifyFact id retracting) id
    have hfact : T.fact = (E.modifyFact id retracting).fact := fact_of_facts hfacts
    have hmove : Move E T := .retract id (hrule ▸ rfl)
    have hwired : Wired T := hmove.wired hE.wired
    have hsame : SameOthers E T := hmove.sameOthers hE.wired
    have hacyclic : Acyclic (Edge T) := hE.acyclic.mono fun f g => hsame.edge.mp
    -- the rules that follow the output are told; its own rule is left as it is
    have hsettling : Settling (fun _ id' => False ∨ id' = id) (fun rule => False ∨ rule = id) T :=
      hE.settling.change hrules fun id' hne => by
        rw [hfact]
        exact fact_modifyFact_of_ne hne _
    obtain ⟨S, hS, hself⟩ := update_ends hwired hacyclic id
    obtain ⟨hwiredS, hsameS⟩ := (update_moves _ _ _ _ hS).wired hwired
    have hsettlingS := update_settles _ _ _ _ _ _ hwired hsettling hS
    have hall := hsame.trans hsameS
    have hruleS : (S.rules.find? id).map Rule.expr = some rule.expr := by
      rw [hall.rules, hrule]
      rfl
    obtain ⟨ruleS, hfound, hexpr⟩ := Option.map_eq_some_iff.mp hruleS
    have hdelete : S.deleteRule id rule = S.deleteRule id ruleS := by
      rw [deleteRule, deleteRule, hexpr]
    obtain ⟨hrulesD, hkeysD, hfactsD⟩ := deleteRule_same hwiredS hfound
    rw [RuleEngine.depth, hrules] at hS
    refine ⟨S.deleteRule id ruleS, ?_, ⟨wired_deleteRule hwiredS hfound, ?_, ?_⟩, fun id' => ?_,
      hkeysD.trans hall.keys, fun id' => ?_, fun id' hid' => ?_, fun _ => ?_⟩
    · exact (congrArg (Option.map fun E => E.deleteRule id rule) hS).trans (congrArg some hdelete)
    · refine hacyclic.mono fun f g hfg => ?_
      exact hsameS.edge.mp (edge_deleteRule hwiredS hfound hfg)
    · refine hsettlingS.mono (fun id' => by rw [hfactsD]; rfl) (fun id' => by rw [hfactsD]; rfl) ?_
      intro id' rule' hrule'
      rw [hrulesD] at hrule'
      split at hrule'
      · cases hrule'
      · rename_i hne
        exact ⟨hrule', fun h => h.elim (fun hfalse => hfalse) fun heq => absurd heq hne⟩
    · rw [hrulesD]
      split
      · rfl
      · exact hall.rules id'
    · rw [hfactsD]
      exact hall.outputs id'
    · have hothers := hall.others id' hid'
      rw [status, status, hfactsD, ← hothers]
      rfl
    · apply status_of_retracted
      rw [hfactsD]
      show (S.fact id).asserted = false
      rw [hself, hfact, fact_modifyFact hthere, if_pos rfl]
      rfl

end Rules

end Adara.Spec.RuleEngine
