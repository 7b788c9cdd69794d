import Adara.Spec.RuleMoves

/-! # Telling rules of a change

While a change goes through the engine, some rules have not been told of some facts.  What a rule
keeps is right for all other facts (`Cached`), and its output follows from what it keeps
(`Follows`).  Telling a rule of a fact takes the fact off what it has not been told
(`Settling.evaluate`), so that in the end every rule is settled: what it puts out follows from the
facts as they are (`update_settling`). -/

namespace Adara.Spec.RuleEngine

open Adara.Native Adara.Native.RuleEngine

variable {Id V : Type} [LinearOrder Id] [EngineReal V]

/-! ### What a rule keeps -/

/-- What a rule keeps is right, but for some facts it has not been told of. -/
structure Cached (facts : Id → Fact Id V) (untold : Id → Prop) (rule : Rule Id V) : Prop where
  asserts : ∀ e ∈ rule.asserts, ¬ untold e.1 → e.2 = Rule.assertionValue (facts e.1).asserted
  inputs : ∀ e ∈ rule.inputs, ¬ untold e.1 → (facts e.1).asserted = true →
    e.2 = (facts e.1).value.toReal
  valid : rule.valid = true → ∀ id ∈ rule.inputs.map Prod.fst, ¬ untold id →
    (facts id).asserted = true
  invalid : rule.valid = false → ∃ id ∈ rule.inputs.map Prod.fst,
    untold id ∨ (facts id).asserted = false

section Caches

variable {facts facts' : Id → Fact Id V} {untold untold' : Id → Prop} {rule : Rule Id V}
  {changed : Id}

omit [LinearOrder Id] in
/-- Only the facts of the rule matter. -/
theorem Cached.weaken (h : Cached facts untold rule)
    (hinputs : ∀ id ∈ rule.inputs.map Prod.fst, untold id → untold' id)
    (hasserts : ∀ id ∈ rule.asserts.map Prod.fst, untold id → untold' id) :
    Cached facts untold' rule where
  asserts e he hnot := h.asserts e he fun huntold =>
    hnot (hasserts e.1 (List.mem_map_of_mem he) huntold)
  inputs e he hnot := h.inputs e he fun huntold =>
    hnot (hinputs e.1 (List.mem_map_of_mem he) huntold)
  valid hvalid id hid hnot := h.valid hvalid id hid fun huntold => hnot (hinputs id hid huntold)
  invalid hinvalid := by
    obtain ⟨id, hid, hwhy⟩ := h.invalid hinvalid
    exact ⟨id, hid, hwhy.imp_left (hinputs id hid)⟩

omit [LinearOrder Id] in
/-- Of the facts only whether they are asserted, and their values, matter. -/
theorem Cached.congr (h : Cached facts untold rule)
    (hasserted : ∀ id, (facts' id).asserted = (facts id).asserted)
    (hvalue : ∀ id, (facts' id).value = (facts id).value) : Cached facts' untold rule where
  asserts e he hnot := by
    rw [hasserted]
    exact h.asserts e he hnot
  inputs e he hnot := by
    rw [hasserted, hvalue]
    exact h.inputs e he hnot
  valid hvalid id hid hnot := by
    rw [hasserted]
    exact h.valid hvalid id hid hnot
  invalid hinvalid := by
    obtain ⟨id, hid, hwhy⟩ := h.invalid hinvalid
    exact ⟨id, hid, hwhy.imp_right (hasserted id).trans⟩

omit [LinearOrder Id] in
/-- A rule has not been told of a fact that changes. -/
theorem Cached.change (h : Cached facts untold rule)
    (hfacts : ∀ id, id ≠ changed → facts' id = facts id) :
    Cached facts' (fun id => untold id ∨ id = changed) rule where
  asserts e he hnot := by
    rw [not_or] at hnot
    rw [hfacts e.1 hnot.2]
    exact h.asserts e he hnot.1
  inputs e he hnot := by
    rw [not_or] at hnot
    rw [hfacts e.1 hnot.2]
    exact h.inputs e he hnot.1
  valid hvalid id hid hnot := by
    rw [not_or] at hnot
    rw [hfacts id hnot.2]
    exact h.valid hvalid id hid hnot.1
  invalid hinvalid := by
    obtain ⟨id, hid, hwhy⟩ := h.invalid hinvalid
    by_cases hchanged : id = changed
    · exact ⟨id, hid, .inl (.inr hchanged)⟩
    · rw [← hfacts id hchanged] at hwhy
      exact ⟨id, hid, hwhy.imp_left .inl⟩

/-- Telling a rule of a fact. -/
theorem Cached.tell (h : Cached facts (fun id => untold id ∨ id = changed) rule) :
    Cached facts untold (rule.tell facts changed) := by
  obtain ⟨-, hnames, -⟩ := tell_names facts changed rule
  constructor
  · intro e he hnot
    obtain ⟨e₀, he₀, rfl⟩ := List.mem_map.mp he
    by_cases hchanged : e₀.1 = changed
    · rw [if_pos hchanged, hchanged]
    · rw [if_neg hchanged] at hnot ⊢
      exact h.asserts e₀ he₀ (not_or.mpr ⟨hnot, hchanged⟩)
  · intro e he hnot hasserted
    simp only [Rule.tell] at he
    split at he
    · obtain ⟨e₀, he₀, rfl⟩ := List.mem_map.mp he
      by_cases hchanged : e₀.1 = changed
      · rw [if_pos hchanged, hchanged]
      · rw [if_neg hchanged] at hnot hasserted ⊢
        exact h.inputs e₀ he₀ (not_or.mpr ⟨hnot, hchanged⟩) hasserted
    · rename_i hretracted
      refine h.inputs e he (not_or.mpr ⟨hnot, ?_⟩) hasserted
      rintro rfl
      exact hretracted hasserted
  · intro hvalid id hid hnot
    rw [hnames] at hid
    simp only [Rule.tell] at hvalid
    by_cases hasserted : (facts changed).asserted = true
    · rw [if_pos hasserted, Bool.or_eq_true] at hvalid
      rcases hvalid with hvalid | hall
      · by_cases hchanged : id = changed
        · rw [hchanged]
          exact hasserted
        · exact h.valid hvalid id hid (not_or.mpr ⟨hnot, hchanged⟩)
      · obtain ⟨e, he, rfl⟩ := List.mem_map.mp hid
        exact List.all_eq_true.mp hall e he
    · rw [if_neg hasserted, Bool.and_eq_true, Bool.not_eq_true'] at hvalid
      refine h.valid hvalid.1 id hid (not_or.mpr ⟨hnot, ?_⟩)
      rintro rfl
      obtain ⟨e, he, hsame⟩ := List.mem_map.mp hid
      have hnone := List.any_eq_false.mp hvalid.2 e he
      exact hnone (decide_eq_true hsame)
  · intro hinvalid
    rw [hnames]
    simp only [Rule.tell] at hinvalid
    by_cases hasserted : (facts changed).asserted = true
    · rw [if_pos hasserted, Bool.or_eq_false_iff] at hinvalid
      obtain ⟨e, he, hretracted⟩ := List.all_eq_false.mp hinvalid.2
      exact ⟨e.1, List.mem_map_of_mem he, .inr (Bool.not_eq_true _ ▸ hretracted)⟩
    · have hretracted := Bool.not_eq_true _ ▸ hasserted
      rw [if_neg hasserted, Bool.and_eq_false_iff, Bool.not_eq_false'] at hinvalid
      rcases hinvalid with hinvalid | hany
      · obtain ⟨id, hid, hwhy⟩ := h.invalid hinvalid
        rcases hwhy with (huntold | rfl) | hwhy
        · exact ⟨id, hid, .inl huntold⟩
        · exact ⟨id, hid, .inr hretracted⟩
        · exact ⟨id, hid, .inr hwhy⟩
      · obtain ⟨e, he, hsame⟩ := List.any_eq_true.mp hany
        exact ⟨e.1, List.mem_map_of_mem he, .inr (of_decide_eq_true hsame ▸ hretracted)⟩

omit [LinearOrder Id] in
/-- Evaluating a rule without a fact brings all it keeps up to date. -/
theorem cached_refresh (facts : Id → Fact Id V) (rule : Rule Id V) :
    Cached facts (fun _ => False) (rule.refresh facts) := by
  obtain ⟨-, hnames, -⟩ := refresh_names facts rule
  constructor
  · intro e he _
    obtain ⟨e, he, rfl⟩ := List.mem_map.mp he
    rfl
  · intro e he _ hasserted
    obtain ⟨e, he, rfl⟩ := List.mem_map.mp he
    split at hasserted
    · rename_i h
      rw [if_pos h]
    · rename_i h
      exact absurd hasserted h
  · intro hvalid id hid _
    rw [hnames] at hid
    obtain ⟨e, he, rfl⟩ := List.mem_map.mp hid
    exact List.all_eq_true.mp hvalid e he
  · intro hinvalid
    rw [hnames]
    obtain ⟨e, he, hretracted⟩ := List.all_eq_false.mp hinvalid
    exact ⟨e.1, List.mem_map_of_mem he, .inr (Bool.not_eq_true _ ▸ hretracted)⟩

end Caches

omit [LinearOrder Id] [EngineReal V] in
theorem mem_vars_of_inputs {expr : RuleExpr Id V} {id : Id} (h : id ∈ expr.inputs) :
    id ∈ expr.vars.map Variable.fact := by
  obtain ⟨v, hv, hid⟩ := List.mem_filterMap.mp h
  refine List.mem_map.mpr ⟨v, hv, ?_⟩
  cases v with
  | assertion fact => cases hid
  | input fact => exact Option.some.inj hid

omit [LinearOrder Id] [EngineReal V] in
theorem mem_vars_of_assertions {expr : RuleExpr Id V} {id : Id} (h : id ∈ expr.assertions) :
    id ∈ expr.vars.map Variable.fact := by
  obtain ⟨v, hv, hid⟩ := List.mem_filterMap.mp h
  refine List.mem_map.mpr ⟨v, hv, ?_⟩
  cases v with
  | assertion fact => exact Option.some.inj hid
  | input fact => cases hid

/-! ### Settling -/

/-- The output of a rule follows from what it keeps. -/
structure Follows (out : Fact Id V) (rule : Rule Id V) : Prop where
  asserted : out.asserted = (rule.valid && rule.fires)
  value : out.asserted = true → out.value = .real rule.ruleValue

/-- Some rules have not been told of some facts, and the outputs of some rules may be wrong. -/
structure Settling (untold : Id → Id → Prop) (exempt : Id → Prop) (E : RuleEngine Id V) :
    Prop where
  cached : ∀ id rule, E.rules.find? id = some rule → Cached E.fact (untold id) rule
  follows : ∀ id rule, E.rules.find? id = some rule → ¬ exempt id → Follows (E.fact id) rule

section Settle

variable {E E' : RuleEngine Id V} {untold untold' : Id → Id → Prop}
  {exempt : Id → Prop} {id changed : Id} {rule : Rule Id V}
  {upd : RuleEngine Id V → Id → Option (RuleEngine Id V)}

/-- What follows the dependencies of a fact tells all rules of it. -/
def Settles (upd : RuleEngine Id V → Id → Option (RuleEngine Id V)) : Prop :=
  ∀ E changed E' (untold : Id → Id → Prop) exempt, Wired E →
    Settling (fun rule id => untold rule id ∨ id = changed) exempt E →
    upd E changed = some E' → Settling untold exempt E'

/-- The output of a rule changes. -/
theorem Settling.changeFact {f : Fact Id V → Fact Id V} (hE : Wired E)
    (hrule : E.rules.find? id = some rule)
    (h : Settling untold (fun rule => exempt rule ∨ rule = id) E)
    (hfollows : Follows (f (E.fact id)) rule) :
    Settling (fun rule id' => untold rule id' ∨ id' = id) exempt (E.modifyFact id f) := by
  have hfact := fact_modifyFact (hE.output id (Option.isSome_iff_exists.mpr ⟨rule, hrule⟩)).1 f
  constructor
  · intro id' rule' hrule'
    exact (h.cached id' rule' hrule').change fun _ hne => fact_modifyFact_of_ne hne f
  · intro id' rule' hrule' hnot
    rw [hfact]
    split
    · rename_i heq
      rw [heq] at hrule'
      cases hrule.symm.trans hrule'
      exact hfollows
    · rename_i hne
      exact h.follows id' rule' hrule' (not_or.mpr ⟨hnot, hne⟩)

theorem Settling.same {T : RuleEngine Id V} (h : Settling untold exempt E)
    (hfacts : T.facts = E.facts) (hrules : T.rules = E.rules) : Settling untold exempt T where
  cached := by
    rw [hrules, fact_of_facts hfacts]
    exact h.cached
  follows := by
    rw [hrules, fact_of_facts hfacts]
    exact h.follows

/-- With some of the rules, and the same values of facts. -/
theorem Settling.mono {T : RuleEngine Id V} {exempt' : Id → Prop} (h : Settling untold exempt E)
    (hasserted : ∀ id, (T.fact id).asserted = (E.fact id).asserted)
    (hvalue : ∀ id, (T.fact id).value = (E.fact id).value)
    (hrules : ∀ id rule, T.rules.find? id = some rule →
      E.rules.find? id = some rule ∧ (exempt id → exempt' id)) : Settling untold exempt' T where
  cached id rule hrule := (h.cached id rule (hrules id rule hrule).1).congr hasserted hvalue
  follows id rule hrule hnot := by
    obtain ⟨hold, hexempt⟩ := hrules id rule hrule
    obtain ⟨hfires, hreal⟩ := h.follows id rule hold fun hid => hnot (hexempt hid)
    refine ⟨(hasserted id).trans hfires, fun hT => ?_⟩
    rw [hasserted] at hT
    exact (hvalue id).trans (hreal hT)

/-- One fact changes, of which no rule has been told. -/
theorem Settling.change {T : RuleEngine Id V} (h : Settling untold exempt E)
    (hrules : T.rules = E.rules) (hfacts : ∀ id', id' ≠ id → T.fact id' = E.fact id') :
    Settling (fun rule id' => untold rule id' ∨ id' = id) (fun rule => exempt rule ∨ rule = id)
      T where
  cached id' rule hrule := (h.cached id' rule (hrules ▸ hrule)).change hfacts
  follows id' rule hrule hnot := by
    rw [not_or] at hnot
    rw [hfacts id' hnot.2]
    exact h.follows id' rule (hrules ▸ hrule) hnot.1

variable [DecidableEq V]

/-- The output of a rule is made to follow. -/
theorem Settling.react (hupd : Settles upd) (hE : Wired E)
    (hrule : E.rules.find? id = some rule)
    (h : Settling untold (fun rule => exempt rule ∨ rule = id) E)
    (hreact : react upd E id rule = some E') : Settling untold exempt E' := by
  have hsome : (E.rules.find? id).isSome := Option.isSome_iff_exists.mpr ⟨rule, hrule⟩
  have hkept : Follows (E.fact id) rule → Settling untold exempt E := by
    refine fun hfollows => ⟨h.cached, fun id' rule' hrule' hnot => ?_⟩
    by_cases heq : id' = id
    · rw [heq] at hrule' ⊢
      cases hrule.symm.trans hrule'
      exact hfollows
    · exact h.follows id' rule' hrule' (not_or.mpr ⟨hnot, heq⟩)
  rw [RuleEngine.react] at hreact
  split at hreact
  · rename_i hfires
    split at hreact
    · -- the output is asserted with a new value
      have hchange : Settling (fun rule id' => untold rule id' ∨ id' = id) exempt
          (E.modifyFact id (asserting (.real rule.ruleValue))) :=
        h.changeFact hE hrule ⟨hfires.symm, fun _ => rfl⟩
      obtain ⟨hfacts, hrules⟩ :=
        notifyAssert_same (E.modifyFact id (asserting (.real rule.ruleValue))) id
      exact hupd _ _ _ untold exempt ((Move.assert id _ hsome).wired hE)
        (hchange.same hfacts hrules) hreact
    · -- it is asserted already, with the same value
      rename_i hsame
      cases hreact
      apply hkept
      obtain ⟨-, -, -, hreal⟩ := hE.output id hsome
      rw [Bool.and_eq_true, not_and_or] at hsame
      have hasserted : (E.fact id).asserted = true := by
        rcases hsame with hsame | hsame
        · simp only [Bool.or_eq_true, Bool.not_eq_true', not_or, Bool.not_eq_false] at hsame
          exact hsame.1
        · simp only [Bool.or_eq_true, Bool.not_eq_true', not_or, Bool.not_eq_false] at hsame
          exact hsame.1
      obtain ⟨v, hv⟩ := hreal hasserted
      refine ⟨hasserted.trans hfires.symm, fun _ => ?_⟩
      simp only [hasserted, Bool.not_true, Bool.false_or, decide_eq_true_eq, not_not, hv,
        Value.realValue] at hsame
      rcases hsame with hsame | hsame
      · rw [hv, hsame]
      · rw [hv, hsame]
  · rename_i hfires
    have hfalse : (rule.valid && rule.fires) = false := Bool.not_eq_true _ ▸ hfires
    split at hreact
    · have hchange : Settling (fun rule id' => untold rule id' ∨ id' = id) exempt
          (E.modifyFact id retracting) :=
        h.changeFact hE hrule ⟨hfalse.symm, fun hasserted => by cases hasserted⟩
      obtain ⟨hfacts, hrules⟩ := notifyRetract_same (E.modifyFact id retracting) id
      exact hupd _ _ _ untold exempt ((Move.retract id hsome).wired hE)
        (hchange.same hfacts hrules) hreact
    · rename_i hretracted
      cases hreact
      apply hkept
      refine ⟨?_, fun hasserted => absurd hasserted hretracted⟩
      rw [hfalse]
      exact Bool.not_eq_true _ ▸ hretracted

/-- Telling a rule of a fact, and making its output follow. -/
theorem Settling.evaluate {ids : List Id} (hupd : Settles upd) (hmoves : ByMoves upd) (hE : Wired E)
    (h : Settling (fun rule id' => untold rule id' ∨ id' = changed ∧ rule ∈ id :: ids) exempt E)
    (heval : evaluate upd (some changed) E id = some E') :
    Wired E' ∧
      Settling (fun rule id' => untold rule id' ∨ id' = changed ∧ rule ∈ ids) exempt E' := by
  have hwired := ((evaluate_moves hmoves heval).wired hE).1
  refine ⟨hwired, ?_⟩
  rw [RuleEngine.evaluate] at heval
  split at heval
  · cases heval
  · rename_i rule hrule
    obtain ⟨hexpr, hinputs, hasserts⟩ := tell_names E.fact changed rule
    have hkeep : Wired { E with rules := E.rules.set id (rule.tell E.fact changed) } :=
      (Move.keep id rule _ hrule hexpr hinputs hasserts).wired hE
    have hfound : (E.rules.set id (rule.tell E.fact changed)).find? id =
        some (rule.tell E.fact changed) := by rw [SortedMap.find?_set, if_pos rfl]
    refine Settling.react hupd hkeep hfound ⟨?_, ?_⟩ heval
    · intro id' rule' hrule'
      rw [SortedMap.find?_set] at hrule'
      split at hrule'
      · rename_i heq
        rw [heq]
        cases hrule'
        have htold : Cached E.fact (untold id) (rule.tell E.fact changed) := by
          apply Cached.tell
          exact (h.cached id rule hrule).weaken (fun _ _ => Or.imp_right And.left)
            (fun _ _ => Or.imp_right And.left)
        exact htold.weaken (fun _ _ => .inl) (fun _ _ => .inl)
      · rename_i hne
        have hother : ∀ id'', (untold id' id'' ∨ id'' = changed ∧ id' ∈ id :: ids) →
            (untold id' id'' ∨ id'' = changed ∧ id' ∈ ids) := by
          intro id''
          exact Or.imp_right fun huntold =>
            ⟨huntold.1, (List.mem_cons.mp huntold.2).resolve_left hne⟩
        exact (h.cached id' rule' hrule').weaken (fun id'' _ => hother id'')
          (fun id'' _ => hother id'')
    · intro id' rule' hrule' hnot
      rw [not_or] at hnot
      rw [SortedMap.find?_set, if_neg hnot.2] at hrule'
      exact h.follows id' rule' hrule' hnot.1

theorem Settling.evaluateAll {ids : List Id} (hupd : Settles upd) (hmoves : ByMoves upd)
    (hE : Wired E)
    (h : Settling (fun rule id' => untold rule id' ∨ id' = changed ∧ rule ∈ ids) exempt E)
    (heval : evaluateAll upd changed E ids = some E') : Settling untold exempt E' := by
  induction ids generalizing E with
  | nil =>
    cases heval
    refine ⟨fun id rule hrule => ?_, h.follows⟩
    have hnone : ∀ id', (untold id id' ∨ id' = changed ∧ id ∈ []) → untold id id' :=
      fun id' => Or.rec (fun huntold => huntold) fun huntold => absurd huntold.2 List.not_mem_nil
    exact (h.cached id rule hrule).weaken (fun id' _ => hnone id') (fun id' _ => hnone id')
  | cons id ids ih =>
    obtain ⟨T, hfirst, hrest⟩ := Option.bind_eq_some_iff.mp heval
    obtain ⟨hT, hsettling⟩ := h.evaluate hupd hmoves hE hfirst
    exact ih hT hsettling hrest

/-- Following the dependencies of a fact tells every rule of it that mentions it. -/
theorem update_settles (depth : Nat) : Settles (update depth : RuleEngine Id V → _) := by
  induction depth with
  | zero =>
    intro E changed E' untold exempt hE h hupdate
    cases hupdate
  | succ depth ih =>
    intro E changed E' untold exempt hE h hupdate
    refine Settling.evaluateAll ih (update_moves depth) hE ⟨fun id rule hrule => ?_, h.follows⟩
      hupdate
    -- a rule that does not depend on the fact does not mention it
    have hmentioned : ∀ id', id' ∈ rule.expr.vars.map Variable.fact →
        (untold id id' ∨ id' = changed) →
          untold id id' ∨ id' = changed ∧ id ∈ (E.fact changed).ruleDeps := by
      intro id' hid'
      refine Or.imp_right fun heq => ⟨heq, ?_⟩
      rw [hE.deps]
      exact ⟨rule, hrule, heq ▸ hid'⟩
    obtain ⟨hinputs, hasserts⟩ := hE.names id rule hrule
    refine (h.cached id rule hrule).weaken (fun id' hid' => hmentioned id' ?_)
      (fun id' hid' => hmentioned id' ?_)
    · rw [hinputs] at hid'
      exact mem_vars_of_inputs hid'
    · rw [hasserts] at hid'
      exact mem_vars_of_assertions hid'

end Settle

end Adara.Spec.RuleEngine
