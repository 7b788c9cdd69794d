import Adara.ForStd.Runs
import Adara.Spec.RuleCalls

/-! # The sheet behind a rule engine

What an engine is for, without any evaluation: a sheet says which rules there are and what has been
asserted from outside.  The values of the facts are whatever satisfies every rule of the sheet
(`Sheet.Solution`).  An engine that has been called follows its sheet (`Agrees.call`), and what it
has asserted is the one solution (`Agrees.solution`). -/

namespace Adara.Spec.RuleEngine

open Adara.Native Adara.Native.RuleEngine Relation

variable {Id V : Type} [LinearOrder Id]

/-- The rules, the facts given from outside, the facts there are, and the facts that are or were
    the output of a rule. -/
structure Sheet (Id V : Type) where
  rules : Id → Option (RuleExpr Id V)
  given : Id → Option (Value V)
  known : Id → Bool
  claimed : Id → Bool

namespace Sheet

def empty : Sheet Id V := ⟨fun _ => none, fun _ => none, fun _ => false, fun _ => false⟩

/-- A fact is given, or taken back. -/
def give (s : Sheet Id V) (id : Id) (value : Option (Value V)) : Sheet Id V :=
  { s with given := Function.update s.given id value, known := Function.update s.known id true }

theorem give_given (s : Sheet Id V) (id : Id) (value : Option (Value V)) (id' : Id) :
    (s.give id value).given id' = if id' = id then value else s.given id' :=
  Function.update_apply ..

theorem give_known (s : Sheet Id V) (id : Id) (value : Option (Value V)) (id' : Id) :
    (s.give id value).known id' = if id' = id then true else s.known id' :=
  Function.update_apply ..

def define (s : Sheet Id V) (id : Id) (expr : RuleExpr Id V) : Sheet Id V where
  rules := Function.update s.rules id (some expr)
  given := s.given
  known id' := (expr.vars.any fun v => v.fact = id') || id' = id || s.known id'
  claimed := Function.update s.claimed id true

def undefine (s : Sheet Id V) (id : Id) : Sheet Id V :=
  { s with rules := Function.update s.rules id none }

/-- A fact is given from outside, unless it is the output of a rule. -/
def giveValue (s : Sheet Id V) (id : Id) (value : Value V) : Sheet Id V :=
  if s.claimed id then s else s.give id (some value)

/-- What a call makes of the sheet. -/
def call (s : Sheet Id V) : Call Id V → Sheet Id V
  | .defineRule id expr => s.define id expr
  | .undefineRule id => s.undefine id
  | .undefineAllRules => { s with rules := fun _ => none }
  | .assertId id => s.giveValue id (if s.known id then .void else .int 0)
  | .assertValue id value => s.giveValue id value
  | .retractId id => if s.claimed id || !s.known id then s else s.give id none
  | .retractWhere p =>
    { s with given := fun id => if p id && !s.claimed id then none else s.given id }
  | .getFactHandle id => s.give id (s.given id)
  | .assertHandle id => if (s.given id).isSome then s else s.give id (some .void)
  | .assertHandleValue id value => s.give id (some value)
  | .retractHandle id => s.give id none
  | .synchronize source =>
    (source.facts.entries.filter fun e => e.2.asserted && !e.2.ruleOutput).foldl
      (fun s e => s.giveValue e.1 e.2.value) s
  | _ => s

/-- The value a fact has, when other facts have theirs: what was given, or what its rule puts
    out. -/
def value [EngineReal V] (s : Sheet Id V) (a : Id → Option (Value V)) (id : Id) :
    Option (Value V) :=
  match s.rules id with
  | none => s.given id
  | some expr =>
    let asserts := expr.assertions.map fun f => Rule.assertionValue (a f).isSome
    let inputs := expr.inputs.map fun f => ((a f).map Value.toReal).getD (EngineReal.ofInt 0)
    if (expr.inputs.all fun f => (a f).isSome) && expr.fires asserts inputs then
      some (.real (expr.output asserts inputs))
    else none

/-- Values of all facts that satisfy every rule. -/
def Solution [EngineReal V] (s : Sheet Id V) (a : Id → Option (Value V)) : Prop :=
  ∀ id, a id = s.value a id

end Sheet

/-- An engine that is settled, with the rules of a sheet, and what the sheet gives. -/
structure Agrees [EngineReal V] (s : Sheet Id V) (E : RuleEngine Id V) : Prop where
  settled : Settled E
  rules : ∀ id, s.rules id = (E.rules.find? id).map Rule.expr
  given : ∀ id, E.rules.find? id = none → s.given id = status E id
  notGiven : ∀ id, (E.rules.find? id).isSome → s.given id = none
  known : ∀ id, s.known id = (E.facts.find? id).isSome
  claimed : ∀ id, s.claimed id = (E.fact id).ruleOutput

/-! ### What is asserted -/

section Solution

variable [EngineReal V] {s : Sheet Id V} {E : RuleEngine Id V}

/-- What a rule keeps are the values of its facts. -/
theorem kept_values {rule : Rule Id V} (hnames : rule.inputs.map Prod.fst = rule.expr.inputs ∧
      rule.asserts.map Prod.fst = rule.expr.assertions)
    (h : Cached E.fact (fun _ => False) rule) :
    (rule.asserts.map Prod.snd =
        rule.expr.assertions.map fun f => Rule.assertionValue (status E f).isSome) ∧
      rule.valid = (rule.expr.inputs.all fun f => (status E f).isSome) ∧
      (rule.valid = true → rule.inputs.map Prod.snd =
        rule.expr.inputs.map fun f =>
          ((status E f).map Value.toReal).getD (EngineReal.ofInt 0)) := by
  have hasserted : ∀ f, (status E f).isSome = (E.fact f).asserted := by
    intro f
    rw [status]
    split
    · rename_i h
      exact h.symm
    · rename_i h
      exact (Bool.not_eq_true _ ▸ h).symm
  refine ⟨?_, ?_, fun hvalid => ?_⟩
  · rw [← hnames.2, List.map_map]
    apply List.map_congr_left
    intro e he
    rw [Function.comp, hasserted]
    exact h.asserts e he fun hfalse => hfalse
  · rw [← hnames.1]
    cases hvalid : rule.valid with
    | true =>
      refine (List.all_eq_true.mpr fun id hid => ?_).symm
      rw [hasserted]
      exact h.valid hvalid id hid fun hfalse => hfalse
    | false =>
      obtain ⟨id, hid, hwhy⟩ := h.invalid hvalid
      refine (List.all_eq_false.mpr ⟨id, hid, ?_⟩).symm
      rw [hasserted, hwhy.resolve_left fun hfalse => hfalse]
      exact Bool.false_ne_true
  · rw [← hnames.1, List.map_map]
    apply List.map_congr_left
    intro e he
    have hin := h.valid hvalid e.1 (List.mem_map_of_mem he) fun hfalse => hfalse
    rw [Function.comp, status_of_asserted hin]
    exact h.inputs e he (fun hfalse => hfalse) hin

/-- What an engine has asserted satisfies every rule of its sheet. -/
theorem Agrees.solution (h : Agrees s E) : s.Solution (status E) := by
  intro id
  rw [Sheet.value, h.rules]
  cases hrule : E.rules.find? id with
  | none => exact (h.given id hrule).symm
  | some rule =>
    obtain ⟨hfires, hreal⟩ := h.settled.settling.follows id rule hrule fun hfalse => hfalse
    obtain ⟨hasserts, hvalid, hinputs⟩ := kept_values (h.settled.wired.names id rule hrule)
      (h.settled.settling.cached id rule hrule)
    simp only [Option.map_some]
    rw [← hvalid, ← hasserts]
    cases hv : rule.valid with
    | false =>
      rw [hv, Bool.false_and] at hfires
      rw [status_of_retracted hfires, Bool.false_and, if_neg Bool.false_ne_true]
    | true =>
      rw [← hinputs hv, Bool.true_and]
      rw [hv, Bool.true_and] at hfires
      cases hf : rule.fires with
      | false =>
        rw [hf] at hfires
        rw [status_of_retracted hfires, if_neg]
        exact Bool.not_eq_true _ ▸ hf
      | true =>
        rw [hf] at hfires
        rw [status_of_asserted hfires, hreal hfires]
        exact (if_pos hf).symm

/-- Two solutions of a sheet whose rules do not depend on themselves are the same. -/
theorem Agrees.unique (h : Agrees s E) {a b : Id → Option (Value V)} (ha : s.Solution a)
    (hb : s.Solution b) : a = b := by
  funext id
  -- a fact comes after all that its rule mentions
  induction id using h.settled.acyclic.induction fun _ _ => mem_rules_of_edge h.settled.wired with
  | hstep id ih =>
    rw [ha id, hb id, Sheet.value, Sheet.value, h.rules]
    cases hrule : E.rules.find? id with
    | none => rfl
    | some rule =>
      have hmentioned : ∀ f ∈ rule.expr.vars.map Variable.fact, a f = b f := fun f hf =>
        ih f ((h.settled.wired.deps f id).mpr ⟨rule, hrule, hf⟩)
      have hinputs : ∀ f ∈ rule.expr.inputs, a f = b f := fun f hf =>
        hmentioned f (mem_vars_of_inputs hf)
      have hasserts : ∀ f ∈ rule.expr.assertions, a f = b f := fun f hf =>
        hmentioned f (mem_vars_of_assertions hf)
      have hall : (rule.expr.inputs.all fun f => (a f).isSome) =
          rule.expr.inputs.all fun f => (b f).isSome := by
        rw [Bool.eq_iff_iff, List.all_eq_true, List.all_eq_true]
        exact forall₂_congr fun f hf => by rw [hinputs f hf]
      have hread : (rule.expr.inputs.map fun f =>
            ((a f).map Value.toReal).getD (EngineReal.ofInt 0)) =
          rule.expr.inputs.map fun f => ((b f).map Value.toReal).getD (EngineReal.ofInt 0) :=
        List.map_congr_left fun f hf => by rw [hinputs f hf]
      have htested : (rule.expr.assertions.map fun f => Rule.assertionValue (V := V) (a f).isSome) =
          rule.expr.assertions.map fun f => Rule.assertionValue (b f).isSome :=
        List.map_congr_left fun f hf => by rw [hasserts f hf]
      simp only [Option.map_some, hall, hread, htested]

end Solution

/-! ### Calls -/

section Calls

variable [EngineReal V] {s : Sheet Id V} {E E' T : RuleEngine Id V} {id : Id}

omit [EngineReal V] in
/-- A fact that no rule has ever put out is the output of no rule. -/
theorem rules_none (hE : Wired E) (h : (E.fact id).ruleOutput = false) :
    E.rules.find? id = none := by
  by_contra hne
  obtain ⟨-, houtput, -⟩ := hE.output id (Option.ne_none_iff_isSome.mp hne)
  rw [houtput] at h
  cases h

/-- Listeners and batches do not matter. -/
theorem Agrees.same (h : Agrees s E) (hfacts : T.facts = E.facts) (hrules : T.rules = E.rules) :
    Agrees s T := by
  have hfact := fact_of_facts hfacts
  have hedge : Edge T = Edge E := by
    funext f g
    rw [Edge, Edge, hfact]
  have hstatus : status T = status E := funext fun id => status_congr (congrFun hfact id)
  refine ⟨⟨⟨?_, ?_, ?_, ?_, ?_, ?_⟩, hedge ▸ h.settled.acyclic, ?_⟩, ?_, ?_, ?_, ?_, ?_⟩
  · rw [hfact, hrules]
    exact h.settled.wired.deps
  · rw [hfact]
    exact h.settled.wired.nodup
  · rw [hfacts, hrules]
    exact h.settled.wired.mentioned
  · rw [hfact, hfacts, hrules]
    exact h.settled.wired.output
  · rw [hrules]
    exact h.settled.wired.names
  · rw [hfact]
    exact h.settled.wired.fresh
  · exact h.settled.settling.same hfacts hrules
  · rw [hrules]
    exact h.rules
  · rw [hrules, hstatus]
    exact h.given
  · rw [hrules]
    exact h.notGiven
  · rw [hfacts]
    exact h.known
  · rw [hfact]
    exact h.claimed

/-- A fact of no rule was given a value, or looked up. -/
theorem Agrees.effect {value : Option (Value V)} (h : Agrees s E) (heffect : Effect E E' id value)
    (hvalue : (E.rules.find? id).isSome → value = none) : Agrees (s.give id value) E' := by
  have hnone : ∀ id', E'.rules.find? id' = none ↔ E.rules.find? id' = none := by
    intro id'
    rw [← Option.map_eq_none_iff (f := Rule.expr), heffect.rules, Option.map_eq_none_iff]
  refine ⟨heffect.settled, fun id' => ?_, fun id' hid' => ?_, fun id' hid' => ?_, fun id' => ?_,
    fun id' => ?_⟩
  · exact (h.rules id').trans (heffect.rules id').symm
  · rw [hnone] at hid'
    rw [heffect.status id' hid', Sheet.give_given, h.given id' hid']
  · rw [← Option.ne_none_iff_isSome, Ne, hnone, ← Ne, Option.ne_none_iff_isSome] at hid'
    rw [Sheet.give_given]
    split
    · rename_i heq
      exact hvalue (heq ▸ hid')
    · exact h.notGiven id' hid'
  · rw [Bool.eq_iff_iff, heffect.there, Sheet.give_known, ← h.known]
    split
    · rename_i heq
      exact ⟨fun _ => .inl heq, fun _ => rfl⟩
    · rename_i hne
      exact ⟨.inr, fun hor => hor.resolve_left hne⟩
  · exact (h.claimed id').trans (heffect.outputs id').symm

/-- A fact that is there, with the value it has. -/
theorem Agrees.give_status (h : Agrees s E) (hthere : (E.facts.find? id).isSome)
    (hrule : E.rules.find? id = none) : Agrees (s.give id (status E id)) E :=
  h.effect (.refl h.settled hthere) fun hsome => by rw [hrule] at hsome; cases hsome

variable [DecidableEq V]

theorem Agrees.assertFact {E₀ : RuleEngine Id V} (h : Agrees s E) (hchanged : Changed E E₀ id)
    (hrule : E.rules.find? id = none) (value : Value V) :
    ∃ E', assertFact (update E.depth) E₀ id value = some E' ∧
      Agrees (s.give id (some value)) E' := by
  obtain ⟨E', hE', heffect⟩ := assertFact_effect h.settled hchanged hrule value
  refine ⟨E', hE', h.effect heffect fun hsome => ?_⟩
  rw [hrule] at hsome
  cases hsome

theorem Agrees.retractFact (h : Agrees s E) (hthere : (E.facts.find? id).isSome)
    (hrule : E.rules.find? id = none) :
    ∃ E', retractFact (update E.depth) E id = some E' ∧ Agrees (s.give id none) E' := by
  obtain ⟨E', hE', heffect⟩ := retractFact_effect h.settled hthere hrule
  exact ⟨E', hE', h.effect heffect fun _ => rfl⟩

/-- A fact is asserted by identifier; where it is new, perhaps with another value. -/
theorem Agrees.assertInto (h : Agrees s E) (id : Id) (value new : Value V) (fact₀ : Fact Id V)
    (hdeps : fact₀.ruleDeps = []) (houtput : fact₀.ruleOutput = false) :
    ∃ E', (match E.facts.find? id with
      | some fact =>
        if fact.ruleOutput then some E
        else if !fact.asserted || decide (fact.value ≠ value) then
          RuleEngine.assertFact (update E.depth) E id value
        else some E
      | none =>
        RuleEngine.assertFact (update E.depth) { E with facts := E.facts.set id fact₀ } id new) =
        some E' ∧ Agrees (s.giveValue id (if s.known id then value else new)) E' := by
  have hclaimed := h.claimed id
  have hknown := h.known id
  cases hfound : E.facts.find? id with
  | some fact =>
    rw [fact_of_find? hfound] at hclaimed
    rw [hfound] at hknown
    rw [Sheet.giveValue, hclaimed, hknown, Option.isSome_some, if_pos rfl]
    dsimp only
    cases hout : fact.ruleOutput with
    | true => exact ⟨E, rfl, h⟩
    | false =>
      have hthere : (E.facts.find? id).isSome := hfound ▸ rfl
      have hrule := rules_none h.settled.wired ((fact_of_find? hfound) ▸ hout)
      rw [if_neg Bool.false_ne_true, if_neg Bool.false_ne_true]
      split
      · exact h.assertFact (.refl hthere) hrule value
      · -- it is asserted with this value
        rename_i hsame
        rw [Bool.or_eq_true, not_or, Bool.not_eq_true', Bool.not_eq_false, decide_eq_true_eq,
          not_not] at hsame
        obtain ⟨hasserted, hvalue⟩ := hsame
        have hstatus : status E id = some value := by
          rw [status, fact_of_find? hfound, hasserted, hvalue]
          rfl
        exact ⟨E, rfl, hstatus ▸ h.give_status hthere hrule⟩
  | none =>
    have hfact : E.fact id = .new false true := by
      rw [RuleEngine.fact, hfound]
      rfl
    rw [hfact] at hclaimed
    rw [hfound] at hknown
    have hrule := rules_none h.settled.wired (by rw [hfact]; rfl)
    rw [Sheet.giveValue, hclaimed, hknown]
    exact h.assertFact (.new hfound hdeps houtput) hrule new

theorem Agrees.assertId (h : Agrees s E) (id : Id) :
    ∃ E', E.assertId id = some E' ∧ Agrees (s.call (.assertId id)) E' :=
  h.assertInto id .void (.int 0) (.new true false) rfl rfl

theorem Agrees.assertValue (h : Agrees s E) (id : Id) (value : Value V) :
    ∃ E', E.assertValue id value = some E' ∧ Agrees (s.giveValue id value) E' := by
  obtain ⟨E', hE', hagrees⟩ :=
    h.assertInto id value value { (.new true false : Fact Id V) with value } rfl rfl
  rw [ite_self] at hagrees
  exact ⟨E', hE', hagrees⟩

theorem Agrees.retractId (h : Agrees s E) (id : Id) :
    ∃ E', E.retractId id = some E' ∧ Agrees (s.call (.retractId id)) E' := by
  rw [RuleEngine.retractId, Sheet.call, h.claimed, h.known]
  cases hout : (E.fact id).ruleOutput with
  | true =>
    rw [Bool.true_or, if_pos rfl, Bool.not_true, Bool.and_false]
    exact ⟨E, rfl, h⟩
  | false =>
    have hrule := rules_none h.settled.wired hout
    rw [Bool.false_or, Bool.not_false, Bool.and_true]
    cases hthere : (E.facts.find? id).isSome with
    | true =>
      rw [Bool.not_true, if_neg Bool.false_ne_true]
      split
      · exact h.retractFact hthere hrule
      · rename_i hretracted
        rw [← status_of_retracted (Bool.not_eq_true _ ▸ hretracted)]
        exact ⟨E, rfl, h.give_status hthere hrule⟩
    | false =>
      have hfact : E.fact id = .new false true := by
        rw [RuleEngine.fact, Option.isSome_eq_false_iff.mp hthere |> Option.isNone_iff_eq_none.mp]
        rfl
      rw [Bool.not_false, if_pos rfl, hfact]
      exact ⟨E, rfl, h⟩

end Calls

end Adara.Spec.RuleEngine
