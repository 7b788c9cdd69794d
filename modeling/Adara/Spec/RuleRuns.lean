import Adara.Spec.RuleSheet

/-! # Runs of a rule engine

Whatever calls an engine has had, it follows its sheet (`agrees_of_run`): what it has asserted is
the one way to satisfy all of its rules, although it evaluates only rules that a change can reach.
A handle must not be used for a fact that has become the output of a rule (`HandleOk`); the engine
does not check this. -/

namespace Adara.Spec.RuleEngine

open Adara.Native Adara.Native.RuleEngine Relation

variable {Id V : Type} [LinearOrder Id]

section Calls

variable [EngineReal V] [DecidableEq V] {s : Sheet Id V} {E : RuleEngine Id V} {id : Id}

omit [DecidableEq V] in
/-- What one turn of a loop keeps, the loop keeps. -/
theorem foldlM_agrees {α : Type} {f : RuleEngine Id V → α → Option (RuleEngine Id V)}
    {g : Sheet Id V → α → Sheet Id V}
    (hstep : ∀ s E a, Agrees s E → ∃ E', f E a = some E' ∧ Agrees (g s a) E') (l : List α)
    (h : Agrees s E) : ∃ E', l.foldlM f E = some E' ∧ Agrees (l.foldl g s) E' := by
  induction l generalizing s E with
  | nil => exact ⟨E, rfl, h⟩
  | cons a l ih =>
    obtain ⟨T, hT, hagrees⟩ := hstep s E a h
    obtain ⟨E', hE', hagrees'⟩ := ih hagrees
    refine ⟨E', ?_, hagrees'⟩
    rw [List.foldlM_cons, hT]
    exact hE'

theorem Agrees.undefineRule (h : Agrees s E) (id : Id) :
    ∃ E', E.undefineRule id = some E' ∧ Agrees (s.undefine id) E' := by
  obtain ⟨E', hE', heffect⟩ := undefineRule_effect h.settled id
  have hrules : ∀ id', (s.undefine id).rules id' = (E'.rules.find? id').map Rule.expr := by
    intro id'
    rw [heffect.rules, Sheet.undefine, ← h.rules]
    exact Function.update_apply ..
  have hnone : ∀ id', E'.rules.find? id' = none ↔ id' = id ∨ E.rules.find? id' = none := by
    intro id'
    rw [← Option.map_eq_none_iff (f := Rule.expr), heffect.rules]
    split
    · rename_i heq
      exact ⟨fun _ => .inl heq, fun _ => rfl⟩
    · rename_i hne
      rw [Option.map_eq_none_iff]
      exact ⟨.inr, fun hor => hor.resolve_left hne⟩
  refine ⟨E', hE', heffect.settled, hrules, fun id' hid' => ?_, fun id' hid' => ?_, fun id' => ?_,
    fun id' => ?_⟩
  · show s.given id' = _
    cases hrule : E.rules.find? id' with
    | none =>
      rw [heffect.status id' hrule]
      exact h.given id' hrule
    | some rule =>
      have hsome : (E.rules.find? id').isSome := hrule ▸ rfl
      have heq : id' = id := ((hnone id').mp hid').resolve_right fun hnot => by
        rw [hrule] at hnot
        cases hnot
      subst heq
      rw [heffect.retracted hsome]
      exact h.notGiven id' hsome
  · apply h.notGiven
    rw [← Option.ne_none_iff_isSome, Ne, hnone, not_or] at hid'
    exact Option.ne_none_iff_isSome.mp hid'.2
  · rw [isSome_find?_of_keys heffect.keys]
    exact h.known id'
  · exact (h.claimed id').trans (heffect.outputs id').symm

omit [EngineReal V] [DecidableEq V] in
/-- Rules that are taken from the sheet one after the other. -/
theorem foldl_undefine (s : Sheet Id V) (ids : List Id) :
    ids.foldl Sheet.undefine s =
      { s with rules := fun id => if id ∈ ids then none else s.rules id } := by
  induction ids generalizing s with
  | nil => rfl
  | cons id ids ih =>
    rw [List.foldl_cons, ih]
    congr 1
    funext id'
    by_cases hmem : id' ∈ ids
    · rw [if_pos hmem, if_pos (List.mem_cons_of_mem _ hmem)]
    · rw [if_neg hmem, Sheet.undefine]
      show Function.update s.rules id none id' = _
      rw [Function.update_apply]
      exact if_congr ⟨fun heq => heq ▸ List.mem_cons_self, fun hor =>
        (List.mem_cons.mp hor).resolve_right hmem⟩ rfl rfl

theorem Agrees.undefineAllRules (h : Agrees s E) :
    ∃ E', E.undefineAllRules = some E' ∧ Agrees (s.call .undefineAllRules) E' := by
  obtain ⟨E', hE', hagrees⟩ :=
    foldlM_agrees (fun s E id h => Agrees.undefineRule h id) E.rules.keys h
  refine ⟨E', hE', ?_⟩
  have hsheet : E.rules.keys.foldl Sheet.undefine s = s.call .undefineAllRules := by
    rw [foldl_undefine]
    refine congrArg (fun rules => ({ s with rules } : Sheet Id V)) (funext fun id => ?_)
    split
    · rfl
    · rename_i hnot
      rw [h.rules, SortedMap.find?_eq_none.mpr hnot]
      rfl
  exact hsheet ▸ hagrees

omit [EngineReal V] [DecidableEq V] in
/-- Known facts that are taken back one after the other. -/
theorem foldl_retract (s : Sheet Id V) (ids : List Id) (hknown : ∀ id ∈ ids, s.known id = true) :
    ids.foldl (fun s id => s.call (.retractId id)) s =
      { s with given := fun id =>
        if (decide (id ∈ ids) && !s.claimed id) = true then none else s.given id } := by
  induction ids generalizing s with
  | nil => rfl
  | cons id ids ih =>
    obtain ⟨hid, hrest⟩ := List.forall_mem_cons.mp hknown
    rw [List.foldl_cons, Sheet.call, hid, Bool.not_true, Bool.or_false]
    have hupdate : Function.update s.known id true = s.known := by
      rw [← hid]
      exact Function.update_eq_self id s.known
    cases hclaimed : s.claimed id with
    | true =>
      rw [if_pos rfl, ih s hrest]
      congr 1
      funext id'
      by_cases heq : id' = id
      · rw [heq, hclaimed, Bool.not_true, Bool.and_false, Bool.and_false]
      · rw [decide_eq_decide.mpr (List.mem_cons.trans (or_iff_right heq))]
    | false =>
      rw [if_neg Bool.false_ne_true, Sheet.give, hupdate]
      refine (ih { s with given := Function.update s.given id none } hrest).trans ?_
      congr 1
      funext id'
      by_cases heq : id' = id
      · rw [heq]
        dsimp only
        rw [Function.update_self, ite_self, hclaimed, if_pos]
        rw [Bool.not_false, Bool.and_true]
        exact decide_eq_true List.mem_cons_self
      · dsimp only
        rw [Function.update_of_ne heq,
          decide_eq_decide.mpr (List.mem_cons.trans (or_iff_right heq))]

theorem Agrees.retractWhere (h : Agrees s E) (p : Id → Bool) :
    ∃ E', E.retractWhere p = some E' ∧ Agrees (s.call (.retractWhere p)) E' := by
  obtain ⟨E', hE', hagrees⟩ :=
    foldlM_agrees (fun s E id h => Agrees.retractId h id) (E.facts.keys.filter p) h
  refine ⟨E', hE', ?_⟩
  have hmem : ∀ id, id ∈ E.facts.keys ↔ s.known id = true := by
    intro id
    rw [h.known, ← Option.ne_none_iff_isSome, Ne, SortedMap.find?_eq_none, not_not]
  have hsheet : (E.facts.keys.filter p).foldl (fun s id => s.call (.retractId id)) s =
      s.call (.retractWhere p) := by
    rw [foldl_retract s _ fun id hid => (hmem id).mp (List.mem_filter.mp hid).1]
    refine congrArg (fun given => ({ s with given } : Sheet Id V)) (funext fun id => ?_)
    by_cases hknown : id ∈ E.facts.keys
    · refine if_congr ?_ rfl rfl
      rw [Bool.and_eq_true, Bool.and_eq_true, decide_eq_true_eq, List.mem_filter,
        and_iff_right hknown]
    · -- a fact that is not there was not given
      have hfind : E.facts.find? id = none := SortedMap.find?_eq_none.mpr hknown
      have hfact : E.fact id = .new false true := by
        rw [RuleEngine.fact, hfind]
        rfl
      have hgiven : s.given id = none := by
        rw [h.given id (rules_none h.settled.wired (by rw [hfact]; rfl)), status, hfact]
        rfl
      rw [hgiven, ite_self, ite_self]
  exact hsheet ▸ hagrees

theorem Agrees.synchronize (h : Agrees s E) (source : RuleEngine Id V) :
    ∃ E', E.synchronize source = some E' ∧ Agrees (s.call (.synchronize source)) E' := by
  let T := { E with batch := true, listeners := E.listeners ++ source.listeners }
  have hT : Agrees s T := h.same rfl rfl
  obtain ⟨E', hE', hagrees⟩ :=
    foldlM_agrees (fun s E (e : Id × Fact Id V) h => Agrees.assertValue h e.1 e.2.value)
      (source.facts.entries.filter fun e => e.2.asserted && !e.2.ruleOutput) hT
  refine ⟨{ E' with batch := false }, ?_, hagrees.same rfl rfl⟩
  rw [RuleEngine.synchronize]
  exact Option.bind_eq_some_iff.mpr ⟨E', hE', rfl⟩

/-- A fact is looked up for a handle; the output of a rule has none. -/
theorem Agrees.getFactHandle (h : Agrees s E) (id : Id) :
    ∃ E', E.call (.getFactHandle id) = some E' ∧ Agrees (s.call (.getFactHandle id)) E' := by
  rw [RuleEngine.call, RuleEngine.getFactHandle, fact_getFact, Sheet.call]
  cases hout : (E.fact id).ruleOutput with
  | true =>
    refine ⟨E, rfl, ?_⟩
    -- such a fact is there already
    have hknown : s.known id = true := by
      rw [h.known]
      by_contra hnot
      rw [RuleEngine.fact, Option.not_isSome_iff_eq_none.mp hnot] at hout
      cases hout
    have hsame : s.give id (s.given id) = s := by
      rw [Sheet.give, Function.update_eq_self, ← hknown, Function.update_eq_self]
    rw [hsame]
    exact h
  | false =>
    have hrule := rules_none h.settled.wired hout
    refine ⟨E.getFact id, rfl, ?_⟩
    rw [h.given id hrule]
    exact h.effect (getFact_effect h.settled id) fun hsome => by
      rw [hrule] at hsome
      cases hsome

/-- A rule is defined just if its identifier is free and no rules would depend on themselves. -/
theorem Agrees.defineRule {expr : RuleExpr Id V} (h : Agrees s E) (hfree : E.idInUse id = false)
    (hpath : ¬ TransGen (Edge (E.compile id expr)) id id) :
    ∃ E', E.defineRule id expr = some E' ∧ Agrees (s.define id expr) E' := by
  obtain ⟨E', hE', heffect⟩ := defineRule_effect h.settled hfree hpath
  obtain ⟨hrule, hretracted⟩ := free_of_not_inUse h.settled.wired hfree
  have hnone : ∀ id', E'.rules.find? id' = none ↔ id' ≠ id ∧ E.rules.find? id' = none := by
    intro id'
    rw [← Option.map_eq_none_iff (f := Rule.expr), heffect.rules]
    split
    · rename_i heq
      exact iff_of_false (Option.some_ne_none expr) fun hand => hand.1 heq
    · rename_i hne
      rw [Option.map_eq_none_iff, and_iff_right hne]
  refine ⟨E', hE', heffect.settled, fun id' => ?_, fun id' hid' => ?_, fun id' hid' => ?_,
    fun id' => ?_, fun id' => ?_⟩
  · rw [heffect.rules, ← h.rules]
    exact Function.update_apply ..
  · obtain ⟨hne, hid'⟩ := (hnone id').mp hid'
    rw [heffect.status id' hid' hne]
    exact h.given id' hid'
  · show s.given id' = none
    by_cases heq : id' = id
    · rw [heq, h.given id hrule]
      exact status_of_retracted hretracted
    · apply h.notGiven
      rw [← Option.ne_none_iff_isSome, Ne, hnone, not_and] at hid'
      exact Option.ne_none_iff_isSome.mp (hid' heq)
  · rw [Bool.eq_iff_iff, heffect.there, Sheet.define, ← h.known]
    simp only [Bool.or_eq_true, decide_eq_true_eq, List.any_eq_true, List.mem_map, or_assoc]
  · rw [heffect.outputs, ← h.claimed]
    exact Function.update_apply ..

/-- The fact whose handle a call is given. -/
def handle? : Call Id V → Option Id
  | .assertHandle id | .assertHandleValue id _ | .retractHandle id => some id
  | _ => none

/-- A handle is used for a fact that is there and is no rule's output. -/
def HandleOk (E : RuleEngine Id V) (c : Call Id V) : Prop :=
  ∀ id ∈ handle? c, (E.facts.find? id).isSome ∧ (E.fact id).ruleOutput = false

omit [EngineReal V] [DecidableEq V] in
instance decidableHandleOk (E : RuleEngine Id V) (c : Call Id V) : Decidable (HandleOk E c) :=
  inferInstanceAs (Decidable (∀ id ∈ handle? c, _))

/-- A call that defines no rule returns, and the engine follows the sheet. -/
theorem Agrees.call {c : Call Id V} (h : Agrees s E) (hok : HandleOk E c)
    (hdefine : ∀ id expr, c = .defineRule id expr →
      E.idInUse id = false ∧ ¬ TransGen (Edge (E.compile id expr)) id id) :
    ∃ E', E.call c = some E' ∧ Agrees (s.call c) E' := by
  cases c with
  | defineRule id expr =>
    obtain ⟨hfree, hpath⟩ := hdefine id expr rfl
    exact h.defineRule hfree hpath
  | undefineRule id => exact h.undefineRule id
  | undefineAllRules => exact h.undefineAllRules
  | assertId id => exact h.assertId id
  | assertValue id value => exact h.assertValue id value
  | retractId id => exact h.retractId id
  | retractWhere p => exact h.retractWhere p
  | getFactHandle id => exact h.getFactHandle id
  | assertHandle id =>
    obtain ⟨hthere, hout⟩ := hok id rfl
    have hrule := rules_none h.settled.wired hout
    rw [RuleEngine.call, RuleEngine.assertHandle, Sheet.call, h.given id hrule, status]
    split
    · exact ⟨E, rfl, h⟩
    · exact h.assertFact (.refl hthere) hrule .void
  | assertHandleValue id value =>
    obtain ⟨hthere, hout⟩ := hok id rfl
    have hrule := rules_none h.settled.wired hout
    rw [RuleEngine.call, RuleEngine.assertHandleValue, Sheet.call]
    split
    · exact h.assertFact (.refl hthere) hrule value
    · rename_i hsame
      rw [Bool.or_eq_true, not_or, Bool.not_eq_true', Bool.not_eq_false, decide_eq_true_eq,
        not_not] at hsame
      obtain ⟨hasserted, hvalue⟩ := hsame
      have hstatus : status E id = some value := by
        rw [status_of_asserted hasserted, hvalue]
      exact ⟨E, rfl, hstatus ▸ h.give_status hthere hrule⟩
  | retractHandle id =>
    obtain ⟨hthere, hout⟩ := hok id rfl
    have hrule := rules_none h.settled.wired hout
    rw [RuleEngine.call, RuleEngine.retractHandle, Sheet.call]
    split
    · exact h.retractFact hthere hrule
    · rename_i hretracted
      rw [← status_of_retracted (Bool.not_eq_true _ ▸ hretracted)]
      exact ⟨E, rfl, h.give_status hthere hrule⟩
  | attach listener =>
    refine ⟨_, rfl, ?_⟩
    rw [RuleEngine.attach]
    split
    · exact h
    · exact h.same rfl rfl
  | detach listener => exact ⟨_, rfl, h.same rfl rfl⟩
  | beginBatch =>
    refine ⟨_, rfl, ?_⟩
    rw [RuleEngine.beginBatch]
    split
    · exact h
    · exact h.same rfl rfl
  | endBatch =>
    refine ⟨_, rfl, ?_⟩
    rw [RuleEngine.endBatch]
    split
    · exact h.same rfl rfl
    · exact h
  | synchronize source => exact h.synchronize source

/-- A call that returns defines no rule that must not be. -/
theorem definable_of_call {c : Call Id V} {E' : RuleEngine Id V} (h : Agrees s E)
    (hcall : E.call c = some E') : ∀ id expr, c = .defineRule id expr →
      E.idInUse id = false ∧ ¬ TransGen (Edge (E.compile id expr)) id id := by
  rintro id expr rfl
  by_contra hnot
  rw [RuleEngine.call, defineRule_none h.settled] at hcall
  · cases hcall
  · rw [not_and_or, Bool.not_eq_false, not_not] at hnot
    exact hnot

/-! ### Runs -/

/-- The sheet after some calls. -/
def Sheet.of (calls : List (Call Id V)) : Sheet Id V := calls.foldl Sheet.call .empty

omit [DecidableEq V] in
theorem agrees_new : Agrees (.empty : Sheet Id V) .new := by
  have hnone : ∀ {id : Id} {rule : Rule Id V},
      (RuleEngine.new : RuleEngine Id V).rules.find? id ≠ some rule := by
    intro id rule hrule
    cases hrule
  have hwired : Wired (.new : RuleEngine Id V) := by
    constructor
    · intro id rule
      refine iff_of_false List.not_mem_nil ?_
      rintro ⟨r, hr, -⟩
      exact hnone hr
    · exact fun _ => List.nodup_nil
    · exact fun _ _ hrule => absurd hrule hnone
    · intro id hid
      cases hid
    · exact fun _ _ hrule => absurd hrule hnone
    · exact fun _ _ => rfl
  have hacyclic : Acyclic (Edge (.new : RuleEngine Id V)) := by
    intro id hpath
    obtain ⟨g, hedge, -⟩ := TransGen.head'_iff.mp hpath
    exact List.not_mem_nil hedge
  refine ⟨⟨hwired, hacyclic, ?_⟩, fun _ => rfl, fun _ _ => rfl, fun _ _ => rfl, fun _ => rfl,
    fun _ => rfl⟩
  exact ⟨fun _ _ hrule => absurd hrule hnone, fun _ _ hrule => absurd hrule hnone⟩

/-- An engine follows the sheet of its calls. -/
theorem agrees_of_run {calls : List (Call Id V)} (hok : Runs.along call HandleOk .new calls)
    (hrun : Runs.run call .new calls = some E) : Agrees (.of calls) E := by
  have hfrom : ∀ (calls : List (Call Id V)) (s : Sheet Id V) (T : RuleEngine Id V), Agrees s T →
      Runs.along RuleEngine.call HandleOk T calls → Runs.run RuleEngine.call T calls = some E →
      Agrees (calls.foldl Sheet.call s) E := by
    intro calls
    induction calls with
    | nil =>
      intro s T h _ hrun
      exact Option.some.inj hrun ▸ h
    | cons c calls ih =>
      intro s T h hok hrun
      obtain ⟨S, hS, hrest⟩ := Runs.run_cons hrun
      obtain ⟨S', hS', hagrees⟩ := h.call hok.1 (definable_of_call h hS)
      cases hS.symm.trans hS'
      exact ih _ S hagrees (hok.2 S hS) hrest
  exact hfrom calls .empty .new agrees_new hok hrun

/-- Small numbers, as multiples of the least positive one. -/
instance smallReal : EngineReal Int where
  ofInt n := n * 2 ^ 1074
  ofBits n := n

/-- Fact 11 is fact 10, which is 4 while fact 1 is asserted and fact 2 is more than 3. -/
def sampleRules : List (Call Nat Int) :=
  [.defineRule 11 ⟨[.input 10], fun _ _ => true, fun _ inputs => inputs.headD 0⟩,
    .defineRule 10 ⟨[.assertion 1, .input 2],
      fun asserts inputs => decide (0 < asserts.headD 0) &&
        decide (EngineReal.ofInt 3 < inputs.headD 0),
      fun _ _ => EngineReal.ofInt 4⟩]

def sampleCalls : List (Call Nat Int) :=
  sampleRules ++ [.getFactHandle 1, .assertValue 2 (.int 5), .assertHandle 1]

/-- A fact leads to a rule that mentions it. -/
def Sheet.Leads (s : Sheet Id V) (f g : Id) : Prop :=
  ∃ expr, s.rules g = some expr ∧ f ∈ expr.vars.map Variable.fact

end Calls

end Adara.Spec.RuleEngine
