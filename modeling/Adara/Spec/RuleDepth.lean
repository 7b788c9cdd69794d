import Adara.ForStd.Acyclic
import Adara.Spec.RuleGraph
import Mathlib.Data.Finset.Dedup

/-! # Evaluation comes to an end

No rule is found again behind its own output: `defineRule` looks for the new rule before it is
entered (`isCircular_spec`).  So what follows a change comes to an end, at a depth no greater than
the number of rules (`update_ends`). -/

namespace Adara.Spec.RuleEngine

open Adara.Native Adara.Native.RuleEngine Relation

variable {Id V : Type} [LinearOrder Id]

/-- A fact leads to the outputs of the rules that mention it. -/
def Edge (E : RuleEngine Id V) (f g : Id) : Prop := g ∈ (E.fact f).ruleDeps

section Edges

variable {E E' : RuleEngine Id V} {id : Id}

theorem SameWiring.edge (h : SameWiring E E') {f g : Id} : Edge E' f g ↔ Edge E f g := by
  rw [Edge, Edge, h.deps]

/-- Every edge leads to a rule. -/
theorem mem_rules_of_edge (hE : Wired E) {f g : Id} (h : Edge E f g) :
    g ∈ E.rules.keys.toFinset := by
  obtain ⟨r, hr, -⟩ := (hE.deps f g).mp h
  exact List.mem_toFinset.mpr (SortedMap.mem_keys.mpr ⟨r, SortedMap.find?_eq_some.mp hr⟩)

/-- Where there are no cycles, the facts have ranks that are lower along every edge, and lower than
    the depth of the recursion. -/
theorem exists_rank (hE : Wired E) (hacyclic : Acyclic (Edge E)) :
    ∃ rank : Id → Nat, (∀ f g, Edge E f g → rank g < rank f) ∧ ∀ f, rank f < E.depth := by
  obtain ⟨rank, hrank, hle⟩ := hacyclic.exists_rank fun _ _ => mem_rules_of_edge hE
  refine ⟨rank, hrank, fun f => Nat.lt_succ_of_le ((hle f).trans ?_)⟩
  calc E.rules.keys.toFinset.card
    _ ≤ E.rules.keys.length := E.rules.keys.toFinset_card_le
    _ = E.rules.size := List.length_map _

/-- Compiling a rule adds edges to its output only. -/
theorem edge_compile {expr : RuleExpr Id V} {f g : Id} (h : Edge (E.compile id expr) f g) :
    Edge E f g ∨ g = id := by
  obtain ⟨-, -, -, -, hdeps⟩ := compile_same E id expr f
  exact ((hdeps g).mp h).imp_right And.left

theorem edge_deleteRule (hE : Wired E) {rule : Rule Id V} (hrule : E.rules.find? id = some rule)
    {f g : Id} (h : Edge (E.deleteRule id rule) f g) : Edge E f g :=
  ((mem_deleteRule hE hrule f g).mp h).2

end Edges

/-! ### Looking for a circular definition -/

section Circular

variable {E : RuleEngine Id V} {target : Id} {check : Id → Option Bool} {rules : List Id}

theorem anyCircular_false (h : anyCircular check target rules = some false) :
    ∀ rule ∈ rules, rule ≠ target ∧ check rule = some false := by
  induction rules with
  | nil => exact List.forall_mem_nil _
  | cons rule rules ih =>
    rw [anyCircular] at h
    split at h
    · cases h
    · rename_i hne
      obtain ⟨found, hcheck, hrest⟩ := Option.bind_eq_some_iff.mp h
      cases found with
      | true => cases hrest
      | false => exact List.forall_mem_cons.mpr ⟨⟨hne, hcheck⟩, ih hrest⟩

theorem anyCircular_true (h : anyCircular check target rules = some true) :
    ∃ rule ∈ rules, rule = target ∨ check rule = some true := by
  induction rules with
  | nil => cases h
  | cons rule rules ih =>
    rw [anyCircular] at h
    split at h
    · rename_i heq
      exact ⟨rule, List.mem_cons_self, .inl heq⟩
    · obtain ⟨found, hcheck, hrest⟩ := Option.bind_eq_some_iff.mp h
      cases found with
      | true => exact ⟨rule, List.mem_cons_self, .inr hcheck⟩
      | false =>
        obtain ⟨rule', hmem, hwhy⟩ := ih hrest
        exact ⟨rule', List.mem_cons_of_mem _ hmem, hwhy⟩

theorem anyCircular_isSome
    (h : ∀ rule ∈ rules, rule ≠ target → (check rule).isSome) :
    (anyCircular check target rules).isSome := by
  induction rules with
  | nil => rfl
  | cons rule rules ih =>
    obtain ⟨hrule, hrest⟩ := List.forall_mem_cons.mp h
    rw [anyCircular]
    split
    · rfl
    · rename_i hne
      obtain ⟨found, hfound⟩ := Option.isSome_iff_exists.mp (hrule hne)
      rw [hfound, Option.bind_some]
      split
      · rfl
      · exact ih hrest

/-- Where the search finds nothing, no path leads to the rule. -/
theorem isCircular_false {depth : Nat} {f : Id} (h : E.isCircular target depth f = some false) :
    ¬ TransGen (Edge E) f target := by
  induction depth generalizing f with
  | zero => cases h
  | succ depth ih =>
    rw [isCircular] at h
    intro hpath
    rcases TransGen.head'_iff.mp hpath with ⟨g, hfg, hpath⟩
    obtain ⟨hne, hcheck⟩ := anyCircular_false h g hfg
    rcases ReflTransGen.cases_head hpath with heq | ⟨k, hgk, hpath⟩
    · exact hne heq
    · exact ih hcheck (.head' hgk hpath)

/-- Where it finds something, one does. -/
theorem isCircular_true {depth : Nat} {f : Id} (h : E.isCircular target depth f = some true) :
    TransGen (Edge E) f target := by
  induction depth generalizing f with
  | zero => cases h
  | succ depth ih =>
    rw [isCircular] at h
    obtain ⟨g, hfg, hwhy⟩ := anyCircular_true h
    rcases hwhy with rfl | hcheck
    · exact .single hfg
    · exact (ih hcheck).head hfg

/-- The search comes to an end where only edges to the rule it looks for can close a cycle. -/
theorem isCircular_isSome {rank : Id → Nat}
    (hrank : ∀ f g, Edge E f g → g ≠ target → rank g < rank f) {depth : Nat} {f : Id}
    (hdepth : rank f < depth) : (E.isCircular target depth f).isSome := by
  induction depth generalizing f with
  | zero => cases hdepth
  | succ depth ih =>
    rw [isCircular]
    apply anyCircular_isSome
    intro g hfg hne
    have hlt := hrank f g hfg hne
    exact ih (by omega)

/-- The search for a new rule behind its output finds it just if it would be part of a cycle. -/
theorem isCircular_spec (hE : Wired E) (hacyclic : Acyclic (Edge E)) (id : Id)
    (expr : RuleExpr Id V) :
    (E.compile id expr).isCircular id (E.compile id expr).depth id = some false ↔
      ¬ TransGen (Edge (E.compile id expr)) id id := by
  refine ⟨isCircular_false, fun hpath => ?_⟩
  obtain ⟨rank, hrank, hdepth⟩ := exists_rank hE hacyclic
  have hsome : ((E.compile id expr).isCircular id (E.compile id expr).depth id).isSome := by
    have hold : ∀ f g, Edge (E.compile id expr) f g → g ≠ id → rank g < rank f :=
      fun f g hfg hne => hrank f g ((edge_compile hfg).resolve_right hne)
    apply isCircular_isSome hold
    rw [depth, compile_rules]
    exact hdepth id
  obtain ⟨found, hfound⟩ := Option.isSome_iff_exists.mp hsome
  cases found with
  | true => exact absurd (isCircular_true hfound) hpath
  | false => exact hfound

end Circular

/-! ### Following the dependencies -/

section Update

variable [EngineReal V] [DecidableEq V] {E : RuleEngine Id V}
  {upd : RuleEngine Id V → Id → Option (RuleEngine Id V)} {rank : Id → Nat}

/-- The ranks are lower along every edge. -/
def Ranked (rank : Id → Nat) (E : RuleEngine Id V) : Prop := ∀ f g, Edge E f g → rank g < rank f

omit [EngineReal V] [DecidableEq V] in
theorem Ranked.same {E' : RuleEngine Id V} (h : Ranked rank E) (hsame : SameWiring E E') :
    Ranked rank E' := fun f g hfg => h f g (hsame.edge.mp hfg)

/-- Following the dependencies of facts below a rank comes to an end, and changes only facts of
    ranks that are lower still. -/
def EndsBelow (upd : RuleEngine Id V → Id → Option (RuleEngine Id V)) (rank : Id → Nat)
    (n : Nat) : Prop :=
  ∀ E, Wired E → Ranked rank E → ∀ id, rank id < n →
    ∃ E', upd E id = some E' ∧ ∀ f, rank id ≤ rank f → E'.fact f = E.fact f

theorem react_ends {n : Nat} {id : Id} {rule : Rule Id V} (hupd : EndsBelow upd rank n)
    (hE : Wired E) (hrank : Ranked rank E) (hrule : (E.rules.find? id).isSome) (hn : rank id < n) :
    ∃ E', react upd E id rule = some E' ∧ ∀ f, rank id < rank f → E'.fact f = E.fact f := by
  -- a move that changes only the output is followed by changes below it
  have hmove : ∀ T, Move E T → (∀ f, f ≠ id → T.fact f = E.fact f) →
      ∃ E', upd T id = some E' ∧ ∀ f, rank id < rank f → E'.fact f = E.fact f := by
    intro T hT hothers
    have hsame := (hT.sameOthers hE).toSameWiring
    obtain ⟨E', hE', hframe⟩ := hupd T (hT.wired hE) (hrank.same hsame) id hn
    refine ⟨E', hE', fun f hf => (hframe f hf.le).trans (hothers f ?_)⟩
    rintro rfl
    exact lt_irrefl _ hf
  rw [react]
  split
  · split
    · refine hmove _ (.assert id _ hrule) fun f hne => ?_
      rw [fact_of_facts (notifyAssert_same _ _).1]
      exact fact_modifyFact_of_ne hne _
    · exact ⟨E, rfl, fun _ _ => rfl⟩
  · split
    · refine hmove _ (.retract id hrule) fun f hne => ?_
      rw [fact_of_facts (notifyRetract_same _ _).1]
      exact fact_modifyFact_of_ne hne _
    · exact ⟨E, rfl, fun _ _ => rfl⟩

theorem evaluate_ends {n : Nat} {id : Id} (changed : Option Id) (hupd : EndsBelow upd rank n)
    (hE : Wired E) (hrank : Ranked rank E) (hrule : (E.rules.find? id).isSome) (hn : rank id < n) :
    ∃ E', evaluate upd changed E id = some E' ∧
      ∀ f, rank id < rank f → E'.fact f = E.fact f := by
  obtain ⟨rule, hfound⟩ := Option.isSome_iff_exists.mp hrule
  have hkeep : ∀ rule' : Rule Id V, rule'.expr = rule.expr →
      rule'.inputs.map Prod.fst = rule.inputs.map Prod.fst →
      rule'.asserts.map Prod.fst = rule.asserts.map Prod.fst →
      ∃ E', react upd { E with rules := E.rules.set id rule' } id rule' = some E' ∧
        ∀ f, rank id < rank f → E'.fact f = E.fact f := by
    intro rule' hexpr hinputs hasserts
    refine react_ends hupd ((Move.keep id rule rule' hfound hexpr hinputs hasserts).wired hE)
      hrank ?_ hn
    rw [SortedMap.find?_set, if_pos rfl]
    rfl
  rw [evaluate, hfound]
  cases changed with
  | some changed =>
    obtain ⟨hexpr, hinputs, hasserts⟩ := tell_names E.fact changed rule
    exact hkeep _ hexpr hinputs hasserts
  | none =>
    obtain ⟨hexpr, hinputs, hasserts⟩ := refresh_names E.fact rule
    exact hkeep _ hexpr hinputs hasserts

theorem evaluateAll_ends {n : Nat} {changed : Id} {ids : List Id} (hmoves : ByMoves upd)
    (hupd : EndsBelow upd rank n) (hE : Wired E) (hrank : Ranked rank E)
    (hids : ∀ id ∈ ids, (E.rules.find? id).isSome ∧ rank id < n) :
    ∃ E', evaluateAll upd changed E ids = some E' ∧
      ∀ f, (∀ id ∈ ids, rank id < rank f) → E'.fact f = E.fact f := by
  induction ids generalizing E with
  | nil => exact ⟨E, rfl, fun _ _ => rfl⟩
  | cons id ids ih =>
    obtain ⟨⟨hrule, hn⟩, hrest⟩ := List.forall_mem_cons.mp hids
    obtain ⟨T, hT, hframe⟩ := evaluate_ends (some changed) hupd hE hrank hrule hn
    obtain ⟨hwired, hsame⟩ := (evaluate_moves hmoves hT).wired hE
    obtain ⟨E', hE', hframe'⟩ := ih hwired (hrank.same hsame.toSameWiring) fun id' hid' => by
      rw [hsame.isSome]
      exact hrest id' hid'
    refine ⟨E', by rw [evaluateAll, hT, Option.bind_some, hE'], fun f hf => ?_⟩
    obtain ⟨hfirst, hothers⟩ := List.forall_mem_cons.mp hf
    exact (hframe' f hothers).trans (hframe f hfirst)

theorem update_endsBelow (depth : Nat) :
    EndsBelow (update depth : RuleEngine Id V → _) rank depth := by
  induction depth with
  | zero =>
    intro E hE hrank id hn
    cases hn
  | succ depth ih =>
    intro E hE hrank id hn
    have hdeps : ∀ rule ∈ (E.fact id).ruleDeps,
        (E.rules.find? rule).isSome ∧ rank rule < depth := by
      intro rule hrule
      obtain ⟨r, hr, -⟩ := (hE.deps id rule).mp hrule
      have hlt := hrank id rule hrule
      exact ⟨hr ▸ rfl, by omega⟩
    obtain ⟨E', hE', hframe⟩ := evaluateAll_ends (update_moves depth) ih hE hrank hdeps
    exact ⟨E', hE', fun f hf => hframe f fun rule hrule => (hrank id rule hrule).trans_le hf⟩

/-- Following the dependencies of a fact comes to an end, and leaves the fact itself as it is. -/
theorem update_ends (hE : Wired E) (hacyclic : Acyclic (Edge E)) (id : Id) :
    ∃ E', update E.depth E id = some E' ∧ E'.fact id = E.fact id := by
  obtain ⟨rank, hrank, hdepth⟩ := exists_rank hE hacyclic
  obtain ⟨E', hE', hframe⟩ := update_endsBelow E.depth E hE hrank id (hdepth id)
  exact ⟨E', hE', hframe id le_rfl⟩

end Update

end Adara.Spec.RuleEngine
