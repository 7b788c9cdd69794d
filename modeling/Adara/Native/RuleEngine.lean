import Adara.ForStd.SortedMap

/-! # The rule engine of the monitor

`RuleEngine` keeps facts, which are asserted and retracted with or without a value, and rules:
expressions over facts whose output is a fact of its own.  A rule keeps the values of its inputs;
when a fact changes, only the rules that depend on it are told, and evaluated again.  That may
change their outputs, and so on.  Listeners are notified of every change, or of the changes of a
whole batch at its end.

An expression is what the parser has compiled: the facts it mentions, and functions of their
values.  An expression that reads `@` or a temporary before it assigns it is left out, and one that
cannot be parsed.  Identifiers are upper case and have no blanks around them, as rule files have
them.  Real numbers that compare equal are one. -/

namespace Adara.Native

/-- The numbers of the engine (`double`), with the conversion of an integer, and its bits read as a
    number. -/
class EngineReal (V : Type) where
  ofInt : Int → V
  ofBits : Int → V

namespace RuleEngine

/-- `Value`: its type and its content. -/
inductive Value (V : Type) where
  | void
  | int (n : Int)
  | real (v : V)
deriving DecidableEq

variable {Id V : Type} [EngineReal V]

namespace Value

/-- `operator double`.  A void value has the integer 1. -/
def toReal : Value V → V
  | void => EngineReal.ofInt 1
  | int n => EngineReal.ofInt n
  | real v => v

/-- `m_real_value`, whatever the type. -/
def realValue : Value V → V
  | void => EngineReal.ofBits 1
  | int n => EngineReal.ofBits n
  | real v => v

end Value

/-- `Fact`.  A dependency is the identifier of a rule. -/
structure Fact (Id V : Type) where
  asserted : Bool
  implicit : Bool
  ruleOutput : Bool
  value : Value V
  ruleDeps : List Id

namespace Fact

/-- The constructor, for a fact without a value. -/
def new (asserted implicit : Bool) : Fact Id V := ⟨asserted, implicit, false, .void, []⟩

/-- `addRuleDependency`. -/
def addRuleDependency [DecidableEq Id] (fact : Fact Id V) (rule : Id) : Fact Id V :=
  if rule ∈ fact.ruleDeps then fact else { fact with ruleDeps := fact.ruleDeps ++ [rule] }

/-- `removeRuleDependency`. -/
def removeRuleDependency [DecidableEq Id] (fact : Fact Id V) (rule : Id) : Fact Id V :=
  { fact with ruleDeps := fact.ruleDeps.erase rule }

end Fact

/-- A variable of an expression: a fact tested for being asserted, or one whose value is read. -/
inductive Variable (Id : Type) where
  | assertion (fact : Id)
  | input (fact : Id)
deriving DecidableEq

namespace Variable

def fact : Variable Id → Id
  | assertion fact => fact
  | input fact => fact

def assertion? : Variable Id → Option Id
  | assertion fact => some fact
  | input _ => none

def input? : Variable Id → Option Id
  | assertion _ => none
  | input fact => some fact

end Variable

/-- A compiled expression: its variables in the order they were found, each once, whether it
    evaluates to more than 0.5, and what `@` has after it, given the values of the facts tested
    and those of the facts read. -/
structure RuleExpr (Id V : Type) where
  vars : List (Variable Id)
  fires : List V → List V → Bool
  output : List V → List V → V

namespace RuleExpr

def assertions (expr : RuleExpr Id V) : List Id := expr.vars.filterMap Variable.assertion?

def inputs (expr : RuleExpr Id V) : List Id := expr.vars.filterMap Variable.input?

end RuleExpr

/-- `Rule`.  The output fact has the identifier of the rule. -/
structure Rule (Id V : Type) where
  expr : RuleExpr Id V
  valid : Bool
  inputs : List (Id × V)
  asserts : List (Id × V)

namespace Rule

/-- The constructor: every variable is zero. -/
def new (expr : RuleExpr Id V) : Rule Id V where
  expr
  valid := false
  inputs := expr.inputs.map fun fact => (fact, EngineReal.ofInt 0)
  asserts := expr.assertions.map fun fact => (fact, EngineReal.ofInt 0)

/-- Whether the expression fires, on the values the rule keeps. -/
def fires (rule : Rule Id V) : Bool :=
  rule.expr.fires (rule.asserts.map Prod.snd) (rule.inputs.map Prod.snd)

/-- `m_rule_value` after the expression was evaluated. -/
def ruleValue (rule : Rule Id V) : V :=
  rule.expr.output (rule.asserts.map Prod.snd) (rule.inputs.map Prod.snd)

/-- The value of an assertion test. -/
def assertionValue (asserted : Bool) : V := EngineReal.ofInt (if asserted then 1 else 0)

/-- `evaluate`, the part for a fact that was changed. -/
def tell [DecidableEq Id] (facts : Id → Fact Id V) (changed : Id) (rule : Rule Id V) :
    Rule Id V :=
  let asserted := (facts changed).asserted
  let asserts := rule.asserts.map fun e =>
    if e.1 = changed then (e.1, assertionValue asserted) else e
  let inputs :=
    if asserted then
      rule.inputs.map fun e => if e.1 = changed then (e.1, (facts changed).value.toReal) else e
    else rule.inputs
  let valid :=
    if asserted then
      -- the rule may have become valid
      rule.valid || rule.inputs.all fun e => (facts e.1).asserted
    else rule.valid && !rule.inputs.any fun e => e.1 = changed
  { rule with asserts, inputs, valid }

/-- `evaluate`, the part where no fact is given. -/
def refresh (facts : Id → Fact Id V) (rule : Rule Id V) : Rule Id V where
  expr := rule.expr
  asserts := rule.asserts.map fun e => (e.1, assertionValue (facts e.1).asserted)
  inputs := rule.inputs.map fun e =>
    if (facts e.1).asserted then (e.1, (facts e.1).value.toReal) else e
  valid := rule.inputs.all fun e => (facts e.1).asserted

end Rule

/-- What a listener is told. -/
inductive Notification (Id : Type) where
  | asserted (fact : Id)
  | retracted (fact : Id)
deriving DecidableEq

/-- A listener, with what it has been told. -/
structure Listener (Id : Type) where
  id : Nat
  heard : List (Notification Id)

end RuleEngine

open RuleEngine

/-- `m_old_facts` and `m_new_facts`, which are ordered by address, are lists without
    duplicates. -/
structure RuleEngine (Id V : Type) [LinearOrder Id] where
  batch : Bool
  listeners : List (Listener Id)
  facts : SortedMap Id (Fact Id V)
  rules : SortedMap Id (Rule Id V)
  oldFacts : List (Id × Value V)
  newFacts : List Id

namespace RuleEngine

variable {Id V : Type} [LinearOrder Id] [EngineReal V] [DecidableEq V]

/-- The constructor. -/
def new : RuleEngine Id V := ⟨false, [], .empty, .empty, [], []⟩

/-! ### Facts -/

/-- A fact; one that is not in the fact space is as `getFact` would make it. -/
def fact (E : RuleEngine Id V) (id : Id) : Fact Id V := (E.facts.find? id).getD (.new false true)

/-- `getFact`: the fact is there, or it is made. -/
def getFact (E : RuleEngine Id V) (id : Id) : RuleEngine Id V :=
  { E with facts := E.facts.insert id (.new false true) }

/-- Change a fact in its place. -/
def modifyFact (E : RuleEngine Id V) (id : Id) (f : Fact Id V → Fact Id V) : RuleEngine Id V :=
  { E with facts := E.facts.modify id f }

/-! ### Notifications -/

/-- Tell every listener. -/
def tellListeners (E : RuleEngine Id V) (notes : List (Notification Id)) : RuleEngine Id V :=
  { E with
    listeners := E.listeners.map fun listener =>
      { listener with heard := listener.heard ++ notes } }

/-- `notify_assert`. -/
def notifyAssert (E : RuleEngine Id V) (id : Id) : RuleEngine Id V :=
  if E.batch then
    { E with newFacts := if id ∈ E.newFacts then E.newFacts else E.newFacts ++ [id] }
  else E.tellListeners [.asserted id]

/-- `notify_retract`. -/
def notifyRetract (E : RuleEngine Id V) (id : Id) : RuleEngine Id V :=
  if E.batch then { E with newFacts := E.newFacts.erase id }
  else E.tellListeners [.retracted id]

/-! ### Evaluation -/

/-- `assert` for a fact, with a value; `update` follows the dependencies. -/
def assertFact (update : RuleEngine Id V → Id → Option (RuleEngine Id V)) (E : RuleEngine Id V)
    (id : Id) (value : Value V) : Option (RuleEngine Id V) :=
  update ((E.modifyFact id fun fact =>
    { fact with asserted := true, implicit := false, value }).notifyAssert id) id

/-- `retract` for a fact. -/
def retractFact (update : RuleEngine Id V → Id → Option (RuleEngine Id V)) (E : RuleEngine Id V)
    (id : Id) : Option (RuleEngine Id V) :=
  update ((E.modifyFact id fun fact => { fact with asserted := false }).notifyRetract id) id

/-- The end of `evaluate`: the output of a rule follows the values it keeps. -/
def react (update : RuleEngine Id V → Id → Option (RuleEngine Id V)) (E : RuleEngine Id V)
    (id : Id) (rule : Rule Id V) : Option (RuleEngine Id V) :=
  let out := E.fact id
  if rule.valid && rule.fires then
    -- compared once as it is stored, and once with its type
    if (!out.asserted || decide (out.value.realValue ≠ rule.ruleValue)) &&
        (!out.asserted || decide (out.value ≠ .real rule.ruleValue)) then
      assertFact update E id (.real rule.ruleValue)
    else some E
  else if out.asserted then retractFact update E id
  else some E

/-- `evaluate` for a rule, told of a fact that was changed or not.  A rule that is gone cannot be
    evaluated. -/
def evaluate (update : RuleEngine Id V → Id → Option (RuleEngine Id V)) (changed : Option Id)
    (E : RuleEngine Id V) (id : Id) : Option (RuleEngine Id V) :=
  match E.rules.find? id with
  | none => none
  | some rule =>
    let rule :=
      match changed with
      | some changed => rule.tell E.fact changed
      | none => rule.refresh E.fact
    react update { E with rules := E.rules.set id rule } id rule

/-- `evaluate` for some rules, one after the other. -/
def evaluateAll (update : RuleEngine Id V → Id → Option (RuleEngine Id V)) (changed : Id) :
    RuleEngine Id V → List Id → Option (RuleEngine Id V)
  | E, [] => some E
  | E, id :: ids => (evaluate update (some changed) E id).bind fun E =>
    evaluateAll update changed E ids

/-- `update`, with a bound on the depth of the recursion. -/
def update : Nat → RuleEngine Id V → Id → Option (RuleEngine Id V)
  | 0, _, _ => none
  | depth + 1, E, id => evaluateAll (update depth) id E (E.fact id).ruleDeps

/-- The depth the recursion may have: one level for every rule, and the fact it starts from. -/
def depth (E : RuleEngine Id V) : Nat := E.rules.size + 1

/-! ### Rules -/

/-- `idInUse`. -/
def idInUse (E : RuleEngine Id V) (id : Id) : Bool :=
  (E.rules.find? id).isSome || (E.facts.find? id).any fun fact => !fact.implicit

/-- Whether a rule is among some rules, or found behind one of them. -/
def anyCircular (check : Id → Option Bool) (target : Id) : List Id → Option Bool
  | [] => some false
  | rule :: rules =>
    if rule = target then some true
    else (check rule).bind fun found =>
      if found then some true else anyCircular check target rules

/-- `isCircular`: the rule is found again behind a fact. -/
def isCircular (E : RuleEngine Id V) (target : Id) : Nat → Id → Option Bool
  | 0, _ => none
  | depth + 1, id => anyCircular (isCircular E target depth) target (E.fact id).ruleDeps

/-- `parserVarFactory`, for one variable of a rule. -/
def addVariable (rule : Id) (E : RuleEngine Id V) (v : Variable Id) : RuleEngine Id V :=
  (E.getFact v.fact).modifyFact v.fact fun fact => fact.addRuleDependency rule

/-- The facts when the constructor of a rule has compiled its expression. -/
def compile (E : RuleEngine Id V) (id : Id) (expr : RuleExpr Id V) : RuleEngine Id V :=
  expr.vars.foldl (addVariable id) <|
    (E.getFact id).modifyFact id fun fact => { fact with ruleOutput := true, implicit := false }

/-- `defineRule`.  Where it throws, the engine is not used any more (`none`). -/
def defineRule (E : RuleEngine Id V) (id : Id) (expr : RuleExpr Id V) :
    Option (RuleEngine Id V) :=
  if E.idInUse id then none
  else
    let E := E.compile id expr
    match E.isCircular id E.depth id with
    | some false =>
      let E := { E with rules := E.rules.set id (.new expr) }
      evaluate (update E.depth) none E id
    | _ => none

/-- The destructor of a rule, and its entry removed. -/
def deleteRule (E : RuleEngine Id V) (id : Id) (rule : Rule Id V) : RuleEngine Id V :=
  let E := rule.expr.vars.foldl
    (fun E v => E.modifyFact v.fact fun fact => fact.removeRuleDependency id) E
  { E with rules := E.rules.erase id }

/-- `undefineRule`. -/
def undefineRule (E : RuleEngine Id V) (id : Id) : Option (RuleEngine Id V) :=
  match E.rules.find? id with
  | none => some E
  | some rule => (retractFact (update E.depth) E id).map fun E => E.deleteRule id rule

/-- `undefineAllRules`. -/
def undefineAllRules (E : RuleEngine Id V) : Option (RuleEngine Id V) :=
  E.rules.keys.foldlM undefineRule E

/-! ### Assertions from outside -/

/-- `assert` by identifier.  A fact that is new gets the value of `false`. -/
def assertId (E : RuleEngine Id V) (id : Id) : Option (RuleEngine Id V) :=
  match E.facts.find? id with
  | some fact =>
    if fact.ruleOutput then some E
    else if !fact.asserted || decide (fact.value ≠ .void) then
      assertFact (update E.depth) E id .void
    else some E
  | none =>
    let E := { E with facts := E.facts.set id (.new true false) }
    assertFact (update E.depth) E id (.int 0)

/-- `assert` by identifier, with a value. -/
def assertValue (E : RuleEngine Id V) (id : Id) (value : Value V) : Option (RuleEngine Id V) :=
  match E.facts.find? id with
  | some fact =>
    if fact.ruleOutput then some E
    else if !fact.asserted || decide (fact.value ≠ value) then
      assertFact (update E.depth) E id value
    else some E
  | none =>
    let E := { E with facts := E.facts.set id { (.new true false : Fact Id V) with value } }
    assertFact (update E.depth) E id value

/-- `retract` by identifier. -/
def retractId (E : RuleEngine Id V) (id : Id) : Option (RuleEngine Id V) :=
  if (E.fact id).asserted && !(E.fact id).ruleOutput then retractFact (update E.depth) E id
  else some E

/-- `retractPrefix` and `retractAllFacts`: the facts whose identifiers meet a condition. -/
def retractWhere (p : Id → Bool) (E : RuleEngine Id V) : Option (RuleEngine Id V) :=
  (E.facts.keys.filter p).foldlM retractId E

/-- `getFactHandle`; it throws for the output of a rule. -/
def getFactHandle (E : RuleEngine Id V) (id : Id) : Except Unit (RuleEngine Id V) :=
  let E := E.getFact id
  if (E.fact id).ruleOutput then .error () else .ok E

/-- `assert` by handle. -/
def assertHandle (E : RuleEngine Id V) (id : Id) : Option (RuleEngine Id V) :=
  if (E.fact id).asserted then some E else assertFact (update E.depth) E id .void

/-- `assert` by handle, with a value. -/
def assertHandleValue (E : RuleEngine Id V) (id : Id) (value : Value V) :
    Option (RuleEngine Id V) :=
  if !(E.fact id).asserted || decide ((E.fact id).value ≠ value) then
    assertFact (update E.depth) E id value
  else some E

/-- `retract` by handle. -/
def retractHandle (E : RuleEngine Id V) (id : Id) : Option (RuleEngine Id V) :=
  if (E.fact id).asserted then retractFact (update E.depth) E id else some E

/-! ### Listeners and batches -/

/-- `getAsserted`. -/
def getAsserted (E : RuleEngine Id V) : List Id :=
  E.facts.keys.filter fun id => (E.fact id).asserted

/-- `attach`.  A new listener is sent what is asserted. -/
def attach (E : RuleEngine Id V) (listener : Nat) : RuleEngine Id V :=
  if E.listeners.any fun l => l.id = listener then E
  else { E with listeners := E.listeners ++ [⟨listener, E.getAsserted.map .asserted⟩] }

/-- `detach`. -/
def detach (E : RuleEngine Id V) (listener : Nat) : RuleEngine Id V :=
  { E with listeners := E.listeners.eraseP fun l => l.id = listener }

/-- `beginBatch`. -/
def beginBatch (E : RuleEngine Id V) : RuleEngine Id V :=
  if E.batch then E
  else { E with
    batch := true
    oldFacts := E.getAsserted.map fun id => (id, (E.fact id).value)
    newFacts := E.newFacts ++ E.getAsserted.filter fun id => id ∉ E.newFacts }

/-- What `endBatch` notifies listeners of. -/
def batchNotes (E : RuleEngine Id V) : List (Notification Id) :=
  (E.oldFacts.filter fun e => e.1 ∉ E.newFacts).map (fun e => .retracted e.1) ++
    (E.newFacts.filter fun id => match E.oldFacts.find? fun e => e.1 = id with
      | none => true
      | some e => e.2 ≠ (E.fact id).value).map .asserted

/-- `endBatch`. -/
def endBatch (E : RuleEngine Id V) : RuleEngine Id V :=
  if E.batch then
    { E.tellListeners E.batchNotes with batch := false, oldFacts := [], newFacts := [] }
  else E

/-- `synchronize`: the asserted facts of another engine that no rule puts out, and its
    listeners. -/
def synchronize (E source : RuleEngine Id V) : Option (RuleEngine Id V) := do
  let E := { E with
    batch := true
    listeners := E.listeners ++ source.listeners }
  let asserted := source.facts.entries.filter fun e => e.2.asserted && !e.2.ruleOutput
  let E ← asserted.foldlM (fun E e => E.assertValue e.1 e.2.value) E
  some { E with batch := false }

/-! ### Calls -/

/-- A call from outside. -/
inductive Call (Id V : Type) [LinearOrder Id] where
  | defineRule (id : Id) (expr : RuleExpr Id V)
  | undefineRule (id : Id)
  | undefineAllRules
  | assertId (id : Id)
  | assertValue (id : Id) (value : Value V)
  | retractId (id : Id)
  | retractWhere (p : Id → Bool)
  | getFactHandle (id : Id)
  | assertHandle (id : Id)
  | assertHandleValue (id : Id) (value : Value V)
  | retractHandle (id : Id)
  | attach (listener : Nat)
  | detach (listener : Nat)
  | beginBatch
  | endBatch
  | synchronize (source : RuleEngine Id V)

/-- What a call does; `none` where a rule is not defined. -/
def call (E : RuleEngine Id V) : Call Id V → Option (RuleEngine Id V)
  | .defineRule id expr => E.defineRule id expr
  | .undefineRule id => E.undefineRule id
  | .undefineAllRules => E.undefineAllRules
  | .assertId id => E.assertId id
  | .assertValue id value => E.assertValue id value
  | .retractId id => E.retractId id
  | .retractWhere p => E.retractWhere p
  | .getFactHandle id =>
    match E.getFactHandle id with
    | .ok E => some E
    | .error _ => some E
  | .assertHandle id => E.assertHandle id
  | .assertHandleValue id value => E.assertHandleValue id value
  | .retractHandle id => E.retractHandle id
  | .attach listener => some (E.attach listener)
  | .detach listener => some (E.detach listener)
  | .beginBatch => some E.beginBatch
  | .endBatch => some E.endBatch
  | .synchronize source => E.synchronize source

end RuleEngine

end Adara.Native
