/-! # Computations with a trace

A computation that may throw, with the places it touches on the way.  What holds of a
computation that returns is said by `Returns`, with one rule for each way to build one. -/

structure Traced (ε τ α : Type) where
  result : Except ε α
  touched : List τ

namespace Traced

variable {ε τ α β : Type}

def pure (a : α) : Traced ε τ α := ⟨.ok a, []⟩

def bind (x : Traced ε τ α) (f : α → Traced ε τ β) : Traced ε τ β :=
  match x.result with
  | .error e => ⟨.error e, x.touched⟩
  | .ok a => ⟨(f a).result, x.touched ++ (f a).touched⟩

instance : Monad (Traced ε τ) where
  pure := Traced.pure
  bind := Traced.bind

def throw (e : ε) : Traced ε τ α := ⟨.error e, []⟩

/-- Touch some places. -/
def touch (places : List τ) : Traced ε τ Unit := ⟨.ok (), places⟩

/-- What holds of the value and the places touched, if the computation returns. -/
def Returns (x : Traced ε τ α) (Q : α → List τ → Prop) : Prop :=
  ∀ a, x.result = .ok a → Q a x.touched

@[simp] theorem returns_pure {a : α} {Q : α → List τ → Prop} :
    Returns (Pure.pure a : Traced ε τ α) Q ↔ Q a [] := by
  constructor
  · exact fun h => h a rfl
  · rintro h _ ⟨⟩
    exact h

@[simp] theorem returns_throw {e : ε} {Q : α → List τ → Prop} :
    Returns (throw e : Traced ε τ α) Q ↔ True :=
  iff_true_intro nofun

@[simp] theorem returns_touch {places : List τ} {Q : Unit → List τ → Prop} :
    Returns (touch places : Traced ε τ Unit) Q ↔ Q () places := by
  constructor
  · exact fun h => h () rfl
  · exact fun h _ _ => h

/-- A sequence returns what its second part does, and touches the places of both. -/
@[simp] theorem returns_bind {x : Traced ε τ α} {f : α → Traced ε τ β} {Q : β → List τ → Prop} :
    Returns (x >>= f) Q ↔
      Returns x fun a places => Returns (f a) fun b places' => Q b (places ++ places') := by
  change (∀ b, (x.bind f).result = .ok b → Q b (x.bind f).touched) ↔ _
  unfold bind
  constructor
  · intro h a ha b hb
    simp only [ha] at h
    exact h b hb
  · intro h b hb
    cases hx : x.result with
    | error e =>
      simp only [hx] at hb
      cases hb
    | ok a =>
      simp only [hx] at hb ⊢
      exact h a hx b hb

/-- A sequence that returns has two parts that do. -/
theorem bind_result_eq_ok {x : Traced ε τ α} {f : α → Traced ε τ β} {b : β} :
    (x >>= f).result = .ok b ↔ ∃ a, x.result = .ok a ∧ (f a).result = .ok b := by
  change (x.bind f).result = .ok b ↔ _
  unfold bind
  cases hx : x.result with
  | error e =>
    constructor
    · intro h
      cases h
    · rintro ⟨a, ha, -⟩
      cases ha
  | ok a =>
    constructor
    · exact fun h => ⟨a, rfl, h⟩
    · rintro ⟨a', ha', h⟩
      cases ha'
      exact h

theorem bind_touched {x : Traced ε τ α} {f : α → Traced ε τ β} {a : α}
    (hx : x.result = .ok a) : (x >>= f).touched = x.touched ++ (f a).touched := by
  change (x.bind f).touched = _
  unfold bind
  rw [hx]

@[simp] theorem returns_ite {c : Prop} [Decidable c] {x y : Traced ε τ α}
    {Q : α → List τ → Prop} :
    Returns (if c then x else y) Q ↔ (c → Returns x Q) ∧ (¬ c → Returns y Q) := by
  by_cases hc : c
  · simp [hc]
  · simp [hc]

end Traced
