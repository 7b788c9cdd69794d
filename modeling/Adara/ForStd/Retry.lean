import Mathlib.Data.List.Basic

/-! # Bounded retries

An attempt changes a state and may fail, and what it changed before it failed stays changed.
It is repeated, once for each element of a list, until it succeeds or fails for good; `none`
is an attempt that does not come back.  The outcome has all the failures, so that a result
can be stated for one of them wherever in the sequence it happened. -/

namespace Retry

variable {σ τ ε : Type*}

/-- What a sequence of attempts comes to. -/
structure Outcome (σ ε : Type*) where
  state : σ
  succeeded : Bool
  failures : List ε
deriving DecidableEq, Repr

/-- One attempt for each element of the list, until one succeeds or its failure is `fatal`. -/
def run (attempt : σ → τ → Option (σ × Option ε)) (fatal : ε → Bool) :
    σ → List τ → Option (Outcome σ ε)
  | s, [] => some ⟨s, false, []⟩
  | s, t :: ts =>
    (attempt s t).bind fun
      | (s, none) => some ⟨s, true, []⟩
      | (s, some e) =>
        if fatal e then some ⟨s, false, [e]⟩
        else (run attempt fatal s ts).map fun o => { o with failures := e :: o.failures }

variable {attempt : σ → τ → Option (σ × Option ε)} {fatal : ε → Bool}

/-- What the first attempt comes to: a success, a failure for good, or one that is followed
    by the other attempts. -/
theorem run_cons {s : σ} {t : τ} {ts : List τ} {o : Outcome σ ε}
    (h : run attempt fatal s (t :: ts) = some o) :
    (∃ s', attempt s t = some (s', none) ∧ o = ⟨s', true, []⟩) ∨
    (∃ s' e, attempt s t = some (s', some e) ∧ fatal e = true ∧ o = ⟨s', false, [e]⟩) ∨
    (∃ s' e o', attempt s t = some (s', some e) ∧ fatal e = false ∧
      run attempt fatal s' ts = some o' ∧
      o = ⟨o'.state, o'.succeeded, e :: o'.failures⟩) := by
  obtain ⟨⟨s', e⟩, hattempt, hrest⟩ := Option.bind_eq_some_iff.mp h
  cases e with
  | none => exact .inl ⟨s', hattempt, (Option.some.inj hrest).symm⟩
  | some e =>
    simp only at hrest
    cases hfatal : fatal e with
    | true =>
      rw [if_pos hfatal] at hrest
      exact .inr (.inl ⟨s', e, hattempt, hfatal, (Option.some.inj hrest).symm⟩)
    | false =>
      rw [if_neg (by simp [hfatal])] at hrest
      obtain ⟨o', hrun, rfl⟩ := Option.map_eq_some_iff.mp hrest
      exact .inr (.inr ⟨s', e, o', hattempt, hfatal, hrun, rfl⟩)

/-- Attempts without success have failed. -/
theorem failures_ne_nil {s : σ} {t : τ} {ts : List τ} {o : Outcome σ ε}
    (h : run attempt fatal s (t :: ts) = some o) (hsucceeded : o.succeeded = false) :
    o.failures ≠ [] := by
  obtain ⟨s', -, rfl⟩ | ⟨s', e, -, -, rfl⟩ | ⟨s', e, o', -, -, -, rfl⟩ := run_cons h
  · cases hsucceeded
  · exact List.cons_ne_nil e []
  · exact List.cons_ne_nil e o'.failures

/-- What every attempt keeps, failed or not, all of them keep. -/
theorem run_invariant {I : σ → Prop}
    (hattempt : ∀ s t s' e, I s → attempt s t = some (s', e) → I s')
    {s : σ} {ts : List τ} {o : Outcome σ ε} (h0 : I s)
    (h : run attempt fatal s ts = some o) : I o.state := by
  induction ts generalizing s o with
  | nil => exact Option.some.inj h ▸ h0
  | cons t ts ih =>
    obtain ⟨s', hstep, rfl⟩ | ⟨s', e, hstep, -, rfl⟩ | ⟨s', e, o', hstep, -, hrun, rfl⟩ :=
      run_cons h
    · exact hattempt s t s' none h0 hstep
    · exact hattempt s t s' (some e) h0 hstep
    · exact ih (o := o') (hattempt s t s' (some e) h0 hstep) hrun

/-- A success is that of one attempt, from a state that the failures before it kept. -/
theorem run_succeeded {I Q : σ → Prop}
    (hattempt : ∀ s t s' e, I s → attempt s t = some (s', e) → I s')
    (hsuccess : ∀ s t s', I s → attempt s t = some (s', none) → Q s')
    {s : σ} {ts : List τ} {o : Outcome σ ε} (h0 : I s)
    (h : run attempt fatal s ts = some o) (hsucceeded : o.succeeded = true) : Q o.state := by
  induction ts generalizing s o with
  | nil =>
    obtain rfl := Option.some.inj h
    cases hsucceeded
  | cons t ts ih =>
    obtain ⟨s', hstep, rfl⟩ | ⟨s', e, hstep, -, rfl⟩ | ⟨s', e, o', hstep, -, hrun, rfl⟩ :=
      run_cons h
    · exact hsuccess s t s' h0 hstep
    · cases hsucceeded
    · exact ih (o := o') (hattempt s t s' (some e) h0 hstep) hrun hsucceeded

/-- What a failure of some kind leaves behind is there at the end, if the attempts after it
    keep it. -/
theorem run_failure {P : ε → Prop} {Q : σ → Prop}
    (hfail : ∀ s t s' e, P e → attempt s t = some (s', some e) → Q s')
    (hattempt : ∀ s t s' e, Q s → attempt s t = some (s', e) → Q s')
    {s : σ} {ts : List τ} {o : Outcome σ ε}
    (h : run attempt fatal s ts = some o) (hfailure : ∃ e ∈ o.failures, P e) : Q o.state := by
  obtain ⟨e, he, hP⟩ := hfailure
  induction ts generalizing s o with
  | nil =>
    obtain rfl := Option.some.inj h
    cases he
  | cons t ts ih =>
    obtain ⟨s', hstep, rfl⟩ | ⟨s', e', hstep, -, rfl⟩ | ⟨s', e', o', hstep, -, hrun, rfl⟩ :=
      run_cons h
    · cases he
    · obtain rfl := List.mem_singleton.mp he
      exact hfail s t s' e hP hstep
    · -- the failure is that of this attempt, or of a later one
      obtain rfl | he := List.mem_cons.mp he
      · exact run_invariant (o := o') hattempt (hfail s t s' e hP hstep) hrun
      · exact ih (o := o') hrun he

end Retry
