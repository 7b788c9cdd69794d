import Mathlib.Data.List.Basic

/-! # Steps that keep a log

A step may fail, and else has a next state and a log of what it did.  `wp ok r P` is the weakest
precondition for a result: there is one, what it has logged is all `ok`, and its state meets
`P`.  For steps after each other the logs come behind each other (`wp_steps`). -/

namespace LoggedSteps

variable {σ α β : Type*} {ok : β → Prop} {r : Option (List β × σ)} {P Q : σ → Prop}

/-- There is a result, with nothing in its log that is not `ok`, and with a state for `P`. -/
def wp (ok : β → Prop) (r : Option (List β × σ)) (P : σ → Prop) : Prop :=
  ∃ log s, r = some (log, s) ∧ (∀ b ∈ log, ok b) ∧ P s

@[simp] theorem wp_some {log : List β} {s : σ} :
    wp ok (some (log, s)) P ↔ (∀ b ∈ log, ok b) ∧ P s := by
  constructor
  · rintro ⟨log', s', heq, hok, hP⟩
    cases heq
    exact ⟨hok, hP⟩
  · rintro ⟨hok, hP⟩
    exact ⟨log, s, rfl, hok, hP⟩

@[simp] theorem not_wp_none : ¬ wp ok (none : Option (List β × σ)) P := nofun

theorem wp.imp (h : wp ok r P) (himp : ∀ s, P s → Q s) : wp ok r Q := by
  obtain ⟨log, s, heq, hok, hP⟩ := h
  exact ⟨log, s, heq, hok, himp s hP⟩

/-- A step has only one result. -/
theorem wp.and (h : wp ok r P) (h' : wp ok r Q) : wp ok r fun s => P s ∧ Q s := by
  obtain ⟨log, s, heq, hok, hP⟩ := h
  obtain ⟨log', s', heq', -, hQ⟩ := h'
  cases heq.symm.trans heq'
  exact ⟨log, s, heq, hok, hP, hQ⟩

/-- One after the other, with their logs. -/
def andThen (r : Option (List β × σ)) (f : σ → Option (List β × σ)) : Option (List β × σ) :=
  r.bind fun done => (f done.2).map fun last => (done.1 ++ last.1, last.2)

theorem wp_andThen {f : σ → Option (List β × σ)} :
    wp ok (andThen r f) P ↔ wp ok r fun s => wp ok (f s) P := by
  cases r with
  | none => simp [andThen]
  | some done =>
    obtain ⟨log, s⟩ := done
    cases hf : f s with
    | none => simp [andThen, hf]
    | some last =>
      obtain ⟨log', s'⟩ := last
      have hand : andThen (some (log, s)) f = some (log ++ log', s') := by
        simp only [andThen, Option.bind_some, hf, Option.map_some]
      rw [hand, wp_some, wp_some, hf, wp_some, List.forall_mem_append, and_assoc]

/-- Steps for a list, in order. -/
def steps (step : σ → α → Option (List β × σ)) : σ → List α → Option (List β × σ)
  | s, [] => some ([], s)
  | s, a :: as => andThen (step s a) fun s' => steps step s' as

variable {step : σ → α → Option (List β × σ)} {good : α → Prop} {I : List α → σ → Prop}

/-- Where a step for something good works out and preserves `I`, so do the steps for a list of
    such things. -/
theorem wp_steps (hgood : ∀ done s a, I done s → good a → wp ok (step s a) (I (done ++ [a])))
    {done as : List α} {s : σ} (h : I done s) (has : ∀ a ∈ as, good a) :
    wp ok (steps step s as) (I (done ++ as)) := by
  induction as generalizing done s with
  | nil => exact wp_some.mpr ⟨nofun, by rwa [List.append_nil]⟩
  | cons a as ih =>
    obtain ⟨ha, has⟩ := List.forall_mem_cons.mp has
    rw [steps, wp_andThen]
    refine (hgood done s a h ha).imp fun t ht => ?_
    have hrest := ih ht has
    rwa [List.append_assoc] at hrest

/-- Where a step works out only for something good, steps that work out are for good things. -/
theorem good_of_wp_steps
    (hgood : ∀ done s a, I done s → good a → wp ok (step s a) (I (done ++ [a])))
    (hbad : ∀ done s a, I done s → wp ok (step s a) (fun _ => True) → good a)
    {done as : List α} {s : σ} (h : I done s) (hwp : wp ok (steps step s as) P) :
    ∀ a ∈ as, good a := by
  induction as generalizing done s with
  | nil => exact nofun
  | cons a as ih =>
    rw [steps, wp_andThen] at hwp
    have ha := hbad done s a h (hwp.imp fun _ _ => trivial)
    -- the state after the first step is one to go on from
    obtain ⟨-, t, -, -, hI, hrest⟩ := (hgood done s a h ha).and hwp
    exact List.forall_mem_cons.mpr ⟨ha, ih hI hrest⟩

end LoggedSteps
