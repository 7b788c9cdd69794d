import Mathlib.Data.List.Basic

/-! # Runs of a partial step function

A system is a step function `σ → α → Option σ`: on a state and an operation it
gives the next state, or `none` where the operation cannot be performed.  A run
performs a list of operations in order.  `Runs.along` says that a condition holds
of every step a run takes, so that a result can be stated for the runs that avoid
a known bad step.  An invariant is proved for one step and carried over a whole
run by `Runs.invariant` and `Runs.invariant_along`. -/

namespace Runs

variable {σ α : Type*}

/-- Perform the operations in order, stopping at the first that cannot be
    performed. -/
def run (step : σ → α → Option σ) : σ → List α → Option σ
  | s, [] => some s
  | s, a :: ops => (step s a).bind (run step · ops)

/-- Every step of the run from `s` meets `ok`. -/
def along (step : σ → α → Option σ) (ok : σ → α → Prop) : σ → List α → Prop
  | _, [] => True
  | s, a :: ops => ok s a ∧ ∀ s' ∈ step s a, along step ok s' ops

/-- What `f` tells of the steps of a run, in order. -/
def collect {β : Type*} (step : σ → α → Option σ) (f : σ → α → List β) : σ → List α → List β
  | _, [] => []
  | s, a :: ops => f s a ++ (step s a).elim [] fun s' => collect step f s' ops

variable {step : σ → α → Option σ} {ok : σ → α → Prop}

instance decidableAlong [∀ s a, Decidable (ok s a)] :
    (s : σ) → (ops : List α) → Decidable (along step ok s ops)
  | _, [] => instDecidableTrue
  | s, a :: ops =>
    have : ∀ s', Decidable (along step ok s' ops) := fun s' => decidableAlong s' ops
    inferInstanceAs (Decidable (ok s a ∧ ∀ s' ∈ step s a, along step ok s' ops))

@[simp] theorem run_nil (s : σ) : run step s [] = some s := rfl

@[simp] theorem along_nil (s : σ) : along step ok s [] := trivial

/-- A run of a nonempty list takes its first step and then runs the rest. -/
theorem run_cons {s s' : σ} {a : α} {ops : List α} (h : run step s (a :: ops) = some s') :
    ∃ t, step s a = some t ∧ run step t ops = some s' :=
  Option.bind_eq_some_iff.mp h

theorem run_append (s : σ) (as bs : List α) :
    run step s (as ++ bs) = (run step s as).bind (run step · bs) := by
  induction as generalizing s with
  | nil => rfl
  | cons a as ih =>
    simp only [List.cons_append, run, Option.bind_assoc]
    exact congrArg _ (funext fun t => ih t)

/-- A loop that may stop is a run. -/
theorem foldlM_eq_run (s : σ) (as : List α) : as.foldlM step s = run step s as := by
  induction as generalizing s with
  | nil => rfl
  | cons a as ih =>
    rw [List.foldlM_cons, run]
    exact congrArg _ (funext ih)

/-- A run meets a condition if it does in a first part, and then from where that part
    ends. -/
theorem along_append {s : σ} {as bs : List α} :
    along step ok s (as ++ bs) ↔
      along step ok s as ∧ ∀ t ∈ run step s as, along step ok t bs := by
  induction as generalizing s with
  | nil => exact ⟨fun h => ⟨trivial, fun t ht => Option.some.inj ht ▸ h⟩, fun h => h.2 s rfl⟩
  | cons a as ih =>
    refine ⟨fun h => ⟨⟨h.1, fun t ht => (ih.mp (h.2 t ht)).1⟩, fun t ht => ?_⟩,
      fun h => ⟨h.1.1, fun t ht => ih.mpr ⟨h.1.2 t ht, fun u hu => h.2 u ?_⟩⟩⟩
    · obtain ⟨u, hu, hrest⟩ := run_cons ht
      exact (ih.mp (h.2 u hu)).2 t hrest
    · rw [run, ht]
      exact hu

/-- A run whose steps meet a condition meets every weaker one. -/
theorem along.imp {ok' : σ → α → Prop} (hok : ∀ s a, ok s a → ok' s a) {s : σ} {ops : List α}
    (h : along step ok s ops) : along step ok' s ops := by
  induction ops generalizing s with
  | nil => trivial
  | cons a ops ih => exact ⟨hok s a h.1, fun s' hs' => ih (h.2 s' hs')⟩

/-- A condition met by every step is met along every run. -/
theorem along_of_forall (h : ∀ s a, ok s a) {s : σ} {ops : List α} : along step ok s ops := by
  induction ops generalizing s with
  | nil => trivial
  | cons a ops ih => exact ⟨h s a, fun _ _ => ih⟩

/-- Two conditions that are met along a run are met together. -/
theorem along.and {ok' : σ → α → Prop} {s : σ} {ops : List α} (h : along step ok s ops)
    (h' : along step ok' s ops) : along step (fun s a => ok s a ∧ ok' s a) s ops := by
  induction ops generalizing s with
  | nil => trivial
  | cons a ops ih => exact ⟨⟨h.1, h'.1⟩, fun s' hs' => ih (h.2 s' hs') (h'.2 s' hs')⟩

/-- A condition on the operations alone is met along the run if it is met by each. -/
theorem along.and_forall {q : α → Prop} {s : σ} {ops : List α} (h : along step ok s ops)
    (hq : ∀ a ∈ ops, q a) : along step (fun s a => ok s a ∧ q a) s ops := by
  induction ops generalizing s with
  | nil => trivial
  | cons a ops ih =>
    obtain ⟨ha, hrest⟩ := List.forall_mem_cons.mp hq
    exact ⟨⟨h.1, ha⟩, fun s' hs' => ih (h.2 s' hs') hrest⟩

/-- Where every step that meets the condition can be performed and preserves `I`, a run
    whose steps all meet the condition comes to its end. -/
theorem exists_run_along {I : σ → Prop}
    (hstep : ∀ s a, I s → ok s a → ∃ s', step s a = some s' ∧ I s')
    {s : σ} {ops : List α} (h0 : I s) (hok : along step ok s ops) :
    ∃ s', run step s ops = some s' ∧ I s' := by
  induction ops generalizing s with
  | nil => exact ⟨s, rfl, h0⟩
  | cons a ops ih =>
    obtain ⟨t, ht, hI⟩ := hstep s a h0 hok.1
    obtain ⟨s', hrun, hI'⟩ := ih hI (hok.2 t ht)
    exact ⟨s', by rw [run, ht]; exact hrun, hI'⟩

/-- The same for a relation between the operations performed so far and the state. -/
theorem exists_run_along_log {I : List α → σ → Prop}
    (hstep : ∀ done s a, I done s → ok s a → ∃ s', step s a = some s' ∧ I (done ++ [a]) s')
    {done : List α} {s : σ} {ops : List α} (h0 : I done s) (hok : along step ok s ops) :
    ∃ s', run step s ops = some s' ∧ I (done ++ ops) s' := by
  induction ops generalizing done s with
  | nil => exact ⟨s, rfl, by rwa [List.append_nil]⟩
  | cons a ops ih =>
    obtain ⟨t, ht, hI⟩ := hstep done s a h0 hok.1
    obtain ⟨s', hrun, hI'⟩ := ih hI (hok.2 t ht)
    rw [List.append_assoc] at hI'
    exact ⟨s', by rw [run, ht]; exact hrun, hI'⟩

/-- What one step preserves where the condition holds, a run whose steps all meet
    the condition preserves. -/
theorem invariant_along {I : σ → Prop}
    (hstep : ∀ s a s', I s → ok s a → step s a = some s' → I s')
    {s s' : σ} {ops : List α} (h0 : I s) (hok : along step ok s ops)
    (h : run step s ops = some s') : I s' := by
  induction ops generalizing s with
  | nil => exact Option.some.inj h ▸ h0
  | cons a ops ih =>
    obtain ⟨t, ht, hrest⟩ := run_cons h
    exact ih (hstep s a t h0 hok.1 ht) (hok.2 t ht) hrest

/-- What every step preserves, every run preserves. -/
theorem invariant {I : σ → Prop}
    (hstep : ∀ s a s', I s → step s a = some s' → I s')
    {s s' : σ} {ops : List α} (h0 : I s) (h : run step s ops = some s') : I s' := by
  induction ops generalizing s with
  | nil => exact Option.some.inj h ▸ h0
  | cons a ops ih =>
    obtain ⟨t, ht, hrest⟩ := run_cons h
    exact ih (hstep s a t h0 ht) hrest

/-- Runs of some lists after each other are a run of all of them. -/
theorem run_flatten (s : σ) (opss : List (List α)) :
    run (run step) s opss = run step s opss.flatten := by
  induction opss generalizing s with
  | nil => rfl
  | cons ops opss ih =>
    rw [List.flatten_cons, run_append, run]
    exact congrArg _ (funext ih)

/-- A condition is met along all of them if it is along the runs of each. -/
theorem along_flatten {s : σ} {opss : List (List α)} :
    along (run step) (along step ok) s opss ↔ along step ok s opss.flatten := by
  induction opss generalizing s with
  | nil => exact Iff.rfl
  | cons ops opss ih =>
    rw [List.flatten_cons, along_append, along]
    exact and_congr_right fun _ => forall₂_congr fun _ _ => ih

/-- Where the condition is one on the operation alone, and a step that meets it can be performed,
    it is met along a run just if it is met by each operation. -/
theorem along_iff_forall {I : σ → Prop} {q : α → Prop} (hiff : ∀ s a, I s → (ok s a ↔ q a))
    (hstep : ∀ s a, I s → q a → ∃ s', step s a = some s' ∧ I s') {s : σ} {ops : List α}
    (h0 : I s) : along step ok s ops ↔ ∀ a ∈ ops, q a := by
  induction ops generalizing s with
  | nil => exact iff_of_true trivial nofun
  | cons a ops ih =>
    rw [along, List.forall_mem_cons, hiff s a h0]
    refine and_congr_right fun ha => ?_
    obtain ⟨t, ht, hI⟩ := hstep s a h0 ha
    constructor
    · exact fun h => (ih hI).mp (h t ht)
    · intro h t' ht'
      cases ht.symm.trans ht'
      exact (ih hI).mpr h

/-- What each step adds from its operation, a run adds. -/
theorem run_collect {β : Type*} {f : σ → α → List β} {P : σ → σ → List β → Prop}
    (hnil : ∀ s, P s s []) (hcons : ∀ {s t u bs cs}, P s t bs → P t u cs → P s u (bs ++ cs))
    (hstep : ∀ s a s', step s a = some s' → P s s' (f s a)) {s s' : σ} {ops : List α}
    (h : run step s ops = some s') : P s s' (collect step f s ops) := by
  induction ops generalizing s with
  | nil => exact Option.some.inj h ▸ hnil s
  | cons a ops ih =>
    obtain ⟨t, ht, hrest⟩ := run_cons h
    rw [collect, ht]
    exact hcons (hstep s a t ht) (ih hrest)

/-- What is told in two ways of each step that meets the condition is told of a run. -/
theorem collect_along {β γ : Type*} {f : σ → α → List β} {g : σ → α → List γ}
    {R : List β → List γ → Prop} {I : σ → Prop} (hnil : R [] [])
    (hcons : ∀ {bs bs' cs cs'}, R bs cs → R bs' cs' → R (bs ++ bs') (cs ++ cs'))
    (hstep : ∀ s a, I s → ok s a → R (f s a) (g s a))
    (hinv : ∀ s a s', I s → step s a = some s' → I s') {s : σ} {ops : List α} (h0 : I s)
    (hok : along step ok s ops) : R (collect step f s ops) (collect step g s ops) := by
  induction ops generalizing s with
  | nil => exact hnil
  | cons a ops ih =>
    apply hcons (hstep s a h0 hok.1)
    cases ht : step s a with
    | none => exact hnil
    | some t => exact ih (hinv s a t h0 ht) (hok.2 t ht)

/-- What holds of a state and of what the steps before have added holds at the end of a run whose
    steps all meet the condition. -/
theorem invariant_collect {β : Type*} {f : σ → α → List β} {I : List β → σ → Prop}
    (hstep : ∀ log s a s', I log s → ok s a → step s a = some s' → I (log ++ f s a) s')
    {log : List β} {s s' : σ} {ops : List α} (h0 : I log s) (hok : along step ok s ops)
    (h : run step s ops = some s') : I (log ++ collect step f s ops) s' := by
  induction ops generalizing s log with
  | nil =>
    rw [collect, List.append_nil]
    exact Option.some.inj h ▸ h0
  | cons a ops ih =>
    obtain ⟨t, ht, hrest⟩ := run_cons h
    rw [collect, ht, ← List.append_assoc]
    exact ih (hstep log s a t h0 hok.1 ht) (hok.2 t ht) hrest

end Runs
