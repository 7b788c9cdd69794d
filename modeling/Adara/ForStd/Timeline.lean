import Mathlib.Data.List.Chain

/-! # Stacks of periods of time

A stack of periods, the current one first, which is not over.  It is gapless if every time
since the oldest period began is in one of them.  That stays so when the current period ends
and a new one begins where it ended, whatever that time is, and when all the periods that
ended up to some time are taken off the stack.  It is a timeline if each period ends right
before the next one begins; then no time is in two of them. -/

/-- A period of time.  It ends with `hi`, or it is not over. -/
structure Period where
  lo : Nat
  hi : Option Nat
deriving DecidableEq, Repr

namespace Period

/-- The time is in the period. -/
def Holds (p : Period) (t : Nat) : Prop := p.lo ≤ t ∧ ∀ h ∈ p.hi, t ≤ h

instance (p : Period) (t : Nat) : Decidable (p.Holds t) :=
  inferInstanceAs (Decidable (_ ∧ _))

/-! ### Gapless stacks -/

/-- The periods are over, and there is no gap between them and time `t`. -/
def Reach (t : Nat) : List Period → Prop
  | [] => True
  | p :: ps => (∃ e, p.hi = some e ∧ t ≤ e + 1) ∧ Reach p.lo ps

/-- The first period is the current one, and there is no gap between the periods. -/
def Gapless : List Period → Prop
  | [] => False
  | p :: ps => p.hi = none ∧ Reach p.lo ps

theorem Reach.cover {t : Nat} {ps : List Period} (h : Reach t ps) {s : Nat} (hs : s < t) :
    (∃ p ∈ ps, p.Holds s) ∨ ∀ p ∈ ps, s < p.lo := by
  induction ps generalizing t with
  | nil => simp
  | cons p ps ih =>
    obtain ⟨⟨e, he, hreach⟩, hrest⟩ := h
    by_cases hlo : p.lo ≤ s
    · refine .inl ⟨p, List.mem_cons_self, hlo, fun e' he' => ?_⟩
      obtain rfl := Option.some.inj (he.symm.trans he')
      omega
    · -- the time is before this period
      have hlo : s < p.lo := by omega
      refine (ih hrest hlo).imp (fun ⟨q, hq, hqs⟩ => ⟨q, List.mem_cons_of_mem _ hq, hqs⟩) ?_
      intro hall q hq
      obtain rfl | hq := List.mem_cons.mp hq
      · exact hlo
      · exact hall q hq

/-- Every time is in one of the periods, or before all of them. -/
theorem Gapless.cover {ps : List Period} (h : Gapless ps) (s : Nat) :
    (∃ p ∈ ps, p.Holds s) ∨ ∀ p ∈ ps, s < p.lo := by
  cases ps with
  | nil => simp
  | cons p ps =>
    by_cases hlo : p.lo ≤ s
    · exact .inl ⟨p, List.mem_cons_self, hlo, by simp [h.1]⟩
    · have hlo : s < p.lo := by omega
      refine (h.2.cover hlo).imp (fun ⟨q, hq, hqs⟩ => ⟨q, List.mem_cons_of_mem _ hq, hqs⟩) ?_
      intro hall q hq
      obtain rfl | hq := List.mem_cons.mp hq
      · exact hlo
      · exact hall q hq

/-- The current period ends at any time, and a new one begins right after that. -/
theorem Gapless.push {p : Period} {ps : List Period} (h : Gapless (p :: ps)) (e : Nat) :
    Gapless (⟨e + 1, none⟩ :: ⟨p.lo, some e⟩ :: ps) :=
  ⟨rfl, ⟨e, rfl, Nat.le_refl _⟩, h.2⟩

/-- What has a period that ended up to `d` before time `x` is taken out.  What is left in front
    of it reaches back to it, and what is left behind it ended later. -/
theorem Reach.filter {α : Type*} {g : α → Period} {t t' x d : Nat} {keep : α → Bool}
    {as : List α} (h : Reach t' (as.map g))
    (hkeep : ∀ a ∈ as, ∀ e ∈ (g a).hi, keep a = decide (x < e + d))
    (ht : t = t' ∨ t + d ≤ x + 1) : Reach t ((as.filter keep).map g) := by
  induction as generalizing t t' with
  | nil => trivial
  | cons a as ih =>
    obtain ⟨⟨e, he, hreach⟩, hrest⟩ := h
    have ha := hkeep a List.mem_cons_self e he
    have htail := fun {t₀} => @ih t₀ (g a).lo hrest fun b hb => hkeep b (List.mem_cons_of_mem _ hb)
    by_cases hx : x < e + d
    · rw [List.filter_cons_of_pos (by simpa [hx] using ha)]
      exact ⟨⟨e, he, by omega⟩, htail (.inl rfl)⟩
    · rw [List.filter_cons_of_neg (by simp [ha, hx])]
      exact htail (.inr (by omega))

/-- Only what is behind the first periods changes. -/
theorem Reach.append_congr {t : Nat} {ps qs qs' : List Period} (h : Reach t (ps ++ qs))
    (hqs : ∀ {t}, Reach t qs → Reach t qs') : Reach t (ps ++ qs') := by
  induction ps generalizing t with
  | nil => exact hqs h
  | cons p ps ih => exact ⟨h.1, ih h.2⟩

/-- The same, behind the first periods of a stack. -/
theorem Gapless.filter {α : Type*} {g : α → Period} {x d : Nat} {keep : α → Bool}
    {front : List α} {a : α} {behind : List α} (h : Gapless ((front ++ a :: behind).map g))
    (hkeep : ∀ b ∈ behind, ∀ e ∈ (g b).hi, keep b = decide (x < e + d)) :
    Gapless ((front ++ a :: behind.filter keep).map g) := by
  have hrest : ∀ {t}, Reach t (behind.map g) → Reach t ((behind.filter keep).map g) :=
    fun hb => hb.filter hkeep (.inl rfl)
  rw [List.map_append, List.map_cons] at h ⊢
  cases front with
  | nil => exact ⟨h.1, hrest h.2⟩
  | cons b front => exact ⟨h.1, h.2.append_congr fun ha => ⟨ha.1, hrest ha.2⟩⟩

/-! ### Timelines -/

/-- The periods are over, the last of them right before time `t`. -/
def EndAt (t : Nat) : List Period → Prop
  | [] => True
  | p :: ps => (∃ e, p.hi = some e ∧ e + 1 = t ∧ p.lo ≤ e) ∧ EndAt p.lo ps

/-- The first period is the current one, and before it come the ones that are over. -/
def IsTimeline : List Period → Prop
  | [] => False
  | p :: ps => p.hi = none ∧ EndAt p.lo ps

theorem EndAt.lt {t : Nat} {ps : List Period} (h : EndAt t ps) :
    ∀ p ∈ ps, ∃ e, p.hi = some e ∧ p.lo ≤ e ∧ e < t := by
  induction ps generalizing t with
  | nil => simp
  | cons p ps ih =>
    obtain ⟨⟨e, he, hlt, hle⟩, hrest⟩ := h
    intro q hq
    obtain rfl | hq := List.mem_cons.mp hq
    · exact ⟨e, he, hle, by omega⟩
    · obtain ⟨e', he', hle', hlt'⟩ := ih hrest q hq
      exact ⟨e', he', hle', by omega⟩

/-- From the end on no time is in one of the periods. -/
theorem EndAt.not_holds {t s : Nat} {ps : List Period} (h : EndAt t ps) (hs : t ≤ s) :
    ∀ p ∈ ps, ¬ p.Holds s := by
  intro p hp hps
  obtain ⟨e, he, -, hlt⟩ := h.lt p hp
  have := hps.2 e he
  omega

theorem EndAt.disjoint {t : Nat} {ps : List Period} (h : EndAt t ps) :
    ps.Pairwise fun p q => ∀ s, p.Holds s → ¬ q.Holds s := by
  induction ps generalizing t with
  | nil => exact .nil
  | cons p ps ih =>
    exact List.pairwise_cons.mpr ⟨fun q hq s hp => h.2.not_holds hp.1 q hq, ih h.2⟩

/-- No time is in two of the periods. -/
theorem IsTimeline.disjoint {ps : List Period} (h : IsTimeline ps) :
    ps.Pairwise fun p q => ∀ s, p.Holds s → ¬ q.Holds s := by
  cases ps with
  | nil => exact .nil
  | cons p ps =>
    exact List.pairwise_cons.mpr ⟨fun q hq s hp => h.2.not_holds hp.1 q hq, h.2.disjoint⟩

/-- The current period ends, and a new one begins. -/
theorem IsTimeline.push {p : Period} {ps : List Period} (h : IsTimeline (p :: ps)) {e : Nat}
    (he : p.lo ≤ e) : IsTimeline (⟨e + 1, none⟩ :: ⟨p.lo, some e⟩ :: ps) :=
  ⟨rfl, ⟨e, rfl, rfl, he⟩, h.2⟩

theorem EndAt.isChain {p : Period} {ps : List Period} (h : EndAt p.lo ps) :
    (p :: ps).IsChain fun newer older => ∃ e, older.hi = some e ∧ e + 1 = newer.lo := by
  induction ps generalizing p with
  | nil => exact .singleton p
  | cons q ps ih =>
    obtain ⟨e, he, hnext, -⟩ := h.1
    exact .cons_cons ⟨e, he, hnext⟩ (ih h.2)

/-- Each period ends right before the next one begins. -/
theorem IsTimeline.isChain {ps : List Period} (h : IsTimeline ps) :
    ps.IsChain fun newer older => ∃ e, older.hi = some e ∧ e + 1 = newer.lo := by
  cases ps with
  | nil => exact .nil
  | cons p ps => exact h.2.isChain

/-- When a period ended up to `d` before time `x`, all the older ones ended earlier. -/
theorem filter_eq_nil_of_over {α : Type*} {g : α → Period} {e x d : Nat} {keep : α → Bool} {a : α}
    {as : List α} (hkeep : ∀ b ∈ a :: as, ∀ e ∈ (g b).hi, keep b = decide (x < e + d))
    (hrest : EndAt (g a).lo (as.map g)) (he : (g a).hi = some e) (hx : ¬ x < e + d)
    (hle : (g a).lo ≤ e) : (a :: as).filter keep = [] := by
  refine List.filter_eq_nil_iff.mpr fun b hb => ?_
  obtain rfl | hb' := List.mem_cons.mp hb
  · simp [hkeep b hb e he, hx]
  · obtain ⟨e', he', -, hlt⟩ := hrest.lt _ (List.mem_map_of_mem hb')
    simp [hkeep b hb e' he', show ¬ x < e' + d by omega]

/-- Of the periods of a timeline, those that ended up to `d` before time `x` are the oldest
    ones. -/
theorem EndAt.filter {α : Type*} {g : α → Period} {t x d : Nat} {keep : α → Bool} {as : List α}
    (h : EndAt t (as.map g)) (hkeep : ∀ a ∈ as, ∀ e ∈ (g a).hi, keep a = decide (x < e + d)) :
    EndAt t ((as.filter keep).map g) := by
  induction as generalizing t with
  | nil => trivial
  | cons a as ih =>
    obtain ⟨⟨e, he, hnext, hle⟩, hrest⟩ := h
    have ha := hkeep a List.mem_cons_self e he
    by_cases hx : x < e + d
    · rw [List.filter_cons_of_pos (by simpa [hx] using ha)]
      exact ⟨⟨e, he, hnext, hle⟩, ih hrest fun b hb => hkeep b (List.mem_cons_of_mem _ hb)⟩
    · rw [filter_eq_nil_of_over hkeep hrest he hx hle]
      trivial

/-- What is left are the newest ones. -/
theorem EndAt.filter_isPrefix {α : Type*} {g : α → Period} {t x d : Nat} {keep : α → Bool}
    {as : List α} (h : EndAt t (as.map g))
    (hkeep : ∀ a ∈ as, ∀ e ∈ (g a).hi, keep a = decide (x < e + d)) : as.filter keep <+: as := by
  induction as generalizing t with
  | nil => exact List.prefix_rfl
  | cons a as ih =>
    obtain ⟨⟨e, he, hnext, hle⟩, hrest⟩ := h
    have ha := hkeep a List.mem_cons_self e he
    by_cases hx : x < e + d
    · rw [List.filter_cons_of_pos (by simpa [hx] using ha)]
      exact (List.prefix_cons_inj a).mpr (ih hrest fun b hb => hkeep b (List.mem_cons_of_mem _ hb))
    · rw [filter_eq_nil_of_over hkeep hrest he hx hle]
      exact List.nil_prefix

theorem EndAt.append_congr {t : Nat} {ps qs qs' : List Period} (h : EndAt t (ps ++ qs))
    (hqs : ∀ {t}, EndAt t qs → EndAt t qs') : EndAt t (ps ++ qs') := by
  induction ps generalizing t with
  | nil => exact hqs h
  | cons p ps ih => exact ⟨h.1, ih h.2⟩

/-- The same, behind the first periods of a stack. -/
theorem IsTimeline.filter {α : Type*} {g : α → Period} {x d : Nat} {keep : α → Bool}
    {front : List α} {a : α} {behind : List α} (h : IsTimeline ((front ++ a :: behind).map g))
    (hkeep : ∀ b ∈ behind, ∀ e ∈ (g b).hi, keep b = decide (x < e + d)) :
    IsTimeline ((front ++ a :: behind.filter keep).map g) := by
  have hrest : ∀ {t}, EndAt t (behind.map g) → EndAt t ((behind.filter keep).map g) :=
    fun hb => hb.filter hkeep
  rw [List.map_append, List.map_cons] at h ⊢
  cases front with
  | nil => exact ⟨h.1, hrest h.2⟩
  | cons b front => exact ⟨h.1, h.2.append_congr fun ha => ⟨ha.1, hrest ha.2⟩⟩

/-- What is left behind the first periods are the newest ones there. -/
theorem IsTimeline.filter_isPrefix {α : Type*} {g : α → Period} {x d : Nat} {keep : α → Bool}
    {front : List α} {a : α} {behind : List α} (h : IsTimeline ((front ++ a :: behind).map g))
    (hkeep : ∀ b ∈ behind, ∀ e ∈ (g b).hi, keep b = decide (x < e + d)) :
    behind.filter keep <+: behind := by
  have hbehind : ∀ {t : Nat} {as : List α}, EndAt t ((as ++ a :: behind).map g) →
      EndAt (g a).lo (behind.map g) := by
    intro t as hend
    induction as generalizing t with
    | nil => exact hend.2
    | cons b as ih => exact ih hend.2
  cases front with
  | nil => exact EndAt.filter_isPrefix h.2 hkeep
  | cons b front => exact (hbehind h.2).filter_isPrefix hkeep

end Period
