import Mathlib.Algebra.Order.BigOperators.Group.List
import Mathlib.Algebra.Order.Group.Nat
import Mathlib.Algebra.Order.Ring.Int
import Mathlib.Logic.Function.Basic

/-! # Merging several queues by a key

Queues with names in a fixed order are merged into one list: the next entry is the front with
the smallest key, and among equal keys that of the first queue.  The search keeps the smallest
key so far, below a bound it starts from, as loops over iterators do it by hand.

The result has every queue as the part of its name, and if every queue is in order so is the
result. -/

namespace QueueMerge

variable {κ α : Type*} (key : α → Nat)

/-- The front to take next: the first of the smallest below `next`, or else `best`. -/
def pick (rest : κ → List α) : (names : List κ) → (next : Nat) → (best : Option (κ × α)) →
    Option (κ × α)
  | [], _, best => best
  | k :: names, next, best =>
    match rest k with
    | [] => pick rest names next best
    | e :: _ =>
      if key e < next then pick rest names (key e) (some (k, e)) else pick rest names next best

/-- Take fronts until there is none, at most `fuel` times. -/
def merge [DecidableEq κ] (names : List κ) (bound : Nat) :
    (fuel : Nat) → (κ → List α) → List (κ × α)
  | 0, _ => []
  | fuel + 1, rest =>
    match pick key rest names bound none with
    | none => []
    | some (k, e) =>
      (k, e) :: merge names bound fuel (Function.update rest k (rest k).tail)

/-- The number of entries in all queues. -/
def total (names : List κ) (rest : κ → List α) : Nat := (names.map fun k => (rest k).length).sum

/-! ### The order of the result -/

/-- By key, and among equal keys by the position of the queue. -/
def Before (idx : κ → Nat) (x y : κ × α) : Prop :=
  key x.2 < key y.2 ∨ key x.2 = key y.2 ∧ idx x.1 ≤ idx y.1

instance (idx : κ → Nat) (x y : κ × α) : Decidable (Before key idx x y) :=
  inferInstanceAs (Decidable (_ ∨ _))

variable {key} {idx : κ → Nat} {names : List κ} {rest : κ → List α} {bound : Nat}

/-- Entries behind one that comes later come later. -/
theorem Before.trans_le {x y z : κ × α} (h : Before key idx x y) (hkey : key y.2 ≤ key z.2)
    (hname : z.1 = y.1) : Before key idx x z := by
  rw [Before, hname]
  rcases h with hlt | ⟨heq, hle⟩
  · omega
  · omega

/-! ### The next entry -/

/-- The search ends with what it started from if no front is smaller, and otherwise with a front
    that comes before all others. -/
theorem pick_spec (key : α → Nat) (rest : κ → List α) (hnames : names.Pairwise (idx · < idx ·))
    (next : Nat) (best : Option (κ × α)) :
    (pick key rest names next best = best ∧
        ∀ k ∈ names, ∀ e ∈ (rest k).head?, next ≤ key e) ∨
      ∃ k e, pick key rest names next best = some (k, e) ∧ k ∈ names ∧
        (rest k).head? = some e ∧ key e < next ∧
        ∀ k' ∈ names, ∀ e' ∈ (rest k').head?, Before key idx (k, e) (k', e') := by
  induction names generalizing next best with
  | nil =>
    left
    exact ⟨rfl, fun _ hk => absurd hk List.not_mem_nil⟩
  | cons k names ih =>
    obtain ⟨hfirst, hnames⟩ := List.pairwise_cons.mp hnames
    rw [pick]
    cases hrest : rest k with
    | nil =>
      -- an empty queue is passed over
      simp only
      have hempty : ∀ e ∈ (rest k).head?, False := by simp [hrest]
      rcases ih hnames next best with ⟨heq, hle⟩ | ⟨k', e', heq, hk', hrest'⟩
      · left
        refine ⟨heq, List.forall_mem_cons.mpr ⟨fun e he => (hempty e he).elim, hle⟩⟩
      · right
        obtain ⟨hhead, hlt, hbefore⟩ := hrest'
        exact ⟨k', e', heq, List.mem_cons_of_mem _ hk', hhead, hlt,
          List.forall_mem_cons.mpr ⟨fun e he => (hempty e he).elim, hbefore⟩⟩
    | cons e tail =>
      simp only
      have hhead : (rest k).head? = some e := by rw [hrest, List.head?_cons]
      by_cases hlt : key e < next
      · rw [if_pos hlt]
        right
        rcases ih hnames (key e) (some (k, e)) with
          ⟨heq, hle⟩ | ⟨k', e', heq, hk', hhead', hlt', hbefore⟩
        · refine ⟨k, e, heq, List.mem_cons_self, hhead, hlt, ?_⟩
          rw [List.forall_mem_cons]
          constructor
          · intro e' he'
            rw [hhead, Option.mem_some_iff] at he'
            rw [← he']
            exact .inr ⟨rfl, Nat.le_refl _⟩
          · intro k' hk' e' he'
            have hle' := hle k' hk' e' he'
            have hidx := hfirst k' hk'
            simp only [Before]
            omega
        · refine ⟨k', e', heq, List.mem_cons_of_mem _ hk', hhead', by omega, ?_⟩
          rw [List.forall_mem_cons]
          refine ⟨?_, hbefore⟩
          intro e₂ he₂
          rw [hhead, Option.mem_some_iff] at he₂
          rw [← he₂]
          exact .inl hlt'
      · rw [if_neg hlt]
        have hle₀ : next ≤ key e := Nat.le_of_not_lt hlt
        rcases ih hnames next best with
          ⟨heq, hle⟩ | ⟨k', e', heq, hk', hhead', hlt', hbefore⟩
        · left
          refine ⟨heq, List.forall_mem_cons.mpr ⟨?_, hle⟩⟩
          intro e' he'
          rw [hhead, Option.mem_some_iff] at he'
          rw [← he']
          exact hle₀
        · right
          refine ⟨k', e', heq, List.mem_cons_of_mem _ hk', hhead', hlt', ?_⟩
          rw [List.forall_mem_cons]
          refine ⟨?_, hbefore⟩
          intro e₂ he₂
          rw [hhead, Option.mem_some_iff] at he₂
          rw [← he₂]
          exact .inl (by simp only; omega)

/-- Where all keys are below the bound, no entry is found only in empty queues. -/
theorem pick_eq_none (hnames : names.Pairwise (idx · < idx ·))
    (hbound : ∀ k ∈ names, ∀ e ∈ rest k, key e < bound)
    (h : pick key rest names bound none = none) : ∀ k ∈ names, rest k = [] := by
  rcases pick_spec key rest hnames bound none with
    ⟨-, hle⟩ | ⟨k, e, heq, -⟩
  · intro k hk
    cases hrest : rest k with
    | nil => rfl
    | cons e tail =>
      have hle' := hle k hk e (by rw [hrest]; rfl)
      have hlt := hbound k hk e (by rw [hrest]; exact List.mem_cons_self)
      omega
  · rw [h] at heq
    cases heq

/-- The entry taken is the front of its queue, and comes before all fronts. -/
theorem pick_eq_some (hnames : names.Pairwise (idx · < idx ·)) {k : κ} {e : α}
    (h : pick key rest names bound none = some (k, e)) :
    k ∈ names ∧ (∃ tail, rest k = e :: tail) ∧
      ∀ k' ∈ names, ∀ e' ∈ (rest k').head?, Before key idx (k, e) (k', e') := by
  rcases pick_spec key rest hnames bound none with
    ⟨heq, -⟩ | ⟨k', e', heq, hk, hhead, -, hbefore⟩
  · rw [h] at heq
    cases heq
  · rw [h, Option.some.injEq, Prod.mk.injEq] at heq
    obtain ⟨rfl, rfl⟩ := heq
    exact ⟨hk, List.head?_eq_some_iff.mp hhead, hbefore⟩

/-! ### The whole merge -/

section Merge

variable [DecidableEq κ]

theorem total_update_of_notMem {k : κ} (hk : k ∉ names) (tail : List α) :
    total names (Function.update rest k tail) = total names rest := by
  have hmap : (names.map fun k' => (Function.update rest k tail k').length) =
      names.map fun k' => (rest k').length := by
    apply List.map_congr_left
    intro k' hk'
    rw [Function.update_of_ne]
    intro heq
    exact hk (heq ▸ hk')
  rw [total, hmap, total]

theorem total_update (hnodup : names.Nodup) {k : κ} (hk : k ∈ names) {e : α} {tail : List α}
    (h : rest k = e :: tail) : total names (Function.update rest k tail) + 1 = total names rest := by
  induction names with
  | nil => cases hk
  | cons k' names ih =>
    obtain ⟨hnew, hnodup⟩ := List.nodup_cons.mp hnodup
    have hcons : ∀ r : κ → List α, total (k' :: names) r = (r k').length + total names r :=
      fun _ => List.sum_cons
    rw [hcons, hcons]
    by_cases heq : k = k'
    · subst heq
      rw [total_update_of_notMem hnew, Function.update_self, h, List.length_cons]
      omega
    · have hmem : k ∈ names := (List.mem_cons.mp hk).resolve_left heq
      have hrest := ih hnodup hmem
      rw [Function.update_of_ne (Ne.symm heq)]
      omega

variable (hnames : names.Pairwise (idx · < idx ·)) (hall : ∀ k, k ∈ names)
include hnames hall

/-- Every queue is the part of its name. -/
theorem filter_merge {fuel : Nat} (hfuel : total names rest ≤ fuel)
    (hbound : ∀ k ∈ names, ∀ e ∈ rest k, key e < bound) (k : κ) :
    ((merge key names bound fuel rest).filter (·.1 = k)).map (·.2) = rest k := by
  have hnodup : names.Nodup := hnames.imp fun hlt heq => by rw [heq] at hlt; omega
  induction fuel generalizing rest with
  | zero =>
    have hzero : (rest k).length ≤ total names rest :=
      List.single_le_sum (fun _ _ => Nat.zero_le _) _ (List.mem_map_of_mem (hall k))
    rw [merge, List.eq_nil_of_length_eq_zero (by omega : (rest k).length = 0)]
    rfl
  | succ fuel ih =>
    rw [merge]
    cases hpick : pick key rest names bound none with
    | none => rw [pick_eq_none hnames hbound hpick k (hall k)]; rfl
    | some x =>
      obtain ⟨k', e⟩ := x
      obtain ⟨hk', ⟨tail, htail⟩, -⟩ := pick_eq_some hnames hpick
      have hstep := total_update hnodup hk' htail
      have hless : ∀ k₂ ∈ names, ∀ e₂ ∈ Function.update rest k' (rest k').tail k₂,
          key e₂ < bound := by
        intro k₂ hk₂ e₂ he₂
        by_cases heq : k₂ = k'
        · subst heq
          rw [Function.update_self] at he₂
          exact hbound k₂ hk₂ e₂ (List.mem_of_mem_tail he₂)
        · rw [Function.update_of_ne heq] at he₂
          exact hbound k₂ hk₂ e₂ he₂
      have hrest := @ih (Function.update rest k' (rest k').tail)
        (by rw [htail, List.tail_cons]; omega) hless
      simp only [List.filter_cons]
      by_cases heq : k' = k
      · subst heq
        rw [if_pos (by simp), List.map_cons, hrest, Function.update_self, htail, List.tail_cons]
      · rw [if_neg (by simpa using heq), hrest, Function.update_of_ne (Ne.symm heq)]

/-- An entry of the result is one of its queue. -/
theorem mem_of_mem_merge {fuel : Nat} (hfuel : total names rest ≤ fuel)
    (hbound : ∀ k ∈ names, ∀ e ∈ rest k, key e < bound) {x : κ × α}
    (h : x ∈ merge key names bound fuel rest) : x.2 ∈ rest x.1 := by
  rw [← filter_merge hnames hall hfuel hbound x.1]
  exact List.mem_map_of_mem (List.mem_filter.mpr ⟨h, by simp⟩)

/-- Queues in order are merged into a list in order. -/
theorem merge_pairwise {fuel : Nat} (hfuel : total names rest ≤ fuel)
    (hbound : ∀ k ∈ names, ∀ e ∈ rest k, key e < bound)
    (hsorted : ∀ k, (rest k).Pairwise (key · ≤ key ·)) :
    (merge key names bound fuel rest).Pairwise (Before key idx) := by
  have hnodup : names.Nodup := hnames.imp fun hlt heq => by rw [heq] at hlt; omega
  induction fuel generalizing rest with
  | zero => exact List.Pairwise.nil
  | succ fuel ih =>
    rw [merge]
    cases hpick : pick key rest names bound none with
    | none => exact List.Pairwise.nil
    | some x =>
      obtain ⟨k, e⟩ := x
      obtain ⟨hk, ⟨tail, htail⟩, hbefore⟩ := pick_eq_some hnames hpick
      have hstep := total_update hnodup hk htail
      have hsub : ∀ k', (Function.update rest k (rest k).tail k').Sublist (rest k') := by
        intro k'
        by_cases heq : k' = k
        · subst heq
          rw [Function.update_self]
          exact List.tail_sublist _
        · rw [Function.update_of_ne heq]
      have hfuel' : total names (Function.update rest k (rest k).tail) ≤ fuel := by
        rw [htail, List.tail_cons]
        omega
      have hless : ∀ k' ∈ names, ∀ e' ∈ Function.update rest k (rest k).tail k', key e' < bound :=
        fun k' hk' e' he' => hbound k' hk' e' ((hsub k').mem he')
      rw [List.pairwise_cons]
      refine ⟨?_, ih hfuel' hless fun k' => (hsorted k').sublist (hsub k')⟩
      intro x hx
      have hmem : x.2 ∈ rest x.1 :=
        (hsub x.1).mem (mem_of_mem_merge hnames hall hfuel' hless hx)
      -- it comes after the front of its queue, or is the front
      obtain ⟨front, others, hqueue⟩ := List.exists_cons_of_ne_nil (List.ne_nil_of_mem hmem)
      have hfront := hbefore x.1 (hall x.1) front (by rw [hqueue]; rfl)
      have hle : key front ≤ key x.2 := by
        have hpair := hsorted x.1
        rw [hqueue] at hpair hmem
        rcases List.mem_cons.mp hmem with heq | hlater
        · exact Nat.le_of_eq (congrArg key heq.symm)
        · exact (List.pairwise_cons.mp hpair).1 _ hlater
      exact hfront.trans_le hle rfl

end Merge

end QueueMerge
