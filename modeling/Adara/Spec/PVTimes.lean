import Adara.Spec.PVLog
import Mathlib.Data.List.Induction

/-! # Normalised times of a whole log

The log that is wanted has the time of every update relative to the first pulse, and of the
updates at or before the first pulse only the last.  The loop of `normalizeTimestamps` ends at
the first time that is normalised already, and what it erases is all there is before the last
entry it has set to zero. -/

namespace Adara.Spec.PVTimes

open Adara.Native Adara.Native.PVInfo Adara.Spec.PVLog

variable {D : Type} {startTime : Nat}

/-! ### The wanted log -/

/-- The update with its time relative to the first pulse. -/
def relative (startTime : Nat) (e : Nat × PVEntry D) : PVEntry D :=
  if e.2.time < 0 then normalized startTime e else e.2

/-- Of the updates at time zero only the last is kept. -/
def keepLast : List (PVEntry D) → List (PVEntry D)
  | [] => []
  | e :: entries =>
    if e.time = 0 ∧ ∃ x ∈ entries, x.time = 0 then keepLast entries else e :: keepLast entries

/-- The updates at time zero. -/
def zeros (entries : List (PVEntry D)) : List (PVEntry D) := entries.filter (·.time = 0)

/-- The updates after the first pulse. -/
def later (entries : List (PVEntry D)) : List (PVEntry D) := entries.filter (0 < ·.time)

theorem keepLast_sublist (entries : List (PVEntry D)) : (keepLast entries).Sublist entries := by
  induction entries with
  | nil => exact List.Sublist.refl _
  | cons e entries ih =>
    rw [keepLast]
    split
    · exact ih.cons e
    · exact ih.cons_cons e

theorem later_keepLast (entries : List (PVEntry D)) : later (keepLast entries) = later entries := by
  induction entries with
  | nil => rfl
  | cons e entries ih =>
    simp only [later] at ih ⊢
    rw [keepLast]
    split
    · next h => rw [ih, List.filter_cons_of_neg (by simp [h.1])]
    · rw [List.filter_cons, ih, List.filter_cons]

@[simp] theorem zeros_append (a b : List (PVEntry D)) : zeros (a ++ b) = zeros a ++ zeros b :=
  List.filter_append a b

@[simp] theorem later_append (a b : List (PVEntry D)) : later (a ++ b) = later a ++ later b :=
  List.filter_append a b

theorem zeros_eq_nil {entries : List (PVEntry D)} : zeros entries = [] ↔ ∀ e ∈ entries, e.time ≠ 0 := by
  simp [zeros, List.filter_eq_nil_iff]

theorem zeros_keepLast (entries : List (PVEntry D)) : (zeros (keepLast entries)).length ≤ 1 := by
  induction entries with
  | nil => simp [keepLast, zeros]
  | cons e entries ih =>
    rw [keepLast]
    split
    · exact ih
    · next h =>
      rw [zeros, List.filter_cons]
      split
      · next he =>
        have hnone : zeros entries = [] := by
          rw [zeros_eq_nil]
          intro x hx hx0
          exact h ⟨by simpa using he, x, hx, hx0⟩
        have hsub := (keepLast_sublist entries).filter (·.time = 0)
        rw [zeros] at hnone
        rw [hnone, List.sublist_nil] at hsub
        rw [hsub]
        exact Nat.le_refl 1
      · exact ih

/-- Nothing goes where there is at most one update to keep. -/
theorem keepLast_eq_self {entries : List (PVEntry D)} (h : (zeros entries).length ≤ 1) :
    keepLast entries = entries := by
  induction entries with
  | nil => rfl
  | cons e entries ih =>
    by_cases he : e.time = 0
    · have hnone : zeros entries = [] := by
        rw [zeros, List.filter_cons_of_pos (by simpa using he)] at h
        exact List.length_eq_zero_iff.mp (by simpa [zeros] using h)
      rw [keepLast, if_neg (by rintro ⟨-, x, hx, hx0⟩; exact zeros_eq_nil.mp hnone x hx hx0),
        ih (by rw [hnone]; exact Nat.zero_le 1)]
    · rw [zeros, List.filter_cons_of_neg (by simpa using he)] at h
      rw [keepLast, if_neg (fun hz => he hz.1), ih h]

/-- Leading updates at time zero go if there is one behind them. -/
theorem keepLast_append {early rest : List (PVEntry D)} (h : ∀ e ∈ early, e.time = 0)
    (hrest : ∃ x ∈ rest, x.time = 0) : keepLast (early ++ rest) = keepLast rest := by
  induction early with
  | nil => rfl
  | cons e early ih =>
    obtain ⟨he, hearly⟩ := List.forall_mem_cons.mp h
    obtain ⟨x, hx, hx0⟩ := hrest
    rw [List.cons_append, keepLast, if_pos ⟨he, x, List.mem_append_right _ hx, hx0⟩, ih hearly]

/-! ### What the loop does -/

/-- The index of the last entry that is not after the first pulse. -/
def lastEarly (startTime : Nat) : Nat → Option Nat → List (Nat × PVEntry D) → Option Nat
  | _, last, [] => last
  | i, last, e :: lead => lastEarly startTime (i + 1) (if startTime < e.1 then last else some i) lead

theorem lastEarly_late {lead : List (Nat × PVEntry D)} (h : ∀ e ∈ lead, startTime < e.1) (i : Nat)
    (last : Option Nat) : lastEarly startTime i last lead = last := by
  induction lead generalizing i with
  | nil => rfl
  | cons e lead ih =>
    obtain ⟨he, hlead⟩ := List.forall_mem_cons.mp h
    rw [lastEarly, if_pos he, ih hlead]

theorem lastEarly_append {before after : List (Nat × PVEntry D)} {e : Nat × PVEntry D}
    (he : e.1 ≤ startTime) (h : ∀ e ∈ after, startTime < e.1) (i : Nat) (last : Option Nat) :
    lastEarly startTime i last (before ++ e :: after) = some (i + before.length) := by
  induction before generalizing i last with
  | nil =>
    rw [List.nil_append, lastEarly, if_neg (Nat.not_lt.mpr he), lastEarly_late h]
    rfl
  | cons x before ih =>
    rw [List.cons_append, lastEarly, ih, List.length_cons]
    congr 1
    omega

/-- The loop normalises the entries before the first time that is normalised. -/
theorem normalizeLoop_lead {lead : List (Nat × PVEntry D)} (hlead : ∀ e ∈ lead, e.2.time < 0)
    {absTimes : List Nat} {buffer : List (PVEntry D)}
    (hstop : absTimes = [] ∨ ∀ e ∈ buffer.head?, 0 ≤ e.time) (i : Nat) (last : Option Nat) :
    let r := normalizeLoop startTime i last (lead.map Prod.fst ++ absTimes)
      (lead.map Prod.snd ++ buffer)
    r.buffer = lead.map (normalized startTime) ++ buffer ∧
      r.lastPrePulseIndex = lastEarly startTime i last lead := by
  induction lead generalizing i last with
  | nil =>
    rcases hstop with rfl | hhead
    · exact ⟨rfl, rfl⟩
    · cases absTimes with
      | nil => exact ⟨rfl, rfl⟩
      | cons t absTimes =>
        cases buffer with
        | nil => exact ⟨rfl, rfl⟩
        | cons e buffer =>
          have he : ¬e.time < 0 := Int.not_lt.mpr (hhead e rfl)
          simp only [List.map_nil, List.nil_append, normalizeLoop, he, ↓reduceIte, lastEarly,
            and_self]
  | cons e lead ih =>
    obtain ⟨he, hrest⟩ := List.forall_mem_cons.mp hlead
    by_cases hlate : startTime < e.1
    · obtain ⟨hbuffer, hindex⟩ := ih hrest (i + 1) last
      simp only [List.map_cons, List.cons_append, normalizeLoop, if_pos he, if_pos hlate, hbuffer,
        hindex, lastEarly, and_true]
      simp [normalized, hlate]
    · obtain ⟨hbuffer, hindex⟩ := ih hrest (i + 1) (some i)
      simp only [List.map_cons, List.cons_append, normalizeLoop, if_pos he, if_neg hlate, hbuffer,
        hindex, lastEarly, and_true]
      simp [normalized, hlate]

/-- The entries are all after the first pulse, or there is a last one that is not. -/
theorem late_or_split (startTime : Nat) (lead : List (Nat × PVEntry D)) :
    (∀ e ∈ lead, startTime < e.1) ∨ ∃ before e after, lead = before ++ e :: after ∧
      e.1 ≤ startTime ∧ ∀ e ∈ after, startTime < e.1 := by
  induction lead using List.reverseRecOn with
  | nil => exact .inl (by simp)
  | append_singleton lead e ih =>
    by_cases he : startTime < e.1
    · rcases ih with hlate | ⟨before, x, after, rfl, hx, hafter⟩
      · exact .inl (List.forall_mem_append.mpr ⟨hlate, by simpa using he⟩)
      · refine .inr ⟨before, x, after ++ [e], by simp, hx, ?_⟩
        exact List.forall_mem_append.mpr ⟨hafter, by simpa using he⟩
    · exact .inr ⟨lead, e, [], rfl, Nat.not_lt.mp he, by simp⟩

theorem normalized_eq_zero {e : Nat × PVEntry D} :
    (normalized startTime e).time = 0 ↔ e.1 ≤ startTime := by
  simp only [normalized]
  split <;> omega

theorem zeros_normalized {lead : List (Nat × PVEntry D)} :
    zeros (lead.map (normalized startTime)) = [] ↔ ∀ e ∈ lead, startTime < e.1 := by
  simp only [zeros_eq_nil, List.forall_mem_map, ne_eq, normalized_eq_zero, Nat.not_le]

theorem later_normalized {lead : List (Nat × PVEntry D)} :
    later (lead.map (normalized startTime)) = [] ↔ ∀ e ∈ lead, e.1 ≤ startTime := by
  simp only [later, List.filter_eq_nil_iff, List.forall_mem_map, decide_eq_true_eq, Int.not_lt,
    ← @normalized_eq_zero _ startTime]
  refine forall₂_congr fun e _ => ?_
  have := normalized_nonneg startTime e
  omega

/-! ### Short logs -/

/-- An index as a signed number. -/
theorem index_bmod {i : Nat} (h : i < 2 ^ 32) :
    Int.bmod i (2 ^ 32) = if i < 2 ^ 31 then (i : Int) else i - 2 ^ 32 := by
  rw [Int.bmod_def]
  split <;> split <;> omega

theorem normalizeLoop_index {absTimes : List Nat} {buffer : List (PVEntry D)} {i j : Nat}
    {last : Option Nat}
    (h : (normalizeLoop startTime i last absTimes buffer).lastPrePulseIndex = some j) :
    last = some j ∨ j < i + absTimes.length := by
  induction absTimes generalizing buffer i last with
  | nil => exact .inl h
  | cons t absTimes ih =>
    cases buffer with
    | nil => exact .inl h
    | cons e buffer =>
      rw [normalizeLoop] at h
      rw [List.length_cons]
      split at h
      · split at h
        · exact (ih h).imp id (by omega)
        · rcases ih h with hj | hj
          · cases hj
            right
            omega
          · right
            omega
      · exact .inl h

/-- For a log of less than 2^31 updates the widths of the indices do not matter. -/
theorem normalizeTimestamps32_eq {p : PVInfo D} (h : p.absTimes.length < 2 ^ 31) :
    p.normalizeTimestamps32 startTime = p.normalizeTimestamps startTime := by
  rw [normalizeTimestamps32, normalizeTimestamps, List.take_of_length_le (by omega)]
  obtain ⟨r, hr⟩ : ∃ r, normalizeLoop startTime 0 none p.absTimes p.buffer = r := ⟨_, rfl⟩
  rw [hr]
  cases hindex : r.lastPrePulseIndex with
  | none => rfl
  | some j =>
    have hj : j < 2 ^ 31 := by
      rcases normalizeLoop_index (hr ▸ hindex) with hnone | hlt
      · cases hnone
      · omega
    have hsigned : Int.bmod j (2 ^ 32) = j := by rw [index_bmod (by omega), if_pos hj]
    have hdrop : (if 0 < (j : Int) then r.buffer.drop (j : Int).toNat else r.buffer) =
        r.buffer.drop j := by
      split
      · rw [Int.toNat_natCast]
      · rw [show j = 0 by omega, List.drop_zero]
    rw [Option.elim_some, hsigned, hdrop, if_pos (Int.natCast_nonneg j)]
    rfl

/-! ### When the log is the wanted one -/

/-- Of the updates at or before the first pulse the last one, at time zero, and all later ones, in
    order and relative to the first pulse. -/
def wanted (startTime : Nat) (l : List (Nat × PVEntry D)) : List (PVEntry D) :=
  keepLast (l.map (relative startTime))

/-- The updates with their time stamps. -/
def log (p : PVInfo D) : List (Nat × PVEntry D) := p.absTimes.zip p.buffer

/-- The entries that are erased, or in the way of that: an index that is negative as a signed
    number erases nothing. -/
def Erasable (startTime : Nat) (before : List (Nat × PVEntry D)) : Prop :=
  if before.length < 2 ^ 31 then ∀ x ∈ before, x.1 ≤ startTime else ∀ x ∈ before, startTime < x.1

/-- What is not normalised yet comes before all else.  None of it is after the first pulse but
    before one that is not, and what is normalised already is after the first pulse, but for one
    entry where all the others are. -/
def Normalizable (startTime : Nat) (l : List (Nat × PVEntry D)) : Prop :=
  ∃ lead rest, l = lead ++ rest ∧ lead.length ≤ 2 ^ 32 ∧
    (∀ e ∈ lead, e.2.time < 0) ∧ (∀ e ∈ rest, 0 ≤ e.2.time) ∧
    (((∀ e ∈ lead, startTime < e.1) ∧ (zeros (rest.map Prod.snd)).length ≤ 1) ∨
      ∃ before e after, lead = before ++ e :: after ∧ e.1 ≤ startTime ∧
        (∀ x ∈ after, startTime < x.1) ∧ Erasable startTime before ∧
        zeros (rest.map Prod.snd) = [])

/-- The leading entries that the loop gets to. -/
structure Lead (l lead rest : List (Nat × PVEntry D)) : Prop where
  eq : l = lead ++ rest
  pending : ∀ e ∈ lead, e.2.time < 0
  fits : lead.length ≤ 2 ^ 32
  stop : lead.length = 2 ^ 32 ∨ ∀ e ∈ rest.head?, 0 ≤ e.2.time

theorem exists_lead (l : List (Nat × PVEntry D)) : ∃ lead rest, Lead l lead rest := by
  suffices h : ∀ n, ∃ lead rest, l = lead ++ rest ∧ (∀ e ∈ lead, e.2.time < 0) ∧
      lead.length ≤ n ∧ (lead.length = n ∨ ∀ e ∈ rest.head?, 0 ≤ e.2.time) by
    obtain ⟨lead, rest, h1, h2, h3, h4⟩ := h (2 ^ 32)
    exact ⟨lead, rest, h1, h2, h3, h4⟩
  induction l with
  | nil => exact fun n => ⟨[], [], rfl, by simp, Nat.zero_le n, .inr (by simp)⟩
  | cons e l ih =>
    intro n
    by_cases he : e.2.time < 0
    · cases n with
      | zero => exact ⟨[], e :: l, rfl, by simp, Nat.le_refl 0, .inl rfl⟩
      | succ n =>
        obtain ⟨lead, rest, rfl, hlead, hlen, hstop⟩ := ih n
        refine ⟨e :: lead, rest, rfl, List.forall_mem_cons.mpr ⟨he, hlead⟩, by simpa using hlen, ?_⟩
        exact hstop.imp (fun h => by simp [h]) id
    · exact ⟨[], e :: l, rfl, by simp, Nat.zero_le n, .inr (by simpa using he)⟩

variable {p : PVInfo D} {lead rest : List (Nat × PVEntry D)}

/-- What the loop leaves, without what is erased. -/
theorem buffer_of_loop {r : Normalized D}
    (h : normalizeLoop startTime 0 none (p.absTimes.take (2 ^ 32)) p.buffer = r) {index : Int}
    (hindex : (r.lastPrePulseIndex.elim (-1) fun i => Int.bmod i (2 ^ 32)) = index) :
    (p.normalizeTimestamps32 startTime).buffer =
      if 0 < index then r.buffer.drop index.toNat else r.buffer := by
  subst h hindex
  rfl

theorem Lead.loop (hlen : p.absTimes.length = p.buffer.length) (h : Lead (log p) lead rest)
    {r : Normalized D}
    (hr : normalizeLoop startTime 0 none (p.absTimes.take (2 ^ 32)) p.buffer = r) :
    r.buffer = lead.map (normalized startTime) ++ rest.map Prod.snd ∧
      r.lastPrePulseIndex = lastEarly startTime 0 none lead := by
  have hbuffer : p.buffer = lead.map Prod.snd ++ rest.map Prod.snd := by
    rw [← List.map_append, ← h.eq, log, List.map_snd_zip (Nat.le_of_eq hlen.symm)]
  have habs : p.absTimes = lead.map Prod.fst ++ rest.map Prod.fst := by
    rw [← List.map_append, ← h.eq, log, List.map_fst_zip (Nat.le_of_eq hlen)]
  have htake : p.absTimes.take (2 ^ 32) =
      lead.map Prod.fst ++ (rest.map Prod.fst).take (2 ^ 32 - lead.length) := by
    rw [habs, List.take_append, List.take_of_length_le (by simpa using h.fits), List.length_map]
  rw [htake, hbuffer] at hr
  subst hr
  apply normalizeLoop_lead h.pending
  rcases h.stop with hfull | hhead
  · left
    rw [hfull, Nat.sub_self, List.take_zero]
  · right
    intro e he
    rw [List.head?_map] at he
    obtain ⟨x, hx, rfl⟩ := Option.map_eq_some_iff.mp he
    exact hhead x hx

/-- The buffer where all the leading entries are after the first pulse. -/
theorem Lead.buffer_of_late (hlen : p.absTimes.length = p.buffer.length)
    (h : Lead (log p) lead rest) (hlate : ∀ e ∈ lead, startTime < e.1) :
    (p.normalizeTimestamps32 startTime).buffer =
      lead.map (normalized startTime) ++ rest.map Prod.snd := by
  obtain ⟨r, hr⟩ : ∃ r, normalizeLoop startTime 0 none (p.absTimes.take (2 ^ 32)) p.buffer = r :=
    ⟨_, rfl⟩
  obtain ⟨hbuffer, hindex⟩ := h.loop hlen hr
  rw [lastEarly_late hlate] at hindex
  rw [buffer_of_loop hr (by rw [hindex, Option.elim_none]), if_neg (by decide), hbuffer]

/-- The buffer where an entry is the last that is not after the first pulse. -/
theorem Lead.buffer_of_early (hlen : p.absTimes.length = p.buffer.length)
    {before after : List (Nat × PVEntry D)} {e : Nat × PVEntry D}
    (h : Lead (log p) (before ++ e :: after) rest) (he : e.1 ≤ startTime)
    (hafter : ∀ x ∈ after, startTime < x.1) :
    (p.normalizeTimestamps32 startTime).buffer =
      (if before.length < 2 ^ 31 then [] else before.map (normalized startTime)) ++
        (e :: after).map (normalized startTime) ++ rest.map Prod.snd := by
  obtain ⟨r, hr⟩ : ∃ r, normalizeLoop startTime 0 none (p.absTimes.take (2 ^ 32)) p.buffer = r :=
    ⟨_, rfl⟩
  obtain ⟨hbuffer, hindex⟩ := h.loop hlen hr
  rw [lastEarly_append he hafter, Nat.zero_add] at hindex
  have hfits : before.length < 2 ^ 32 := by
    have := h.fits
    rw [List.length_append, List.length_cons] at this
    omega
  have hbmod : (r.lastPrePulseIndex.elim (-1) fun i => Int.bmod i (2 ^ 32)) =
      if before.length < 2 ^ 31 then (before.length : Int) else before.length - 2 ^ 32 := by
    rw [hindex, Option.elim_some, index_bmod hfits]
  rw [buffer_of_loop hr hbmod, hbuffer, List.map_append]
  by_cases hsmall : before.length < 2 ^ 31
  · rw [if_pos hsmall, if_pos hsmall, List.nil_append]
    by_cases hzero : before = []
    · rw [hzero]
      rfl
    · have hpos : 0 < before.length := List.length_pos_iff.mpr hzero
      rw [if_pos (by omega), Int.toNat_natCast, List.append_assoc, List.drop_left' (by simp)]
  · rw [if_neg hsmall, if_neg hsmall, if_neg (by omega)]

theorem wanted_nonneg (l : List (Nat × PVEntry D)) : ∀ e ∈ wanted startTime l, 0 ≤ e.time := by
  intro e he
  obtain ⟨x, -, rfl⟩ := List.mem_map.mp ((keepLast_sublist _).subset he)
  rw [relative]
  split
  · exact normalized_nonneg startTime x
  · omega

/-- The wanted log, by where the loop ends. -/
theorem wanted_append (hlead : ∀ e ∈ lead, e.2.time < 0) (hrest : ∀ e ∈ rest, 0 ≤ e.2.time) :
    wanted startTime (lead ++ rest) =
      keepLast (lead.map (normalized startTime) ++ rest.map Prod.snd) := by
  rw [wanted, List.map_append]
  congr 2
  · exact List.map_congr_left fun e he => if_pos (hlead e he)
  · exact List.map_congr_left fun e he => if_neg (Int.not_lt.mpr (hrest e he))

/-- One of the entries the loop gets to is the last at or before the first pulse. -/
theorem eq_keepLast_iff {before after : List (Nat × PVEntry D)} {e : Nat × PVEntry D}
    {post : List (PVEntry D)} (he : e.1 ≤ startTime) (hafter : ∀ x ∈ after, startTime < x.1) :
    (if before.length < 2 ^ 31 then [] else before.map (normalized startTime)) ++
        (e :: after).map (normalized startTime) ++ post =
      keepLast ((before ++ e :: after).map (normalized startTime) ++ post) ↔
    Erasable startTime before ∧ zeros post = [] := by
  have hzero : zeros ((e :: after).map (normalized startTime)) = [normalized startTime e] := by
    rw [List.map_cons, ← List.singleton_append, zeros_append, zeros_normalized.mpr hafter]
    simp [zeros, normalized_eq_zero.mpr he]
  have hone := zeros_keepLast ((before ++ e :: after).map (normalized startTime) ++ post)
  rw [Erasable]
  split
  · rw [List.nil_append]
    constructor
    · intro heq
      have hlater := congrArg later heq
      rw [later_keepLast, List.map_append, List.append_assoc, later_append (before.map _)] at hlater
      rw [← heq, zeros_append, hzero, List.singleton_append, List.length_cons] at hone
      exact ⟨later_normalized.mp (List.self_eq_append_left.mp hlater),
        List.length_eq_zero_iff.mp (by omega)⟩
    · rintro ⟨hbefore, hpost⟩
      rw [List.map_append, List.append_assoc, keepLast_append, keepLast_eq_self]
      · rw [zeros_append, hzero, hpost]
        exact Nat.le_refl 1
      · exact List.forall_mem_map.mpr fun x hx => normalized_eq_zero.mpr (hbefore x hx)
      · exact ⟨normalized startTime e, by simp, normalized_eq_zero.mpr he⟩
  · rw [← List.map_append]
    constructor
    · intro heq
      rw [← heq, zeros_append, List.map_append, zeros_append, hzero, List.length_append,
        List.length_append, List.length_singleton] at hone
      exact ⟨zeros_normalized.mp (List.length_eq_zero_iff.mp (by omega)),
        List.length_eq_zero_iff.mp (by omega)⟩
    · rintro ⟨hbefore, hpost⟩
      rw [keepLast_eq_self]
      rw [zeros_append, List.map_append, zeros_append, hzero, zeros_normalized.mpr hbefore, hpost]
      exact Nat.le_refl 1

/-- Normalising gives the wanted log exactly where the times that are not normalised come first,
    and in order. -/
theorem normalizeTimestamps_iff (startTime : Nat) (p : PVInfo D)
    (hlen : p.absTimes.length = p.buffer.length) :
    (p.normalizeTimestamps32 startTime).buffer = wanted startTime (log p) ↔
      Normalizable startTime (log p) := by
  constructor
  · intro heq
    obtain ⟨lead, rest, h⟩ := exists_lead (log p)
    have hnonneg := @wanted_nonneg _ startTime (log p)
    rw [← heq] at hnonneg
    -- whatever the loop did to the leading entries, the rest is at the end of the log
    have hrest : ∀ {front : List (PVEntry D)},
        (p.normalizeTimestamps32 startTime).buffer = front ++ rest.map Prod.snd →
          ∀ e ∈ rest, 0 ≤ e.2.time := fun hbuffer e hmem =>
      hnonneg e.2 (hbuffer ▸ List.mem_append_right _ (List.mem_map_of_mem hmem))
    refine ⟨lead, rest, h.eq, h.fits, h.pending, ?_⟩
    rcases late_or_split startTime lead with hlate | ⟨before, e, after, rfl, he, hafter⟩
    · have hbuffer := h.buffer_of_late hlen hlate
      have hrest := hrest hbuffer
      rw [hbuffer] at heq
      refine ⟨hrest, .inl ⟨hlate, ?_⟩⟩
      rw [h.eq, wanted_append h.pending hrest] at heq
      have hone := zeros_keepLast (lead.map (normalized startTime) ++ rest.map Prod.snd)
      rw [← heq, zeros_append, zeros_normalized.mpr hlate] at hone
      exact hone
    · have hbuffer := h.buffer_of_early hlen he hafter
      have hrest := hrest hbuffer
      rw [hbuffer] at heq
      refine ⟨hrest, .inr ⟨before, e, after, rfl, he, hafter, ?_⟩⟩
      rw [h.eq, wanted_append h.pending hrest] at heq
      exact (eq_keepLast_iff he hafter).mp heq
  · rintro ⟨lead, rest, hl, hfits, hpending, hrest, hcond⟩
    have h : Lead (log p) lead rest :=
      ⟨hl, hpending, hfits, .inr fun e he => hrest e (List.mem_of_mem_head? he)⟩
    rw [hl, wanted_append hpending hrest]
    rcases hcond with ⟨hlate, hone⟩ | ⟨before, e, after, rfl, he, hafter, hcond⟩
    · rw [h.buffer_of_late hlen hlate, keepLast_eq_self]
      rw [zeros_append, zeros_normalized.mpr hlate]
      exact hone
    · rw [h.buffer_of_early hlen he hafter]
      exact (eq_keepLast_iff he hafter).mpr hcond

/-- A variable with these updates. -/
def counter (absTimes : List Nat) (buffer : List (PVEntry Unit)) : PVInfo Unit :=
  { PVInfo.make ⟨['d'], ['n'], [], 1, 1, .uint, none, [], false⟩ false with
    absTimes := absTimes
    buffer := buffer }

/-- An update before the first pulse, one after it, and one whose time was relative at once. -/
theorem normalizeTimestamps_iff_mixed :
    let p := counter [5, 12, 13]
      [⟨.uint32 1, -1000000000⟩, ⟨.uint32 2, -1000000000⟩, ⟨.uint32 3, 3⟩]
    (p.normalizeTimestamps32 10).buffer = wanted 10 (log p) ↔ Normalizable 10 (log p) :=
  normalizeTimestamps_iff 10 _ rfl

/-- An update after the first pulse is erased with what is before a later entry, and a time that
    is not normalised stays behind one that is. -/
theorem not_normalized :
    let late := counter [12, 5] [⟨.uint32 1, -1000000000⟩, ⟨.uint32 2, -1000000000⟩]
    let behind := counter [12, 13] [⟨.uint32 1, 2⟩, ⟨.uint32 2, -1000000000⟩]
    (late.normalizeTimestamps32 10).buffer ≠ wanted 10 (log late) ∧
      (behind.normalizeTimestamps32 10).buffer ≠ wanted 10 (log behind) := by
  decide

end Adara.Spec.PVTimes
