import Mathlib.Algebra.BigOperators.Group.List.Basic
import Mathlib.Algebra.Order.Ring.Int
import Mathlib.Data.List.Induction

/-! # An index into a stream that comes in ticks

Amounts of a stream arrive at numbered ticks, from 1 on.  Its index has one entry for every
tick, which is the amount that came before.  `TickIndex.record` keeps the entries of an index
as the amounts arrive: it fills in the ticks without any, and adds one entry for the tick
itself.  The index is right just when no tick arrives twice (`ofArrivals_entries_iff`). -/

/-- An index kept up to its last tick with an arrival. -/
structure TickIndex where
  entries : List Nat
  total : Nat
  last : Nat
deriving DecidableEq, Repr

namespace TickIndex

def empty : TickIndex := ⟨[], 0, 0⟩

/-- Record what arrives at a tick. -/
def record (ix : TickIndex) (tick amount : Nat) : TickIndex where
  entries := ix.entries ++ List.replicate (tick - 1 - ix.last) ix.total ++ [ix.total]
  total := ix.total + amount
  last := tick

/-- The index kept along some arrivals, each a tick and an amount. -/
def ofArrivals (arrivals : List (Nat × Nat)) : TickIndex :=
  arrivals.foldl (fun ix a => ix.record a.1 a.2) empty

/-- The amount that came up to a tick. -/
def amountUpTo (arrivals : List (Nat × Nat)) (tick : Nat) : Nat :=
  ((arrivals.filter fun a => a.1 ≤ tick).map Prod.snd).sum

/-- The entries of an index for a number of ticks: what came before each. -/
def entriesFor (arrivals : List (Nat × Nat)) (ticks : Nat) : List Nat :=
  (List.range ticks).map (amountUpTo arrivals)

variable {arrivals : List (Nat × Nat)} {a : Nat × Nat} {tick : Nat}

@[simp] theorem ofArrivals_concat :
    ofArrivals (arrivals ++ [a]) = (ofArrivals arrivals).record a.1 a.2 := by
  simp [ofArrivals, List.foldl_append]

theorem total_ofArrivals : (ofArrivals arrivals).total = (arrivals.map Prod.snd).sum := by
  induction arrivals using List.reverseRecOn with
  | nil => rfl
  | append_singleton arrivals a ih =>
    rw [ofArrivals_concat, List.map_append, List.sum_append]
    simp [record, ih]

theorem last_ofArrivals :
    (ofArrivals arrivals).last = ((arrivals.getLast?).map Prod.fst).getD 0 := by
  induction arrivals using List.reverseRecOn with
  | nil => rfl
  | append_singleton arrivals a _ =>
    rw [ofArrivals_concat, List.getLast?_concat]
    rfl

theorem amountUpTo_concat_of_lt (h : tick < a.1) :
    amountUpTo (arrivals ++ [a]) tick = amountUpTo arrivals tick := by
  have hnot : ¬ a.1 ≤ tick := Nat.not_le_of_lt h
  simp [amountUpTo, List.filter_append, hnot]

/-- From the last arrival on, everything has come. -/
theorem amountUpTo_eq_total (h : ∀ a ∈ arrivals, a.1 ≤ tick) :
    amountUpTo arrivals tick = (ofArrivals arrivals).total := by
  have hall : arrivals.filter (fun a => a.1 ≤ tick) = arrivals := by
    rw [List.filter_eq_self]
    intro a ha
    exact decide_eq_true (h a ha)
  rw [amountUpTo, hall, total_ofArrivals]

/-- Some more ticks that nothing precedes but what has come. -/
theorem entriesFor_add {n k : Nat} (h : ∀ a ∈ arrivals, a.1 ≤ n) :
    entriesFor arrivals (n + k) =
      entriesFor arrivals n ++ List.replicate k (ofArrivals arrivals).total := by
  rw [entriesFor, List.range_add, List.map_append, List.map_map]
  congr 1
  rw [List.eq_replicate_iff]
  constructor
  · simp
  · intro amount hamount
    obtain ⟨i, -, rfl⟩ := List.mem_map.mp hamount
    exact amountUpTo_eq_total fun a ha => Nat.le_trans (h a ha) (Nat.le_add_right n i)

/-! ### Arrivals in order -/

/-- With arrivals in order, the last is not before any of them, and earlier than what is
    later than all of them. -/
theorem last_spec (h : (arrivals.map Prod.fst).Pairwise (· ≤ ·)) :
    (∀ a ∈ arrivals, a.1 ≤ (ofArrivals arrivals).last) ∧
      ∀ tick, 0 < tick → (∀ a ∈ arrivals, a.1 < tick) → (ofArrivals arrivals).last < tick := by
  induction arrivals using List.reverseRecOn with
  | nil => exact ⟨fun a ha => absurd ha List.not_mem_nil, fun tick hpos _ => hpos⟩
  | append_singleton arrivals a _ =>
    rw [List.map_append, List.pairwise_append] at h
    rw [ofArrivals_concat]
    show (∀ b ∈ arrivals ++ [a], b.1 ≤ a.1) ∧ ∀ tick, 0 < tick → _ → a.1 < tick
    constructor
    · intro b hb
      rcases List.mem_append.mp hb with hb | hb
      · exact h.2.2 b.1 (List.mem_map_of_mem hb) a.1 (by simp)
      · exact Nat.le_of_eq (congrArg Prod.fst (List.mem_singleton.mp hb))
    · intro tick _ hlt
      exact hlt a (by simp)

/-- Arrivals at different ticks are indexed right. -/
theorem ofArrivals_entries (hpos : ∀ a ∈ arrivals, 0 < a.1)
    (h : (arrivals.map Prod.fst).Pairwise (· < ·)) :
    (ofArrivals arrivals).entries = entriesFor arrivals (ofArrivals arrivals).last := by
  induction arrivals using List.reverseRecOn with
  | nil => rfl
  | append_singleton arrivals a ih =>
    rw [List.map_append, List.pairwise_append] at h
    have hbefore : ∀ b ∈ arrivals, b.1 < a.1 := fun b hb =>
      h.2.2 b.1 (List.mem_map_of_mem hb) a.1 (by simp)
    obtain ⟨hle, hlt⟩ := last_spec (h.1.imp Nat.le_of_lt)
    have hlast := hlt a.1 (hpos a (by simp)) hbefore
    have hsame : entriesFor (arrivals ++ [a]) a.1 = entriesFor arrivals a.1 := by
      apply List.map_congr_left
      intro i hi
      exact amountUpTo_concat_of_lt (List.mem_range.mp hi)
    -- the ticks since the last arrival have the total so far
    have hticks : a.1 = (ofArrivals arrivals).last + (a.1 - (ofArrivals arrivals).last) := by
      omega
    have hgap : a.1 - (ofArrivals arrivals).last =
        a.1 - 1 - (ofArrivals arrivals).last + 1 := by omega
    rw [ofArrivals_concat]
    show _ = entriesFor (arrivals ++ [a]) a.1
    rw [hsame, hticks, entriesFor_add hle, ← ih (fun b hb => hpos b (by simp [hb])) h.1]
    rw [← hticks, hgap, List.replicate_succ', ← List.append_assoc]
    rfl

/-- Every tick has an entry, and one more for every arrival that repeats a tick. -/
theorem length_entries (hpos : ∀ a ∈ arrivals, 0 < a.1)
    (h : (arrivals.map Prod.fst).Pairwise (· ≤ ·)) :
    (ofArrivals arrivals).last ≤ (ofArrivals arrivals).entries.length ∧
      ((ofArrivals arrivals).entries.length = (ofArrivals arrivals).last →
        (arrivals.map Prod.fst).Pairwise (· < ·)) := by
  induction arrivals using List.reverseRecOn with
  | nil => exact ⟨Nat.le_refl _, fun _ => List.Pairwise.nil⟩
  | append_singleton arrivals a ih =>
    rw [List.map_append, List.pairwise_append] at h
    obtain ⟨hle, hstrict⟩ := ih (fun b hb => hpos b (by simp [hb])) h.1
    obtain ⟨hmem, -⟩ := last_spec h.1
    have hpos' := hpos a (by simp)
    have hlen : (ofArrivals (arrivals ++ [a])).entries.length =
        (ofArrivals arrivals).entries.length + (a.1 - 1 - (ofArrivals arrivals).last) + 1 := by
      rw [ofArrivals_concat]
      simp only [record, List.length_append, List.length_replicate, List.length_singleton]
    have hlast : (ofArrivals (arrivals ++ [a])).last = a.1 := by
      rw [ofArrivals_concat]
      rfl
    rw [hlen, hlast]
    constructor
    · omega
    · intro heq
      rw [List.map_append, List.pairwise_append]
      refine ⟨hstrict (by omega), by simp, ?_⟩
      intro tick htick tick' htick'
      obtain ⟨b, hb, rfl⟩ := List.mem_map.mp htick
      have hb' := hmem b hb
      rw [List.map_singleton, List.mem_singleton] at htick'
      omega

/-- The index is right just when no tick arrives twice. -/
theorem ofArrivals_entries_iff (hpos : ∀ a ∈ arrivals, 0 < a.1)
    (h : (arrivals.map Prod.fst).Pairwise (· ≤ ·)) :
    (ofArrivals arrivals).entries = entriesFor arrivals (ofArrivals arrivals).last ↔
      (arrivals.map Prod.fst).Pairwise (· < ·) := by
  constructor
  · intro heq
    apply (length_entries hpos h).2
    rw [heq, entriesFor, List.length_map, List.length_range]
  · exact ofArrivals_entries hpos

end TickIndex
