import Mathlib.Algebra.BigOperators.Group.List.Basic
import Mathlib.Algebra.Order.Ring.Int
import Mathlib.Data.List.Basic
import Mathlib.Data.List.Pairwise

/-! # Ordered maps as sorted entry lists

A map with the order of its keys observable: `entries` lists the pairs with
strictly increasing keys, and the sortedness travels with the value, so that every
operation below keeps it and no user has to.  Besides lookup and insertion the map
can be cut by position (`drop`, `eraseIdx`), which is what code walking a tree map
with iterators does.  Everything is structurally recursive and evaluates. -/

/-- A finite map from `κ` to `β`, as the list of its entries in key order. -/
structure SortedMap (κ β : Type*) [LinearOrder κ] where
  entries : List (κ × β)
  sorted : entries.Pairwise (fun a b => a.1 < b.1)

namespace SortedMap

variable {κ β : Type*} [LinearOrder κ]

/-- Two maps with the same entries are equal. -/
@[ext] theorem ext {m m' : SortedMap κ β} (h : m.entries = m'.entries) : m = m' := by
  cases m
  cases m'
  simp only at h
  subst h
  rfl

instance [DecidableEq β] : DecidableEq (SortedMap κ β) := fun m m' =>
  decidable_of_iff (m.entries = m'.entries) ⟨ext, fun h => h ▸ rfl⟩

/-- The map without entries. -/
def empty : SortedMap κ β := ⟨[], List.Pairwise.nil⟩

def size (m : SortedMap κ β) : Nat := m.entries.length

def keys (m : SortedMap κ β) : List κ := m.entries.map Prod.fst

/-- The value stored under `k`. -/
def find? (m : SortedMap κ β) (k : κ) : Option β :=
  (m.entries.find? (fun e => e.1 = k)).map Prod.snd

@[simp] theorem entries_empty : (empty : SortedMap κ β).entries = [] := rfl

@[simp] theorem find?_empty (k : κ) : (empty : SortedMap κ β).find? k = none := rfl

theorem keys_sorted (m : SortedMap κ β) : m.keys.Pairwise (· < ·) :=
  List.pairwise_map.mpr m.sorted

theorem keys_nodup (m : SortedMap κ β) : m.keys.Nodup :=
  m.keys_sorted.imp (fun h => ne_of_lt h)

/-- In a list with increasing keys an entry is determined by its key. -/
theorem eq_of_key_eq {l : List (κ × β)} (h : l.Pairwise (fun a b => a.1 < b.1))
    {a b : κ × β} (ha : a ∈ l) (hb : b ∈ l) (hkey : a.1 = b.1) : a = b := by
  induction l with
  | nil => cases ha
  | cons c l ih =>
    rw [List.pairwise_cons] at h
    rcases List.mem_cons.mp ha with hac | ha
    · rcases List.mem_cons.mp hb with hbc | hb
      · rw [hac, hbc]
      · exact absurd (hac ▸ hkey) (ne_of_lt (h.1 b hb))
    · rcases List.mem_cons.mp hb with hbc | hb
      · exact absurd (hbc ▸ hkey.symm) (ne_of_lt (h.1 a ha))
      · exact ih h.2 ha hb

/-- Lookup finds exactly the entries of the map. -/
theorem find?_eq_some {m : SortedMap κ β} {k : κ} {v : β} :
    m.find? k = some v ↔ (k, v) ∈ m.entries := by
  simp only [find?, Option.map_eq_some_iff]
  constructor
  · rintro ⟨⟨k', v'⟩, hfind, rfl⟩
    have hk : k' = k := by simpa using List.find?_some hfind
    exact hk ▸ List.mem_of_find?_eq_some hfind
  · intro hmem
    have hsome : (m.entries.find? (fun e => e.1 = k)).isSome := by
      rw [List.find?_isSome]
      exact ⟨(k, v), hmem, by simp⟩
    obtain ⟨e, he⟩ := Option.isSome_iff_exists.mp hsome
    have hk : e.1 = k := by simpa using List.find?_some he
    have := eq_of_key_eq m.sorted (List.mem_of_find?_eq_some he) hmem hk
    exact ⟨e, he, by rw [this]⟩

/-- Lookup fails exactly for the keys that are not there. -/
theorem find?_eq_none {m : SortedMap κ β} {k : κ} : m.find? k = none ↔ k ∉ m.keys := by
  simp only [find?, Option.map_eq_none_iff, List.find?_eq_none, keys, List.mem_map, not_exists,
    not_and, decide_eq_true_eq]

theorem mem_keys {m : SortedMap κ β} {k : κ} : k ∈ m.keys ↔ ∃ v, (k, v) ∈ m.entries := by
  simp [keys]

/-- A map is determined by its lookups. -/
theorem ext_find? {m m' : SortedMap κ β} (h : ∀ k, m.find? k = m'.find? k) : m = m' := by
  have hnodup : ∀ t : SortedMap κ β, t.entries.Nodup := fun t =>
    t.sorted.imp fun hlt heq => ne_of_lt hlt (congrArg Prod.fst heq)
  have hmem : ∀ e, e ∈ m.entries ↔ e ∈ m'.entries := fun e => by
    rw [← find?_eq_some, ← find?_eq_some, h]
  have hperm := (List.perm_ext_iff_of_nodup (hnodup m) (hnodup m')).mpr hmem
  exact ext (hperm.eq_of_pairwise (fun a b _ _ hab hba => absurd hba (lt_asymm hab))
    m.sorted m'.sorted)

/-! ### Changing the value of one key -/

/-- `alter` on entry lists: one walk to the place of `k`. -/
def alterList (k : κ) (f : Option β → β) : List (κ × β) → List (κ × β)
  | [] => [(k, f none)]
  | (k', v) :: rest =>
    if k < k' then (k, f none) :: (k', v) :: rest
    else if k = k' then (k, f (some v)) :: rest
    else (k', v) :: alterList k f rest

private theorem mem_alterList {k : κ} {f : Option β → β} {l : List (κ × β)} {e : κ × β}
    (h : e ∈ alterList k f l) : e.1 = k ∨ e ∈ l := by
  induction l with
  | nil => simp_all [alterList]
  | cons c l ih =>
    obtain ⟨k', v⟩ := c
    simp only [alterList] at h
    split at h
    · rcases List.mem_cons.mp h with rfl | h
      · exact .inl rfl
      · exact .inr h
    · split at h
      · rcases List.mem_cons.mp h with rfl | h
        · exact .inl rfl
        · exact .inr (List.mem_cons_of_mem _ h)
      · rcases List.mem_cons.mp h with rfl | h
        · exact .inr (List.mem_cons_self ..)
        · exact (ih h).imp_right (List.mem_cons_of_mem _)

private theorem alterList_sorted {k : κ} {f : Option β → β} {l : List (κ × β)}
    (h : l.Pairwise (fun a b => a.1 < b.1)) :
    (alterList k f l).Pairwise (fun a b => a.1 < b.1) := by
  induction l with
  | nil => exact List.pairwise_singleton _ _
  | cons c l ih =>
    obtain ⟨k', v⟩ := c
    have hc := List.pairwise_cons.mp h
    simp only [alterList]
    split
    · rename_i hlt
      apply List.pairwise_cons.mpr ⟨_, h⟩
      intro e he
      rcases List.mem_cons.mp he with rfl | he
      · exact hlt
      · exact lt_trans hlt (hc.1 e he)
    · rename_i hge
      split
      · rename_i heq
        subst heq
        exact List.pairwise_cons.mpr ⟨hc.1, hc.2⟩
      · rename_i hne
        apply List.pairwise_cons.mpr ⟨_, ih hc.2⟩
        intro e he
        rcases mem_alterList he with rfl | he
        · exact lt_of_le_of_ne (not_lt.mp hge) (Ne.symm hne)
        · exact hc.1 e he

/-- Replace the value under `k`, or its absence, by `f` of it. -/
def alter (m : SortedMap κ β) (k : κ) (f : Option β → β) : SortedMap κ β :=
  ⟨alterList k f m.entries, alterList_sorted m.sorted⟩

/-- Insert an entry unless its key is there. -/
def insert (m : SortedMap κ β) (k : κ) (v : β) : SortedMap κ β := m.alter k (·.getD v)

private theorem find?_alterList (k k' : κ) (f : Option β → β) {l : List (κ × β)}
    (h : l.Pairwise (fun a b => a.1 < b.1)) :
    ((alterList k f l).find? (fun e => e.1 = k')).map Prod.snd =
      if k' = k then some (f ((l.find? (fun e => e.1 = k)).map Prod.snd))
      else (l.find? (fun e => e.1 = k')).map Prod.snd := by
  induction l with
  | nil => by_cases hk : k' = k <;> simp [alterList, hk, eq_comm]
  | cons c l ih =>
    obtain ⟨c, v⟩ := c
    have hc := List.pairwise_cons.mp h
    simp only [alterList]
    split
    · -- the new entry comes first: `k` is smaller than every key
      rename_i hlt
      have hnone : ((c, v) :: l).find? (fun e => e.1 = k) = none := by
        rw [List.find?_eq_none]
        intro e he
        rcases List.mem_cons.mp he with rfl | he
        · simpa using ne_of_gt hlt
        · simpa using ne_of_gt (lt_trans hlt (hc.1 e he))
      by_cases hk : k' = k
      · simp [hk, hnone]
      · simp [hk, Ne.symm hk]
    · split
      · rename_i heq
        subst heq
        by_cases hk : k' = k
        · simp [hk]
        · simp [hk, Ne.symm hk]
      · rename_i hne
        by_cases hk : c = k'
        · subst hk
          simp [Ne.symm hne]
        · simp only [List.find?_cons, hk, decide_false, Ne.symm hne]
          exact ih hc.2

/-- After `alter` the key maps to the new value and every other key is unchanged. -/
theorem find?_alter (m : SortedMap κ β) (k k' : κ) (f : Option β → β) :
    (m.alter k f).find? k' = if k' = k then some (f (m.find? k)) else m.find? k' :=
  find?_alterList k k' f m.sorted

/-- Only the value at the key matters to `alter`. -/
theorem alter_eq_const (m : SortedMap κ β) (k : κ) (f : Option β → β) :
    m.alter k f = m.alter k fun _ => f (m.find? k) :=
  ext_find? fun k' => by rw [find?_alter, find?_alter]

/-- The keys after `alter`. -/
theorem mem_keys_alter {m : SortedMap κ β} {k k' : κ} {f : Option β → β} :
    k' ∈ (m.alter k f).keys ↔ k' = k ∨ k' ∈ m.keys := by
  have hkey : ∀ n : SortedMap κ β, k' ∈ n.keys ↔ n.find? k' ≠ none := fun n => by
    rw [Ne, find?_eq_none, not_not]
  rw [hkey, hkey, find?_alter]
  by_cases h : k' = k
  · simp [h]
  · simp [h]

/-- A sum over the values is what the other keys contribute, and what the value of this
    one does, before and after it is set. -/
theorem sum_alter (m : SortedMap κ β) (k : κ) (w : β → Nat) :
    ∃ others, (m.entries.map fun e => w e.2).sum = others + ((m.find? k).map w).getD 0 ∧
      ∀ v, ((m.alter k fun _ => v).entries.map fun e => w e.2).sum = others + w v := by
  have hlist : ∀ l : List (κ × β), l.Pairwise (fun a b => a.1 < b.1) →
      ∃ others, (l.map fun e => w e.2).sum =
          others + (((l.find? (fun e => e.1 = k)).map Prod.snd).map w).getD 0 ∧
        ∀ v, ((alterList k (fun _ => v) l).map fun e => w e.2).sum = others + w v := by
    intro l hl
    induction l with
    | nil => exact ⟨0, rfl, fun v => by simp [alterList]⟩
    | cons c l ih =>
      obtain ⟨c, u⟩ := c
      have hc := List.pairwise_cons.mp hl
      simp only [alterList]
      by_cases hlt : k < c
      · -- `k` is smaller than every key
        have hnone : ((c, u) :: l).find? (fun e => e.1 = k) = none := by
          rw [List.find?_eq_none]
          intro e he
          rcases List.mem_cons.mp he with rfl | he
          · simpa using ne_of_gt hlt
          · simpa using ne_of_gt (lt_trans hlt (hc.1 e he))
        refine ⟨(((c, u) :: l).map fun e => w e.2).sum, by rw [hnone]; rfl, fun v => ?_⟩
        rw [if_pos hlt, List.map_cons, List.sum_cons, Nat.add_comm]
      · by_cases heq : k = c
        · refine ⟨(l.map fun e => w e.2).sum, ?_, fun v => ?_⟩
          · simp [heq, Nat.add_comm]
          · rw [if_neg hlt, if_pos heq, List.map_cons, List.sum_cons, Nat.add_comm]
        · obtain ⟨others, hsum, halter⟩ := ih hc.2
          refine ⟨w u + others, ?_, fun v => ?_⟩
          · simp only [List.find?_cons, Ne.symm heq, decide_false, List.map_cons, List.sum_cons]
            omega
          · rw [if_neg hlt, if_neg heq, List.map_cons, List.sum_cons, halter, Nat.add_assoc]
  exact hlist m.entries m.sorted

theorem find?_insert_self {m : SortedMap κ β} {k : κ} (v : β) (h : m.find? k = none) :
    (m.insert k v).find? k = some v := by
  simp [insert, find?_alter, h]

theorem find?_insert_of_ne {m : SortedMap κ β} {k k' : κ} (v : β) (h : k' ≠ k) :
    (m.insert k v).find? k' = m.find? k' := by
  simp [insert, find?_alter, h]

private theorem alterList_perm {k : κ} {f : Option β → β} {l : List (κ × β)}
    (h : k ∉ l.map Prod.fst) : (alterList k f l).Perm ((k, f none) :: l) := by
  induction l with
  | nil => exact List.Perm.refl _
  | cons c l ih =>
    obtain ⟨k', v⟩ := c
    simp only [List.map_cons, List.mem_cons, not_or] at h
    simp only [alterList]
    split
    · exact List.Perm.refl _
    · rw [if_neg h.1]
      exact ((ih h.2).cons _).trans (List.Perm.swap ..)

/-- Setting a fresh key adds one entry and leaves the others. -/
theorem alter_perm {m : SortedMap κ β} {k : κ} (f : Option β → β) (h : m.find? k = none) :
    (m.alter k f).entries.Perm ((k, f none) :: m.entries) :=
  alterList_perm (find?_eq_none.mp h)

/-- A fresh key adds one entry and leaves the others. -/
theorem insert_perm {m : SortedMap κ β} {k : κ} (v : β) (h : m.find? k = none) :
    (m.insert k v).entries.Perm ((k, v) :: m.entries) :=
  alter_perm _ h

/-- The entries after an insertion of a fresh key. -/
theorem mem_insert {m : SortedMap κ β} {k : κ} {v : β} (h : m.find? k = none) {e : κ × β} :
    e ∈ (m.insert k v).entries ↔ e = (k, v) ∨ e ∈ m.entries := by
  rw [(insert_perm v h).mem_iff, List.mem_cons]

/-- An insertion leaves no entry that is neither new nor old. -/
theorem eq_or_mem_of_mem_insert {m : SortedMap κ β} {k : κ} {v : β} {e : κ × β}
    (h : e ∈ (m.insert k v).entries) : e = (k, v) ∨ e ∈ m.entries := by
  cases hfound : m.find? k with
  | none => exact (mem_insert hfound).mp h
  | some w =>
    right
    have hfind := find?_eq_some.mpr h
    simp only [insert, find?_alter, hfound, Option.getD_some] at hfind
    rw [← find?_eq_some]
    split at hfind
    · rename_i hkey
      rw [hkey, hfound, ← hfind]
    · exact hfind

/-! ### Removing a key -/

/-- The map without the entry under `k`. -/
def erase (m : SortedMap κ β) (k : κ) : SortedMap κ β :=
  ⟨m.entries.filter (fun e => e.1 ≠ k), m.sorted.sublist (List.filter_sublist ..)⟩

/-- After `erase` the key maps to nothing and every other key is unchanged. -/
theorem find?_erase (m : SortedMap κ β) (k k' : κ) :
    (m.erase k).find? k' = if k' = k then none else m.find? k' := by
  ext v
  have herase : (m.erase k).find? k' = some v ↔ m.find? k' = some v ∧ k' ≠ k := by
    simp only [find?_eq_some, erase, List.mem_filter, ne_eq, decide_eq_true_eq]
  by_cases hk : k' = k
  · subst hk
    simp [herase]
  · simp [herase, hk]

/-- Where the key is absent nothing is removed. -/
private theorem filter_eq_self_of_ne {k : κ} {l : List (κ × β)} (h : ∀ e ∈ l, e.1 ≠ k) :
    l.filter (fun e => e.1 ≠ k) = l :=
  List.filter_eq_self.mpr fun e he => by simpa using h e he

private theorem filter_perm {k : κ} {v : β} {l : List (κ × β)}
    (hs : l.Pairwise (fun a b => a.1 < b.1)) (h : (k, v) ∈ l) :
    l.Perm ((k, v) :: l.filter (fun e => e.1 ≠ k)) := by
  induction l with
  | nil => cases h
  | cons c l ih =>
    have hc := List.pairwise_cons.mp hs
    rcases List.mem_cons.mp h with rfl | h
    · -- the entry itself: every later key is larger, so nothing else is removed
      have hrest := filter_eq_self_of_ne fun e he => ne_of_gt (hc.1 e he)
      rw [List.filter_cons_of_neg (by simp), hrest]
    · have hne : c.1 ≠ k := ne_of_lt (hc.1 _ h)
      rw [List.filter_cons_of_pos (by simpa using hne)]
      exact ((ih hc.2 h).cons c).trans (List.Perm.swap ..)

/-- `erase` removes one entry and leaves the others. -/
theorem erase_perm {m : SortedMap κ β} {k : κ} {v : β} (h : m.find? k = some v) :
    m.entries.Perm ((k, v) :: (m.erase k).entries) :=
  filter_perm m.sorted (find?_eq_some.mp h)

private theorem alterList_filter {k : κ} {v : β} {f : Option β → β} {l : List (κ × β)}
    (hs : l.Pairwise (fun a b => a.1 < b.1)) (h : (k, v) ∈ l) (hf : f none = v) :
    alterList k f (l.filter (fun e => e.1 ≠ k)) = l := by
  induction l with
  | nil => cases h
  | cons c l ih =>
    have hc := List.pairwise_cons.mp hs
    rcases List.mem_cons.mp h with rfl | h
    · have hrest := filter_eq_self_of_ne fun e he => ne_of_gt (hc.1 e he)
      rw [List.filter_cons_of_neg (by simp), hrest]
      cases l with
      | nil => rw [alterList, hf]
      | cons e l => rw [alterList, if_pos (hc.1 e List.mem_cons_self), hf]
    · have hlt : c.1 < k := hc.1 _ h
      rw [List.filter_cons_of_pos (by simpa using ne_of_lt hlt), alterList,
        if_neg (not_lt_of_gt hlt), if_neg (ne_of_gt hlt), ih hc.2 h]

/-- Putting back the entry that was removed restores the map. -/
theorem insert_erase {m : SortedMap κ β} {k : κ} {v : β} (h : m.find? k = some v) :
    (m.erase k).insert k v = m :=
  ext (alterList_filter m.sorted (find?_eq_some.mp h) rfl)

private theorem filter_alterList {k : κ} {f : Option β → β} {l : List (κ × β)}
    (h : k ∉ l.map Prod.fst) : (alterList k f l).filter (fun e => e.1 ≠ k) = l := by
  induction l with
  | nil => simp [alterList]
  | cons c l ih =>
    obtain ⟨k', v⟩ := c
    simp only [List.map_cons, List.mem_cons, not_or] at h
    have hrest := filter_eq_self_of_ne fun e he hk => h.2 (List.mem_map.mpr ⟨e, he, hk⟩)
    have hc : k' ≠ k := Ne.symm h.1
    rw [alterList]
    split
    · rw [List.filter_cons_of_neg (by simp), List.filter_cons_of_pos (by simpa using hc), hrest]
    · rw [if_neg h.1, List.filter_cons_of_pos (by simpa using hc), ih h.2]

/-- Removing a key that was not there before it was set restores the map. -/
theorem erase_alter {m : SortedMap κ β} {k : κ} (f : Option β → β) (h : m.find? k = none) :
    (m.alter k f).erase k = m :=
  ext (filter_alterList (find?_eq_none.mp h))

/-! ### How many entries there are -/

/-- A fresh key makes the map larger by one. -/
theorem size_alter {m : SortedMap κ β} {k : κ} (f : Option β → β) (h : m.find? k = none) :
    (m.alter k f).size = m.size + 1 :=
  (alter_perm f h).length_eq

theorem size_insert {m : SortedMap κ β} {k : κ} (v : β) (h : m.find? k = none) :
    (m.insert k v).size = m.size + 1 :=
  size_alter _ h

theorem size_erase {m : SortedMap κ β} {k : κ} {v : β} (h : m.find? k = some v) :
    (m.erase k).size + 1 = m.size :=
  (erase_perm h).length_eq.symm

/-- A map that has an entry is not empty. -/
theorem size_pos {m : SortedMap κ β} {k : κ} {v : β} (h : m.find? k = some v) : 0 < m.size :=
  List.length_pos_of_mem (find?_eq_some.mp h)

/-! ### Changing all values, and cutting by position -/

/-- Apply `f` to every value. -/
def mapVal (m : SortedMap κ β) (f : κ → β → β) : SortedMap κ β :=
  ⟨m.entries.map (fun e => (e.1, f e.1 e.2)), List.pairwise_map.mpr m.sorted⟩

/-- The map without its first `n` entries. -/
def drop (m : SortedMap κ β) (n : Nat) : SortedMap κ β :=
  ⟨m.entries.drop n, m.sorted.sublist (List.drop_sublist _ _)⟩

/-- The map without its `i`-th entry. -/
def eraseIdx (m : SortedMap κ β) (i : Nat) : SortedMap κ β :=
  ⟨m.entries.eraseIdx i, m.sorted.sublist (List.eraseIdx_sublist _ _)⟩

@[simp] theorem entries_mapVal (m : SortedMap κ β) (f : κ → β → β) :
    (m.mapVal f).entries = m.entries.map (fun e => (e.1, f e.1 e.2)) := rfl

@[simp] theorem entries_drop (m : SortedMap κ β) (n : Nat) :
    (m.drop n).entries = m.entries.drop n := rfl

@[simp] theorem entries_eraseIdx (m : SortedMap κ β) (i : Nat) :
    (m.eraseIdx i).entries = m.entries.eraseIdx i := rfl

@[simp] theorem keys_mapVal (m : SortedMap κ β) (f : κ → β → β) :
    (m.mapVal f).keys = m.keys := by
  simp [keys]

@[simp] theorem size_mapVal (m : SortedMap κ β) (f : κ → β → β) :
    (m.mapVal f).size = m.size := by
  simp [size]

theorem find?_mapVal (m : SortedMap κ β) (f : κ → β → β) (k : κ) :
    (m.mapVal f).find? k = (m.find? k).map (f k) := by
  ext v
  simp only [find?_eq_some, entries_mapVal, List.mem_map, Option.map_eq_some_iff]
  refine ⟨?_, ?_⟩
  · rintro ⟨⟨k', w⟩, hmem, heq⟩
    obtain ⟨rfl, rfl⟩ := Prod.mk.inj heq
    exact ⟨w, hmem, rfl⟩
  · rintro ⟨w, hmem, rfl⟩
    exact ⟨(k, w), hmem, rfl⟩

/-- Change the value under `k`, if there is one. -/
def modify (m : SortedMap κ β) (k : κ) (f : β → β) : SortedMap κ β :=
  m.mapVal fun k' v => if k' = k then f v else v

theorem find?_modify (m : SortedMap κ β) (k k' : κ) (f : β → β) :
    (m.modify k f).find? k' = if k' = k then (m.find? k').map f else m.find? k' := by
  rw [modify, find?_mapVal]
  split
  · rfl
  · exact congrFun Option.map_id _

@[simp] theorem keys_modify (m : SortedMap κ β) (k : κ) (f : β → β) :
    (m.modify k f).keys = m.keys :=
  keys_mapVal m _

/-- Store `v` under `k`, in the place of what was there. -/
def set (m : SortedMap κ β) (k : κ) (v : β) : SortedMap κ β := m.alter k fun _ => v

theorem find?_set (m : SortedMap κ β) (k k' : κ) (v : β) :
    (m.set k v).find? k' = if k' = k then some v else m.find? k' :=
  find?_alter m k k' _

/-- The entries whose key and value meet `p`. -/
def filter (m : SortedMap κ β) (p : κ → β → Bool) : SortedMap κ β :=
  ⟨m.entries.filter (fun e => p e.1 e.2), m.sorted.sublist List.filter_sublist⟩

theorem find?_filter (m : SortedMap κ β) (p : κ → β → Bool) (k : κ) :
    (m.filter p).find? k = (m.find? k).filter (p k) := by
  ext v
  simp only [find?_eq_some, filter, List.mem_filter, Option.filter_eq_some_iff]

/-- Where every entry meets the condition nothing is left out. -/
theorem filter_eq_self {m : SortedMap κ β} {p : κ → β → Bool}
    (h : ∀ k v, m.find? k = some v → p k v = true) : m.filter p = m :=
  ext (List.filter_eq_self.mpr fun e he => h e.1 e.2 (find?_eq_some.mpr he))

/-- Where no entry meets the condition nothing is left. -/
theorem filter_eq_empty {m : SortedMap κ β} {p : κ → β → Bool}
    (h : ∀ k v, m.find? k = some v → p k v = false) : m.filter p = empty :=
  ext (List.filter_eq_nil_iff.mpr fun e he =>
    Bool.not_eq_true _ ▸ h e.1 e.2 (find?_eq_some.mpr he))

/-! ### Folds over the entries -/

omit [LinearOrder κ] in
private theorem foldl_of_ne {γ : Type*} {f : (κ → γ) → κ × β → κ → γ} {l : List (κ × β)}
    (hother : ∀ r, ∀ e ∈ l, ∀ k, k ≠ e.1 → f r e k = r k) (r : κ → γ) {k : κ}
    (hk : k ∉ l.map Prod.fst) : l.foldl f r k = r k := by
  induction l generalizing r with
  | nil => rfl
  | cons e l ih =>
    simp only [List.map_cons, List.mem_cons, not_or] at hk
    rw [List.foldl_cons, ih (fun r e he => hother r e (List.mem_cons_of_mem _ he)) _ hk.2]
    exact hother r e List.mem_cons_self k hk.1

/-- A fold whose turns each set the key of their entry is a lookup in the map. -/
theorem foldl_entries {γ : Type*} (m : SortedMap κ β) {f : (κ → γ) → κ × β → κ → γ}
    {g : κ → β → γ} (hself : ∀ r, ∀ e ∈ m.entries, f r e e.1 = g e.1 e.2)
    (hother : ∀ r, ∀ e ∈ m.entries, ∀ k, k ≠ e.1 → f r e k = r k) (r : κ → γ) (k : κ) :
    m.entries.foldl f r k = ((m.find? k).map (g k)).getD (r k) := by
  cases hk : m.find? k with
  | none => exact foldl_of_ne hother r (find?_eq_none.mp hk)
  | some v =>
    -- the turns after the entry of the key do not touch it
    obtain ⟨before, after, hsplit⟩ := List.append_of_mem (find?_eq_some.mp hk)
    have hnodup : (before.map Prod.fst ++ k :: after.map Prod.fst).Nodup := by
      have hkeys := m.keys_nodup
      rw [keys, hsplit, List.map_append, List.map_cons] at hkeys
      exact hkeys
    have hafter : k ∉ after.map Prod.fst :=
      (List.nodup_cons.mp (List.nodup_append.mp hnodup).2.1).1
    rw [hsplit, List.foldl_append, List.foldl_cons, foldl_of_ne _ _ hafter]
    · exact hself _ (k, v) (find?_eq_some.mp hk)
    · exact fun r e he => hother r e (hsplit ▸ List.mem_append_right _ (List.mem_cons_of_mem _ he))

/-- The first entries of a map have increasing keys. -/
theorem keys_take_sorted (m : SortedMap κ β) (n : Nat) :
    ((m.entries.take n).map Prod.fst).Pairwise (· < ·) :=
  List.pairwise_map.mpr (m.sorted.sublist (List.take_sublist _ _))

end SortedMap
