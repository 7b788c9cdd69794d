import Mathlib.Data.List.Nodup

/-! # The lookup of an entry of a stack

The search of a stack for the first entry that holds what is looked for.  A request that
ignores what the entries hold gets the first one, and so does one that is older than the last
entry.  What was found is still found when entries behind it are taken off the stack. -/

namespace StackLookup

variable {α β : Type*} {node : α → Nat} {holds older : α → Bool} {ignore : Bool}

/-- The node of the entry that is found: the first one if the request ignores what they hold,
    else the first that holds it.  A request that the last entry takes for an older one gets
    the first entry where the search finds none. -/
def find (node : α → Nat) (holds older : α → Bool) (ignore : Bool) (as : List α) : Option Nat :=
  (if ignore then as.head?.map node else (as.find? holds).map node).or
    (as.getLast?.bind fun a => if older a then as.head?.map node else none)

theorem find_map (f : β → α) (bs : List β) :
    find node holds older ignore (bs.map f) =
      find (node ∘ f) (holds ∘ f) (older ∘ f) ignore bs := by
  simp only [find, List.head?_map, List.find?_map, List.getLast?_map, Option.map_map,
    Option.bind_map]
  rfl

theorem find_mem {as : List α} {n : Nat} (h : find node holds older ignore as = some n) :
    ∃ a ∈ as, node a = n := by
  have hhead : as.head?.map node = some n → ∃ a ∈ as, node a = n := by
    intro h
    obtain ⟨a, ha, rfl⟩ := Option.map_eq_some_iff.mp h
    exact ⟨a, List.mem_of_mem_head? ha, rfl⟩
  simp only [find, Option.or_eq_some_iff] at h
  obtain h | ⟨-, h⟩ := h
  · split at h
    · exact hhead h
    · obtain ⟨a, ha, rfl⟩ := Option.map_eq_some_iff.mp h
      exact ⟨a, List.mem_of_find?_eq_some ha, rfl⟩
  · obtain ⟨a, -, h⟩ := Option.bind_eq_some_iff.mp h
    split at h
    · exact hhead h
    · cases h

/-- An entry holds what is looked for. -/
theorem find_of_holds {as : List α} (h : ∃ a ∈ as, holds a = true) :
    ∃ front a behind, as = front ++ a :: behind ∧ holds a = true ∧
      (∀ b ∈ front, holds b = false) ∧ find node holds older false as = some (node a) := by
  have hsome : (as.find? holds).isSome = true := List.find?_isSome.mpr h
  obtain ⟨a, ha⟩ := Option.isSome_iff_exists.mp hsome
  obtain ⟨hholds, front, behind, rfl, hfront⟩ := List.find?_eq_some_iff_append.mp ha
  refine ⟨front, a, behind, rfl, hholds, fun b hb => by simpa using hfront b hb, ?_⟩
  simp only [find, ha, Bool.false_eq_true, if_false, Option.map_some, Option.some_or]

/-- What is looked for is older than every entry. -/
theorem find_of_older {a : α} {as : List α}
    (h : ∀ b ∈ a :: as, older b = true ∧ holds b = false) :
    find node holds older false (a :: as) = some (node a) := by
  have hnone : (a :: as).find? holds = none :=
    List.find?_eq_none.mpr fun b hb => by simp [(h b hb).2]
  have hlast := List.getLast?_eq_some_getLast (List.cons_ne_nil a as)
  have holder := (h _ (List.mem_of_getLast? hlast)).1
  simp only [find, hnone, hlast, Bool.false_eq_true, if_false, Option.map_none, Option.none_or,
    Option.bind_some, holder, if_true, List.head?_cons, Option.map_some]

theorem find_ignore {a : α} {as : List α} :
    find node holds older true (a :: as) = some (node a) := by
  simp [find]

/-- Some entry holds what is looked for, or it is older than all of them. -/
def Covers (holds older : α → Bool) (as : List α) : Prop :=
  (∃ a ∈ as, holds a = true) ∨ ∀ a ∈ as, older a = true ∧ holds a = false

theorem find_isSome {as : List α} (hne : as ≠ []) (h : ignore = false → Covers holds older as) :
    ∃ n, find node holds older ignore as = some n := by
  cases ignore with
  | true =>
    obtain ⟨a, as, rfl⟩ := List.exists_cons_of_ne_nil hne
    exact ⟨_, find_ignore⟩
  | false =>
    obtain hholds | holder := h rfl
    · obtain ⟨_, a, _, -, -, -, hfind⟩ := find_of_holds hholds
      exact ⟨_, hfind⟩
    · obtain ⟨a, as, rfl⟩ := List.exists_cons_of_ne_nil hne
      exact ⟨_, find_of_older holder⟩

/-- The entry that is found: the only one that holds what is looked for, or the first one if
    all are newer than that. -/
theorem find_cases {as : List α} {n : Nat} (hcover : Covers holds older as)
    (hdisjoint : as.Pairwise fun a b => holds a = true → holds b = false)
    (h : find node holds older false as = some n) :
    (∃ a ∈ as, node a = n ∧ holds a = true ∧ ∀ b ∈ as, holds b = true → b = a) ∨
      ∃ a, as.head? = some a ∧ node a = n ∧ ∀ b ∈ as, older b = true ∧ holds b = false := by
  obtain hholds | hold := hcover
  · obtain ⟨front, a, behind, rfl, ha, hfront, hfind⟩ := find_of_holds hholds
    refine .inl ⟨a, by simp, Option.some.inj (hfind.symm.trans h), ha, fun b hb hbh => ?_⟩
    obtain hb | hb := List.mem_append.mp hb
    · exact absurd hbh (by simp [hfront b hb])
    obtain rfl | hb := List.mem_cons.mp hb
    · rfl
    · -- the entries behind it do not hold the same
      have hb' := (List.pairwise_cons.mp (List.pairwise_append.mp hdisjoint).2.1).1 b hb ha
      exact absurd hbh (by simp [hb'])
  · cases as with
    | nil => cases h
    | cons a as =>
      exact .inr ⟨a, rfl, Option.some.inj ((find_of_older hold).symm.trans h), hold⟩

/-- The entries keep their nodes and what they hold, and the last one still takes a request
    for an older one. -/
theorem find_mono {as as' : List α} {n : Nat}
    (hsame : as'.map (fun a => (node a, holds a)) = as.map (fun a => (node a, holds a)))
    (hlast : ∀ a ∈ as.getLast?, older a = true → ∀ a' ∈ as'.getLast?, older a' = true)
    (h : find node holds older ignore as = some n) :
    find node holds older ignore as' = some n := by
  have hhead : as'.head?.map node = as.head?.map node := by
    have := congrArg (fun rs => rs.head?.map (·.1)) hsame
    simpa [List.head?_map, Function.comp_def] using this
  have hfind : (as'.find? holds).map node = (as.find? holds).map node := by
    have := congrArg (fun rs => (rs.find? (·.2)).map (·.1)) hsame
    simpa [List.find?_map, Function.comp_def] using this
  have hnil : as'.getLast?.isSome = as.getLast?.isSome := by
    have := congrArg (fun rs => rs.getLast?.isSome) hsame
    simpa [List.getLast?_map] using this
  simp only [find, Option.or_eq_some_iff] at h ⊢
  rw [hhead, hfind]
  refine h.imp_right fun ⟨hnone, hold⟩ => ⟨hnone, ?_⟩
  obtain ⟨a, ha, hn⟩ := Option.bind_eq_some_iff.mp hold
  rw [ha] at hnil
  obtain ⟨a', ha'⟩ := Option.isSome_iff_exists.mp hnil
  split at hn
  · rename_i holder
    rw [ha', Option.bind_some, hlast a ha holder a' ha', if_pos rfl]
    exact hn
  · cases hn

/-- Entries behind the one that was found are taken off the stack. -/
theorem find_filter {front behind kept : List α} {a : α} (hsub : kept ⊆ behind)
    (hnodup : ((front ++ a :: behind).map node).Nodup)
    (hcover : ignore = false → Covers holds older (front ++ a :: behind))
    (h : find node holds older ignore (front ++ a :: behind) = some (node a)) :
    find node holds older ignore (front ++ a :: kept) = some (node a) := by
  have hmem : front ++ a :: kept ⊆ front ++ a :: behind := by
    intro x hx
    simp only [List.mem_append, List.mem_cons] at hx ⊢
    exact hx.imp_right (.imp_right (@hsub x))
  -- the first entry is the same
  have hfirst : ∀ {x xs}, front ++ a :: behind = x :: xs →
      ∃ ys, front ++ a :: kept = x :: ys := by
    intro x xs hx
    cases front with
    | nil => exact ⟨kept, by rw [(List.cons.inj hx).1]; rfl⟩
    | cons y front => exact ⟨front ++ a :: kept, by rw [← (List.cons.inj hx).1]; rfl⟩
  obtain ⟨x, xs, hx⟩ := List.exists_cons_of_ne_nil (l := front ++ a :: behind) (by simp)
  obtain ⟨ys, hy⟩ := hfirst hx
  cases ignore with
  | true =>
    rw [hx, find_ignore] at h
    rw [hy, find_ignore, h]
  | false =>
    obtain hholds | holder := hcover rfl
    · -- the entry that was found is the first that holds what is looked for
      have hsome : ((front ++ a :: behind).find? holds).isSome = true :=
        List.find?_isSome.mpr hholds
      obtain ⟨b, hb⟩ := Option.isSome_iff_exists.mp hsome
      simp only [find, Bool.false_eq_true, if_false] at h ⊢
      rw [hb, Option.map_some, Option.some_or] at h
      have hba : b = a := List.inj_on_of_nodup_map hnodup (List.mem_of_find?_eq_some hb) (by simp)
        (Option.some.inj h)
      subst hba
      rw [List.find?_append] at hb
      cases hfront : front.find? holds with
      | none => rw [List.find?_append, hfront, Option.none_or, List.find?_cons_of_pos
          (List.find?_some (hfront ▸ hb)), Option.map_some, Option.some_or]
      | some c =>
        -- the entry would be on the stack twice
        rw [hfront, Option.some_or] at hb
        obtain rfl := Option.some.inj hb
        rw [List.map_append, List.map_cons, List.nodup_middle, List.nodup_cons,
          List.mem_append] at hnodup
        have hmem := List.mem_map_of_mem (f := node) (List.mem_of_find?_eq_some hfront)
        exact absurd (.inl hmem) hnodup.1
    · rw [hx, find_of_older (hx ▸ holder)] at h
      rw [hy, find_of_older, h]
      exact fun b hb => holder b (hmem (hy ▸ hb))

/-! ### Entries by their node -/

variable {pre post : List α} {a a' : α}

theorem node_ne (hnodup : ((pre ++ a :: post).map node).Nodup) {x : α} (hx : x ∈ pre ++ post) :
    node x ≠ node a := by
  rw [List.map_append, List.map_cons, List.nodup_middle, List.nodup_cons, ← List.map_append]
    at hnodup
  exact fun heq => hnodup.1 (heq ▸ List.mem_map_of_mem hx)

/-- The first entry with a node is the one that has it. -/
theorem find?_split (hnodup : ((pre ++ a :: post).map node).Nodup) :
    (pre ++ a :: post).find? (node · == node a) = some a := by
  refine List.find?_eq_some_iff_append.mpr ⟨by simp, pre, post, rfl, fun x hx => ?_⟩
  simpa using node_ne hnodup (List.mem_append_left post hx)

/-- An entry is replaced by one with the same node. -/
theorem map_split (hnodup : ((pre ++ a :: post).map node).Nodup) (hnode : node a' = node a) :
    (pre ++ a :: post).map (fun x => if node x = node a' then a' else x) = pre ++ a' :: post := by
  have hmap : ∀ xs : List α, xs ⊆ pre ++ post →
      xs.map (fun x => if node x = node a then a' else x) = xs := by
    refine fun xs hxs => (List.map_congr_left fun x hx => ?_).trans (List.map_id' xs)
    exact if_neg (node_ne hnodup (hxs hx))
  rw [hnode, List.map_append, List.map_cons, hmap pre (List.subset_append_left pre post),
    hmap post (List.subset_append_right pre post), if_pos rfl]

/-- The entries up to one, and those behind it. -/
theorem splitAt_split (hnodup : ((pre ++ a :: post).map node).Nodup) :
    (pre ++ a :: post).splitAt ((pre ++ a :: post).findIdx (node · == node a) + 1) =
      (pre ++ [a], post) := by
  have hidx : (pre ++ a :: post).findIdx (node · == node a) = pre.length := by
    rw [List.findIdx_append, if_neg]
    · simp [List.findIdx_cons]
    · -- no entry in front has the same node
      rw [List.findIdx_lt_length]
      rintro ⟨x, hx, heq⟩
      exact node_ne hnodup (List.mem_append_left post hx) (beq_iff_eq.mp heq)
  rw [hidx, List.splitAt_eq]
  simp [List.take_append, List.drop_append, List.take_of_length_le]

end StackLookup
