import Adara.ForStd.Runs
import Adara.Native.BankTable

/-! # What reallocating the table of banks preserves

A call that makes room for a bank and a state sets the dimensions of the table to just
these, so it may only be made where neither dimension shrinks (`CallSafe`).  Then every
entry keeps its place under its bank and state, places are distinct and lie in the
array, and the dimensions only grow (`banks_of_run`).  A call that shrinks one of them
loses entries, moves some to other banks, or writes behind the new array
(`not_preserved_of_shrinking`). -/

namespace Adara.Spec.BankTable

open Adara.Native Adara.Native.BankTable

variable {β : Type}

/-! ### Indices -/

/-- The places of the table can be numbered with 32 bits. -/
def Fits (t : BankTable β) : Prop :=
  numSpecialBanks + t.numStates * (t.maxBank + 1) < Word32.modulus

/-- The table has an array with a place for every bank and state. -/
structure Allocated (t : BankTable β) : Prop where
  size_eq : ∃ arr, t.banksArr = some arr ∧
    arr.length = numSpecialBanks + t.numStates * (t.maxBank + 1)
  fits : Fits t
  numStates_pos : 0 < t.numStates

theorem row_le {bankId state maxBank numStates : Nat} (hbank : bankId ≤ maxBank)
    (hstate : state < numStates) :
    bankId + state * (maxBank + 1) < numStates * (maxBank + 1) := by
  have hrow : (state + 1) * (maxBank + 1) ≤ numStates * (maxBank + 1) :=
    Nat.mul_le_mul_right _ hstate
  rw [Nat.succ_mul] at hrow
  omega

/-- Inside the table no index wraps. -/
theorem bsindex_eq {t : BankTable β} (hfits : Fits t) {bankId state : Nat}
    (hbank : bankId ≤ t.maxBank) (hstate : state < t.numStates) :
    bsindex t.maxBank bankId state =
      numSpecialBanks + (bankId + state * (t.maxBank + 1)) := by
  have hrow := row_le hbank hstate
  have hstates : t.maxBank + 1 ≤ t.numStates * (t.maxBank + 1) :=
    Nat.le_mul_of_pos_left _ (by omega)
  simp only [Fits, numSpecialBanks] at hfits
  simp only [bsindex, numSpecialBanks]
  rw [Word32.add_of_lt (b := 1) (by omega), Word32.mul_of_lt (by omega),
    Word32.add_of_lt (b := bankId) (by omega), Word32.add_of_lt (by omega), Nat.add_assoc]

/-- Every entry has its place in the array. -/
theorem index_lt {t : BankTable β} (h : Allocated t) {key : BankKey} (hkey : t.Covers key) :
    t.index key < t.banksArrSize := by
  obtain ⟨arr, harr, hlen⟩ := h.size_eq
  have hsize : t.banksArrSize = numSpecialBanks + t.numStates * (t.maxBank + 1) := by
    rw [banksArrSize, harr, ← hlen]
    rfl
  have hpos := h.numStates_pos
  simp only [hsize, index]
  cases key with
  | unmapped =>
    simp only [keyIndex, numSpecialBanks]
    omega
  | error =>
    simp only [keyIndex, numSpecialBanks]
    omega
  | bank bankId state =>
    have hrow := row_le hkey.1 hkey.2
    rw [keyIndex, bsindex_eq h.fits hkey.1 hkey.2]
    omega

/-- No two entries have the same place. -/
theorem index_injective {t : BankTable β} (hfits : Fits t) {key key' : BankKey}
    (hkey : t.Covers key) (hkey' : t.Covers key') (heq : t.index key = t.index key') :
    key = key' := by
  -- a special bank has an index below those of the others
  have hbank : ∀ bankId state, t.Covers (.bank bankId state) →
      2 ≤ t.index (.bank bankId state) := by
    intro bankId state h
    rw [index, keyIndex, bsindex_eq hfits h.1 h.2, numSpecialBanks]
    omega
  have hunmapped : t.index .unmapped = 0 := rfl
  have herror : t.index .error = 1 := rfl
  cases key with
  | unmapped =>
    cases key' with
    | unmapped => rfl
    | error => cases heq
    | bank bankId state =>
      have := hbank bankId state hkey'
      omega
  | error =>
    cases key' with
    | unmapped => cases heq
    | error => rfl
    | bank bankId state =>
      have := hbank bankId state hkey'
      omega
  | bank bankId state =>
    cases key' with
    | unmapped =>
      have := hbank bankId state hkey
      omega
    | error =>
      have := hbank bankId state hkey
      omega
    | bank bankId' state' =>
      rw [index, index, keyIndex, keyIndex, bsindex_eq hfits hkey.1 hkey.2,
        bsindex_eq hfits hkey'.1 hkey'.2] at heq
      have heq' := Nat.add_left_cancel heq
      have hlt : bankId < t.maxBank + 1 := Nat.lt_succ_of_le hkey.1
      have hlt' : bankId' < t.maxBank + 1 := Nat.lt_succ_of_le hkey'.1
      -- bank and state are remainder and quotient by the length of a row
      have hmod := congrArg (· % (t.maxBank + 1)) heq'
      have hdiv := congrArg (· / (t.maxBank + 1)) heq'
      simp only [Nat.add_mul_mod_self_right, Nat.mod_eq_of_lt hlt, Nat.mod_eq_of_lt hlt'] at hmod
      simp only [Nat.add_mul_div_right _ _ (Nat.succ_pos t.maxBank), Nat.div_eq_of_lt hlt,
        Nat.div_eq_of_lt hlt', Nat.zero_add] at hdiv
      rw [hmod, hdiv]

/-! ### The entries of a table -/

/-- The entries a table has room for. -/
def keys (t : BankTable β) : List BankKey :=
  [.unmapped, .error] ++
    (List.range t.numStates).flatMap fun s => (List.range (t.maxBank + 1)).map fun b => .bank b s

theorem mem_keys {t : BankTable β} {key : BankKey} : key ∈ keys t ↔ t.Covers key := by
  cases key with
  | unmapped => simp [keys, Covers]
  | error => simp [keys, Covers]
  | bank bankId state =>
    simp only [keys, List.mem_append, List.mem_cons, reduceCtorEq, List.not_mem_nil, or_self,
      false_or, List.mem_flatMap, List.mem_range, List.mem_map, BankKey.bank.injEq, Covers]
    constructor
    · rintro ⟨s, hs, b, hb, rfl, rfl⟩
      exact ⟨Nat.le_of_lt_succ hb, hs⟩
    · intro h
      exact ⟨state, h.2, bankId, Nat.lt_succ_of_le h.1, rfl, rfl⟩

theorem keys_nodup (t : BankTable β) : (keys t).Nodup := by
  simp only [keys]
  apply List.Nodup.append (by decide)
  · rw [List.nodup_flatMap]
    constructor
    · intro s _
      exact List.nodup_range.map (fun b b' h => by cases h; rfl)
    · apply List.Pairwise.imp _ List.nodup_range
      intro s s' hne key hkey hkey'
      obtain ⟨b, -, rfl⟩ := List.mem_map.mp hkey
      obtain ⟨b', -, heq⟩ := List.mem_map.mp hkey'
      cases heq
      exact hne rfl
  · intro key hspecial hbank
    simp only [List.mem_flatMap, List.mem_map] at hbank
    obtain ⟨s, -, b, -, rfl⟩ := hbank
    simp at hspecial

/-- The moves are one for every entry, from its old place to its new one. -/
theorem moves_eq {t : BankTable β} (hfits : Fits t) (hpos : 0 < t.numStates) (bankId : Nat) :
    t.moves bankId = (keys t).map fun key => (t.index key, keyIndex bankId key) := by
  have hrow : t.maxBank + 1 ≤ t.numStates * (t.maxBank + 1) := Nat.le_mul_of_pos_left _ hpos
  simp only [Fits, numSpecialBanks] at hfits
  rw [moves, Word32.add_of_lt (by omega), keys, List.map_append, List.map_flatMap]
  simp only [List.map_map]
  rfl

/-! ### Reallocating -/

/-- A table to start from: a new one, or one with an array. -/
def Good (t : BankTable β) : Prop := t = .new β ∨ Allocated t

theorem Good.fits {t : BankTable β} (h : Good t) : Fits t := by
  rcases h with rfl | h
  · show numSpecialBanks + 1 * (0 + 1) < Word32.modulus
    decide
  · exact h.fits

/-- A call that reallocates gives up no bank and no state and needs no more places than
    can be numbered; one that does not finds an array. -/
def CallSafe (t : BankTable β) (bankId state : Nat) : Prop :=
  if t.grows bankId state then
    t.maxBank ≤ bankId ∧ t.numStates ≤ state + 1 ∧
      numSpecialBanks + (state + 1) * (bankId + 1) < Word32.modulus
  else t.banksArr.isSome

instance (t : BankTable β) (bankId state : Nat) : Decidable (CallSafe t bankId state) :=
  inferInstanceAs (Decidable (ite _ _ _))

/-- The larger table, with an array of its size. -/
def enlarged (arr : List (Option β)) (bankId state : Nat) : BankTable β where
  banksArr := some arr
  maxBank := bankId
  numStates := state + 1

theorem covers_enlarged {t : BankTable β} {arr : List (Option β)} {bankId state : Nat}
    (hbank : t.maxBank ≤ bankId) (hstate : t.numStates ≤ state + 1) {key : BankKey}
    (hkey : t.Covers key) : (enlarged arr bankId state).Covers key := by
  cases key with
  | unmapped => trivial
  | error => trivial
  | bank b s => exact ⟨Nat.le_trans hkey.1 hbank, Nat.lt_of_lt_of_le hkey.2 hstate⟩

/-- The entries moved over: every one is at its new place, and the other places are
    empty. -/
theorem relocate_entries {t : BankTable β} {arr : List (Option β)} {bankId state : Nat}
    (h : Allocated t) (harr : t.banksArr = some arr)
    (hbank : t.maxBank ≤ bankId) (hstate : t.numStates ≤ state + 1)
    (hfits : numSpecialBanks + (state + 1) * (bankId + 1) < Word32.modulus) :
    ∃ res, relocate none (t.moves bankId) arr
        (List.replicate (numSpecialBanks + (state + 1) * (bankId + 1)) none) = some res ∧
      res.length = numSpecialBanks + (state + 1) * (bankId + 1) ∧
      (∀ key, t.Covers key → res[keyIndex bankId key]? = arr[t.index key]?) ∧
      ∀ key, (enlarged res bankId state).Covers key → ¬ t.Covers key →
        res[keyIndex bankId key]? = some none := by
  have hnew : ∀ arr, Fits (enlarged (β := β) arr bankId state) := fun _ => hfits
  have hmem : ∀ m ∈ t.moves bankId, ∃ key, t.Covers key ∧ m = (t.index key, keyIndex bankId key) := by
    intro m hm
    rw [moves_eq h.fits h.numStates_pos] at hm
    obtain ⟨key, hkey, rfl⟩ := List.mem_map.mp hm
    exact ⟨key, mem_keys.mp hkey, rfl⟩
  -- the new places are those of the larger table
  have hplace : ∀ arr key, (enlarged (β := β) arr bankId state).Covers key →
      arr.length = numSpecialBanks + (state + 1) * (bankId + 1) →
      keyIndex bankId key < arr.length := by
    intro arr key hkey hlen
    have halloc : Allocated (enlarged arr bankId state) := ⟨⟨arr, rfl, hlen⟩, hfits, Nat.succ_pos _⟩
    exact index_lt halloc hkey
  have hfrom : ((t.moves bankId).map Prod.fst).Nodup := by
    rw [moves_eq h.fits h.numStates_pos, List.map_map]
    apply List.Nodup.map_on _ (keys_nodup t)
    intro key hkey key' hkey' heq
    exact index_injective h.fits (mem_keys.mp hkey) (mem_keys.mp hkey') heq
  have hto : ((t.moves bankId).map Prod.snd).Nodup := by
    rw [moves_eq h.fits h.numStates_pos, List.map_map]
    apply List.Nodup.map_on _ (keys_nodup t)
    intro key hkey key' hkey' heq
    exact index_injective (hnew []) (covers_enlarged hbank hstate (mem_keys.mp hkey))
      (covers_enlarged hbank hstate (mem_keys.mp hkey')) heq
  have hin : ∀ m ∈ t.moves bankId, m.1 < arr.length ∧
      m.2 < (List.replicate (numSpecialBanks + (state + 1) * (bankId + 1))
        (none : Option β)).length := by
    intro m hm
    obtain ⟨key, hkey, rfl⟩ := hmem m hm
    constructor
    · have := index_lt h hkey
      rwa [banksArrSize, harr] at this
    · exact hplace _ key (covers_enlarged hbank hstate hkey) List.length_replicate
  obtain ⟨res, hres, hlen, hmoved, hkept⟩ := relocate_spec hfrom hto hin
  rw [List.length_replicate] at hlen
  refine ⟨res, hres, hlen, ?_, ?_⟩
  · intro key hkey
    apply hmoved (t.index key, keyIndex bankId key)
    rw [moves_eq h.fits h.numStates_pos]
    exact List.mem_map.mpr ⟨key, mem_keys.mpr hkey, rfl⟩
  · intro key hkey hnot
    have hfree : keyIndex bankId key ∉ (t.moves bankId).map Prod.snd := by
      intro hmem'
      obtain ⟨m, hm, heq⟩ := List.mem_map.mp hmem'
      obtain ⟨key', hkey', rfl⟩ := hmem m hm
      have hsame := index_injective (hnew res) (covers_enlarged hbank hstate hkey') hkey heq
      exact hnot (hsame ▸ hkey')
    rw [hkept _ hfree, List.getElem?_replicate, if_pos]
    rw [← hlen]
    exact hplace res key hkey hlen

/-- The sizes of a call that grows the table, without their reductions. -/
theorem reallocateBanksArray_of_grows {t : BankTable β} {bankId state : Nat}
    (hgrows : t.grows bankId state)
    (hfits : numSpecialBanks + (state + 1) * (bankId + 1) < Word32.modulus) :
    t.reallocateBanksArray bankId state =
      (match t.banksArr with
        | none => some (List.replicate (numSpecialBanks + (state + 1) * (bankId + 1)) none)
        | some arr => relocate none (t.moves bankId) arr
            (List.replicate (numSpecialBanks + (state + 1) * (bankId + 1)) none)).map
        fun arr => enlarged arr bankId state := by
  have hstate : state + 1 ≤ (state + 1) * (bankId + 1) := Nat.le_mul_of_pos_right _ (Nat.succ_pos _)
  have hbank : bankId + 1 ≤ (state + 1) * (bankId + 1) := Nat.le_mul_of_pos_left _ (Nat.succ_pos _)
  have hspecial : numSpecialBanks = 2 := rfl
  rw [reallocateBanksArray, if_pos hgrows]
  simp only [Word32.add_of_lt (show state + 1 < Word32.modulus by omega),
    Word32.add_of_lt (show bankId + 1 < Word32.modulus by omega),
    Word32.mul_of_lt (show (state + 1) * (bankId + 1) < Word32.modulus by omega),
    Word32.add_of_lt hfits]
  rfl

/-- An empty place holds no entry. -/
theorem find?_eq_none_of_read {t : BankTable β} {key : BankKey}
    (h : t.read (t.index key) = none ∨ t.read (t.index key) = some none) :
    t.find? key = none := by
  rw [find?]
  split
  · rcases h with h | h
    · rw [h]
      rfl
    · rw [h]
      rfl
  · rfl

/-- The place of an entry holds the entry. -/
theorem read_eq {t : BankTable β} {key : BankKey} (h : Allocated t) (hkey : t.Covers key) :
    t.read (t.index key) = some (t.find? key) := by
  have hlt : t.index key < (t.banksArr.getD []).length := index_lt h hkey
  rw [find?, if_pos hkey, BankTable.read, List.getElem?_eq_getElem hlt]
  rfl

/-- A call makes room for its bank and state. -/
theorem covers_of_reallocate {t t' : BankTable β} {bankId state : Nat}
    (hstate : state + 1 < Word32.modulus) (h : t.reallocateBanksArray bankId state = some t') :
    t'.Covers (.bank bankId state) := by
  have hnum := Word32.add_of_lt hstate
  rw [reallocateBanksArray] at h
  split at h
  · obtain ⟨arr, -, rfl⟩ := Option.map_eq_some_iff.mp h
    show bankId ≤ bankId ∧ state < Word32.add state 1
    omega
  · rename_i hgrows
    cases h
    rw [grows, hnum] at hgrows
    show bankId ≤ t.maxBank ∧ state < t.numStates
    omega

/-- A safe call keeps every entry under its bank and state. -/
theorem reallocateBanksArray_spec {t : BankTable β} {bankId state : Nat} (h : Good t)
    (hsafe : CallSafe t bankId state) :
    ∃ t', t.reallocateBanksArray bankId state = some t' ∧ Allocated t' ∧
      t.maxBank ≤ t'.maxBank ∧ t.numStates ≤ t'.numStates ∧
      ∀ key, t'.find? key = t.find? key := by
  rw [CallSafe] at hsafe
  by_cases hgrows : t.grows bankId state
  · rw [if_pos hgrows] at hsafe
    obtain ⟨hbank, hstate, hfits⟩ := hsafe
    rw [reallocateBanksArray_of_grows hgrows hfits]
    rcases h with rfl | halloc
    · -- there was no array before
      refine ⟨_, rfl, ⟨⟨_, rfl, List.length_replicate⟩, hfits, Nat.succ_pos _⟩, hbank, hstate, ?_⟩
      intro key
      rw [find?_eq_none_of_read (t := .new β) (.inl rfl)]
      apply find?_eq_none_of_read
      simp only [BankTable.read, enlarged, Option.getD_some, List.getElem?_replicate]
      split
      · exact .inr rfl
      · exact .inl rfl
    · obtain ⟨arr, harr, -⟩ := halloc.size_eq
      obtain ⟨res, hres, hlen, hmoved, hempty⟩ :=
        relocate_entries halloc harr hbank hstate hfits
      simp only [harr, hres]
      refine ⟨_, rfl, ⟨⟨res, rfl, hlen⟩, hfits, Nat.succ_pos _⟩, hbank, hstate, ?_⟩
      intro key
      by_cases hkey : t.Covers key
      · rw [find?, if_pos (covers_enlarged hbank hstate hkey), find?, if_pos hkey]
        simp only [BankTable.read, harr, enlarged, Option.getD_some, index]
        rw [hmoved key hkey]
        rfl
      · rw [find?, find?, if_neg hkey]
        split
        · rename_i hnew
          simp only [BankTable.read, enlarged, Option.getD_some, index]
          rw [hempty key hnew hkey]
          rfl
        · rfl
  · rw [if_neg hgrows] at hsafe
    have halloc : Allocated t := by
      rcases h with rfl | h
      · cases hsafe
      · exact h
    use t
    rw [reallocateBanksArray, if_neg hgrows]
    exact ⟨rfl, halloc, Nat.le_refl _, Nat.le_refl _, fun _ => rfl⟩

/-- The first allocation, for a largest bank id above 0 that fits 16 bits. -/
theorem allocate_new {maxBank : Nat} (hpos : 0 < maxBank) (hlt : maxBank < 2 ^ 16) :
    ∃ t, (BankTable.new β).reallocateBanksArray maxBank 0 = some t ∧ Allocated t ∧
      t.maxBank = maxBank ∧ ∀ key, t.find? key = none := by
  have hmod : Word32.modulus = 2 ^ 32 := rfl
  have hgrows : (BankTable.new β).grows maxBank 0 := .inr hpos
  have hfits : numSpecialBanks + (0 + 1) * (maxBank + 1) < Word32.modulus := by
    simp only [numSpecialBanks]
    omega
  have hsafe : CallSafe (.new β) maxBank 0 := by
    rw [CallSafe, if_pos hgrows]
    exact ⟨Nat.zero_le _, Nat.le_refl _, hfits⟩
  obtain ⟨t, ht, halloc, -, -, hkept⟩ := reallocateBanksArray_spec (.inl rfl) hsafe
  refine ⟨t, ht, halloc, ?_, fun key => ?_⟩
  · rw [reallocateBanksArray_of_grows hgrows hfits] at ht
    cases ht
    rfl
  · rw [hkept, find?_eq_none_of_read (t := .new β) (.inl rfl)]

/-! ### Storing an entry -/

/-- An entry stored is found, and the others are unchanged. -/
theorem write_spec {t : BankTable β} {key : BankKey} (info : β) (h : Allocated t)
    (hkey : t.Covers key) :
    ∃ t', t.write (t.index key) info = some t' ∧ Allocated t' ∧ t'.maxBank = t.maxBank ∧
      t'.numStates = t.numStates ∧
      ∀ key', t'.find? key' = if key' = key then some info else t.find? key' := by
  obtain ⟨arr, harr, hlen⟩ := h.size_eq
  have hindex : t.index key < arr.length := by
    have := index_lt h hkey
    rwa [banksArrSize, harr] at this
  refine ⟨{ t with banksArr := some (arr.set (t.index key) (some info)) }, ?_, ?_, rfl, rfl, ?_⟩
  · simp only [write, harr]
    rw [if_pos hindex]
  · exact ⟨⟨_, rfl, by rw [List.length_set]; exact hlen⟩, h.fits, h.numStates_pos⟩
  · intro key'
    have hcovers : ∀ k, BankTable.Covers
        { t with banksArr := some (arr.set (t.index key) (some info)) } k ↔ t.Covers k := by
      intro k
      cases k <;> exact Iff.rfl
    by_cases hsame : key' = key
    · subst hsame
      rw [if_pos rfl, find?, if_pos ((hcovers key').mpr hkey)]
      simp only [BankTable.read, Option.getD_some, index] at hindex ⊢
      rw [List.getElem?_set_self hindex]
      rfl
    · rw [if_neg hsame, find?, find?]
      by_cases hkey' : t.Covers key'
      · rw [if_pos ((hcovers key').mpr hkey'), if_pos hkey']
        have hne : t.index key ≠ t.index key' := fun heq =>
          hsame (index_injective h.fits hkey hkey' heq).symm
        simp only [BankTable.read, Option.getD_some, index, harr] at hne ⊢
        rw [List.getElem?_set_ne hne]
      · rw [if_neg (fun hk => hkey' ((hcovers key').mp hk)), if_neg hkey']

/-! ### Runs -/

/-- The operations on the table: a call of `reallocateBanksArray`, and the creation of a
    `BankInfo`. -/
inductive Op (β : Type) where
  | reallocate (bankId state : Nat)
  | create (key : BankKey) (info : β)

def step (t : BankTable β) : Op β → Option (BankTable β)
  | .reallocate bankId state => t.reallocateBanksArray bankId state
  | .create key info => t.write (t.index key) info

/-- Calls are safe, and a `BankInfo` is created where there is room and none yet. -/
def OpSafe (t : BankTable β) : Op β → Prop
  | .reallocate bankId state => CallSafe t bankId state
  | .create key _ => t.banksArr.isSome ∧ t.Covers key ∧ t.find? key = none

instance (t : BankTable β) : (op : Op β) → Decidable (OpSafe t op)
  | .reallocate bankId state => inferInstanceAs (Decidable (CallSafe t bankId state))
  | .create key _ =>
    inferInstanceAs (Decidable (t.banksArr.isSome ∧ t.Covers key ∧ t.find? key = none))

/-- The `BankInfo` created first under a key. -/
def created (ops : List (Op β)) (key : BankKey) : Option β :=
  ops.findSome? fun
    | .create key' info => if key' = key then some info else none
    | .reallocate _ _ => none

/-- A table later in a run: it has grown, and has every entry it had. -/
structure Extends (t t' : BankTable β) : Prop where
  maxBank_le : t.maxBank ≤ t'.maxBank
  numStates_le : t.numStates ≤ t'.numStates
  find?_eq : ∀ key info, t.find? key = some info → t'.find? key = some info

theorem Extends.refl (t : BankTable β) : Extends t t :=
  ⟨Nat.le_refl _, Nat.le_refl _, fun _ _ h => h⟩

theorem Extends.trans {t₁ t₂ t₃ : BankTable β} (h : Extends t₁ t₂) (h' : Extends t₂ t₃) :
    Extends t₁ t₃ where
  maxBank_le := Nat.le_trans h.maxBank_le h'.maxBank_le
  numStates_le := Nat.le_trans h.numStates_le h'.numStates_le
  find?_eq := fun key info hfind => h'.find?_eq key info (h.find?_eq key info hfind)

/-- A safe operation can be performed, and extends the table by what it creates. -/
theorem step_spec {t : BankTable β} {op : Op β} (h : Good t) (hsafe : OpSafe t op) :
    ∃ t', step t op = some t' ∧ Allocated t' ∧ Extends t t' ∧
      ∀ key, t'.find? key = (t.find? key).or (created [op] key) := by
  cases op with
  | reallocate bankId state =>
    obtain ⟨t', ht', halloc, hbank, hstate, hfind⟩ := reallocateBanksArray_spec h hsafe
    refine ⟨t', ht', halloc, ⟨hbank, hstate, fun key info hkey => (hfind key).trans hkey⟩, ?_⟩
    intro key
    rw [hfind]
    exact Option.or_none.symm
  | create key info =>
    obtain ⟨hsome, hkey, hfree⟩ := hsafe
    have halloc : Allocated t := by
      rcases h with rfl | h
      · cases hsome
      · exact h
    obtain ⟨t', ht', halloc', hbank, hstate, hfind⟩ := write_spec info halloc hkey
    refine ⟨t', ht', halloc', ⟨Nat.le_of_eq hbank.symm, Nat.le_of_eq hstate.symm, ?_⟩, ?_⟩
    · intro key' info' hkey'
      have hne : key' ≠ key := by
        intro heq
        rw [heq, hfree] at hkey'
        cases hkey'
      rw [hfind, if_neg hne, hkey']
    · intro key'
      rw [hfind]
      by_cases hsame : key' = key
      · rw [if_pos hsame, hsame, hfree]
        simp [created]
      · rw [if_neg hsame]
        simp [created, Ne.symm hsame]

/-- A run of safe operations comes to its end, and holds what was created. -/
theorem run_spec {t : BankTable β} {ops : List (Op β)} (h : Good t)
    (hsafe : Runs.along step OpSafe t ops) :
    ∃ t', Runs.run step t ops = some t' ∧ Good t' ∧ (ops ≠ [] → Allocated t') ∧ Extends t t' ∧
      ∀ key, t'.find? key = (t.find? key).or (created ops key) := by
  induction ops generalizing t with
  | nil => exact ⟨t, rfl, h, fun hne => absurd rfl hne, .refl t, fun _ => Option.or_none.symm⟩
  | cons op ops ih =>
    obtain ⟨u, hu, halloc, hext, hfind⟩ := step_spec h hsafe.1
    obtain ⟨t', hrun, hgood, halloc', hext', hfind'⟩ := ih (.inr halloc) (hsafe.2 u hu)
    refine ⟨t', by rw [Runs.run, hu]; exact hrun, hgood, fun _ => ?_, hext.trans hext', ?_⟩
    · cases ops with
      | nil =>
        cases hrun
        exact halloc
      | cons op' ops => exact halloc' (by simp)
    · intro key
      rw [hfind', hfind, Option.or_assoc]
      congr 1
      cases op with
      | reallocate bankId state => rfl
      | create key' info =>
        simp only [created, List.findSome?_cons]
        split <;> rfl

/-- In a run of safe calls and creations no access is out of bounds, the dimensions never
    decrease, every entry has a place of its own in the array, and every `BankInfo` is
    found under the bank and state it was created for, at any later point. -/
theorem banks_of_run {ops ops' : List (Op β)}
    (hsafe : Runs.along step OpSafe (.new β) (ops ++ ops')) :
    ∃ t t', Runs.run step (.new β) ops = some t ∧ Runs.run step t ops' = some t' ∧
      t.maxBank ≤ t'.maxBank ∧ t.numStates ≤ t'.numStates ∧
      (ops ≠ [] → ∀ key, t.Covers key → t.index key < t.banksArrSize) ∧
      (∀ key key', t.Covers key → t.Covers key' → t.index key = t.index key' → key = key') ∧
      (∀ key, t.find? key = created ops key) ∧
      ∀ key info, t.find? key = some info → t'.find? key = some info := by
  obtain ⟨hfirst, hrest⟩ := Runs.along_append.mp hsafe
  obtain ⟨t, hrun, hgood, halloc, -, hfind⟩ := run_spec (.inl rfl) hfirst
  obtain ⟨t', hrun', -, -, hext, -⟩ := run_spec hgood (hrest t hrun)
  refine ⟨t, t', hrun, hrun', hext.maxBank_le, hext.numStates_le, ?_, ?_, ?_, hext.find?_eq⟩
  · intro hne key hkey
    exact index_lt (halloc hne) hkey
  · intro key key' hkey hkey' heq
    exact index_injective hgood.fits hkey hkey' heq
  · intro key
    rw [hfind, find?_eq_none_of_read (t := .new β) (.inl rfl), Option.none_or]

/-- Two states of two banks, with an entry each. -/
theorem banks_of_run_two :
    ∃ t t', Runs.run step (.new Nat) [.reallocate 1 0, .create (.bank 1 0) 7] = some t ∧
      Runs.run step t [.reallocate 1 1, .create (.bank 1 1) 8] = some t' ∧
      t.maxBank ≤ t'.maxBank ∧ t.numStates ≤ t'.numStates ∧
      ([Op.reallocate 1 0, Op.create (.bank 1 0) 7] ≠ [] →
        ∀ key, t.Covers key → t.index key < t.banksArrSize) ∧
      (∀ key key', t.Covers key → t.Covers key' → t.index key = t.index key' → key = key') ∧
      (∀ key, t.find? key = created [.reallocate 1 0, .create (.bank 1 0) 7] key) ∧
      ∀ key info, t.find? key = some info → t'.find? key = some info := by
  exact banks_of_run (by decide)

/-- A call for a smaller bank and a new state gives up banks: the largest bank id decreases,
    and the entry of bank 2 is found under bank 0 in state 1.  With ten banks it writes
    behind the new array. -/
theorem not_preserved_of_shrinking :
    (∃ t t', Runs.run step (.new Nat) [.reallocate 3 0, .create (.bank 2 0) 7] = some t ∧
      t.reallocateBanksArray 1 1 = some t' ∧ t'.maxBank < t.maxBank ∧
      t.find? (.bank 2 0) = some 7 ∧ t'.find? (.bank 2 0) = none ∧
      t'.find? (.bank 0 1) = some 7) ∧
    ∃ t, Runs.run step (.new Nat) [.reallocate 10 0] = some t ∧
      t.reallocateBanksArray 1 1 = none := by
  constructor
  · exact ⟨_, _, rfl, rfl, by decide, by decide, by decide, by decide⟩
  · exact ⟨_, rfl, by decide⟩

end Adara.Spec.BankTable
