import Adara.ForStd.ArrayWrites
import Adara.Native.PixelMapping
import Adara.Native.PixelTables
import Adara.Spec.PixelMapFile

/-! # The lookup tables and the map

For a map that was read from a file, the constructor makes its tables within their bounds.  A
physical id is looked up as in the map.  Several physical ids may have one logical id, and the
bank of a logical id is that of the largest of them (`lookupTables_agree`). -/

namespace Adara.Spec.PixelTables

open Adara.Native Adara.Native.PixelMap Adara.Spec.PixelMapFile

variable {allow : Bool} {map : TempMap} {physical logical last : UInt32} {bank : UInt16}

/-! ### Maps that are read from a file -/

/-- What is known of a map that was read. -/
structure FromFile (allow : Bool) (map : TempMap) : Prop where
  nonempty : map.entries ≠ []
  noErrorBit : ∀ e ∈ map.entries, e.1.toNat < 2 ^ 31
  bank_ne : ∀ e ∈ map.entries, e.2.2 ≠ 0xfffe
  oneToOne : allow = false → (map.entries.map fun e => e.2.1).Nodup

theorem storedBank_ne {b : UInt32} (h : BankOk b) : (storedBank b).toUInt16 ≠ 0xfffe := by
  obtain ⟨-, hne, hlt⟩ := h
  rw [storedBank]
  split
  · decide
  · next hspecial =>
    have hlt : b.toNat < 2 ^ 16 := UInt32.lt_iff_toNat_lt.mp (hlt.resolve_left hspecial)
    intro heq
    have hnat := congrArg UInt16.toNat heq
    rw [UInt32.toNat_toUInt16, Nat.mod_eq_of_lt hlt] at hnat
    exact hne (UInt32.toNat_inj.mp hnat)

theorem fromFile_of_readMap {path : String} {text : Option (List Char)} {readError : Bool}
    (h : readMap allow path text readError = some (.ok map)) : FromFile allow map := by
  let P : ReadState → Prop := fun s => (∀ e ∈ s.map.entries, e.1.toNat < 2 ^ 31) ∧
    (∀ e ∈ s.map.entries, e.2.2 ≠ 0xfffe) ∧
    (allow = false → (s.map.entries.map fun e => e.2.1).Nodup ∧
      ∀ e ∈ s.map.entries, e.2.1 ∈ s.outputPixels)
  have hkept : ∀ {s physical logical bank},
      Accepts allow physical logical bank s → P s → P (add s physical logical bank) := by
    rintro s physical logical bank hacc ⟨hbits, hbanks, hdistinct⟩
    have hmem : ∀ e, e ∈ (add s physical logical bank).map.entries ↔
        e = (physical, logical, (storedBank bank).toUInt16) ∨ e ∈ s.map.entries :=
      fun e => SortedMap.mem_insert hacc.newPhysical
    refine ⟨fun e he => ?_, fun e he => ?_, fun hfalse => ?_⟩
    · rcases (hmem e).mp he with rfl | he
      · exact hacc.noErrorBit
      · exact hbits e he
    · rcases (hmem e).mp he with rfl | he
      · exact storedBank_ne hacc.bankOk
      · exact hbanks e he
    · obtain ⟨hnodup, hout⟩ := hdistinct hfalse
      have hnew : logical ∉ s.outputPixels := hacc.newLogical.resolve_left (by simp [hfalse])
      have hperm := (SortedMap.insert_perm (logical, (storedBank bank).toUInt16)
        hacc.newPhysical).map fun e => e.2.1
      constructor
      · refine hperm.nodup_iff.mpr (List.nodup_cons.mpr ⟨fun hin => hnew ?_, hnodup⟩)
        obtain ⟨e, he, heq⟩ := List.mem_map.mp hin
        have hlogical : e.2.1 = logical := heq
        exact hlogical ▸ hout e he
      · intro e he
        rcases (hmem e).mp he with rfl | he
        · exact List.mem_cons_self ..
        · exact List.mem_cons_of_mem _ (hout e he)
  have hempty : P .empty := by
    refine ⟨?_, ?_, fun _ => ⟨List.nodup_nil, ?_⟩⟩ <;> exact fun e he => (List.not_mem_nil he).elim
  obtain ⟨s, ⟨hbits, hbanks, hdistinct⟩, rfl, hsize⟩ := readMap_invariant hkept hempty h
  refine ⟨?_, hbits, hbanks, fun hfalse => (hdistinct hfalse).1⟩
  rwa [ne_eq, ← List.length_eq_zero_iff]

/-- The map for the mapping packets. -/
def FromFile.pixelFile (h : FromFile allow map) : PixelFile :=
  ⟨map, allow, h.nonempty, h.oneToOne⟩

/-! ### The largest ids -/

/-- The largest ids are no less than those of the entries, and in bounds. -/
structure Largest (m : LargestIds) (entries : List (UInt32 × UInt32 × UInt16)) : Prop where
  physical_le : ∀ e ∈ entries, e.1 ≤ m.physical
  logical_le : ∀ e ∈ entries, e.2.1 ≠ -1 → e.2.1 ≤ m.logical
  bank_le : ∀ e ∈ entries, e.2.2 ≠ 0xffff → e.2.2.toUInt32 ≤ m.bank
  physical_lt : m.physical.toNat < 2 ^ 31
  logical_ne : m.logical ≠ -1
  bank_lt : m.bank.toNat < 0xfffe

/-- The larger of two ids, where the second may be one that does not count. -/
theorem le_ite_larger {α : Type*} [LinearOrder α] {counts : Prop} {a b : α}
    [Decidable (counts ∧ a < b)] :
    a ≤ (if counts ∧ a < b then b else a) ∧ (counts → b ≤ if counts ∧ a < b then b else a) := by
  split
  · next h => exact ⟨le_of_lt h.2, fun _ => le_refl _⟩
  · next h => exact ⟨le_refl _, fun hcounts => not_lt.mp fun hlt => h ⟨hcounts, hlt⟩⟩

theorem Largest.add {m : LargestIds} {entries : List (UInt32 × UInt32 × UInt16)}
    (h : Largest m entries) {e : UInt32 × UInt32 × UInt16} (hbit : e.1.toNat < 2 ^ 31)
    (hbank : e.2.2 ≠ 0xfffe) : Largest (m.add e) (entries ++ [e]) := by
  have hphysical : m.physical ≤ (m.add e).physical ∧ e.1 ≤ (m.add e).physical := by
    rw [LargestIds.add]
    simp only
    split
    · next hlt => exact ⟨le_of_lt hlt, le_refl _⟩
    · next hnot => exact ⟨le_refl _, not_lt.mp hnot⟩
  have hlogical : m.logical ≤ (m.add e).logical ∧ (e.2.1 ≠ -1 → e.2.1 ≤ (m.add e).logical) :=
    le_ite_larger
  have hbanks : m.bank ≤ (m.add e).bank ∧
      (e.2.2 ≠ 0xffff → e.2.2.toUInt32 ≤ (m.add e).bank) := le_ite_larger
  have hmem : ∀ x, x ∈ entries ++ [e] ↔ x ∈ entries ∨ x = e := fun x => by
    rw [List.mem_append, List.mem_singleton]
  refine ⟨fun x hx => ?_, fun x hx hne => ?_, fun x hx hne => ?_, ?_, ?_, ?_⟩
  · rcases (hmem x).mp hx with hx | rfl
    · exact (h.physical_le x hx).trans hphysical.1
    · exact hphysical.2
  · rcases (hmem x).mp hx with hx | rfl
    · exact (h.logical_le x hx hne).trans hlogical.1
    · exact hlogical.2 hne
  · rcases (hmem x).mp hx with hx | rfl
    · exact (h.bank_le x hx hne).trans hbanks.1
    · exact hbanks.2 hne
  · rw [LargestIds.add]
    simp only
    split
    · exact hbit
    · exact h.physical_lt
  · rw [LargestIds.add]
    simp only
    split
    · next hlt => exact hlt.1
    · exact h.logical_ne
  · rw [LargestIds.add]
    simp only
    split
    · next hlt =>
      -- neither of the two special banks, so the table has room for one more
      have hne : e.2.2.toNat ≠ 0xffff := fun heq => hlt.1 (UInt16.toNat_inj.mp heq)
      have hne' : e.2.2.toNat ≠ 0xfffe := fun heq => hbank (UInt16.toNat_inj.mp heq)
      have hlt16 := e.2.2.toNat_lt
      rw [UInt16.toNat_toUInt32]
      omega
    · exact h.bank_lt

theorem largest_largestIds (h : FromFile allow map) : Largest (largestIds map) map.entries := by
  have hfold : ∀ (done rest : List (UInt32 × UInt32 × UInt16)) (m : LargestIds),
      (∀ e ∈ rest, e.1.toNat < 2 ^ 31 ∧ e.2.2 ≠ 0xfffe) → Largest m done →
      Largest (rest.foldl .add m) (done ++ rest) := by
    intro done rest
    induction rest generalizing done with
    | nil =>
      intro m _ hm
      rwa [List.append_nil]
    | cons e rest ih =>
      intro m hrest hm
      obtain ⟨he, hrest⟩ := List.forall_mem_cons.mp hrest
      have := ih (done ++ [e]) (m.add e) hrest (hm.add he.1 he.2)
      rwa [List.append_assoc] at this
  refine hfold [] map.entries ⟨0, 0, 0⟩ (fun e he => ⟨h.noErrorBit e he, h.bank_ne e he⟩) ?_
  exact ⟨by simp, by simp, by simp, by decide, by decide, by decide⟩

/-! ### Filling and writing -/

/-- The loop that fills a table ends at its last index, unless this is the last number. -/
theorem fillTable_spec {α : Type} (value : UInt32 → α) (hlast : last ≠ -1) :
    ∃ table, fillTable value last tableFuel 0 #[] = some table ∧
      table.size = last.toNat + 1 ∧
      ∀ i : UInt32, i ≤ last → table[i.toNat]? = some (value i) := by
  have hlast_lt : last.toNat + 1 < 2 ^ 32 := by
    have hne : last.toNat ≠ 2 ^ 32 - 1 := fun heq => hlast (UInt32.toNat_inj.mp heq)
    have hlt := last.toNat_lt
    omega
  -- the loop with `i` places filled, by the fuel that is left
  have hloop : ∀ (fuel : Nat) (i : UInt32) (table : Array α), i.toNat ≤ last.toNat + 1 →
      last.toNat + 1 < fuel + i.toNat → table.size = i.toNat →
      (∀ j : UInt32, j < i → table[j.toNat]? = some (value j)) →
      ∃ table', fillTable value last fuel i table = some table' ∧
        table'.size = last.toNat + 1 ∧
        ∀ j : UInt32, j ≤ last → table'[j.toNat]? = some (value j) := by
    intro fuel
    induction fuel with
    | zero => intro i table hi hfuel; omega
    | succ fuel ih =>
      intro i table hi hfuel hsize hget
      rw [fillTable]
      by_cases hle : i ≤ last
      · rw [if_pos hle]
        have hle' := UInt32.le_iff_toNat_le.mp hle
        -- below the last number, the counter does not wrap round
        have hsucc : (i + 1).toNat = i.toNat + 1 := by
          rw [UInt32.toNat_add]
          exact Nat.mod_eq_of_lt (by show i.toNat + 1 < 2 ^ 32; omega)
        apply ih
        · omega
        · omega
        · rw [Array.size_push, hsize, hsucc]
        · intro j hj
          have hj' := UInt32.lt_iff_toNat_lt.mp hj
          rcases Nat.lt_or_ge j.toNat i.toNat with hlt | hge
          · rw [Array.getElem?_push_lt (by omega), ← Array.getElem?_eq_getElem]
            exact hget j (UInt32.lt_iff_toNat_lt.mpr hlt)
          · obtain rfl : j = i := UInt32.toNat_inj.mp (by omega)
            rw [← hsize]
            exact Array.getElem?_push_size
      · rw [if_neg hle]
        have hgt := UInt32.lt_iff_toNat_lt.mp (not_le.mp hle)
        refine ⟨table, rfl, by omega, fun j hj => hget j ?_⟩
        exact lt_of_le_of_lt hj (not_le.mp hle)
  refine hloop tableFuel 0 #[] (Nat.zero_le _) ?_ rfl (fun j hj => ?_)
  · rw [tableFuel]
    show _ < 2 ^ 32 + 0
    omega
  · exact absurd (UInt32.lt_iff_toNat_lt.mp hj) (Nat.not_lt_zero _)

/-- The writes to `m_table`. -/
def tableWrites (entries : List (UInt32 × UInt32 × UInt16)) : List (Nat × UInt32 × UInt16) :=
  entries.map fun e => (e.1.toNat, e.2)

/-- The writes to `m_banks`. -/
def bankWrites (entries : List (UInt32 × UInt32 × UInt16)) : List (Nat × UInt16) :=
  (entries.filter fun e => e.2.1 ≠ -1).map fun e => (e.2.1.toNat, e.2.2)

/-- The two tables are written each for itself. -/
theorem setEntries_eq {entries : List (UInt32 × UInt32 × UInt16)}
    {table table' : Array (UInt32 × UInt16)} {banks banks' : Array UInt16}
    (htable : ArrayWrites.writeAll (tableWrites entries) table = some table')
    (hbanks : ArrayWrites.writeAll (bankWrites entries) banks = some banks') :
    setEntries entries table banks = some (table', banks') := by
  induction entries generalizing table banks with
  | nil =>
    obtain rfl := Option.some.inj htable
    obtain rfl := Option.some.inj hbanks
    rfl
  | cons e entries ih =>
    obtain ⟨physical, logical, bank⟩ := e
    rw [tableWrites, List.map_cons, ArrayWrites.writeAll] at htable
    split at htable
    · next hphysical =>
      rw [setEntries, dif_pos hphysical]
      by_cases hne : logical = -1
      · rw [bankWrites, List.filter_cons_of_neg (by simp [hne])] at hbanks
        simp only [hne, ne_eq, not_true, if_false]
        exact ih (hne ▸ htable) hbanks
      · rw [bankWrites, List.filter_cons_of_pos (by simpa using hne), List.map_cons,
          ArrayWrites.writeAll] at hbanks
        split at hbanks
        · next hlogical =>
          simp only [ne_eq, hne, not_false_eq_true, if_true]
          rw [dif_pos hlogical]
          exact ih htable hbanks
        · cases hbanks
    · cases htable

theorem lastWrite_tableWrites {e : UInt32 × UInt32 × UInt16} (he : e ∈ map.entries) :
    ArrayWrites.lastWrite (tableWrites map.entries) e.1.toNat = some e.2 := by
  obtain ⟨before, after, hsplit⟩ := List.append_of_mem he
  have hsorted := map.sorted
  rw [hsplit] at hsorted
  have hafter := (List.pairwise_cons.mp (List.pairwise_append.mp hsorted).2.1).1
  rw [hsplit, tableWrites, List.map_append, List.map_cons]
  apply ArrayWrites.lastWrite_append
  intro w hw
  obtain ⟨e', he', rfl⟩ := List.mem_map.mp hw
  exact Nat.ne_of_gt (UInt32.lt_iff_toNat_lt.mp (hafter e' he'))

/-- The bank of a logical id is the one of the largest physical id. -/
theorem lastWrite_bankWrites (he : (physical, logical, bank) ∈ map.entries) (hne : logical ≠ -1)
    (hlargest : ∀ p b, (p, logical, b) ∈ map.entries → p ≤ physical) :
    ArrayWrites.lastWrite (bankWrites map.entries) logical.toNat = some bank := by
  obtain ⟨before, after, hsplit⟩ := List.append_of_mem he
  have hsorted := map.sorted
  rw [hsplit] at hsorted
  have hafter := (List.pairwise_cons.mp (List.pairwise_append.mp hsorted).2.1).1
  rw [hsplit, bankWrites, List.filter_append, List.filter_cons_of_pos (by simpa using hne),
    List.map_append, List.map_cons]
  apply ArrayWrites.lastWrite_append
  intro w hw heq
  obtain ⟨⟨p, l, b⟩, he', rfl⟩ := List.mem_map.mp hw
  have hin := (List.mem_filter.mp he').1
  obtain rfl : l = logical := UInt32.toNat_inj.mp heq
  -- the entries behind it have larger physical ids
  have hlt : physical < p := hafter _ hin
  have hle := hlargest p b (hsplit ▸ List.mem_append_right _ (List.mem_cons_of_mem _ hin))
  exact absurd hlt (not_lt.mpr hle)

theorem lastWrite_bankWrites_none
    (h : logical = -1 ∨ ∀ p b, (p, logical, b) ∉ map.entries) :
    ArrayWrites.lastWrite (bankWrites map.entries) logical.toNat = none := by
  apply ArrayWrites.lastWrite_eq_none
  intro w hw heq
  obtain ⟨⟨p, l, b⟩, he, rfl⟩ := List.mem_map.mp hw
  obtain ⟨hin, hne⟩ := List.mem_filter.mp he
  obtain rfl : l = logical := UInt32.toNat_inj.mp heq
  rcases h with rfl | h
  · simp at hne
  · exact h p b hin

/-! ### Lookups -/

/-- The tables agree with the map.  Where physical ids with one logical id have different banks,
    the logical id has the bank of the largest of them; the logical id -1 has none. -/
structure Agrees (map : TempMap) (t : LookupTables) : Prop where
  mapped : ∀ physical e, map.find? physical = some e →
    t.mapEvent physical = (decide (e.2 = 0xffff), e)
  unmapped : ∀ physical, map.find? physical = none →
    t.mapEvent physical = (true, physical ||| 0x80000000, 0xffff)
  bankOfLargest : ∀ physical logical bank, map.find? physical = some (logical, bank) →
    logical ≠ -1 → (∀ p b, map.find? p = some (logical, b) → p ≤ physical) →
      t.mapEventBank logical = (decide (bank = 0xffff), bank)
  bankOfSome : ∀ physical logical bank, map.find? physical = some (logical, bank) →
    logical ≠ -1 → ∃ p b, map.find? p = some (logical, b) ∧
      t.mapEventBank logical = (decide (b = 0xffff), b)
  noBank : ∀ logical, (logical = -1 ∨ ∀ p b, map.find? p ≠ some (logical, b)) →
    t.mapEventBank logical = (true, 0xffff)
  bank_lt : ∀ physical e, map.find? physical = some e → e.2 ≠ 0xffff →
    e.2.toNat < t.numBanks.toNat

/-- What is in the tables: the last that was written to a place, or that it is unmapped. -/
theorem lookupTables_spec (h : FromFile allow map) :
    ∃ t, lookupTables map = some t ∧ t.numBanks.toNat = (largestIds map).bank.toNat + 1 ∧
      (∀ i, t.table[i]? = (ArrayWrites.lastWrite (tableWrites map.entries) i).or
        (if i ≤ (largestIds map).physical.toNat then
          some (UInt32.ofNat i ||| 0x80000000, 0xffff) else none)) ∧
      ∀ i, t.banks[i]? = (ArrayWrites.lastWrite (bankWrites map.entries) i).or
        (if i ≤ (largestIds map).logical.toNat then some 0xffff else none) := by
  have hlargest := largest_largestIds h
  have hphysical : (largestIds map).physical ≠ -1 := by
    intro heq
    have hlt := hlargest.physical_lt
    rw [heq] at hlt
    exact absurd hlt (by decide)
  obtain ⟨table, htable, htsize, htget⟩ := fillTable_spec
    (fun i => ((i ||| 0x80000000, 0xffff) : UInt32 × UInt16)) hphysical
  obtain ⟨banks, hbanks, hbsize, hbget⟩ := fillTable_spec (fun _ => (0xffff : UInt16))
    hlargest.logical_ne
  obtain ⟨table', htable', -, htget'⟩ := @ArrayWrites.writeAll_spec _
    (tableWrites map.entries) table (by
      intro w hw
      obtain ⟨e, he, rfl⟩ := List.mem_map.mp hw
      rw [htsize]
      exact Nat.lt_succ_of_le (UInt32.le_iff_toNat_le.mp (hlargest.physical_le e he)))
  obtain ⟨banks', hbanks', -, hbget'⟩ := @ArrayWrites.writeAll_spec _
    (bankWrites map.entries) banks (by
      intro w hw
      obtain ⟨e, he, rfl⟩ := List.mem_map.mp hw
      obtain ⟨hin, hne⟩ := List.mem_filter.mp he
      rw [hbsize]
      exact Nat.lt_succ_of_le
        (UInt32.le_iff_toNat_le.mp (hlargest.logical_le e hin (by simpa using hne))))
  -- what a table has before the entries are written
  have hdefault : ∀ {α : Type} {a : Array α} {value : UInt32 → α} {last : UInt32},
      a.size = last.toNat + 1 → (∀ i : UInt32, i ≤ last → a[i.toNat]? = some (value i)) →
      ∀ i, a[i]? = if i ≤ last.toNat then some (value (UInt32.ofNat i)) else none := by
    intro α a value last hsize hget i
    by_cases hle : i ≤ last.toNat
    · have hi : (UInt32.ofNat i).toNat = i :=
        UInt32.toNat_ofNat_of_lt' (Nat.lt_of_le_of_lt hle last.toNat_lt)
      have hval := hget (UInt32.ofNat i) (UInt32.le_iff_toNat_le.mpr (by omega))
      rw [hi] at hval
      rw [hval, if_pos hle]
    · rw [if_neg hle]
      exact Array.getElem?_eq_none (by omega)
  refine ⟨⟨table', banks', (largestIds map).bank + 1⟩, ?_, ?_, fun i => ?_, fun i => ?_⟩
  · rw [lookupTables, htable, hbanks]
    show (setEntries map.entries table banks).bind _ = _
    rw [setEntries_eq htable' hbanks']
    rfl
  · have hlt := hlargest.bank_lt
    rw [UInt32.toNat_add]
    exact Nat.mod_eq_of_lt (by show _ + 1 < 2 ^ 32; omega)
  · rw [htget' i, hdefault htsize htget i]
  · rw [hbget' i, hdefault hbsize hbget i]

theorem agrees_lookupTables (h : FromFile allow map) :
    ∃ t, lookupTables map = some t ∧ Agrees map t := by
  have hlargest := largest_largestIds h
  obtain ⟨t, ht, hnum, htable, hbanks⟩ := lookupTables_spec h
  refine ⟨t, ht, ?_, ?_, ?_, ?_, ?_, ?_⟩
  · intro physical e he
    have hmem := SortedMap.find?_eq_some.mp he
    have hget : t.table[physical.toNat]? = some e := by
      rw [htable, lastWrite_tableWrites hmem]
      rfl
    rw [LookupTables.mapEvent, hget]
    rfl
  · intro physical hnone
    have hwrite : ArrayWrites.lastWrite (tableWrites map.entries) physical.toNat = none := by
      apply ArrayWrites.lastWrite_eq_none
      intro w hw heq
      obtain ⟨e, he, rfl⟩ := List.mem_map.mp hw
      obtain rfl : e.1 = physical := UInt32.toNat_inj.mp heq
      rw [SortedMap.find?_eq_some.mpr he] at hnone
      cases hnone
    -- it is above the largest id, or the default is still there
    rw [LookupTables.mapEvent, htable, hwrite, UInt32.ofNat_toNat, Option.none_or]
    by_cases hle : physical.toNat ≤ (largestIds map).physical.toNat
    · rw [if_pos hle]
      rfl
    · rw [if_neg hle]
      rfl
  · intro physical logical bank he hne hlast
    have hget : t.banks[logical.toNat]? = some bank := by
      rw [hbanks, lastWrite_bankWrites (SortedMap.find?_eq_some.mp he) hne
        (fun p b hin => hlast p b (SortedMap.find?_eq_some.mpr hin))]
      rfl
    rw [LookupTables.mapEventBank, hget]
    rfl
  · intro physical logical bank he hne
    have hin : (logical.toNat, bank) ∈ bankWrites map.entries := List.mem_map.mpr
      ⟨_, List.mem_filter.mpr ⟨SortedMap.find?_eq_some.mp he, by simpa using hne⟩, rfl⟩
    obtain ⟨b, hb⟩ := ArrayWrites.exists_lastWrite hin
    obtain ⟨⟨p, l, b'⟩, hp, heq⟩ := List.mem_map.mp (ArrayWrites.mem_of_lastWrite hb)
    obtain ⟨hl, rfl⟩ := Prod.mk.inj heq
    obtain rfl : l = logical := UInt32.toNat_inj.mp hl
    refine ⟨p, b', SortedMap.find?_eq_some.mpr (List.mem_filter.mp hp).1, ?_⟩
    have hget : t.banks[l.toNat]? = some b' := by
      rw [hbanks, hb]
      rfl
    rw [LookupTables.mapEventBank, hget]
    rfl
  · intro logical hnone
    have hwrite := @lastWrite_bankWrites_none map logical
      (hnone.imp_right fun hnone p b hin => hnone p b (SortedMap.find?_eq_some.mpr hin))
    rw [LookupTables.mapEventBank, hbanks, hwrite, Option.none_or]
    split <;> rfl
  · intro physical e he hne
    have hle : e.2.toUInt32.toNat ≤ (largestIds map).bank.toNat := UInt32.le_iff_toNat_le.mp
      (hlargest.bank_le _ (SortedMap.find?_eq_some.mp he) hne)
    rw [UInt16.toNat_toUInt32] at hle
    omega

/-- For a map that was read, the tables can be made, and agree with it.  Where more than one
    physical id may not have the same logical id, the two lookups agree for every logical id
    but -1. -/
theorem lookupTables_agree {path : String} {text : Option (List Char)} {readError : Bool}
    (h : readMap allow path text readError = some (.ok map)) :
    ∃ t, lookupTables map = some t ∧ Agrees map t ∧
      ∀ physical logical bank, map.find? physical = some (logical, bank) → logical ≠ -1 →
        (allow = false ∨ ∀ p b, map.find? p = some (logical, b) → b = bank) →
        (t.mapEventBank (t.mapEvent physical).2.1).2 = (t.mapEvent physical).2.2 := by
  have hfile := fromFile_of_readMap h
  obtain ⟨t, ht, hagrees⟩ := agrees_lookupTables hfile
  refine ⟨t, ht, hagrees, fun physical logical bank hfind hne honly => ?_⟩
  obtain ⟨p, b, hp, hbank⟩ := hagrees.bankOfSome _ _ _ hfind hne
  rw [hagrees.mapped _ _ hfind, hbank]
  show b = bank
  rcases honly with hone | honly
  · -- the logical ids are distinct
    have hinj := List.inj_on_of_nodup_map (hfile.oneToOne hone)
    have heq := hinj (SortedMap.find?_eq_some.mp hp) (SortedMap.find?_eq_some.mp hfind) rfl
    exact congrArg (fun e : UInt32 × UInt32 × UInt16 => e.2.2) heq
  · exact honly p b hp

/-- Two physical ids with one logical id, and two banks. -/
def twoBanks : TempMap := (SortedMap.empty.insert 0 (0, 1)).insert 1 (0, 2)

theorem readMap_twoBanks :
    readMap true "" (some "0 0 1\n1 0 2\n".toList) false = some (.ok twoBanks) := by rfl

theorem lookupTables_agree_twoBanks :
    readMap true "" (some "0 0 1\n1 0 2\n".toList) false = some (.ok twoBanks) ∧
    ∃ t, lookupTables twoBanks = some t ∧ Agrees twoBanks t ∧
      ∀ physical logical bank, twoBanks.find? physical = some (logical, bank) → logical ≠ -1 →
        (true = false ∨ ∀ p b, twoBanks.find? p = some (logical, b) → b = bank) →
        (t.mapEventBank (t.mapEvent physical).2.1).2 = (t.mapEvent physical).2.2 :=
  ⟨readMap_twoBanks, lookupTables_agree readMap_twoBanks⟩

/-- The bank of the first of them is not found by its logical id. -/
theorem not_lookupTables_agree : ¬∀ allow path text readError map,
    readMap allow path text readError = some (.ok map) →
    ∃ t, lookupTables map = some t ∧
      ∀ physical logical bank, map.find? physical = some (logical, bank) →
        (t.mapEventBank logical).2 = bank := by
  intro h
  obtain ⟨t, ht, hbank⟩ := h _ _ _ _ _ readMap_twoBanks
  have hfirst := hbank 0 0 1 (by decide)
  have hsecond := hbank 1 0 2 (by decide)
  exact absurd (hfirst.symm.trans hsecond) (by decide)

/-! ### The map for the events -/

/-- The tables as the map that the events are filed with. -/
theorem exists_pixelMap (h : FromFile allow map) :
    ∃ t, lookupTables map = some t ∧ ∃ pm : Native.PixelMap,
      pm.numBanks = t.numBanks.toNat ∧
      (∀ physical, pm.mapEvent physical =
        ((t.mapEvent physical).2.1, (t.mapEvent physical).2.2.toNat)) ∧
      ∀ logical, pm.mapEventBank logical = (t.mapEventBank logical).2.toNat := by
  have hlargest := largest_largestIds h
  obtain ⟨t, ht, hnum, htable, hbanks⟩ := lookupTables_spec h
  have hlt := hlargest.bank_lt
  have hbank : ∀ e ∈ map.entries, e.2.2.toNat = 0xffff ∨ e.2.2.toNat < t.numBanks.toNat := by
    intro e he
    by_cases hne : e.2.2 = 0xffff
    · exact .inl (congrArg UInt16.toNat hne)
    · right
      have hle := UInt32.le_iff_toNat_le.mp (hlargest.bank_le e he hne)
      rw [UInt16.toNat_toUInt32] at hle
      omega
  have htable_lt : ∀ e ∈ t.table.toList, e.2.toNat = 0xffff ∨ e.2.toNat < t.numBanks.toNat := by
    intro e he
    obtain ⟨i, hi⟩ := List.mem_iff_getElem?.mp he
    rw [Array.getElem?_toList, htable, Option.or_eq_some_iff] at hi
    rcases hi with hi | ⟨-, hi⟩
    · obtain ⟨e', he', heq⟩ := List.mem_map.mp (ArrayWrites.mem_of_lastWrite hi)
      exact (Prod.mk.inj heq).2 ▸ hbank e' he'
    · split at hi
      · obtain rfl := Option.some.inj hi
        exact .inl rfl
      · cases hi
  have hbanks_lt : ∀ b ∈ t.banks.toList, b.toNat = 0xffff ∨ b.toNat < t.numBanks.toNat := by
    intro b hb
    obtain ⟨i, hi⟩ := List.mem_iff_getElem?.mp hb
    rw [Array.getElem?_toList, hbanks, Option.or_eq_some_iff] at hi
    rcases hi with hi | ⟨-, hi⟩
    · obtain ⟨e', he', heq⟩ := List.mem_map.mp (ArrayWrites.mem_of_lastWrite hi)
      exact (Prod.mk.inj heq).2 ▸ hbank e' (List.mem_filter.mp he').1
    · split at hi
      · obtain rfl := Option.some.inj hi
        exact .inl rfl
      · cases hi
  let pm : Native.PixelMap :=
    { table := t.table.toList.map fun e => (e.1, e.2.toNat)
      banks := t.banks.toList.map UInt16.toNat
      numBanks := t.numBanks.toNat
      numBanks_pos := by omega
      numBanks_le := by omega
      table_lt := List.forall_mem_map.mpr htable_lt
      banks_lt := List.forall_mem_map.mpr hbanks_lt }
  refine ⟨t, ht, pm, rfl, fun physical => ?_, fun logical => ?_⟩
  · show (t.table.toList.map fun e => (e.1, e.2.toNat)).getD physical.toNat _ = _
    rw [List.getD_eq_getElem?_getD, List.getElem?_map, Array.getElem?_toList,
      LookupTables.mapEvent]
    cases t.table[physical.toNat]? <;> rfl
  · show (t.banks.toList.map UInt16.toNat).getD logical.toNat _ = _
    rw [List.getD_eq_getElem?_getD, List.getElem?_map, Array.getElem?_toList,
      LookupTables.mapEventBank]
    cases t.banks[logical.toNat]? <;> rfl

end Adara.Spec.PixelTables
