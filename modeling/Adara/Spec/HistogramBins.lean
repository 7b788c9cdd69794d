import Adara.Native.BankHistogram

/-! # Bins and offsets of histograms

The number of bins of a histogram is computed with 32 bits, from a range that need not be a
multiple of the size of a bin.  A time of flight in the range has its bin, whatever the
numbers are, unless they are those of a range with `2 ^ 32` limits (`div_lt_numBins`).

A bank with a histogram has a table of the offsets of its pixels, from the smallest pixel id to
the largest.  A pixel has the offset of its first place in the bank whose offset is not
negative with 32 bits (`fillOffsets_spec`). -/

namespace Adara.Spec.HistogramBins

open Adara.Native Adara.Native.BankHistogram

/-! ### The number of bins -/

/-- The limits of the bins, for detector banks and for beam monitors. -/
def numBins (tofOffset tofMax tofBin : Nat) : Nat :=
  let range := Word32.sub tofMax tofOffset
  let bins := Word32.add (range / tofBin) 1
  let bins := if range % tofBin ≠ 0 then Word32.add bins 1 else bins
  if bins < 2 then 2 else bins

theorem numTofBins_config (config : BeamMonitorConfig) :
    config.numTofBins = numBins config.tofOffset config.tofMax config.tofBin := rfl

/-- The range from 0 to the largest word in bins of one: the number of its limits is 0 with 32
    bits, and taken to be 2. -/
def WholeRange (tofOffset tofMax tofBin : Nat) : Prop :=
  tofOffset = 0 ∧ tofMax = 2 ^ 32 - 1 ∧ tofBin = 1

theorem numBins_wholeRange {tofOffset tofMax tofBin : Nat}
    (h : WholeRange tofOffset tofMax tofBin) : numBins tofOffset tofMax tofBin = 2 := by
  obtain ⟨rfl, rfl, rfl⟩ := h
  rfl

theorem two_le_numBins (tofOffset tofMax tofBin : Nat) : 2 ≤ numBins tofOffset tofMax tofBin := by
  have hatLeast : ∀ n : Nat, 2 ≤ if n < 2 then 2 else n := by
    intro n
    split <;> omega
  exact hatLeast _

/-- A time of flight in the range has its bin. -/
theorem div_lt_numBins {tofOffset tofMax tofBin tof : Nat} (hmax : tofMax < 2 ^ 32)
    (hbin : 0 < tofBin) (hwhole : ¬ WholeRange tofOffset tofMax tofBin) (hlow : tofOffset ≤ tof)
    (hhigh : tof < tofMax) :
    (tof - tofOffset) / tofBin < numBins tofOffset tofMax tofBin - 1 := by
  have hmod : Word32.modulus = 2 ^ 32 := rfl
  have hrange : Word32.sub tofMax tofOffset = tofMax - tofOffset :=
    Word32.sub_of_le (by omega) (by omega)
  have hdiv : (tofMax - tofOffset) / tofBin + 1 < Word32.modulus := by
    have hle : (tofMax - tofOffset) / tofBin ≤ tofMax - tofOffset := Nat.div_le_self _ _
    by_contra hge
    -- only a division by 1 can give that much
    have hone : tofBin = 1 := by
      by_contra hne
      have hhalf : (tofMax - tofOffset) / tofBin ≤ (tofMax - tofOffset) / 2 :=
        Nat.div_le_div_left (by omega) (by decide)
      omega
    exact hwhole ⟨by omega, by omega, hone⟩
  have hparts := Nat.div_add_mod (tofMax - tofOffset) tofBin
  simp only [numBins, hrange, Word32.add_of_lt hdiv]
  by_cases hrest : (tofMax - tofOffset) % tofBin ≠ 0
  · have hsmall : (tof - tofOffset) / tofBin ≤ (tofMax - tofOffset) / tofBin :=
      Nat.div_le_div_right (by omega)
    have hnext : (tofMax - tofOffset) / tofBin + 1 + 1 < Word32.modulus := by
      have hne : tofBin ≠ 1 := by
        rintro rfl
        exact hrest (Nat.mod_one _)
      have hhalf : (tofMax - tofOffset) / tofBin ≤ (tofMax - tofOffset) / 2 :=
        Nat.div_le_div_left (by omega) (by decide)
      omega
    rw [if_pos hrest, Word32.add_of_lt hnext]
    split <;> omega
  · -- the last bin ends with the range
    have hsmall : (tof - tofOffset) / tofBin < (tofMax - tofOffset) / tofBin := by
      rw [Nat.div_lt_iff_lt_mul hbin, Nat.mul_comm]
      omega
    rw [if_neg hrest]
    split <;> omega

/-! ### Pixel ids -/

theorem foldl_minPid {least : UInt32} {pids : List UInt32} :
    minPid least pids ≤ least ∧ ∀ pid ∈ pids, minPid least pids ≤ pid := by
  induction pids generalizing least with
  | nil => exact ⟨UInt32.le_refl _, nofun⟩
  | cons pid pids ih =>
    rw [minPid, List.foldl_cons, ← minPid, List.forall_mem_cons]
    obtain ⟨hleast, hrest⟩ := @ih (if pid < least then pid else least)
    refine ⟨UInt32.le_trans hleast ?_, UInt32.le_trans hleast ?_, hrest⟩
    · split
      · exact UInt32.le_of_lt ‹_›
      · exact UInt32.le_refl _
    · split
      · exact UInt32.le_refl _
      · exact UInt32.not_lt.mp ‹_›

theorem foldl_maxPid {most : UInt32} {pids : List UInt32} :
    most ≤ maxPid most pids ∧ ∀ pid ∈ pids, pid ≤ maxPid most pids := by
  induction pids generalizing most with
  | nil => exact ⟨UInt32.le_refl _, nofun⟩
  | cons pid pids ih =>
    rw [maxPid, List.foldl_cons, ← maxPid, List.forall_mem_cons]
    obtain ⟨hmost, hrest⟩ := @ih (if most < pid then pid else most)
    refine ⟨UInt32.le_trans ?_ hmost, UInt32.le_trans ?_ hmost, hrest⟩
    · split
      · exact UInt32.le_of_lt ‹_›
      · exact UInt32.le_refl _
    · split
      · exact UInt32.le_refl _
      · exact UInt32.not_lt.mp ‹_›

/-- The pixel ids from the smallest to the largest. -/
def InTable (first : UInt32) (rest : List UInt32) (pid : UInt32) : Prop :=
  minPid first rest ≤ pid ∧ pid ≤ maxPid first rest

theorem inTable_of_mem {first pid : UInt32} {rest : List UInt32} (h : pid ∈ first :: rest) :
    InTable first rest pid := by
  obtain ⟨hfirst, hrest⟩ := @foldl_minPid first rest
  obtain ⟨hfirst', hrest'⟩ := @foldl_maxPid first rest
  rcases List.mem_cons.mp h with rfl | h
  · exact ⟨hfirst, hfirst'⟩
  · exact ⟨hrest pid h, hrest' pid h⟩

/-- All words are pixel ids of the table: the number of its places is 0 with 32 bits. -/
def AllPids (first : UInt32) (rest : List UInt32) : Prop :=
  minPid first rest = 0 ∧ maxPid first rest = 0xffffffff

/-- The number of places in the table. -/
def places (first : UInt32) (rest : List UInt32) : Nat :=
  (maxPid first rest - minPid first rest + 1).toNat

theorem places_eq {first : UInt32} {rest : List UInt32} (hall : ¬ AllPids first rest) :
    places first rest = (maxPid first rest).toNat - (minPid first rest).toNat + 1 := by
  have hle : minPid first rest ≤ maxPid first rest := by
    obtain ⟨hlow, hhigh⟩ := inTable_of_mem (List.mem_cons_self (a := first) (l := rest))
    exact UInt32.le_trans hlow hhigh
  have hsub := UInt32.toNat_sub_of_le _ _ hle
  have hmost := (maxPid first rest).toNat_lt
  rw [places, UInt32.toNat_add, hsub, UInt32.toNat_one]
  apply Nat.mod_eq_of_lt
  by_contra hge
  rw [UInt32.le_iff_toNat_le] at hle
  refine hall ⟨UInt32.toNat_inj.mp ?_, UInt32.toNat_inj.mp ?_⟩
  · rw [UInt32.toNat_zero]
    omega
  · show _ = 4294967295
    omega

theorem places_of_all {first : UInt32} {rest : List UInt32} (hall : AllPids first rest) :
    places first rest = 0 := by
  rw [places, hall.1, hall.2]
  rfl

/-- The places of the table are those of its pixel ids. -/
theorem sub_lt_places_iff {first pid : UInt32} {rest : List UInt32} (hall : ¬ AllPids first rest) :
    (pid - minPid first rest).toNat < places first rest ↔ InTable first rest pid := by
  have hmost := (maxPid first rest).toNat_lt
  have hpid := pid.toNat_lt
  obtain ⟨hlow, hhigh⟩ := inTable_of_mem (List.mem_cons_self (a := first) (l := rest))
  rw [UInt32.le_iff_toNat_le] at hlow hhigh
  rw [places_eq hall, InTable, UInt32.le_iff_toNat_le, UInt32.le_iff_toNat_le]
  by_cases hle : minPid first rest ≤ pid
  · rw [UInt32.toNat_sub_of_le _ _ hle]
    rw [UInt32.le_iff_toNat_le] at hle
    omega
  · -- the difference wraps, behind the largest pixel id
    rw [UInt32.le_iff_toNat_le] at hle
    rw [UInt32.toNat_sub, Nat.mod_eq_of_lt (by omega)]
    omega

/-! ### Offsets -/

/-- The offset of a pixel in some of the pixel ids of a bank, the first of which has place `k`.
    Every place has `n` bins. -/
def offsetFrom (n : Nat) (pid : UInt32) : (k : Nat) → List UInt32 → Option Nat
  | _, [] => none
  | k, pid' :: pids =>
    if pid' = pid ∧ k * n % 2 ^ 32 < 2 ^ 31 then some (k * n % 2 ^ 32)
    else offsetFrom n pid (k + 1) pids

theorem offsetFrom_lt {n k offset : Nat} {pid : UInt32} {pids : List UInt32}
    (h : offsetFrom n pid k pids = some offset) :
    offset < 2 ^ 31 ∧ offset + n ≤ (k + pids.length) * n := by
  induction pids generalizing k with
  | nil => cases h
  | cons pid' pids ih =>
    rw [offsetFrom] at h
    split at h
    · rename_i hpid
      cases h
      refine ⟨hpid.2, ?_⟩
      have hmod := Nat.mod_le (k * n) (2 ^ 32)
      have hnext : (k + 1) * n ≤ (k + (pids.length + 1)) * n :=
        Nat.mul_le_mul_right _ (by omega)
      rw [Nat.succ_mul] at hnext
      rw [List.length_cons]
      omega
    · obtain ⟨hlt, hle⟩ := ih h
      rw [List.length_cons, show k + (pids.length + 1) = k + 1 + pids.length by omega]
      exact ⟨hlt, hle⟩

/-- A number that is cut to 32 bits with a sign. -/
theorem nonneg_cut_iff (m : Nat) : 0 ≤ (UInt32.ofNat m).toInt32 ↔ m % 2 ^ 32 < 2 ^ 31 := by
  rw [Int32.le_iff_toInt_le]
  show 0 ≤ (BitVec.ofNat 32 m).toInt ↔ _
  rw [BitVec.toInt_eq_toNat_cond, BitVec.toNat_ofNat]
  split <;> omega

/-- A place of the table has the offset, or something negative where there is none. -/
def HasOffset (slot : Int32) : Option Nat → Prop
  | some offset => slot = (UInt32.ofNat offset).toInt32
  | none => slot < 0

/-- The loop over the pixel ids gives every pixel its offset, if they all have a place. -/
theorem fillOffsets_spec {basePid : UInt32} {n k : Nat} {pids : List UInt32}
    {table : List Int32} (h : ∀ pid ∈ pids, (pid - basePid).toNat < table.length) :
    ∃ table', fillOffsets basePid n k pids table = some table' ∧ table'.length = table.length ∧
      ∀ pid old, table[(pid - basePid).toNat]? = some old →
        ∃ slot, table'[(pid - basePid).toNat]? = some slot ∧ (0 ≤ old → slot = old) ∧
          (old < 0 → HasOffset slot (offsetFrom n pid k pids)) := by
  induction pids generalizing k table with
  | nil => exact ⟨table, rfl, rfl, fun pid old hold => ⟨old, hold, fun _ => rfl, fun hneg => hneg⟩⟩
  | cons pid' pids ih =>
    obtain ⟨hpid', hrest⟩ := List.forall_mem_cons.mp h
    rw [fillOffsets, List.getElem?_eq_getElem hpid']
    set old' := table[(pid' - basePid).toNat] with hold'
    set cut := (UInt32.ofNat (k * n)).toInt32 with hcut
    have hlen : (if old' < 0 then table.set (pid' - basePid).toNat cut else table).length =
        table.length := by
      split
      · exact List.length_set
      · rfl
    obtain ⟨table', hfill, hlen', hslots⟩ := ih (k := k + 1) (fun pid hpid =>
      hlen.symm ▸ hrest pid hpid)
    refine ⟨table', hfill, hlen'.trans hlen, fun pid old hold => ?_⟩
    by_cases hsame : pid' = pid
    · subst hsame
      rw [List.getElem?_eq_getElem hpid'] at hold
      obtain rfl := Option.some.inj hold
      by_cases hneg : old' < 0
      · -- the pixel gets an offset, which may be negative again
        obtain ⟨slot, hslot, hkept, hnew⟩ := hslots pid' cut (by
          rw [if_pos hneg, List.getElem?_set_self hpid'])
        refine ⟨slot, hslot, fun hpos => absurd hneg (Int32.not_lt.mpr hpos), fun _ => ?_⟩
        rw [offsetFrom]
        by_cases hcutpos : k * n % 2 ^ 32 < 2 ^ 31
        · rw [if_pos ⟨rfl, hcutpos⟩, hkept ((nonneg_cut_iff _).mpr hcutpos)]
          show cut = (UInt32.ofNat (k * n % 2 ^ 32)).toInt32
          rw [hcut]
          congr 1
          apply UInt32.toNat_inj.mp
          rw [UInt32.toNat_ofNat', UInt32.toNat_ofNat', Nat.mod_mod]
        · rw [if_neg fun hand => hcutpos hand.2]
          exact hnew (Int32.not_le.mp (mt (nonneg_cut_iff _).mp hcutpos))
      · obtain ⟨slot, hslot, hkept, -⟩ := hslots pid' old' (by
          rw [if_neg hneg, List.getElem?_eq_getElem hpid'])
        exact ⟨slot, hslot, hkept, fun hneg' => absurd hneg' hneg⟩
    · have hne : (pid' - basePid).toNat ≠ (pid - basePid).toNat := by
        intro heq
        have hsub : pid' - basePid = pid - basePid := UInt32.toNat_inj.mp heq
        exact hsame (by simpa using congrArg (· + basePid) hsub)
      obtain ⟨slot, hslot, hkept, hnew⟩ := hslots pid old (by
        split
        · rw [List.getElem?_set_ne hne, hold]
        · exact hold)
      refine ⟨slot, hslot, hkept, fun hneg => ?_⟩
      rw [offsetFrom, if_neg fun hand => hsame hand.1]
      exact hnew hneg

/-- A table with the offsets of all its pixel ids, and with nothing behind them. -/
structure Table (n : Nat) (first : UInt32) (rest : List UInt32) (table : List Int32) : Prop where
  inside : ∀ pid, InTable first rest pid →
    ∃ slot, table[(pid - minPid first rest).toNat]? = some slot ∧
      HasOffset slot (offsetFrom n pid 0 (first :: rest))
  outside : ∀ pid, ¬ InTable first rest pid → table[(pid - minPid first rest).toNat]? = none

/-- `initializeBank` makes such a table, unless it has no places. -/
theorem fillOffsets_table {n : Nat} {first : UInt32} {rest : List UInt32}
    (hall : ¬ AllPids first rest) :
    ∃ table, fillOffsets (minPid first rest) n 0 (first :: rest)
        (List.replicate (places first rest) (-1)) = some table ∧ Table n first rest table := by
  have hplace : ∀ pid ∈ first :: rest, (pid - minPid first rest).toNat <
      (List.replicate (places first rest) (-1 : Int32)).length := by
    intro pid hpid
    rw [List.length_replicate]
    exact (sub_lt_places_iff hall).mpr (inTable_of_mem hpid)
  obtain ⟨table, hfill, hlen, hslots⟩ := @fillOffsets_spec _ n 0 _ _ hplace
  rw [List.length_replicate] at hlen
  refine ⟨table, hfill, fun pid hpid => ?_, fun pid hpid => ?_⟩
  · have hlt := (sub_lt_places_iff hall).mpr hpid
    obtain ⟨slot, hslot, -, hnew⟩ := hslots pid (-1) (by
      rw [List.getElem?_replicate, if_pos hlt])
    exact ⟨slot, hslot, hnew (by decide)⟩
  · rw [List.getElem?_eq_none_iff, hlen]
    exact Nat.le_of_not_lt fun hlt => hpid ((sub_lt_places_iff hall).mp hlt)

/-- A table without places is written outside. -/
theorem fillOffsets_all {n : Nat} {first : UInt32} {rest : List UInt32}
    (hall : AllPids first rest) :
    fillOffsets (minPid first rest) n 0 (first :: rest)
        (List.replicate (places first rest) (-1)) = none := by
  rw [places_of_all hall, List.replicate_zero, fillOffsets, List.getElem?_nil]

end Adara.Spec.HistogramBins
