import Adara.Native.PixelMapFile

/-! # What the ranges of a pixel map line denote

A range stands for the ids from its start on, by its step, up to the first that is its stop; ids
are numbers of 32 bits.  The two ranges of a line give its pixels, the logical ids again from the
start where they are through and more than one logical id may be the same.  The loop that goes
through both ranges ends with the last of these pixels, unless a range has its stop just before
its start: then it does not begin. -/

namespace Adara.Spec.PixelRanges

open Adara.Native Adara.Native.PixelMap

variable {r ps ls : PixelRange} {allow : Bool} {n m : Nat}

/-! ### Ranges -/

/-- The id after a number of steps. -/
def nth (r : PixelRange) : Nat → UInt32
  | 0 => r.start
  | k + 1 => nth r k + r.step.toUInt32

/-- The number of ids of a range. -/
structure IsCount (r : PixelRange) (n : Nat) : Prop where
  pos : 0 < n
  last : nth r (n - 1) = r.last
  first : ∀ k, k + 1 < n → nth r k ≠ r.last

/-- The stop is just before the start. -/
def Closed (r : PixelRange) : Prop := r.start = r.stop

instance (r : PixelRange) : Decidable (Closed r) := inferInstanceAs (Decidable (_ = _))

/-- The pixels of a line. -/
def Denotes (allow : Bool) (ps ls : PixelRange) (pixels : List (UInt32 × UInt32)) : Prop :=
  ∃ n m, IsCount ps n ∧ IsCount ls m ∧ m ∣ n ∧ (allow = true ∨ m = n) ∧
    pixels = (List.range n).map fun k => (nth ps k, nth ls (k % m))

theorem nth_succ_eq_stop (r : PixelRange) (k : Nat) : nth r (k + 1) = r.stop ↔ nth r k = r.last := by
  rw [nth, PixelRange.stop]
  exact UInt32.add_left_inj _

theorem nth_add_eq {i j : Nat} (h : nth r i = nth r j) (d : Nat) :
    nth r (i + d) = nth r (j + d) := by
  induction d with
  | zero => exact h
  | succ d ih => rw [← Nat.add_assoc, ← Nat.add_assoc, nth, nth, ih]

/-- The ids of a range are distinct. -/
theorem IsCount.nth_inj (h : IsCount r n) {i j : Nat} (hi : i < n) (hj : j < n)
    (heq : nth r i = nth r j) : i = j := by
  have key : ∀ {i j}, i < j → j < n → nth r i = nth r j → False := by
    intro i j hij hj heq
    have hlast := nth_add_eq heq (n - 1 - j)
    rw [show j + (n - 1 - j) = n - 1 by omega, h.last] at hlast
    exact h.first _ (by omega) hlast
  rcases Nat.lt_trichotomy i j with hlt | rfl | hlt
  · exact (key hlt hj heq).elim
  · rfl
  · exact (key hlt hi heq.symm).elim

theorem IsCount.unique (h : IsCount r n) (h' : IsCount r m) : n = m := by
  have hpos := h.pos
  have hpos' := h'.pos
  rcases Nat.lt_trichotomy n m with hlt | heq | hlt
  · exact absurd h.last (h'.first (n - 1) (by omega))
  · exact heq
  · exact absurd h'.last (h.first (m - 1) (by omega))

/-- A range is counted by the first step that ends the loop. -/
theorem isCount_iff : IsCount r n ↔
    0 < n ∧ nth r n = r.stop ∧ ∀ k, 0 < k → k < n → nth r k ≠ r.stop := by
  constructor
  · intro h
    obtain ⟨n, rfl⟩ : ∃ k, n = k + 1 := ⟨n - 1, by have := h.pos; omega⟩
    refine ⟨h.pos, (nth_succ_eq_stop r n).mpr h.last, ?_⟩
    intro k hk hlt
    obtain ⟨k, rfl⟩ : ∃ j, k = j + 1 := ⟨k - 1, by omega⟩
    exact fun heq => h.first k (by omega) ((nth_succ_eq_stop r k).mp heq)
  · rintro ⟨hpos, hend, hbefore⟩
    obtain ⟨n, rfl⟩ : ∃ k, n = k + 1 := ⟨n - 1, by omega⟩
    refine ⟨hpos, (nth_succ_eq_stop r n).mp hend, ?_⟩
    intro k hk heq
    exact hbefore (k + 1) (by omega) (by omega) ((nth_succ_eq_stop r k).mpr heq)

/-- A range that gets to its stop has a count. -/
theorem exists_isCount {k : Nat} (hpos : 0 < k) (h : nth r k = r.stop) : ∃ n ≤ k, IsCount r n := by
  classical
  have hex : ∃ n, 0 < n ∧ nth r n = r.stop := ⟨k, hpos, h⟩
  refine ⟨Nat.find hex, Nat.find_min' hex ⟨hpos, h⟩, isCount_iff.mpr ?_⟩
  refine ⟨(Nat.find_spec hex).1, (Nat.find_spec hex).2, fun j hj hlt heq => ?_⟩
  exact Nat.find_min hex hlt ⟨hj, heq⟩

/-! ### The way of the loop -/

/-- How many logical ids were passed since their last start, after a number of pixels. -/
def position (allow : Bool) (ps ls : PixelRange) : Nat → Nat
  | 0 => 0
  | k + 1 =>
    if allow = true ∧ nth ls (position allow ps ls k + 1) = ls.stop ∧ nth ps (k + 1) ≠ ps.stop
    then 0
    else position allow ps ls k + 1

/-- The pixel that the loop comes to after some others. -/
def pixel (allow : Bool) (ps ls : PixelRange) (k : Nat) : UInt32 × UInt32 :=
  (nth ps k, nth ls (position allow ps ls k))

/-- The logical id of the next pixel. -/
theorem pixel_succ (allow : Bool) (ps ls : PixelRange) (k : Nat) :
    (if allow = true ∧ (pixel allow ps ls k).2 + ls.step.toUInt32 = ls.stop ∧
        (pixel allow ps ls k).1 + ps.step.toUInt32 ≠ ps.stop then ls.start - ls.step.toUInt32
      else (pixel allow ps ls k).2) + ls.step.toUInt32 = (pixel allow ps ls (k + 1)).2 := by
  have hcond : (allow = true ∧ (pixel allow ps ls k).2 + ls.step.toUInt32 = ls.stop ∧
      (pixel allow ps ls k).1 + ps.step.toUInt32 ≠ ps.stop) ↔
      allow = true ∧ nth ls (position allow ps ls k + 1) = ls.stop ∧ nth ps (k + 1) ≠ ps.stop :=
    Iff.rfl
  have hnext : (pixel allow ps ls (k + 1)).2 = nth ls (position allow ps ls (k + 1)) := rfl
  rw [hnext, position]
  by_cases h : allow = true ∧ nth ls (position allow ps ls k + 1) = ls.stop ∧
      nth ps (k + 1) ≠ ps.stop
  · rw [if_pos (hcond.mpr h), if_pos h, UInt32.sub_add_cancel]
    rfl
  · rw [if_neg (mt hcond.mp h), if_neg h]
    rfl

/-- The loop goes on with a pixel. -/
def Continues (allow : Bool) (ps ls : PixelRange) (k : Nat) : Prop :=
  (pixel allow ps ls k).1 ≠ ps.stop ∧ (pixel allow ps ls k).2 ≠ ls.stop

/-- The loop has ended, with both ranges. -/
def Ends (allow : Bool) (ps ls : PixelRange) (k : Nat) : Prop :=
  (pixel allow ps ls k).1 = ps.stop ∧ (pixel allow ps ls k).2 = ls.stop

/-- The logical ids are counted off, again and again. -/
theorem position_eq (hn : IsCount ps n) (hm : IsCount ls m) (hallow : allow = true ∨ m = n) {k : Nat}
    (hk : k < n) : position allow ps ls k = k % m := by
  have hmpos := hm.pos
  induction k with
  | zero => rw [position, Nat.zero_mod]
  | succ k ih =>
    have hps : nth ps (k + 1) ≠ ps.stop := (isCount_iff.mp hn).2.2 _ (Nat.succ_pos k) hk
    have hmod := Nat.mod_lt k hmpos
    rw [position, ih (by omega)]
    by_cases hlast : k % m + 1 = m
    · -- the logical ids are through
      have hstop : nth ls (k % m + 1) = ls.stop := by
        rw [hlast]
        exact (isCount_iff.mp hm).2.1
      have hnext : (k + 1) % m = 0 := by
        rw [← Nat.mod_add_mod, hlast, Nat.mod_self]
      rcases hallow with hallow | rfl
      · rw [if_pos ⟨hallow, hstop, hps⟩, hnext]
      · have := Nat.mod_eq_of_lt (show k < m by omega)
        omega
    · have hstop : nth ls (k % m + 1) ≠ ls.stop :=
        (isCount_iff.mp hm).2.2 _ (Nat.succ_pos _) (by omega)
      have hnext : (k + 1) % m = k % m + 1 := by
        rw [← Nat.mod_add_mod]
        exact Nat.mod_eq_of_lt (by omega)
      rw [if_neg (fun h => hstop h.2.1), hnext]

/-- Where the ranges fit, the loop goes through the pixels of the line. -/
theorem loop_of_counts (hps : ¬Closed ps) (hls : ¬Closed ls) (hn : IsCount ps n)
    (hm : IsCount ls m) (hdvd : m ∣ n) (hallow : allow = true ∨ m = n) :
    (∀ k < n, Continues allow ps ls k) ∧ Ends allow ps ls n := by
  have hnpos := hn.pos
  have hmpos := hm.pos
  obtain ⟨hn0, hnstop, hnfirst⟩ := isCount_iff.mp hn
  obtain ⟨hm0, hmstop, hmfirst⟩ := isCount_iff.mp hm
  constructor
  · intro k hk
    rw [Continues, pixel, position_eq hn hm hallow hk]
    constructor
    · rcases Nat.eq_zero_or_pos k with rfl | hpos
      · exact hps
      · exact hnfirst k hpos hk
    · rcases Nat.eq_zero_or_pos (k % m) with hzero | hpos
      · rw [hzero]
        exact hls
      · exact hmfirst _ hpos (Nat.mod_lt k hmpos)
  · obtain ⟨n, rfl⟩ : ∃ k, n = k + 1 := ⟨n - 1, by omega⟩
    have hmod : n % m + 1 = m := by
      obtain ⟨q, hq⟩ := hdvd
      have hq' : n = (m - 1) + m * (q - 1) := by
        have hqpos : 0 < q := Nat.pos_of_ne_zero (by rintro rfl; omega)
        obtain ⟨q, rfl⟩ : ∃ k, q = k + 1 := ⟨q - 1, by omega⟩
        rw [Nat.mul_succ] at hq
        simp only [Nat.add_sub_cancel]
        omega
      rw [hq', Nat.add_mul_mod_self_left, Nat.mod_eq_of_lt (by omega)]
      omega
    rw [Ends, pixel, position, if_neg (fun h => h.2.2 hnstop),
      position_eq hn hm hallow (Nat.lt_succ_self n), hmod]
    exact ⟨hnstop, hmstop⟩

/-- Where the loop ends with both ranges after some pixels, these are those of the line. -/
theorem counts_of_loop (hpos : 0 < n) (hbefore : ∀ k < n, Continues allow ps ls k)
    (hend : Ends allow ps ls n) :
    ∃ m, IsCount ps n ∧ IsCount ls m ∧ m ∣ n ∧ (allow = true ∨ m = n) := by
  have hn : IsCount ps n :=
    isCount_iff.mpr ⟨hpos, hend.1, fun k _ hk => (hbefore k hk).1⟩
  cases allow with
  | false =>
    -- the positions are the numbers of pixels
    have hposition : ∀ k, position false ps ls k = k := by
      intro k
      induction k with
      | zero => rfl
      | succ k ih => rw [position, if_neg (by simp), ih]
    have hm : IsCount ls n := by
      refine isCount_iff.mpr ⟨hpos, ?_, ?_⟩
      · have := hend.2
        rwa [pixel, hposition] at this
      · intro k _ hk
        have := (hbefore k hk).2
        rwa [pixel, hposition] at this
    exact ⟨n, hn, hm, Nat.dvd_refl n, .inr rfl⟩
  | true =>
    have hls : nth ls 0 ≠ ls.stop := (hbefore 0 hpos).2
    obtain ⟨n, rfl⟩ : ∃ k, n = k + 1 := ⟨n - 1, by omega⟩
    have hstop := hend.2
    have hpstop : nth ps (n + 1) = ps.stop := hend.1
    rw [pixel, position, if_neg (fun h => h.2.2 hpstop)] at hstop
    obtain ⟨m, hle, hm⟩ := exists_isCount (Nat.succ_pos _) hstop
    have hmpos := hm.pos
    rw [position_eq hn hm (.inl rfl) (Nat.lt_succ_self n)] at hstop hle
    have hmod := Nat.mod_lt n hmpos
    have heq : n % m + 1 = m := by omega
    refine ⟨m, hn, hm, ?_, .inl rfl⟩
    rw [Nat.dvd_iff_mod_eq_zero, ← Nat.mod_add_mod, heq, Nat.mod_self]

/-- The loop ends with both ranges after the pixels that the line denotes, or, if both ranges are
    closed, at once. -/
theorem loop_iff (pixels : List (UInt32 × UInt32)) (hne : pixels ≠ []) :
    (∃ n, (∀ k < n, Continues allow ps ls k) ∧ Ends allow ps ls n ∧
      pixels = (List.range n).map (pixel allow ps ls)) ↔
    ¬Closed ps ∧ ¬Closed ls ∧ Denotes allow ps ls pixels := by
  have hpixels : ∀ {n m}, IsCount ps n → IsCount ls m → (allow = true ∨ m = n) →
      (List.range n).map (pixel allow ps ls) =
        (List.range n).map fun k => (nth ps k, nth ls (k % m)) := by
    intro n m hn hm hallow
    refine List.map_congr_left fun k hk => ?_
    rw [pixel, position_eq hn hm hallow (List.mem_range.mp hk)]
  constructor
  · rintro ⟨n, hbefore, hend, rfl⟩
    have hpos : 0 < n := by
      rcases Nat.eq_zero_or_pos n with rfl | hpos
      · exact absurd rfl hne
      · exact hpos
    obtain ⟨m, hn, hm, hdvd, hallow⟩ := counts_of_loop hpos hbefore hend
    exact ⟨(hbefore 0 hpos).1, (hbefore 0 hpos).2, n, m, hn, hm, hdvd, hallow,
      hpixels hn hm hallow⟩
  · rintro ⟨hps, hls, n, m, hn, hm, hdvd, hallow, rfl⟩
    obtain ⟨hbefore, hend⟩ := loop_of_counts hps hls hn hm hdvd hallow
    exact ⟨n, hbefore, hend, (hpixels hn hm hallow).symm⟩

theorem Denotes.ne_nil {pixels : List (UInt32 × UInt32)} (h : Denotes allow ps ls pixels) :
    pixels ≠ [] := by
  obtain ⟨n, m, hn, -, -, -, rfl⟩ := h
  have := hn.pos
  rw [ne_eq, List.map_eq_nil_iff, List.range_eq_nil]
  omega

/-- A line has one list of pixels. -/
theorem Denotes.unique {pixels pixels' : List (UInt32 × UInt32)}
    (h : Denotes allow ps ls pixels) (h' : Denotes allow ps ls pixels') : pixels = pixels' := by
  obtain ⟨n, m, hn, hm, -, -, rfl⟩ := h
  obtain ⟨n', m', hn', hm', -, -, rfl⟩ := h'
  obtain rfl := hn.unique hn'
  obtain rfl := hm.unique hm'
  rfl

/-- The physical ids of a line are distinct, and so are the logical ones where they have to be. -/
theorem Denotes.nodup {pixels : List (UInt32 × UInt32)} (h : Denotes allow ps ls pixels) :
    (pixels.map Prod.fst).Nodup ∧ (allow = false → (pixels.map Prod.snd).Nodup) := by
  obtain ⟨n, m, hn, hm, -, hallow, rfl⟩ := h
  rw [List.map_map, List.map_map]
  constructor
  · exact List.Nodup.map_on (fun i hi j hj heq =>
      hn.nth_inj (List.mem_range.mp hi) (List.mem_range.mp hj) heq) List.nodup_range
  · intro hfalse
    obtain rfl : m = n := hallow.resolve_left (by simp [hfalse])
    refine List.Nodup.map_on (fun i hi j hj heq => ?_) List.nodup_range
    have hi' := List.mem_range.mp hi
    have hj' := List.mem_range.mp hj
    simp only [Function.comp_apply, Nat.mod_eq_of_lt hi', Nat.mod_eq_of_lt hj'] at heq
    exact hm.nth_inj hi' hj' heq

end Adara.Spec.PixelRanges
