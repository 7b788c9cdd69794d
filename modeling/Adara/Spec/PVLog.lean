import Adara.Native.PVLog

/-! # Statistics and the value log of one variable

The numbers pushed to the statistics of a variable are those in its value dataset and those of
the entries in its buffer that have a normalised time (`Counted`).  Storing an update,
normalising, purging and flushing keep this, as long as no time after the first pulse comes
before one that is not (`InOrder`), and nothing is purged once there is a log. -/

namespace Adara.Spec.PVLog

open Adara.Native Adara.Native.PVInfo

variable {D : Type} {startTime : Nat} {p q : PVInfo D} {pre post : List (PVEntry D)}

/-- The numbers in the values of some entries. -/
def cells (entries : List (PVEntry D)) : List (PVCell D) := entries.flatMap (·.value.pushed)

@[simp] theorem cells_nil : cells ([] : List (PVEntry D)) = [] := rfl

@[simp] theorem cells_cons (e : PVEntry D) (l : List (PVEntry D)) :
    cells (e :: l) = e.value.pushed ++ cells l := rfl

@[simp] theorem cells_append (l m : List (PVEntry D)) : cells (l ++ m) = cells l ++ cells m :=
  List.flatMap_append

/-- No time after the first pulse comes before one that is not. -/
def InOrder (startTime : Nat) (absTimes : List Nat) : Prop :=
  absTimes.Pairwise fun a b => startTime < a → startTime < b

instance (startTime : Nat) (absTimes : List Nat) : Decidable (InOrder startTime absTimes) :=
  inferInstanceAs (Decidable (List.Pairwise _ _))

/-- The buffer has entries without a normalised time, and then the others. -/
structure Split (p : PVInfo D) (pre post : List (PVEntry D)) : Prop where
  buffer : p.buffer = pre ++ post
  pending : ∀ e ∈ pre, e.time < 0
  timed : ∀ e ∈ post, 0 ≤ e.time
  absTimes : p.absTimes.length = pre.length
  flag : pre ≠ [] → p.hasNonNormalized = true

/-- The statistics are those of the log and of the entries that will be written to it. -/
structure Counted (p : PVInfo D) (post : List (PVEntry D)) : Prop where
  stats : p.stats.Perm (p.written ++ cells post)
  unwritten : p.curSize = 0 → p.written = []
  typed : ∀ e ∈ p.buffer, e.value.hasType p.type = true

/-! ### Normalised times -/

/-- An entry with its time normalised. -/
def normalized (startTime : Nat) (e : Nat × PVEntry D) : PVEntry D :=
  { e.2 with time := if startTime < e.1 then e.1 - startTime else 0 }

theorem normalized_nonneg (startTime : Nat) (e : Nat × PVEntry D) :
    0 ≤ (normalized startTime e).time := by
  simp only [normalized]
  split <;> omega

/-- The values of a list of entries are normalised with their times. -/
theorem cells_normalized {absTimes : List Nat} (h : absTimes.length = pre.length) :
    cells ((absTimes.zip pre).map (normalized startTime)) = cells pre := by
  induction pre generalizing absTimes with
  | nil => simp
  | cons e pre ih =>
    obtain ⟨t, ts, rfl⟩ := List.exists_cons_of_length_eq_add_one h
    have hlen : ts.length = pre.length := by simpa using h
    simp only [List.zip_cons_cons, List.map_cons, cells_cons, ih hlen]
    rfl

theorem mem_normalized {absTimes : List Nat} {e : PVEntry D}
    (h : e ∈ (absTimes.zip pre).map (normalized startTime)) :
    0 ≤ e.time ∧ ∃ e' ∈ pre, e.value = e'.value := by
  obtain ⟨⟨t, e'⟩, hmem, rfl⟩ := List.mem_map.mp h
  exact ⟨normalized_nonneg startTime _, e', (List.of_mem_zip hmem).2, rfl⟩

/-- What the loop does to times that are all after the first pulse. -/
theorem normalizeLoop_after (htimed : ∀ e ∈ post, 0 ≤ e.time)
    {absTimes : List Nat} (hafter : ∀ t ∈ absTimes, startTime < t) (i : Nat) (last : Option Nat)
    (hlen : absTimes.length = pre.length) (hpending : ∀ e ∈ pre, e.time < 0) :
    normalizeLoop startTime i last absTimes (pre ++ post) =
      ⟨(absTimes.zip pre).map (normalized startTime) ++ post, pre.map (·.value), last⟩ := by
  induction pre generalizing absTimes i with
  | nil =>
    obtain rfl := List.length_eq_zero_iff.mp hlen
    cases post <;> rfl
  | cons e pre ih =>
    obtain ⟨t, ts, rfl⟩ := List.exists_cons_of_length_eq_add_one hlen
    obtain ⟨ht, hts⟩ := List.forall_mem_cons.mp hafter
    obtain ⟨he, hpre⟩ := List.forall_mem_cons.mp hpending
    rw [List.cons_append, normalizeLoop, if_pos he, if_pos ht,
      ih hts (i + 1) (by simpa using hlen) hpre]
    simp [normalized, ht]

/-- What the loop does to leading times that are not after the first pulse. -/
theorem normalizeLoop_before {before : List Nat}
    (hbefore : ∀ t ∈ before, t ≤ startTime) (after : List Nat) (rest : List (PVEntry D)) (i : Nat)
    (last : Option Nat) (hlen : before.length = pre.length) (hpending : ∀ e ∈ pre, e.time < 0) :
    normalizeLoop startTime i last (before ++ after) (pre ++ rest) =
      let r := normalizeLoop startTime (i + before.length)
        (if before = [] then last else some (i + before.length - 1)) after rest
      ⟨(before.zip pre).map (normalized startTime) ++ r.buffer, r.added, r.lastPrePulseIndex⟩ := by
  induction pre generalizing before i last with
  | nil =>
    obtain rfl := List.length_eq_zero_iff.mp hlen
    rfl
  | cons e pre ih =>
    obtain ⟨t, ts, rfl⟩ := List.exists_cons_of_length_eq_add_one hlen
    obtain ⟨ht, hts⟩ := List.forall_mem_cons.mp hbefore
    obtain ⟨he, hpre⟩ := List.forall_mem_cons.mp hpending
    have hindex : (if ts = [] then some i else some (i + 1 + ts.length - 1)) =
        some (i + ts.length) := by
      split
      · next h => simp [h]
      · congr 1; omega
    rw [List.cons_append, List.cons_append, normalizeLoop, if_pos he, if_neg (Nat.not_lt.mpr ht),
      ih hts (i + 1) (some i) (by simpa using hlen) hpre, hindex]
    simp only [List.length_cons, reduceCtorEq, if_false, List.zip_cons_cons, List.map_cons,
      List.cons_append, normalized, Nat.not_lt.mpr ht]
    rw [show i + 1 + ts.length = i + (ts.length + 1) by omega]
    rfl

/-- Times in order are those up to the first pulse, and those after it. -/
theorem InOrder.split {absTimes : List Nat} (h : InOrder startTime absTimes) :
    ∃ before after, absTimes = before ++ after ∧ (∀ t ∈ before, t ≤ startTime) ∧
      ∀ t ∈ after, startTime < t := by
  induction absTimes with
  | nil => exact ⟨[], [], rfl, nofun, nofun⟩
  | cons t ts ih =>
    obtain ⟨hhead, htail⟩ := List.pairwise_cons.mp h
    by_cases ht : startTime < t
    · refine ⟨[], t :: ts, rfl, nofun, ?_⟩
      exact List.forall_mem_cons.mpr ⟨ht, fun b hb => hhead b hb ht⟩
    · obtain ⟨before, after, rfl, hbefore, hafter⟩ := ih htail
      refine ⟨t :: before, after, rfl, ?_, hafter⟩
      exact List.forall_mem_cons.mpr ⟨Nat.not_lt.mp ht, hbefore⟩

/-- The definition is the same, and no statistics have been written in between. -/
structure Same (p q : PVInfo D) : Prop where
  base : q.toPVInfoBase = p.toPVInfoBase
  statsWritten : q.statsWritten = p.statsWritten
  finalized : q.finalized = p.finalized

theorem Same.refl (p : PVInfo D) : Same p p := ⟨rfl, rfl, rfl⟩

theorem Same.trans {r : PVInfo D} (h : Same p q) (h' : Same q r) : Same p r :=
  ⟨h'.base.trans h.base, h'.statsWritten.trans h.statsWritten, h'.finalized.trans h.finalized⟩

theorem normalize_same (startTime : Nat) (p : PVInfo D) : Same p (p.normalize startTime) := by
  rw [PVInfo.normalize]
  split
  · exact ⟨rfl, rfl, rfl⟩
  · exact Same.refl p

/-- With times in order, all entries of the normalised buffer are in the statistics: the last
    that was not after the first pulse, those that were after it, and those received since. -/
theorem normalizeTimestamps_spec (h : Split p pre post)
    (horder : InOrder startTime p.absTimes) :
    ∃ added, (p.normalizeTimestamps startTime).buffer = added ++ post ∧
      (∀ e ∈ added, 0 ≤ e.time ∧ ∃ e' ∈ pre, e.value = e'.value) ∧
      (p.normalizeTimestamps startTime).stats.Perm (p.stats ++ cells added) := by
  obtain ⟨before, after, habs, hbefore, hafter⟩ := horder.split
  have hlen : before.length + after.length = pre.length := by
    rw [← List.length_append, ← habs, h.absTimes]
  obtain ⟨early, late, hearly, rfl⟩ : ∃ early late,
      before.length = early.length ∧ pre = early ++ late :=
    ⟨pre.take before.length, pre.drop before.length, by simp; omega, by simp⟩
  have hlate : after.length = late.length := by rw [List.length_append] at hlen; omega
  have hpending := List.forall_mem_append.mp h.pending
  have hloop := normalizeLoop_before hbefore after (late ++ post) 0 none hearly hpending.1
  rw [normalizeLoop_after h.timed hafter _ _ hlate hpending.2, ← List.append_assoc, ← habs,
    ← h.buffer, Nat.zero_add] at hloop
  have hcells : cells ((after.zip late).map (normalized startTime)) = cells late :=
    cells_normalized hlate
  simp only [normalizeTimestamps, hloop, addToStats]
  rcases List.eq_nil_or_concat before with rfl | ⟨before, t, rfl⟩
  · -- All times are after the first pulse.
    obtain rfl := List.length_eq_zero_iff.mp hearly.symm
    refine ⟨(after.zip late).map (normalized startTime), by simp, ?_, ?_⟩
    · exact fun e he => mem_normalized he
    · rw [hcells]
      simp [cells, List.flatMap_map]
  · rcases List.eq_nil_or_concat early with rfl | ⟨early, e, rfl⟩
    · simp at hearly
    have hinit : before.length = early.length := by simpa using hearly
    refine ⟨normalized startTime (t, e) :: (after.zip late).map (normalized startTime),
      ?_, ?_, ?_⟩
    · simp [hinit, List.zip_append]
    · refine List.forall_mem_cons.mpr ⟨⟨normalized_nonneg startTime _, e, by simp, rfl⟩, ?_⟩
      intro x hx
      obtain ⟨htime, e', he', hvalue⟩ := mem_normalized hx
      exact ⟨htime, e', List.mem_append_right _ he', hvalue⟩
    · rw [cells_cons, hcells]
      simp [hinit, List.zip_append, cells, List.flatMap_map, normalized]
      exact List.perm_append_comm.append_left _

/-- All times of the buffer are normalised. -/
def Normal (p : PVInfo D) : Prop := Split p [] p.buffer ∧ Counted p p.buffer

theorem normalize_normal (h : Split p pre post) (hc : Counted p post)
    (horder : InOrder startTime p.absTimes) : Normal (p.normalize startTime) := by
  rw [PVInfo.normalize]
  by_cases hflag : p.hasNonNormalized = true
  · rw [if_pos hflag]
    obtain ⟨added, hbuffer, hadded, hstats⟩ := normalizeTimestamps_spec h horder
    have hmem : ∀ e ∈ added ++ post, 0 ≤ e.time ∧ ∃ e' ∈ p.buffer, e.value = e'.value := by
      rw [h.buffer]
      intro e he
      rcases List.mem_append.mp he with he | he
      · obtain ⟨htime, e', he', hvalue⟩ := hadded e he
        exact ⟨htime, e', List.mem_append_left _ he', hvalue⟩
      · exact ⟨h.timed e he, e, List.mem_append_right _ he, rfl⟩
    rw [← hbuffer] at hmem
    refine ⟨⟨rfl, nofun, fun e he => (hmem e he).1, rfl, nofun⟩, ?_, hc.unwritten, ?_⟩
    · rw [hbuffer, cells_append]
      refine hstats.trans ((hc.stats.append_right _).trans ?_)
      rw [List.append_assoc]
      exact List.perm_append_comm.append_left _
    · intro e he
      obtain ⟨-, e', he', hvalue⟩ := hmem e he
      rw [hvalue]
      exact hc.typed e' he'
  · rw [if_neg hflag]
    obtain rfl : pre = [] := by
      by_contra hne
      exact hflag (h.flag hne)
    have hbuffer : p.buffer = post := h.buffer
    rw [Normal, hbuffer]
    exact ⟨h, hc⟩

/-! ### The value dataset -/

theorem size_of_not_deferred {type : PVType} {v : PVValue D} (hv : v.hasType type = true)
    (htype : type.deferred = false) : v.size = 1 := by
  cases v with
  | uint32 n => rfl
  | double d => rfl
  | string s => obtain rfl := of_decide_eq_true hv; exact absurd htype (by decide)
  | uint32Array ns => obtain rfl := of_decide_eq_true hv; exact absurd htype (by decide)
  | doubleArray ds => obtain rfl := of_decide_eq_true hv; exact absurd htype (by decide)

theorem maxLen_eq {n : Nat} {values : List (PVValue D)} (hn : 0 < n)
    (hsize : ∀ v ∈ values, v.size = n) (hne : values ≠ []) : maxLen values = n := by
  have hfold : ∀ (vs : List (PVValue D)) (len : Nat), (∀ v ∈ vs, v.size = n) → len ≤ n →
      vs ≠ [] → vs.foldl (fun len v => max len v.size) len = n := by
    intro vs
    induction vs with
    | nil => exact fun _ _ _ h => absurd rfl h
    | cons v vs ih =>
      intro len hvs hlen _
      obtain ⟨hv, hrest⟩ := List.forall_mem_cons.mp hvs
      rw [List.foldl_cons, hv, Nat.max_eq_right hlen]
      cases vs with
      | nil => rfl
      | cons w ws => exact ih n hrest (Nat.le_refl n) (by simp)
  exact hfold values 1 hsize hn hne

section Dataset

variable [PVDouble D]

/-- A row without padding holds the numbers that were pushed. -/
theorem row_eq_pushed {type : PVType} {v : PVValue D} (hv : v.hasType type = true)
    (htype : type ≠ .string) : v.row v.size = v.pushed := by
  cases v with
  | uint32 n => rfl
  | double d => rfl
  | string s => exact absurd (of_decide_eq_true hv) htype
  | uint32Array ns => simp [PVValue.row, PVValue.size, PVValue.pushed]
  | doubleArray ds => simp [PVValue.row, PVValue.size, PVValue.pushed]

theorem datasetCells_eq {type : PVType} {n : Nat} {values : List (PVValue D)} (hn : 0 < n)
    (hsize : ∀ v ∈ values, v.size = n) (htyped : ∀ v ∈ values, v.hasType type = true)
    (htype : type ≠ .string) : datasetCells values = values.flatMap PVValue.pushed := by
  by_cases hne : values = []
  · subst hne
    rfl
  · rw [datasetCells, maxLen_eq hn hsize hne]
    apply List.flatMap_congr
    intro v hv
    rw [← hsize v hv]
    exact row_eq_pushed (htyped v hv) htype

/-- All values have one length, so that none is padded. -/
def Even (buffer : List (PVEntry D)) : Prop := ∃ n, 0 < n ∧ ∀ e ∈ buffer, e.value.size = n

theorem flushValueBuffers_same (p : PVInfo D) : Same p p.flushValueBuffers := by
  rw [flushValueBuffers]
  split
  · exact Same.refl p
  · exact ⟨rfl, rfl, rfl⟩

theorem flushValueBuffers_stats (p : PVInfo D) : p.flushValueBuffers.stats = p.stats := by
  rw [flushValueBuffers]
  split <;> rfl

theorem flushValueBuffers_spec (h : Normal p) (heven : Even p.buffer) (htype : p.type ≠ .string) :
    p.stats.Perm p.flushValueBuffers.written ∧
      (p.flushValueBuffers.curSize = 0 → p.flushValueBuffers.written = []) ∧
      Split { p.flushValueBuffers with buffer := [] } [] [] := by
  obtain ⟨hsplit, hcounted⟩ := h
  obtain ⟨n, hn, hsize⟩ := heven
  have habs : p.absTimes = [] := List.length_eq_zero_iff.mp hsplit.absTimes
  have hcells : datasetCells (p.buffer.map (·.value)) = cells p.buffer := by
    rw [datasetCells_eq hn (List.forall_mem_map.mpr hsize)
      (List.forall_mem_map.mpr hcounted.typed) htype, List.flatMap_map]
    rfl
  have hstats := hcounted.stats
  rw [flushValueBuffers]
  cases hlast : p.buffer.getLast? with
  | none =>
    obtain hnil := List.getLast?_eq_none_iff.mp hlast
    rw [hnil, cells_nil, List.append_nil] at hstats
    exact ⟨hstats, hcounted.unwritten, rfl, nofun, nofun, by simp [habs], nofun⟩
  | some e =>
    have hpos : 0 < p.buffer.length :=
      List.length_pos_of_mem (List.mem_of_getLast? hlast)
    refine ⟨by rw [hcells]; exact hstats, fun hzero => ?_, rfl, nofun, nofun, by simp [habs], nofun⟩
    simp only at hzero
    omega

end Dataset

/-! ### Flushes and updates -/

/-- The variable has a value dataset with numbers. -/
structure Recorded (cfg : PVConfig) (p : PVInfo D) : Prop where
  genNexus : cfg.genNexus = true
  ignore : p.ignore = false
  type : p.type ≠ .string

/-- What holds of a variable between two events of the run. -/
def Holds (startTime : Nat) (p : PVInfo D) : Prop :=
  ∃ pre post, Split p pre post ∧ Counted p post ∧ (startTime = 0 → post = [])

/-- No statistics are written before the end of the run. -/
structure Inv (cfg : PVConfig) (startTime : Nat) (p : PVInfo D) : Prop where
  statsWritten : p.statsWritten = none
  finalized : p.finalized = false
  holds : Recorded cfg p → Holds startTime p

theorem Normal.holds (h : Normal p) (hstart : startTime = 0 → p.buffer = []) :
    Holds startTime p := ⟨[], p.buffer, h.1, h.2, hstart⟩

theorem Split.absTimes_of_flag (h : Split p pre post) (hflag : p.hasNonNormalized = false) :
    p.absTimes = [] := by
  have hpre : pre = [] := by
    by_contra hne
    rw [h.flag hne] at hflag
    exact Bool.noConfusion hflag
  rw [← List.length_eq_zero_iff, h.absTimes, hpre, List.length_nil]

variable {cfg : PVConfig}

theorem Recorded.same (h : Same p q) : Recorded cfg q ↔ Recorded cfg p := by
  constructor
  · exact fun hq => ⟨hq.genNexus, h.base ▸ hq.ignore, h.base ▸ hq.type⟩
  · exact fun hp => ⟨hp.genNexus, h.base.symm ▸ hp.ignore, h.base.symm ▸ hp.type⟩

theorem Inv.same (h : Inv cfg startTime p) (hsame : Same p q)
    (hholds : Recorded cfg p → Holds startTime q) : Inv cfg startTime q :=
  ⟨hsame.statsWritten.trans h.statsWritten, hsame.finalized.trans h.finalized,
    fun hrec => hholds ((Recorded.same hsame).mp hrec)⟩

/-! The invariant does not depend on the mark for duplicates. -/

theorem Split.withDuplicate (h : Split p pre post) (b : Bool) :
    Split { p with duplicate := b } pre post := { h with }

theorem Counted.withDuplicate (h : Counted p post) (b : Bool) :
    Counted { p with duplicate := b } post := { h with }

theorem Inv.withDuplicate (h : Inv cfg startTime p) (b : Bool) :
    Inv cfg startTime { p with duplicate := b } := by
  refine ⟨h.statsWritten, h.finalized, fun hrec => ?_⟩
  obtain ⟨pre, post, hsplit, hcounted, hstart⟩ := h.holds { hrec with }
  exact ⟨pre, post, hsplit.withDuplicate b, hcounted.withDuplicate b, hstart⟩

theorem Normal.withDuplicate (h : Normal p) (b : Bool) : Normal { p with duplicate := b } :=
  ⟨h.1.withDuplicate b, h.2.withDuplicate b⟩

theorem inv_make (cfg : PVConfig) (startTime : Nat) (defn : PVInfoBase) (isDuplicate : Bool) :
    Inv cfg startTime (make defn isDuplicate : PVInfo D) :=
  ⟨rfl, rfl, fun _ => ⟨[], [], ⟨rfl, nofun, nofun, rfl, nofun⟩, ⟨.nil, fun _ => rfl, nofun⟩,
    fun _ => rfl⟩⟩

/-- Once the first pulse is there, no entry has been given a normalised time before. -/
theorem Inv.start (h : Inv cfg 0 p) (timestamp : Nat) : Inv cfg timestamp p := by
  refine ⟨h.statsWritten, h.finalized, fun hrec => ?_⟩
  obtain ⟨pre, post, hsplit, hcounted, hstart⟩ := h.holds hrec
  exact ⟨pre, post, hsplit, hcounted, fun _ => hstart rfl⟩

theorem purge_holds (hempty : p.written = []) : Holds startTime p.purge :=
  ⟨[], [], ⟨rfl, nofun, nofun, rfl, nofun⟩,
    ⟨by simp [PVInfo.purge, hempty], fun _ => hempty, nofun⟩, fun _ => rfl⟩

/-- An update is stored with the entries that have a normalised time, or with the others. -/
theorem store_holds {value : PVValue D} {ts : Nat} (h : Holds startTime p)
    (htype : value.hasType p.type = true) : Holds startTime (p.store startTime value ts) := by
  obtain ⟨pre, post, hsplit, hcounted, hstart⟩ := h
  by_cases h0 : startTime = 0
  · obtain rfl := hstart h0
    have htime : relativeTime startTime ts < 0 := by rw [relativeTime, if_pos h0]; decide
    have hbuffer : p.buffer = pre := by rw [hsplit.buffer, List.append_nil]
    rw [store, if_neg (by omega)]
    refine ⟨pre ++ [⟨value, relativeTime startTime ts⟩], [], ⟨?_, ?_, nofun, ?_, ?_⟩,
      ⟨hcounted.stats, hcounted.unwritten, ?_⟩, fun _ => rfl⟩
    · simp [hbuffer]
    · exact List.forall_mem_append.mpr ⟨hsplit.pending, by simpa using htime⟩
    · simp [h0, hsplit.absTimes]
    · simp [h0]
    · exact List.forall_mem_append.mpr ⟨hcounted.typed, by simpa using htype⟩
  · have htime : 0 ≤ relativeTime startTime ts := by
      rw [relativeTime, if_neg h0]
      split <;> omega
    rw [store, if_pos htime]
    refine ⟨pre, post ++ [⟨value, relativeTime startTime ts⟩], ⟨?_, hsplit.pending, ?_, ?_, ?_⟩,
      ⟨?_, hcounted.unwritten, ?_⟩, fun hzero => absurd hzero h0⟩
    · simp [addToStats, hsplit.buffer]
    · exact List.forall_mem_append.mpr ⟨hsplit.timed, by simpa using htime⟩
    · simp [addToStats, h0, hsplit.absTimes]
    · intro hne
      simp [addToStats, hsplit.flag hne]
    · simp only [addToStats, cells_append, cells_cons, cells_nil, List.append_nil]
      rw [← List.append_assoc]
      simpa using hcounted.stats.append_right value.pushed
    · exact List.forall_mem_append.mpr ⟨hcounted.typed, by simpa [addToStats] using htype⟩

theorem store_same (startTime : Nat) (value : PVValue D) (ts : Nat) (p : PVInfo D) :
    Same p (p.store startTime value ts) := by
  rw [store]
  split <;> exact ⟨rfl, rfl, rfl⟩

theorem absTimes_store (h0 : startTime ≠ 0) (value : PVValue D) (ts : Nat) (p : PVInfo D) :
    (p.store startTime value ts).absTimes = p.absTimes := by
  rw [store]
  split <;> simp [addToStats, h0]

variable [PVDouble D] {initialized : Bool}

/-- What a flush that is not the last can do: wait for the first pulse, only normalise the
    times, let the values of an ignored variable go, or write them. -/
theorem flushBuffers_cases (cfg : PVConfig) (initialized : Bool) (startTime : Nat)
    (p : PVInfo D) :
    let q := (p.flushBuffers cfg initialized startTime false).2
    let r := p.normalize startTime
    q = p ∨ (p.hasNonNormalized = true → startTime ≠ 0) ∧
      (q = r ∨ (¬ (cfg.genNexus = true ∧ r.ignore = false) ∧ q = { r with buffer := [] }) ∨
        (r.type.deferred = false ∧ q = { r.flushValueBuffers with buffer := [] })) := by
  simp only [flushBuffers, Bool.false_eq_true, not_false_eq_true, true_and, if_false]
  split
  · exact .inl rfl
  · next hflag =>
    refine .inr ⟨fun h hzero => hflag ⟨h, hzero⟩, ?_⟩
    split
    · exact .inl rfl
    · split
      · split
        · exact .inl rfl
        · split
          · exact .inl rfl
          · next hdeferred =>
            split
            · exact .inl rfl
            · exact .inr (.inr ⟨eq_false_of_ne_true hdeferred, rfl⟩)
      · next hignore => exact .inr (.inl ⟨by simpa using hignore, rfl⟩)

theorem flushBuffers_same (cfg : PVConfig) (initialized : Bool) (startTime : Nat)
    (p : PVInfo D) : Same p (p.flushBuffers cfg initialized startTime false).2 := by
  have hnormal := normalize_same startTime p
  have hflush := hnormal.trans (flushValueBuffers_same _)
  rcases flushBuffers_cases cfg initialized startTime p with hq | ⟨-, hq | ⟨-, hq⟩ | ⟨-, hq⟩⟩
  · rw [hq]
    exact Same.refl p
  · rw [hq]
    exact hnormal
  · rw [hq]
    exact ⟨hnormal.base, hnormal.statsWritten, hnormal.finalized⟩
  · rw [hq]
    exact ⟨hflush.base, hflush.statsWritten, hflush.finalized⟩

/-- What a flush in the middle of the run keeps. -/
theorem flushBuffers_holds (hrec : Recorded cfg p) (h : Holds startTime p)
    (horder : startTime ≠ 0 → InOrder startTime p.absTimes) :
    Holds startTime (p.flushBuffers cfg initialized startTime false).2 := by
  have hsame := normalize_same startTime p
  rcases flushBuffers_cases cfg initialized startTime p with hq | ⟨hflag, hq⟩
  · rw [hq]
    exact h
  · obtain ⟨pre, post, hsplit, hcounted, hstart⟩ := h
    have hzero : startTime = 0 → p.hasNonNormalized = false := fun h0 =>
      eq_false_of_ne_true fun hf => hflag hf h0
    have horder' : InOrder startTime p.absTimes := by
      by_cases h0 : startTime = 0
      · rw [hsplit.absTimes_of_flag (hzero h0)]
        exact List.Pairwise.nil
      · exact horder h0
    have hnormal := normalize_normal hsplit hcounted horder'
    have hempty : startTime = 0 → (p.normalize startTime).buffer = [] := by
      intro h0
      have habs := hsplit.absTimes_of_flag (hzero h0)
      have hpre : pre = [] := by
        rw [← List.length_eq_zero_iff, ← hsplit.absTimes, habs, List.length_nil]
      rw [PVInfo.normalize, if_neg (by simp [hzero h0]), hsplit.buffer, hpre, hstart h0]
      rfl
    have htype : (p.normalize startTime).type ≠ .string := by
      rw [hsame.base]
      exact hrec.type
    rcases hq with hq | ⟨hnot, -⟩ | ⟨hdeferred, hq⟩
    · rw [hq]
      exact hnormal.holds hempty
    · rw [hsame.base] at hnot
      exact absurd ⟨hrec.genNexus, hrec.ignore⟩ hnot
    · have heven : Even (p.normalize startTime).buffer :=
        ⟨1, Nat.one_pos, fun e he => size_of_not_deferred (hnormal.2.typed e he) hdeferred⟩
      obtain ⟨hstats, hunwritten, hsplit'⟩ := flushValueBuffers_spec hnormal heven htype
      have hpushed := flushValueBuffers_stats (p.normalize startTime)
      rw [hq]
      refine ⟨[], [], hsplit', ⟨?_, hunwritten, nofun⟩, fun _ => rfl⟩
      rw [cells_nil, List.append_nil]
      exact hpushed.symm ▸ hstats

/-- An update does no harm to the statistics: what it purges has not been written, and times it
    may normalise are in order. -/
structure UpdateKept (startTime : Nat) (value : PVValue D) (ts : Nat) (p : PVInfo D) : Prop where
  unwritten : ¬ p.Repeats value ts → p.Superseded startTime ts → p.curSize = 0
  inOrder : startTime ≠ 0 → InOrder startTime p.absTimes

theorem pvValueUpdate_inv {value : PVValue D} {ts : Nat} {ready : Bool}
    (h : Inv cfg startTime p) (hkept : UpdateKept startTime value ts p)
    (hq : p.pvValueUpdate cfg startTime value ts ready initialized = some q) :
    Inv cfg startTime q ∧ Same p q := by
  rw [pvValueUpdate] at hq
  split at hq
  · exact absurd hq (by simp)
  next htype =>
  split at hq
  · obtain rfl := Option.some.inj hq
    exact ⟨h, Same.refl p⟩
  next hrepeats =>
  -- The buffer is purged or not, and the update stored.
  have hpurged : ∃ p', p' = (if p.Superseded startTime ts then p.purge else p) ∧ Same p p' ∧
      (Recorded cfg p → Holds startTime p') ∧
      (startTime ≠ 0 → InOrder startTime p'.absTimes) := by
    refine ⟨_, rfl, ?_⟩
    split
    · next hsuperseded =>
      refine ⟨⟨rfl, rfl, rfl⟩, fun hrec => ?_, fun _ => List.Pairwise.nil⟩
      obtain ⟨pre, post, -, hcounted, -⟩ := h.holds hrec
      exact purge_holds (hcounted.unwritten (hkept.unwritten hrepeats hsuperseded))
    · exact ⟨Same.refl p, h.holds, hkept.inOrder⟩
  obtain ⟨p', hp', hsame, hholds, horder⟩ := hpurged
  rw [← hp'] at hq
  dsimp only at hq
  have hstored := hsame.trans (store_same startTime value ts p')
  have hholds' : Recorded cfg p → Holds startTime (p'.store startTime value ts) := fun hrec =>
    store_holds (hholds hrec) (by simpa [hsame.base] using htype)
  split at hq
  · obtain rfl := Option.some.inj hq
    have hflushed := hstored.trans (flushBuffers_same cfg initialized startTime _)
    refine ⟨h.same hflushed fun hrec => ?_, hflushed⟩
    apply flushBuffers_holds ((Recorded.same hstored).mpr hrec) (hholds' hrec)
    intro h0
    rw [absTimes_store h0]
    exact horder h0
  · obtain rfl := Option.some.inj hq
    exact ⟨h.same hstored hholds', hstored⟩

end Adara.Spec.PVLog
