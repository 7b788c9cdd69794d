import Adara.ForStd.Runs
import Adara.Spec.HWSource

/-! # The identity of a pulse

A hardware source tells pulses with the same pulse id apart by a duplicate count, which
it takes to be the number of pulses with that id in its list.  As long as the oldest
pulse with an id is still the first one (its count is 0), the counts in the list are
`0, 1, ..`, and the next one is new.  Once the first one is evicted while later ones
stay, the next pulse gets a count that is or was in use. -/

namespace Adara.Spec.PulseIdentity

open Adara.Native Adara.Native.HWSource Adara.Spec.HWSource

/-! ### What `getPulse` does to the list -/

/-- The pulses of the list, without the flag that says what has been processed. -/
def tags (s : HWSource) : List PulseInvariants := (bareList s).map (·.pulse)

/-- The duplicate count of a pulse that is not in the list. -/
def nextDup (l : List PulseInvariants) (pulseId : UInt64) : UInt32 :=
  UInt32.ofNat (l.countP (·.pulseId = pulseId))

/-- The pulse of a packet as it is pushed to the list `l`. -/
def pushed (l : List PulseInvariants) (pkt : RawDataPkt) : PulseInvariants :=
  { invariantsOf pkt with dupCount := nextDup l pkt.pulseId }

private theorem bareList_refreshBound (env : DataEnv) (s : HWSource) :
    bareList (s.refreshBound env) = bareList s := by
  unfold refreshBound
  split <;> rfl

private theorem mem_tags {s : HWSource} {p : PulseInvariants} :
    p ∈ tags s ↔ ∃ e ∈ s.pulseSeqList, (bare e).pulse = p := by
  simp [tags, bareList]

private theorem refreshBound_pos {env : DataEnv} {s : HWSource} (h : 1 ≤ s.maxPulseSeqList.toNat) :
    1 ≤ (s.refreshBound env).maxPulseSeqList.toNat := by
  unfold refreshBound
  split
  · show 1 ≤ (if env.maxPulseSeqList < 1 then (1 : UInt32) else env.maxPulseSeqList).toNat
    split
    · decide
    · rename_i hge
      rw [UInt32.lt_iff_toNat_lt] at hge
      exact Nat.not_lt.mp hge
  · exact h

/-- `getPulse` finds the pulse, or pushes it to the front and keeps no more pulses than
    the bound, which is at least one. -/
theorem getPulse_cases (env : DataEnv) {s : HWSource} (pkt : RawDataPkt)
    (hmax : 1 ≤ s.maxPulseSeqList.toNat) :
    ((getPulse env s pkt).1 = s ∧ ∃ p ∈ tags s, p.same (invariantsOf pkt)) ∨
      ((∀ p ∈ tags s, ¬ p.same (invariantsOf pkt)) ∧
        1 ≤ (getPulse env s pkt).1.maxPulseSeqList.toNat ∧
        tags (getPulse env s pkt).1 = (pushed (tags s) pkt :: tags s).take
          (getPulse env s pkt).1.maxPulseSeqList.toNat) := by
  cases hfound : (s.pulseSeqList.findIdxs (·.pulse.same (invariantsOf pkt))).getLast? with
  | some i =>
    left
    have hi := List.mem_of_getLast? hfound
    rw [List.mem_findIdxs_iff_exists_getElem_pos] at hi
    obtain ⟨hlt, hsame⟩ := hi
    constructor
    · simp only [getPulse, findPulseSequence, hfound]
    · exact ⟨_, mem_tags.mpr ⟨_, List.getElem_mem hlt, rfl⟩, hsame⟩
  | none =>
    right
    rw [List.getLast?_eq_none_iff, List.findIdxs_eq_nil_iff] at hfound
    have hnew : (s.pulseSeqList.findIdxs (·.pulse.same (invariantsOf pkt))).getLast? = none := by
      rw [List.getLast?_eq_none_iff, List.findIdxs_eq_nil_iff]
      exact hfound
    -- the entries counted are the pulses with that id
    have hcount : s.pulseSeqList.countP (·.pulse.pulseId = (invariantsOf pkt).pulseId) =
        (tags s).countP (·.pulseId = pkt.pulseId) := by
      rw [tags, bareList, List.countP_map, List.countP_map]
      rfl
    have hget : (getPulse env s pkt).1 =
        ((s.pushPulse (pushed (tags s) pkt)).refreshBound env).keepSize := by
      simp only [getPulse, findPulseSequence, hnew, hcount]
      rfl
    refine ⟨?_, ?_, ?_⟩
    · intro p hp
      obtain ⟨e, he, rfl⟩ := mem_tags.mp hp
      have hdiff : e.pulse.same (invariantsOf pkt) = false := hfound e he
      rw [Bool.not_eq_true]
      exact hdiff
    · rw [hget, keepSize, (sameSource_evictMany _ _).maxPulseSeqList]
      exact refreshBound_pos hmax
    · rw [hget, tags, bareList_keepSize, bareList_refreshBound, keepSize,
        (sameSource_evictMany _ _).maxPulseSeqList, List.map_take]
      rfl

/-! ### Consecutive counts -/

/-- The duplicate counts of the pulses with an id, oldest first. -/
def dups (pulseId : UInt64) (l : List PulseInvariants) : List Nat :=
  ((l.filter (·.pulseId = pulseId)).map (·.dupCount.toNat)).reverse

/-- The pulses with the same id have consecutive counts, from the oldest to the
    newest. -/
def Consecutive (l : List PulseInvariants) : Prop :=
  ∀ pulseId, ∃ first, dups pulseId l = List.range' first (dups pulseId l).length

/-- No two different pulses have the same id and duplicate count. -/
def Distinct (l : List PulseInvariants) : Prop :=
  ∀ p ∈ l, ∀ q ∈ l, ¬ p.same q → (p.pulseId, p.dupCount) ≠ (q.pulseId, q.dupCount)

instance (l : List PulseInvariants) : Decidable (Distinct l) :=
  inferInstanceAs (Decidable (∀ p ∈ l, _))

/-- The first pulse that had this id is the oldest one in the list that has it, if any
    has. -/
def OldestIsFirst (l : List PulseInvariants) (pulseId : UInt64) : Prop :=
  ∀ p, (l.filter (·.pulseId = pulseId)).getLast? = some p → p.dupCount = 0

theorem distinct_of_consecutive {l : List PulseInvariants} (h : Consecutive l) : Distinct l := by
  intro p hp q hq hdiff heq
  obtain ⟨hid, hdup⟩ := Prod.mk.inj heq
  obtain ⟨first, hdups⟩ := h q.pulseId
  have hnodup : (dups q.pulseId l).Nodup := hdups ▸ List.nodup_range'
  rw [dups, List.nodup_reverse] at hnodup
  have hpmem : p ∈ l.filter (·.pulseId = q.pulseId) := by
    rw [List.mem_filter]
    exact ⟨hp, by simpa using hid⟩
  have hqmem : q ∈ l.filter (·.pulseId = q.pulseId) := by
    rw [List.mem_filter]
    exact ⟨hq, by simp⟩
  have : p = q := List.inj_on_of_nodup_map hnodup hpmem hqmem (congrArg UInt32.toNat hdup)
  subst this
  exact hdiff (by simp [PulseInvariants.same])

/-- Dropping the oldest pulses keeps the counts consecutive. -/
theorem Consecutive.take {l : List PulseInvariants} (h : Consecutive l) (n : Nat) :
    Consecutive (l.take n) := by
  intro pulseId
  obtain ⟨first, hdups⟩ := h pulseId
  -- what stays with this id is the newer part
  have hprefix : ((l.take n).filter (·.pulseId = pulseId)).map (·.dupCount.toNat) <+:
      (l.filter (·.pulseId = pulseId)).map (·.dupCount.toNat) :=
    ((List.take_prefix n l).filter _).map _
  have hsuffix : dups pulseId (l.take n) <:+ dups pulseId l := List.reverse_suffix.mpr hprefix
  rw [hdups, List.suffix_iff_eq_drop] at hsuffix
  rw [List.drop_range', List.length_range'] at hsuffix
  rw [hsuffix]
  exact ⟨_, by rw [List.length_range']⟩

theorem dups_cons (pulseId : UInt64) (p : PulseInvariants) (l : List PulseInvariants) :
    dups pulseId (p :: l) =
      if p.pulseId = pulseId then dups pulseId l ++ [p.dupCount.toNat] else dups pulseId l := by
  by_cases h : p.pulseId = pulseId
  · simp [dups, h]
  · simp [dups, h]

/-- The counts of an id start with that of its oldest pulse. -/
private theorem head?_dups (pulseId : UInt64) (l : List PulseInvariants) :
    (dups pulseId l).head? =
      ((l.filter (·.pulseId = pulseId)).getLast?).map (·.dupCount.toNat) := by
  rw [dups, List.head?_reverse, List.getLast?_map]

/-- Consecutive counts whose oldest is the first one start at zero. -/
private theorem dups_eq_range {l : List PulseInvariants} {pulseId : UInt64} (h : Consecutive l)
    (hfirst : OldestIsFirst l pulseId) :
    dups pulseId l = List.range' 0 (dups pulseId l).length := by
  obtain ⟨first, hdups⟩ := h pulseId
  have hhead := head?_dups pulseId l
  cases holdest : (l.filter (·.pulseId = pulseId)).getLast? with
  | none =>
    rw [holdest, Option.map_none, List.head?_eq_none_iff] at hhead
    rw [hhead]
    rfl
  | some p =>
    have hzero : p.dupCount.toNat = 0 := congrArg UInt32.toNat (hfirst p holdest)
    rw [holdest, Option.map_some, hzero, hdups, List.head?_range'] at hhead
    split at hhead
    · cases hhead
    · rwa [Option.some.inj hhead] at hdups

/-- The new pulse continues the counts of its id when the first one is still there. -/
theorem Consecutive.cons {l : List PulseInvariants} (h : Consecutive l) (pkt : RawDataPkt)
    (hlength : l.length < 2 ^ 32) (hfirst : OldestIsFirst l pkt.pulseId) :
    Consecutive (pushed l pkt :: l) := by
  intro pulseId
  rw [dups_cons]
  by_cases hid : (pushed l pkt).pulseId = pulseId
  · rw [if_pos hid]
    obtain rfl : pkt.pulseId = pulseId := hid
    have hcount : (dups pkt.pulseId l).length = l.countP (·.pulseId = pkt.pulseId) := by
      rw [dups, List.length_reverse, List.length_map, List.countP_eq_length_filter]
    have hnext : (pushed l pkt).dupCount.toNat = (dups pkt.pulseId l).length := by
      have hle : l.countP (·.pulseId = pkt.pulseId) < 2 ^ 32 :=
        Nat.lt_of_le_of_lt List.countP_le_length hlength
      show (nextDup l pkt.pulseId).toNat = _
      rw [nextDup, UInt32.toNat_ofNat_of_lt' hle, hcount]
    apply Exists.intro 0
    rw [hnext, List.length_append, List.length_singleton, List.range'_1_concat,
      ← dups_eq_range h hfirst, Nat.zero_add]
  · rw [if_neg hid]
    exact h pulseId

/-- Once the first pulse of an id is gone while a later one is there, the next one gets
    a count that was handed out before. -/
theorem nextDup_le_of_not_first {l : List PulseInvariants} {pulseId : UInt64} (h : Consecutive l)
    (hnot : ¬ OldestIsFirst l pulseId) :
    ∃ q ∈ l, q.pulseId = pulseId ∧ nextDup l pulseId ≤ q.dupCount := by
  obtain ⟨first, hdups⟩ := h pulseId
  have hcount : (dups pulseId l).length = l.countP (·.pulseId = pulseId) := by
    rw [dups, List.length_reverse, List.length_map, List.countP_eq_length_filter]
  have hhead := head?_dups pulseId l
  have hlast : (dups pulseId l).getLast? =
      ((l.filter (·.pulseId = pulseId)).head?).map (·.dupCount.toNat) := by
    rw [dups, List.getLast?_reverse, List.head?_map]
  cases holdest : (l.filter (·.pulseId = pulseId)).getLast? with
  | none =>
    exact absurd (fun p hp => absurd (holdest.symm.trans hp) (by simp)) hnot
  | some p =>
    have hpos : (dups pulseId l).length ≠ 0 := by
      intro hzero
      rw [holdest, List.eq_nil_of_length_eq_zero hzero] at hhead
      cases hhead
    -- the oldest count is not zero
    have hfirst : first ≠ 0 := by
      rintro rfl
      rw [holdest, Option.map_some, hdups, List.head?_range', if_neg hpos] at hhead
      apply hnot
      intro p' hp'
      obtain rfl := Option.some.inj (holdest.symm.trans hp')
      exact UInt32.toNat_inj.mp (Option.some.inj hhead).symm
    cases hnewest : (l.filter (·.pulseId = pulseId)).head? with
    | none =>
      rw [List.head?_eq_none_iff.mp hnewest] at holdest
      cases holdest
    | some q =>
      have hq := List.mem_filter.mp (List.mem_of_head? hnewest)
      refine ⟨q, hq.1, by simpa using hq.2, ?_⟩
      rw [hnewest, Option.map_some, hdups, List.getLast?_range', if_neg hpos,
        Option.some.injEq] at hlast
      rw [UInt32.le_iff_toNat_le, nextDup, ← hcount, UInt32.toNat_ofNat', ← hlast]
      have := Nat.mod_le (dups pulseId l).length (2 ^ 32)
      omega

/-! ### Runs -/

/-- One call of `getPulse`. -/
def step (s : HWSource) (op : DataEnv × RawDataPkt) : Option HWSource :=
  some (getPulse op.1 s op.2).1

/-- A packet with a new pulse finds the first pulse of its id in the list, or none. -/
def FirstTracked (s : HWSource) (op : DataEnv × RawDataPkt) : Prop :=
  (∀ p ∈ tags s, ¬ p.same (invariantsOf op.2)) → OldestIsFirst (tags s) op.2.pulseId

/-- The list is within its bound, and its counts are consecutive. -/
structure Tracked (s : HWSource) : Prop where
  bound_pos : 1 ≤ s.maxPulseSeqList.toNat
  length_le : (tags s).length ≤ s.maxPulseSeqList.toNat
  consecutive : Consecutive (tags s)

private theorem tracked_new (hwId : UInt32) (smsId : Fin 256) (maxPulseSeqList : UInt32) :
    Tracked (HWSource.new hwId smsId maxPulseSeqList) where
  bound_pos := by
    show 1 ≤ (if maxPulseSeqList < 1 then (1 : UInt32) else maxPulseSeqList).toNat
    split
    · decide
    · rename_i hge
      rw [UInt32.lt_iff_toNat_lt] at hge
      exact Nat.not_lt.mp hge
  length_le := Nat.zero_le _
  consecutive := fun _ => ⟨0, rfl⟩

private theorem Tracked.step {s s' : HWSource} {op : DataEnv × RawDataPkt} (hs : Tracked s)
    (hop : FirstTracked s op) (h : step s op = some s') : Tracked s' := by
  cases h
  rcases getPulse_cases op.1 op.2 hs.bound_pos with ⟨heq, -⟩ | ⟨hnew, hpos, htags⟩
  · rwa [heq]
  · have hlength : (tags s).length < 2 ^ 32 :=
      Nat.lt_of_le_of_lt hs.length_le (UInt32.toNat_lt _)
    constructor
    · exact hpos
    · rw [htags, List.length_take]
      exact Nat.min_le_left ..
    · rw [htags]
      exact (hs.consecutive.cons op.2 hlength (hop hnew)).take _

/-- While every new pulse finds the first pulse of its id in the list, or none of that
    id, no two different pulses in the list have the same id and duplicate count. -/
theorem distinct_of_firstTracked (hwId : UInt32) (smsId : Fin 256) (maxPulseSeqList : UInt32)
    (ops : List (DataEnv × RawDataPkt)) (s : HWSource)
    (h : Runs.run step (HWSource.new hwId smsId maxPulseSeqList) ops = some s)
    (hops : Runs.along step FirstTracked (HWSource.new hwId smsId maxPulseSeqList) ops) :
    Distinct (tags s) :=
  distinct_of_consecutive (Runs.invariant_along (fun _ _ _ hs hop h => hs.step hop h)
    (tracked_new hwId smsId maxPulseSeqList) hops h).consecutive

/-! ### Four pulses at the same time -/

theorem six_le_packet (charge : UInt32) : 6 ≤ [1, 0, charge, 0, 0, 0].length := Nat.le_refl 6

theorem zero_lt_sources : 0 < 256 := by decide

/-- A packet of a pulse told apart by its charge. -/
def packet (charge : UInt32) : RawDataPkt where
  version := 0
  pulseId := 0x2000000000000000
  fields := [1, 0, charge, 0, 0, 0]
  six_le := six_le_packet charge

/-- The options of a source that checks nothing. -/
def plainEnv : DataEnv where
  refreshMax := false
  maxPulseSeqList := 2
  now := 1500000000
  checkSourceSequence := false
  checkPulseSequence := false
  mixedDataPackets := false
  ignoreEoP := false
  intermittentDataThreshold := 0
  registered := ⟨0, zero_lt_sources⟩

/-- Two pulses at the same time get the counts 0 and 1. -/
theorem distinct_of_firstTracked_two :
    let s := (getPulse plainEnv (getPulse plainEnv (HWSource.new 1 0 2) (packet 1)).1 (packet 2)).1
    Distinct (tags s) := by
  apply distinct_of_firstTracked 1 0 2 [(plainEnv, packet 1), (plainEnv, packet 2)] _ rfl
  apply And.intro
  · intro _ p hp
    cases hp
  · intro s hs
    cases hs
    apply And.intro _ (fun _ _ => trivial)
    intro _ p hp
    have : some p = some (pushed [] (packet 1)) := hp.symm.trans (by decide)
    cases this
    decide

/-- With room for two pulses, the fourth pulse at the same time gets the count of the
    third. -/
theorem not_distinct_of_four :
    ¬ ∀ (hwId : UInt32) (smsId : Fin 256) (maxPulseSeqList : UInt32)
      (ops : List (DataEnv × RawDataPkt)) (s : HWSource),
      Runs.run step (HWSource.new hwId smsId maxPulseSeqList) ops = some s → Distinct (tags s) := by
  intro h
  have hfour := h 1 0 2
    [(plainEnv, packet 1), (plainEnv, packet 2), (plainEnv, packet 3), (plainEnv, packet 4)] _ rfl
  revert hfour
  decide

end Adara.Spec.PulseIdentity
