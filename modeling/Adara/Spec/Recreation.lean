import Adara.Spec.PulseCache
import Adara.Spec.Release
import Mathlib.Data.List.Find

/-! # When `markComplete` loses its own pulse

`markComplete` first looks for an intermittent source and unregisters it, which records
a prefix of the buffer, and only then looks up the pulse it was called for.  When that
pulse is in the recorded prefix, the lookup creates it a second time, without data.
This file says exactly when that happens (`recordsThenRecreates_iff`), and puts the
ledger of the buffer together. -/

namespace Adara.Spec.PulseBuffer

open Adara.Native Adara.Native.SMSControl

/-! ### The intermittent source -/

/-- The number of pulses pending on a source. -/
def pendingCount (i : Fin 256) (entries : List (PulseIdentifier × Node)) : Nat :=
  entries.countP fun e => i ∈ e.2.pulse.pending

/-- Walking through the pulses in order, `i` is the first source to be pending for
    `threshold` of them, and the lowest one where several get there with the same
    pulse. -/
def FirstPending (threshold : Nat) (entries : List (PulseIdentifier × Node)) (i : Fin 256) :
    Prop :=
  ∃ before e after, entries = before ++ e :: after ∧
    (∀ j, pendingCount j before < threshold) ∧
    threshold ≤ pendingCount i (before ++ [e]) ∧
    ∀ j < i, pendingCount j (before ++ [e]) < threshold

/-- The scan of one pulse: the first source that reaches the threshold with it, or else
    every count brought up to date. -/
private theorem scanSources_eq {threshold : Nat} {pending : SourceSet} {is : List (Fin 256)}
    {counts : Fin 256 → Nat} (hnodup : is.Nodup) :
    scanSources threshold pending is counts =
      match is.find? (fun j => j ∈ pending ∧ threshold ≤ counts j + 1) with
      | some i => .error i
      | none => .ok fun j => if j ∈ is ∧ j ∈ pending then counts j + 1 else counts j := by
  induction is generalizing counts with
  | nil => simp [scanSources]
  | cons k is ih =>
    obtain ⟨hk, hnodup⟩ := List.nodup_cons.mp hnodup
    by_cases hpending : k ∈ pending
    · by_cases hreach : threshold ≤ counts k + 1
      · simp [scanSources, hpending, hreach]
      · -- the other counts do not change with that of `k`
        have hfind : is.find? (fun j => j ∈ pending ∧
              threshold ≤ Function.update counts k (counts k + 1) j + 1) =
            is.find? (fun j => j ∈ pending ∧ threshold ≤ counts j + 1) := by
          apply List.find?_congr
          intro j hj
          have hjk : j ≠ k := by
            rintro rfl
            exact hk hj
          rw [Function.update_of_ne hjk]
        rw [scanSources, if_pos hpending, if_neg hreach, ih hnodup, hfind,
          List.find?_cons_of_neg (by simp [hreach])]
        split
        · rfl
        · apply congrArg
          funext j
          by_cases hj : j = k
          · subst hj
            simp [hk, hpending]
          · simp [hj]
    · rw [scanSources, if_neg hpending, ih hnodup, List.find?_cons_of_neg (by simp [hpending])]
      split
      · rfl
      · apply congrArg
        funext j
        by_cases hj : j = k
        · subst hj
          simp [hk, hpending]
        · simp [hj]

/-- Scanning all sources finds the lowest one that reaches the threshold. -/
private theorem scanSources_error {threshold : Nat} {pending : SourceSet}
    {counts : Fin 256 → Nat} {i : Fin 256}
    (h : scanSources threshold pending (List.finRange 256) counts = .error i) :
    i ∈ pending ∧ threshold ≤ counts i + 1 ∧
      ∀ j < i, j ∈ pending → counts j + 1 < threshold := by
  rw [scanSources_eq (List.nodup_finRange 256)] at h
  split at h
  · rename_i hfind
    cases h
    rw [List.find?_eq_some_iff_append] at hfind
    obtain ⟨hi, as, bs, hsplit, hnot⟩ := hfind
    obtain ⟨hpending, hreach⟩ := of_decide_eq_true hi
    apply And.intro hpending
    apply And.intro hreach
    intro j hj hjpending
    have hmem : j ∈ as ++ i :: bs := hsplit ▸ List.mem_finRange j
    have hsorted : (as ++ i :: bs).Pairwise (· < ·) := hsplit ▸ List.pairwise_lt_finRange 256
    have has : j ∈ as := by
      rcases List.mem_append.mp hmem with hmem | hmem
      · exact hmem
      · have hbs := (List.pairwise_cons.mp (List.pairwise_append.mp hsorted).2.1).1
        rcases List.mem_cons.mp hmem with rfl | hmem
        · exact absurd hj (lt_irrefl _)
        · exact absurd hj (not_lt_of_gt (hbs j hmem))
    have := hnot j has
    simp only [hjpending, true_and, Bool.not_eq_true', decide_eq_false_iff_not] at this
    omega
  · cases h

private theorem scanSources_ok {threshold : Nat} {pending : SourceSet}
    {counts counts' : Fin 256 → Nat}
    (h : scanSources threshold pending (List.finRange 256) counts = .ok counts') :
    (∀ j, counts' j = counts j + if j ∈ pending then 1 else 0) ∧
      ∀ j ∈ pending, counts j + 1 < threshold := by
  rw [scanSources_eq (List.nodup_finRange 256)] at h
  split at h
  · cases h
  · rename_i hfind
    cases h
    rw [List.find?_eq_none] at hfind
    constructor
    · intro j
      by_cases hj : j ∈ pending <;> simp [hj]
    · intro j hj
      have := hfind j (List.mem_finRange j)
      simp only [hj, true_and, decide_eq_true_eq] at this
      omega

private theorem pendingCount_cons (i : Fin 256) (e : PulseIdentifier × Node)
    (entries : List (PulseIdentifier × Node)) :
    pendingCount i (e :: entries) =
      (if i ∈ e.2.pulse.pending then 1 else 0) + pendingCount i entries := by
  simp only [pendingCount, List.countP_cons, decide_eq_true_eq]
  omega

/-- The search with some counts to start from. -/
private theorem findIntermittent_eq_some {threshold : Nat}
    {entries : List (PulseIdentifier × Node)} {counts : Fin 256 → Nat} {i : Fin 256}
    (hcounts : ∀ j, counts j < threshold) :
    findIntermittent threshold entries counts = some i ↔
      ∃ before e after, entries = before ++ e :: after ∧
        (∀ j, counts j + pendingCount j before < threshold) ∧
        threshold ≤ counts i + pendingCount i (before ++ [e]) ∧
        ∀ j < i, counts j + pendingCount j (before ++ [e]) < threshold := by
  induction entries generalizing counts with
  | nil =>
    simp only [findIntermittent, reduceCtorEq, false_iff]
    rintro ⟨before, e, after, h, -⟩
    exact absurd h.symm (by simp)
  | cons e rest ih =>
    simp only [findIntermittent]
    cases hscan : scanSources threshold e.2.pulse.pending (List.finRange 256) counts with
    | error k =>
      obtain ⟨hk, hreach, hless⟩ := scanSources_error hscan
      have hsingle : ∀ j, pendingCount j [e] = if j ∈ e.2.pulse.pending then 1 else 0 :=
        fun j => pendingCount_cons j e []
      -- a smaller source stays below the threshold with this pulse
      have hbelow : ∀ j < k, counts j + pendingCount j [e] < threshold := by
        intro j hj
        rw [hsingle]
        split
        · rename_i hmem
          exact hless j hj hmem
        · exact hcounts j
      simp only [Option.some.injEq]
      constructor
      · rintro rfl
        refine ⟨[], e, rest, rfl, hcounts, ?_, hbelow⟩
        show threshold ≤ counts k + pendingCount k [e]
        rwa [hsingle, if_pos hk]
      · rintro ⟨before, e', after, hsplit, hbefore, hi, hmin⟩
        cases before with
        | nil =>
          obtain ⟨rfl, rfl⟩ := List.cons.inj hsplit
          rw [List.nil_append] at hi hmin
          rcases lt_trichotomy k i with hlt | heq | hlt
          · have := hmin k hlt
            rw [hsingle, if_pos hk] at this
            omega
          · exact heq
          · have := hbelow i hlt
            omega
        | cons e'' before =>
          obtain ⟨rfl, -⟩ := List.cons.inj hsplit
          have := hbefore k
          rw [pendingCount_cons, if_pos hk] at this
          omega
    | ok counts' =>
      obtain ⟨hcounts', hless⟩ := scanSources_ok hscan
      have hnext : ∀ j, counts' j < threshold := by
        intro j
        rw [hcounts']
        split
        · rename_i hmem
          exact hless j hmem
        · exact hcounts j
      -- counting this pulse now or with the pulses before the one looked for
      have hshift : ∀ j entries, counts' j + pendingCount j entries =
          counts j + pendingCount j (e :: entries) := by
        intro j entries
        rw [hcounts', pendingCount_cons]
        omega
      simp only [ih hnext, hshift]
      constructor
      · rintro ⟨before, e', after, rfl, hfound⟩
        exact ⟨e :: before, e', after, rfl, hfound⟩
      · rintro ⟨before, e', after, hsplit, hbefore, hi, hmin⟩
        cases before with
        | nil =>
          obtain ⟨rfl, rfl⟩ := List.cons.inj hsplit
          have := hnext i
          have := hshift i []
          simp only [List.nil_append] at hi
          simp only [pendingCount, List.countP_nil] at this hi
          omega
        | cons e'' before =>
          obtain ⟨rfl, rfl⟩ := List.cons.inj hsplit
          exact ⟨before, e', after, rfl, hbefore, hi, hmin⟩

/-- The threshold a call of `markComplete` compares with: once in 3600 calls it is read
    anew. -/
def thresholdInForce (env : Env) (S : SMSControl) : Nat :=
  if Word32.add S.markCompleteCnt 1 % 3600 = 0 then env.intermittentDataThreshold
  else S.settings.intermittentDataThreshold

/-- `markComplete` takes `i` for intermittent, and can tell its data source. -/
structure Intermittent (env : Env) (S : SMSControl) (i : Fin 256) : Prop where
  threshold_pos : 0 < thresholdInForce env S
  threshold_lt : thresholdInForce env S < S.pulses.size
  sources : 1 < S.eventSources.card
  first : FirstPending (thresholdInForce env S) S.pulses.entries i
  index : S.eventSourcesIndex i ≠ word32Max ∧ S.eventSourcesIndex i < env.numDataSources

/-- The position `k` of the buffer is among those recorded when `i` is dropped: enough
    pulses follow it, and it is not behind the last pulse that waits for no other
    source. -/
def GoesWith (env : Env) (S : SMSControl) (i : Fin 256) (k : Nat) : Prop :=
  k + env.noEoPPulseBufferSize < S.pulses.size ∧
    ∃ q, k ≤ q ∧ ∃ hq : q < S.pulses.entries.length,
      S.pulses.entries[q].2.pulse.pending ⊆ {i}

section Drop

variable {cfg : Config} {env : Env}

private theorem intermittentSource_eq_some {S : SMSControl} {i : Fin 256} :
    intermittentSource S = some i ↔
      (0 < S.settings.intermittentDataThreshold ∧
        S.settings.intermittentDataThreshold < S.pulses.size ∧ 1 < S.eventSources.card) ∧
      FirstPending S.settings.intermittentDataThreshold S.pulses.entries i := by
  simp only [intermittentSource]
  split
  · rename_i h
    rw [findIntermittent_eq_some (fun _ => h.1)]
    simp only [Nat.zero_add, h, true_and, and_self]
    rfl
  · rename_i h
    simp only [h, false_and, reduceCtorEq]

private theorem Intermittent.source {S : SMSControl} {i : Fin 256} (h : Intermittent env S i) :
    intermittentSource (refreshThreshold env S) = some i :=
  intermittentSource_eq_some.mpr ⟨⟨h.threshold_pos, h.threshold_lt, h.sources⟩, h.first⟩

private theorem lt_releasedCount_releaseAll {S : SMSControl} {i : Fin 256} {k : Nat}
    (hsources : 1 < S.eventSources.card) :
    k < releasedCount env (releaseAll S i) ↔ GoesWith env S i k := by
  have hhold : heldBack env (releaseAll S i) = env.noEoPPulseBufferSize := if_pos hsources
  have hsize : (releaseAll S i).pulses.size = S.pulses.size := by
    simp only [releaseAll, SortedMap.size_mapVal]
  rw [lt_releasedCount, hhold, hsize]
  apply and_congr_right
  intro _
  apply exists_congr
  intro q
  apply and_congr_right
  intro _
  have hlength : (releaseAll S i).pulses.entries.length = S.pulses.entries.length := hsize
  constructor
  · rintro ⟨hq, hpending⟩
    apply Exists.intro (hlength ▸ hq)
    simp only [releaseAll, SortedMap.entries_mapVal, List.getElem_map,
      Pulse.pending_releasePartial, Finset.erase_eq_empty_iff] at hpending
    exact Finset.subset_singleton_iff.mpr hpending
  · rintro ⟨hq, hpending⟩
    apply Exists.intro (hlength.symm ▸ hq)
    simp only [releaseAll, SortedMap.entries_mapVal, List.getElem_map,
      Pulse.pending_releasePartial, Finset.erase_eq_empty_iff]
    exact Finset.subset_singleton_iff.mp hpending

/-- What the first part of `markComplete` takes from the buffer. -/
private theorem dropIntermittent_taken (cfg : Config) (env : Env) (S : SMSControl) :
    ∃ n, Taken S (dropIntermittent cfg env (refreshThreshold env S)) n ∧
      ∀ k, k < n ↔ ∃ i, Intermittent env S i ∧ GoesWith env S i k := by
  have hrefresh := refreshThreshold_sameBuffer env S
  by_cases hex : ∃ i, Intermittent env S i
  · obtain ⟨i, hi⟩ := hex
    -- a source to drop: all that is held back for it is released and recorded
    have hindex : indexValid env (refreshThreshold env S) i := decide_eq_true hi.index
    have hdrop : dropIntermittent cfg env (refreshThreshold env S) =
        freeIndex (recordReleased cfg env
          (releaseAll (markIntermittent (refreshThreshold env S) i) i)) i := by
      simp only [dropIntermittent, hi.source, hindex, if_true]
      rfl
    have htaken := ((hrefresh.trans (markIntermittent_sameBuffer _ i)).trans
      (releaseAll_sameBuffer _ i)).trans_taken (recordReleased_taken cfg env _)
    apply Exists.intro (releasedCount env (releaseAll S i))
    constructor
    · rw [hdrop]
      exact ⟨htaken.1, htaken.2, htaken.3, htaken.4, htaken.5, htaken.6⟩
    · intro k
      rw [lt_releasedCount_releaseAll hi.sources]
      constructor
      · exact fun hk => ⟨i, hi, hk⟩
      · rintro ⟨i', hi', hk⟩
        -- there is one such source at most
        have : i' = i := Option.some.inj (hi'.source.symm.trans hi.source)
        exact this ▸ hk
  -- no source to drop, or one that is no longer in the index
  · have hdrop : dropIntermittent cfg env (refreshThreshold env S) = refreshThreshold env S := by
      simp only [dropIntermittent]
      split
      · rfl
      · rename_i i hsource
        obtain ⟨⟨hpos, hlt, hcard⟩, hfirst⟩ := intermittentSource_eq_some.mp hsource
        split
        · rename_i hindex
          exact absurd ⟨i, hpos, hlt, hcard, hfirst, of_decide_eq_true hindex⟩ hex
        · rfl
    apply Exists.intro 0
    rw [hdrop]
    apply And.intro hrefresh.taken
    intro k
    constructor
    · exact fun hk => absurd hk (Nat.not_lt_zero k)
    · rintro ⟨i, hi, -⟩
      exact absurd ⟨i, hi⟩ hex

/-! ### The second part of `markComplete` -/

private theorem completeCurrent_taken (cfg : Config) (env : Env) (S : SMSControl)
    (current : PulseIdentifier) (smsId : Option (Fin 256)) :
    ∃ n, Taken S (completeCurrent cfg env S current smsId) n := by
  have hcomplete := completeFor_sameBuffer S current smsId
  simp only [completeCurrent]
  split
  · exact ⟨0, hcomplete.taken⟩
  · simp only [recordCompleted]
    have htake := SameBuffer.ite ((completeFor S current smsId).markCompleteCnt % 600 = 0)
      (takeNoEoP_sameBuffer env (completeFor S current smsId))
    split
    · exact ⟨0, (hcomplete.trans htake).taken⟩
    · exact ⟨_, ((hcomplete.trans htake).trans
        (.ite _ (takeCorrections_sameBuffer env _))).trans_taken (recordPrefix_taken cfg env _ _)⟩

/-- What the lookup does to the pulses created: nothing, or it creates its own. -/
private theorem lookup_created {S S' : SMSControl} {pid k : PulseIdentifier} {n : Node}
    (h : lookup cfg env S pid = some (S', k, n)) :
    S'.history.created = S.history.created ∨
      (S.pulses.find? pid = none ∧ pid ≠ S.lastPid ∧ S' = createPulse cfg env S pid) := by
  obtain ⟨rfl, -, -⟩ := lookup_eq_some h
  unfold getPulse
  split
  · exact .inl rfl
  · rename_i hlast
    split
    · exact .inl rfl
    · rename_i hfresh
      exact .inr ⟨hfresh, hlast, rfl⟩

private theorem createPulse_created (cfg : Config) (env : Env) (S : SMSControl) (pid : PulseIdentifier) :
    (createPulse cfg env S pid).history.created = S.history.created ++ [pid] ∧
      recordedPulses S ⊆ recordedPulses (createPulse cfg env S pid) := by
  obtain ⟨S₁, p, hflush, hcreate, -⟩ := createPulse_eq cfg env S pid
  rw [hcreate]
  show S₁.history.created ++ [pid] = _ ∧ recordedPulses S ⊆ recordedPulses S₁
  cases hflush with
  | kept h =>
    rw [h.created, recordedPulses, recordedPulses, h.recordings]
    exact ⟨rfl, fun _ h => h⟩
  | recorded T n h hrec =>
    rw [hrec.created, h.created, hrec.moved.2, recordedPulses, recordedPulses, h.recordings]
    exact ⟨rfl, List.subset_append_left _ _⟩

/-! ### Recorded and created again -/

/-- A call of `markComplete` from `S` to `S'` records a buffered pulse under its own
    identifier, and creates another one under the same identifier. -/
def RecordsThenRecreates (S S' : SMSControl) (pid : PulseIdentifier) : Prop :=
  (∃ e ∈ bufferedPulses S, e.1 = pid ∧ e ∈ recordedPulses S') ∧
    pid ∈ S'.history.created.drop S.history.created.length

instance (S S' : SMSControl) (pid : PulseIdentifier) :
    Decidable (RecordsThenRecreates S S' pid) :=
  inferInstanceAs (Decidable (_ ∧ _))

/-- The pulse `pid` is buffered, and goes with an intermittent source. -/
def OwnPulseDropped (env : Env) (S : SMSControl) (pid : PulseIdentifier) : Prop :=
  pid ≠ invalidPid ∧ ∃ i k, Intermittent env S i ∧ GoesWith env S i k ∧
    ∃ hk : k < S.pulses.entries.length, S.pulses.entries[k].1 = pid

/-- No identifier is above `(-1, -1)`. -/
private theorem le_invalidPid (pid : PulseIdentifier) : pid ≤ invalidPid := by
  rw [Prod.Lex.le_iff]
  by_cases hid : (ofLex pid).1 = 0xffffffffffffffff
  · exact .inr ⟨hid, UInt32.le_iff_toNat_le.mpr (Nat.le_of_lt_succ (UInt32.toNat_lt _))⟩
  · left
    apply lt_of_le_of_ne _ hid
    exact UInt64.le_iff_toNat_le.mpr (Nat.le_of_lt_succ (UInt64.toNat_lt _))

private theorem Taken.keys_eq {S D : SMSControl} {n : Nat} (h : Taken S D n) :
    D.pulses.keys = S.pulses.keys.drop n := by
  have := congrArg (List.map Prod.fst) h.buffered
  rw [bufferedPulses, bufferedPulses, List.map_drop, List.map_map, List.map_map] at this
  exact this

private theorem mem_take_keys {S : SMSControl} {n k : Nat} (hk : k < n)
    (hlt : k < S.pulses.entries.length) : S.pulses.entries[k].1 ∈ S.pulses.keys.take n := by
  rw [List.mem_take_iff_getElem]
  have hlength : S.pulses.keys.length = S.pulses.entries.length := List.length_map ..
  exact ⟨k, by omega, by simp [SortedMap.keys]⟩

/-- The pulses taken come before all that are left. -/
private theorem Taken.lt_of_mem_keys {S D : SMSControl} {n k : Nat} (h : Taken S D n) (hk : k < n)
    (hlt : k < S.pulses.entries.length) {pid : PulseIdentifier} (hpid : pid ∈ D.pulses.keys) :
    S.pulses.entries[k].1 < pid := by
  have hsorted := S.pulses.keys_sorted
  rw [← List.take_append_drop n S.pulses.keys, List.pairwise_append] at hsorted
  exact hsorted.2.2 _ (mem_take_keys hk hlt) _ (h.keys_eq ▸ hpid)

/-- A buffered pulse that is not left was taken. -/
private theorem Taken.lt_of_not_mem {S D : SMSControl} {n k : Nat} (h : Taken S D n)
    (hlt : k < S.pulses.entries.length) (hnot : S.pulses.entries[k].1 ∉ D.pulses.keys) : k < n := by
  by_contra hge
  apply hnot
  rw [h.keys_eq, List.mem_drop_iff_getElem]
  have hlength : S.pulses.keys.length = S.pulses.entries.length := List.length_map ..
  refine ⟨k - n, by omega, ?_⟩
  have hk : n + (k - n) = k := by omega
  simp only [SortedMap.keys, List.getElem_map, hk]

/-- The lookup of a pulse that was taken creates it anew. -/
private theorem Taken.lookup_eq {S D S₁ : SMSControl} {n k : Nat} (h : Taken S D n) (hk : k < n)
    (hlt : k < S.pulses.entries.length) (hvalid : S.pulses.entries[k].1 ≠ invalidPid)
    {current : PulseIdentifier} {m : Node}
    (hlookup : lookup cfg env D S.pulses.entries[k].1 = some (S₁, current, m)) :
    S₁ = createPulse cfg env D S.pulses.entries[k].1 := by
  have hfresh : D.pulses.find? S.pulses.entries[k].1 = none := by
    rw [SortedMap.find?_eq_none]
    exact fun hmem => absurd (h.lt_of_mem_keys hk hlt hmem) (lt_irrefl _)
  have hlast : S.pulses.entries[k].1 ≠ D.lastPid := by
    rw [h.lastPid]
    split
    · exact hvalid
    · -- the cached pulse was not taken
      rename_i hnot
      intro heq
      exact hnot (heq ▸ mem_take_keys hk hlt)
  obtain ⟨rfl, -, -⟩ := lookup_eq_some hlookup
  simp only [getPulse, if_neg hlast, hfresh]

/-- The pulse of a call of `markComplete` goes with an intermittent source and is
    created anew, or neither. -/
theorem recordsThenRecreates_iff {S S' : SMSControl} {pulseId : UInt64} {dup : UInt32}
    {smsId : Option (Fin 256)} (hS : Conserved S)
    (hcache : S.history.created ≠ [] → SoundCache S)
    (h : markComplete cfg env S pulseId dup smsId = some S') :
    RecordsThenRecreates S S' (.mk pulseId dup) ↔ OwnPulseDropped env S (.mk pulseId dup) := by
  simp only [markComplete, Option.map_eq_some_iff] at h
  obtain ⟨⟨S₁, current, m⟩, hlookup, rfl⟩ := h
  generalize PulseIdentifier.mk pulseId dup = pid at hlookup ⊢
  obtain ⟨n, hdrop, hn⟩ := dropIntermittent_taken cfg env S
  obtain ⟨n', hcomplete⟩ := completeCurrent_taken cfg env S₁ current smsId
  have hcached : S.history.created ≠ [] →
      SoundCache (dropIntermittent cfg env (refreshThreshold env S)) := fun hne =>
    Moves.preserves SoundCache.move ((refreshThreshold_moves S).trans (dropIntermittent_moves _))
      (hcache hne)
  generalize dropIntermittent cfg env (refreshThreshold env S) = D at hlookup hdrop hcached
  constructor
  · rintro ⟨⟨_, hbuffered, rfl, -⟩, hnew⟩
    rw [hcomplete.created] at hnew
    rcases lookup_created hlookup with hsame | ⟨hfresh, hlast, rfl⟩
    · rw [hsame, hdrop.created, List.drop_length] at hnew
      exact absurd hnew List.not_mem_nil
    · -- the lookup did not find the pulse: it is one of those taken
      obtain ⟨e, he, rfl⟩ := List.mem_map.mp hbuffered
      obtain ⟨k, hlt, rfl⟩ := List.getElem_of_mem he
      have hkn := hdrop.lt_of_not_mem hlt (SortedMap.find?_eq_none.mp hfresh)
      obtain ⟨i, hi, hgoes⟩ := (hn k).mp hkn
      apply And.intro _ ⟨i, k, hi, hgoes, hlt, rfl⟩
      -- the cached pulse is left in the buffer, so it comes after this one
      intro hinvalid
      have hcreated : S.history.created ≠ [] := by
        have := hS.created_serial (SortedMap.find?_eq_some.mpr he)
        intro hnil
        rw [hnil] at this
        cases this
      obtain ⟨n, hfind, -⟩ := (hcached hcreated).cached (fun heq => hlast (hinvalid.trans heq.symm))
      have hmem := SortedMap.mem_keys.mpr ⟨n, SortedMap.find?_eq_some.mp hfind⟩
      have hlater : invalidPid < D.lastPid := hinvalid ▸ hdrop.lt_of_mem_keys hkn hlt hmem
      exact absurd (le_invalidPid _) (not_le_of_gt hlater)
  · rintro ⟨hpid, i, k, hi, hgoes, hlt, rfl⟩
    have hkn := (hn k).mpr ⟨i, hi, hgoes⟩
    obtain rfl := hdrop.lookup_eq hkn hlt hpid hlookup
    obtain ⟨hcreated, hrecorded⟩ := createPulse_created cfg env D S.pulses.entries[k].1
    constructor
    · refine ⟨ident S.pulses.entries[k], List.mem_map_of_mem (List.getElem_mem hlt), rfl, ?_⟩
      rw [hcomplete.recorded]
      apply List.mem_append_left
      apply hrecorded
      rw [hdrop.recorded]
      apply List.mem_append_right
      rw [List.mem_take_iff_getElem]
      have hlength : (bufferedPulses S).length = S.pulses.entries.length := List.length_map ..
      exact ⟨k, by omega, by simp [bufferedPulses]⟩
    · rw [hcomplete.created, hcreated, hdrop.created, List.drop_left]
      exact List.mem_singleton_self _

end Drop

/-! ### The main result -/

/-- From the first pulse on the cache is sound, also in the middle of an operation. -/
private theorem soundCache_of_moves {cfg : Config} {settings : Settings} {noRTDLPulses : Bool}
    {memory : Fin 256 → Nat} {S : SMSControl}
    (h : Moves cfg (initial settings noRTDLPulses memory) S) (hne : S.history.created ≠ []) :
    SoundCache S := by
  induction h with
  | refl => exact absurd rfl hne
  | @tail S S' _ hmove ih =>
    by_cases hcreated : S.history.created = []
    · -- this move creates the first pulse
      cases hmove with
      | data h => exact absurd (h.created.trans hcreated) hne
      | record env n => exact absurd hcreated hne
      | create env pid hfresh => exact createPulse_soundCache cfg env hfresh
      | hit pid n hfound => exact absurd hcreated hne
      | pop pulseIndex =>
        rcases popPulseBuffer_cases S pulseIndex with h | ⟨i, hi, h⟩
        · rw [h] at hne
          exact absurd hcreated hne
        · rw [h] at hne
          exact absurd hcreated hne
      | register srcId i hreg =>
        unfold registerEventSource at hreg
        split at hreg
        · cases hreg
        · cases hreg
          exact absurd hcreated hne
      | free i hreleased => exact absurd hcreated hne
    · exact (ih hcreated).move hmove

/-- In every state of a run, also in the middle of an operation, every pulse created is
    buffered, recorded once or dropped, and every recording step has taken a prefix of
    the buffer in order.  A call of `markComplete` there records its own pulse and creates
    it again exactly when the pulse goes with an intermittent source. -/
theorem ledger_of_run (cfg : Config) (settings : Settings) (noRTDLPulses : Bool)
    (memory : Fin 256 → Nat) (ops : List (Env × Op)) (S₀ S : SMSControl)
    (h : Runs.run (step cfg) (initial settings noRTDLPulses memory) ops = some S₀)
    (hmoves : Moves cfg S₀ S) :
    Conserved S ∧ InOrder S ∧
      ∀ env pulseId dup smsId S', S.markComplete cfg env pulseId dup smsId = some S' →
        (¬ RecordsThenRecreates S S' (.mk pulseId dup) ↔
          ¬ OwnPulseDropped env S (.mk pulseId dup)) := by
  have hconserved := hmoves.preserves Conserved.move (conserved_run h)
  apply And.intro hconserved
  apply And.intro (hmoves.preserves InOrder.move (inOrder_run h))
  intro env pulseId dup smsId S' hstep
  apply not_congr
  exact recordsThenRecreates_iff hconserved
    (soundCache_of_moves ((run_moves h).trans hmoves)) hstep

/-- Two pulses are created while one source is registered, then a second source
    registers. -/
def smallOps : List (Env × Op) :=
  [(smallEnv, .registerEventSource firstSource), (smallEnv, .getPulse (.mk 3 0)),
    (smallEnv, .getPulse (.mk 5 0)), (smallEnv, .registerEventSource ⟨2, by decide⟩)]

/-- After that run every pulse created is buffered. -/
theorem ledger_of_run_small :
    ∃ S, Runs.run (step smallConfig) (initial smallSettings false fun _ => word32Max) smallOps =
        some S ∧
      Conserved S ∧ InOrder S := by
  have hrun : (Runs.run (step smallConfig) (initial smallSettings false fun _ => word32Max)
      smallOps).isSome := by decide
  obtain ⟨S, hS⟩ := Option.isSome_iff_exists.mp hrun
  have hledger := ledger_of_run smallConfig smallSettings false (fun _ => word32Max) smallOps S S
    hS .refl
  exact ⟨S, hS, hledger.1, hledger.2.1⟩

/-- The second source completes the first pulse.  That drops the first source, records
    both pulses, and creates the first pulse again. -/
theorem markComplete_recreates :
    ∃ S S', Runs.run (step smallConfig) (initial smallSettings false fun _ => word32Max) smallOps =
        some S ∧
      S.markComplete smallConfig smallEnv 3 0 (some 1) = some S' ∧
      RecordsThenRecreates S S' (.mk 3 0) := by
  have hrun : ((Runs.run (step smallConfig) (initial smallSettings false fun _ => word32Max)
      smallOps).bind fun S => (S.markComplete smallConfig smallEnv 3 0 (some 1)).map fun S' =>
        decide (RecordsThenRecreates S S' (.mk 3 0))) = some true := by
    decide
  obtain ⟨S, hS, hmark⟩ := Option.bind_eq_some_iff.mp hrun
  obtain ⟨S', hS', hdec⟩ := Option.map_eq_some_iff.mp hmark
  exact ⟨S, S', hS, hS', of_decide_eq_true hdec⟩

end Adara.Spec.PulseBuffer
