import Adara.Spec.PulseLedger

/-! # The iterator cache of the pulse buffer

`getPulse` keeps the identifier it looked up last and an iterator to its entry.  The
cache is sound when the identifier is the sentinel `(-1, -1)` or its entry is buffered
and the iterator leads to it.  Every move keeps a sound cache sound, and creating a
pulse makes it sound (`SoundCache.move`, `createPulse_soundCache`).  The constructor
means to set the sentinel but declares a local variable instead, so that the cache
starts out as the identifier `(0, 0)` with no iterator: until a pulse with another
identifier has been looked up it is not sound. -/

namespace Adara.Spec.PulseBuffer

open Adara.Native Adara.Native.SMSControl

/-- The iterator leads to the entry of `pid`, the one a lookup in the map finds. -/
def Designates (S : SMSControl) (it : Option Nat) (pid : PulseIdentifier) : Prop :=
  ∃ n, S.pulses.find? pid = some n ∧ S.deref it = some (pid, n)

/-- The cached identifier is the sentinel, or the cached iterator leads to its entry. -/
def CacheSound (S : SMSControl) : Prop :=
  S.lastPid ≠ invalidPid → Designates S S.lastPulseIt S.lastPid

/-- Where the fast path of `getPulse` applies, it returns the entry a lookup in the map
    finds. -/
def FastPathSound (cfg : Config) (S : SMSControl) : Prop :=
  ∀ env pid, pid ≠ invalidPid → pid = S.lastPid →
    Designates S (getPulse cfg env S pid).2 pid

theorem fastPathSound_of_cacheSound (cfg : Config) {S : SMSControl} (h : CacheSound S) :
    FastPathSound cfg S := by
  intro env pid hpid hlast
  simp only [getPulse, if_pos hlast]
  subst hlast
  exact h hpid

/-! ### The invariant -/

/-- A sound cache in a buffer in which a pulse was created. -/
structure SoundCache (S : SMSControl) : Prop where
  created : S.history.created ≠ []
  cached : S.lastPid ≠ invalidPid →
    ∃ n, S.pulses.find? S.lastPid = some n ∧ S.lastPulseIt = some n.serial

theorem SoundCache.cacheSound {S : SMSControl} (h : SoundCache S) (hS : Conserved S) :
    CacheSound S := by
  intro hlast
  obtain ⟨n, hfind, hit⟩ := h.cached hlast
  exact ⟨n, hfind, hit ▸ hS.deref_eq hfind⟩

/-- The first entries leave the map, and the cached entry is not one of them. -/
private theorem find?_drop {m : PulseMap} {k : PulseIdentifier} {n : Nat} {v : Node}
    (h : m.find? k = some v) (hk : k ∉ (m.entries.take n).map Prod.fst) :
    (m.drop n).find? k = some v := by
  rw [SortedMap.find?_eq_some] at h ⊢
  rw [← List.take_append_drop n m.entries, List.mem_append] at h
  exact h.resolve_left fun hmem => hk (List.mem_map_of_mem hmem)

/-- Another entry leaves the map. -/
private theorem find?_eraseIdx {m : PulseMap} {k : PulseIdentifier} {i : Nat} {v : Node}
    (hi : i < m.entries.length) (h : m.find? k = some v) (hk : m.entries[i].1 ≠ k) :
    (m.eraseIdx i).find? k = some v := by
  rw [SortedMap.find?_eq_some] at h ⊢
  rw [← (List.getElem_cons_eraseIdx_perm hi).mem_iff, List.mem_cons] at h
  apply h.resolve_left
  intro heq
  exact hk (heq ▸ rfl)

/-- Changing the data of pulses keeps the numbers of the nodes. -/
private theorem SameBuffer.find?_serial {S S' : SMSControl} (h : SameBuffer S S')
    {k : PulseIdentifier} {n : Node} (hn : S.pulses.find? k = some n) :
    ∃ n', S'.pulses.find? k = some n' ∧ n'.serial = n.serial := by
  obtain ⟨f, hf, hserial, -⟩ := h.pulses
  apply Exists.intro (f k n)
  apply And.intro _ (hserial k n)
  rw [SortedMap.find?_eq_some] at hn ⊢
  rw [hf, SortedMap.entries_mapVal]
  exact List.mem_map_of_mem hn

/-- A new pulse is the cached one. -/
theorem createPulse_soundCache (cfg : Config) (env : Env) {S : SMSControl}
    {pid : PulseIdentifier} (hfresh : S.pulses.find? pid = none) :
    SoundCache (createPulse cfg env S pid) := by
  obtain ⟨S₁, p, hflush, hcreate, -⟩ := createPulse_eq cfg env S pid
  rw [hcreate]
  constructor
  · simp [insertPulse]
  · intro _
    exact ⟨_, SortedMap.find?_insert_self _ (hflush.fresh hfresh), rfl⟩

/-- Every move keeps a sound cache sound. -/
theorem SoundCache.move {cfg : Config} {S S' : SMSControl} (h : Move cfg S S')
    (hS : SoundCache S) : SoundCache S' := by
  cases h with
  | data h =>
    constructor
    · exact h.created ▸ hS.created
    · intro hlast
      rw [h.lastPid] at hlast ⊢
      obtain ⟨n, hfind, hit⟩ := hS.cached hlast
      obtain ⟨n', hfind', hserial⟩ := h.find?_serial hfind
      exact ⟨n', hfind', by rw [h.lastPulseIt, hit, hserial]⟩
  | record env n =>
    have hrec := recordPrefix_recorded cfg env false n S
    have hpid := recordPrefix_lastPid cfg env n S
    constructor
    · exact hrec.created ▸ hS.created
    · -- the cache is reset when its entry is among the first `n`
      intro hlast
      by_cases hmem : S.lastPid ∈ (S.pulses.entries.take n).map Prod.fst
      · exact absurd (by rw [hpid, if_pos hmem]) hlast
      · rw [if_neg hmem] at hpid
        rw [hpid] at hlast ⊢
        obtain ⟨m, hfind, hit⟩ := hS.cached hlast
        exact ⟨m, hrec.pulses ▸ find?_drop hfind hmem, by rw [hrec.lastPulseIt, hit]⟩
  | create env pid hfresh => exact createPulse_soundCache cfg env hfresh
  | hit pid n hfound => exact ⟨hS.created, fun _ => ⟨n, hfound, rfl⟩⟩
  | pop pulseIndex =>
    rcases popPulseBuffer_cases S pulseIndex with h | ⟨i, hi, h⟩
    · rwa [h]
    · rw [h]
      constructor
      · exact hS.created
      intro hlast
      by_cases hkey : S.pulses.entries[i].1 = S.lastPid
      · exact absurd (if_pos hkey) hlast
      · simp only [if_neg hkey] at hlast ⊢
        obtain ⟨m, hfind, hit⟩ := hS.cached hlast
        exact ⟨m, find?_eraseIdx hi hfind hkey, hit⟩
  | register srcId i hreg =>
    unfold registerEventSource at hreg
    split at hreg
    · cases hreg
    · cases hreg
      exact ⟨hS.created, hS.cached⟩
  | free i hreleased => exact ⟨hS.created, hS.cached⟩

/-! ### Before the first pulse -/

/-- The state before any pulse: the cache is as the constructor leaves it. -/
structure Unused (S : SMSControl) : Prop where
  pulses : S.pulses = .empty
  created : S.history.created = []
  lastPid : S.lastPid = .mk 0 0
  lastPulseIt : S.lastPulseIt = none

/-- The cache the constructor leaves is not sound. -/
theorem Unused.not_cacheSound {S : SMSControl} (hS : Unused S) : ¬ CacheSound S := by
  intro h
  obtain ⟨n, hfind, -⟩ := h (by rw [hS.lastPid]; decide)
  rw [hS.pulses, SortedMap.find?_empty] at hfind
  cases hfind

/-- The identifier an operation looks up. -/
def Op.lookedUp : Op → Option PulseIdentifier
  | .getPulse pid => some pid
  | .pulseEvents pkt _ dup _ _ => some (.mk pkt.pulseId dup)
  | .pulseRTDL pkt dup => some (.mk pkt.pulseId dup)
  | .markPartial pulseId dup => some (.mk pulseId dup)
  | .markComplete pulseId dup _ => some (.mk pulseId dup)
  | .registerEventSource _ | .unregisterEventSource _ | .popPulseBuffer _ => none

/-- A run looks up a pulse other than the one the constructor leaves in the cache. -/
def LooksUpPulse (ops : List (Env × Op)) : Prop :=
  ∃ op ∈ ops, ∃ pid, op.2.lookedUp = some pid ∧ pid ≠ .mk 0 0

section Unused

variable {cfg : Config} {env : Env}

theorem Unused.deref {S : SMSControl} (hS : Unused S) (it : Option Nat) : S.deref it = none := by
  cases it with
  | none => rfl
  | some n =>
    show S.pulses.entries.find? _ = none
    rw [hS.pulses]
    rfl

/-- In an unused buffer only the lookup of another identifier than the cached one
    leads to a pulse. -/
theorem Unused.getPulse (cfg : Config) (env : Env) {S : SMSControl} (hS : Unused S) (pid : PulseIdentifier) :
    (pid = .mk 0 0 ∧ getPulse cfg env S pid = (S, none)) ∨
      (pid ≠ .mk 0 0 ∧ SoundCache (getPulse cfg env S pid).1) := by
  have hfresh : S.pulses.find? pid = none := by rw [hS.pulses, SortedMap.find?_empty]
  by_cases hpid : pid = .mk 0 0
  · left
    apply And.intro hpid
    simp only [SMSControl.getPulse, hS.lastPid, if_pos hpid, hS.lastPulseIt]
  · right
    apply And.intro hpid
    simp only [SMSControl.getPulse, hS.lastPid, if_neg hpid, hfresh]
    exact createPulse_soundCache cfg env hfresh

/-- A lookup that leads to a pulse makes the cache sound. -/
theorem Unused.lookupThenMoves {S S' : SMSControl} {pid : PulseIdentifier} (hS : Unused S)
    (h : LookupThenMoves cfg env S pid S') : pid ≠ .mk 0 0 ∧ SoundCache S' := by
  obtain ⟨S₁, k, n, hlookup, hmoves⟩ := h
  obtain ⟨hget, hderef, -⟩ := lookup_eq_some hlookup
  rcases hS.getPulse cfg env pid with ⟨-, heq⟩ | ⟨hpid, hsound⟩
  · rw [heq] at hget hderef
    cases hget
    rw [hS.deref] at hderef
    cases hderef
  · exact ⟨hpid, hmoves.preserves SoundCache.move (hget ▸ hsound)⟩

/-- Nothing to record, and nothing to release. -/
theorem Unused.unregister {S : SMSControl} (hS : Unused S) (smsId : Option (Fin 256)) :
    Unused (unregisterEventSource cfg env S smsId) := by
  cases smsId with
  | none => exact hS
  | some i =>
    have hempty : (releaseAll S i).pulses = .empty := by
      simp only [releaseAll, hS.pulses]
      rfl
    have hrec : recordReleased cfg env (releaseAll S i) = releaseAll S i := by
      simp only [recordReleased, hempty]
      rfl
    show Unused (freeIndex (recordReleased cfg env (releaseAll S i)) i)
    rw [hrec]
    exact ⟨hempty, hS.created, hS.lastPid, hS.lastPulseIt⟩

/-- `markComplete` identifies no intermittent source in an empty buffer. -/
theorem Unused.dropIntermittent {S : SMSControl} (hS : Unused S) :
    dropIntermittent cfg env S = S := by
  have : intermittentSource S = none := by
    simp only [intermittentSource, hS.pulses]
    split
    · rename_i h
      exact absurd h.2.1 (Nat.not_lt_zero _)
    · rfl
  simp only [SMSControl.dropIntermittent, this]

/-- One operation on an unused buffer: it stays unused, or the operation looked up a
    pulse and the cache is sound from then on. -/
theorem Unused.step {S S' : SMSControl} {op : Op} (hS : Unused S)
    (h : step cfg S (env, op) = some S') :
    (Unused S' ∧ ∀ pid, op.lookedUp = some pid → pid = .mk 0 0) ∨
      (SoundCache S' ∧ ∃ pid, op.lookedUp = some pid ∧ pid ≠ .mk 0 0) := by
  -- only an operation that looks a pulse up takes the buffer into use
  cases op with
  | registerEventSource srcId =>
    left
    apply And.intro _ (fun pid h => absurd h.symm (Option.some_ne_none pid))
    simp only [PulseBuffer.step] at h
    split at h
    · cases h
      exact hS
    · rename_i hreg
      cases h
      unfold registerEventSource at hreg
      split at hreg
      · cases hreg
      · cases hreg
        exact ⟨hS.pulses, hS.created, hS.lastPid, hS.lastPulseIt⟩
  | unregisterEventSource smsId =>
    cases h
    exact .inl ⟨hS.unregister smsId, fun pid h => absurd h.symm (Option.some_ne_none pid)⟩
  | getPulse pid =>
    cases h
    rcases hS.getPulse cfg env pid with ⟨hpid, heq⟩ | ⟨hpid, hsound⟩
    · left
      rw [heq]
      exact ⟨hS, fun _ h => Option.some.inj h ▸ hpid⟩
    · exact .inr ⟨hsound, pid, rfl, hpid⟩
  | pulseEvents pkt hwId dup isMapped mixed =>
    simp only [PulseBuffer.step, Option.map_eq_some_iff] at h
    obtain ⟨r, hr, rfl⟩ := h
    obtain ⟨hpid, hsound⟩ := hS.lookupThenMoves (pulseEvents_lookup hr)
    exact .inr ⟨hsound, _, rfl, hpid⟩
  | pulseRTDL pkt dup =>
    obtain ⟨hpid, hsound⟩ := hS.lookupThenMoves (pulseRTDL_lookup h)
    exact .inr ⟨hsound, _, rfl, hpid⟩
  | markPartial pulseId dup =>
    obtain ⟨hpid, hsound⟩ := hS.lookupThenMoves (markPartial_lookup h)
    exact .inr ⟨hsound, _, rfl, hpid⟩
  | markComplete pulseId dup smsId =>
    -- the threshold is taken anew first, and an empty buffer has nothing to drop
    have hunused : Unused (refreshThreshold env S) :=
      ⟨hS.pulses, hS.created, hS.lastPid, hS.lastPulseIt⟩
    have hlookup := markComplete_lookup h
    rw [hunused.dropIntermittent] at hlookup
    obtain ⟨hpid, hsound⟩ := hunused.lookupThenMoves hlookup
    exact .inr ⟨hsound, _, rfl, hpid⟩
  | popPulseBuffer pulseIndex =>
    cases h
    left
    apply And.intro _ (fun pid h => absurd h.symm (Option.some_ne_none pid))
    -- there is nothing to pop
    have : S.popPulseBuffer pulseIndex = S := by
      simp only [popPulseBuffer, popPosition, hS.pulses]
      rfl
    rwa [this]

/-- The cache stays as the constructor left it until a run looks up a pulse. -/
theorem unused_or_soundCache {S S' : SMSControl} {ops : List (Env × Op)} (hS : Unused S)
    (h : Runs.run (PulseBuffer.step cfg) S ops = some S') :
    (Unused S' ∧ ¬ LooksUpPulse ops) ∨ (SoundCache S' ∧ LooksUpPulse ops) := by
  induction ops generalizing S with
  | nil =>
    cases h
    exact .inl ⟨hS, fun ⟨_, hop, _⟩ => absurd hop List.not_mem_nil⟩
  | cons op ops ih =>
    obtain ⟨T, hT, hrest⟩ := Runs.run_cons h
    rcases hS.step hT with ⟨hunused, hnone⟩ | ⟨hsound, pid, hpid, hne⟩
    · rcases ih hunused hrest with ⟨hS', hops⟩ | ⟨hS', op', hmem, hlook⟩
      · left
        apply And.intro hS'
        rintro ⟨op', hmem, pid, hpid, hne⟩
        rcases List.mem_cons.mp hmem with rfl | hmem
        · exact hne (hnone pid hpid)
        · exact hops ⟨op', hmem, pid, hpid, hne⟩
      · exact .inr ⟨hS', op', List.mem_cons_of_mem _ hmem, hlook⟩
    · -- from here on the cache is sound, whatever the run does
      right
      apply And.intro (invariant_of_moves SoundCache.move hrest hsound)
      exact ⟨op, List.mem_cons_self .., pid, hpid, hne⟩

end Unused

/-! ### The main result -/

/-- The cache is sound, and with it the fast path of `getPulse`, in exactly the states
    reached by runs that have looked up a pulse with another identifier than the `(0, 0)`
    the constructor leaves in the cache. -/
theorem cacheSound_iff (cfg : Config) (settings : Settings) (noRTDLPulses : Bool)
    (memory : Fin 256 → Nat) (ops : List (Env × Op)) (S : SMSControl)
    (h : Runs.run (step cfg) (initial settings noRTDLPulses memory) ops = some S) :
    (CacheSound S ∧ FastPathSound cfg S) ↔ LooksUpPulse ops := by
  have hinit : Unused (initial settings noRTDLPulses memory) := ⟨rfl, rfl, rfl, rfl⟩
  rcases unused_or_soundCache hinit h with ⟨hunused, hops⟩ | ⟨hsound, hops⟩
  · exact iff_of_false (fun hcache => hunused.not_cacheSound hcache.1) hops
  · have hcache := hsound.cacheSound (conserved_run h)
    exact iff_of_true ⟨hcache, fastPathSound_of_cacheSound cfg hcache⟩ hops

/-- With the identifier `(1, 0)` looked up first, the cache is sound. -/
theorem cacheSound_iff_small :
    let S := (getPulse smallConfig smallEnv (initial smallSettings false fun _ => word32Max)
      (.mk 1 0)).1
    CacheSound S ∧ FastPathSound smallConfig S :=
  (cacheSound_iff smallConfig smallSettings false (fun _ => word32Max)
    [(smallEnv, .getPulse (.mk 1 0))] _ rfl).mpr
    ⟨_, List.mem_singleton_self _, .mk 1 0, rfl, by decide⟩

/-- The first lookup of the identifier `(0, 0)` takes the fast path to an iterator that
    was never set. -/
theorem not_cacheSound_of_constructor :
    ¬ ∀ (cfg : Config) (settings : Settings) (noRTDLPulses : Bool) (memory : Fin 256 → Nat)
      (ops : List (Env × Op)) (S : SMSControl),
      Runs.run (step cfg) (initial settings noRTDLPulses memory) ops = some S →
      CacheSound S ∧ FastPathSound cfg S := by
  intro h
  have hinit : Unused (initial smallSettings false fun _ => word32Max) := ⟨rfl, rfl, rfl, rfl⟩
  apply hinit.not_cacheSound
  exact (h smallConfig smallSettings false (fun _ => word32Max)
    [(smallEnv, .getPulse (.mk 0 0))] _ rfl).1

end Adara.Spec.PulseBuffer
