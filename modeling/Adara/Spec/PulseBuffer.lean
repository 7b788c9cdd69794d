import Adara.ForStd.Runs
import Adara.Native.PulseBuffer
import Mathlib.Logic.Relation

/-! # Runs of the pulse buffer

The operations on the SMS pulse buffer as steps of a system, and what a step can do.
Every operation is a sequence of a few elementary moves (`Move`): it changes data of
pulses, records a prefix of the buffer, creates a pulse, moves the iterator cache,
drops a pulse, or registers or frees a source index.  An invariant is proved for the
moves and holds along every run (`invariant_of_moves`). -/

namespace Adara.Spec.PulseBuffer

open Adara.Native Adara.Native.SMSControl

/-! ### Operations -/

/-- A source id as the SMS hands them out: `m_nextSrcId` starts at 1. -/
abbrev SrcId := { n : Nat // 0 < n ∧ n < 2 ^ 32 }

inductive Op where
  | registerEventSource (srcId : SrcId)
  | unregisterEventSource (smsId : Option (Fin 256))
  | getPulse (pid : PulseIdentifier)
  | pulseEvents (pkt : RawDataPkt) (hwId : UInt32) (dup : UInt32) (isMapped mixedDataPackets : Bool)
  | pulseRTDL (pkt : RTDLPkt) (dup : UInt32)
  | markPartial (pulseId : UInt64) (dup : UInt32)
  | markComplete (pulseId : UInt64) (dup : UInt32) (smsId : Option (Fin 256))
  | popPulseBuffer (pulseIndex : Int)

/-- One operation, with what it reads from outside.  A registration that throws leaves
    the state as it is. -/
def step (cfg : Config) (S : SMSControl) : Env × Op → Option SMSControl
  | (_, .registerEventSource srcId) =>
    match S.registerEventSource srcId with
    | .error _ => some S
    | .ok (S', _) => some S'
  | (env, .unregisterEventSource smsId) => some (S.unregisterEventSource cfg env smsId)
  | (env, .getPulse pid) => some (S.getPulse cfg env pid).1
  | (env, .pulseEvents pkt hwId dup isMapped mixed) =>
    (S.pulseEvents cfg env pkt hwId dup isMapped mixed).map Prod.fst
  | (env, .pulseRTDL pkt dup) => S.pulseRTDL cfg env pkt dup
  | (env, .markPartial pulseId dup) => S.markPartial cfg env pulseId dup
  | (env, .markComplete pulseId dup smsId) => S.markComplete cfg env pulseId dup smsId
  | (_, .popPulseBuffer pulseIndex) => some (S.popPulseBuffer pulseIndex)

/-! ### A small instance

One bank, one data source, every limit small: the values the runs on concrete inputs
below start from. -/

def firstSource : SrcId := ⟨1, by decide⟩

theorem one_numBanks_le : 1 ≤ 0xfffe := by decide

def smallConfig : Config where
  pixelMap :=
    { table := [(0, 0)], banks := [0], numBanks := 1, numBanks_pos := Nat.one_pos
      numBanks_le := one_numBanks_le, table_lt := by decide, banks_lt := by decide }
  targetVetoMask := 0
  interPulseTimeMin := 0
  interPulseTimeMax := 0

def smallEnv : Env where
  noEoPPulseBufferSize := 0
  maxPulseBufferSize := 3600
  intermittentDataThreshold := 1
  doPulsePchgCorrect := false
  doPulseVetoCorrect := false
  noRTDLPulses := false
  events :=
    { neutronEventStateBits := 0, neutronEventSortByState := false, monitorTOFBits := 21
      chopperTOFBits := 21, enablePixelMapping := true }
  numDataSources := 1

def smallSettings : Settings where
  noEoPPulseBufferSize := 0
  maxPulseBufferSize := 3600
  intermittentDataThreshold := 1
  doPulsePchgCorrect := false
  doPulseVetoCorrect := false
  events :=
    { neutronEventStateBits := 0, neutronEventStateMask := 0, neutronEventSortByState := false
      monitorTOFBits := 21, monitorTOFMask := tofMask 21, chopperTOFBits := 21
      chopperTOFMask := tofMask 21, enablePixelMapping := true }

/-! ### Recording a prefix -/

/-- What identifies an entry of the buffer: its key and the number of its node. -/
def ident (e : PulseIdentifier × Node) : PulseIdentifier × Nat := (e.1, e.2.serial)

/-- The loop records the first `n` entries, in order. -/
theorem recordLoop_recorded (cfg : Config) (env : Env) (s : Settings) (overflow : Bool) (n : Nat)
    (r : RecordState) (lastPid : PulseIdentifier) (entries : List (PulseIdentifier × Node)) :
    (recordLoop cfg env s overflow n r lastPid entries).2.2.map ident =
      (entries.take n).map ident := by
  induction entries generalizing n r lastPid with
  | nil => cases n <;> rfl
  | cons e rest ih =>
    cases n with
    | zero => rfl
    | succ n =>
      simp only [recordLoop, List.map_cons, List.take_succ_cons]
      rw [ih]
      rfl

theorem length_recordLoop (cfg : Config) (env : Env) (s : Settings) (overflow : Bool) (n : Nat)
    (r : RecordState) (lastPid : PulseIdentifier) (entries : List (PulseIdentifier × Node)) :
    (recordLoop cfg env s overflow n r lastPid entries).2.2.length = min n entries.length := by
  have h := congrArg List.length (recordLoop_recorded cfg env s overflow n r lastPid entries)
  simpa using h

/-- Outside the overflow path, recording the cached entry invalidates the cache. -/
theorem recordLoop_lastPid (cfg : Config) (env : Env) (s : Settings) (n : Nat)
    (r : RecordState) (lastPid : PulseIdentifier) (entries : List (PulseIdentifier × Node)) :
    (recordLoop cfg env s false n r lastPid entries).2.1 =
      if lastPid ∈ (entries.take n).map Prod.fst then invalidPid else lastPid := by
  induction entries generalizing n r lastPid with
  | nil => cases n <;> rfl
  | cons e rest ih =>
    cases n with
    | zero => rfl
    | succ n =>
      simp only [recordLoop, List.take_succ_cons, List.map_cons, List.mem_cons, Bool.not_false,
        Bool.true_and, decide_eq_true_eq]
      rw [ih]
      by_cases he : e.1 = lastPid
      · simp [he]
      · simp [he, Ne.symm he]

/-- What `recordPrefix` does to the buffer. -/
structure Recorded (S S' : SMSControl) (n : Nat) : Prop where
  pulses : S'.pulses = S.pulses.drop n
  recordings : ∃ rec : Recording, S'.history.recordings = S.history.recordings ++ [rec] ∧
    rec.buffered = S.pulses.entries.map ident ∧
    rec.recorded.map ident = (S.pulses.entries.take n).map ident
  created : S'.history.created = S.history.created
  dropped : S'.history.dropped = S.history.dropped
  eventSources : S'.eventSources = S.eventSources
  eventSourcesIndex : S'.eventSourcesIndex = S.eventSourcesIndex
  lastPulseIt : S'.lastPulseIt = S.lastPulseIt

theorem recordPrefix_recorded (cfg : Config) (env : Env) (overflow : Bool) (n : Nat)
    (S : SMSControl) : Recorded S (recordPrefix cfg env overflow n S) n where
  pulses := by
    apply SortedMap.ext
    simp only [recordPrefix, SortedMap.entries_drop, length_recordLoop]
    rcases Nat.le_total n S.pulses.entries.length with h | h
    · rw [Nat.min_eq_left h]
    · rw [Nat.min_eq_right h, List.drop_length, List.drop_eq_nil_of_le h]
  recordings := ⟨_, rfl, rfl, recordLoop_recorded ..⟩
  created := rfl
  dropped := rfl
  eventSources := rfl
  eventSourcesIndex := rfl
  lastPulseIt := rfl

theorem recordPrefix_lastPid (cfg : Config) (env : Env) (n : Nat) (S : SMSControl) :
    (recordPrefix cfg env false n S).lastPid =
      if S.lastPid ∈ (S.pulses.entries.take n).map Prod.fst then invalidPid else S.lastPid :=
  recordLoop_lastPid ..

/-! ### Elementary moves -/

/-- `S'` differs from `S` in the data of its pulses at most: the entries keep their
    keys and nodes, and no pulse is pending on more sources than before. -/
structure SameBuffer (S S' : SMSControl) : Prop where
  pulses : ∃ f : PulseIdentifier → Node → Node, S'.pulses = S.pulses.mapVal f ∧
    (∀ k n, (f k n).serial = n.serial) ∧
    ∀ e ∈ S.pulses.entries, (f e.1 e.2).pulse.pending ⊆ e.2.pulse.pending
  created : S'.history.created = S.history.created
  recordings : S'.history.recordings = S.history.recordings
  dropped : S'.history.dropped = S.history.dropped
  eventSources : S'.eventSources = S.eventSources
  eventSourcesIndex : S'.eventSourcesIndex = S.eventSourcesIndex
  lastPid : S'.lastPid = S.lastPid
  lastPulseIt : S'.lastPulseIt = S.lastPulseIt

/-- One elementary change of the buffer. -/
inductive Move (cfg : Config) : SMSControl → SMSControl → Prop where
  | data {S S'} (h : SameBuffer S S') : Move cfg S S'
  | record {S} (env : Env) (n : Nat) : Move cfg S (recordPrefix cfg env false n S)
  | create {S} (env : Env) (pid : PulseIdentifier) (fresh : S.pulses.find? pid = none) :
      Move cfg S (createPulse cfg env S pid)
  | hit {S} (pid : PulseIdentifier) (n : Node) (found : S.pulses.find? pid = some n) :
      Move cfg S { S with lastPid := pid, lastPulseIt := some n.serial }
  | pop {S} (pulseIndex : Int) : Move cfg S (S.popPulseBuffer pulseIndex)
  | register {S S'} (srcId : SrcId) (i : Fin 256)
      (registered : S.registerEventSource srcId = .ok (S', i)) : Move cfg S S'
  | free {S} (i : Fin 256) (released : ∀ e ∈ S.pulses.entries, i ∉ e.2.pulse.pending) :
      Move cfg S (freeIndex S i)

/-- A sequence of elementary changes. -/
abbrev Moves (cfg : Config) : SMSControl → SMSControl → Prop := Relation.ReflTransGen (Move cfg)

theorem Move.moves {cfg : Config} {S S' : SMSControl} (h : Move cfg S S') : Moves cfg S S' :=
  Relation.ReflTransGen.single h

theorem SameBuffer.moves {S S' : SMSControl} (h : SameBuffer S S') (cfg : Config) :
    Moves cfg S S' :=
  (Move.data h).moves

/-- What every move preserves, a sequence of moves preserves. -/
theorem Moves.preserves {cfg : Config} {I : SMSControl → Prop}
    (hmove : ∀ {S S'}, Move cfg S S' → I S → I S') {S S' : SMSControl} (h : Moves cfg S S')
    (hS : I S) : I S' := by
  induction h with
  | refl => exact hS
  | tail _ hm ih => exact hmove hm ih

/-! ### Moves that only change data -/

/-- A state with the same buffer, whatever else changes. -/
theorem SameBuffer.of_pulses_eq {S S' : SMSControl} (hp : S'.pulses = S.pulses)
    (hh : S'.history.created = S.history.created ∧ S'.history.recordings = S.history.recordings ∧
      S'.history.dropped = S.history.dropped)
    (hs : S'.eventSources = S.eventSources ∧ S'.eventSourcesIndex = S.eventSourcesIndex)
    (hc : S'.lastPid = S.lastPid ∧ S'.lastPulseIt = S.lastPulseIt) : SameBuffer S S' where
  pulses := ⟨fun _ n => n, by rw [hp]; exact SortedMap.ext (by simp), fun _ _ => rfl,
    fun _ _ => Finset.Subset.refl _⟩
  created := hh.1
  recordings := hh.2.1
  dropped := hh.2.2
  eventSources := hs.1
  eventSourcesIndex := hs.2
  lastPid := hc.1
  lastPulseIt := hc.2

theorem updatePulse_sameBuffer {S : SMSControl} {pid : PulseIdentifier} {n : Node}
    {f : Pulse → Pulse} (hn : S.pulses.find? pid = some n)
    (hf : (f n.pulse).pending ⊆ n.pulse.pending) : SameBuffer S (S.updatePulse pid f) where
  pulses := by
    refine ⟨fun k m => if k = pid then { m with pulse := f m.pulse } else m, rfl,
      fun k m => ?_, fun e he => ?_⟩
    · simp only
      split <;> rfl
    · simp only
      split
      · rename_i hk
        -- the entry under `pid` is the one that was looked up
        have : S.pulses.find? pid = some e.2 := by
          rw [SortedMap.find?_eq_some, ← hk]
          exact he
        obtain rfl := Option.some.inj (hn.symm.trans this)
        exact hf
      · exact Finset.Subset.refl _
  created := rfl
  recordings := rfl
  dropped := rfl
  eventSources := rfl
  eventSourcesIndex := rfl
  lastPid := rfl
  lastPulseIt := rfl

theorem SameBuffer.ite {S S' : SMSControl} (c : Prop) [Decidable c] (h : SameBuffer S S') :
    SameBuffer S (if c then S' else S) := by
  split
  · exact h
  · exact .of_pulses_eq rfl ⟨rfl, rfl, rfl⟩ ⟨rfl, rfl⟩ ⟨rfl, rfl⟩

theorem takeNoEoP_sameBuffer (env : Env) (S : SMSControl) : SameBuffer S (takeNoEoP env S) :=
  .of_pulses_eq rfl ⟨rfl, rfl, rfl⟩ ⟨rfl, rfl⟩ ⟨rfl, rfl⟩

theorem takeCorrections_sameBuffer (env : Env) (S : SMSControl) :
    SameBuffer S (takeCorrections env S) :=
  .of_pulses_eq rfl ⟨rfl, rfl, rfl⟩ ⟨rfl, rfl⟩ ⟨rfl, rfl⟩

theorem countPulseEvents_sameBuffer (env : Env) (S : SMSControl) :
    SameBuffer S (countPulseEvents env S) :=
  .of_pulses_eq rfl ⟨rfl, rfl, rfl⟩ ⟨rfl, rfl⟩ ⟨rfl, rfl⟩

theorem storeStates_sameBuffer (S : SMSControl) (a : EventLoop) :
    SameBuffer S (storeStates S a) :=
  .of_pulses_eq rfl ⟨rfl, rfl, rfl⟩ ⟨rfl, rfl⟩ ⟨rfl, rfl⟩

theorem markIntermittent_sameBuffer (S : SMSControl) (i : Fin 256) :
    SameBuffer S (markIntermittent S i) :=
  .of_pulses_eq rfl ⟨rfl, rfl, rfl⟩ ⟨rfl, rfl⟩ ⟨rfl, rfl⟩

theorem refreshThreshold_sameBuffer (env : Env) (S : SMSControl) :
    SameBuffer S (refreshThreshold env S) :=
  .of_pulses_eq rfl ⟨rfl, rfl, rfl⟩ ⟨rfl, rfl⟩ ⟨rfl, rfl⟩

theorem storeRing_sameBuffer (S : SMSControl) (pkt : RTDLPkt) : SameBuffer S (storeRing S pkt) :=
  .of_pulses_eq rfl ⟨rfl, rfl, rfl⟩ ⟨rfl, rfl⟩ ⟨rfl, rfl⟩

theorem countUnregistered_sameBuffer (S : SMSControl) (p : Pulse) :
    SameBuffer S (countUnregistered S p) :=
  .of_pulses_eq rfl ⟨rfl, rfl, rfl⟩ ⟨rfl, rfl⟩ ⟨rfl, rfl⟩

theorem releaseAll_sameBuffer (S : SMSControl) (i : Fin 256) : SameBuffer S (releaseAll S i) where
  pulses := ⟨fun _ n => { n with pulse := n.pulse.releasePartial i }, rfl, fun _ _ => rfl,
    fun e _ => by
      simp only [Pulse.pending_releasePartial]
      exact Finset.erase_subset _ _⟩
  created := rfl
  recordings := rfl
  dropped := rfl
  eventSources := rfl
  eventSourcesIndex := rfl
  lastPid := rfl
  lastPulseIt := rfl

theorem completeFor_sameBuffer (S : SMSControl) (current : PulseIdentifier)
    (smsId : Option (Fin 256)) : SameBuffer S (completeFor S current smsId) := by
  cases smsId with
  | none => exact .of_pulses_eq rfl ⟨rfl, rfl, rfl⟩ ⟨rfl, rfl⟩ ⟨rfl, rfl⟩
  | some i =>
    refine ⟨⟨fun pid n =>
        if pid < current then { n with pulse := n.pulse.releasePartial i }
        else if pid = current then
          { n with pulse := { n.pulse with pending := n.pulse.pending.erase i } }
        else n, rfl, fun k n => ?_, fun e _ => ?_⟩, rfl, rfl, rfl, rfl, rfl, rfl, rfl⟩
    · simp only
      split
      · rfl
      · split <;> rfl
    · simp only
      split
      · rw [Pulse.pending_releasePartial]
        exact Finset.erase_subset _ _
      · split
        · exact Finset.erase_subset _ _
        · exact Finset.Subset.refl _

/-! ### Filing events leaves the pending sources alone -/

private theorem pending_setFlagIf (p : Pulse) (cond : Bool) (flag : UInt32) :
    (p.setFlagIf cond flag).pending = p.pending := by
  unfold Pulse.setFlagIf
  split <;> rfl

theorem growBanks_pulse {maxBank state : Nat} {a a' : EventLoop}
    (h : growBanks maxBank state a = some a') : a'.pulse = a.pulse := by
  simp only [growBanks] at h
  split at h
  · split at h
    · cases h
    · exact Option.some.inj h ▸ rfl
  · exact Option.some.inj h ▸ rfl

private theorem fileBanked_pending {s : EventSettings} {maxBank : Nat} {pl : Placement}
    {tof : UInt32} {a a' : EventLoop} (h : fileBanked s maxBank pl tof a = some a') :
    a'.pulse.pending = a.pulse.pending := by
  simp only [fileBanked, Option.bind_eq_some_iff] at h
  obtain ⟨b, hgrow, hpush⟩ := h
  have hb : b.pulse.pending = a.pulse.pending := by
    rw [growBanks_pulse hgrow, pending_setFlagIf, Pulse.pending_setFlag]
  simp only [pushBanked] at hpush
  split at hpush
  · cases hpush
  · exact Option.some.inj hpush ▸ hb

private theorem handleEvent_pending {s : EventSettings} {pm : PixelMap} {pkt : RawDataPkt}
    {isMapped : Bool} {a a' : EventLoop} {ev : Event}
    (h : handleEvent s pm pkt isMapped a ev = some a') :
    a'.pulse.pending = a.pulse.pending := by
  simp only [handleEvent] at h
  -- one case for each arm of the switch on the event type
  split at h
  · cases h
    rfl
  · split at h
    · cases h
      rfl
    · split at h
      · exact (fileBanked_pending h).trans rfl
      · split at h
        · cases h
          rfl
        · split at h
          · exact (fileBanked_pending h).trans rfl
          · exact (fileBanked_pending h).trans rfl

private theorem handleEvents_pending {s : EventSettings} {pm : PixelMap} {pkt : RawDataPkt}
    {isMapped : Bool} {a a' : EventLoop} {evs : List Event}
    (h : handleEvents s pm pkt isMapped a evs = some a') :
    a'.pulse.pending = a.pulse.pending := by
  induction evs generalizing a with
  | nil =>
    cases h
    rfl
  | cons ev evs ih =>
    simp only [handleEvents, Option.bind_eq_some_iff] at h
    obtain ⟨b, hev, hrest⟩ := h
    rw [ih hrest, handleEvent_pending hev]

theorem fileEvents_pending {s : EventSettings} {pm : PixelMap} {ring : UInt32}
    {numStatesLast : Nat} {resetCount : UInt32} {pkt : RawDataPkt} {hwId : UInt32}
    {isMapped : Bool} {p : Pulse} {a : EventLoop}
    (h : fileEvents s pm ring numStatesLast resetCount pkt hwId isMapped p = some a) :
    a.pulse.pending = p.pending := by
  rw [handleEvents_pending h]
  simp only [takeCharge, takeTiming]
  split <;> split <;> rfl

theorem finishEvents_pending (pkt : RawDataPkt) (hwId : UInt32) (mixed : Bool) (a : EventLoop) :
    (finishEvents pkt hwId mixed a).pending = a.pulse.pending := by
  simp only [finishEvents, markContents, pending_setFlagIf]

/-! ### Creating a pulse -/

theorem SameBuffer.trans {S₁ S₂ S₃ : SMSControl} (h : SameBuffer S₁ S₂) (h' : SameBuffer S₂ S₃) :
    SameBuffer S₁ S₃ where
  pulses := by
    obtain ⟨f, hf, hserial, hpending⟩ := h.pulses
    obtain ⟨g, hg, hserial', hpending'⟩ := h'.pulses
    apply Exists.intro fun k n => g k (f k n)
    apply And.intro
    · rw [hg, hf]
      exact SortedMap.ext (by simp)
    · apply And.intro fun k n => (hserial' k (f k n)).trans (hserial k n)
      intro e he
      apply Finset.Subset.trans _ (hpending e he)
      apply hpending' (e.1, f e.1 e.2)
      rw [hf, SortedMap.entries_mapVal]
      exact List.mem_map_of_mem he
  created := h'.created.trans h.created
  recordings := h'.recordings.trans h.recordings
  dropped := h'.dropped.trans h.dropped
  eventSources := h'.eventSources.trans h.eventSources
  eventSourcesIndex := h'.eventSourcesIndex.trans h.eventSourcesIndex
  lastPid := h'.lastPid.trans h.lastPid
  lastPulseIt := h'.lastPulseIt.trans h.lastPulseIt

theorem countPulse_sameBuffer (S : SMSControl) (pid : PulseIdentifier) :
    SameBuffer S (countPulse S pid) :=
  .of_pulses_eq rfl ⟨rfl, rfl, rfl⟩ ⟨rfl, rfl⟩ ⟨rfl, rfl⟩

theorem takeMaxBuffer_sameBuffer (env : Env) (S : SMSControl) :
    SameBuffer S (takeMaxBuffer env S) :=
  .of_pulses_eq rfl ⟨rfl, rfl, rfl⟩ ⟨rfl, rfl⟩ ⟨rfl, rfl⟩

/-- What comes before the insertion of a new pulse: possibly a flush, which records a
    prefix of the buffer. -/
inductive Flushed (S S' : SMSControl) : Prop where
  | kept (h : SameBuffer S S')
  | recorded (T : SMSControl) (n : Nat) (h : SameBuffer S T) (hrec : Recorded T S' n)

private theorem flushOverflow_flushed (cfg : Config) (env : Env) (S : SMSControl) :
    Flushed S (flushOverflow cfg env S) := by
  have htake := SameBuffer.ite (S.getPulseCnt % 3600 = 0) (takeMaxBuffer_sameBuffer env S)
  simp only [flushOverflow]
  generalize (if S.getPulseCnt % 3600 = 0 then takeMaxBuffer env S else S) = T at htake ⊢
  split
  · exact .recorded _ _ (htake.trans (takeCorrections_sameBuffer env _)) (recordPrefix_recorded ..)
  · exact .kept htake

/-- A pulse is created by inserting a fresh entry after a possible flush; it is pending
    on the sources registered before. -/
theorem createPulse_eq (cfg : Config) (env : Env) (S : SMSControl) (pid : PulseIdentifier) :
    ∃ S₁ p, Flushed S S₁ ∧ createPulse cfg env S pid = insertPulse S₁ pid p ∧
      p.pending = S.eventSources := by
  have hpending : (newPulse (countPulse S pid) pid).pending = S.eventSources := by
    simp only [newPulse, pending_setFlagIf]
    rfl
  have hcount := countPulse_sameBuffer S pid
  by_cases hcheck : (countPulse S pid).getPulseCnt % 60 = 0
  · refine ⟨flushOverflow cfg env (countPulse S pid), _, ?_, ?_, hpending⟩
    · cases flushOverflow_flushed cfg env (countPulse S pid) with
      | kept h => exact .kept (hcount.trans h)
      | recorded T n h hrec => exact .recorded T n (hcount.trans h) hrec
    · simp only [createPulse, if_pos hcheck]
  · refine ⟨countPulse S pid, _, .kept hcount, ?_, hpending⟩
    simp only [createPulse, if_neg hcheck]

/-! ### Every operation is a sequence of moves -/

section Decompose

variable {cfg : Config} {env : Env}

theorem getPulse_moves (S : SMSControl) (pid : PulseIdentifier) :
    Moves cfg S (getPulse cfg env S pid).1 := by
  unfold getPulse
  split
  · exact .refl
  · split
    · rename_i n hfound
      exact (Move.hit pid n hfound).moves
    · rename_i hfresh
      exact (Move.create env pid hfresh).moves

/-- What a successful lookup returns: the state after `getPulse`, and the entry its
    iterator points to. -/
theorem lookup_eq_some {S S' : SMSControl} {pid k : PulseIdentifier} {n : Node}
    (h : lookup cfg env S pid = some (S', k, n)) :
    (getPulse cfg env S pid).1 = S' ∧ S'.deref (getPulse cfg env S pid).2 = some (k, n) ∧
      S'.pulses.find? k = some n := by
  simp only [lookup, Option.map_eq_some_iff, Prod.mk.injEq] at h
  obtain ⟨⟨k', n'⟩, hderef, rfl, rfl, rfl⟩ := h
  refine ⟨rfl, hderef, ?_⟩
  obtain ⟨serial, -, hfind⟩ := Option.bind_eq_some_iff.mp hderef
  exact SortedMap.find?_eq_some.mpr (List.mem_of_find?_eq_some hfind)

theorem lookup_moves {S S' : SMSControl} {pid k : PulseIdentifier} {n : Node}
    (h : lookup cfg env S pid = some (S', k, n)) : Moves cfg S S' :=
  (lookup_eq_some h).1 ▸ getPulse_moves S pid

/-- `S'` is reached by looking up `pid` and then some moves. -/
def LookupThenMoves (cfg : Config) (env : Env) (S : SMSControl) (pid : PulseIdentifier)
    (S' : SMSControl) : Prop :=
  ∃ S₁ k n, lookup cfg env S pid = some (S₁, k, n) ∧ Moves cfg S₁ S'

theorem LookupThenMoves.moves {S S' : SMSControl} {pid : PulseIdentifier}
    (h : LookupThenMoves cfg env S pid S') : Moves cfg S S' := by
  obtain ⟨S₁, k, n, hlookup, hmoves⟩ := h
  exact (lookup_moves hlookup).trans hmoves

private theorem recordReleased_moves (S : SMSControl) :
    Moves cfg S (recordReleased cfg env S) := by
  unfold recordReleased
  split
  · exact .refl
  · have htake := (takeNoEoP_sameBuffer env S).moves cfg
    simp only
    split
    · exact htake
    · exact (htake.tail (.data (takeCorrections_sameBuffer env _))).tail (.record env _)

/-- Recording what a source has completed leaves a part of the buffer. -/
theorem recordReleased_subset (S : SMSControl) :
    (recordReleased cfg env S).pulses.entries ⊆ S.pulses.entries := by
  unfold recordReleased
  split
  · exact fun _ h => h
  · simp only
    split
    · exact fun _ h => h
    · rw [(recordPrefix_recorded ..).pulses]
      exact List.drop_subset _ _

/-- Once released, no pulse is pending on the source. -/
theorem releaseAll_not_pending (S : SMSControl) (i : Fin 256) :
    ∀ e ∈ (releaseAll S i).pulses.entries, i ∉ e.2.pulse.pending := by
  intro e he
  simp only [releaseAll, SortedMap.entries_mapVal, List.mem_map] at he
  obtain ⟨e', -, rfl⟩ := he
  simp

theorem unregisterEventSource_moves (S : SMSControl) (smsId : Option (Fin 256)) :
    Moves cfg S (unregisterEventSource cfg env S smsId) := by
  cases smsId with
  | none => exact .refl
  | some i =>
    have hrelease := (releaseAll_sameBuffer S i).moves cfg
    apply (hrelease.trans (recordReleased_moves _)).tail
    apply Move.free
    intro e he
    exact releaseAll_not_pending S i e (recordReleased_subset _ he)

private theorem recordCompleted_moves (S : SMSControl) (last : Nat) :
    Moves cfg S (recordCompleted cfg env S last) := by
  have htake := (SameBuffer.ite (S.markCompleteCnt % 600 = 0)
    (takeNoEoP_sameBuffer env S)).moves cfg
  simp only [recordCompleted]
  split
  · exact htake
  · exact (htake.tail (.data (.ite _ (takeCorrections_sameBuffer env _)))).tail (.record env _)

theorem completeCurrent_moves (S : SMSControl) (current : PulseIdentifier)
    (smsId : Option (Fin 256)) : Moves cfg S (completeCurrent cfg env S current smsId) := by
  have hcomplete := (completeFor_sameBuffer S current smsId).moves cfg
  simp only [completeCurrent]
  split
  · exact hcomplete
  · exact hcomplete.trans (recordCompleted_moves _ _)

theorem dropIntermittent_moves (S : SMSControl) :
    Moves cfg S (dropIntermittent cfg env S) := by
  unfold dropIntermittent
  split
  · exact .refl
  · rename_i i _
    split
    · exact (unregisterEventSource_moves _ _).head (.data (markIntermittent_sameBuffer S i))
    · exact .refl

theorem refreshThreshold_moves (S : SMSControl) : Moves cfg S (refreshThreshold env S) :=
  (Move.data (refreshThreshold_sameBuffer env S)).moves

/-- `markComplete` first drops an intermittent source. -/
theorem markComplete_lookup {S S' : SMSControl} {pulseId : UInt64} {dup : UInt32} {smsId : Option (Fin 256)}
    (h : markComplete cfg env S pulseId dup smsId = some S') :
    LookupThenMoves cfg env (dropIntermittent cfg env (refreshThreshold env S))
      (.mk pulseId dup) S' := by
  simp only [markComplete, Option.map_eq_some_iff] at h
  obtain ⟨⟨S₁, current, n⟩, hlookup, rfl⟩ := h
  exact ⟨S₁, current, n, hlookup, completeCurrent_moves S₁ current smsId⟩

theorem markComplete_moves {S S' : SMSControl} {pulseId : UInt64} {dup : UInt32} {smsId : Option (Fin 256)}
    (h : markComplete cfg env S pulseId dup smsId = some S') : Moves cfg S S' :=
  ((refreshThreshold_moves S).trans (dropIntermittent_moves _)).trans (markComplete_lookup h).moves

theorem pulseEvents_lookup {S : SMSControl} {pkt : RawDataPkt} {hwId : UInt32} {dup : UInt32}
    {isMapped mixed : Bool} {r : SMSControl × EventCounts}
    (h : pulseEvents cfg env S pkt hwId dup isMapped mixed = some r) :
    LookupThenMoves cfg env S (.mk pkt.pulseId dup) r.1 := by
  simp only [pulseEvents, Option.bind_eq_some_iff, Option.map_eq_some_iff] at h
  obtain ⟨⟨S₁, k, n⟩, hlookup, a, hfile, rfl⟩ := h
  have hcount := countPulseEvents_sameBuffer env S₁
  have hfound : (countPulseEvents env S₁).pulses.find? k = some n := (lookup_eq_some hlookup).2.2
  have hpending : (finishEvents pkt hwId mixed a).pending ⊆ n.pulse.pending := by
    rw [finishEvents_pending, fileEvents_pending hfile]
  have hupdate := updatePulse_sameBuffer (f := fun _ => finishEvents pkt hwId mixed a)
    hfound hpending
  apply Exists.intro S₁
  exact ⟨k, n, hlookup, ((Move.data hcount).moves.tail (.data hupdate)).tail
    (.data (storeStates_sameBuffer _ a))⟩

theorem markPartial_lookup {S S' : SMSControl} {pulseId : UInt64} {dup : UInt32}
    (h : markPartial cfg env S pulseId dup = some S') :
    LookupThenMoves cfg env S (.mk pulseId dup) S' := by
  simp only [markPartial, Option.map_eq_some_iff] at h
  obtain ⟨⟨S₁, k, n⟩, hlookup, rfl⟩ := h
  have hupdate := updatePulse_sameBuffer (f := (·.setFlag PulseFlags.partialData))
    (lookup_eq_some hlookup).2.2 (Finset.Subset.refl _)
  exact ⟨S₁, k, n, hlookup, (Move.data hupdate).moves⟩

/-- The entry a data update keeps: its pulse is the updated one. -/
theorem find?_updatePulse_self {S : SMSControl} {pid : PulseIdentifier} {n : Node}
    (f : Pulse → Pulse) (h : S.pulses.find? pid = some n) :
    (S.updatePulse pid f).pulses.find? pid = some { n with pulse := f n.pulse } := by
  rw [SortedMap.find?_eq_some] at h ⊢
  simp only [updatePulse, SortedMap.entries_mapVal, List.mem_map]
  exact ⟨(pid, n), h, by simp⟩

private theorem takeRTDL_pending (pkt : RTDLPkt) (p : Pulse) :
    (takeRTDL pkt p).pending = p.pending := by
  simp only [takeRTDL, pending_setFlagIf]

theorem pulseRTDL_lookup {S S' : SMSControl} {pkt : RTDLPkt} {dup : UInt32}
    (h : pulseRTDL cfg env S pkt dup = some S') :
    LookupThenMoves cfg env S (.mk pkt.pulseId dup) S' := by
  simp only [pulseRTDL, Option.bind_eq_some_iff] at h
  obtain ⟨⟨S₁, k, n⟩, hlookup, h⟩ := h
  have hfound := (lookup_eq_some hlookup).2.2
  apply Exists.intro S₁
  apply Exists.intro k
  apply Exists.intro n
  apply And.intro hlookup
  split at h
  · exact Option.some.inj h ▸ .refl
  · have htake : SameBuffer S₁ (S₁.updatePulse k (takeRTDL pkt)) :=
      updatePulse_sameBuffer hfound (by rw [takeRTDL_pending])
    have hstore := (htake.moves cfg).tail (.data (storeRing_sameBuffer _ pkt))
    split at h
    · -- the pulse waits for no source: it is completed at once, as a partial one
      apply Relation.ReflTransGen.trans _ (markComplete_moves h)
      apply (hstore.tail (.data (countUnregistered_sameBuffer _ n.pulse))).tail
      apply Move.data
      exact updatePulse_sameBuffer (find?_updatePulse_self (takeRTDL pkt) hfound)
        (Finset.Subset.refl _)
    · exact Option.some.inj h ▸ hstore

/-- Every operation is a sequence of moves. -/
theorem step_moves {S S' : SMSControl} {op : Op} (h : step cfg S (env, op) = some S') :
    Moves cfg S S' := by
  cases op with
  | registerEventSource srcId =>
    simp only [step] at h
    split at h
    · cases h
      exact .refl
    · rename_i hreg
      cases h
      exact (Move.register srcId _ hreg).moves
  | unregisterEventSource smsId =>
    cases h
    exact unregisterEventSource_moves S smsId
  | getPulse pid =>
    cases h
    exact getPulse_moves S pid
  | pulseEvents pkt hwId dup isMapped mixed =>
    simp only [step, Option.map_eq_some_iff] at h
    obtain ⟨r, hr, rfl⟩ := h
    exact (pulseEvents_lookup hr).moves
  | pulseRTDL pkt dup => exact (pulseRTDL_lookup h).moves
  | markPartial pulseId dup => exact (markPartial_lookup h).moves
  | markComplete pulseId dup smsId => exact markComplete_moves h
  | popPulseBuffer pulseIndex =>
    cases h
    exact (Move.pop pulseIndex).moves

/-- A run is a sequence of moves. -/
theorem run_moves {S S' : SMSControl} {ops : List (Env × Op)}
    (h : Runs.run (step cfg) S ops = some S') : Moves cfg S S' :=
  Runs.invariant (fun _ _ _ hS hs => hS.trans (step_moves hs)) .refl h

/-- What every move preserves holds at the end of every run. -/
theorem invariant_of_moves {I : SMSControl → Prop}
    (hmove : ∀ {S S'}, Move cfg S S' → I S → I S') {S S' : SMSControl} {ops : List (Env × Op)}
    (h : Runs.run (step cfg) S ops = some S') (hS : I S) : I S' :=
  (run_moves h).preserves hmove hS

end Decompose

end Adara.Spec.PulseBuffer
