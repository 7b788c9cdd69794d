import Adara.Native.PulseTiming
import Mathlib.Data.List.Chain
import Mathlib.Order.Nat

/-! # Pulse times that do not go on

The time of a pulse is compared with that of the first one only.  So an interval is right just
where every pulse is later than the one before (`timing_iff`). -/

namespace Adara.Spec.PulseTiming

open Adara.Native Adara.Native.PulseTiming

variable {thresh start last most : Nat} {stored intervals : List Nat} {t : PulseTiming}

/-! ### One pulse -/

theorem timestamp_lt (pkt : PulsePacket) : pkt.timestamp < 2 ^ 64 := by
  have hsec : Word32.add pkt.tvSec.toNat epicsEpochOffset < 2 ^ 32 := Word32.add_lt _ _
  have hnsec : pkt.tvNsec.toNat < 2 ^ 32 := pkt.tvNsec.toNat_lt
  rw [PulsePacket.timestamp]
  omega

/-- The times that are stored, written or not. -/
def storedTimes (info : PulseInfo) : List Nat := info.written.times ++ info.buffered.times

/-- What can be seen of the times. -/
structure Shows (t : PulseTiming) (start last most : Nat) (stored intervals : List Nat) : Prop where
  startTime : t.info.startTime = start
  lastTime : t.info.lastTime = last
  maxTime : t.info.maxTime = most
  times : storedTimes t.info = stored
  freqStats : t.freqStats = intervals

theorem shows_new : Shows new 0 0 0 [] [] := ⟨rfl, rfl, rfl, rfl, rfl⟩

/-- The time is logged beside the other columns. -/
theorem logTime_columns (info : PulseInfo) (timestamp : Nat) (charges flags : List UInt32) :
    ({ info with buffered := { info.buffered with charges, flags } } : PulseInfo).logTime
        timestamp =
      { info.logTime timestamp with
        buffered := { (info.logTime timestamp).buffered with charges, flags } } := by
  rw [PulseInfo.logTime, PulseInfo.logTime]
  split <;> rfl

/-- A pulse is processed as its time is logged, whether the columns are then written or not. -/
theorem processPulseInfo_spec (thresh : Nat) (t : PulseTiming) (call : Bool × PulsePacket) :
    let info := t.info.logTime call.2.timestamp
    ∃ t', processPulseInfo thresh t call = some t' ∧
      Shows t' info.startTime info.lastTime info.maxTime (storedTimes info)
        (t.freqStats ++ pushed t.info call.2.timestamp) := by
  obtain ⟨ready, pkt⟩ := call
  have hlen := pkt.hasPulseInfo
  have hcharge := List.getElem?_eq_getElem (show 0 < pkt.payload.length by omega)
  have hfield := List.getElem?_eq_getElem (show 3 < pkt.payload.length by omega)
  rw [processPulseInfo, PulseInfo.process]
  simp only [hcharge, hfield, Option.bind_eq_bind, Option.bind_some, logTime_columns]
  split
  · -- the columns are written
    refine ⟨_, rfl, rfl, rfl, rfl, ?_, rfl⟩
    exact List.append_nil _
  · exact ⟨_, rfl, rfl, rfl, rfl, rfl, rfl⟩

/-- The first pulse. -/
theorem Shows.starts (h : Shows t 0 last most stored intervals) (thresh : Nat)
    (call : Bool × PulsePacket) :
    ∃ t', processPulseInfo thresh t call = some t' ∧
      Shows t' call.2.timestamp 0 0 (stored ++ [0]) intervals ∧
      subtractions t.info call.2.timestamp = [] ∧ pushed t.info call.2.timestamp = [] := by
  have hlog : t.info.logTime call.2.timestamp =
      { t.info with
        startTime := call.2.timestamp
        lastTime := 0
        maxTime := 0
        buffered := { t.info.buffered with
          times := t.info.buffered.times ++ [0]
          freqs := t.info.buffered.freqs ++ [none] } } := by
    rw [PulseInfo.logTime, if_neg (not_not.mpr h.startTime)]
  have hpushed : pushed t.info call.2.timestamp = [] := by
    rw [pushed, hlog, List.getLast?_concat]
    rfl
  obtain ⟨t', hstep, hshows⟩ := processPulseInfo_spec thresh t call
  rw [hlog, hpushed, List.append_nil, h.freqStats] at hshows
  refine ⟨t', hstep, ⟨hshows.startTime, hshows.lastTime, hshows.maxTime, ?_, hshows.freqStats⟩,
    ?_, hpushed⟩
  · rw [hshows.times, ← h.times, storedTimes, storedTimes, List.append_assoc]
  · rw [subtractions, if_neg (not_not.mpr h.startTime)]

/-- A pulse after the first one.  Its interval is an unsigned number. -/
theorem Shows.goesOn (h : Shows t start last most stored intervals) (hstart : start ≠ 0)
    (thresh : Nat) (call : Bool × PulsePacket) :
    let offset := call.2.timestamp - start
    let interval := (offset + (2 ^ 64 - last)) % 2 ^ 64
    ∃ t', processPulseInfo thresh t call = some t' ∧
      Shows t' start offset (max most offset) (stored ++ [offset]) (intervals ++ [interval]) ∧
      ((∀ s ∈ subtractions t.info call.2.timestamp, s.2 ≤ s.1) ↔ last ≤ offset) ∧
      pushed t.info call.2.timestamp = [interval] := by
  intro offset interval
  have hclamp : (if call.2.timestamp < start then 0 else call.2.timestamp - start) = offset := by
    split <;> omega
  have hlog : t.info.logTime call.2.timestamp =
      { t.info with
        buffered := { t.info.buffered with
          times := t.info.buffered.times ++ [offset]
          freqs := t.info.buffered.freqs ++ [some interval] }
        lastTime := offset
        maxTime := max t.info.maxTime offset } := by
    rw [PulseInfo.logTime, if_pos (h.startTime ▸ hstart)]
    simp only [h.startTime, h.lastTime, hclamp]
    rfl
  have hpushed : pushed t.info call.2.timestamp = [interval] := by
    rw [pushed, hlog, List.getLast?_concat]
    rfl
  obtain ⟨t', hstep, hshows⟩ := processPulseInfo_spec thresh t call
  rw [hlog, hpushed, h.freqStats] at hshows
  refine ⟨t', hstep, ⟨hshows.startTime.trans h.startTime, hshows.lastTime, ?_, ?_,
    hshows.freqStats⟩, ?_, hpushed⟩
  · rw [hshows.maxTime, h.maxTime]
  · rw [hshows.times, ← h.times, storedTimes, storedTimes, List.append_assoc]
  · rw [subtractions, if_pos (h.startTime ▸ hstart), h.startTime, h.lastTime]
    split
    · rw [List.forall_mem_singleton]
      show last ≤ 0 ↔ last ≤ offset
      omega
    · rw [List.forall_mem_cons, List.forall_mem_singleton]
      show start ≤ call.2.timestamp ∧ last ≤ offset ↔ last ≤ offset
      omega

/-! ### Runs -/

/-- No subtraction wraps, and no interval is zero. -/
def Sound (t : PulseTiming) (call : Bool × PulsePacket) : Prop :=
  (∀ s ∈ subtractions t.info call.2.timestamp, s.2 ≤ s.1) ∧
    ∀ interval ∈ pushed t.info call.2.timestamp, interval ≠ 0

/-- The times of the pulses. -/
def stamps (calls : List (Bool × PulsePacket)) : List Nat := calls.map (·.2.timestamp)

/-- The offsets from the first pulse, clamped at 0. -/
def offsets : List Nat → List Nat
  | [] => []
  | first :: rest => (first :: rest).map (· - first)

/-- Each interval is positive, and is from a time to the next one. -/
def Between (stored intervals : List Nat) : Prop :=
  ∀ k interval, intervals[k]? = some interval → 0 < interval ∧
    ∃ time, stored[k]? = some time ∧ stored[k + 1]? = some (time + interval)

/-- One more time, later than the last one. -/
theorem Between.snoc (h : Between stored intervals) (hlen : stored.length = intervals.length + 1)
    (hlast : stored.getLast? = some last) {offset : Nat} (hlater : last < offset) :
    Between (stored ++ [offset]) (intervals ++ [offset - last]) := by
  intro k interval hk
  by_cases hold : k < intervals.length
  · rw [List.getElem?_append_left hold] at hk
    obtain ⟨hpos, time, htime, hnext⟩ := h k interval hk
    refine ⟨hpos, time, ?_, ?_⟩
    · rw [List.getElem?_append_left (by omega), htime]
    · rw [List.getElem?_append_left (by omega), hnext]
  · rw [List.getElem?_append_right (by omega)] at hk
    have hzero : k - intervals.length = 0 := by
      have hlt := (List.getElem?_eq_some_iff.mp hk).1
      rw [List.length_singleton] at hlt
      omega
    rw [hzero] at hk
    have hinterval : offset - last = interval := Option.some.inj hk
    rw [List.getLast?_eq_getElem?] at hlast
    refine ⟨by omega, last, ?_, ?_⟩
    · rw [List.getElem?_append_left (by omega), ← hlast]
      congr 1
      omega
    · rw [List.getElem?_append_right (by omega)]
      have hnext : k + 1 - stored.length = 0 := by omega
      rw [hnext, List.getElem?_cons_zero]
      congr 1
      omega

/-- While no pulse before has the time 0, the times stored are the offsets from the first one. -/
theorem Shows.run (h : Shows t start last most stored intervals) (hstart : start ≠ 0)
    (thresh : Nat) (calls : List (Bool × PulsePacket)) :
    let offs := (stamps calls).map (· - start)
    ∃ t' last' intervals', Runs.run (processPulseInfo thresh) t calls = some t' ∧
      Shows t' start last' (offs.foldl max most) (stored ++ offs) intervals' ∧
      (Runs.along (processPulseInfo thresh) Sound t calls ↔ (last :: offs).IsChain (· < ·)) ∧
      ((last :: offs).IsChain (· < ·) → stored.length = intervals.length + 1 →
        stored.getLast? = some last → Between stored intervals →
        Between (stored ++ offs) intervals') := by
  induction calls generalizing t last most stored intervals with
  | nil =>
    refine ⟨t, last, intervals, rfl, ?_, ⟨fun _ => .singleton _, fun _ => trivial⟩, ?_⟩
    · rw [stamps, List.map_nil, List.map_nil, List.append_nil]
      exact h
    · intro _ _ _ hbetween
      rw [stamps, List.map_nil, List.map_nil, List.append_nil]
      exact hbetween
  | cons call calls ih =>
    obtain ⟨t₁, hstep, hshows, hwraps, hpushed⟩ := h.goesOn hstart thresh call
    obtain ⟨t', last', intervals', hrun, hshows', halong, hbetween⟩ := ih hshows
    have hcons : (stamps (call :: calls)).map (· - start) =
        (call.2.timestamp - start) :: (stamps calls).map (· - start) := rfl
    have hlt := timestamp_lt call.2
    have hsound : Sound t call ↔ last < call.2.timestamp - start := by
      rw [Sound, hwraps, hpushed, List.forall_mem_singleton]
      omega
    rw [hcons]
    refine ⟨t', last', intervals', ?_, ?_, ?_, ?_⟩
    · rw [Runs.run, hstep]
      exact hrun
    · rw [← List.append_cons] at hshows'
      exact hshows'
    · rw [Runs.along, hsound, hstep, List.isChain_cons_cons, ← halong]
      refine and_congr_right fun _ => ⟨fun hall => hall t₁ rfl, fun hall s hs => ?_⟩
      cases hs
      exact hall
    · intro hchain hlen hlast hold
      rw [List.isChain_cons_cons] at hchain
      rw [← List.append_cons] at hbetween
      -- nothing wraps
      have hinterval : (call.2.timestamp - start + (2 ^ 64 - last)) % 2 ^ 64 =
          call.2.timestamp - start - last := by omega
      rw [hinterval] at hbetween
      refine hbetween hchain.2 ?_ List.getLast?_concat (hold.snoc hlen hlast hchain.1)
      rw [List.length_append, List.length_append, hlen]
      rfl

/-- As long as all times are 0, each pulse is taken for the first one. -/
theorem Shows.run_zeros (h : Shows t 0 0 0 stored intervals) (thresh : Nat)
    {calls : List (Bool × PulsePacket)} (hzero : ∀ stamp ∈ stamps calls, stamp = 0) :
    ∃ t', Runs.run (processPulseInfo thresh) t calls = some t' ∧
      Shows t' 0 0 0 (stored ++ stamps calls) intervals ∧
      Runs.along (processPulseInfo thresh) Sound t calls := by
  induction calls generalizing t stored with
  | nil =>
    refine ⟨t, rfl, ?_, trivial⟩
    rw [stamps, List.map_nil, List.append_nil]
    exact h
  | cons call calls ih =>
    have hcons : stamps (call :: calls) = call.2.timestamp :: stamps calls := rfl
    rw [hcons, List.forall_mem_cons] at hzero
    obtain ⟨t₁, hstep, hshows, hnone, hpushed⟩ := h.starts thresh call
    rw [hzero.1] at hshows
    obtain ⟨t', hrun, hshows', halong⟩ := ih hshows hzero.2
    refine ⟨t', ?_, ?_, ?_, fun s hs => ?_⟩
    · rw [Runs.run, hstep]
      exact hrun
    · rw [hcons, hzero.1, List.append_cons]
      exact hshows'
    · rw [Sound, hnone, hpushed]
      exact ⟨List.forall_mem_nil _, List.forall_mem_nil _⟩
    · rw [hstep] at hs
      cases hs
      exact halong

/-- Later times have later offsets. -/
theorem isChain_offsets {first time : Nat} (hle : first ≤ time) (rest : List Nat) :
    ((time - first) :: rest.map (· - first)).IsChain (· < ·) ↔ (time :: rest).IsChain (· < ·) := by
  induction rest generalizing time with
  | nil => exact ⟨fun _ => .singleton _, fun _ => .singleton _⟩
  | cons next rest ih =>
    rw [List.map_cons, List.isChain_cons_cons, List.isChain_cons_cons]
    have hlt : time - first < next - first ↔ time < next := by omega
    rw [hlt]
    exact and_congr_right fun hnext => ih (by omega)

/-- What the times are meant to be in the end. -/
structure Timing (stamps : List Nat) (t : PulseTiming) : Prop where
  times : storedTimes t.info = offsets stamps
  maxTime : t.info.maxTime = (offsets stamps).max?.getD 0
  freqStats : Between (offsets stamps) t.freqStats

/-- Where the first pulse has a time, the times are right, and the rest is if they go on. -/
theorem timing_of_ne_zero (thresh : Nat) (call : Bool × PulsePacket)
    (calls : List (Bool × PulsePacket)) (hfirst : call.2.timestamp ≠ 0) :
    ∃ t, Runs.run (processPulseInfo thresh) new (call :: calls) = some t ∧
      (Runs.along (processPulseInfo thresh) Sound new (call :: calls) ∧
          Timing (stamps (call :: calls)) t ↔
        (stamps (call :: calls)).IsChain (· < ·)) := by
  obtain ⟨t₁, hstep, hshows, hnone, hpushed⟩ := shows_new.starts thresh call
  obtain ⟨t, last, intervals, hrun, hshows', halong, hbetween⟩ :=
    hshows.run hfirst thresh calls
  have hcons : stamps (call :: calls) = call.2.timestamp :: stamps calls := rfl
  have hoffsets : offsets (stamps (call :: calls)) =
      0 :: (stamps calls).map (· - call.2.timestamp) := by
    rw [hcons, offsets, List.map_cons, Nat.sub_self]
  have hchain := isChain_offsets (Nat.le_refl call.2.timestamp) (stamps calls)
  rw [Nat.sub_self, ← hcons] at hchain
  have hsound : Runs.along (processPulseInfo thresh) Sound new (call :: calls) ↔
      (stamps (call :: calls)).IsChain (· < ·) := by
    rw [← hchain, ← halong, Runs.along, hstep]
    refine ⟨fun h => h.2 t₁ rfl, fun h => ⟨?_, fun s hs => ?_⟩⟩
    · rw [Sound, hnone, hpushed]
      exact ⟨List.forall_mem_nil _, List.forall_mem_nil _⟩
    · cases hs
      exact h
  refine ⟨t, ?_, ?_⟩
  · rw [Runs.run, hstep]
    exact hrun
  · rw [hsound, and_iff_left_iff_imp]
    intro hlater
    have hfreqs := hbetween (hchain.mpr hlater) rfl rfl fun k interval hk => by cases hk
    constructor
    · rw [hshows'.times, hoffsets]
      rfl
    · rw [hshows'.maxTime, hoffsets, List.max?_cons', Option.getD_some]
    · rw [hshows'.freqStats, hoffsets]
      exact hfreqs

/-- The offsets from 0 are the times themselves. -/
theorem offsets_of_zero {stamps : List Nat} (h : stamps.head? = some 0) :
    offsets stamps = stamps := by
  cases stamps with
  | nil => rfl
  | cons first rest =>
    cases h
    exact List.map_id' _

theorem timing_of_zeros (thresh : Nat) {calls : List (Bool × PulsePacket)}
    (hzero : ∀ stamp ∈ stamps calls, stamp = 0) :
    ∃ t, Runs.run (processPulseInfo thresh) new calls = some t ∧
      Runs.along (processPulseInfo thresh) Sound new calls ∧ Timing (stamps calls) t := by
  obtain ⟨t, hrun, hshows, halong⟩ := shows_new.run_zeros thresh hzero
  have hzeros : stamps calls = List.replicate (stamps calls).length 0 :=
    List.eq_replicate_of_mem hzero
  have hoffsets : offsets (stamps calls) = stamps calls := by
    cases calls with
    | nil => rfl
    | cons call calls => exact offsets_of_zero (congrArg some (hzero _ List.mem_cons_self))
  refine ⟨t, hrun, halong, ?_, ?_, ?_⟩
  · rw [hshows.times, hoffsets, List.nil_append]
  · rw [hshows.maxTime, hoffsets, hzeros, List.max?_replicate]
    split <;> rfl
  · rw [hshows.freqStats]
    exact fun k interval hk => nomatch hk

theorem exists_first {calls : List (Bool × PulsePacket)}
    (h : ¬ ∀ stamp ∈ stamps calls, stamp = 0) :
    ∃ zeros call rest, calls = zeros ++ call :: rest ∧ (∀ stamp ∈ stamps zeros, stamp = 0) ∧
      call.2.timestamp ≠ 0 := by
  cases hfind : calls.find? fun call => call.2.timestamp ≠ 0 with
  | none =>
    rw [List.find?_eq_none] at hfind
    rw [stamps, List.forall_mem_map] at h
    exact absurd (fun call hcall => by simpa using hfind call hcall) h
  | some call =>
    obtain ⟨hcall, zeros, rest, hcalls, hzero⟩ := List.find?_eq_some_iff_append.mp hfind
    refine ⟨zeros, call, rest, hcalls, ?_, of_decide_eq_true hcall⟩
    rw [stamps, List.forall_mem_map]
    exact fun call hmem => by simpa using hzero call hmem

/-- A pulse with a time after some without: it is taken for the first one. -/
theorem not_timing (thresh : Nat) {zeros rest : List (Bool × PulsePacket)}
    {call : Bool × PulsePacket} (hne : zeros ≠ []) (hzero : ∀ stamp ∈ stamps zeros, stamp = 0)
    (hcall : call.2.timestamp ≠ 0) :
    ∃ t, Runs.run (processPulseInfo thresh) new (zeros ++ call :: rest) = some t ∧
      ¬ Timing (stamps (zeros ++ call :: rest)) t := by
  obtain ⟨t₀, hrun₀, hshows₀, -⟩ := shows_new.run_zeros thresh hzero
  obtain ⟨t₁, hstep, hshows₁, -⟩ := hshows₀.starts thresh call
  obtain ⟨t, last, intervals, hrun, hshows, -⟩ := hshows₁.run hcall thresh rest
  refine ⟨t, ?_, fun h => ?_⟩
  · rw [Runs.run_append, hrun₀, Option.bind_some, Runs.run, hstep]
    exact hrun
  · have hstamps : stamps (zeros ++ call :: rest) =
        stamps zeros ++ call.2.timestamp :: stamps rest := List.map_append
    have hfirst : (stamps (zeros ++ call :: rest)).head? = some 0 := by
      cases zeros with
      | nil => exact absurd rfl hne
      | cons first zeros => exact congrArg some (hzero _ List.mem_cons_self)
    have htimes := hshows.times.symm.trans h.times
    rw [offsets_of_zero hfirst, hstamps, List.nil_append, List.append_assoc,
      List.append_cancel_left_eq] at htimes
    exact hcall (List.cons.inj htimes).1.symm

/-- For every sequence of pulses, of either format: no subtraction wraps, no interval is zero, and
    the times, their maximum and the intervals of the frequencies are those of the offsets from the
    first pulse, just if each pulse is later than the one before and the first one has not the
    time 0, or all of them have. -/
theorem timing_iff (thresh : Nat) (calls : List (Bool × PulsePacket)) :
    ∃ t, Runs.run (processPulseInfo thresh) new calls = some t ∧
      (Runs.along (processPulseInfo thresh) Sound new calls ∧ Timing (stamps calls) t ↔
        (∀ stamp ∈ stamps calls, stamp = 0) ∨
          (stamps calls).head? ≠ some 0 ∧ (stamps calls).IsChain (· < ·)) := by
  by_cases hzeros : ∀ stamp ∈ stamps calls, stamp = 0
  · obtain ⟨t, hrun, hright⟩ := timing_of_zeros thresh hzeros
    exact ⟨t, hrun, ⟨fun _ => .inl hzeros, fun _ => hright⟩⟩
  · -- the pulses up to the first with a time
    obtain ⟨zeros, call, rest, rfl, hzero, hcall⟩ := exists_first hzeros
    cases zeros with
    | nil =>
      obtain ⟨t, hrun, hiff⟩ := timing_of_ne_zero thresh call rest hcall
      have hhead : (stamps (call :: rest)).head? ≠ some 0 := fun h => hcall (Option.some.inj h)
      refine ⟨t, hrun, hiff.trans ?_⟩
      rw [or_iff_right hzeros]
      exact (and_iff_right hhead).symm
    | cons first zeros =>
      obtain ⟨t, hrun, hwrong⟩ := not_timing thresh (List.cons_ne_nil first zeros) hzero hcall
      have hhead : (stamps (first :: zeros ++ call :: rest)).head? = some 0 :=
        congrArg some (hzero _ List.mem_cons_self)
      refine ⟨t, hrun, ⟨fun h => absurd h.2 hwrong, fun h => ?_⟩⟩
      rcases h with h | h
      · exact absurd h hzeros
      · exact absurd hhead h.1

/-- A packet without charge and flags, so many nanoseconds after some second. -/
def pulseAt (nsec : UInt32) : Bool × PulsePacket := (true, ⟨1000, nsec, [0, 0, 0, 0], by decide⟩)

/-- The reciprocal of 0 is pushed for a pulse with the time of the one before, and that of a number
    near `2 ^ 64` for one that is earlier. -/
theorem not_timing_repeated :
    (∃ t, Runs.run (processPulseInfo 100) new [pulseAt 0, pulseAt 0] = some t ∧
        t.freqStats = [0] ∧ ¬ Timing (stamps [pulseAt 0, pulseAt 0]) t) ∧
      ∃ t, Runs.run (processPulseInfo 100) new [pulseAt 0, pulseAt 10, pulseAt 5] = some t ∧
        t.freqStats = [10, 2 ^ 64 - 5] ∧
        ¬ Runs.along (processPulseInfo 100) Sound new [pulseAt 0, pulseAt 10, pulseAt 5] := by
  constructor
  · exact ⟨_, rfl, rfl, fun h => absurd (h.freqStats 0 0 rfl).1 (Nat.lt_irrefl 0)⟩
  · refine ⟨_, rfl, rfl, fun h => ?_⟩
    have hlast := ((h.2 _ rfl).2 _ rfl).1.1 (5, 10) (by decide)
    exact absurd hlast (by decide)

end Adara.Spec.PulseTiming
