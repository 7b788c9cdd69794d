import Adara.Spec.EventConservation

/-! # The pulse counter and the pulse log

Banked event packets add an entry to the pulse log; they and the beam monitor packets take
turns in counting pulses.  What is counted ahead of the log is at most the pulse of a beam
monitor packet whose banked events are still to come, unless a pulse has no banked events, or
has them in a packet that is thrown away: then it stays ahead (`countsAll_iff`). -/

namespace Adara.Spec.PulseLog

open Adara.Native Adara.Native.EventStream
open Adara.Spec.StreamPackets

/-! ### What is counted -/

/-- What the pulse counter makes of a packet.  A beam monitor packet that is thrown away
    counts as one that is processed: neither adds to the log. -/
inductive Kind where
  | banked
  | monitor
  | lostBanked
deriving DecidableEq, Repr

/-- The kind of a packet that is counted: a duplicate is not. -/
def kindOf : StreamOp → Option Kind
  | .packet _ (.bankedEvent payload) =>
    if StreamParser.isDuplicate payload = some true then none else some .banked
  | .packet _ (.bankedEventState payload) =>
    if StreamParser.isDuplicate payload = some true then none else some .banked
  | .packet _ (.beamMonitor payload) =>
    if StreamParser.isDuplicate payload = some true then none else some .monitor
  | .oversize (some .bankedEvent) => some .lostBanked
  | .oversize (some .bankedEventState) => some .lostBanked
  | .oversize (some .beamMonitorEvent) => some .monitor
  | _ => none

/-- The kinds of the packets counted in a run. -/
def kinds (ops : List (Bool × StreamOp)) : List Kind := ops.filterMap fun op => kindOf op.2

/-- Every beam monitor packet is right behind or right before a banked event packet of its
    own, and none of these is thrown away. -/
def WellPaired : List Kind → Prop
  | [] => True
  | .banked :: .monitor :: rest => WellPaired rest
  | .banked :: rest => WellPaired rest
  | .monitor :: .banked :: rest => WellPaired rest
  | _ => False

instance decidableWellPaired : (ks : List Kind) → Decidable (WellPaired ks)
  | [] => instDecidableTrue
  | [.banked] => instDecidableTrue
  | .banked :: .monitor :: rest => decidableWellPaired rest
  | .banked :: .banked :: rest => decidableWellPaired (.banked :: rest)
  | .banked :: .lostBanked :: _ => instDecidableFalse
  | .monitor :: .banked :: rest => decidableWellPaired rest
  | [.monitor] => instDecidableFalse
  | .monitor :: .monitor :: _ => instDecidableFalse
  | .monitor :: .lostBanked :: _ => instDecidableFalse
  | .lostBanked :: _ => instDecidableFalse

/-- The lengths of the columns of the log, written and buffered. -/
def columns (info : PulseInfo) : List Nat :=
  let log := info.written.append info.buffered
  [log.times.length, log.freqs.length, log.flags.length, log.charges.length]

/-- The log has a number of entries in every column. -/
def Logged (info : PulseInfo) (entries : Nat) : Prop := columns info = List.replicate 4 entries

/-! ### Steps -/

/-- An entry goes to every column, and a flush moves them all. -/
theorem Logged.process {ready : Bool} {thresh timestamp entries : Nat} {payload : List UInt32}
    {info info' : PulseInfo} (h : Logged info entries)
    (hprocess : info.process ready thresh timestamp payload = some info') :
    Logged info' (entries + 1) := by
  obtain ⟨charge, -, hprocess⟩ := Option.bind_eq_some_iff.mp hprocess
  obtain ⟨field, -, hprocess⟩ := Option.bind_eq_some_iff.mp hprocess
  simp only [Logged, columns, PulseLog.append, List.length_append, List.replicate,
    List.cons.injEq, and_true] at h
  obtain ⟨htimes, hfreqs, hflags, hcharges⟩ := h
  -- the entry is in the buffers
  have hlogTime : ∀ info₁ : PulseInfo, info₁.written = info.written →
      info₁.buffered.times = info.buffered.times → info₁.buffered.freqs = info.buffered.freqs →
      info₁.buffered.flags = info.buffered.flags ++ [field &&& 0xfffff] →
      info₁.buffered.charges = info.buffered.charges ++ [charge] →
      Logged (info₁.logTime timestamp) (entries + 1) := by
    intro info₁ hwritten ht hfr hfl hch
    rw [PulseInfo.logTime]
    split <;>
    · simp only [Logged, columns, PulseLog.append, List.length_append, List.replicate,
        List.cons.injEq, and_true, hwritten, ht, hfr, hfl, hch, List.length_cons,
        List.length_nil]
      omega
  have hlogged := hlogTime { info with
    buffered := { info.buffered with
      charges := info.buffered.charges ++ [charge]
      flags := info.buffered.flags ++ [field &&& 0xfffff] } } rfl rfl rfl rfl rfl
  dsimp only at hprocess
  split at hprocess
  · cases hprocess
    simpa [Logged, columns, PulseLog.append, PulseLog.empty, PulseInfo.pulseBuffersReady]
      using hlogged
  · cases hprocess
    exact hlogged

/-- Banks do not touch the pulse counter. -/
theorem pulses_processBankEvents {ready : Bool} {p p' : StreamParser} {bank : BankSection}
    (h : p.processBankEvents ready bank = some p') : p'.pulses = p.pulses := by
  obtain ⟨grown, -, h⟩ := Option.bind_eq_some_iff.mp h
  obtain ⟨⟨banks, bi⟩, -, h⟩ := Option.bind_eq_some_iff.mp h
  simp only at h
  split at h
  · cases h
    rfl
  · split at h
    · obtain ⟨events, -, h⟩ := Option.bind_eq_some_iff.mp h
      obtain ⟨bi', -, h⟩ := Option.bind_eq_some_iff.mp h
      obtain ⟨banks', -, h⟩ := Option.bind_eq_some_iff.mp h
      cases h
      rfl
    · obtain ⟨banks', -, h⟩ := Option.bind_eq_some_iff.mp h
      cases h
      rfl

theorem pulses_rxPacket {ready : Bool} {p p' : StreamParser} {pkt : StreamPacket}
    (h : p.rxPacket ready pkt = some p') : p'.pulses = counted p.pulses pkt := by
  rw [rxPacket_eq] at h
  obtain ⟨banks, -, h⟩ := Option.bind_eq_some_iff.mp h
  exact Runs.invariant (I := fun p' => p'.pulses = counted p.pulses pkt)
    (fun s bank s' hs hstep => (pulses_processBankEvents hstep).trans hs) rfl h

/-- Beam monitors touch neither the pulse counter nor the log. -/
theorem frame_processMonitorEvents {ready : Bool} {s s' : EventStream}
    {monitor : MonitorSection} (h : s.processMonitorEvents ready monitor = some s') :
    s'.parser = s.parser ∧ s'.pulseInfo = s.pulseInfo := by
  obtain ⟨events, -, h⟩ := Option.bind_eq_some_iff.mp h
  split at h
  · obtain ⟨mi, -, h⟩ := Option.bind_eq_some_iff.mp h
    cases h
    exact ⟨rfl, rfl⟩
  · obtain ⟨mi, -, h⟩ := Option.bind_eq_some_iff.mp h
    cases h
    exact ⟨rfl, rfl⟩

theorem frame_processMonitors {ready : Bool} {s s' : EventStream} {payload : List UInt32}
    (h : processMonitors ready s payload = some s') :
    s'.parser = s.parser ∧ s'.pulseInfo = s.pulseInfo := by
  have hduplicate : (StreamParser.isDuplicate payload).isSome := by
    obtain ⟨duplicate, hduplicate, -⟩ := Option.bind_eq_some_iff.mp h
    rw [hduplicate]
    rfl
  rw [MonitorEvents.processMonitors_eq hduplicate] at h
  exact Runs.invariant
    (I := fun t : EventStream => t.parser = s.parser ∧ t.pulseInfo = s.pulseInfo)
    (fun t monitor t' ht hstep => by
      obtain ⟨hparser, hinfo⟩ := frame_processMonitorEvents hstep
      exact ⟨hparser.trans ht.1, hinfo.trans ht.2⟩) ⟨rfl, rfl⟩ h

/-- How a packet of a kind is counted. -/
def countKind (c : PulseCounter) : Kind → PulseCounter
  | .banked => c.countBanked
  | .monitor => c.countMonitor
  | .lostBanked => c.countBanked

/-- What a step does to the pulse counter and to the log: only a banked event packet that is
    processed adds to the log. -/
theorem step_spec {s s' : EventStream} {op : Bool × StreamOp} {entries : Nat}
    (h : Logged s.pulseInfo entries) (hstep : s.step op = some s') :
    s'.parser.pulses = ((kindOf op.2).map (countKind s.parser.pulses)).getD s.parser.pulses ∧
      Logged s'.pulseInfo (entries + if kindOf op.2 = some .banked then 1 else 0) := by
  obtain ⟨ready, op⟩ := op
  cases op with
  | monitorConfig configs =>
    cases hstep
    -- the configurations are folded into the monitors, which neither the counter nor the log has
    -- a part in
    have hframe : ∀ (cs : List BeamMonitorConfig) (t : EventStream),
        (cs.foldl addMonitor t).parser = t.parser ∧
          (cs.foldl addMonitor t).pulseInfo = t.pulseInfo := by
      intro cs
      induction cs with
      | nil => exact fun t => ⟨rfl, rfl⟩
      | cons c cs ih => exact fun t => ih _
    obtain ⟨hparser, hinfo⟩ := hframe _ s
    exact ⟨congrArg StreamParser.pulses hparser, hinfo.symm ▸ h⟩
  | oversize hdr =>
    cases hstep
    cases hdr with
    | none => exact ⟨rfl, h⟩
    | some hdr => cases hdr <;> exact ⟨rfl, h⟩
  | packet timestamp pkt =>
    obtain ⟨parser, hparser, hrest⟩ := Option.bind_eq_some_iff.mp hstep
    have hpulses := pulses_rxPacket hparser
    -- both kinds of banked event packets log a pulse that is not a duplicate
    have hbanked : ∀ payload,
        logPulse ready { s with parser } timestamp payload = some s' →
        s'.parser = parser ∧ Logged s'.pulseInfo
          (entries + if StreamParser.isDuplicate payload = some true then 0 else 1) := by
      intro payload hlog
      obtain ⟨duplicate, hduplicate, hlog⟩ := Option.bind_eq_some_iff.mp hlog
      rw [hduplicate]
      cases duplicate with
      | true =>
        cases hlog
        exact ⟨rfl, h⟩
      | false =>
        obtain ⟨info, hprocess, hlog⟩ := Option.bind_eq_some_iff.mp hlog
        cases hlog
        exact ⟨rfl, h.process hprocess⟩
    cases pkt with
    | bankedEvent payload =>
      obtain ⟨hsame, hlogged⟩ := hbanked payload hrest
      rw [hsame, hpulses, counted]
      simp only [kindOf]
      split
      · rename_i hduplicate
        rw [if_pos hduplicate] at hlogged
        exact ⟨rfl, hlogged⟩
      · rename_i hduplicate
        rw [if_neg hduplicate] at hlogged
        exact ⟨rfl, hlogged⟩
    | bankedEventState payload =>
      obtain ⟨hsame, hlogged⟩ := hbanked payload hrest
      rw [hsame, hpulses, counted]
      simp only [kindOf]
      split
      · rename_i hduplicate
        rw [if_pos hduplicate] at hlogged
        exact ⟨rfl, hlogged⟩
      · rename_i hduplicate
        rw [if_neg hduplicate] at hlogged
        exact ⟨rfl, hlogged⟩
    | beamMonitor payload =>
      obtain ⟨hsame, hinfo⟩ := frame_processMonitors hrest
      rw [hsame, hinfo, hpulses, counted]
      simp only [kindOf]
      split
      · exact ⟨rfl, h⟩
      · exact ⟨rfl, h⟩

/-! ### Runs -/

/-- The pulses counted ahead of the log for a beam monitor packet that has come first. -/
def ahead (c : PulseCounter) : Nat := if c.pulseFlag = 2 then 1 else 0

/-- What has to follow for the counter to agree with the log in the end, after the packets
    that set the flag. -/
def PairedFrom (flag : Nat) (ks : List Kind) : Prop :=
  if flag = 1 then WellPaired (.banked :: ks)
  else if flag = 2 then WellPaired (.monitor :: ks)
  else WellPaired ks

/-- The flag tells which of the two packets of a pulse has come, if one has. -/
def FlagKnown (c : PulseCounter) : Prop := c.pulseFlag = 0 ∨ c.pulseFlag = 1 ∨ c.pulseFlag = 2

/-- The first packet of a pulse counts it, and sets its own flag. -/
theorem countKind_zero (count : Nat) (kind : Kind) :
    countKind ⟨count, 0⟩ kind = ⟨count + 1, if kind = .monitor then 2 else 1⟩ := by
  cases kind <;> simp [countKind, PulseCounter.countBanked, PulseCounter.countMonitor,
    PulseCounter.count]

/-- A packet keeps what the counter is ahead of the log for good, or adds to it where the
    packets are not paired. -/
theorem countKind_spec {c : PulseCounter} (h : FlagKnown c) (kind : Kind) {entries lost : Nat}
    (hcount : c.pulseCount = entries + ahead c + lost) :
    FlagKnown (countKind c kind) ∧ ∃ lost',
      (countKind c kind).pulseCount =
        entries + (if some kind = some .banked then 1 else 0) + ahead (countKind c kind) + lost' ∧
      ∀ ks, lost' = 0 ∧ PairedFrom (countKind c kind).pulseFlag ks ↔
        lost = 0 ∧ PairedFrom c.pulseFlag (kind :: ks) := by
  obtain ⟨count, flag⟩ := c
  have hnever : ∀ {q : Prop}, (lost + 1 = 0 ∧ q ↔ lost = 0 ∧ False) := by simp
  rcases h with h | h | h <;> cases h
  · -- a new pulse
    have hcount : count = entries + 0 + lost := hcount
    rw [countKind_zero]
    cases kind with
    | banked => exact ⟨.inr (.inl rfl), lost, by show count + 1 = entries + 1 + 0 + lost; omega,
        fun ks => Iff.rfl⟩
    | monitor => exact ⟨.inr (.inr rfl), lost, by show count + 1 = entries + 0 + 1 + lost; omega,
        fun ks => Iff.rfl⟩
    | lostBanked => exact ⟨.inr (.inl rfl), lost + 1,
        by show count + 1 = entries + 0 + 0 + (lost + 1); omega, fun ks => hnever⟩
  · -- the banked events of the pulse have come
    have hcount : count = entries + 0 + lost := hcount
    cases kind with
    | banked => exact ⟨.inr (.inl rfl), lost, by show count + 1 = entries + 1 + 0 + lost; omega,
        fun ks => Iff.rfl⟩
    | monitor => exact ⟨.inl rfl, lost, by show count = entries + 0 + 0 + lost; omega,
        fun ks => Iff.rfl⟩
    | lostBanked => exact ⟨.inr (.inl rfl), lost + 1,
        by show count + 1 = entries + 0 + 0 + (lost + 1); omega, fun ks => hnever⟩
  · -- its beam monitors have come, and the counter is one ahead
    have hcount : count = entries + 1 + lost := hcount
    cases kind with
    | banked => exact ⟨.inl rfl, lost, by show count = entries + 1 + 0 + lost; omega,
        fun ks => Iff.rfl⟩
    | monitor => exact ⟨.inr (.inr rfl), lost + 1,
        by show count + 1 = entries + 0 + 1 + (lost + 1); omega, fun ks => hnever⟩
    | lostBanked => exact ⟨.inl rfl, lost + 1,
        by show count = entries + 0 + 0 + (lost + 1); omega, fun ks => hnever⟩

/-- After a run the counter and the log agree just when they were not apart for good before,
    and the packets are paired. -/
theorem run_spec {s s' : EventStream} {ops : List (Bool × StreamOp)} {entries lost : Nat}
    (hlog : Logged s.pulseInfo entries) (hflag : FlagKnown s.parser.pulses)
    (hcount : s.parser.pulses.pulseCount = entries + ahead s.parser.pulses + lost)
    (hrun : Runs.run EventStream.step s ops = some s') :
    ∃ entries', Logged s'.pulseInfo entries' ∧
      (s'.parser.pulses.pulseCount = entries' ↔
        lost = 0 ∧ PairedFrom s.parser.pulses.pulseFlag (kinds ops)) := by
  induction ops generalizing s entries lost with
  | nil =>
    cases hrun
    refine ⟨entries, hlog, ?_⟩
    rcases hflag with hflag | hflag | hflag
    · simp [hcount, ahead, PairedFrom, kinds, hflag, WellPaired]
    · simp [hcount, ahead, PairedFrom, kinds, hflag, WellPaired]
    · simp [hcount, ahead, PairedFrom, kinds, hflag, WellPaired]
      omega
  | cons op ops ih =>
    obtain ⟨t, hstep, hrest⟩ := Runs.run_cons hrun
    obtain ⟨hpulses, hlogged⟩ := step_spec hlog hstep
    cases hkind : kindOf op.2 with
    | none =>
      -- nothing is counted and nothing logged
      rw [hkind] at hpulses hlogged
      have hkinds : kinds (op :: ops) = kinds ops := List.filterMap_cons_none hkind
      rw [hkinds, ← show t.parser.pulses = s.parser.pulses from hpulses]
      exact ih hlogged (hpulses ▸ hflag) (by rw [hpulses]; exact hcount) hrest
    | some kind =>
      rw [hkind] at hpulses hlogged
      have hkinds : kinds (op :: ops) = kind :: kinds ops := List.filterMap_cons_some hkind
      obtain ⟨hflag', lost', hcount', hpaired⟩ := countKind_spec hflag kind hcount
      have hcounted : t.parser.pulses = countKind s.parser.pulses kind := hpulses
      rw [← hcounted] at hflag' hcount' hpaired
      obtain ⟨entries', hlogged', hiff⟩ := ih hlogged hflag' hcount' hrest
      exact ⟨entries', hlogged', hiff.trans (by rw [hkinds]; exact hpaired _)⟩

/-- Pulses with both packets, banked events first, are counted one by one. -/
theorem run_pairs {s s' : EventStream} {ops : List (Bool × StreamOp)} {entries : Nat}
    (hlog : Logged s.pulseInfo entries) (hrun : Runs.run EventStream.step s ops = some s') :
    (s.parser.pulses.pulseFlag = 0 → ∀ pulses,
        kinds ops = (List.replicate pulses [Kind.banked, .monitor]).flatten →
        s'.parser.pulses.pulseCount = s.parser.pulses.pulseCount + pulses) ∧
      (s.parser.pulses.pulseFlag = 1 → ∀ pulses,
        kinds ops = .monitor :: (List.replicate pulses [Kind.banked, .monitor]).flatten →
        s'.parser.pulses.pulseCount = s.parser.pulses.pulseCount + pulses) := by
  induction ops generalizing s entries with
  | nil =>
    cases hrun
    refine ⟨fun _ pulses hkinds => ?_, fun _ pulses hkinds => nomatch hkinds⟩
    cases pulses with
    | zero => rfl
    | succ pulses => cases hkinds
  | cons op ops ih =>
    obtain ⟨t, hstep, hrest⟩ := Runs.run_cons hrun
    obtain ⟨hpulses, hlogged⟩ := step_spec hlog hstep
    obtain ⟨ih₀, ih₁⟩ := ih hlogged hrest
    cases hkind : kindOf op.2 with
    | none =>
      rw [hkind] at hpulses
      have hkinds : kinds (op :: ops) = kinds ops := List.filterMap_cons_none hkind
      have hsame : t.parser.pulses = s.parser.pulses := hpulses
      rw [hkinds, ← hsame]
      exact ⟨ih₀, ih₁⟩
    | some kind =>
      rw [hkind] at hpulses
      have hkinds : kinds (op :: ops) = kind :: kinds ops := List.filterMap_cons_some hkind
      have hcounted : t.parser.pulses = countKind s.parser.pulses kind := hpulses
      rw [hkinds]
      constructor
      · intro hflag pulses heq
        cases pulses with
        | zero => cases heq
        | succ pulses =>
          -- the banked event packet counts the pulse
          simp only [List.replicate_succ, List.flatten_cons, List.cons_append, List.nil_append,
            List.cons.injEq] at heq
          obtain ⟨rfl, heq⟩ := heq
          have hbanked : t.parser.pulses = ⟨s.parser.pulses.pulseCount + 1, 1⟩ := by
            rw [hcounted, countKind, PulseCounter.countBanked, PulseCounter.count, if_pos hflag,
              hflag]
            rfl
          rw [hbanked] at ih₁
          rw [ih₁ rfl pulses heq]
          show s.parser.pulses.pulseCount + 1 + pulses = _
          omega
      · intro hflag pulses heq
        simp only [List.cons.injEq] at heq
        obtain ⟨rfl, heq⟩ := heq
        have hmonitor : t.parser.pulses = ⟨s.parser.pulses.pulseCount, 0⟩ := by
          rw [hcounted, countKind, PulseCounter.countMonitor, PulseCounter.count,
            if_neg (by rw [hflag]; decide), if_pos hflag]
        rw [hmonitor] at ih₀
        exact ih₀ rfl pulses heq

/-! ### The claim -/

/-- After a run the pulse counter is the number of entries in every column of the log just
    when every beam monitor packet is paired with a banked event packet next to it, and no
    banked event packet is thrown away; and a pulse with both packets counts as one. -/
theorem countsAll_iff {eventThresh ancThresh : Nat} {banks : BankTable BankInfo}
    {ops : List (Bool × StreamOp)} {s : EventStream}
    (hrun : Runs.run EventStream.step (start eventThresh ancThresh banks) ops = some s) :
    ((∀ entries ∈ columns s.pulseInfo, s.parser.pulses.pulseCount = entries) ↔
        WellPaired (kinds ops)) ∧
      ∀ pulses, kinds ops = (List.replicate pulses [Kind.banked, .monitor]).flatten →
        s.parser.pulses.pulseCount = pulses := by
  have hstart : Logged (start eventThresh ancThresh banks).pulseInfo 0 := rfl
  have hcount : (start eventThresh ancThresh banks).parser.pulses.pulseCount =
      0 + ahead (start eventThresh ancThresh banks).parser.pulses + 0 := rfl
  obtain ⟨entries, hlogged, hiff⟩ := run_spec hstart (.inl rfl) hcount hrun
  constructor
  · rw [show columns s.pulseInfo = List.replicate 4 entries from hlogged]
    refine Iff.trans ⟨fun h => h entries (by simp), fun h n hn => ?_⟩
      (hiff.trans ⟨fun h => h.2, fun h => ⟨rfl, h⟩⟩)
    rw [List.eq_of_mem_replicate hn]
    exact h
  · intro pulses hkinds
    have hpairs := (run_pairs hstart hrun).1 rfl pulses hkinds
    rw [hpairs]
    exact Nat.zero_add pulses

/-- A pulse, a duplicate of it, and a pulse whose beam monitors come first. -/
def twoPulses : List (Bool × StreamOp) :=
  [(false, .packet 1000 (.bankedEvent [5, 0, 0, 0])),
    (true, .packet 1000 (.beamMonitor [5, 0, 0, 0])),
    (true, .packet 1000 (.bankedEvent [5, 0, 0, 0x20])),
    (true, .packet 2000 (.beamMonitor [6, 0, 0, 0])),
    (true, .packet 2000 (.bankedEventState [6, 0, 0, 0]))]

theorem countsAll_iff_twoPulses :
    ∃ s, Runs.run EventStream.step (start 2 2 (.new BankInfo)) twoPulses = some s ∧
      ((∀ entries ∈ columns s.pulseInfo, s.parser.pulses.pulseCount = entries) ↔
          WellPaired (kinds twoPulses)) ∧
      (∀ pulses, kinds twoPulses = (List.replicate pulses [Kind.banked, .monitor]).flatten →
        s.parser.pulses.pulseCount = pulses) ∧
      WellPaired (kinds twoPulses) ∧ s.parser.pulses.pulseCount = 2 := by
  have hrun : ∃ s, Runs.run EventStream.step (start 2 2 (.new BankInfo)) twoPulses = some s :=
    ⟨_, rfl⟩
  obtain ⟨s, hs⟩ := hrun
  obtain ⟨hiff, hpairs⟩ := countsAll_iff hs
  refine ⟨s, hs, hiff, hpairs, by decide, ?_⟩
  cases hs
  decide

/-- A banked event packet that is too large counts as a pulse, without an entry in the log,
    and so does a pulse without banked events. -/
theorem not_counted_oversize :
    (∃ s, Runs.run EventStream.step (start 10 10 (.new BankInfo))
        [(true, .oversize (some .bankedEvent)), (true, .packet 1000 (.beamMonitor [5, 0, 0, 0]))] =
          some s ∧
      s.parser.pulses.pulseCount = 1 ∧ columns s.pulseInfo = [0, 0, 0, 0]) ∧
    ∃ s, Runs.run EventStream.step (start 10 10 (.new BankInfo))
        [(true, .packet 1000 (.beamMonitor [5, 0, 0, 0])),
          (true, .packet 2000 (.beamMonitor [6, 0, 0, 0])),
          (true, .packet 2000 (.bankedEvent [6, 0, 0, 0]))] = some s ∧
      s.parser.pulses.pulseCount = 2 ∧ columns s.pulseInfo = [1, 1, 1, 1] := by
  constructor
  · exact ⟨_, rfl, by decide⟩
  · exact ⟨_, rfl, by decide⟩

end Adara.Spec.PulseLog
