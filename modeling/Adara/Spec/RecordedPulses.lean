import Adara.Spec.EventConservation
import Adara.Spec.PulseAccount
import Adara.Spec.TableRoom

/-! # From the pulses of the SMS to the buffers of the translator

The SMS files the events of data packets in pulses and records every pulse as packets; the
translator processes these packets and hands events to its adapter.  Put together, in a run of any
pulses, with or without states, and wherever the working directory gets ready, every bank that
stores events delivers the events the SMS filed in it, once and in order, and so does every beam
monitor; the counts of the run are those of the events filed (`delivered_of_pulses`).  This takes
packets whose lengths fit 32 bits and a table of banks that never gives up a bank or a state. -/

namespace Adara.Spec.RecordedPulses

open Adara.Native Adara.Native.EventStream
open Adara.Spec.EventFiling Adara.Spec.StateFiling Adara.Spec.StreamPackets
open Adara.Spec.EventIndex Adara.Spec.BankEvents Adara.Spec.EventConservation
open Adara.Spec.BankedWalk Adara.Spec.TableRoom

/-! ### The packets of a pulse -/

/-- The flags of a pulse are in the lower bits of the word with all flags. -/
theorem flagsWord_duplicate (p : Pulse) :
    decide (SMSControl.flagsWord p &&& 0xfffff &&& duplicatePulse ≠ 0) =
      p.hasFlag PulseFlags.duplicatePulse := by
  have hlow : SMSControl.flagsWord p &&& 0xfffff = p.flags &&& 0xfffff := by
    apply UInt32.toNat_inj.mp
    have hmask : (0xfffff : UInt32).toNat = 2 ^ 20 - 1 := rfl
    rw [SMSControl.flagsWord, UInt32.toNat_and, UInt32.toNat_add, UInt32.toNat_and, hmask,
      UInt32.toNat_shiftLeft, Nat.and_two_pow_sub_one_eq_mod, Nat.and_two_pow_sub_one_eq_mod]
    show (_ + _ <<< 20 % 2 ^ 32) % 2 ^ 32 % 2 ^ 20 = _
    rw [Nat.shiftLeft_eq]
    omega
  rw [hlow, UInt32.and_assoc]
  show decide (p.flags &&& duplicatePulse ≠ 0) = (p.flags &&& duplicatePulse != 0)
  rw [Bool.eq_iff_iff, decide_eq_true_eq, bne_iff_ne]

/-- The events of the beam monitors of a pulse. -/
def monitorEvents (p : Pulse) : List (Nat × List UInt32) :=
  p.monitors.entries.map fun e => (e.1.toNat, e.2.eventTof)

section Packets

variable {pm : PixelMap} {p : Pulse} {log : List FiledState} {pulseEnergy : UInt32 → UInt32}

/-- The call for the monitor packet. -/
theorem exists_monitorOp (pulseEnergy : UInt32 → UInt32) (h : MonitorPacket.Filled p)
    (hcounts : ∀ e ∈ p.monitors.entries, e.2.eventTof.length < 2 ^ 22)
    (hfits : MonitorPacket.packetBytes p < Word32.modulus) :
    ∃ words timestamp payload, SMSControl.buildMonitorPacket pulseEnergy p = some words ∧
      StreamOp.ofWords words = some (.packet timestamp (.beamMonitor payload)) ∧
      StreamParser.isDuplicate payload = some (p.hasFlag PulseFlags.duplicatePulse) ∧
      (MonitorEvents.monitorsOf payload.length (payload.drop 4)).map
          (fun monitor => (monitor.monitorId, monitor.eventCount, monitor.events)) =
        p.monitors.entries.map fun e => (e.1.toNat, e.2.eventTof.length, some e.2.eventTof) := by
  have hbuild : SMSControl.buildMonitorPacket pulseEnergy p =
      some (SMSControl.monitorHeader pulseEnergy p ++
        MonitorPacket.sectionWords p.monitors.entries) := by
    rw [SMSControl.buildMonitorPacket, MonitorPacket.reservedMonitorHdrs_eq hfits,
      if_neg (Nat.lt_irrefl _)]
    rfl
  refine ⟨_, _, MonitorPacket.pulseWords pulseEnergy p ++
    MonitorPacket.sectionWords p.monitors.entries, hbuild, rfl, ?_, ?_⟩
  · exact congrArg some (flagsWord_duplicate p)
  · have hes : ∀ e ∈ p.monitors.entries, MonitorPacket.FitsWord e := fun e he =>
      ⟨h.ids e.1 (List.mem_map_of_mem he), hcounts e he⟩
    apply MonitorPacket.monitorsOf_eq hes
    rw [List.length_append, MonitorPacket.length_sectionWords]
    omega

/-- The call for the packet with the banked events. -/
theorem exists_bankedOp (pulseEnergy : UInt32 → UInt32) (h : Reached pm p log)
    (hfits : BankedWalk.packetBytes p < Word32.modulus) :
    ∃ words timestamp payload pkt banks,
      SMSControl.buildEvents (maxBank pm) pulseEnergy p = some words ∧
      StreamOp.ofWords words = some (.packet timestamp pkt) ∧
      (pkt = .bankedEvent payload ∨ pkt = .bankedEventState payload) ∧
      StreamParser.isDuplicate payload = some (p.hasFlag PulseFlags.duplicatePulse) ∧
      sectionsOf pkt =
        some (if p.hasFlag PulseFlags.duplicatePulse then [] else banks) ∧
      banks.map readingOf = (places p).flatMap (sectionAt (maxBank pm) log) := by
  have hbuild := buildEvents_eq (maxBank pm) pulseEnergy h.assembled.counted hfits
  let tail := sourcesWords (hasStates p) (maxBank pm) p.pulseSources.entries
  let payload : List UInt32 :=
    (if p.hasFlag PulseFlags.gotNeutrons then p.charge else 0) :: pulseEnergy p.ringPeriod ::
      p.cycle :: SMSControl.flagsWord p :: tail
  have hfuel : p.pulseSources.entries.length ≤ payload.length :=
    (length_le_sourcesWords _ _ _).trans (Nat.le_add_right _ 4)
  obtain ⟨banks, hbanks, hreadings⟩ := exists_sections h hfits hfuel
  have hdup : StreamParser.isDuplicate payload =
      some (p.hasFlag PulseFlags.duplicatePulse) := congrArg some (flagsWord_duplicate p)
  have hsections : bankedSections (hasStates p) payload =
      some (if p.hasFlag PulseFlags.duplicatePulse then [] else banks) := by
    rw [bankedSections, hdup, Option.bind_some]
    split
    · rfl
    · exact hbanks
  rw [sections_eq h] at hreadings
  -- the two kinds of packets differ in their type, and in the sections read
  cases hstates : hasStates p with
  | true =>
    rw [hstates] at hbuild hsections
    exact ⟨_, _, payload, .bankedEventState payload, banks, hbuild, by
      simp only [tail, payload, hstates]
      rfl, .inr rfl, hdup, hsections, hreadings⟩
  | false =>
    rw [hstates] at hbuild hsections
    exact ⟨_, _, payload, .bankedEvent payload, banks, hbuild, by
      simp only [tail, payload, hstates]
      rfl, .inl rfl, hdup, hsections, hreadings⟩

end Packets

/-! ### What some calls carry -/

/-- Some calls of the translator carry the events filed in banks, in order, and those of beam
    monitors. -/
structure Carries (ops : List (Bool × StreamOp)) (fs : List FiledState)
    (ms : List (Nat × List UInt32)) : Prop where
  selected : ∀ select, selectedFrom select (bankSections ops) =
    (fs.filter fun f => select (filedKey f)).map FiledState.event
  counts : ∀ bank ∈ bankSections ops, (bank.events.getD []).length = bank.eventCount
  monitors : (monitorSections ops).map
      (fun monitor => (monitor.monitorId, monitor.eventCount, monitor.events)) =
    ms.map fun m => (m.1, m.2.length, some m.2)

theorem Carries.nil : Carries [] [] [] where
  selected := fun _ => rfl
  counts := List.forall_mem_nil _
  monitors := rfl

theorem Carries.append {ops ops' : List (Bool × StreamOp)} {fs fs' : List FiledState}
    {ms ms' : List (Nat × List UInt32)} (h : Carries ops fs ms) (h' : Carries ops' fs' ms') :
    Carries (ops ++ ops') (fs ++ fs') (ms ++ ms') where
  selected select := by
    rw [bankSections, List.flatMap_append, selectedFrom, List.flatMap_append, List.filter_append,
      List.map_append]
    exact congrArg₂ _ (h.selected select) (h'.selected select)
  counts := by
    intro bank hbank
    rw [bankSections, List.flatMap_append] at hbank
    rcases List.mem_append.mp hbank with hbank | hbank
    · exact h.counts bank hbank
    · exact h'.counts bank hbank
  monitors := by
    rw [monitorSections, List.flatMap_append, List.map_append, List.map_append]
    exact congrArg₂ _ h.monitors h'.monitors

/-- Calls that have nothing for a bank or a beam monitor. -/
theorem Carries.nothing {ops : List (Bool × StreamOp)} (hbanks : bankSections ops = [])
    (hmonitors : monitorSections ops = []) : Carries ops [] [] where
  selected select := by
    rw [hbanks]
    rfl
  counts := by
    rw [hbanks]
    exact List.forall_mem_nil _
  monitors := by
    rw [hmonitors]
    rfl

/-! ### Steps of the translator -/

section Step

variable {sets : BankKey → Option (List (Option UInt32))} {done : List (Bool × StreamOp)}
  {s s' : EventStream} {ready : Bool} {timestamp : Nat}

/-- The banks of a packet are processed by the parser. -/
theorem parser_rxPacket {pkt : StreamPacket} (hmonitors : MonitorEvents.Collected
      (monitorSections done) s)
    (hduplicate : ∀ payload, pkt = .beamMonitor payload →
      (StreamParser.isDuplicate payload).isSome ∧
        ∀ monitor ∈ MonitorEvents.sectionsOf pkt, monitor.events.isSome)
    (h : s.rxPacket ready timestamp pkt = some s') :
    s.parser.rxPacket ready pkt = some s'.parser := by
  rw [EventStream.rxPacket] at h
  obtain ⟨parser, hparser, h⟩ := Option.bind_eq_some_iff.mp h
  have hlog : ∀ payload, logPulse ready { s with parser } timestamp payload = some s' →
      s'.parser = parser := by
    intro payload hlog
    rw [logPulse] at hlog
    obtain ⟨duplicate, -, hlog⟩ := Option.bind_eq_some_iff.mp hlog
    split at hlog
    · cases hlog
      rfl
    · obtain ⟨pulseInfo, -, hlog⟩ := Option.bind_eq_some_iff.mp hlog
      cases hlog
      rfl
  cases pkt with
  | bankedEvent payload => rw [hparser, hlog payload h]
  | bankedEventState payload => rw [hparser, hlog payload h]
  | beamMonitor payload =>
    obtain ⟨hsome, hevents⟩ := hduplicate payload rfl
    have hcollected : MonitorEvents.Collected (monitorSections done) { s with parser } :=
      hmonitors.congr rfl rfl rfl
    obtain ⟨s'', hs'', hsame, -⟩ := collected_processMonitors hcollected hsome hevents
    cases hs''.symm.trans h
    rw [hparser, hsame]

/-- A packet is processed where its sections have their events in the payload and the table has
    room for them. -/
theorem packet_step (ready : Bool) (timestamp : Nat) (h : Conserved sets done s)
    {pkt : StreamPacket} {banks : List BankSection} {d : Nat × Nat} (hsections : sectionsOf pkt = some banks)
    (hevents : ∀ bank ∈ banks, bank.events.isSome ∧ bank.eventCount < 2 ^ 31)
    (hmonitors : ∀ monitor ∈ MonitorEvents.sectionsOf pkt, monitor.events.isSome)
    (hgrow : Runs.run growTo (extent s.parser.banks)
      (banks.map fun bank => (bank.roomFor, bank.state)) = some d) :
    ∃ s', s.step (ready, .packet timestamp pkt) = some s' ∧
      Conserved sets (done ++ [(ready, .packet timestamp pkt)]) s' ∧
      extent s'.parser.banks = d := by
  have halloc : Spec.BankTable.Allocated
      ({ s.parser with pulses := counted s.parser.pulses pkt } : StreamParser).banks :=
    h.banks.alloc
  obtain ⟨halong, hextents⟩ := along_sections ready halloc
    (fun bank hbank => (hevents bank hbank).1) hgrow
  have hpacket : PacketSafe s.parser (ready, pkt) := by
    rw [PacketSafe, hsections]
    exact halong
  have hsafe : OpSafe s (ready, .packet timestamp pkt) := by
    refine ⟨hpacket, ?_, hmonitors⟩
    rw [hsections]
    exact fun bank hbank => (hevents bank hbank).2
  obtain ⟨s', hs', hconserved⟩ := h.packet hsafe
  refine ⟨s', hs', hconserved, ?_⟩
  have hduplicate : ∀ payload, pkt = .beamMonitor payload →
      (StreamParser.isDuplicate payload).isSome ∧
        ∀ monitor ∈ MonitorEvents.sectionsOf pkt, monitor.events.isSome := by
    rintro payload rfl
    exact ⟨isDuplicate_of_safe hpacket, hmonitors⟩
  have hparser := parser_rxPacket h.monitors hduplicate hs'
  rw [rxPacket_eq, hsections] at hparser
  exact hextents s'.parser hparser

end Step

section Pulse

variable {pm : PixelMap} {p : Pulse} {log : List FiledState} {banks : List BankSection}

/-- The sections of a pulse have all their events. -/
theorem events_of_section (h : Reached pm p log) (hfits : BankedWalk.packetBytes p < Word32.modulus)
    (hbanks : banks.map readingOf = (places p).flatMap (sectionAt (maxBank pm) log))
    {bank : BankSection} (hbank : bank ∈ banks) :
    bank.events.isSome ∧ bank.eventCount < 2 ^ 31 ∧
      (bank.events.getD []).length = bank.eventCount := by
  have hmem : readingOf bank ∈ (places p).flatMap (sectionAt (maxBank pm) log) := by
    rw [← hbanks]
    exact List.mem_map_of_mem hbank
  obtain ⟨pl, hpl, hreading⟩ := List.mem_flatMap.mp hmem
  rw [sectionAt] at hreading
  split at hreading
  · cases hreading
  · have heq := List.mem_singleton.mp hreading
    obtain ⟨-, hrest⟩ := Prod.mk.inj heq
    obtain ⟨-, hrest⟩ := Prod.mk.inj hrest
    obtain ⟨hcount, hevents⟩ := Prod.mk.inj hrest
    -- the place is one in the array of a source
    obtain ⟨e, he, hindex⟩ := List.mem_flatMap.mp hpl
    obtain ⟨i, hi, rfl⟩ := List.mem_map.mp hindex
    have hslot := slot_eq h he i
    have hin : slot e.2.banksArr i ∈ e.2.banksArr := by
      rw [slot, List.getElem?_eq_getElem (List.mem_range.mp hi)]
      exact List.getElem_mem _
    have hle : (slot e.2.banksArr i).length ≤ total e.2.banksArr :=
      BankedState.tally_le_of_mem List.length hin
    have htotal := BankedState.total_le_allEvents he
    have hlengths := lengths_of_fits hfits
    have hmod : Word32.modulus = 2 ^ 32 := rfl
    rw [hevents, hcount, ← hslot]
    exact ⟨rfl, by omega, rfl⟩

end Pulse

/-! ### A run of pulses -/

/-- What comes to the translator: the packets of a recorded pulse with the events filed in it,
    and whether the working directory is ready for each packet; or configurations of beam
    monitors. -/
inductive Sent where
  | pulse (ready : Bool × Bool) (p : Pulse) (log : List FiledState)
  | monitorConfig (ready : Bool) (configs : List BeamMonitorConfig)

namespace Sent

/-- The calls of the translator. -/
def callsOf (maxBank : Nat) (pulseEnergy : UInt32 → UInt32) :
    Sent → Option (List (Bool × StreamOp))
  | pulse ready p _ => do
    let pkts ← SMSControl.eventPackets maxBank pulseEnergy p
    let ops ← pkts.mapM StreamOp.ofWords
    some ([ready.1, ready.2].zip ops)
  | monitorConfig ready configs => some [(ready, .monitorConfig configs)]

/-- The pulse was made by filing these events, and the lengths of its packets fit; or all formats
    are known. -/
def Sound (pm : PixelMap) : Sent → Prop
  | pulse _ p log => Reached pm p log ∧ BankedWalk.packetBytes p < Word32.modulus ∧
      MonitorPacket.packetBytes p < Word32.modulus ∧
      ∀ e ∈ p.monitors.entries, e.2.eventTof.length < 2 ^ 22
  | monitorConfig _ configs => ∀ config ∈ configs, MonitorEvents.KnownFormat config

/-- The events filed in the banks of a pulse, in the order of its packet.  The translator passes
    over a duplicate. -/
def filed (maxBank : Nat) : Sent → List FiledState
  | pulse _ p log => if p.hasFlag PulseFlags.duplicatePulse then [] else inOrder maxBank p log
  | monitorConfig _ _ => []

/-- The events of the beam monitors of a pulse. -/
def monitored : Sent → List (Nat × List UInt32)
  | pulse _ p _ => if p.hasFlag PulseFlags.duplicatePulse then [] else monitorEvents p
  | monitorConfig _ _ => []

end Sent

/-- The calls for all that is sent. -/
def opsOf (maxBank : Nat) (pulseEnergy : UInt32 → UInt32) :
    List Sent → Option (List (Bool × StreamOp))
  | [] => some []
  | x :: xs => do
    let ops ← x.callsOf maxBank pulseEnergy
    let rest ← opsOf maxBank pulseEnergy xs
    some (ops ++ rest)

section Run

variable {pm : PixelMap} {sets : BankKey → Option (List (Option UInt32))}
  {done : List (Bool × StreamOp)} {s : EventStream} {d : Nat × Nat}

/-- The two packets of a pulse are processed one after the other. -/
theorem pulse_step (pulseEnergy : UInt32 → UInt32) {ready : Bool × Bool} {p : Pulse}
    {log : List FiledState} (hsound : (Sent.pulse ready p log).Sound pm)
    (h : Conserved sets done s)
    (hgrow : Runs.run growTo (extent s.parser.banks)
      (((Sent.pulse ready p log).filed (maxBank pm)).map callFor) = some d) :
    ∃ ops s', (Sent.pulse ready p log).callsOf (maxBank pm) pulseEnergy = some ops ∧
      Runs.run EventStream.step s ops = some s' ∧ Conserved sets (done ++ ops) s' ∧
      extent s'.parser.banks = d ∧
      Carries ops ((Sent.pulse ready p log).filed (maxBank pm))
        (Sent.pulse ready p log).monitored := by
  obtain ⟨hreached, hbanked, hmonitor, hcounts⟩ := hsound
  obtain ⟨words, ts, payload, hbuild, hop, hdup, hsections⟩ :=
    exists_monitorOp pulseEnergy hreached.holds.2 hcounts hmonitor
  obtain ⟨words', ts', payload', pkt, banks, hbuild', hop', hkind, hdup', hsections', hbanks⟩ :=
    exists_bankedOp pulseEnergy hreached hbanked
  have hnone : sectionsOf (.beamMonitor payload) = some [] := by
    rw [sectionsOf, hdup]
    rfl
  have hevents : ∀ monitor ∈ MonitorEvents.sectionsOf (.beamMonitor payload),
      monitor.events.isSome := by
    intro monitor hmem
    rw [MonitorEvents.sectionsOf] at hmem
    split at hmem
    · cases hmem
    · have hreading := List.mem_map_of_mem (f := fun monitor : MonitorSection =>
        (monitor.monitorId, monitor.eventCount, monitor.events)) hmem
      rw [hsections] at hreading
      obtain ⟨e, -, heq⟩ := List.mem_map.mp hreading
      rw [← (Prod.mk.inj (Prod.mk.inj heq).2).2]
      rfl
  have hmonitors' : MonitorEvents.sectionsOf pkt = [] := by
    rcases hkind with rfl | rfl <;> rfl
  -- the monitor packet leaves the table of banks as it is
  obtain ⟨s₁, hs₁, h₁, hextent⟩ := packet_step ready.1 ts h hnone
    (List.forall_mem_nil _) hevents rfl
  let secs := if p.hasFlag PulseFlags.duplicatePulse then [] else banks
  have hsecs : ∀ bank ∈ secs, bank.events.isSome ∧ bank.eventCount < 2 ^ 31 ∧
      (bank.events.getD []).length = bank.eventCount := by
    intro bank hbank
    simp only [secs] at hbank
    split at hbank
    · cases hbank
    · exact events_of_section hreached hbanked hbanks hbank
  have hgrow' : Runs.run growTo (extent s₁.parser.banks)
      (secs.map fun bank => (bank.roomFor, bank.state)) = some d := by
    rw [hextent, ← hgrow]
    simp only [secs, Sent.filed]
    split
    · rfl
    · exact run_sections hreached hbanks _
  obtain ⟨s₂, hs₂, h₂, hextent₂⟩ := packet_step ready.2 ts' h₁ hsections'
    (fun bank hbank => ⟨(hsecs bank hbank).1, (hsecs bank hbank).2.1⟩)
    (by rw [hmonitors']; exact List.forall_mem_nil _) hgrow'
  refine ⟨[(ready.1, .packet ts (.beamMonitor payload)), (ready.2, .packet ts' pkt)], s₂, ?_, ?_,
    ?_, hextent₂, ?_⟩
  · simp only [Sent.callsOf, SMSControl.eventPackets, hbuild, hbuild', Option.bind_eq_bind,
      Option.bind_some, List.mapM_cons, List.mapM_nil, hop, hop', Option.pure_def,
      List.zip_cons_cons, List.zip_nil_right]
  · rw [Runs.run, hs₁, Option.bind_some, Runs.run, hs₂]
    rfl
  · rw [List.append_assoc] at h₂
    exact h₂
  · have hfirst : Carries [(ready.1, .packet ts (.beamMonitor payload))] []
        (Sent.pulse ready p log).monitored := by
      have hbank : bankSections [(ready.1, .packet ts (.beamMonitor payload))] = [] := by
        simp [bankSections, hnone]
      have hmonitored : monitorSections [(ready.1, .packet ts (.beamMonitor payload))] =
          MonitorEvents.sectionsOf (.beamMonitor payload) := by
        simp [monitorSections]
      refine ⟨?_, ?_, ?_⟩
      · intro select
        rw [hbank]
        rfl
      · rw [hbank]
        exact List.forall_mem_nil _
      · rw [hmonitored, MonitorEvents.sectionsOf, hdup, Sent.monitored]
        cases p.hasFlag PulseFlags.duplicatePulse with
        | true => rfl
        | false =>
          rw [if_neg (by simp), if_neg Bool.false_ne_true, hsections, monitorEvents,
            List.map_map]
          rfl
    have hsecond : Carries [(ready.2, .packet ts' pkt)]
        ((Sent.pulse ready p log).filed (maxBank pm)) [] := by
      have hbank : bankSections [(ready.2, .packet ts' pkt)] = secs := by
        simp [bankSections, hsections', secs]
      have hmonitored : monitorSections [(ready.2, .packet ts' pkt)] = [] := by
        simp [monitorSections, hmonitors']
      refine ⟨?_, ?_, ?_⟩
      · intro select
        rw [hbank, Sent.filed]
        simp only [secs]
        cases p.hasFlag PulseFlags.duplicatePulse with
        | true => rfl
        | false => exact selectedFrom_eq hreached hbanks select
      · rw [hbank]
        exact fun bank hmem => (hsecs bank hmem).2.2
      · rw [hmonitored]
        rfl
    have hboth := hfirst.append hsecond
    rw [List.nil_append, List.append_nil] at hboth
    exact hboth

/-- Whatever is sent comes to its end, and carries what it was made from. -/
theorem sent_step (pulseEnergy : UInt32 → UInt32) {x : Sent} (hsound : x.Sound pm)
    (h : Conserved sets done s)
    (hgrow : Runs.run growTo (extent s.parser.banks) ((x.filed (maxBank pm)).map callFor) =
      some d) :
    ∃ ops s', x.callsOf (maxBank pm) pulseEnergy = some ops ∧
      Runs.run EventStream.step s ops = some s' ∧ Conserved sets (done ++ ops) s' ∧
      extent s'.parser.banks = d ∧ Carries ops (x.filed (maxBank pm)) x.monitored := by
  cases x with
  | pulse ready p log => exact pulse_step pulseEnergy hsound h hgrow
  | monitorConfig ready configs =>
    have hsafe : OpSafe s (ready, .monitorConfig configs) := hsound
    obtain ⟨s', hs', hconserved⟩ := h.step hsafe
    obtain ⟨-, hparser⟩ := h.monitors.rxBeamMonitorConfig hsound
    have hextent : extent s'.parser.banks = d := by
      cases hs'
      rw [hparser]
      exact Option.some.inj hgrow
    refine ⟨_, s', rfl, ?_, hconserved, hextent, Carries.nothing rfl rfl⟩
    rw [Runs.run, hs']
    rfl

theorem sent_run (pulseEnergy : UInt32 → UInt32) {sent : List Sent}
    (hsound : ∀ x ∈ sent, x.Sound pm) (h : Conserved sets done s)
    (hroom : Roomy (extent s.parser.banks) (sent.flatMap (Sent.filed (maxBank pm)))) :
    ∃ ops s', opsOf (maxBank pm) pulseEnergy sent = some ops ∧
      Runs.run EventStream.step s ops = some s' ∧ Conserved sets (done ++ ops) s' ∧
      Carries ops (sent.flatMap (Sent.filed (maxBank pm))) (sent.flatMap Sent.monitored) := by
  induction sent generalizing done s with
  | nil => exact ⟨[], s, rfl, rfl, by rwa [List.append_nil], Carries.nil⟩
  | cons x sent ih =>
    obtain ⟨hx, hrest⟩ := List.forall_mem_cons.mp hsound
    rw [Roomy, List.flatMap_cons, List.map_append, Runs.run_append] at hroom
    obtain ⟨d', hd'⟩ := Option.isSome_iff_exists.mp hroom
    obtain ⟨d, hgrow, hgrow'⟩ := Option.bind_eq_some_iff.mp hd'
    obtain ⟨ops, s₁, hops, hrun, h₁, hextent, hcarries⟩ := sent_step pulseEnergy hx h hgrow
    have hroom' : Roomy (extent s₁.parser.banks) (sent.flatMap (Sent.filed (maxBank pm))) := by
      rw [hextent, Roomy, hgrow']
      rfl
    obtain ⟨ops', s', hops', hrun', h', hcarries'⟩ := ih hrest h₁ hroom'
    refine ⟨ops ++ ops', s', ?_, ?_, ?_, ?_⟩
    · rw [opsOf, hops, hops']
      rfl
    · rw [Runs.run_append, hrun]
      exact hrun'
    · rwa [← List.append_assoc]
    · rw [List.flatMap_cons, List.flatMap_cons]
      exact hcarries.append hcarries'

end Run

/-! ### What is delivered -/

/-- The counts of the events filed, given the sets of the banks known. -/
def filedTotals (sets : BankKey → Option (List (Option UInt32))) (fs : List FiledState) :
    RunMetrics where
  eventsCounted :=
    fs.countP fun f => isDetector (filedKey f) && storesEvents sets (filedKey f)
  eventsUncounted := fs.countP fun f => !isDetector (filedKey f) || (sets (filedKey f)).isNone
  eventsUnmapped := fs.countP fun f => filedKey f = .unmapped
  eventsError := fs.countP fun f => filedKey f = .error

theorem eventsOf_eq (key : BankKey) (secs : List BankSection) :
    eventsOf key secs = selectedFrom (fun key' => key' = key) secs := by
  rw [eventsOf, selectedFrom]
  induction secs with
  | nil => rfl
  | cons bank secs ih =>
    rw [List.flatMap_cons, ← ih, List.filter_cons]
    by_cases hkey : bank.key = key
    · simp [hkey]
    · simp [hkey]

theorem countOf_eq (select : BankKey → Bool) {secs : List BankSection}
    (h : ∀ bank ∈ secs, (bank.events.getD []).length = bank.eventCount) :
    countOf select secs = (selectedFrom select secs).length := by
  rw [countOf, selectedFrom]
  induction secs with
  | nil => rfl
  | cons bank secs ih =>
    obtain ⟨hbank, hrest⟩ := List.forall_mem_cons.mp h
    rw [List.flatMap_cons, List.length_append, ← ih hrest, List.filter_cons]
    cases select bank.key with
    | true => simp [hbank]
    | false => simp

/-- The sections of beam monitors with some events have those of each monitor, and their
    number. -/
theorem monitorSections_eq {secs : List MonitorSection} {ms : List (Nat × List UInt32)}
    (h : secs.map (fun monitor => (monitor.monitorId, monitor.eventCount, monitor.events)) =
      ms.map fun m => (m.1, m.2.length, some m.2)) :
    (∀ monitorId, MonitorEvents.eventsOf monitorId secs =
      (ms.filter fun m => m.1 = monitorId).flatMap Prod.snd) ∧
      (secs.map MonitorSection.eventCount).sum = (ms.map fun m => m.2.length).sum ∧
      secs.map MonitorSection.monitorId = ms.map Prod.fst := by
  induction secs generalizing ms with
  | nil =>
    rw [List.map_eq_nil_iff.mp h.symm]
    exact ⟨fun _ => rfl, rfl, rfl⟩
  | cons monitor secs ih =>
    cases ms with
    | nil => cases h
    | cons m ms =>
      rw [List.map_cons, List.map_cons] at h
      obtain ⟨hfirst, hrest⟩ := List.cons_eq_cons.mp h
      obtain ⟨hid, hfirst⟩ := Prod.mk.inj hfirst
      obtain ⟨hcount, hevents⟩ := Prod.mk.inj hfirst
      obtain ⟨hall, hsum, hids⟩ := ih hrest
      refine ⟨fun monitorId => ?_, ?_, ?_⟩
      · rw [MonitorEvents.eventsOf, List.filter_cons, List.filter_cons, hid]
        by_cases hsame : m.1 = monitorId
        · simp only [hsame, decide_true, if_true, List.flatMap_cons, hevents, Option.getD_some]
          rw [← MonitorEvents.eventsOf, hall]
        · simp only [hsame, decide_false, Bool.false_eq_true, if_false]
          rw [← MonitorEvents.eventsOf, hall]
      · rw [List.map_cons, List.map_cons, List.sum_cons, List.sum_cons, hcount, hsum]
      · rw [List.map_cons, List.map_cons, hid, hids]

section Carried

variable {ops : List (Bool × StreamOp)} {fs : List FiledState} {ms : List (Nat × List UInt32)}

theorem Carries.countOf_eq (h : Carries ops fs ms) (select : BankKey → Bool) :
    countOf select (bankSections ops) = fs.countP fun f => select (filedKey f) := by
  rw [RecordedPulses.countOf_eq select h.counts, h.selected, List.length_map,
    ← List.countP_eq_length_filter]

theorem Carries.totals_eq (h : Carries ops fs ms)
    (sets : BankKey → Option (List (Option UInt32))) :
    totals sets (bankSections ops) = filedTotals sets fs := by
  rw [totals, filedTotals]
  simp only [h.countOf_eq]

end Carried

/-- What is conserved is delivered when the run ends. -/
theorem delivered_of_conserved {sets : BankKey → Option (List (Option UInt32))}
    {ops : List (Bool × StreamOp)} {s : EventStream} (h : Conserved sets ops s)
    {fs : List FiledState} {ms : List (Nat × List UInt32)} (hcarries : Carries ops fs ms) :
    (∀ key, storesEvents sets key = true →
      deliveredEvents (finalizeStreamProcessing true s) key =
        (fs.filter fun f => filedKey f = key).map fun f => some f.event) ∧
    (∀ monitorId mi, (finalizeStreamProcessing true s).monitors.find? monitorId = some mi →
      mi.config.format ≠ histoFormat →
      mi.tofsWritten = ((ms.filter fun m => m.1 = monitorId).flatMap Prod.snd).map fun field =>
        some (MonitorInfo.tofOf field)) ∧
    (finalizeStreamProcessing true s).parser.runMetrics = filedTotals sets fs ∧
    (finalizeStreamProcessing true s).nonEventsCounted = (ms.map fun m => m.2.length).sum := by
  obtain ⟨hbanks, hmonitors⟩ := h
  obtain ⟨hevents, hsum, -⟩ := monitorSections_eq hcarries.monitors
  refine ⟨?_, ?_, hbanks.metrics.trans (hcarries.totals_eq sets), hmonitors.total.trans hsum⟩
  · intro key hstores
    have hfind : (finalizeStreamProcessing true s).parser.banks.find? key =
        (s.parser.banks.find? key).map (finalizeBank s.parser) := find?_map _ _ _
    have hfiled : eventsOf key (bankSections ops) =
        (fs.filter fun f => filedKey f = key).map FiledState.event := by
      rw [eventsOf_eq, hcarries.selected]
    have hsome : ((fs.filter fun f => filedKey f = key).map fun f => some f.event) =
        (eventsOf key (bankSections ops)).map some := by
      rw [hfiled, List.map_map]
      rfl
    obtain ⟨known, hknown, hwants⟩ := (Option.any_eq_true ..).mp hstores
    rw [deliveredEvents, hfind, hsome]
    cases hfound : s.parser.banks.find? key with
    | none =>
      -- a known bank without a `BankInfo` has had no events
      rw [hbanks.missing key hfound (by rw [hknown]; rfl)]
      rfl
    | some bi =>
      have hown := hbanks.found key bi hfound
      rw [hknown] at hown
      cases hown
      obtain ⟨hwritten, -⟩ :=
        @finalizeBank_spec s.parser _ _ (hbanks.delivers key bi hfound hwants)
      exact hwritten
  · intro monitorId mi' hmi' hformat
    rw [monitors_finalize, SortedMap.find?_mapVal] at hmi'
    obtain ⟨mi, hmi, rfl⟩ := Option.map_eq_some_iff.mp hmi'
    have hholds := hmonitors.holds monitorId mi hmi
    have hhisto : mi.config.format ≠ histoFormat := by
      intro hhisto
      apply hformat
      rw [finalizeMonitor, hhisto]
      exact hhisto
    obtain ⟨hwritten, -⟩ := @MonitorEvents.finalizeMonitor_spec s.parser _ _ hholds hhisto
    rw [hwritten, hevents]

/-! ### From the SMS to the adapter -/

/-- Nothing has been processed at the pixel mapping. -/
theorem conserved_start {eventThresh ancThresh : Nat} {bankSets : UInt16 → List (Option UInt32)}
    {bankIds : List UInt16} {banks : Native.BankTable BankInfo}
    (hmap : StreamParser.pixelMappingBanks bankSets bankIds = some banks) :
    Conserved (mappedSets bankSets bankIds) [] (start eventThresh ancThresh banks) := by
  refine ⟨Collected.start hmap, ?_⟩
  exact
    { configs := List.forall_mem_nil _
      holds := fun monitorId mi hmi => by cases hmi
      missing := fun monitorId _ => List.forall_mem_nil _
      total := rfl }

/-- Pulses without states never need more than a larger table. -/
theorem roomy_of_plain_pulses {pm : PixelMap} {d : Nat × Nat} (hd : d.2 = 1) {sent : List Sent}
    (hsound : ∀ x ∈ sent, x.Sound pm)
    (hplain : ∀ ready p log, .pulse ready p log ∈ sent → hasStates p = false) :
    Roomy d (sent.flatMap (Sent.filed (maxBank pm))) := by
  have hfiled : ∀ f ∈ sent.flatMap (Sent.filed (maxBank pm)), f.state = 0 ∧ f.bank < 2 ^ 31 := by
    intro f hf
    obtain ⟨x, hx, hf⟩ := List.mem_flatMap.mp hf
    cases x with
    | monitorConfig ready configs => cases hf
    | pulse ready p log =>
      obtain ⟨hreached, -⟩ := hsound _ hx
      rw [Sent.filed] at hf
      split at hf
      · cases hf
      · have hmem := (inOrder_perm hreached).mem_iff.mp hf
        have hbank := hreached.holds.1.banks f hmem
        have hmax : maxBank pm = pm.numBanks + 2 := rfl
        have hle := pm.numBanks_le
        exact ⟨state_of_plain hreached (hplain ready p log hx) hmem, by omega⟩
  exact roomy_of_plain hd (fun f hf => (hfiled f hf).1) (fun f hf => (hfiled f hf).2)

/-- The pulse with one event. -/
def onePulse (a : EventLoop) : Pulse := finishEvents BankedEvent.oneEventPkt 0 false a

/-- The event filed in it. -/
def oneFiled : List FiledState :=
  [] ++ filedStates BankedEvent.unmappedSettings BankedEvent.oneBankMap false 0
    BankedEvent.oneEventPkt.events

end Adara.Spec.RecordedPulses
