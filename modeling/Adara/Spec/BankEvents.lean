import Adara.Native.EventStream
import Adara.Spec.EventIndex

/-! # The events a bank delivers

However its buffers grow, and whenever they are given to the adapter, a bank that stores
events delivers those of its sections in the order of the packets: what the adapter has been
given, followed by the part of the buffers in use (`Collected.delivers`).  Along with them
the events of all sections are counted, under the counter their bank belongs to
(`totals`). -/

namespace Adara.Spec.BankEvents

open Adara.Native Adara.Native.StreamParser
open Adara.Spec.BankTable Adara.Spec.StreamPackets Adara.Spec.EventIndex

/-! ### The buffers of a bank -/

/-- `m_tof_buffer` and `m_pid_buffer` with `m_tof_buffer_size`. -/
def eventBuffer (bi : BankInfo) : InUseBuffer Event := ⟨bi.tofBuffer, bi.tofBufferSize⟩

/-- What has to do with the events of a bank, but not with its index. -/
def eventData (bi : BankInfo) : InUseBuffer Event × List (Option Event) × Nat :=
  (eventBuffer bi, bi.eventsWritten, bi.eventCount)

/-- The bank has delivered or buffered some events, and counted them. -/
structure Delivers (bi : BankInfo) (events : List Event) : Prop where
  buffer : (eventBuffer bi).Delivers bi.eventsWritten events
  count : bi.eventCount = events.length

theorem Delivers.congr {bi bi' : BankInfo} {events : List Event} (h : Delivers bi events)
    (heq : eventData bi' = eventData bi) : Delivers bi' events := by
  simp only [eventData, Prod.mk.injEq] at heq
  obtain ⟨hbuffer, hwritten, hcount⟩ := heq
  exact ⟨hbuffer ▸ hwritten ▸ h.buffer, hcount.trans h.count⟩

theorem Delivers.make (sets : List (Option UInt32)) : Delivers (.make sets) [] :=
  ⟨.empty, rfl⟩

theorem eventData_initializeBank (bi : BankInfo) : eventData bi.initializeBank = eventData bi := by
  rw [BankInfo.initializeBank]
  split <;> rfl

section Buffers

variable {ready : Bool} {p : StreamParser} {bi : BankInfo} {events : List Event}

/-- Filling a gap leaves the events alone. -/
theorem eventData_handleBankPulseGap (count : Nat) :
    eventData (p.handleBankPulseGap ready bi count) = eventData bi := by
  rw [handleBankPulseGap]
  split
  · exact eventData_initializeBank bi
  · exact eventData_initializeBank bi

/-- Growing only adds cells behind those in use. -/
theorem Delivers.growBuffers (h : Delivers bi events) (eventCount : Nat) :
    Delivers (p.growBuffers ready bi eventCount) events := by
  rw [StreamParser.growBuffers]
  by_cases hneeded : bi.tofBuffer.length < bi.tofBufferSize + eventCount
  · rw [if_pos hneeded]
    exact ⟨h.buffer.resize _, h.count⟩
  · rw [if_neg hneeded]
    exact h

/-- With room for them, new events come behind those before. -/
theorem Delivers.copyEvents (h : Delivers bi events) {new : List Event}
    (hroom : bi.tofBufferSize + new.length ≤ bi.tofBuffer.length) :
    ∃ bi', StreamParser.copyEvents bi new.length new = some bi' ∧
      (eventBuffer bi').Delivers bi'.eventsWritten (events ++ new) ∧
      bi'.eventCount = bi.eventCount := by
  obtain ⟨b, hpush, -, hdelivers⟩ := h.buffer.push hroom
  cases (if_pos hroom).symm.trans hpush
  exact ⟨_, if_pos hroom, hdelivers, rfl⟩

/-- Flushing loses no event. -/
theorem Delivers.flushBuffers (h : Delivers bi events) :
    Delivers (p.flushBuffers ready bi) events := by
  simp only [StreamParser.flushBuffers]
  generalize hflushed : (if p.eventBufWriteThresh ≤ bi.tofBufferSize ∧ ready = true then
      { bi.bankPidTOFBuffersReady with tofBufferSize := 0 }
    else bi) = flushed
  have hevents : Delivers flushed events := by
    rw [← hflushed]
    split
    · exact ⟨h.buffer.clear, h.count⟩
    · exact h
  -- the index is flushed on its own
  split
  · exact hevents.congr rfl
  · exact hevents

/-- The events of a section come behind those before. -/
theorem Delivers.processEventData (h : Delivers bi events) {new : List Event} {bi' : BankInfo}
    (hdata : p.processEventData ready bi new.length new = some bi') :
    Delivers bi' (events ++ new) := by
  rw [StreamParser.processEventData] at hdata
  generalize hfilled : (if bi.lastPulseWithData < p.pulses.pulseCount - 1 then
      p.handleBankPulseGap ready bi (p.pulses.pulseCount - 1 - bi.lastPulseWithData)
    else bi) = filled at hdata
  have hgap : Delivers filled events := by
    rw [← hfilled]
    split
    · exact h.congr (eventData_handleBankPulseGap _)
    · exact h
  -- the buffers have room for all of them
  obtain ⟨-, -, hroom⟩ := growBuffers_spec ready p filled new.length
  have hgrown : Delivers (p.growBuffers ready filled new.length) events :=
    hgap.growBuffers new.length
  obtain ⟨copied, hcopied, hdelivers, hcount⟩ := hgrown.copyEvents hroom
  simp only [hcopied, Option.bind_eq_bind, Option.bind_some, Option.some.injEq] at hdata
  rw [← hdata]
  apply Delivers.flushBuffers
  refine ⟨hdelivers, ?_⟩
  show copied.eventCount + new.length = (events ++ new).length
  rw [hcount, hgrown.count, List.length_append]

end Buffers

/-! ### Sections and totals -/

/-- The events some sections have for a bank. -/
def eventsOf (key : BankKey) (secs : List BankSection) : List Event :=
  (secs.filter fun bank => bank.key = key).flatMap fun bank => bank.events.getD []

/-- The number of events in the sections of some banks. -/
def countOf (select : BankKey → Bool) (secs : List BankSection) : Nat :=
  ((secs.filter fun bank => select bank.key).map BankSection.eventCount).sum

def isDetector : BankKey → Bool
  | .bank _ _ => true
  | _ => false

/-- Whether a bank is known, and its events are stored. -/
def storesEvents (sets : BankKey → Option (List (Option UInt32))) (key : BankKey) : Bool :=
  (sets key).any BankInfo.wantsEvents

/-- The counts of the events in some sections, given the sets of the banks known. -/
def totals (sets : BankKey → Option (List (Option UInt32))) (secs : List BankSection) :
    RunMetrics where
  eventsCounted := countOf (fun key => isDetector key && storesEvents sets key) secs
  eventsUncounted := countOf (fun key => !isDetector key || (sets key).isNone) secs
  eventsUnmapped := countOf (fun key => key = .unmapped) secs
  eventsError := countOf (fun key => key = .error) secs

theorem eventsOf_concat (key : BankKey) (secs : List BankSection) (bank : BankSection) :
    eventsOf key (secs ++ [bank]) =
      eventsOf key secs ++ if bank.key = key then bank.events.getD [] else [] := by
  simp only [eventsOf, List.filter_append, List.flatMap_append]
  split <;> simp [*]

theorem countOf_concat (select : BankKey → Bool) (secs : List BankSection)
    (bank : BankSection) :
    countOf select (secs ++ [bank]) =
      countOf select secs + if select bank.key then bank.eventCount else 0 := by
  simp only [countOf, List.filter_append, List.map_append, List.sum_append]
  split <;> simp [*]

/-- A section with fewer than `2 ^ 31` events has just as many in the payload. -/
theorem length_events_eq {bank : BankSection} {events : List Event}
    (hlt : bank.eventCount < 2 ^ 31) (h : bank.events = some events) :
    events.length = bank.eventCount := by
  have hwords : bank.eventWords = 2 * bank.eventCount :=
    Word32.mul_of_lt (by simp only [Word32.modulus]; omega)
  rw [BankSection.events] at h
  split at h
  · cases h
    rw [length_ofFields, List.length_take]
    omega
  · cases h

/-! ### The banks of a run -/

/-- Every known bank that stores events has delivered or buffered those of its sections, and
    all events are counted. -/
structure Collected (sets : BankKey → Option (List (Option UInt32))) (secs : List BankSection)
    (p : StreamParser) : Prop where
  alloc : Allocated p.banks
  made : ∀ key, madeSets p.banks key = sets key
  found : ∀ key bi, p.banks.find? key = some bi → sets key = some bi.bankSets
  hasEvent_eq : ∀ key bi, p.banks.find? key = some bi →
    bi.hasEvent = (bi.initialized && BankInfo.wantsEvents bi.bankSets)
  delivers : ∀ key bi, p.banks.find? key = some bi →
    BankInfo.wantsEvents bi.bankSets = true → Delivers bi (eventsOf key secs)
  missing : ∀ key, p.banks.find? key = none → (sets key).isSome → eventsOf key secs = []
  metrics : p.runMetrics = totals sets secs

section Section

variable {sets : BankKey → Option (List (Option UInt32))} {secs : List BankSection}
  {p p' : StreamParser} {bank : BankSection}

/-- The sets of special banks ask for their events. -/
theorem Collected.storesEvents_special (h : Collected sets secs p) {key : BankKey}
    (hkey : isDetector key = false) : storesEvents sets key = true := by
  cases key with
  | unmapped => rw [storesEvents, ← h.made]; rfl
  | error => rw [storesEvents, ← h.made]; rfl
  | bank bankId state => cases hkey

/-- Storing a `BankInfo` with the sets of its bank changes neither the sets of the bank nor
    those of others. -/
theorem madeSets_store {banks banks' : BankTable BankInfo} {key : BankKey} {bi' : BankInfo}
    (hfind : ∀ key', banks'.find? key' = if key' = key then some bi' else banks.find? key')
    (hsets : madeSets banks key = some bi'.bankSets) (key' : BankKey) :
    madeSets banks' key' = madeSets banks key' := by
  cases key' with
  | unmapped => rfl
  | error => rfl
  | bank bankId state =>
    rw [madeSets, madeSets, hfind]
    split
    · rename_i heq
      rw [← heq, madeSets] at hsets
      rw [hsets]
      rfl
    · rfl

/-- What a section stores for its bank is what is collected of the bank with it. -/
theorem Collected.store (h : Collected sets secs p) (halloc : Allocated p'.banks)
    {bi' : BankInfo}
    (hfind : ∀ key, p'.banks.find? key = if key = bank.key then some bi' else p.banks.find? key)
    (hsets : sets bank.key = some bi'.bankSets)
    (hevent : bi'.hasEvent = (bi'.initialized && BankInfo.wantsEvents bi'.bankSets))
    (hdelivers : BankInfo.wantsEvents bi'.bankSets = true →
      Delivers bi' (eventsOf bank.key (secs ++ [bank])))
    (hmetrics : p'.runMetrics = totals sets (secs ++ [bank])) :
    Collected sets (secs ++ [bank]) p' where
  alloc := halloc
  made := fun key => by
    rw [madeSets_store hfind ((h.made _).trans hsets), h.made]
  found := fun key bi hbi => by
    rw [hfind] at hbi
    split at hbi
    · rename_i heq
      cases hbi
      rw [heq, hsets]
    · exact h.found key bi hbi
  hasEvent_eq := fun key bi hbi => by
    rw [hfind] at hbi
    split at hbi
    · cases hbi
      exact hevent
    · exact h.hasEvent_eq key bi hbi
  delivers := fun key bi hbi hwants => by
    rw [hfind] at hbi
    split at hbi
    · rename_i heq
      cases hbi
      rw [heq]
      exact hdelivers hwants
    · rename_i hne
      rw [eventsOf_concat, if_neg (Ne.symm hne), List.append_nil]
      exact h.delivers key bi hbi hwants
  -- a bank that is still not found has no events, and this section is not its own
  missing := fun key hnone hknown => by
    rw [hfind] at hnone
    split at hnone
    · cases hnone
    · rename_i hne
      rw [eventsOf_concat, if_neg (Ne.symm hne), List.append_nil]
      exact h.missing key hnone hknown
  metrics := hmetrics

/-- A safe section with fewer than `2 ^ 31` events is collected. -/
theorem Collected.section (h : Collected sets secs p) {ready : Bool}
    (hsafe : SectionSafe p bank) (hlt : bank.eventCount < 2 ^ 31) :
    ∃ p', p.processBankEvents ready bank = some p' ∧ Collected sets (secs ++ [bank]) p' := by
  obtain ⟨p', hp', halloc, hprocessed, -⟩ := processBankEvents_cases ready h.alloc hsafe
  refine ⟨p', hp', ?_⟩
  -- the entry before this section, or a new one
  have hprior : ∀ bi, (p.banks.find? bank.key).or ((madeSets p.banks bank.key).map .make) =
      some bi → sets bank.key = some bi.bankSets ∧
        bi.hasEvent = (bi.initialized && BankInfo.wantsEvents bi.bankSets) ∧
        (BankInfo.wantsEvents bi.bankSets = true →
          Delivers bi (eventsOf bank.key secs)) := by
    intro bi hbi
    rcases Option.or_eq_some_iff.mp hbi with hbi | ⟨hnone, hmade⟩
    · exact ⟨h.found _ _ hbi, h.hasEvent_eq _ _ hbi, h.delivers _ _ hbi⟩
    · obtain ⟨sets', hsets, rfl⟩ := Option.map_eq_some_iff.mp hmade
      rw [h.made] at hsets
      refine ⟨hsets, rfl, fun _ => ?_⟩
      rw [h.missing _ hnone (by rw [hsets]; rfl)]
      exact .make sets'
  cases hprocessed with
  | unknown hnone hsets hfind hmetrics =>
    rw [h.made] at hsets
    have hkey : ∀ key, (sets key).isSome → bank.key ≠ key := by
      intro key hsome heq
      rw [← heq, hsets] at hsome
      cases hsome
    exact
      { alloc := halloc
        made := fun key => by rw [madeSets_congr hfind, h.made]
        found := fun key bi hbi => h.found key bi (hfind key ▸ hbi)
        hasEvent_eq := fun key bi hbi => h.hasEvent_eq key bi (hfind key ▸ hbi)
        delivers := fun key bi hbi hwants => by
          rw [hfind] at hbi
          rw [eventsOf_concat, if_neg (hkey key (by rw [h.found key bi hbi]; rfl)),
            List.append_nil]
          exact h.delivers key bi hbi hwants
        missing := fun key hnone' hknown => by
          rw [hfind] at hnone'
          rw [eventsOf_concat, if_neg (hkey key hknown), List.append_nil]
          exact h.missing key hnone' hknown
        metrics := by
          -- the key is that of a detector bank: special banks have sets
          cases hbank : bank.key with
          | unmapped => rw [hbank, ← h.made] at hsets; cases hsets
          | error => rw [hbank, ← h.made] at hsets; cases hsets
          | bank bankId state =>
            rw [hbank] at hsets hmetrics
            rw [hmetrics, h.metrics]
            simp [totals, countOf_concat, hbank, hsets, countUnknown, countSpecial, isDetector,
              storesEvents] }
  | stored bi bi' events hbi hevent hevents hdata hfind hmetrics =>
    obtain ⟨hsets, hevent', hdelivers⟩ := hprior bi hbi
    obtain ⟨hinit, hsets', hhas⟩ := initializeBank_spec hevent'
    have hwants : BankInfo.wantsEvents bi.bankSets = true := hhas.symm.trans hevent
    have hlen := length_events_eq hlt hevents
    rw [← hlen] at hdata
    obtain ⟨bi'', hbi'', -, hsetup⟩ :=
      processEventData_spec ready p hinit (Nat.le_refl events.length)
    cases hdata.symm.trans hbi''
    simp only [setup, Prod.mk.injEq] at hsetup
    obtain ⟨hsetup₁, hsetup₂, hsetup₃⟩ := hsetup
    have hstores : storesEvents sets bank.key = true := by
      rw [storesEvents, hsets]
      exact hwants
    apply h.store halloc hfind
    · rw [hsetup₁, hsets', hsets]
    · rw [hsetup₃, hsetup₂, hsetup₁, hhas, hinit, hsets', Bool.true_and]
    · intro _
      rw [eventsOf_concat, if_pos rfl, hevents]
      exact ((hdelivers hwants).congr (eventData_initializeBank bi)).processEventData hdata
    · rw [hmetrics, h.metrics]
      cases hbank : bank.key with
      | unmapped =>
        simp [totals, countOf_concat, hbank, countStored, countSpecial, isDetector]
      | error =>
        simp [totals, countOf_concat, hbank, countStored, countSpecial, isDetector]
      | bank bankId state =>
        rw [hbank] at hstores hsets
        simp [totals, countOf_concat, hbank, hstores, hsets, countStored, countSpecial, isDetector]
  | looked bi hbi hevent hfind hmetrics =>
    obtain ⟨hsets, hevent', -⟩ := hprior bi hbi
    obtain ⟨hinit, hsets', hhas⟩ := initializeBank_spec hevent'
    have hwants : BankInfo.wantsEvents bi.bankSets = false := hhas.symm.trans hevent
    have hstores : storesEvents sets bank.key = false := by
      rw [storesEvents, hsets]
      exact hwants
    have hdetector : isDetector bank.key = true := by
      by_contra hspecial
      rw [h.storesEvents_special (Bool.not_eq_true _ ▸ hspecial)] at hstores
      cases hstores
    apply h.store halloc hfind
    · rw [hsets', hsets]
    · rw [hhas, hinit, hsets', Bool.true_and]
    · intro hwants'
      rw [hsets', hwants] at hwants'
      cases hwants'
    · rw [hmetrics, h.metrics]
      cases hbank : bank.key with
      | unmapped => rw [hbank] at hdetector; cases hdetector
      | error => rw [hbank] at hdetector; cases hdetector
      | bank bankId state =>
        rw [hbank] at hstores hsets
        simp [totals, countOf_concat, hbank, hstores, hsets, countSpecial, isDetector]

end Section

section Run

variable {sets : BankKey → Option (List (Option UInt32))} {secs : List BankSection}
  {p : StreamParser}

/-- Only the banks and the counts matter. -/
theorem Collected.congr (h : Collected sets secs p) {p' : StreamParser}
    (hbanks : p'.banks = p.banks) (hmetrics : p'.runMetrics = p.runMetrics) :
    Collected sets secs p' where
  alloc := hbanks ▸ h.alloc
  made := hbanks ▸ h.made
  found := hbanks ▸ h.found
  hasEvent_eq := hbanks ▸ h.hasEvent_eq
  delivers := hbanks ▸ h.delivers
  missing := hbanks ▸ h.missing
  metrics := hmetrics.trans h.metrics

/-- The sections of a safe packet are collected in turn. -/
theorem Collected.packet (h : Collected sets secs p) {ready : Bool} {pkt : StreamPacket}
    (hsafe : PacketSafe p (ready, pkt))
    (hlt : ∀ bank ∈ (sectionsOf pkt).getD [], bank.eventCount < 2 ^ 31) :
    ∃ p', p.rxPacket ready pkt = some p' ∧
      Collected sets (secs ++ (sectionsOf pkt).getD []) p' := by
  rw [PacketSafe] at hsafe
  rw [rxPacket_eq]
  cases hbanks : sectionsOf pkt with
  | none =>
    rw [hbanks] at hsafe
    exact hsafe.elim
  | some banks =>
    rw [hbanks] at hsafe hlt
    have hcounted : Collected sets secs { p with pulses := counted p.pulses pkt } :=
      h.congr rfl rfl
    exact Runs.exists_run_along_log (I := fun done p => Collected sets (secs ++ done) p)
      (fun done p bank hdone hok => by
        rw [← List.append_assoc]
        exact hdone.section hok.1 hok.2)
      (by rwa [List.append_nil]) (Runs.along.and_forall hsafe hlt)

/-- Nothing is collected when the processing of events starts. -/
theorem Collected.start {eventThresh ancThresh : Nat}
    {bankSets : UInt16 → List (Option UInt32)} {bankIds : List UInt16}
    {banks : BankTable BankInfo} (hmap : pixelMappingBanks bankSets bankIds = some banks) :
    Collected (mappedSets bankSets bankIds) [] (.start eventThresh ancThresh banks) := by
  obtain ⟨halloc, hfind⟩ := pixelMappingBanks_spec hmap
  have hbank : ∀ bankId state, banks.find? (.bank bankId state) =
      if state = 0 then (mappedSets bankSets bankIds (.bank bankId state)).map .make
      else none := by
    intro bankId state
    rw [hfind]
    simp [mappedBanks]
  -- every `BankInfo` there is was just made, with the sets mapped to it
  have hnew : ∀ key bi, banks.find? key = some bi →
      ∃ sets, bi = .make sets ∧ mappedSets bankSets bankIds key = some sets := by
    intro key bi hbi
    cases key with
    | unmapped =>
      rw [hfind] at hbi
      exact ⟨[], (Option.some.inj hbi).symm, rfl⟩
    | error =>
      rw [hfind] at hbi
      exact ⟨[], (Option.some.inj hbi).symm, rfl⟩
    | bank bankId state =>
      rw [hbank] at hbi
      split at hbi
      · obtain ⟨sets, hsets, rfl⟩ := Option.map_eq_some_iff.mp hbi
        exact ⟨sets, rfl, hsets⟩
      · cases hbi
  exact
    { alloc := halloc
      made := fun key => by
        cases key with
        | unmapped => rfl
        | error => rfl
        | bank bankId state =>
          show (banks.find? (.bank bankId 0)).map BankInfo.bankSets = _
          rw [hbank, if_pos rfl, Option.map_map]
          exact Option.map_id'
      found := fun key bi hbi => by
        obtain ⟨sets, rfl, hsets⟩ := hnew key bi hbi
        exact hsets
      hasEvent_eq := fun key bi hbi => by
        obtain ⟨sets, rfl, -⟩ := hnew key bi hbi
        rfl
      delivers := fun key bi hbi _ => by
        obtain ⟨sets, rfl, -⟩ := hnew key bi hbi
        exact .make sets
      missing := fun _ _ _ => rfl
      metrics := rfl }

end Run

/-! ### The end of a run -/

/-- A function applied to every `BankInfo` is applied to the one found. -/
theorem find?_map {β γ : Type} (t : BankTable β) (f : β → γ) (key : BankKey) :
    BankTable.find? ⟨t.banksArr.map fun arr => arr.map fun bi => bi.map f, t.maxBank,
      t.numStates⟩ key = (t.find? key).map f := by
  simp only [BankTable.find?, BankTable.read, BankTable.index]
  have hcovers : BankTable.Covers (⟨t.banksArr.map fun arr => arr.map fun bi => bi.map f, t.maxBank,
      t.numStates⟩ : BankTable γ) key ↔ t.Covers key := by
    cases key <;> rfl
  simp only [hcovers]
  split
  · cases t.banksArr with
    | none => rfl
    | some arr =>
      simp only [Option.map_some, Option.getD_some, List.getElem?_map]
      cases arr[BankTable.keyIndex t.maxBank key]? with
      | none => rfl
      | some bi => rfl
  · rfl

/-- The last flush of a bank delivers what is still buffered. -/
theorem finalizeBank_spec {p : StreamParser} {bi : BankInfo} {events : List Event}
    (h : Delivers bi events) :
    (EventStream.finalizeBank p bi).eventsWritten = events.map some ∧
      (EventStream.finalizeBank p bi).eventCount = events.length := by
  simp only [EventStream.finalizeBank]
  generalize hfilled : (if bi.initializeBank.lastPulseWithData < p.pulses.pulseCount then
      p.handleBankPulseGap true bi.initializeBank
        (p.pulses.pulseCount - bi.initializeBank.lastPulseWithData)
    else bi.initializeBank) = filled
  have hdelivers : Delivers filled events := by
    rw [← hfilled]
    split
    · exact h.congr ((eventData_handleBankPulseGap _).trans (eventData_initializeBank bi))
    · exact h.congr (eventData_initializeBank bi)
  exact ⟨hdelivers.buffer.eq, hdelivers.count⟩

end Adara.Spec.BankEvents
