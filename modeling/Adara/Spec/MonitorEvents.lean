import Adara.Native.EventStream

/-! # The events a beam monitor delivers

A beam monitor packet is processed section by section (`walkMonitors_eq`).  A monitor with
events delivers those of its sections in order, as a bank does; one with a histogram counts
each of its events, in the histogram or as uncounted (`Collected.section`). -/

namespace Adara.Spec.MonitorEvents

open Adara.Native Adara.Native.EventStream

/-! ### The sections of a packet -/

/-- The sections up to the end of the payload. -/
def monitorsOf : (fuel : Nat) → List UInt32 → List MonitorSection
  | fuel + 1, field :: rpos =>
    let monitor := MonitorSection.ofHeader field rpos
    monitor :: monitorsOf fuel (monitor.rpos.drop monitor.eventCount)
  | _, _ => []

/-- The beam monitors a packet has events of; none of a duplicate pulse. -/
def sectionsOf : StreamPacket → List MonitorSection
  | .beamMonitor payload =>
    if StreamParser.isDuplicate payload = some true then []
    else monitorsOf payload.length (payload.drop 4)
  | _ => []

/-- The loop processes the sections in turn: every one takes up a word, so fuel for all words
    is enough. -/
theorem walkMonitors_eq {σ : Type} {process : σ → MonitorSection → Option σ} {fuel : Nat}
    {s : σ} {rpos : List UInt32} (h : rpos.length ≤ fuel) :
    walkMonitors process fuel s rpos = Runs.run process s (monitorsOf fuel rpos) := by
  induction fuel generalizing s rpos with
  | zero =>
    rw [List.eq_nil_of_length_eq_zero (Nat.le_zero.mp h)]
    rfl
  | succ fuel ih =>
    cases rpos with
    | nil => rfl
    | cons field rpos =>
      rw [walkMonitors, monitorsOf, Runs.run]
      cases process s (MonitorSection.ofHeader field rpos) with
      | none => rfl
      | some s' =>
        apply ih
        rw [List.length_drop, MonitorSection.ofHeader, List.length_drop]
        rw [List.length_cons] at h
        omega

theorem processMonitors_eq {ready : Bool} {s : EventStream} {payload : List UInt32}
    (h : (StreamParser.isDuplicate payload).isSome) :
    processMonitors ready s payload =
      Runs.run (processMonitorEvents ready) s (sectionsOf (.beamMonitor payload)) := by
  obtain ⟨duplicate, hduplicate⟩ := Option.isSome_iff_exists.mp h
  rw [processMonitors, sectionsOf, hduplicate]
  cases duplicate with
  | true => rfl
  | false =>
    exact walkMonitors_eq (by rw [List.length_drop]; omega)

/-- The events some sections have for a beam monitor. -/
def eventsOf (monitorId : Nat) (secs : List MonitorSection) : List UInt32 :=
  (secs.filter fun monitor => monitor.monitorId = monitorId).flatMap fun monitor =>
    monitor.events.getD []

theorem eventsOf_concat (monitorId : Nat) (secs : List MonitorSection)
    (monitor : MonitorSection) :
    eventsOf monitorId (secs ++ [monitor]) =
      eventsOf monitorId secs ++
        if monitor.monitorId = monitorId then monitor.events.getD [] else [] := by
  simp only [eventsOf, List.filter_append, List.flatMap_append]
  split <;> simp [*]

/-! ### One beam monitor -/

/-- The formats a configuration may have. -/
def KnownFormat (config : BeamMonitorConfig) : Prop :=
  config.format = eventFormat ∨ config.format = histoFormat

instance (config : BeamMonitorConfig) : Decidable (KnownFormat config) :=
  inferInstanceAs (Decidable (_ ∨ _))

/-- A monitor with events has delivered or buffered some, and counted them. -/
structure Delivers (mi : MonitorInfo) (events : List UInt32) : Prop where
  buffer : mi.tofBuffer.Delivers mi.tofsWritten (events.map MonitorInfo.tofOf)
  count : mi.eventCount = events.length

/-- A monitor with a histogram has a cell for every bin, and has counted some events. -/
structure Counts (mi : MonitorInfo) (events : List UInt32) : Prop where
  cells : mi.dataBuffer.length = mi.config.numTofBins - 1
  total : mi.eventCount + mi.eventUncounted = events.length

/-- What a monitor holds of its events. -/
structure Holds (mi : MonitorInfo) (events : List UInt32) : Prop where
  known : KnownFormat mi.config
  delivers : mi.config.format ≠ histoFormat → Delivers mi events
  counts : mi.config.format = histoFormat → Counts mi events

theorem Holds.make {config : BeamMonitorConfig} (hknown : KnownFormat config) :
    Holds (.make config) [] where
  known := hknown
  delivers := fun _ => ⟨.empty, rfl⟩
  counts := fun hformat => by
    have hcells : (MonitorInfo.make config).dataBuffer =
        List.replicate (config.numTofBins - 1) 0 := if_pos hformat
    refine ⟨?_, rfl⟩
    rw [hcells, List.length_replicate]
    rfl

section Histogram

variable {mi : MonitorInfo} {events : List UInt32}

/-- An event is counted in its bin, or as uncounted. -/
theorem Counts.event (h : Counts mi events) (field : UInt32) :
    ∃ mi', mi.countInHistogram field = some mi' ∧ mi'.config = mi.config ∧
      Counts mi' (events ++ [field]) := by
  have htotal := h.total
  have huncounted : Counts { mi with eventUncounted := mi.eventUncounted + 1 }
      (events ++ [field]) := by
    refine ⟨h.cells, ?_⟩
    rw [List.length_append, List.length_singleton]
    show mi.eventCount + (mi.eventUncounted + 1) = events.length + 1
    omega
  simp only [MonitorInfo.countInHistogram]
  split
  · split
    · exact ⟨_, rfl, rfl, huncounted⟩
    · -- the bin has a cell
      rename_i hbin
      rw [if_pos (by rw [h.cells]; omega)]
      refine ⟨_, rfl, rfl, ?_, ?_⟩
      · rw [List.length_modify]
        exact h.cells
      · rw [List.length_append, List.length_singleton]
        show mi.eventCount + 1 + mi.eventUncounted = events.length + 1
        omega
  · exact ⟨_, rfl, rfl, huncounted⟩

theorem Counts.run (h : Counts mi events) (new : List UInt32) :
    ∃ mi', Runs.run MonitorInfo.countInHistogram mi new = some mi' ∧ mi'.config = mi.config ∧
      Counts mi' (events ++ new) := by
  have hok : Runs.along MonitorInfo.countInHistogram (fun _ _ => True) mi new :=
    Runs.along_of_forall fun _ _ => trivial
  -- what has been counted after the first of the new events
  have hall := Runs.exists_run_along_log (I := fun (done : List UInt32) (mi' : MonitorInfo) =>
      mi'.config = mi.config ∧ Counts mi' (events ++ done)) (fun done mi' field hdone _ => by
    obtain ⟨mi'', hstep, hconfig, hcounts⟩ := hdone.2.event field
    rw [List.append_assoc] at hcounts
    exact ⟨mi'', hstep, hconfig.trans hdone.1, hcounts⟩) ⟨rfl, by rwa [List.append_nil]⟩ hok
  exact hall

end Histogram

section Events

variable {ready : Bool} {p : StreamParser} {mi : MonitorInfo} {events : List UInt32}

/-- What has to do with the events of a monitor, but not with its index. -/
def eventData (mi : MonitorInfo) :
    InUseBuffer UInt32 × List (Option UInt32) × Nat × BeamMonitorConfig :=
  (mi.tofBuffer, mi.tofsWritten, mi.eventCount, mi.config)

theorem Delivers.congr {mi' : MonitorInfo} (h : Delivers mi events)
    (heq : eventData mi' = eventData mi) : Delivers mi' events := by
  simp only [eventData, Prod.mk.injEq] at heq
  obtain ⟨hbuffer, hwritten, hcount, -⟩ := heq
  exact ⟨hbuffer ▸ hwritten ▸ h.buffer, hcount.trans h.count⟩

/-- Filling a gap leaves the events alone. -/
theorem eventData_handleMonitorPulseGap (count : Nat) :
    eventData (handleMonitorPulseGap ready p mi count) = eventData mi := by
  rw [handleMonitorPulseGap]
  split
  · rfl
  · split <;> rfl

/-- The buffer grows to hold what it needs to. -/
theorem growBuffer_spec {b : InUseBuffer UInt32} {taken : List (Option UInt32)}
    {tofs : List UInt32} (h : b.Delivers taken tofs) (eventCount : Nat) :
    (growBuffer ready p b eventCount).Delivers taken tofs ∧
      (growBuffer ready p b eventCount).size + eventCount ≤
        (growBuffer ready p b eventCount).cells.length := by
  rw [growBuffer]
  by_cases hneeded : b.cells.length < b.size + eventCount
  · rw [if_pos hneeded]
    refine ⟨h.resize _, ?_⟩
    rw [InUseBuffer.length_resize]
    show b.size + eventCount ≤ _
    split <;> split <;> omega
  · rw [if_neg hneeded]
    exact ⟨h, Nat.le_of_not_lt hneeded⟩

/-- Flushing loses no event. -/
theorem Delivers.flushMonitor (h : Delivers mi events) :
    Delivers (flushMonitor ready p mi) events ∧
      (EventStream.flushMonitor ready p mi).config = mi.config := by
  simp only [EventStream.flushMonitor]
  generalize hflushed : (if p.eventBufWriteThresh ≤ mi.tofBuffer.size ∧ ready = true then
      { mi.monitorTOFBuffersReady with tofBuffer := mi.tofBuffer.clear }
    else mi) = flushed
  have hevents : Delivers flushed events ∧ flushed.config = mi.config := by
    rw [← hflushed]
    split
    · exact ⟨⟨h.buffer.clear, h.count⟩, rfl⟩
    · exact ⟨h, rfl⟩
  -- the index is flushed on its own
  split
  · exact ⟨hevents.1.congr rfl, hevents.2⟩
  · exact hevents

/-- The events of a section come behind those before. -/
theorem Delivers.processMonitorData (h : Delivers mi events) (new : List UInt32) :
    ∃ mi', EventStream.processMonitorData ready p mi new = some mi' ∧ mi'.config = mi.config ∧
      Delivers mi' (events ++ new) := by
  rw [EventStream.processMonitorData]
  generalize hfilled : (if mi.lastPulseWithData < p.pulses.pulseCount - 1 then
      handleMonitorPulseGap ready p mi (p.pulses.pulseCount - 1 - mi.lastPulseWithData)
    else mi) = filled
  have hgap : eventData filled = eventData mi := by
    rw [← hfilled]
    split
    · exact eventData_handleMonitorPulseGap _
    · rfl
  have hconfig : filled.config = mi.config := by
    simp only [eventData, Prod.mk.injEq] at hgap
    exact hgap.2.2.2
  have hdelivers := h.congr hgap
  -- the buffer has room for all of them
  have hgrown : (growBuffer ready p filled.tofBuffer new.length).Delivers filled.tofsWritten
      (events.map MonitorInfo.tofOf) ∧ _ := growBuffer_spec hdelivers.buffer new.length
  obtain ⟨hgrown, hroom⟩ := hgrown
  have hroom' : (growBuffer ready p filled.tofBuffer new.length).size +
      (new.map MonitorInfo.tofOf).length ≤
        (growBuffer ready p filled.tofBuffer new.length).cells.length := by
    rwa [List.length_map]
  obtain ⟨b, hpush, -, hpushed⟩ := hgrown.push hroom'
  simp only [hpush, Option.bind_eq_bind, Option.bind_some]
  rw [← List.map_append] at hpushed
  have hstored : Delivers { filled with
      tofBuffer := b
      indexBuffer := filled.indexBuffer ++ [filled.eventCount]
      eventCount := filled.eventCount + new.length
      lastPulseWithData := p.pulses.pulseCount } (events ++ new) := by
    refine ⟨hpushed, ?_⟩
    show filled.eventCount + new.length = (events ++ new).length
    rw [hdelivers.count, List.length_append]
  obtain ⟨hflushed, hsame⟩ := hstored.flushMonitor
  exact ⟨_, rfl, hsame.trans hconfig, hflushed⟩

end Events

/-! ### The beam monitors of a run -/

/-- Every monitor holds the events of its sections, and all events are counted. -/
structure Collected (secs : List MonitorSection) (s : EventStream) : Prop where
  configs : ∀ config ∈ s.monitorConfig, KnownFormat config
  holds : ∀ monitorId mi, s.monitors.find? monitorId = some mi →
    Holds mi (eventsOf monitorId secs)
  missing : ∀ monitorId, s.monitors.find? monitorId = none →
    ∀ monitor ∈ secs, monitor.monitorId ≠ monitorId
  total : s.nonEventsCounted = (secs.map MonitorSection.eventCount).sum

theorem eventsOf_eq_nil {monitorId : Nat} {secs : List MonitorSection}
    (h : ∀ monitor ∈ secs, monitor.monitorId ≠ monitorId) : eventsOf monitorId secs = [] := by
  have hnone : (secs.filter fun monitor => monitor.monitorId = monitorId) = [] := by
    rw [List.filter_eq_nil_iff]
    intro monitor hmem
    simpa using h monitor hmem
  rw [eventsOf, hnone, List.flatMap_nil]

section Run

variable {secs : List MonitorSection} {s : EventStream}

/-- Only the beam monitors and the count matter. -/
theorem Collected.congr (h : Collected secs s) {s' : EventStream}
    (hconfig : s'.monitorConfig = s.monitorConfig) (hmonitors : s'.monitors = s.monitors)
    (htotal : s'.nonEventsCounted = s.nonEventsCounted) : Collected secs s' where
  configs := hconfig ▸ h.configs
  holds := hmonitors ▸ h.holds
  missing := hmonitors ▸ h.missing
  total := htotal.trans h.total

theorem knownFormat_getBeamMonitorConfig (h : ∀ config ∈ s.monitorConfig, KnownFormat config)
    (monitorId : Nat) : KnownFormat (s.getBeamMonitorConfig monitorId) := by
  rw [getBeamMonitorConfig]
  cases hfound : s.monitorConfig.find? fun config => config.id = monitorId with
  | none => exact .inl rfl
  | some config => exact h config (List.mem_of_find?_eq_some hfound)

/-- The monitor of a section, found or made, holds the events of the sections before. -/
theorem Collected.holds_getD (h : Collected secs s) (monitorId : Nat) :
    Holds ((s.monitors.find? monitorId).getD (.make (s.getBeamMonitorConfig monitorId)))
      (eventsOf monitorId secs) := by
  cases hfound : s.monitors.find? monitorId with
  | some mi => exact h.holds monitorId mi hfound
  | none =>
    rw [eventsOf_eq_nil (h.missing monitorId hfound)]
    exact .make (knownFormat_getBeamMonitorConfig h.configs monitorId)

/-- A monitor takes some more events, in its own format. -/
theorem Holds.process {ready : Bool} {p : StreamParser} {mi : MonitorInfo}
    {events : List UInt32} (h : Holds mi events) (new : List UInt32) :
    ∃ mi', (if mi.config.format = histoFormat then
          Runs.run MonitorInfo.countInHistogram mi new
        else processMonitorData ready p mi new) = some mi' ∧ Holds mi' (events ++ new) := by
  by_cases hformat : mi.config.format = histoFormat
  · obtain ⟨mi', hrun, hconfig, hcounts⟩ := (h.counts hformat).run new
    refine ⟨mi', by rw [if_pos hformat, hrun], ⟨?_, ?_, fun _ => hcounts⟩⟩
    · rw [hconfig]
      exact h.known
    · intro hne
      rw [hconfig] at hne
      exact absurd hformat hne
  · obtain ⟨mi', hdata, hconfig, hdelivers⟩ := (h.delivers hformat).processMonitorData new
    refine ⟨mi', by rw [if_neg hformat, hdata], ⟨?_, fun _ => hdelivers, ?_⟩⟩
    · rw [hconfig]
      exact h.known
    · intro heq
      rw [hconfig] at heq
      exact absurd heq hformat

/-- A section whose events are in the payload is collected, and leaves the parser alone. -/
theorem Collected.section (h : Collected secs s) {ready : Bool} {monitor : MonitorSection}
    (hevents : monitor.events.isSome) :
    ∃ s', s.processMonitorEvents ready monitor = some s' ∧
      Collected (secs ++ [monitor]) s' ∧ s'.parser = s.parser := by
  obtain ⟨events, hevents⟩ := Option.isSome_iff_exists.mp hevents
  obtain ⟨mi', hmi', hholds⟩ :=
    @Holds.process ready s.parser _ _ (h.holds_getD monitor.monitorId) events
  -- in either format one monitor is written to
  have hstep : s.processMonitorEvents ready monitor = some { s with
      monitors := s.monitors.set monitor.monitorId mi'
      nonEventsCounted := s.nonEventsCounted + monitor.eventCount } := by
    simp only [processMonitorEvents, hevents, Option.bind_eq_bind, Option.bind_some]
    split at hmi'
    · rename_i hformat
      rw [if_pos hformat, hmi', Option.bind_some]
    · rename_i hformat
      rw [if_neg hformat, hmi', Option.bind_some]
  refine ⟨_, hstep, ?_, rfl⟩
  exact
    { configs := h.configs
      holds := fun monitorId mi hmi => by
        rw [SortedMap.find?_set] at hmi
        rw [eventsOf_concat]
        split at hmi
        · rename_i heq
          cases hmi
          rw [heq, if_pos rfl, hevents]
          exact hholds
        · rename_i hne
          rw [if_neg (Ne.symm hne), List.append_nil]
          exact h.holds monitorId mi hmi
      missing := fun monitorId hnone other hmem => by
        rw [SortedMap.find?_set] at hnone
        split at hnone
        · cases hnone
        · rename_i hne
          rcases List.mem_append.mp hmem with hmem | hmem
          · exact h.missing monitorId hnone other hmem
          · rw [List.mem_singleton.mp hmem]
            exact Ne.symm hne
      total := by
        rw [List.map_append, List.sum_append, ← h.total, List.map_singleton, List.sum_singleton] }

/-- Configurations with known formats are kept, and make monitors without events. -/
theorem Collected.addMonitor (h : Collected secs s) {config : BeamMonitorConfig}
    (hknown : KnownFormat config) : Collected secs (s.addMonitor config) where
  configs := fun other hmem => by
    rcases List.mem_append.mp hmem with hmem | hmem
    · exact h.configs other hmem
    · rw [List.mem_singleton.mp hmem]
      exact hknown
  holds := fun monitorId mi hmi => by
    by_cases hid : monitorId = config.id
    · cases hfound : s.monitors.find? config.id with
      | some mi' =>
        -- a monitor that is there stays as it is
        have hkept : (s.monitors.insert config.id (.make config)).find? config.id =
            some mi' := by
          rw [SortedMap.insert, SortedMap.find?_alter, if_pos rfl, hfound]
          rfl
        rw [hid] at hmi ⊢
        cases hkept.symm.trans hmi
        exact h.holds _ _ hfound
      | none =>
        have hmade := SortedMap.find?_insert_self (MonitorInfo.make config) hfound
        rw [hid] at hmi ⊢
        cases hmade.symm.trans hmi
        rw [eventsOf_eq_nil (h.missing _ hfound)]
        exact .make hknown
    · have hsame := SortedMap.find?_insert_of_ne (m := s.monitors) (MonitorInfo.make config) hid
      exact h.holds monitorId mi (hsame.symm.trans hmi)
  missing := fun monitorId hnone => by
    by_cases hid : monitorId = config.id
    · rw [hid] at hnone
      have hsome : ((s.monitors.insert config.id (.make config)).find? config.id).isSome := by
        rw [SortedMap.insert, SortedMap.find?_alter, if_pos rfl]
        rfl
      rw [EventStream.addMonitor] at hnone
      rw [hnone] at hsome
      cases hsome
    · have hsame := SortedMap.find?_insert_of_ne (m := s.monitors) (MonitorInfo.make config) hid
      exact h.missing monitorId (hsame.symm.trans hnone)
  total := h.total

theorem knownFormat_accept {forceEvent : Bool} {config : BeamMonitorConfig}
    (h : KnownFormat config) : KnownFormat (config.accept forceEvent) := by
  have hevent : ∀ c : BeamMonitorConfig, KnownFormat { c with format := eventFormat } :=
    fun _ => .inl rfl
  simp only [BeamMonitorConfig.accept]
  generalize hforced : (if forceEvent = true then { config with format := eventFormat }
    else config) = forced
  have hknown : KnownFormat forced := by
    rw [← hforced]
    split
    · exact hevent config
    · exact h
  generalize hchecked : (if forced.tofMax ≤ forced.tofOffset ∧ forced.format = histoFormat then
      { forced with format := eventFormat }
    else forced) = checked
  have hknown' : KnownFormat checked := by
    rw [← hchecked]
    split
    · exact hevent forced
    · exact hknown
  split
  · exact hknown'
  · exact hknown'

/-- Configurations do not touch the parser. -/
theorem Collected.rxBeamMonitorConfig (h : Collected secs s) {configs : List BeamMonitorConfig}
    (hknown : ∀ config ∈ configs, KnownFormat config) :
    Collected secs (s.rxBeamMonitorConfig configs) ∧
      (s.rxBeamMonitorConfig configs).parser = s.parser := by
  rw [EventStream.rxBeamMonitorConfig]
  have hall : ∀ (cs : List BeamMonitorConfig) (s' : EventStream), Collected secs s' →
      s'.parser = s.parser → (∀ c ∈ cs, KnownFormat c) →
      Collected secs (cs.foldl EventStream.addMonitor s') ∧
        (cs.foldl EventStream.addMonitor s').parser = s.parser := by
    intro cs
    induction cs with
    | nil => exact fun s' hs' hparser _ => ⟨hs', hparser⟩
    | cons c cs ih =>
      intro s' hs' hparser hcs
      exact ih _ (hs'.addMonitor (hcs c (by simp))) hparser fun c' hc' => hcs c' (by simp [hc'])
  apply hall _ s h rfl
  intro c hc
  obtain ⟨config, hmem, rfl⟩ := List.mem_map.mp hc
  exact knownFormat_accept (hknown config hmem)

end Run

/-- The last flush of a monitor with events delivers what is still buffered. -/
theorem finalizeMonitor_spec {p : StreamParser} {mi : MonitorInfo} {events : List UInt32}
    (h : Holds mi events) (hformat : mi.config.format ≠ histoFormat) :
    (finalizeMonitor p mi).tofsWritten =
        (events.map fun field => some (MonitorInfo.tofOf field)) ∧
      (finalizeMonitor p mi).eventCount = events.length ∧
      (finalizeMonitor p mi).config = mi.config := by
  have hevent : mi.config.format = eventFormat := h.known.resolve_right hformat
  simp only [finalizeMonitor, if_pos hevent]
  generalize hfilled : (if mi.lastPulseWithData < p.pulses.pulseCount then
      handleMonitorPulseGap true p mi (p.pulses.pulseCount - mi.lastPulseWithData)
    else mi) = filled
  have hdata : eventData filled = eventData mi := by
    rw [← hfilled]
    split
    · exact eventData_handleMonitorPulseGap _
    · rfl
  have hdelivers := (h.delivers hformat).congr hdata
  simp only [eventData, Prod.mk.injEq] at hdata
  refine ⟨?_, hdelivers.count, hdata.2.2.2⟩
  exact hdelivers.buffer.eq.trans (List.map_map ..)

end Adara.Spec.MonitorEvents
