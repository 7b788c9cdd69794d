import Adara.Spec.BankHistogram

/-! # Histograms of banks and of beam monitors

Histogramming should be safe and complete, for every set and every configuration that is
accepted.  A beam monitor counts all its events just if no counter wraps and not all times of
flight share one bin (`monitorSafe_iff`).  A bank also needs that its events have pixel ids from
the range of its own, which nothing checks (`histograms_iff`). -/

namespace Adara.Spec.Histograms

open Adara.Native Adara.Native.BankHistogram HistogramBins BankHistogram WrappingTally

/-! ### Beam monitors -/

/-- A configuration of a beam monitor, in the words of its packet. -/
def configOf (id : Nat) (format tofOffset tofMax tofBin : UInt32) : BeamMonitorConfig where
  id
  format
  tofOffset := tofOffset.toNat
  tofMax := tofMax.toNat
  tofBin := tofBin.toNat

/-- The bin of an event of a monitor, if it is counted. -/
def monitorBinOf (config : BeamMonitorConfig) (field : UInt32) : Option Nat :=
  let tof := (MonitorInfo.tofOf field).toNat / 10
  if config.tofOffset ≤ tof ∧ tof < config.tofMax then
    some ((tof - config.tofOffset) / config.tofBin)
  else none

/-- If all times of flight share one bin, the event is at time 0. -/
def MonitorFits (config : BeamMonitorConfig) (field : UInt32) : Prop :=
  WholeRange config.tofOffset config.tofMax config.tofBin →
    (MonitorInfo.tofOf field).toNat / 10 = 0

/-- The histogram of a monitor with some events in it. -/
structure Tallied (config : BeamMonitorConfig) (done : List UInt32) (mi : MonitorInfo) : Prop where
  kept : mi.config = config
  dataBuffer : mi.dataBuffer =
    tally Word32.modulus (config.numTofBins - 1) (monitorBinOf config) done
  uncounted : mi.eventUncounted = inNone (monitorBinOf config) done

section Monitor

variable {config : BeamMonitorConfig} {done : List UInt32} {mi : MonitorInfo} {field : UInt32}

/-- An event comes to the branch that should never happen just if it does not fit. -/
theorem tofbinTooLarge_iff (hconfig : mi.config = config) (hmax : config.tofMax < 2 ^ 32)
    (hbin : 0 < config.tofBin) :
    mi.tofbinTooLarge field = false ↔ MonitorFits config field := by
  rw [MonitorInfo.tofbinTooLarge, decide_eq_false_iff_not, hconfig]
  by_cases hwhole : WholeRange config.tofOffset config.tofMax config.tofBin
  · have hbins : config.numTofBins = 2 := numBins_wholeRange hwhole
    have htof : (MonitorInfo.tofOf field).toNat ≤ 0x1fffff := by
      rw [MonitorInfo.tofOf, UInt32.toNat_and]
      exact Nat.and_le_right
    rw [hbins, MonitorFits, hwhole.1, hwhole.2.1, hwhole.2.2, Nat.div_one]
    constructor
    · intro hnot _
      omega
    · intro hfits hlarge
      have hzero := hfits ⟨rfl, rfl, rfl⟩
      omega
  · refine iff_of_true ?_ fun h => absurd h hwhole
    rintro ⟨hlow, hhigh, hlarge⟩
    have hlt := div_lt_numBins hmax hbin hwhole hlow hhigh
    rw [numTofBins_config] at hlarge
    omega

/-- An event that fits is counted in its bin, or as uncounted. -/
theorem Tallied.event (h : Tallied config done mi) (hmax : config.tofMax < 2 ^ 32)
    (hbin : 0 < config.tofBin) (field : UInt32) (hfits : MonitorFits config field) :
    ∃ mi', mi.countInHistogram field = some mi' ∧ Tallied config (done ++ [field]) mi' := by
  have hlength : mi.dataBuffer.length = config.numTofBins - 1 := by
    rw [h.dataBuffer, length_tally]
  have hfine := (tofbinTooLarge_iff h.kept hmax hbin).mpr hfits
  rw [MonitorInfo.tofbinTooLarge, decide_eq_false_iff_not, h.kept] at hfine
  simp only [MonitorInfo.countInHistogram, h.kept]
  by_cases hrange : config.tofOffset ≤ (MonitorInfo.tofOf field).toNat / 10 ∧
      (MonitorInfo.tofOf field).toNat / 10 < config.tofMax
  · have hsome : monitorBinOf config field = some
        (((MonitorInfo.tofOf field).toNat / 10 - config.tofOffset) / config.tofBin) := by
      simp only [monitorBinOf, if_pos hrange]
    have hlt : ((MonitorInfo.tofOf field).toNat / 10 - config.tofOffset) / config.tofBin <
        config.numTofBins - 1 := by
      by_contra hge
      exact hfine ⟨hrange.1, hrange.2, Nat.le_of_not_lt hge⟩
    rw [if_pos hrange, if_neg (by omega), if_pos (by omega)]
    refine ⟨_, rfl, rfl, ?_, ?_⟩
    · rw [tally_concat_some hsome, ← h.dataBuffer]
      rfl
    · rw [inNone_concat, if_neg (by rw [hsome]; exact nofun)]
      exact h.uncounted
  · have hnone : monitorBinOf config field = none := by
      simp only [monitorBinOf, if_neg hrange]
    rw [if_neg hrange]
    refine ⟨_, rfl, rfl, ?_, ?_⟩
    · rw [tally_concat_none hnone]
      exact h.dataBuffer
    · rw [inNone_concat, if_pos hnone, ← h.uncounted]

/-- A monitor counts the events of packet after packet: never in the branch that should never
    happen, and all of them. -/
def MonitorSafe (config : BeamMonitorConfig) (packets : List (List UInt32)) : Prop :=
  0 < config.tofBin ∧
    ∃ mi, Runs.run (Runs.run MonitorInfo.countInHistogram) (.make config) packets = some mi ∧
      Runs.along (Runs.run MonitorInfo.countInHistogram)
        (fun mi => Runs.along MonitorInfo.countInHistogram
          (fun mi field => mi.tofbinTooLarge field = false) mi) (.make config) packets ∧
      mi.dataBuffer.sum + mi.eventUncounted = packets.flatten.length

/-- What a monitor with a histogram needs: events that fit, and not so many for one counter that
    it wraps. -/
def MonitorCountable (config : BeamMonitorConfig) (events : List UInt32) : Prop :=
  (∀ field ∈ events, MonitorFits config field) ∧
    ∀ i, inBin (monitorBinOf config) i events < 2 ^ 32

theorem Tallied.make (hformat : config.format = histoFormat) :
    Tallied config [] (.make config) where
  kept := rfl
  dataBuffer := by
    rw [tally_nil]
    exact if_pos hformat
  uncounted := rfl

/-- The counters have all events just if none wraps. -/
theorem Tallied.complete_iff {events : List UInt32} (h : Tallied config events mi)
    (hmax : config.tofMax < 2 ^ 32) (hbin : 0 < config.tofBin)
    (hfits : ∀ field ∈ events, MonitorFits config field) :
    mi.dataBuffer.sum + mi.eventUncounted = events.length ↔
      ∀ i, inBin (monitorBinOf config) i events < 2 ^ 32 := by
  rw [h.dataBuffer, h.uncounted]
  refine sum_tally_add_iff (show 0 < Word32.modulus by decide) fun field hfield i hi => ?_
  have hfine := (tofbinTooLarge_iff h.kept hmax hbin).mpr (hfits field hfield)
  rw [MonitorInfo.tofbinTooLarge, decide_eq_false_iff_not, h.kept] at hfine
  simp only [monitorBinOf] at hi
  split at hi
  · rename_i hrange
    cases hi
    by_contra hge
    exact hfine ⟨hrange.1, hrange.2, Nat.le_of_not_lt hge⟩
  · cases hi

/-- A monitor with a histogram is safe just if its events can be counted. -/
theorem monitorSafe_iff (hformat : config.format = histoFormat) (hmax : config.tofMax < 2 ^ 32)
    (hbin : 0 < config.tofBin) (packets : List (List UInt32)) :
    MonitorSafe config packets ↔ MonitorCountable config packets.flatten := by
  have halong := @Runs.along_iff_forall _ _ MonitorInfo.countInHistogram
    (fun mi field => mi.tofbinTooLarge field = false) (fun mi => ∃ done, Tallied config done mi)
    (MonitorFits config) (fun mi field ⟨_, h⟩ => tofbinTooLarge_iff h.kept hmax hbin)
    (fun mi field ⟨_, h⟩ hfits => by
      obtain ⟨mi', hstep, hnext⟩ := h.event hmax hbin field hfits
      exact ⟨mi', hstep, _, hnext⟩) (.make config) packets.flatten ⟨[], .make hformat⟩
  have hrun : (∀ field ∈ packets.flatten, MonitorFits config field) →
      ∃ mi, Runs.run MonitorInfo.countInHistogram (.make config) packets.flatten = some mi ∧
        Tallied config packets.flatten mi := by
    intro hfits
    have hok : Runs.along MonitorInfo.countInHistogram (fun _ field => MonitorFits config field)
        (.make config) packets.flatten :=
      (Runs.along_of_forall fun _ _ => trivial).and_forall hfits |>.imp fun _ _ hand => hand.2
    exact Runs.exists_run_along_log (I := Tallied config)
      (fun done mi field h hfits => h.event hmax hbin field hfits) (.make hformat) hok
  rw [MonitorSafe, and_iff_right hbin, MonitorCountable, Runs.run_flatten, Runs.along_flatten,
    halong]
  constructor
  · rintro ⟨mi, hmi, hfits, hsum⟩
    obtain ⟨mi', hmi', htallied⟩ := hrun hfits
    cases hmi.symm.trans hmi'
    exact ⟨hfits, (htallied.complete_iff hmax hbin hfits).mp hsum⟩
  · rintro ⟨hfits, hroom⟩
    obtain ⟨mi, hmi, htallied⟩ := hrun hfits
    exact ⟨mi, hmi, hfits, (htallied.complete_iff hmax hbin hfits).mpr hroom⟩

end Monitor

/-! ### Banks and beam monitors -/

theorem tofBin_accept_config (forceEvent : Bool) (config : BeamMonitorConfig) :
    0 < (config.accept forceEvent).tofBin := by
  simp only [BeamMonitorConfig.accept]
  generalize (if forceEvent = true then { config with format := eventFormat } else config) = forced
  generalize (if forced.tofMax ≤ forced.tofOffset ∧ forced.format = histoFormat then
    { forced with format := eventFormat } else forced) = checked
  split
  · exact Nat.one_pos
  · omega

theorem tofMax_accept_config (forceEvent : Bool) (config : BeamMonitorConfig) :
    (config.accept forceEvent).tofMax = config.tofMax := by
  simp only [BeamMonitorConfig.accept]
  split <;> split <;> split <;> rfl

/-- A bank without events, with the sets that are assigned to it. -/
def bankOf (pixels : List UInt32) (sets : List (Option DetectorBankSet)) : BankHistogram :=
  .make pixels (sets.map (Option.map DetectorBankSet.accept))

/-- The histograms of banks and of beam monitors are safe and complete just if their events can be
    counted. -/
theorem histograms_iff (pixels : List UInt32) (sets : List (Option DetectorBankSet))
    (ops : List HistoOp) (forceEvent : Bool) (id : Nat) (format tofOffset tofMax tofBin : UInt32)
    (packets : List (List UInt32)) :
    (SafeAndComplete (bankOf pixels sets) ops ↔
      Countable (bankOf pixels sets).pids (setsAtStart (bankOf pixels sets).bankSets ops)
        (eventsOf ops)) ∧
    (((configOf id format tofOffset tofMax tofBin).accept forceEvent).format = histoFormat →
      (MonitorSafe ((configOf id format tofOffset tofMax tofBin).accept forceEvent) packets ↔
        MonitorCountable ((configOf id format tofOffset tofMax tofBin).accept forceEvent)
          packets.flatten)) := by
  constructor
  · have hwaiting : Waiting (bankOf pixels sets).pids (bankOf pixels sets).bankSets
        (bankOf pixels sets) := ⟨rfl, rfl, rfl, rfl, rfl⟩
    apply hwaiting.safeAndComplete_iff
    intro set hset
    obtain ⟨set?, -, heq⟩ := List.mem_map.mp hset
    obtain ⟨given, -, rfl⟩ := Option.map_eq_some_iff.mp heq
    exact tofBin_accept given
  · intro hformat
    apply monitorSafe_iff hformat
    · rw [tofMax_accept_config]
      exact tofMax.toNat_lt
    · exact tofBin_accept_config _ _

/-- A bank with the pixel id 5 has an event with the pixel id 7; and a monitor that has all times
    of flight in one bin has an event behind time 0. -/
theorem not_histograms :
    ¬ SafeAndComplete (bankOf [5] [some ⟨histoFormat, 0, 100, 10⟩]) [.events [⟨20, 7⟩]] ∧
    ¬ MonitorSafe ((configOf 1 histoFormat 0 0xffffffff 1).accept false) [[10]] := by
  constructor
  · rintro ⟨outcomes, bi', hrun, -⟩
    have hnone : histoRun (bankOf [5] [some ⟨histoFormat, 0, 100, 10⟩]) [.events [⟨20, 7⟩]] =
        none := by decide
    rw [hnone] at hrun
    cases hrun
  · rintro ⟨-, mi, -, ⟨hlarge, -⟩, -⟩
    have htrue : (MonitorInfo.make ((configOf 1 histoFormat 0 0xffffffff 1).accept
        false)).tofbinTooLarge 10 = true := by decide
    exact absurd (hlarge.1.symm.trans htrue) (by decide)

end Adara.Spec.Histograms
