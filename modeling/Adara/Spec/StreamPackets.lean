import Adara.ForStd.Runs
import Adara.ForStd.TickIndex
import Adara.Native.StreamParser

/-! # The packets of a run, and the pulses they count

A banked event packet is processed bank by bank, in the order of its sections
(`rxPacket_eq`).  Every packet with banked events has a pulse of its own, later than those of
the packets before it, whatever beam monitor packets come between.  So the events of a bank
come at pulses in order, and at different ones just when no packet has the bank twice
(`arrivalsOf_pairwise_iff`). -/

namespace Adara.Spec.StreamPackets

open Adara.Native Adara.Native.StreamParser

/-! ### The sections of a packet -/

/-- The banks of a source, and the words behind them. -/
def banksOfSource (withState : Bool) :
    (bankCount : Nat) → List UInt32 → Option (List BankSection × List UInt32)
  | 0, rpos => some ([], rpos)
  | bankCount + 1, rpos => do
    let bank ← readBankHeader withState rpos
    let (banks, rpos) ← banksOfSource withState bankCount (bank.rpos.drop bank.eventWords)
    some (bank :: banks, rpos)

/-- The banks of all sources up to the end of the payload. -/
def banksOfSources (withState : Bool) : (fuel : Nat) → List UInt32 → Option (List BankSection)
  | _, [] => some []
  | fuel + 1, _ :: _ :: _ :: bankCount :: rpos => do
    let (banks, rpos) ← banksOfSource withState bankCount.toNat rpos
    let rest ← banksOfSources withState fuel rpos
    some (banks ++ rest)
  | _, _ => none

section Walk

variable {σ : Type} {withState : Bool} {process : σ → BankSection → Option σ}

theorem walkBanks_eq (bankCount : Nat) (s : σ) (rpos : List UInt32) :
    walkBanks withState process bankCount s rpos =
      (banksOfSource withState bankCount rpos).bind fun (banks, rpos) =>
        (Runs.run process s banks).map fun s => (s, rpos) := by
  induction bankCount generalizing s rpos with
  | zero => rfl
  | succ bankCount ih =>
    rw [walkBanks, banksOfSource]
    cases hread : readBankHeader withState rpos with
    | none => rfl
    | some bank =>
      simp only [Option.bind_eq_bind, Option.bind_some, ih]
      cases hbanks : banksOfSource withState bankCount (bank.rpos.drop bank.eventWords) with
      | none =>
        simp only [Option.bind_none, Option.bind_fun_none]
      | some rest =>
        simp only [Option.bind_some, Runs.run]
        exact (Option.map_bind ..).symm

theorem walkSources_eq (fuel : Nat) (s : σ) (rpos : List UInt32) :
    walkSources withState process fuel s rpos =
      (banksOfSources withState fuel rpos).bind (Runs.run process s) := by
  induction fuel generalizing s rpos with
  | zero =>
    match rpos with
    | [] => rfl
    | [_] => rfl
    | [_, _] => rfl
    | [_, _, _] => rfl
    | _ :: _ :: _ :: _ :: _ => rfl
  | succ fuel ih =>
    match rpos with
    | [] => rfl
    | [_] => rfl
    | [_, _] => rfl
    | [_, _, _] => rfl
    | _ :: _ :: _ :: bankCount :: rpos =>
      rw [walkSources, banksOfSources, walkBanks_eq]
      cases hbanks : banksOfSource withState bankCount.toNat rpos with
      | none => rfl
      | some found =>
        obtain ⟨banks, rpos'⟩ := found
        simp only [Option.bind_eq_bind, Option.bind_some, Option.bind_map, ih]
        cases hrest : banksOfSources withState fuel rpos' with
        | none =>
          simp only [Function.comp_def, hrest, Option.bind_none, Option.bind_fun_none]
        | some rest =>
          simp only [Function.comp_def, hrest, Option.bind_some, Runs.run_append]

/-- The banks of a source take up words, so fewer are left. -/
theorem length_banksOfSource {bankCount : Nat} {rpos rpos' : List UInt32}
    {banks : List BankSection} (h : banksOfSource withState bankCount rpos = some (banks, rpos')) :
    rpos'.length ≤ rpos.length := by
  induction bankCount generalizing rpos banks with
  | zero =>
    cases h
    exact Nat.le_refl _
  | succ bankCount ih =>
    rw [banksOfSource] at h
    obtain ⟨bank, hbank, h⟩ := Option.bind_eq_some_iff.mp h
    obtain ⟨⟨rest, rpos''⟩, hrest, heq⟩ := Option.bind_eq_some_iff.mp h
    cases heq
    have hread : bank.rpos.length ≤ rpos.length := by
      match withState, rpos, hbank with
      | false, _ :: _ :: _, rfl => simp only [List.length_cons]; omega
      | true, _ :: _ :: _ :: _, rfl => simp only [List.length_cons]; omega
    have hle := ih hrest
    rw [List.length_drop] at hle
    omega

/-- Fuel for every word of the payload is enough for the loop over the sources. -/
theorem walkSources_fuel {fuel fuel' : Nat} {s : σ} {rpos : List UInt32}
    (h : rpos.length ≤ fuel) (h' : rpos.length ≤ fuel') :
    walkSources withState process fuel s rpos = walkSources withState process fuel' s rpos := by
  suffices hbanks : banksOfSources withState fuel rpos = banksOfSources withState fuel' rpos by
    rw [walkSources_eq, walkSources_eq, hbanks]
  induction fuel generalizing fuel' rpos with
  | zero =>
    have hnil := List.eq_nil_of_length_eq_zero (Nat.le_zero.mp h)
    subst hnil
    cases fuel' <;> rfl
  | succ fuel ih =>
    match fuel', rpos with
    | fuel', [] => cases fuel' <;> rfl
    | fuel' + 1, [_] => rfl
    | fuel' + 1, [_, _] => rfl
    | fuel' + 1, [_, _, _] => rfl
    | fuel' + 1, _ :: _ :: _ :: bankCount :: rpos =>
      simp only [List.length_cons] at h h'
      rw [banksOfSources, banksOfSources]
      cases hbanks : banksOfSource withState bankCount.toNat rpos with
      | none => rfl
      | some found =>
        have hle := length_banksOfSource hbanks
        simp only [Option.bind_eq_bind, Option.bind_some]
        rw [ih (show found.2.length ≤ fuel by omega) (show found.2.length ≤ fuel' by omega)]

end Walk

/-! ### Packets -/

/-- The banks of a banked event packet; none of a duplicate pulse. -/
def bankedSections (withState : Bool) (payload : List UInt32) : Option (List BankSection) :=
  (isDuplicate payload).bind fun duplicate =>
    if duplicate then some [] else banksOfSources withState payload.length (payload.drop 4)

/-- The banks a packet has events of. -/
def sectionsOf : StreamPacket → Option (List BankSection)
  | .bankedEvent payload => bankedSections false payload
  | .bankedEventState payload => bankedSections true payload
  | .beamMonitor payload => (isDuplicate payload).map fun _ => []

/-- How a packet is counted, unless it is a duplicate. -/
def counted (c : PulseCounter) : StreamPacket → PulseCounter
  | .bankedEvent payload =>
    if isDuplicate payload = some true then c else c.countBanked
  | .bankedEventState payload =>
    if isDuplicate payload = some true then c else c.countBanked
  | .beamMonitor payload =>
    if isDuplicate payload = some true then c else c.countMonitor

variable {ready : Bool}

theorem rxBanked_eq (withState : Bool) (p : StreamParser) (payload : List UInt32) :
    rxBanked ready withState p payload =
      (bankedSections withState payload).bind
        (Runs.run (processBankEvents ready)
          { p with pulses :=
              if isDuplicate payload = some true then p.pulses else p.pulses.countBanked }) := by
  rw [rxBanked, bankedSections]
  cases hduplicate : isDuplicate payload with
  | none => rfl
  | some duplicate =>
    cases duplicate with
    | true => rfl
    | false =>
      simp only [Option.bind_eq_bind, Option.bind_some, Bool.false_eq_true, if_false,
        Option.some.injEq]
      exact walkSources_eq ..

/-- A packet is counted, and then its banks are processed one by one. -/
theorem rxPacket_eq (p : StreamParser) (pkt : StreamPacket) :
    p.rxPacket ready pkt =
      (sectionsOf pkt).bind
        (Runs.run (processBankEvents ready) { p with pulses := counted p.pulses pkt }) := by
  cases pkt with
  | bankedEvent payload => exact rxBanked_eq false p payload
  | bankedEventState payload => exact rxBanked_eq true p payload
  | beamMonitor payload =>
    rw [rxPacket, rxBeamMonitor, sectionsOf, counted]
    cases hduplicate : isDuplicate payload with
    | none => rfl
    | some duplicate => cases duplicate <;> rfl

/-! ### Pulses -/

/-- The last pulse that banked events may have come with: the one counted last, unless only
    its beam monitor packet has come. -/
def bankedPulse (c : PulseCounter) : Nat :=
  if c.pulseFlag = 2 then c.pulseCount - 1 else c.pulseCount

/-- A pulse with only a beam monitor packet has been counted. -/
def Counted (c : PulseCounter) : Prop := c.pulseFlag = 2 → 0 < c.pulseCount

theorem countBanked_spec {c : PulseCounter} (h : Counted c) :
    Counted c.countBanked ∧ c.countBanked.pulseCount = bankedPulse c + 1 ∧
      bankedPulse c.countBanked = bankedPulse c + 1 := by
  simp only [Counted] at h
  simp only [PulseCounter.countBanked, PulseCounter.count, Counted, bankedPulse]
  by_cases h0 : c.pulseFlag = 0
  · simp [h0]
  · by_cases h2 : c.pulseFlag = 2
    · have hpos := h h2
      simp only [h2]
      simp
      omega
    · simp [h0, h2]

theorem countMonitor_spec {c : PulseCounter} (h : Counted c) :
    Counted c.countMonitor ∧ bankedPulse c ≤ bankedPulse c.countMonitor := by
  simp only [Counted] at h
  simp only [PulseCounter.countMonitor, PulseCounter.count, Counted, bankedPulse]
  by_cases h0 : c.pulseFlag = 0
  · simp [h0]
  · by_cases h1 : c.pulseFlag = 1
    · simp [h1]
    · simp only [h0, h1, if_false]
      split
      · have hpos := h ‹_›
        simp
      · simp

/-- Events come with a pulse of their own, later than those with events before. -/
theorem counted_spec {c : PulseCounter} (h : Counted c) (pkt : StreamPacket) :
    Counted (counted c pkt) ∧ bankedPulse c ≤ bankedPulse (counted c pkt) ∧
      ((sectionsOf pkt).getD [] ≠ [] →
        (counted c pkt).pulseCount = bankedPulse c + 1 ∧
          bankedPulse (counted c pkt) = bankedPulse c + 1) := by
  have hbanked : ∀ withState payload,
      let c' := if isDuplicate payload = some true then c else c.countBanked
      Counted c' ∧ bankedPulse c ≤ bankedPulse c' ∧
        ((bankedSections withState payload).getD [] ≠ [] →
          c'.pulseCount = bankedPulse c + 1 ∧ bankedPulse c' = bankedPulse c + 1) := by
    intro withState payload
    by_cases hduplicate : isDuplicate payload = some true
    · simp only [hduplicate, if_true]
      refine ⟨h, Nat.le_refl _, fun hne => absurd ?_ hne⟩
      simp only [bankedSections, hduplicate, Option.bind_some, if_true, Option.getD_some]
    · simp only [hduplicate, if_false]
      obtain ⟨hcounted, hpulse, hlast⟩ := countBanked_spec h
      exact ⟨hcounted, by omega, fun _ => ⟨hpulse, hlast⟩⟩
  cases pkt with
  | bankedEvent payload => exact hbanked false payload
  | bankedEventState payload => exact hbanked true payload
  | beamMonitor payload =>
    have hnone : (sectionsOf (.beamMonitor payload)).getD [] = [] := by
      rw [sectionsOf]
      cases isDuplicate payload <;> rfl
    rw [counted, hnone]
    split
    · exact ⟨h, Nat.le_refl _, fun hne => absurd rfl hne⟩
    · obtain ⟨hcounted, hle⟩ := countMonitor_spec h
      exact ⟨hcounted, hle, fun hne => absurd rfl hne⟩

/-! ### Arrivals -/

/-- The events of a bank that came in a section of a packet, with the pulse counted for the
    packet. -/
structure Arrival where
  pulse : Nat
  key : BankKey
  eventCount : Nat
deriving DecidableEq, Repr

/-- What arrives with a packet. -/
def packetArrivals (c : PulseCounter) (pkt : StreamPacket) : List Arrival :=
  ((sectionsOf pkt).getD []).map fun bank =>
    ⟨(counted c pkt).pulseCount, bank.key, bank.eventCount⟩

/-- What arrives with some packets. -/
def arrivals : PulseCounter → List StreamPacket → List Arrival
  | _, [] => []
  | c, pkt :: pkts => packetArrivals c pkt ++ arrivals (counted c pkt) pkts

/-- What arrives of one bank: pulses and numbers of events. -/
def arrivalsOf (key : BankKey) (as : List Arrival) : List (Nat × Nat) :=
  (as.filter fun a => a.key = key).map fun a => (a.pulse, a.eventCount)

/-- The number of sections a packet has for a bank. -/
def occurrences (key : BankKey) (pkt : StreamPacket) : Nat :=
  ((sectionsOf pkt).getD []).countP fun bank => bank.key = key

@[simp] theorem arrivalsOf_append (key : BankKey) (as as' : List Arrival) :
    arrivalsOf key (as ++ as') = arrivalsOf key as ++ arrivalsOf key as' := by
  simp only [arrivalsOf, List.filter_append, List.map_append]

theorem pulses_packetArrivals (key : BankKey) (c : PulseCounter) (pkt : StreamPacket) :
    (arrivalsOf key (packetArrivals c pkt)).map Prod.fst =
      List.replicate (occurrences key pkt) (counted c pkt).pulseCount := by
  rw [List.eq_replicate_iff, occurrences, List.countP_eq_length_filter]
  simp only [arrivalsOf, packetArrivals, List.filter_map, List.map_map, List.length_map,
    List.mem_map]
  constructor
  · rfl
  · intro pulse hpulse
    obtain ⟨bank, -, rfl⟩ := hpulse
    rfl

/-- What is still to arrive comes with later pulses. -/
theorem bankedPulse_lt {c : PulseCounter} {pkts : List StreamPacket} (h : Counted c) :
    ∀ a ∈ arrivals c pkts, bankedPulse c < a.pulse := by
  induction pkts generalizing c with
  | nil => exact fun a ha => absurd ha List.not_mem_nil
  | cons pkt pkts ih =>
    obtain ⟨hcounted, hle, hown⟩ := counted_spec h pkt
    intro a ha
    rcases List.mem_append.mp ha with ha | ha
    · obtain ⟨bank, hbank, rfl⟩ := List.mem_map.mp ha
      have hpulse := (hown (List.ne_nil_of_mem hbank)).1
      show bankedPulse c < (counted c pkt).pulseCount
      omega
    · exact Nat.lt_of_le_of_lt hle (ih hcounted a ha)

section Order

variable {c : PulseCounter} {pkts : List StreamPacket} {key : BankKey}

theorem mem_arrivalsOf {as : List Arrival} {a : Nat × Nat} (h : a ∈ arrivalsOf key as) :
    ∃ b ∈ as, a.1 = b.pulse := by
  obtain ⟨b, hb, rfl⟩ := List.mem_map.mp h
  exact ⟨b, List.mem_of_mem_filter hb, rfl⟩

theorem arrivalsOf_pos (h : Counted c) : ∀ a ∈ arrivalsOf key (arrivals c pkts), 0 < a.1 := by
  intro a ha
  obtain ⟨b, hb, heq⟩ := mem_arrivalsOf ha
  have hlt := bankedPulse_lt h b hb
  omega

/-- The pulse of a packet is before those of the packets after it. -/
theorem packet_lt_rest {pkt : StreamPacket} (h : Counted c) :
    ∀ tick ∈ (arrivalsOf key (packetArrivals c pkt)).map Prod.fst,
      ∀ tick' ∈ (arrivalsOf key (arrivals (counted c pkt) pkts)).map Prod.fst,
        tick < tick' := by
  obtain ⟨hcounted, -, hown⟩ := counted_spec h pkt
  intro tick htick tick' htick'
  obtain ⟨a, ha, rfl⟩ := List.mem_map.mp htick
  obtain ⟨b, hb, heq⟩ := mem_arrivalsOf ha
  obtain ⟨bank, hbank, rfl⟩ := List.mem_map.mp hb
  obtain ⟨hpulse, hlast⟩ := hown (List.ne_nil_of_mem hbank)
  obtain ⟨a', ha', rfl⟩ := List.mem_map.mp htick'
  obtain ⟨b', hb', heq'⟩ := mem_arrivalsOf ha'
  have hlater := bankedPulse_lt hcounted b' hb'
  simp only at heq
  omega

/-- The events of a bank come at pulses in order. -/
theorem arrivalsOf_pairwise (h : Counted c) :
    ((arrivalsOf key (arrivals c pkts)).map Prod.fst).Pairwise (· ≤ ·) := by
  induction pkts generalizing c with
  | nil => exact List.Pairwise.nil
  | cons pkt pkts ih =>
    rw [arrivals, arrivalsOf_append, List.map_append, List.pairwise_append]
    refine ⟨?_, ih (counted_spec h pkt).1, ?_⟩
    · rw [pulses_packetArrivals, List.pairwise_replicate]
      exact .inr (Nat.le_refl _)
    · intro tick htick tick' htick'
      exact Nat.le_of_lt (packet_lt_rest h tick htick tick' htick')

/-- They come at different pulses just when no packet has the bank twice. -/
theorem arrivalsOf_pairwise_iff (h : Counted c) :
    ((arrivalsOf key (arrivals c pkts)).map Prod.fst).Pairwise (· < ·) ↔
      ∀ pkt ∈ pkts, occurrences key pkt ≤ 1 := by
  induction pkts generalizing c with
  | nil => exact ⟨fun _ _ hmem => absurd hmem List.not_mem_nil, fun _ => List.Pairwise.nil⟩
  | cons pkt pkts ih =>
    have hone : (List.replicate (occurrences key pkt) (counted c pkt).pulseCount).Pairwise
        (· < ·) ↔ occurrences key pkt ≤ 1 := by
      rw [List.pairwise_replicate]
      simp
    rw [arrivals, arrivalsOf_append, List.map_append, List.pairwise_append,
      ih (counted_spec h pkt).1, List.forall_mem_cons]
    rw [pulses_packetArrivals, hone, ← pulses_packetArrivals]
    exact ⟨fun h => ⟨h.1, h.2.1⟩, fun hall => ⟨hall.1, hall.2, packet_lt_rest h⟩⟩

end Order

end Adara.Spec.StreamPackets
