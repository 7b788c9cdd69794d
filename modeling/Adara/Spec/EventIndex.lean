import Adara.Spec.BankTable
import Adara.Spec.StreamPackets

/-! # The event index of a bank

Whatever the buffers hold and wherever they are flushed, `processBankEvents` records the
events of a bank in its index as `TickIndex.record` does: the entries the adapter has been
given, followed by those still buffered, are the entries recorded so far. -/

namespace Adara.Spec.EventIndex

open Adara.Native Adara.Native.StreamParser
open Adara.Spec.BankTable Adara.Spec.StreamPackets

/-! ### Storing the events of a bank -/

/-- The index of a bank: entries written and entries buffered. -/
def index (bi : BankInfo) : TickIndex where
  entries := bi.indexWritten ++ bi.indexBuffer
  total := bi.eventCount
  last := bi.lastPulseWithData

/-- What a bank has been set up for. -/
def setup (bi : BankInfo) : List (Option UInt32) × Bool × Bool :=
  (bi.bankSets, bi.initialized, bi.hasEvent)

section Buffers

variable (ready : Bool) (p : StreamParser) {bi : BankInfo} {eventCount : Nat}

theorem index_initializeBank (bi : BankInfo) : index bi.initializeBank = index bi := by
  rw [BankInfo.initializeBank]
  split <;> rfl

theorem initializeBank_of_initialized (h : bi.initialized = true) :
    bi.initializeBank = bi := by
  rw [BankInfo.initializeBank, if_pos h]

/-- A gap is filled with entries in the buffer, or by the adapter. -/
theorem handleBankPulseGap_spec (h : bi.initialized = true) (count : Nat) :
    index (p.handleBankPulseGap ready bi count) =
        { index bi with
          entries := (index bi).entries ++ List.replicate count (index bi).total } ∧
      setup (p.handleBankPulseGap ready bi count) = setup bi := by
  simp only [handleBankPulseGap, initializeBank_of_initialized h]
  split
  · refine ⟨?_, rfl⟩
    simp only [index, List.append_assoc]
  · refine ⟨?_, rfl⟩
    simp only [index, BankInfo.bankIndexBuffersReady, BankInfo.bankPulseGap, List.append_nil]

/-- The buffers grow to hold what they need to. -/
theorem growBuffers_spec (bi : BankInfo) (eventCount : Nat) :
    index (p.growBuffers ready bi eventCount) = index bi ∧
      setup (p.growBuffers ready bi eventCount) = setup bi ∧
      (p.growBuffers ready bi eventCount).tofBufferSize + eventCount ≤
        (p.growBuffers ready bi eventCount).tofBuffer.length := by
  rw [growBuffers]
  by_cases hneeded : bi.tofBuffer.length < bi.tofBufferSize + eventCount
  · rw [if_pos hneeded]
    refine ⟨rfl, rfl, ?_⟩
    simp only [List.length_append, List.length_replicate]
    split <;> split <;> omega
  · rw [if_neg hneeded]
    exact ⟨rfl, rfl, Nat.le_of_not_lt hneeded⟩

theorem copyEvents_spec {events : List Event} (hlen : events.length ≤ eventCount)
    (hroom : bi.tofBufferSize + eventCount ≤ bi.tofBuffer.length) :
    ∃ bi', copyEvents bi eventCount events = some bi' ∧ index bi' = index bi ∧
      setup bi' = setup bi := by
  rw [copyEvents, if_pos (by omega)]
  exact ⟨_, rfl, rfl, rfl⟩

/-- Flushing moves entries to the adapter, and keeps them in order. -/
theorem flushBuffers_spec (bi : BankInfo) :
    index (p.flushBuffers ready bi) = index bi ∧ setup (p.flushBuffers ready bi) = setup bi := by
  rw [flushBuffers]
  split <;> split <;> simp [index, setup, BankInfo.bankIndexBuffersReady,
    BankInfo.bankPidTOFBuffersReady]

/-- The events of a bank are recorded in its index under the current pulse. -/
theorem processEventData_spec {events : List Event} (h : bi.initialized = true)
    (hlen : events.length ≤ eventCount) :
    ∃ bi', p.processEventData ready bi eventCount events = some bi' ∧
      index bi' = (index bi).record p.pulses.pulseCount eventCount ∧
      setup bi' = setup bi := by
  -- the gap before this pulse; none when the bank has had data in it
  have hgap : ∃ filled, (if bi.lastPulseWithData < p.pulses.pulseCount - 1 then
        p.handleBankPulseGap ready bi (p.pulses.pulseCount - 1 - bi.lastPulseWithData)
        else bi) = filled ∧ setup filled = setup bi ∧
      index filled =
        { index bi with
          entries := (index bi).entries ++
            List.replicate (p.pulses.pulseCount - 1 - (index bi).last) (index bi).total } := by
    refine ⟨_, rfl, ?_⟩
    split
    · obtain ⟨hindex, hsetup⟩ := handleBankPulseGap_spec ready p h
        (p.pulses.pulseCount - 1 - bi.lastPulseWithData)
      exact ⟨hsetup, hindex⟩
    · rename_i hlast
      have hzero : p.pulses.pulseCount - 1 - (index bi).last = 0 :=
        Nat.sub_eq_zero_of_le (Nat.le_of_not_lt hlast)
      rw [hzero, List.replicate_zero, List.append_nil]
      exact ⟨rfl, rfl⟩
  obtain ⟨filled, hfilled, hsetup, hindex⟩ := hgap
  obtain ⟨hgrown, hgrown', hroom⟩ := growBuffers_spec ready p filled eventCount
  obtain ⟨copied, hcopied, hcopy, hcopy'⟩ := copyEvents_spec hlen hroom
  simp only [processEventData, hfilled, hcopied, Option.bind_eq_bind, Option.bind_some]
  refine ⟨_, rfl, ?_, ?_⟩
  · rw [(flushBuffers_spec ready p _).1]
    have hall : index copied = _ := hcopy.trans (hgrown.trans hindex)
    simp only [index, TickIndex.mk.injEq] at hall
    simp only [index, TickIndex.record, ← List.append_assoc, hall]
  · rw [(flushBuffers_spec ready p _).2]
    exact hcopy'.trans (hgrown'.trans hsetup)

end Buffers

/-! ### The table of banks and what arrived -/

/-- A `BankInfo` is found or made: for a special bank, and for a detector bank known in
    state 0. -/
def Makeable (banks : BankTable BankInfo) : BankKey → Prop
  | .bank bankId _ => (banks.find? (.bank bankId 0)).isSome
  | _ => True

/-- The bank sets of a `BankInfo` made for a key: none for a special bank, and those of
    state 0 for a detector bank. -/
def madeSets (banks : BankTable BankInfo) : BankKey → Option (List (Option UInt32))
  | .bank bankId _ => (banks.find? (.bank bankId 0)).map BankInfo.bankSets
  | _ => some []

theorem makeable_iff {banks : BankTable BankInfo} {key : BankKey} :
    Makeable banks key ↔ (madeSets banks key).isSome := by
  cases key with
  | unmapped => exact ⟨fun _ => rfl, fun _ => trivial⟩
  | error => exact ⟨fun _ => rfl, fun _ => trivial⟩
  | bank bankId state => rw [Makeable, madeSets, Option.isSome_map]

/-- Every bank that stores events has the index of what arrived of it. -/
structure Filed (banks : BankTable BankInfo) (as : List Arrival) : Prop where
  alloc : Allocated banks
  index_eq : ∀ key bi, banks.find? key = some bi → BankInfo.wantsEvents bi.bankSets = true →
    index bi = .ofArrivals (arrivalsOf key as)
  hasEvent_eq : ∀ key bi, banks.find? key = some bi →
    bi.hasEvent = (bi.initialized && BankInfo.wantsEvents bi.bankSets)
  missing : ∀ key, banks.find? key = none → Makeable banks key → arrivalsOf key as = []

section Filed

variable {banks banks' : BankTable BankInfo} {as : List Arrival} {a : Arrival}

theorem arrivalsOf_concat_self {pulse eventCount : Nat} {key : BankKey} :
    arrivalsOf key (as ++ [⟨pulse, key, eventCount⟩]) =
      arrivalsOf key as ++ [(pulse, eventCount)] := by
  simp [arrivalsOf]

theorem arrivalsOf_concat_ne {key : BankKey} (h : key ≠ a.key) :
    arrivalsOf key (as ++ [a]) = arrivalsOf key as := by
  simp [arrivalsOf, Ne.symm h]

/-- Only the entries matter. -/
theorem Filed.congr (h : Filed banks as) (halloc : Allocated banks')
    (hfind : ∀ key, banks'.find? key = banks.find? key) : Filed banks' as where
  alloc := halloc
  index_eq := fun key bi hbi => h.index_eq key bi (hfind key ▸ hbi)
  hasEvent_eq := fun key bi hbi => h.hasEvent_eq key bi (hfind key ▸ hbi)
  missing := fun key hnone hmake => by
    apply h.missing key (hfind key ▸ hnone)
    cases key with
    | unmapped => trivial
    | error => trivial
    | bank bankId state => rwa [Makeable, hfind] at hmake

/-- Events of an unknown bank arrive. -/
theorem Filed.skip (h : Filed banks as) (hnone : banks.find? a.key = none)
    (hnot : ¬ Makeable banks a.key) : Filed banks (as ++ [a]) where
  alloc := h.alloc
  hasEvent_eq := h.hasEvent_eq
  index_eq := fun key bi hbi hwants => by
    have hne : key ≠ a.key := by
      intro heq
      rw [heq, hnone] at hbi
      cases hbi
    rw [arrivalsOf_concat_ne hne]
    exact h.index_eq key bi hbi hwants
  missing := fun key hkey hmake => by
    have hne : key ≠ a.key := fun heq => hnot (heq ▸ hmake)
    rw [arrivalsOf_concat_ne hne]
    exact h.missing key hkey hmake

/-- Events of a bank arrive, and its `BankInfo` is stored. -/
theorem Filed.store {bi' : BankInfo} (h : Filed banks as) (halloc : Allocated banks')
    (hfind : ∀ key, banks'.find? key = if key = a.key then some bi' else banks.find? key)
    (hknown : (banks.find? a.key).isSome ∨ Makeable banks a.key)
    (hindex : BankInfo.wantsEvents bi'.bankSets = true →
      index bi' = .ofArrivals (arrivalsOf a.key (as ++ [a])))
    (hevent : bi'.hasEvent = (bi'.initialized && BankInfo.wantsEvents bi'.bankSets)) :
    Filed banks' (as ++ [a]) where
  alloc := halloc
  index_eq := fun key bi hbi hwants => by
    by_cases hkey : key = a.key
    · rw [hfind, if_pos hkey] at hbi
      cases hbi
      rw [hkey]
      exact hindex hwants
    · rw [hfind, if_neg hkey] at hbi
      rw [arrivalsOf_concat_ne hkey]
      exact h.index_eq key bi hbi hwants
  hasEvent_eq := fun key bi hbi => by
    by_cases hkey : key = a.key
    · rw [hfind, if_pos hkey] at hbi
      cases hbi
      exact hevent
    · rw [hfind, if_neg hkey] at hbi
      exact h.hasEvent_eq key bi hbi
  missing := fun key hnone hmake => by
    have hne : key ≠ a.key := by
      intro heq
      rw [hfind, if_pos heq] at hnone
      cases hnone
    rw [hfind, if_neg hne] at hnone
    rw [arrivalsOf_concat_ne hne]
    apply h.missing key hnone
    -- a bank is made for state 0 only where it is known there
    cases key with
    | unmapped => trivial
    | error => trivial
    | bank bankId state =>
      rw [Makeable, hfind] at hmake
      by_cases hzero : BankKey.bank bankId 0 = a.key
      · rw [← hzero] at hknown
        rcases hknown with hknown | hknown
        · exact hknown
        · exact hknown
      · rwa [if_neg hzero] at hmake

end Filed

/-! ### Processing a section -/

/-- A special bank needs no state; the number of states of another fits in a word. -/
def StateFits : BankKey → Prop
  | .bank _ state => state + 1 < Word32.modulus
  | _ => True

instance : (key : BankKey) → Decidable (StateFits key)
  | .unmapped => instDecidableTrue
  | .error => instDecidableTrue
  | .bank _ state => inferInstanceAs (Decidable (state + 1 < Word32.modulus))

/-- The table has room for the bank, or grows in both directions, and the events are in the
    payload. -/
def SectionSafe (p : StreamParser) (bank : BankSection) : Prop :=
  CallSafe p.banks bank.roomFor bank.state ∧ StateFits bank.key ∧ bank.events.isSome

instance (p : StreamParser) (bank : BankSection) : Decidable (SectionSafe p bank) :=
  inferInstanceAs (Decidable (_ ∧ _ ∧ _))

theorem covers_key {banks banks' : BankTable BankInfo} {bank : BankSection}
    (hstate : StateFits bank.key)
    (h : banks.reallocateBanksArray bank.roomFor bank.state = some banks') :
    banks'.Covers bank.key := by
  rw [BankSection.key] at hstate ⊢
  by_cases hunmapped : bank.bankId = BankSection.unmappedBank
  · rw [if_pos hunmapped]
    trivial
  · by_cases herror : bank.bankId = BankSection.errorBank
    · rw [if_neg hunmapped, if_pos herror]
      trivial
    · rw [if_neg hunmapped, if_neg herror] at hstate ⊢
      rw [BankSection.roomFor, if_neg (by simp [hunmapped, herror])] at h
      exact covers_of_reallocate hstate h

/-- A `BankInfo` is found, or made, or there is none to be made. -/
theorem findBankInfo_spec {banks : BankTable BankInfo} {key : BankKey} (halloc : Allocated banks)
    (hkey : banks.Covers key) :
    ∃ banks' found, findBankInfo banks key = some (banks', found) ∧ Allocated banks' ∧
      (∀ key', banks'.find? key' = if key' = key then found else banks.find? key') ∧
      banks'.Covers key ∧
      found = (banks.find? key).or ((madeSets banks key).map .make) := by
  have hself : ∀ key', banks.find? key' = if key' = key then banks.find? key else
      banks.find? key' := by
    intro key'
    split
    · rename_i heq
      rw [heq]
    · rfl
  -- all three kinds of keys write what they make to the same place
  have hmake : ∀ sets, ∃ banks', banks.write (banks.index key) (.make sets) = some banks' ∧
      Allocated banks' ∧ banks'.Covers key ∧
      ∀ key', banks'.find? key' = if key' = key then some (.make sets) else banks.find? key' := by
    intro sets
    obtain ⟨banks', hwrite, halloc', hmax, hnum, hfind⟩ := write_spec (.make sets) halloc hkey
    refine ⟨banks', hwrite, halloc', ?_, hfind⟩
    cases key with
    | unmapped => trivial
    | error => trivial
    | bank bankId state => exact ⟨hmax ▸ hkey.1, hnum ▸ hkey.2⟩
  rw [findBankInfo, read_eq halloc hkey]
  cases hfound : banks.find? key with
  | some bi =>
    rw [hfound] at hself
    exact ⟨banks, some bi, rfl, halloc, hself, hkey, rfl⟩
  | none =>
    simp only [Option.bind_eq_bind, Option.bind_some]
    cases key with
    | unmapped =>
      obtain ⟨banks', hwrite, halloc', hcovers, hfind⟩ := hmake []
      simp only [Option.bind_some, hwrite]
      exact ⟨_, _, rfl, halloc', hfind, hcovers, rfl⟩
    | error =>
      obtain ⟨banks', hwrite, halloc', hcovers, hfind⟩ := hmake []
      simp only [Option.bind_some, hwrite]
      exact ⟨_, _, rfl, halloc', hfind, hcovers, rfl⟩
    | bank bankId state =>
      -- the bank sets of a state's `BankInfo` are those of state 0
      have hzero : banks.Covers (.bank bankId 0) := ⟨hkey.1, halloc.numStates_pos⟩
      simp only [read_eq halloc hzero, Option.map_some, Option.bind_some, madeSets]
      cases hbi0 : banks.find? (.bank bankId 0) with
      | none =>
        rw [hfound] at hself
        exact ⟨banks, none, rfl, halloc, hself, hkey, rfl⟩
      | some bi0 =>
        obtain ⟨banks', hwrite, halloc', hcovers, hfind⟩ := hmake bi0.bankSets
        simp only [Option.map_some, hwrite, Option.bind_some]
        exact ⟨_, _, rfl, halloc', hfind, hcovers, rfl⟩

theorem length_ofFields (words : List UInt32) :
    (Event.ofFields words).length = words.length / 2 := by
  induction words using Event.ofFields.induct with
  | case1 tof pixel rest ih =>
    simp only [Event.ofFields, List.length_cons, ih]
    omega
  | case2 words hwords =>
    match words, hwords with
    | [], _ => rfl
    | [_], _ => simp only [Event.ofFields, List.length_nil, List.length_singleton]
    | _ :: _ :: _, hwords => exact absurd rfl (hwords _ _ _)

/-- No more events are copied than the section says it has. -/
theorem length_events {bank : BankSection} {events : List Event}
    (h : bank.events = some events) : events.length ≤ bank.eventCount := by
  rw [BankSection.events] at h
  split at h
  · cases h
    have hwords : bank.eventWords ≤ 2 * bank.eventCount := Nat.mod_le _ _
    rw [length_ofFields, List.length_take]
    omega
  · cases h

theorem initializeBank_spec {bi : BankInfo}
    (h : bi.hasEvent = (bi.initialized && BankInfo.wantsEvents bi.bankSets)) :
    bi.initializeBank.initialized = true ∧ bi.initializeBank.bankSets = bi.bankSets ∧
      bi.initializeBank.hasEvent = BankInfo.wantsEvents bi.bankSets := by
  rw [BankInfo.initializeBank]
  cases hinit : bi.initialized with
  | true =>
    rw [if_pos rfl]
    refine ⟨hinit, rfl, ?_⟩
    rw [h, hinit, Bool.true_and]
  | false =>
    rw [if_neg Bool.false_ne_true]
    refine ⟨rfl, rfl, ?_⟩
    rw [hinit, Bool.false_and] at h
    rw [h, Bool.false_or]

/-- What processing a section does: it counts the events of an unknown bank, or stores them
    for a bank with events, or just looks at a bank without. -/
inductive Processed (ready : Bool) (p : StreamParser) (bank : BankSection)
    (p' : StreamParser) : Prop
  | unknown (hnone : p.banks.find? bank.key = none) (hsets : madeSets p.banks bank.key = none)
      (hfind : ∀ key, p'.banks.find? key = p.banks.find? key)
      (hmetrics : p'.runMetrics =
        countSpecial (countUnknown p.runMetrics bank.eventCount) bank.key bank.eventCount)
  | stored (bi bi' : BankInfo) (events : List Event)
      (hprior : (p.banks.find? bank.key).or ((madeSets p.banks bank.key).map .make) = some bi)
      (hevent : bi.initializeBank.hasEvent = true) (hevents : bank.events = some events)
      (hdata : p.processEventData ready bi.initializeBank bank.eventCount events = some bi')
      (hfind : ∀ key, p'.banks.find? key = if key = bank.key then some bi' else p.banks.find? key)
      (hmetrics : p'.runMetrics = countSpecial
        (countStored p.runMetrics bank.key bank.eventCount) bank.key bank.eventCount)
  | looked (bi : BankInfo)
      (hprior : (p.banks.find? bank.key).or ((madeSets p.banks bank.key).map .make) = some bi)
      (hevent : bi.initializeBank.hasEvent = false)
      (hfind : ∀ key, p'.banks.find? key =
        if key = bank.key then some bi.initializeBank else p.banks.find? key)
      (hmetrics : p'.runMetrics = countSpecial p.runMetrics bank.key bank.eventCount)

theorem initialized_initializeBank (bi : BankInfo) : bi.initializeBank.initialized = true := by
  rw [BankInfo.initializeBank]
  split
  · assumption
  · rfl

theorem madeSets_congr {banks banks' : BankTable BankInfo}
    (h : ∀ key, banks'.find? key = banks.find? key) (key : BankKey) :
    madeSets banks' key = madeSets banks key := by
  cases key with
  | unmapped => rfl
  | error => rfl
  | bank bankId state => rw [madeSets, madeSets, h]

/-- A safe section is processed without an access out of bounds. -/
theorem processBankEvents_cases (ready : Bool) {p : StreamParser} {bank : BankSection}
    (h : Allocated p.banks) (hsafe : SectionSafe p bank) :
    ∃ p', p.processBankEvents ready bank = some p' ∧ Allocated p'.banks ∧
      Processed ready p bank p' ∧ p'.pulses = p.pulses ∧
      p'.eventBufWriteThresh = p.eventBufWriteThresh ∧
      p'.ancBufWriteThresh = p.ancBufWriteThresh := by
  obtain ⟨hcall, hstate, hevents⟩ := hsafe
  obtain ⟨events, hevents⟩ := Option.isSome_iff_exists.mp hevents
  obtain ⟨grown, hgrown, halloc, -, -, hkept⟩ := reallocateBanksArray_spec (.inr h) hcall
  obtain ⟨banks, found, hfound, halloc', hfind, hcovers, hprior⟩ :=
    findBankInfo_spec halloc (covers_key hstate hgrown)
  rw [hkept, madeSets_congr hkept] at hprior
  simp only [hkept] at hfind
  simp only [processBankEvents, hgrown, hfound, Option.bind_eq_bind, Option.bind_some]
  cases found with
  | none =>
    -- an unknown bank: the table stays as it is
    obtain ⟨hnone, hsets⟩ := Option.or_eq_none_iff.mp hprior.symm
    refine ⟨_, rfl, halloc', .unknown hnone (Option.map_eq_none_iff.mp hsets) ?_ rfl,
      rfl, rfl, rfl⟩
    intro key
    rw [hfind]
    split
    · rename_i heq
      rw [heq, hnone]
    · rfl
  | some bi =>
    have hwrite : ∀ bi', ∃ banks', banks.write (banks.index bank.key) bi' = some banks' ∧
        Allocated banks' ∧ ∀ key, banks'.find? key =
          if key = bank.key then some bi' else p.banks.find? key := by
      intro bi'
      obtain ⟨banks', hbanks', halloc'', -, -, hfind'⟩ := write_spec bi' halloc' hcovers
      refine ⟨banks', hbanks', halloc'', fun key => ?_⟩
      rw [hfind', hfind]
      split <;> rfl
    simp only [Option.map_some]
    cases hevent : bi.initializeBank.hasEvent with
    | true =>
      obtain ⟨bi', hbi', -, -⟩ := processEventData_spec ready p
        (initialized_initializeBank bi) (length_events hevents)
      obtain ⟨banks', hbanks', halloc'', hfind'⟩ := hwrite bi'
      simp only [if_true, hevents, hbi', hbanks', Option.bind_some]
      exact ⟨_, rfl, halloc'', .stored bi bi' events hprior.symm hevent hevents hbi' hfind' rfl,
        rfl, rfl, rfl⟩
    | false =>
      obtain ⟨banks', hbanks', halloc'', hfind'⟩ := hwrite bi.initializeBank
      simp only [Bool.false_eq_true, if_false, hbanks', Option.bind_some]
      exact ⟨_, rfl, halloc'', .looked bi hprior.symm hevent hfind' rfl, rfl, rfl, rfl⟩

/-- A section is processed without an access out of bounds, and its events are filed under
    the current pulse. -/
theorem processBankEvents_spec (ready : Bool) {p : StreamParser} {bank : BankSection}
    {as : List Arrival} (h : Filed p.banks as) (hsafe : SectionSafe p bank) :
    ∃ p', p.processBankEvents ready bank = some p' ∧ p'.pulses = p.pulses ∧
      Filed p'.banks (as ++ [⟨p.pulses.pulseCount, bank.key, bank.eventCount⟩]) ∧
      ∀ key, (p.banks.find? key).isSome → (p'.banks.find? key).isSome := by
  obtain ⟨p', hp', halloc, hprocessed, hpulses, -, -⟩ :=
    processBankEvents_cases ready h.alloc hsafe
  refine ⟨p', hp', hpulses, ?_⟩
  -- the entry before this section, or a new one
  have hprior : ∀ bi, (p.banks.find? bank.key).or ((madeSets p.banks bank.key).map .make) =
      some bi → (bi.hasEvent = (bi.initialized && BankInfo.wantsEvents bi.bankSets)) ∧
        (BankInfo.wantsEvents bi.bankSets = true →
          index bi = .ofArrivals (arrivalsOf bank.key as)) ∧
        ((p.banks.find? bank.key).isSome ∨ Makeable p.banks bank.key) := by
    intro bi hbi
    rcases Option.or_eq_some_iff.mp hbi with hbi | ⟨hnone, hmade⟩
    · exact ⟨h.hasEvent_eq _ _ hbi, h.index_eq _ _ hbi, .inl (by rw [hbi]; rfl)⟩
    · obtain ⟨sets, hsets, rfl⟩ := Option.map_eq_some_iff.mp hmade
      have hmakeable : Makeable p.banks bank.key := makeable_iff.mpr (by rw [hsets]; rfl)
      refine ⟨rfl, fun _ => ?_, .inr hmakeable⟩
      rw [h.missing _ hnone hmakeable]
      rfl
  -- what is stored for the bank in the end
  have hstore : ∀ bi bi' : BankInfo,
      (p.banks.find? bank.key).or ((madeSets p.banks bank.key).map .make) = some bi →
      (∀ key, p'.banks.find? key = if key = bank.key then some bi' else p.banks.find? key) →
      setup bi' = setup bi.initializeBank →
      (BankInfo.wantsEvents bi.bankSets = true → index bi' =
        .ofArrivals (arrivalsOf bank.key (as ++
          [⟨p.pulses.pulseCount, bank.key, bank.eventCount⟩]))) →
      Filed p'.banks (as ++ [⟨p.pulses.pulseCount, bank.key, bank.eventCount⟩]) ∧
        ∀ key, (p.banks.find? key).isSome → (p'.banks.find? key).isSome := by
    intro bi bi' hbi hfind hsetup hindex
    obtain ⟨hevent, -, hknown⟩ := hprior bi hbi
    obtain ⟨hinit, hsets, hhas⟩ := initializeBank_spec hevent
    simp only [setup, Prod.mk.injEq] at hsetup
    obtain ⟨hsets', hinit', hhas'⟩ := hsetup
    constructor
    · apply h.store halloc hfind hknown
      · intro hwants
        exact hindex (hsets ▸ hsets' ▸ hwants)
      · rw [hhas', hinit', hsets', hhas, hinit, hsets, Bool.true_and]
    · intro key hkey
      rw [hfind]
      split
      · rfl
      · exact hkey
  cases hprocessed with
  | unknown hnone hsets hfind _ =>
    have hnot : ¬ Makeable p.banks bank.key := by
      rw [makeable_iff, hsets]
      exact Bool.false_ne_true
    exact ⟨(h.skip hnone hnot).congr halloc hfind, fun key hkey => by rwa [hfind]⟩
  | stored bi bi' events hbi hevent hevents hdata hfind _ =>
    obtain ⟨-, hindex, -⟩ := hprior bi hbi
    obtain ⟨bi'', hbi'', hrecorded, hsetup⟩ := processEventData_spec ready p
      (initialized_initializeBank bi) (length_events hevents)
    cases hdata.symm.trans hbi''
    apply hstore bi bi' hbi hfind hsetup
    intro hwants
    rw [hrecorded, index_initializeBank, hindex hwants, arrivalsOf_concat_self,
      TickIndex.ofArrivals_concat]
  | looked bi hbi hevent hfind _ =>
    apply hstore bi bi.initializeBank hbi hfind rfl
    intro hwants
    obtain ⟨hevent', -, -⟩ := hprior bi hbi
    obtain ⟨-, -, hhas⟩ := initializeBank_spec hevent'
    rw [hevent, hwants] at hhas
    cases hhas

/-! ### Packets and runs -/

/-- Receive a packet, given whether the working directory is ready. -/
def step (p : StreamParser) (op : Bool × StreamPacket) : Option StreamParser :=
  p.rxPacket op.1 op.2

/-- The payload of the packet is well formed, and all its sections are safe in turn. -/
def PacketSafe (p : StreamParser) (op : Bool × StreamPacket) : Prop :=
  match sectionsOf op.2 with
  | some banks =>
    Runs.along (processBankEvents op.1) SectionSafe
      { p with pulses := counted p.pulses op.2 } banks
  | none => False

instance (p : StreamParser) (op : Bool × StreamPacket) : Decidable (PacketSafe p op) :=
  match h : sectionsOf op.2 with
  | some banks =>
    decidable_of_iff (Runs.along (processBankEvents op.1) SectionSafe
      { p with pulses := counted p.pulses op.2 } banks) (by rw [PacketSafe, h])
  | none => .isFalse (by rw [PacketSafe, h]; exact id)

/-- The sections of a packet are filed under its pulse. -/
theorem sections_spec {ready : Bool} {p : StreamParser} {bs : List BankSection}
    {as : List Arrival} (h : Filed p.banks as)
    (hsafe : Runs.along (processBankEvents ready) SectionSafe p bs) :
    ∃ p', Runs.run (processBankEvents ready) p bs = some p' ∧ p'.pulses = p.pulses ∧
      Filed p'.banks
        (as ++ bs.map fun bank => ⟨p.pulses.pulseCount, bank.key, bank.eventCount⟩) ∧
      ∀ key, (p.banks.find? key).isSome → (p'.banks.find? key).isSome := by
  induction bs generalizing p as with
  | nil => exact ⟨p, rfl, rfl, by simpa using h, fun _ hkey => hkey⟩
  | cons bank bs ih =>
    obtain ⟨p₁, hp₁, hpulses, hfiled, hstays⟩ := processBankEvents_spec ready h hsafe.1
    obtain ⟨p', hrun, hpulses', hfiled', hstays'⟩ := ih hfiled (hsafe.2 p₁ hp₁)
    refine ⟨p', by rw [Runs.run, hp₁]; exact hrun, hpulses'.trans hpulses, ?_,
      fun key hkey => hstays' key (hstays key hkey)⟩
    rw [hpulses, List.append_assoc] at hfiled'
    exact hfiled'

theorem packet_spec {p : StreamParser} {op : Bool × StreamPacket} {as : List Arrival}
    (h : Filed p.banks as) (hsafe : PacketSafe p op) :
    ∃ p', step p op = some p' ∧ p'.pulses = counted p.pulses op.2 ∧
      Filed p'.banks (as ++ packetArrivals p.pulses op.2) ∧
      ∀ key, (p.banks.find? key).isSome → (p'.banks.find? key).isSome := by
  rw [PacketSafe] at hsafe
  rw [step, rxPacket_eq, packetArrivals]
  cases hbanks : sectionsOf op.2 with
  | none =>
    rw [hbanks] at hsafe
    exact hsafe.elim
  | some bs =>
    rw [hbanks] at hsafe
    exact sections_spec (p := { p with pulses := counted p.pulses op.2 }) h hsafe

/-- A run of safe packets comes to its end, with what arrived filed. -/
theorem run_spec {p : StreamParser} {ops : List (Bool × StreamPacket)} {as : List Arrival}
    (h : Filed p.banks as) (hsafe : Runs.along step PacketSafe p ops) :
    ∃ p', Runs.run step p ops = some p' ∧
      Filed p'.banks (as ++ arrivals p.pulses (ops.map Prod.snd)) ∧
      ∀ key, (p.banks.find? key).isSome → (p'.banks.find? key).isSome := by
  induction ops generalizing p as with
  | nil => exact ⟨p, rfl, by simpa [arrivals] using h, fun _ hkey => hkey⟩
  | cons op ops ih =>
    obtain ⟨p₁, hp₁, hpulses, hfiled, hstays⟩ := packet_spec h hsafe.1
    obtain ⟨p', hrun, hfiled', hstays'⟩ := ih hfiled (hsafe.2 p₁ hp₁)
    refine ⟨p', by rw [Runs.run, hp₁]; exact hrun, ?_,
      fun key hkey => hstays' key (hstays key hkey)⟩
    rw [hpulses, List.append_assoc] at hfiled'
    exact hfiled'

/-! ### The start of a run -/

/-- A table whose `BankInfo`s are all as they were made. -/
structure Fresh (banks : BankTable BankInfo) : Prop where
  alloc : Allocated banks
  made : ∀ key bi, banks.find? key = some bi → ∃ sets, bi = .make sets

theorem Fresh.filed {banks : BankTable BankInfo} (h : Fresh banks) : Filed banks [] where
  alloc := h.alloc
  index_eq := fun key bi hbi _ => by
    obtain ⟨sets, rfl⟩ := h.made key bi hbi
    rfl
  hasEvent_eq := fun key bi hbi => by
    obtain ⟨sets, rfl⟩ := h.made key bi hbi
    rfl
  missing := fun _ _ _ => rfl

/-- A `BankInfo` is made where there is none. -/
theorem createBank_spec {banks banks' : BankTable BankInfo} {sets : List (Option UInt32)}
    {key : BankKey} (h : Allocated banks) (hkey : banks.Covers key)
    (hcreate : createBank sets banks key = some banks') :
    Allocated banks' ∧ banks'.maxBank = banks.maxBank ∧ banks'.numStates = banks.numStates ∧
      ∀ key', banks'.find? key' =
        (banks.find? key').or (if key' = key then some (.make sets) else none) := by
  rw [createBank, read_eq h hkey] at hcreate
  simp only [Option.bind_eq_bind, Option.bind_some] at hcreate
  cases hfind : banks.find? key with
  | some bi =>
    rw [hfind] at hcreate
    cases hcreate
    refine ⟨h, rfl, rfl, fun key' => ?_⟩
    split
    · rename_i heq
      rw [heq, hfind]
      rfl
    · rw [Option.or_none]
  | none =>
    rw [hfind] at hcreate
    obtain ⟨t, hwrite, halloc, hmax, hnum, hfound⟩ := write_spec (.make sets) h hkey
    cases hcreate.symm.trans hwrite
    refine ⟨halloc, hmax, hnum, fun key' => ?_⟩
    rw [hfound]
    split
    · rename_i heq
      rw [heq, hfind]
      rfl
    · rw [Option.or_none]

/-- The bank sets known from a pixel mapping with the given banks. -/
def mappedSets (bankSets : UInt16 → List (Option UInt32)) (bankIds : List UInt16) :
    BankKey → Option (List (Option UInt32))
  | .bank bankId _ => (bankIds.find? fun id => id.toNat = bankId).map bankSets
  | _ => some []

/-- The `BankInfo`s made for the banks of a pixel mapping. -/
def mappedBanks (bankSets : UInt16 → List (Option UInt32)) (bankIds : List UInt16)
    (key : BankKey) : Option BankInfo :=
  match key with
  | .bank _ state =>
    if state = 0 then (mappedSets bankSets bankIds key).map .make else none
  | _ => none

theorem createBanks_spec {bankSets : UInt16 → List (Option UInt32)} {bankIds : List UInt16}
    {banks banks' : BankTable BankInfo} (h : Allocated banks)
    (hkeys : ∀ bankId ∈ bankIds, bankId.toNat ≤ banks.maxBank)
    (hcreate : createBanks bankSets bankIds banks = some banks') :
    Allocated banks' ∧
      ∀ key, banks'.find? key = (banks.find? key).or (mappedBanks bankSets bankIds key) := by
  induction bankIds generalizing banks with
  | nil =>
    cases hcreate
    refine ⟨h, fun key => ?_⟩
    have hnone : mappedBanks bankSets [] key = none := by
      cases key with
      | bank bankId state => exact ite_self none
      | _ => rfl
    rw [hnone, Option.or_none]
  | cons bankId bankIds ih =>
    obtain ⟨t, hone, hrest⟩ := Option.bind_eq_some_iff.mp hcreate
    have hcovers : banks.Covers (.bank bankId.toNat 0) :=
      ⟨hkeys bankId (by simp), h.numStates_pos⟩
    obtain ⟨halloc, hmax, -, hfind⟩ := createBank_spec h hcovers hone
    obtain ⟨halloc', hfind'⟩ := ih halloc (fun b hb => hmax ▸ hkeys b (by simp [hb])) hrest
    refine ⟨halloc', fun key => ?_⟩
    rw [hfind', hfind, Option.or_assoc]
    congr 1
    cases key with
    | unmapped => rfl
    | error => rfl
    | bank b state =>
      simp only [mappedBanks, mappedSets, List.find?_cons, BankKey.bank.injEq]
      by_cases hbank : bankId.toNat = b
      · by_cases hstate : state = 0
        · simp [hbank, hstate]
        · simp [hstate]
      · simp [hbank, Ne.symm hbank]

theorem maxBankId_spec (bankIds : List UInt16) :
    (∀ bankId ∈ bankIds, bankId.toNat ≤ maxBankId bankIds) ∧ maxBankId bankIds < 2 ^ 16 := by
  induction bankIds using List.reverseRecOn with
  | nil => exact ⟨fun b hb => absurd hb List.not_mem_nil, by decide⟩
  | append_singleton bankIds bankId ih =>
    have hmax : maxBankId (bankIds ++ [bankId]) = max (maxBankId bankIds) bankId.toNat := by
      rw [maxBankId, List.foldl_append]
      rfl
    have hlt := bankId.toNat_lt
    rw [hmax]
    refine ⟨fun b hb => ?_, by omega⟩
    rcases List.mem_append.mp hb with hb | hb
    · have := ih.1 b hb
      omega
    · rw [List.mem_singleton.mp hb]
      exact Nat.le_max_right _ _

/-- After the pixel mapping there are the `BankInfo`s of its banks, and those of the special
    banks. -/
theorem pixelMappingBanks_spec {bankSets : UInt16 → List (Option UInt32)}
    {bankIds : List UInt16} {banks : BankTable BankInfo}
    (h : pixelMappingBanks bankSets bankIds = some banks) :
    Allocated banks ∧ ∀ key, banks.find? key =
      (mappedBanks bankSets bankIds key).or
        ((if key = .unmapped then some (.make []) else none).or
          (if key = .error then some (.make []) else none)) := by
  obtain ⟨t₁, hgrow, h⟩ := Option.bind_eq_some_iff.mp h
  obtain ⟨t₂, hbanks, h⟩ := Option.bind_eq_some_iff.mp h
  obtain ⟨t₃, hunmapped, herror⟩ := Option.bind_eq_some_iff.mp h
  obtain ⟨hmem, hlt⟩ := maxBankId_spec bankIds
  by_cases hpos : 0 < maxBankId bankIds
  · obtain ⟨t, ht, halloc, hmax, hnone⟩ := allocate_new (β := BankInfo) hpos hlt
    cases hgrow.symm.trans ht
    obtain ⟨halloc₂, hfind₂⟩ := createBanks_spec halloc (fun b hb => hmax ▸ hmem b hb) hbanks
    have hcovers₂ : t₂.Covers .unmapped := trivial
    obtain ⟨halloc₃, -, -, hfind₃⟩ := createBank_spec halloc₂ hcovers₂ hunmapped
    have hcovers₃ : t₃.Covers .error := trivial
    obtain ⟨halloc₄, -, -, hfind₄⟩ := createBank_spec halloc₃ hcovers₃ herror
    refine ⟨halloc₄, fun key => ?_⟩
    rw [hfind₄, hfind₃, hfind₂, hnone, Option.none_or, Option.or_assoc]
  · -- nothing is allocated, and the first `BankInfo` has no place
    have hzero : maxBankId bankIds = 0 := by omega
    rw [hzero] at hgrow
    cases hgrow
    cases bankIds with
    | nil =>
      cases hbanks
      cases hunmapped
    | cons bankId bankIds => cases hbanks

/-- A pixel mapping that can be processed leaves a table with new `BankInfo`s. -/
theorem pixelMappingBanks_fresh {bankSets : UInt16 → List (Option UInt32)}
    {bankIds : List UInt16} {banks : BankTable BankInfo}
    (h : pixelMappingBanks bankSets bankIds = some banks) : Fresh banks := by
  obtain ⟨halloc, hfind⟩ := pixelMappingBanks_spec h
  refine ⟨halloc, fun key bi hbi => ?_⟩
  rw [hfind] at hbi
  cases key with
  | unmapped => exact ⟨[], (Option.some.inj hbi).symm⟩
  | error => exact ⟨[], (Option.some.inj hbi).symm⟩
  | bank bankId state =>
    simp only [mappedBanks, reduceCtorEq, if_false, Option.or_none] at hbi
    split at hbi
    · obtain ⟨sets, -, rfl⟩ := Option.map_eq_some_iff.mp hbi
      exact ⟨sets, rfl⟩
    · cases hbi

/-! ### The claim -/

/-- In a run whose packets are safe, from the pixel mapping on, every known bank that has
    come has a `BankInfo`, and this counts its events and has its last pulse.  The entries
    written and buffered of a bank that stores events are one for every pulse up to the last
    with data, each the number of events in the pulses before, just when no packet has the
    bank twice. -/
theorem index_iff {eventThresh ancThresh : Nat} {bankSets : UInt16 → List (Option UInt32)}
    {bankIds : List UInt16} {banks : BankTable BankInfo} {ops : List (Bool × StreamPacket)}
    (hmap : pixelMappingBanks bankSets bankIds = some banks)
    (hsafe : Runs.along step PacketSafe (start eventThresh ancThresh banks) ops) :
    ∃ p, Runs.run step (start eventThresh ancThresh banks) ops = some p ∧
      ∀ key came, came = arrivalsOf key (arrivals ⟨0, 0⟩ (ops.map Prod.snd)) →
        (Makeable banks key → came ≠ [] → (p.banks.find? key).isSome) ∧
        ∀ bi, p.banks.find? key = some bi → bi.hasEvent = true →
          bi.lastPulseWithData = ((came.getLast?).map Prod.fst).getD 0 ∧
          bi.eventCount = (came.map Prod.snd).sum ∧
          (bi.indexWritten ++ bi.indexBuffer =
              TickIndex.entriesFor came bi.lastPulseWithData ↔
            ∀ op ∈ ops, occurrences key op.2 ≤ 1) := by
  obtain ⟨p, hrun, hfiled, hstays⟩ := run_spec (pixelMappingBanks_fresh hmap).filed hsafe
  refine ⟨p, hrun, fun key came hcame => ⟨?_, ?_⟩⟩
  · intro hmakeable hne
    -- a bank known at the start is still known
    have hmakeable' : Makeable p.banks key := by
      cases key with
      | unmapped => trivial
      | error => trivial
      | bank bankId state => exact hstays _ hmakeable
    cases hfind : p.banks.find? key with
    | some bi => rfl
    | none => exact absurd (hcame.trans (hfiled.missing key hfind hmakeable')) hne
  · intro bi hbi hhas
    have hwants : BankInfo.wantsEvents bi.bankSets = true := by
      have hevent := hfiled.hasEvent_eq key bi hbi
      rw [hhas] at hevent
      exact (Bool.and_eq_true_iff.mp hevent.symm).2
    have hindex := hfiled.index_eq key bi hbi hwants
    rw [List.nil_append] at hindex
    change index bi = .ofArrivals (arrivalsOf key (arrivals ⟨0, 0⟩ (ops.map Prod.snd))) at hindex
    rw [← hcame] at hindex
    have hlast : bi.lastPulseWithData = (TickIndex.ofArrivals came).last :=
      congrArg TickIndex.last hindex
    have hcounted : Counted ⟨0, 0⟩ := by
      rw [Counted]
      simp
    refine ⟨hlast.trans TickIndex.last_ofArrivals,
      (congrArg TickIndex.total hindex).trans TickIndex.total_ofArrivals, ?_⟩
    have hentries : bi.indexWritten ++ bi.indexBuffer = (TickIndex.ofArrivals came).entries :=
      congrArg TickIndex.entries hindex
    rw [hentries, hlast, hcame, TickIndex.ofArrivals_entries_iff (arrivalsOf_pos hcounted)
      (arrivalsOf_pairwise hcounted), arrivalsOf_pairwise_iff hcounted, List.forall_mem_map]

/-- A bank with events in the first pulse and, in another state, in the third. -/
def twoPulses : List (Bool × StreamPacket) :=
  [(true, .bankedEvent [0, 0, 0, 0, 5, 0, 0, 1, 1, 1, 70, 3]),
    (true, .beamMonitor [0, 0, 0, 0]),
    (true, .bankedEvent [0, 0, 0, 0]),
    (true, .bankedEventState [0, 0, 0, 0, 5, 0, 0, 2, 1, 0, 1, 80, 3, 1, 1, 1, 90, 3])]

theorem index_iff_twoPulses :
    ∃ banks p, Runs.run step (start 10 2 banks) twoPulses = some p ∧
      ∀ key came, came = arrivalsOf key (arrivals ⟨0, 0⟩ (twoPulses.map Prod.snd)) →
        (Makeable banks key → came ≠ [] → (p.banks.find? key).isSome) ∧
        ∀ bi, p.banks.find? key = some bi → bi.hasEvent = true →
          bi.lastPulseWithData = ((came.getLast?).map Prod.fst).getD 0 ∧
          bi.eventCount = (came.map Prod.snd).sum ∧
          (bi.indexWritten ++ bi.indexBuffer =
              TickIndex.entriesFor came bi.lastPulseWithData ↔
            ∀ op ∈ twoPulses, occurrences key op.2 ≤ 1) := by
  have hmap : pixelMappingBanks (fun _ => []) [1] =
      some ⟨some [some (.make []), some (.make []), none, some (.make [])], 1, 1⟩ := by decide
  exact ⟨_, index_iff hmap (by decide)⟩

/-- A packet with events of the error bank from two sources. -/
def errorTwice : StreamPacket :=
  .bankedEvent [0, 0, 0, 0, 5, 0, 0, 1, 0xfffffffe, 1, 70, 3, 6, 0, 0, 1, 0xfffffffe, 1, 80, 4]

/-- The index of the error bank gets two entries for the one pulse. -/
theorem not_aligned_of_repeated :
    ∃ banks p bi, pixelMappingBanks (fun _ => []) [1] = some banks ∧
      Runs.run step (start 10 10 banks) [(true, errorTwice)] = some p ∧
      p.banks.find? .error = some bi ∧ bi.hasEvent = true ∧ bi.lastPulseWithData = 1 ∧
      bi.indexWritten ++ bi.indexBuffer = [0, 1] ∧
      TickIndex.entriesFor (arrivalsOf .error (arrivals ⟨0, 0⟩ [errorTwice]))
        bi.lastPulseWithData = [0] := by
  refine ⟨_, _, _, rfl, rfl, rfl, ?_⟩
  decide

end Adara.Spec.EventIndex
