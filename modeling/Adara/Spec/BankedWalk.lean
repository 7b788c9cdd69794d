import Adara.ForStd.ListClasses
import Adara.Native.RecordPulse
import Adara.Spec.BankedState

/-! # The translator's walk over the events of a pulse

A pulse is recorded as one of two packets, with states or without.  The translator's loops read
the same sections from both: for every source, every bank and every state, in this order, one with
the events filed there (`exists_sections`).  So what it finds for a bank are the events filed in
the banks of that id, and each is found once (`selected_perm`). -/

namespace Adara.Spec.BankedWalk

open Adara.Native
open Adara.Spec.EventFiling Adara.Spec.StateFiling Adara.Spec.StreamPackets
open Adara.Spec.BankedEvent (wireBank wireBank_eq)
open Adara.Spec.BankedState (ofFields_fields)

/-! ### Sections -/

/-- What the translator uses of a section: bank id, state, number of events and events. -/
abbrev Reading := Nat × Nat × Nat × Option (List Event)

def readingOf (bank : BankSection) : Reading :=
  (bank.bankId, bank.state, bank.eventCount, bank.events)

/-- The section of the events at an index. -/
def reading (maxBank n : Nat) (evs : List Event) : Reading :=
  ((wireBank (n % (maxBank + 1))).toNat, n / (maxBank + 1), evs.length, some evs)

/-- The sections of an array, from an index on. -/
def readingsFrom (maxBank n : Nat) (arr : List (List Event)) : List Reading :=
  (arr.zipIdx n).filterMap fun e => if e.1 = [] then none else some (reading maxBank e.2 e.1)

/-- The words of the events at an index, in either kind of packet. -/
def wordsOf (withState : Bool) (maxBank : Nat) (evs : List Event) (n : Nat) : List UInt32 :=
  if withState then SMSControl.bankStateWords maxBank evs n else SMSControl.bankWords maxBank evs n

/-- The words of an array. -/
def arrayWords (withState : Bool) (maxBank n : Nat) (arr : List (List Event)) : List UInt32 :=
  (arr.zipIdx n).flatMap fun e => wordsOf withState maxBank e.1 e.2

/-- The words of all sources. -/
def sourcesWords (withState : Bool) (maxBank : Nat) (es : List (UInt32 × EventSource)) :
    List UInt32 :=
  es.flatMap fun e =>
    [e.1, e.2.intraPulseTime, e.2.tofField, e.2.activeBanks] ++
      arrayWords withState maxBank 0 e.2.banksArr

section Array

variable {withState : Bool} {maxBank n : Nat} {evs : List Event} {arr : List (List Event)}

theorem wordsOf_nil : wordsOf withState maxBank [] n = [] := by
  cases withState <;> rfl

/-- A section is read, and the words behind it are left.  Without states there is no number for
    the state, so the bank has to be one of state 0. -/
theorem readBankHeader_spec (rest : List UInt32) (hevs : evs ≠ [])
    (hcount : 2 * evs.length < Word32.modulus) (hstate : n / (maxBank + 1) < Word32.modulus)
    (hplain : withState = false → n ≤ maxBank) :
    ∃ bank, readBankHeader withState (wordsOf withState maxBank evs n ++ rest) = some bank ∧
      readingOf bank = reading maxBank n evs ∧ bank.rpos.drop bank.eventWords = rest := by
  have hlen := BankedFormat.length_eventFields evs
  have hwords : (UInt32.ofNat evs.length).toNat = evs.length :=
    UInt32.toNat_ofNat_of_lt' (by
      have hmod : Word32.modulus = UInt32.size := rfl
      omega)
  have hstate' : (UInt32.ofNat (n / (maxBank + 1))).toNat = n / (maxBank + 1) :=
    UInt32.toNat_ofNat_of_lt' hstate
  refine ⟨⟨(wireBank (n % (maxBank + 1))).toNat, n / (maxBank + 1), evs.length,
    evs.flatMap Event.fields ++ rest⟩, ?_, ?_, ?_⟩
  · rw [← wireBank_eq]
    cases withState with
    | true =>
      rw [wordsOf, if_pos rfl, SMSControl.bankStateWords, if_neg hevs]
      simp only [List.cons_append, List.nil_append, readBankHeader, hwords, hstate']
    | false =>
      have hzero : n / (maxBank + 1) = 0 := Nat.div_eq_of_lt (Nat.lt_succ_of_le (hplain rfl))
      rw [wordsOf, if_neg Bool.false_ne_true, SMSControl.bankWords, if_neg hevs, hzero]
      simp only [List.cons_append, List.nil_append, readBankHeader, hwords]
  · rw [readingOf, reading, BankSection.events, BankSection.eventWords,
      Word32.mul_of_lt hcount, if_pos (by rw [List.length_append, hlen]; omega)]
    simp only [List.take_left' hlen, ofFields_fields]
  · rw [BankSection.eventWords, Word32.mul_of_lt hcount]
    exact List.drop_left' hlen

/-- The loop over the banks of a source. -/
theorem banksOfSource_spec (rest : List UInt32)
    (hcounts : ∀ evs ∈ arr, 2 * evs.length < Word32.modulus)
    (hstates : n + arr.length ≤ Word32.modulus)
    (hplain : withState = false → ∀ i, slot arr i ≠ [] → n + i ≤ maxBank) :
    ∃ banks, banksOfSource withState (filled arr) (arrayWords withState maxBank n arr ++ rest) =
        some (banks, rest) ∧ banks.map readingOf = readingsFrom maxBank n arr := by
  induction arr generalizing n with
  | nil => exact ⟨[], rfl, rfl⟩
  | cons evs arr ih =>
    obtain ⟨hcount, hrest⟩ := List.forall_mem_cons.mp hcounts
    rw [List.length_cons] at hstates
    have hplain' : withState = false → ∀ i, slot arr i ≠ [] → n + 1 + i ≤ maxBank := by
      intro hwith i hi
      have hle := hplain hwith (i + 1) hi
      omega
    obtain ⟨banks, hbanks, hreadings⟩ := ih hrest (by omega) hplain'
    have hfilled : filled (evs :: arr) = (if evs = [] then 0 else 1) + filled arr := by
      simp [filled, tally]
    have harr : arrayWords withState maxBank n (evs :: arr) =
        wordsOf withState maxBank evs n ++ arrayWords withState maxBank (n + 1) arr := by
      rw [arrayWords, List.zipIdx_cons, List.flatMap_cons, arrayWords]
    rw [hfilled, harr, readingsFrom, List.zipIdx_cons, List.filterMap_cons]
    by_cases hempty : evs = []
    · -- a bank without events has no section
      subst hempty
      refine ⟨banks, ?_, hreadings⟩
      rw [if_pos rfl, Nat.zero_add, wordsOf_nil]
      exact hbanks
    · have hdiv : n / (maxBank + 1) ≤ n := Nat.div_le_self _ _
      have hfirst : withState = false → n ≤ maxBank := fun hwith => hplain hwith 0 hempty
      obtain ⟨bank, hread, hreading, hdrop⟩ := readBankHeader_spec
        (arrayWords withState maxBank (n + 1) arr ++ rest) hempty hcount (by omega) hfirst
      refine ⟨bank :: banks, ?_, ?_⟩
      · rw [if_neg hempty, Nat.add_comm, banksOfSource, List.append_assoc, hread]
        simp only [Option.bind_eq_bind, Option.bind_some, hdrop, hbanks]
      · simp only [if_neg hempty, List.map_cons, hreading, hreadings]
        rfl

/-- Every source takes up words. -/
theorem length_le_sourcesWords (withState : Bool) (maxBank : Nat)
    (es : List (UInt32 × EventSource)) :
    es.length ≤ (sourcesWords withState maxBank es).length := by
  induction es with
  | nil => exact Nat.zero_le _
  | cons e es ih =>
    have hlen : (sourcesWords withState maxBank (e :: es)).length =
        4 + (arrayWords withState maxBank 0 e.2.banksArr).length +
          (sourcesWords withState maxBank es).length := by
      simp only [sourcesWords, List.flatMap_cons, List.length_append, List.length_cons,
        List.length_nil]
    rw [List.length_cons, hlen]
    omega

/-- The sections of an array, index by index. -/
theorem readingsFrom_eq (maxBank n : Nat) (arr : List (List Event)) :
    readingsFrom maxBank n arr = (List.range arr.length).flatMap fun i =>
      if slot arr i = [] then [] else [reading maxBank (n + i) (slot arr i)] := by
  induction arr generalizing n with
  | nil => rfl
  | cons evs arr ih =>
    have hrest : ∀ i, n + 1 + i = n + (i + 1) := fun i => by omega
    have hcons : readingsFrom maxBank n (evs :: arr) =
        (if evs = [] then [] else [reading maxBank n evs]) ++ readingsFrom maxBank (n + 1) arr := by
      rw [readingsFrom, List.zipIdx_cons, List.filterMap_cons]
      by_cases hempty : evs = []
      · simp only [hempty, if_true, List.nil_append]
        rfl
      · simp only [hempty, if_false, List.singleton_append]
        rfl
    rw [hcons, ih, List.length_cons, List.range_succ_eq_map, List.flatMap_cons, List.flatMap_map]
    simp only [hrest]
    rfl

/-- The loop over the sources. -/
theorem banksOfSources_spec {es : List (UInt32 × EventSource)}
    (hactive : ∀ e ∈ es, e.2.activeBanks = UInt32.ofNat (filled e.2.banksArr))
    (hfilled : ∀ e ∈ es, filled e.2.banksArr < Word32.modulus)
    (hcounts : ∀ e ∈ es, ∀ evs ∈ e.2.banksArr, 2 * evs.length < Word32.modulus)
    (hstates : ∀ e ∈ es, e.2.banksArr.length ≤ Word32.modulus)
    (hplain : withState = false → ∀ e ∈ es, ∀ i, slot e.2.banksArr i ≠ [] → i ≤ maxBank)
    {fuel : Nat} (hfuel : es.length ≤ fuel) :
    ∃ banks, banksOfSources withState fuel (sourcesWords withState maxBank es) = some banks ∧
      banks.map readingOf = es.flatMap fun e => readingsFrom maxBank 0 e.2.banksArr := by
  induction es generalizing fuel with
  | nil =>
    refine ⟨[], ?_, rfl⟩
    cases fuel <;> rfl
  | cons e es ih =>
    cases fuel with
    | zero => simp at hfuel
    | succ fuel =>
      have hlen : 0 + e.2.banksArr.length ≤ Word32.modulus := by
        rw [Nat.zero_add]
        exact hstates e List.mem_cons_self
      have hplain' : withState = false → ∀ i, slot e.2.banksArr i ≠ [] → 0 + i ≤ maxBank := by
        intro hwith i hi
        rw [Nat.zero_add]
        exact hplain hwith e List.mem_cons_self i hi
      obtain ⟨banks, hbanks, hreadings⟩ := banksOfSource_spec
        (sourcesWords withState maxBank es) (hcounts e List.mem_cons_self) hlen hplain'
      obtain ⟨banks', hbanks', hreadings'⟩ := ih
        (fun e he => hactive e (List.mem_cons_of_mem _ he))
        (fun e he => hfilled e (List.mem_cons_of_mem _ he))
        (fun e he => hcounts e (List.mem_cons_of_mem _ he))
        (fun e he => hstates e (List.mem_cons_of_mem _ he))
        (fun hwith e he => hplain hwith e (List.mem_cons_of_mem _ he))
        (Nat.le_of_succ_le_succ hfuel)
      have hcount : e.2.activeBanks.toNat = filled e.2.banksArr := by
        rw [hactive e List.mem_cons_self]
        exact UInt32.toNat_ofNat_of_lt' (hfilled e List.mem_cons_self)
      have hwords : sourcesWords withState maxBank (e :: es) =
          e.1 :: e.2.intraPulseTime :: e.2.tofField :: e.2.activeBanks ::
            (arrayWords withState maxBank 0 e.2.banksArr ++ sourcesWords withState maxBank es) := by
        rw [sourcesWords, List.flatMap_cons, List.append_assoc]
        rfl
      refine ⟨banks ++ banks', ?_, by rw [List.map_append, hreadings, hreadings']; rfl⟩
      rw [hwords]
      simp only [banksOfSources, hcount, hbanks, hbanks', Option.bind_eq_bind, Option.bind_some]

end Array

/-! ### The packet of a pulse -/

/-- The header of the packet. -/
def headerOf (withState : Bool) (pulseEnergy : UInt32 → UInt32) (p : Pulse) : List UInt32 :=
  if withState then SMSControl.bankedStateHeader pulseEnergy p
  else SMSControl.bankedHeader pulseEnergy p

/-- The bytes of the packet. -/
def packetBytes (p : Pulse) : Nat :=
  if hasStates p then BankedState.packetBytes p else BankedEvent.packetBytes p

section Pulse

variable {pm : PixelMap} {p : Pulse} {log : List FiledState}

/-- Without the flag for states, all events are in state 0. -/
theorem index_le_of_plain (h : Reached pm p log) (hstates : hasStates p = false)
    {e : UInt32 × EventSource} (he : e ∈ p.pulseSources.entries) {i : Nat}
    (hi : slot e.2.banksArr i ≠ []) : i ≤ maxBank pm := by
  have hholds := h.assembled.holds hstates
  rw [hholds.slots e he] at hi
  obtain ⟨ev, hev⟩ := List.exists_mem_of_ne_nil _ hi
  obtain ⟨f, hf, -⟩ := List.mem_map.mp hev
  obtain ⟨hmem, hplace⟩ := List.mem_filter.mp hf
  simp only [decide_eq_true_eq] at hplace
  rw [← hplace.2]
  exact hholds.banks f hmem

theorem state_of_plain (h : Reached pm p log) (hstates : hasStates p = false) {f : FiledState}
    (hf : f ∈ log) : f.state = 0 := by
  obtain ⟨src, hsrc, hlt⟩ := BankedState.index_lt_of_filed h.holds.1 hf
  have he := SortedMap.find?_eq_some.mp hsrc
  have hbank := h.holds.1.banks f hf
  obtain ⟨hmod, hdiv⟩ :=
    (slotIndex_iff (i := f.bank + f.state * (maxBank pm + 1)) (Nat.lt_succ_of_le hbank)).mp rfl
  have hslot := h.holds.1.slots _ he (f.bank + f.state * (maxBank pm + 1))
  rw [hmod, hdiv] at hslot
  have hmem : f.event ∈ inState log f.hwId f.bank f.state :=
    List.mem_map_of_mem (List.mem_filter.mpr ⟨hf, by simp⟩)
  -- the place of the event is not empty, so it is one of state 0
  have hle := index_le_of_plain h hstates he (i := f.bank + f.state * (maxBank pm + 1)) (by
    intro hempty
    rw [← hslot, hempty] at hmem
    cases hmem)
  rw [← hdiv]
  exact Nat.div_eq_of_lt (Nat.lt_succ_of_le hle)

/-- The words written. -/
theorem buildEvents_eq (maxBank : Nat) (pulseEnergy : UInt32 → UInt32) (hp : Counted p)
    (hfits : packetBytes p < Word32.modulus) :
    SMSControl.buildEvents maxBank pulseEnergy p = some (headerOf (hasStates p) pulseEnergy p ++
      sourcesWords (hasStates p) maxBank p.pulseSources.entries) := by
  rw [packetBytes] at hfits
  rw [SMSControl.buildEvents]
  change (if hasStates p = true then _ else _) = _
  cases hstates : hasStates p with
  | true =>
    rw [hstates, if_pos rfl] at hfits
    rw [if_pos rfl, SMSControl.buildBankedStatePacket, BankedState.reservedStateHdrs_eq hp hfits,
      BankedState.hdrs_eq, if_neg (by omega)]
    rfl
  | false =>
    rw [hstates, if_neg Bool.false_ne_true] at hfits
    rw [if_neg Bool.false_ne_true, SMSControl.buildBankedPacket,
      BankedEvent.reservedHdrs_eq hp hfits, BankedEvent.hdrs_eq, if_neg (by omega)]
    rfl

/-- The lengths of a packet that fits 32 bits do. -/
theorem lengths_of_fits (hfits : packetBytes p < Word32.modulus) :
    p.pulseSources.size + allFilled p + 2 * allEvents p < Word32.modulus := by
  rw [packetBytes] at hfits
  split at hfits
  · rw [BankedState.packetBytes] at hfits
    omega
  · rw [BankedEvent.packetBytes] at hfits
    omega

/-- The translator finds the sections of all sources in the payload. -/
theorem exists_sections (h : Reached pm p log) (hfits : packetBytes p < Word32.modulus)
    {fuel : Nat} (hfuel : p.pulseSources.entries.length ≤ fuel) :
    ∃ banks, banksOfSources (hasStates p) fuel
        (sourcesWords (hasStates p) (maxBank pm) p.pulseSources.entries) = some banks ∧
      banks.map readingOf =
        p.pulseSources.entries.flatMap fun e => readingsFrom (maxBank pm) 0 e.2.banksArr := by
  have hlengths := lengths_of_fits hfits
  have hsized := h.holds.1.sized
  refine banksOfSources_spec h.assembled.counted.activeBanks ?_ ?_ ?_ ?_ hfuel
  · intro e he
    have hle := BankedState.filled_le_allFilled he
    omega
  · intro e he evs hevs
    have htotal := BankedState.total_le_allEvents he
    have hle : evs.length ≤ total e.2.banksArr := BankedState.tally_le_of_mem List.length hevs
    omega
  · intro e he
    rw [(hsized e he).length_eq]
    exact Nat.le_of_lt (hsized e he).fits
  · exact fun hstates e he i hi => index_le_of_plain h hstates he hi

end Pulse

/-! ### The events of some banks -/

/-- The bank of an index of the SMS, as the translator knows it. -/
def keyOf (bank state : Nat) : BankKey :=
  match bank with
  | 0 => .error
  | 1 => .unmapped
  | bankId + 2 => .bank bankId state

def filedKey (f : FiledState) : BankKey := keyOf f.bank f.state

/-- The events in the sections of the banks selected. -/
def selectedFrom (select : BankKey → Bool) (secs : List BankSection) : List Event :=
  secs.flatMap fun bank => if select bank.key then bank.events.getD [] else []

/-- Where an event is filed: its source, and the index in the array of the source. -/
def place (maxBank : Nat) (f : FiledState) : UInt32 × Nat :=
  (f.hwId, f.bank + f.state * (maxBank + 1))

/-- The places of a pulse, in the order of the packet. -/
def places (p : Pulse) : List (UInt32 × Nat) :=
  p.pulseSources.entries.flatMap fun e => (List.range e.2.banksArr.length).map fun i => (e.1, i)

/-- The events filed, in the order of the packet: by source, by state and by bank, and then as
    they came. -/
def inOrder (maxBank : Nat) (p : Pulse) (log : List FiledState) : List FiledState :=
  List.classes (place maxBank) (places p) log

/-- The events filed at one place. -/
def eventsAt (maxBank : Nat) (log : List FiledState) (pl : UInt32 × Nat) : List FiledState :=
  log.filter fun f => place maxBank f = pl

/-- The section of a place, if it has events. -/
def sectionAt (maxBank : Nat) (log : List FiledState) (pl : UInt32 × Nat) : List Reading :=
  if eventsAt maxBank log pl = [] then []
  else [reading maxBank pl.2 ((eventsAt maxBank log pl).map FiledState.event)]

section Selected

variable {pm : PixelMap} {p : Pulse} {log : List FiledState}

theorem places_nodup (p : Pulse) : (places p).Nodup := by
  have hkeys : (p.pulseSources.entries.map Prod.fst).Nodup := p.pulseSources.keys_nodup
  rw [places]
  generalize p.pulseSources.entries = es at hkeys
  induction es with
  | nil => exact List.nodup_nil
  | cons e es ih =>
    obtain ⟨hfirst, hrest⟩ := List.nodup_cons.mp hkeys
    rw [List.flatMap_cons, List.nodup_append]
    refine ⟨?_, ih hrest, ?_⟩
    · exact List.nodup_range.map fun i j h => (Prod.mk.inj h).2
    · intro a ha b hb hab
      obtain ⟨i, -, rfl⟩ := List.mem_map.mp ha
      obtain ⟨e', he', hb⟩ := List.mem_flatMap.mp hb
      obtain ⟨j, -, rfl⟩ := List.mem_map.mp hb
      -- the same place is in the same source
      apply hfirst
      rw [(Prod.mk.inj hab).1]
      exact List.mem_map_of_mem he'

/-- No event is lost, and none is there twice. -/
theorem inOrder_perm (h : Reached pm p log) : (inOrder (maxBank pm) p log).Perm log := by
  apply List.perm_classes (places_nodup p)
  intro f hf
  obtain ⟨src, hsrc, hlt⟩ := BankedState.index_lt_of_filed h.holds.1 hf
  exact List.mem_flatMap.mpr ⟨(f.hwId, src), SortedMap.find?_eq_some.mp hsrc,
    List.mem_map.mpr ⟨_, List.mem_range.mpr hlt, rfl⟩⟩

/-- The places of the events, as the SMS has bank and state in one index. -/
theorem place_eq_iff (h : Reached pm p log) {f : FiledState} (hf : f ∈ log) (pl : UInt32 × Nat) :
    place (maxBank pm) f = pl ↔
      f.hwId = pl.1 ∧ f.bank = pl.2 % (maxBank pm + 1) ∧ f.state = pl.2 / (maxBank pm + 1) := by
  have hbank := h.holds.1.banks f hf
  rw [place, Prod.ext_iff, eq_comm (b := pl.2), slotIndex_iff (Nat.lt_succ_of_le hbank),
    eq_comm (b := f.bank), eq_comm (b := f.state)]

/-- A place of the array holds the events filed there. -/
theorem slot_eq (h : Reached pm p log) {e : UInt32 × EventSource}
    (he : e ∈ p.pulseSources.entries) (i : Nat) :
    slot e.2.banksArr i = (eventsAt (maxBank pm) log (e.1, i)).map FiledState.event := by
  rw [h.holds.1.slots e he, inState, eventsAt]
  congr 1
  apply List.filter_congr
  intro f hf
  have hplace := place_eq_iff h hf (e.1, i)
  exact decide_eq_decide.mpr hplace.symm

/-- The sections of all sources are those of the places with events. -/
theorem sections_eq (h : Reached pm p log) :
    (p.pulseSources.entries.flatMap fun e => readingsFrom (maxBank pm) 0 e.2.banksArr) =
      (places p).flatMap (sectionAt (maxBank pm) log) := by
  rw [places, List.flatMap_assoc]
  apply List.flatMap_congr
  intro e he
  rw [readingsFrom_eq, List.flatMap_map]
  apply List.flatMap_congr
  intro i _
  rw [Nat.zero_add, slot_eq h he, sectionAt]
  simp only [List.map_eq_nil_iff]

/-- All events at a place are of the same bank and state. -/
theorem key_of_mem (h : Reached pm p log) {pl : UInt32 × Nat} {f : FiledState}
    (hf : f ∈ eventsAt (maxBank pm) log pl) :
    filedKey f = keyOf (pl.2 % (maxBank pm + 1)) (pl.2 / (maxBank pm + 1)) ∧
      f.state = pl.2 / (maxBank pm + 1) := by
  obtain ⟨hmem, hplace⟩ := List.mem_filter.mp hf
  obtain ⟨-, hbank, hstate⟩ := (place_eq_iff h hmem pl).mp (of_decide_eq_true hplace)
  exact ⟨by rw [filedKey, hbank, hstate], hstate⟩

/-- The key of a section is that of its index. -/
theorem key_reading (pm : PixelMap) {bank : BankSection} {i : Nat}
    (hbank : bank.bankId = (wireBank (i % (maxBank pm + 1))).toNat)
    (hstate : bank.state = i / (maxBank pm + 1)) :
    bank.key = keyOf (i % (maxBank pm + 1)) (i / (maxBank pm + 1)) := by
  have hlt : i % (maxBank pm + 1) < maxBank pm + 1 := Nat.mod_lt _ (Nat.succ_pos _)
  rw [BankSection.key, hbank, hstate]
  generalize i % (maxBank pm + 1) = b at hlt
  cases b with
  | zero => rfl
  | succ b =>
    cases b with
    | zero => rfl
    | succ b =>
      have hle := pm.numBanks_le
      have hmax : maxBank pm = pm.numBanks + 2 := rfl
      have hword : (wireBank (b + 2)).toNat = b :=
        UInt32.toNat_ofNat_of_lt' (by simp only [UInt32.size]; omega)
      show (if (wireBank (b + 2)).toNat = _ then _ else _) = _
      rw [hword, if_neg (by simp only [BankSection.unmappedBank]; omega),
        if_neg (by simp only [BankSection.errorBank]; omega)]
      rfl

/-- What the translator finds for the banks selected is what was filed in them. -/
theorem selectedFrom_eq (h : Reached pm p log) {banks : List BankSection}
    (hbanks : banks.map readingOf = (places p).flatMap (sectionAt (maxBank pm) log))
    (select : BankKey → Bool) :
    selectedFrom select banks =
      ((inOrder (maxBank pm) p log).filter fun f => select (filedKey f)).map
        FiledState.event := by
  let pick : Reading → List Event := fun r =>
    if select (BankSection.key ⟨r.1, r.2.1, r.2.2.1, []⟩) then r.2.2.2.getD [] else []
  have hpick : selectedFrom select banks = (banks.map readingOf).flatMap pick := by
    rw [List.flatMap_map]
    rfl
  rw [hpick, hbanks, List.flatMap_assoc, inOrder, List.classes, List.filter_flatMap,
    List.map_flatMap]
  apply List.flatMap_congr
  intro pl _
  change (sectionAt (maxBank pm) log pl).flatMap pick =
    ((eventsAt (maxBank pm) log pl).filter fun f => select (filedKey f)).map FiledState.event
  have hkey : BankSection.key ⟨(wireBank (pl.2 % (maxBank pm + 1))).toNat,
      pl.2 / (maxBank pm + 1), ((eventsAt (maxBank pm) log pl).map FiledState.event).length, []⟩ =
        keyOf (pl.2 % (maxBank pm + 1)) (pl.2 / (maxBank pm + 1)) := key_reading pm rfl rfl
  have hsame : ∀ f ∈ eventsAt (maxBank pm) log pl, select (filedKey f) =
      select (keyOf (pl.2 % (maxBank pm + 1)) (pl.2 / (maxBank pm + 1))) := by
    intro f hf
    rw [(key_of_mem h hf).1]
  rw [List.filter_congr hsame, sectionAt]
  by_cases hempty : eventsAt (maxBank pm) log pl = []
  · rw [if_pos hempty, hempty]
    rfl
  · rw [if_neg hempty, List.flatMap_singleton]
    simp only [pick, reading, hkey, Option.getD_some]
    -- the section is found just when its events are selected
    cases select (keyOf (pl.2 % (maxBank pm + 1)) (pl.2 / (maxBank pm + 1))) with
    | true => rw [if_pos rfl, List.filter_true]
    | false =>
      rw [if_neg Bool.false_ne_true, List.filter_false]
      rfl

end Selected

end Adara.Spec.BankedWalk
