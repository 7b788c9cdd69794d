import Adara.Native.EventPackets
import Adara.Spec.BankedEvent
import Adara.Spec.StateFiling
import Adara.Spec.StreamPackets
import Mathlib.Algebra.Order.BigOperators.Group.List
import Mathlib.Algebra.Order.Group.Nat

/-! # Writing a pulse with states and walking over it

The packet `buildBankedStatePacket` writes has a section for every source and, in it, one for
every bank and state with events.  As long as its length fits 32 bits the translator's loops
process each of these sections once, under the bank and state its events were filed in, and
stop at the end of the payload (`banked_state_round_trip`). -/

namespace Adara.Spec.BankedState

open Adara.Native
open Adara.Spec.EventFiling Adara.Spec.StateFiling Adara.Spec.StreamPackets
open Adara.Spec.BankedEvent (wireBank wireBank_eq)

/-! ### The calls of a packet -/

/-- What `processBankEvents` is called with: bank id, state and events. -/
abbrev Call := Nat × Nat × Option (List Event)

def callOf (bank : BankSection) : Call := (bank.bankId, bank.state, bank.events)

/-- The calls for the banks and states with events of an array, from an index on. -/
def callsFrom (maxBank n : Nat) (arr : List (List Event)) : List Call :=
  (arr.zipIdx n).filterMap fun e =>
    if e.1 = [] then none
    else some ((wireBank (e.2 % (maxBank + 1))).toNat, e.2 / (maxBank + 1), some e.1)

/-- The calls for the events a source has in the first `n` places of its array. -/
def callsOf (maxBank : Nat) (log : List FiledState) (hwId : UInt32) (n : Nat) : List Call :=
  (List.range n).filterMap fun i =>
    let evs := inState log hwId (i % (maxBank + 1)) (i / (maxBank + 1))
    if evs = [] then none
    else some ((wireBank (i % (maxBank + 1))).toNat, i / (maxBank + 1), some evs)

/-- The words of an array. -/
def arrayWords (maxBank n : Nat) (arr : List (List Event)) : List UInt32 :=
  (arr.zipIdx n).flatMap fun e => SMSControl.bankStateWords maxBank e.1 e.2

section Array

variable {maxBank n : Nat} {evs : List Event} {arr : List (List Event)} {rest : List UInt32}

theorem callsFrom_cons (maxBank n : Nat) (evs : List Event) (arr : List (List Event)) :
    callsFrom maxBank n (evs :: arr) =
      (if evs = [] then []
        else [((wireBank (n % (maxBank + 1))).toNat, n / (maxBank + 1), some evs)]) ++
        callsFrom maxBank (n + 1) arr := by
  simp only [callsFrom, List.zipIdx_cons, List.filterMap_cons]
  by_cases hempty : evs = []
  · simp only [hempty, if_true, List.nil_append]
  · simp only [hempty, if_false, List.singleton_append]

theorem callsFrom_eq (maxBank n : Nat) (arr : List (List Event)) :
    callsFrom maxBank n arr = (List.range arr.length).filterMap fun i =>
      if slot arr i = [] then none
      else some ((wireBank ((n + i) % (maxBank + 1))).toNat, (n + i) / (maxBank + 1),
        some (slot arr i)) := by
  induction arr generalizing n with
  | nil => rfl
  | cons evs arr ih =>
    rw [callsFrom_cons, ih, List.length_cons, List.range_succ_eq_map, List.filterMap_cons,
      List.filterMap_map]
    have hrest : ∀ i, n + 1 + i = n + (i + 1) := fun i => by omega
    by_cases hempty : evs = []
    · simp only [hempty, if_true, List.nil_append, slot, List.getElem?_cons_zero,
        Option.getD_some, Function.comp_def, List.getElem?_cons_succ, Nat.succ_eq_add_one, hrest]
    · simp only [hempty, if_false, List.singleton_append, slot, List.getElem?_cons_zero,
        Option.getD_some, Function.comp_def, List.getElem?_cons_succ, Nat.succ_eq_add_one, hrest,
        Nat.add_zero]
      rfl

theorem ofFields_fields (evs : List Event) : Event.ofFields (evs.flatMap Event.fields) = evs := by
  induction evs with
  | nil => rfl
  | cons ev evs ih =>
    rw [List.flatMap_cons]
    show ev :: Event.ofFields (evs.flatMap Event.fields) = _
    rw [ih]

theorem arrayWords_cons (maxBank n : Nat) (evs : List Event) (arr : List (List Event)) :
    arrayWords maxBank n (evs :: arr) =
      SMSControl.bankStateWords maxBank evs n ++ arrayWords maxBank (n + 1) arr := by
  rw [arrayWords, List.zipIdx_cons, List.flatMap_cons, arrayWords]

/-- The section of a bank and state. -/
theorem readBankHeader_eq (maxBank n : Nat) (rest : List UInt32) (hevs : evs ≠ [])
    (hcount : 2 * evs.length < Word32.modulus)
    (hstate : n / (maxBank + 1) < Word32.modulus) :
    ∃ bank, readBankHeader true (SMSControl.bankStateWords maxBank evs n ++ rest) = some bank ∧
      callOf bank = ((wireBank (n % (maxBank + 1))).toNat, n / (maxBank + 1), some evs) ∧
      bank.rpos.drop bank.eventWords = rest := by
  have hlen := BankedFormat.length_eventFields evs
  have hwords : (UInt32.ofNat evs.length).toNat = evs.length :=
    UInt32.toNat_ofNat_of_lt' (by
      have hmod : Word32.modulus = UInt32.size := rfl
      omega)
  have hstate' : (UInt32.ofNat (n / (maxBank + 1))).toNat = n / (maxBank + 1) :=
    UInt32.toNat_ofNat_of_lt' hstate
  rw [SMSControl.bankStateWords, if_neg hevs]
  refine ⟨⟨(wireBank (n % (maxBank + 1))).toNat, n / (maxBank + 1), evs.length,
    evs.flatMap Event.fields ++ rest⟩, ?_, ?_, ?_⟩
  · rw [← wireBank_eq, ← hstate']
    simp only [List.cons_append, List.nil_append, readBankHeader, hwords, hstate']
  · rw [callOf, BankSection.events, BankSection.eventWords, Word32.mul_of_lt hcount, if_pos
      (by rw [List.length_append, hlen]; omega)]
    simp only [List.take_left' hlen, ofFields_fields]
  · rw [BankSection.eventWords, Word32.mul_of_lt hcount]
    exact List.drop_left' hlen

/-- The loop over the banks of a source. -/
theorem banksOfSource_eq (maxBank n : Nat) (rest : List UInt32)
    (hcounts : ∀ evs ∈ arr, 2 * evs.length < Word32.modulus)
    (hstates : n + arr.length ≤ Word32.modulus) :
    ∃ banks, banksOfSource true (filled arr) (arrayWords maxBank n arr ++ rest) =
        some (banks, rest) ∧ banks.map callOf = callsFrom maxBank n arr := by
  induction arr generalizing n with
  | nil => exact ⟨[], rfl, rfl⟩
  | cons evs arr ih =>
    obtain ⟨hcount, hrest⟩ := List.forall_mem_cons.mp hcounts
    rw [List.length_cons] at hstates
    obtain ⟨banks, hbanks, hcalls⟩ := ih (n + 1) hrest (by omega)
    have hfilled : filled (evs :: arr) = (if evs = [] then 0 else 1) + filled arr := by
      simp [filled, tally]
    rw [hfilled, arrayWords_cons, callsFrom_cons]
    by_cases hempty : evs = []
    · refine ⟨banks, ?_, by rw [if_pos hempty]; exact hcalls⟩
      rw [if_pos hempty, Nat.zero_add, SMSControl.bankStateWords, if_pos hempty]
      exact hbanks
    · have hdiv : n / (maxBank + 1) ≤ n := Nat.div_le_self _ _
      obtain ⟨bank, hread, hcall, hdrop⟩ := readBankHeader_eq maxBank n
        (arrayWords maxBank (n + 1) arr ++ rest) hempty hcount (by omega)
      refine ⟨bank :: banks, ?_, by rw [if_neg hempty, List.map_cons, hcall, hcalls]; rfl⟩
      rw [if_neg hempty, Nat.add_comm, banksOfSource, List.append_assoc, hread]
      simp only [Option.bind_eq_bind, Option.bind_some, hdrop, hbanks]

end Array

/-! ### The packet -/

/-- The sections of all sources. -/
def sourcesWords (maxBank : Nat) (es : List (UInt32 × EventSource)) : List UInt32 :=
  es.flatMap fun e => SMSControl.sourceStateWords maxBank e.1 e.2

/-- The bytes of the packet, its header included. -/
def packetBytes (p : Pulse) : Nat :=
  4 * (8 + 4 * p.pulseSources.size + 3 * allFilled p + 2 * allEvents p)

section Sources

variable {maxBank : Nat} {es : List (UInt32 × EventSource)} {p : Pulse}

theorem sourcesWords_cons (e : UInt32 × EventSource) (es : List (UInt32 × EventSource)) :
    sourcesWords maxBank (e :: es) =
      [e.1, e.2.intraPulseTime, e.2.tofField, e.2.activeBanks] ++
        (arrayWords maxBank 0 e.2.banksArr ++ sourcesWords maxBank es) := by
  rw [sourcesWords, List.flatMap_cons, SMSControl.sourceStateWords, List.append_assoc]
  rfl

/-- The loop over the sources. -/
theorem banksOfSources_eq (maxBank : Nat)
    (hactive : ∀ e ∈ es, e.2.activeBanks = UInt32.ofNat (filled e.2.banksArr))
    (hfilled : ∀ e ∈ es, filled e.2.banksArr < Word32.modulus)
    (hcounts : ∀ e ∈ es, ∀ evs ∈ e.2.banksArr, 2 * evs.length < Word32.modulus)
    (hstates : ∀ e ∈ es, e.2.banksArr.length ≤ Word32.modulus) {fuel : Nat}
    (hfuel : es.length ≤ fuel) :
    ∃ banks, banksOfSources true fuel (sourcesWords maxBank es) = some banks ∧
      banks.map callOf = es.flatMap fun e => callsFrom maxBank 0 e.2.banksArr := by
  induction es generalizing fuel with
  | nil =>
    refine ⟨[], ?_, rfl⟩
    cases fuel <;> rfl
  | cons e es ih =>
    cases fuel with
    | zero => simp at hfuel
    | succ fuel =>
      obtain ⟨banks, hbanks, hcalls⟩ := banksOfSource_eq maxBank 0
        (sourcesWords maxBank es) (hcounts e List.mem_cons_self)
        (by rw [Nat.zero_add]; exact hstates e List.mem_cons_self)
      obtain ⟨banks', hbanks', hcalls'⟩ := ih
        (fun e he => hactive e (List.mem_cons_of_mem _ he))
        (fun e he => hfilled e (List.mem_cons_of_mem _ he))
        (fun e he => hcounts e (List.mem_cons_of_mem _ he))
        (fun e he => hstates e (List.mem_cons_of_mem _ he))
        (Nat.le_of_succ_le_succ hfuel)
      have hcount : e.2.activeBanks.toNat = filled e.2.banksArr := by
        rw [hactive e List.mem_cons_self]
        exact UInt32.toNat_ofNat_of_lt' (hfilled e List.mem_cons_self)
      refine ⟨banks ++ banks', ?_, by rw [List.map_append, hcalls, hcalls']; rfl⟩
      rw [sourcesWords_cons]
      simp only [List.cons_append, List.nil_append, banksOfSources, hcount, hbanks, hbanks',
        Option.bind_eq_bind, Option.bind_some]

theorem length_arrayWords (maxBank n : Nat) (arr : List (List Event)) :
    (arrayWords maxBank n arr).length = 3 * filled arr + 2 * total arr := by
  induction arr generalizing n with
  | nil => rfl
  | cons evs arr ih =>
    have hfilled : filled (evs :: arr) = (if evs = [] then 0 else 1) + filled arr := by
      simp [filled, tally]
    have htotal : total (evs :: arr) = evs.length + total arr := by simp [total, tally]
    rw [arrayWords_cons, List.length_append, ih, hfilled, htotal, SMSControl.bankStateWords]
    by_cases hempty : evs = []
    · simp [hempty]
    · simp only [hempty, if_false, List.length_append, List.length_cons, List.length_nil,
        BankedFormat.length_eventFields]
      omega

theorem length_sourcesWords (maxBank : Nat) (es : List (UInt32 × EventSource)) :
    (sourcesWords maxBank es).length =
      4 * es.length + 3 * (es.map fun e => filled e.2.banksArr).sum +
        2 * (es.map fun e => total e.2.banksArr).sum := by
  induction es with
  | nil => rfl
  | cons e es ih =>
    rw [sourcesWords_cons]
    simp only [List.length_append, List.length_cons, List.length_nil, length_arrayWords, ih,
      List.map_cons, List.sum_cons]
    omega

/-- A list's weight is at most that of all. -/
theorem tally_le_of_mem (w : List Event → Nat) {evs : List Event} {arr : List (List Event)}
    (h : evs ∈ arr) : w evs ≤ tally w arr :=
  List.le_sum_of_mem (List.mem_map_of_mem h)

theorem filled_le_allFilled {e : UInt32 × EventSource} (he : e ∈ p.pulseSources.entries) :
    filled e.2.banksArr ≤ allFilled p :=
  List.le_sum_of_mem (List.mem_map_of_mem (f := fun e => filled e.2.banksArr) he)

theorem total_le_allEvents {e : UInt32 × EventSource} (he : e ∈ p.pulseSources.entries) :
    total e.2.banksArr ≤ allEvents p :=
  List.le_sum_of_mem (List.mem_map_of_mem (f := fun e => total e.2.banksArr) he)

theorem sourceStateHdrs_eq (src : EventSource) :
    SMSControl.sourceStateHdrs src = 4 + 3 * filled src.banksArr := by
  have htwo := BankedEvent.sourceHdrs_eq src
  rw [SMSControl.sourceHdrs] at htwo
  rw [SMSControl.sourceStateHdrs]
  omega

theorem hdrs_eq (p : Pulse) :
    (p.pulseSources.entries.map fun e => SMSControl.sourceStateHdrs e.2).sum =
      4 * p.pulseSources.size + 3 * allFilled p := by
  simp only [SortedMap.size, allFilled, sourceStateHdrs_eq]
  induction p.pulseSources.entries with
  | nil => rfl
  | cons e es ih =>
    simp only [List.map_cons, List.sum_cons, List.length_cons]
    rw [ih]
    omega

theorem reservedStateHdrs_eq (hp : Counted p) (hfits : packetBytes p < Word32.modulus) :
    SMSControl.reservedStateHdrs p = 8 + 4 * p.pulseSources.size + 3 * allFilled p := by
  have hmod : Word32.modulus = 2 ^ 32 := rfl
  simp only [packetBytes] at hfits
  have hbanks : p.numBanks.toNat = allFilled p := by
    rw [hp.numBanks]
    exact UInt32.toNat_ofNat_of_lt' (by simp only [UInt32.size]; omega)
  rw [SMSControl.reservedStateHdrs, hbanks, Word32.mul_of_lt (by omega),
    Word32.add_of_lt (a := 8) (by omega), Word32.add_of_lt (by omega)]
  omega

/-- The length in the header is that of the words behind it. -/
theorem bankedStatePayloadLen_eq (hp : Counted p) (hfits : packetBytes p < Word32.modulus) :
    SMSControl.bankedStatePayloadLen p + 16 = packetBytes p := by
  have hmod : Word32.modulus = 2 ^ 32 := rfl
  have hreserved := reservedStateHdrs_eq hp hfits
  simp only [packetBytes] at hfits ⊢
  have hevents : p.numEvents.toNat = allEvents p := by
    rw [hp.numEvents]
    exact UInt32.toNat_ofNat_of_lt' (by simp only [UInt32.size]; omega)
  rw [SMSControl.bankedStatePayloadLen, hreserved, hevents, Word32.mul_of_lt (by omega),
    Word32.add_of_lt (by omega), Word32.sub_of_le (by omega) (by omega)]
  omega

/-- The words written. -/
theorem build_eq (maxBank : Nat) (pulseEnergy : UInt32 → UInt32) (hp : Counted p)
    (hfits : packetBytes p < Word32.modulus) :
    ∃ words, SMSControl.buildBankedStatePacket maxBank pulseEnergy p = some words ∧
      words = SMSControl.bankedStateHeader pulseEnergy p ++
        sourcesWords maxBank p.pulseSources.entries ∧
      4 * words.length = packetBytes p := by
  refine ⟨_, ?_, rfl, ?_⟩
  · rw [SMSControl.buildBankedStatePacket, reservedStateHdrs_eq hp hfits, hdrs_eq,
      if_neg (by omega)]
    rfl
  · rw [List.length_append, length_sourcesWords, packetBytes, SortedMap.size, allFilled, allEvents]
    simp only [SMSControl.bankedStateHeader, List.length_cons, List.length_nil]
    omega

end Sources

/-! ### Every bank and state once -/

section RoundTrip

variable {pm : PixelMap} {p : Pulse} {log : List FiledState}

/-- The calls for an array are those for the events filed in it. -/
theorem callsFrom_holds (h : HoldsStates pm p log) {e : UInt32 × EventSource}
    (he : e ∈ p.pulseSources.entries) :
    callsFrom (maxBank pm) 0 e.2.banksArr =
      callsOf (maxBank pm) log e.1 e.2.banksArr.length := by
  rw [callsFrom_eq, callsOf]
  refine List.filterMap_congr fun i _ => ?_
  simp only [h.slots e he, Nat.zero_add]

/-- An event filed is within the array of its source. -/
theorem index_lt_of_filed (h : HoldsStates pm p log) {f : FiledState} (hf : f ∈ log) :
    ∃ src, p.pulseSources.find? f.hwId = some src ∧
      f.bank + f.state * (maxBank pm + 1) < src.banksArr.length := by
  obtain ⟨src, hsrc⟩ := SortedMap.mem_keys.mp (h.sources f hf)
  refine ⟨src, SortedMap.find?_eq_some.mpr hsrc, ?_⟩
  have hbank : f.bank < maxBank pm + 1 := Nat.lt_succ_of_le (h.banks f hf)
  obtain ⟨hmod, hdiv⟩ := (slotIndex_iff (i := f.bank + f.state * (maxBank pm + 1)) hbank).mp rfl
  have hslot := h.slots _ hsrc (f.bank + f.state * (maxBank pm + 1))
  rw [hmod, hdiv] at hslot
  -- the place is not empty, so there is one
  have hmem : f.event ∈ inState log f.hwId f.bank f.state :=
    List.mem_map_of_mem (List.mem_filter.mpr ⟨hf, by simp⟩)
  by_contra hout
  rw [slot, List.getElem?_eq_none (Nat.le_of_not_lt hout), Option.getD_none] at hslot
  rw [← hslot] at hmem
  cases hmem

/-- What the walk needs to fit 32 bits does, if the packet does. -/
theorem exists_banks (h : Reached pm p log) (hfits : packetBytes p < Word32.modulus) {fuel : Nat}
    (hfuel : p.pulseSources.entries.length ≤ fuel) :
    ∃ banks, banksOfSources true fuel (sourcesWords (maxBank pm) p.pulseSources.entries) =
        some banks ∧
      banks.map callOf = p.pulseSources.entries.flatMap fun e =>
        callsOf (maxBank pm) log e.1 e.2.banksArr.length := by
  have hholds := h.holds.1
  simp only [packetBytes] at hfits
  obtain ⟨banks, hbanks, hcalls⟩ := banksOfSources_eq (maxBank pm)
    h.assembled.counted.activeBanks
    (fun e he => by have hle := filled_le_allFilled he; omega)
    (fun e he evs hevs => by
      have htotal := total_le_allEvents he
      have hle : evs.length ≤ total e.2.banksArr := tally_le_of_mem List.length hevs
      omega)
    (fun e he => by rw [(hholds.sized e he).length_eq]; exact Nat.le_of_lt (hholds.sized e he).fits)
    hfuel
  refine ⟨banks, hbanks, hcalls.trans (List.flatMap_congr fun e he => ?_)⟩
  exact callsFrom_holds hholds he

/-- The loops of the translator over the packet of a pulse that fits 32 bits process the bank
    and state of every event once, with the events filed there, and end with the payload. -/
theorem banked_state_round_trip (pulseEnergy : UInt32 → UInt32) (h : Reached pm p log)
    (hfits : packetBytes p < Word32.modulus) :
    ∃ words banks, SMSControl.buildBankedStatePacket (maxBank pm) pulseEnergy p = some words ∧
      (∀ {σ : Type} (process : σ → BankSection → Option σ) (s : σ),
        walkSources true process (words.drop 4).length s ((words.drop 4).drop 4) =
          Runs.run process s banks) ∧
      (banks.map callOf = p.pulseSources.entries.flatMap fun e =>
        callsOf (maxBank pm) log e.1 e.2.banksArr.length) ∧
      ∀ f ∈ log, ∃ src, p.pulseSources.find? f.hwId = some src ∧
        f.bank + f.state * (maxBank pm + 1) < src.banksArr.length := by
  obtain ⟨words, hbuild, hwords, -⟩ :=
    build_eq (maxBank pm) pulseEnergy h.assembled.counted hfits
  have hpayload : (words.drop 4).drop 4 =
      sourcesWords (maxBank pm) p.pulseSources.entries := by
    rw [hwords]
    rfl
  have hfuel : p.pulseSources.entries.length ≤ (words.drop 4).length := by
    have hlen := congrArg List.length hpayload
    rw [List.length_drop, length_sourcesWords] at hlen
    omega
  obtain ⟨banks, hbanks, hcalls⟩ := exists_banks h hfits hfuel
  refine ⟨words, banks, hbuild, fun process s => ?_, hcalls, fun f hf =>
    index_lt_of_filed h.holds.1 hf⟩
  rw [walkSources_eq, hpayload, hbanks]
  rfl

end RoundTrip

end Adara.Spec.BankedState
