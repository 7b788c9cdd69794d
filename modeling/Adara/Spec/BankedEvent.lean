import Adara.Spec.BankedFormat
import Adara.Spec.EventFiling

/-! # Writing a pulse and reading it back

The packet `buildBankedPacket` writes for a pulse has a section for every source and a
bank for every bank with events (`build_eq`), and its header gives the length it has, as
long as that length fits 32 bits.  A `BankedEventPkt` over its words yields the events
that `pulseEvents` filed, each once: by source, by bank, and then in the order they
came (`banked_round_trip`). -/

namespace Adara.Spec.BankedEvent

open Adara.Native Adara.Native.BankedEventPkt
open Adara.Spec.BankedFormat Adara.Spec.EventFiling

/-! ### The sections of a pulse -/

/-- The id of a bank on the wire, by its index: the error bank, the unmapped bank, then
    the banks of the pixel map. -/
def wireBank : Nat → UInt32
  | 0 => 0xfffffffe
  | 1 => 0xffffffff
  | bank + 2 => UInt32.ofNat bank

/-- The id that `pulseEvents` looked up is the one on the wire, the two reserved ones
    extended to 32 bits. -/
theorem wireBank_bankIndex {bank : Nat} (h : bank < 2 ^ 16) :
    wireBank (bankIndex bank) =
      if bank = PixelMap.errorBank then 0xfffffffe
      else if bank = PixelMap.unmappedBank then 0xffffffff
      else UInt32.ofNat bank := by
  by_cases herror : bank = PixelMap.errorBank
  · rw [if_pos herror, herror]
    rfl
  · by_cases hunmapped : bank = PixelMap.unmappedBank
    · rw [if_neg herror, if_pos hunmapped, hunmapped]
      rfl
    · have hsmall : bank + PixelMap.realBankOffset < 2 ^ 16 := by
        simp only [PixelMap.errorBank, PixelMap.unmappedBank, PixelMap.realBankOffset] at *
        omega
      rw [if_neg herror, if_neg hunmapped, bankIndex, Nat.mod_eq_of_lt hsmall]
      rfl

/-- Subtracting the offset from an index gives the id on the wire. -/
theorem wireBank_eq (bank : Nat) :
    UInt32.ofNat bank - UInt32.ofNat PixelMap.realBankOffset = wireBank bank := by
  cases bank with
  | zero => rfl
  | succ bank =>
    cases bank with
    | zero => rfl
    | succ bank =>
      rw [show bank + 1 + 1 = bank + PixelMap.realBankOffset from rfl, UInt32.ofNat_add]
      exact UInt32.add_sub_cancel _ _

/-- The banks with events of an array, from an index on. -/
def filledBanksFrom (maxBank n : Nat) (arr : List (List Event)) : List Bank :=
  (arr.zipIdx n).filterMap fun e =>
    if e.1 = [] then none else some ⟨wireBank (e.2 % (maxBank + 1)), e.1⟩

/-- The section of a source. -/
def sourceSection (maxBank : Nat) (hwId : UInt32) (src : EventSource) : SourceSection where
  sourceId := hwId
  intraPulseTime := src.intraPulseTime
  tofField := src.tofField
  banks := filledBanksFrom maxBank 0 src.banksArr

def pulseSections (maxBank : Nat) (p : Pulse) : List SourceSection :=
  p.pulseSources.entries.map fun e => sourceSection maxBank e.1 e.2

/-- The bytes of the packet for a pulse. -/
def packetBytes (p : Pulse) : Nat :=
  4 * (8 + 4 * p.pulseSources.size + 2 * allFilled p + 2 * allEvents p)

section Array

variable (maxBank n : Nat) (evs : List Event) (arr : List (List Event))

theorem filledBanksFrom_cons :
    filledBanksFrom maxBank n (evs :: arr) =
      (if evs = [] then [] else [⟨wireBank (n % (maxBank + 1)), evs⟩]) ++
        filledBanksFrom maxBank (n + 1) arr := by
  simp only [filledBanksFrom, List.zipIdx_cons, List.filterMap_cons]
  by_cases hempty : evs = []
  · simp only [hempty, if_true, List.nil_append]
  · simp only [hempty, if_false, List.singleton_append]

theorem length_filledBanksFrom : (filledBanksFrom maxBank n arr).length = filled arr := by
  induction arr generalizing n with
  | nil => rfl
  | cons evs arr ih =>
    have hcons : filled (evs :: arr) = (if evs = [] then 0 else 1) + filled arr := by
      simp [filled, tally]
    rw [filledBanksFrom_cons, List.length_append, ih, hcons]
    split <;> rfl

theorem length_bankEvents_filledBanksFrom :
    (bankEvents (filledBanksFrom maxBank n arr)).length = total arr := by
  induction arr generalizing n with
  | nil => rfl
  | cons evs arr ih =>
    have hcons : total (evs :: arr) = evs.length + total arr := by simp [total, tally]
    rw [filledBanksFrom_cons, bankEvents, List.flatMap_append, List.length_append]
    rw [← bankEvents, ← bankEvents, ih, hcons]
    by_cases hempty : evs = []
    · simp [hempty, bankEvents]
    · simp [hempty, bankEvents]

/-- The words written for an array are those of its banks with events. -/
theorem bankWords_filledBanksFrom :
    BankedFormat.bankWords (filledBanksFrom maxBank n arr) =
      (arr.zipIdx n).flatMap fun e => SMSControl.bankWords maxBank e.1 e.2 := by
  induction arr generalizing n with
  | nil => rfl
  | cons evs arr ih =>
    rw [filledBanksFrom_cons, List.zipIdx_cons, List.flatMap_cons, ← ih, BankedFormat.bankWords,
      List.flatMap_append]
    congr 1
    by_cases hempty : evs = []
    · simp [hempty, SMSControl.bankWords]
    · simp [hempty, SMSControl.bankWords, wireBank_eq]

end Array

/-! ### The packet written -/

section Build

variable {maxBank : Nat} {p : Pulse}

theorem sourceWords_eq {hwId : UInt32} {src : EventSource}
    (hactive : src.activeBanks = UInt32.ofNat (filled src.banksArr)) :
    SMSControl.sourceWords maxBank hwId src = sectionWords [sourceSection maxBank hwId src] := by
  simp only [SMSControl.sourceWords, sectionWords, List.flatMap_cons, List.flatMap_nil,
    List.append_nil, sourceSection, bankWords_filledBanksFrom, length_filledBanksFrom, hactive]

/-- The sources are written as the sections of the pulse. -/
theorem sections_written (hp : Counted p) :
    (p.pulseSources.entries.flatMap fun e => SMSControl.sourceWords maxBank e.1 e.2) =
      sectionWords (pulseSections maxBank p) := by
  rw [pulseSections, sectionWords, List.flatMap_map]
  apply List.flatMap_congr
  intro e he
  rw [sourceWords_eq (hp.activeBanks e he)]
  simp only [sectionWords, List.flatMap_cons, List.flatMap_nil, List.append_nil]

/-- Four words for every source, two for every bank with events, two for every event. -/
theorem length_sections (maxBank : Nat) (p : Pulse) :
    (sectionWords (pulseSections maxBank p)).length =
      4 * p.pulseSources.size + 2 * allFilled p + 2 * allEvents p := by
  simp only [pulseSections, SortedMap.size, allFilled, allEvents]
  induction p.pulseSources.entries with
  | nil => rfl
  | cons e es ih =>
    have hbanks : (BankedFormat.bankWords (sourceSection maxBank e.1 e.2).banks).length =
        2 * filled e.2.banksArr + 2 * total e.2.banksArr := by
      simp only [sourceSection, length_bankWords, length_filledBanksFrom,
        length_bankEvents_filledBanksFrom]
    rw [List.map_cons, sectionWords_cons]
    simp only [List.length_append, hbanks, ih, List.length_cons, List.length_nil, List.map_cons,
      List.sum_cons]
    omega

theorem sourceHdrs_eq (src : EventSource) :
    SMSControl.sourceHdrs src = 4 + 2 * filled src.banksArr := by
  have hcount : ∀ arr : List (List Event), (arr.countP fun evs => evs ≠ []) = filled arr := by
    intro arr
    induction arr with
    | nil => rfl
    | cons evs arr ih =>
      have hcons : filled (evs :: arr) = (if evs = [] then 0 else 1) + filled arr := by
        simp [filled, tally]
      rw [List.countP_cons, ih, hcons]
      by_cases hempty : evs = []
      · simp [hempty]
      · simp [hempty]
        omega
  rw [SMSControl.sourceHdrs, hcount]

theorem hdrs_eq (p : Pulse) :
    (p.pulseSources.entries.map fun e => SMSControl.sourceHdrs e.2).sum =
      4 * p.pulseSources.size + 2 * allFilled p := by
  simp only [SortedMap.size, allFilled, sourceHdrs_eq]
  induction p.pulseSources.entries with
  | nil => rfl
  | cons e es ih =>
    simp only [List.map_cons, List.sum_cons, List.length_cons]
    rw [ih]
    omega

/-- The words of the packet a pulse is written as. -/
def packetWords (maxBank : Nat) (pulseEnergy : UInt32 → UInt32) (p : Pulse) : List UInt32 :=
  SMSControl.bankedHeader pulseEnergy p ++ sectionWords (pulseSections maxBank p)

theorem length_packetWords (maxBank : Nat) (pulseEnergy : UInt32 → UInt32) (p : Pulse) :
    4 * (packetWords maxBank pulseEnergy p).length = packetBytes p := by
  rw [packetWords, List.length_append, length_sections]
  simp only [SMSControl.bankedHeader, packetBytes, List.length_cons, List.length_nil]
  omega

/-- As long as the packet's length fits 32 bits, the headers fit what was reserved. -/
theorem reservedHdrs_eq (hp : Counted p) (hfits : packetBytes p < Word32.modulus) :
    SMSControl.reservedHdrs p = 8 + 4 * p.pulseSources.size + 2 * allFilled p := by
  have hmod : Word32.modulus = 2 ^ 32 := rfl
  simp only [packetBytes] at hfits
  have hbanks : p.numBanks.toNat = allFilled p := by
    rw [hp.numBanks]
    exact UInt32.toNat_ofNat_of_lt' (by simp only [UInt32.size]; omega)
  rw [SMSControl.reservedHdrs, hbanks, Word32.mul_of_lt (by omega),
    Word32.add_of_lt (a := 8) (by omega), Word32.add_of_lt (by omega)]
  omega

/-- What `buildBankedPacket` writes. -/
theorem build_eq (pulseEnergy : UInt32 → UInt32) (hp : Counted p)
    (hfits : packetBytes p < Word32.modulus) :
    SMSControl.buildBankedPacket maxBank pulseEnergy p =
      some (packetWords maxBank pulseEnergy p) := by
  rw [SMSControl.buildBankedPacket, reservedHdrs_eq hp hfits, hdrs_eq, if_neg (by omega),
    sections_written hp]
  rfl

/-- The header gives the length of the payload. -/
theorem bankedPayloadLen_eq (hp : Counted p) (hfits : packetBytes p < Word32.modulus) :
    SMSControl.bankedPayloadLen p + 16 = packetBytes p := by
  have hmod : Word32.modulus = 2 ^ 32 := rfl
  have hreserved := reservedHdrs_eq hp hfits
  simp only [packetBytes] at hfits ⊢
  have hevents : p.numEvents.toNat = allEvents p := by
    rw [hp.numEvents]
    exact UInt32.toNat_ofNat_of_lt' (by simp only [UInt32.size]; omega)
  rw [SMSControl.bankedPayloadLen, hreserved, hevents, Word32.mul_of_lt (by omega),
    Word32.add_of_lt (by omega), Word32.sub_of_le (by omega) (by omega)]
  omega

end Build

/-! ### The events filed, in the order of the packet -/

/-- The events of a log by source, by bank, and then as they came, each with the id of its
    bank on the wire. -/
def filedOrder (hwIds : List UInt32) (maxBank : Nat) (log : List Filed) : List (UInt32 × Event) :=
  hwIds.flatMap fun hwId => (List.range (maxBank + 1)).flatMap fun bank =>
    (inBank log hwId bank).map fun ev => (wireBank bank, ev)

section Lists

variable {α β : Type}

/-- Indices behind the last one with anything to show do not count. -/
private theorem flatMap_range_eq {g : Nat → List β} {m n : Nat} (hmn : m ≤ n)
    (h : ∀ i, m ≤ i → g i = []) : (List.range n).flatMap g = (List.range m).flatMap g := by
  obtain ⟨k, rfl⟩ := Nat.exists_eq_add_of_le hmn
  rw [List.range_add, List.flatMap_append]
  have hnil : ((List.range k).map (m + ·)).flatMap g = [] := by
    rw [List.flatMap_eq_nil_iff]
    intro i hi
    obtain ⟨j, -, rfl⟩ := List.mem_map.mp hi
    exact h _ (Nat.le_add_right m j)
  rw [hnil, List.append_nil]

/-- One more element at one place of a list is one more element in all. -/
private theorem flatMap_cons_perm {l : List α} {x : α} {g g' : α → List β} {b : β}
    (hnodup : l.Nodup) (hx : x ∈ l) (hone : (g x).Perm (b :: g' x))
    (hsame : ∀ y, y ≠ x → g y = g' y) : (l.flatMap g).Perm (b :: l.flatMap g') := by
  induction l with
  | nil => cases hx
  | cons y l ih =>
    obtain ⟨hy, hnodup⟩ := List.nodup_cons.mp hnodup
    rw [List.flatMap_cons, List.flatMap_cons]
    by_cases hyx : y = x
    · subst hyx
      have hrest : l.flatMap g = l.flatMap g' :=
        List.flatMap_congr fun z hz => hsame z (fun h => hy (h ▸ hz))
      rw [hrest]
      exact hone.append_right _
    · have hx' : x ∈ l := (List.mem_cons.mp hx).resolve_left (Ne.symm hyx)
      rw [hsame y hyx]
      exact ((ih hnodup hx').append_left _).trans List.perm_middle

end Lists

/-- The order of the packet has every event of the log once. -/
theorem filedOrder_perm {hwIds : List UInt32} {maxBank : Nat} {log : List Filed}
    (hnodup : hwIds.Nodup) (hsources : ∀ f ∈ log, f.hwId ∈ hwIds)
    (hbanks : ∀ f ∈ log, f.bank ≤ maxBank) :
    (filedOrder hwIds maxBank log).Perm (log.map fun f => (wireBank f.bank, f.event)) := by
  induction log with
  | nil => simp [filedOrder, inBank]
  | cons f log ih =>
    have hrest := ih (fun g hg => hsources g (List.mem_cons_of_mem _ hg))
      (fun g hg => hbanks g (List.mem_cons_of_mem _ hg))
    rw [List.map_cons]
    apply List.Perm.trans _ (hrest.cons _)
    -- the event stands in the bank it was filed in, and in no other
    have hin : inBank (f :: log) f.hwId f.bank = f.event :: inBank log f.hwId f.bank := by
      simp [inBank]
    have hout : ∀ hwId bank, ¬ (hwId = f.hwId ∧ bank = f.bank) →
        inBank (f :: log) hwId bank = inBank log hwId bank := by
      intro hwId bank hne
      have hneg : ¬ (f.hwId = hwId ∧ f.bank = bank) := fun h => hne ⟨h.1.symm, h.2.symm⟩
      simp [inBank, hneg]
    have hbank : f.bank ∈ List.range (maxBank + 1) :=
      List.mem_range.mpr (Nat.lt_succ_of_le (hbanks f (List.mem_cons_self ..)))
    apply flatMap_cons_perm hnodup (hsources f (List.mem_cons_self ..))
    · apply flatMap_cons_perm List.nodup_range hbank
      · rw [hin, List.map_cons]
      · intro bank hne
        rw [hout _ _ fun h => hne h.2]
    · intro hwId hne
      apply List.flatMap_congr
      intro bank _
      rw [hout _ _ fun h => hne h.1]

section Read

variable {pm : PixelMap} {p : Pulse} {log : List Filed}

theorem bankEvents_filledBanksFrom (maxBank n : Nat) (arr : List (List Event)) :
    bankEvents (filledBanksFrom maxBank n arr) =
      (List.range arr.length).flatMap fun i =>
        (slot arr i).map fun ev => (wireBank ((n + i) % (maxBank + 1)), ev) := by
  induction arr generalizing n with
  | nil => rfl
  | cons evs arr ih =>
    rw [filledBanksFrom_cons, bankEvents, List.flatMap_append, ← bankEvents, ← bankEvents, ih,
      List.length_cons, List.range_succ_eq_map, List.flatMap_cons, List.flatMap_map]
    congr 1
    · by_cases hempty : evs = []
      · simp [hempty, bankEvents, slot]
      · simp [hempty, bankEvents, slot]
    · apply List.flatMap_congr
      intro i _
      rw [show n + 1 + i = n + (i + 1) by omega]
      rfl

/-- The sections of a pulse without states have the events filed, in order. -/
theorem sectionEvents_eq (h : Holds pm p log) :
    sectionEvents (pulseSections (maxBank pm) p) =
      filedOrder p.pulseSources.keys (maxBank pm) log := by
  rw [sectionEvents, pulseSections, List.flatMap_map, filedOrder, SortedMap.keys, List.flatMap_map]
  apply List.flatMap_congr
  intro e he
  have hslots := h.slots e he
  -- nothing was filed behind the last bank
  have hnone : ∀ bank, maxBank pm + 1 ≤ bank → inBank log e.1 bank = [] := by
    intro bank hbank
    simp only [inBank, List.map_eq_nil_iff, List.filter_eq_nil_iff, decide_eq_true_eq]
    intro f hf hsame
    have := h.banks f hf
    omega
  have hshort : ∀ i, e.2.banksArr.length ≤ i → slot e.2.banksArr i = [] := by
    intro i hi
    rw [slot, List.getElem?_eq_none hi]
    rfl
  show bankEvents (filledBanksFrom (maxBank pm) 0 e.2.banksArr) = _
  rw [bankEvents_filledBanksFrom,
    ← flatMap_range_eq (Nat.le_max_left e.2.banksArr.length (maxBank pm + 1)),
    ← flatMap_range_eq (Nat.le_max_right e.2.banksArr.length (maxBank pm + 1))]
  · apply List.flatMap_congr
    intro i _
    rw [hslots, Nat.zero_add]
    by_cases hi : i ≤ maxBank pm
    · rw [Nat.mod_eq_of_lt (Nat.lt_succ_of_le hi)]
    · rw [hnone i (by omega)]
      rfl
  · intro i hi
    rw [hnone i hi]
    rfl
  · intro i hi
    rw [hshort i hi]
    rfl

/-- The packet written for a pulse without states, as long as its length fits 32 bits,
    has that length in its header, and reading it yields the events filed. -/
theorem banked_round_trip (pulseEnergy : UInt32 → UInt32) (h : Assembled pm p log)
    (hstates : hasStates p = false) (hfits : packetBytes p < Word32.modulus) :
    ∃ words pkt, SMSControl.buildBankedPacket (maxBank pm) pulseEnergy p = some words ∧
      ofWords words = .ok pkt ∧ pkt.payloadLen + 16 = 4 * words.length ∧
      pkt.readEvents = some (filedOrder p.pulseSources.keys (maxBank pm) log) ∧
      (filedOrder p.pulseSources.keys (maxBank pm) log).Perm
        (log.map fun f => (wireBank f.bank, f.event)) := by
  have hcount := h.counted
  have hholds := h.holds hstates
  have hlen := bankedPayloadLen_eq hcount hfits
  have hpayload : (UInt32.ofNat (SMSControl.bankedPayloadLen p)).toNat =
      SMSControl.bankedPayloadLen p :=
    UInt32.toNat_ofNat_of_lt' (Word32.sub_lt _ _)
  have hwords := length_packetWords (maxBank pm) pulseEnergy p
  have hheader : 16 ≤ SMSControl.bankedPayloadLen p := by
    simp only [packetBytes] at hlen
    omega
  -- the payload is what follows the four words of the packet header
  let header : List UInt32 :=
    [if p.hasFlag PulseFlags.gotNeutrons then p.charge else 0, pulseEnergy p.ringPeriod, p.cycle,
      SMSControl.flagsWord p]
  let pkt : BankedEventPkt :=
    ⟨SMSControl.bankedPayloadLen p, header ++ sectionWords (pulseSections (maxBank pm) p)⟩
  have hfields : 4 * pkt.fields.length + 16 = packetBytes p := by
    simp only [pkt, header, List.length_append, length_sections, packetBytes, List.length_cons,
      List.length_nil]
    omega
  have hcomplete : Complete pkt := by
    refine ⟨?_, by omega, ?_⟩
    · show SMSControl.bankedPayloadLen p = 4 * pkt.fields.length
      omega
    · simp only [pkt, header, List.length_append, List.length_cons, List.length_nil]
      omega
  refine ⟨packetWords (maxBank pm) pulseEnergy p, pkt, build_eq pulseEnergy hcount hfits, ?_, ?_,
    ?_, filedOrder_perm p.pulseSources.keys_nodup hholds.sources hholds.banks⟩
  · simp only [packetWords, SMSControl.bankedHeader, List.cons_append, List.nil_append, ofWords,
      hpayload]
    rw [if_neg (by omega)]
    rfl
  · rw [hwords]
    exact hlen
  · rw [readEvents_eq header hcomplete rfl rfl, sectionEvents_eq hholds]

end Read

/-! ### Pulses with one bank -/

/-- A pixel map with bank 0 only, and the settings of an SMS that does not map pixels. -/
def oneBankMap : PixelMap where
  table := []
  banks := []
  numBanks := 1
  numBanks_pos := by decide
  numBanks_le := by decide
  table_lt := by simp
  banks_lt := by simp

def unmappedSettings : EventSettings where
  neutronEventStateBits := 0
  neutronEventStateMask := 0
  neutronEventSortByState := false
  monitorTOFBits := 21
  monitorTOFMask := 0x1fffff
  chopperTOFBits := 21
  chopperTOFMask := 0x1fffff
  enablePixelMapping := false

/-- A packet of source 0 with one event. -/
def oneEventPkt : RawDataPkt where
  version := 0
  pulseId := 0
  fields := [0, 0, 0, 0, 0, 0, 0, 0]
  six_le := by decide

/-- What source 0 has after `n` of these packets: all events in bank 1. -/
def oneBankSource (n : Nat) : EventSource where
  intraPulseTime := 0
  tofField := 0
  activeBanks := if n = 0 then 0 else 1
  numStates := 1
  banksArr := [[], [], [], List.replicate n ⟨0, 0⟩]

/-- One more packet is one more event. -/
theorem file_oneEventPkt {p : Pulse} {n : Nat}
    (h : findSource oneBankMap 1 oneEventPkt 0 (takeTiming oneEventPkt 0 p) = oneBankSource n) :
    ∃ a, fileEvents unmappedSettings oneBankMap 0 1 10 oneEventPkt 0 false p = some a ∧
      a.pulse.pulseSources = p.pulseSources ∧ a.src = oneBankSource (n + 1) ∧
      hasStates a.pulse = hasStates p := by
  have hev : oneEventPkt.events = [⟨0, 0⟩] := rfl
  have htiming := takeTiming_keeps oneEventPkt 0 p
  have hcharge := takeCharge_keeps oneEventPkt (takeTiming oneEventPkt 0 p)
  have hslot : [[], [], [], List.replicate n (⟨0, 0⟩ : Event)][3 % Word32.modulus]? =
      some (List.replicate n ⟨0, 0⟩) := rfl
  simp only [fileEvents, h, hev, handleEvents, handleEvent]
  simp [fileBanked, placeDetector, growBanks, pushBanked, unmappedSettings, oneBankSource,
    maxBank, oneBankMap, bankIndex, bankStateIndex, Word32.add, Word32.mul,
    PixelMap.realBankOffset, Pulse.setFlag, Pulse.setFlagIf, htiming.pulseSources,
    hcharge.pulseSources, hslot]
  constructor
  · constructor
    · cases n with
      | zero => rfl
      | succ n => simp
    · show [[], [], [], List.replicate n _ ++ [_]] = _
      rw [← List.replicate_succ']
  · exact hcharge.states.trans htiming.states

/-- A pulse that has nothing but these events can take one more. -/
theorem assembled_oneEventPkt {p : Pulse} {log : List Filed} {n : Nat} {a : EventLoop}
    (h : Assembled oneBankMap p log) (hstates : hasStates p = false)
    (honly : ∀ src, (p.pulseSources.alter 0 fun _ => src).entries = [(0, src)])
    (hfile : fileEvents unmappedSettings oneBankMap 0 1 10 oneEventPkt 0 false p = some a)
    (hsources : a.pulse.pulseSources = p.pulseSources) (hsrc : a.src = oneBankSource n)
    (hflag : hasStates a.pulse = hasStates p) :
    Assembled oneBankMap (finishEvents oneEventPkt 0 false a)
        (log ++ filedEvents unmappedSettings oneBankMap false 0 oneEventPkt.events) ∧
      hasStates (finishEvents oneEventPkt 0 false a) = false ∧
      (finishEvents oneEventPkt 0 false a).pulseSources.entries = [(0, oneBankSource n)] := by
  obtain ⟨hmark, -, -, hmarkStates⟩ := markContents_same oneEventPkt false a
  refine ⟨h.file unmappedSettings 0 1 10 oneEventPkt 0 false false hfile, ?_, ?_⟩
  · show hasStates (markContents oneEventPkt false a) = false
    rw [hmarkStates, hflag, hstates]
  · rw [finishEvents, hmark, hsources, hsrc]
    exact honly _

/-- A pulse with `n + 1` events in one bank can be assembled, one packet at a time. -/
theorem exists_assembled (n : Nat) :
    ∃ p log, Assembled oneBankMap p log ∧ hasStates p = false ∧
      p.pulseSources.entries = [(0, oneBankSource (n + 1))] := by
  induction n with
  | zero =>
    obtain ⟨a, hfile, hsources, hsrc, hflag⟩ :=
      file_oneEventPkt (p := Pulse.new (.mk 0 0) ∅) (n := 0) rfl
    exact ⟨_, _, assembled_oneEventPkt (.new _ _) rfl (fun src => rfl) hfile hsources hsrc hflag⟩
  | succ n ih =>
    obtain ⟨p, log, hp, hstates, hentries⟩ := ih
    have hfind : (takeTiming oneEventPkt 0 p).pulseSources.find? 0 =
        some (oneBankSource (n + 1)) := by
      rw [(takeTiming_keeps oneEventPkt 0 p).pulseSources]
      simp [SortedMap.find?, hentries]
    have honly : ∀ src, (p.pulseSources.alter 0 fun _ => src).entries = [(0, src)] := by
      intro src
      simp [SortedMap.alter, hentries, SortedMap.alterList]
    obtain ⟨a, hfile, hsources, hsrc, hflag⟩ := file_oneEventPkt (p := p) (n := n + 1) (by
      rw [findSource, hfind, Option.getD_some])
    exact ⟨_, _, assembled_oneEventPkt hp hstates honly hfile hsources hsrc hflag⟩

/-- A pulse with one event is read back. -/
theorem banked_round_trip_one :
    ∃ a, fileEvents unmappedSettings oneBankMap 0 1 10 oneEventPkt 0 false
        (Pulse.new (.mk 0 0) ∅) = some a ∧
      ∃ words pkt, SMSControl.buildBankedPacket (maxBank oneBankMap) (fun _ => 0)
          (finishEvents oneEventPkt 0 false a) = some words ∧
        ofWords words = .ok pkt ∧ pkt.payloadLen + 16 = 4 * words.length ∧
        pkt.readEvents = some (filedOrder (finishEvents oneEventPkt 0 false a).pulseSources.keys
          (maxBank oneBankMap)
          ([] ++ filedEvents unmappedSettings oneBankMap false 0 oneEventPkt.events)) ∧
        (filedOrder (finishEvents oneEventPkt 0 false a).pulseSources.keys (maxBank oneBankMap)
          ([] ++ filedEvents unmappedSettings oneBankMap false 0 oneEventPkt.events)).Perm
          (([] ++ filedEvents unmappedSettings oneBankMap false 0 oneEventPkt.events).map
            fun f : Filed => (wireBank f.bank, f.event)) := by
  obtain ⟨a, hfile, hsources, hsrc, hflag⟩ :=
    file_oneEventPkt (p := Pulse.new (.mk 0 0) ∅) (n := 0) rfl
  obtain ⟨hp, hstates, hentries⟩ :=
    assembled_oneEventPkt (.new _ _) rfl (fun src => rfl) hfile hsources hsrc hflag
  have hfits : packetBytes (finishEvents oneEventPkt 0 false a) < Word32.modulus := by
    simp only [packetBytes, SortedMap.size, allFilled, allEvents, hentries]
    decide
  exact ⟨a, hfile, banked_round_trip (fun _ => 0) hp hstates hfits⟩

/-- The header has room for 32 bits only. -/
theorem packetBytes_lt_of_header {maxBank : Nat} {pulseEnergy : UInt32 → UInt32} {p : Pulse}
    {words : List UInt32} {pkt : BankedEventPkt} (hp : Counted p)
    (hbuild : SMSControl.buildBankedPacket maxBank pulseEnergy p = some words)
    (hpkt : ofWords words = .ok pkt) (hlen : pkt.payloadLen + 16 = 4 * words.length) :
    packetBytes p < Word32.modulus + 16 := by
  have hwords : words = packetWords maxBank pulseEnergy p := by
    rw [SMSControl.buildBankedPacket] at hbuild
    split at hbuild
    · cases hbuild
    · rw [sections_written hp] at hbuild
      exact (Option.some.inj hbuild).symm
  rw [hwords, length_packetWords] at hlen
  rw [← hlen]
  simp only [hwords, packetWords, SMSControl.bankedHeader, List.cons_append, ofWords] at hpkt
  split at hpkt
  · cases hpkt
  · have hpayload : pkt.payloadLen = (UInt32.ofNat (SMSControl.bankedPayloadLen p)).toNat := by
      rw [← Except.ok.inj hpkt]
    have hword := (UInt32.ofNat (SMSControl.bankedPayloadLen p)).toNat_lt
    simp only [Word32.modulus]
    omega

/-- With `2 ^ 29` events the packet is longer than its header says. -/
theorem not_header_of_many :
    ¬ ∀ (pm : PixelMap) (p : Pulse) (log : List Filed), Assembled pm p log → hasStates p = false →
      ∃ words pkt, SMSControl.buildBankedPacket (maxBank pm) (fun _ => 0) p = some words ∧
        ofWords words = .ok pkt ∧ pkt.payloadLen + 16 = 4 * words.length := by
  intro hall
  obtain ⟨p, log, hp, hstates, hentries⟩ := exists_assembled (2 ^ 29 - 1)
  obtain ⟨words, pkt, hbuild, hpkt, hlen⟩ := hall oneBankMap p log hp hstates
  have hlt := packetBytes_lt_of_header hp.counted hbuild hpkt hlen
  have hevents : allEvents p = 2 ^ 29 - 1 + 1 := by
    simp only [allEvents, hentries, oneBankSource, total, tally, List.map_cons, List.map_nil,
      List.sum_cons, List.sum_nil, List.length_nil, List.length_replicate, Nat.zero_add,
      Nat.add_zero]
  simp only [packetBytes, Word32.modulus] at hlt
  omega

end Adara.Spec.BankedEvent
