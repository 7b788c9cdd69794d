import Adara.Native.EventPackets
import Adara.Spec.BankedEvent
import Adara.Spec.MonitorEvents
import Mathlib.Data.Nat.Bitwise

/-! # Writing beam monitors and reading them back

The packet `buildMonitorPacket` writes has a section for every beam monitor of the pulse, and
as long as its length fits 32 bits both readers see these sections: a `BeamMonitorPkt` moved
by `nextSection` and `nextEvent`, and the loop of the translator (`monitor_round_trip`). -/

namespace Adara.Spec.MonitorPacket

open Adara.Native Adara.Native.BeamMonitorPkt
open Adara.Spec.BankedFormat (getElem?_of_drop drop_of_drop)

/-! ### Id and count in one word -/

section Word

variable {monId : UInt32} {mon : BeamMonitor}

theorem toNat_idCount (hid : monId.toNat ≤ 0xff) (hcount : mon.eventTof.length < 2 ^ 22) :
    (SMSControl.idCount monId mon).toNat = monId.toNat * 2 ^ 22 + mon.eventTof.length := by
  have hshift : monId.toNat <<< 22 < 2 ^ 32 := by
    rw [Nat.shiftLeft_eq]
    omega
  have hlen : (UInt32.ofNat mon.eventTof.length).toNat = mon.eventTof.length :=
    UInt32.toNat_ofNat_of_lt' (by simp only [UInt32.size]; omega)
  rw [SMSControl.idCount, UInt32.toNat_or, UInt32.toNat_shiftLeft, hlen]
  show monId.toNat <<< 22 % 2 ^ 32 ||| _ = _
  rw [Nat.mod_eq_of_lt hshift, ← Nat.shiftLeft_add_eq_or_of_lt hcount, Nat.shiftLeft_eq]

/-- The lower 22 bits are the count. -/
theorem count_idCount (hid : monId.toNat ≤ 0xff) (hcount : mon.eventTof.length < 2 ^ 22) :
    (SMSControl.idCount monId mon &&& eventCountMask).toNat = mon.eventTof.length := by
  rw [UInt32.toNat_and, toNat_idCount hid hcount]
  show (_ &&& 2 ^ 22 - 1) = _
  rw [Nat.and_two_pow_sub_one_eq_mod, Nat.mul_add_mod_self_right, Nat.mod_eq_of_lt hcount]

/-- The upper 10 bits are the id. -/
theorem id_idCount (hid : monId.toNat ≤ 0xff) (hcount : mon.eventTof.length < 2 ^ 22) :
    SMSControl.idCount monId mon >>> 22 = monId := by
  apply UInt32.toNat_inj.mp
  rw [UInt32.toNat_shiftRight, toNat_idCount hid hcount]
  show _ >>> 22 = _
  rw [Nat.shiftRight_eq_div_pow]
  omega

end Word

/-! ### Reading sections -/

/-- The word of an event, put together again. -/
def toRaw (ev : MonitorEvent) : UInt32 :=
  let cycle : UInt32 := ev.cycle <<< 21
  (if ev.risingEdge then 0x80000000 else 0) ||| cycle ||| ev.tof

theorem risingEdge_ofRaw (rawEvent : UInt32) :
    (MonitorEvent.ofRaw rawEvent).risingEdge = rawEvent.toNat.testBit 31 := by
  have hand : (rawEvent &&& 0x80000000).toNat = (rawEvent.toNat.testBit 31).toNat * 2 ^ 31 := by
    rw [UInt32.toNat_and]
    exact Nat.and_two_pow _ 31
  show (rawEvent &&& 0x80000000 != 0) = _
  cases hbit : rawEvent.toNat.testBit 31 with
  | false =>
    rw [hbit, Bool.toNat_false, Nat.zero_mul] at hand
    rw [UInt32.toNat_inj.mp (hand.trans UInt32.toNat_zero.symm)]
    rfl
  | true =>
    rw [hbit] at hand
    refine bne_iff_ne.mpr fun hzero => ?_
    rw [hzero] at hand
    contradiction

theorem toNat_cycle_ofRaw (rawEvent : UInt32) :
    (MonitorEvent.ofRaw rawEvent).cycle.toNat = rawEvent.toNat / 2 ^ 21 % 2 ^ 10 := by
  show ((rawEvent &&& 0x7fe00000) >>> 21).toNat = _
  rw [UInt32.toNat_shiftRight, UInt32.toNat_and]
  show (_ &&& 0x7fe00000) >>> 21 = _
  rw [Nat.shiftRight_and_distrib, Nat.shiftRight_eq_div_pow]
  exact Nat.and_two_pow_sub_one_eq_mod _ 10

theorem toNat_tof_ofRaw (rawEvent : UInt32) :
    (MonitorEvent.ofRaw rawEvent).tof.toNat = rawEvent.toNat % 2 ^ 21 := by
  show (rawEvent &&& 0x001fffff).toNat = _
  rw [UInt32.toNat_and]
  exact Nat.and_two_pow_sub_one_eq_mod _ 21

/-- Edge, cycle and time of flight are all of the word. -/
theorem toRaw_ofRaw (rawEvent : UInt32) : toRaw (.ofRaw rawEvent) = rawEvent := by
  have hlt := rawEvent.toNat_lt
  have hcycle : ((MonitorEvent.ofRaw rawEvent).cycle <<< 21).toNat =
      rawEvent.toNat / 2 ^ 21 % 2 ^ 10 * 2 ^ 21 := by
    rw [UInt32.toNat_shiftLeft, toNat_cycle_ofRaw]
    show _ <<< 21 % 2 ^ 32 = _
    rw [Nat.shiftLeft_eq, Nat.mod_eq_of_lt (by omega)]
  have hlow : rawEvent.toNat / 2 ^ 21 % 2 ^ 10 * 2 ^ 21 ||| rawEvent.toNat % 2 ^ 21 =
      rawEvent.toNat % 2 ^ 31 := by
    rw [← Nat.shiftLeft_eq, ← Nat.shiftLeft_add_eq_or_of_lt (by omega), Nat.shiftLeft_eq]
    omega
  apply UInt32.toNat_inj.mp
  rw [toRaw, UInt32.toNat_or, UInt32.toNat_or, hcycle, toNat_tof_ofRaw, Nat.or_assoc, hlow,
    risingEdge_ofRaw, Nat.testBit_eq_decide_div_mod_eq]
  by_cases hedge : rawEvent.toNat / 2 ^ 31 % 2 = 1
  · -- the edge is the highest bit
    rw [if_pos (decide_eq_true hedge)]
    show 1 * 2 ^ 31 ||| _ = _
    rw [← Nat.shiftLeft_eq, ← Nat.shiftLeft_add_eq_or_of_lt (by omega)]
    omega
  · rw [if_neg (by simpa using hedge), UInt32.toNat_zero, Nat.zero_or]
    omega

/-- What reading the section of a beam monitor gives. -/
def reading (monId : UInt32) (mon : BeamMonitor) : MonitorReading where
  monitorID := monId
  sourceID := mon.sourceId
  tofOffset := mon.tofField &&& 0x7fffffff
  tofCorrected := mon.tofField &&& 0x80000000 != 0
  events := mon.eventTof.map .ofRaw

/-- The words of some sections. -/
def sectionWords (es : List (UInt32 × BeamMonitor)) : List UInt32 :=
  es.flatMap fun e => SMSControl.monitorWords e.1 e.2

/-- A section that id and count fit. -/
def FitsWord (e : UInt32 × BeamMonitor) : Prop :=
  e.1.toNat ≤ 0xff ∧ e.2.eventTof.length < 2 ^ 22

section Read

variable {pkt : BeamMonitorPkt} {k : Nat} {e : UInt32 × BeamMonitor} {rest : List UInt32}

/-- A packet with all of its payload, whose positions fit 32 bits. -/
structure Complete (pkt : BeamMonitorPkt) : Prop where
  length_eq : pkt.payloadLen = 4 * pkt.fields.length
  fits : pkt.payloadLen < Word32.modulus

/-- The events of a section from one of them on. -/
theorem eventsFrom_eq (hpkt : Complete pkt) (he : FitsWord e) (hk : k ≠ 0)
    (hdrop : pkt.fields.drop k = SMSControl.monitorWords e.1 e.2 ++ rest) {j fuel : Nat}
    (hj : j ≤ e.2.eventTof.length) (hfuel : e.2.eventTof.length - j < fuel) :
    eventsFrom pkt fuel ⟨k, j⟩ =
      some ((e.2.eventTof.drop j).map .ofRaw, ⟨k, e.2.eventTof.length⟩) := by
  have hmod : Word32.modulus = 2 ^ 32 := rfl
  have hfield : pkt.fields[k]? = some (SMSControl.idCount e.1 e.2) :=
    getElem?_of_drop (k := 0) hdrop rfl
  have hbound : k + 3 + e.2.eventTof.length ≤ pkt.fields.length := by
    have hlen := congrArg List.length hdrop
    simp only [List.length_drop, List.length_append, SMSControl.monitorWords, List.length_cons,
      List.length_nil] at hlen
    omega
  have hfits := hpkt.fits
  rw [hpkt.length_eq] at hfits
  induction fuel generalizing j with
  | zero => omega
  | succ fuel ih =>
    rw [eventsFrom, nextEvent, if_neg hk, hfield]
    simp only [Option.bind_eq_bind, Option.bind_some, count_idCount he.1 he.2]
    by_cases hlt : j < e.2.eventTof.length
    · have hevent : pkt.fields[k + (3 + j)]? = some e.2.eventTof[j] := by
        apply getElem?_of_drop hdrop
        rw [SMSControl.monitorWords, List.getElem?_append_right (by simp)]
        simp [hlt]
      rw [if_pos hlt, Word32.add_of_lt (a := k) (by omega), Word32.add_of_lt (by omega),
        Nat.add_assoc, hevent]
      simp only [Option.bind_some]
      rw [Word32.add_of_lt (by omega), ih (by omega) (by omega), List.drop_eq_getElem_cons hlt]
      rfl
    · have hend : j = e.2.eventTof.length := by omega
      rw [if_neg hlt, hend, List.drop_length]
      rfl

/-- The section at a position. -/
theorem readSection_eq (hpkt : Complete pkt) (he : FitsWord e) (hk : k ≠ 0)
    (hdrop : pkt.fields.drop k = SMSControl.monitorWords e.1 e.2 ++ rest) :
    readSection pkt ⟨k, 0⟩ = some (reading e.1 e.2, ⟨k, e.2.eventTof.length⟩) := by
  have hmod : Word32.modulus = 2 ^ 32 := rfl
  have hfits := hpkt.fits
  rw [hpkt.length_eq] at hfits
  have hlen := congrArg List.length hdrop
  simp only [List.length_drop, List.length_append, SMSControl.monitorWords, List.length_cons,
    List.length_nil] at hlen
  have hfield : pkt.fields[k]? = some (SMSControl.idCount e.1 e.2) :=
    getElem?_of_drop (k := 0) hdrop rfl
  have hsource : pkt.fields[k + 1]? = some e.2.sourceId := getElem?_of_drop hdrop rfl
  have htof : pkt.fields[k + 2]? = some e.2.tofField := getElem?_of_drop hdrop rfl
  have hevents := eventsFrom_eq hpkt he hk hdrop (Nat.zero_le _)
    (show e.2.eventTof.length - 0 < pkt.fields.length + 1 by omega)
  rw [readSection]
  simp only [hfield, Word32.add_of_lt (show k + 1 < Word32.modulus by omega),
    Word32.add_of_lt (show k + 2 < Word32.modulus by omega), hsource, htof, hevents,
    Option.bind_eq_bind, Option.bind_some, id_idCount he.1 he.2, List.drop_zero]
  rfl

/-- The cursor that `nextSection` moves to a position. -/
def NextAt (pkt : BeamMonitorPkt) (c : MonitorCursor) (k : Nat) : Prop :=
  nextSection pkt c =
    some (if Word32.mul k 4 < pkt.payloadLen then (true, ⟨k, 0⟩) else (false, c))

/-- Behind a section that has been read comes the next. -/
theorem nextAt_section (hpkt : Complete pkt) (he : FitsWord e) (hk : k ≠ 0)
    (hdrop : pkt.fields.drop k = SMSControl.monitorWords e.1 e.2 ++ rest) (j : Nat) :
    NextAt pkt ⟨k, j⟩ (k + (SMSControl.monitorWords e.1 e.2).length) := by
  have hmod : Word32.modulus = 2 ^ 32 := rfl
  have hfits := hpkt.fits
  rw [hpkt.length_eq] at hfits
  have hlen := congrArg List.length hdrop
  simp only [List.length_drop, List.length_append, SMSControl.monitorWords, List.length_cons,
    List.length_nil] at hlen
  have hfield : pkt.fields[k]? = some (SMSControl.idCount e.1 e.2) :=
    getElem?_of_drop (k := 0) hdrop rfl
  have hnext : k + (SMSControl.monitorWords e.1 e.2).length = k + 3 + e.2.eventTof.length := by
    simp only [SMSControl.monitorWords, List.length_append, List.length_cons, List.length_nil]
    omega
  rw [NextAt, nextSection, if_neg hk, hfield, hnext]
  simp only [Option.bind_eq_bind, Option.map_some, Option.bind_some, count_idCount he.1 he.2]
  rw [Word32.add_of_lt (a := k) (by omega), Word32.add_of_lt (by omega)]
  split <;> rfl

/-- All sections from a position on. -/
theorem sectionsFrom_eq (hpkt : Complete pkt) {es : List (UInt32 × BeamMonitor)}
    (hes : ∀ e ∈ es, FitsWord e) {c : MonitorCursor} (hk : k ≠ 0) (hc : NextAt pkt c k)
    (hle : k ≤ pkt.fields.length) (hdrop : pkt.fields.drop k = sectionWords es) {fuel : Nat}
    (hfuel : es.length < fuel) :
    sectionsFrom pkt fuel c = some (es.map fun e => reading e.1 e.2) := by
  have hmod : Word32.modulus = 2 ^ 32 := rfl
  have hfits := hpkt.fits
  rw [hpkt.length_eq] at hfits
  induction es generalizing k c fuel with
  | nil =>
    -- the payload ends here
    cases fuel with
    | zero => omega
    | succ fuel =>
      have hend : k = pkt.fields.length := by
        have hlen := congrArg List.length hdrop
        simp only [List.length_drop, sectionWords, List.flatMap_nil, List.length_nil] at hlen
        omega
      rw [NextAt, Word32.mul_of_lt (by omega), hpkt.length_eq, if_neg (by omega)] at hc
      rw [sectionsFrom, hc]
      rfl
  | cons e es ih =>
    cases fuel with
    | zero => omega
    | succ fuel =>
      obtain ⟨he, hrest⟩ := List.forall_mem_cons.mp hes
      have hdrop' : pkt.fields.drop k = SMSControl.monitorWords e.1 e.2 ++ sectionWords es := by
        rw [hdrop, sectionWords, List.flatMap_cons]
        rfl
      have hlen := congrArg List.length hdrop'
      simp only [List.length_drop, List.length_append] at hlen
      have hthree : 3 ≤ (SMSControl.monitorWords e.1 e.2).length := by
        simp [SMSControl.monitorWords]
      rw [NextAt, Word32.mul_of_lt (by omega), hpkt.length_eq, if_pos (by omega)] at hc
      rw [sectionsFrom, hc, Option.bind_some]
      simp only [readSection_eq hpkt he hk hdrop', Option.bind_some]
      rw [ih hrest (by omega) (nextAt_section hpkt he hk hdrop' _) (by omega)
        (drop_of_drop hdrop' rfl) (by rw [List.length_cons] at hfuel; omega)]
      rfl

/-- The translator finds the same sections. -/
theorem monitorsOf_eq {es : List (UInt32 × BeamMonitor)} (hes : ∀ e ∈ es, FitsWord e)
    {fuel : Nat} (hfuel : es.length ≤ fuel) :
    (MonitorEvents.monitorsOf fuel (sectionWords es)).map (fun monitor =>
        (monitor.monitorId, monitor.eventCount, monitor.events)) =
      es.map fun e => (e.1.toNat, e.2.eventTof.length, some e.2.eventTof) := by
  induction es generalizing fuel with
  | nil => cases fuel <;> rfl
  | cons e es ih =>
    cases fuel with
    | zero => simp at hfuel
    | succ fuel =>
      obtain ⟨he, hrest⟩ := List.forall_mem_cons.mp hes
      have hwords : sectionWords (e :: es) = SMSControl.idCount e.1 e.2 ::
          ([e.2.sourceId, e.2.tofField] ++ (e.2.eventTof ++ sectionWords es)) := by
        simp [sectionWords, SMSControl.monitorWords]
      have hheader : MonitorSection.ofHeader (SMSControl.idCount e.1 e.2)
          ([e.2.sourceId, e.2.tofField] ++ (e.2.eventTof ++ sectionWords es)) =
          ⟨e.1.toNat, e.2.eventTof.length, e.2.eventTof ++ sectionWords es⟩ := by
        rw [MonitorSection.ofHeader, id_idCount he.1 he.2]
        congr 1
        exact count_idCount he.1 he.2
      rw [hwords, MonitorEvents.monitorsOf, hheader]
      simp only [List.map_cons, List.drop_left]
      rw [ih hrest (by rw [List.length_cons] at hfuel; omega)]
      congr 1
      simp only [MonitorSection.events, List.length_append, Nat.le_add_right, if_true,
        List.take_left]

end Read

/-! ### The monitors of a pulse -/

/-- The monitors of a pulse as `pulseEvents` fills them: each event of a monitor is added and
    counted.  A monitor may have no events. -/
inductive Filled : Pulse → Prop
  | new {p : Pulse} (hids : ∀ k ∈ p.monitors.keys, k.toNat ≤ 0xff)
      (hempty : ∀ e ∈ p.monitors.entries, e.2.eventTof = []) (hcount : p.numMonEvents = 0) :
      Filled p
  | event {p : Pulse} (h : Filled p) (s : EventSettings) (pkt : RawDataPkt) (pixel tof : UInt32) :
      Filled
        { addMonitorEvent s pkt p pixel tof with numMonEvents := p.numMonEvents + 1 }
  | other {p p' : Pulse} (h : Filled p) (hmonitors : p'.monitors = p.monitors)
      (hcount : p'.numMonEvents = p.numMonEvents) : Filled p'

/-- The number of events all monitors have. -/
def totalEvents (p : Pulse) : Nat := (p.monitors.entries.map fun e => e.2.eventTof.length).sum

/-- The id in a pixel id has eight bits. -/
theorem monId_le (pixel : UInt32) : ((pixel >>> 16) &&& 0xff).toNat ≤ 0xff := by
  rw [UInt32.toNat_and]
  exact Nat.and_le_right

theorem Filled.ids {p : Pulse} (h : Filled p) : ∀ k ∈ p.monitors.keys, k.toNat ≤ 0xff := by
  induction h with
  | new hids => exact hids
  | event h s pkt pixel tof ih =>
    intro k hk
    rcases SortedMap.mem_keys_alter.mp hk with rfl | hk
    · exact monId_le pixel
    · exact ih k hk
  | other h hmonitors hcount ih => exact hmonitors ▸ ih

/-- `m_numMonEvents` counts the events of all monitors. -/
theorem Filled.numMonEvents_eq {p : Pulse} (h : Filled p) :
    p.numMonEvents = UInt32.ofNat (totalEvents p) := by
  induction h with
  | @new p hids hempty hcount =>
    have hzero : totalEvents p = 0 :=
      List.sum_eq_zero fun n hn => by
        obtain ⟨e, he, rfl⟩ := List.mem_map.mp hn
        rw [hempty e he]
        rfl
    rw [hcount, hzero]
    rfl
  | @event p h s pkt pixel tof ih =>
    -- only the list of one monitor grows, by an event
    obtain ⟨others, hsum, halter⟩ := SortedMap.sum_alter p.monitors ((pixel >>> 16) &&& 0xff)
      fun mon => mon.eventTof.length
    have hnext : totalEvents { addMonitorEvent s pkt p pixel tof with
        numMonEvents := p.numMonEvents + 1 } = totalEvents p + 1 := by
      have hconst := SortedMap.alter_eq_const p.monitors ((pixel >>> 16) &&& 0xff) fun mon =>
        let mon := mon.getD ⟨pkt.sourceID, pkt.tofField, []⟩
        { mon with eventTof := mon.eventTof ++
          [(tof &&& s.monitorTOFMask) ||| ((pixel &&& 1) <<< 31)] }
      rw [totalEvents, totalEvents, hsum]
      show (List.map _ (SortedMap.alter _ _ _).entries).sum = _
      rw [hconst, halter]
      cases p.monitors.find? ((pixel >>> 16) &&& 0xff) with
      | none => rfl
      | some mon => simp [Nat.add_assoc]
    rw [hnext, UInt32.ofNat_add, ← ih]
    rfl
  | other h hmonitors hcount ih => rw [hcount, ih, totalEvents, totalEvents, hmonitors]

/-! ### The packet -/

/-- The bytes of the packet, its header included. -/
def packetBytes (p : Pulse) : Nat := 4 * (8 + 3 * p.monitors.size + totalEvents p)

section Packet

variable {p : Pulse}

theorem length_sectionWords (es : List (UInt32 × BeamMonitor)) :
    (sectionWords es).length =
      3 * es.length + (es.map fun e => e.2.eventTof.length).sum := by
  induction es with
  | nil => rfl
  | cons e es ih =>
    have hlen : (sectionWords (e :: es)).length =
        (SMSControl.monitorWords e.1 e.2).length + (sectionWords es).length := by
      rw [← List.length_append]
      rfl
    rw [hlen, ih, SMSControl.monitorWords]
    simp only [List.length_append, List.length_cons, List.length_nil, List.map_cons,
      List.sum_cons]
    omega

theorem toNat_numMonEvents (h : Filled p) (hfits : packetBytes p < Word32.modulus) :
    p.numMonEvents.toNat = totalEvents p := by
  have hmod : Word32.modulus = 2 ^ 32 := rfl
  rw [packetBytes] at hfits
  rw [h.numMonEvents_eq]
  exact UInt32.toNat_ofNat_of_lt' (by simp only [UInt32.size]; omega)

theorem reservedMonitorHdrs_eq (hfits : packetBytes p < Word32.modulus) :
    SMSControl.reservedMonitorHdrs p = 8 + 3 * p.monitors.size := by
  rw [packetBytes] at hfits
  rw [SMSControl.reservedMonitorHdrs, Nat.mul_comm, Word32.add_of_lt (by omega)]

/-- The length in the header is that of the words behind it. -/
theorem monitorPayloadLen_eq (h : Filled p) (hfits : packetBytes p < Word32.modulus) :
    SMSControl.monitorPayloadLen p = packetBytes p - 16 := by
  rw [SMSControl.monitorPayloadLen, reservedMonitorHdrs_eq hfits, toNat_numMonEvents h hfits]
  rw [packetBytes] at hfits ⊢
  rw [Word32.add_of_lt (by omega), Word32.mul_of_lt (by omega), Word32.sub_of_le (by omega)
    (by omega)]
  omega

/-- The words in front of the sections. -/
def pulseWords (pulseEnergy : UInt32 → UInt32) (p : Pulse) : List UInt32 :=
  [if p.hasFlag PulseFlags.gotNeutrons then p.charge else 0,
    pulseEnergy p.ringPeriod, p.cycle, SMSControl.flagsWord p]

/-- The packet written, as its reader sees it. -/
def packetOf (pulseEnergy : UInt32 → UInt32) (p : Pulse) : BeamMonitorPkt where
  payloadLen := packetBytes p - 16
  fields := pulseWords pulseEnergy p ++ sectionWords p.monitors.entries

theorem complete_packetOf (pulseEnergy : UInt32 → UInt32)
    (hfits : packetBytes p < Word32.modulus) : Complete (packetOf pulseEnergy p) where
  length_eq := by
    show packetBytes p - 16 = 4 * (pulseWords pulseEnergy p ++ _).length
    rw [List.length_append, length_sectionWords, packetBytes, SortedMap.size, totalEvents]
    simp only [pulseWords, List.length_cons, List.length_nil]
    omega
  fits := by
    show packetBytes p - 16 < _
    omega

theorem ofWords_build (pulseEnergy : UInt32 → UInt32) (h : Filled p)
    (hfits : packetBytes p < Word32.modulus) :
    ∃ words, SMSControl.buildMonitorPacket pulseEnergy p = some words ∧
      4 * words.length = packetBytes p ∧
      ofWords words = .ok (packetOf pulseEnergy p) := by
  have hlen : (UInt32.ofNat (SMSControl.monitorPayloadLen p)).toNat = packetBytes p - 16 := by
    rw [monitorPayloadLen_eq h hfits]
    exact UInt32.toNat_ofNat_of_lt' (Nat.lt_of_le_of_lt (Nat.sub_le _ _) hfits)
  refine ⟨SMSControl.monitorHeader pulseEnergy p ++ sectionWords p.monitors.entries, ?_, ?_, ?_⟩
  · rw [SMSControl.buildMonitorPacket, reservedMonitorHdrs_eq hfits, if_neg (Nat.lt_irrefl _)]
    rfl
  · rw [List.length_append, length_sectionWords, packetBytes, SortedMap.size, totalEvents]
    simp only [SMSControl.monitorHeader, List.length_cons, List.length_nil]
    omega
  · simp only [SMSControl.monitorHeader, List.cons_append, ofWords]
    rw [hlen, if_neg (by rw [packetBytes]; omega)]
    rfl

end Packet

/-! ### A pulse with too many events -/

/-- Reading events stays in the section. -/
theorem eventsFrom_sectionStartIndex {pkt : BeamMonitorPkt} {fuel : Nat} {c c' : MonitorCursor}
    {events : List MonitorEvent} (h : eventsFrom pkt fuel c = some (events, c')) :
    c'.sectionStartIndex = c.sectionStartIndex := by
  induction fuel generalizing c events with
  | zero => cases h
  | succ fuel ih =>
    rw [eventsFrom, nextEvent] at h
    by_cases hstart : c.sectionStartIndex = 0
    · rw [if_pos hstart] at h
      cases h
      rfl
    · rw [if_neg hstart] at h
      cases hfield : pkt.fields[c.sectionStartIndex]? with
      | none =>
        rw [hfield] at h
        cases h
      | some field =>
        simp only [hfield, Option.bind_eq_bind, Option.bind_some] at h
        split at h
        · cases hevent : pkt.fields[Word32.add (Word32.add c.sectionStartIndex 3) c.eventNum]? with
          | none =>
            rw [hevent] at h
            cases h
          | some rawEvent =>
            simp only [hevent, Option.bind_some, Option.map_eq_some_iff, Prod.mk.injEq] at h
            obtain ⟨_, hrest, -, rfl⟩ := h
            have hsame := ih hrest
            exact hsame
        · cases h
          rfl

/-- A payload length that ends in the first section hides all others. -/
theorem length_readSections_le {pkt : BeamMonitorPkt} {sections : List MonitorReading}
    (h : readSections pkt = some sections) {field : UInt32} (hfield : pkt.fields[4]? = some field)
    (hshort : pkt.payloadLen ≤ Word32.mul (Word32.add 7 (field &&& eventCountMask).toNat) 4) :
    sections.length ≤ 1 := by
  rw [readSections, sectionsFrom, nextSection, if_pos rfl] at h
  simp only [Option.bind_eq_bind, Option.bind_some] at h
  split at h
  · rw [Option.bind_some] at h
    dsimp only at h
    cases hread : readSection pkt ⟨4, 0⟩ with
    | none =>
      rw [hread] at h
      cases h
    | some result =>
      obtain ⟨reading, c⟩ := result
      have hc : c.sectionStartIndex = 4 := by
        rw [readSection] at hread
        simp only [Option.bind_eq_bind, Option.bind_eq_some_iff, Option.some.injEq,
          Prod.mk.injEq] at hread
        obtain ⟨_, _, _, _, _, _, ⟨_, c'⟩, hevents, -, rfl⟩ := hread
        exact eventsFrom_sectionStartIndex hevents
      rw [hread] at h
      simp only [Option.bind_some] at h
      -- the second section would start behind the payload
      have hnext : nextSection pkt c = some (false, c) := by
        rw [nextSection, hc, if_neg (Nat.succ_ne_zero 3), hfield]
        simp only [Option.bind_eq_bind, Option.map_some, Option.bind_some]
        exact if_neg (by simpa [Word32.add] using Nat.not_lt.mpr hshort)
      cases hfuel : pkt.fields.length with
      | zero =>
        rw [List.eq_nil_of_length_eq_zero hfuel] at hfield
        cases hfield
      | succ fuel =>
        rw [hfuel, sectionsFrom, hnext, Option.bind_some] at h
        cases h
        exact Nat.le_refl 1
  · cases h
    exact Nat.zero_le 1

/-- All 256 monitors, without events. -/
def allMonitors : SortedMap UInt32 BeamMonitor where
  entries := (List.range 256).map fun i => (UInt32.ofNat i, ⟨0, 0, []⟩)
  sorted := by
    rw [List.pairwise_map]
    refine List.pairwise_lt_range.imp_of_mem fun {i j} hi hj hlt => ?_
    have hi' := List.mem_range.mp hi
    have hj' := List.mem_range.mp hj
    rw [UInt32.lt_iff_toNat_lt, UInt32.toNat_ofNat_of_lt' (by simp only [UInt32.size]; omega),
      UInt32.toNat_ofNat_of_lt' (by simp only [UInt32.size]; omega)]
    exact hlt

/-- A pixel id has the id of its monitor in bits 16 to 23. -/
theorem monId_pixel {k : UInt32} (hk : k.toNat ≤ 0xff) :
    ((k <<< 16 : UInt32) >>> 16) &&& 0xff = k := by
  apply UInt32.toNat_inj.mp
  rw [UInt32.toNat_and, UInt32.toNat_shiftRight, UInt32.toNat_shiftLeft]
  show (k.toNat <<< 16 % 2 ^ 32) >>> 16 &&& 2 ^ 8 - 1 = _
  rw [Nat.and_two_pow_sub_one_eq_mod, Nat.shiftLeft_eq, Nat.shiftRight_eq_div_pow]
  omega

/-- A monitor of the pulse can be given `n` more events. -/
theorem Filled.exists_more {p : Pulse} (h : Filled p) {k : UInt32} (hk : k ∈ p.monitors.keys)
    (n : Nat) :
    ∃ p', Filled p' ∧ (∀ k', k' ∈ p'.monitors.keys ↔ k' ∈ p.monitors.keys) ∧
      ∀ k', (p'.monitors.find? k').map (fun mon => mon.eventTof.length) =
        (p.monitors.find? k').map fun mon => mon.eventTof.length + if k' = k then n else 0 := by
  induction n with
  | zero => exact ⟨p, h, fun _ => Iff.rfl, fun k' => by simp⟩
  | succ n ih =>
    obtain ⟨p', h', hkeys, hlengths⟩ := ih
    have hkey : k ∈ p'.monitors.keys := (hkeys k).mpr hk
    obtain ⟨mon, hmon⟩ := Option.ne_none_iff_exists'.mp
      (mt SortedMap.find?_eq_none.mp (not_not.mpr hkey))
    refine ⟨_, h'.event BankedEvent.unmappedSettings BankedEvent.oneEventPkt (k <<< 16) 0,
      fun k' => ?_, fun k' => ?_⟩
    · show k' ∈ (SortedMap.alter _ _ _).keys ↔ _
      rw [SortedMap.mem_keys_alter, monId_pixel (h.ids k hk), hkeys]
      exact or_iff_right_of_imp fun heq => heq ▸ hk
    · show ((SortedMap.alter _ _ _).find? k').map _ = _
      rw [SortedMap.find?_alter, monId_pixel (h.ids k hk)]
      have hlen := hlengths k'
      by_cases heq : k' = k
      · rw [heq] at hlen ⊢
        rw [hmon] at hlen ⊢
        cases hold : p.monitors.find? k with
        | none =>
          rw [hold] at hlen
          cases hlen
        | some old =>
          rw [hold] at hlen
          simp only [Option.map_some, if_true, Option.some.injEq] at hlen
          simp only [Option.map_some, Option.getD_some, List.length_append, List.length_singleton,
            if_true, hlen, Nat.add_assoc]
      · simpa [heq] using hlen

/-- Some monitors with `n` events each, and the others with none. -/
theorem exists_filled (n : Nat) {ids : List UInt32} (hids : ∀ k ∈ ids, k ∈ allMonitors.keys)
    (hnodup : ids.Nodup) :
    ∃ p, Filled p ∧ (∀ k, k ∈ p.monitors.keys ↔ k ∈ allMonitors.keys) ∧
      ∀ k mon, p.monitors.find? k = some mon →
        mon.eventTof.length = if k ∈ ids then n else 0 := by
  induction ids with
  | nil =>
    refine ⟨{ Pulse.new (.mk 0 0) ∅ with monitors := allMonitors },
      .new (fun k hk => ?_) (fun e he => ?_) rfl, fun _ => Iff.rfl, fun k mon hmon => ?_⟩
    · simp only [SortedMap.keys, allMonitors, List.map_map, List.mem_map, List.mem_range] at hk
      obtain ⟨i, hi, rfl⟩ := hk
      rw [Function.comp_apply, UInt32.toNat_ofNat_of_lt' (by simp only [UInt32.size]; omega)]
      omega
    · simp only [allMonitors, List.mem_map] at he
      obtain ⟨_, _, rfl⟩ := he
      rfl
    · have he := SortedMap.find?_eq_some.mp hmon
      simp only [allMonitors, List.mem_map] at he
      obtain ⟨_, _, heq⟩ := he
      rw [← (Prod.mk.inj heq).2]
      rfl
  | cons k ids ih =>
    obtain ⟨hk, hrest⟩ := List.forall_mem_cons.mp hids
    obtain ⟨hnew, hnodup⟩ := List.nodup_cons.mp hnodup
    obtain ⟨p, h, hkeys, hlengths⟩ := ih hrest hnodup
    obtain ⟨p', h', hkeys', hlengths'⟩ := h.exists_more ((hkeys k).mpr hk) n
    refine ⟨p', h', fun k' => (hkeys' k').trans (hkeys k'), fun k' mon hmon => ?_⟩
    have hlen := hlengths' k'
    rw [hmon] at hlen
    obtain ⟨old, hold, hsum⟩ := Option.map_eq_some_iff.mp hlen.symm
    refine hsum.symm.trans ?_
    rw [hlengths k' old hold]
    by_cases heq : k' = k
    · simp [heq, hnew]
    · simp [heq]

end Adara.Spec.MonitorPacket
