import Adara.Native.FastMeta
import Adara.Spec.BankedFormat
import Adara.Spec.MultVariable
import Adara.Spec.StreamReader

/-! # Both ways to send fast metadata say the same

The values the translator reads from the one packet of `sendMultUpdate` are those it reads
from the packets of `sendUpdate`, event by event: the carry of nanoseconds is done once by the
sender with 32-bit seconds, and once by the reader with 64-bit ones.  So they part only in the
last second the 32-bit seconds of the reader can tell. -/

namespace Adara.Spec.FastMeta

open Adara.Native Adara.Native.FastMeta Adara.Native.ValueUpdate

variable {s : FastMeta} {pulseId : UInt64} {events : List Event} {ev : Event}
  {behind : Nat → UInt32} {key : UInt32}

/-! ### Times -/

theorem toNat_tofNanos (tof : UInt32) :
    (tofNanos tof).toNat = tof.toNat % 2 ^ 21 * 100 := by
  have hmask : (tof &&& 0x1fffff).toNat = tof.toNat % 2 ^ 21 := by
    rw [UInt32.toNat_and]
    exact Nat.and_two_pow_sub_one_eq_mod _ 21
  have hlt : tof.toNat % 2 ^ 21 < 2 ^ 21 := Nat.mod_lt _ (by decide)
  rw [tofNanos, UInt32.toNat_mul, hmask]
  exact Nat.mod_eq_of_lt (by simp only [UInt32.reduceToNat]; omega)

theorem tofNanos_lt (tof : UInt32) : (tofNanos tof).toNat < 209715200 := by
  rw [toNat_tofNanos]
  omega

/-- The seconds of the packet time, moved to the Unix epoch as the reader does. -/
def unixSeconds (pulseId : UInt64) : Nat :=
  Word32.add (pulseId >>> 32).toUInt32.toNat epicsEpochOffset

/-- The nanoseconds of an event in the second of its pulse, or after it. -/
def eventNanos (pulseId : UInt64) (ev : Event) : Nat :=
  pulseId.toUInt32.toNat + (tofNanos ev.tof).toNat

/-- The second of an event is one that 32 bits can tell. -/
def InRange (pulseId : UInt64) (ev : Event) : Prop :=
  unixSeconds pulseId + eventNanos pulseId ev / 1000000000 < Word32.modulus

instance (pulseId : UInt64) (ev : Event) : Decidable (InRange pulseId ev) :=
  inferInstanceAs (Decidable (_ < _))

/-- The time of an event, in nanoseconds. -/
def absoluteNanos (pulseId : UInt64) (ev : Event) : Nat :=
  timespecToNsec
    (unixSeconds pulseId + eventNanos pulseId ev / 1000000000, eventNanos pulseId ev % 1000000000)

/-- There is at most one second to carry: the nanoseconds of a pulse are less than a second,
    and so is a time of flight. -/
theorem carryWord_spec (sec : UInt32) (tof : UInt32) {lo : UInt32} (hlo : lo.toNat < 1000000000) :
    (carryWord 4 sec (tofNanos tof + lo)).1.toNat =
        Word32.add sec.toNat ((lo.toNat + (tofNanos tof).toNat) / 1000000000) ∧
      (carryWord 4 sec (tofNanos tof + lo)).2.toNat =
        (lo.toNat + (tofNanos tof).toNat) % 1000000000 := by
  have htof := tofNanos_lt tof
  have hsum : (tofNanos tof + lo).toNat = lo.toNat + (tofNanos tof).toNat := by
    rw [UInt32.toNat_add, Nat.mod_eq_of_lt (by omega), Nat.add_comm]
  have hsec := sec.toNat_lt
  by_cases hcarry : 1000000000 ≤ tofNanos tof + lo
  · have hle : 1000000000 ≤ lo.toNat + (tofNanos tof).toNat := by
      rw [UInt32.le_iff_toNat_le, hsum] at hcarry
      exact hcarry
    have hrest : (tofNanos tof + lo - 1000000000).toNat =
        lo.toNat + (tofNanos tof).toNat - 1000000000 := by
      rw [UInt32.toNat_sub_of_le _ _ hcarry, hsum]
      rfl
    -- one second less leaves less than a second
    have hdone : ¬ 1000000000 ≤ tofNanos tof + lo - 1000000000 := by
      rw [UInt32.le_iff_toNat_le, hrest, not_le]
      simp only [UInt32.reduceToNat]
      omega
    rw [carryWord, if_pos hcarry, carryWord, if_neg hdone, hrest, UInt32.toNat_add]
    constructor
    · rw [Nat.div_eq_of_lt_le (k := 1) (by omega) (by omega)]
      rfl
    · omega
  · have hlt : lo.toNat + (tofNanos tof).toNat < 1000000000 := by
      rw [UInt32.le_iff_toNat_le, hsum, not_le] at hcarry
      exact hcarry
    rw [carryWord, if_neg hcarry, hsum, Nat.div_eq_of_lt hlt, Nat.mod_eq_of_lt hlt]
    exact ⟨(Nat.mod_eq_of_lt hsec).symm, rfl⟩

/-- Both carries reach the same time: the sender's wraps around where the reader's does not
    only when the second is out of range. -/
theorem add_add_epoch {hi : UInt32} {k : Nat}
    (h : Word32.add hi.toNat epicsEpochOffset + k < Word32.modulus) :
    Word32.add (Word32.add hi.toNat k) epicsEpochOffset =
      Word32.add hi.toNat epicsEpochOffset + k := by
  rw [← Nat.mod_eq_of_lt h]
  simp only [Word32.add, Nat.mod_add_mod, Nat.add_right_comm]

/-! ### Reading one packet -/

/-- What the translator is to get of an event. -/
def updateOf (s : FastMeta) (pulseId : UInt64) (key : UInt32) (ev : Event) : ValueUpdate where
  devId := (s.varAt key).devId
  varId := (s.varAt key).varId
  nanos := absoluteNanos pulseId ev
  val := pixelValue ev.pixel

section Payload

variable {len type sec ns : UInt32} {fields : List UInt32}

/-- The payload is what follows the header, if the header has its length. -/
theorem words_payloadOf (h : fields.length = len.toNat / 4) :
    (payloadOf (len :: type :: sec :: ns :: fields) behind).words = fields := by
  rw [payloadOf]
  exact List.take_of_length_le (Nat.le_of_eq h)

theorem rxPacket_variableU32 :
    rxPacket behind (len :: varValueU32Type :: sec :: ns :: fields) =
      rxVariableU32 (len :: varValueU32Type :: sec :: ns :: fields) behind := by
  have htype : adaraBasePktType varValueU32Type.toNat = 0x8001 := by decide
  simp only [rxPacket, List.getD_cons_succ, List.getD_cons_zero, htype, if_true]

theorem rxPacket_multVariableU32 :
    rxPacket behind (len :: multVarValueU32Type :: sec :: ns :: fields) =
      rxMultVariableU32 (len :: multVarValueU32Type :: sec :: ns :: fields) behind := by
  have htype : adaraBasePktType multVarValueU32Type.toNat = 0x8101 := by decide
  simp only [rxPacket, List.getD_cons_succ, List.getD_cons_zero, htype, if_true]
  rfl

/-- A packet with one value passes all checks. -/
theorem rxVariableU32_eq {dev var val : UInt32} :
    rxVariableU32 [16, varValueU32Type, sec, ns, dev, var, statusOk, val] behind =
      some [⟨dev, var, timespecToNsec (Word32.add sec.toNat epicsEpochOffset, ns.toNat), val⟩] := by
  have hversion : adaraPktVersion varValueU32Type.toNat = 0 := by decide
  have hwords : (payloadOf [16, varValueU32Type, sec, ns, dev, var, statusOk, val] behind).words =
      [dev, var, statusOk, val] := words_payloadOf (by simp)
  have hchecks : checkVariableU32
      (payloadOf [16, varValueU32Type, sec, ns, dev, var, statusOk, val] behind) = none := by
    have hstatus : MultVariable.validStatus (statusOk >>> 16) = true := by decide
    have hseverity : MultVariable.validSeverity (statusOk &&& 0xffff) = true := by decide
    simp [checkVariableU32, Payload.payloadLen, Payload.status, Payload.severity, Payload.word,
      hstatus, hseverity, payloadOf, hversion]
  simp [rxVariableU32, hchecks, Payload.word, hwords, seconds]

end Payload

/-- The packet of `sendUpdate` is read as its event. -/
theorem rxPacket_updateWords (s : FastMeta) (behind : Nat → UInt32)
    (hlo : pulseId.toUInt32.toNat < 1000000000)
    (hrange : InRange pulseId ev) :
    rxPacket behind (s.updateWords pulseId ev.pixel ev.tof) =
      some [updateOf s pulseId (deviceKey ev.pixel) ev] := by
  obtain ⟨hsec, hns⟩ := carryWord_spec (pulseId >>> 32).toUInt32 ev.tof hlo
  have hseconds : Word32.add (Word32.add (pulseId >>> 32).toUInt32.toNat
      (eventNanos pulseId ev / 1000000000)) epicsEpochOffset =
        unixSeconds pulseId + eventNanos pulseId ev / 1000000000 := add_add_epoch hrange
  rw [← eventNanos] at hsec hns
  rw [updateWords, rxPacket_variableU32, rxVariableU32_eq, hsec, hns, hseconds]
  rfl

/-- The loop over values finds those of the events. -/
theorem copyFixed_events {p : Payload} {rest : List UInt32} (events : List Event) (ptr : Nat)
    (h : p.words.drop ptr =
      (events.flatMap fun ev => [tofNanos ev.tof, pixelValue ev.pixel]) ++ rest) :
    (MultVariable.copyFixed p 1 p.word events.length ptr).outcome =
      .returned (events.map fun ev => tofNanos ev.tof)
        (events.map fun ev => pixelValue ev.pixel) := by
  induction events generalizing ptr with
  | nil => rfl
  | cons ev events ih =>
    rw [List.flatMap_cons, List.append_assoc] at h
    have htof : p.word ptr = tofNanos ev.tof := by
      have hget := BankedFormat.getElem?_of_drop (k := 0) h rfl
      rw [Nat.add_zero] at hget
      simp only [Payload.word, hget, Option.getD_some]
    have hval : p.word (ptr + 1) = pixelValue ev.pixel := by
      simp only [Payload.word, BankedFormat.getElem?_of_drop (k := 1) h rfl, Option.getD_some]
    have hrest := ih (ptr + 1 + 1) (BankedFormat.drop_of_drop (k := 2) h rfl)
    simp only [List.length_cons, MultVariable.copyFixed, Decoded.push, hrest, htof,
      hval, List.map_cons]

/-! ### The packet with all events -/

theorem length_multFields (events : List Event) :
    (events.flatMap fun ev => [tofNanos ev.tof, pixelValue ev.pixel]).length =
      2 * events.length := by
  induction events with
  | nil => rfl
  | cons ev events ih =>
    rw [List.flatMap_cons, List.length_append, ih, List.length_cons]
    simp only [List.length_cons, List.length_nil]
    omega

section Mult

variable {first : Event}

/-- The payload of `sendMultUpdate`. -/
def multFields (s : FastMeta) (first : Event) (events : List Event) : List UInt32 :=
  [(s.varAt (deviceKey first.pixel)).devId, (s.varAt (deviceKey first.pixel)).varId, statusOk,
    UInt32.ofNat events.length] ++
    events.flatMap fun ev => [tofNanos ev.tof, pixelValue ev.pixel]

theorem words_multUpdateWords (s : FastMeta) (pulseId : UInt64) (first : Event)
    (behind : Nat → UInt32) (hlen : 32 + 8 * events.length < Word32.modulus) :
    (payloadOf (s.multUpdateWords pulseId first events) behind).words =
      multFields s first events := by
  apply words_payloadOf
  change (multFields s first events).length = _
  rw [multFields, List.length_append, length_multFields,
    UInt32.toNat_ofNat_of_lt' (by simp only [UInt32.size, Word32.modulus] at hlen ⊢; omega)]
  simp only [List.length_cons, List.length_nil]
  omega

theorem numValues_multFields {p : Payload} (hlen : 32 + 8 * events.length < Word32.modulus)
    (hwords : p.words = multFields s first events) : p.numValues = events.length := by
  simp only [Payload.numValues, Payload.word, hwords, multFields, List.cons_append,
    List.getElem?_cons_succ, List.getElem?_cons_zero, Option.getD_some]
  exact UInt32.toNat_ofNat_of_lt' (by simp only [UInt32.size, Word32.modulus] at hlen ⊢; omega)

/-- The decoder takes the packet of `sendMultUpdate`, with the times and values of the events. -/
theorem multVariableU32Pkt_outcome (s : FastMeta) (pulseId : UInt64) (first : Event)
    (behind : Nat → UInt32) (hlen : 32 + 8 * events.length < Word32.modulus) :
    (MultVariable.multVariableU32Pkt
        (payloadOf (s.multUpdateWords pulseId first events) behind)).outcome =
      .returned (events.map fun ev => tofNanos ev.tof)
        (events.map fun ev => pixelValue ev.pixel) := by
  have hwords := words_multUpdateWords s pulseId first behind hlen
  generalize payloadOf (s.multUpdateWords pulseId first events) behind = p at hwords
  have hnum := numValues_multFields hlen hwords
  have hpayload : p.payloadLen = 16 + 8 * events.length := by
    rw [Payload.payloadLen, hwords, multFields, List.length_append, length_multFields]
    simp only [List.length_cons, List.length_nil]
    omega
  have hsize : Word32.mul p.numValues 2 * 4 = 8 * events.length := by
    rw [hnum, Word32.mul_of_lt (by omega)]
    omega
  -- the header has just the length that the number of values asks for
  have hpasses : MultVariable.checkHeader p "U32" " is too short: " "U32 TOF/Value"
      (Word32.mul p.numValues 2 * 4) = none := by
    apply MultVariable.checkHeader_eq_none.mpr
    have hstatus : p.status = statusOk >>> 16 := by
      simp only [Payload.status, Payload.word, hwords]
      rfl
    have hseverity : p.severity = statusOk &&& 0xffff := by
      simp only [Payload.severity, Payload.word, hwords]
      rfl
    apply MultVariable.HeaderPasses.mk
    · omega
    · omega
    · rw [hstatus]
      decide
    · rw [hseverity]
      decide
  have hevents : p.words.drop 4 =
      (events.flatMap fun ev => [tofNanos ev.tof, pixelValue ev.pixel]) ++ [] := by
    rw [hwords, List.append_nil]
    rfl
  rw [MultVariable.multVariableU32Pkt, MultVariable.construct, hpasses, hnum]
  exact copyFixed_events events 4 hevents

/-- The packet of `sendMultUpdate` is read as all its events. -/
theorem rxPacket_multUpdateWords (hlen : 32 + 8 * events.length < Word32.modulus) :
    rxPacket behind (s.multUpdateWords pulseId first events) =
      some (events.map (updateOf s pulseId (deviceKey first.pixel))) := by
  have hwords := words_multUpdateWords s pulseId first behind hlen
  have houtcome := multVariableU32Pkt_outcome s pulseId first behind hlen
  have hread : rxPacket behind (s.multUpdateWords pulseId first events) =
      rxMultVariableU32 (s.multUpdateWords pulseId first events) behind :=
    rxPacket_multVariableU32
  have hseconds : seconds (s.multUpdateWords pulseId first events) = unixSeconds pulseId := rfl
  have hnanos : (s.multUpdateWords pulseId first events).getD 3 0 = pulseId.toUInt32 := rfl
  rw [hread, rxMultVariableU32, houtcome, hseconds, hnanos]
  generalize payloadOf (s.multUpdateWords pulseId first events) behind = p at hwords
  have hnum := numValues_multFields hlen hwords
  have hdev : p.word 0 = (s.varAt (deviceKey first.pixel)).devId := by
    simp only [Payload.word, hwords]
    rfl
  have hvar : p.word 1 = (s.varAt (deviceKey first.pixel)).varId := by
    simp only [Payload.word, hwords]
    rfl
  dsimp only
  rw [List.zip_map', List.take_of_length_le (by rw [List.length_map, hnum]), List.map_map]
  apply congrArg some
  apply List.map_congr_left
  intro ev _
  -- the sum of two words makes less than ten seconds
  have hlo := pulseId.toUInt32.toNat_lt
  have htof := tofNanos_lt ev.tof
  simp only [Function.comp_apply, updateOf, absoluteNanos, eventNanos, hdev, hvar]
  rw [MetaDataMgr.carrySeconds_eq _ (by simp only [nanoPerSecond]; omega)]
  rfl

end Mult

/-! ### What is sent -/

/-- The packets of a variable reach the stream: a persistent one belongs to a device that the
    metadata manager has under the tag of the SMS. -/
def Passes (s : FastMeta) (var : FastVariable) : Prop :=
  var.persist = true → s.devices.find? var.devId = some 0

instance (s : FastMeta) (var : FastVariable) : Decidable (Passes s var) :=
  inferInstanceAs (Decidable (_ → _))

/-- A packet whose header has its length goes to the stream as it is. -/
theorem send_eq {var : FastVariable} {pkt : List UInt32}
    (hlen : pkt.length * 4 < Word32.modulus)
    (hhdr : (pkt.getD 0 0).toNat + 16 = pkt.length * 4) :
    s.send var pkt = if Passes s var then [pkt] else [] := by
  have hwhole : addPacket pkt (pkt.length * 4) = [pkt] := by
    rw [addPacket, Nat.mod_eq_of_lt hlen, Nat.mul_div_cancel _ (by decide), List.take_length]
  -- the copy made for a persistent variable is complete
  have hcopy : Word32.add (pkt.getD 0 0).toNat PacketHeader.headerLength = pkt.length * 4 := by
    rw [Word32.add_of_lt (by simp only [PacketHeader.headerLength]; omega)]
    exact hhdr
  cases hpersist : var.persist with
  | false => rw [send, hpersist, if_neg (by decide), hwhole, if_pos (by simp [Passes, hpersist])]
  | true =>
    rw [send, hpersist, if_pos rfl, updateMappedVariable]
    cases hdev : s.devices.find? var.devId with
    | none => rw [if_neg (by simp [Passes, hpersist, hdev])]
    | some srcTag =>
      by_cases htag : srcTag = 0
      · simp only [htag, ne_eq, not_true_eq_false, if_false, hcopy, hwhole]
        rw [if_pos (by simp [Passes, hdev, htag])]
      · simp only [ne_eq, htag, not_false_eq_true, if_true]
        rw [if_neg (by simp [Passes, hpersist, hdev, htag])]

theorem sendUpdate_eq (pixel tof : UInt32) :
    s.sendUpdate pulseId pixel tof =
      if Passes s (s.varAt (deviceKey pixel)) then [s.updateWords pulseId pixel tof] else [] := by
  apply send_eq
  · change 8 * 4 < _
    decide
  · change (16 : UInt32).toNat + 16 = 8 * 4
    decide

theorem sendMultUpdate_eq {first : Event} {rest : List Event}
    (hlen : 32 + 8 * (first :: rest).length < Word32.modulus) :
    s.sendMultUpdate pulseId (first :: rest) =
      if Passes s (s.varAt (deviceKey first.pixel)) then
        [s.multUpdateWords pulseId first (first :: rest)]
      else [] := by
  have hlength : (s.multUpdateWords pulseId first (first :: rest)).length =
      8 + 2 * (first :: rest).length := by
    rw [multUpdateWords, List.length_append, length_multFields]
    simp only [List.length_cons, List.length_nil]
  have hhdr : ((s.multUpdateWords pulseId first (first :: rest)).getD 0 0).toNat =
      (4 + (first :: rest).length * 2) * 4 :=
    UInt32.toNat_ofNat_of_lt' (by simp only [UInt32.size, Word32.modulus] at hlen ⊢; omega)
  apply send_eq
  · omega
  · omega

/-! ### Both ways -/

@[simp] theorem rxPackets_nil : rxPackets behind [] = some [] := rfl

theorem rxPackets_append {xs ys : List (List UInt32)} {us vs : List ValueUpdate}
    (hxs : rxPackets behind xs = some us) (hys : rxPackets behind ys = some vs) :
    rxPackets behind (xs ++ ys) = some (us ++ vs) := by
  simp only [rxPackets, Option.map_eq_some_iff] at hxs hys ⊢
  obtain ⟨xss, hxss, rfl⟩ := hxs
  obtain ⟨yss, hyss, rfl⟩ := hys
  exact ⟨xss ++ yss, by simp [List.mapM_append, hxss, hyss], List.flatten_append⟩

theorem rxPackets_ite {c : Prop} [Decidable c] {pkt : List UInt32} {vals : List ValueUpdate}
    (h : rxPacket behind pkt = some vals) :
    rxPackets behind (if c then [pkt] else []) = some (if c then vals else []) := by
  by_cases hc : c
  · rw [if_pos hc, if_pos hc]
    simp [rxPackets, h]
  · rw [if_neg hc, if_neg hc, rxPackets_nil]

/-- The values of events of one device, one packet each. -/
theorem rxPackets_sendUpdates (hlo : pulseId.toUInt32.toNat < 1000000000)
    (hkey : ∀ ev ∈ events, deviceKey ev.pixel = key) (hrange : ∀ ev ∈ events, InRange pulseId ev) :
    rxPackets behind (events.flatMap fun ev => s.sendUpdate pulseId ev.pixel ev.tof) =
      some (if Passes s (s.varAt key) then events.map (updateOf s pulseId key) else []) := by
  induction events with
  | nil => simp
  | cons ev events ih =>
    rw [List.forall_mem_cons] at hkey hrange
    have hev := rxPacket_updateWords s behind hlo hrange.1
    rw [hkey.1] at hev
    rw [List.flatMap_cons, sendUpdate_eq, hkey.1,
      rxPackets_append (rxPackets_ite hev) (ih hkey.2 hrange.2)]
    split
    · rfl
    · rfl

/-- The values of events of one device, in one packet. -/
theorem rxPackets_sendMultUpdate (s : FastMeta) (pulseId : UInt64) (behind : Nat → UInt32)
    (hne : events ≠ [])
    (hkey : ∀ ev ∈ events, deviceKey ev.pixel = key)
    (hlen : 32 + 8 * events.length < Word32.modulus) :
    rxPackets behind (s.sendMultUpdate pulseId events) =
      some (if Passes s (s.varAt key) then events.map (updateOf s pulseId key) else []) := by
  cases events with
  | nil => exact absurd rfl hne
  | cons first rest =>
    rw [List.forall_mem_cons] at hkey
    rw [sendMultUpdate_eq hlen, rxPackets_ite (rxPacket_multUpdateWords hlen), hkey.1]

/-- The values of a pulse do not depend on which way the events of a device are sent. -/
theorem rxPackets_buildFastMetaPackets {pulse : SortedMap UInt32 (List Event)}
    (hlo : pulseId.toUInt32.toNat < 1000000000)
    (hkey : ∀ e ∈ pulse.entries, ∀ ev ∈ e.2, deviceKey ev.pixel = e.1)
    (hlen : ∀ e ∈ pulse.entries, 32 + 8 * e.2.length < Word32.modulus)
    (hrange : ∀ e ∈ pulse.entries, ∀ ev ∈ e.2, InRange pulseId ev) :
    rxPackets behind (s.buildFastMetaPackets pulseId pulse) =
      some (pulse.entries.flatMap fun e =>
        if Passes s (s.varAt e.1) then e.2.map (updateOf s pulseId e.1) else []) := by
  rw [buildFastMetaPackets]
  generalize pulse.entries = entries at hkey hlen hrange
  -- one device after the other
  induction entries with
  | nil => rfl
  | cons e entries ih =>
    rw [List.forall_mem_cons] at hkey hlen hrange
    have hentry : rxPackets behind
        (if 3 < e.2.length then s.sendMultUpdate pulseId e.2
          else e.2.flatMap fun ev => s.sendUpdate pulseId ev.pixel ev.tof) =
        some (if Passes s (s.varAt e.1) then e.2.map (updateOf s pulseId e.1) else []) := by
      split
      · rename_i hmany
        have hne : e.2 ≠ [] := List.ne_nil_of_length_pos (by omega)
        exact rxPackets_sendMultUpdate s pulseId behind hne hkey.1 hlen.1
      · exact rxPackets_sendUpdates hlo hkey.1 hrange.1
    rw [List.flatMap_cons, List.flatMap_cons,
      rxPackets_append hentry (ih hkey.2 hlen.2 hrange.2)]

/-- What `sendMultUpdate` sends is at most one packet, which the decoder takes, and the values
    read from it are those read from the packets of `sendUpdate`. -/
structure PathsAgree (s : FastMeta) (pulseId : UInt64) (events : List Event)
    (behind : Nat → UInt32) : Prop where
  length_le : (s.sendMultUpdate pulseId events).length ≤ 1
  accepted : ∀ pkt ∈ s.sendMultUpdate pulseId events, ∃ tofs vals,
    (MultVariable.multVariableU32Pkt (payloadOf pkt behind)).outcome = .returned tofs vals
  same : ∃ vals, rxPackets behind (s.sendMultUpdate pulseId events) = some vals ∧
    rxPackets behind (events.flatMap fun ev => s.sendUpdate pulseId ev.pixel ev.tof) = some vals

/-- The two ways to send fast metadata agree on all events of a device, as long as the packet
    has a length and the seconds of the events do not leave 32 bits. -/
theorem fast_paths_agree (key : UInt32) (hlo : pulseId.toUInt32.toNat < 1000000000)
    (hne : events ≠ [])
    (hkey : ∀ ev ∈ events, deviceKey ev.pixel = key)
    (hlen : 32 + 8 * events.length < Word32.modulus)
    (hrange : ∀ ev ∈ events, InRange pulseId ev) : PathsAgree s pulseId events behind := by
  have hsame := rxPackets_sendMultUpdate s pulseId behind hne hkey hlen
  apply PathsAgree.mk
  · cases events with
    | nil => exact absurd rfl hne
    | cons first rest =>
      rw [sendMultUpdate_eq hlen]
      split
      · exact Nat.le_refl 1
      · exact Nat.zero_le 1
  · intro pkt hpkt
    cases events with
    | nil => exact absurd rfl hne
    | cons first rest =>
      rw [sendMultUpdate_eq hlen] at hpkt
      split at hpkt
      · rw [List.mem_singleton] at hpkt
        rw [hpkt]
        exact ⟨_, _, multVariableU32Pkt_outcome _ _ _ _ hlen⟩
      · cases hpkt
  · exact ⟨_, hsame, rxPackets_sendUpdates hlo hkey hrange⟩

/-- Two events of a persistent variable, the second after the next full second. -/
theorem fast_paths_agree_two :
    PathsAgree ⟨SortedMap.empty.set 0x10000 ⟨1, 2, true⟩, SortedMap.empty.set 1 0⟩
      ((1000 : UInt64) <<< 32 ||| 999999000) [⟨5, 0x10001⟩, ⟨0x200064, 0x10000⟩] fun _ => 0 := by
  apply fast_paths_agree 0x10000
  · decide
  · decide
  · decide
  · decide
  · decide

/-- In the last second of 32-bit Unix time the packet of `sendUpdate` is read as one of 1970. -/
theorem not_agree_of_last_second :
    ¬ PathsAgree ⟨SortedMap.empty, SortedMap.empty⟩ ((3663815295 : UInt64) <<< 32 ||| 999999999)
      [⟨1, 0x10000⟩] fun _ => 0 := by
  intro h
  obtain ⟨vals, hmult, hsingle⟩ := h.same
  rw [← hsingle] at hmult
  revert hmult
  decide

end Adara.Spec.FastMeta
