import Adara.Spec.CompletionRule

/-! # Corrected charge and veto flags

The proton charge and the veto flags that come with a pulse are those of the pulse before it.
When pulses are recorded each takes them from the pulse behind it in the buffer, as the buffer
holds that before the step (`getElem?_recordLoop`), if it is one pulse period away.  The pulses
in the buffer have not been corrected yet, in every state the SMS passes through
(`uncorrected_passed`), so what a pulse takes is never what the pulse behind it took itself. -/

namespace Adara.Spec.PulseBuffer

open Adara.Native Adara.Native.SMSControl

/-! ### The time between pulses -/

/-- The time of a pulse, in nanoseconds. -/
def pulseTime (p : Pulse) : Nat :=
  ((ofLex p.id).1 >>> 32).toNat * 1000000000 + ((ofLex p.id).1 &&& 0xffffffff).toNat

/-- The nanoseconds from a pulse to the next one.  Where the nanoseconds of a pulse identifier
    are above a second this may go back, and wraps. -/
def timeTo (p next : Pulse) : Nat :=
  if pulseTime p ≤ pulseTime next then pulseTime next - pulseTime p
  else 2 ^ 64 - (pulseTime p - pulseTime next)

/-- The time to the next pulse lies strictly between the configured bounds. -/
def Near (cfg : Config) (p next : Pulse) : Prop :=
  cfg.interPulseTimeMin.toNat < timeTo p next ∧ timeTo p next < cfg.interPulseTimeMax.toNat

/-- The difference of two times, taken by seconds and nanoseconds in 64-bit arithmetic. -/
theorem elapsed_eq {sec nsec sec' nsec' : Nat} (hsec : sec < 2 ^ 32) (hnsec : nsec < 2 ^ 32)
    (hsec' : sec' < 2 ^ 32) (hnsec' : nsec' < 2 ^ 32) :
    ((2 ^ 64 - sec + sec') % 2 ^ 64 * 1000000000 % 2 ^ 64 +
        (2 ^ 64 - nsec + nsec') % 2 ^ 64) % 2 ^ 64 =
      if sec * 1000000000 + nsec ≤ sec' * 1000000000 + nsec' then
        sec' * 1000000000 + nsec' - (sec * 1000000000 + nsec)
      else 2 ^ 64 - (sec * 1000000000 + nsec - (sec' * 1000000000 + nsec')) := by
  by_cases h : sec * 1000000000 + nsec ≤ sec' * 1000000000 + nsec'
  · rw [if_pos h]
    omega
  · rw [if_neg h]
    omega

/-- The 64-bit arithmetic counts the nanoseconds. -/
theorem toNat_interPulseTime (p next : Pulse) : (interPulseTime p next).toNat = timeTo p next := by
  obtain ⟨hsec, hnsec⟩ := UInt64.halves_lt (ofLex p.id).1
  obtain ⟨hsec', hnsec'⟩ := UInt64.halves_lt (ofLex next.id).1
  simp only [interPulseTime, UInt64.toNat_add, UInt64.toNat_mul, UInt64.toNat_sub]
  exact elapsed_eq hsec hnsec hsec' hnsec'

theorem inRange_iff {cfg : Config} {p next : Pulse} : InRange cfg p next ↔ Near cfg p next := by
  rw [InRange, Near, UInt64.lt_iff_toNat_lt, UInt64.lt_iff_toNat_lt, toNat_interPulseTime]

/-! ### Charge and veto flags in an RTDL packet -/

theorem field_setField (pkt : RTDLPkt) {i : Nat} (hi : i < 30) (j : Nat) (w : UInt32) :
    (pkt.setField i w).field j = if i = j then w else pkt.field j := by
  have hlength := pkt.thirty_le
  simp only [RTDLPkt.field, RTDLPkt.setField, List.getD_eq_getElem?_getD, List.getElem?_set]
  split
  · rw [if_pos (by omega), Option.getD_some]
  · rfl

/-- The lower bits of a word whose upper bits are kept are the ones written to it. -/
theorem and_or_of_masks {high low : UInt32} (h : high &&& low = 0) (old new : UInt32) :
    ((old &&& high) ||| (new &&& low)) &&& low = new &&& low := by
  have hdistrib : ((old &&& high) ||| (new &&& low)) &&& low =
      (old &&& high &&& low) ||| (new &&& low &&& low) := by
    rw [← UInt32.toBitVec_inj]
    exact BitVec.and_or_distrib_right
  rw [hdistrib, UInt32.and_assoc, h, UInt32.and_assoc, UInt32.and_self, UInt32.and_zero,
    UInt32.zero_or]

theorem pulseCharge_setPulseCharge (pkt : RTDLPkt) (charge : UInt32) :
    (pkt.setPulseCharge charge).pulseCharge = charge &&& 0x00ffffff := by
  rw [RTDLPkt.pulseCharge, RTDLPkt.setPulseCharge, field_setField pkt (by decide), if_pos rfl]
  exact and_or_of_masks (by decide) _ _

theorem pulseCharge_setVetoFlags (pkt : RTDLPkt) (vetoFlags : UInt32) :
    (pkt.setVetoFlags vetoFlags).pulseCharge = pkt.pulseCharge := by
  rw [RTDLPkt.pulseCharge, RTDLPkt.setVetoFlags, field_setField pkt (by decide),
    if_neg (by decide), RTDLPkt.pulseCharge]

theorem vetoFlags_setVetoFlags (pkt : RTDLPkt) (vetoFlags : UInt32) :
    (pkt.setVetoFlags vetoFlags).vetoFlags = vetoFlags &&& 0xfff := by
  rw [RTDLPkt.vetoFlags, RTDLPkt.setVetoFlags, field_setField pkt (by decide), if_pos rfl]
  apply UInt32.toBitVec_inj.mp
  apply BitVec.eq_of_getLsbD_eq
  intro i hi
  -- the bits of the flags are among those that were cleared
  have hmask : ∀ i < 32, (0xfff#32).getLsbD i = true →
      10 + i < 32 ∧ (0xffc003ff#32).getLsbD (10 + i) = false := by decide
  cases hbit : (0xfff#32).getLsbD i with
  | false => simp [hbit]
  | true =>
    obtain ⟨hlt, hclear⟩ := hmask i hi hbit
    simp [hbit, hlt, hclear, -BitVec.getLsbD_eq_getElem]

/-! ### What is written for a pulse -/

/-- Neither charge nor veto flags of the pulse have been corrected. -/
structure IsUncorrected (p : Pulse) : Prop where
  pcharge : p.hasFlag PulseFlags.pchargeUncorrected = true
  veto : p.hasFlag PulseFlags.vetoUncorrected = true

/-- The pulse `p` is written as `w`, with what the pulse `next` came with. -/
structure TakenFrom (next p w : Pulse) : Prop where
  charge : w.charge = chargeFrom next
  vetoFlags : w.vetoFlags = next.vetoFlags
  rtdl : match p.rtdl, next.rtdl with
    | some _, some nextRtdl => ∃ rtdl, w.rtdl = some rtdl ∧
        rtdl.pulseCharge = nextRtdl.pulseCharge ∧ rtdl.vetoFlags = nextRtdl.vetoFlags
    | rtdl, _ => w.rtdl = rtdl
  pcharge : w.hasFlag PulseFlags.pchargeUncorrected = false
  veto : w.hasFlag PulseFlags.vetoUncorrected = false

/-- The pulse `p` is written as `w`, with what it came with itself. -/
structure TakenOver (p w : Pulse) : Prop where
  charge : w.charge = p.charge
  vetoFlags : w.vetoFlags = p.vetoFlags
  rtdl : w.rtdl = p.rtdl
  uncorrected : IsUncorrected w

/-- What is written for a pulse, given the pulse behind it. -/
def Written (cfg : Config) (p : Pulse) (next : Option Pulse) (w : Pulse) : Prop :=
  match next with
  | some next =>
    (Near cfg p next → TakenFrom next p w) ∧ (¬ Near cfg p next → TakenOver p w)
  | none => TakenOver p w

/-- Two pulses that a correction does not tell apart. -/
structure Alike (p w : Pulse) : Prop where
  id : w.id = p.id
  charge : w.charge = p.charge
  vetoFlags : w.vetoFlags = p.vetoFlags
  rtdl : w.rtdl = p.rtdl
  pcharge : w.hasFlag PulseFlags.pchargeUncorrected = p.hasFlag PulseFlags.pchargeUncorrected
  veto : w.hasFlag PulseFlags.vetoUncorrected = p.hasFlag PulseFlags.vetoUncorrected

theorem Alike.trans {p q w : Pulse} (h : Alike p q) (h' : Alike q w) : Alike p w where
  id := h'.id.trans h.id
  charge := h'.charge.trans h.charge
  vetoFlags := h'.vetoFlags.trans h.vetoFlags
  rtdl := h'.rtdl.trans h.rtdl
  pcharge := h'.pcharge.trans h.pcharge
  veto := h'.veto.trans h.veto

/-- A flag that is not for the corrections. -/
theorem alike_setFlagIf (p : Pulse) (cond : Bool) {flag : UInt32}
    (hpcharge : flag &&& PulseFlags.pchargeUncorrected = 0)
    (hveto : flag &&& PulseFlags.vetoUncorrected = 0) : Alike p (p.setFlagIf cond flag) := by
  unfold Pulse.setFlagIf
  split
  · refine ⟨rfl, rfl, rfl, rfl, ?_, ?_⟩
    · simp [hasFlag_setFlag, hpcharge]
    · simp [hasFlag_setFlag, hveto]
  · exact ⟨rfl, rfl, rfl, rfl, rfl, rfl⟩

theorem Alike.near {cfg : Config} {p w next : Pulse} (h : Alike p w) :
    Near cfg w next ↔ Near cfg p next := by
  have htime : pulseTime w = pulseTime p := by rw [pulseTime, pulseTime, h.id]
  rw [Near, Near, timeTo, timeTo, htime]

theorem TakenFrom.alike {next p q v w : Pulse} (hq : Alike p q) (h : TakenFrom next q v)
    (hw : Alike v w) : TakenFrom next p w where
  charge := hw.charge.trans h.charge
  vetoFlags := hw.vetoFlags.trans h.vetoFlags
  rtdl := by
    rw [← hq.rtdl, hw.rtdl]
    exact h.rtdl
  pcharge := hw.pcharge.trans h.pcharge
  veto := hw.veto.trans h.veto

theorem Alike.takenOver {p w : Pulse} (h : Alike p w) (hp : IsUncorrected p) : TakenOver p w :=
  ⟨h.charge, h.vetoFlags, h.rtdl, h.pcharge.trans hp.pcharge, h.veto.trans hp.veto⟩

theorem correctedFlags_and {s : Settings} (hcharge : s.doPulsePchgCorrect = true)
    (hveto : s.doPulseVetoCorrect = true) (flags : UInt32) {flag : UInt32}
    (hflag : ~~~PulseFlags.pchargeUncorrected &&& (~~~PulseFlags.vetoUncorrected &&& flag) = 0) :
    correctedFlags s flags &&& flag = 0 := by
  simp only [correctedFlags, hcharge, hveto, if_true]
  rw [UInt32.and_assoc, UInt32.and_assoc, hflag, UInt32.and_zero]

theorem correctPChargeVeto_takenFrom {cfg : Config} {s : Settings}
    (hcharge : s.doPulsePchgCorrect = true) (hveto : s.doPulseVetoCorrect = true) {p next : Pulse}
    (h : Near cfg p next) : TakenFrom next p (correctPChargeVeto cfg s p next) := by
  rw [correctPChargeVeto_inRange s (inRange_iff.mpr h)]
  refine ⟨if_pos hcharge, if_pos hveto, ?_, ?_, ?_⟩
  · cases hrtdl : p.rtdl with
    | none => rfl
    | some rtdl =>
      cases hnext : next.rtdl with
      | none => rfl
      | some nextRtdl =>
        refine ⟨_, congrArg some (if_pos hveto), ?_, ?_⟩
        · rw [pulseCharge_setVetoFlags, if_pos hcharge, pulseCharge_setPulseCharge,
            RTDLPkt.pulseCharge, UInt32.and_assoc, UInt32.and_self]
        · rw [vetoFlags_setVetoFlags, RTDLPkt.vetoFlags, UInt32.and_assoc, UInt32.and_self]
  · show (correctedFlags s p.flags &&& PulseFlags.pchargeUncorrected != 0) = false
    rw [correctedFlags_and hcharge hveto p.flags (by decide)]
    rfl
  · show (correctedFlags s p.flags &&& PulseFlags.vetoUncorrected != 0) = false
    rw [correctedFlags_and hcharge hveto p.flags (by decide)]
    rfl

theorem written_asRecorded (cfg : Config) {s : Settings} (hcharge : s.doPulsePchgCorrect = true)
    (hveto : s.doPulseVetoCorrect = true) (overflow : Bool) {p : Pulse} (hp : IsUncorrected p)
    (next : Option Pulse) : Written cfg p next (asRecorded cfg s overflow p next) := by
  have hbefore : Alike p (p.setFlagIf (overflow && p.pending ≠ ∅) PulseFlags.partialData) :=
    alike_setFlagIf p _ (by decide) (by decide)
  simp only [asRecorded]
  generalize p.setFlagIf (overflow && p.pending ≠ ∅) PulseFlags.partialData = q at hbefore ⊢
  -- what `recordPulse` does to a pulse is not seen by the corrections
  have hafter (v : Pulse) : Alike v ((v.setFlagIf v.rtdl.isNone PulseFlags.missingRtdl).setFlagIf
      ((v.setFlagIf v.rtdl.isNone PulseFlags.missingRtdl).vetoFlags &&& cfg.targetVetoMask != 0)
      PulseFlags.pulseVeto) :=
    (alike_setFlagIf v _ (by decide) (by decide)).trans
      (alike_setFlagIf _ _ (by decide) (by decide))
  cases next with
  | none => exact (hbefore.trans (hafter q)).takenOver hp
  | some next =>
    simp only [hcharge, Bool.true_or, if_true]
    constructor
    · intro hnear
      have hnear' := hbefore.near.mpr hnear
      exact (correctPChargeVeto_takenFrom hcharge hveto hnear').alike hbefore (hafter _)
    · intro hfar
      rw [correctPChargeVeto_outOfRange s fun h => hfar (hbefore.near.mp (inRange_iff.mp h))]
      exact (hbefore.trans (hafter q)).takenOver hp

/-! ### Recording a batch -/

/-- No pulse in the buffer has been corrected. -/
def AllUncorrected (S : SMSControl) : Prop := ∀ e ∈ S.pulses.entries, IsUncorrected e.2.pulse

/-- A step from `B` to `S'` records the pulses `new` from the front of the buffer.  With both
    corrections enabled, each is written with the values that the pulse behind it has in the
    buffer of `B`; the pulses left in the buffer are as they were. -/
structure Batch (cfg : Config) (B S' : SMSControl) (new : List (PulseIdentifier × Node)) :
    Prop where
  recorded : recordedEntries S' = recordedEntries B ++ new
  inOrder : new.map ident = (B.pulses.entries.take new.length).map ident
  written : S'.settings.doPulsePchgCorrect = true → S'.settings.doPulseVetoCorrect = true →
    ∀ (j : Nat) (b e : PulseIdentifier × Node), B.pulses.entries[j]? = some b →
      new[j]? = some e →
      Written cfg b.2.pulse (B.pulses.entries[j + 1]?.map (·.2.pulse)) e.2.pulse
  left : S'.pulses.entries = B.pulses.entries.drop new.length

/-- Nothing is recorded. -/
theorem Batch.of_same {cfg : Config} {B S' : SMSControl} (h : SameRecord B S') :
    Batch cfg B S' [] where
  recorded := by rw [recordedEntries, h.recordings, List.append_nil, recordedEntries]
  inOrder := rfl
  written := nofun
  left := by rw [h.pulses, List.length_nil, List.drop_zero]

theorem recordPrefix_batch (cfg : Config) (env : Env) (overflow : Bool) (n : Nat) {S : SMSControl}
    (hS : AllUncorrected S) : ∃ new, Batch cfg S (recordPrefix cfg env overflow n S) new := by
  generalize hnew :
    (recordLoop cfg env S.settings overflow n S.record S.lastPid S.pulses.entries).2.2 = new
  have hlength : new.length = min n S.pulses.entries.length := by
    rw [← hnew, length_recordLoop]
  have htake : S.pulses.entries.take new.length = S.pulses.entries.take n := by
    rw [hlength, List.take_eq_take_iff]
    omega
  refine ⟨new, ?_, ?_, ?_, ?_⟩
  · simp only [recordedEntries, recordPrefix, hnew, List.flatMap_append, List.flatMap_singleton]
  · rw [htake, ← hnew, recordLoop_recorded]
  · intro hcharge hveto j b e hb he
    have hjn : j < n := by
      have := (List.getElem?_eq_some_iff.mp he).1
      omega
    have hrecorded := getElem?_recordLoop cfg env S.settings overflow hjn S.record S.lastPid
      S.pulses.entries
    rw [hnew, he, hb, Option.map_some, Option.some_inj] at hrecorded
    rw [hrecorded]
    exact written_asRecorded cfg hcharge hveto overflow (hS b (List.mem_of_getElem? hb)) _
  · simp only [recordPrefix, hnew, SortedMap.entries_drop]

/-! ### Filing events clears no flag -/

theorem hasFlag_fileBanked {s : EventSettings} {maxBank : Nat} {pl : Placement} {tof : UInt32}
    {a a' : EventLoop} {flag : UInt32} (h : fileBanked s maxBank pl tof a = some a')
    (ha : a.pulse.hasFlag flag = true) : a'.pulse.hasFlag flag = true := by
  simp only [fileBanked, Option.bind_eq_some_iff] at h
  obtain ⟨b, hgrow, hpush⟩ := h
  have hb : b.pulse.hasFlag flag = true := by
    rw [growBanks_pulse hgrow]
    exact hasFlag_setFlagIf_of (hasFlag_setFlag_of ha _) _ _
  simp only [pushBanked] at hpush
  split at hpush
  · cases hpush
  · exact Option.some.inj hpush ▸ hb

theorem hasFlag_handleEvent {s : EventSettings} {pm : PixelMap} {pkt : RawDataPkt}
    {isMapped : Bool} {a a' : EventLoop} {ev : Event} {flag : UInt32}
    (h : handleEvent s pm pkt isMapped a ev = some a') (ha : a.pulse.hasFlag flag = true) :
    a'.pulse.hasFlag flag = true := by
  simp only [handleEvent] at h
  -- monitor, chopper and fast-metadata events touch no flag
  split at h
  · cases h
    exact ha
  · split at h
    · cases h
      exact ha
    · split at h
      · exact hasFlag_fileBanked h ha
      · split at h
        · cases h
          exact ha
        · split at h
          · exact hasFlag_fileBanked h ha
          · exact hasFlag_fileBanked h ha

theorem hasFlag_handleEvents {s : EventSettings} {pm : PixelMap} {pkt : RawDataPkt}
    {isMapped : Bool} {a a' : EventLoop} {evs : List Event} {flag : UInt32}
    (h : handleEvents s pm pkt isMapped a evs = some a') (ha : a.pulse.hasFlag flag = true) :
    a'.pulse.hasFlag flag = true := by
  induction evs generalizing a with
  | nil =>
    cases h
    exact ha
  | cons ev evs ih =>
    simp only [handleEvents, Option.bind_eq_some_iff] at h
    obtain ⟨b, hev, hrest⟩ := h
    exact ih hrest (hasFlag_handleEvent hev ha)

theorem hasFlag_fileEvents {s : EventSettings} {pm : PixelMap} {ring : UInt32}
    {numStatesLast : Nat} {resetCount : UInt32} {pkt : RawDataPkt} {hwId : UInt32}
    {isMapped mixed : Bool} {p : Pulse} {a : EventLoop} {flag : UInt32}
    (h : fileEvents s pm ring numStatesLast resetCount pkt hwId isMapped p = some a)
    (hp : p.hasFlag flag = true) :
    (finishEvents pkt hwId mixed a).hasFlag flag = true := by
  have hstart : (takeCharge pkt (takeTiming pkt ring p)).hasFlag flag = true := by
    simp only [takeCharge, takeTiming]
    split <;> split <;> exact hp
  have hend := hasFlag_handleEvents h hstart
  show (markContents pkt mixed a).hasFlag flag = true
  exact hasFlag_setFlagIf_of (hasFlag_setFlagIf_of hend _ _) _ _

/-! ### The pulses in the buffer are uncorrected -/

/-- What keeps every flag of a pulse. -/
def KeepsFlags (p w : Pulse) : Prop := ∀ flag, p.hasFlag flag = true → w.hasFlag flag = true

theorem IsUncorrected.keep {p w : Pulse} (hp : IsUncorrected p) (h : KeepsFlags p w) :
    IsUncorrected w :=
  ⟨h _ hp.pcharge, h _ hp.veto⟩

theorem AllUncorrected.of_pulses_eq {S S' : SMSControl} (hS : AllUncorrected S)
    (h : S'.pulses = S.pulses) : AllUncorrected S' := by
  rw [AllUncorrected, h]
  exact hS

theorem AllUncorrected.updatePulse {S : SMSControl} (hS : AllUncorrected S)
    (pid : PulseIdentifier) {f : Pulse → Pulse}
    (hf : ∀ p, IsUncorrected p → IsUncorrected (f p)) : AllUncorrected (S.updatePulse pid f) := by
  intro e he
  simp only [SMSControl.updatePulse, SortedMap.entries_mapVal, List.mem_map] at he
  obtain ⟨e', he', rfl⟩ := he
  by_cases hkey : e'.1 = pid
  · rw [if_pos hkey]
    exact hf _ (hS e' he')
  · rw [if_neg hkey]
    exact hS e' he'

theorem AllUncorrected.recordPrefix {S : SMSControl} (hS : AllUncorrected S) (cfg : Config)
    (env : Env) (overflow : Bool) (n : Nat) :
    AllUncorrected (recordPrefix cfg env overflow n S) := by
  intro e he
  rw [(recordPrefix_recorded ..).pulses, SortedMap.entries_drop] at he
  exact hS e (List.mem_of_mem_drop he)

theorem AllUncorrected.releaseAll {S : SMSControl} (hS : AllUncorrected S) (i : Fin 256) :
    AllUncorrected (releaseAll S i) := by
  intro e he
  simp only [SMSControl.releaseAll, SortedMap.entries_mapVal, List.mem_map] at he
  obtain ⟨e', he', rfl⟩ := he
  exact (hS e' he').keep fun _ h => hasFlag_releasePartial_of h i

theorem AllUncorrected.completeFor {S : SMSControl} (hS : AllUncorrected S)
    (current : PulseIdentifier) (smsId : Option (Fin 256)) :
    AllUncorrected (completeFor S current smsId) := by
  cases smsId with
  | none => exact hS
  | some i =>
    intro e he
    rw [entries_completeFor] at he
    obtain ⟨e', he', rfl⟩ := List.mem_map.mp he
    refine (hS e' he').keep fun flag h => ?_
    simp only [completed]
    split
    · exact hasFlag_releasePartial_of h i
    · split <;> exact h

theorem isUncorrected_newPulse (S : SMSControl) (pid : PulseIdentifier) :
    IsUncorrected (newPulse S pid) where
  pcharge := hasFlag_setFlagIf_of
    (hasFlag_setFlag_of (hasFlag_setFlag_self _ (by decide)) _) _ _
  veto := hasFlag_setFlagIf_of (hasFlag_setFlag_self _ (by decide)) _ _

/-! ### The three callers -/

section Callers

variable {cfg : Config} {env : Env} {S : SMSControl}

theorem Batch.of_left {B T S' : SMSControl} {new : List (PulseIdentifier × Node)}
    (h : Batch cfg T S' new) (hB : SameRecord B T) : Batch cfg B S' new where
  recorded := by
    rw [h.recorded, recordedEntries, hB.recordings]
    rfl
  inOrder := hB.pulses ▸ h.inOrder
  written := hB.pulses ▸ h.written
  left := hB.pulses ▸ h.left

/-- A flush, and what it leaves. -/
theorem flushOverflow_batch (hS : AllUncorrected S) :
    (∃ new, Batch cfg S (flushOverflow cfg env S) new) ∧
      AllUncorrected (flushOverflow cfg env S) := by
  simp only [flushOverflow]
  generalize hT : (if S.getPulseCnt % 3600 = 0 then takeMaxBuffer env S else S) = T
  have hsame : SameRecord S T := by
    subst hT
    split <;> exact ⟨rfl, rfl⟩
  have hT' : AllUncorrected T := hS.of_pulses_eq hsame.pulses
  split
  · have htake : AllUncorrected (takeCorrections env T) := hT'
    obtain ⟨new, hnew⟩ := recordPrefix_batch cfg env true
      ((T.pulses.size - T.settings.maxPulseBufferSize + 1) % 2 ^ 32) htake
    exact ⟨⟨new, hnew.of_left ⟨hsame.pulses, hsame.recordings⟩⟩,
      htake.recordPrefix cfg env true _⟩
  · exact ⟨⟨[], .of_same hsame⟩, hT'⟩

/-- What `getPulse` does behind a possible flush: it looks at the buffer, or inserts a pulse. -/
structure Inserted (pid : PulseIdentifier) (T S' : SMSControl) : Prop where
  recordings : S'.history.recordings = T.history.recordings
  settings : S'.settings = T.settings
  pulses : S'.pulses = T.pulses ∨ ∃ n, S'.pulses = T.pulses.insert pid n ∧ IsUncorrected n.pulse

theorem getPulse_batch (hS : AllUncorrected S) (pid : PulseIdentifier) :
    ∃ T new, Batch cfg S T new ∧ AllUncorrected T ∧
      Inserted pid T (getPulse cfg env S pid).1 := by
  unfold getPulse
  split
  · exact ⟨S, [], .of_same ⟨rfl, rfl⟩, hS, ⟨rfl, rfl, .inl rfl⟩⟩
  · split
    · exact ⟨S, [], .of_same ⟨rfl, rfl⟩, hS, ⟨rfl, rfl, .inl rfl⟩⟩
    · have hcount : AllUncorrected (countPulse S pid) := hS
      simp only [createPulse]
      by_cases hcheck : (countPulse S pid).getPulseCnt % 60 = 0
      · obtain ⟨⟨new, hnew⟩, hflush⟩ := flushOverflow_batch hcount
        rw [if_pos hcheck]
        exact ⟨_, new, hnew.of_left ⟨rfl, rfl⟩, hflush, rfl, rfl,
          .inr ⟨_, rfl, isUncorrected_newPulse _ pid⟩⟩
      · rw [if_neg hcheck]
        exact ⟨countPulse S pid, [], .of_same ⟨rfl, rfl⟩, hcount, rfl, rfl,
          .inr ⟨_, rfl, isUncorrected_newPulse _ pid⟩⟩

theorem AllUncorrected.getPulse (hS : AllUncorrected S) (cfg : Config) (env : Env)
    (pid : PulseIdentifier) :
    AllUncorrected (getPulse cfg env S pid).1 := by
  obtain ⟨T, -, -, hT, hinsert⟩ := @getPulse_batch cfg env S hS pid
  obtain hsame | ⟨n, hinsert, hn⟩ := hinsert.pulses
  · exact hT.of_pulses_eq hsame
  · intro e he
    rw [hinsert] at he
    obtain rfl | he := SortedMap.eq_or_mem_of_mem_insert he
    · exact hn
    · exact hT e he

/-- What `unregisterEventSource` records of the buffer, once the source is released. -/
theorem unregisterEventSource_batch (hS : AllUncorrected S) (i : Fin 256) :
    (∃ new, Batch cfg (releaseAll S i) (unregisterEventSource cfg env S (some i)) new) ∧
      AllUncorrected (unregisterEventSource cfg env S (some i)) := by
  have hrelease := hS.releaseAll i
  simp only [unregisterEventSource, recordReleased]
  split
  · exact ⟨⟨[], .of_same ⟨rfl, rfl⟩⟩, hrelease⟩
  · split
    · exact ⟨⟨[], .of_same ⟨rfl, rfl⟩⟩, hrelease⟩
    · have htake : AllUncorrected (takeCorrections env (takeNoEoP env (releaseAll S i))) := hrelease
      obtain ⟨new, hnew⟩ := recordPrefix_batch cfg env false _ htake
      -- freeing the index touches neither the buffer nor the settings
      exact ⟨⟨new, hnew.recorded, hnew.inOrder, hnew.written, hnew.left⟩,
        htake.recordPrefix cfg env false _⟩

/-- What `markComplete` records of the buffer, once the source has completed its pulse. -/
theorem completeCurrent_batch (hS : AllUncorrected S) (current : PulseIdentifier)
    (smsId : Option (Fin 256)) :
    (∃ new, Batch cfg (completeFor S current smsId) (completeCurrent cfg env S current smsId)
        new) ∧
      AllUncorrected (completeCurrent cfg env S current smsId) := by
  have hcomplete := hS.completeFor current smsId
  simp only [completeCurrent]
  generalize completeFor S current smsId = B at hcomplete ⊢
  split
  · exact ⟨⟨[], .of_same ⟨rfl, rfl⟩⟩, hcomplete⟩
  · rename_i last _
    simp only [recordCompleted]
    generalize hT : (if B.markCompleteCnt % 600 = 0 then takeNoEoP env B else B) = T
    have hsame : SameRecord B T := by
      subst hT
      split <;> exact ⟨rfl, rfl⟩
    split
    · exact ⟨⟨[], .of_same hsame⟩, hcomplete.of_pulses_eq hsame.pulses⟩
    · generalize hU : (if B.markCompleteCnt % 600 = 0 then takeCorrections env T else T) = U
      have hsame' : SameRecord B U := by
        subst hU
        split
        · exact ⟨hsame.pulses, hsame.recordings⟩
        · exact hsame
      have hU' := hcomplete.of_pulses_eq hsame'.pulses
      obtain ⟨new, hnew⟩ := recordPrefix_batch cfg env false _ hU'
      exact ⟨⟨new, hnew.of_left hsame'⟩, hU'.recordPrefix cfg env false _⟩

theorem AllUncorrected.dropIntermittent (hS : AllUncorrected S) (cfg : Config) (env : Env) :
    AllUncorrected (dropIntermittent cfg env S) := by
  unfold SMSControl.dropIntermittent
  split
  · exact hS
  · rename_i i _
    split
    · have hmark : AllUncorrected (markIntermittent S i) := hS
      exact (unregisterEventSource_batch hmark i).2
    · exact hS

theorem isUncorrected_takeRTDL (pkt : RTDLPkt) {p : Pulse} (hp : IsUncorrected p) :
    IsUncorrected (takeRTDL pkt p) :=
  hp.keep fun _ h => hasFlag_setFlagIf_of (hasFlag_setFlagIf_of h _ _) _ _

theorem AllUncorrected.markComplete (hS : AllUncorrected S) {pulseId : UInt64} {dup : UInt32}
    {smsId : Option (Fin 256)} {S' : SMSControl}
    (h : markComplete cfg env S pulseId dup smsId = some S') : AllUncorrected S' := by
  simp only [SMSControl.markComplete, Option.map_eq_some_iff] at h
  obtain ⟨⟨S₁, current, n⟩, hlookup, rfl⟩ := h
  have hrefresh : AllUncorrected (refreshThreshold env S) := hS
  have hlooked := (hrefresh.dropIntermittent cfg env).getPulse cfg env (.mk pulseId dup)
  rw [(lookup_eq_some hlookup).1] at hlooked
  exact (completeCurrent_batch hlooked current smsId).2

theorem AllUncorrected.pulseEvents (hS : AllUncorrected S) {pkt : RawDataPkt} {hwId dup : UInt32}
    {isMapped mixed : Bool} {r : SMSControl × EventCounts}
    (h : pulseEvents cfg env S pkt hwId dup isMapped mixed = some r) : AllUncorrected r.1 := by
  simp only [SMSControl.pulseEvents, Option.bind_eq_some_iff, Option.map_eq_some_iff] at h
  obtain ⟨⟨S₁, k, n⟩, hlookup, a, hfile, rfl⟩ := h
  have hlooked := hS.getPulse cfg env (.mk pkt.pulseId dup)
  obtain ⟨hstate, -, hfound⟩ := lookup_eq_some hlookup
  rw [hstate] at hlooked
  have hn : IsUncorrected n.pulse := hlooked _ (SortedMap.find?_eq_some.mp hfound)
  have hcount : AllUncorrected (countPulseEvents env S₁) := hlooked
  exact hcount.updatePulse k fun _ _ => hn.keep fun _ => hasFlag_fileEvents hfile

theorem AllUncorrected.pulseRTDL (hS : AllUncorrected S) {pkt : RTDLPkt} {dup : UInt32}
    {S' : SMSControl} (h : pulseRTDL cfg env S pkt dup = some S') : AllUncorrected S' := by
  simp only [SMSControl.pulseRTDL, Option.bind_eq_some_iff] at h
  obtain ⟨⟨S₁, k, n⟩, hlookup, h⟩ := h
  have hlooked := hS.getPulse cfg env (.mk pkt.pulseId dup)
  rw [(lookup_eq_some hlookup).1] at hlooked
  have htake : AllUncorrected (storeRing (S₁.updatePulse k (takeRTDL pkt)) pkt) :=
    hlooked.updatePulse k fun _ => isUncorrected_takeRTDL pkt
  split at h
  · exact Option.some.inj h ▸ hlooked
  · split at h
    · have hcount : AllUncorrected
          (countUnregistered (storeRing (S₁.updatePulse k (takeRTDL pkt)) pkt) n.pulse) := htake
      exact (hcount.updatePulse k fun _ hp => hp.keep fun _ h => hasFlag_setFlag_of h _).markComplete
        h
    · exact Option.some.inj h ▸ htake

theorem AllUncorrected.step (hS : AllUncorrected S) {op : Op} {S' : SMSControl}
    (h : step cfg S (env, op) = some S') : AllUncorrected S' := by
  cases op with
  | registerEventSource srcId =>
    simp only [PulseBuffer.step] at h
    split at h
    · cases h
      exact hS
    · rename_i hreg
      cases h
      unfold registerEventSource at hreg
      split at hreg
      · cases hreg
      · cases hreg
        exact hS
  | unregisterEventSource smsId =>
    cases h
    cases smsId with
    | none => exact hS
    | some i => exact (unregisterEventSource_batch hS i).2
  | getPulse pid =>
    cases h
    exact hS.getPulse cfg env pid
  | pulseEvents pkt hwId dup isMapped mixed =>
    simp only [PulseBuffer.step, Option.map_eq_some_iff] at h
    obtain ⟨r, hr, rfl⟩ := h
    exact hS.pulseEvents hr
  | pulseRTDL pkt dup => exact hS.pulseRTDL h
  | markPartial pulseId dup =>
    simp only [PulseBuffer.step, markPartial, Option.map_eq_some_iff] at h
    -- marking a pulse partial sets a flag, and takes none away
    obtain ⟨⟨S₁, k, n⟩, hlookup, rfl⟩ := h
    have hlooked := hS.getPulse cfg env (.mk pulseId dup)
    rw [(lookup_eq_some hlookup).1] at hlooked
    exact hlooked.updatePulse k fun _ hp => hp.keep fun _ h => hasFlag_setFlag_of h _
  | markComplete pulseId dup smsId => exact hS.markComplete h
  | popPulseBuffer pulseIndex =>
    cases h
    obtain h | ⟨i, hi, h⟩ := popPulseBuffer_cases S pulseIndex
    · rwa [h]
    · rw [h]
      intro e he
      exact hS e (List.mem_of_mem_eraseIdx he)

end Callers

/-! ### Whole runs -/

/-- The states the SMS passes through, between its calls and inside them: those in which a
    pulse is looked up, a source unregistered or a pulse completed among them. -/
inductive Passed (cfg : Config) (S₀ : SMSControl) : SMSControl → Prop where
  | run {ops : List (Env × Op)} {S} (h : Runs.run (step cfg) S₀ ops = some S) : Passed cfg S₀ S
  | getPulse {S} (env : Env) (pid : PulseIdentifier) (h : Passed cfg S₀ S) :
      Passed cfg S₀ (getPulse cfg env S pid).1
  | refreshThreshold {S} (env : Env) (h : Passed cfg S₀ S) :
      Passed cfg S₀ (refreshThreshold env S)
  | markIntermittent {S} (i : Fin 256) (h : Passed cfg S₀ S) :
      Passed cfg S₀ (markIntermittent S i)
  | dropIntermittent {S} (env : Env) (h : Passed cfg S₀ S) :
      Passed cfg S₀ (dropIntermittent cfg env S)
  | takeRTDL {S} (pid : PulseIdentifier) (pkt : RTDLPkt) (h : Passed cfg S₀ S) :
      Passed cfg S₀ (storeRing (S.updatePulse pid (takeRTDL pkt)) pkt)
  | countUnregistered {S} (pid : PulseIdentifier) (p : Pulse) (h : Passed cfg S₀ S) :
      Passed cfg S₀
        ((countUnregistered S p).updatePulse pid (·.setFlag PulseFlags.partialData))

theorem uncorrected_passed {cfg : Config} {settings : Settings} {noRTDLPulses : Bool}
    {memory : Fin 256 → Nat} {S : SMSControl}
    (h : Passed cfg (initial settings noRTDLPulses memory) S) : AllUncorrected S := by
  induction h with
  | run h =>
    have hinitial : AllUncorrected (initial settings noRTDLPulses memory) :=
      fun e he => absurd he List.not_mem_nil
    exact Runs.invariant (fun _ _ _ hS hs => AllUncorrected.step hS hs) hinitial h
  | getPulse env pid _ ih => exact ih.getPulse cfg env pid
  | refreshThreshold env _ ih => exact ih
  | markIntermittent i _ ih => exact ih
  | dropIntermittent env _ ih => exact ih.dropIntermittent cfg env
  | takeRTDL pid pkt _ ih => exact ih.updatePulse pid fun _ => isUncorrected_takeRTDL pkt
  | countUnregistered pid p _ ih =>
    exact AllUncorrected.updatePulse ih pid fun _ hp => hp.keep fun _ h => hasFlag_setFlag_of h _

/-- Whatever is recorded in one step, by looking a pulse up, unregistering a source or
    completing a pulse, is written as `Batch` says. -/
theorem recorded_batches {cfg : Config} {settings : Settings} {noRTDLPulses : Bool}
    {memory : Fin 256 → Nat} {S : SMSControl}
    (h : Passed cfg (initial settings noRTDLPulses memory) S) (env : Env) :
    (∀ pid, ∃ T new, Batch cfg S T new ∧ Inserted pid T (getPulse cfg env S pid).1) ∧
      (∀ i, ∃ new,
        Batch cfg (releaseAll S i) (unregisterEventSource cfg env S (some i)) new) ∧
      ∀ current smsId, ∃ new,
        Batch cfg (completeFor S current smsId) (completeCurrent cfg env S current smsId) new := by
  have hS := uncorrected_passed h
  refine ⟨fun pid => ?_, fun i => (unregisterEventSource_batch hS i).1,
    fun current smsId => (completeCurrent_batch hS current smsId).1⟩
  obtain ⟨T, new, hbatch, -, hinserted⟩ := @getPulse_batch cfg env S hS pid
  exact ⟨T, new, hbatch, hinserted⟩

/-- Pulses come sixty times a second. -/
def sixtyHertz : Config :=
  { smallConfig with interPulseTimeMin := 12833333, interPulseTimeMax := 20500000 }

/-- Both corrections are enabled. -/
def correcting : Env := { smallEnv with doPulsePchgCorrect := true, doPulseVetoCorrect := true }

/-- Two pulses are in the buffer, a sixtieth of a second apart. -/
def twoPulses : SMSControl :=
  (getPulse sixtyHertz correcting (getPulse sixtyHertz correcting
    (initial smallSettings false fun _ => 0) (.mk 0x100000000 0)).1 (.mk 0x100fe502a 0)).1

theorem recorded_batches_twoPulses :
    twoPulses.pulses.entries.length = 2 ∧
      ∃ new, Batch sixtyHertz (releaseAll twoPulses 0)
        (unregisterEventSource sixtyHertz correcting twoPulses (some 0)) new := by
  refine ⟨by decide, ?_⟩
  have hinitial : Passed sixtyHertz (initial smallSettings false fun _ => 0)
      (initial smallSettings false fun _ => 0) := @Passed.run _ _ [] _ rfl
  exact (recorded_batches ((hinitial.getPulse correcting _).getPulse correcting _)
    correcting).2.1 0

end Adara.Spec.PulseBuffer
