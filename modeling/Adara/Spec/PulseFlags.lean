import Adara.Native.PulseBuffer

/-! # Flags of a pulse

Which flags the operations on a pulse keep.  Only the corrections of charge and veto flags
clear any, and those only the two that say that a correction is missing. -/

namespace Adara.Spec.PulseBuffer

open Adara.Native Adara.Native.SMSControl

theorem hasFlag_setFlag (p : Pulse) (flag flag' : UInt32) :
    (p.setFlag flag).hasFlag flag' = (p.hasFlag flag' || flag &&& flag' != 0) := by
  have hdistrib : (p.flags ||| flag) &&& flag' = (p.flags &&& flag') ||| (flag &&& flag') := by
    rw [← UInt32.toBitVec_inj]
    exact BitVec.and_or_distrib_right
  simp only [Pulse.hasFlag, Pulse.setFlag, hdistrib]
  by_cases h : p.flags &&& flag' = 0
  · simp [h]
  · simp [h, bne, beq_eq_decide]

theorem hasFlag_setFlag_self (p : Pulse) {flag : UInt32} (h : flag ≠ 0) :
    (p.setFlag flag).hasFlag flag = true := by
  rw [hasFlag_setFlag, UInt32.and_self]
  simp [h]

theorem hasFlag_setFlag_of {p : Pulse} {flag' : UInt32} (h : p.hasFlag flag' = true)
    (flag : UInt32) : (p.setFlag flag).hasFlag flag' = true := by
  rw [hasFlag_setFlag, h, Bool.true_or]

theorem hasFlag_setFlagIf_of {p : Pulse} {flag' : UInt32} (h : p.hasFlag flag' = true)
    (cond : Bool) (flag : UInt32) : (p.setFlagIf cond flag).hasFlag flag' = true := by
  unfold Pulse.setFlagIf
  split
  · exact hasFlag_setFlag_of h flag
  · exact h

theorem hasFlag_releasePartial_of {p : Pulse} {flag : UInt32} (h : p.hasFlag flag = true)
    (smsId : Fin 256) : (p.releasePartial smsId).hasFlag flag = true := by
  unfold Pulse.releasePartial
  split
  · exact hasFlag_setFlag_of h _
  · exact h

/-- A pulse that was pending on the source is partial. -/
theorem hasFlag_releasePartial {p : Pulse} {smsId : Fin 256} (h : smsId ∈ p.pending) :
    (p.releasePartial smsId).hasFlag PulseFlags.partialData = true := by
  rw [Pulse.releasePartial, if_pos h]
  exact hasFlag_setFlag_self p (by decide)

/-! ### Corrections -/

/-- The time between two pulses, in nanoseconds and in 64-bit arithmetic. -/
def interPulseTime (p next : Pulse) : UInt64 :=
  let sec (id : UInt64) : UInt64 := id >>> 32
  let nsec (id : UInt64) : UInt64 := id &&& 0xffffffff
  (sec (ofLex next.id).1 - sec (ofLex p.id).1) * 1000000000 +
    (nsec (ofLex next.id).1 - nsec (ofLex p.id).1)

/-- The next pulse is near enough in time, and not too near. -/
def InRange (cfg : Config) (p next : Pulse) : Prop :=
  cfg.interPulseTimeMin < interPulseTime p next ∧ interPulseTime p next < cfg.interPulseTimeMax

/-- The charge that a pulse takes from the next one. -/
def chargeFrom (next : Pulse) : UInt32 :=
  match next.rtdl with
  | some rtdl => if next.charge = 0 then rtdl.pulseCharge else next.charge
  | none => next.charge

/-- The RTDL of a pulse, with what is enabled taken from that of the next one. -/
def rtdlFrom (s : Settings) : Option RTDLPkt → Option RTDLPkt → Option RTDLPkt
  | some rtdl, some nextRtdl =>
    let rtdl := if s.doPulsePchgCorrect then rtdl.setPulseCharge nextRtdl.pulseCharge else rtdl
    some (if s.doPulseVetoCorrect then rtdl.setVetoFlags nextRtdl.vetoFlags else rtdl)
  | rtdl, _ => rtdl

/-- The flags of a pulse whose corrections that are enabled have been made. -/
def correctedFlags (s : Settings) (flags : UInt32) : UInt32 :=
  let flags := if s.doPulsePchgCorrect then flags &&& ~~~PulseFlags.pchargeUncorrected else flags
  if s.doPulseVetoCorrect then flags &&& ~~~PulseFlags.vetoUncorrected else flags

/-- A pulse in range takes what is enabled from the next one, another pulse nothing. -/
theorem correctPChargeVeto_inRange {cfg : Config} (s : Settings) {p next : Pulse}
    (h : InRange cfg p next) :
    correctPChargeVeto cfg s p next =
      { p with
        charge := if s.doPulsePchgCorrect then chargeFrom next else p.charge
        vetoFlags := if s.doPulseVetoCorrect then next.vetoFlags else p.vetoFlags
        flags := correctedFlags s p.flags
        rtdl := rtdlFrom s p.rtdl next.rtdl } := by
  refine (if_pos h).trans ?_
  unfold correctedFlags rtdlFrom chargeFrom
  obtain ⟨id, pending, numEventSources, rtdl⟩ := p
  cases s.doPulsePchgCorrect with
  | false => cases s.doPulseVetoCorrect <;> cases rtdl <;> cases next.rtdl <;> rfl
  | true => cases s.doPulseVetoCorrect <;> cases rtdl <;> cases next.rtdl <;> rfl

theorem correctPChargeVeto_outOfRange {cfg : Config} (s : Settings) {p next : Pulse}
    (h : ¬ InRange cfg p next) : correctPChargeVeto cfg s p next = p :=
  if_neg h

/-- The corrections leave every flag alone but the two that they clear. -/
theorem hasFlag_correctPChargeVeto (cfg : Config) (s : Settings) (p next : Pulse) {flag : UInt32}
    (hcharge : ~~~PulseFlags.pchargeUncorrected &&& flag = flag)
    (hveto : ~~~PulseFlags.vetoUncorrected &&& flag = flag) :
    (correctPChargeVeto cfg s p next).hasFlag flag = p.hasFlag flag := by
  by_cases h : InRange cfg p next
  · rw [correctPChargeVeto_inRange s h]
    simp only [Pulse.hasFlag, correctedFlags]
    cases s.doPulsePchgCorrect <;> cases s.doPulseVetoCorrect <;>
      simp [UInt32.and_assoc, hcharge, hveto]
  · rw [correctPChargeVeto_outOfRange s h]

/-! ### Recorded pulses -/

/-- A pulse as it is recorded, with the pulse behind it in the buffer, if there is one. -/
def asRecorded (cfg : Config) (s : Settings) (overflow : Bool) (p : Pulse) (next : Option Pulse) :
    Pulse :=
  let p := p.setFlagIf (overflow && p.pending ≠ ∅) PulseFlags.partialData
  let p :=
    match next with
    | some next =>
      if s.doPulsePchgCorrect || s.doPulseVetoCorrect then correctPChargeVeto cfg s p next else p
    | none => p
  let p := p.setFlagIf p.rtdl.isNone PulseFlags.missingRtdl
  p.setFlagIf (p.vetoFlags &&& cfg.targetVetoMask != 0) PulseFlags.pulseVeto

/-- Each pulse is recorded with the pulse behind it as the buffer holds that before anything is
    recorded. -/
theorem getElem?_recordLoop (cfg : Config) (env : Env) (s : Settings) (overflow : Bool)
    {n j : Nat} (hj : j < n) (r : RecordState) (lastPid : PulseIdentifier)
    (entries : List (PulseIdentifier × Node)) :
    (recordLoop cfg env s overflow n r lastPid entries).2.2[j]? =
      entries[j]?.map fun e => (e.1, { e.2 with
        pulse := asRecorded cfg s overflow e.2.pulse (entries[j + 1]?.map (·.2.pulse)) }) := by
  induction entries generalizing n j r lastPid with
  | nil => cases n <;> rfl
  | cons e rest ih =>
    cases n with
    | zero => exact absurd hj (Nat.not_lt_zero j)
    | succ n =>
      cases j with
      | zero =>
        simp only [recordLoop, List.getElem?_cons_zero, List.getElem?_cons_succ, Option.map_some]
        cases rest with
        | nil => rfl
        | cons next rest => rfl
      | succ j =>
        simp only [recordLoop, List.getElem?_cons_succ]
        exact ih (Nat.lt_of_succ_lt_succ hj) _ _

/-- A flag that is not for the corrections is recorded. -/
theorem hasFlag_asRecorded_of (cfg : Config) (s : Settings) (overflow : Bool) {p : Pulse}
    (next : Option Pulse) {flag : UInt32}
    (hcharge : ~~~PulseFlags.pchargeUncorrected &&& flag = flag)
    (hveto : ~~~PulseFlags.vetoUncorrected &&& flag = flag) (h : p.hasFlag flag = true) :
    (asRecorded cfg s overflow p next).hasFlag flag = true := by
  have hpartial := hasFlag_setFlagIf_of h (overflow && p.pending ≠ ∅) PulseFlags.partialData
  simp only [asRecorded]
  refine hasFlag_setFlagIf_of (hasFlag_setFlagIf_of ?_ _ _) _ _
  split
  · split
    · rw [hasFlag_correctPChargeVeto _ _ _ _ hcharge hveto]
      exact hpartial
    · exact hpartial
  · exact hpartial

end Adara.Spec.PulseBuffer
