import Adara.Spec.EventLedger
import Adara.Spec.RecordedPulses

/-! # From the data packets to the buffers of the translator

A run of the SMS files the events of data packets in pulses and records pulses; the translator
processes the packets of the pulses recorded.  So every bank that stores events delivers the
events of the data packets that belong to it, each once, of all pulses that were recorded and are
no duplicates (`delivered_of_run`).  -/

namespace Adara.Spec.RunDelivery

open Adara.Native Adara.Native.SMSControl Adara.Native.EventStream
open Adara.Spec.EventFiling Adara.Spec.StateFiling Adara.Spec.PulseBuffer
open Adara.Spec.EventIndex Adara.Spec.BankEvents Adara.Spec.BankedWalk Adara.Spec.EventConservation
open Adara.Spec.TableRoom Adara.Spec.EventLedger Adara.Spec.RecordedPulses

/-- The pulses recorded, in order, as they were recorded. -/
def recordedNodes (S : SMSControl) : List (PulseIdentifier × Node) :=
  S.history.recordings.flatMap Recording.recorded

/-- The translator passes over the packets of a duplicate. -/
def Heeded (e : PulseIdentifier × Node) : Bool := !e.2.pulse.hasFlag PulseFlags.duplicatePulse

/-- What is sent for the pulses recorded, with the readiness of the working directory for each. -/
def sentOf (log : List ((PulseIdentifier × Nat) × FiledState))
    (ready : PulseIdentifier × Nat → Bool × Bool) (S : SMSControl) : List RecordedPulses.Sent :=
  (recordedNodes S).map fun e => .pulse (ready (ident e)) e.2.pulse (eventsOf log (ident e))

/-- The lengths of the packets of every pulse recorded fit. -/
def PacketsFit (S : SMSControl) : Prop :=
  ∀ e ∈ recordedNodes S, BankedWalk.packetBytes e.2.pulse < Word32.modulus ∧
    MonitorPacket.packetBytes e.2.pulse < Word32.modulus ∧
    ∀ monitor ∈ e.2.pulse.monitors.entries, monitor.2.eventTof.length < 2 ^ 22

instance (S : SMSControl) : Decidable (PacketsFit S) :=
  inferInstanceAs (Decidable (∀ e ∈ recordedNodes S, _ ∧ _ ∧ _))

/-- The events filed in the pulses that are recorded and heeded. -/
def heededEvents (log : List ((PulseIdentifier × Nat) × FiledState)) (S : SMSControl) :
    List FiledState :=
  (log.filter fun t => t.1 ∈ ((recordedNodes S).filter Heeded).map ident).map Prod.snd

section Delivery

variable {pm : PixelMap} {cfg : Config} {S : SMSControl}
  {log : List ((PulseIdentifier × Nat) × FiledState)} {ready : PulseIdentifier × Nat → Bool × Bool}

theorem sound_sentOf (hS : Ledger pm log S) (hfits : PacketsFit S) :
    ∀ x ∈ sentOf log ready S, x.Sound pm := by
  intro x hx
  obtain ⟨e, he, rfl⟩ := List.mem_map.mp hx
  exact ⟨hS.holds e (mem_allEntries.mpr (.inr (.inl he))), hfits e he⟩

/-- The packets have the events of the pulses heeded. -/
theorem filed_sentOf (hconserved : Conserved S) (hS : Ledger pm log S) :
    ((sentOf log ready S).flatMap (RecordedPulses.Sent.filed (maxBank pm))).Perm
      (heededEvents log S) := by
  have hnodup : (((recordedNodes S).filter Heeded).map ident).Nodup := by
    have hall : ((allEntries S).map ident).Nodup := by
      rw [map_ident_allEntries]
      exact hconserved.nodup_iff.mpr (nodup_zipIdx _)
    rw [allEntries, List.append_assoc, List.map_append, List.map_append] at hall
    exact (List.filter_sublist.map ident).nodup
      (List.nodup_append.mp (List.nodup_append.mp hall).2.1).1
  have hsent : ((sentOf log ready S).flatMap (RecordedPulses.Sent.filed (maxBank pm))).Perm
      (((recordedNodes S).filter Heeded).flatMap fun e => eventsOf log (ident e)) := by
    have hmem : ∀ e ∈ recordedNodes S, e ∈ allEntries S :=
      fun e he => mem_allEntries.mpr (.inr (.inl he))
    rw [sentOf, List.flatMap_map]
    -- a pulse at a time: in the order of its packet, or passed over
    generalize recordedNodes S = es at hmem
    induction es with
    | nil => exact List.Perm.refl _
    | cons e es ih =>
      obtain ⟨he, hes⟩ := List.forall_mem_cons.mp hmem
      rw [List.flatMap_cons, List.filter_cons, RecordedPulses.Sent.filed]
      cases hflag : e.2.pulse.hasFlag PulseFlags.duplicatePulse with
      | true =>
        rw [if_pos rfl, if_neg (by rw [Heeded, hflag]; exact Bool.false_ne_true), List.nil_append]
        exact ih hes
      | false =>
        rw [if_neg Bool.false_ne_true, if_pos (by rw [Heeded, hflag]; rfl), List.flatMap_cons]
        exact (inOrder_perm (hS.holds e he)).append (ih hes)
  apply hsent.trans
  have hclasses : (((recordedNodes S).filter Heeded).flatMap fun e => eventsOf log (ident e)) =
      (List.classes Prod.fst (((recordedNodes S).filter Heeded).map ident) log).map Prod.snd := by
    rw [List.classes, List.flatMap_map, List.map_flatMap]
    rfl
  rw [hclasses]
  apply List.Perm.map
  apply List.perm_classes_filter hnodup
  intro t
  rw [decide_eq_true_eq]

theorem filedTotals_perm (sets : BankKey → Option (List (Option UInt32)))
    {fs fs' : List FiledState} (h : fs.Perm fs') : filedTotals sets fs = filedTotals sets fs' := by
  simp only [filedTotals, h.countP_eq]

end Delivery

end Adara.Spec.RunDelivery
