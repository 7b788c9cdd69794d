import Adara.Spec.CursorWalks
import Adara.Spec.MonitorWalks

/-! # Walks through the events of a packet

Of the numbers of banks and events in a packet nothing is checked when it is accepted.  The
cursors of the packets and the loops of the translator all go by them, and stay in the payload
just if it is walkable by their rules (`walks_inside_iff`).  A header that announces
a bank or an event, at the end of the payload, leads them out of it (`not_walks_inside`). -/

namespace Adara.Spec.EventWalks

open Adara.Native
open SectionWalks
open CursorWalks (cursorRules)
open MonitorWalks (cursorFits)

/-- The words of a payload that is accepted: the pulse data, and whatever follows. -/
structure EventPayload where
  words : List UInt32
  header_le : 4 ≤ words.length
  length_lt : 4 * words.length < Word32.modulus

namespace EventPayload

variable (p : EventPayload)

/-- The sections of sources or beam monitors. -/
def sections : List UInt32 := p.words.drop 4

def bankedEvent : BankedEventPkt := ⟨4 * p.words.length, p.words⟩

def beamMonitor : BeamMonitorPkt := ⟨4 * p.words.length, p.words⟩

theorem complete_bankedEvent : BankedFormat.Complete p.bankedEvent :=
  ⟨rfl, p.length_lt, p.header_le⟩

theorem complete_beamMonitor : MonitorPacket.Complete p.beamMonitor := ⟨rfl, p.length_lt⟩

/-- The constructors accept just these payloads, if they are as long as the header says. -/
theorem ofWords_iff (pktType secs nsecs : UInt32) (words : List UInt32)
    (hlen : 4 * words.length < Word32.modulus) :
    ((BankedEventPkt.ofWords
          (UInt32.ofNat (4 * words.length) :: pktType :: secs :: nsecs :: words)).isOk ↔
        ∃ p : EventPayload, p.words = words) ∧
      ((BeamMonitorPkt.ofWords
          (UInt32.ofNat (4 * words.length) :: pktType :: secs :: nsecs :: words)).isOk ↔
        ∃ p : EventPayload, p.words = words) := by
  have hpayload : (UInt32.ofNat (4 * words.length)).toNat = 4 * words.length :=
    UInt32.toNat_ofNat_of_lt' hlen
  have hiff : ¬ 4 * words.length < 16 ↔ ∃ p : EventPayload, p.words = words := by
    constructor
    · exact fun h => ⟨⟨words, by omega, hlen⟩, rfl⟩
    · rintro ⟨p, rfl⟩
      have hheader := p.header_le
      omega
  rw [BankedEventPkt.ofWords, BeamMonitorPkt.ofWords, hpayload, ← hiff]
  constructor
  · split <;> simp_all [Except.isOk, Except.toBool]
  · split <;> simp_all [Except.isOk, Except.toBool]

end EventPayload

/-- The five walks.  First those of the cursors, for all calls in any order: the words that
    `firstEvent` and `nextEvent` read themselves, the same with the events they point to, and
    the words that the calls for beam monitors read.  Then the loops of the translator over
    banked events, with or without states: the words they read themselves, and the same with
    the events that are processed.  At last its loop over beam monitors, that never reads a
    word outside itself. -/
theorem walks_inside_iff (p : EventPayload) :
    (((∀ calls, (Runs.run (BankedEventPkt.cursorStep p.bankedEvent) .new calls).isSome) ↔
        Walkable (cursorRules False p.words.length) false 0 p.sections) ∧
      ((∀ calls, ∃ c, Runs.run (BankedEventPkt.cursorStep p.bankedEvent) .new calls = some c ∧
          ∀ i, c.curEvent = some i → i + 1 < p.words.length) ↔
        Walkable (cursorRules True p.words.length) false 0 p.sections) ∧
      ((∀ calls, (Runs.run (BeamMonitorPkt.monitorStep p.beamMonitor) ⟨0, 0⟩ calls).isSome) ↔
        MonitorWalks.Walkable (cursorFits p.words.length) p.sections)) ∧
    (∀ withState,
      ((walkSources withState (fun _ _ => some ()) p.words.length () p.sections).isSome ↔
        Walkable (translatorRules withState fun _ => True) false 0 p.sections) ∧
      ((walkSources withState (fun _ bank => bank.events.map fun _ => ()) p.words.length ()
          p.sections).isSome ↔
        Walkable (translatorRules withState fun bank => bank.eventWords ≤ bank.rpos.length)
          false 0 p.sections)) ∧
    (walkMonitors (fun _ _ => some ()) p.words.length () p.sections).isSome ∧
    ((walkMonitors (fun _ monitor => monitor.events.map fun _ => ()) p.words.length ()
        p.sections).isSome ↔
      MonitorWalks.Walkable (fun field rest =>
          (MonitorSection.ofHeader field rest).eventCount ≤
            (MonitorSection.ofHeader field rest).rpos.length) p.sections) := by
  have hfuel : p.sections.length ≤ p.words.length := by
    rw [EventPayload.sections, List.length_drop]
    omega
  refine ⟨⟨?_, ?_, ?_⟩, fun withState => ⟨?_, ?_⟩, ?_, ?_⟩
  · refine Iff.trans (forall_congr' fun calls => ?_)
      (@CursorWalks.run_inside_iff False _ p.complete_bankedEvent)
    rw [Option.isSome_iff_exists]
    exact exists_congr fun c => (and_iff_left nofun).symm
  · refine Iff.trans (forall_congr' fun calls => exists_congr fun c => ?_)
      (@CursorWalks.run_inside_iff True _ p.complete_bankedEvent)
    exact and_congr_right fun _ => true_imp_iff.symm
  · exact MonitorWalks.run_isSome_iff p.complete_beamMonitor
  · exact walkSources_isSome_iff (fun _ _ => iff_of_true rfl trivial) hfuel ()
  · refine walkSources_isSome_iff (fun _ bank => ?_) hfuel ()
    rw [Option.isSome_map, BankSection.events]
    split <;> simp_all
  · exact (MonitorWalks.walkMonitors_isSome_iff (fun _ _ => iff_of_true rfl trivial) hfuel ()).mpr
      (MonitorWalks.walkable_of_forall (fun _ _ => trivial) _)
  · have hprocess : ∀ monitor : MonitorSection, (monitor.events.map fun _ => ()).isSome ↔
        monitor.eventCount ≤ monitor.rpos.length := by
      intro monitor
      rw [Option.isSome_map, MonitorSection.events]
      split <;> simp_all
    exact @MonitorWalks.walkMonitors_isSome_iff Unit _
      (fun monitor => monitor.eventCount ≤ monitor.rpos.length) (fun _ => hprocess) _ _ hfuel ()

/-- A source that announces a bank, at the end of the payload. -/
def oneBank : EventPayload := ⟨[0, 0, 0, 0, 1, 0, 0, 1], by decide, by decide⟩

/-- A beam monitor that announces an event, at the end of the payload. -/
def oneEvent : EventPayload := ⟨[0, 0, 0, 0, 1], by decide, by decide⟩

/-- Of the walks that read what is announced, none stays in every payload. -/
theorem not_walks_inside :
    (¬ ∀ p : EventPayload,
      ∀ calls, (Runs.run (BankedEventPkt.cursorStep p.bankedEvent) .new calls).isSome) ∧
    (¬ ∀ p : EventPayload,
      ∀ calls, (Runs.run (BeamMonitorPkt.monitorStep p.beamMonitor) ⟨0, 0⟩ calls).isSome) ∧
    ∀ withState, ¬ ∀ p : EventPayload,
      (walkSources withState (fun _ _ => some ()) p.words.length () p.sections).isSome := by
  refine ⟨fun h => ?_, fun h => ?_, fun withState h => ?_⟩
  · have hfirst := h oneBank [.firstEvent]
    revert hfirst
    decide
  · have hevent := h oneEvent [.nextSection, .nextEvent]
    revert hevent
    decide
  · have hwalk := h oneBank
    revert hwalk
    cases withState <;> decide

end Adara.Spec.EventWalks
