import Adara.ForStd.Runs
import Adara.Native.EventPackets
import Adara.Native.EventStream
import Adara.Spec.MonitorPacket

/-! # Walking the sections of a beam monitor packet

A payload of beam monitor events is a list of sections, each with the events its header
announces.  The translator's loop looks for the end before every header, and never reads one
outside; but it gives away events that are not there (`walkMonitors_isSome_iff`).  The cursor of
a `BeamMonitorPkt` reads these events itself (`run_isSome_iff`). -/

namespace Adara.Spec.MonitorWalks

open Adara.Native Adara.Native.BeamMonitorPkt
open MonitorPacket (Complete)

/-- The sections, each a word and the words behind it, have what a walk needs of them. -/
inductive Walkable (fits : UInt32 → List UInt32 → Prop) : List UInt32 → Prop
  | nil : Walkable fits []
  | cons {field : UInt32} {rest : List UInt32} (hfits : fits field rest)
      (hrest : Walkable fits ((MonitorSection.ofHeader field rest).rpos.drop
        (MonitorSection.ofHeader field rest).eventCount)) :
      Walkable fits (field :: rest)

theorem walkable_cons_iff {fits : UInt32 → List UInt32 → Prop} {field : UInt32}
    {rest : List UInt32} :
    Walkable fits (field :: rest) ↔ fits field rest ∧
      Walkable fits ((MonitorSection.ofHeader field rest).rpos.drop
        (MonitorSection.ofHeader field rest).eventCount) := by
  constructor
  · rintro ⟨⟩
    exact ⟨‹_›, ‹_›⟩
  · rintro ⟨hfits, hrest⟩
    exact .cons hfits hrest

/-! ### The translator -/

/-- The translator's loop comes to the end of the payload just if every section has what is
    needed of it. -/
theorem walkMonitors_isSome_iff {σ : Type} {process : σ → MonitorSection → Option σ}
    {fits : MonitorSection → Prop} (hprocess : ∀ s monitor, (process s monitor).isSome ↔ fits monitor)
    {fuel : Nat} {ws : List UInt32} (hfuel : ws.length ≤ fuel) (s : σ) :
    (walkMonitors process fuel s ws).isSome ↔
      Walkable (fun field rest => fits (MonitorSection.ofHeader field rest)) ws := by
  induction fuel generalizing s ws with
  | zero =>
    obtain rfl := List.eq_nil_of_length_eq_zero (Nat.le_zero.mp hfuel)
    exact iff_of_true rfl .nil
  | succ fuel ih =>
    cases ws with
    | nil => exact iff_of_true rfl .nil
    | cons field rest =>
      rw [walkMonitors, walkable_cons_iff]
      have hprocess' := hprocess s (MonitorSection.ofHeader field rest)
      cases hresult : process s (MonitorSection.ofHeader field rest) with
      | none =>
        rw [hresult] at hprocess'
        exact iff_of_false Bool.false_ne_true fun h => Bool.false_ne_true (hprocess'.mpr h.1)
      | some s' =>
        rw [hresult] at hprocess'
        have hlen : ((MonitorSection.ofHeader field rest).rpos.drop
            (MonitorSection.ofHeader field rest).eventCount).length ≤ fuel := by
          rw [List.length_cons] at hfuel
          rw [List.length_drop, MonitorSection.ofHeader, List.length_drop]
          omega
        exact (ih hlen s').trans (and_iff_right (hprocess'.mp rfl)).symm

/-- Sections of which nothing is needed are walkable. -/
theorem walkable_of_forall {fits : UInt32 → List UInt32 → Prop} (h : ∀ field rest, fits field rest)
    (ws : List UInt32) : Walkable fits ws := by
  cases ws with
  | nil => exact .nil
  | cons field rest =>
    have hlen : ((MonitorSection.ofHeader field rest).rpos.drop
        (MonitorSection.ofHeader field rest).eventCount).length ≤ rest.length := by
      rw [List.length_drop, MonitorSection.ofHeader, List.length_drop]
      omega
    exact .cons (h field rest) (walkable_of_forall h _)
termination_by ws.length
decreasing_by exact Nat.lt_succ_of_le hlen

/-! ### The cursor -/

/-- What the cursor needs of a section, in a payload of `n` words: its events, and that the
    number of bytes up to their end fits in 32 bits. -/
def cursorFits (n : Nat) (field : UInt32) (rest : List UInt32) : Prop :=
  (MonitorSection.ofHeader field rest).eventCount ≤
      (MonitorSection.ofHeader field rest).rpos.length ∧
    4 * (n - rest.length + 2 + (MonitorSection.ofHeader field rest).eventCount) < Word32.modulus

variable {pkt : BeamMonitorPkt} {s i : Nat} {field : UInt32} {rest : List UInt32}

/-- The events in the header of a section. -/
abbrev countOf (field : UInt32) : Nat := (field &&& eventCountMask).toNat

theorem countOf_lt (field : UInt32) : countOf field < 2 ^ 22 := by
  rw [countOf, UInt32.toNat_and]
  exact Nat.and_lt_two_pow _ (by decide)

/-- The cursor is in a section, and can only have gone through its events. -/
structure InSection (pkt : BeamMonitorPkt) (s : Nat) (field : UInt32) (rest : List UInt32) :
    Prop where
  ne_zero : s ≠ 0
  ahead : pkt.fields.drop s = field :: rest

namespace InSection

variable (hin : InSection pkt s field rest)
include hin

theorem field_eq : pkt.fields[s]? = some field := by
  rw [← Nat.add_zero s, ← List.getElem?_drop, hin.ahead]
  rfl

theorem length_eq : s + 1 + rest.length = pkt.fields.length := by
  have hlen := congrArg List.length hin.ahead
  rw [List.length_drop, List.length_cons] at hlen
  omega

/-- `nextEvent` reads an event while there is one. -/
theorem nextEvent_eq (hpkt : Complete pkt) (hi : i < countOf field) :
    monitorStep pkt ⟨s, i⟩ .nextEvent =
      (pkt.fields[s + 3 + i]?).map fun _ => ⟨s, i + 1⟩ := by
  have hfits := hpkt.fits
  have hlen := hpkt.length_eq
  have hsection := hin.length_eq
  have hcount := countOf_lt field
  have hmod : Word32.modulus = 2 ^ 32 := rfl
  have hthree : Word32.add s 3 = s + 3 := Word32.add_of_lt (by omega)
  have hevent : Word32.add (s + 3) i = s + 3 + i := Word32.add_of_lt (by omega)
  have hnext : Word32.add i 1 = i + 1 := Word32.add_of_lt (by omega)
  simp only [monitorStep, nextEvent, if_neg hin.ne_zero, hin.field_eq, Option.bind_eq_bind,
    Option.bind_some, if_pos hi, hthree, hevent, hnext]
  cases pkt.fields[s + 3 + i]? <;> rfl

theorem nextEvent_done (hi : ¬ i < countOf field) :
    monitorStep pkt ⟨s, i⟩ .nextEvent = some ⟨s, i⟩ := by
  simp only [monitorStep, nextEvent, if_neg hin.ne_zero, hin.field_eq, Option.bind_eq_bind,
    Option.bind_some, if_neg hi, Option.map_some]

/-- `nextSection` goes behind the events announced. -/
theorem nextSection_eq (hpkt : Complete pkt) :
    monitorStep pkt ⟨s, i⟩ .nextSection =
      some (if Word32.mul (s + 3 + countOf field) 4 < pkt.payloadLen then
        ⟨s + 3 + countOf field, 0⟩ else ⟨s, i⟩) := by
  have hfits := hpkt.fits
  have hlen := hpkt.length_eq
  have hsection := hin.length_eq
  have hcount := countOf_lt field
  have hmod : Word32.modulus = 2 ^ 32 := rfl
  have hthree : Word32.add s 3 = s + 3 := Word32.add_of_lt (by omega)
  have hnext : Word32.add (s + 3) (countOf field) = s + 3 + countOf field :=
    Word32.add_of_lt (by omega)
  simp only [monitorStep, nextSection, if_neg hin.ne_zero, hin.field_eq, Option.bind_eq_bind,
    Option.map_some, Option.bind_some, hthree]
  rw [hnext]
  split <;> rfl

end InSection

/-- All calls stay inside the payload. -/
def Inside (pkt : BeamMonitorPkt) (c : MonitorCursor) : Prop :=
  ∀ calls, (Runs.run (monitorStep pkt) c calls).isSome

theorem Inside.step {c : MonitorCursor} (h : Inside pkt c) (call : MonitorCall) :
    ∃ c', monitorStep pkt c call = some c' ∧ Inside pkt c' := by
  cases hstep : monitorStep pkt c call with
  | none =>
    have hrun := h [call]
    rw [Runs.run, hstep] at hrun
    cases hrun
  | some c' =>
    refine ⟨c', rfl, fun calls => ?_⟩
    have hrun := h (call :: calls)
    rwa [Runs.run, hstep] at hrun

/-- Where all calls stay inside, so do those that go through the events of a section. -/
theorem Inside.events (hin : InSection pkt s field rest) (hpkt : Complete pkt)
    (h : Inside pkt ⟨s, 0⟩) (hi : i ≤ countOf field) :
    Inside pkt ⟨s, i⟩ ∧ (0 < i → s + 2 + i < pkt.fields.length) := by
  induction i with
  | zero => exact ⟨h, nofun⟩
  | succ i ih =>
    obtain ⟨hinside, -⟩ := ih (by omega)
    obtain ⟨c', hstep, hinside'⟩ := hinside.step .nextEvent
    rw [hin.nextEvent_eq hpkt (by omega)] at hstep
    obtain ⟨rawEvent, hread, rfl⟩ := Option.map_eq_some_iff.mp hstep
    obtain ⟨hlt, -⟩ := List.getElem?_eq_some_iff.mp hread
    exact ⟨hinside', fun _ => by omega⟩

/-- What is behind the events of a section. -/
theorem InSection.behind (hin : InSection pkt s field rest) :
    (MonitorSection.ofHeader field rest).rpos.drop
        (MonitorSection.ofHeader field rest).eventCount =
      pkt.fields.drop (s + 3 + countOf field) := by
  show (rest.drop 2).drop (countOf field) = _
  have hrest : pkt.fields.drop (s + 1) = rest := by
    rw [← List.drop_drop, hin.ahead]
    rfl
  rw [← hrest, List.drop_drop, List.drop_drop,
    show s + 1 + (2 + countOf field) = s + 3 + countOf field by omega]

theorem InSection.cursorFits_iff (hin : InSection pkt s field rest) :
    cursorFits pkt.fields.length field rest ↔
      (0 < countOf field → s + 2 + countOf field < pkt.fields.length) ∧
        4 * (s + 3 + countOf field) < Word32.modulus := by
  have hlen := hin.length_eq
  have hpos : pkt.fields.length - rest.length = s + 1 := by omega
  have hevents : countOf field ≤ (rest.drop 2).length ↔
      (0 < countOf field → s + 2 + countOf field < pkt.fields.length) := by
    rw [List.length_drop]
    omega
  rw [cursorFits, hpos]
  exact and_congr hevents (by show 4 * (s + 1 + 2 + countOf field) < _ ↔ _; omega)

/-- Where all calls stay inside, the rest of the payload is walkable. -/
theorem walkable_of_inside (hpkt : Complete pkt) {s : Nat} (hs : s ≠ 0)
    (h : s < pkt.fields.length → Inside pkt ⟨s, 0⟩) :
    Walkable (cursorFits pkt.fields.length) (pkt.fields.drop s) := by
  cases hdrop : pkt.fields.drop s with
  | nil => exact .nil
  | cons field rest =>
    have hin : InSection pkt s field rest := ⟨hs, hdrop⟩
    have hlen := hin.length_eq
    have hfits := hpkt.fits
    have hpayload := hpkt.length_eq
    have hcount := countOf_lt field
    have hmod : Word32.modulus = 2 ^ 32 := rfl
    have hinside := h (by omega)
    obtain ⟨-, hevents⟩ := Inside.events hin hpkt hinside (Nat.le_refl (countOf field))
    obtain ⟨c', hstep, hnext⟩ := hinside.step .nextSection
    rw [hin.nextSection_eq hpkt, Option.some.injEq] at hstep
    have hmul : Word32.mul (s + 3 + countOf field) 4 =
      (s + 3 + countOf field) * 4 % 2 ^ 32 := rfl
    -- a start that does not fit in 32 bits seems to be in the payload
    have hbytes : 4 * (s + 3 + countOf field) < Word32.modulus := by
      by_contra hwraps
      rw [if_pos (by omega)] at hstep
      subst hstep
      obtain ⟨c'', hread, -⟩ := hnext.step .nextEvent
      have hnone : pkt.fields[s + 3 + countOf field]? = none :=
        List.getElem?_eq_none (by omega)
      simp only [monitorStep, nextEvent, hnone, Option.bind_eq_bind, Option.bind_none] at hread
      rw [if_neg (by omega)] at hread
      cases hread
    rw [walkable_cons_iff, hin.cursorFits_iff, hin.behind]
    refine ⟨⟨hevents, hbytes⟩, walkable_of_inside hpkt (by omega) fun hlt => ?_⟩
    rw [if_pos (by omega)] at hstep
    exact hstep ▸ hnext
termination_by pkt.fields.length - s

/-- What the cursor can go to in a walkable payload. -/
def Ahead (pkt : BeamMonitorPkt) (c : MonitorCursor) : Prop :=
  c.sectionStartIndex = 0 ∨ ∃ field rest, InSection pkt c.sectionStartIndex field rest ∧
    Walkable (cursorFits pkt.fields.length) (field :: rest)

/-- In a walkable payload every call keeps the rest walkable. -/
theorem monitorStep_ahead (hpkt : Complete pkt)
    (hwalkable : Walkable (cursorFits pkt.fields.length) (pkt.fields.drop 4))
    {c : MonitorCursor} (h : Ahead pkt c) (call : MonitorCall) :
    ∃ c', monitorStep pkt c call = some c' ∧ Ahead pkt c' := by
  have hfits := hpkt.fits
  have hpayload := hpkt.length_eq
  have hmod : Word32.modulus = 2 ^ 32 := rfl
  have hstart : ∀ s, s ≠ 0 → s < pkt.fields.length →
      Walkable (cursorFits pkt.fields.length) (pkt.fields.drop s) → Ahead pkt ⟨s, 0⟩ := by
    intro s hs hlt hwalk
    cases hdrop : pkt.fields.drop s with
    | nil =>
      have hlen := congrArg List.length hdrop
      rw [List.length_drop, List.length_nil] at hlen
      omega
    | cons field rest => exact .inr ⟨field, rest, ⟨hs, hdrop⟩, hdrop ▸ hwalk⟩
  obtain ⟨s, i⟩ := c
  rcases h with hzero | ⟨field, rest, hin, hwalk⟩
  · -- before the first section
    have hzero : s = 0 := hzero
    subst hzero
    cases call with
    | nextSection =>
      by_cases hmore : Word32.mul 4 4 < pkt.payloadLen
      · refine ⟨⟨4, 0⟩, by simp [monitorStep, nextSection, hmore], ?_⟩
        have hmul : Word32.mul 4 4 = 16 := rfl
        exact hstart 4 (by decide) (by omega) hwalkable
      · exact ⟨⟨0, i⟩, by simp [monitorStep, nextSection, hmore], .inl rfl⟩
    | nextEvent => exact ⟨⟨0, i⟩, by simp [monitorStep, nextEvent], .inl rfl⟩
  · have hin : InSection pkt s field rest := hin
    obtain ⟨hevents, hrest⟩ := walkable_cons_iff.mp hwalk
    obtain ⟨hinside, hbytes⟩ := hin.cursorFits_iff.mp hevents
    have hstay : ∀ i, Ahead pkt ⟨s, i⟩ := fun i => .inr ⟨field, rest, hin, hwalk⟩
    cases call with
    | nextSection =>
      rw [hin.nextSection_eq hpkt]
      refine ⟨_, rfl, ?_⟩
      split
      · have hmul : Word32.mul (s + 3 + countOf field) 4 = (s + 3 + countOf field) * 4 :=
          Word32.mul_of_lt (by omega)
        rw [hin.behind] at hrest
        exact hstart _ (by omega) (by omega) hrest
      · exact hstay i
    | nextEvent =>
      by_cases hi : i < countOf field
      · rw [hin.nextEvent_eq hpkt hi]
        have hread : s + 3 + i < pkt.fields.length := by
          have hlast := hinside (by omega)
          omega
        rw [List.getElem?_eq_getElem hread]
        exact ⟨_, rfl, hstay _⟩
      · exact ⟨_, hin.nextEvent_done hi, hstay i⟩

/-- All calls stay inside the payload just if its sections are walkable. -/
theorem run_isSome_iff (hpkt : Complete pkt) :
    Inside pkt ⟨0, 0⟩ ↔ Walkable (cursorFits pkt.fields.length) (pkt.fields.drop 4) := by
  constructor
  · intro h
    refine walkable_of_inside hpkt (by decide) fun hlt => ?_
    obtain ⟨c', hstep, hinside⟩ := h.step .nextSection
    have hpayload := hpkt.length_eq
    have hmul : Word32.mul 4 4 = 16 := rfl
    have hmore : Word32.mul 4 4 < pkt.payloadLen := by omega
    simp only [monitorStep, nextSection, if_true, Option.bind_eq_bind, Option.bind_some,
      if_pos hmore, Option.map_some, Option.some.injEq] at hstep
    exact hstep ▸ hinside
  · intro hwalkable calls
    have hstep : ∀ c call, Ahead pkt c → True →
        ∃ c', monitorStep pkt c call = some c' ∧ Ahead pkt c' :=
      fun _ call h _ => monitorStep_ahead hpkt hwalkable h call
    have hnew : Ahead pkt ⟨0, 0⟩ := .inl rfl
    obtain ⟨c, hrun, -⟩ :=
      Runs.exists_run_along hstep hnew (Runs.along_of_forall fun _ _ => trivial)
    rw [hrun]
    rfl

end Adara.Spec.MonitorWalks
