import Adara.Spec.EventFiling
import Adara.Spec.MonitorPacket

/-! # Banks and states in one array

A source has its banks for every state in one array, at `bank + state * (maxBank + 1)`.  While
the sizes of these arrays fit 32 bits, growing an array for a new state moves no event, every
index is within its array, and each bank and state holds the events filed there
(`Reached.holds`), so that filing never leaves an array (`Reached.exists_file`). -/

namespace Adara.Spec.StateFiling

open Adara.Native
open Adara.Spec.EventFiling Adara.Spec.MonitorPacket

/-! ### What is filed -/

/-- An event filed: by which source, in which bank and state. -/
structure FiledState where
  hwId : UInt32
  bank : Nat
  state : Nat
  event : Event
deriving DecidableEq

/-- The state an event is filed under. -/
def stateOf (s : EventSettings) (pl : Placement) : Nat :=
  if s.neutronEventSortByState then pl.state.toNat else 0

/-- The events a packet files, in order. -/
def filedStates (s : EventSettings) (pm : PixelMap) (isMapped : Bool) (hwId : UInt32)
    (evs : List Event) : List FiledState :=
  evs.filterMap fun ev =>
    (placementOf s pm isMapped ev).map fun pl =>
      ⟨hwId, pl.bank, stateOf s pl, ⟨ev.tof, pl.logical⟩⟩

/-- The events filed in one bank and state of a source. -/
def inState (log : List FiledState) (hwId : UInt32) (bank state : Nat) : List Event :=
  (log.filter fun f => f.hwId = hwId ∧ f.bank = bank ∧ f.state = state).map FiledState.event

theorem inState_append (log log' : List FiledState) (hwId : UInt32) (bank state : Nat) :
    inState (log ++ log') hwId bank state =
      inState log hwId bank state ++ inState log' hwId bank state := by
  simp [inState]

theorem inState_eq_nil {log : List FiledState} {hwId : UInt32} (h : ∀ f ∈ log, f.hwId ≠ hwId)
    (bank state : Nat) : inState log hwId bank state = [] := by
  simp only [inState, List.map_eq_nil_iff, List.filter_eq_nil_iff, decide_eq_true_eq]
  intro f hf hsame
  exact h f hf hsame.1

theorem mem_filedStates {s : EventSettings} {pm : PixelMap} {isMapped : Bool} {hwId : UInt32}
    {evs : List Event} {f : FiledState} (h : f ∈ filedStates s pm isMapped hwId evs) :
    f.hwId = hwId ∧ f.bank ≤ maxBank pm := by
  obtain ⟨ev, -, hev⟩ := List.mem_filterMap.mp h
  obtain ⟨pl, hpl, rfl⟩ := Option.map_eq_some_iff.mp hev
  exact ⟨rfl, placementOf_bank_le hpl⟩

/-- The array for the states up to one of them has a size that fits. -/
def Fits (pm : PixelMap) (state : Nat) : Prop := (state + 1) * (maxBank pm + 1) < Word32.modulus

instance (pm : PixelMap) (state : Nat) : Decidable (Fits pm state) :=
  inferInstanceAs (Decidable (_ < _))

/-! ### The array of a source -/

/-- The array has all banks for every state, and its size fits. -/
structure Sized (pm : PixelMap) (src : EventSource) : Prop where
  length_eq : src.banksArr.length = src.numStates * (maxBank pm + 1)
  fits : src.numStates * (maxBank pm + 1) < Word32.modulus

/-- The event loop has filed an event in a bank and state. -/
structure FiledIn (pm : PixelMap) (bank state : Nat) (ev : Event) (a b : EventLoop) : Prop where
  sized : Sized pm b.src
  slots : ∀ i, slot b.src.banksArr i = slot a.src.banksArr i ++
    if i % (maxBank pm + 1) = bank ∧ i / (maxBank pm + 1) = state then [ev] else []
  monitors : b.pulse.monitors = a.pulse.monitors
  numMonEvents : b.pulse.numMonEvents = a.pulse.numMonEvents

section Array

variable {pm : PixelMap} {a : EventLoop} {bank state : Nat}

theorem index_lt {n M : Nat} (hbank : bank < M) (hstate : state < n) :
    bank + state * M < n * M := by
  have hle : (state + 1) * M ≤ n * M := Nat.mul_le_mul_right M hstate
  rw [Nat.succ_mul] at hle
  omega

/-- Bank and state are recovered from the index. -/
theorem slotIndex_iff {i M : Nat} (hbank : bank < M) :
    i = bank + state * M ↔ i % M = bank ∧ i / M = state := by
  constructor
  · rintro rfl
    rw [Nat.add_mul_mod_self_right, Nat.mod_eq_of_lt hbank,
      Nat.add_mul_div_right _ _ (by omega), Nat.div_eq_of_lt hbank, Nat.zero_add]
    exact ⟨rfl, rfl⟩
  · rintro ⟨rfl, rfl⟩
    rw [Nat.mul_comm, Nat.mod_add_div]

/-- Growing succeeds, and moves nothing. -/
theorem growBanks_states (ha : Sized pm a.src) (hfits : Fits pm state) :
    ∃ b, growBanks (maxBank pm) state a = some b ∧ Sized pm b.src ∧ state < b.src.numStates ∧
      (∀ i, slot b.src.banksArr i = slot a.src.banksArr i) ∧ b.pulse = a.pulse := by
  rw [growBanks]
  by_cases hgrow : a.src.numStates < state + 1
  · rw [Fits] at hfits
    have hle : a.src.banksArr.length ≤ (state + 1) * (maxBank pm + 1) := by
      rw [ha.length_eq]
      exact Nat.mul_le_mul_right _ (by omega)
    rw [if_pos hgrow, Word32.mul_of_lt hfits]
    refine ⟨_, if_neg (Nat.not_lt.mpr hle), ⟨?_, hfits⟩, Nat.lt_succ_self _,
      fun i => slot_append_nils _ _ i, rfl⟩
    rw [List.length_append, List.length_replicate, Nat.add_sub_cancel' hle]
  · exact ⟨a, if_neg hgrow, ha, by omega, fun _ => rfl, rfl⟩

/-- Within the array, an event goes to its bank and state alone. -/
theorem pushBanked_states (ha : Sized pm a.src) (hbank : bank ≤ maxBank pm)
    (hstate : state < a.src.numStates) (ev : Event) :
    ∃ b, pushBanked (maxBank pm) bank state ev a = some b ∧ FiledIn pm bank state ev a b := by
  have hlt : bank + state * (maxBank pm + 1) < a.src.numStates * (maxBank pm + 1) :=
    index_lt (Nat.lt_succ_of_le hbank) hstate
  have hfits := ha.fits
  have hindex : bankStateIndex (maxBank pm) bank state = bank + state * (maxBank pm + 1) := by
    rw [bankStateIndex, Word32.mul_of_lt (by omega), Word32.add_of_lt (by omega)]
  have hget : a.src.banksArr[bank + state * (maxBank pm + 1)]? =
      some (slot a.src.banksArr (bank + state * (maxBank pm + 1))) := by
    rw [slot, List.getElem?_eq_getElem (by rw [ha.length_eq]; exact hlt)]
    rfl
  rw [pushBanked]
  simp only [hindex, hget]
  refine ⟨_, rfl, ⟨?_, hfits⟩, fun i => ?_, rfl, rfl⟩
  · rw [List.length_set]
    exact ha.length_eq
  · simp only [slot_set _ hget, ← slotIndex_iff (Nat.lt_succ_of_le hbank) (i := i)]
    split
    · rename_i heq
      rw [heq]
    · rw [List.append_nil]

theorem monitors_setFlagIf (p : Pulse) (cond : Bool) (flag : UInt32) :
    (p.setFlagIf cond flag).monitors = p.monitors ∧
      (p.setFlagIf cond flag).numMonEvents = p.numMonEvents := by
  rw [Pulse.setFlagIf]
  split <;> exact ⟨rfl, rfl⟩

/-- Filing succeeds under a placement whose state fits. -/
theorem fileBanked_states {s : EventSettings} {pl : Placement} (ha : Sized pm a.src)
    (hbank : pl.bank ≤ maxBank pm) (hfits : Fits pm (stateOf s pl)) (tof : UInt32) :
    ∃ b, fileBanked s (maxBank pm) pl tof a = some b ∧
      FiledIn pm pl.bank (stateOf s pl) ⟨tof, pl.logical⟩ a b := by
  obtain ⟨c, hgrow, hc, hstate, hslots, hpulse⟩ := growBanks_states (a := { a with
    pulse := (a.pulse.setFlag pl.flag).setFlagIf (0 < pl.state) PulseFlags.hasStates }) ha hfits
  obtain ⟨b, hpush, hfiled⟩ := pushBanked_states hc hbank hstate ⟨tof, pl.logical⟩
  obtain ⟨hmonitors, hcount⟩ :=
    monitors_setFlagIf (a.pulse.setFlag pl.flag) (0 < pl.state) PulseFlags.hasStates
  refine ⟨b, ?_, hfiled.sized, fun i => ?_, ?_, ?_⟩
  · rw [fileBanked]
    exact (congrArg (Option.bind · _) hgrow).trans hpush
  · rw [hfiled.slots, hslots]
  · rw [hfiled.monitors, hpulse]
    exact hmonitors
  · rw [hfiled.numMonEvents, hpulse]
    exact hcount

end Array

/-! ### The event loop -/

/-- The event loop has filed some events: each behind those of its bank and state. -/
structure Ran (pm : PixelMap) (hwId : UInt32) (log : List FiledState) (a b : EventLoop) :
    Prop where
  sized : Sized pm b.src
  slots : ∀ i, slot b.src.banksArr i = slot a.src.banksArr i ++
    inState log hwId (i % (maxBank pm + 1)) (i / (maxBank pm + 1))
  monitors : Filled a.pulse → Filled b.pulse

section Loop

variable {s : EventSettings} {pm : PixelMap} {isMapped : Bool} {hwId : UInt32} {a b c : EventLoop}

theorem Ran.trans {log log' : List FiledState} (h : Ran pm hwId log a b)
    (h' : Ran pm hwId log' b c) : Ran pm hwId (log ++ log') a c where
  sized := h'.sized
  slots i := by rw [h'.slots, h.slots, inState_append, List.append_assoc]
  monitors hfilled := h'.monitors (h.monitors hfilled)

theorem FiledIn.ran {bank state : Nat} {ev : Event} (h : FiledIn pm bank state ev a b) :
    Ran pm hwId [⟨hwId, bank, state, ev⟩] a b where
  sized := h.sized
  slots i := by
    rw [h.slots]
    congr 1
    by_cases hi : i % (maxBank pm + 1) = bank ∧ i / (maxBank pm + 1) = state
    · simp [inState, hi]
    · rw [if_neg hi]
      have hother : ¬ (bank = i % (maxBank pm + 1) ∧ state = i / (maxBank pm + 1)) :=
        fun heq => hi ⟨heq.1.symm, heq.2.symm⟩
      simp [inState, hother]
  monitors hfilled := hfilled.other h.monitors h.numMonEvents

theorem Ran.nothing (ha : Sized pm b.src) (hsrc : b.src = a.src)
    (hmonitors : Filled a.pulse → Filled b.pulse) : Ran pm hwId [] a b where
  sized := ha
  slots i := by
    rw [hsrc]
    exact (List.append_nil _).symm
  monitors := hmonitors

/-- One round of the event loop. -/
theorem handleEvent_states (pkt : RawDataPkt) {ev : Event} (ha : Sized pm a.src)
    (hfits : ∀ f ∈ filedStates s pm isMapped hwId [ev], Fits pm f.state) :
    ∃ b, handleEvent s pm pkt isMapped a ev = some b ∧
      Ran pm hwId (filedStates s pm isMapped hwId [ev]) a b := by
  have hone : filedStates s pm isMapped hwId [ev] =
      ((placementOf s pm isMapped ev).map fun pl =>
        (⟨hwId, pl.bank, stateOf s pl, ⟨ev.tof, pl.logical⟩⟩ : FiledState)).toList := by
    rw [filedStates, List.filterMap_cons]
    cases placementOf s pm isMapped ev <;> rfl
  -- an event outside the banks, and one filed under a placement
  have hnone : placementOf s pm isMapped ev = none →
      filedStates s pm isMapped hwId [ev] = [] := fun hplace => by rw [hone, hplace]; rfl
  have hsome : ∀ pl, placementOf s pm isMapped ev = some pl → ∀ a : EventLoop, Sized pm a.src →
      ∃ b, fileBanked s (maxBank pm) pl ev.tof a = some b ∧
        Ran pm hwId (filedStates s pm isMapped hwId [ev]) a b := by
    intro pl hplace a ha
    rw [hone, hplace] at hfits ⊢
    obtain ⟨b, hfile, hfiled⟩ := fileBanked_states ha (placementOf_bank_le hplace)
      (hfits _ (List.mem_singleton_self _)) ev.tof
    exact ⟨b, hfile, hfiled.ran⟩
  rw [handleEvent]
  simp only
  by_cases h4 : ev.pixel >>> 28 = 4
  · rw [if_pos h4, hnone (by simp [placementOf, h4])]
    exact ⟨_, rfl, .nothing ha rfl fun hfilled => hfilled.event s pkt ev.pixel ev.tof⟩
  · rw [if_neg h4]
    by_cases h7 : ev.pixel >>> 28 = 7
    · rw [if_pos h7, hnone (by simp [placementOf, h7])]
      exact ⟨_, rfl, .nothing ha rfl fun hfilled => hfilled.other rfl rfl⟩
    · rw [if_neg h7]
      by_cases h0 : ev.pixel >>> 28 = 0
      · rw [if_pos h0]
        obtain ⟨b, hfile, hran⟩ := hsome (placeDetector s pm isMapped ev.pixel)
          (by simp [placementOf, h0])
          { a with gotNeutrons := true, eventCount := a.eventCount + 1 } ha
        exact ⟨b, hfile, hran.sized, hran.slots, hran.monitors⟩
      · rw [if_neg h0]
        by_cases h56 : ev.pixel >>> 28 = 5 ∨ ev.pixel >>> 28 = 6
        · rw [if_pos h56, hnone (by rcases h56 with h | h <;> simp [placementOf, h])]
          exact ⟨_, rfl, .nothing ha rfl fun hfilled => hfilled.other rfl rfl⟩
        · -- every other kind is an error event
          have herror : placementOf s pm isMapped ev = some (placeError ev.pixel) := by
            rw [not_or] at h56
            simp [placementOf, h4, h7, h0, h56.1, h56.2]
          rw [if_neg h56]
          split
          · obtain ⟨b, hfile, hran⟩ := hsome _ herror
              { a with gotMetadata := true, metaCount := a.metaCount + 1,
                       errCount := a.errCount + 1 } ha
            exact ⟨b, hfile, hran.sized, hran.slots, hran.monitors⟩
          · obtain ⟨b, hfile, hran⟩ := hsome _ herror
              { a with errCount := a.errCount + 1 } ha
            exact ⟨b, hfile, hran.sized, hran.slots, hran.monitors⟩

/-- The event loop never leaves an array. -/
theorem handleEvents_states (pkt : RawDataPkt) {evs : List Event} (ha : Sized pm a.src)
    (hfits : ∀ f ∈ filedStates s pm isMapped hwId evs, Fits pm f.state) :
    ∃ b, handleEvents s pm pkt isMapped a evs = some b ∧
      Ran pm hwId (filedStates s pm isMapped hwId evs) a b := by
  induction evs generalizing a with
  | nil => exact ⟨a, rfl, .nothing ha rfl fun hfilled => hfilled⟩
  | cons ev evs ih =>
    have hcons : filedStates s pm isMapped hwId (ev :: evs) =
        filedStates s pm isMapped hwId [ev] ++ filedStates s pm isMapped hwId evs := by
      rw [filedStates, filedStates, filedStates, ← List.filterMap_append]
      rfl
    rw [hcons] at hfits ⊢
    obtain ⟨b, hev, hran⟩ := handleEvent_states pkt ha fun f hf =>
      hfits f (List.mem_append_left _ hf)
    obtain ⟨c, hevs, hran'⟩ := ih hran.sized fun f hf => hfits f (List.mem_append_right _ hf)
    refine ⟨c, ?_, hran.trans hran'⟩
    rw [handleEvents, hev]
    exact hevs

end Loop

/-! ### Pulses with states -/

/-- A write to a pulse that leaves its banks and its monitors alone. -/
structure KeepsEvents (p p' : Pulse) : Prop extends KeepsBanks p p' where
  monitors : p'.monitors = p.monitors
  numMonEvents : p'.numMonEvents = p.numMonEvents

/-- The sizes of the arrays a packet asks for fit 32 bits: those of a new source, and those
    for the states of its events. -/
structure Room (s : EventSettings) (pm : PixelMap) (isMapped : Bool) (hwId : UInt32)
    (numStatesLast : Nat) (pkt : RawDataPkt) : Prop where
  newSource : numStatesLast * (maxBank pm + 1) < Word32.modulus
  states : ∀ f ∈ filedStates s pm isMapped hwId pkt.events, Fits pm f.state

/-- A pulse made by `pulseEvents`, with the events filed so far. -/
inductive Reached (pm : PixelMap) : Pulse → List FiledState → Prop
  | new (id : PulseIdentifier) (srcs : SourceSet) : Reached pm (Pulse.new id srcs) []
  | write {p p' : Pulse} {log : List FiledState} (h : Reached pm p log)
      (hkeep : KeepsEvents p p') : Reached pm p' log
  | file {p : Pulse} {log : List FiledState} {a : EventLoop} (s : EventSettings)
      (lastRingPeriod : UInt32) (numStatesLast : Nat) (numStatesResetCount : UInt32)
      (pkt : RawDataPkt) (hwId : UInt32) (isMapped mixedDataPackets : Bool)
      (h : Reached pm p log) (hroom : Room s pm isMapped hwId numStatesLast pkt)
      (hfile : fileEvents s pm lastRingPeriod numStatesLast numStatesResetCount pkt hwId isMapped
        p = some a) :
      Reached pm (finishEvents pkt hwId mixedDataPackets a)
        (log ++ filedStates s pm isMapped hwId pkt.events)

/-- Every source has its banks for every state, each with the events filed there, and no
    event was filed elsewhere. -/
structure HoldsStates (pm : PixelMap) (p : Pulse) (log : List FiledState) : Prop where
  sized : ∀ e ∈ p.pulseSources.entries, Sized pm e.2
  slots : ∀ e ∈ p.pulseSources.entries, ∀ i, slot e.2.banksArr i =
    inState log e.1 (i % (maxBank pm + 1)) (i / (maxBank pm + 1))
  sources : ∀ f ∈ log, f.hwId ∈ p.pulseSources.keys
  banks : ∀ f ∈ log, f.bank ≤ maxBank pm

section Pulses

variable {s : EventSettings} {pm : PixelMap} {pkt : RawDataPkt} {isMapped mixedDataPackets : Bool}
  {lastRingPeriod numStatesResetCount hwId : UInt32} {numStatesLast : Nat} {p : Pulse}
  {log : List FiledState} {a : EventLoop}

/-- Without the states, the pulse is one with the same events in its banks. -/
theorem Reached.assembled (h : Reached pm p log) :
    Assembled pm p (log.map fun f => ⟨f.hwId, f.bank, f.event⟩) := by
  induction h with
  | new id srcs => exact .new id srcs
  | write h hkeep ih => exact ih.write hkeep.toKeepsBanks
  | file s ring numStatesLast resetCount pkt hwId isMapped mixed h hroom hfile ih =>
    have hlog : (filedStates s pm isMapped hwId pkt.events).map
        (fun f => (⟨f.hwId, f.bank, f.event⟩ : Filed)) =
          filedEvents s pm isMapped hwId pkt.events := by
      rw [filedStates, List.map_filterMap, filedEvents]
      simp only [Option.map_map]
      rfl
    rw [List.map_append, hlog]
    exact ih.file s ring numStatesLast resetCount pkt hwId isMapped mixed hfile

theorem monitors_takeTiming (pkt : RawDataPkt) (ring : UInt32) (p : Pulse) :
    (takeTiming pkt ring p).monitors = p.monitors ∧
      (takeTiming pkt ring p).numMonEvents = p.numMonEvents := by
  rw [takeTiming]
  split <;> exact ⟨rfl, rfl⟩

theorem monitors_takeCharge (pkt : RawDataPkt) (p : Pulse) :
    (takeCharge pkt p).monitors = p.monitors ∧
      (takeCharge pkt p).numMonEvents = p.numMonEvents := by
  rw [takeCharge]
  split <;> exact ⟨rfl, rfl⟩

theorem Filled.start (h : Filled p) (pkt : RawDataPkt) (ring : UInt32) :
    Filled (takeCharge pkt (takeTiming pkt ring p)) :=
  have htiming := monitors_takeTiming pkt ring p
  have hcharge := monitors_takeCharge pkt (takeTiming pkt ring p)
  (h.other htiming.1 htiming.2).other hcharge.1 hcharge.2

theorem Filled.finish (h : Filled a.pulse) : Filled (finishEvents pkt hwId mixedDataPackets a) := by
  refine h.other ?_ ?_
  · simp only [finishEvents, markContents, (monitors_setFlagIf _ _ _).1]
  · simp only [finishEvents, markContents, (monitors_setFlagIf _ _ _).2]

/-- The source found has an array that fits. -/
theorem sized_findSource (pkt : RawDataPkt) (h : HoldsStates pm p log)
    (hnew : numStatesLast * (maxBank pm + 1) < Word32.modulus) (hwId : UInt32) :
    Sized pm (findSource pm numStatesLast pkt hwId p) := by
  rw [findSource]
  cases hfind : p.pulseSources.find? hwId with
  | some src => exact h.sized (hwId, src) (SortedMap.find?_eq_some.mp hfind)
  | none =>
    refine ⟨?_, hnew⟩
    rw [Option.getD_none, List.length_replicate, Word32.mul_of_lt hnew]

/-- The source found holds what was filed under its id. -/
theorem slot_findSource (h : HoldsStates pm p log) (hwId : UInt32) (i : Nat) :
    slot (findSource pm numStatesLast pkt hwId p).banksArr i =
      inState log hwId (i % (maxBank pm + 1)) (i / (maxBank pm + 1)) := by
  rcases findSource_spec pm numStatesLast pkt hwId p with ⟨src, hfind, hsrc⟩ | ⟨hfind, -, n, hn⟩
  · rw [hsrc]
    exact h.slots (hwId, src) (SortedMap.find?_eq_some.mp hfind) i
  · have hnone : ∀ f ∈ log, f.hwId ≠ hwId := fun f hf hsame =>
      SortedMap.find?_eq_none.mp hfind (hsame ▸ h.sources f hf)
    rw [hn, inState_eq_nil hnone]
    exact slot_append_nils [] n i

theorem HoldsStates.keep {p' : Pulse} (hsources : p'.pulseSources = p.pulseSources)
    (h : HoldsStates pm p log) : HoldsStates pm p' log where
  sized := hsources ▸ h.sized
  slots := hsources ▸ h.slots
  sources := hsources ▸ h.sources
  banks := h.banks

/-- The call for a packet with room succeeds, and files its events. -/
theorem HoldsStates.file (h : HoldsStates pm p log)
    (hroom : Room s pm isMapped hwId numStatesLast pkt) :
    ∃ a, fileEvents s pm lastRingPeriod numStatesLast numStatesResetCount pkt hwId isMapped
        p = some a ∧
      (Filled p → Filled a.pulse) ∧
      ∀ mixed, HoldsStates pm (finishEvents pkt hwId mixed a)
        (log ++ filedStates s pm isMapped hwId pkt.events) := by
  have htiming := takeTiming_keeps pkt lastRingPeriod p
  have hstart := h.keep htiming.pulseSources
  have hsized := sized_findSource pkt hstart hroom.newSource hwId
  -- the loop begins with the source's banks, looked up or made
  let start : EventLoop :=
    { pulse := takeCharge pkt (takeTiming pkt lastRingPeriod p)
      src := findSource pm numStatesLast pkt hwId (takeTiming pkt lastRingPeriod p)
      numStatesLast, numStatesResetCount
      eventCount := 0, metaCount := 0, errCount := 0, monitorCount := 0
      gotNeutrons := false, gotMetadata := false }
  have hstartSized : Sized pm start.src := hsized
  obtain ⟨a, hfile, hran⟩ := handleEvents_states pkt hstartSized hroom.states
  have hsources : a.pulse.pulseSources = (takeTiming pkt lastRingPeriod p).pulseSources := by
    rw [(handleEvents_spec hwId 0 0 hfile).1]
    exact (takeCharge_keeps pkt _).pulseSources
  refine ⟨a, hfile, fun hfilled => hran.monitors (Filled.start hfilled pkt lastRingPeriod),
    fun mixed => ?_⟩
  have hmark := (markContents_same pkt mixed a).1
  constructor
  · intro e he
    -- a source of the pulse is the one of the packet, or one that was there before
    rcases mem_finishEvents hsources he with rfl | ⟨-, he⟩
    · exact hran.sized
    · exact hstart.sized e he
  · intro e he i
    rw [inState_append]
    rcases mem_finishEvents hsources he with rfl | ⟨hne, he⟩
    · rw [hran.slots, slot_findSource hstart]
    · have hnone : ∀ f ∈ filedStates s pm isMapped hwId pkt.events, f.hwId ≠ e.1 :=
        fun f hf hsame => hne (hsame.symm.trans (mem_filedStates hf).1)
      have hother := inState_eq_nil hnone (i % (maxBank pm + 1)) (i / (maxBank pm + 1))
      rw [hstart.slots e he, hother, List.append_nil]
  · intro f hf
    rw [finishEvents, hmark, hsources, SortedMap.mem_keys_alter]
    rcases List.mem_append.mp hf with hf | hf
    · exact .inr (hstart.sources f hf)
    · exact .inl (mem_filedStates hf).1
  · intro f hf
    rcases List.mem_append.mp hf with hf | hf
    · exact h.banks f hf
    · exact (mem_filedStates hf).2

theorem Reached.holds (h : Reached pm p log) : HoldsStates pm p log ∧ Filled p := by
  induction h with
  | new id srcs =>
    exact ⟨⟨fun e he => absurd he List.not_mem_nil, fun e he => absurd he List.not_mem_nil,
      fun f hf => absurd hf List.not_mem_nil, fun f hf => absurd hf List.not_mem_nil⟩,
      .new (fun k hk => absurd hk List.not_mem_nil) (fun e he => absurd he List.not_mem_nil) rfl⟩
  | write h hkeep ih =>
    exact ⟨ih.1.keep hkeep.pulseSources, ih.2.other hkeep.monitors hkeep.numMonEvents⟩
  | file s ring numStatesLast resetCount pkt hwId isMapped mixed h hroom hfile ih =>
    obtain ⟨a, hfile', hfilled, hholds⟩ := ih.1.file hroom
    cases hfile.symm.trans hfile'
    exact ⟨hholds mixed, Filled.finish (hfilled ih.2)⟩

/-- No call for a packet with room leaves an array. -/
theorem Reached.exists_file (h : Reached pm p log)
    (hroom : Room s pm isMapped hwId numStatesLast pkt) :
    ∃ a, fileEvents s pm lastRingPeriod numStatesLast numStatesResetCount pkt hwId isMapped
      p = some a :=
  have ⟨a, hfile, _⟩ := h.holds.1.file hroom
  ⟨a, hfile⟩

end Pulses

end Adara.Spec.StateFiling
