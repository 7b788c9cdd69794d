import Adara.Native.PulseEvents

/-! # What filing events does to the banks

`pulseEvents` puts every event that is not metadata into a bank of its source.  The
pulse counts its banks and events along (`Counted`), and as long as no event has a
state each bank holds the events filed under it, in the order they came (`Holds`). -/

namespace Adara.Spec.EventFiling

open Adara.Native

/-! ### Arrays of banks -/

/-- The sum of a weight over the banks of an array. -/
def tally (w : List Event → Nat) (arr : List (List Event)) : Nat := (arr.map w).sum

/-- The number of banks with events. -/
def filled (arr : List (List Event)) : Nat := tally (fun evs => if evs = [] then 0 else 1) arr

/-- The number of events. -/
def total (arr : List (List Event)) : Nat := tally List.length arr

/-- The events at an index, none where the array ends before. -/
def slot (arr : List (List Event)) (i : Nat) : List Event := (arr[i]?).getD []

theorem tally_append_nils {w : List Event → Nat} (hw : w [] = 0) (arr : List (List Event)) (n : Nat) :
    tally w (arr ++ List.replicate n []) = tally w arr := by
  simp [tally, hw]

theorem slot_append_nils (arr : List (List Event)) (n i : Nat) :
    slot (arr ++ List.replicate n []) i = slot arr i := by
  by_cases hi : i < arr.length
  · simp only [slot, List.getElem?_append_left hi]
  · simp only [slot, List.getElem?_append_right (Nat.not_lt.mp hi), List.getElem?_replicate,
      List.getElem?_eq_none (Nat.not_lt.mp hi)]
    split <;> rfl

theorem tally_set (w : List Event → Nat) {arr : List (List Event)} {i : Nat} {old : List Event}
    (new : List Event) (h : arr[i]? = some old) :
    tally w (arr.set i new) + w old = tally w arr + w new := by
  induction arr generalizing i with
  | nil => cases h
  | cons evs arr ih =>
    cases i with
    | zero =>
      cases h
      simp only [tally, List.set_cons_zero, List.map_cons, List.sum_cons]
      omega
    | succ i =>
      have := ih h
      simp only [tally, List.set_cons_succ, List.map_cons, List.sum_cons] at this ⊢
      omega

theorem slot_set {arr : List (List Event)} {i : Nat} {old : List Event} (new : List Event)
    (h : arr[i]? = some old) (j : Nat) :
    slot (arr.set i new) j = if j = i then new else slot arr j := by
  obtain ⟨hi, -⟩ := List.getElem?_eq_some_iff.mp h
  by_cases hj : j = i
  · subst hj
    simp [slot, hi]
  · simp [slot, hj, List.getElem?_set_ne (Ne.symm hj)]

/-! ### Where an event goes -/

/-- The placement of an event that goes into a bank. -/
def placementOf (s : EventSettings) (pm : PixelMap) (isMapped : Bool) (ev : Event) :
    Option Placement :=
  let kind := ev.pixel >>> 28
  if kind = 4 ∨ kind = 5 ∨ kind = 6 ∨ kind = 7 then none
  else if kind = 0 then some (placeDetector s pm isMapped ev.pixel)
  else some (placeError ev.pixel)

theorem bankIndex_le {pm : PixelMap} {bank : Nat}
    (h : bank = PixelMap.unmappedBank ∨ bank = PixelMap.errorBank ∨ bank ≤ pm.numBanks) :
    bankIndex bank ≤ maxBank pm := by
  have hpos := pm.numBanks_pos
  have hle := pm.numBanks_le
  simp only [bankIndex, maxBank, PixelMap.realBankOffset, PixelMap.unmappedBank,
    PixelMap.errorBank] at *
  omega

theorem mapEvent_snd (pm : PixelMap) (phys : UInt32) :
    (pm.mapEvent phys).2 = PixelMap.unmappedBank ∨ (pm.mapEvent phys).2 < pm.numBanks := by
  simp only [PixelMap.mapEvent, List.getD_eq_getElem?_getD]
  cases h : pm.table[phys.toNat]? with
  | none => exact .inl rfl
  | some e => exact pm.table_lt e (List.mem_of_getElem? h)

theorem mapEventBank_cases (pm : PixelMap) (logical : UInt32) :
    pm.mapEventBank logical = PixelMap.unmappedBank ∨ pm.mapEventBank logical < pm.numBanks := by
  simp only [PixelMap.mapEventBank, List.getD_eq_getElem?_getD]
  cases h : pm.banks[logical.toNat]? with
  | none => exact .inl rfl
  | some b => exact pm.banks_lt b (List.mem_of_getElem? h)

/-- The bank of a detector event is looked up, or it is bank 1. -/
theorem placeDetector_bank_le (s : EventSettings) (pm : PixelMap) (isMapped : Bool)
    (phys : UInt32) : (placeDetector s pm isMapped phys).bank ≤ maxBank pm := by
  have hpos := pm.numBanks_pos
  simp only [placeDetector]
  apply bankIndex_le
  generalize (if 0 < s.neutronEventStateBits then phys &&& ~~~s.neutronEventStateMask else phys) =
    base
  cases isMapped with
  | true =>
    by_cases hmap : s.enablePixelMapping
    · simp only [hmap, if_true]
      exact (mapEventBank_cases pm base).imp_right fun h => .inr (Nat.le_of_lt h)
    · simp only [hmap, if_true]
      exact .inr (.inr hpos)
  | false =>
    by_cases hmap : s.enablePixelMapping
    · simp only [hmap, if_true]
      exact (mapEvent_snd pm base).imp_right fun h => .inr (Nat.le_of_lt h)
    · simp only [hmap]
      exact .inr (.inr hpos)

/-- Every placement is in a bank of the array. -/
theorem placementOf_bank_le {s : EventSettings} {pm : PixelMap} {isMapped : Bool} {ev : Event}
    {pl : Placement} (h : placementOf s pm isMapped ev = some pl) : pl.bank ≤ maxBank pm := by
  simp only [placementOf] at h
  split at h
  · cases h
  · split at h
    · cases h
      exact placeDetector_bank_le s pm isMapped ev.pixel
    · cases h
      exact bankIndex_le (.inr (.inl rfl))

/-! ### One event -/

/-- The flag that says that an event of the pulse has a state. -/
def hasStates (p : Pulse) : Bool := p.hasFlag PulseFlags.hasStates

/-- A flag once set stays. -/
theorem hasStates_setFlag (p : Pulse) (flag : UInt32) :
    hasStates (p.setFlag flag) = false ↔
      hasStates p = false ∧ flag &&& PulseFlags.hasStates = 0 := by
  have hdistrib : (p.flags ||| flag) &&& PulseFlags.hasStates =
      (p.flags &&& PulseFlags.hasStates) ||| (flag &&& PulseFlags.hasStates) := by
    apply UInt32.eq_of_toBitVec_eq
    simp [BitVec.and_or_distrib_right]
  simp only [hasStates, Pulse.hasFlag, Pulse.setFlag, hdistrib, bne_eq_false_iff_eq,
    UInt32.or_eq_zero_iff]

theorem hasStates_setFlagIf {p : Pulse} {cond : Bool} {flag : UInt32}
    (h : hasStates (p.setFlagIf cond flag) = false) : hasStates p = false := by
  cases cond with
  | true => exact ((hasStates_setFlag p flag).mp h).1
  | false => exact h

/-- Another flag does not change it. -/
theorem hasStates_setFlagIf_of_disjoint (p : Pulse) (cond : Bool) {flag : UInt32}
    (hflag : flag &&& PulseFlags.hasStates = 0) :
    hasStates (p.setFlagIf cond flag) = hasStates p := by
  cases cond with
  | false => rfl
  | true =>
    have hset := hasStates_setFlag p flag
    show hasStates (p.setFlag flag) = hasStates p
    cases hstates : hasStates p with
    | false => exact hset.mpr ⟨hstates, hflag⟩
    | true =>
      rw [← Bool.not_eq_false]
      intro hclear
      rw [hset, hstates] at hclear
      cases hclear.1

/-- The loop has not touched the banks. -/
structure SameBanks (a b : EventLoop) : Prop where
  src : b.src = a.src
  pulseSources : b.pulse.pulseSources = a.pulse.pulseSources
  numBanks : b.pulse.numBanks = a.pulse.numBanks
  numEvents : b.pulse.numEvents = a.pulse.numEvents
  flags : b.pulse.flags = a.pulse.flags

/-- The loop has filed an event at an index of the source's array. -/
structure FiledAt (bank : Nat) (ev : Event) (a b : EventLoop) : Prop where
  pulseSources : b.pulse.pulseSources = a.pulse.pulseSources
  numEvents : b.pulse.numEvents = a.pulse.numEvents + 1
  counts : ∃ first : Nat, b.src.activeBanks = a.src.activeBanks + UInt32.ofNat first ∧
    b.pulse.numBanks = a.pulse.numBanks + UInt32.ofNat first ∧
    filled b.src.banksArr = filled a.src.banksArr + first
  total_eq : total b.src.banksArr = total a.src.banksArr + 1
  slots : hasStates b.pulse = false → hasStates a.pulse = false ∧
    ∀ j, slot b.src.banksArr j = slot a.src.banksArr j ++ if j = bank then [ev] else []

/-- Growing the array only appends empty banks. -/
theorem growBanks_spec {maxBank state : Nat} {a b : EventLoop}
    (h : growBanks maxBank state a = some b) :
    ∃ n, b.src.banksArr = a.src.banksArr ++ List.replicate n [] ∧
      b.src.activeBanks = a.src.activeBanks ∧ b.pulse = a.pulse := by
  unfold growBanks at h
  split at h
  · simp only at h
    split at h
    · cases h
    · cases h
      exact ⟨_, rfl, rfl, rfl⟩
  · cases h
    exact ⟨0, by simp, rfl, rfl⟩

/-- Filing under a placement. -/
theorem fileBanked_spec {s : EventSettings} {maxBank : Nat} {pl : Placement} {tof : UInt32}
    {a b : EventLoop} (hbank : pl.bank < Word32.modulus)
    (h : fileBanked s maxBank pl tof a = some b) : FiledAt pl.bank ⟨tof, pl.logical⟩ a b := by
  obtain ⟨c, hgrow, hpush⟩ := Option.bind_eq_some_iff.mp h
  obtain ⟨n, harr, hactive, hpulse⟩ := growBanks_spec hgrow
  simp only [pushBanked] at hpush
  split at hpush
  · cases hpush
  · rename_i evs hevs
    cases hpush
    have hfilled := tally_set (fun evs => if evs = [] then 0 else 1)
      (evs ++ [⟨tof, pl.logical⟩]) hevs
    have htotal := tally_set List.length (evs ++ [⟨tof, pl.logical⟩]) hevs
    simp only [harr, tally_append_nils (w := fun evs => if evs = [] then 0 else 1) rfl,
      tally_append_nils (w := List.length) rfl, List.append_eq_nil_iff, reduceCtorEq, and_false,
      if_false, List.length_append, List.length_singleton] at hfilled htotal
    refine ⟨?_, ?_, ⟨if evs = [] then 1 else 0, ?_, ?_, ?_⟩, ?_, ?_⟩
    · show c.pulse.pulseSources = _
      rw [hpulse]
      simp only [Pulse.setFlagIf]
      split <;> rfl
    · show c.pulse.numEvents + 1 = _
      rw [hpulse]
      simp only [Pulse.setFlagIf]
      split <;> rfl
    · show c.src.activeBanks + _ = _
      rw [hactive]
      split <;> rfl
    · show c.pulse.numBanks + _ = _
      rw [hpulse]
      simp only [Pulse.setFlagIf]
      split <;> split <;> rfl
    · simp only [filled, harr]
      by_cases hempty : evs = []
      · rw [if_pos hempty] at hfilled ⊢
        omega
      · rw [if_neg hempty] at hfilled ⊢
        omega
    · simp only [total, harr]
      omega
    · intro hstates
      replace hstates : hasStates c.pulse = false := hstates
      rw [hpulse] at hstates
      -- no state was set, so the event went to state 0
      have hzero : ¬ 0 < pl.state := by
        intro hpos
        simp only [hpos, decide_true, Pulse.setFlagIf, if_true, hasStates_setFlag] at hstates
        exact absurd hstates.2 (by decide)
      have hbefore := ((hasStates_setFlag _ _).mp (hasStates_setFlagIf hstates)).1
      refine ⟨hbefore, fun j => ?_⟩
      have hstate : (if s.neutronEventSortByState then pl.state.toNat else 0) = 0 := by
        split
        · rw [UInt32.lt_iff_toNat_lt] at hzero
          simpa using hzero
        · rfl
      have hindex : bankStateIndex maxBank pl.bank 0 = pl.bank := by
        simp only [bankStateIndex, Word32.mul, Nat.zero_mul, Nat.zero_mod, Word32.add, Nat.add_zero]
        exact Nat.mod_eq_of_lt hbank
      rw [hstate, hindex] at hevs
      simp only [hstate, hindex, slot_set _ hevs]
      have hold : slot a.src.banksArr pl.bank = evs := by
        rw [← slot_append_nils _ n, ← harr, slot, hevs]
        rfl
      by_cases hj : j = pl.bank
      · rw [if_pos hj, if_pos hj, hj, hold]
      · rw [if_neg hj, if_neg hj, harr, slot_append_nils, List.append_nil]

/-- One round of the event loop: nothing happens to the banks, or an event is filed under
    its placement. -/
theorem handleEvent_spec {s : EventSettings} {pm : PixelMap} {pkt : RawDataPkt} {isMapped : Bool}
    {a b : EventLoop} {ev : Event} (h : handleEvent s pm pkt isMapped a ev = some b) :
    match placementOf s pm isMapped ev with
    | none => SameBanks a b
    | some pl => FiledAt pl.bank ⟨ev.tof, pl.logical⟩ a b := by
  have hlt : ∀ pl, placementOf s pm isMapped ev = some pl → pl.bank < Word32.modulus := by
    intro pl hpl
    have hbank := placementOf_bank_le hpl
    have hnum := pm.numBanks_le
    simp only [maxBank, PixelMap.realBankOffset, Word32.modulus] at *
    omega
  unfold handleEvent at h
  simp only at h
  split at h
  · rename_i hkind
    have hplace : placementOf s pm isMapped ev = none := by simp [placementOf, hkind]
    rw [hplace]
    cases h
    exact ⟨rfl, rfl, rfl, rfl, rfl⟩
  · split at h
    · rename_i hkind
      have hplace : placementOf s pm isMapped ev = none := by simp [placementOf, hkind]
      rw [hplace]
      cases h
      exact ⟨rfl, rfl, rfl, rfl, rfl⟩
    · split at h
      · rename_i hkind
        have hplace : placementOf s pm isMapped ev =
            some (placeDetector s pm isMapped ev.pixel) := by
          simp [placementOf, hkind]
        have hfiled := fileBanked_spec (hlt _ hplace) h
        rw [hplace]
        exact ⟨hfiled.pulseSources, hfiled.numEvents, hfiled.counts, hfiled.total_eq, hfiled.slots⟩
      · split at h
        · rename_i hkind
          have hplace : placementOf s pm isMapped ev = none := by
            rcases hkind with hkind | hkind <;> simp [placementOf, hkind]
          rw [hplace]
          cases h
          exact ⟨rfl, rfl, rfl, rfl, rfl⟩
        · -- every other kind is an error event
          rename_i h4 h7 h0 h56
          have hplace : placementOf s pm isMapped ev = some (placeError ev.pixel) := by
            rw [not_or] at h56
            simp [placementOf, h4, h7, h0, h56.1, h56.2]
          rw [hplace]
          split at h
          · have hfiled := fileBanked_spec (hlt _ hplace) h
            exact ⟨hfiled.pulseSources, hfiled.numEvents, hfiled.counts, hfiled.total_eq,
              hfiled.slots⟩
          · have hfiled := fileBanked_spec (hlt _ hplace) h
            exact ⟨hfiled.pulseSources, hfiled.numEvents, hfiled.counts, hfiled.total_eq,
              hfiled.slots⟩

/-! ### The events of a packet -/

/-- An event filed: by which source, and in which bank. -/
structure Filed where
  hwId : UInt32
  bank : Nat
  event : Event

/-- The events a packet files, in order. -/
def filedEvents (s : EventSettings) (pm : PixelMap) (isMapped : Bool) (hwId : UInt32)
    (evs : List Event) : List Filed :=
  evs.filterMap fun ev =>
    (placementOf s pm isMapped ev).map fun pl => ⟨hwId, pl.bank, ⟨ev.tof, pl.logical⟩⟩

/-- The events filed in one bank of a source. -/
def inBank (log : List Filed) (hwId : UInt32) (bank : Nat) : List Event :=
  (log.filter fun f => f.hwId = hwId ∧ f.bank = bank).map Filed.event

theorem inBank_append (log log' : List Filed) (hwId : UInt32) (bank : Nat) :
    inBank (log ++ log') hwId bank = inBank log hwId bank ++ inBank log' hwId bank := by
  simp [inBank]

/-- Events of other sources are in no bank of this one. -/
theorem inBank_eq_nil {log : List Filed} {hwId : UInt32} (h : ∀ f ∈ log, f.hwId ≠ hwId)
    (bank : Nat) : inBank log hwId bank = [] := by
  simp only [inBank, List.map_eq_nil_iff, List.filter_eq_nil_iff, decide_eq_true_eq]
  intro f hf hsame
  exact h f hf hsame.1

theorem hwId_of_filedEvents {s : EventSettings} {pm : PixelMap} {isMapped : Bool} {hwId : UInt32}
    {evs : List Event} {f : Filed} (h : f ∈ filedEvents s pm isMapped hwId evs) :
    f.hwId = hwId ∧ f.bank ≤ maxBank pm := by
  obtain ⟨ev, -, hev⟩ := List.mem_filterMap.mp h
  obtain ⟨pl, hpl, rfl⟩ := Option.map_eq_some_iff.mp hev
  exact ⟨rfl, placementOf_bank_le hpl⟩

/-- The counts of the loop: the pulse counts the banks and events of the source being
    filled on top of those it has from other sources. -/
structure LoopCounted (otherBanks otherEvents : Nat) (a : EventLoop) : Prop where
  activeBanks : a.src.activeBanks = UInt32.ofNat (filled a.src.banksArr)
  numBanks : a.pulse.numBanks = UInt32.ofNat (otherBanks + filled a.src.banksArr)
  numEvents : a.pulse.numEvents = UInt32.ofNat (otherEvents + total a.src.banksArr)

section Loop

variable {s : EventSettings} {pm : PixelMap} {pkt : RawDataPkt} {isMapped : Bool}
  {a b : EventLoop}

theorem LoopCounted.same {otherBanks otherEvents : Nat} (hsame : SameBanks a b)
    (h : LoopCounted otherBanks otherEvents a) : LoopCounted otherBanks otherEvents b := by
  constructor
  · rw [hsame.src]
    exact h.activeBanks
  · rw [hsame.src, hsame.numBanks]
    exact h.numBanks
  · rw [hsame.src, hsame.numEvents]
    exact h.numEvents

theorem LoopCounted.filed {otherBanks otherEvents bank : Nat} {ev : Event}
    (hfiled : FiledAt bank ev a b) (h : LoopCounted otherBanks otherEvents a) :
    LoopCounted otherBanks otherEvents b := by
  obtain ⟨first, hactive, hbanks, hfilled⟩ := hfiled.counts
  constructor
  · rw [hactive, hfilled, h.activeBanks, UInt32.ofNat_add]
  · rw [hbanks, hfilled, h.numBanks, ← Nat.add_assoc]
    exact (UInt32.ofNat_add _ _).symm
  · rw [hfiled.numEvents, hfiled.total_eq, h.numEvents, ← Nat.add_assoc]
    exact (UInt32.ofNat_add _ 1).symm

/-- What the event loop leaves: the counts add up, and without states every bank has its
    events behind those it had. -/
theorem handleEvents_spec (hwId : UInt32) (otherBanks otherEvents : Nat) {evs : List Event}
    (h : handleEvents s pm pkt isMapped a evs = some b) :
    b.pulse.pulseSources = a.pulse.pulseSources ∧
    (LoopCounted otherBanks otherEvents a → LoopCounted otherBanks otherEvents b) ∧
    (hasStates b.pulse = false → hasStates a.pulse = false ∧ ∀ j,
      slot b.src.banksArr j =
        slot a.src.banksArr j ++ inBank (filedEvents s pm isMapped hwId evs) hwId j) := by
  induction evs generalizing a with
  | nil =>
    cases h
    exact ⟨rfl, id, fun hstates => ⟨hstates, fun j => (List.append_nil _).symm⟩⟩
  | cons ev evs ih =>
    obtain ⟨c, hev, hrest⟩ := Option.bind_eq_some_iff.mp h
    obtain ⟨hsources, hcounts, hslots⟩ := ih hrest
    have hspec := handleEvent_spec hev
    -- an event without a place changes no bank, and is not in the log
    cases hplace : placementOf s pm isMapped ev with
    | none =>
      rw [hplace] at hspec
      have hsame : SameBanks a c := hspec
      have hlog : filedEvents s pm isMapped hwId (ev :: evs) =
          filedEvents s pm isMapped hwId evs := by
        simp [filedEvents, hplace]
      refine ⟨hsources.trans hsame.pulseSources, fun hcount => hcounts (hcount.same hsame), ?_⟩
      intro hstates
      obtain ⟨hbefore, hslot⟩ := hslots hstates
      rw [hlog]
      rw [hsame.src] at hslot
      rw [hasStates, Pulse.hasFlag, hsame.flags] at hbefore
      exact ⟨hbefore, hslot⟩
    | some pl =>
      rw [hplace] at hspec
      have hfiled : FiledAt pl.bank ⟨ev.tof, pl.logical⟩ a c := hspec
      have hlog : filedEvents s pm isMapped hwId (ev :: evs) =
          [⟨hwId, pl.bank, ⟨ev.tof, pl.logical⟩⟩] ++ filedEvents s pm isMapped hwId evs := by
        simp [filedEvents, hplace]
      refine ⟨hsources.trans hfiled.pulseSources, fun hcount => hcounts (hcount.filed hfiled), ?_⟩
      intro hstates
      obtain ⟨hbefore, hslot⟩ := hslots hstates
      obtain ⟨hfirst, hone⟩ := hfiled.slots hbefore
      refine ⟨hfirst, fun j => ?_⟩
      rw [hslot, hone, hlog, inBank_append, List.append_assoc]
      congr 2
      -- the log goes on with this event in the bank it is filed to only
      by_cases hj : j = pl.bank
      · simp [inBank, hj]
      · simp [inBank, hj, Ne.symm hj]

end Loop

/-! ### Pulses as `pulseEvents` assembles them -/

/-- A write to a pulse that leaves its banks alone: timing, charge, pending sources, and
    every flag but the one for states. -/
structure KeepsBanks (p p' : Pulse) : Prop where
  pulseSources : p'.pulseSources = p.pulseSources
  numBanks : p'.numBanks = p.numBanks
  numEvents : p'.numEvents = p.numEvents
  states : hasStates p' = hasStates p

/-- A pulse made by `pulseEvents`, with the events filed so far. -/
inductive Assembled (pm : PixelMap) : Pulse → List Filed → Prop
  | new (id : PulseIdentifier) (srcs : SourceSet) : Assembled pm (Pulse.new id srcs) []
  | write {p p' : Pulse} {log : List Filed} (h : Assembled pm p log) (hkeep : KeepsBanks p p') :
      Assembled pm p' log
  | file {p : Pulse} {log : List Filed} {a : EventLoop} (s : EventSettings)
      (lastRingPeriod : UInt32) (numStatesLast : Nat) (numStatesResetCount : UInt32)
      (pkt : RawDataPkt) (hwId : UInt32) (isMapped mixedDataPackets : Bool)
      (h : Assembled pm p log)
      (hfile : fileEvents s pm lastRingPeriod numStatesLast numStatesResetCount pkt hwId isMapped
        p = some a) :
      Assembled pm (finishEvents pkt hwId mixedDataPackets a)
        (log ++ filedEvents s pm isMapped hwId pkt.events)

/-- The banks with events, over all sources. -/
def allFilled (p : Pulse) : Nat := (p.pulseSources.entries.map fun e => filled e.2.banksArr).sum

/-- The events, over all sources. -/
def allEvents (p : Pulse) : Nat := (p.pulseSources.entries.map fun e => total e.2.banksArr).sum

/-- The counts of a pulse and its sources are those of their banks and events. -/
structure Counted (p : Pulse) : Prop where
  activeBanks : ∀ e ∈ p.pulseSources.entries,
    e.2.activeBanks = UInt32.ofNat (filled e.2.banksArr)
  numBanks : p.numBanks = UInt32.ofNat (allFilled p)
  numEvents : p.numEvents = UInt32.ofNat (allEvents p)

/-- Every bank holds the events filed under it, and nothing was filed elsewhere. -/
structure Holds (pm : PixelMap) (p : Pulse) (log : List Filed) : Prop where
  slots : ∀ e ∈ p.pulseSources.entries, ∀ bank, slot e.2.banksArr bank = inBank log e.1 bank
  sources : ∀ f ∈ log, f.hwId ∈ p.pulseSources.keys
  banks : ∀ f ∈ log, f.bank ≤ maxBank pm

section Packet

variable {s : EventSettings} {pm : PixelMap} {pkt : RawDataPkt} {isMapped mixedDataPackets : Bool}
  {lastRingPeriod numStatesResetCount hwId : UInt32} {numStatesLast : Nat} {p : Pulse}
  {log : List Filed} {a : EventLoop}

/-- The pulse the event loop starts with has the banks of the one it was called for. -/
theorem takeTiming_keeps (pkt : RawDataPkt) (ring : UInt32) (p : Pulse) :
    KeepsBanks p (takeTiming pkt ring p) := by
  unfold takeTiming
  split <;> exact ⟨rfl, rfl, rfl, rfl⟩

theorem takeCharge_keeps (pkt : RawDataPkt) (p : Pulse) : KeepsBanks p (takeCharge pkt p) := by
  unfold takeCharge
  split <;> exact ⟨rfl, rfl, rfl, rfl⟩

/-- Marking a pulse sets flags only. -/
theorem markContents_same (pkt : RawDataPkt) (mixed : Bool) (a : EventLoop) :
    (markContents pkt mixed a).pulseSources = a.pulse.pulseSources ∧
      (markContents pkt mixed a).numBanks = a.pulse.numBanks ∧
      (markContents pkt mixed a).numEvents = a.pulse.numEvents ∧
      hasStates (markContents pkt mixed a) = hasStates a.pulse := by
  refine ⟨?_, ?_, ?_, ?_⟩
  · simp only [markContents, Pulse.setFlagIf]
    split <;> split <;> rfl
  · simp only [markContents, Pulse.setFlagIf]
    split <;> split <;> rfl
  · simp only [markContents, Pulse.setFlagIf]
    split <;> split <;> rfl
  · rw [markContents, hasStates_setFlagIf_of_disjoint _ _ (by decide),
      hasStates_setFlagIf_of_disjoint _ _ (by decide)]

/-- A new source has empty banks and counts none; another has those it had. -/
theorem findSource_spec (pm : PixelMap) (numStatesLast : Nat) (pkt : RawDataPkt) (hwId : UInt32)
    (p : Pulse) :
    (∃ src, p.pulseSources.find? hwId = some src ∧ findSource pm numStatesLast pkt hwId p = src) ∨
      (p.pulseSources.find? hwId = none ∧
        (findSource pm numStatesLast pkt hwId p).activeBanks = 0 ∧
        ∃ n, (findSource pm numStatesLast pkt hwId p).banksArr = List.replicate n []) := by
  unfold findSource
  cases h : p.pulseSources.find? hwId with
  | some src => exact .inl ⟨src, rfl, rfl⟩
  | none => exact .inr ⟨rfl, rfl, _, rfl⟩

/-- The tally of the source found is what the pulse had under its id. -/
theorem tally_findSource {w : List Event → Nat} (hw : w [] = 0) (pm : PixelMap)
    (numStatesLast : Nat) (pkt : RawDataPkt) (hwId : UInt32) (p : Pulse) :
    ((p.pulseSources.find? hwId).map fun src => tally w src.banksArr).getD 0 =
      tally w (findSource pm numStatesLast pkt hwId p).banksArr := by
  rcases findSource_spec pm numStatesLast pkt hwId p with ⟨src, hfind, hsrc⟩ | ⟨hfind, -, n, hn⟩
  · rw [hfind, hsrc]
    rfl
  · rw [hfind, hn]
    exact (tally_append_nils hw [] n).symm

theorem Counted.keep {p' : Pulse} (hkeep : KeepsBanks p p') (hp : Counted p) : Counted p' := by
  constructor
  · rw [hkeep.pulseSources]
    exact hp.activeBanks
  · rw [hkeep.numBanks, allFilled, hkeep.pulseSources]
    exact hp.numBanks
  · rw [hkeep.numEvents, allEvents, hkeep.pulseSources]
    exact hp.numEvents

theorem Holds.keep {p' : Pulse} (hkeep : KeepsBanks p p') (hp : Holds pm p log) :
    Holds pm p' log := by
  constructor
  · rw [hkeep.pulseSources]
    exact hp.slots
  · rw [hkeep.pulseSources]
    exact hp.sources
  · exact hp.banks

/-- An entry of the pulse after the packet: the source that sent it, or one from before. -/
theorem mem_finishEvents {e : UInt32 × EventSource}
    (hsources : a.pulse.pulseSources = p.pulseSources)
    (he : e ∈ (finishEvents pkt hwId mixedDataPackets a).pulseSources.entries) :
    e = (hwId, a.src) ∨ e.1 ≠ hwId ∧ e ∈ p.pulseSources.entries := by
  have hmark := (markContents_same pkt mixedDataPackets a).1
  have hfind := SortedMap.find?_eq_some.mpr he
  rw [finishEvents, hmark, hsources, SortedMap.find?_alter] at hfind
  by_cases hkey : e.1 = hwId
  · rw [if_pos hkey] at hfind
    exact .inl (Prod.ext hkey (Option.some.inj hfind).symm)
  · rw [if_neg hkey] at hfind
    exact .inr ⟨hkey, SortedMap.find?_eq_some.mp hfind⟩

/-- The counts when the event loop starts. -/
theorem counted_start {otherBanks otherEvents : Nat} (hp : Counted p)
    (hbanks : allFilled p = otherBanks +
      ((p.pulseSources.find? hwId).map fun src => filled src.banksArr).getD 0)
    (hevents : allEvents p = otherEvents +
      ((p.pulseSources.find? hwId).map fun src => total src.banksArr).getD 0)
    {b : EventLoop} (hsrc : b.src = findSource pm numStatesLast pkt hwId p)
    (hpulse : b.pulse = takeCharge pkt p) : LoopCounted otherBanks otherEvents b := by
  have hcharge := takeCharge_keeps pkt p
  have hfilled : _ = filled (findSource pm numStatesLast pkt hwId p).banksArr :=
    tally_findSource (w := fun evs => if evs = [] then 0 else 1) rfl pm numStatesLast pkt hwId p
  have htotal : _ = total (findSource pm numStatesLast pkt hwId p).banksArr :=
    tally_findSource (w := List.length) rfl pm numStatesLast pkt hwId p
  constructor
  · rw [hsrc]
    rcases findSource_spec pm numStatesLast pkt hwId p with ⟨src, hfind, hsrc⟩ | ⟨-, hzero, n, hn⟩
    · rw [hsrc]
      exact hp.activeBanks (hwId, src) (SortedMap.find?_eq_some.mp hfind)
    · rw [hzero, hn]
      have hempty : filled (List.replicate n []) = 0 :=
        tally_append_nils (w := fun evs => if evs = [] then 0 else 1) rfl [] n
      rw [hempty]
      rfl
  · rw [hsrc, hpulse, hcharge.numBanks, hp.numBanks, hbanks]
    exact congrArg (fun n => UInt32.ofNat (otherBanks + n)) hfilled
  · rw [hsrc, hpulse, hcharge.numEvents, hp.numEvents, hevents]
    exact congrArg (fun n => UInt32.ofNat (otherEvents + n)) htotal

/-- Filing a packet's events stores the source's banks back, and the counts stay those of
    the banks. -/
theorem counted_file (hp : Counted p)
    (hfile : fileEvents s pm lastRingPeriod numStatesLast numStatesResetCount pkt hwId isMapped
      p = some a) : Counted (finishEvents pkt hwId mixedDataPackets a) := by
  have htiming := takeTiming_keeps pkt lastRingPeriod p
  have hcharge := takeCharge_keeps pkt (takeTiming pkt lastRingPeriod p)
  have hstart := hp.keep htiming
  obtain ⟨otherBanks, hbanks, hbanks'⟩ :=
    (takeTiming pkt lastRingPeriod p).pulseSources.sum_alter hwId fun src => filled src.banksArr
  obtain ⟨otherEvents, hevents, hevents'⟩ :=
    (takeTiming pkt lastRingPeriod p).pulseSources.sum_alter hwId fun src => total src.banksArr
  obtain ⟨hloop, hcounts, -⟩ := handleEvents_spec hwId otherBanks otherEvents hfile
  have hcounted := hcounts (counted_start hstart hbanks hevents rfl rfl)
  obtain ⟨hmark, hmarkBanks, hmarkEvents, -⟩ := markContents_same pkt mixedDataPackets a
  have hsources : a.pulse.pulseSources = (takeTiming pkt lastRingPeriod p).pulseSources :=
    hloop.trans hcharge.pulseSources
  constructor
  · intro e he
    rcases mem_finishEvents hsources he with rfl | ⟨-, he⟩
    · exact hcounted.activeBanks
    · exact hstart.activeBanks e he
  · show (markContents pkt mixedDataPackets a).numBanks = _
    rw [hmarkBanks, hcounted.numBanks, allFilled, finishEvents, hmark, hsources, hbanks']
  · show (markContents pkt mixedDataPackets a).numEvents = _
    rw [hmarkEvents, hcounted.numEvents, allEvents, finishEvents, hmark, hsources, hevents']

/-- Without states, the banks hold the packet's events behind those they had. -/
theorem holds_file (hp : hasStates p = false → Holds pm p log)
    (hfile : fileEvents s pm lastRingPeriod numStatesLast numStatesResetCount pkt hwId isMapped
      p = some a)
    (hstates : hasStates (finishEvents pkt hwId mixedDataPackets a) = false) :
    Holds pm (finishEvents pkt hwId mixedDataPackets a)
      (log ++ filedEvents s pm isMapped hwId pkt.events) := by
  have htiming := takeTiming_keeps pkt lastRingPeriod p
  have hcharge := takeCharge_keeps pkt (takeTiming pkt lastRingPeriod p)
  obtain ⟨hloop, -, hslots⟩ := handleEvents_spec hwId 0 0 hfile
  obtain ⟨hmark, -, -, hmarkStates⟩ := markContents_same pkt mixedDataPackets a
  obtain ⟨hbefore, hslots⟩ := hslots (hmarkStates.symm.trans hstates)
  have hsources : a.pulse.pulseSources = (takeTiming pkt lastRingPeriod p).pulseSources :=
    hloop.trans hcharge.pulseSources
  have hstart := (hp (by rw [← htiming.states, ← hcharge.states]; exact hbefore)).keep htiming
  -- what the source's banks held before
  have hold : ∀ bank, slot (findSource pm numStatesLast pkt hwId
      (takeTiming pkt lastRingPeriod p)).banksArr bank = inBank log hwId bank := by
    intro bank
    rcases findSource_spec pm numStatesLast pkt hwId (takeTiming pkt lastRingPeriod p) with
      ⟨src, hfind, hsrc⟩ | ⟨hfind, -, n, hn⟩
    · rw [hsrc]
      exact hstart.slots (hwId, src) (SortedMap.find?_eq_some.mp hfind) bank
    · have hnone : ∀ f ∈ log, f.hwId ≠ hwId := by
        intro f hf hsame
        exact SortedMap.find?_eq_none.mp hfind (hsame ▸ hstart.sources f hf)
      rw [hn, inBank_eq_nil hnone]
      exact slot_append_nils [] n bank
  have hkeys : ∀ hwId', hwId' ∈ (finishEvents pkt hwId mixedDataPackets a).pulseSources.keys ↔
      hwId' = hwId ∨ hwId' ∈ (takeTiming pkt lastRingPeriod p).pulseSources.keys := by
    intro hwId'
    rw [finishEvents, hmark, hsources, SortedMap.mem_keys_alter]
  constructor
  · intro e he bank
    rw [inBank_append]
    rcases mem_finishEvents hsources he with rfl | ⟨hne, he⟩
    · rw [hslots, hold]
    · have hother : inBank (filedEvents s pm isMapped hwId pkt.events) e.1 bank = [] :=
        inBank_eq_nil (fun f hf hsame => hne (hsame.symm.trans (hwId_of_filedEvents hf).1)) bank
      rw [hstart.slots e he, hother, List.append_nil]
  · intro f hf
    rw [hkeys]
    rcases List.mem_append.mp hf with hf | hf
    · exact .inr (hstart.sources f hf)
    · exact .inl (hwId_of_filedEvents hf).1
  · intro f hf
    rcases List.mem_append.mp hf with hf | hf
    · exact hstart.banks f hf
    · exact (hwId_of_filedEvents hf).2

/-- Every pulse that was assembled counts what its banks hold. -/
theorem Assembled.counted (h : Assembled pm p log) : Counted p := by
  induction h with
  | new id srcs => exact ⟨fun e he => absurd he List.not_mem_nil, rfl, rfl⟩
  | write h hkeep ih => exact ih.keep hkeep
  | file s ring numStatesLast resetCount pkt hwId isMapped mixed h hfile ih =>
    exact counted_file ih hfile

/-- Every pulse that was assembled without states holds what was filed. -/
theorem Assembled.holds (h : Assembled pm p log) (hstates : hasStates p = false) :
    Holds pm p log := by
  induction h with
  | new id srcs =>
    exact ⟨fun e he => absurd he List.not_mem_nil, fun f hf => absurd hf List.not_mem_nil,
      fun f hf => absurd hf List.not_mem_nil⟩
  | write h hkeep ih => exact (ih (hkeep.states ▸ hstates)).keep hkeep
  | file s ring numStatesLast resetCount pkt hwId isMapped mixed h hfile ih =>
    exact holds_file ih hfile hstates

end Packet

end Adara.Spec.EventFiling
