import Adara.Native.StorageManager
import Adara.Spec.PauseLookup
import Adara.Spec.Publication

/-! # The ranges of the stacked containers

The containers on the stack leave no gap between their ranges, whatever the times of the
starts and stops are: the current one has no end, and each start of a container begins where
the one before it ended.  A start that replaces the current container in its slot comes only
while that is the one container on the stack, or it keeps the range.  So a lookup finds a
container, and goes on to find it when older ones expire. -/

namespace Adara.Spec.StorageManager

open Adara.Native Adara.Native.StorageManager

/-- What a lookup sees of a slot. -/
structure SlotRange where
  node : Nat
  range : Option Timespec.Range
deriving DecidableEq, Repr

namespace SlotRange

def holds (ts : Timespec) (r : SlotRange) : Bool := r.range.any (·.holds ts)

def older (ts : Timespec) (r : SlotRange) : Bool := r.range.any (ts.before ·.first)

end SlotRange

def range (slot : Slot) : SlotRange :=
  ⟨slot.node, slot.container.map fun c => ⟨c.minTime, c.maxTime⟩⟩

/-- The period of the container in a slot. -/
def period (slot : Slot) : Period :=
  ((range slot).range.map (·.period)).getD ⟨0, none⟩

theorem period_some (n : Nat) (c : StoredContainer) :
    period ⟨n, some c⟩ = (Timespec.Range.mk c.minTime c.maxTime).period := rfl

theorem period_congr {slot slot' : Slot} (h : range slot' = range slot) :
    period slot' = period slot := by
  rw [period, h, period]

theorem slot_holds (slot : Slot) (ts : Timespec) : slot.holds ts = (range slot).holds ts := by
  simp only [Slot.holds, SlotRange.holds, range, Option.any_map]
  rfl

theorem slot_older (slot : Slot) (ts : Timespec) : slot.older ts = (range slot).older ts := by
  simp only [Slot.older, SlotRange.older, range, Option.any_map]

theorem holds_iff {slot : Slot} (h : slot.container.isSome) {ts : Timespec} :
    (range slot).holds ts = true ↔ (period slot).Holds ts.nanos := by
  obtain ⟨n, container⟩ := slot
  obtain ⟨c, rfl⟩ := Option.isSome_iff_exists.mp h
  exact @Timespec.Range.holds_iff ⟨c.minTime, c.maxTime⟩ ts

/-- The lookup is the search of a stack. -/
theorem lookup_eq (s : StorageManager) (ignore : Bool) (ts : Timespec) :
    s.lookup ignore ts =
      StackLookup.find (·.node) (SlotRange.holds ts) (SlotRange.older ts) ignore
        (s.containerStack.map range) := by
  have hholds : Slot.holds ts = SlotRange.holds ts ∘ range := funext (slot_holds · ts)
  have holder : Slot.older ts = SlotRange.older ts ∘ range := funext (slot_older · ts)
  rw [StackLookup.find_map, ← hholds, ← holder]
  rfl

theorem lookup_mem {s : StorageManager} {ignore : Bool} {ts : Timespec} {n : Nat}
    (h : s.lookup ignore ts = some n) : ∃ slot ∈ s.containerStack, slot.node = n := by
  rw [lookup_eq] at h
  obtain ⟨r, hr, rfl⟩ := StackLookup.find_mem h
  obtain ⟨slot, hslot, rfl⟩ := List.mem_map.mp hr
  exact ⟨slot, hslot, rfl⟩

/-! ### Slots -/

theorem slotAt_split {s : StorageManager} {pre post : List Slot} {slot : Slot}
    (hnodup : (s.containerStack.map (·.node)).Nodup)
    (hstack : s.containerStack = pre ++ slot :: post) : s.slotAt slot.node = some slot := by
  rw [hstack] at hnodup
  rw [slotAt, hstack]
  exact StackLookup.find?_split hnodup

theorem containerAt_split {s : StorageManager} {pre post : List Slot} {slot : Slot}
    (hnodup : (s.containerStack.map (·.node)).Nodup)
    (hstack : s.containerStack = pre ++ slot :: post) :
    s.containerAt slot.node = slot.container := by
  rw [containerAt, slotAt_split hnodup hstack, Option.bind_some]

theorem exists_split {s : StorageManager} {n : Nat} {c : StoredContainer}
    (h : s.containerAt n = some c) :
    ∃ pre post, s.containerStack = pre ++ ⟨n, some c⟩ :: post := by
  obtain ⟨⟨node, container⟩, hslot, hc⟩ := Option.bind_eq_some_iff.mp h
  obtain ⟨hnode, pre, post, hstack, -⟩ := List.find?_eq_some_iff_append.mp hslot
  obtain rfl : node = n := by simpa using hnode
  obtain rfl : container = some c := hc
  exact ⟨pre, post, hstack⟩

theorem setSlot_split {s : StorageManager} {pre post : List Slot} {slot slot' : Slot}
    (hnodup : (s.containerStack.map (·.node)).Nodup)
    (hstack : s.containerStack = pre ++ slot :: post) (hnode : slot'.node = slot.node) :
    s.setSlot slot' = { s with containerStack := pre ++ slot' :: post } := by
  rw [hstack] at hnodup
  rw [setSlot, hstack, StackLookup.map_split hnodup hnode]

/-! ### Regular stacks -/

section Parameters

variable (P : TimedContainer → Prop) (ordered : Prop)

/-- A slot has a container, whose pause modes meet `P`. -/
def Full (slot : Slot) : Prop :=
  ∃ c, slot.container = some c ∧ c.maxTime.Valid ∧ P c.modes

/-- Every slot has a container, the ranges leave no gap, and while no source is connected
    there is one container.  With `ordered` the ranges are adjacent. -/
structure Regular (s : StorageManager) : Prop where
  nodup : (s.containerStack.map (·.node)).Nodup
  lt : ∀ slot ∈ s.containerStack, slot.node < s.nextNode
  full : ∀ slot ∈ s.containerStack, Full P slot
  gapless : Period.Gapless (s.containerStack.map period)
  timeline : ordered → Period.IsTimeline (s.containerStack.map period)
  single : s.numConnected = 0 → s.containerStack.length = 1

end Parameters

variable {P : TimedContainer → Prop} {ordered : Prop}

/-- What the last lookup found is what a search finds for its time, or its time has been
    reset. -/
def CacheSound (s : StorageManager) : Prop :=
  s.lastTs = ⟨-1, -1⟩ ∨
    ∃ n, s.lastFound = some n ∧ s.lookup s.lastIgnorePktTimestamp s.lastTs = some n

theorem Full.isSome {slot : Slot} (h : Full P slot) : slot.container.isSome = true := by
  obtain ⟨c, hc, -⟩ := h
  simp [hc]

theorem Regular.stack_ne_nil {s : StorageManager} (h : Regular P ordered s) : s.containerStack ≠ [] := by
  intro hnil
  have := h.gapless
  rw [hnil] at this
  exact this

/-- The current container, which has no end. -/
theorem Regular.current {s : StorageManager} (h : Regular P ordered s) :
    ∃ n c post, s.containerStack = ⟨n, some c⟩ :: post ∧ c.maxTime.isZero = true ∧
      P c.modes := by
  obtain ⟨⟨n, container⟩, post, hstack⟩ := List.exists_cons_of_ne_nil h.stack_ne_nil
  obtain ⟨c, rfl, -, hsound⟩ := h.full ⟨n, container⟩ (by simp [hstack])
  refine ⟨n, c, post, hstack, ?_, hsound⟩
  have hgapless := h.gapless
  rw [hstack] at hgapless
  have hnone := hgapless.1
  rw [period_some] at hnone
  simp only [Timespec.Range.period] at hnone
  split at hnone
  · assumption
  · cases hnone

/-- Only the current container has no end. -/
theorem Regular.eq_current {s : StorageManager} (h : Regular P ordered s) {pre post : List Slot} {n : Nat}
    {c : StoredContainer} (hstack : s.containerStack = pre ++ ⟨n, some c⟩ :: post)
    (hopen : c.maxTime.isZero = true) : pre = [] := by
  have hgapless := h.gapless
  cases pre with
  | nil => rfl
  | cons slot pre =>
    have hreach : ∀ {t : Nat} {slots : List Slot}, (⟨n, some c⟩ : Slot) ∈ slots →
        ¬ Period.Reach t (slots.map period) := by
      intro t slots hmem hreach
      induction slots generalizing t with
      | nil => cases hmem
      | cons x xs ih =>
        obtain ⟨⟨e, he, -⟩, hrest⟩ := hreach
        obtain rfl | hmem := List.mem_cons.mp hmem
        · rw [period_some, Timespec.Range.period] at he
          simp [hopen] at he
        · exact ih hmem hrest
    rw [hstack] at hgapless
    exact absurd hgapless.2 (hreach (by simp))

theorem Regular.cover {s : StorageManager} (h : Regular P ordered s) (ts : Timespec) :
    StackLookup.Covers (SlotRange.holds ts) (SlotRange.older ts) (s.containerStack.map range) := by
  obtain ⟨p, hp, hps⟩ | hall := h.gapless.cover ts.nanos
  · obtain ⟨slot, hslot, rfl⟩ := List.mem_map.mp hp
    exact .inl ⟨_, List.mem_map_of_mem hslot, (holds_iff (h.full slot hslot).isSome).mpr hps⟩
  · refine .inr fun r hr => ?_
    obtain ⟨slot, hslot, rfl⟩ := List.mem_map.mp hr
    obtain ⟨c, hc, -⟩ := h.full slot hslot
    have hlt := hall _ (List.mem_map_of_mem hslot)
    have hbefore : ts.before c.minTime = true := by
      refine Timespec.before_iff.mpr ?_
      simpa [period, range, hc, Timespec.Range.period] using hlt
    simp [SlotRange.holds, SlotRange.older, range, hc, Timespec.Range.holds, hbefore]

/-- A lookup finds a container. -/
theorem Regular.lookup_isSome {s : StorageManager} (h : Regular P ordered s) (ignore : Bool)
    (ts : Timespec) : ∃ n, s.lookup ignore ts = some n := by
  rw [lookup_eq]
  exact StackLookup.find_isSome (by simpa using h.stack_ne_nil) fun _ => h.cover ts

theorem CacheSound.congr {s s' : StorageManager} (h : CacheSound s)
    (hfound : s'.lastFound = s.lastFound) (hts : s'.lastTs = s.lastTs)
    (hignore : s'.lastIgnorePktTimestamp = s.lastIgnorePktTimestamp)
    (hlookup : ∀ ignore ts n, s.lookup ignore ts = some n → s'.lookup ignore ts = some n) :
    CacheSound s' := by
  rw [CacheSound, hfound, hts, hignore]
  exact h.imp_right fun ⟨n, hn, hl⟩ => ⟨n, hn, hlookup _ _ n hl⟩

/-! ### A slot is changed -/

/-- The container of a slot is changed, or another one comes in its place, with the same
    range. -/
theorem Regular.replace {s s' : StorageManager} {pre post : List Slot} {slot slot' : Slot}
    {ended : List TimedContainer} (h : Regular P ordered s) (hstack : s.containerStack = pre ++ slot :: post)
    (hs' : s' = { s with containerStack := pre ++ slot' :: post, ended }) (hfull : Full P slot')
    (hrange : range slot' = range slot) :
    Regular P ordered s' ∧ (CacheSound s → CacheSound s') := by
  have hnode : slot'.node = slot.node := congrArg SlotRange.node hrange
  -- all that the invariant asks of the order is about the ranges, which stay
  have hmap : s'.containerStack.map range = s.containerStack.map range := by
    rw [hs', hstack]
    simp [hrange]
  have hperiods : s'.containerStack.map period = s.containerStack.map period := by
    rw [hs', hstack]
    simp [period_congr hrange]
  have hmem : ∀ x ∈ s'.containerStack, x = slot' ∨ x ∈ s.containerStack := by
    rw [hs', hstack]
    simp only [List.mem_append, List.mem_cons]
    exact fun x hx => hx.elim (fun hx => .inr (.inl hx))
      fun hx => hx.imp_right fun hx => .inr (.inr hx)
  refine ⟨⟨?_, fun x hx => ?_, fun x hx => ?_, hperiods ▸ h.gapless,
    fun ho => hperiods ▸ h.timeline ho, ?_⟩, fun hc => hc.congr ?_ ?_ ?_ ?_⟩
  · have hnodes := congrArg (List.map SlotRange.node) hmap
    rw [List.map_map, List.map_map] at hnodes
    have hnodup := h.nodup
    exact hnodes ▸ hnodup
  · have hlt := h.lt
    obtain rfl | hx := hmem x hx
    · rw [hnode, hs']
      exact hlt slot (by simp [hstack])
    · rw [hs']
      exact hlt x hx
  · obtain rfl | hx := hmem x hx
    · exact hfull
    · exact h.full x hx
  · have hsingle := h.single
    rw [hstack] at hsingle
    rw [hs']
    simpa using hsingle
  · rw [hs']
  · rw [hs']
  · rw [hs']
  · intro ignore ts n hn
    rw [lookup_eq] at hn ⊢
    rw [hmap]
    exact hn

theorem setModes_split {s : StorageManager} {pre post : List Slot} {n : Nat}
    {c : StoredContainer} (hnodup : (s.containerStack.map (·.node)).Nodup)
    (hstack : s.containerStack = pre ++ ⟨n, some c⟩ :: post) (modes : TimedContainer) :
    s.setModes n modes =
      { s with containerStack := pre ++ ⟨n, some { c with modes }⟩ :: post } := by
  have hat : s.containerAt n = some c := containerAt_split hnodup hstack
  simp only [setModes, hat]
  exact setSlot_split hnodup hstack rfl

/-- The pause modes of a container are changed. -/
theorem Regular.setModes {s : StorageManager} (h : Regular P ordered s) (hc : CacheSound s) {n : Nat}
    {modes : TimedContainer} (hmodes : P modes) :
    Regular P ordered (s.setModes n modes) ∧ CacheSound (s.setModes n modes) := by
  cases hat : s.containerAt n with
  | none =>
    simp only [StorageManager.setModes, hat]
    exact ⟨h, hc⟩
  | some c =>
    obtain ⟨pre, post, hstack⟩ := exists_split hat
    obtain ⟨c', hc', hvalid, -⟩ := h.full ⟨n, some c⟩ (by simp [hstack])
    obtain rfl := Option.some.inj hc'
    have hfull : Full P ⟨n, some { c with modes }⟩ := ⟨_, rfl, hvalid, hmodes⟩
    obtain ⟨hregular, hsound⟩ :=
      h.replace hstack (setModes_split h.nodup hstack modes) hfull rfl
    exact ⟨hregular, hsound hc⟩

/-! ### The start of a container -/

/-- The current mode gets its prologue files, unless it has them. -/
theorem getLastPrologueFiles_spec {c c' : TimedContainer} {opens : Bool} {m : TimedMode}
    {post : List TimedMode} (hn : TimedContainer.WellFormed c)
    (hstack : c.pauseModeStack = m :: post) (hc' : getLastPrologueFiles c opens = some c') :
    c' = c ∨ TimedContainer.Move False False False c c' ∧ TimedContainer.Kept c c' m post := by
  rw [getLastPrologueFiles, hstack, List.head?_cons, Option.bind_some] at hc'
  split at hc'
  · exact .inl (Option.some.inj hc').symm
  split at hc'
  · obtain rfl := Option.some.inj hc'
    have hsplit : c.pauseModeStack = [] ++ m :: post := hstack
    have hset := @TimedContainer.setMode_split c [] post m { m with hasLastPrologue := true }
      hn.nodup hsplit rfl
    refine .inr ⟨?_, ⟨{ m with hasLastPrologue := true }, congrArg (·.pauseModeStack) hset, rfl,
      rfl⟩, rfl⟩
    rw [hset]
    exact .adjust hsplit ⟨rfl, rfl, rfl, .inl rfl⟩ (fun _ => rfl) False.elim
  · cases hc'

/-- What the start of a container and the making of its prologue files preserve. -/
structure KeptByManager (P : TimedContainer → Prop) : Prop where
  start : ∀ (run : Nat) (minTime : Timespec) (paused opens lastPrologue : Bool),
    P { TimedContainer.start run minTime paused opens with
      pauseModeStack := (TimedContainer.start run minTime paused opens).pauseModeStack.map
        fun m => { m with hasLastPrologue := lastPrologue } }
  prologue : ∀ {c c' : TimedContainer} {opens : Bool}, P c →
    getLastPrologueFiles c opens = some c' → P c'
  stack_ne_nil : ∀ {c : TimedContainer}, P c → c.pauseModeStack ≠ []

/-- What the creation of a container in an empty slot leaves. -/
theorem startContainer_split (hP : KeptByManager P) {s : StorageManager}
    {pre post : List Slot} {n : Nat} (hnodup : (s.containerStack.map (·.node)).Nodup)
    (hstack : s.containerStack = pre ++ ⟨n, none⟩ :: post) (minTime : Timespec) (paused : Bool)
    (run : Nat) (lastPrologue : Bool) {io : StartIO} (hcreated : io.created = true) :
    ∃ modes, P modes ∧
      s.startContainer n minTime paused run lastPrologue io =
        ({ s with containerStack := pre ++ ⟨n, some ⟨minTime, ⟨0, 0⟩, modes⟩⟩ :: post },
          io.opens) := by
  refine ⟨_, hP.start run minTime paused io.opens lastPrologue, ?_⟩
  have hat : s.containerAt n = none := containerAt_split hnodup hstack
  simp only [startContainer, hat, hcreated, Option.isSome_none, Bool.not_true, Bool.or_self,
    Bool.false_eq_true, if_false]
  rw [setSlot_split hnodup hstack (by rfl)]

/-- A stack with one container, which has no end. -/
theorem Regular.of_single {s s' : StorageManager} {n : Nat} {c c' : StoredContainer}
    (h : Regular P ordered s) (hstack : s.containerStack = [⟨n, some c⟩])
    (hstack' : s'.containerStack = [⟨n, some c'⟩]) (hnext : s'.nextNode = s.nextNode)
    (hopen : c'.maxTime = ⟨0, 0⟩) (hmodes : P c'.modes) : Regular P ordered s' := by
  have hperiod : s'.containerStack.map period = [⟨c'.minTime.nanos, none⟩] := by
    rw [hstack', List.map_singleton, period_some, hopen, Timespec.Range.period_zero]
  refine ⟨by simp [hstack'], ?_, ?_, hperiod ▸ ⟨rfl, trivial⟩, fun _ => hperiod ▸ ⟨rfl, trivial⟩,
    ?_⟩
  · have hlt := h.lt
    rw [hstack] at hlt
    simpa [hstack', hnext] using hlt
  · rw [hstack']
    simp only [List.mem_singleton, forall_eq]
    exact ⟨c', rfl, hopen ▸ Timespec.valid_zero, hmodes⟩
  · simp [hstack']

/-- Two stacks with one container each, in the same slot: a lookup finds it. -/
theorem CacheSound.of_single {s s' : StorageManager} {n : Nat} {c c' : StoredContainer}
    (hc : CacheSound s) (h' : Regular P ordered s') (hstack : s.containerStack = [⟨n, some c⟩])
    (hstack' : s'.containerStack = [⟨n, some c'⟩]) (hfound : s'.lastFound = s.lastFound)
    (hts : s'.lastTs = s.lastTs)
    (hignore : s'.lastIgnorePktTimestamp = s.lastIgnorePktTimestamp) : CacheSound s' := by
  refine hc.congr hfound hts hignore fun ignore ts k hk => ?_
  obtain ⟨k', hk'⟩ := h'.lookup_isSome ignore ts
  obtain ⟨slot, hslot, rfl⟩ := lookup_mem hk
  obtain ⟨slot', hslot', rfl⟩ := lookup_mem hk'
  rw [hstack] at hslot
  rw [hstack'] at hslot'
  rw [hk', List.mem_singleton.mp hslot, List.mem_singleton.mp hslot']

/-- A new container comes on the stack, and the one that was the current one ends right
    before. -/
theorem Regular.push {s s' : StorageManager} {post : List Slot} {n : Nat}
    {c old new : StoredContainer} {t : Timespec} (h : Regular P ordered s)
    (hstack : s.containerStack = ⟨n, some c⟩ :: post) (ht : t.Valid) (hpos : 1 < t.nanos)
    (hlater : ordered → c.minTime.nanos < t.nanos)
    (hstack' : s'.containerStack = ⟨s.nextNode, some new⟩ :: ⟨n, some old⟩ :: post)
    (hnext : s'.nextNode = s.nextNode + 1) (hconnected : s'.numConnected ≠ 0)
    (hnew : new.minTime = t ∧ new.maxTime = ⟨0, 0⟩) (hold : old.minTime = c.minTime ∧
      old.maxTime = t.pred) (hmodes : P new.modes ∧ P old.modes) : Regular P ordered s' := by
  obtain ⟨hvalid, hpred, hrange⟩ := Timespec.Range.period_pred ht hpos c.minTime
  have hfresh : ∀ slot ∈ s.containerStack, slot.node < s.nextNode := h.lt
  rw [hstack] at hfresh
  have hperiods : s'.containerStack.map period =
      ⟨t.pred.nanos + 1, none⟩ :: ⟨c.minTime.nanos, some t.pred.nanos⟩ :: post.map period := by
    rw [hstack', List.map_cons, List.map_cons, period_some, period_some, hnew.1, hnew.2, hold.1,
      hold.2, hrange, Timespec.Range.period_zero, hpred]
  refine ⟨?_, ?_, ?_, ?_, fun ho => ?_, fun hzero => absurd hzero hconnected⟩
  · have hnodup := h.nodup
    rw [hstack] at hnodup
    rw [hstack', List.map_cons, List.nodup_cons]
    refine ⟨fun hmem => ?_, hnodup⟩
    -- the number of the new node is not used yet
    obtain ⟨slot, hslot, hnode⟩ := List.mem_map.mp hmem
    obtain rfl | hslot := List.mem_cons.mp hslot
    · exact Nat.lt_irrefl _ (hnode ▸ hfresh ⟨n, some c⟩ (by simp))
    · exact Nat.lt_irrefl _ (hnode ▸ hfresh slot (by simp [hslot]))
  · rw [hstack', hnext]
    intro slot hslot
    obtain rfl | hslot := List.mem_cons.mp hslot
    · exact Nat.lt_succ_self _
    obtain rfl | hslot := List.mem_cons.mp hslot
    · exact Nat.lt_succ_of_lt (hfresh ⟨n, some c⟩ (by simp))
    · exact Nat.lt_succ_of_lt (hfresh slot (by simp [hslot]))
  · rw [hstack']
    intro slot hslot
    obtain rfl | hslot := List.mem_cons.mp hslot
    · exact ⟨new, rfl, hnew.2 ▸ Timespec.valid_zero, hmodes.1⟩
    obtain rfl | hslot := List.mem_cons.mp hslot
    · exact ⟨old, rfl, hold.2 ▸ hvalid, hmodes.2⟩
    · exact h.full slot (by simp [hstack, hslot])
  · have hgapless := h.gapless
    rw [hstack] at hgapless
    exact hperiods ▸ hgapless.push t.pred.nanos
  · have htimeline := h.timeline ho
    rw [hstack] at htimeline
    have hlt := hlater ho
    have hle : (period ⟨n, some c⟩).lo ≤ t.pred.nanos := by
      show c.minTime.nanos ≤ t.pred.nanos
      omega
    exact hperiods ▸ htimeline.push hle

end Adara.Spec.StorageManager
