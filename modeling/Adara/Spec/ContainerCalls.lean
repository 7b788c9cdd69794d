import Adara.ForStd.Runs
import Adara.Spec.ContainerStack

/-! # The calls of the storage manager

Every call of the manager keeps the stack of containers regular, and the cache of the lookup
by time sound: a new container on the stack resets the last time, a container that comes in
the place of another one is alone on the stack or has the same range, and what expires is
behind the one that was found.  What the calls do to the pause modes is a parameter. -/

namespace Adara.Spec.StorageManager

open Adara.Native Adara.Native.StorageManager

variable {P : TimedContainer → Prop} {ordered : Prop}

/-! ### Expiry -/

theorem expired_iff {slot : Slot} {oldTs timeout : Timespec} (h : Full P slot)
    (htimeout : timeout.Valid) {e : Nat} (he : (period slot).hi = some e) :
    (!slot.expired oldTs timeout) = decide (oldTs.nanos < e + timeout.nanos) := by
  obtain ⟨n, container⟩ := slot
  obtain ⟨c, rfl, hvalid, -⟩ := h
  exact @Timespec.Range.expired_iff ⟨c.minTime, c.maxTime⟩ oldTs timeout htimeout hvalid e he

theorem expireContainers_stack {s : StorageManager} {front behind : List Slot} {slot : Slot}
    (hnodup : (s.containerStack.map (·.node)).Nodup)
    (hstack : s.containerStack = front ++ slot :: behind) (oldTs timeout : Timespec) :
    (s.expireContainers slot.node oldTs timeout).containerStack =
      front ++ slot :: behind.filter (!·.expired oldTs timeout) := by
  rw [hstack] at hnodup
  simp only [expireContainers, hstack, StackLookup.splitAt_split hnodup]
  simp

/-- Containers behind one that stays are taken off the stack. -/
theorem Regular.expire {s s' : StorageManager} {front behind : List Slot} {slot : Slot}
    (h : Regular P ordered s) (hstack : s.containerStack = front ++ slot :: behind) (oldTs : Timespec)
    {timeout : Timespec} (htimeout : timeout.Valid)
    (hstack' : s'.containerStack = front ++ slot :: behind.filter (!·.expired oldTs timeout))
    (hnext : s'.nextNode = s.nextNode) (hconnected : s'.numConnected = s.numConnected) :
    Regular P ordered s' := by
  have hsub : s'.containerStack.Sublist s.containerStack := by
    rw [hstack, hstack']
    exact (List.filter_sublist.cons_cons slot).append_left front
  refine ⟨h.nodup.sublist (hsub.map _), fun x hx => hnext ▸ h.lt x (hsub.subset hx),
    fun x hx => h.full x (hsub.subset hx), ?_, fun ho => ?_, fun hzero => ?_⟩
  · have hgapless := h.gapless
    rw [hstack] at hgapless
    rw [hstack']
    refine hgapless.filter fun x hx e he => expired_iff (h.full x ?_) htimeout he
    simp [hstack, hx]
  · have htimeline := h.timeline ho
    rw [hstack] at htimeline
    rw [hstack']
    refine htimeline.filter fun x hx e he => expired_iff (h.full x ?_) htimeout he
    simp [hstack, hx]
  · have hle := hsub.length_le
    rw [h.single (hconnected ▸ hzero)] at hle
    have hpos : 0 < s'.containerStack.length := List.length_pos_iff.mpr (by simp [hstack'])
    omega

/-- A lookup of a container, from the cache or not: a search finds it before and after, and
    what is taken off the stack is behind the current container. -/
structure Found (P : TimedContainer → Prop) (ordered : Prop) (s : StorageManager)
    (ignore : Bool) (ts : Timespec) (n : Nat) (s' : StorageManager) : Prop where
  before : s.lookup ignore ts = some n
  regular : Regular P ordered s'
  cache : CacheSound s'
  after : s'.lookup ignore ts = some n
  sublist : s'.containerStack.Sublist s.containerStack
  fromOldEnd : ordered → s'.containerStack <+: s.containerStack
  head : s'.containerStack.head? = s.containerStack.head?

theorem findContainerByTime_spec {s : StorageManager} (h : Regular P ordered s)
    (hc : CacheSound s) (ignore : Bool) {ts : Timespec} (check : Bool) (oldTs : Timespec)
    {timeout : Timespec} (hts : ts ≠ ⟨-1, -1⟩) (htimeout : timeout.Valid) :
    ∃ n s', s.findContainerByTime ignore ts check oldTs timeout = some (s', some n) ∧
      Found P ordered s ignore ts n s' := by
  obtain ⟨n, hn⟩ := h.lookup_isSome ignore ts
  unfold findContainerByTime
  split
  · -- the container of the last lookup
    rename_i hsame
    simp only [usesCache, Bool.and_eq_true, beq_iff_eq] at hsame
    obtain ⟨⟨rfl, -⟩, rfl⟩ := hsame
    obtain ⟨k, hk, hl⟩ := hc.resolve_left hts
    exact ⟨k, s, by rw [hk], hl, h, hc, hl, List.Sublist.refl _, fun _ => List.prefix_rfl, rfl⟩
  have hfull : s.looksAtEmpty ignore = false := by
    refine List.any_eq_false.mpr fun slot hslot => ?_
    have hslot : slot ∈ s.containerStack := by
      split at hslot
      · exact List.mem_of_mem_tail hslot
      · exact hslot
    simp [Option.isNone_iff_eq_none, Option.isSome_iff_ne_none.mp (h.full slot hslot).isSome]
  have hresult : (s.searchContainers ignore ts).or (s.sawtooth ts) = some n := hn
  simp only [hfull, Bool.false_eq_true, if_false]
  -- a stack that still leads to the container
  have hend : ∀ s₁ : StorageManager, Regular P ordered s₁ → s₁.lookup ignore ts = some n →
      s₁.containerStack.Sublist s.containerStack →
      (ordered → s₁.containerStack <+: s.containerStack) →
      s₁.containerStack.head? = s.containerStack.head? → ∀ result, result = some n →
      let s' : StorageManager := { s₁ with
        lastFound := result, lastTs := ts, lastIgnorePktTimestamp := ignore
        lastCheckOldContainers := check }
      ∃ k t, some (s', result) = some (t, some k) ∧ Found P ordered s ignore ts k t := by
    rintro s₁ h₁ hl hsub hold hhead result rfl
    exact ⟨n, _, rfl, hn, ⟨h₁.nodup, h₁.lt, h₁.full, h₁.gapless, h₁.timeline, h₁.single⟩,
      .inr ⟨n, rfl, hl⟩, hl, hsub, hold, hhead⟩
  cases hf : s.searchContainers ignore ts with
  | none =>
    rw [hf] at hresult
    exact hend s h hn (List.Sublist.refl _) (fun _ => List.prefix_rfl) rfl _ hresult
  | some k =>
    obtain rfl : k = n := by simpa [hf] using hresult
    cases check with
    | false => exact hend s h hn (List.Sublist.refl _) (fun _ => List.prefix_rfl) rfl _ rfl
    | true =>
      obtain ⟨slot, hslot, rfl⟩ := lookup_mem hn
      obtain ⟨front, behind, hstack⟩ := List.append_of_mem hslot
      have hstack' := expireContainers_stack h.nodup hstack oldTs timeout
      refine hend _ (h.expire hstack oldTs htimeout hstack' rfl rfl) ?_ ?_ (fun ho => ?_) ?_ _ rfl
      · rw [lookup_eq, hstack, List.map_append, List.map_cons] at hn
        rw [lookup_eq, hstack', List.map_append, List.map_cons]
        have hmap : (front.map range ++ range slot :: behind.map range) =
            s.containerStack.map range := by
          simp [hstack]
        refine StackLookup.find_filter (List.map_subset _ List.filter_sublist.subset) ?_ ?_ hn
        · rw [hmap, List.map_map]
          exact h.nodup
        · rw [hmap]
          exact fun _ => h.cover ts
      · rw [hstack, hstack']
        exact (List.filter_sublist.cons_cons slot).append_left front
      · -- the ones that expired are the oldest
        have htimeline := h.timeline ho
        rw [hstack] at htimeline
        rw [hstack, hstack', List.prefix_append_right_inj, List.prefix_cons_inj]
        refine htimeline.filter_isPrefix fun x hx e he => expired_iff (h.full x ?_) htimeout he
        simp [hstack, hx]
      · rw [hstack, hstack']
        cases front <;> rfl

/-! ### The switch to another container -/

/-- The end of a container that has no end yet, and the start of another one, in its slot or on
    top of the stack. -/
theorem switch_spec (hP : KeptByManager P) {s : StorageManager} {pre post : List Slot} {n : Nat}
    {c : StoredContainer} (h : Regular P ordered s) (hc : CacheSound s)
    (hstack : s.containerStack = pre ++ ⟨n, some c⟩ :: post)
    (hopen : c.maxTime.isZero = true) {newStart : Timespec} (ht : newStart.Valid)
    (hpos : 1 < newStart.nanos) (hlater : ordered → c.minTime.nanos < newStart.nanos)
    (doTerminate : Bool) {minTime : Timespec}
    (hmin : minTime = if doTerminate then c.minTime else newStart) (paused : Bool) (run : Nat)
    (lastPrologue : Bool) {io : StartIO} (hcreated : io.created = true) :
    ∃ s₁ it s₂, s.endCurrentContainer n newStart doTerminate true = (s₁, some it) ∧
      s₁.startContainer it minTime paused run lastPrologue io = (s₂, io.opens) ∧
      Regular P ordered s₂ ∧ CacheSound s₂ := by
  have hat : s.containerAt n = some c := containerAt_split h.nodup hstack
  have hmax : c.maxTime = ⟨0, 0⟩ := Timespec.eq_of_isZero hopen
  unfold endCurrentContainer
  simp only [hat]
  by_cases hterm : (doTerminate || s.numConnected == 0) = true
  · -- the new container comes in the slot of the old one
    rw [if_pos hterm]
    obtain ⟨ended, hended⟩ :
        ∃ ended, s.terminated { c with maxTime := newStart.pred } = { s with ended } := ⟨_, rfl⟩
    rw [hended]
    have hempty := @setSlot_split { s with ended } pre post ⟨n, some c⟩ ⟨n, none⟩ h.nodup hstack rfl
    have hnodup : ((pre ++ (⟨n, none⟩ : Slot) :: post).map (·.node)).Nodup := by
      have := h.nodup
      rw [hstack] at this
      simpa using this
    rw [hempty]
    obtain ⟨modes, hmodes, hstart⟩ := @startContainer_split P hP
      { s with containerStack := pre ++ ⟨n, none⟩ :: post, ended } pre post n hnodup rfl minTime
      paused run lastPrologue io hcreated
    refine ⟨_, n, _, rfl, hstart, ?_⟩
    cases doTerminate with
    | true =>
      -- with the same range
      obtain rfl : minTime = c.minTime := hmin
      have hfull : Full P ⟨n, some ⟨c.minTime, ⟨0, 0⟩, modes⟩⟩ := ⟨_, rfl, Timespec.valid_zero, hmodes⟩
      obtain ⟨hregular, hsound⟩ := h.replace hstack rfl hfull (by simp [range, hmax])
      exact ⟨hregular, hsound hc⟩
    | false =>
      -- as the one container on the stack
      have hlength := h.single (by simpa using hterm)
      rw [hstack] at hlength
      obtain ⟨rfl, rfl⟩ : pre = [] ∧ post = [] := by
        simp only [List.length_append, List.length_cons] at hlength
        exact ⟨List.length_eq_zero_iff.mp (by omega), List.length_eq_zero_iff.mp (by omega)⟩
      have hregular :=
        @Regular.of_single P ordered s
          { s with containerStack := [⟨n, some ⟨minTime, ⟨0, 0⟩, modes⟩⟩], ended } n c
          ⟨minTime, ⟨0, 0⟩, modes⟩ h hstack rfl rfl rfl hmodes
      exact ⟨hregular, hc.of_single hregular hstack rfl rfl rfl rfl⟩
  · -- the old container stays below the new one
    rw [if_neg hterm]
    simp only [Bool.or_eq_true, beq_iff_eq, not_or] at hterm
    obtain ⟨hkeep, hconnected⟩ := hterm
    obtain rfl := h.eq_current hstack hopen
    have hmin : minTime = newStart := by simpa [hkeep] using hmin
    rw [hmin]
    obtain ⟨c₀, hc₀, -, hmodes₀⟩ := h.full ⟨n, some c⟩ (by simp [hstack])
    obtain rfl := Option.some.inj hc₀
    obtain ⟨modes', hmodes'⟩ : ∃ modes', getLastPrologueFiles c.modes true = some modes' := by
      obtain ⟨m, rest, hmodes⟩ := List.exists_cons_of_ne_nil (hP.stack_ne_nil hmodes₀)
      rw [getLastPrologueFiles, hmodes, List.head?_cons, Option.bind_some]
      split
      · exact ⟨_, rfl⟩
      · exact ⟨_, rfl⟩
    simp only [hmodes']
    have hset := @setSlot_split s [] post ⟨n, some c⟩
      ⟨n, some ⟨c.minTime, newStart.pred, modes'⟩⟩ h.nodup hstack rfl
    rw [hset]
    have hnodup : (((⟨s.nextNode, none⟩ : Slot) ::
        ⟨n, some ⟨c.minTime, newStart.pred, modes'⟩⟩ :: post).map (·.node)).Nodup := by
      have hnodup := h.nodup
      have hlt := h.lt
      rw [hstack] at hnodup hlt
      refine List.nodup_cons.mpr ⟨fun hmem => ?_, hnodup⟩
      have hmem : s.nextNode ∈ ((⟨n, some c⟩ : Slot) :: post).map (·.node) := hmem
      obtain ⟨slot, hslot, hnode⟩ := List.mem_map.mp hmem
      exact Nat.lt_irrefl _ (hnode ▸ hlt slot hslot)
    obtain ⟨modes, hmodes, hstart⟩ := @startContainer_split P hP
      { s with
        containerStack := ⟨s.nextNode, none⟩ ::
          ⟨n, some ⟨c.minTime, newStart.pred, modes'⟩⟩ :: post
        nextNode := s.nextNode + 1, lastTs := ⟨-1, -1⟩ }
      [] (⟨n, some ⟨c.minTime, newStart.pred, modes'⟩⟩ :: post) s.nextNode hnodup rfl newStart
      paused run lastPrologue io hcreated
    refine ⟨_, s.nextNode, _, rfl, hstart, ?_, .inl rfl⟩
    exact h.push hstack ht hpos hlater rfl rfl hconnected ⟨rfl, rfl⟩ ⟨rfl, rfl⟩
      ⟨hmodes, hP.prologue hmodes₀ hmodes'⟩

/-! ### The calls -/

/-- The container in a slot of a regular stack. -/
theorem Regular.modes {s : StorageManager} (h : Regular P ordered s) {n : Nat}
    {c : StoredContainer} (hat : s.containerAt n = some c) :
    (⟨n, some c⟩ : Slot) ∈ s.containerStack ∧ P c.modes := by
  obtain ⟨pre, post, hstack⟩ := exists_split hat
  have hmem : (⟨n, some c⟩ : Slot) ∈ s.containerStack := by simp [hstack]
  obtain ⟨c', hc', -, hmodes⟩ := h.full _ hmem
  obtain rfl := Option.some.inj hc'
  exact ⟨hmem, hmodes⟩

/-- What a lookup found is on the stack, with its container. -/
theorem Regular.containerAt_lookup {s : StorageManager} (h : Regular P ordered s) {ignore : Bool}
    {ts : Timespec} {n : Nat} (hn : s.lookup ignore ts = some n) :
    ∃ c, s.containerAt n = some c := by
  obtain ⟨slot, hslot, rfl⟩ := lookup_mem hn
  obtain ⟨c, hc, -⟩ := h.full slot hslot
  obtain ⟨pre, post, hstack⟩ := List.append_of_mem hslot
  exact ⟨c, (containerAt_split h.nodup hstack).trans hc⟩


/-- What the calls on a container preserve where `ok` holds. -/
structure KeptByCalls (P : TimedContainer → Prop)
    (ok : TimedContainer → TimedContainer.Call → Prop) : Prop extends KeptByManager P where
  step : ∀ {c c' : TimedContainer} {a : TimedContainer.Call}, P c → ok c a →
    TimedContainer.step c a = some c' → P c'

/-- A switch comes at a proper time, and the directories and the prologue files can be made. -/
def SwitchMakes (newStart : Timespec) (io : SwitchIO) : Prop :=
  newStart.Valid ∧ 1 < newStart.nanos ∧ io.prologueOpens = true ∧ io.start.created = true

instance (newStart : Timespec) (io : SwitchIO) : Decidable (SwitchMakes newStart io) :=
  inferInstanceAs (Decidable (_ ∧ _))

/-- The time is after the current container has begun. -/
def Later (s : StorageManager) (t : Timespec) : Prop :=
  ∀ slot ∈ s.containerStack.head?, ∀ c ∈ slot.container, c.minTime.nanos < t.nanos

instance (s : StorageManager) (t : Timespec) : Decidable (Later s t) :=
  inferInstanceAs (Decidable (∀ _ ∈ _, _))

theorem Later.congr {s s' : StorageManager} {t : Timespec} (h : Later s t)
    (hhead : (s'.containerStack.map range).head? = (s.containerStack.map range).head?) :
    Later s' t := by
  intro slot hslot c hc
  rw [List.head?_map, List.head?_map, Option.mem_def.mp hslot] at hhead
  obtain ⟨slot₀, hslot₀, hrange⟩ := Option.map_eq_some_iff.mp hhead.symm
  have hrange := congrArg SlotRange.range hrange
  simp only [range, Option.mem_def.mp hc, Option.map_some] at hrange
  obtain ⟨c₀, hc₀, hc₀c⟩ := Option.map_eq_some_iff.mp hrange
  exact congrArg (·.first.nanos) hc₀c ▸ h slot₀ hslot₀ c₀ hc₀

theorem setModes_ranges {s : StorageManager} (h : Regular P ordered s) (n : Nat)
    (modes : TimedContainer) :
    (s.setModes n modes).containerStack.map range = s.containerStack.map range := by
  cases hat : s.containerAt n with
  | none => simp only [setModes, hat]
  | some c =>
    obtain ⟨pre, post, hstack⟩ := exists_split hat
    rw [setModes_split h.nodup hstack, hstack]
    simp [range]

section Calls

variable {ok : TimedContainer → TimedContainer.Call → Prop} (hP : KeptByCalls P ok)

include hP

theorem switchContainer_regular {s : StorageManager} (h : Regular P ordered s)
    (hc : CacheSound s) {newStart : Timespec} {run : Nat} {io : SwitchIO}
    (hmakes : SwitchMakes newStart io) (hlater : ordered → Later s newStart) :
    Regular P ordered (s.switchContainer newStart run io) ∧
      CacheSound (s.switchContainer newStart run io) := by
  obtain ⟨ht, hpos, hprologue, hcreated⟩ := hmakes
  obtain ⟨n, c, post, hstack, hopen, -⟩ := h.current
  have hsplit : s.containerStack = [] ++ ⟨n, some c⟩ :: post := hstack
  have hmin : newStart = if false = true then c.minTime else newStart := rfl
  have hafter : ordered → c.minTime.nanos < newStart.nanos :=
    fun ho => hlater ho ⟨n, some c⟩ (by simp [hstack]) c rfl
  obtain ⟨s₁, it, s₂, hend, hstart, h₂, hc₂⟩ :=
    switch_spec hP.toKeptByManager h hc hsplit hopen ht hpos hafter false hmin false run false
      hcreated
  rw [switchContainer, hstack]
  simp only [List.head?_cons, hprologue, hend, hstart]
  exact ⟨h₂, hc₂⟩

theorem splitContainer_regular {s : StorageManager} (h : Regular P ordered s)
    (hc : CacheSound s) {n : Nat} {c : StoredContainer} (hat : s.containerAt n = some c)
    (hlong : isLong c = true) {io : SplitIO} (hmakes : SwitchMakes io.maxTime io.switch)
    (hlater : ordered → Later s io.maxTime) :
    Regular P ordered (s.splitContainer n c io).1 ∧ CacheSound (s.splitContainer n c io).1 := by
  obtain ⟨ht, hpos, hprologue, hcreated⟩ := hmakes
  obtain ⟨pre, post, hstack⟩ := exists_split hat
  have hopen : c.maxTime.isZero = true := by
    simp only [isLong, Bool.and_eq_true] at hlong
    exact hlong.1.2
  have hafter : ordered → c.minTime.nanos < io.maxTime.nanos := by
    intro ho
    obtain rfl := h.eq_current hstack hopen
    exact hlater ho ⟨n, some c⟩ (by simp [hstack]) c rfl
  unfold splitContainer
  obtain ⟨s₁, it, s₂, hend, hstart, h₂, hc₂⟩ :=
    switch_spec hP.toKeptByManager h hc hstack hopen ht hpos hafter
      (c.modes.pauseModeStack.length == 1) rfl (c.modes.pauseModeStack.head?.any (·.paused)) 0
      (c.modes.pauseModeStack.head?.any (·.hasLastPrologue) ||
        !(c.modes.pauseModeStack.length == 1)) hcreated
  simp only [hprologue, hend, hstart]
  cases io.switch.start.opens <;> exact ⟨h₂, hc₂⟩

theorem writeTo_regular {s s' : StorageManager} (h : Regular P ordered s) (hc : CacheSound s)
    {n p : Nat} {io : TimedContainer.WriteIO} (hok : ∀ c, ok c (.write p io))
    (hs' : s.writeTo n p io = some s') : Regular P ordered s' ∧ CacheSound s' := by
  obtain ⟨c, hat, hw⟩ := Option.bind_eq_some_iff.mp hs'
  split at hw
  · cases hw
  · obtain ⟨r, hr, rfl⟩ := Option.map_eq_some_iff.mp hw
    have hstep : TimedContainer.step c.modes (.write p io) = some r.1 := by
      rw [TimedContainer.step, hr, Option.map_some]
    exact h.setModes hc (hP.step (h.modes hat).2 (hok c.modes) hstep)

/-- A pause mode is looked up in the container that was found. -/
theorem getPauseModeByTime_regular {s : StorageManager} (h : Regular P ordered s)
    (hc : CacheSound s) {ignore : Bool} {ts : Timespec} {n : Nat} {c : StoredContainer}
    {check : Bool} {oldTs timeout : Timespec} (hat : s.containerAt n = some c)
    (hok : ok c.modes (.getPauseModeByTime ignore ts check oldTs timeout)) :
    let modes := (c.modes.getPauseModeByTime ignore ts check oldTs timeout).1
    Regular P ordered (s.setModes n modes) ∧ CacheSound (s.setModes n modes) ∧
      (s.setModes n modes).containerAt n = some { c with modes } := by
  obtain ⟨hset, hcset⟩ := h.setModes hc (n := n) (hP.step (h.modes hat).2 hok rfl)
  obtain ⟨pre, post, hstack⟩ := exists_split hat
  have hsplit := setModes_split h.nodup hstack
    (c.modes.getPauseModeByTime ignore ts check oldTs timeout).1
  exact ⟨hset, hcset, containerAt_split hset.nodup (congrArg (·.containerStack) hsplit)⟩

theorem addPacket_regular {s s' : StorageManager} (h : Regular P ordered s) (hc : CacheSound s)
    {ignore : Bool} {ts : Timespec} {check : Bool} {oldTs timeout : Timespec}
    {io : TimedContainer.WriteIO} {split : SplitIO} (hts : ts ≠ ⟨-1, -1⟩)
    (htimeout : timeout.Valid)
    (hlook : ∀ slot ∈ s.containerStack, ∀ c ∈ slot.container,
      ok c.modes (.getPauseModeByTime ignore ts check oldTs timeout))
    (hwrite : ∀ c p oversize, ok c (.write p { io with oversize }))
    (hmakes : SwitchMakes split.maxTime split.switch) (hlater : ordered → Later s split.maxTime)
    (hs' : s.addPacket ignore ts check oldTs timeout io split = some s') :
    Regular P ordered s' ∧ CacheSound s' := by
  obtain ⟨n, s₁, hfind, hfound⟩ := findContainerByTime_spec h hc ignore check oldTs hts htimeout
  obtain ⟨c, hat⟩ := hfound.regular.containerAt_lookup hfound.after
  have hmem := hfound.sublist.subset (hfound.regular.modes hat).1
  obtain ⟨h₂, hc₂, hat₂⟩ :=
    getPauseModeByTime_regular hP hfound.regular hfound.cache hat (hlook _ hmem c rfl)
  have hlater₂ : ∀ modes, ordered → Later (s₁.setModes n modes) split.maxTime := by
    refine fun modes ho => (hlater ho).congr ?_
    rw [setModes_ranges hfound.regular, List.head?_map, List.head?_map, hfound.head]
  simp only [addPacket, hfind, Option.bind_some, hat, Option.map_some] at hs'
  obtain ⟨m, -, hs'⟩ := Option.bind_eq_some_iff.mp hs'
  split at hs'
  · -- the container is split first
    rename_i hlong
    have hsplit := splitContainer_regular hP h₂ hc₂ hat₂ (Bool.and_eq_true _ _ ▸ hlong).2 hmakes
      (hlater₂ _)
    split at hs'
    · rename_i s₃ hs₃
      rw [hs₃] at hsplit
      exact Option.some.inj hs' ▸ hsplit
    rename_i s₃ it hs₃
    rw [hs₃] at hsplit
    obtain ⟨h₃, hc₃⟩ := hsplit
    split at hs'
    · obtain ⟨new, -, htop⟩ := Option.bind_eq_some_iff.mp hs'
      obtain ⟨top, -, hw⟩ := Option.bind_eq_some_iff.mp htop
      exact writeTo_regular hP h₃ hc₃ (fun c => hwrite c top.node false) hw
    split at hs'
    · cases hs'
    · exact writeTo_regular hP h₃ hc₃ (fun c => hwrite c m.node io.oversize) hs'
  · exact writeTo_regular hP h₂ hc₂ (fun c => hwrite c m.node io.oversize) hs'

theorem savePacket_regular {s s' : StorageManager} (h : Regular P ordered s) (hc : CacheSound s)
    {ignore : Bool} {ts oldTs timeout : Timespec} {oversize : Bool} {split : SplitIO}
    (hts : ts ≠ ⟨-1, -1⟩) (htimeout : timeout.Valid)
    (hmakes : SwitchMakes split.maxTime split.switch) (hlater : ordered → Later s split.maxTime)
    (hs' : s.savePacket ignore ts oldTs timeout oversize split = some s') :
    Regular P ordered s' ∧ CacheSound s' := by
  obtain ⟨n, s₁, hfind, hfound⟩ := findContainerByTime_spec h hc ignore false oldTs hts htimeout
  obtain ⟨c, hat⟩ := hfound.regular.containerAt_lookup hfound.after
  simp only [savePacket, hfind, Option.map_some, Option.bind_some, hat, Option.some.injEq] at hs'
  subst hs'
  split
  · rename_i hlong
    refine splitContainer_regular hP hfound.regular hfound.cache hat
      (Bool.and_eq_true _ _ ▸ hlong).2 hmakes fun ho => (hlater ho).congr ?_
    rw [List.head?_map, List.head?_map, hfound.head]
  · exact ⟨hfound.regular, hfound.cache⟩

theorem checkContainerTimeout_regular {s s' : StorageManager} (h : Regular P ordered s)
    (hc : CacheSound s) {ts oldTs timeout : Timespec} (hts : ts ≠ ⟨-1, -1⟩)
    (htimeout : timeout.Valid)
    (hlook : ∀ slot ∈ s.containerStack, ∀ c ∈ slot.container,
      ok c.modes (.getPauseModeByTime false ts true oldTs timeout))
    (hs' : s.checkContainerTimeout ts oldTs timeout = some s') :
    Regular P ordered s' ∧ CacheSound s' := by
  obtain ⟨n, s₁, hfind, hfound⟩ := findContainerByTime_spec h hc false true oldTs hts htimeout
  obtain ⟨c, hat⟩ := hfound.regular.containerAt_lookup hfound.after
  have hmem := hfound.sublist.subset (hfound.regular.modes hat).1
  obtain ⟨h₂, hc₂, -⟩ :=
    getPauseModeByTime_regular hP hfound.regular hfound.cache hat (hlook _ hmem c rfl)
  simp only [checkContainerTimeout, hfind, Option.bind_some, hat, Option.map_some,
    Option.some.injEq] at hs'
  exact hs' ▸ ⟨h₂, hc₂⟩

/-- A call on the current container. -/
theorem onCurrent_regular {s s' : StorageManager} (h : Regular P ordered s) (hc : CacheSound s)
    {a : TimedContainer.Call}
    (hok : ∀ slot ∈ s.containerStack.head?, ∀ c ∈ slot.container, ok c.modes a)
    (hs' : s.onCurrent (TimedContainer.step · a) = some s') :
    Regular P ordered s' ∧ CacheSound s' := by
  obtain ⟨n, c, post, hstack, -, hmodes⟩ := h.current
  simp only [onCurrent, hstack, List.head?_cons, Option.bind_some] at hs'
  obtain ⟨modes, hstep, rfl⟩ := Option.map_eq_some_iff.mp hs'
  exact h.setModes hc (hP.step hmodes (hok ⟨n, some c⟩ (by simp [hstack]) c rfl) hstep)

omit hP

/-- While no source is connected, all containers but the current one are terminated. -/
theorem checkRequiredDataSources_regular {s : StorageManager} (h : Regular P ordered s)
    (hc : CacheSound s) (connected : Nat) :
    Regular P ordered (s.checkRequiredDataSources connected) ∧
      CacheSound (s.checkRequiredDataSources connected) := by
  unfold checkRequiredDataSources
  by_cases hzero : connected = 0
  · obtain ⟨n, c, post, hstack, hopen, hmodes⟩ := h.current
    obtain ⟨hclean, hnext, hts⟩ : s.cleanContainerStack.containerStack = [⟨n, some c⟩] ∧
        s.cleanContainerStack.nextNode = s.nextNode ∧
        s.cleanContainerStack.lastTs = ⟨-1, -1⟩ := by
      simp [cleanContainerStack, hstack]
    have hperiod : [period ⟨n, some c⟩] = [⟨c.minTime.nanos, none⟩] := by
      rw [period_some, Timespec.Range.period, if_pos hopen]
    rw [if_pos hzero]
    refine ⟨⟨by simp [hclean], ?_, ?_, ?_, fun _ => ?_, ?_⟩, .inl hts⟩
    · have hlt := h.lt
      rw [hstack] at hlt
      simpa [hclean, hnext] using hlt ⟨n, some c⟩ List.mem_cons_self
    · simpa [hclean] using h.full ⟨n, some c⟩ (by simp [hstack])
    · rw [hclean, List.map_singleton, hperiod]
      exact ⟨rfl, trivial⟩
    · rw [hclean, List.map_singleton, hperiod]
      exact ⟨rfl, trivial⟩
    · simp [hclean]
  · rw [if_neg hzero]
    exact ⟨⟨h.nodup, h.lt, h.full, h.gapless, h.timeline, fun h0 => absurd h0 hzero⟩, hc⟩

/-- What a call needs: proper times and creations that succeed where the container changes,
    and `ok` for the calls on the pause modes.  With `ordered` the containers change at later
    times. -/
def CallOk (ordered : Prop) (ok : TimedContainer → TimedContainer.Call → Prop)
    (s : StorageManager) : Op → Prop
  | .startRecording t _ io => SwitchMakes t io ∧ (ordered → Later s t)
  | .stopRecording t io => SwitchMakes t.succ io ∧ (ordered → Later s t.succ)
  | .pauseRecording t io =>
    ∀ slot ∈ s.containerStack.head?, ∀ c ∈ slot.container, ok c.modes (.pause t io)
  | .resumeRecording t io =>
    ∀ slot ∈ s.containerStack.head?, ∀ c ∈ slot.container, ok c.modes (.resume t io)
  | .checkRequiredDataSources _ => True
  | .addPacket ignore ts check oldTs timeout io split =>
    (ts ≠ ⟨-1, -1⟩ ∧ timeout.Valid) ∧
      (∀ slot ∈ s.containerStack, ∀ c ∈ slot.container,
        ok c.modes (.getPauseModeByTime ignore ts check oldTs timeout)) ∧
      (∀ c p oversize, ok c (.write p { io with oversize })) ∧
      SwitchMakes split.maxTime split.switch ∧ (ordered → Later s split.maxTime)
  | .savePacket _ ts _ timeout _ split =>
    (ts ≠ ⟨-1, -1⟩ ∧ timeout.Valid) ∧ SwitchMakes split.maxTime split.switch ∧
      (ordered → Later s split.maxTime)
  | .checkContainerTimeout ts oldTs timeout =>
    (ts ≠ ⟨-1, -1⟩ ∧ timeout.Valid) ∧
      ∀ slot ∈ s.containerStack, ∀ c ∈ slot.container,
        ok c.modes (.getPauseModeByTime false ts true oldTs timeout)

include hP

theorem step_regular {s s' : StorageManager} {a : Op} (h : Regular P ordered s)
    (hc : CacheSound s) (hok : CallOk ordered ok s a) (hstep : step s a = some s') :
    Regular P ordered s' ∧ CacheSound s' := by
  cases a with
  | startRecording t run io =>
    cases hstep
    unfold startRecording
    simp only
    split
    · exact ⟨h, hc⟩
    · exact switchContainer_regular hP h hc hok.1 hok.2
  | stopRecording t io =>
    cases hstep
    exact switchContainer_regular hP h hc hok.1 hok.2
  | pauseRecording t io => exact onCurrent_regular hP h hc (a := .pause t io) hok hstep
  | resumeRecording t io => exact onCurrent_regular hP h hc (a := .resume t io) hok hstep
  | checkRequiredDataSources connected =>
    cases hstep
    exact checkRequiredDataSources_regular h hc connected
  | addPacket ignore ts check oldTs timeout io split =>
    obtain ⟨⟨hts, htimeout⟩, hlook, hwrite, hmakes, hlater⟩ := hok
    exact addPacket_regular hP h hc hts htimeout hlook hwrite hmakes hlater hstep
  | savePacket ignore ts oldTs timeout oversize split =>
    obtain ⟨⟨hts, htimeout⟩, hmakes, hlater⟩ := hok
    exact savePacket_regular hP h hc hts htimeout hmakes hlater hstep
  | checkContainerTimeout ts oldTs timeout =>
    obtain ⟨⟨hts, htimeout⟩, hlook⟩ := hok
    exact checkContainerTimeout_regular hP h hc hts htimeout hlook hstep

theorem init_regular (minTime : Timespec) (opens : Bool) :
    Regular P ordered (init minTime opens) := by
  have hmodes : P (TimedContainer.start 0 minTime false opens) := by
    have h := hP.start 0 minTime false opens false
    rw [TimedContainer.start_eq] at h ⊢
    cases opens <;> exact h
  refine ⟨by simp [init], by simp [init], ?_, ⟨rfl, trivial⟩, fun _ => ⟨rfl, trivial⟩,
    fun _ => rfl⟩
  simp only [init, List.mem_singleton, forall_eq]
  exact ⟨_, rfl, Timespec.valid_zero, hmodes⟩

/-- A run whose calls have what they need keeps the stack regular and the cache sound. -/
theorem run_regular {minTime : Timespec} {opens : Bool} {calls : List Op} {s : StorageManager}
    (hok : Runs.along step (CallOk ordered ok) (init minTime opens) calls)
    (h : Runs.run step (init minTime opens) calls = some s) :
    Regular P ordered s ∧ CacheSound s :=
  Runs.invariant_along (I := fun s => Regular P ordered s ∧ CacheSound s)
    (fun _ _ _ hI hok hstep => step_regular hP hI.1 hI.2 hok hstep)
    ⟨init_regular hP minTime opens, .inl rfl⟩ hok h

end Calls

end Adara.Spec.StorageManager
