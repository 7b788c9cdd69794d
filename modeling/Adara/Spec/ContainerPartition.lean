import Adara.Spec.ContainerCalls

/-! # The containers partition time

Where the starts, stops and splits come at increasing times and nothing fails that they have to
make, the ranges of the stacked containers are adjacent and no time is in two of them.  A lookup
by time gives the one container that holds it, and what expires is the old end of the stack.
When the prologue files cannot be made, the current container gets an end and no other one
comes after it. -/

namespace Adara.Spec.StorageManager

open Adara.Native Adara.Native.StorageManager

/-- The containers on the stack, the current one first. -/
def containers (s : StorageManager) : List StoredContainer :=
  s.containerStack.filterMap (·.container)

/-- The slot for the time `ts`: the only one whose container holds it, or the current one if
    the time is before all of them. -/
def Designated (s : StorageManager) (ts : Timespec) (slot : Slot) : Prop :=
  slot.holds ts = true ∧ (∀ slot' ∈ s.containerStack, slot'.holds ts = true → slot' = slot) ∨
    s.containerStack.head? = some slot ∧ ∀ slot' ∈ s.containerStack, slot'.older ts = true

/-- The ranges of the containers are adjacent and disjoint, and lookups go by them. -/
structure Partitioned (s : StorageManager) : Prop where
  full : ∀ slot ∈ s.containerStack, slot.container.isSome = true
  current : ∀ c ∈ (containers s).head?, c.maxTime.isZero = true
  adjacent : (containers s).IsChain fun newer older =>
    older.maxTime.isZero = false ∧ older.maxTime.nanos + 1 = newer.minTime.nanos
  disjoint : (containers s).Pairwise fun c c' => ∀ ts, c.holds ts = true → c'.holds ts = false
  lookup : ∀ ts check oldTs timeout, ts ≠ ⟨-1, -1⟩ → timeout.Valid →
    ∃ slot ∈ s.containerStack, Designated s ts slot ∧
      ∃ s', s.findContainerByTime false ts check oldTs timeout = some (s', some slot.node)
  expiry : ∀ ignore ts check oldTs timeout, ts ≠ ⟨-1, -1⟩ → timeout.Valid →
    ∀ s' found, s.findContainerByTime ignore ts check oldTs timeout = some (s', found) →
      s'.containerStack <+: s.containerStack

/-! ### From the timeline -/

/-- The period of a container. -/
private def timeOf (c : StoredContainer) : Period := (Timespec.Range.mk c.minTime c.maxTime).period

/-- All that is needed of the pause modes: there is one. -/
def Plain (c : TimedContainer) : Prop := TimedContainer.WellFormed c ∧ c.pauseModeStack ≠ []

theorem periods_eq {P : TimedContainer → Prop} {slots : List Slot}
    (h : ∀ slot ∈ slots, Full P slot) :
    (slots.filterMap (·.container)).map timeOf = slots.map period := by
  induction slots with
  | nil => rfl
  | cons slot slots ih =>
    obtain ⟨n, container⟩ := slot
    obtain ⟨c, rfl, -⟩ := h _ List.mem_cons_self
    have hrest := ih fun slot hslot => h slot (List.mem_cons_of_mem _ hslot)
    exact congrArg (timeOf c :: ·) hrest

theorem Regular.designated {P : TimedContainer → Prop} {s : StorageManager}
    (h : Regular P True s) {ts : Timespec} {n : Nat} (hn : s.lookup false ts = some n) :
    ∃ slot ∈ s.containerStack, Designated s ts slot ∧ slot.node = n := by
  have hdisjoint : (s.containerStack.map range).Pairwise fun r r' =>
      r.holds ts = true → r'.holds ts = false := by
    have h' := (h.timeline trivial).disjoint
    rw [List.pairwise_map] at h' ⊢
    refine h'.imp_of_mem fun {slot slot'} hslot hslot' hd hts => Bool.eq_false_iff.mpr ?_
    exact fun hts' => hd ts.nanos ((holds_iff (h.full slot hslot).isSome).mp hts)
      ((holds_iff (h.full slot' hslot').isSome).mp hts')
  rw [lookup_eq] at hn
  obtain ⟨r, hr, rfl, hholds, honly⟩ | ⟨r, hr, rfl, hold⟩ :=
    StackLookup.find_cases (h.cover ts) hdisjoint hn
  · obtain ⟨slot, hslot, rfl⟩ := List.mem_map.mp hr
    rw [← slot_holds] at hholds
    refine ⟨slot, hslot, .inl ⟨hholds, fun slot' hslot' hholds' => ?_⟩, rfl⟩
    rw [slot_holds] at hholds'
    have hnode := congrArg (·.node) (honly (range slot') (List.mem_map_of_mem hslot') hholds')
    exact List.inj_on_of_nodup_map h.nodup hslot' hslot hnode
  · rw [List.head?_map] at hr
    obtain ⟨slot, hslot, rfl⟩ := Option.map_eq_some_iff.mp hr
    refine ⟨slot, List.mem_of_mem_head? hslot, .inr ⟨hslot, fun slot' hslot' => ?_⟩, rfl⟩
    rw [slot_older]
    exact (hold (range slot') (List.mem_map_of_mem hslot')).1

theorem Regular.partitioned {P : TimedContainer → Prop} {s : StorageManager}
    (h : Regular P True s) (hc : CacheSound s) : Partitioned s where
  full := fun slot hslot => (h.full slot hslot).isSome
  current := by
    obtain ⟨n, c, post, hstack, hopen, -⟩ := h.current
    intro c' hc'
    rw [containers, hstack] at hc'
    obtain rfl : c = c' := Option.some.inj hc'
    exact hopen
  adjacent := by
    have hchain := (h.timeline trivial).isChain
    rw [← periods_eq h.full, List.isChain_map] at hchain
    refine hchain.imp fun newer older ⟨e, he, hnext⟩ => ?_
    simp only [timeOf, Timespec.Range.period] at he hnext
    split at he
    · cases he
    · rename_i hzero
      obtain rfl := Option.some.inj he
      exact ⟨by simpa using hzero, hnext⟩
  disjoint := by
    have hdisjoint := (h.timeline trivial).disjoint
    rw [← periods_eq h.full, List.pairwise_map] at hdisjoint
    refine hdisjoint.imp fun {c c'} hd ts hts => Bool.eq_false_iff.mpr fun hts' => ?_
    exact hd ts.nanos ((@Timespec.Range.holds_iff ⟨c.minTime, c.maxTime⟩ ts).mp hts)
      ((@Timespec.Range.holds_iff ⟨c'.minTime, c'.maxTime⟩ ts).mp hts')
  lookup := by
    intro ts check oldTs timeout hts htimeout
    obtain ⟨n, s', hfind, hfound⟩ := findContainerByTime_spec h hc false check oldTs hts htimeout
    obtain ⟨slot, hslot, hdesignated, rfl⟩ := h.designated hfound.before
    exact ⟨slot, hslot, hdesignated, s', hfind⟩
  expiry := by
    intro ignore ts check oldTs timeout hts htimeout s' found hs'
    obtain ⟨n, s₁, hfind, hfound⟩ := findContainerByTime_spec h hc ignore check oldTs hts htimeout
    obtain rfl : s₁ = s' := congrArg (·.1) (Option.some.inj (hfind.symm.trans hs'))
    exact hfound.fromOldEnd trivial

/-! ### A whole run -/

/-- A move leaves a pause mode on the stack. -/
theorem Moves.stack_ne_nil {c c' : TimedContainer}
    (h : TimedContainer.Moves False False False c c') (hne : c.pauseModeStack ≠ []) :
    c'.pauseModeStack ≠ [] := by
  refine TimedContainer.Moves.preserves (I := fun c => c.pauseModeStack ≠ []) _ _ _
    (fun {c c'} hmove hne => ?_) h hne
  cases hmove with
  | cache => exact hne
  | expire _ notFirst _ => simp [notFirst]
  | _ => simp [TimedContainer.publish]

theorem plain_kept : KeptByCalls Plain fun _ _ => True where
  start := by
    intro run minTime paused opens lastPrologue
    rw [TimedContainer.start_eq]
    cases opens <;>
      exact ⟨⟨by simp, by simp [TimedContainer.create], by simp⟩, by simp⟩
  prologue := by
    intro c c' opens h hc'
    obtain ⟨m, post, hstack⟩ := List.exists_cons_of_ne_nil h.2
    obtain rfl | ⟨hmove, -⟩ := getLastPrologueFiles_spec h.1 hstack hc'
    · exact h
    · exact ⟨hmove.wellFormed h.1, Moves.stack_ne_nil (.single hmove) h.2⟩
  stack_ne_nil := fun h => h.2
  step := by
    intro c c' a h _ hstep
    have hmoves := @TimedContainer.step_moves False False False _ _ _ h.1 hstep False.elim
      False.elim False.elim
    exact ⟨TimedContainer.Moves.wellFormed hmoves h.1, Moves.stack_ne_nil hmoves h.2⟩

/-- The container changes after the current one has begun, and what that needs can be made. -/
def Orderly (s : StorageManager) : Op → Prop
  | .startRecording t _ io => SwitchMakes t io ∧ Later s t
  | .stopRecording t io => SwitchMakes t.succ io ∧ Later s t.succ
  | .pauseRecording _ _ | .resumeRecording _ _ | .checkRequiredDataSources _ => True
  | .addPacket _ ts _ _ timeout _ split | .savePacket _ ts _ timeout _ split =>
    (ts ≠ ⟨-1, -1⟩ ∧ timeout.Valid) ∧ SwitchMakes split.maxTime split.switch ∧
      Later s split.maxTime
  | .checkContainerTimeout ts _ timeout => ts ≠ ⟨-1, -1⟩ ∧ timeout.Valid

instance (s : StorageManager) (a : Op) : Decidable (Orderly s a) :=
  match a with
  | .startRecording .. | .stopRecording .. | .pauseRecording .. | .resumeRecording ..
  | .checkRequiredDataSources .. | .addPacket .. | .savePacket .. | .checkContainerTimeout .. => by
    unfold Orderly
    infer_instance

theorem Orderly.callOk {s : StorageManager} {a : Op} (h : Orderly s a) :
    CallOk True (fun _ _ => True) s a := by
  cases a with
  | startRecording | stopRecording => exact ⟨h.1, fun _ => h.2⟩
  | pauseRecording | resumeRecording => exact fun _ _ _ _ => trivial
  | checkRequiredDataSources => trivial
  | addPacket =>
    exact ⟨h.1, fun _ _ _ _ => trivial, fun _ _ _ => trivial, h.2.1, fun _ => h.2.2⟩
  | savePacket => exact ⟨h.1, h.2.1, fun _ => h.2.2⟩
  | checkContainerTimeout => exact ⟨h, fun _ _ _ _ => trivial⟩

/-- In every run whose containers change at later and later times, and which can make what the
    changes need, the containers partition time in every state. -/
theorem containers_partitioned_of_run {minTime : Timespec} {opens : Bool} {calls : List Op}
    {s : StorageManager} (horderly : Runs.along step Orderly (init minTime opens) calls)
    (h : Runs.run step (init minTime opens) calls = some s) : Partitioned s := by
  have hok : Runs.along step (CallOk True fun _ _ => True) (init minTime opens) calls :=
    horderly.imp fun _ _ => Orderly.callOk
  obtain ⟨hregular, hcache⟩ := run_regular plain_kept hok h
  exact hregular.partitioned hcache

/-- A run of a run with late packets, the last of which sees the first container expire. -/
theorem containers_partitioned_of_run_stop :
    ∃ s, Runs.run step (init ⟨100, 0⟩ true)
        [.checkRequiredDataSources 1, .startRecording ⟨200, 0⟩ 7 ⟨true, true, true⟩,
          .addPacket false ⟨150, 0⟩ false ⟨0, 0⟩ ⟨60, 0⟩ ⟨false, true, []⟩
            ⟨⟨300, 0⟩, ⟨400, 0⟩, ⟨true, true, true⟩⟩,
          .stopRecording ⟨350, 0⟩ ⟨true, true, true⟩,
          .checkContainerTimeout ⟨360, 0⟩ ⟨270, 0⟩ ⟨60, 0⟩] = some s ∧
      Partitioned s ∧ (containers s).map (·.modes.runNumber) = [0, 7] := by
  have horderly : Runs.along step Orderly (init ⟨100, 0⟩ true)
      [.checkRequiredDataSources 1, .startRecording ⟨200, 0⟩ 7 ⟨true, true, true⟩,
        .addPacket false ⟨150, 0⟩ false ⟨0, 0⟩ ⟨60, 0⟩ ⟨false, true, []⟩
          ⟨⟨300, 0⟩, ⟨400, 0⟩, ⟨true, true, true⟩⟩,
        .stopRecording ⟨350, 0⟩ ⟨true, true, true⟩,
        .checkContainerTimeout ⟨360, 0⟩ ⟨270, 0⟩ ⟨60, 0⟩] := by
    decide
  exact ⟨_, rfl, @containers_partitioned_of_run ⟨100, 0⟩ true _ _ horderly rfl, by decide⟩

/-- The prologue files cannot be made at the start of a run: the current container has an end,
    and a lookup for a later time finds none. -/
theorem not_containers_partitioned_start :
    ∃ s, Runs.run step (init ⟨100, 0⟩ true)
        [.checkRequiredDataSources 1, .startRecording ⟨200, 0⟩ 7 ⟨false, true, true⟩] = some s ∧
      (containers s).map (·.maxTime.isZero) = [false] ∧
      (s.findContainerByTime false ⟨250, 0⟩ false ⟨0, 0⟩ ⟨60, 0⟩).map (·.2) = some none := by
  exact ⟨_, rfl, by decide, by decide⟩

end Adara.Spec.StorageManager
