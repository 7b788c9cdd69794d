import Adara.Spec.ContainerCalls

/-! # The caches of the lookups by time

A lookup keeps what it found, and gives it again for the same request.  That is what a new
search would find, in every state: both stacks leave no gap, so a lookup always finds, and
what it found is found again until the last time is reset.  It rests on all creations going
well.  After a file could not be made, the next pause or resume changes a range without a
reset. -/

namespace Adara.Spec.StorageManager

open Adara.Native Adara.Native.StorageManager

/-- The pause modes of a container, and the cache of their lookup. -/
def Sound (c : TimedContainer) : Prop := TimedContainer.Regular c ∧ TimedContainer.CacheSound c

/-- A container has just started. -/
theorem start_sound (run : Nat) (minTime : Timespec) (paused opens lastPrologue : Bool) :
    Sound { TimedContainer.start run minTime paused opens with
      pauseModeStack := (TimedContainer.start run minTime paused opens).pauseModeStack.map
        fun m => { m with hasLastPrologue := lastPrologue } } := by
  rw [TimedContainer.start_eq]
  refine ⟨⟨?_, ?_, ?_, ?_⟩, ?_⟩
  · cases opens <;> exact ⟨by simp, by simp [TimedContainer.create], by simp⟩
  · cases opens <;> simp [TimedContainer.FilesPaused]
  · cases opens <;>
      simp only [Bool.false_eq_true, if_true, if_false, List.map_cons, List.map_nil,
        List.mem_singleton, forall_eq] <;> decide
  · cases opens <;> exact ⟨rfl, trivial⟩
  · cases opens <;> exact .inl rfl

/-- The current mode gets its prologue files. -/
theorem getLastPrologueFiles_sound {c c' : TimedContainer} {opens : Bool} (h : Sound c)
    (hc' : getLastPrologueFiles c opens = some c') : Sound c' := by
  obtain ⟨m, post, hstack⟩ := List.exists_cons_of_ne_nil h.1.stack_ne_nil
  obtain rfl | ⟨hmove, hkept⟩ := getLastPrologueFiles_spec h.1.wellFormed hstack hc'
  · exact h
  · exact ⟨h.1.kept (hmove.wellFormed h.1.wellFormed) (hmove.filesPaused h.1.filesPaused) hstack
      hkept, h.2.kept hstack hkept⟩

theorem sound_kept : KeptByCalls Sound TimedContainer.FilesOpen where
  start := start_sound
  prologue := getLastPrologueFiles_sound
  stack_ne_nil := fun h => h.1.stack_ne_nil
  step := fun h hok hstep => TimedContainer.step_regular h.1 h.2 hok hstep

/-! ### Calls that can make their files -/

/-- Every file opens that a write makes. -/
def WriteMakes (io : TimedContainer.WriteIO) : Prop :=
  io.opens = true ∧ ∀ opens ∈ io.failed, opens = true

instance (io : TimedContainer.WriteIO) : Decidable (WriteMakes io) :=
  inferInstanceAs (Decidable (_ ∧ _))

/-- A lookup of a pause mode for a time before all modes of a container comes only while they
    have their files. -/
def LookupsOpen (s : StorageManager) (ignore : Bool) (ts : Timespec) : Prop :=
  ∀ slot ∈ s.containerStack, ∀ c ∈ slot.container, TimedContainer.LookupOpens c.modes ignore ts

instance (s : StorageManager) (ignore : Bool) (ts : Timespec) :
    Decidable (LookupsOpen s ignore ts) :=
  inferInstanceAs (Decidable (∀ _ ∈ _, _))

/-- The current mode of the current container has its file when it is paused or resumed, at a
    proper time, and its prologue files can be made. -/
def TurnMakes (s : StorageManager) (t : Timespec) (io : TimedContainer.PauseIO) : Prop :=
  t.Valid ∧ 1 < t.nanos ∧ io.prologueOpens = true ∧
    ∀ slot ∈ s.containerStack.head?, ∀ c ∈ slot.container,
      ∀ m ∈ c.modes.pauseModeStack.head?, m.file.isSome = true

instance (s : StorageManager) (t : Timespec) (io : TimedContainer.PauseIO) :
    Decidable (TurnMakes s t io) :=
  inferInstanceAs (Decidable (_ ∧ _))

/-- A call comes at proper times, and can make what it has to make. -/
def Makes (s : StorageManager) : Op → Prop
  | .startRecording t _ io => SwitchMakes t io
  | .stopRecording t io => SwitchMakes t.succ io
  | .pauseRecording t io | .resumeRecording t io => TurnMakes s t io
  | .checkRequiredDataSources _ => True
  | .addPacket ignore ts _ _ timeout io split =>
    ts ≠ ⟨-1, -1⟩ ∧ timeout.Valid ∧ LookupsOpen s ignore ts ∧ WriteMakes io ∧
      SwitchMakes split.maxTime split.switch
  | .savePacket _ ts _ timeout _ split =>
    ts ≠ ⟨-1, -1⟩ ∧ timeout.Valid ∧ SwitchMakes split.maxTime split.switch
  | .checkContainerTimeout ts _ timeout =>
    ts ≠ ⟨-1, -1⟩ ∧ timeout.Valid ∧ LookupsOpen s false ts

instance (s : StorageManager) (a : Op) : Decidable (Makes s a) :=
  match a with
  | .startRecording .. | .stopRecording .. | .pauseRecording .. | .resumeRecording ..
  | .checkRequiredDataSources .. | .addPacket .. | .savePacket .. | .checkContainerTimeout .. => by
    unfold Makes
    infer_instance

theorem Makes.callOk {s : StorageManager} {a : Op} (h : Makes s a) :
    CallOk False TimedContainer.FilesOpen s a := by
  have hwrite : ∀ {io : TimedContainer.WriteIO}, WriteMakes io → ∀ c p oversize,
      TimedContainer.FilesOpen c (.write p { io with oversize }) :=
    fun hio _ _ _ _ _ _ => ⟨.inr hio.1, hio.2⟩
  have hturn : ∀ {t : Timespec} {io : TimedContainer.PauseIO}, TurnMakes s t io →
      ∀ slot ∈ s.containerStack.head?, ∀ c ∈ slot.container,
        TimedContainer.FilesOpen c.modes (.pause t io) :=
    fun ⟨ht, hpos, hprologue, hfile⟩ slot hslot c hc =>
      ⟨⟨ht, hpos⟩, fun m hm => ⟨hfile slot hslot c hc m hm, .inr hprologue⟩⟩
  cases a with
  | startRecording t run io => exact ⟨h, False.elim⟩
  | stopRecording t io => exact ⟨h, False.elim⟩
  | pauseRecording t io => exact hturn h
  | resumeRecording t io => exact hturn h
  | checkRequiredDataSources connected => trivial
  | addPacket ignore ts check oldTs timeout io split =>
    obtain ⟨hts, htimeout, hlook, hio, hmakes⟩ := h
    exact ⟨⟨hts, htimeout⟩, fun slot hslot c hc => ⟨hts, htimeout, hlook slot hslot c hc⟩,
      hwrite hio, hmakes, False.elim⟩
  | savePacket ignore ts oldTs timeout oversize split =>
    obtain ⟨hts, htimeout, hmakes⟩ := h
    exact ⟨⟨hts, htimeout⟩, hmakes, False.elim⟩
  | checkContainerTimeout ts oldTs timeout =>
    obtain ⟨hts, htimeout, hlook⟩ := h
    exact ⟨⟨hts, htimeout⟩, fun slot hslot c hc => ⟨hts, htimeout, hlook slot hslot c hc⟩⟩

/-! ### The shortcuts -/

/-- Where a lookup takes its shortcut, it gives what a search gives, which is on the stack. -/
structure Transparent (s : StorageManager) : Prop where
  containers : ∀ ignore ts check, ts ≠ ⟨-1, -1⟩ → s.usesCache ignore ts check = true →
    ∃ n, s.lastFound = some n ∧ (∃ slot ∈ s.containerStack, slot.node = n) ∧
      s.lookup ignore ts = some n
  modes : ∀ slot ∈ s.containerStack, ∀ c ∈ slot.container, ∀ ignore ts check oldTs,
    ts ≠ ⟨-1, -1⟩ → c.modes.usesCache ignore ts check oldTs = true →
    ∃ n, c.modes.lastFound = some n ∧ (∃ m ∈ c.modes.pauseModeStack, m.node = n) ∧
      c.modes.lookup ignore ts = some n

theorem Regular.transparent {ordered : Prop} {s : StorageManager} (h : Regular Sound ordered s)
    (hc : CacheSound s) : Transparent s where
  containers := by
    intro ignore ts check hts hsame
    simp only [usesCache, Bool.and_eq_true, beq_iff_eq] at hsame
    obtain ⟨⟨rfl, -⟩, rfl⟩ := hsame
    obtain ⟨n, hn, hl⟩ := hc.resolve_left hts
    exact ⟨n, hn, lookup_mem hl, hl⟩
  modes := by
    intro slot hslot c hcont ignore ts check oldTs hts hsame
    obtain ⟨c', hc', -, -, hsound⟩ := h.full slot hslot
    obtain rfl := Option.some.inj (hc'.symm.trans hcont)
    simp only [TimedContainer.usesCache, TimedContainer.sameLookup, Bool.and_eq_true,
      beq_iff_eq] at hsame
    obtain ⟨⟨⟨rfl, -⟩, rfl⟩, -⟩ := hsame
    obtain ⟨n, hn, hl⟩ := hsound.resolve_left hts
    exact ⟨n, hn, TimedContainer.lookup_mem hl, hl⟩

/-- In every run whose calls can make what they have to make, the shortcuts of both lookups
    are transparent in every state. -/
theorem transparent_of_run {minTime : Timespec} {opens : Bool} {calls : List Op}
    {s : StorageManager} (hmakes : Runs.along step Makes (init minTime opens) calls)
    (h : Runs.run step (init minTime opens) calls = some s) : Transparent s := by
  have hok : Runs.along step (CallOk False TimedContainer.FilesOpen) (init minTime opens) calls :=
    hmakes.imp fun _ _ => Makes.callOk
  obtain ⟨hregular, hcache⟩ := run_regular sound_kept hok h
  exact hregular.transparent hcache

/-- Two runs with packets of one time, around a pause, a split and the end of the run. -/
theorem transparent_of_run_stop :
    ∃ s, Runs.run step (init ⟨100, 0⟩ true)
        [.checkRequiredDataSources 1, .startRecording ⟨200, 0⟩ 7 ⟨true, true, true⟩,
          .addPacket false ⟨250, 0⟩ false ⟨0, 0⟩ ⟨60, 0⟩ ⟨false, true, []⟩
            ⟨⟨300, 0⟩, ⟨400, 0⟩, ⟨true, true, true⟩⟩,
          .pauseRecording ⟨300, 0⟩ ⟨true, true⟩, .stopRecording ⟨350, 0⟩ ⟨true, true, true⟩,
          .addPacket false ⟨250, 0⟩ false ⟨0, 0⟩ ⟨60, 0⟩ ⟨true, true, [true]⟩
            ⟨⟨300, 0⟩, ⟨400, 0⟩, ⟨true, true, true⟩⟩] = some s ∧
      Transparent s ∧ s.usesCache false ⟨250, 0⟩ false = true ∧ s.lastFound = some 1 := by
  have hmakes : Runs.along step Makes (init ⟨100, 0⟩ true)
      [.checkRequiredDataSources 1, .startRecording ⟨200, 0⟩ 7 ⟨true, true, true⟩,
        .addPacket false ⟨250, 0⟩ false ⟨0, 0⟩ ⟨60, 0⟩ ⟨false, true, []⟩
          ⟨⟨300, 0⟩, ⟨400, 0⟩, ⟨true, true, true⟩⟩,
        .pauseRecording ⟨300, 0⟩ ⟨true, true⟩, .stopRecording ⟨350, 0⟩ ⟨true, true, true⟩,
        .addPacket false ⟨250, 0⟩ false ⟨0, 0⟩ ⟨60, 0⟩ ⟨true, true, [true]⟩
          ⟨⟨300, 0⟩, ⟨400, 0⟩, ⟨true, true, true⟩⟩] := by
    decide
  exact ⟨_, rfl, @transparent_of_run ⟨100, 0⟩ true _ _ hmakes rfl, by decide⟩

/-- The next file of an oversize one could not be made, and the resume then changes the range
    of the mode in place.  The shortcut gives that mode for a time before its range, and a search
    finds no mode. -/
theorem not_transparent_resume :
    ∃ s, Runs.run step (init ⟨100, 0⟩ true)
        [.pauseRecording ⟨200, 0⟩ ⟨true, true⟩,
          .addPacket false ⟨250, 0⟩ false ⟨0, 0⟩ ⟨60, 0⟩ ⟨true, false, []⟩
            ⟨⟨300, 0⟩, ⟨400, 0⟩, ⟨true, true, true⟩⟩,
          .resumeRecording ⟨300, 0⟩ ⟨true, true⟩] = some s ∧
      ∃ c, s.containerAt 0 = some c ∧ c.modes.usesCache false ⟨250, 0⟩ false ⟨0, 0⟩ = true ∧
        c.modes.lastFound = some 1 ∧ c.modes.lookup false ⟨250, 0⟩ = none := by
  exact ⟨_, rfl, _, rfl, by decide, by decide, by decide⟩

end Adara.Spec.StorageManager
