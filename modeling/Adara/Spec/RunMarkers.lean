import Adara.Spec.Publication

/-! # The run status of the data files

The first file of a run opens with `NEW_RUN` and the last one ends with `END_RUN`; all the
others open with `RUN_BOF` and end with `RUN_EOF`.  The first file has to be made when the
container is started, and the current mode has to have a file when it is terminated: a mode
whose next file did not open has none, and the marker is then on no file at all. -/

namespace Adara.Spec.TimedContainer

open Adara.Native Adara.Native.TimedContainer

variable {modesFresh filesFresh oldestFirst : Prop}

/-! ### The end of a file -/

theorem endFile_getElem? (c : TimedContainer) (m : TimedMode) (f : FileId) :
    (c.endFile m).made[f]? =
      if m.file = some f then (c.made[f]?).map ({ · with closing := some c.closingStatus })
      else c.made[f]? := by
  unfold TimedContainer.endFile
  split
  · rename_i h
    simp [h]
  · rename_i f' h
    simp only [h, List.getElem?_modify, Option.some.injEq]
    split <;> simp

/-- Every file has ended with `status`, or it has not ended and belongs to one of the modes. -/
def EndedBut (status : RunStatus) (made : List DataFile) (ms : List TimedMode) : Prop :=
  ∀ f d, made[f]? = some d →
    d.closing = some status ∨ d.closing = none ∧ ∃ m ∈ ms, m.file = some f

theorem EndedBut.mono {status : RunStatus} {made : List DataFile} {ms ms' : List TimedMode}
    (h : EndedBut status made ms) (hfiles : ∀ m ∈ ms, ∀ f ∈ m.file, ∃ m' ∈ ms', m'.file = some f) :
    EndedBut status made ms' := by
  intro f d hd
  refine (h f d hd).imp_right fun ⟨hnone, m, hm, hf⟩ => ⟨hnone, ?_⟩
  exact hfiles m hm f hf

/-- The file of a mode is ended. -/
theorem EndedBut.endFile {c : TimedContainer} {status : RunStatus} {m : TimedMode}
    {ms ms' : List TimedMode} (h : EndedBut status c.made ms) (hstatus : c.closingStatus = status)
    (hfiles : ∀ x ∈ ms, ∀ f ∈ x.file, m.file = some f ∨ ∃ x' ∈ ms', x'.file = some f) :
    EndedBut status (c.endFile m).made ms' := by
  intro f d hd
  rw [endFile_getElem?] at hd
  split at hd
  · obtain ⟨d', -, rfl⟩ := Option.map_eq_some_iff.mp hd
    exact .inl (congrArg some hstatus)
  · rename_i hne
    refine (h f d hd).imp_right fun ⟨hnone, x, hx, hf⟩ => ⟨hnone, ?_⟩
    exact (hfiles x hx f hf).resolve_left hne

/-- What is found in a list with one more file was there before, or is that file. -/
private theorem getElem?_append_new {made : List DataFile} {d e : DataFile} {f : Nat}
    (h : (made ++ [d])[f]? = some e) : made[f]? = some e ∨ f = made.length ∧ e = d := by
  obtain hlt | rfl | hgt := Nat.lt_trichotomy f made.length
  · exact .inl (by simpa [List.getElem?_append_left hlt] using h)
  · exact .inr ⟨rfl, by simpa using h.symm⟩
  · have hlength : (made ++ [d]).length ≤ f := by
      simp only [List.length_append, List.length_singleton]
      omega
    simp [List.getElem?_eq_none hlength] at h

/-- A mode makes a file. -/
theorem EndedBut.make {made : List DataFile} {status : RunStatus} {d : DataFile}
    {pre post : List TimedMode} {m m' : TimedMode} (h : EndedBut status made (pre ++ m :: post))
    (hnone : m.file = none) (hfile : m'.file = some made.length) (hd : d.closing = none) :
    EndedBut status (made ++ [d]) (pre ++ m' :: post) := by
  intro f e he
  obtain he | ⟨rfl, rfl⟩ := getElem?_append_new he
  · refine (h f e he).imp_right fun ⟨hopen, x, hx, hf⟩ => ⟨hopen, x, ?_, hf⟩
    simp only [List.mem_append, List.mem_cons] at hx ⊢
    obtain hx | rfl | hx := hx
    · exact .inl hx
    · simp [hnone] at hf
    · exact .inr (.inr hx)
  · -- the new file is that of the mode
    exact .inr ⟨hd, m', by simp, hfile⟩

/-! ### The modes of a run -/

/-- The last file of the line is that of the current mode, if it has one. -/
def LastFile (c : TimedContainer) : Prop :=
  ∀ m older, c.pauseModeStack = m :: older → ∀ f ∈ m.file,
    m.pendingFiles.getLast? = some f ∨
      older = [] ∧ m.pendingFiles = [] ∧ c.files.getLast? = some f

theorem LastFile.line {c : TimedContainer} {m : TimedMode} {older : List TimedMode} {f : FileId}
    (h : LastFile c) (hstack : c.pauseModeStack = m :: older) (hf : m.file = some f) :
    (line c).getLast? = some f := by
  obtain hlast | ⟨rfl, hnil, hlast⟩ := h m older hstack f hf
  · simp [TimedContainer.line, hstack, hlast]
  · simp [TimedContainer.line, hstack, hnil, hlast]

/-- A move that leaves the current mode as it is, with other modes below it. -/
theorem LastFile.keep {c c' : TimedContainer} {top : TimedMode} {older older' : List TimedMode}
    (h : LastFile c) (hstack : c.pauseModeStack = top :: older) (hne : older ≠ [])
    (hstack' : c'.pauseModeStack = top :: older') : LastFile c' := by
  intro m post hm f hf
  obtain ⟨rfl, rfl⟩ := List.cons.inj (hstack'.symm.trans hm)
  exact .inl ((h top older hstack f hf).resolve_right fun h => hne h.1)

theorem Move.lastFile {c c' : TimedContainer} (h : Move modesFresh filesFresh oldestFirst c c')
    (hc : LastFile c) : LastFile c' := by
  cases h with
  | cache => exact hc
  -- the last mode changes just where nothing is in front of the changed one
  | @adjust pre post m m' stack same _ _ =>
    cases pre with
    | cons top pre => exact hc.keep stack (by simp) rfl
    | nil =>
      intro x older hx f hf
      obtain ⟨rfl, rfl⟩ := List.cons.inj hx
      rw [same.pendingFiles]
      exact hc m post stack f (same.file ▸ hf)
  | @restart pre post m f d stack =>
    cases pre with
    | cons top pre => exact hc.keep stack (by simp) rfl
    | nil =>
      intro x older hx f hf
      obtain ⟨rfl, rfl⟩ := List.cons.inj hx
      exact hc m post stack f hf
  | @make pre m m' stack =>
    cases pre with
    | cons top pre => exact hc.keep stack (by simp) rfl
    | nil =>
      intro x older hx f hf
      obtain ⟨rfl, rfl⟩ := List.cons.inj hx
      exact .inr ⟨rfl, rfl, by simpa [publish] using hf⟩
  | @makeDeferred pre post m m' stack =>
    cases pre with
    | cons top pre => exact hc.keep stack (by simp) rfl
    | nil =>
      intro x older hx f hf
      obtain ⟨rfl, rfl⟩ := List.cons.inj hx
      exact .inl (by simpa using hf)
  | @endFile pre post m m' f stack _ same =>
    cases pre with
    | cons top pre => exact hc.keep stack (by simp) rfl
    | nil =>
      intro x older hx f hf
      obtain ⟨rfl, rfl⟩ := List.cons.inj hx
      simp [same.file] at hf
  | push stack _ file =>
    intro x older hx f hf
    obtain ⟨rfl, rfl⟩ := List.cons.inj hx
    simp [file] at hf
  | @expire pre post m stack notFirst =>
    obtain ⟨top, pre, rfl⟩ := List.exists_cons_of_ne_nil notFirst
    exact hc.keep stack (by simp) rfl
  | @flush pre m stack =>
    cases pre with
    | cons top pre => exact hc.keep stack (by simp) rfl
    | nil =>
      intro x older hx f hf
      obtain ⟨rfl, rfl⟩ := List.cons.inj hx
      refine .inr ⟨rfl, rfl, ?_⟩
      -- the files that were pending are published, and the last of them is the mode's last
      obtain hlast | ⟨-, hnil, hlast⟩ := hc m [] stack f hf
      · simp [publish, hlast]
      · simp [publish, hnil, hlast]

/-- The marks of a run so far; `opened` says whether its first file could be made. -/
structure Marked (opened : Bool) (c : TimedContainer) : Prop where
  run : c.runNumber ≠ 0
  active : c.active = true
  opening : ∀ f d, (origins c.made)[f]? = some d →
    d.opening = if opened = true ∧ f = 0 then .newRun else .runBof
  first : opened = true → c.files.head? = some 0 ∧ 0 < c.made.length
  ended : EndedBut .runEof c.made c.pauseModeStack

@[simp] theorem publish_active (c : TimedContainer) (fs : List FileId) :
    (c.publish fs).active = c.active := rfl

@[simp] theorem publish_runNumber (c : TimedContainer) (fs : List FileId) :
    (c.publish fs).runNumber = c.runNumber := rfl

@[simp] theorem publish_made (c : TimedContainer) (fs : List FileId) :
    (c.publish fs).made = c.made := rfl

@[simp] theorem endFile_active (c : TimedContainer) (m : TimedMode) :
    (c.endFile m).active = c.active := by
  unfold TimedContainer.endFile
  split <;> rfl

@[simp] theorem endFile_runNumber (c : TimedContainer) (m : TimedMode) :
    (c.endFile m).runNumber = c.runNumber := by
  unfold TimedContainer.endFile
  split <;> rfl

@[simp] theorem closeMode_active (c : TimedContainer) (m : TimedMode) :
    (c.closeMode m).active = c.active := by
  simp [closeMode]

@[simp] theorem closeMode_runNumber (c : TimedContainer) (m : TimedMode) :
    (c.closeMode m).runNumber = c.runNumber := by
  simp [closeMode]

theorem closingStatus_of_active {c : TimedContainer} (hrun : c.runNumber ≠ 0)
    (hactive : c.active = true) : c.closingStatus = .runEof := by
  simp [closingStatus, hrun, hactive]

/-- What was first on the file list stays first. -/
private theorem head?_append {fs : List FileId} (h : fs.head? = some 0) (gs : List FileId) :
    (fs ++ gs).head? = some 0 := by
  simp [List.head?_append, h]

/-- Files are ended, and none is made. -/
private theorem Marked.congr {opened : Bool} {c c' : TimedContainer} (h : Marked opened c)
    (hrun : c'.runNumber = c.runNumber) (hactive : c'.active = c.active)
    (hmade : origins c'.made = origins c.made) (hfiles : ∃ fs, c'.files = c.files ++ fs)
    (hended : EndedBut .runEof c'.made c'.pauseModeStack) : Marked opened c' := by
  obtain ⟨fs, hfs⟩ := hfiles
  have hlength : c'.made.length = c.made.length := by
    simpa only [length_origins] using congrArg List.length hmade
  refine ⟨hrun ▸ h.run, hactive ▸ h.active, hmade ▸ h.opening, fun ho => ?_, hended⟩
  rw [hfs, hlength]
  exact ⟨head?_append (h.first ho).1 fs, (h.first ho).2⟩

/-- A mode makes a file after the first one. -/
private theorem Marked.make {opened : Bool} {c c' : TimedContainer} {m m' : TimedMode}
    (h : Marked opened c) (hpos : 0 < m.numModes) (hrun : c'.runNumber = c.runNumber)
    (hactive : c'.active = c.active) (hmade : c'.made = c.made ++ [record c m m'])
    (hfiles : ∃ fs, c'.files = c.files ++ fs)
    (hended : EndedBut .runEof c'.made c'.pauseModeStack) : Marked opened c' := by
  obtain ⟨fs, hfs⟩ := hfiles
  refine ⟨hrun ▸ h.run, hactive ▸ h.active, fun f d hd => ?_, fun ho => ?_, hended⟩
  · rw [hmade, origins_append, asMade_record] at hd
    obtain hd | ⟨rfl, rfl⟩ := getElem?_append_new hd
    · exact h.opening f d hd
    · have hlater : ¬ (opened = true ∧ (origins c.made).length = 0) := by
        rintro ⟨ho, hzero⟩
        have := (h.first ho).2
        simp only [length_origins] at hzero
        omega
      have hnum : m.numModes ≠ 0 := by omega
      have hrun := h.run
      simp only [hlater, if_false, record, openingStatus, hrun, hnum]
  · rw [hfs, hmade]
    exact ⟨head?_append (h.first ho).1 fs, by simp⟩

theorem Move.marked {opened : Bool} {c c' : TimedContainer}
    (h : Move True filesFresh oldestFirst c c') (hn : Numbered c) (hc : Marked opened c) :
    Marked opened c' := by
  have hended := hc.ended
  -- a file that is ended gets the status that a closed run has
  have hstatus := closingStatus_of_active hc.run hc.active
  have hpos : ∀ m ∈ c.pauseModeStack, 0 < m.numModes :=
    fun m hm => hn.pos _ (List.mem_map_of_mem hm)
  cases h with
  | cache => exact hc.congr rfl rfl rfl ⟨[], by simp⟩ hended
  | @adjust pre post m m' stack same _ _ =>
    refine hc.congr rfl rfl rfl ⟨[], by simp⟩ (hended.mono fun x hx f hf => ?_)
    rw [stack, List.mem_append, List.mem_cons] at hx
    obtain hx | rfl | hx := hx
    · exact ⟨x, by simp [hx], hf⟩
    · exact ⟨m', by simp, same.file.trans hf⟩
    · exact ⟨x, by simp [hx], hf⟩
  | @restart pre post m f₀ d stack =>
    refine hc.congr rfl rfl rfl ⟨[], by simp⟩ (hended.mono fun x hx f hf => ?_)
    rw [stack, List.mem_append, List.mem_cons] at hx
    obtain hx | rfl | hx := hx
    · exact ⟨x, by simp [hx], hf⟩
    · exact ⟨{ x with numPauseFiles := 0 }, by simp, hf⟩
    · exact ⟨x, by simp [hx], hf⟩
  | @make pre m m' stack noFile =>
    rw [stack] at hended
    exact hc.make (hpos m (by simp [stack])) rfl rfl rfl ⟨_, rfl⟩ (hended.make noFile rfl rfl)
  | @makeDeferred pre post m m' stack _ noFile =>
    rw [stack] at hended
    exact hc.make (hpos m (by simp [stack])) rfl rfl rfl ⟨[], by simp⟩
      (hended.make noFile rfl rfl)
  | @endFile pre post m m' f₀ stack file same =>
    refine hc.congr (by simp) (by simp) (by simp) ⟨[], by simp⟩
      (hended.endFile hstatus fun x hx f hf => ?_)
    rw [stack, List.mem_append, List.mem_cons] at hx
    -- the one file that is no longer open is the one that was ended
    obtain hx | rfl | hx := hx
    · exact .inr ⟨x, by simp [hx], hf⟩
    · exact .inl hf
    · exact .inr ⟨x, by simp [hx], hf⟩
  | push stack =>
    exact hc.congr rfl rfl rfl ⟨[], by simp⟩
      (hended.mono fun x hx f hf => ⟨x, List.mem_cons_of_mem _ (stack ▸ hx), hf⟩)
  | @expire pre post m stack =>
    refine hc.congr (by simp) (by simp) (by simp) ⟨m.pendingFiles, by simp⟩ ?_
    refine EndedBut.endFile (c := c.publish m.pendingFiles) hended hstatus fun x hx f hf => ?_
    rw [stack, List.mem_append, List.mem_cons] at hx
    obtain hx | rfl | hx := hx
    · exact .inr ⟨x, by simp [hx], hf⟩
    · exact .inl hf
    · exact .inr ⟨x, by simp [hx], hf⟩
  | @flush pre m stack =>
    refine hc.congr rfl rfl rfl ⟨m.pendingFiles, rfl⟩ (hended.mono fun x hx f hf => ?_)
    rw [stack, List.mem_append, List.mem_singleton] at hx
    obtain hx | rfl := hx
    · exact ⟨x, by simp [hx], hf⟩
    · exact ⟨{ x with pendingFiles := [] }, by simp, hf⟩

/-! ### The end of the run -/

@[simp] theorem closeModes_active (c : TimedContainer) (ms : List TimedMode) :
    (c.closeModes ms).active = c.active := by
  induction ms with
  | nil => rfl
  | cons m ms ih => simpa [closeModes] using ih

@[simp] theorem closeModes_runNumber (c : TimedContainer) (ms : List TimedMode) :
    (c.closeModes ms).runNumber = c.runNumber := by
  induction ms with
  | nil => rfl
  | cons m ms ih => simpa [closeModes] using ih

/-- The older modes are closed, and only the files of the others have not ended. -/
theorem EndedBut.closeModes {c : TimedContainer} {status : RunStatus} {ms : List TimedMode} :
    ∀ {pre : List TimedMode}, EndedBut status c.made (pre ++ ms) →
      c.closingStatus = status → EndedBut status (c.closeModes ms).made pre := by
  induction ms with
  | nil =>
    intro pre h _
    simpa [TimedContainer.closeModes] using h
  | cons m ms ih =>
    intro pre h hstatus
    have hrest : EndedBut status (c.closeModes ms).made (pre ++ [m]) := ih (by simpa using h) hstatus
    have hsame : ((c.closeModes ms).publish m.pendingFiles).closingStatus = status := by
      simpa [closingStatus] using hstatus
    refine EndedBut.endFile (c := (c.closeModes ms).publish m.pendingFiles) hrest hsame
      fun x hx f hf => ?_
    obtain hx | rfl := List.mem_append.mp hx |>.imp_right List.mem_singleton.mp
    · exact .inr ⟨x, hx, hf⟩
    · exact .inl hf

/-- The current mode's file ends with `END_RUN`, and every other with `RUN_EOF`. -/
theorem Marked.terminate_closing {opened : Bool} {c : TimedContainer} {m : TimedMode}
    {older : List TimedMode} (h : Marked opened c) (hstack : c.pauseModeStack = m :: older)
    {f : FileId} {d : DataFile} (hd : c.terminate.made[f]? = some d) :
    d.closing = some (if m.file = some f then .endRun else .runEof) := by
  have hended : EndedBut .runEof (c.closeModes older).made [m] := by
    refine EndedBut.closeModes ?_ (closingStatus_of_active h.run h.active)
    simpa [hstack] using h.ended
  have hrun := h.run
  have hmade : c.terminate.made =
      (TimedContainer.endFile { c.closeModes older with active := false } m).made := by
    unfold terminate
    rw [hstack]
    simp only [closeMode, TimedContainer.endFile, resetLastTs, closingStatus, publish]
    split <;> rfl
  rw [hmade, endFile_getElem?] at hd
  split at hd
  · rename_i hfile
    obtain ⟨d', -, rfl⟩ := Option.map_eq_some_iff.mp hd
    simp [hfile, closingStatus, hrun]
  · rename_i hne
    rw [if_neg hne]
    obtain heof | ⟨-, x, hx, hf⟩ := hended f d hd
    · exact heof
    · rw [List.mem_singleton.mp hx] at hf
      exact absurd hf hne

/-! ### A whole run -/

/-- One file opens with `NEW_RUN`, the first of the list, and one ends with `END_RUN`, the
    last; the others open with `RUN_BOF` and end with `RUN_EOF`. -/
structure Bracketed (c : TimedContainer) : Prop where
  opening : ∃ first, c.files.head? = some first ∧ first < c.made.length ∧
    ∀ f d, c.made[f]? = some d → d.opening = if f = first then .newRun else .runBof
  closing : ∃ last, c.files.getLast? = some last ∧ last < c.made.length ∧
    ∀ f d, c.made[f]? = some d → d.closing = some (if f = last then .endRun else .runEof)

/-- What a run preserves about the marks. -/
structure MarkedRun (opened : Bool) (c : TimedContainer) : Prop where
  wellFormed : WellFormed c
  accounted : Accounted c
  numbered : Numbered c
  marked : Marked opened c
  lastFile : LastFile c
  stack : c.pauseModeStack ≠ []

theorem Move.stack_ne_nil {c c' : TimedContainer} (h : Move modesFresh filesFresh oldestFirst c c')
    (hc : c.pauseModeStack ≠ []) : c'.pauseModeStack ≠ [] := by
  cases h with
  | cache => exact hc
  | expire _ notFirst => simp [notFirst]
  | _ => simp

theorem Move.markedRun {opened : Bool} {c c' : TimedContainer}
    (h : Move True filesFresh oldestFirst c c') (hc : MarkedRun opened c) : MarkedRun opened c' where
  wellFormed := h.wellFormed hc.wellFormed
  accounted := h.accounted hc.accounted
  numbered := h.numbered hc.numbered
  marked := h.marked hc.numbered hc.marked
  lastFile := h.lastFile hc.lastFile
  stack := h.stack_ne_nil hc.stack

theorem step_markedRun {opened : Bool} {c c' : TimedContainer} {a : TimedContainer.Call}
    (hc : MarkedRun opened c) (hok : ModesFresh c a) (h : step c a = some c') :
    MarkedRun opened c' := by
  have hmoves : Moves True False False c c' :=
    step_moves hc.wellFormed h (fun _ => hok) False.elim False.elim
  exact hmoves.preserves _ _ _ Move.markedRun hc

theorem start_marked {runNumber : Nat} (hrun : runNumber ≠ 0) (minTime : Timespec)
    (paused opens : Bool) : Marked opens (start runNumber minTime paused opens) := by
  rw [start_eq]
  cases opens with
  | false => exact ⟨hrun, rfl, by simp [origins, create], by simp, by simp [EndedBut, create]⟩
  | true =>
    refine ⟨hrun, rfl, fun f d hd => ?_, by simp, fun f d hd => ?_⟩
    · obtain ⟨hf, rfl⟩ := List.getElem?_eq_some_iff.mp hd
      obtain rfl : f = 0 := Nat.lt_one_iff.mp hf
      simp [origins, asMade, hrun]
    · obtain ⟨hf, rfl⟩ := List.getElem?_eq_some_iff.mp hd
      obtain rfl : f = 0 := Nat.lt_one_iff.mp hf
      exact .inr ⟨rfl, by simp⟩

theorem start_lastFile (runNumber : Nat) (minTime : Timespec) (paused opens : Bool) :
    LastFile (start runNumber minTime paused opens) := by
  rw [start_eq]
  cases opens <;> simp [LastFile]

theorem start_markedRun {runNumber : Nat} (hrun : runNumber ≠ 0) (minTime : Timespec)
    (paused opens : Bool) : MarkedRun opens (start runNumber minTime paused opens) where
  wellFormed := start_wellFormed ..
  accounted := start_accounted ..
  numbered := start_numbered ..
  marked := start_marked hrun ..
  lastFile := start_lastFile _ _ _ _
  stack := by
    rw [start_eq]
    cases opens <;> simp

/-- At its end a run is bracketed if its first file was made and its current mode has a file,
    and only then. -/
theorem MarkedRun.bracketed_iff {opened : Bool} {c : TimedContainer} (h : MarkedRun opened c) :
    Bracketed c.terminate ↔
      opened = true ∧ ∃ m ∈ c.pauseModeStack.head?, m.file.isSome = true := by
  obtain ⟨m, older, hstack⟩ := List.exists_cons_of_ne_nil h.stack
  have hlength : c.terminate.made.length = c.made.length := by
    simpa only [length_origins] using congrArg List.length (origins_terminate c)
  have hopening : ∀ f d, c.terminate.made[f]? = some d →
      d.opening = if opened = true ∧ f = 0 then .newRun else .runBof := by
    intro f d hd
    refine h.marked.opening f (asMade d) ?_
    rw [← origins_terminate c, origins, List.getElem?_map, hd]
    rfl
  have hget : ∀ f, f < c.terminate.made.length → ∃ d, c.terminate.made[f]? = some d :=
    fun f hf => ⟨_, List.getElem?_eq_getElem hf⟩
  constructor
  · rintro ⟨⟨first, -, hfirst, hopen⟩, ⟨last, -, hlast, hclose⟩⟩
    refine ⟨?_, m, by simp [hstack], ?_⟩
    · -- the first file opens with `NEW_RUN`
      obtain ⟨d, hd⟩ := hget first hfirst
      have heq := (hopen first d hd).symm.trans (hopening first d hd)
      simp only [if_true] at heq
      split at heq
      · rename_i hopened
        exact hopened.1
      · cases heq
    · obtain ⟨d, hd⟩ := hget last hlast
      have heq := (hclose last d hd).symm.trans (h.marked.terminate_closing hstack hd)
      simp only [if_true, Option.some.injEq] at heq
      split at heq
      · rename_i hfile
        simp [hfile]
      · cases heq
  · rintro ⟨hopened, m', hm', hfile⟩
    obtain rfl : m = m' := by simpa [hstack] using hm'
    obtain ⟨last, hlast⟩ := Option.isSome_iff_exists.mp hfile
    obtain ⟨hhead, hpos⟩ := h.marked.first hopened
    refine ⟨⟨0, ?_, hlength ▸ hpos, fun f d hd => ?_⟩, ⟨last, ?_, ?_, fun f d hd => ?_⟩⟩
    · rw [terminate_files]
      exact head?_append hhead _
    · simpa [hopened] using hopening f d hd
    · rw [terminate_files]
      exact h.lastFile.line hstack hlast
    · rw [hlength]
      exact h.wellFormed.isMade m (by simp [hstack]) last hlast
    · rw [h.marked.terminate_closing hstack hd, hlast]
      simp [eq_comm]

/-- A run is bracketed by its markers if its first file was made and the current mode has a
    file when the container is terminated, and only then. -/
theorem bracketed_of_run {runNumber : Nat} (hrun : runNumber ≠ 0) {minTime : Timespec}
    {paused opens : Bool} {calls : List TimedContainer.Call} {c : TimedContainer}
    (hok : Runs.along step ModesFresh (start runNumber minTime paused opens) calls)
    (h : Runs.run step (start runNumber minTime paused opens) calls = some c) :
    Bracketed c.terminate ↔
      opens = true ∧ ∃ m ∈ c.pauseModeStack.head?, m.file.isSome = true :=
  (Runs.invariant_along (fun _ _ _ => step_markedRun) (start_markedRun hrun ..) hok h).bracketed_iff

/-- A run with a pause, whose older mode gets another file and expires. -/
theorem bracketed_of_run_pause :
    ∃ c, Runs.run step (start 1 ⟨100, 0⟩ false true)
        [.pause ⟨200, 0⟩ ⟨true, true⟩, .write 0 ⟨true, true, []⟩, .resume ⟨300, 0⟩ ⟨true, true⟩,
          .getPauseModeByTime false ⟨350, 0⟩ true ⟨320, 0⟩ ⟨60, 0⟩] = some c ∧
      Bracketed c.terminate ∧ c.terminate.made.map (·.closing) =
        [some .runEof, some .runEof, some .runEof, some .endRun] := by
  have hok : Runs.along step ModesFresh (start 1 ⟨100, 0⟩ false true)
      [.pause ⟨200, 0⟩ ⟨true, true⟩, .write 0 ⟨true, true, []⟩, .resume ⟨300, 0⟩ ⟨true, true⟩,
        .getPauseModeByTime false ⟨350, 0⟩ true ⟨320, 0⟩ ⟨60, 0⟩] := by
    decide
  refine ⟨_, rfl, (bracketed_of_run (by decide) hok rfl).mpr (by decide), by decide⟩

/-- A file is oversize and the next one does not open.  The run then ends without
    `END_RUN`. -/
theorem not_bracketed_rollOver :
    ∃ c, Runs.run step (start 1 ⟨100, 0⟩ false true) [.write 0 ⟨true, false, []⟩] = some c ∧
      ¬ Bracketed c.terminate ∧ c.terminate.files = [0] ∧
      c.terminate.made.map (·.closing) = [some .runEof] := by
  refine ⟨_, rfl, fun h => ?_, by decide, by decide⟩
  obtain ⟨last, hlast, -, hclosing⟩ := h.closing
  obtain rfl : 0 = last := Option.some.inj hlast
  exact absurd (hclosing 0 _ rfl) (by decide)

end Adara.Spec.TimedContainer
