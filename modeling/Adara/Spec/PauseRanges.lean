import Adara.ForStd.TimeRange
import Adara.Spec.TimedContainer

/-! # The time ranges of the pause modes

What each call does to the ranges of the pause modes.  A write may end the file of a mode and
start the next one, in any mode of the stack, with a maximum time that goes one nanosecond up
and then down again; it changes no range and no paused flag.  A pause or a resume ends the
range of the current mode and begins a new one right after it. -/

namespace Adara.Spec.TimedContainer

open Adara.Native Adara.Native.TimedContainer

variable {modesFresh filesFresh oldestFirst : Prop}

/-- What a lookup sees of a pause mode, and its paused flag. -/
structure ModeRange where
  node : Nat
  minTime : Timespec
  maxTime : Timespec
  paused : Bool
deriving DecidableEq, Repr

def range (m : TimedMode) : ModeRange := ⟨m.node, m.minTime, m.maxTime, m.paused⟩

/-- The ranges of the pause modes on the stack, the current one first. -/
def ranges (c : TimedContainer) : List ModeRange := c.pauseModeStack.map range

/-- The period of a pause mode in nanoseconds; a maximum time of zero means no end. -/
def period (m : TimedMode) : Period :=
  ⟨m.minTime.nanos, if m.maxTime.isZero then none else some m.maxTime.nanos⟩

theorem holds_iff {m : TimedMode} {ts : Timespec} :
    m.holds ts = true ↔ (period m).Holds ts.nanos :=
  @Timespec.Range.holds_iff ⟨m.minTime, m.maxTime⟩ ts

theorem period_eq {m : TimedMode} {r : ModeRange} (h : range m = r) :
    period m = (Timespec.Range.mk r.minTime r.maxTime).period := by
  subst h
  rfl

theorem period_congr {m m' : TimedMode} (h : range m' = range m) : period m' = period m :=
  period_eq h

/-- What a lookup keeps of the last one. -/
def cached (c : TimedContainer) : Option Nat × Timespec × Bool :=
  (c.lastFound, c.lastTs, c.lastIgnorePktTimestamp)

@[simp] theorem cached_publish (c : TimedContainer) (fs : List FileId) :
    cached (c.publish fs) = cached c := rfl

@[simp] theorem cached_setMode (c : TimedContainer) (m : TimedMode) :
    cached (c.setMode m) = cached c := rfl

@[simp] theorem cached_endFile (c : TimedContainer) (m : TimedMode) :
    cached (c.endFile m) = cached c := by
  unfold TimedContainer.endFile
  split <;> rfl

@[simp] theorem cached_closeFile (c : TimedContainer) (m : TimedMode) (t : Timespec) :
    cached (c.closeFile m t) = cached c := by
  simp [closeFile]

@[simp] theorem cached_newFile (c : TimedContainer) (n : Nat) (paused : Bool)
    (minTime : Timespec) (opens : Bool) : cached (c.newFile n paused minTime opens) = cached c := by
  unfold newFile
  split
  · rfl
  · split
    · rfl
    · simp only
      split
      · rfl
      · split <;> rfl

@[simp] theorem cached_rollOver (c : TimedContainer) (n : Nat) (paused : Bool)
    (minTime maxTime : Timespec) (opens : Bool) :
    cached (c.rollOver n paused minTime maxTime opens) = cached c := by
  unfold rollOver
  split <;> simp

/-! ### Files in their modes -/

/-- The file of a paused mode is a paused one, and that of another mode is not. -/
def FilesPaused (c : TimedContainer) : Prop :=
  ∀ m ∈ c.pauseModeStack, ∀ f ∈ m.file, ∃ d, (c.made[f]?) = some d ∧ d.paused = m.paused

theorem FilesPaused.fileIs {c : TimedContainer} {m : TimedMode} {f : FileId}
    (h : FilesPaused c) (hm : m ∈ c.pauseModeStack) (hf : m.file = some f) (paused : Bool) :
    c.fileIs m paused = (m.paused == paused) := by
  obtain ⟨d, hd, hpaused⟩ := h m hm f hf
  simp [TimedContainer.fileIs, hf, hd, hpaused]

/-- The paused flag of a file does not change any more. -/
def Keeps (c c' : TimedContainer) : Prop :=
  ∀ (f : FileId) (d : DataFile), c.made[f]? = some d →
    ∃ d', c'.made[f]? = some d' ∧ d'.paused = d.paused

theorem Keeps.trans {c c' c'' : TimedContainer} (h : Keeps c c') (h' : Keeps c' c'') :
    Keeps c c'' := by
  intro f d hd
  obtain ⟨d', hd', hpaused⟩ := h f d hd
  obtain ⟨d'', hd'', hpaused'⟩ := h' f d' hd'
  exact ⟨d'', hd'', hpaused'.trans hpaused⟩

theorem keeps_endFile (c : TimedContainer) (m : TimedMode) : Keeps c (c.endFile m) := by
  intro f d hd
  unfold TimedContainer.endFile
  split
  · exact ⟨d, hd, rfl⟩
  · simp only [List.getElem?_modify, hd]
    split <;> exact ⟨_, rfl, rfl⟩

theorem Move.keeps {c c' : TimedContainer} (h : Move modesFresh filesFresh oldestFirst c c') :
    Keeps c c' := by
  have hnew : ∀ (d₀ : DataFile) (f : FileId) (d : DataFile), c.made[f]? = some d →
      ∃ d', (c.made ++ [d₀])[f]? = some d' ∧ d'.paused = d.paused := by
    intro d₀ f d hd
    obtain ⟨hlt, -⟩ := List.getElem?_eq_some_iff.mp hd
    exact ⟨d, by rw [List.getElem?_append_left hlt, hd], rfl⟩
  cases h with
  | make => exact hnew _
  | makeDeferred => exact hnew _
  | endFile => exact keeps_endFile c _
  | expire => exact keeps_endFile (c.publish _) _
  | _ => exact fun f d hd => ⟨d, hd, rfl⟩

theorem Moves.keeps {c c' : TimedContainer} (h : Moves modesFresh filesFresh oldestFirst c c') :
    Keeps c c' := by
  induction h with
  | refl => exact fun f d hd => ⟨d, hd, rfl⟩
  | tail _ hlast ih => exact ih.trans hlast.keeps

/-- A mode is replaced by one with the same file, or with one that has its flag. -/
private theorem FilesPaused.replace {c c' : TimedContainer} {pre post : List TimedMode}
    {m m' : TimedMode} (h : FilesPaused c) (hkeeps : Keeps c c')
    (hstack : c.pauseModeStack = pre ++ m :: post)
    (hstack' : c'.pauseModeStack = pre ++ m' :: post)
    (hm : ∀ f ∈ m'.file, ∃ d, c'.made[f]? = some d ∧ d.paused = m'.paused) : FilesPaused c' := by
  have hold : ∀ x ∈ c.pauseModeStack, ∀ f ∈ x.file,
      ∃ d, c'.made[f]? = some d ∧ d.paused = x.paused := by
    intro x hx f hf
    obtain ⟨d, hd, hpaused⟩ := h x hx f hf
    obtain ⟨d', hd', hpaused'⟩ := hkeeps f d hd
    exact ⟨d', hd', hpaused'.trans hpaused⟩
  intro x hx f hf
  rw [hstack', List.mem_append, List.mem_cons] at hx
  obtain hx | rfl | hx := hx
  · exact hold x (by simp [hstack, hx]) f hf
  · exact hm f hf
  · exact hold x (by simp [hstack, hx]) f hf

theorem Move.filesPaused {c c' : TimedContainer}
    (h : Move modesFresh filesFresh oldestFirst c c') (hc : FilesPaused c) : FilesPaused c' := by
  have hkeeps := h.keeps
  cases h with
  | cache => exact hc
  | @adjust pre post m m' stack same paused =>
    refine hc.replace hkeeps stack rfl fun f hf => ?_
    rw [same.file] at hf
    obtain ⟨d, hd, hpaused⟩ := hc m (by simp [stack]) f hf
    exact ⟨d, hd, hpaused.trans (paused (Option.isSome_of_mem hf)).symm⟩
  | @restart pre post m f₀ d₀ stack =>
    exact hc.replace hkeeps stack rfl (hc m (by simp [stack]))
  | make stack _ _ _ => exact hc.replace hkeeps stack rfl (by simp [publish, record])
  | makeDeferred stack _ _ _ _ => exact hc.replace hkeeps stack rfl (by simp [record])
  | endFile stack _ same _ => exact hc.replace hkeeps stack rfl (by simp [same.file])
  | push stack _ file =>
    intro x hx f hf
    obtain rfl | hx := List.mem_cons.mp hx
    · simp [file] at hf
    · exact hc x (stack ▸ hx) f hf
  | @expire pre post m stack =>
    intro x hx f hf
    have hmem : x ∈ c.pauseModeStack := by
      rw [stack]
      exact List.mem_append.mpr ((List.mem_append.mp hx).imp_right (List.mem_cons_of_mem _))
    obtain ⟨d, hd, hpaused⟩ := hc x hmem f hf
    obtain ⟨d', hd', hpaused'⟩ := hkeeps f d hd
    exact ⟨d', hd', hpaused'.trans hpaused⟩
  | @flush pre m stack => exact hc.replace hkeeps stack rfl (hc m (by simp [stack]))

theorem Moves.filesPaused {c c' : TimedContainer}
    (h : Moves modesFresh filesFresh oldestFirst c c') (hc : FilesPaused c) : FilesPaused c' :=
  h.preserves _ _ _ Move.filesPaused hc

/-! ### Writing -/

/-- A new file in a mode that has none: the mode gets its next numbers, and the file has
    them. -/
theorem newFile_opened {c : TimedContainer} {pre post : List TimedMode} {m : TimedMode}
    (hn : WellFormed c) (hstack : c.pauseModeStack = pre ++ m :: post) (hnone : m.file = none)
    (paused : Bool) (minTime : Timespec) :
    (c.newFile m.node paused minTime true).made =
        c.made ++ [record c m (nextNumbers m paused minTime)] ∧
      ∃ pendingFiles, (c.newFile m.node paused minTime true).pauseModeStack =
        pre ++ { nextNumbers m paused minTime with file := some c.made.length, pendingFiles } ::
          post := by
  have hat : c.modeAt m.node = some m := modeAt_split hn.nodup hstack rfl
  have hset : ∀ (made : List DataFile) (m' : TimedMode), m'.node = m.node →
      (({ c with made } : TimedContainer).setMode m').pauseModeStack = pre ++ m' :: post :=
    fun made m' h => congrArg (·.pauseModeStack)
      (setMode_split (c := { c with made }) (m := m) hn.nodup hstack h)
  have hnode : (nextNumbers m paused minTime).node = m.node :=
    (nextNumbers_same m paused minTime).node
  have hpaused : (nextNumbers m paused minTime).paused = paused := by
    cases paused <;> rfl
  have hrecord : record c m (nextNumbers m paused minTime) =
      ⟨(nextNumbers m paused minTime).numModes, (nextNumbers m paused minTime).numFiles,
        if paused then (nextNumbers m paused minTime).numPauseFiles else 0, paused,
        c.openingStatus m, none⟩ := by
    rw [record, hpaused]
  simp only [newFile, hat, hnone, Option.isSome_none, Bool.false_eq_true, if_false, Bool.not_true,
    ← hrecord]
  split
  · exact ⟨rfl, [], hset _ _ (by exact hnode)⟩
  · exact ⟨rfl, _, hset _ _ (by exact hnode)⟩

/-- A new file in a mode that has none: the mode gets the flag and the minimum time it is
    given. -/
theorem newFile_split {c : TimedContainer} {pre post : List TimedMode} {m : TimedMode}
    (hn : WellFormed c) (hstack : c.pauseModeStack = pre ++ m :: post) (hnone : m.file = none)
    (paused : Bool) (minTime : Timespec) (opens : Bool) :
    ∃ m', (c.newFile m.node paused minTime opens).pauseModeStack = pre ++ m' :: post ∧
      range m' = ⟨m.node, minTime, m.maxTime, paused⟩ ∧ m'.file.isSome = opens := by
  have hat : c.modeAt m.node = some m := modeAt_split hn.nodup hstack rfl
  have hnext : range (nextNumbers m paused minTime) = ⟨m.node, minTime, m.maxTime, paused⟩ := by
    cases paused <;> rfl
  have hfile : (nextNumbers m paused minTime).file = none := by
    cases paused <;> exact hnone
  cases opens with
  | false =>
    have hset := setMode_split hn.nodup hstack (nextNumbers_same m paused minTime).node
    have hnew : c.newFile m.node paused minTime false = c.setMode (nextNumbers m paused minTime) := by
      simp [newFile, hat, hnone]
    rw [hnew, hset]
    exact ⟨_, rfl, hnext, by simp [hfile]⟩
  | true =>
    obtain ⟨-, pendingFiles, hstack'⟩ := newFile_opened hn hstack hnone paused minTime
    exact ⟨_, hstack', hnext, rfl⟩

/-- The end of the file of a mode and its next file. -/
theorem rollOver_split {c : TimedContainer} {pre post : List TimedMode} {m : TimedMode}
    (hn : WellFormed c) (hstack : c.pauseModeStack = pre ++ m :: post)
    (hfile : m.file.isSome = true) (paused : Bool) (minTime maxTime : Timespec) (opens : Bool) :
    ∃ m', (c.rollOver m.node paused minTime maxTime opens).pauseModeStack = pre ++ m' :: post ∧
      range m' = ⟨m.node, minTime, maxTime.pred, paused⟩ ∧ m'.file.isSome = opens := by
  have hat : c.modeAt m.node = some m := modeAt_split hn.nodup hstack rfl
  have hmoves := (@closeFile_spec False False False _ _ _ hn hat hfile maxTime).1
  have hclosed : (c.closeFile m maxTime).pauseModeStack =
      pre ++ { m with maxTime := maxTime.pred, file := none } :: post := by
    have h := @setMode_split (c.endFile m) pre post m { m with maxTime := maxTime.pred, file := none }
      (by simpa using hn.nodup) (by simpa using hstack) rfl
    exact congrArg (·.pauseModeStack) h
  simp only [rollOver, hat]
  exact newFile_split (hmoves.wellFormed hn) hclosed rfl paused minTime opens

theorem newFile_of_isSome {c : TimedContainer} {n : Nat} {m : TimedMode}
    (hm : c.modeAt n = some m) (hfile : m.file.isSome = true) (paused : Bool)
    (minTime : Timespec) (opens : Bool) : c.newFile n paused minTime opens = c := by
  simp [newFile, hm, hfile]

/-- Every file opens that a write to mode `m` needs. -/
def WriteOpens (m : TimedMode) (io : WriteIO) : Prop :=
  (m.file.isSome = true ∧ io.oversize = false ∨ io.opens = true) ∧
    ∀ opens ∈ io.failed, opens = true

instance (m : TimedMode) (io : WriteIO) : Decidable (WriteOpens m io) :=
  inferInstanceAs (Decidable (_ ∧ _))

/-- The attempts of a write: the mode keeps its range, and has a file if the files opened. -/
theorem writeLoop_split {pre post : List TimedMode} {maxTime : Timespec} (failed : List Bool) :
    ∀ {c : TimedContainer} {m : TimedMode}, WellFormed c →
      c.pauseModeStack = pre ++ m :: post → maxTime.pred = m.maxTime →
      ∃ m', (c.writeLoop m.node m.paused m.minTime maxTime failed).1.pauseModeStack =
          pre ++ m' :: post ∧
        range m' = range m ∧
        (m.file.isSome = true → (∀ opens ∈ failed, opens = true) → m'.file.isSome = true) := by
  induction failed with
  | nil => exact fun {c m} _ hstack _ => ⟨m, hstack, rfl, fun h _ => h⟩
  | cons opens failed ih =>
    intro c m hn hstack hmax
    have hat : c.modeAt m.node = some m := modeAt_split hn.nodup hstack rfl
    simp only [writeLoop, hat, Option.bind_some]
    split
    · exact ⟨m, hstack, rfl, fun h _ => h⟩
    · rename_i f hf
      have hsome : m.file.isSome = true := by simp [hf]
      obtain ⟨m₁, hstack₁, hrange₁, hfile₁⟩ :=
        rollOver_split hn hstack hsome m.paused m.minTime maxTime opens
      rw [hmax] at hrange₁
      have hmoves := (@rollOver_spec False False False _ _ _ hn hat hsome False.elim m.paused
        m.minTime maxTime opens).1
      obtain ⟨hnode, hmin, hmax₁, hpaused⟩ : m₁.node = m.node ∧ m₁.minTime = m.minTime ∧
          m₁.maxTime = m.maxTime ∧ m₁.paused = m.paused := by
        simpa [range] using hrange₁
      obtain ⟨m₂, hstack₂, hrange₂, hfile₂⟩ :=
        ih (hmoves.wellFormed hn) hstack₁ (hmax.trans hmax₁.symm)
      rw [hnode, hmin, hpaused] at hstack₂
      refine ⟨m₂, hstack₂, hrange₂.trans hrange₁, fun _ hopens => ?_⟩
      exact hfile₂ (hfile₁.trans (hopens opens (by simp))) fun o ho => hopens o (by simp [ho])

/-- The file that is ready for the first attempt of a write. -/
theorem readyFile_split {c : TimedContainer} {pre post : List TimedMode} {m : TimedMode}
    (hn : WellFormed c) (hstack : c.pauseModeStack = pre ++ m :: post) (maxTime : Timespec)
    (io : WriteIO) :
    ∃ m', (c.readyFile m maxTime io).pauseModeStack = pre ++ m' :: post ∧
      (range m' = range m ∨ range m' = ⟨m.node, m.minTime, maxTime.pred, m.paused⟩) ∧
      (m.file.isSome = true ∧ io.oversize = false ∨ io.opens = true → m'.file.isSome = true) := by
  have hat : c.modeAt m.node = some m := modeAt_split hn.nodup hstack rfl
  unfold readyFile
  split
  · rename_i h
    exact ⟨m, hstack, .inl rfl, fun _ => (Bool.and_eq_true _ _ ▸ h).1⟩
  split
  · rename_i hfile
    have h := rollOver_split hn hstack hfile m.paused m.minTime maxTime io.opens
    simp only [rollOver, hat] at h
    obtain ⟨m', hstack', hrange, hfile'⟩ := h
    refine ⟨m', hstack', .inr hrange, fun hopens => hfile'.trans ?_⟩
    rename_i hover
    exact hopens.resolve_left fun h => hover (by simp [h.1, h.2])
  · rename_i hfile
    obtain ⟨m', hstack', hrange, hfile'⟩ :=
      newFile_split hn hstack (by simpa using hfile) m.paused m.minTime io.opens
    refine ⟨m', hstack', .inl hrange, fun hopens => hfile'.trans ?_⟩
    exact hopens.resolve_left fun h => hfile h.1

/-- A write leaves every mode its range and its flag. -/
theorem write_split {c : TimedContainer} {n : Nat} {io : WriteIO}
    {r : TimedContainer × List FileId} (hn : WellFormed c) (hr : c.write n io = some r)
    (hproper : ∀ m ∈ c.modeAt n, m.maxTime.succ.pred = m.maxTime) :
    ∃ pre m m' post, c.pauseModeStack = pre ++ m :: post ∧ m.node = n ∧
      r.1.pauseModeStack = pre ++ m' :: post ∧ range m' = range m ∧
      (WriteOpens m io → m'.file.isSome = true) := by
  obtain ⟨m, hm, rfl⟩ := Option.map_eq_some_iff.mp hr
  obtain ⟨pre, post, hstack, rfl⟩ := exists_split hm
  have hmax := hproper m hm
  obtain ⟨m₁, hstack₁, hrange₁, hfile₁⟩ := readyFile_split hn hstack m.maxTime.succ io
  have hrange₁ : range m₁ = range m := by
    rw [hmax] at hrange₁
    exact hrange₁.elim id id
  have hmoves := (@readyFile_spec False False False _ _ hn hm False.elim m.maxTime.succ io).1
  obtain ⟨hnode, hmin, hmax₁, hpaused⟩ : m₁.node = m.node ∧ m₁.minTime = m.minTime ∧
      m₁.maxTime = m.maxTime ∧ m₁.paused = m.paused := by
    simpa [range] using hrange₁
  obtain ⟨m₂, hstack₂, hrange₂, hfile₂⟩ := @writeLoop_split pre post m.maxTime.succ io.failed _ _
    (hmoves.wellFormed hn) hstack₁ (hmax.trans hmax₁.symm)
  rw [hnode, hmin, hpaused] at hstack₂
  exact ⟨pre, m, m₂, post, hstack, rfl, hstack₂, hrange₂.trans hrange₁,
    fun h => hfile₂ (hfile₁ h.1) h.2⟩

theorem cached_writeLoop (failed : List Bool) (paused : Bool) (minTime maxTime : Timespec) :
    ∀ (c : TimedContainer) (n : Nat),
      cached (c.writeLoop n paused minTime maxTime failed).1 = cached c := by
  induction failed with
  | nil => exact fun _ _ => rfl
  | cons opens failed ih =>
    intro c n
    simp only [writeLoop]
    split
    · rfl
    · exact (ih _ n).trans (cached_rollOver c n paused minTime maxTime opens)

theorem cached_write {c : TimedContainer} {n : Nat} {io : WriteIO}
    {r : TimedContainer × List FileId} (hr : c.write n io = some r) : cached r.1 = cached c := by
  obtain ⟨m, -, rfl⟩ := Option.map_eq_some_iff.mp hr
  refine (cached_writeLoop ..).trans ?_
  unfold readyFile
  split
  · rfl
  · split <;> simp

/-- The attempts of a write go to files with the flag of the mode. -/
theorem writeLoop_files (failed : List Bool) {paused : Bool} {minTime maxTime : Timespec} :
    ∀ {c : TimedContainer} {n : Nat} {m : TimedMode}, WellFormed c → FilesPaused c →
      c.modeAt n = some m → m.paused = paused →
      ∀ f ∈ (c.writeLoop n paused minTime maxTime failed).2,
        ∃ d, (c.writeLoop n paused minTime maxTime failed).1.made[f]? = some d ∧
          d.paused = paused := by
  induction failed with
  | nil =>
    intro c n m hn hfiles hm hpaused f hf
    obtain ⟨pre, post, hstack, rfl⟩ := exists_split hm
    have hf : m.file = some f := by simpa [writeLoop, hm] using hf
    exact hpaused ▸ hfiles m (by simp [hstack]) f hf
  | cons opens failed ih =>
    intro c n m hn hfiles hm hpaused
    simp only [writeLoop, hm, Option.bind_some]
    split
    · simp
    · rename_i f₀ hf₀
      obtain ⟨pre, post, hstack, rfl⟩ := exists_split hm
      have hsome : m.file.isSome = true := by simp [hf₀]
      have hmoves := (@rollOver_spec False False False _ _ _ hn hm hsome False.elim paused
        minTime maxTime opens).1
      obtain ⟨m₁, hstack₁, hrange₁, -⟩ :=
        rollOver_split hn hstack hsome paused minTime maxTime opens
      have hnode : m₁.node = m.node := congrArg (·.node) hrange₁
      have hat : (c.rollOver m.node paused minTime maxTime opens).modeAt m.node = some m₁ :=
        modeAt_split (hmoves.wellFormed hn).nodup hstack₁ hnode
      have hrest := ih (hmoves.wellFormed hn)
        (hmoves.filesPaused hfiles) hat (congrArg (·.paused) hrange₁)
      intro f hf
      obtain rfl | hf := List.mem_cons.mp hf
      · -- the file of the first attempt is kept
        obtain ⟨d, hd, hdp⟩ := hfiles m (by simp [hstack]) f hf₀
        have hloop := @writeLoop_moves False False False failed paused minTime maxTime _ _ _
          (hmoves.wellFormed hn) hat False.elim
        obtain ⟨d', hd', hdp'⟩ := Moves.keeps (hmoves.trans hloop) f d hd
        exact ⟨d', hd', (hdp'.trans hdp).trans hpaused⟩
      · exact hrest f hf

/-- A packet is written to files that have the flag of the mode. -/
theorem write_files {c : TimedContainer} {n : Nat} {io : WriteIO} {m : TimedMode}
    {r : TimedContainer × List FileId} (hn : WellFormed c) (hfiles : FilesPaused c)
    (hm : c.modeAt n = some m) (hr : c.write n io = some r) :
    ∀ f ∈ r.2, ∃ d, r.1.made[f]? = some d ∧ d.paused = m.paused := by
  obtain ⟨m', hm', rfl⟩ := Option.map_eq_some_iff.mp hr
  obtain rfl := Option.some.inj (hm.symm.trans hm')
  obtain ⟨pre, post, hstack, rfl⟩ := exists_split hm
  obtain ⟨hmoves, m₁, hm₁, -⟩ :=
    @readyFile_spec False False False _ _ hn hm False.elim m.maxTime.succ io
  refine writeLoop_files io.failed (hmoves.wellFormed hn) (hmoves.filesPaused hfiles) hm₁ ?_
  -- the mode has kept its flag
  obtain ⟨m₂, hstack₂, hrange₂, -⟩ := readyFile_split hn hstack m.maxTime.succ io
  have hnode : m₂.node = m.node :=
    hrange₂.elim (congrArg ModeRange.node) (congrArg ModeRange.node)
  have hat := modeAt_split (hmoves.wellFormed hn).nodup hstack₂ hnode
  obtain rfl := Option.some.inj (hat.symm.trans hm₁)
  exact hrange₂.elim (congrArg ModeRange.paused) (congrArg ModeRange.paused)

/-! ### Pausing -/

/-- A new mode with the flag `paused` begins at time `t`, and the mode that was the current
    one ends right before. -/
structure Turned (c c' : TimedContainer) (m : TimedMode) (post : List TimedMode)
    (paused : Bool) (t : Timespec) (opens : Bool) : Prop where
  stack : ∃ top below, c'.pauseModeStack = top :: below :: post ∧
    range top = ⟨c.nextNode, t, ⟨0, 0⟩, paused⟩ ∧ top.file.isSome = opens ∧
    range below = ⟨m.node, m.minTime, t.pred, m.paused⟩ ∧ below.file = m.file
  lastTs : c'.lastTs = ⟨-1, -1⟩

/-- The current mode stays the current one, with its range, its flag and its file. -/
structure Kept (c c' : TimedContainer) (m : TimedMode) (post : List TimedMode) : Prop where
  stack : ∃ m', c'.pauseModeStack = m' :: post ∧ range m' = range m ∧ m'.file = m.file
  cached : cached c' = cached c

/-- The mode that is left below the new one. -/
def below (m : TimedMode) (t : Timespec) : TimedMode :=
  { m with maxTime := t.pred, hasLastPrologue := true }

/-- The mode that comes on top of the stack. -/
def newTop (c : TimedContainer) (m : TimedMode) : TimedMode :=
  ⟨c.nextNode, none, [], false, ⟨0, 0⟩, ⟨0, 0⟩, m.numModes, m.numFiles, m.numPauseFiles, m.paused⟩

theorem stackMode_eq {c : TimedContainer} {m : TimedMode} {post : List TimedMode}
    (hn : WellFormed c) (hstack : c.pauseModeStack = m :: post) {t : Timespec} {opens : Bool}
    (hprologue : m.hasLastPrologue = true ∨ opens = true) :
    c.stackMode m t opens =
      ({ c with
        pauseModeStack := newTop c m :: below m t :: post
        nextNode := c.nextNode + 1, lastTs := ⟨-1, -1⟩ }, some (newTop c m)) := by
  have hset : c.setMode (below m t) = { c with pauseModeStack := below m t :: post } :=
    @setMode_split c [] post m (below m t) hn.nodup hstack rfl
  have hopens : ¬ (!m.hasLastPrologue && !opens) = true := by
    simp only [Bool.and_eq_true, Bool.not_eq_true']
    rintro ⟨h, h'⟩
    obtain hp | hp := hprologue
    · exact absurd (h.symm.trans hp) (by decide)
    · exact absurd (h'.symm.trans hp) (by decide)
  simp only [stackMode, if_neg hopens]
  rw [show ({ m with maxTime := t.pred, hasLastPrologue := true } : TimedMode) = below m t from rfl,
    hset]
  rfl

/-- The new mode gets its numbers on top of the stack. -/
theorem stackMode_top {c : TimedContainer} {m top : TimedMode} {post : List TimedMode}
    (hn : WellFormed c) (hstack : c.pauseModeStack = m :: post) {t : Timespec} {opens : Bool}
    (hprologue : m.hasLastPrologue = true ∨ opens = true) (hnode : top.node = c.nextNode)
    (hfile : top.file = none) (hpending : top.pendingFiles = [])
    (hnum : top.numModes = increment m.numModes) :
    WellFormed ((c.stackMode m t opens).1.setMode top) ∧
      ((c.stackMode m t opens).1.setMode top).pauseModeStack = top :: below m t :: post ∧
      ((c.stackMode m t opens).1.setMode top).made = c.made ∧
      ((c.stackMode m t opens).1.setMode top).lastTs = ⟨-1, -1⟩ := by
  obtain ⟨c₁, heq, -⟩ | ⟨c₁, top₁, heq, -, -, -, -, hmoves⟩ :=
    @stackMode_spec False False False c m post hn hstack False.elim t opens
  · rw [stackMode_eq hn hstack hprologue] at heq
    cases heq
  have heq' := stackMode_eq hn hstack (t := t) hprologue
  obtain ⟨rfl, htop⟩ := Prod.mk.inj (heq.symm.trans heq')
  obtain rfl := Option.some.inj htop
  rw [heq']
  refine ⟨Moves.wellFormed (hmoves top hnode hfile hpending hnum).1 hn, ?_, rfl, rfl⟩
  have hother : ∀ x ∈ below m t :: post, (if x.node = top.node then top else x) = x := by
    intro x hx
    have hlt : x.node < c.nextNode := by
      obtain rfl | hx := List.mem_cons.mp hx
      · exact hn.lt m (by simp [hstack])
      · exact hn.lt x (by simp [hstack, hx])
    exact if_neg (by omega)
  have hmap := (List.map_congr_left hother).trans (List.map_id' _)
  show (if c.nextNode = top.node then top else newTop c m) :: (below m t :: post).map _ = _
  rw [hmap, if_pos hnode.symm]

/-- A new mode comes on the stack, and then its file is made. -/
private theorem stackMode_turned {c : TimedContainer} {m top : TimedMode} {post : List TimedMode}
    (hn : WellFormed c) (hstack : c.pauseModeStack = m :: post) {t : Timespec} {opens : Bool}
    (hprologue : m.hasLastPrologue = true ∨ opens = true) (hnode : top.node = c.nextNode)
    (hfile : top.file = none) (hmax : top.maxTime = ⟨0, 0⟩) (hpending : top.pendingFiles = [])
    (hnum : top.numModes = increment m.numModes) (paused opens' : Bool) :
    Turned c (((c.stackMode m t opens).1.setMode top).newFile c.nextNode paused t opens')
      m post paused t opens' := by
  obtain ⟨hwf, hset, -, hlastTs⟩ :=
    stackMode_top hn hstack (t := t) hprologue hnode hfile hpending hnum
  obtain ⟨top', hstack', hrange, hsome⟩ :=
    @newFile_split _ [] _ _ hwf hset hfile paused t opens'
  rw [hnode, hmax] at hrange
  rw [hnode] at hstack'
  refine ⟨⟨top', below m t, hstack', hrange, hsome, rfl, rfl⟩, ?_⟩
  have hcached := cached_newFile ((c.stackMode m t opens).1.setMode top) c.nextNode paused t opens'
  exact (congrArg (·.2.1) hcached).trans hlastTs

/-- A pause of a mode with a file that is not a paused one makes a new mode; another pause
    changes nothing. -/
theorem pause_split {c c' : TimedContainer} {m : TimedMode} {post : List TimedMode} {f : FileId}
    {t : Timespec} {io : PauseIO} (hn : WellFormed c) (hfiles : FilesPaused c)
    (hstack : c.pauseModeStack = m :: post) (hf : m.file = some f)
    (hprologue : m.hasLastPrologue = true ∨ io.prologueOpens = true)
    (h : c.pause t io = some c') :
    m.paused = true ∧ Kept c c' m post ∨
      m.paused = false ∧ Turned c c' m post true t io.opens := by
  have hm : m ∈ c.pauseModeStack := by simp [hstack]
  simp only [pause, hstack, List.head?_cons, Option.map_some, Option.some.injEq] at h
  rw [hfiles.fileIs hm hf] at h
  cases hpaused : m.paused with
  | true =>
    rw [if_neg (by simp [hpaused]), newFile_of_isSome (modeAt_head hn hstack) (by simp [hf])] at h
    subst h
    exact .inl ⟨rfl, ⟨m, hstack, rfl, rfl⟩, rfl⟩
  | false =>
    refine .inr ⟨rfl, ?_⟩
    rw [if_pos (by simp [hpaused]), stackMode_eq hn hstack hprologue] at h
    subst h
    have hturned := @stackMode_turned c m
      { newTop c m with numModes := increment m.numModes, numFiles := 1 } post hn hstack t
      io.prologueOpens hprologue rfl rfl rfl rfl rfl true io.opens
    rw [stackMode_eq hn hstack hprologue] at hturned
    exact hturned

/-- A resume of a mode with a paused file makes a new mode; another resume starts the pause
    file numbers again. -/
theorem resume_split {c c' : TimedContainer} {m : TimedMode} {post : List TimedMode} {f : FileId}
    {t : Timespec} {io : PauseIO} (hn : WellFormed c) (hfiles : FilesPaused c)
    (hstack : c.pauseModeStack = m :: post) (hf : m.file = some f)
    (hprologue : m.hasLastPrologue = true ∨ io.prologueOpens = true)
    (h : c.resume t io = some c') :
    m.paused = false ∧ Kept c c' m post ∨
      m.paused = true ∧ Turned c c' m post false t io.opens := by
  have hm : m ∈ c.pauseModeStack := by simp [hstack]
  simp only [resume, hstack, List.head?_cons, Option.map_some, Option.some.injEq] at h
  rw [hfiles.fileIs hm hf] at h
  cases hpaused : m.paused with
  | false =>
    rw [if_neg (by simp [hpaused])] at h
    have hset : c.setMode { m with numPauseFiles := 0 } =
        { c with pauseModeStack := { m with numPauseFiles := 0 } :: post } :=
      @setMode_split c [] post m { m with numPauseFiles := 0 } hn.nodup hstack rfl
    have hwf : WellFormed { c with pauseModeStack := { m with numPauseFiles := 0 } :: post } :=
      @WellFormed.replace c _ [] post m { m with numPauseFiles := 0 } hn hstack rfl rfl rfl
        (Nat.le_refl _) (hn.isMade m hm)
    rw [hset] at h
    have hat := modeAt_head hwf rfl
    rw [newFile_of_isSome hat (by simp [hf])] at h
    subst h
    exact .inl ⟨rfl, ⟨_, rfl, by simp [range, hpaused], rfl⟩, rfl⟩
  | true =>
    refine .inr ⟨rfl, ?_⟩
    rw [if_pos (by simp [hpaused]), stackMode_eq hn hstack hprologue] at h
    subst h
    have hturned := @stackMode_turned c m
      { newTop c m with numModes := increment m.numModes, numFiles := 0, numPauseFiles := 0 }
      post hn hstack t io.prologueOpens hprologue rfl rfl rfl rfl rfl false io.opens
    rw [stackMode_eq hn hstack hprologue] at hturned
    exact hturned

end Adara.Spec.TimedContainer
