import Mathlib.Data.List.Nodup
import Mathlib.Logic.Relation
import Adara.ForStd.Runs
import Adara.ForStd.StackLookup
import Adara.Native.TimedContainer

/-! # What a call does to a container

Every call on a container is a chain of a few moves: a mode gets its next numbers, a file is
made or ended, a mode comes on top of the stack or is closed and taken off, the deferred
files of the oldest mode are published.  The results about files and their numbers look at
the moves only.

What the 32-bit numbers and the order of expiry have to do with a move is a premise, so that
a chain of moves can be had with or without it. -/

namespace Adara.Spec.TimedContainer

open Adara.Native Adara.Native.TimedContainer

/-- The nodes of the stack are distinct, and no other has their number yet.  The files of
    the modes have been made. -/
structure WellFormed (c : TimedContainer) : Prop where
  nodup : (c.pauseModeStack.map (·.node)).Nodup
  lt : ∀ m ∈ c.pauseModeStack, m.node < c.nextNode
  isMade : ∀ m ∈ c.pauseModeStack, ∀ f ∈ m.file, f < c.made.length

/-- A mode keeps its place, its files and its mode number. -/
structure SameFiles (m m' : TimedMode) : Prop where
  node : m'.node = m.node
  file : m'.file = m.file
  pendingFiles : m'.pendingFiles = m.pendingFiles
  numModes : m'.numModes = m.numModes ∨ m.numModes = 0 ∧ m'.numModes = 1

/-- The file and pause file numbers of `m'` come after those of `m`. -/
def NumbersLt (m m' : TimedMode) : Prop :=
  m.numFiles < m'.numFiles ∨ m.numFiles = m'.numFiles ∧ m.numPauseFiles < m'.numPauseFiles

/-- The record of a file that mode `m` makes with the numbers of `m'`. -/
def record (c : TimedContainer) (m m' : TimedMode) : DataFile :=
  ⟨m'.numModes, m'.numFiles, if m'.paused then m'.numPauseFiles else 0, m'.paused,
    c.openingStatus m, none⟩

/-- The numbers that a new file of mode `m` gets: the next file number, or in a paused mode
    the next pause file number. -/
structure NextFile (m m' : TimedMode) : Prop where
  paused : m'.paused = true → m'.numFiles = m.numFiles ∧ m.numPauseFiles < m'.numPauseFiles
  running : m'.paused = false → m.numFiles < m'.numFiles

variable (modesFresh filesFresh oldestFirst : Prop)

/-- The moves of a container.  The three premises say that the mode numbers and the file
    numbers do not wrap, and that the modes expire oldest first. -/
inductive Move : TimedContainer → TimedContainer → Prop where
  | cache (c : TimedContainer) (lastFound : Option Nat) (lastTs lastOldTs : Timespec)
      (lastIgnore lastCheck : Bool) :
    Move c { c with
      lastFound := lastFound, lastTs := lastTs, lastOldTs := lastOldTs
      lastIgnorePktTimestamp := lastIgnore, lastCheckOldPausemodes := lastCheck }
  /-- A mode gets other times, and numbers that are not used yet. -/
  | adjust {c : TimedContainer} {pre post : List TimedMode} {m m' : TimedMode}
      (stack : c.pauseModeStack = pre ++ m :: post) (same : SameFiles m m')
      (paused : m.file.isSome = true → m'.paused = m.paused)
      (numbers : filesFresh → m'.numFiles = m.numFiles ∧ m'.numPauseFiles = m.numPauseFiles ∨
        m.file = none ∧ NumbersLt m m') :
    Move c { c with pauseModeStack := pre ++ m' :: post }
  /-- The pause file number of a mode with a file that is not paused starts again. -/
  | restart {c : TimedContainer} {pre post : List TimedMode} {m : TimedMode} {f : FileId}
      {d : DataFile} (stack : c.pauseModeStack = pre ++ m :: post) (file : m.file = some f)
      (made : c.made[f]? = some d) (running : d.paused = false) :
    Move c { c with pauseModeStack := pre ++ { m with numPauseFiles := 0 } :: post }
  /-- The oldest mode makes a file. -/
  | make {c : TimedContainer} {pre : List TimedMode} {m m' : TimedMode}
      (stack : c.pauseModeStack = pre ++ [m]) (noFile : m.file = none) (same : SameFiles m m')
      (numbers : filesFresh → NextFile m m') :
    Move c (({ c with
      made := c.made ++ [record c m m']
      pauseModeStack :=
        pre ++ [{ m' with file := some c.made.length, pendingFiles := [] }] }).publish
      (m.pendingFiles ++ [c.made.length]))
  /-- Another mode makes a file, which is deferred. -/
  | makeDeferred {c : TimedContainer} {pre post : List TimedMode} {m m' : TimedMode}
      (stack : c.pauseModeStack = pre ++ m :: post) (notOldest : post ≠ [])
      (noFile : m.file = none) (same : SameFiles m m') (numbers : filesFresh → NextFile m m') :
    Move c { c with
      made := c.made ++ [record c m m']
      pauseModeStack :=
        pre ++ { m' with
          file := some c.made.length, pendingFiles := m.pendingFiles ++ [c.made.length] } :: post }
  /-- The file of a mode is ended. -/
  | endFile {c : TimedContainer} {pre post : List TimedMode} {m m' : TimedMode} {f : FileId}
      (stack : c.pauseModeStack = pre ++ m :: post) (file : m.file = some f)
      (same : SameFiles { m with file := none } m')
      (numbers : m'.numFiles = m.numFiles ∧ m'.numPauseFiles = m.numPauseFiles) :
    Move c { c.endFile m with pauseModeStack := pre ++ m' :: post }
  /-- A new mode comes on top of the stack. -/
  | push {c : TimedContainer} {m : TimedMode} {post : List TimedMode} {top : TimedMode}
      (stack : c.pauseModeStack = m :: post) (node : top.node = c.nextNode)
      (file : top.file = none) (pendingFiles : top.pendingFiles = [])
      (numModes : modesFresh → top.numModes = m.numModes + 1) :
    Move c { c with pauseModeStack := top :: m :: post, nextNode := c.nextNode + 1 }
  /-- A mode behind the first one is closed and taken off the stack. -/
  | expire {c : TimedContainer} {pre post : List TimedMode} {m : TimedMode}
      (stack : c.pauseModeStack = pre ++ m :: post) (notFirst : pre ≠ [])
      (oldest : oldestFirst → post = []) :
    Move c { c.closeMode m with pauseModeStack := pre ++ post }
  /-- The deferred files of the oldest mode are published. -/
  | flush {c : TimedContainer} {pre : List TimedMode} {m : TimedMode}
      (stack : c.pauseModeStack = pre ++ [m]) :
    Move c (({ c with pauseModeStack := pre ++ [{ m with pendingFiles := [] }] }).publish
      m.pendingFiles)

/-- A chain of moves. -/
abbrev Moves : TimedContainer → TimedContainer → Prop :=
  Relation.ReflTransGen (Move modesFresh filesFresh oldestFirst)

/-- What every move preserves, a chain of moves preserves. -/
theorem Moves.preserves {I : TimedContainer → Prop} {c c' : TimedContainer}
    (hmove : ∀ {c c'}, Move modesFresh filesFresh oldestFirst c c' → I c → I c')
    (h : Moves modesFresh filesFresh oldestFirst c c') (hI : I c) : I c' := by
  induction h with
  | refl => exact hI
  | tail _ hlast ih => exact hmove hlast ih

variable {modesFresh filesFresh oldestFirst}

/-! ### Nodes of the stack -/

@[simp] theorem publish_stack (c : TimedContainer) (fs : List FileId) :
    (c.publish fs).pauseModeStack = c.pauseModeStack := rfl

@[simp] theorem publish_nextNode (c : TimedContainer) (fs : List FileId) :
    (c.publish fs).nextNode = c.nextNode := rfl

@[simp] theorem endFile_stack (c : TimedContainer) (m : TimedMode) :
    (c.endFile m).pauseModeStack = c.pauseModeStack := by
  unfold TimedContainer.endFile
  split <;> rfl

@[simp] theorem endFile_nextNode (c : TimedContainer) (m : TimedMode) :
    (c.endFile m).nextNode = c.nextNode := by
  unfold TimedContainer.endFile
  split <;> rfl

@[simp] theorem closeMode_nextNode (c : TimedContainer) (m : TimedMode) :
    (c.closeMode m).nextNode = c.nextNode := by
  simp [closeMode]

@[simp] theorem endFile_length (c : TimedContainer) (m : TimedMode) :
    (c.endFile m).made.length = c.made.length := by
  unfold TimedContainer.endFile
  split <;> simp

theorem WellFormed.replace {c c' : TimedContainer} {pre post : List TimedMode} {m m' : TimedMode}
    (h : WellFormed c) (hstack : c.pauseModeStack = pre ++ m :: post)
    (hstack' : c'.pauseModeStack = pre ++ m' :: post) (hnode : m'.node = m.node)
    (hnext : c'.nextNode = c.nextNode) (hmade : c.made.length ≤ c'.made.length)
    (hfile : ∀ f ∈ m'.file, f < c'.made.length) : WellFormed c' := by
  constructor
  · rw [hstack']
    have := h.nodup
    rw [hstack] at this
    simpa [hnode] using this
  · intro x hx
    have hlt := h.lt
    simp only [hstack, hstack', List.mem_append, List.mem_cons] at hlt hx
    rw [hnext]
    obtain hx | rfl | hx := hx
    · exact hlt x (.inl hx)
    · exact hnode ▸ hlt m (.inr (.inl rfl))
    · exact hlt x (.inr (.inr hx))
  · intro x hx f hf
    have hisMade := h.isMade
    simp only [hstack, hstack', List.mem_append, List.mem_cons] at hisMade hx
    obtain hx | rfl | hx := hx
    · exact Nat.lt_of_lt_of_le (hisMade x (.inl hx) f hf) hmade
    · exact hfile f hf
    · exact Nat.lt_of_lt_of_le (hisMade x (.inr (.inr hx)) f hf) hmade

theorem WellFormed.file_lt {c : TimedContainer} {pre post : List TimedMode} {m : TimedMode}
    (h : WellFormed c) (hstack : c.pauseModeStack = pre ++ m :: post) :
    ∀ f ∈ m.file, f < c.made.length :=
  h.isMade m (by simp [hstack])

theorem Move.wellFormed {c c' : TimedContainer} (h : Move modesFresh filesFresh oldestFirst c c')
    (hn : WellFormed c) : WellFormed c' := by
  cases h with
  | cache => exact ⟨hn.nodup, hn.lt, hn.isMade⟩
  | adjust stack same _ _ =>
    refine hn.replace stack rfl same.node rfl (Nat.le_refl _) ?_
    rw [same.file]
    exact hn.file_lt stack
  | @restart pre post m f d stack =>
    exact hn.replace stack rfl rfl rfl (Nat.le_refl _) (hn.file_lt (m := m) stack)
  | make stack _ same _ =>
    exact hn.replace stack rfl same.node rfl (by simp [publish]) (by simp [publish])
  | makeDeferred stack _ _ same _ =>
    exact hn.replace stack rfl same.node rfl (by simp) (by simp)
  | endFile stack _ same _ =>
    exact hn.replace stack rfl same.node (by simp) (by simp) (by simp [same.file])
  | @flush pre m stack =>
    exact hn.replace stack rfl rfl rfl (Nat.le_refl _) (hn.file_lt (m := m) stack)
  | @push m post top stack node file =>
    have hlt := hn.lt
    have hnodup := hn.nodup
    rw [stack] at hlt hnodup
    refine ⟨List.nodup_cons.mpr ⟨fun hmem => ?_, hnodup⟩, fun x hx => ?_, fun x hx f hf => ?_⟩
    · -- the new node is larger than all the others
      obtain ⟨x, hx, heq⟩ := List.mem_map.mp hmem
      have := hlt x hx
      simp only at heq
      omega
    · obtain rfl | hx := List.mem_cons.mp hx
      · show _ < c.nextNode + 1
        omega
      · exact Nat.lt_succ_of_lt (hlt x hx)
    · obtain rfl | hx := List.mem_cons.mp hx
      · simp [file] at hf
      · exact hn.isMade x (stack ▸ hx) f hf
  | @expire pre post m stack =>
    have hsub : pre ++ post ⊆ c.pauseModeStack := by
      rw [stack]
      simp
    refine ⟨?_, fun x hx => ?_, fun x hx f hf => ?_⟩
    · have hnodup := hn.nodup
      rw [stack] at hnodup
      simp only [List.map_append, List.map_cons] at hnodup ⊢
      exact hnodup.sublist (by simp)
    · simpa using hn.lt x (hsub hx)
    · simpa [closeMode, publish] using hn.isMade x (hsub hx) f hf

theorem Moves.wellFormed {c c' : TimedContainer} (h : Moves modesFresh filesFresh oldestFirst c c')
    (hn : WellFormed c) : WellFormed c' :=
  h.preserves _ _ _ Move.wellFormed hn

theorem modeAt_split {c : TimedContainer} {pre post : List TimedMode} {m : TimedMode} {n : Nat}
    (hnodup : (c.pauseModeStack.map (·.node)).Nodup)
    (hstack : c.pauseModeStack = pre ++ m :: post) (hnode : m.node = n) :
    c.modeAt n = some m := by
  subst hnode
  rw [hstack] at hnodup
  rw [modeAt, hstack]
  exact StackLookup.find?_split hnodup

theorem exists_split {c : TimedContainer} {n : Nat} {m : TimedMode} (h : c.modeAt n = some m) :
    ∃ pre post, c.pauseModeStack = pre ++ m :: post ∧ m.node = n := by
  obtain ⟨hnode, pre, post, hstack, -⟩ := List.find?_eq_some_iff_append.mp h
  exact ⟨pre, post, hstack, by simpa using hnode⟩

theorem setMode_split {c : TimedContainer} {pre post : List TimedMode} {m m' : TimedMode}
    (hnodup : (c.pauseModeStack.map (·.node)).Nodup)
    (hstack : c.pauseModeStack = pre ++ m :: post) (hnode : m'.node = m.node) :
    c.setMode m' = { c with pauseModeStack := pre ++ m' :: post } := by
  rw [hstack] at hnodup
  rw [setMode, hstack, StackLookup.map_split hnodup hnode]

theorem isOldest_split {c : TimedContainer} {pre post : List TimedMode} {m : TimedMode}
    (hnodup : (c.pauseModeStack.map (·.node)).Nodup)
    (hstack : c.pauseModeStack = pre ++ m :: post) :
    c.isOldest m.node = true ↔ post = [] := by
  constructor
  · intro hlast
    by_contra hne
    obtain ⟨x, hx⟩ := Option.isSome_iff_exists.mp (List.getLast?_isSome.mpr hne)
    have hmem : x ∈ pre ++ post := List.mem_append_right _ (List.mem_of_getLast? hx)
    refine StackLookup.node_ne (hstack ▸ hnodup) hmem ?_
    have : c.pauseModeStack.getLast? = some x := by
      rw [hstack, List.getLast?_append, List.getLast?_cons, hx]
      simp
    simpa [isOldest, this] using hlast
  · rintro rfl
    simp [isOldest, hstack]

/-! ### Making files -/

/-- The file numbers of a mode leave room for `k` more files. -/
def Room (k : Nat) (m : TimedMode) : Prop :=
  m.numFiles + k < 2 ^ 32 ∧ m.numPauseFiles + k < 2 ^ 32

instance (k : Nat) (m : TimedMode) : Decidable (Room k m) :=
  inferInstanceAs (Decidable (_ ∧ _))

theorem nextNumbers_same (m : TimedMode) (paused : Bool) (minTime : Timespec) :
    SameFiles m (nextNumbers m paused minTime) := by
  unfold nextNumbers
  by_cases h0 : m.numModes = 0 <;> cases paused <;>
    exact ⟨rfl, rfl, rfl, by simp [h0]⟩

theorem nextNumbers_next {m : TimedMode} (h : Room 1 m) (paused : Bool) (minTime : Timespec) :
    NextFile m (nextNumbers m paused minTime) := by
  have hfiles := increment_of_lt h.1
  have hpauses := increment_of_lt h.2
  cases paused <;> simp only [nextNumbers, Bool.false_eq_true, if_false, if_true] <;>
    exact ⟨by simp [hpauses], by simp [hfiles]⟩

theorem NextFile.numbersLt {m m' : TimedMode} (h : NextFile m m') : NumbersLt m m' := by
  cases hp : m'.paused with
  | true => exact .inr ⟨(h.paused hp).1.symm, (h.paused hp).2⟩
  | false => exact .inl (h.running hp)

theorem nextNumbers_room {m : TimedMode} {k : Nat} (h : Room (k + 1) m) (paused : Bool)
    (minTime : Timespec) : Room k (nextNumbers m paused minTime) := by
  have hfiles := increment_of_lt (n := m.numFiles) (by have := h.1; omega)
  have hpauses := increment_of_lt (n := m.numPauseFiles) (by have := h.2; omega)
  have := h.1
  have := h.2
  cases paused <;> simp only [nextNumbers, Room, Bool.false_eq_true, if_false, if_true] <;> omega

/-- `newFile` makes a file in a mode that has none, or uses up the numbers of one; the pause
    file number may have been set before. -/
private theorem newFile_of_none {c : TimedContainer} {n : Nat} {m m₀ : TimedMode}
    (hn : WellFormed c) (hm : c.modeAt n = some m) (hnone : m.file = none) (paused : Bool)
    (minTime : Timespec) (opens : Bool) (h₀ : ∃ k, m₀ = { m with numPauseFiles := k })
    (hnext : filesFresh → NextFile m (nextNumbers m₀ paused minTime)) :
    Moves modesFresh filesFresh oldestFirst c ((c.setMode m₀).newFile n paused minTime opens) ∧
      ∃ m', ((c.setMode m₀).newFile n paused minTime opens).modeAt n = some m' ∧
        ∀ k, Room (k + 1) m₀ → Room k m' := by
  obtain ⟨pre, post, hstack, rfl⟩ := exists_split hm
  obtain ⟨hnode, hfile, hpending, hmodes⟩ : m₀.node = m.node ∧ m₀.file = none ∧
      m₀.pendingFiles = m.pendingFiles ∧ m₀.numModes = m.numModes := by
    obtain ⟨k, rfl⟩ := h₀
    exact ⟨rfl, hnone, rfl, rfl⟩
  rw [setMode_split hn.nodup hstack hnode]
  have hnodup₀ : ((pre ++ m₀ :: post).map (·.node)).Nodup := by
    simpa [hstack, hnode] using hn.nodup
  have hsame : SameFiles m (nextNumbers m₀ paused minTime) := by
    have := nextNumbers_same m₀ paused minTime
    exact ⟨this.node.trans hnode, this.file.trans (hfile.trans hnone.symm),
      this.pendingFiles.trans hpending, hmodes ▸ this.numModes⟩
  have hset : ∀ (made : List DataFile) (m' : TimedMode), m'.node = m.node →
      ({ c with made, pauseModeStack := pre ++ m₀ :: post }).setMode m' =
        { c with made, pauseModeStack := pre ++ m' :: post } :=
    fun made m' h => setMode_split (c := { c with made, pauseModeStack := pre ++ m₀ :: post })
      hnodup₀ rfl (h.trans hnode.symm)
  have hat : ({ c with pauseModeStack := pre ++ m₀ :: post }).modeAt m.node = some m₀ :=
    modeAt_split hnodup₀ rfl hnode
  have holdest : ({ c with pauseModeStack := pre ++ m₀ :: post }).isOldest m.node = true ↔
      post = [] :=
    hnode ▸ isOldest_split hnodup₀ rfl
  simp only [newFile, hat, hfile, Option.isSome_none, Bool.false_eq_true, if_false]
  split
  · -- `openat` fails
    rw [hset c.made _ hsame.node]
    have hmove : Move modesFresh filesFresh oldestFirst c
        { c with pauseModeStack := pre ++ nextNumbers m₀ paused minTime :: post } :=
      .adjust hstack hsame (by simp [hnone]) fun hf => .inr ⟨hnone, (hnext hf).numbersLt⟩
    exact ⟨.single hmove, _, modeAt_split (hmove.wellFormed hn).nodup rfl hsame.node,
      fun k h => nextNumbers_room h paused minTime⟩
  have hpaused : (nextNumbers m₀ paused minTime).paused = paused := by
    cases paused <;> rfl
  have hrecord : record c m (nextNumbers m₀ paused minTime) =
      ⟨(nextNumbers m₀ paused minTime).numModes, (nextNumbers m₀ paused minTime).numFiles,
        if paused then (nextNumbers m₀ paused minTime).numPauseFiles else 0, paused,
        openingStatus { c with pauseModeStack := pre ++ m₀ :: post } m₀, none⟩ := by
    simp only [record, hpaused, openingStatus, hmodes]
  rw [← hrecord, hsame.pendingFiles]
  split
  · rename_i h
    rw [hset _ _ (by exact hsame.node)]
    obtain rfl := holdest.mp h
    have hmove : Move modesFresh filesFresh oldestFirst c _ := .make hstack hnone hsame hnext
    exact ⟨.single hmove, _, modeAt_split (hmove.wellFormed hn).nodup rfl hsame.node,
      fun k h => nextNumbers_room h paused minTime⟩
  · rename_i h
    rw [hset _ _ (by exact hsame.node)]
    have hmove : Move modesFresh filesFresh oldestFirst c _ :=
      .makeDeferred hstack (mt holdest.mpr h) hnone hsame hnext
    exact ⟨.single hmove, _, modeAt_split (hmove.wellFormed hn).nodup rfl hsame.node,
      fun k h => nextNumbers_room h paused minTime⟩

theorem setMode_self {c : TimedContainer} {n : Nat} {m : TimedMode} (hn : WellFormed c)
    (hm : c.modeAt n = some m) : c.setMode m = c := by
  obtain ⟨pre, post, hstack, rfl⟩ := exists_split hm
  rw [setMode_split hn.nodup hstack rfl, ← hstack]

theorem newFile_spec {c : TimedContainer} {n : Nat} {m : TimedMode} (hn : WellFormed c)
    (hm : c.modeAt n = some m) (hroom : filesFresh → Room 1 m) (paused : Bool)
    (minTime : Timespec) (opens : Bool) :
    Moves modesFresh filesFresh oldestFirst c (c.newFile n paused minTime opens) ∧
      ∃ m', (c.newFile n paused minTime opens).modeAt n = some m' ∧
        ∀ k, Room (k + 1) m → Room k m' := by
  cases hfile : m.file with
  | some f =>
    have hsame : c.newFile n paused minTime opens = c := by
      simp [newFile, hm, hfile]
    rw [hsame]
    exact ⟨.refl, m, hm, fun k h => ⟨by have := h.1; omega, by have := h.2; omega⟩⟩
  | none =>
    have h := @newFile_of_none modesFresh filesFresh oldestFirst _ _ _ _ hn hm hfile
      paused minTime opens ⟨m.numPauseFiles, rfl⟩ fun hf => nextNumbers_next (hroom hf) _ _
    rwa [setMode_self hn hm] at h

/-- The file of a mode is ended, and the mode is left without one. -/
theorem closeFile_spec {c : TimedContainer} {n : Nat} {m : TimedMode} (hn : WellFormed c)
    (hm : c.modeAt n = some m) (hfile : m.file.isSome) (newStart : Timespec) :
    Moves modesFresh filesFresh oldestFirst c (c.closeFile m newStart) ∧
      (c.closeFile m newStart).modeAt n =
        some { m with maxTime := newStart.pred, file := none } := by
  obtain ⟨pre, post, hstack, rfl⟩ := exists_split hm
  obtain ⟨f, hf⟩ := Option.isSome_iff_exists.mp hfile
  have hclose : c.closeFile m newStart = { c.endFile m with pauseModeStack :=
      pre ++ { m with maxTime := newStart.pred, file := none } :: post } :=
    setMode_split (m := m) (by simpa using hn.nodup) (by simpa using hstack) rfl
  have hmove : Move modesFresh filesFresh oldestFirst c (c.closeFile m newStart) := by
    rw [hclose]
    exact .endFile hstack hf ⟨rfl, rfl, rfl, .inl rfl⟩ ⟨rfl, rfl⟩
  have hnodup := (hmove.wellFormed hn).nodup
  rw [hclose] at hnodup ⊢
  exact ⟨hclose ▸ .single hmove, modeAt_split hnodup rfl rfl⟩

/-! ### Writing -/

theorem rollOver_spec {c : TimedContainer} {n : Nat} {m : TimedMode} (hn : WellFormed c)
    (hm : c.modeAt n = some m) (hfile : m.file.isSome) (hroom : filesFresh → Room 1 m)
    (paused : Bool) (minTime maxTime : Timespec) (opens : Bool) :
    Moves modesFresh filesFresh oldestFirst c (c.rollOver n paused minTime maxTime opens) ∧
      ∃ m', (c.rollOver n paused minTime maxTime opens).modeAt n = some m' ∧
        ∀ k, Room (k + 1) m → Room k m' := by
  obtain ⟨hclosed, hat⟩ := closeFile_spec hn hm hfile maxTime
  obtain ⟨hmade, m', hm', hk⟩ := newFile_spec (hclosed.wellFormed hn) hat hroom paused minTime opens
  simp only [rollOver, hm]
  exact ⟨hclosed.trans hmade, m', hm', hk⟩

/-- The attempts of a write, with room for a file after each that failed. -/
theorem writeLoop_moves (failed : List Bool) (paused : Bool) (minTime maxTime : Timespec) :
    ∀ {c : TimedContainer} {n : Nat} {m : TimedMode}, WellFormed c → c.modeAt n = some m →
      (filesFresh → Room failed.length m) →
      Moves modesFresh filesFresh oldestFirst c (c.writeLoop n paused minTime maxTime failed).1 := by
  induction failed with
  | nil => exact fun _ _ _ => .refl
  | cons opens failed ih =>
    intro c n m hn hm hroom
    simp only [writeLoop, hm, Option.bind_some]
    split
    · exact .refl
    · rename_i f hf
      have hroom₁ : filesFresh → Room 1 m := fun h => by
        have := hroom h
        simp only [Room, List.length_cons] at this ⊢
        omega
      obtain ⟨hrolled, m', hm', hk⟩ :=
        rollOver_spec hn hm (by simp [hf]) hroom₁ paused minTime maxTime opens
      exact hrolled.trans (ih (hrolled.wellFormed hn) hm' fun h => hk _ (hroom h))

theorem readyFile_spec {c : TimedContainer} {m : TimedMode} (hn : WellFormed c)
    (hm : c.modeAt m.node = some m) (hroom : filesFresh → Room 1 m) (maxTime : Timespec)
    (io : WriteIO) :
    Moves modesFresh filesFresh oldestFirst c (c.readyFile m maxTime io) ∧
      ∃ m', (c.readyFile m maxTime io).modeAt m.node = some m' ∧
        ∀ k, Room (k + 1) m → Room k m' := by
  unfold readyFile
  split
  · exact ⟨.refl, m, hm, fun k h => ⟨by have := h.1; omega, by have := h.2; omega⟩⟩
  split
  · rename_i hfile
    have h := @rollOver_spec modesFresh filesFresh oldestFirst _ _ _ hn hm hfile hroom m.paused
      m.minTime maxTime io.opens
    simpa only [rollOver, hm] using h
  · exact newFile_spec hn hm hroom m.paused m.minTime io.opens

theorem write_moves {c : TimedContainer} {n : Nat} {io : WriteIO}
    {r : TimedContainer × List FileId} (hn : WellFormed c) (hr : c.write n io = some r)
    (hroom : filesFresh → ∀ m ∈ c.modeAt n, Room (io.failed.length + 1) m) :
    Moves modesFresh filesFresh oldestFirst c r.1 := by
  obtain ⟨m, hm, rfl⟩ := Option.map_eq_some_iff.mp hr
  obtain ⟨-, -, -, rfl⟩ := exists_split hm
  have hroom₁ : filesFresh → Room 1 m := fun h => by
    have := hroom h m hm
    simp only [Room] at this ⊢
    omega
  obtain ⟨hready, m', hm', hk⟩ := readyFile_spec hn hm hroom₁ m.maxTime.succ io
  exact hready.trans
    (writeLoop_moves io.failed _ _ _ (hready.wellFormed hn) hm' fun h => hk _ (hroom h m hm))

/-! ### Pausing -/

/-- The current mode is left on the stack, with a new one on top of it; or the prologue file
    cannot be made, and the mode only gets its maximum time. -/
theorem stackMode_spec {c : TimedContainer} {m : TimedMode} {post : List TimedMode}
    (hn : WellFormed c) (hstack : c.pauseModeStack = m :: post)
    (hmodes : modesFresh → m.numModes + 1 < 2 ^ 32) (newStart : Timespec) (opens : Bool) :
    (∃ c', c.stackMode m newStart opens = (c', none) ∧
      Moves modesFresh filesFresh oldestFirst c c') ∨
    ∃ c' top, c.stackMode m newStart opens = (c', some top) ∧ top.numModes = m.numModes ∧
      top.numPauseFiles = m.numPauseFiles ∧ top.file = none ∧ top.pendingFiles = [] ∧
      ∀ m', m'.node = top.node → m'.file = none → m'.pendingFiles = [] →
        m'.numModes = increment m.numModes →
        Moves modesFresh filesFresh oldestFirst c (c'.setMode m') ∧
          (c'.setMode m').modeAt top.node = some m' := by
  have hsplit : c.pauseModeStack = [] ++ m :: post := hstack
  have hset : ∀ m', m'.node = m.node →
      c.setMode m' = { c with pauseModeStack := m' :: post } :=
    fun m' h => setMode_split hn.nodup hsplit h
  unfold stackMode
  simp only
  split
  · refine .inl ⟨_, rfl, .single ?_⟩
    rw [hset _ (by rfl)]
    exact .adjust hsplit ⟨rfl, rfl, rfl, .inl rfl⟩ (fun _ => rfl) fun _ => .inl ⟨rfl, rfl⟩
  · refine .inr ⟨_, _, rfl, rfl, rfl, rfl, rfl, fun m' hnode hfile hpending hnum => ?_⟩
    rw [hset _ (by rfl)]
    have hnode : m'.node = c.nextNode := hnode
    -- the mode below, and then the new one on top of it
    let below : TimedMode := { m with maxTime := newStart.pred, hasLastPrologue := true }
    have hbelow : Move modesFresh filesFresh oldestFirst c
        { c with pauseModeStack := below :: post } :=
      .adjust hsplit ⟨rfl, rfl, rfl, .inl rfl⟩ (fun _ => rfl) fun _ => .inl ⟨rfl, rfl⟩
    have hpush : Move modesFresh filesFresh oldestFirst
        { c with pauseModeStack := below :: post }
        { c with pauseModeStack := m' :: below :: post, nextNode := c.nextNode + 1 } :=
      .push (m := below) rfl hnode hfile hpending
        fun h => hnum.trans (increment_of_lt (hmodes h))
    have hreset : Move modesFresh filesFresh oldestFirst
        { c with pauseModeStack := m' :: below :: post, nextNode := c.nextNode + 1 }
        { c with
          pauseModeStack := m' :: below :: post, nextNode := c.nextNode + 1, lastTs := ⟨-1, -1⟩ } :=
      .cache _ c.lastFound ⟨-1, -1⟩ c.lastOldTs c.lastIgnorePktTimestamp c.lastCheckOldPausemodes
    have hwf := hreset.wellFormed (hpush.wellFormed (hbelow.wellFormed hn))
    have hmoves : Moves modesFresh filesFresh oldestFirst c _ :=
      ((Relation.ReflTransGen.single hbelow).tail hpush).tail hreset
    have htop : (TimedContainer.resetLastTs
        { c with
          pauseModeStack :=
            ⟨c.nextNode, none, [], false, ⟨0, 0⟩, ⟨0, 0⟩, m.numModes, m.numFiles,
              m.numPauseFiles, m.paused⟩ :: below :: post
          nextNode := c.nextNode + 1 }).setMode m' =
        { c with
          pauseModeStack := m' :: below :: post, nextNode := c.nextNode + 1, lastTs := ⟨-1, -1⟩ } := by
      refine @setMode_split _ [] _ _ _ ?_ rfl hnode
      simpa [hnode, resetLastTs] using hwf.nodup
    rw [htop]
    exact ⟨hmoves, modeAt_split hwf.nodup (List.nil_append _).symm hnode⟩

theorem modeAt_head {c : TimedContainer} {m : TimedMode} {post : List TimedMode}
    (hn : WellFormed c) (hstack : c.pauseModeStack = m :: post) : c.modeAt m.node = some m :=
  have hsplit : c.pauseModeStack = [] ++ m :: post := hstack
  modeAt_split hn.nodup hsplit rfl

theorem pause_moves {c c' : TimedContainer} {t : Timespec} {io : PauseIO} (hn : WellFormed c)
    (h : c.pause t io = some c')
    (hmodes : modesFresh → ∀ m ∈ c.pauseModeStack.head?, m.numModes + 1 < 2 ^ 32)
    (hroom : filesFresh → ∀ m ∈ c.pauseModeStack.head?, Room 1 m) :
    Moves modesFresh filesFresh oldestFirst c c' := by
  obtain ⟨m, hhead, rfl⟩ := Option.map_eq_some_iff.mp h
  obtain ⟨post, hstack⟩ := List.head?_eq_some_iff.mp hhead
  split
  · obtain ⟨c₁, heq, hmoves⟩ | ⟨c₁, top, heq, hnum, hpauses, hfile, hpending, hset⟩ :=
      @stackMode_spec modesFresh filesFresh oldestFirst _ _ _ hn hstack
        (fun hf => hmodes hf m hhead) t io.prologueOpens
    · rw [heq]
      exact hmoves
    · rw [heq]
      obtain ⟨hmoves, hat⟩ := hset { top with numModes := increment top.numModes, numFiles := 1 }
        rfl hfile hpending (congrArg increment hnum)
      refine hmoves.trans (newFile_spec (hmoves.wellFormed hn) hat (fun hf => ?_) _ _ _).1
      have := (hroom hf m hhead).2
      exact ⟨by show 1 + 1 < _; omega, by show top.numPauseFiles + 1 < _; omega⟩
  · exact (newFile_spec hn (modeAt_head hn hstack) (fun hf => hroom hf m hhead) _ _ _).1

theorem resume_moves {c c' : TimedContainer} {t : Timespec} {io : PauseIO} (hn : WellFormed c)
    (h : c.resume t io = some c')
    (hmodes : modesFresh → ∀ m ∈ c.pauseModeStack.head?, m.numModes + 1 < 2 ^ 32)
    (hroom : filesFresh → ∀ m ∈ c.pauseModeStack.head?, Room 1 m) :
    Moves modesFresh filesFresh oldestFirst c c' := by
  obtain ⟨m, hhead, rfl⟩ := Option.map_eq_some_iff.mp h
  obtain ⟨post, hstack⟩ := List.head?_eq_some_iff.mp hhead
  split
  · obtain ⟨c₁, heq, hmoves⟩ | ⟨c₁, top, heq, hnum, hpauses, hfile, hpending, hset⟩ :=
      @stackMode_spec modesFresh filesFresh oldestFirst _ _ _ hn hstack
        (fun hf => hmodes hf m hhead) t io.prologueOpens
    · rw [heq]
      exact hmoves
    · rw [heq]
      obtain ⟨hmoves, hat⟩ := hset
        { top with numModes := increment top.numModes, numFiles := 0, numPauseFiles := 0 }
        rfl hfile hpending (congrArg increment hnum)
      refine hmoves.trans (newFile_spec (hmoves.wellFormed hn) hat (fun hf => ?_) _ _ _).1
      exact ⟨by show 0 + 1 < _; omega, by show 0 + 1 < _; omega⟩
  · rename_i hpaused
    have hsplit : c.pauseModeStack = [] ++ m :: post := hstack
    have hat := modeAt_head hn hstack
    obtain hfile | ⟨f, hfile⟩ := m.file.eq_none_or_eq_some
    · refine (newFile_of_none hn hat hfile false t io.opens ⟨0, rfl⟩ fun hf => ?_).1
      have hfiles := increment_of_lt (hroom hf m hhead).1
      exact ⟨fun h => by simp [nextNumbers] at h, fun _ => by simp [nextNumbers, hfiles]⟩
    · -- the file is there, and it is not a paused one
      have hlt := hn.file_lt hsplit f (by simp [hfile])
      have hset : c.setMode { m with numPauseFiles := 0 } =
          { c with pauseModeStack := { m with numPauseFiles := 0 } :: post } :=
        setMode_split hn.nodup hsplit rfl
      have hmove : Move modesFresh filesFresh oldestFirst c
          { c with pauseModeStack := { m with numPauseFiles := 0 } :: post } :=
        .restart hsplit hfile (List.getElem?_eq_getElem hlt)
          (by simpa [fileIs, hfile, hlt] using hpaused)
      have hsame := modeAt_head (hmove.wellFormed hn) rfl
      rw [hset]
      simp only [newFile] at hsame ⊢
      rw [hsame]
      simpa [hfile] using Relation.ReflTransGen.single hmove

/-! ### The lookup by time -/

/-- Of the modes of a list, front first, the older ones expire first. -/
def ExpireOldestFirst (oldTs timeout : Timespec) (ms : List TimedMode) : Prop :=
  ms.Pairwise fun newer older => newer.expired oldTs timeout → older.expired oldTs timeout

instance (oldTs timeout : Timespec) (ms : List TimedMode) :
    Decidable (ExpireOldestFirst oldTs timeout ms) :=
  inferInstanceAs (Decidable (List.Pairwise _ _))

theorem closeMode_withStack (c : TimedContainer) (m : TimedMode) (ms : List TimedMode) :
    ({ c with pauseModeStack := ms }).closeMode m =
      { c.closeMode m with pauseModeStack := ms } := by
  simp only [closeMode, TimedContainer.endFile, publish, closingStatus]
  split <;> rfl

theorem closeExpired_kept (c : TimedContainer) (oldTs timeout : Timespec) (ms : List TimedMode) :
    (c.closeExpired oldTs timeout ms).2 = ms.filter (!·.expired oldTs timeout) := by
  induction ms with
  | nil => rfl
  | cons m ms ih =>
    simp only [closeExpired]
    split
    · rename_i h
      simp [ih, h]
    · rename_i h
      simp [ih, h]

/-- The expired ones of the modes behind the first ones are closed, oldest first. -/
theorem closeExpired_moves {c : TimedContainer} {oldTs timeout : Timespec} (ms : List TimedMode) :
    ∀ pre : List TimedMode, pre ≠ [] → WellFormed { c with pauseModeStack := pre ++ ms } →
      (oldestFirst → ExpireOldestFirst oldTs timeout ms) →
      Moves modesFresh filesFresh oldestFirst { c with pauseModeStack := pre ++ ms }
        { (c.closeExpired oldTs timeout ms).1 with
          pauseModeStack := pre ++ (c.closeExpired oldTs timeout ms).2 } := by
  induction ms with
  | nil => exact fun _ _ _ _ => .refl
  | cons m ms ih =>
    intro pre hpre hn horder
    have hrest := ih (pre ++ [m]) (by simp) (by simpa using hn)
      fun h => (List.pairwise_cons.mp (horder h)).2
    simp only [List.append_assoc, List.singleton_append] at hrest
    simp only [closeExpired]
    split
    · rename_i hexpired
      have hkept : oldestFirst → (c.closeExpired oldTs timeout ms).2 = [] := by
        intro h
        rw [closeExpired_kept, List.filter_eq_nil_iff]
        intro x hx
        simpa using (List.pairwise_cons.mp (horder h)).1 x hx hexpired
      have hlast := @Move.expire modesFresh filesFresh oldestFirst
        { (c.closeExpired oldTs timeout ms).1 with
          pauseModeStack := pre ++ m :: (c.closeExpired oldTs timeout ms).2 } _ _ _ rfl hpre hkept
      rw [closeMode_withStack] at hlast
      exact hrest.tail hlast
    · exact hrest

theorem flushOldest_moves {c : TimedContainer} (hn : WellFormed c) :
    Moves modesFresh filesFresh oldestFirst c c.flushOldest := by
  unfold flushOldest
  split
  · exact .refl
  · rename_i m hlast
    have hstack := (List.dropLast_append_getLast? m hlast).symm
    rw [setMode_split hn.nodup hstack (by rfl)]
    exact .single (.flush hstack)

theorem splitBehind_eq (c : TimedContainer) (n : Nat) :
    (c.splitBehind n).1 ++ (c.splitBehind n).2 = c.pauseModeStack ∧
      ((c.splitBehind n).1 = [] → c.pauseModeStack = []) := by
  simp [splitBehind, List.splitAt_eq]

/-- The modes behind the one that was found are closed when they have expired. -/
theorem closeExpired_behind {c : TimedContainer} {n : Nat} {oldTs timeout : Timespec}
    (hn : WellFormed c)
    (horder : oldestFirst → ExpireOldestFirst oldTs timeout (c.splitBehind n).2) :
    Moves modesFresh filesFresh oldestFirst c
      { (c.closeExpired oldTs timeout (c.splitBehind n).2).1 with
        pauseModeStack :=
          (c.splitBehind n).1 ++ (c.closeExpired oldTs timeout (c.splitBehind n).2).2 } := by
  obtain ⟨happend, hnil⟩ := splitBehind_eq c n
  by_cases hfront : (c.splitBehind n).1 = []
  · -- nothing is on the stack
    have hbehind : (c.splitBehind n).2 = [] := by
      simpa [hfront, hnil hfront] using happend
    have hsame : ({ c with pauseModeStack := [] } : TimedContainer) = c := by
      rw [← hnil hfront]
    rw [hfront, hbehind]
    exact hsame.symm ▸ .refl
  · have h := @closeExpired_moves modesFresh filesFresh oldestFirst c oldTs timeout
      (c.splitBehind n).2 (c.splitBehind n).1 hfront (by simpa only [happend] using hn) horder
    simpa only [happend] using h

theorem expireModes_moves {c : TimedContainer} {n : Nat} {oldTs timeout : Timespec}
    (hn : WellFormed c)
    (horder : oldestFirst → ExpireOldestFirst oldTs timeout (c.splitBehind n).2) :
    Moves modesFresh filesFresh oldestFirst c (c.expireModes n oldTs timeout) := by
  have hclosed := @closeExpired_behind modesFresh filesFresh oldestFirst c n oldTs timeout hn horder
  exact (hclosed.trans (flushOldest_moves (hclosed.wellFormed hn))).tail
    (.cache _ _ _ oldTs _ _)

/-- At a lookup that checks for old modes, these expire oldest first. -/
def LookupInOrder (c : TimedContainer) (ignore : Bool) (ts : Timespec) (check : Bool)
    (oldTs timeout : Timespec) : Prop :=
  check = true → c.usesCache ignore ts check oldTs = false →
    ∀ n ∈ c.foundMode ignore ts check, ExpireOldestFirst oldTs timeout (c.splitBehind n).2

instance (c : TimedContainer) (ignore : Bool) (ts : Timespec) (check : Bool)
    (oldTs timeout : Timespec) : Decidable (LookupInOrder c ignore ts check oldTs timeout) :=
  inferInstanceAs (Decidable (_ → _))

theorem getPauseModeByTime_moves {c : TimedContainer} {ignore check : Bool}
    {ts oldTs timeout : Timespec} (hn : WellFormed c)
    (horder : oldestFirst → LookupInOrder c ignore ts check oldTs timeout) :
    Moves modesFresh filesFresh oldestFirst c
      (c.getPauseModeByTime ignore ts check oldTs timeout).1 := by
  unfold getPauseModeByTime
  split
  · exact .refl
  · rename_i hcache
    refine Relation.ReflTransGen.tail ?_ (.cache _ _ ts _ ignore check)
    split
    · rename_i n hn'
      split
      · rename_i hcheck
        exact expireModes_moves hn fun h => horder h hcheck (by simpa using hcache) n hn'
      · exact .refl
    · exact .refl

/-! ### A call -/

/-- No mode number wraps at a call. -/
def ModesFresh (c : TimedContainer) : TimedContainer.Call → Prop
  | .pause _ _ | .resume _ _ => ∀ m ∈ c.pauseModeStack.head?, m.numModes + 1 < 2 ^ 32
  | _ => True

/-- No file number or pause file number wraps at a call. -/
def FilesFresh (c : TimedContainer) : TimedContainer.Call → Prop
  | .write n io => ∀ m ∈ c.modeAt n, Room (io.failed.length + 1) m
  | .pause _ _ | .resume _ _ => ∀ m ∈ c.pauseModeStack.head?, Room 1 m
  | .getPauseModeByTime .. => True

/-- The pause modes that expire at a call do so oldest first. -/
def OldestFirst (c : TimedContainer) : TimedContainer.Call → Prop
  | .getPauseModeByTime ignore ts check oldTs timeout =>
    LookupInOrder c ignore ts check oldTs timeout
  | _ => True

instance (c : TimedContainer) (a : TimedContainer.Call) : Decidable (ModesFresh c a) :=
  match a with
  | .write .. | .pause .. | .resume .. | .getPauseModeByTime .. => by
    unfold ModesFresh
    infer_instance

instance (c : TimedContainer) (a : TimedContainer.Call) : Decidable (FilesFresh c a) :=
  match a with
  | .write .. | .pause .. | .resume .. | .getPauseModeByTime .. => by
    unfold FilesFresh
    infer_instance

instance (c : TimedContainer) (a : TimedContainer.Call) : Decidable (OldestFirst c a) :=
  match a with
  | .write .. | .pause .. | .resume .. | .getPauseModeByTime .. => by
    unfold OldestFirst
    infer_instance

theorem step_moves {c c' : TimedContainer} {a : TimedContainer.Call} (hn : WellFormed c)
    (h : step c a = some c') (hmodes : modesFresh → ModesFresh c a)
    (hfiles : filesFresh → FilesFresh c a) (horder : oldestFirst → OldestFirst c a) :
    Moves modesFresh filesFresh oldestFirst c c' := by
  cases a with
  | write n io =>
    obtain ⟨r, hr, rfl⟩ := Option.map_eq_some_iff.mp h
    exact write_moves hn hr hfiles
  | pause t io => exact pause_moves hn h hmodes hfiles
  | resume t io => exact resume_moves hn h hmodes hfiles
  | getPauseModeByTime ignore ts check oldTs timeout =>
    cases h
    exact getPauseModeByTime_moves hn horder

end Adara.Spec.TimedContainer
