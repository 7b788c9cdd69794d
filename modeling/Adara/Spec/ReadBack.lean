import Adara.Spec.FileSeries
import Adara.Spec.PauseLookup
import Adara.Spec.Publication

/-! # Containers that are read back

The calls on a container make a series of files (`step_series`).  After any run of calls in which
each file can be opened and has a name that fits, the files on the disk are imported with the
numbers they were made with, sorted by their modes, and found to be complete if the first mode was
not paused (`readBack_of_run`). -/

namespace Adara.Spec.ScannedContainer

open Adara.Native Adara.Native.TimedContainer Adara.Spec.TimedContainer

variable {newestOnly : Prop}

/-! ### Numbers -/

/-- The numbers of the files made so far. -/
def madeNumbers (c : TimedContainer) : List FileNumbers := c.made.map DataFile.numbers

/-- The numbers that a mode has for its file. -/
def currentNumbers (m : TimedMode) : FileNumbers :=
  ⟨m.numModes, m.numFiles, m.numPauseFiles, m.paused⟩

/-- A container, as far as its files are concerned. -/
def series (c : TimedContainer) : Series :=
  ⟨madeNumbers c, c.pauseModeStack.map currentNumbers⟩

/-- Each mode on the stack has its file. -/
structure Open (c : TimedContainer) : Prop where
  wellFormed : WellFormed c
  filesPaused : FilesPaused c
  files : ∀ m ∈ c.pauseModeStack, m.file.isSome = true
  named : ∀ m ∈ c.pauseModeStack, Named (currentNumbers m)

theorem madeNumbers_congr {c c' : TimedContainer} (h : origins c'.made = origins c.made) :
    madeNumbers c' = madeNumbers c := by
  have hnumbers : ∀ made : List DataFile,
      made.map DataFile.numbers = (origins made).map DataFile.numbers := by
    intro made
    rw [origins, List.map_map]
    rfl
  calc c'.made.map DataFile.numbers
    _ = (origins c'.made).map DataFile.numbers := hnumbers _
    _ = (origins c.made).map DataFile.numbers := by rw [h]
    _ = c.made.map DataFile.numbers := (hnumbers _).symm

theorem numbers_record (c : TimedContainer) {m m' : TimedMode}
    (h : m'.paused = false → m'.numPauseFiles = 0) :
    (record c m m').numbers = currentNumbers m' := by
  cases hp : m'.paused with
  | true => simp [record, DataFile.numbers, currentNumbers, hp]
  | false => simp [record, DataFile.numbers, currentNumbers, hp, h hp]

theorem Named.nextFile {f : FileNumbers} (h : Named f) (hfits : Nameable (nextFile f)) :
    Named (nextFile f) :=
  ⟨hfits, h.proper.nextFile, nextFile_modeNumber f ▸ h.mode⟩

/-- A mode that has made a file gets the numbers of the next one. -/
theorem currentNumbers_nextNumbers {m : TimedMode} (h : Named (currentNumbers m))
    (hfits : Nameable (nextFile (currentNumbers m))) (minTime : Timespec) :
    currentNumbers (nextNumbers m m.paused minTime) = nextFile (currentNumbers m) := by
  have hmode : m.numModes ≠ 0 := Nat.ne_of_gt h.mode
  cases hp : m.paused with
  | true =>
    have hlt : m.numPauseFiles + 1 < 2 ^ 32 := by
      have := hfits.pauseFileNumber
      rwa [nextFile, currentNumbers, hp, if_pos rfl] at this
    simp [currentNumbers, nextNumbers, nextFile, hp, hmode, increment_of_lt hlt]
  | false =>
    have hlt : m.numFiles + 1 < 2 ^ 32 := by
      have := hfits.fileNumber
      rwa [nextFile, currentNumbers, hp, if_neg Bool.false_ne_true] at this
    simp [currentNumbers, nextNumbers, nextFile, hp, hmode, increment_of_lt hlt]

/-- A file of a mode that has none. -/
theorem newFile_numbers {c : TimedContainer} {pre post : List TimedMode} {m : TimedMode}
    (hn : WellFormed c) (hstack : c.pauseModeStack = pre ++ m :: post) (hnone : m.file = none)
    {paused : Bool} {minTime : Timespec}
    (hnamed : Named (currentNumbers (nextNumbers m paused minTime))) :
    madeNumbers (c.newFile m.node paused minTime true) =
        madeNumbers c ++ [currentNumbers (nextNumbers m paused minTime)] ∧
      ∃ m', (c.newFile m.node paused minTime true).pauseModeStack = pre ++ m' :: post ∧
        m'.node = m.node ∧ m'.file.isSome = true ∧
        currentNumbers m' = currentNumbers (nextNumbers m paused minTime) := by
  obtain ⟨hmade, pendingFiles, hstack'⟩ := newFile_opened hn hstack hnone paused minTime
  refine ⟨?_, _, hstack', (nextNumbers_same m paused minTime).node, rfl, rfl⟩
  rw [madeNumbers, hmade, List.map_append, List.map_singleton,
    numbers_record c hnamed.proper.running]
  rfl

/-- A mode on the stack is replaced by one that has its file. -/
theorem Open.replace {c c' : TimedContainer} {pre post : List TimedMode} {m m' : TimedMode}
    (h : Open c) (hstack : c.pauseModeStack = pre ++ m :: post)
    (hmoves : Moves False False False c c') (hstack' : c'.pauseModeStack = pre ++ m' :: post)
    (hfile : m'.file.isSome = true) (hnamed : Named (currentNumbers m')) : Open c' := by
  have hmem : ∀ x ∈ c'.pauseModeStack, x ∈ c.pauseModeStack ∨ x = m' := by
    intro x hx
    rw [hstack'] at hx
    rw [hstack]
    simp only [List.mem_append, List.mem_cons] at hx ⊢
    rcases hx with hx | hx | hx
    · exact .inl (.inl hx)
    · exact .inr hx
    · exact .inl (.inr (.inr hx))
  refine ⟨Moves.wellFormed hmoves h.wellFormed, Moves.filesPaused hmoves h.filesPaused, ?_, ?_⟩
  · intro x hx
    rcases hmem x hx with hx | rfl
    · exact h.files x hx
    · exact hfile
  · intro x hx
    rcases hmem x hx with hx | rfl
    · exact h.named x hx
    · exact hnamed

/-! ### Writing -/

/-- The names of the next `k` files of a mode fit. -/
def Names : Nat → FileNumbers → Prop
  | 0, _ => True
  | k + 1, f => Nameable (nextFile f) ∧ Names k (nextFile f)

/-- The file of a mode is rotated. -/
theorem rollOver_series {c : TimedContainer} {pre post : List TimedMode} {m : TimedMode}
    (h : Open c) (hstack : c.pauseModeStack = pre ++ m :: post)
    (hfits : Nameable (nextFile (currentNumbers m))) (hnewest : newestOnly → pre = [])
    (minTime maxTime : Timespec) :
    Open (c.rollOver m.node m.paused minTime maxTime true) ∧
      Series.Step newestOnly (series c)
        (series (c.rollOver m.node m.paused minTime maxTime true)) ∧
      ∃ m', (c.rollOver m.node m.paused minTime maxTime true).pauseModeStack = pre ++ m' :: post ∧
        m'.node = m.node ∧ currentNumbers m' = nextFile (currentNumbers m) := by
  have hm : m ∈ c.pauseModeStack := by simp [hstack]
  have hat : c.modeAt m.node = some m := modeAt_split h.wellFormed.nodup hstack rfl
  have hmoves := (@rollOver_spec False False False c m.node m h.wellFormed hat (h.files m hm)
    False.elim m.paused minTime maxTime true).1
  -- the file is closed first, which leaves the numbers as they are
  have hclosed := (@closeFile_spec False False False c m.node m h.wellFormed hat (h.files m hm)
    maxTime).1.wellFormed h.wellFormed
  have hstack₁ : (c.closeFile m maxTime).pauseModeStack =
      pre ++ { m with maxTime := maxTime.pred, file := none } :: post := by
    have hset := @setMode_split (c.endFile m) pre post m
      { m with maxTime := maxTime.pred, file := none } (by simpa using h.wellFormed.nodup)
      (by simpa using hstack) rfl
    exact congrArg (·.pauseModeStack) hset
  have hmade : madeNumbers (c.closeFile m maxTime) = madeNumbers c :=
    madeNumbers_congr (origins_endFile c m)
  -- then the mode's next one is made
  have hnext : currentNumbers
      (nextNumbers { m with maxTime := maxTime.pred, file := none } m.paused minTime) =
        nextFile (currentNumbers m) :=
    currentNumbers_nextNumbers (m := { m with maxTime := maxTime.pred, file := none })
      (h.named m hm) hfits minTime
  have hnamed := (h.named m hm).nextFile hfits
  obtain ⟨hmade', m', hstack', hnode, hfile, hnumbers⟩ :=
    newFile_numbers hclosed hstack₁ rfl (hnext ▸ hnamed)
  have hroll : c.rollOver m.node m.paused minTime maxTime true =
      (c.closeFile m maxTime).newFile m.node m.paused minTime true := by
    rw [rollOver, hat]
  rw [hnext] at hnumbers hmade'
  rw [hroll] at hmoves ⊢
  refine ⟨h.replace hstack hmoves hstack' hfile (hnumbers ▸ hnamed), ?_, m', hstack', hnode,
    hnumbers⟩
  have hstep := @Series.Step.next newestOnly (madeNumbers c) (pre.map currentNumbers)
    (post.map currentNumbers) (currentNumbers m) (fun hn => by rw [hnewest hn, List.map_nil]) hfits
  rw [series, series, hstack, hstack', hmade', hmade]
  simpa [hnumbers] using hstep

/-- The attempts of a write, each of which but the last ends a file. -/
theorem writeLoop_series {pre post : List TimedMode} {paused : Bool} {minTime maxTime : Timespec}
    (failed : List Bool) (hopens : ∀ opens ∈ failed, opens = true) :
    ∀ {c : TimedContainer} {m : TimedMode}, Open c → c.pauseModeStack = pre ++ m :: post →
      m.paused = paused → Names failed.length (currentNumbers m) →
      (newestOnly → failed = [] ∨ pre = []) →
      Open (c.writeLoop m.node paused minTime maxTime failed).1 ∧
        Series.Steps newestOnly (series c)
          (series (c.writeLoop m.node paused minTime maxTime failed).1) := by
  induction failed with
  | nil => exact fun h _ _ _ _ => ⟨h, .refl⟩
  | cons opens failed ih =>
    intro c m h hstack hpaused hnames hnewest
    obtain rfl : opens = true := hopens opens List.mem_cons_self
    subst hpaused
    have hat : c.modeAt m.node = some m := modeAt_split h.wellFormed.nodup hstack rfl
    obtain ⟨f, hf⟩ := Option.isSome_iff_exists.mp (h.files m (by simp [hstack]))
    have hpre : newestOnly → pre = [] := fun hn => (hnewest hn).resolve_left (List.cons_ne_nil _ _)
    obtain ⟨hopen, hstep, m', hstack', hnode, hnumbers⟩ :=
      rollOver_series h hstack hnames.1 hpre minTime maxTime
    have hpaused : m'.paused = m.paused :=
      (congrArg FileNumbers.paused hnumbers).trans (nextFile_paused _)
    obtain ⟨hopen', hsteps⟩ := ih (fun o ho => hopens o (List.mem_cons_of_mem _ ho)) hopen hstack'
      hpaused (hnumbers ▸ hnames.2) fun hn => .inr (hpre hn)
    simp only [writeLoop, hat, Option.bind_some, hf]
    rw [hnode] at hopen' hsteps
    exact ⟨hopen', .head hstep hsteps⟩

/-- How many files a write to mode `m` makes. -/
def newFiles (m : TimedMode) (io : WriteIO) : Nat :=
  io.failed.length + if m.file.isSome = true ∧ io.oversize = false then 0 else 1

theorem write_series {c : TimedContainer} {n : Nat} {io : WriteIO}
    {r : TimedContainer × List FileId} (h : Open c) (hr : c.write n io = some r)
    (hok : ∀ m ∈ c.modeAt n, WriteOpens m io ∧ Names (newFiles m io) (currentNumbers m))
    (hnewest : newestOnly → ∀ m ∈ c.modeAt n, newFiles m io = 0 ∨ c.pauseModeStack.head? = some m) :
    Open r.1 ∧ Series.Steps newestOnly (series c) (series r.1) := by
  obtain ⟨m, hm, rfl⟩ := Option.map_eq_some_iff.mp hr
  obtain ⟨hopens, hnames⟩ := hok m hm
  obtain ⟨pre, post, hstack, rfl⟩ := exists_split hm
  have hfile := h.files m (by simp [hstack])
  have hpre : newestOnly → newFiles m io = 0 ∨ pre = [] := by
    refine fun hn => (hnewest hn m hm).imp_right fun hhead => ?_
    -- the first mode of the stack is there only once
    cases pre with
    | nil => rfl
    | cons x pre =>
      have hnodup := h.wellFormed.nodup
      rw [hstack] at hnodup hhead
      obtain rfl := Option.some.inj hhead
      simp at hnodup
  by_cases hover : io.oversize = false
  · have hzero : newFiles m io = io.failed.length := by rw [newFiles, if_pos ⟨hfile, hover⟩]; rfl
    have hready : c.readyFile m m.maxTime.succ io = c := by simp [readyFile, hfile, hover]
    rw [hzero] at hnames hpre
    simp only [hready]
    exact writeLoop_series io.failed hopens.2 h hstack rfl hnames fun hn =>
      (hpre hn).imp_left List.eq_nil_of_length_eq_zero
  · have hsucc : newFiles m io = io.failed.length + 1 := by
      rw [newFiles, if_neg fun hno => hover hno.2]
    have hioopens : io.opens = true := hopens.1.resolve_left fun hno => hover hno.2
    have hat : c.modeAt m.node = some m := modeAt_split h.wellFormed.nodup hstack rfl
    have hready : c.readyFile m m.maxTime.succ io =
        c.rollOver m.node m.paused m.minTime m.maxTime.succ true := by
      simp [readyFile, hfile, hover, rollOver, hat, hioopens]
    rw [hsucc] at hnames hpre
    have hpre : newestOnly → pre = [] := fun hn => (hpre hn).resolve_left (Nat.succ_ne_zero _)
    obtain ⟨hopen, hstep, m', hstack', hnode, hnumbers⟩ :=
      rollOver_series h hstack hnames.1 hpre m.minTime m.maxTime.succ
    have hpaused : m'.paused = m.paused :=
      (congrArg FileNumbers.paused hnumbers).trans (nextFile_paused _)
    obtain ⟨hopen', hsteps⟩ := @writeLoop_series newestOnly pre post m.paused m.minTime
      m.maxTime.succ io.failed hopens.2 _ _ hopen hstack' hpaused (hnumbers ▸ hnames.2)
      fun hn => .inr (hpre hn)
    simp only [hready]
    rw [hnode] at hopen' hsteps
    exact ⟨hopen', .head hstep hsteps⟩

/-! ### Pausing -/

/-- The prologue file of the mode below cannot be made. -/
theorem stackMode_none {c : TimedContainer} {m : TimedMode} {post : List TimedMode}
    (hn : WellFormed c) (hstack : c.pauseModeStack = m :: post) {t : Timespec} {opens : Bool}
    (hprologue : ¬(m.hasLastPrologue = true ∨ opens = true)) :
    c.stackMode m t opens =
      ({ c with pauseModeStack := { m with maxTime := t.pred } :: post }, none) := by
  obtain ⟨hlast, hopens⟩ := not_or.mp hprologue
  have hset : c.setMode { m with maxTime := t.pred } =
      { c with pauseModeStack := { m with maxTime := t.pred } :: post } :=
    @setMode_split c [] post m { m with maxTime := t.pred } hn.nodup hstack rfl
  have hfails : (!m.hasLastPrologue && !opens) = true := by simp [hlast, hopens]
  simp only [stackMode, if_pos hfails, hset]

/-- The newest mode ends, and the next one begins with its file. -/
theorem turn_series {c c' : TimedContainer} {m top : TimedMode} {post : List TimedMode}
    {t : Timespec} {opens : Bool} (h : Open c) (hstack : c.pauseModeStack = m :: post)
    (hprologue : m.hasLastPrologue = true ∨ opens = true)
    (hmoves : Moves False False False c c')
    (heq : c' = ((c.stackMode m t opens).1.setMode top).newFile top.node (!m.paused) t true)
    (hnode : top.node = c.nextNode) (hfile : top.file = none) (hpending : top.pendingFiles = [])
    (hnum : top.numModes = increment m.numModes)
    (hfirst : currentNumbers (nextNumbers top (!m.paused) t) =
      firstFile (m.numModes + 1) (!m.paused))
    (hfits : Nameable (firstFile (m.numModes + 1) (!m.paused))) :
    Open c' ∧ Series.Step newestOnly (series c) (series c') := by
  have hm : m ∈ c.pauseModeStack := by simp [hstack]
  obtain ⟨hwf, hstack₁, hmade₁, -⟩ :=
    stackMode_top h.wellFormed hstack (t := t) hprologue hnode hfile hpending hnum
  have hnamed : Named (firstFile (m.numModes + 1) (!m.paused)) :=
    ⟨hfits, proper_firstFile _ _, Nat.succ_pos _⟩
  obtain ⟨hmade, top', hstack', -, hfile', hnumbers⟩ :=
    @newFile_numbers _ [] _ _ hwf hstack₁ hfile _ _ (hfirst ▸ hnamed)
  rw [← heq] at hmade hstack'
  rw [hfirst] at hmade hnumbers
  have hstack' : c'.pauseModeStack = top' :: below m t :: post := hstack'
  have hmade : madeNumbers c' = madeNumbers c ++ [firstFile (m.numModes + 1) (!m.paused)] := by
    rw [hmade, madeNumbers, madeNumbers, hmade₁]
  -- the stack is the new mode, the old one closed, and those behind it
  have hmem : ∀ x ∈ c'.pauseModeStack, x = top' ∨ x = below m t ∨ x ∈ c.pauseModeStack := by
    intro x hx
    rw [hstack', List.mem_cons, List.mem_cons] at hx
    rw [hstack]
    exact hx.imp_right (.imp_right (List.mem_cons_of_mem m))
  refine ⟨⟨Moves.wellFormed hmoves h.wellFormed, Moves.filesPaused hmoves h.filesPaused, ?_, ?_⟩, ?_⟩
  · intro x hx
    rcases hmem x hx with rfl | rfl | hx
    · exact hfile'
    · exact h.files m hm
    · exact h.files x hx
  · intro x hx
    rcases hmem x hx with rfl | rfl | hx
    · exact hnumbers ▸ hnamed
    · exact h.named m hm
    · exact h.named x hx
  -- on the numbers, this is the turn of a series
  · have hstep := @Series.Step.turn newestOnly (madeNumbers c) (post.map currentNumbers)
      (currentNumbers m) hfits
    rw [series, series, hstack, hstack', hmade, List.map_cons, List.map_cons, List.map_cons,
      hnumbers]
    exact hstep

/-- The prologue file and the first file of a new mode open, and its name fits. -/
def TurnOpens (m : TimedMode) (io : PauseIO) : Prop :=
  m.hasLastPrologue = true ∨ io.prologueOpens = true →
    io.opens = true ∧ Nameable (firstFile (m.numModes + 1) (!m.paused))

theorem prologueFails_series {c : TimedContainer} {m : TimedMode} {post : List TimedMode}
    {t : Timespec} (h : Open c) (hstack : c.pauseModeStack = m :: post) :
    Open { c with pauseModeStack := { m with maxTime := t.pred } :: post } ∧
      Series.Steps newestOnly (series c)
        (series { c with pauseModeStack := { m with maxTime := t.pred } :: post }) := by
  have hm : m ∈ c.pauseModeStack := by simp [hstack]
  have hsplit : c.pauseModeStack = [] ++ m :: post := hstack
  have hmove : Move False False False c
      { c with pauseModeStack := { m with maxTime := t.pred } :: post } :=
    .adjust hsplit ⟨rfl, rfl, rfl, .inl rfl⟩ (fun _ => rfl) False.elim
  refine ⟨h.replace hsplit (.single hmove) rfl (h.files m hm) (h.named m hm), ?_⟩
  have hsame : series { c with pauseModeStack := { m with maxTime := t.pred } :: post } =
      series c := by
    rw [series, series, hstack]
    rfl
  rw [hsame]

theorem pause_series {c c' : TimedContainer} {t : Timespec} {io : PauseIO} (h : Open c)
    (hstep : c.pause t io = some c')
    (hok : ∀ m ∈ c.pauseModeStack.head?, m.paused = false → TurnOpens m io) :
    Open c' ∧ Series.Steps newestOnly (series c) (series c') := by
  have hmoves := @pause_moves False False False _ _ _ _ h.wellFormed hstep False.elim False.elim
  obtain ⟨m, hhead, heq⟩ := Option.map_eq_some_iff.mp hstep
  obtain ⟨post, hstack⟩ := List.head?_eq_some_iff.mp hhead
  have hm : m ∈ c.pauseModeStack := by simp [hstack]
  obtain ⟨f, hf⟩ := Option.isSome_iff_exists.mp (h.files m hm)
  have his := h.filesPaused.fileIs hm hf false
  -- a paused container stays as it is: its file is there already
  cases hp : m.paused with
  | true =>
    rw [hp] at his
    rw [if_neg (by rw [his]; decide), newFile_of_isSome (modeAt_head h.wellFormed hstack)
      (h.files m hm)] at heq
    subst heq
    exact ⟨h, .refl⟩
  | false =>
    rw [hp, beq_self_eq_true] at his
    rw [if_pos his] at heq
    -- without a prologue to write no mode is made
    by_cases hprologue : m.hasLastPrologue = true ∨ io.prologueOpens = true
    · obtain ⟨hopens, hfits⟩ := hok m hhead hp hprologue
      have hnumModes : m.numModes + 1 < 2 ^ 32 := hfits.modeNumber
      have hpause : m.numPauseFiles = 0 := (h.named m hm).proper.running hp
      have hnew : c' = ((c.stackMode m t io.prologueOpens).1.setMode
          { newTop c m with numModes := increment m.numModes, numFiles := 1 }).newFile
            (newTop c m).node (!m.paused) t true := by
        rw [stackMode_eq h.wellFormed hstack hprologue] at heq ⊢
        rw [← heq, hopens, hp]
        rfl
      have hfirst : currentNumbers (nextNumbers
          { newTop c m with numModes := increment m.numModes, numFiles := 1 } (!m.paused) t) =
            firstFile (m.numModes + 1) (!m.paused) := by
        have hone : increment 0 = 1 := rfl
        simp [currentNumbers, nextNumbers, firstFile, newTop, hp, hpause,
          increment_of_lt hnumModes, hone]
      obtain ⟨hopen, hseries⟩ :=
        turn_series h hstack hprologue hmoves hnew rfl rfl rfl rfl hfirst hfits
      exact ⟨hopen, .single hseries⟩
    · rw [stackMode_none h.wellFormed hstack hprologue] at heq
      subst heq
      exact prologueFails_series h hstack

theorem resume_series {c c' : TimedContainer} {t : Timespec} {io : PauseIO} (h : Open c)
    (hstep : c.resume t io = some c')
    (hok : ∀ m ∈ c.pauseModeStack.head?, m.paused = true → TurnOpens m io) :
    Open c' ∧ Series.Steps newestOnly (series c) (series c') := by
  have hmoves := @resume_moves False False False _ _ _ _ h.wellFormed hstep False.elim False.elim
  obtain ⟨m, hhead, heq⟩ := Option.map_eq_some_iff.mp hstep
  obtain ⟨post, hstack⟩ := List.head?_eq_some_iff.mp hhead
  have hm : m ∈ c.pauseModeStack := by simp [hstack]
  obtain ⟨f, hf⟩ := Option.isSome_iff_exists.mp (h.files m hm)
  have his := h.filesPaused.fileIs hm hf true
  cases hp : m.paused with
  | true =>
    rw [hp, beq_self_eq_true] at his
    rw [if_pos his] at heq
    by_cases hprologue : m.hasLastPrologue = true ∨ io.prologueOpens = true
    · obtain ⟨hopens, hfits⟩ := hok m hhead hp hprologue
      have hnumModes : m.numModes + 1 < 2 ^ 32 := hfits.modeNumber
      have hnew : c' = ((c.stackMode m t io.prologueOpens).1.setMode
          { newTop c m with
            numModes := increment m.numModes, numFiles := 0, numPauseFiles := 0 }).newFile
            (newTop c m).node (!m.paused) t true := by
        rw [stackMode_eq h.wellFormed hstack hprologue] at heq ⊢
        rw [← heq, hopens, hp]
        rfl
      have hfirst : currentNumbers (nextNumbers
          { newTop c m with
            numModes := increment m.numModes, numFiles := 0, numPauseFiles := 0 } (!m.paused) t) =
            firstFile (m.numModes + 1) (!m.paused) := by
        have hone : increment 0 = 1 := rfl
        simp [currentNumbers, nextNumbers, firstFile, newTop, hp, increment_of_lt hnumModes, hone]
      obtain ⟨hopen, hseries⟩ :=
        turn_series h hstack hprologue hmoves hnew rfl rfl rfl rfl hfirst hfits
      exact ⟨hopen, .single hseries⟩
    · rw [stackMode_none h.wellFormed hstack hprologue] at heq
      subst heq
      exact prologueFails_series h hstack
  | false =>
    -- the pause file number is zero already
    have hpause : m.numPauseFiles = 0 := (h.named m hm).proper.running hp
    have hsame : c.setMode { m with numPauseFiles := 0 } = c := by
      rw [← hpause]
      exact setMode_self h.wellFormed (modeAt_head h.wellFormed hstack)
    rw [hp] at his
    rw [if_neg (by rw [his]; decide), hsame, newFile_of_isSome (modeAt_head h.wellFormed hstack)
      (h.files m hm)] at heq
    subst heq
    exact ⟨h, .refl⟩

/-! ### The lookup by time -/

theorem origins_closeExpired (c : TimedContainer) (oldTs timeout : Timespec)
    (ms : List TimedMode) :
    origins (c.closeExpired oldTs timeout ms).1.made = origins c.made := by
  induction ms with
  | nil => rfl
  | cons m ms ih =>
    simp only [closeExpired]
    split
    · exact (origins_closeMode _ m).trans ih
    · exact ih

theorem origins_flushOldest (c : TimedContainer) : origins c.flushOldest.made = origins c.made := by
  unfold flushOldest
  split <;> rfl

theorem expireModes_series {c : TimedContainer} (h : Open c) (n : Nat) (oldTs timeout : Timespec) :
    Open (c.expireModes n oldTs timeout) ∧
      Series.Steps newestOnly (series c) (series (c.expireModes n oldTs timeout)) := by
  have hmoves := @expireModes_moves False False False c n oldTs timeout h.wellFormed False.elim
  obtain ⟨happend, hnil⟩ := splitBehind_eq c n
  -- expiring flushes the modes that stay, which changes neither their files nor their numbers
  have hmap : ∀ {β : Type} (g : TimedMode → β),
      (∀ m : TimedMode, g { m with pendingFiles := [] } = g m) →
        (c.expireModes n oldTs timeout).pauseModeStack.map g =
          ((c.splitBehind n).1 ++ (c.splitBehind n).2.filter (!·.expired oldTs timeout)).map g :=
    fun g hg => expireModes_behind hg h.wellFormed n oldTs timeout
  have hsublist : ((c.splitBehind n).1 ++
      (c.splitBehind n).2.filter (!·.expired oldTs timeout)).Sublist c.pauseModeStack := by
    rw [← happend]
    exact (List.Sublist.refl _).append List.filter_sublist
  refine ⟨⟨Moves.wellFormed hmoves h.wellFormed, Moves.filesPaused hmoves h.filesPaused, ?_, ?_⟩, ?_⟩
  · intro x hx
    have hx := List.mem_map_of_mem (f := (·.file.isSome)) hx
    rw [hmap (·.file.isSome) fun _ => rfl] at hx
    obtain ⟨y, hy, heq⟩ := List.mem_map.mp hx
    exact heq ▸ h.files y (hsublist.subset hy)
  · intro x hx
    have hx := List.mem_map_of_mem (f := currentNumbers) hx
    rw [hmap currentNumbers fun _ => rfl] at hx
    obtain ⟨y, hy, heq⟩ := List.mem_map.mp hx
    exact heq ▸ h.named y (hsublist.subset hy)
  · have hmade : madeNumbers (c.expireModes n oldTs timeout) = madeNumbers c :=
      madeNumbers_congr ((origins_flushOldest _).trans (origins_closeExpired c oldTs timeout _))
    rw [series, series, hmade, hmap currentNumbers fun _ => rfl]
    -- without the mode itself in front nothing expires
    cases hfront : (c.splitBehind n).1 with
    | nil =>
      have hbehind : (c.splitBehind n).2 = [] := by
        simpa [hfront, hnil hfront] using happend
      rw [hnil hfront, hbehind]
      exact .refl
    | cons m front =>
      have hstack : c.pauseModeStack = m :: (front ++ (c.splitBehind n).2) := by
        rw [← happend, hfront]
        rfl
      rw [hstack]
      exact .single (.close (((List.Sublist.refl front).append List.filter_sublist).map _))

/-- A lookup leaves the files as they are, and perhaps closes modes. -/
theorem getPauseModeByTime_series {c : TimedContainer} (h : Open c) (ignore : Bool)
    (ts : Timespec) (check : Bool) (oldTs timeout : Timespec) :
    Open (c.getPauseModeByTime ignore ts check oldTs timeout).1 ∧
      Series.Steps newestOnly (series c)
        (series (c.getPauseModeByTime ignore ts check oldTs timeout).1) := by
  unfold getPauseModeByTime
  split
  · exact ⟨h, .refl⟩
  · have hcache : ∀ {c' : TimedContainer} (found : Option Nat), Open c' ∧
        Series.Steps newestOnly (series c) (series c') →
          Open { c' with
            lastFound := found, lastTs := ts, lastIgnorePktTimestamp := ignore
            lastCheckOldPausemodes := check } ∧
          Series.Steps newestOnly (series c) (series { c' with
            lastFound := found, lastTs := ts, lastIgnorePktTimestamp := ignore
            lastCheckOldPausemodes := check }) := by
      rintro c' found ⟨hopen, hsteps⟩
      have hwf := hopen.wellFormed
      exact ⟨⟨⟨hwf.nodup, hwf.lt, hwf.isMade⟩, hopen.filesPaused, hopen.files, hopen.named⟩, hsteps⟩
    apply hcache
    split
    · split
      · exact expireModes_series h _ oldTs timeout
      · exact ⟨h, .refl⟩
    · exact ⟨h, .refl⟩

/-! ### Runs -/

/-- Each file that a call needs opens, and its name fits. -/
def AllOpen (c : TimedContainer) : TimedContainer.Call → Prop
  | .write n io => ∀ m ∈ c.modeAt n, WriteOpens m io ∧ Names (newFiles m io) (currentNumbers m)
  | .pause _ io => ∀ m ∈ c.pauseModeStack.head?, m.paused = false → TurnOpens m io
  | .resume _ io => ∀ m ∈ c.pauseModeStack.head?, m.paused = true → TurnOpens m io
  | .getPauseModeByTime .. => True

/-- Only the newest mode makes files. -/
def InNewest (c : TimedContainer) : TimedContainer.Call → Prop
  | .write n io => ∀ m ∈ c.modeAt n, newFiles m io = 0 ∨ c.pauseModeStack.head? = some m
  | _ => True

theorem step_series {c c' : TimedContainer} {a : TimedContainer.Call} (h : Open c)
    (hstep : step c a = some c')
    (hok : AllOpen c a) (hnewest : newestOnly → InNewest c a) :
    Open c' ∧ Series.Steps newestOnly (series c) (series c') := by
  cases a with
  | write n io =>
    obtain ⟨r, hr, rfl⟩ := Option.map_eq_some_iff.mp hstep
    exact write_series h hr hok hnewest
  | pause t io => exact pause_series h hstep hok
  | resume t io => exact resume_series h hstep hok
  | getPauseModeByTime ignore ts check oldTs timeout =>
    cases hstep
    exact getPauseModeByTime_series h ignore ts check oldTs timeout

theorem start_open (runNumber : Nat) (minTime : Timespec) (paused : Bool) :
    Open (start runNumber minTime paused true) ∧
      series (start runNumber minTime paused true) = .first paused := by
  have hwf := start_wellFormed runNumber minTime paused true
  have hnamed := (Series.first_regular (p := paused)).named _ List.mem_cons_self
  rw [start_eq] at hwf ⊢
  refine ⟨⟨hwf, ?_, by simp, ?_⟩, rfl⟩
  · simp [FilesPaused]
  · intro m hm
    obtain rfl := List.mem_singleton.mp hm
    exact hnamed

theorem run_series {runNumber : Nat} {minTime : Timespec} {paused : Bool} {calls : List TimedContainer.Call}
    {c : TimedContainer}
    (hok : Runs.along step (fun c a => AllOpen c a ∧ (newestOnly → InNewest c a))
      (start runNumber minTime paused true) calls)
    (hrun : Runs.run step (start runNumber minTime paused true) calls = some c) :
    Series.Steps newestOnly (.first paused) (series c) := by
  obtain ⟨hopen, hfirst⟩ := start_open runNumber minTime paused
  have hinv : ∀ c a c', Open c ∧ Series.Steps newestOnly (.first paused) (series c) →
      AllOpen c a ∧ (newestOnly → InNewest c a) → step c a = some c' →
        Open c' ∧ Series.Steps newestOnly (.first paused) (series c') := by
    rintro c a c' ⟨h, hsteps⟩ ⟨hgood, hnewest⟩ hstep
    obtain ⟨h', hsteps'⟩ := step_series h hstep hgood hnewest
    exact ⟨h', hsteps.trans hsteps'⟩
  exact (Runs.invariant_along hinv ⟨hopen, hfirst ▸ .refl⟩ hok hrun).2

/-! ### Reading back -/

/-- What `makePath` makes is the name of the file in the directory of the container. -/
theorem makePath_eq (isPrologue : Bool) (container : List Char) (runNumber : Nat)
    (f : FileNumbers) :
    makePath isPrologue container runNumber f =
      container ++ '/' :: fileName isPrologue runNumber f := by
  have hslash : ∀ {text rest : List Char}, text = '/' :: rest →
      snprintf 32 text = '/' :: (snprintf 32 text).tail := by
    rintro text rest rfl
    rfl
  have hm : "/m".toList = '/' :: "m".toList := by decide
  have hds : "/prologue-ds".toList = '/' :: "prologue-ds".toList := by decide
  have hpm : "/prologue-m".toList = '/' :: "prologue-m".toList := by decide
  have hname : snprintf 32 (nameText isPrologue f) =
      '/' :: (snprintf 32 (nameText isPrologue f)).tail := by
    rw [nameText]
    split
    · split
      · exact hslash (by rw [hds]; rfl)
      · exact hslash (by rw [hpm]; rfl)
    · split
      · exact hslash (by rw [hm]; rfl)
      · exact hslash (by rw [hm]; rfl)
  rw [makePath, fileName, hname]
  simp

/-- What the scan makes of the files of a container: whatever the order of the directory is, they
    are imported with their numbers and sorted by their modes.  `validate` takes the complete list
    if the first mode is not paused, and finds a file missing in front of another one of its
    mode. -/
structure ReadBack (daily container : String) (runNumber : Nat) (firstPaused : Bool)
    (size : FileNumbers → Nat) (files ordered : List FileNumbers) : Prop where
  paths : ∀ f ∈ files, ∀ path, makePath false path runNumber f =
    path ++ '/' :: (onDisk daily container runNumber size f).name.toList
  imports : ∀ f ∈ files,
    importNumbers allReadable runNumber (onDisk daily container runNumber size f) =
      some (asScanned size f)
  inModes : InModes files ordered
  scanned : ∀ entries : List DiskFile,
    entries.Perm (files.map (onDisk daily container runNumber size)) →
      scanFiles allReadable runNumber entries = ordered.map (asScanned size)
  accepted : firstPaused = false → validate (ordered.map (asScanned size)) = false
  missing : ∀ pre f post, ordered = pre ++ f :: post →
    (∃ g ∈ post, g.modeNumber = f.modeNumber) →
      validate ((pre ++ post).map (asScanned size)) = true

theorem Series.Regular.readBack {s : Series} {p : Bool} (h : s.Regular p) (daily container : String)
    {runNumber : Nat} (hrun : runNumber < 2 ^ 32) (size : FileNumbers → Nat) :
    ReadBack daily container runNumber p size s.files s.inModes := by
  have hchain : s.inModes.IsChain Follows := h.isChain (Nat.le_refl _)
  have hhead : s.inModes.head? = some (firstFile 1 p) := by
    obtain ⟨k, hk⟩ := Nat.exists_eq_succ_of_ne_zero (Nat.ne_of_gt h.top_pos)
    rw [Series.inModes, hk]
    exact h.head? (by omega)
  have hnamed : ∀ f ∈ s.inModes, Named f := fun f hf => h.named f (h.perm.subset hf)
  refine ⟨fun f _ path => ?_, fun f hf => ?_, h.inModes, fun entries hentries => ?_, ?_, ?_⟩
  · rw [makePath_eq, onDisk, String.toList_ofList]
  · exact importNumbers_fileName (h.named f hf).nameable (h.named f hf).proper hrun
  · exact scanFiles_eq hchain (fun f hf => ⟨(hnamed f hf).nameable, (hnamed f hf).proper⟩) hrun
      (hentries.trans (h.perm.symm.map _))
  · rintro rfl
    exact validate_series hchain hhead hnamed
  · rintro pre f post heq hlater
    rw [heq] at hchain hhead hnamed
    exact validate_erased hchain hhead hnamed hlater

/-- A container on the disk is read back as it was written, in the order of its modes; this is
    the order in which the files were made, if no older mode makes one. -/
theorem readBack_of_run {runNumber : UInt32} {minTime : Timespec} {paused : Bool}
    {calls : List TimedContainer.Call} {c : TimedContainer} (daily container : String)
    (size : FileNumbers → Nat)
    (hok : Runs.along step AllOpen (start runNumber.toNat minTime paused true) calls)
    (hrun : Runs.run step (start runNumber.toNat minTime paused true) calls = some c) :
    ∃ ordered, ReadBack daily container runNumber.toNat paused size (madeNumbers c) ordered ∧
      (Runs.along step InNewest (start runNumber.toNat minTime paused true) calls →
        ordered = madeNumbers c) := by
  have hsteps : Series.Steps False (.first paused) (series c) :=
    run_series (hok.imp fun _ _ h => ⟨h, False.elim⟩) hrun
  have hregular := hsteps.regular Series.first_regular
  refine ⟨(series c).inModes, hregular.readBack daily container runNumber.toNat_lt size,
    fun hnewest => ?_⟩
  have hsteps : Series.Steps True (.first paused) (series c) :=
    run_series ((hok.and hnewest).imp fun _ _ h => ⟨h.1, fun _ => h.2⟩) hrun
  exact hregular.eq_files (hsteps.newest ⟨List.isChain_singleton _, rfl⟩)

instance (f : FileNumbers) : Decidable (Nameable f) :=
  decidable_of_iff (f.modeNumber < 2 ^ 32 ∧ f.fileNumber < 2 ^ 32 ∧ f.pauseFileNumber < 2 ^ 32 ∧
      (nameText false f).length < 32)
    ⟨fun h => ⟨h.1, h.2.1, h.2.2.1, h.2.2.2⟩,
      fun h => ⟨h.modeNumber, h.fileNumber, h.pauseFileNumber, h.fits⟩⟩

instance decidableNames : (k : Nat) → (f : FileNumbers) → Decidable (Names k f)
  | 0, _ => instDecidableTrue
  | k + 1, f =>
    have := decidableNames k (nextFile f)
    inferInstanceAs (Decidable (Nameable (nextFile f) ∧ Names k (nextFile f)))

instance (m : TimedMode) (io : PauseIO) : Decidable (TurnOpens m io) :=
  inferInstanceAs (Decidable (_ → _))

instance (c : TimedContainer) (a : TimedContainer.Call) : Decidable (AllOpen c a) :=
  match a with
  | .write .. | .pause .. | .resume .. | .getPauseModeByTime .. => by
    unfold AllOpen
    infer_instance

instance (c : TimedContainer) (a : TimedContainer.Call) : Decidable (InNewest c a) :=
  match a with
  | .write .. | .pause .. | .resume .. | .getPauseModeByTime .. => by
    unfold InNewest
    infer_instance

/-- A run that is paused and goes on, with files that are rotated. -/
theorem readBack_of_run_paused :
    ∃ c ordered, Runs.run step (start 12 ⟨100, 0⟩ false true)
        [.write 0 ⟨true, true, []⟩, .pause ⟨200, 0⟩ ⟨true, true⟩,
          .write 1 ⟨true, true, [true]⟩, .resume ⟨300, 0⟩ ⟨true, true⟩] = some c ∧
      madeNumbers c = [⟨1, 1, 0, false⟩, ⟨1, 2, 0, false⟩, ⟨2, 1, 1, true⟩, ⟨2, 1, 2, true⟩,
        ⟨2, 1, 3, true⟩, ⟨3, 1, 0, false⟩] ∧
      ReadBack "20260101" "run-12" 12 false (fun _ => 64) (madeNumbers c) ordered ∧
      ordered = madeNumbers c := by
  have hok : Runs.along step AllOpen (start (12 : UInt32).toNat ⟨100, 0⟩ false true)
      [.write 0 ⟨true, true, []⟩, .pause ⟨200, 0⟩ ⟨true, true⟩,
        .write 1 ⟨true, true, [true]⟩, .resume ⟨300, 0⟩ ⟨true, true⟩] := by
    decide
  have hnewest : Runs.along step InNewest (start (12 : UInt32).toNat ⟨100, 0⟩ false true)
      [.write 0 ⟨true, true, []⟩, .pause ⟨200, 0⟩ ⟨true, true⟩,
        .write 1 ⟨true, true, [true]⟩, .resume ⟨300, 0⟩ ⟨true, true⟩] := by
    decide
  obtain ⟨ordered, hreadBack, heq⟩ :=
    readBack_of_run "20260101" "run-12" (fun _ => 64) hok rfl
  exact ⟨_, ordered, rfl, by decide, hreadBack, heq hnewest⟩

/-- A packet that comes late ends a file of the older mode, and the scan has the next one in front
    of the file that was made before it.  A container whose first mode is paused, or that has left
    out a number because a file did not open, is said to miss a file.  A name that does not fit is
    cut off, and a file number that has wrapped to zero is not imported. -/
theorem not_readBack_late :
    (∃ c, Runs.run step (start 12 ⟨100, 0⟩ false true)
        [.pause ⟨200, 0⟩ ⟨true, true⟩, .write 0 ⟨true, true, []⟩] = some c ∧
      scanFiles allReadable 12 ((madeNumbers c).map (onDisk "20260101" "run-12" 12 fun _ => 64)) ≠
        (madeNumbers c).map (asScanned fun _ => 64)) ∧
    (∃ c, Runs.run step (start 12 ⟨100, 0⟩ true true) [] = some c ∧
      validate ((madeNumbers c).map (asScanned fun _ => 64)) = true) ∧
    (∃ c, Runs.run step (start 12 ⟨100, 0⟩ false true)
        [.write 0 ⟨true, false, []⟩, .write 0 ⟨false, true, []⟩] = some c ∧
      validate ((madeNumbers c).map (asScanned fun _ => 64)) = true) ∧
    importNumbers allReadable 12 (onDisk "20260101" "run-12" 12 (fun _ => 64)
      ⟨1000000000, 1, 123456789, true⟩) =
        some (asScanned (fun _ => 64) ⟨1000000000, 1, 1234567, true⟩) ∧
    increment (2 ^ 32 - 1) = 0 ∧
    importNumbers allReadable 12
      (onDisk "20260101" "run-12" 12 (fun _ => 64) ⟨1, 0, 0, false⟩) = none := by
  refine ⟨⟨_, rfl, ?_⟩, ⟨_, rfl, by decide⟩, ⟨_, rfl, by decide⟩, by decide, by decide, by decide⟩
  have hnamed : ∀ f ∈ [⟨1, 1, 0, false⟩, ⟨1, 2, 0, false⟩, ⟨2, 1, 1, true⟩],
      Nameable f ∧ Proper f := by
    simp only [List.forall_mem_cons]
    exact ⟨⟨by decide, by constructor <;> decide⟩, ⟨by decide, by constructor <;> decide⟩,
      ⟨by decide, by constructor <;> decide⟩, nofun⟩
  have hscan := @scanFiles_eq "20260101" "run-12" 12 (fun _ => 64)
    [⟨1, 1, 0, false⟩, ⟨1, 2, 0, false⟩, ⟨2, 1, 1, true⟩]
    ([⟨1, 1, 0, false⟩, ⟨2, 1, 1, true⟩, ⟨1, 2, 0, false⟩].map (onDisk "20260101" "run-12" 12 _))
    (by decide) hnamed (by decide) (List.Perm.map _ (by decide))
  intro heq
  exact absurd (hscan.symm.trans heq) (by decide)

end Adara.Spec.ScannedContainer
