import Mathlib.Data.List.Range
import Adara.Spec.TimedContainer

/-! # The publication of the data files

Every file a container makes is put on the file list once, and `m_newFile` is signalled for
it once.  What is on the list, followed by what is deferred from the oldest mode to the
current one, is one sequence: publishing moves files of the oldest mode from the second part
to the first, and a new file goes in at the end of its mode.  As long as the modes expire
oldest first the sequence does not change otherwise, so the list is in the order of the modes
and of the files in each. -/

namespace Adara.Spec.TimedContainer

open Adara.Native Adara.Native.TimedContainer

variable {modesFresh filesFresh oldestFirst : Prop}

/-- The deferred files, those of the oldest mode first. -/
def deferred (ms : List TimedMode) : List FileId := ms.reverse.flatMap (·.pendingFiles)

@[simp] theorem deferred_nil : deferred [] = [] := rfl

@[simp] theorem deferred_cons (m : TimedMode) (ms : List TimedMode) :
    deferred (m :: ms) = deferred ms ++ m.pendingFiles := by
  simp [deferred]

@[simp] theorem deferred_append (ms ms' : List TimedMode) :
    deferred (ms ++ ms') = deferred ms' ++ deferred ms := by
  simp [deferred]

/-- The file list, and then the files that will come on it. -/
def line (c : TimedContainer) : List FileId := c.files ++ deferred c.pauseModeStack

@[simp] theorem endFile_files (c : TimedContainer) (m : TimedMode) :
    (c.endFile m).files = c.files := by
  unfold TimedContainer.endFile
  split <;> rfl

@[simp] theorem endFile_signalled (c : TimedContainer) (m : TimedMode) :
    (c.endFile m).signalled = c.signalled := by
  unfold TimedContainer.endFile
  split <;> rfl

@[simp] theorem closeMode_files (c : TimedContainer) (m : TimedMode) :
    (c.closeMode m).files = c.files ++ m.pendingFiles := by
  simp [closeMode, publish]

@[simp] theorem closeMode_signalled (c : TimedContainer) (m : TimedMode) :
    (c.closeMode m).signalled = c.signalled ++ m.pendingFiles := by
  simp [closeMode, publish]

@[simp] theorem closeMode_length (c : TimedContainer) (m : TimedMode) :
    (c.closeMode m).made.length = c.made.length := by
  simp [closeMode, publish]

/-! ### Every file once -/

/-- Every file that was made is on the file list or deferred, once. -/
structure Accounted (c : TimedContainer) : Prop where
  signalled : c.signalled = c.files
  once : (line c).Perm (List.range c.made.length)

/-- A new file goes in somewhere. -/
private theorem perm_insert {a b : List FileId} {n : Nat} (h : (a ++ b).Perm (List.range n)) :
    (a ++ n :: b).Perm (List.range (n + 1)) := by
  rw [List.range_succ]
  exact (List.perm_middle.trans (h.cons n)).trans (List.perm_append_singleton n _).symm

theorem Move.accounted {c c' : TimedContainer} (h : Move modesFresh filesFresh oldestFirst c c')
    (hc : Accounted c) : Accounted c' := by
  obtain ⟨hsig, hline⟩ := hc
  cases h with
  | cache => exact ⟨hsig, hline⟩
  | adjust stack same _ _ =>
    refine ⟨hsig, ?_⟩
    simpa [line, stack, same.pendingFiles] using hline
  | restart stack =>
    refine ⟨hsig, ?_⟩
    simpa [line, stack] using hline
  | @make pre m m' stack noFile same =>
    refine ⟨by simp [publish, hsig], ?_⟩
    have h := @perm_insert (c.files ++ m.pendingFiles) (deferred pre) c.made.length
      (by simpa [line, stack] using hline)
    simpa [line, publish] using h
  | @makeDeferred pre post m m' stack =>
    refine ⟨hsig, ?_⟩
    have h := @perm_insert (c.files ++ deferred post ++ m.pendingFiles) (deferred pre)
      c.made.length (by simpa [line, stack] using hline)
    simpa [line] using h
  | endFile stack _ same _ =>
    refine ⟨by simpa using hsig, ?_⟩
    simpa [line, stack, same.pendingFiles] using hline
  | push stack _ _ pendingFiles =>
    refine ⟨hsig, ?_⟩
    simpa [line, stack, pendingFiles] using hline
  | @expire pre post m stack =>
    refine ⟨by simp [hsig], ?_⟩
    -- the files of the expired mode go from the middle of the line to its end
    have h : (c.files ++ m.pendingFiles ++ (deferred post ++ deferred pre)).Perm
        (c.files ++ (deferred post ++ m.pendingFiles ++ deferred pre)) := by
      rw [List.append_assoc]
      refine List.Perm.append_left c.files ?_
      rw [← List.append_assoc]
      exact List.perm_append_comm.append_right _
    have hold : (c.files ++ (deferred post ++ m.pendingFiles ++ deferred pre)).Perm
        (List.range c.made.length) := by
      simpa [line, stack] using hline
    simpa [line] using h.trans hold
  | flush stack =>
    refine ⟨by simp [publish, hsig], ?_⟩
    simpa [line, publish, stack] using hline

/-! ### What a file is made with -/

/-- The file as it was made. -/
def asMade (d : DataFile) : DataFile := { d with closing := none }

/-- The files as they were made. -/
def origins (made : List DataFile) : List DataFile := made.map asMade

@[simp] theorem origins_append (made : List DataFile) (d : DataFile) :
    origins (made ++ [d]) = origins made ++ [asMade d] := by
  simp [origins]

@[simp] theorem asMade_record (c : TimedContainer) (m m' : TimedMode) :
    asMade (record c m m') = record c m m' := rfl

@[simp] theorem length_origins (made : List DataFile) : (origins made).length = made.length := by
  simp [origins]

@[simp] theorem origins_endFile (c : TimedContainer) (m : TimedMode) :
    origins (c.endFile m).made = origins c.made := by
  unfold TimedContainer.endFile
  split
  · rfl
  · refine List.ext_getElem? fun i => ?_
    simp only [origins, List.getElem?_map, List.getElem?_modify]
    split <;> cases c.made[i]? <;> rfl

@[simp] theorem origins_closeMode (c : TimedContainer) (m : TimedMode) :
    origins (c.closeMode m).made = origins c.made := by
  simp [closeMode]
  rfl

/-- The mode numbers of some modes. -/
def numbers (ms : List TimedMode) : List Nat := ms.map (·.numModes)

@[simp] theorem numbers_nil : numbers [] = [] := rfl

@[simp] theorem numbers_cons (m : TimedMode) (ms : List TimedMode) :
    numbers (m :: ms) = m.numModes :: numbers ms := rfl

@[simp] theorem numbers_append (ms ms' : List TimedMode) :
    numbers (ms ++ ms') = numbers ms ++ numbers ms' := List.map_append

/-- The modes of the stack are numbered from the oldest to the current one, and no file has
    a later number. -/
structure Numbered (c : TimedContainer) : Prop where
  pos : ∀ n ∈ numbers c.pauseModeStack, 0 < n
  desc : (numbers c.pauseModeStack).Pairwise (· > ·)
  top : ∀ n ∈ (numbers c.pauseModeStack).head?, ∀ d ∈ origins c.made, d.modeNumber ≤ n

theorem Numbered.same {c : TimedContainer} {pre post : List TimedMode} {m m' : TimedMode}
    (h : Numbered c) (hstack : c.pauseModeStack = pre ++ m :: post)
    (hnum : m'.numModes = m.numModes ∨ m.numModes = 0 ∧ m'.numModes = 1) :
    m'.numModes = m.numModes := by
  have hpos := h.pos m.numModes (by simp [hstack])
  omega

/-- The mode numbers stay as they are, and a new file may have one of them. -/
theorem Numbered.congr {c c' : TimedContainer} (h : Numbered c)
    (hnum : numbers c'.pauseModeStack = numbers c.pauseModeStack)
    (hmade : ∀ d ∈ origins c'.made, d ∈ origins c.made ∨
      d.modeNumber ∈ numbers c.pauseModeStack) : Numbered c' := by
  refine ⟨hnum ▸ h.pos, hnum ▸ h.desc, fun n hn d hd => ?_⟩
  rw [hnum] at hn
  obtain hd | hd := hmade d hd
  · exact h.top n hn d hd
  · obtain ⟨ns, hns⟩ := List.head?_eq_some_iff.mp hn
    have hdesc := h.desc
    rw [hns] at hd hdesc
    obtain hd | hd := List.mem_cons.mp hd
    · omega
    · exact Nat.le_of_lt ((List.pairwise_cons.mp hdesc).1 _ hd)

theorem Move.numbered {c c' : TimedContainer} (h : Move True filesFresh oldestFirst c c')
    (hc : Numbered c) : Numbered c' := by
  cases h with
  | cache => exact hc.congr rfl fun d hd => .inl hd
  | adjust stack same _ _ =>
    exact hc.congr (by simp [stack, hc.same stack same.numModes]) fun d hd => .inl hd
  | restart stack => exact hc.congr (by simp [stack]) fun d hd => .inl hd
  | @make pre m m' stack _ same =>
    have hsame := hc.same stack same.numModes
    refine hc.congr (by simp [stack, hsame]) fun d hd => ?_
    have hd : d ∈ origins c.made ∨ d = record c m m' := by
      simpa [publish] using hd
    refine hd.imp_right fun h => ?_
    simp [h, record, stack, hsame]
  | @makeDeferred pre post m m' stack _ _ same =>
    have hsame := hc.same stack same.numModes
    refine hc.congr (by simp [stack, hsame]) fun d hd => ?_
    have hd : d ∈ origins c.made ∨ d = record c m m' := by
      simpa using hd
    refine hd.imp_right fun h => ?_
    simp [h, record, stack, hsame]
  | endFile stack _ same _ =>
    refine hc.congr ?_ fun d hd => .inl (by simpa using hd)
    simp [stack, hc.same stack same.numModes]
  | @push m post top stack _ _ _ numModes =>
    -- the new mode's number is one more than that of the newest, which no file exceeds
    have hnum := numModes trivial
    have hdesc := hc.desc
    have hpos := hc.pos
    have htop := hc.top m.numModes (by simp [stack])
    simp only [stack, numbers_cons, List.mem_cons] at hdesc hpos
    refine ⟨?_, ?_, fun n hn d hd => ?_⟩
    · simp only [numbers_cons, List.mem_cons]
      rintro n (rfl | hn)
      · omega
      · exact hpos n hn
    · show (top.numModes :: m.numModes :: numbers post).Pairwise (· > ·)
      refine List.pairwise_cons.mpr ⟨fun n hn => ?_, hdesc⟩
      obtain rfl | hn := List.mem_cons.mp hn
      · omega
      · have := (List.pairwise_cons.mp hdesc).1 n hn
        omega
    · have hn : top.numModes = n := by simpa using hn
      have := htop d hd
      omega
  | @expire pre post m stack notFirst =>
    have hsub : (numbers (pre ++ post)).Sublist (numbers c.pauseModeStack) := by
      simp [stack]
    refine ⟨fun n hn => hc.pos n (hsub.subset hn), hc.desc.sublist hsub, fun n hn d hd => ?_⟩
    refine hc.top n ?_ d (by simpa using hd)
    -- the newest mode is before the expired one, so that the first number stays
    obtain ⟨x, xs, rfl⟩ := List.exists_cons_of_ne_nil notFirst
    simpa [stack] using hn
  | flush stack => exact hc.congr (by simp [stack]) fun d hd => .inl hd

/-- The modes on top of a mode have later numbers, and those below it earlier ones. -/
theorem Numbered.around {c : TimedContainer} {pre post : List TimedMode} {m : TimedMode}
    (h : Numbered c) (hstack : c.pauseModeStack = pre ++ m :: post) :
    (∀ x ∈ pre, m.numModes < x.numModes) ∧ ∀ x ∈ post, x.numModes < m.numModes := by
  have hdesc := h.desc
  simp only [hstack, numbers_append, numbers_cons] at hdesc
  obtain ⟨-, htail, hpre⟩ := List.pairwise_append.mp hdesc
  refine ⟨fun x hx => ?_, fun x hx => ?_⟩
  · exact hpre _ (List.mem_map_of_mem hx) _ List.mem_cons_self
  · exact (List.pairwise_cons.mp htail).1 _ (List.mem_map_of_mem hx)

/-! ### In the order of the modes -/

/-- The mode number of a file. -/
def modeOf (made : List DataFile) (f : FileId) : Nat := (made[f]?.map (·.modeNumber)).getD 0

/-- File `f` belongs before file `g`: it is of an earlier mode, or an earlier file of the
    same. -/
def Before (made : List DataFile) (f g : FileId) : Prop :=
  modeOf made f < modeOf made g ∨ modeOf made f = modeOf made g ∧ f < g

instance (made : List DataFile) (f g : FileId) : Decidable (Before made f g) :=
  inferInstanceAs (Decidable (_ ∨ _))

theorem modeOf_append {made : List DataFile} {f : FileId} (h : f < made.length)
    (d : DataFile) : modeOf (made ++ [d]) f = modeOf made f := by
  simp [modeOf, List.getElem?_append_left h]

@[simp] theorem modeOf_new (made : List DataFile) (d : DataFile) :
    modeOf (made ++ [d]) made.length = d.modeNumber := by
  simp [modeOf]

theorem modeOf_congr {made made' : List DataFile} (h : origins made' = origins made)
    (f : FileId) : modeOf made' f = modeOf made f := by
  have hf := congrArg (·[f]?) h
  simp only [origins, List.getElem?_map] at hf
  have hnum := congrArg (fun d => (d.map (·.modeNumber)).getD 0) hf
  simpa [modeOf, Option.map_map, Function.comp_def, asMade] using hnum

/-- The files of a mode have its number, the published ones no later one, and all of them
    are in order. -/
structure Ordered (c : TimedContainer) : Prop where
  pending : ∀ m ∈ c.pauseModeStack, ∀ f ∈ m.pendingFiles, modeOf c.made f = m.numModes
  old : ∀ f ∈ c.files, ∀ m ∈ c.pauseModeStack, modeOf c.made f ≤ m.numModes
  sorted : (line c).Pairwise (Before c.made)

theorem mem_deferred {f : FileId} {ms : List TimedMode} :
    f ∈ deferred ms ↔ ∃ m ∈ ms, f ∈ m.pendingFiles := by
  simp [deferred]

theorem Accounted.lt {c : TimedContainer} (h : Accounted c) {f : FileId} (hf : f ∈ line c) :
    f < c.made.length :=
  List.mem_range.mp (h.once.subset hf)

/-- A new file goes in behind those of its mode and of the earlier ones. -/
private theorem sorted_insert {made : List DataFile} {d : DataFile} {a b : List FileId}
    (h : (a ++ b).Pairwise (Before made)) (hlt : ∀ f ∈ a ++ b, f < made.length)
    (ha : ∀ f ∈ a, modeOf made f ≤ d.modeNumber) (hb : ∀ f ∈ b, d.modeNumber < modeOf made f) :
    (a ++ made.length :: b).Pairwise (Before (made ++ [d])) := by
  have hkeep : (a ++ b).Pairwise (Before (made ++ [d])) := by
    refine h.imp_of_mem fun {f g} hf hg hfg => ?_
    simpa only [Before, modeOf_append (hlt f hf), modeOf_append (hlt g hg)] using hfg
  obtain ⟨ha', hb', hab⟩ := List.pairwise_append.mp hkeep
  refine List.pairwise_append.mpr ⟨ha', List.pairwise_cons.mpr ⟨fun g hg => .inl ?_, hb'⟩, ?_⟩
  · rw [modeOf_new, modeOf_append (hlt g (by simp [hg]))]
    exact hb g hg
  · intro f hf g hg
    obtain rfl | hg := List.mem_cons.mp hg
    · have hlt := hlt f (by simp [hf])
      simp only [Before, modeOf_new, modeOf_append hlt]
      exact (Nat.lt_or_eq_of_le (ha f hf)).imp_right fun heq => ⟨heq, hlt⟩
    · exact hab f hf g hg

/-- What a mode makes goes in behind everything of this mode and of the older ones. -/
private theorem Ordered.insert {c : TimedContainer} {pre post : List TimedMode} {m : TimedMode}
    {d : DataFile} (ho : Ordered c) (ha : Accounted c) (hn : Numbered c)
    (hstack : c.pauseModeStack = pre ++ m :: post) (hd : d.modeNumber = m.numModes) :
    (c.files ++ deferred post ++ m.pendingFiles ++ c.made.length :: deferred pre).Pairwise
      (Before (c.made ++ [d])) := by
  obtain ⟨hpre, hpost⟩ := hn.around hstack
  have hline : line c = c.files ++ deferred post ++ m.pendingFiles ++ deferred pre := by
    simp [line, hstack]
  refine sorted_insert (hline ▸ ho.sorted) (fun f hf => ha.lt (hline ▸ hf)) (fun f hf => ?_)
    fun f hf => ?_
  · rw [hd]
    simp only [List.mem_append, mem_deferred] at hf
    obtain (hf | ⟨x, hx, hf⟩) | hf := hf
    · exact ho.old f hf m (by simp [hstack])
    · rw [ho.pending x (by simp [hstack, hx]) f hf]
      exact Nat.le_of_lt (hpost x hx)
    · exact Nat.le_of_eq (ho.pending m (by simp [hstack]) f hf)
  · obtain ⟨x, hx, hf⟩ := mem_deferred.mp hf
    rw [hd, ho.pending x (by simp [hstack, hx]) f hf]
    exact hpre x hx

theorem Ordered.congr {c c' : TimedContainer} {pre post : List TimedMode} {m m' : TimedMode}
    (ho : Ordered c) (hstack : c.pauseModeStack = pre ++ m :: post)
    (hstack' : c'.pauseModeStack = pre ++ m' :: post) (hnum : m'.numModes = m.numModes)
    (hpending : m'.pendingFiles = m.pendingFiles) (hfiles : c'.files = c.files)
    (hmade : origins c'.made = origins c.made) : Ordered c' := by
  have hsame : ∀ f, modeOf c'.made f = modeOf c.made f := modeOf_congr hmade
  have hline : line c' = line c := by
    simp [line, hstack, hstack', hpending, hfiles]
  refine ⟨fun x hx f hf => ?_, fun f hf x hx => ?_, ?_⟩
  · rw [hsame]
    rw [hstack', List.mem_append, List.mem_cons] at hx
    obtain hx | rfl | hx := hx
    · exact ho.pending x (by simp [hstack, hx]) f hf
    · rw [hnum]
      exact ho.pending m (by simp [hstack]) f (hpending ▸ hf)
    · exact ho.pending x (by simp [hstack, hx]) f hf
  · rw [hsame]
    rw [hfiles] at hf
    rw [hstack', List.mem_append, List.mem_cons] at hx
    obtain hx | rfl | hx := hx
    · exact ho.old f hf x (by simp [hstack, hx])
    · exact hnum ▸ ho.old f hf m (by simp [hstack])
    · exact ho.old f hf x (by simp [hstack, hx])
  · rw [hline]
    exact ho.sorted.imp fun {f g} h => by simpa only [Before, hsame] using h

/-- A mode makes a file: it is published at once if the mode is the oldest, and deferred
    otherwise. -/
private theorem Ordered.make {c c' : TimedContainer} {pre post : List TimedMode}
    {m m' : TimedMode} {d : DataFile} (ho : Ordered c) (ha : Accounted c) (hn : Numbered c)
    (hstack : c.pauseModeStack = pre ++ m :: post)
    (hstack' : c'.pauseModeStack = pre ++ m' :: post) (hnum : m'.numModes = m.numModes)
    (hmade : c'.made = c.made ++ [d]) (hd : d.modeNumber = m.numModes)
    (hfiles : ∀ f ∈ c'.files, f ∈ c.files ∨
      post = [] ∧ (f ∈ m.pendingFiles ∨ f = c.made.length))
    (hpending : ∀ f ∈ m'.pendingFiles, f ∈ m.pendingFiles ∨ f = c.made.length)
    (hline : line c' =
      c.files ++ deferred post ++ m.pendingFiles ++ c.made.length :: deferred pre) :
    Ordered c' := by
  obtain ⟨hpre, hpost⟩ := hn.around hstack
  have hmem : ∀ x ∈ c.pauseModeStack, ∀ f ∈ x.pendingFiles, modeOf c'.made f = x.numModes := by
    intro x hx f hf
    have hlt : f < c.made.length :=
      ha.lt (List.mem_append_right _ (mem_deferred.mpr ⟨x, hx, hf⟩))
    rw [hmade, modeOf_append hlt]
    exact ho.pending x hx f hf
  have hm : ∀ f, f ∈ m.pendingFiles ∨ f = c.made.length → modeOf c'.made f = m.numModes := by
    rintro f (hf | rfl)
    · exact hmem m (by simp [hstack]) f hf
    · rw [hmade, modeOf_new, hd]
  refine ⟨fun x hx f hf => ?_, fun f hf x hx => ?_, ?_⟩
  · rw [hstack', List.mem_append, List.mem_cons] at hx
    obtain hx | rfl | hx := hx
    · exact hmem x (by simp [hstack, hx]) f hf
    · exact (hm f (hpending f hf)).trans hnum.symm
    · exact hmem x (by simp [hstack, hx]) f hf
  · rw [hstack', List.mem_append, List.mem_cons] at hx
    obtain hf | ⟨rfl, hf⟩ := hfiles f hf
    · -- it was published before
      rw [hmade, modeOf_append (ha.lt (List.mem_append_left _ hf))]
      obtain hx | rfl | hx := hx
      · exact ho.old f hf x (by simp [hstack, hx])
      · exact hnum ▸ ho.old f hf m (by simp [hstack])
      · exact ho.old f hf x (by simp [hstack, hx])
    · rw [hm f hf]
      obtain hx | rfl | hx := hx
      · exact Nat.le_of_lt (hpre x hx)
      · exact Nat.le_of_eq hnum.symm
      · simp at hx
  · rw [hline, hmade]
    exact ho.insert ha hn hstack hd

/-- The deferred files of the oldest mode are published. -/
private theorem Ordered.drain {c c' : TimedContainer} {pre rest : List TimedMode} {m : TimedMode}
    (ho : Ordered c) (hn : Numbered c) (hstack : c.pauseModeStack = pre ++ [m])
    (hstack' : c'.pauseModeStack = pre ++ rest)
    (hrest : ∀ x ∈ rest, x.numModes = m.numModes ∧ x.pendingFiles = [])
    (hfiles : c'.files = c.files ++ m.pendingFiles) (hmade : origins c'.made = origins c.made) :
    Ordered c' := by
  have hsame : ∀ f, modeOf c'.made f = modeOf c.made f := modeOf_congr hmade
  obtain ⟨hpre, -⟩ := hn.around hstack
  have hdeferred : deferred rest = [] := by
    simpa [deferred] using fun x hx => (hrest x hx).2
  have hline : line c' = line c := by
    simp [line, hstack, hstack', hfiles, hdeferred]
  refine ⟨fun x hx f hf => ?_, fun f hf x hx => ?_, ?_⟩
  · rw [hsame]
    rw [hstack', List.mem_append] at hx
    obtain hx | hx := hx
    · exact ho.pending x (by simp [hstack, hx]) f hf
    · simp [(hrest x hx).2] at hf
  · rw [hsame]
    rw [hfiles, List.mem_append] at hf
    rw [hstack', List.mem_append] at hx
    have hle : m.numModes ≤ x.numModes := by
      obtain hx | hx := hx
      · exact Nat.le_of_lt (hpre x hx)
      · exact Nat.le_of_eq (hrest x hx).1.symm
    obtain hf | hf := hf
    · exact Nat.le_trans (ho.old f hf m (by simp [hstack])) hle
    · exact (ho.pending m (by simp [hstack]) f hf).symm ▸ hle
  · rw [hline]
    exact ho.sorted.imp fun {f g} h => by simpa only [Before, hsame] using h

theorem Move.ordered {c c' : TimedContainer} (h : Move True filesFresh True c c')
    (ha : Accounted c) (hn : Numbered c) (ho : Ordered c) : Ordered c' := by
  cases h with
  | cache => exact ⟨ho.pending, ho.old, ho.sorted⟩
  | adjust stack same _ _ =>
    exact ho.congr stack rfl (hn.same stack same.numModes) same.pendingFiles rfl rfl
  | restart stack => exact ho.congr stack rfl rfl rfl rfl rfl
  | @make pre m m' stack _ same =>
    have hnum := hn.same stack same.numModes
    refine ho.make ha hn stack rfl hnum rfl hnum (fun f hf => ?_) (by simp) (by simp [line, publish])
    simpa [publish] using hf
  | @makeDeferred pre post m m' stack _ _ same =>
    have hnum := hn.same stack same.numModes
    exact ho.make ha hn stack rfl hnum rfl hnum (fun f hf => .inl hf) (by simp) (by simp [line])
  | @endFile pre post m m' f stack _ same _ =>
    exact ho.congr stack rfl (hn.same stack same.numModes) same.pendingFiles (by simp) (by simp)
  | @push m post top stack _ _ pendingFiles numModes =>
    have hnum := numModes trivial
    refine ⟨fun x hx f hf => ?_, fun f hf x hx => ?_, ?_⟩
    · obtain rfl | hx := List.mem_cons.mp hx
      · simp [pendingFiles] at hf
      · exact ho.pending x (stack ▸ hx) f hf
    · obtain rfl | hx := List.mem_cons.mp hx
      · have := ho.old f hf m (by simp [stack])
        show modeOf c.made f ≤ _
        omega
      · exact ho.old f hf x (stack ▸ hx)
    · simpa [line, stack, pendingFiles] using ho.sorted
  | @expire pre post m stack _ oldest =>
    obtain rfl := oldest trivial
    have hrest : ∀ x ∈ ([] : List TimedMode), x.numModes = m.numModes ∧ x.pendingFiles = [] := by
      simp
    exact ho.drain hn stack rfl hrest (by simp) (by simp)
  | flush stack => exact ho.drain hn stack rfl (by simp) rfl rfl

/-! ### No two files with the same numbers -/

/-- What a file is named by. -/
def key (d : DataFile) : Nat × Nat × Nat := (d.modeNumber, d.fileNumber, d.pauseFileNumber)

/-- No file of the mode has numbers after those of the mode. -/
def Used (made : List DataFile) (m : TimedMode) : Prop :=
  ∀ d ∈ made, d.modeNumber = m.numModes →
    d.fileNumber < m.numFiles ∨
      d.fileNumber = m.numFiles ∧ d.pauseFileNumber ≤ m.numPauseFiles

/-- While a mode has a file that is not paused, no pause file has its file number. -/
def Running (made : List DataFile) (m : TimedMode) : Prop :=
  ∀ f ∈ m.file, ∀ d ∈ made[f]?, d.paused = false →
    ∀ e ∈ made, e.modeNumber = m.numModes → e.fileNumber = m.numFiles → e.pauseFileNumber = 0

structure Distinct (c : TimedContainer) : Prop where
  keys : ((origins c.made).map key).Nodup
  used : ∀ m ∈ c.pauseModeStack, Used (origins c.made) m
  running : ∀ m ∈ c.pauseModeStack, Running (origins c.made) m

theorem Running.of_none {made : List DataFile} {m : TimedMode} (h : m.file = none) :
    Running made m := by
  simp [Running, h]

theorem Used.mono {made : List DataFile} {m m' : TimedMode} (h : Used made m)
    (hnum : m'.numModes = m.numModes)
    (hle : m'.numFiles = m.numFiles ∧ m'.numPauseFiles = m.numPauseFiles ∨ NumbersLt m m') :
    Used made m' := by
  intro d hd hmode
  have := h d hd (hmode.trans hnum)
  simp only [NumbersLt] at hle
  omega

/-- A mode is changed, and no file made. -/
private theorem Distinct.replace {c c' : TimedContainer} {pre post : List TimedMode}
    {m m' : TimedMode} (h : Distinct c) (hstack : c.pauseModeStack = pre ++ m :: post)
    (hstack' : c'.pauseModeStack = pre ++ m' :: post) (hmade : origins c'.made = origins c.made)
    (hused : Used (origins c.made) m') (hrunning : Running (origins c.made) m') :
    Distinct c' := by
  refine ⟨hmade ▸ h.keys, fun x hx => ?_, fun x hx => ?_⟩ <;>
    rw [hmade] <;> rw [hstack', List.mem_append, List.mem_cons] at hx
  · obtain hx | rfl | hx := hx
    · exact h.used x (by simp [hstack, hx])
    · exact hused
    · exact h.used x (by simp [hstack, hx])
  · obtain hx | rfl | hx := hx
    · exact h.running x (by simp [hstack, hx])
    · exact hrunning
    · exact h.running x (by simp [hstack, hx])

/-- The files of one mode say nothing about the others. -/
private theorem Distinct.other {c : TimedContainer} {x : TimedMode} {d : DataFile}
    (h : Distinct c) (hw : WellFormed c) (hx : x ∈ c.pauseModeStack)
    (hd : d.modeNumber ≠ x.numModes) :
    Used (origins c.made ++ [d]) x ∧ Running (origins c.made ++ [d]) x := by
  refine ⟨fun e he hmode => ?_, fun f hf e he hpaused e' he' hmode => ?_⟩
  · obtain he | rfl := List.mem_append.mp he |>.imp_right List.mem_singleton.mp
    · exact h.used x hx e he hmode
    · exact absurd hmode hd
  · have hlt := hw.isMade x hx f hf
    rw [List.getElem?_append_left (by simpa using hlt)] at he
    obtain he' | rfl := List.mem_append.mp he' |>.imp_right List.mem_singleton.mp
    · exact h.running x hx f hf e he hpaused e' he' hmode
    · exact absurd hmode hd

/-- A mode makes a file with its next numbers. -/
private theorem Distinct.make {c c' : TimedContainer} {pre post : List TimedMode}
    {m m' m'' : TimedMode} (h : Distinct c) (hw : WellFormed c) (hn : Numbered c)
    (hstack : c.pauseModeStack = pre ++ m :: post)
    (hstack' : c'.pauseModeStack = pre ++ m'' :: post)
    (hmade : c'.made = c.made ++ [record c m m']) (hnum : m'.numModes = m.numModes)
    (hnext : NextFile m m') (hfile : m''.file = some c.made.length)
    (hsame : m''.numModes = m'.numModes ∧ m''.numFiles = m'.numFiles ∧
      m''.numPauseFiles = m'.numPauseFiles) : Distinct c' := by
  obtain ⟨hpre, hpost⟩ := hn.around hstack
  have hm := h.used m (by simp [hstack])
  have hlt := hnext.numbersLt
  have horigins : origins c'.made = origins c.made ++ [record c m m'] := by
    simp [hmade]
  have hother : ∀ x, x ∈ pre ∨ x ∈ post →
      Used (origins c.made ++ [record c m m']) x ∧
        Running (origins c.made ++ [record c m m']) x := by
    intro x hx
    refine h.other hw (by simpa [hstack] using hx.imp_right .inr) ?_
    show m'.numModes ≠ _
    have := hx.imp (hpre x) (hpost x)
    omega
  have hnew : Used (origins c.made ++ [record c m m']) m'' := by
    intro d hd hmode
    obtain hd | rfl := List.mem_append.mp hd |>.imp_right List.mem_singleton.mp
    · have := hm d hd (by omega)
      simp only [NumbersLt] at hlt
      omega
    · refine .inr ⟨hsame.2.1.symm, ?_⟩
      show (if m'.paused then m'.numPauseFiles else 0) ≤ _
      split <;> omega
  have hnewRunning : Running (origins c.made ++ [record c m m']) m'' := by
    intro f hf d hd hpaused e he hmode hnumber
    obtain rfl : c.made.length = f := by simpa [hfile] using hf
    obtain rfl : record c m m' = d := by simpa [List.getElem?_append] using hd
    have hpaused : m'.paused = false := hpaused
    obtain he | rfl := List.mem_append.mp he |>.imp_right List.mem_singleton.mp
    · -- an earlier file of the mode has an earlier number
      have := hm e he (by omega)
      have := hnext.running hpaused
      omega
    · simp [record, hpaused]
  refine ⟨?_, fun x hx => ?_, fun x hx => ?_⟩
  · rw [horigins, List.map_append]
    refine List.nodup_append.mpr ⟨h.keys, by simp, ?_⟩
    rintro k hk k' hk' rfl
    obtain ⟨d, hd, hkey⟩ := List.mem_map.mp hk
    have hkey : key d = key (record c m m') := by simpa using hkey.trans (by simpa using hk')
    simp only [key, record, Prod.mk.injEq] at hkey
    obtain ⟨hmode, hnumber, hpause⟩ := hkey
    have := hm d hd (by omega)
    cases hp : m'.paused with
    | true =>
      have := hnext.paused hp
      simp only [hp, if_true] at hpause
      omega
    | false =>
      have := hnext.running hp
      omega
  · rw [horigins]
    rw [hstack', List.mem_append, List.mem_cons] at hx
    obtain hx | rfl | hx := hx
    · exact (hother x (.inl hx)).1
    · exact hnew
    · exact (hother x (.inr hx)).1
  · rw [horigins]
    rw [hstack', List.mem_append, List.mem_cons] at hx
    obtain hx | rfl | hx := hx
    · exact (hother x (.inl hx)).2
    · exact hnewRunning
    · exact (hother x (.inr hx)).2

theorem Move.distinct {c c' : TimedContainer} (h : Move True True oldestFirst c c')
    (hw : WellFormed c) (hn : Numbered c) (hd : Distinct c) : Distinct c' := by
  cases h with
  | cache => exact ⟨hd.keys, hd.used, hd.running⟩
  | @adjust pre post m m' stack same _ numbers =>
    have hnum := hn.same stack same.numModes
    refine hd.replace stack rfl rfl ((hd.used m (by simp [stack])).mono hnum ?_) ?_
    · exact (numbers trivial).imp_right fun h => h.2
    · obtain ⟨hfiles, -⟩ | ⟨hnone, -⟩ := numbers trivial
      · intro f hf d hd' hpaused e he hmode hnumber
        exact hd.running m (by simp [stack]) f (same.file ▸ hf) d hd' hpaused e he
          (hmode.trans hnum) (hnumber.trans hfiles)
      · exact .of_none (same.file.trans hnone)
  | @restart pre post m f d stack file made running =>
    have hm := hd.running m (by simp [stack])
    have hmade : (origins c.made)[f]? = some (asMade d) := by
      simp [origins, made]
    refine hd.replace stack rfl rfl (fun e he hmode => ?_) hm
    -- the files that have the number of the running one are not pause files
    have hzero := hm f (by simp [file]) (asMade d) (by simp [hmade]) running e he hmode
    have := hd.used m (by simp [stack]) e he hmode
    show e.fileNumber < m.numFiles ∨ e.fileNumber = m.numFiles ∧ e.pauseFileNumber ≤ 0
    omega
  | @make pre m m' stack _ same numbers =>
    exact hd.make hw hn stack rfl rfl (hn.same stack same.numModes) (numbers trivial) rfl
      ⟨rfl, rfl, rfl⟩
  | @makeDeferred pre post m m' stack _ _ same numbers =>
    exact hd.make hw hn stack rfl rfl (hn.same stack same.numModes) (numbers trivial) rfl
      ⟨rfl, rfl, rfl⟩
  | @endFile pre post m m' f stack _ same numbers =>
    exact hd.replace stack rfl (by simp)
      ((hd.used m (by simp [stack])).mono (hn.same stack same.numModes) (.inl numbers))
      (.of_none same.file)
  | @push m post top stack _ file _ numModes =>
    have hnum := numModes trivial
    refine ⟨hd.keys, fun x hx => ?_, fun x hx => ?_⟩
    · obtain rfl | hx := List.mem_cons.mp hx
      · intro d hmem hmode
        have := hn.top m.numModes (by simp [stack]) d hmem
        omega
      · exact hd.used x (stack ▸ hx)
    · obtain rfl | hx := List.mem_cons.mp hx
      · exact .of_none file
      · exact hd.running x (stack ▸ hx)
  | @expire pre post m stack =>
    have hsub : pre ++ post ⊆ c.pauseModeStack := by simp [stack]
    refine ⟨by simpa using hd.keys, fun x hx => ?_, fun x hx => ?_⟩
    · simpa using hd.used x (hsub hx)
    · simpa using hd.running x (hsub hx)
  | @flush pre m stack =>
    have hm : m ∈ c.pauseModeStack := by simp [stack]
    exact hd.replace stack rfl rfl (hd.used m hm) (hd.running m hm)

/-! ### The first file -/

/-- The container after its start, with its first file or without one. -/
theorem start_eq (runNumber : Nat) (minTime : Timespec) (paused opens : Bool) :
    start runNumber minTime paused opens =
      let first : TimedMode :=
        ⟨0, none, [], false, minTime, ⟨0, 0⟩, 1, 1, if paused then 1 else 0, paused⟩
      let made : TimedContainer := { create runNumber minTime with
        pauseModeStack := [{ first with file := some 0 }]
        made := [⟨1, 1, if paused then 1 else 0, paused,
          if runNumber = 0 then .noRun else .newRun, none⟩]
        files := [0], signalled := [0] }
      if opens then made else { create runNumber minTime with pauseModeStack := [first] } := by
  cases paused <;> cases opens <;>
    simp [start, create, newFile, modeAt, setMode, isOldest, publish, nextNumbers, increment,
      openingStatus]

theorem start_wellFormed (runNumber : Nat) (minTime : Timespec) (paused opens : Bool) :
    WellFormed (start runNumber minTime paused opens) := by
  rw [start_eq]
  cases opens <;> exact ⟨by simp, by simp [create], by simp⟩

theorem start_numbered (runNumber : Nat) (minTime : Timespec) (paused opens : Bool) :
    Numbered (start runNumber minTime paused opens) := by
  rw [start_eq]
  cases opens <;> exact ⟨by simp, by simp, by simp [origins, asMade, create]⟩

theorem start_accounted (runNumber : Nat) (minTime : Timespec) (paused opens : Bool) :
    Accounted (start runNumber minTime paused opens) := by
  rw [start_eq]
  cases opens <;> exact ⟨rfl, by simp [line, create]⟩

theorem start_ordered (runNumber : Nat) (minTime : Timespec) (paused opens : Bool) :
    Ordered (start runNumber minTime paused opens) := by
  rw [start_eq]
  cases opens <;> exact ⟨by simp, by simp [modeOf, create], by simp [line, create]⟩

theorem start_distinct (runNumber : Nat) (minTime : Timespec) (paused opens : Bool) :
    Distinct (start runNumber minTime paused opens) := by
  rw [start_eq]
  cases opens <;> cases paused <;>
    exact ⟨by simp [origins, create], by simp [Used, origins, asMade, create],
      by simp [Running, origins, asMade, create]⟩

/-! ### The last file -/

theorem closeModes_files (c : TimedContainer) (ms : List TimedMode) :
    (c.closeModes ms).files = c.files ++ deferred ms := by
  induction ms with
  | nil => simp [closeModes]
  | cons m ms ih =>
    simp only [closeModes, List.foldr_cons, closeMode_files] at ih ⊢
    simp [ih]

theorem closeModes_signalled (c : TimedContainer) (ms : List TimedMode) :
    (c.closeModes ms).signalled = c.signalled ++ deferred ms := by
  induction ms with
  | nil => simp [closeModes]
  | cons m ms ih =>
    simp only [closeModes, List.foldr_cons, closeMode_signalled] at ih ⊢
    simp [ih]

@[simp] theorem origins_closeModes (c : TimedContainer) (ms : List TimedMode) :
    origins (c.closeModes ms).made = origins c.made := by
  induction ms with
  | nil => rfl
  | cons m ms ih =>
    simp only [closeModes, List.foldr_cons, origins_closeMode] at ih ⊢
    exact ih

/-- At the end every deferred file is published, in the order of the line. -/
theorem terminate_files (c : TimedContainer) : c.terminate.files = line c := by
  unfold terminate
  split
  · rename_i h
    simp [line, h]
  · rename_i m older h
    simp [line, h, resetLastTs, closeModes_files]

theorem terminate_signalled (c : TimedContainer) :
    c.terminate.signalled = c.signalled ++ deferred c.pauseModeStack := by
  unfold terminate
  split
  · rename_i h
    simp [h]
  · rename_i m older h
    simp [h, resetLastTs, closeModes_signalled]

@[simp] theorem origins_terminate (c : TimedContainer) :
    origins c.terminate.made = origins c.made := by
  unfold terminate
  split
  · rfl
  · simp [resetLastTs]

/-! ### A whole run -/

/-- Every file is on the file list and was signalled once, in the order of the modes, and no
    two have the same numbers. -/
structure Published (c : TimedContainer) : Prop where
  once : c.files.Perm (List.range c.made.length)
  signalled : c.signalled = c.files
  ordered : c.files.Pairwise (Before c.made)
  distinct : (c.made.map key).Nodup

/-- What the moves preserve about the files. -/
structure Filed (c : TimedContainer) : Prop where
  wellFormed : WellFormed c
  accounted : Accounted c
  numbered : Numbered c
  ordered : Ordered c
  distinct : Distinct c

theorem Move.filed {c c' : TimedContainer} (h : Move True True True c c') (hc : Filed c) :
    Filed c' where
  wellFormed := h.wellFormed hc.wellFormed
  accounted := h.accounted hc.accounted
  numbered := h.numbered hc.numbered
  ordered := h.ordered hc.accounted hc.numbered hc.ordered
  distinct := h.distinct hc.wellFormed hc.numbered hc.distinct

/-- At a call no number wraps, and the pause modes that expire do so oldest first. -/
def InOrder (c : TimedContainer) (a : TimedContainer.Call) : Prop :=
  ModesFresh c a ∧ FilesFresh c a ∧ OldestFirst c a

instance (c : TimedContainer) (a : TimedContainer.Call) : Decidable (InOrder c a) :=
  inferInstanceAs (Decidable (_ ∧ _))

theorem step_filed {c c' : TimedContainer} {a : TimedContainer.Call} (hc : Filed c) (hok : InOrder c a)
    (h : step c a = some c') : Filed c' := by
  obtain ⟨hmodes, hfiles, hfirst⟩ := hok
  have hmoves : Moves True True True c c' :=
    step_moves hc.wellFormed h (fun _ => hmodes) (fun _ => hfiles) (fun _ => hfirst)
  exact hmoves.preserves _ _ _ Move.filed hc

theorem Filed.published {c : TimedContainer} (h : Filed c) : Published c.terminate := by
  have hlength : c.terminate.made.length = c.made.length := by
    simpa only [length_origins] using congrArg List.length (origins_terminate c)
  have hkeys : ∀ made : List DataFile, (origins made).map key = made.map key := by
    intro made
    simp [origins, key, asMade, Function.comp_def]
  refine ⟨?_, ?_, ?_, ?_⟩
  · rw [terminate_files, hlength]
    exact h.accounted.once
  · rw [terminate_files, terminate_signalled, h.accounted.signalled, line]
  · rw [terminate_files]
    refine h.ordered.sorted.imp fun {f g} hfg => ?_
    simpa only [Before, modeOf_congr (origins_terminate c)] using hfg
  · rw [← hkeys, origins_terminate]
    exact h.distinct.keys

/-- Where the pause modes expire oldest first and no number wraps, every data file of a
    container is published once and in order, and no two have the same numbers. -/
theorem published_of_run {runNumber : Nat} {minTime : Timespec} {paused opens : Bool}
    {calls : List TimedContainer.Call} {c : TimedContainer}
    (hok : Runs.along step InOrder (start runNumber minTime paused opens) calls)
    (h : Runs.run step (start runNumber minTime paused opens) calls = some c) :
    Published c.terminate := by
  have hstart : Filed (start runNumber minTime paused opens) :=
    ⟨start_wellFormed .., start_accounted .., start_numbered .., start_ordered ..,
      start_distinct ..⟩
  exact (Runs.invariant_along (fun _ _ _ => step_filed) hstart hok h).published

/-- A run with a pause: the older mode gets one more file and then expires. -/
theorem published_of_run_pause :
    ∃ c, Runs.run step (start 1 ⟨100, 0⟩ false true)
        [.pause ⟨200, 0⟩ ⟨true, true⟩, .write 0 ⟨true, true, [true]⟩,
          .resume ⟨300, 0⟩ ⟨true, true⟩, .getPauseModeByTime false ⟨350, 0⟩ true ⟨320, 0⟩ ⟨60, 0⟩,
          .write 2 ⟨true, true, []⟩] = some c ∧
      Published c.terminate ∧ c.terminate.files = [0, 2, 3, 1, 4, 5] := by
  have hok : Runs.along step InOrder (start 1 ⟨100, 0⟩ false true)
      [.pause ⟨200, 0⟩ ⟨true, true⟩, .write 0 ⟨true, true, [true]⟩,
        .resume ⟨300, 0⟩ ⟨true, true⟩, .getPauseModeByTime false ⟨350, 0⟩ true ⟨320, 0⟩ ⟨60, 0⟩,
        .write 2 ⟨true, true, []⟩] := by
    decide
  exact ⟨_, rfl, published_of_run hok rfl, by decide⟩

/-- A run is paused and then resumed at a time before the pause.  The pause mode expires
    first, and a file that the oldest mode makes afterwards comes after its files. -/
theorem not_published_backwards :
    ∃ c, Runs.run step (start 1 ⟨100, 0⟩ false true)
        [.pause ⟨200, 0⟩ ⟨true, true⟩, .resume ⟨120, 0⟩ ⟨true, true⟩,
          .getPauseModeByTime false ⟨190, 0⟩ true ⟨180, 0⟩ ⟨60, 0⟩,
          .getPauseModeByTime false ⟨110, 0⟩ true ⟨180, 0⟩ ⟨60, 0⟩,
          .write 0 ⟨true, true, []⟩] = some c ∧
      ¬ Published c.terminate ∧ c.terminate.files = [0, 1, 3, 2] ∧
      c.terminate.made.map (·.modeNumber) = [1, 2, 3, 1] := by
  refine ⟨_, rfl, fun h => ?_, by decide, by decide⟩
  exact absurd h.ordered (by decide)

end Adara.Spec.TimedContainer
