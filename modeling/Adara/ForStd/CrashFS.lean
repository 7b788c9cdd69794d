import Mathlib.Data.List.Infix
import Mathlib.Logic.Function.Basic

/-! # A directory that may crash

One directory with its files.  What is written to a file or changed in the directory is seen at
once, but until it is synced a crash may leave an earlier state of it.  So a file has, beside its
text, the texts that a crash may leave instead, and the file system has the directories that a
crash may leave instead of the current one.

`Guarded` is the invariant of a file that is only replaced by the rename of a temporary. -/

namespace CrashFS

/-- A file, which a name may stand for. -/
structure Node (α : Type*) where
  text : List α
  /-- What else a crash may leave. -/
  lost : List (List α)

namespace Node

variable {α : Type*} (node : Node α)

/-- Everything a crash may leave. -/
def options : List (List α) := node.text :: node.lost

def truncate : Node α := ⟨[], node.options⟩

/-- Some of what is appended may be lost, from its end. -/
def append (text : List α) : Node α :=
  ⟨node.text ++ text, text.inits.map (node.text ++ ·) ++ node.lost⟩

def sync : Node α := ⟨node.text, []⟩

end Node

/-- The names of a directory. -/
abbrev Dir (ν : Type*) := ν → Option Nat

structure FS (ν α : Type*) where
  nodes : List (Node α)
  dir : Dir ν
  /-- What else a crash may leave. -/
  lostDirs : List (Dir ν)

namespace FS

variable {ν α : Type*} (fs : FS ν α)

/-- Every directory a crash may leave. -/
def dirs : List (Dir ν) := fs.dir :: fs.lostDirs

/-- What is read under a name. -/
def read (name : ν) : Option (List α) :=
  (fs.dir name).bind fun i => (fs.nodes[i]?).map (·.text)

def setNode (i : Nat) (f : Node α → Node α) : FS ν α := { fs with nodes := fs.nodes.modify i f }

/-- A change of the directory, each of which may be lost. -/
def edit (f : Dir ν → Dir ν) : FS ν α :=
  { fs with dir := f fs.dir, lostDirs := fs.dirs ++ fs.lostDirs.map f }

/-- The file is made if there is none, and emptied. -/
def openTrunc [DecidableEq ν] (name : ν) : FS ν α × Nat :=
  match fs.dir name with
  | some i => (fs.setNode i Node.truncate, i)
  | none =>
    let fs' : FS ν α := { fs with nodes := fs.nodes ++ [⟨[], []⟩] }
    (fs'.edit (Function.update · name (some fs.nodes.length)), fs.nodes.length)

def write (i : Nat) (text : List α) : FS ν α := fs.setNode i (·.append text)

def fsync (i : Nat) : FS ν α := fs.setNode i Node.sync

def rename [DecidableEq ν] (a b : ν) : FS ν α :=
  match fs.dir a with
  | none => fs
  | some i => fs.edit fun d => Function.update (Function.update d b (some i)) a none

def unlink [DecidableEq ν] (name : ν) : FS ν α := fs.edit (Function.update · name none)

def syncDir : FS ν α := { fs with lostDirs := [] }

/-- A crash leaves one of the directories, and of each file one of its texts. -/
def crash (k : Nat) (choose : Nat → Nat) : Option (FS ν α) :=
  (fs.dirs[k]?).map fun dir =>
    ⟨fs.nodes.mapIdx fun i node => ⟨((node.options)[choose i]?).getD node.text, []⟩, dir, []⟩

end FS

variable {ν α : Type*} {fs : FS ν α} {P : List α → Prop} {a b : ν}

/-- Whatever a crash leaves, there is a file under the name `a`, and its text has the property.
    The temporary has the name `b`: it is never the same file, and no crash makes it so. -/
structure Guarded (P : List α → Prop) (a b : ν) (fs : FS ν α) : Prop where
  main : ∀ d ∈ fs.dirs, ∃ i node, d a = some i ∧ fs.nodes[i]? = some node ∧
    ∀ text ∈ node.options, P text
  apart : ∀ d ∈ fs.dirs, ∀ i, d b = some i → d a ≠ some i
  current : ∀ i, fs.dir b = some i → ∀ d ∈ fs.dirs, d a ≠ some i
  bound : ∀ d ∈ fs.dirs, ∀ i, d b = some i → i < fs.nodes.length

theorem Guarded.read (h : Guarded P a b fs) : ∃ text, fs.read a = some text ∧ P text := by
  obtain ⟨i, node, hdir, hnode, hP⟩ := h.main fs.dir List.mem_cons_self
  exact ⟨node.text, by simp [FS.read, hdir, hnode], hP _ List.mem_cons_self⟩

/-- The temporary may be written in any way. -/
theorem Guarded.setNode (h : Guarded P a b fs) {i : Nat} (hi : fs.dir b = some i)
    (f : Node α → Node α) : Guarded P a b (fs.setNode i f) := by
  refine ⟨fun d hd => ?_, h.apart, h.current, fun d hd j hj => ?_⟩
  · obtain ⟨j, node, hdir, hnode, hP⟩ := h.main d hd
    have hne : i ≠ j := fun heq => h.current i hi d hd (heq ▸ hdir)
    exact ⟨j, node, hdir, by simp [FS.setNode, hne, hnode], hP⟩
  · simpa [FS.setNode] using h.bound d hd j hj

/-- The directories after an edit are those before, and these with the change. -/
theorem mem_dirs_edit {f : Dir ν → Dir ν} {d : Dir ν} :
    d ∈ (fs.edit f).dirs ↔ d ∈ fs.dirs ∨ ∃ d' ∈ fs.dirs, f d' = d := by
  simp only [FS.dirs, FS.edit, List.mem_cons, List.mem_append, List.mem_map]
  constructor
  · rintro (rfl | (rfl | hd) | ⟨d', hd', rfl⟩)
    · exact .inr ⟨_, .inl rfl, rfl⟩
    · exact .inl (.inl rfl)
    · exact .inl (.inr hd)
    · exact .inr ⟨d', .inr hd', rfl⟩
  · rintro ((rfl | hd) | ⟨d', rfl | hd', rfl⟩)
    · exact .inr (.inl (.inl rfl))
    · exact .inr (.inl (.inr hd))
    · exact .inl rfl
    · exact .inr (.inr ⟨d', hd', rfl⟩)

theorem Guarded.unlink [DecidableEq ν] (h : Guarded P a b fs) (hne : a ≠ b) :
    Guarded P a b (fs.unlink b) := by
  refine ⟨fun d hd => ?_, fun d hd i hi => ?_, fun i hi => ?_, fun d hd i hi => ?_⟩
  · obtain hd | ⟨d', hd', rfl⟩ := mem_dirs_edit.mp hd
    · exact h.main d hd
    · obtain ⟨i, node, hdir, hnode, hP⟩ := h.main d' hd'
      exact ⟨i, node, by simpa [hne] using hdir, hnode, hP⟩
  · obtain hd | ⟨d', hd', rfl⟩ := mem_dirs_edit.mp hd
    · exact h.apart d hd i hi
    · simp at hi
  · simp [FS.unlink, FS.edit] at hi
  · obtain hd | ⟨d', hd', rfl⟩ := mem_dirs_edit.mp hd
    · exact h.bound d hd i hi
    · simp at hi

theorem Guarded.openTrunc [DecidableEq ν] (h : Guarded P a b fs) (hne : a ≠ b) :
    Guarded P a b (fs.openTrunc b).1 ∧ (fs.openTrunc b).1.dir b = some (fs.openTrunc b).2 ∧
      ∃ node, (fs.openTrunc b).1.nodes[(fs.openTrunc b).2]? = some node ∧ node.text = [] := by
  unfold FS.openTrunc
  cases hdir : fs.dir b with
  | some i =>
    obtain hlt := h.bound fs.dir List.mem_cons_self i hdir
    refine ⟨h.setNode hdir _, hdir, fs.nodes[i].truncate, ?_, rfl⟩
    simp [FS.setNode, List.getElem?_eq_getElem hlt]
  | none =>
    -- the new file is none of the others
    have hnode : ∀ d ∈ fs.dirs, ∃ i node, d a = some i ∧ i < fs.nodes.length ∧
        (fs.nodes ++ [⟨[], []⟩])[i]? = some node ∧ ∀ text ∈ node.options, P text := by
      intro d hd
      obtain ⟨i, node, hda, hnode, hP⟩ := h.main d hd
      have hlt : i < fs.nodes.length := (List.getElem?_eq_some_iff.mp hnode).1
      exact ⟨i, node, hda, hlt, by rw [List.getElem?_append_left hlt, hnode], hP⟩
    refine ⟨⟨fun d hd => ?_, fun d hd i hi => ?_, fun i hi d hd => ?_, fun d hd i hi => ?_⟩, ?_, ?_⟩
    · obtain hd | ⟨d', hd', rfl⟩ := mem_dirs_edit.mp hd
      · obtain ⟨i, node, hda, -, hnode, hP⟩ := hnode d hd
        exact ⟨i, node, hda, hnode, hP⟩
      · obtain ⟨i, node, hda, -, hnode, hP⟩ := hnode d' hd'
        exact ⟨i, node, by simpa [hne] using hda, hnode, hP⟩
    · obtain hd | ⟨d', hd', rfl⟩ := mem_dirs_edit.mp hd
      · exact h.apart d hd i hi
      · obtain ⟨j, -, hda, hlt, -⟩ := hnode d' hd'
        have hi : fs.nodes.length = i := by simpa using hi
        simp only [ne_eq, hne, not_false_eq_true, Function.update_of_ne, hda, Option.some.injEq]
        omega
    · have hi : fs.nodes.length = i := by simpa [FS.edit] using hi
      obtain hd | ⟨d', hd', rfl⟩ := mem_dirs_edit.mp hd
      · obtain ⟨j, -, hda, hlt, -⟩ := hnode d hd
        rw [hda, ne_eq, Option.some.injEq]
        omega
      · obtain ⟨j, -, hda, hlt, -⟩ := hnode d' hd'
        simp only [ne_eq, hne, not_false_eq_true, Function.update_of_ne, hda, Option.some.injEq]
        omega
    · simp only [FS.edit, List.length_append, List.length_singleton]
      obtain hd | ⟨d', hd', rfl⟩ := mem_dirs_edit.mp hd
      · have := h.bound d hd i hi
        omega
      · have hi : fs.nodes.length = i := by simpa using hi
        omega
    · simp [FS.edit]
    · exact ⟨⟨[], []⟩, by simp [FS.edit], rfl⟩

/-- The temporary may take the place of the file once it has the property and is synced. -/
theorem Guarded.rename [DecidableEq ν] (h : Guarded P a b fs) (hne : a ≠ b) {i : Nat} {node : Node α}
    (hi : fs.dir b = some i) (hnode : fs.nodes[i]? = some node)
    (hP : ∀ text ∈ node.options, P text) :
    Guarded P a b (fs.rename b a) ∧ (fs.rename b a).dir a = some i ∧
      (fs.rename b a).nodes = fs.nodes := by
  have heq : fs.rename b a =
      fs.edit fun d => Function.update (Function.update d a (some i)) b none := by
    simp [FS.rename, hi]
  rw [heq]
  refine ⟨⟨fun d hd => ?_, fun d hd j hj => ?_, fun j hj => ?_, fun d hd j hj => ?_⟩, ?_, rfl⟩
  · obtain hd | ⟨d', hd', rfl⟩ := mem_dirs_edit.mp hd
    · exact h.main d hd
    · exact ⟨i, node, by simp [hne], hnode, hP⟩
  · obtain hd | ⟨d', hd', rfl⟩ := mem_dirs_edit.mp hd
    · exact h.apart d hd j hj
    · simp at hj
  · simp [FS.edit] at hj
  · obtain hd | ⟨d', hd', rfl⟩ := mem_dirs_edit.mp hd
    · exact h.bound d hd j hj
    · simp at hj
  · simp [FS.edit, hne]

/-- Once the directory is synced, only the current file matters. -/
theorem Guarded.syncDir {Q : List α → Prop} (h : Guarded P a b fs) {i : Nat} {node : Node α}
    (hi : fs.dir a = some i) (hnode : fs.nodes[i]? = some node)
    (hQ : ∀ text ∈ node.options, Q text) : Guarded Q a b fs.syncDir := by
  have hdirs : ∀ {d}, d ∈ fs.syncDir.dirs → d = fs.dir := by
    intro d hd
    simpa [FS.syncDir, FS.dirs] using hd
  refine ⟨fun d hd => ?_, fun d hd => ?_, fun j hj d hd => ?_, fun d hd => ?_⟩
  · rw [hdirs hd]
    exact ⟨i, node, hi, hnode, hQ⟩
  · rw [hdirs hd]
    exact h.apart fs.dir List.mem_cons_self
  · rw [hdirs hd]
    exact h.apart fs.dir List.mem_cons_self j hj
  · rw [hdirs hd]
    exact h.bound fs.dir List.mem_cons_self

theorem Guarded.crash (h : Guarded P a b fs) {k : Nat} {choose : Nat → Nat} {fs' : FS ν α}
    (hcrash : fs.crash k choose = some fs') : Guarded P a b fs' := by
  obtain ⟨dir, hdir, rfl⟩ := Option.map_eq_some_iff.mp hcrash
  have hmem : dir ∈ fs.dirs := List.mem_of_getElem? hdir
  refine ⟨fun d hd => ?_, fun d hd => ?_, fun j hj d hd => ?_, fun d hd j hj => ?_⟩
  all_goals obtain rfl := List.mem_singleton.mp hd
  · obtain ⟨i, node, hda, hnode, hP⟩ := h.main d hmem
    refine ⟨i, _, hda, by rw [List.getElem?_mapIdx, hnode]; rfl, fun text htext => ?_⟩
    -- what is left of the file is one of its texts
    obtain rfl : text = ((node.options)[choose i]?).getD node.text := by
      simpa [Node.options] using htext
    cases hopt : (node.options)[choose i]? with
    | none => exact hP _ List.mem_cons_self
    | some text => exact hP _ (List.mem_of_getElem? hopt)
  · exact h.apart d hmem
  · exact h.apart d hmem j hj
  · simpa using h.bound d hmem j hj

end CrashFS
