import Mathlib.Data.List.Nodup
import Adara.Native.StorageContainer

/-! # The files of a container

Every file a container has made is on its file list, deferred in one of its pause modes,
or about to be announced by the call under way.  Only active files are written to or
terminated, and each is terminated once.  Once the container is inactive its pause modes
are gone, and the files still to be announced are announced before the last file is
terminated. -/

namespace Adara.Spec.StorageContainer

open Adara.Native Adara.Native.StorageContainer

/-- The files deferred in some pause mode. -/
def deferred (ms : List PauseMode) : List FileId := ms.flatMap (·.pendingFiles)

/-- The files that are written to. -/
def openFiles (ms : List PauseMode) : List FileId := ms.filterMap (·.file)

/-- The files that are still to be announced. -/
def announced (todo : List Action) : List FileId :=
  todo.filterMap fun
    | .added f => some f
    | _ => none

/-- The file an action writes to. -/
def target : Action → Option FileId
  | .append f _ => some f
  | .terminate f => some f
  | _ => none

/-- No announcement comes after another action. -/
def AddedFirst (todo : List Action) : Prop :=
  todo.Pairwise fun a b => ∀ f, b = .added f → ∃ g, a = .added g

structure Inv (c : StorageContainer) (todo : List Action) : Prop where
  created : ∀ f, f < c.created ↔
    f ∈ c.files ∨ f ∈ deferred c.pauseModeStack ∨ f ∈ announced todo
  nodup : (openFiles c.pauseModeStack).Nodup
  isOpen : ∀ f ∈ openFiles c.pauseModeStack,
    (c.store f).active ∧ f < c.created ∧ .terminate f ∉ todo
  targets : ∀ a ∈ todo, ∀ f, target a = some f → (c.store f).active ∧ f < c.created
  once : todo.Pairwise fun a b => ∀ f, a = .terminate f → target b ≠ some f
  running : c.pauseModeStack ≠ [] → c.active ∧ .inactive ∉ todo
  ended : c.active = false → AddedFirst todo
  ending : ∀ post, .inactive :: post <:+ todo → AddedFirst post

/-! ### Lists of modes and of actions -/

@[simp] theorem deferred_append (ms ms' : List PauseMode) :
    deferred (ms ++ ms') = deferred ms ++ deferred ms' := List.flatMap_append

@[simp] theorem deferred_cons (m : PauseMode) (ms : List PauseMode) :
    deferred (m :: ms) = m.pendingFiles ++ deferred ms := List.flatMap_cons

@[simp] theorem deferred_nil : deferred [] = [] := rfl

@[simp] theorem openFiles_append (ms ms' : List PauseMode) :
    openFiles (ms ++ ms') = openFiles ms ++ openFiles ms' := List.filterMap_append

@[simp] theorem openFiles_cons (m : PauseMode) (ms : List PauseMode) :
    openFiles (m :: ms) = m.file.toList ++ openFiles ms := by
  unfold openFiles
  rw [List.filterMap_cons]
  cases m.file <;> rfl

@[simp] theorem openFiles_nil : openFiles [] = [] := rfl

@[simp] theorem announced_append (as bs : List Action) :
    announced (as ++ bs) = announced as ++ announced bs := List.filterMap_append

@[simp] theorem announced_map_added (fs : List FileId) :
    announced (fs.map .added) = fs := by
  induction fs with
  | nil => rfl
  | cons f fs ih => exact congrArg (f :: ·) ih

@[simp] theorem announced_map_terminate (fs : List FileId) :
    announced (fs.map .terminate) = [] := by
  induction fs with
  | nil => rfl
  | cons f fs ih => exact ih

/-! ### The parts of a call -/

/-- A part of a call that neither makes nor terminates a file: some deferred files are
    announced, or an open file is written to. -/
theorem Inv.extend {c : StorageContainer} {todo acts : List Action} {ms : List PauseMode}
    (h : Inv c todo) (hne : c.pauseModeStack ≠ [])
    (hdef : ∀ f, f ∈ deferred ms ∨ f ∈ announced acts ↔ f ∈ deferred c.pauseModeStack)
    (hopen : openFiles ms = openFiles c.pauseModeStack)
    (hacts : ∀ a ∈ acts, (∃ f, a = .added f) ∨ (∃ f, a = .notify f) ∨
      ∃ f bs, a = .append f bs ∧ f ∈ openFiles c.pauseModeStack) :
    Inv { c with pauseModeStack := ms } (todo ++ acts) := by
  obtain ⟨hactive, hno⟩ := h.running hne
  -- no file is terminated by these actions, nor is the container made inactive
  have hterm : ∀ f, Action.terminate f ∉ acts := by grind
  have hin : Action.inactive ∉ acts := by grind
  refine ⟨?_, ?_, ?_, ?_, ?_, ?_, ?_, ?_⟩
  · intro f
    rw [h.created, announced_append, List.mem_append, ← hdef]
    show _ ↔ f ∈ c.files ∨ f ∈ deferred ms ∨ _
    grind
  · show (openFiles ms).Nodup
    rw [hopen]
    exact h.nodup
  · show ∀ f ∈ openFiles ms, _
    rw [hopen]
    intro f hf
    obtain ⟨ha, hlt, ht⟩ := h.isOpen f hf
    exact ⟨ha, hlt, fun hm => (List.mem_append.mp hm).elim ht (hterm f)⟩
  · intro a ha f hf
    obtain ha | ha := List.mem_append.mp ha
    · exact h.targets a ha f hf
    · obtain ⟨_, rfl⟩ | ⟨_, rfl⟩ | ⟨g, bs, rfl, hg⟩ := hacts a ha
      · cases hf
      · cases hf
      · cases hf
        obtain ⟨hact, hlt, -⟩ := h.isOpen _ hg
        exact ⟨hact, hlt⟩
  · refine List.pairwise_append.mpr ⟨h.once, ?_, ?_⟩
    · exact List.pairwise_of_forall_mem_list fun a ha b _ f hf => absurd ha (hf ▸ hterm f)
    · intro a ha b hb f hf htarget
      obtain ⟨_, rfl⟩ | ⟨_, rfl⟩ | ⟨g, bs, rfl, hg⟩ := hacts b hb
      · cases htarget
      · cases htarget
      · cases htarget
        exact (h.isOpen _ hg).2.2 (hf ▸ ha)
  · intro _
    exact ⟨hactive, fun hm => (List.mem_append.mp hm).elim hno hin⟩
  · intro hinactive
    exact absurd (hactive.symm.trans hinactive) (by decide)
  · intro post hpost
    have := (List.mem_append.mp (hpost.subset List.mem_cons_self)).elim hno hin
    exact this.elim

/-- A part of a call that terminates an open file, and takes it from its mode. -/
theorem Inv.close {c : StorageContainer} {todo : List Action} {ms : List PauseMode}
    {f : FileId} (o₁ o₂ : List FileId) (h : Inv c todo) (hne : c.pauseModeStack ≠ [])
    (hdef : deferred ms = deferred c.pauseModeStack)
    (hold : openFiles c.pauseModeStack = o₁ ++ f :: o₂) (hopen : openFiles ms = o₁ ++ o₂) :
    Inv { c with pauseModeStack := ms } (todo ++ [.terminate f]) := by
  obtain ⟨hactive, hno⟩ := h.running hne
  have hnodup := h.nodup
  rw [hold] at hnodup
  -- a file is open in one mode only, so it is open in none once it is taken away
  have hf : f ∉ o₁ ++ o₂ := (List.nodup_middle.mp hnodup).notMem
  obtain ⟨hact, hlt, hterm⟩ := h.isOpen f (by rw [hold]; simp)
  refine ⟨?_, ?_, ?_, ?_, ?_, ?_, ?_, ?_⟩
  · intro g
    rw [h.created, announced_append]
    show _ ↔ g ∈ c.files ∨ g ∈ deferred ms ∨ _
    rw [hdef]
    simp [announced]
  · show (openFiles ms).Nodup
    rw [hopen]
    exact (List.nodup_middle.mp hnodup).of_cons
  · show ∀ g ∈ openFiles ms, _
    rw [hopen]
    intro g hg
    obtain ⟨hact', hlt', hterm'⟩ := h.isOpen g (by rw [hold]; grind)
    refine ⟨hact', hlt', fun hm => ?_⟩
    obtain hm | hm := List.mem_append.mp hm
    · exact hterm' hm
    · cases List.mem_singleton.mp hm
      exact hf hg
  · intro a ha g hg
    obtain ha | ha := List.mem_append.mp ha
    · exact h.targets a ha g hg
    · cases List.mem_singleton.mp ha
      cases hg
      exact ⟨hact, hlt⟩
  · refine List.pairwise_append.mpr ⟨h.once, List.pairwise_singleton _ _, ?_⟩
    intro a ha b hb g hg htarget
    cases List.mem_singleton.mp hb
    cases htarget
    -- it had not been terminated before: an open file is not
    exact hterm (hg ▸ ha)
  · intro _
    refine ⟨hactive, fun hm => ?_⟩
    obtain hm | hm := List.mem_append.mp hm
    · exact hno hm
    · exact nomatch List.mem_singleton.mp hm
  · intro hinactive
    exact absurd (hactive.symm.trans hinactive) (by decide)
  · intro post hpost
    obtain hm | hm := List.mem_append.mp (hpost.subset List.mem_cons_self)
    · exact absurd hm hno
    · exact nomatch List.mem_singleton.mp hm

/-- A part of a call that makes a file. -/
theorem Inv.make {c : StorageContainer} {todo acts : List Action} {ms : List PauseMode}
    {file : StorageFile} {o₁ o₂ : List FileId} (h : Inv c todo) (hne : c.pauseModeStack ≠ [])
    (hfile : file.active = true)
    (hdef : ∀ f, f ∈ deferred ms ∨ f ∈ announced acts ↔
      f ∈ deferred c.pauseModeStack ∨ f = c.created)
    (hold : openFiles c.pauseModeStack = o₁ ++ o₂) (hopen : openFiles ms = o₁ ++ c.created :: o₂)
    (hacts : ∀ a ∈ acts, ∃ f, a = .added f) :
    Inv { c with
      store := Function.update c.store c.created file, created := c.created + 1,
      pauseModeStack := ms } (todo ++ acts) := by
  obtain ⟨hactive, hno⟩ := h.running hne
  -- open files are among those created, so the new one is not
  have hnew : c.created ∉ o₁ ++ o₂ := by
    intro hmem
    exact Nat.lt_irrefl _ (h.isOpen _ (hold ▸ hmem)).2.1
  have hstore : ∀ f < c.created, Function.update c.store c.created file f = c.store f :=
    fun f hf => Function.update_of_ne (Nat.ne_of_lt hf) _ _
  have hterm : ∀ f, Action.terminate f ∉ acts := by grind
  have hin : Action.inactive ∉ acts := by grind
  refine ⟨?_, ?_, ?_, ?_, ?_, ?_, ?_, ?_⟩
  · intro f
    have hlt : f < c.created + 1 ↔ f < c.created ∨ f = c.created := by omega
    show f < c.created + 1 ↔ f ∈ c.files ∨ f ∈ deferred ms ∨ f ∈ announced (todo ++ acts)
    rw [hlt, h.created, announced_append, List.mem_append]
    have := hdef f
    grind
  · show (openFiles ms).Nodup
    rw [hopen]
    exact List.nodup_middle.mpr (List.nodup_cons.mpr ⟨hnew, hold ▸ h.nodup⟩)
  · show ∀ f ∈ openFiles ms, (Function.update c.store c.created file f).active ∧ _
    rw [hopen]
    intro f hf
    -- the new file is active in the new store, the others are as they were
    obtain rfl | hf : f = c.created ∨ f ∈ o₁ ++ o₂ := by grind
    · rw [Function.update_self]
      refine ⟨hfile, Nat.lt_succ_self _, fun hm => ?_⟩
      obtain hm | hm := List.mem_append.mp hm
      · exact Nat.lt_irrefl _ (h.targets _ hm _ rfl).2
      · exact hterm _ hm
    · obtain ⟨ha, hlt, ht⟩ := h.isOpen f (hold ▸ hf)
      rw [hstore f hlt]
      exact ⟨ha, Nat.lt_succ_of_lt hlt, fun hm => (List.mem_append.mp hm).elim ht (hterm f)⟩
  · intro a ha f hf
    obtain ha | ha := List.mem_append.mp ha
    · obtain ⟨hact, hlt⟩ := h.targets a ha f hf
      show (Function.update c.store c.created file f).active ∧ _
      rw [hstore f hlt]
      exact ⟨hact, Nat.lt_succ_of_lt hlt⟩
    · obtain ⟨_, rfl⟩ := hacts a ha
      cases hf
  · refine List.pairwise_append.mpr ⟨h.once, ?_, ?_⟩
    · exact List.pairwise_of_forall_mem_list fun a ha b _ f hf => absurd ha (hf ▸ hterm f)
    · intro a _ b hb f _ htarget
      obtain ⟨_, rfl⟩ := hacts b hb
      cases htarget
  · intro _
    exact ⟨hactive, fun hm => (List.mem_append.mp hm).elim hno hin⟩
  · intro hinactive
    exact absurd (hactive.symm.trans hinactive) (by decide)
  · intro post hpost
    exact ((List.mem_append.mp (hpost.subset List.mem_cons_self)).elim hno hin).elim

/-- The end of a container: the flag is cleared, and its only mode left is closed. -/
theorem Inv.finish {c : StorageContainer} {todo : List Action} {ms : List PauseMode}
    (h : Inv c todo) (hms : c.pauseModeStack = ms) (hlen : ms.length ≤ 1)
    (hactive : c.active = true) (hno : .inactive ∉ todo) :
    Inv { c with pauseModeStack := [] } (todo ++ .inactive :: ms.flatMap closeMode) := by
  obtain ⟨fs, o, hfs, ho, hclose⟩ : ∃ fs : List FileId, ∃ o : Option FileId,
      (∀ f, f ∈ fs ↔ f ∈ deferred ms) ∧ openFiles ms = o.toList ∧
        ms.flatMap closeMode = fs.map .added ++ o.toList.map .terminate := by
    match ms, hlen with
    | [], _ => exact ⟨[], none, fun f => Iff.rfl, rfl, rfl⟩
    | [m], _ =>
      refine ⟨m.pendingFiles, m.file, fun f => by simp, by simp, ?_⟩
      rw [List.flatMap_cons, List.flatMap_nil, List.append_nil]
      rfl
  rw [hclose]
  have hopen : ∀ f ∈ o.toList, (c.store f).active ∧ f < c.created ∧ .terminate f ∉ todo :=
    fun f hf => h.isOpen f (by rw [hms, ho]; exact hf)
  have hfirst : AddedFirst (fs.map .added ++ o.toList.map .terminate) := by
    refine List.pairwise_append.mpr ⟨?_, ?_, ?_⟩
    · refine List.pairwise_of_forall_mem_list fun a ha _ _ _ _ => ?_
      obtain ⟨g, -, rfl⟩ := List.mem_map.mp ha
      exact ⟨g, rfl⟩
    · cases o with
      | none => exact List.Pairwise.nil
      | some f => exact List.pairwise_singleton _ _
    · intro a _ b hb f hf
      obtain ⟨g, -, rfl⟩ := List.mem_map.mp hb
      cases hf
  refine ⟨?_, List.nodup_nil, fun f hf => (nomatch hf), ?_, ?_, fun hn => absurd rfl hn, ?_, ?_⟩
  · intro f
    rw [h.created, hms, announced_append]
    have hin : announced (.inactive :: (fs.map .added ++ o.toList.map .terminate)) = fs := by
      show announced (fs.map .added ++ o.toList.map .terminate) = fs
      simp
    rw [hin, List.mem_append, hfs]
    show _ ↔ f ∈ c.files ∨ f ∈ ([] : List FileId) ∨ _
    grind
  · intro a ha f hf
    obtain ha | ha := List.mem_append.mp ha
    · exact h.targets a ha f hf
    · obtain rfl | ha := List.mem_cons.mp ha
      · cases hf
      · obtain ha | ha := List.mem_append.mp ha
        · obtain ⟨g, -, rfl⟩ := List.mem_map.mp ha
          cases hf
        · obtain ⟨g, hg, rfl⟩ := List.mem_map.mp ha
          cases hf
          exact ⟨(hopen f hg).1, (hopen f hg).2.1⟩
  · refine List.pairwise_append.mpr ⟨h.once, ?_, ?_⟩
    · refine List.pairwise_cons.mpr ⟨fun b _ f hf => (nomatch hf), ?_⟩
      refine List.pairwise_append.mpr ⟨?_, ?_, ?_⟩
      · refine List.pairwise_of_forall_mem_list fun a ha _ _ f hf => ?_
        obtain ⟨g, -, rfl⟩ := List.mem_map.mp ha
        cases hf
      · cases o with
        | none => exact List.Pairwise.nil
        | some f => exact List.pairwise_singleton _ _
      · intro a ha b _ f hf
        obtain ⟨g, -, rfl⟩ := List.mem_map.mp ha
        cases hf
    · intro a ha b hb f hf htarget
      obtain rfl | hb := List.mem_cons.mp hb
      · cases htarget
      · obtain hb | hb := List.mem_append.mp hb
        · obtain ⟨g, -, rfl⟩ := List.mem_map.mp hb
          cases htarget
        · obtain ⟨g, hg, rfl⟩ := List.mem_map.mp hb
          cases htarget
          exact (hopen f hg).2.2 (hf ▸ ha)
  · intro hinactive
    exact absurd (hactive.symm.trans hinactive) (by decide)
  · intro post hpost
    -- the flag is cleared once only
    obtain ⟨pre, hpre⟩ := hpost
    have hmem : Action.inactive ∉ fs.map .added ++ o.toList.map .terminate := by simp
    obtain ⟨rfl, rfl⟩ : pre = todo ∧ post = fs.map .added ++ o.toList.map .terminate := by
      obtain ⟨as, hpre', hpost'⟩ | ⟨as, htodo, hrest⟩ := List.append_eq_append_iff.mp hpre
      · cases as with
        | nil => exact ⟨by simpa using hpre'.symm, by simpa using hpost'⟩
        | cons a as =>
          rw [hpre'] at hno
          obtain ⟨rfl, -⟩ := List.cons.inj hpost'
          exact absurd (List.mem_append_right _ List.mem_cons_self) hno
      · cases as with
        | nil => exact ⟨by simpa using htodo, by simpa using hrest.symm⟩
        | cons a as =>
          have hlast : _ = as ++ .inactive :: post := (List.cons.inj hrest).2
          rw [hlast] at hmem
          exact absurd (List.mem_append_right _ List.mem_cons_self) hmem
    exact hfirst

/-! ### The calls -/

/-- What a call does: the actions it leaves keep the invariant, and the files there are,
    the file list and the flag stay as they are. -/
structure Call (c : StorageContainer) (todo : List Action) (r : StorageContainer × List Action) :
    Prop where
  inv : Inv r.1 (todo ++ r.2)
  store : ∀ f < c.created, r.1.store f = c.store f
  created : c.created ≤ r.1.created
  files : r.1.files = c.files
  active : r.1.active = c.active
  ended : c.pauseModeStack = [] → r.1.pauseModeStack = [] ∧ announced r.2 = []

theorem Call.of_inv {c : StorageContainer} {todo acts : List Action} {ms : List PauseMode}
    (h : Inv { c with pauseModeStack := ms } (todo ++ acts)) (hne : c.pauseModeStack ≠ []) :
    Call c todo ({ c with pauseModeStack := ms }, acts) :=
  ⟨h, fun _ _ => rfl, Nat.le_refl _, rfl, rfl, fun hnil => absurd hnil hne⟩

/-- A call that leaves nothing to do. -/
theorem Call.refl {c : StorageContainer} {todo : List Action} (h : Inv c todo) :
    Call c todo (c, []) :=
  ⟨by rw [List.append_nil]; exact h, fun _ _ => rfl, Nat.le_refl _, rfl, rfl,
    fun hnil => ⟨hnil, rfl⟩⟩

/-- One call after another. -/
theorem Call.trans {c : StorageContainer} {todo : List Action}
    {r r' : StorageContainer × List Action} (h : Call c todo r)
    (h' : Call r.1 (todo ++ r.2) r') : Call c todo (r'.1, r.2 ++ r'.2) where
  inv := by rw [← List.append_assoc]; exact h'.inv
  store f hf := (h'.store f (Nat.lt_of_lt_of_le hf h.created)).trans (h.store f hf)
  created := Nat.le_trans h.created h'.created
  files := h'.files.trans h.files
  active := h'.active.trans h.active
  ended hnil := by
    obtain ⟨hnil', hann⟩ := h.ended hnil
    obtain ⟨hnil'', hann'⟩ := h'.ended hnil'
    exact ⟨hnil'', by rw [announced_append, hann, hann']; rfl⟩

/-- The mode with number `k`, and what stands before and behind it. -/
theorem exists_split {ms : List PauseMode} {k : Nat} {m : PauseMode} (h : ms[k]? = some m) :
    ∃ pre post, ms = pre ++ m :: post ∧ ∀ m', ms.set k m' = pre ++ m' :: post := by
  induction ms generalizing k with
  | nil => cases h
  | cons m₀ ms ih =>
    cases k with
    | zero =>
      cases h
      exact ⟨[], ms, rfl, fun _ => rfl⟩
    | succ k =>
      obtain ⟨pre, post, hms, hset⟩ := ih h
      refine ⟨m₀ :: pre, post, congrArg (m₀ :: ·) hms, fun m' => ?_⟩
      exact congrArg (m₀ :: ·) (hset m')

private theorem cons_ne_nil {pre post : List PauseMode} {m : PauseMode} :
    pre ++ m :: post ≠ [] := List.append_ne_nil_of_right_ne_nil _ (List.cons_ne_nil _ _)

theorem newFile_call {c : StorageContainer} {todo : List Action} {k : Nat} {m : PauseMode}
    (h : Inv c todo) (hm : c.pauseModeStack[k]? = some m) (paused : Bool) (nf : NewFile) :
    Call c todo (c.newFile k m paused nf) := by
  obtain ⟨pre, post, hms, hset⟩ := exists_split hm
  have hne : c.pauseModeStack ≠ [] := hms ▸ cons_ne_nil
  unfold newFile
  split
  · exact Call.refl h
  · rename_i hnone
    have hfile : m.file = none := by simpa using hnone
    have hold : openFiles c.pauseModeStack = openFiles pre ++ openFiles post := by
      rw [hms]
      simp [hfile]
    split
    · -- the file cannot be opened
      refine Call.of_inv (h.extend hne (fun f => ?_) ?_ fun a ha => (nomatch ha)) hne
      · rw [hset, hms]
        simp [announced]
      · rw [hset, hold]
        simp [hfile]
    · simp only
      split
      · -- the oldest mode: its deferred files are announced, then the new one
        refine ⟨h.make hne rfl (fun f => ?_) hold ?_ fun a ha => ?_,
          fun f hf => Function.update_of_ne (Nat.ne_of_lt hf) _ _, Nat.le_succ _, rfl, rfl,
          fun hnil => absurd hnil hne⟩
        · rw [hset, hms]
          simp [announced]
          grind
        · rw [hset]
          simp
        · obtain ha | ha := List.mem_append.mp ha
          · obtain ⟨g, -, rfl⟩ := List.mem_map.mp ha
            exact ⟨g, rfl⟩
          · exact ⟨_, List.mem_singleton.mp ha⟩
      · refine ⟨h.make hne rfl (fun f => ?_) hold ?_ fun a ha => (nomatch ha),
          fun f hf => Function.update_of_ne (Nat.ne_of_lt hf) _ _, Nat.le_succ _, rfl, rfl,
          fun hnil => absurd hnil hne⟩
        · rw [hset, hms]
          simp [announced]
          grind
        · rw [hset]
          simp

theorem rollOver_call {c : StorageContainer} {todo : List Action} {k : Nat} {m : PauseMode}
    (h : Inv c todo) (hm : c.pauseModeStack[k]? = some m) (nf : NewFile) :
    Call c todo (c.rollOver k m nf) := by
  obtain ⟨pre, post, hms, hset⟩ := exists_split hm
  have hne : c.pauseModeStack ≠ [] := hms ▸ cons_ne_nil
  have hclose : Call c todo (c.closeFile k m) := by
    refine Call.of_inv ?_ hne
    rw [hset]
    cases hfile : m.file with
    | none =>
      refine h.extend hne (fun f => ?_) ?_ fun a ha => (nomatch ha)
      · rw [hms]
        simp [announced]
      · rw [hms]
        simp [hfile]
    | some f =>
      refine Inv.close (openFiles pre) (openFiles post) h hne ?_ ?_ ?_
      · rw [hms]
        simp
      · rw [hms]
        simp [hfile]
      · simp
  have hk : (c.closeFile k m).1.pauseModeStack[k]? = some { m with file := none } := by
    show (c.pauseModeStack.set k _)[k]? = _
    have hlt : k < c.pauseModeStack.length := (List.getElem?_eq_some_iff.mp hm).1
    rw [List.getElem?_set_self hlt]
  exact hclose.trans (newFile_call hclose.inv hk m.paused nf)

/-- Writing to the file of a mode, if it has one. -/
theorem writeFile_call {c : StorageContainer} {todo : List Action} (h : Inv c todo) (k : Nat)
    (pkt : List UInt8) (notify : Bool) : Call c todo (c, c.writeFile k pkt notify) := by
  unfold writeFile
  split
  · exact Call.refl h
  · rename_i f hf
    obtain ⟨m, hm, hfile⟩ := Option.bind_eq_some_iff.mp hf
    obtain ⟨pre, post, hms, -⟩ := exists_split hm
    have hopen : f ∈ openFiles c.pauseModeStack := by
      rw [hms]
      simp [hfile]
    have hne : c.pauseModeStack ≠ [] := hms ▸ cons_ne_nil
    refine Call.of_inv (h.extend hne (fun g => ?_) rfl fun a ha => ?_) hne
    · cases notify <;> simp [announced]
    · obtain rfl | ha := List.mem_cons.mp ha
      · exact .inr (.inr ⟨f, pkt, rfl, hopen⟩)
      · cases notify
        · cases ha
        · exact .inr (.inl ⟨f, List.mem_singleton.mp ha⟩)

theorem write_call {c : StorageContainer} {r : StorageContainer × List Action} {k : Nat}
    {pkt : List UInt8} {notify : Bool} {nf : NewFile} (h : Inv c [])
    (hr : c.write k pkt notify nf = some r) : Call c [] r := by
  obtain ⟨m, hm, rfl⟩ := Option.map_eq_some_iff.mp hr
  have hopened : Call c [] (c.readyFile k m nf) := by
    unfold readyFile
    split
    · exact newFile_call h hm m.paused nf
    · split
      · exact rollOver_call h hm nf
      · exact Call.refl h
  have hwritten : Call (c.readyFile k m nf).1 ([] ++ (c.readyFile k m nf).2)
      ((c.readyFile k m nf).1, (c.readyFile k m nf).1.writeFile k pkt notify) :=
    writeFile_call hopened.inv k pkt notify
  exact hopened.trans hwritten

theorem writeFailed_call {c : StorageContainer} {r : StorageContainer × List Action} {k : Nat}
    {part : List UInt8} {notify : Bool} {nf : NewFile} (h : Inv c [])
    (hr : c.writeFailed k part notify nf = some r) : Call c [] r := by
  obtain ⟨m, hm, hr⟩ := Option.bind_eq_some_iff.mp hr
  split at hr <;> cases hr
  have hwritten : Call c [] (c, c.writeFile k part notify) :=
    writeFile_call h k part notify
  exact hwritten.trans (rollOver_call hwritten.inv hm nf)

theorem changeMode_call {c : StorageContainer} {r : StorageContainer × List Action}
    {paused : Bool} {nf : NewFile} (h : Inv c []) (hr : c.changeMode paused nf = some r) :
    Call c [] r := by
  obtain ⟨m, hm, rfl⟩ := Option.map_eq_some_iff.mp hr
  have hne : c.pauseModeStack ≠ [] := fun hnil => by rw [hnil] at hm; cases hm
  split
  · exact newFile_call h (List.head?_eq_getElem? ▸ hm) paused nf
  · rename_i f _
    split
    · exact Call.refl h
    · have hstack : Call c [] (c.stackMode m, []) :=
        Call.of_inv
          (h.extend hne (fun f => by simp [announced]) (by simp) fun a ha => (nomatch ha)) hne
      have hhead : (c.stackMode m).pauseModeStack[0]? = some ⟨none, [], m.paused⟩ := rfl
      exact hstack.trans (newFile_call hstack.inv hhead paused nf)

/-- The file of a mode is terminated, and the mode is taken off the stack. -/
private theorem dropMode_call {c : StorageContainer} {todo : List Action}
    {pre post : List PauseMode} {m : PauseMode} (h : Inv c todo)
    (hms : c.pauseModeStack = pre ++ m :: post) (hdef : m.pendingFiles = []) :
    Call c todo ({ c with pauseModeStack := pre ++ post }, m.file.toList.map .terminate) := by
  have hne : c.pauseModeStack ≠ [] := hms ▸ cons_ne_nil
  refine Call.of_inv ?_ hne
  cases hfile : m.file with
  | none =>
    refine h.extend hne (fun f => ?_) ?_ fun a ha => (nomatch ha)
    · rw [hms]
      simp [announced, hdef]
    · rw [hms]
      simp [hfile]
  | some f =>
    refine Inv.close (openFiles pre) (openFiles post) h hne ?_ ?_ ?_
    · rw [hms]
      simp [hdef]
    · rw [hms]
      simp [hfile]
    · simp

/-- A mode is closed and taken off the stack. -/
theorem closeMode_call {c : StorageContainer} {todo : List Action} (pre post : List PauseMode)
    {m : PauseMode} (h : Inv c todo) (hms : c.pauseModeStack = pre ++ m :: post) :
    Call c todo ({ c with pauseModeStack := pre ++ post }, closeMode m) := by
  have hne : c.pauseModeStack ≠ [] := hms ▸ cons_ne_nil
  -- first the deferred files are announced
  have hflush : Call c todo ({ c with pauseModeStack := pre ++ { m with pendingFiles := [] } :: post },
      m.pendingFiles.map .added) := by
    refine Call.of_inv (h.extend hne (fun f => ?_) ?_ fun a ha => ?_) hne
    · rw [hms]
      simp
      grind
    · rw [hms]
      simp
    · obtain ⟨g, -, rfl⟩ := List.mem_map.mp ha
      exact .inl ⟨g, rfl⟩
  exact hflush.trans (dropMode_call hflush.inv rfl rfl)

/-- The deferred files of the oldest mode are announced. -/
theorem flush_call {c : StorageContainer} {todo : List Action} {pre : List PauseMode}
    {m : PauseMode} (h : Inv c todo) (hms : c.pauseModeStack = pre ++ [m]) :
    Call c todo ({ c with pauseModeStack := pre ++ [{ m with pendingFiles := [] }] },
      m.pendingFiles.map .added) := by
  have hne : c.pauseModeStack ≠ [] := hms ▸ cons_ne_nil
  refine Call.of_inv (h.extend hne (fun f => ?_) ?_ fun a ha => ?_) hne
  · rw [hms]
    simp
  · rw [hms]
    simp
  · obtain ⟨g, -, rfl⟩ := List.mem_map.mp ha
    exact .inl ⟨g, rfl⟩

/-- Some modes behind the first ones are closed, oldest first. -/
theorem split_call {c : StorageContainer} {todo : List Action} (ms : List PauseMode)
    (expired : List Bool) :
    ∀ (pre : List PauseMode), Inv c todo → c.pauseModeStack = pre ++ ms →
      Call c todo ({ c with pauseModeStack := pre ++ (splitExpired ms expired).1 },
        (splitExpired ms expired).2.reverse.flatMap closeMode) := by
  induction ms generalizing expired with
  | nil =>
    intro pre h hms
    show Call c todo ({ c with pauseModeStack := pre ++ [] }, [])
    rw [← hms]
    exact Call.refl h
  | cons m ms ih =>
    intro pre h hms
    have hrest := ih expired.tail (pre ++ [m]) h (by rw [hms, List.append_assoc]; rfl)
    simp only [List.append_assoc, List.singleton_append] at hrest
    unfold splitExpired
    simp only
    split
    · rw [List.reverse_cons, List.flatMap_append, List.flatMap_cons, List.flatMap_nil,
        List.append_nil]
      exact hrest.trans (closeMode_call pre _ hrest.inv rfl)
    · exact hrest

theorem expireModes_call {c : StorageContainer} (h : Inv c []) (found : Nat)
    (expired : List Bool) : Call c [] (c.expireModes found expired) := by
  have hsplit := split_call (c.pauseModeStack.drop (found + 1)) expired _ h
    (List.take_append_drop (found + 1) c.pauseModeStack).symm
  unfold expireModes
  simp only
  split
  · exact hsplit
  · rename_i m hlast
    exact hsplit.trans (flush_call hsplit.inv (List.dropLast_append_getLast? m hlast).symm)

theorem notify_call {c : StorageContainer} {r : StorageContainer × List Action} (h : Inv c [])
    (hr : c.notify = some r) : Call c [] r := by
  obtain ⟨m, hm, rfl⟩ := Option.map_eq_some_iff.mp hr
  have hne : c.pauseModeStack ≠ [] := fun hnil => by rw [hnil] at hm; cases hm
  refine Call.of_inv (h.extend hne (fun f => ?_) rfl fun a ha => ?_) hne
  · cases m.file <;> simp [announced]
  · obtain ⟨g, -, rfl⟩ := List.mem_map.mp ha
    exact .inr (.inl ⟨g, rfl⟩)

/-- The modes of a list are closed from the last to the first. -/
theorem closeModes_call {c : StorageContainer} {todo : List Action} (ms : List PauseMode) :
    ∀ (pre : List PauseMode), Inv c todo → c.pauseModeStack = pre ++ ms →
      Call c todo ({ c with pauseModeStack := pre }, ms.reverse.flatMap closeMode) := by
  induction ms with
  | nil =>
    intro pre h hms
    rw [List.append_nil] at hms
    rw [← hms]
    exact Call.refl h
  | cons m ms ih =>
    intro pre h hms
    have hrest := ih (pre ++ [m]) h (by rw [hms, List.append_assoc]; rfl)
    have hm := closeMode_call pre [] hrest.inv rfl
    rw [List.append_nil] at hm
    rw [List.reverse_cons, List.flatMap_append, List.flatMap_cons, List.flatMap_nil,
      List.append_nil]
    exact hrest.trans hm

/-- What `terminate` leaves to do, of a container that is active or has ended before. -/
theorem terminate_call {c : StorageContainer} (h : Inv c []) : Call c [] c.terminate := by
  cases hms : c.pauseModeStack with
  | nil =>
    have hend : c.terminate = ({ c with pauseModeStack := [] }, [.inactive]) := by
      unfold terminate
      rw [hms]
      rfl
    rw [hend]
    refine ⟨⟨?_, List.nodup_nil, fun f hf => (nomatch hf), ?_, List.pairwise_singleton _ _,
      fun hn => absurd rfl hn, fun _ => List.pairwise_singleton _ _, ?_⟩, fun _ _ => rfl,
      Nat.le_refl _, rfl, rfl, fun _ => ⟨rfl, rfl⟩⟩
    · intro f
      rw [h.created, hms]
      rfl
    · intro a ha f hf
      cases List.mem_singleton.mp ha
      cases hf
    · intro post hpost
      obtain ⟨pre, hpre⟩ := hpost
      have hlen := congrArg List.length hpre
      simp only [List.length_append, List.length_cons, List.nil_append, List.length_nil] at hlen
      have hpost : post = [] := List.length_eq_zero_iff.mp (by omega)
      rw [hpost]
      exact List.Pairwise.nil
  | cons m ms =>
    have holder := closeModes_call ms [m] h hms
    obtain ⟨hactive, -⟩ := h.running (hms ▸ List.cons_ne_nil m ms)
    have hno : Action.inactive ∉ [] ++ ms.reverse.flatMap closeMode :=
      (holder.inv.running (List.cons_ne_nil m [])).2
    have hfinish := holder.inv.finish rfl (Nat.le_refl 1) hactive hno
    have hend : c.terminate = ({ c with pauseModeStack := [] },
        ms.reverse.flatMap closeMode ++ .inactive :: [m].flatMap closeMode) := by
      unfold terminate
      rw [hms]
      rfl
    rw [hend]
    refine Call.of_inv ?_ (hms ▸ List.cons_ne_nil m ms)
    rw [← List.append_assoc]
    exact hfinish

/-! ### The actions -/

theorem AddedFirst.tail {a : Action} {todo : List Action} (h : AddedFirst (a :: todo)) :
    AddedFirst todo :=
  List.Pairwise.of_cons h

/-- After an action that is not an announcement nothing is announced. -/
theorem AddedFirst.announced {a : Action} {todo : List Action} (h : AddedFirst (a :: todo))
    (ha : ∀ f, a ≠ .added f) : announced todo = [] := by
  refine List.filterMap_eq_nil_iff.mpr fun b hb => ?_
  cases b with
  | added f =>
    obtain ⟨g, rfl⟩ := (List.pairwise_cons.mp h).1 _ hb f rfl
    exact absurd rfl (ha g)
  | _ => rfl

/-- The invariant looks at the files for whether they are active only. -/
theorem Inv.of_active {c : StorageContainer} {todo : List Action} {store : FileStore}
    (h : Inv c todo) (hact : ∀ f, (f ∈ openFiles c.pauseModeStack ∨
      ∃ a ∈ todo, target a = some f) → (c.store f).active → (store f).active) :
    Inv { c with store } todo := by
  refine ⟨h.created, h.nodup, fun f hf => ?_, fun a ha f hf => ?_, h.once, h.running, h.ended,
    h.ending⟩
  · obtain ⟨h1, h2, h3⟩ := h.isOpen f hf
    exact ⟨hact f (.inl hf) h1, h2, h3⟩
  · obtain ⟨h1, h2⟩ := h.targets a ha f hf
    exact ⟨hact f (.inr ⟨a, ha, hf⟩) h1, h2⟩

/-- The state of one file changes, but it stays active if it was. -/
theorem Inv.setFile {c : StorageContainer} {todo : List Action} (h : Inv c todo) {f : FileId}
    {file : StorageFile} (hact : file.active = (c.store f).active) :
    Inv { c with store := Function.update c.store f file } todo := by
  refine h.of_active fun g _ hg => ?_
  by_cases hgf : g = f
  · subst hgf
    rw [Function.update_self, hact]
    exact hg
  · rw [Function.update_of_ne hgf]
    exact hg

/-- An action that announces nothing is done with. -/
theorem Inv.tail {c : StorageContainer} {a : Action} {todo : List Action}
    (h : Inv c (a :: todo)) (ha : ∀ f, a ≠ .added f) : Inv c todo := by
  refine ⟨fun f => ?_, h.nodup, fun f hf => ?_, fun b hb => h.targets b (List.mem_cons_of_mem _ hb),
    h.once.of_cons, fun hne => ?_, fun hi => (h.ended hi).tail, fun post hpost => ?_⟩
  · rw [h.created]
    cases a with
    | added g => exact absurd rfl (ha g)
    | _ => rfl
  · obtain ⟨h1, h2, h3⟩ := h.isOpen f hf
    exact ⟨h1, h2, fun hm => h3 (List.mem_cons_of_mem _ hm)⟩
  · obtain ⟨h1, h2⟩ := h.running hne
    exact ⟨h1, fun hm => h2 (List.mem_cons_of_mem _ hm)⟩
  · exact h.ending post (hpost.trans (List.suffix_cons a todo))

theorem Inv.added {c : StorageContainer} {f : FileId} {todo : List Action}
    (h : Inv c (.added f :: todo)) : Inv { c with files := c.files ++ [f] } todo := by
  refine ⟨fun g => ?_, h.nodup, fun g hg => ?_, fun b hb => h.targets b (List.mem_cons_of_mem _ hb),
    h.once.of_cons, fun hne => ?_, fun hi => (h.ended hi).tail, fun post hpost => ?_⟩
  · rw [h.created]
    show _ ↔ g ∈ c.files ++ [f] ∨ _
    have hann : announced (.added f :: todo) = f :: announced todo := rfl
    rw [hann]
    grind
  · obtain ⟨h1, h2, h3⟩ := h.isOpen g hg
    exact ⟨h1, h2, fun hm => h3 (List.mem_cons_of_mem _ hm)⟩
  · obtain ⟨h1, h2⟩ := h.running hne
    exact ⟨h1, fun hm => h2 (List.mem_cons_of_mem _ hm)⟩
  · exact h.ending post (hpost.trans (List.suffix_cons _ todo))

/-- Terminating a file touches none that is still written to. -/
theorem Inv.terminated {c : StorageContainer} {f : FileId} {todo : List Action}
    (h : Inv c (.terminate f :: todo)) (file : StorageFile) :
    Inv { c with store := Function.update c.store f file } todo := by
  refine (h.tail fun g hg => (nomatch hg)).of_active fun g hg hact => ?_
  have hne : g ≠ f := by
    rintro rfl
    obtain hg | ⟨a, ha, hta⟩ := hg
    · exact (h.isOpen g hg).2.2 List.mem_cons_self
    · exact (List.pairwise_cons.mp h.once).1 a ha g rfl hta
  rw [Function.update_of_ne hne]
  exact hact

theorem Inv.inactive {c : StorageContainer} {todo : List Action}
    (h : Inv c (.inactive :: todo)) : Inv { c with active := false } todo := by
  have ht := h.tail fun g hg => (nomatch hg)
  refine ⟨ht.created, ht.nodup, ht.isOpen, ht.targets, ht.once, fun hne => ?_,
    fun _ => h.ending todo (List.suffix_refl _), ht.ending⟩
  exact absurd List.mem_cons_self (h.running hne).2

end Adara.Spec.StorageContainer
