import Adara.Spec.STCClient

/-! # What the files of a run hold

What a call is to put into files (`filed`) is in them once its actions are carried out: each file
holds what it starts with, the packets written to it in the order of the calls, and what ends it
(`Kept`).  Every file made is announced once, or is still to be.  A client changes none of this. -/

namespace Adara.Spec.FileBytes

open Adara.Native Adara.Native.StorageContainer Adara.Native.STCSession
open Adara.Spec.StorageContainer (Inv announced deferred)

/-! ### What is put into files -/

/-- The bytes that go to a file, in order. -/
def bytesOf (f : FileId) (log : List (FileId × List UInt8)) : List UInt8 :=
  (log.filter fun e => e.1 = f).flatMap Prod.snd

@[simp] theorem bytesOf_nil (f : FileId) : bytesOf f [] = [] := rfl

@[simp] theorem bytesOf_append (f : FileId) (log log' : List (FileId × List UInt8)) :
    bytesOf f (log ++ log') = bytesOf f log ++ bytesOf f log' := by
  rw [bytesOf, List.filter_append, List.flatMap_append]
  rfl

theorem bytesOf_single (f g : FileId) (bs : List UInt8) :
    bytesOf f [(g, bs)] = if f = g then bs else [] := by
  by_cases h : f = g
  · rw [if_pos h, bytesOf, List.filter_cons_of_pos (by simpa using h.symm)]
    exact List.append_nil bs
  · rw [if_neg h, bytesOf, List.filter_cons_of_neg (by simpa using Ne.symm h)]
    rfl

/-- What actions write to files, but for what ends a file. -/
def appends (acts : List Action) : List (FileId × List UInt8) :=
  acts.filterMap fun
    | .append f bs => some (f, bs)
    | _ => none

@[simp] theorem appends_append (as bs : List Action) :
    appends (as ++ bs) = appends as ++ appends bs := List.filterMap_append

theorem appends_map_added (fs : List FileId) : appends (fs.map .added) = [] := by
  induction fs with
  | nil => rfl
  | cons f fs ih => exact ih

theorem appends_map_terminate (fs : List FileId) : appends (fs.map .terminate) = [] := by
  induction fs with
  | nil => rfl
  | cons f fs ih => exact ih

/-- Nothing is written to a file that no action writes to. -/
theorem bytesOf_appends {acts : List Action} {f : FileId}
    (h : ∀ a ∈ acts, StorageContainer.target a ≠ some f) : bytesOf f (appends acts) = [] := by
  rw [bytesOf, List.flatMap_eq_nil_iff]
  intro e he
  obtain ⟨hmem, heq⟩ := List.mem_filter.mp he
  obtain ⟨a, ha, hsome⟩ := List.mem_filterMap.mp hmem
  cases a with
  | append g bs =>
    cases hsome
    exact absurd (congrArg some (of_decide_eq_true heq)) (h _ ha)
  | added g => cases hsome
  | notify g => cases hsome
  | terminate g => cases hsome
  | inactive => cases hsome

/-- The call an event makes that can make a file, with what it is made with. -/
def callOf (w : STCSession) : STCSession.Event → Option (NewFile × StorageContainer × List Action)
  | .newFile paused nf =>
    w.cont.pauseModeStack.head?.map fun m => (nf, w.cont.newFile 0 m paused nf)
  | .write mode pkt notify nf => (w.cont.write mode pkt notify nf).map fun r => (nf, r)
  | .writeFailed mode part notify nf =>
    (w.cont.writeFailed mode part notify nf).map fun r => (nf, r)
  | .pause nf => (w.cont.pause nf).map fun r => (nf, r)
  | .resume nf => (w.cont.resume nf).map fun r => (nf, r)
  | _ => none

/-- What a call puts into files: the start of a new one, and what is written. -/
def madeBy (c : StorageContainer) (nf : NewFile) (r : StorageContainer × List Action) :
    List (FileId × List UInt8) :=
  (if c.created < r.1.created then [(c.created, nf.bytes)] else []) ++ appends r.2

/-- What an event puts into files: what a call is to put there, and what ends a file. -/
def filed (w : STCSession) (ev : STCSession.Event) : List (FileId × List UInt8) :=
  match w.todo, ev with
  | .terminate f :: _, .proceed status _ => [(f, status)]
  | _ :: _, _ => []
  | [], ev =>
    match callOf w ev with
    | some (nf, r) => madeBy w.cont nf r
    | none => []

/-! ### Calls -/

/-- What a call makes: no file or one, and every deferred file stays deferred or is announced. -/
inductive Made (c : StorageContainer) (nf : NewFile) (r : StorageContainer × List Action) : Prop
  | nothing (files : r.1.files = c.files) (store : r.1.store = c.store)
      (created : r.1.created = c.created)
      (listed : (deferred r.1.pauseModeStack ++ announced r.2).Perm (deferred c.pauseModeStack))
  | file (files : r.1.files = c.files) (file : StorageFile) (bytes : file.bytes = nf.bytes)
      (store : r.1.store = Function.update c.store c.created file)
      (created : r.1.created = c.created + 1)
      (listed : (deferred r.1.pauseModeStack ++ announced r.2).Perm
        (deferred c.pauseModeStack ++ [c.created]))

section Calls

variable {c : StorageContainer} {nf : NewFile} {k : Nat} {m : PauseMode}

/-- A call that changes no mode and announces nothing. -/
theorem Made.stay {acts : List Action} (h : announced acts = []) : Made c nf (c, acts) :=
  .nothing rfl rfl rfl (by rw [h, List.append_nil])

/-- A call that makes no file, after which another does or does not. -/
theorem Made.after (r : StorageContainer × List Action) {r' : StorageContainer × List Action}
    (hfiles : r.1.files = c.files)
    (hstore : r.1.store = c.store) (hcreated : r.1.created = c.created)
    (hlisted : (deferred r.1.pauseModeStack ++ announced r.2).Perm (deferred c.pauseModeStack))
    (h : Made r.1 nf r') : Made c nf (r'.1, r.2 ++ r'.2) := by
  have hperm : ∀ new, (deferred r'.1.pauseModeStack ++ announced r'.2).Perm
        (deferred r.1.pauseModeStack ++ new) →
      (deferred r'.1.pauseModeStack ++ announced (r.2 ++ r'.2)).Perm
        (deferred c.pauseModeStack ++ new) := by
    intro new hnew
    rw [StorageContainer.announced_append]
    calc deferred r'.1.pauseModeStack ++ (announced r.2 ++ announced r'.2)
      _ |>.Perm (deferred r'.1.pauseModeStack ++ (announced r'.2 ++ announced r.2)) :=
        List.perm_append_comm.append_left _
      _ |>.Perm (deferred r.1.pauseModeStack ++ new ++ announced r.2) := by
        rw [← List.append_assoc]
        exact hnew.append_right _
      _ |>.Perm (deferred r.1.pauseModeStack ++ announced r.2 ++ new) := by
        rw [List.append_assoc, List.append_assoc]
        exact List.perm_append_comm.append_left _
      _ |>.Perm (deferred c.pauseModeStack ++ new) := hlisted.append_right _
  cases h with
  | nothing files store created listed =>
    refine .nothing (files.trans hfiles) (store.trans hstore) (created.trans hcreated) ?_
    have := hperm [] (by rw [List.append_nil]; exact listed)
    rwa [List.append_nil] at this
  | file files file bytes store created listed =>
    rw [hstore, hcreated] at store
    rw [hcreated] at created listed
    exact .file (files.trans hfiles) file bytes store created (hperm _ listed)

/-- A call, after which some files are written to. -/
theorem Made.before {r : StorageContainer × List Action} (h : Made c nf r) {acts : List Action}
    (hacts : announced acts = []) : Made c nf (r.1, r.2 ++ acts) := by
  have hsame : announced (r.2 ++ acts) = announced r.2 := by
    rw [StorageContainer.announced_append, hacts, List.append_nil]
  cases h with
  | nothing files store created listed => exact .nothing files store created (hsame ▸ listed)
  | file files file bytes store created listed =>
    exact .file files file bytes store created (hsame ▸ listed)

theorem newFile_made (hm : c.pauseModeStack[k]? = some m) (paused : Bool) :
    Made c nf (c.newFile k m paused nf) := by
  obtain ⟨pre, post, hms, hset⟩ := StorageContainer.exists_split hm
  unfold StorageContainer.newFile
  split
  · exact .stay rfl
  · split
    · refine .nothing rfl rfl rfl ?_
      rw [hset, hms, show announced [] = [] from rfl, List.append_nil]
      simp only [StorageContainer.deferred_append, StorageContainer.deferred_cons]
      rfl
    · dsimp only
      split
      · -- the deferred files are announced with the new one
        refine .file rfl _ rfl rfl rfl ?_
        rw [hset, hms]
        simp only [StorageContainer.deferred_append, StorageContainer.deferred_cons,
          StorageContainer.announced_append, StorageContainer.announced_map_added, List.nil_append]
        have hnew : announced [Action.added c.created] = [c.created] := rfl
        rw [hnew, ← List.append_assoc]
        refine List.Perm.append_right _ ?_
        rw [List.append_assoc]
        exact List.perm_append_comm.append_left _
      · refine .file rfl _ rfl rfl rfl ?_
        rw [hset, hms, show announced [] = [] from rfl, List.append_nil]
        simp only [StorageContainer.deferred_append, StorageContainer.deferred_cons,
          List.append_assoc]
        exact (List.perm_append_comm.append_left _).append_left _

theorem rollOver_made (hm : c.pauseModeStack[k]? = some m) : Made c nf (c.rollOver k m nf) := by
  obtain ⟨pre, post, hms, hset⟩ := StorageContainer.exists_split hm
  have hlt : k < c.pauseModeStack.length := (List.getElem?_eq_some_iff.mp hm).1
  have hk : (c.closeFile k m).1.pauseModeStack[k]? = some { m with file := none } := by
    show (c.pauseModeStack.set k _)[k]? = _
    rw [List.getElem?_set_self hlt]
  have hclosed : (deferred (c.closeFile k m).1.pauseModeStack ++
      announced (c.closeFile k m).2).Perm (deferred c.pauseModeStack) := by
    rw [StorageContainer.closeFile, StorageContainer.announced_map_terminate, List.append_nil]
    show (deferred (c.pauseModeStack.set k { m with file := none })).Perm _
    rw [hset, hms]
    simp only [StorageContainer.deferred_append, StorageContainer.deferred_cons]
    rfl
  exact Made.after (c.closeFile k m) rfl rfl rfl hclosed (newFile_made hk m.paused)

theorem announced_writeFile (k : Nat) (pkt : List UInt8) (notify : Bool) :
    announced (c.writeFile k pkt notify) = [] := by
  unfold StorageContainer.writeFile
  split
  · rfl
  · cases notify <;> rfl

theorem readyFile_made (hm : c.pauseModeStack[k]? = some m) : Made c nf (c.readyFile k m nf) := by
  unfold StorageContainer.readyFile
  split
  · exact newFile_made hm m.paused
  · split
    · exact rollOver_made hm
    · exact .stay rfl

theorem write_made {r : StorageContainer × List Action} {pkt : List UInt8} {notify : Bool}
    (h : c.write k pkt notify nf = some r) : Made c nf r := by
  obtain ⟨m, hm, rfl⟩ := Option.map_eq_some_iff.mp h
  exact (readyFile_made hm).before (announced_writeFile k pkt notify)

theorem writeFailed_made {r : StorageContainer × List Action} {part : List UInt8} {notify : Bool}
    (h : c.writeFailed k part notify nf = some r) : Made c nf r := by
  obtain ⟨m, hm, hr⟩ := Option.bind_eq_some_iff.mp h
  dsimp only at hr
  split at hr
  · cases hr
    have hwritten : (deferred c.pauseModeStack ++ announced (c.writeFile k part notify)).Perm
        (deferred c.pauseModeStack) := by rw [announced_writeFile, List.append_nil]
    exact Made.after (c, c.writeFile k part notify) rfl rfl rfl hwritten (rollOver_made hm)
  · cases hr

theorem changeMode_made {r : StorageContainer × List Action} {paused : Bool}
    (h : c.changeMode paused nf = some r) : Made c nf r := by
  obtain ⟨m, hm, rfl⟩ := Option.map_eq_some_iff.mp h
  have hm : c.pauseModeStack[0]? = some m := List.head?_eq_getElem? ▸ hm
  split
  · exact newFile_made hm paused
  · split
    · exact .stay rfl
    · have hstacked : (deferred (c.stackMode m).pauseModeStack ++ announced []).Perm
          (deferred c.pauseModeStack) := by
        rw [show announced [] = [] from rfl, List.append_nil]
        exact List.Perm.refl _
      have hnew : Made (c.stackMode m) nf
          ((c.stackMode m).newFile 0 ⟨none, [], m.paused⟩ paused nf) := newFile_made rfl paused
      exact Made.after (c.stackMode m, []) rfl rfl rfl hstacked hnew

/-! What calls write to files. -/

theorem appends_newFile (m : PauseMode) (paused : Bool) :
    appends (c.newFile k m paused nf).2 = [] := by
  unfold StorageContainer.newFile
  split
  · rfl
  · split
    · rfl
    · dsimp only
      split
      · rw [appends_append, appends_map_added]
        rfl
      · rfl

theorem appends_rollOver (m : PauseMode) : appends (c.rollOver k m nf).2 = [] := by
  have hclosed : appends (c.closeFile k m).2 = [] := appends_map_terminate m.file.toList
  have hopened : appends ((c.closeFile k m).1.newFile k { m with file := none } m.paused nf).2 =
      [] := appends_newFile ..
  rw [StorageContainer.rollOver]
  dsimp only
  rw [appends_append, hclosed, hopened]
  rfl

theorem appends_writeFile (pkt : List UInt8) (notify : Bool) :
    ∀ e ∈ appends (c.writeFile k pkt notify), e.2 = pkt := by
  unfold StorageContainer.writeFile
  split
  · exact List.forall_mem_nil _
  · cases notify
    · exact List.forall_mem_singleton.mpr rfl
    · exact List.forall_mem_singleton.mpr rfl

theorem appends_write {r : StorageContainer × List Action} {pkt : List UInt8} {notify : Bool}
    (h : c.write k pkt notify nf = some r) : ∀ e ∈ appends r.2, e.2 = pkt := by
  obtain ⟨m, -, rfl⟩ := Option.map_eq_some_iff.mp h
  have hready : appends (c.readyFile k m nf).2 = [] := by
    unfold StorageContainer.readyFile
    split
    · exact appends_newFile ..
    · split
      · exact appends_rollOver m
      · rfl
  show ∀ e ∈ appends ((c.readyFile k m nf).2 ++ _), e.2 = pkt
  rw [appends_append, hready]
  exact appends_writeFile pkt notify

theorem appends_writeFailed {r : StorageContainer × List Action} {part : List UInt8}
    {notify : Bool} (h : c.writeFailed k part notify nf = some r) :
    ∀ e ∈ appends r.2, e.2 = part := by
  obtain ⟨m, -, hr⟩ := Option.bind_eq_some_iff.mp h
  dsimp only at hr
  split at hr
  · cases hr
    show ∀ e ∈ appends (c.writeFile k part notify ++ (c.rollOver k m nf).2), e.2 = part
    rw [appends_append, appends_rollOver, List.append_nil]
    exact appends_writeFile part notify
  · cases hr

theorem appends_changeMode {r : StorageContainer × List Action} {paused : Bool}
    (h : c.changeMode paused nf = some r) : appends r.2 = [] := by
  obtain ⟨m, -, rfl⟩ := Option.map_eq_some_iff.mp h
  split
  · exact appends_newFile ..
  · split
    · rfl
    · exact appends_newFile ..

theorem announced_closeModes (ms : List PauseMode) :
    announced (ms.flatMap closeMode) = deferred ms ∧ appends (ms.flatMap closeMode) = [] := by
  induction ms with
  | nil => exact ⟨rfl, rfl⟩
  | cons m ms ih =>
    rw [List.flatMap_cons, StorageContainer.announced_append, appends_append, ih.1, ih.2,
      StorageContainer.deferred_cons, closeMode, StorageContainer.announced_append,
      appends_append, StorageContainer.announced_map_added,
      StorageContainer.announced_map_terminate, appends_map_added, appends_map_terminate,
      List.append_nil]
    exact ⟨rfl, rfl⟩

theorem deferred_reverse (ms : List PauseMode) : (deferred ms.reverse).Perm (deferred ms) :=
  (List.reverse_perm ms).flatMap_right _

theorem deferred_splitExpired (ms : List PauseMode) (expired : List Bool) :
    (deferred (splitExpired ms expired).1 ++ deferred (splitExpired ms expired).2).Perm
      (deferred ms) := by
  induction ms generalizing expired with
  | nil => exact List.Perm.refl _
  | cons m ms ih =>
    have h := ih expired.tail
    rw [splitExpired]
    dsimp only
    split
    · rw [StorageContainer.deferred_cons, StorageContainer.deferred_cons]
      refine (List.perm_append_comm_assoc _ _ _).trans (h.append_left _)
    · rw [StorageContainer.deferred_cons, StorageContainer.deferred_cons, List.append_assoc]
      exact h.append_left _

theorem expireModes_made (found : Nat) (expired : List Bool) :
    Made c nf (c.expireModes found expired) ∧ appends (c.expireModes found expired).2 = [] := by
  have hsplit := deferred_splitExpired (c.pauseModeStack.drop (found + 1)) expired
  generalize hpair : splitExpired (c.pauseModeStack.drop (found + 1)) expired = pair at hsplit
  obtain ⟨kept, gone⟩ := pair
  obtain ⟨hann, happ⟩ := announced_closeModes gone.reverse
  -- what was deferred is deferred still, or belongs to a mode that is closed
  have hall : (deferred (c.pauseModeStack.take (found + 1) ++ kept) ++
      announced (gone.reverse.flatMap closeMode)).Perm (deferred c.pauseModeStack) := by
    rw [hann, StorageContainer.deferred_append, List.append_assoc]
    calc deferred (c.pauseModeStack.take (found + 1)) ++ (deferred kept ++ deferred gone.reverse)
      _ |>.Perm (deferred (c.pauseModeStack.take (found + 1)) ++
          deferred (c.pauseModeStack.drop (found + 1))) :=
        (((deferred_reverse gone).append_left _).trans hsplit).append_left _
      _ = deferred c.pauseModeStack := by
        rw [← StorageContainer.deferred_append, List.take_append_drop]
  rw [expireModes, hpair]
  dsimp only
  split
  · rename_i hlast
    exact ⟨.nothing rfl rfl rfl hall, happ⟩
  · rename_i m hlast
    refine ⟨.nothing rfl rfl rfl (List.Perm.trans ?_ hall), ?_⟩
    · -- the deferred files of the oldest mode are announced
      obtain ⟨init, hinit⟩ := List.getLast?_eq_some_iff.mp hlast
      rw [hinit, List.dropLast_concat, StorageContainer.announced_append,
        StorageContainer.announced_map_added]
      simp only [StorageContainer.deferred_append, StorageContainer.deferred_cons,
        StorageContainer.deferred_nil, List.append_nil, List.append_assoc]
      exact (List.perm_append_comm).append_left _
    · rw [appends_append, happ, appends_map_added]
      rfl

theorem terminate_made : Made c nf c.terminate ∧ appends c.terminate.2 = [] := by
  obtain ⟨hann, happ⟩ := announced_closeModes c.pauseModeStack.tail.reverse
  obtain ⟨hann', happ'⟩ := announced_closeModes c.pauseModeStack.head?.toList
  have hlist : announced c.terminate.2 =
      deferred c.pauseModeStack.tail.reverse ++ deferred c.pauseModeStack.head?.toList := by
    rw [terminate, StorageContainer.announced_append, hann, ← hann']
    rfl
  refine ⟨.nothing rfl rfl rfl ?_, ?_⟩
  · rw [hlist]
    cases hstack : c.pauseModeStack with
    | nil =>
      rw [terminate]
      exact List.Perm.refl _
    | cons m ms =>
      show (deferred ms.reverse ++ deferred [m]).Perm (deferred (m :: ms))
      rw [StorageContainer.deferred_cons, StorageContainer.deferred_cons,
        StorageContainer.deferred_nil, List.append_nil]
      exact List.perm_append_comm.trans ((deferred_reverse ms).append_left _)
  · rw [terminate, appends_append, happ]
    exact happ'

theorem notify_made {r : StorageContainer × List Action} (h : c.notify = some r) :
    Made c nf r ∧ appends r.2 = [] := by
  obtain ⟨m, -, rfl⟩ := Option.map_eq_some_iff.mp h
  cases m.file with
  | none => exact ⟨.stay rfl, rfl⟩
  | some f => exact ⟨.stay rfl, rfl⟩

end Calls

/-! ### The client -/

/-- A client leaves the files and the modes as they are. -/
structure SameFiles (w w' : STCSession) : Prop where
  todo : w'.todo = w.todo
  stack : w'.cont.pauseModeStack = w.cont.pauseModeStack
  files : w'.cont.files = w.cont.files
  created : w'.cont.created = w.cont.created
  bytes : ∀ f, (w'.cont.store f).bytes = (w.cont.store f).bytes

section Client

variable {w w' w'' : STCSession} {c : STCClient} {f : FileId}

theorem SameFiles.refl (w : STCSession) : SameFiles w w := ⟨rfl, rfl, rfl, rfl, fun _ => rfl⟩

theorem SameFiles.trans (h : SameFiles w w') (h' : SameFiles w' w'') : SameFiles w w'' :=
  ⟨h'.todo.trans h.todo, h'.stack.trans h.stack, h'.files.trans h.files,
    h'.created.trans h.created, fun f => (h'.bytes f).trans (h.bytes f)⟩

theorem sameFiles_setFile {file : StorageFile} (h : file.bytes = (w.cont.store f).bytes) :
    SameFiles w (w.setFile f file) := by
  refine ⟨rfl, rfl, rfl, rfl, fun g => ?_⟩
  show (Function.update w.cont.store f file g).bytes = _
  rw [Function.update_apply]
  split
  · rename_i heq
    rw [h, heq]
  · rfl

theorem send_sameFiles (w : STCSession) (c : STCClient) (f : FileId) (rest : List FileId)
    (fd : FileId) (k : Kernel) : SameFiles w (w.send c f rest fd k).1 := by
  have hsocket : ∀ items, SameFiles w { w with socket := items } := fun _ =>
    ⟨rfl, rfl, rfl, rfl, fun _ => rfl⟩
  unfold STCSession.send
  dsimp only
  split
  · exact .refl w
  · exact .refl w
  · split
    · exact hsocket _
    · split
      · exact hsocket _
      · exact (hsocket _).trans (sameFiles_setFile rfl)

theorem visit_sameFiles (w : STCSession) (c : STCClient) (f : FileId) (rest : List FileId)
    (io : STCVisitIO) : SameFiles w (w.visit c f rest io).1 := by
  unfold STCSession.visit
  split
  · exact .refl w
  · split
    · exact send_sameFiles ..
    · split
      · exact .refl w
      · rename_i file hopen
        exact (sameFiles_setFile (StorageFile.getFd_bytes hopen).1).trans (send_sameFiles ..)

theorem sendFiles_sameFiles (files : List FileId) (w : STCSession) (c : STCClient)
    (ios : List STCVisitIO) : SameFiles w (w.sendFiles c files ios).1 := by
  induction files generalizing w c ios with
  | nil => exact .refl w
  | cons f rest ih =>
    have hvisit := visit_sameFiles w c f rest (ios.headD ⟨true, .again⟩)
    unfold STCSession.sendFiles
    split
    · rename_i w₁ c₁ heq
      rw [heq] at hvisit
      exact hvisit.trans (ih w₁ c₁ ios.tail)
    · exact hvisit

theorem delete_sameFiles (w : STCSession) (c : STCClient) : SameFiles w (w.delete c) := by
  unfold STCSession.delete
  dsimp only
  split
  · rename_i fd f rest hfd hfiles
    have hset : SameFiles w (w.setFile f (w.cont.store f).putFd) := sameFiles_setFile rfl
    obtain ⟨htodo, hstack, hfiles, hcreated, hbytes⟩ := hset
    exact ⟨htodo, hstack, hfiles, hcreated, hbytes⟩
  · exact ⟨rfl, rfl, rfl, rfl, fun _ => rfl⟩

theorem writable_sameFiles (w : STCSession) (c : STCClient) (io : STCCallIO) :
    SameFiles w (w.writable c io) := by
  have hsend := sendFiles_sameFiles c.files w c io.visits
  have hclient : ∀ (w₁ : STCSession) client, SameFiles w₁ { w₁ with client } := fun _ _ =>
    ⟨rfl, rfl, rfl, rfl, fun _ => rfl⟩
  unfold STCSession.writable
  split <;> rename_i w₁ c₁ heq <;> rw [heq] at hsend
  · dsimp only
    split
    · exact hsend.trans (hclient _ _)
    · rw [STCSession.sendDataDone]
      split
      · exact hsend.trans ⟨rfl, rfl, rfl, rfl, fun _ => rfl⟩
      · exact hsend.trans (hclient _ _)
  · exact hsend.trans (hclient _ _)
  · split
    · exact hsend.trans (hclient _ _)
    · split
      · exact hsend.trans (hclient _ _)
      · exact hsend.trans (delete_sameFiles _ _)
  · exact hsend.trans (delete_sameFiles _ _)

theorem newFile_sameFiles (w : STCSession) (f : FileId) (io : STCCallIO) :
    SameFiles w (w.newFile f io) := by
  have hclient : ∀ client, SameFiles w { w with client } := fun _ =>
    ⟨rfl, rfl, rfl, rfl, fun _ => rfl⟩
  unfold STCSession.newFile
  split
  · split
    · unfold STCSession.fileAdded
      split
      · dsimp only
        split
        · exact hclient _
        · exact writable_sameFiles ..
      · exact hclient _
    · exact .refl w
  · exact .refl w

theorem update_sameFiles (w : STCSession) (f : FileId) (io : STCCallIO) :
    SameFiles w (w.update f io) := by
  have hclient : ∀ c : STCClient,
      SameFiles w (if c.write then { w with client := some c } else w.writable c io) := by
    intro c
    split
    · exact ⟨rfl, rfl, rfl, rfl, fun _ => rfl⟩
    · exact writable_sameFiles ..
  unfold STCSession.update
  split
  · split
    · exact hclient _
    · exact .refl w
  · exact .refl w

end Client

/-! ### Runs -/

/-- Each file holds what was put into it, up to what the call under way has still to write; every
    file made is on the list once, or deferred, or still to be announced. -/
structure Kept (log : List (FileId × List UInt8)) (w : STCSession) : Prop where
  bytes : ∀ f, bytesOf f log = (w.cont.store f).bytes ++ bytesOf f (appends w.todo)
  listed : (w.cont.files ++ (deferred w.cont.pauseModeStack ++ announced w.todo)).Perm
    (List.range w.cont.created)
  unmade : ∀ f, w.cont.created ≤ f → (w.cont.store f).bytes = []

section Runs

variable {log : List (FileId × List UInt8)} {w w' : STCSession}

theorem Kept.same (h : Kept log w) (hsame : SameFiles w w') : Kept log w' where
  bytes f := by
    rw [hsame.bytes, hsame.todo]
    exact h.bytes f
  listed := by
    rw [hsame.files, hsame.stack, hsame.todo, hsame.created]
    exact h.listed
  unmade f hf := by
    rw [hsame.bytes]
    exact h.unmade f (hsame.created ▸ hf)

/-- A call begins. -/
theorem Kept.call {nf : NewFile} {r : StorageContainer × List Action} (h : Kept log w)
    (htodo : w.todo = []) (hmade : Made w.cont nf r) :
    Kept (log ++ madeBy w.cont nf r) (w.call r) := by
  have hlog : ∀ f, bytesOf f log = (w.cont.store f).bytes := by
    intro f
    have hbytes := h.bytes f
    rw [htodo] at hbytes
    exact hbytes.trans (List.append_nil _)
  have hlisted := h.listed
  rw [htodo] at hlisted
  have hbefore : (w.cont.files ++ deferred w.cont.pauseModeStack).Perm
      (List.range w.cont.created) := by
    rw [show announced [] = [] from rfl, List.append_nil] at hlisted
    exact hlisted
  cases hmade with
  | nothing files store created listed =>
    have hby : madeBy w.cont nf r = appends r.2 := by
      rw [madeBy, created, if_neg (Nat.lt_irrefl _)]
      rfl
    refine ⟨fun f => ?_, ?_, fun f hf => ?_⟩
    · rw [bytesOf_append, hlog, hby]
      show _ = (r.1.store f).bytes ++ bytesOf f (appends r.2)
      rw [store]
    · show (r.1.files ++ (deferred r.1.pauseModeStack ++ announced r.2)).Perm
        (List.range r.1.created)
      rw [files, created]
      exact (listed.append_left _).trans hbefore
    · show (r.1.store f).bytes = []
      rw [store]
      exact h.unmade f (created ▸ hf)
  | file files file bytes store created listed =>
    have hby : madeBy w.cont nf r = [(w.cont.created, nf.bytes)] ++ appends r.2 := by
      rw [madeBy, created, if_pos (Nat.lt_succ_self _)]
    have hnew := h.unmade w.cont.created (Nat.le_refl _)
    refine ⟨fun f => ?_, ?_, fun f hf => ?_⟩
    · rw [bytesOf_append, hlog, hby, bytesOf_append, bytesOf_single, ← List.append_assoc]
      show _ = (r.1.store f).bytes ++ bytesOf f (appends r.2)
      congr 1
      rw [store, Function.update_apply]
      by_cases heq : f = w.cont.created
      · rw [if_pos heq, if_pos heq, heq, hnew, bytes]
        rfl
      · rw [if_neg heq, if_neg heq, List.append_nil]
    · show (r.1.files ++ (deferred r.1.pauseModeStack ++ announced r.2)).Perm
        (List.range r.1.created)
      rw [files, created, List.range_succ]
      refine (listed.append_left _).trans ?_
      rw [← List.append_assoc]
      exact hbefore.append_right _
    · show (r.1.store f).bytes = []
      have hf' : w.cont.created < f := Nat.lt_of_lt_of_le (created ▸ Nat.lt_succ_self _) hf
      rw [store, Function.update_of_ne (Nat.ne_of_gt hf')]
      exact h.unmade f (Nat.le_of_lt hf')

/-- An action is carried out. -/
theorem Kept.act {a : Action} {todo : List Action} (h : Kept log w) (htodo : w.todo = a :: todo)
    (hinv : Inv w.cont (a :: todo)) (status : List UInt8) (io : STCCallIO) :
    Kept (log ++ filed w (.proceed status io)) ({ w with todo }.act status io a) := by
  have hbytes := h.bytes
  have hlisted := h.listed
  rw [htodo] at hbytes hlisted
  -- an action that puts nothing into a file and announces none
  have hquiet : filed w (.proceed status io) = [] → appends (a :: todo) = appends todo →
      announced (a :: todo) = announced todo →
      Kept (log ++ filed w (.proceed status io)) { w with todo } := by
    intro hfiled happ hann
    rw [hfiled, List.append_nil]
    rw [happ] at hbytes
    rw [hann] at hlisted
    exact ⟨hbytes, hlisted, h.unmade⟩
  have hunmade : ∀ f, StorageContainer.target a = some f → f < w.cont.created := fun f hf =>
    (hinv.targets a List.mem_cons_self f hf).2
  cases a with
  | added f =>
    refine Kept.same ?_ (newFile_sameFiles _ f io)
    have hfiled : filed w (.proceed status io) = [] := by simp only [filed, htodo]
    rw [hfiled, List.append_nil]
    refine ⟨hbytes, ?_, h.unmade⟩
    show (w.cont.files ++ [f] ++ (deferred w.cont.pauseModeStack ++ announced todo)).Perm _
    refine List.Perm.trans ?_ hlisted
    rw [List.append_assoc]
    refine List.Perm.append_left _ ?_
    show ([f] ++ (deferred w.cont.pauseModeStack ++ announced todo)).Perm
      (deferred w.cont.pauseModeStack ++ ([f] ++ announced todo))
    exact List.perm_append_comm_assoc _ _ _
  | append f bs =>
    have hfiled : filed w (.proceed status io) = [] := by simp only [filed, htodo]
    rw [hfiled, List.append_nil]
    refine ⟨fun g => ?_, hlisted, fun g hg => ?_⟩
    · rw [hbytes]
      show _ = (Function.update w.cont.store f ((w.cont.store f).append bs) g).bytes ++
        bytesOf g (appends todo)
      have happ : appends (Action.append f bs :: todo) = [(f, bs)] ++ appends todo := rfl
      rw [happ, bytesOf_append, bytesOf_single, ← List.append_assoc, Function.update_apply]
      congr 1
      by_cases heq : g = f
      · rw [if_pos heq, if_pos heq, heq]
        rfl
      · rw [if_neg heq, if_neg heq, List.append_nil]
    · show (Function.update w.cont.store f ((w.cont.store f).append bs) g).bytes = []
      rw [Function.update_of_ne (Nat.ne_of_gt (Nat.lt_of_lt_of_le (hunmade f rfl) hg))]
      exact h.unmade g hg
  | notify f =>
    have hkept := hquiet (by simp only [filed, htodo]) rfl rfl
    have hsame := STCClient.notify_bytes w.maxFileSize (w.cont.store f)
    unfold STCSession.act
    dsimp only
    split <;> rename_i file hnotify <;> rw [hnotify] at hsame
    · exact (hkept.same (sameFiles_setFile hsame.1)).same (update_sameFiles _ f io)
    · exact hkept.same (sameFiles_setFile hsame.1)
  | terminate f =>
    have hfiled : filed w (.proceed status io) = [(f, status)] := by simp only [filed, htodo]
    -- nothing is written to the file after it has ended
    have hlast : bytesOf f (appends todo) = [] := bytesOf_appends fun b hb =>
      List.rel_of_pairwise_cons hinv.once hb f rfl
    rw [hfiled]
    have hset : Kept (log ++ [(f, status)])
        (STCSession.setFile { w with todo } f ((w.cont.store f).terminate status)) := by
      refine ⟨fun g => ?_, hlisted, fun g hg => ?_⟩
      · rw [bytesOf_append, bytesOf_single, hbytes]
        show (w.cont.store g).bytes ++ bytesOf g (appends todo) ++ _ =
          (Function.update w.cont.store f ((w.cont.store f).terminate status) g).bytes ++
            bytesOf g (appends todo)
        rw [Function.update_apply]
        by_cases heq : g = f
        · rw [if_pos heq, if_pos heq, heq, hlast, List.append_nil, List.append_nil]
          rfl
        · rw [if_neg heq, if_neg heq, List.append_nil]
      · show (Function.update w.cont.store f ((w.cont.store f).terminate status) g).bytes = []
        rw [Function.update_of_ne (Nat.ne_of_gt (Nat.lt_of_lt_of_le (hunmade f rfl) hg))]
        exact h.unmade g hg
    exact (hset.same (update_sameFiles _ f io)).same (sameFiles_setFile rfl)
  | inactive =>
    obtain ⟨hb, hl, hu⟩ := hquiet (by simp only [filed, htodo]) rfl rfl
    exact ⟨hb, hl, hu⟩

/-- Every event keeps account of what it puts into files. -/
theorem Kept.step {ev : STCSession.Event} (h : Kept log w) (hinv : Inv w.cont w.todo)
    (hstep : STCSession.step w ev = some w') : Kept (log ++ filed w ev) w' := by
  -- an event outside of calls that puts nothing into files
  have hidle : ∀ {ev w'}, w.todo = [] → callOf w ev = none → Kept log w' →
      Kept (log ++ filed w ev) w' := by
    intro ev w' htodo hnone hkept
    have hfiled : filed w ev = [] := by simp only [filed, htodo, hnone]
    rw [hfiled, List.append_nil]
    exact hkept
  have hcall : ∀ {ev nf r}, w.todo = [] → callOf w ev = some (nf, r) → Made w.cont nf r →
      Kept (log ++ filed w ev) (w.call r) := by
    intro ev nf r htodo hsome hmade
    have hfiled : filed w ev = madeBy w.cont nf r := by simp only [filed, htodo, hsome]
    rw [hfiled]
    exact h.call htodo hmade
  -- a call that makes no file and writes to none
  have hquiet : ∀ {ev r}, w.todo = [] → callOf w ev = none →
      Made w.cont ⟨false, []⟩ r ∧ appends r.2 = [] → r.1.created = w.cont.created →
      Kept (log ++ filed w ev) (w.call r) := by
    intro ev r htodo hnone hmade hcreated
    apply hidle htodo hnone
    have hkept := h.call htodo hmade.1
    have hby : madeBy w.cont ⟨false, []⟩ r = [] := by
      rw [madeBy, hcreated, if_neg (Nat.lt_irrefl _), hmade.2]
      rfl
    rw [hby, List.append_nil] at hkept
    exact hkept
  cases htodo : w.todo with
  | cons a todo =>
    cases ev with
    | proceed status io =>
      simp only [STCSession.step, htodo] at hstep
      cases hstep
      exact h.act htodo (htodo ▸ hinv) status io
    | _ => simp only [STCSession.step, htodo] at hstep; cases hstep
  | nil =>
    unfold STCSession.step at hstep
    rw [htodo] at hstep
    cases ev with
    | newFile paused nf =>
      obtain ⟨m, hm, rfl⟩ := Option.map_eq_some_iff.mp hstep
      refine hcall htodo (by rw [callOf, hm]; rfl) (newFile_made ?_ paused)
      exact List.head?_eq_getElem? ▸ hm
    | write mode pkt notify nf =>
      obtain ⟨r, hr, rfl⟩ := Option.map_eq_some_iff.mp hstep
      exact hcall htodo (by rw [callOf, hr]; rfl) (write_made hr)
    | writeFailed mode part notify nf =>
      obtain ⟨r, hr, rfl⟩ := Option.map_eq_some_iff.mp hstep
      exact hcall htodo (by rw [callOf, hr]; rfl) (writeFailed_made hr)
    | pause nf =>
      obtain ⟨r, hr, rfl⟩ := Option.map_eq_some_iff.mp hstep
      exact hcall htodo (by rw [callOf, hr]; rfl) (changeMode_made hr)
    | resume nf =>
      obtain ⟨r, hr, rfl⟩ := Option.map_eq_some_iff.mp hstep
      exact hcall htodo (by rw [callOf, hr]; rfl) (changeMode_made hr)
    | expireModes found expired =>
      cases hstep
      refine hquiet htodo rfl (expireModes_made found expired) ?_
      unfold StorageContainer.expireModes
      dsimp only
      split <;> rfl
    | notify =>
      obtain ⟨r, hr, rfl⟩ := Option.map_eq_some_iff.mp hstep
      refine hquiet htodo rfl (notify_made hr) ?_
      obtain ⟨m, -, rfl⟩ := Option.map_eq_some_iff.mp hr
      rfl
    | terminate =>
      cases hstep
      exact hquiet htodo rfl terminate_made rfl
    | connect b =>
      simp only at hstep
      split at hstep
      · unfold STCSession.connect at hstep
        split at hstep
        · cases hstep
          exact hidle htodo rfl (h.same ⟨rfl, rfl, rfl, rfl, fun _ => rfl⟩)
        · cases hstep
      · cases hstep
    | writable io =>
      obtain ⟨c, -, hstep⟩ := Option.bind_eq_some_iff.mp hstep
      split at hstep
      · cases hstep
        exact hidle htodo rfl (h.same (writable_sameFiles w c io))
      · cases hstep
    | disconnect =>
      obtain ⟨c, -, rfl⟩ := Option.map_eq_some_iff.mp hstep
      exact hidle htodo rfl (h.same (delete_sameFiles w c))
    | proceed status io => cases hstep

theorem kept_start (maxSendChunk maxFileSize : Nat) : Kept [] (start maxSendChunk maxFileSize) :=
  ⟨fun _ => rfl, List.Perm.refl _, fun _ _ => rfl⟩

end Runs

end Adara.Spec.FileBytes
