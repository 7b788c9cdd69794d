import Adara.Native.STCClient
import Adara.Spec.StorageContainer
import Adara.Spec.StorageFile
import Adara.ForStd.Runs

/-! # The end of a run's data

An STC client sends `DATA_DONE` when its list of files runs out and the container is no
longer active.  That every byte of the run has been sent by then needs that nothing is
left to be announced, and `terminate` clears the flag before it announces the files that
are deferred in the current pause mode.  Where these are two or more (a file of the mode
was rolled over while an older mode was still stacked), the first one can be sent to its
end, or skipped, before the next is announced: `DATA_DONE` is then sent too early, and
again after the last file.

The results below are about the runs in which no file that is announced after the flag
is cleared, with others behind it, leaves the client with an empty list. -/

namespace Adara.Spec.STCClient

open Adara.Native Adara.Native.STCSession Runs
open Adara.Spec.StorageFile (Grown GrownFile)
open Adara.Spec.StorageContainer (Inv announced openFiles)

/-! ### What has been sent -/

/-- A file that is not sent: it is paused, and paused data is left out. -/
def leftOut (store : FileStore) (sendPausedData : Bool) (f : FileId) : Bool :=
  (store f).paused && !sendPausedData

/-- What is to be sent of a file. -/
def content (store : FileStore) (sendPausedData : Bool) (f : FileId) : List UInt8 :=
  if leftOut store sendPausedData f then [] else (store f).bytes

/-- The bytes of files among what was sent. -/
def socketBytes (items : List STCItem) : List UInt8 :=
  items.flatMap fun
    | .bytes bs => bs
    | .dataDone => []

/-- `DATA_DONE` is sent once and last, when every file of the container that is to be sent
    has been sent in full. -/
structure EndsRight (w : STCSession) : Prop where
  last : .dataDone ∈ w.socket → ∃ items, w.socket = items ++ [.dataDone] ∧ .dataDone ∉ items
  complete : ∀ c, w.client = some c → .dataDone ∈ w.socket →
    (∀ f < w.cont.created, f ∈ w.cont.files) ∧
      socketBytes w.socket = w.cont.files.flatMap (content w.cont.store c.sendPausedData)

/-- The first visit of a file would take it off the list: it is skipped, or it has ended
    and is sent in one piece. -/
def sentAtOnce (w : STCSession) (c : STCClient) (f : FileId) (io : STCVisitIO) : Bool :=
  let file := w.cont.store f
  leftOut w.cont.store c.sendPausedData f ||
    ((file.getFd io.opens).isSome && !file.active && decide (file.size ≤ w.maxSendChunk) &&
      match io.kernel with
      | .room n => decide (file.size ≤ n)
      | _ => false)

/-- A file is announced to a client that is waiting for one, when the container is no
    longer active and more files are to follow, and the client would be done with it at
    once. -/
def earlyEnd (w : STCSession) : STCSession.Event → Bool
  | .proceed _ io =>
    match w.client, w.todo with
    | some c, .added f :: todo =>
      !w.cont.active && announced todo ≠ [] && c.contConnection && c.files = [] && !c.write &&
        sentAtOnce w c f (io.visits.headD ⟨true, .again⟩)
    | _, _ => false
  | _ => false

/-- At this event no file leaves the client with an empty list too early. -/
def NoEarlyEnd (w : STCSession) (ev : STCSession.Event) : Prop := earlyEnd w ev = false

instance (w : STCSession) (ev : STCSession.Event) : Decidable (NoEarlyEnd w ev) :=
  inferInstanceAs (Decidable (_ = _))

@[simp] theorem socketBytes_concat (items : List STCItem) (bs : List UInt8) :
    socketBytes (items ++ [.bytes bs]) = socketBytes items ++ bs := by
  simp [socketBytes]

@[simp] theorem socketBytes_done (items : List STCItem) :
    socketBytes (items ++ [.dataDone]) = socketBytes items := by
  simp [socketBytes]

/-! ### The invariant -/

/-- What has been sent of the front file. -/
def frontBytes (store : FileStore) (c : STCClient) : List UInt8 :=
  match c.files with
  | f :: _ => (store f).bytes.take c.curOffset
  | [] => []

/-- A client that has not yet come to the end of the run. -/
structure Sending (w : STCSession) (c : STCClient) : Prop where
  cont : Inv w.cont w.todo
  connection : c.contConnection = false →
    w.cont.pauseModeStack = [] ∧ announced w.todo = []
  taken : ∃ taken, w.cont.files = taken ++ c.files ∧
    (∀ f ∈ taken, leftOut w.cont.store c.sendPausedData f ∨ (w.cont.store f).active = false) ∧
    socketBytes w.socket =
      taken.flatMap (content w.cont.store c.sendPausedData) ++ frontBytes w.cont.store c
  offset : c.curOffset ≠ 0 → ∃ f ∈ c.files.head?,
    leftOut w.cont.store c.sendPausedData f = false ∧ c.curOffset ≤ (w.cont.store f).size
  fileFd : ∀ fd, c.fileFd = some fd →
    c.files.head? = some fd ∧ leftOut w.cont.store c.sendPausedData fd = false
  fileConnection : ∀ f, c.fileConnection = some f → c.files.head? = some f
  notDone : .dataDone ∉ w.socket

/-- A client that has sent everything, and `DATA_DONE`. -/
structure Done (w : STCSession) (c : STCClient) : Prop where
  cont : Inv w.cont w.todo
  ended : w.cont.pauseModeStack = [] ∧ announced w.todo = []
  files : c.files = []
  write : c.write = false
  fileConnection : c.fileConnection = none
  inactive : ∀ f ∈ w.cont.files,
    leftOut w.cont.store c.sendPausedData f ∨ (w.cont.store f).active = false
  complete : socketBytes w.socket = w.cont.files.flatMap (content w.cont.store c.sendPausedData)
  last : ∃ items, w.socket = items ++ [.dataDone] ∧ .dataDone ∉ items

/-- The invariant of a run. -/
structure RunInv (w : STCSession) : Prop where
  cont : Inv w.cont w.todo
  last : .dataDone ∈ w.socket → ∃ items, w.socket = items ++ [.dataDone] ∧ .dataDone ∉ items
  client : ∀ c, w.client = some c → Sending w c ∨ Done w c

theorem RunInv.endsRight {w : STCSession} (h : RunInv w) : EndsRight w := by
  refine ⟨h.last, fun c hc hdone => ?_⟩
  obtain hs | hd := h.client c hc
  · exact absurd hdone hs.notDone
  · refine ⟨fun f hf => ?_, hd.complete⟩
    obtain hmem | hmem | hmem := (hd.cont.created f).mp hf
    · exact hmem
    · rw [hd.ended.1] at hmem
      exact nomatch hmem
    · rw [hd.ended.2] at hmem
      exact nomatch hmem

/-! ### Changes of the files -/

theorem leftOut_grown {store store' : FileStore} {f : FileId}
    (hg : GrownFile (store f) (store' f)) (b : Bool) : leftOut store' b f = leftOut store b f := by
  rw [leftOut, leftOut, hg.2.1]

/-- What is to be sent of the files that are done with stays the same. -/
theorem contents_grown {store store' : FileStore} {b : Bool} {fs : List FileId}
    (hg : ∀ f ∈ fs, GrownFile (store f) (store' f))
    (hdone : ∀ f ∈ fs, leftOut store b f ∨ (store f).active = false) :
    fs.flatMap (content store' b) = fs.flatMap (content store b) := by
  refine List.flatMap_congr fun f hf => ?_
  rw [content, content, leftOut_grown (hg f hf)]
  split
  · rfl
  · rename_i hl
    obtain h | h := hdone f hf
    · exact absurd h hl
    · exact ((hg f hf).2.2 h).2

/-- The files that are done with stay so. -/
theorem inactive_grown {store store' : FileStore} {b : Bool} {f : FileId}
    (hg : GrownFile (store f) (store' f))
    (hdone : leftOut store b f ∨ (store f).active = false) :
    leftOut store' b f ∨ (store' f).active = false := by
  rw [leftOut_grown hg]
  exact hdone.imp id fun h => (hg.2.2 h).1

/-- A client is not disturbed by what happens to the container. -/
theorem Sending.frame {w w' : STCSession} {c : STCClient} (h : Sending w c)
    (hcont : Inv w'.cont w'.todo)
    (hconn : w.cont.pauseModeStack = [] ∧ announced w.todo = [] →
      w'.cont.pauseModeStack = [] ∧ announced w'.todo = [])
    (hfiles : w'.cont.files = w.cont.files)
    (hg : ∀ f ∈ w.cont.files, GrownFile (w.cont.store f) (w'.cont.store f))
    (hsocket : w'.socket = w.socket) : Sending w' c := by
  obtain ⟨taken, htaken, hinactive, hbytes⟩ := h.taken
  have hhead : ∀ f, c.files.head? = some f → f ∈ w.cont.files := by
    intro f hf
    rw [htaken]
    exact List.mem_append_right _ (List.mem_of_mem_head? hf)
  have htk : ∀ f ∈ taken, f ∈ w.cont.files := fun f hf => by
    rw [htaken]
    exact List.mem_append_left _ hf
  refine ⟨hcont, fun hc => hconn (h.connection hc), ⟨taken, hfiles.trans htaken, ?_, ?_⟩, ?_, ?_,
    h.fileConnection, by rw [hsocket]; exact h.notDone⟩
  · exact fun f hf => inactive_grown (hg f (htk f hf)) (hinactive f hf)
  · rw [hsocket, hbytes, contents_grown (fun f hf => hg f (htk f hf)) hinactive]
    congr 1
    -- the front file may have grown past what was sent of it
    unfold frontBytes
    split
    · rename_i f rest hf
      have hgf := hg f (hhead f (by rw [hf]; rfl))
      by_cases h0 : c.curOffset = 0
      · rw [h0, List.take_zero, List.take_zero]
      · obtain ⟨f', hf', -, hle⟩ := h.offset h0
        rw [hf] at hf'
        cases hf'
        exact (StorageFile.take_grown hgf.1 hle).symm
    · rfl
  · intro h0
    obtain ⟨f, hf, hl, hle⟩ := h.offset h0
    have hgf := hg f (hhead f hf)
    exact ⟨f, hf, (leftOut_grown hgf _).trans hl, Nat.le_trans hle hgf.1.length_le⟩
  · intro fd hfd
    obtain ⟨hf, hl⟩ := h.fileFd fd hfd
    exact ⟨hf, (leftOut_grown (hg fd (hhead fd hf)) _).trans hl⟩

theorem Done.frame {w w' : STCSession} {c : STCClient} (h : Done w c)
    (hcont : Inv w'.cont w'.todo)
    (hended : w'.cont.pauseModeStack = [] ∧ announced w'.todo = [])
    (hfiles : w'.cont.files = w.cont.files)
    (hg : ∀ f ∈ w.cont.files, GrownFile (w.cont.store f) (w'.cont.store f))
    (hsocket : w'.socket = w.socket) : Done w' c := by
  refine ⟨hcont, hended, h.files, h.write, h.fileConnection, ?_, ?_, by rw [hsocket]; exact h.last⟩
  · intro f hf
    rw [hfiles] at hf
    exact inactive_grown (hg f hf) (h.inactive f hf)
  · rw [hsocket, hfiles, h.complete, contents_grown hg h.inactive]

/-- The run goes on undisturbed. -/
theorem RunInv.frame {w w' : STCSession} (h : RunInv w) (hcont : Inv w'.cont w'.todo)
    (hconn : w.cont.pauseModeStack = [] ∧ announced w.todo = [] →
      w'.cont.pauseModeStack = [] ∧ announced w'.todo = [])
    (hfiles : w'.cont.files = w.cont.files)
    (hg : ∀ f ∈ w.cont.files, GrownFile (w.cont.store f) (w'.cont.store f))
    (hsocket : w'.socket = w.socket) (hclient : w'.client = w.client) : RunInv w' := by
  refine ⟨hcont, by rw [hsocket]; exact h.last, fun c hc => ?_⟩
  obtain hs | hd := h.client c (hclient ▸ hc)
  · exact .inl (hs.frame hcont hconn hfiles hg hsocket)
  · exact .inr (hd.frame hcont (hconn hd.ended) hfiles hg hsocket)

/-! ### Sending -/

/-- Nothing of the run changes but what is known of the files' descriptors, and the bytes
    sent. -/
structure SameRun (w w' : STCSession) : Prop where
  todo : w'.todo = w.todo
  active : w'.cont.active = w.cont.active
  stack : w'.cont.pauseModeStack = w.cont.pauseModeStack

theorem SameRun.refl (w : STCSession) : SameRun w w := ⟨rfl, rfl, rfl⟩

theorem SameRun.trans {w₁ w₂ w₃ : STCSession} (h : SameRun w₁ w₂) (h' : SameRun w₂ w₃) :
    SameRun w₁ w₃ :=
  ⟨h'.todo.trans h.todo, h'.active.trans h.active, h'.stack.trans h.stack⟩

/-- A file is opened or closed. -/
theorem Sending.setFile {w : STCSession} {c : STCClient} (h : Sending w c) {f : FileId}
    {file : StorageFile}
    (hsame : file.bytes = (w.cont.store f).bytes ∧ file.active = (w.cont.store f).active ∧
      file.paused = (w.cont.store f).paused) : Sending (w.setFile f file) c :=
  h.frame (h.cont.setFile hsame.2.1) id rfl (fun g _ => Grown.of_same hsame g) rfl

/-- The front file is done with. -/
theorem Sending.erase {w : STCSession} {c : STCClient} {f : FileId} {rest : List FileId}
    (h : Sending w c) (hfiles : c.files = f :: rest) (hfd : c.fileFd = none)
    (hend : (leftOut w.cont.store c.sendPausedData f = true ∧ c.curOffset = 0) ∨
      (leftOut w.cont.store c.sendPausedData f = false ∧ (w.cont.store f).active = false ∧
        c.curOffset = (w.cont.store f).size)) :
    Sending w (w.erase { c with curOffset := 0 } rest) := by
  obtain ⟨taken, htaken, hinactive, hbytes⟩ := h.taken
  rw [hfiles] at htaken
  have hfront : frontBytes w.cont.store c = content w.cont.store c.sendPausedData f := by
    unfold frontBytes content
    rw [hfiles]
    obtain ⟨hl, h0⟩ | ⟨hl, -, hoff⟩ := hend
    · simp only [hl, h0, List.take_zero, if_true]
    · simp only [hl, hoff, StorageFile.size, List.take_length, Bool.false_eq_true, if_false]
  refine ⟨h.cont, h.connection, ⟨taken ++ [f], by simp [htaken, STCSession.erase], ?_, ?_⟩, ?_, ?_,
    ?_, h.notDone⟩
  · intro g hg
    obtain hg | rfl := List.mem_append.mp hg |>.imp id List.mem_singleton.mp
    · exact hinactive g hg
    · exact hend.imp (·.1) (·.2.1)
  · rw [hbytes, hfront, List.flatMap_append, List.flatMap_singleton]
    show _ = _ ++ frontBytes w.cont.store (w.erase { c with curOffset := 0 } rest)
    cases rest with
    | nil => exact (List.append_nil _).symm
    | cons g rest =>
      show _ = _ ++ (w.cont.store g).bytes.take 0
      rw [List.take_zero, List.append_nil]
      rfl
  · intro h0
    exact absurd rfl h0
  · intro fd hfd'
    cases hfd.symm.trans hfd'
  · intro g hg
    cases rest with
    | nil => cases hg
    | cons g' rest =>
      have hg' : (if (w.cont.store g').active then some g' else none) = some g := hg
      split at hg' <;> cases hg'
      rfl

/-- How a visit leaves the run. -/
structure Visited (w : STCSession) (rest : List FileId)
    (r : STCSession × STCClient × STCExit) : Prop where
  sending : Sending r.1 r.2.1
  same : SameRun w r.1
  next : r.2.2 = .next → r.2.1.files = rest

theorem send_visited {w : STCSession} {c : STCClient} {f : FileId} {rest : List FileId}
    (h : Sending w c) (hfiles : c.files = f :: rest) (hfd : c.fileFd = some f) (k : Kernel) :
    Visited w rest (w.send c f rest f k) := by
  obtain ⟨hhead, hleft⟩ := h.fileFd f hfd
  unfold send
  simp only
  split
  · exact ⟨h, SameRun.refl w, fun hn => nomatch hn⟩
  · exact ⟨h, SameRun.refl w, fun hn => nomatch hn⟩
  · rename_i bs hsend
    obtain ⟨htake, hlen⟩ := sendfile_bytes hsend
    have hsent : Sending { w with socket := w.socket ++ [.bytes bs] }
        { c with curOffset := c.curOffset + bs.length } := by
      obtain ⟨taken, htaken, hinactive, hbytes⟩ := h.taken
      refine ⟨h.cont, h.connection, ⟨taken, htaken, hinactive, ?_⟩, ?_, h.fileFd, h.fileConnection,
        ?_⟩
      · have hfront : frontBytes w.cont.store c = (w.cont.store f).bytes.take c.curOffset := by
          unfold frontBytes
          rw [hfiles]
        have hfront' : frontBytes w.cont.store { c with curOffset := c.curOffset + bs.length } =
            (w.cont.store f).bytes.take (c.curOffset + bs.length) := by
          unfold frontBytes
          rw [hfiles]
        show socketBytes (w.socket ++ [.bytes bs]) =
          taken.flatMap (content w.cont.store c.sendPausedData) ++
            frontBytes w.cont.store { c with curOffset := c.curOffset + bs.length }
        rw [socketBytes_concat, hbytes, hfront, hfront', htake, List.append_assoc]
      · intro h0
        refine ⟨f, hhead, hleft, ?_⟩
        obtain hz | hle := hlen
        · have h0' : c.curOffset ≠ 0 := fun hc => h0 (by show c.curOffset + bs.length = 0; omega)
          obtain ⟨g, hg, -, hle⟩ := h.offset h0'
          cases hhead.symm.trans hg
          show c.curOffset + bs.length ≤ _
          rw [hz]
          exact hle
        · exact hle
      · intro hm
        obtain hm | hm := List.mem_append.mp hm
        · exact h.notDone hm
        · exact nomatch List.mem_singleton.mp hm
    split
    · exact ⟨hsent, ⟨rfl, rfl, rfl⟩, fun hn => nomatch hn⟩
    · rename_i hend
      split
      · exact ⟨hsent, ⟨rfl, rfl, rfl⟩, fun hn => nomatch hn⟩
      · rename_i hinactive
        -- the file has ended: its descriptor is closed, and it is taken off the list
        refine ⟨?_, ⟨rfl, rfl, rfl⟩, fun _ => rfl⟩
        have hput : Sending ({ w with socket := w.socket ++ [STCItem.bytes bs] }.setFile f
            (w.cont.store f).putFd) _ := hsent.setFile ⟨rfl, rfl, rfl⟩
        have hclosed : Sending ({ w with socket := w.socket ++ [STCItem.bytes bs] }.setFile f
            (w.cont.store f).putFd)
            { c with curOffset := c.curOffset + bs.length, fileFd := none } :=
          ⟨hput.cont, hput.connection, hput.taken, hput.offset, fun _ hn => (nomatch hn),
            hput.fileConnection, hput.notDone⟩
        refine hclosed.erase hfiles rfl (.inr ⟨?_, ?_, ?_⟩)
        · show ((Function.update w.cont.store f (w.cont.store f).putFd f).paused && _) = false
          rw [Function.update_self]
          exact hleft
        · show (Function.update w.cont.store f (w.cont.store f).putFd f).active = false
          rw [Function.update_self]
          simpa using hinactive
        · show c.curOffset + bs.length =
            (Function.update w.cont.store f (w.cont.store f).putFd f).size
          rw [Function.update_self]
          exact not_not.mp hend

theorem visit_visited {w : STCSession} {c : STCClient} {f : FileId} {rest : List FileId}
    (h : Sending w c) (hfiles : c.files = f :: rest) (io : STCVisitIO) :
    Visited w rest (w.visit c f rest io) := by
  unfold visit
  split
  · rename_i hskip
    simp only [skips, Bool.and_eq_true, beq_iff_eq, Bool.not_eq_true'] at hskip
    obtain ⟨⟨hpaused, h0⟩, hsend⟩ := hskip
    have hleft : leftOut w.cont.store c.sendPausedData f = true := by
      rw [leftOut, hpaused, hsend]
      rfl
    have hfd : c.fileFd = none := by
      refine Option.eq_none_iff_forall_ne_some.mpr fun fd hfd => ?_
      obtain ⟨hhead, hl⟩ := h.fileFd fd hfd
      rw [hfiles] at hhead
      cases hhead
      exact absurd (hleft.symm.trans hl) (by decide)
    have herase := h.erase hfiles hfd (.inl ⟨hleft, h0⟩)
    have hc : { c with curOffset := 0 } = c := by rw [← h0]
    rw [hc] at herase
    exact ⟨herase, SameRun.refl w, fun _ => rfl⟩
  · rename_i hskip
    split
    · rename_i fd hfd
      obtain ⟨hhead, -⟩ := h.fileFd fd hfd
      rw [hfiles] at hhead
      cases hhead
      exact send_visited h hfiles hfd io.kernel
    · rename_i hfd
      split
      · exact ⟨h, SameRun.refl w, fun hn => nomatch hn⟩
      · rename_i file hopen
        have hsame := StorageFile.getFd_bytes hopen
        have hopened := h.setFile hsame
        -- a file that is left out is skipped at its first visit
        have hleft : leftOut w.cont.store c.sendPausedData f = false := by
          by_contra hl
          have hl : leftOut w.cont.store c.sendPausedData f = true := by simpa using hl
          have h0 : c.curOffset = 0 := by
            by_contra h0
            obtain ⟨g, hg, hlg, -⟩ := h.offset h0
            rw [hfiles] at hg
            cases hg
            exact absurd (hl.symm.trans hlg) (by decide)
          rw [leftOut, Bool.and_eq_true, Bool.not_eq_true'] at hl
          exact hskip (by simp [skips, hl.1, hl.2, h0])
        have hfd' : Sending (w.setFile f file) { c with fileFd := some f } := by
          refine ⟨hopened.cont, hopened.connection, hopened.taken, hopened.offset, ?_,
            hopened.fileConnection, hopened.notDone⟩
          rintro fd hfd'
          cases hfd'
          refine ⟨by rw [hfiles]; rfl, ?_⟩
          exact (leftOut_grown (Grown.of_same hsame f) _).trans hleft
        obtain ⟨hs, hr, hn⟩ := send_visited hfd' hfiles rfl io.kernel
        have hset : SameRun w (w.setFile f file) := ⟨rfl, rfl, rfl⟩
        exact ⟨hs, hset.trans hr, hn⟩

theorem sendFiles_visited (files : List FileId) :
    ∀ {w : STCSession} {c : STCClient} (ios : List STCVisitIO), Sending w c → c.files = files →
      Visited w [] (w.sendFiles c files ios) := by
  induction files with
  | nil => exact fun ios h hfiles => ⟨h, SameRun.refl _, fun _ => hfiles⟩
  | cons f rest ih =>
    intro w c ios h hfiles
    have hv := visit_visited h hfiles (ios.headD ⟨true, .again⟩)
    unfold sendFiles
    split
    · rename_i w₁ c₁ hvisit
      rw [hvisit] at hv
      obtain ⟨hs, hr, hn⟩ := ih ios.tail hv.sending (hv.next rfl)
      exact ⟨hs, hv.same.trans hr, hn⟩
    · rename_i hnext
      generalize w.visit c f rest (ios.headD ⟨true, .again⟩) = r at hv hnext
      obtain ⟨w₁, c₁, exit⟩ := r
      refine ⟨hv.sending, hv.same, fun hn => ?_⟩
      cases hn
      exact absurd rfl (hnext w₁ c₁)

/-- Waiting for room or not makes no difference to what has been sent. -/
theorem Sending.setWrite {w : STCSession} {c : STCClient} (h : Sending w c) (b : Bool) :
    RunInv { w with client := some { c with write := b } } := by
  refine ⟨h.cont, fun hd => absurd hd h.notDone, fun c' hc' => .inl ?_⟩
  cases hc'
  exact ⟨h.cont, h.connection, h.taken, h.offset, h.fileFd, h.fileConnection, h.notDone⟩

theorem Sending.delete {w : STCSession} {c : STCClient} (h : Sending w c) :
    RunInv (w.delete c) := by
  unfold STCSession.delete
  simp only
  split
  · exact ⟨h.cont.setFile rfl, fun hd => absurd hd h.notDone, fun c' hc' => nomatch hc'⟩
  · exact ⟨h.cont, fun hd => absurd hd h.notDone, fun c' hc' => nomatch hc'⟩

/-- The list has run out and the container is no longer active: where nothing is left to
    be announced, everything has been sent. -/
theorem Sending.done {w : STCSession} {c : STCClient} (h : Sending w c) (hfiles : c.files = [])
    (hactive : w.cont.active = false) (hann : announced w.todo = []) (sent : Bool) :
    RunInv { w.sendDataDone sent with client := some { c with write := false } } := by
  cases sent with
  | false => exact h.setWrite false
  | true =>
    have hlast : ∃ items, w.socket ++ [STCItem.dataDone] = items ++ [.dataDone] ∧
        STCItem.dataDone ∉ items := ⟨w.socket, rfl, h.notDone⟩
    refine ⟨h.cont, fun _ => hlast, fun c' hc' => .inr ?_⟩
    cases hc'
    obtain ⟨taken, htaken, hinactive, hbytes⟩ := h.taken
    rw [hfiles, List.append_nil] at htaken
    have hstack : w.cont.pauseModeStack = [] := by
      by_contra hne
      exact absurd (hactive.symm.trans (h.cont.running hne).1) (by decide)
    have hconn : c.fileConnection = none := by
      refine Option.eq_none_iff_forall_ne_some.mpr fun f hf => ?_
      have hhead := h.fileConnection f hf
      rw [hfiles] at hhead
      exact nomatch hhead
    refine ⟨h.cont, ⟨hstack, hann⟩, hfiles, rfl, hconn, ?_, ?_, hlast⟩
    · show ∀ f ∈ w.cont.files, _
      rw [htaken]
      exact hinactive
    · have hfront : frontBytes w.cont.store c = [] := by
        unfold frontBytes
        rw [hfiles]
      show socketBytes (w.socket ++ [.dataDone]) =
        w.cont.files.flatMap (content w.cont.store c.sendPausedData)
      rw [socketBytes_done, hbytes, hfront, List.append_nil, htaken]

/-- `writable` keeps the invariant, unless its list runs out too early. -/
theorem writable_inv {w : STCSession} {c : STCClient} (h : Sending w c) (io : STCCallIO)
    (hend : w.cont.active = false → (w.sendFiles c c.files io.visits).2.2 = .next →
      announced w.todo = []) : RunInv (w.writable c io) := by
  obtain ⟨hs, hr, hn⟩ := sendFiles_visited c.files io.visits h rfl
  unfold writable
  split <;> rename_i w₁ c₁ hsend <;> rw [hsend] at hs hr hn hend
  · simp only
    split
    · exact hs.setWrite false
    · rename_i hactive
      have hactive : w₁.cont.active = false := by simpa using hactive
      refine hs.done (hn rfl) hactive ?_ io.doneSent
      rw [hr.todo]
      exact hend (hr.active ▸ hactive) rfl
  · exact hs.setWrite false
  · split
    · exact hs.setWrite c₁.write
    · split
      · exact hs.setWrite true
      · exact hs.delete
  · exact hs.delete

/-! ### Announcements and updates -/

/-- A file is put on the list. -/
theorem Sending.push {w : STCSession} {c : STCClient} {f : FileId} {todo : List Action}
    (h : Sending w c) (htodo : w.todo = .added f :: todo) (o : Option FileId)
    (hconn : ∀ g, o = some g → (c.files ++ [f]).head? = some g) :
    Sending { w with cont := { w.cont with files := w.cont.files ++ [f] }, todo }
      { c with files := c.files ++ [f], fileConnection := o } := by
  obtain ⟨taken, htaken, hinactive, hbytes⟩ := h.taken
  have hhead : ∀ g, c.files.head? = some g → (c.files ++ [f]).head? = some g := by
    intro g hg
    cases hf : c.files with
    | nil => rw [hf] at hg; exact nomatch hg
    | cons e rest => rw [hf] at hg; exact hg
  have hcont := h.cont
  rw [htodo] at hcont
  refine ⟨hcont.added, fun hc => ?_, ⟨taken, ?_, hinactive, ?_⟩, ?_, ?_, hconn, h.notDone⟩
  · have hann := (h.connection hc).2
    rw [htodo] at hann
    exact nomatch hann
  · show w.cont.files ++ [f] = taken ++ (c.files ++ [f])
    rw [htaken, List.append_assoc]
  · show socketBytes w.socket = taken.flatMap (content w.cont.store c.sendPausedData) ++ _
    rw [hbytes]
    congr 1
    unfold frontBytes
    cases hf : c.files with
    | nil =>
      have h0 : c.curOffset = 0 := by
        by_contra h0
        obtain ⟨g, hg, -⟩ := h.offset h0
        rw [hf] at hg
        exact nomatch hg
      show [] = (w.cont.store f).bytes.take c.curOffset
      rw [h0, List.take_zero]
    | cons e rest => rfl
  · intro h0
    obtain ⟨g, hg, hrest⟩ := h.offset h0
    exact ⟨g, hhead g hg, hrest⟩
  · intro fd hfd
    obtain ⟨hg, hl⟩ := h.fileFd fd hfd
    exact ⟨hhead fd hg, hl⟩

/-- A visit goes on to the next file only if the file was skipped or sent at once. -/
theorem sentAtOnce_of_next {w : STCSession} {c : STCClient} {f : FileId} (rest : List FileId)
    {io : STCVisitIO} (hfd : c.fileFd = none) (h0 : c.curOffset = 0)
    (hnext : (w.visit c f rest io).2.2 = .next) : sentAtOnce w c f io = true := by
  unfold sentAtOnce
  simp only [Bool.or_eq_true]
  unfold visit at hnext
  split at hnext
  · rename_i hskip
    simp only [skips, Bool.and_eq_true, Bool.not_eq_true'] at hskip
    exact .inl (by simp [leftOut, hskip.1.1, hskip.2])
  · right
    rw [hfd] at hnext
    simp only at hnext
    split at hnext
    · exact nomatch hnext
    · rename_i file hopen
      have hsame := StorageFile.getFd_bytes hopen
      have hstore : (w.setFile f file).cont.store f = file := Function.update_self _ _ _
      unfold send at hnext
      rw [hstore, h0] at hnext
      simp only at hnext
      split at hnext
      · exact nomatch hnext
      · exact nomatch hnext
      · rename_i bs hsend
        split at hnext
        · exact nomatch hnext
        · rename_i hend
          split at hnext
          · exact nomatch hnext
          · rename_i hinactive
            have hsize : file.size = (w.cont.store f).size := congrArg List.length hsame.1
            -- the whole file went in one piece
            unfold sendfile at hsend
            split at hsend
            · rename_i n hkernel
              split at hsend
              · cases hsend
              · injection hsend with hsend
                have hlen := congrArg List.length hsend
                rw [List.length_take, List.drop_zero] at hlen
                have hchunk : (w.setFile f file).maxSendChunk = w.maxSendChunk := rfl
                have hbs : bs.length = file.size := by
                  have := not_not.mp hend
                  omega
                have hbytes : file.bytes.length = file.size := rfl
                have hle : file.size ≤ w.maxSendChunk ∧ file.size ≤ n := by
                  rw [hchunk, hbs, hbytes] at hlen
                  omega
                have hact : (w.cont.store f).active = false := by
                  rw [← hsame.2.1]
                  simpa using hinactive
                rw [hkernel, ← hsize, hopen, hact]
                simp [hle.1, hle.2]
            · cases hsend
            · cases hsend

/-- A client with an empty list hears of a file: it is not done with it at once when more
    are to follow. -/
theorem sendFiles_next {w : STCSession} {c : STCClient} {f : FileId} {ios : List STCVisitIO}
    (hnext : (w.sendFiles c [f] ios).2.2 = .next) (hfd : c.fileFd = none)
    (h0 : c.curOffset = 0) :
    sentAtOnce w c f (ios.headD ⟨true, .again⟩) = true := by
  refine sentAtOnce_of_next [] hfd h0 ?_
  unfold sendFiles at hnext
  split at hnext
  · rename_i hvisit
    rw [hvisit]
  · exact hnext

/-- `m_newFile` is signalled for a file that is announced. -/
theorem added_inv {w : STCSession} (h : RunInv w) {f : FileId} {todo : List Action}
    (htodo : w.todo = .added f :: todo) (status : List UInt8) (io : STCCallIO)
    (hok : NoEarlyEnd w (.proceed status io)) :
    RunInv ({ w with todo }.act status io (.added f)) := by
  have hcont := h.cont
  rw [htodo] at hcont
  unfold act newFile
  simp only
  split
  · rename_i c hclient
    obtain hs | hd := h.client c hclient
    · have hc : c.contConnection = true := by
        by_contra hc
        have hann := (hs.connection (by simpa using hc)).2
        rw [htodo] at hann
        exact nomatch hann
      rw [if_pos hc]
      unfold fileAdded
      split
      · rename_i hempty
        simp only
        have hpush := hs.push htodo
          (if c.fileConnection = none ∧ (w.cont.store f).active then some f else c.fileConnection)
          (fun g hg => by
            rw [hempty]
            split at hg
            · exact hg
            · have := hs.fileConnection g hg
              rw [hempty] at this
              exact nomatch this)
        rw [hempty] at hpush
        split
        · exact hpush.setWrite c.write
        · rename_i hwrite
          -- the client was waiting for a file, and starts with this one
          refine writable_inv hpush io fun hactive hnext => ?_
          have hfd : c.fileFd = none := by
            refine Option.eq_none_iff_forall_ne_some.mpr fun fd hfd => ?_
            have := (hs.fileFd fd hfd).1
            rw [hempty] at this
            exact nomatch this
          have h0 : c.curOffset = 0 := by
            by_contra h0
            obtain ⟨g, hg, -⟩ := hs.offset h0
            rw [hempty] at hg
            exact nomatch hg
          by_contra hne
          have hearly := sendFiles_next hnext hfd h0
          have hactive' : w.cont.active = false := hactive
          have hne' : announced todo ≠ [] := hne
          have hwrite' : c.write = false := by simpa using hwrite
          have : earlyEnd w (.proceed status io) = true := by
            unfold earlyEnd
            simp only [hclient, htodo, hactive', hc, hempty, hwrite', ne_eq, hne', not_false_eq_true,
              decide_true, Bool.not_false, Bool.and_self, Bool.true_and]
            exact hearly
          exact absurd (hok.symm.trans this) (by decide)
      · rename_i hne
        refine (hs.push htodo c.fileConnection fun g hg => ?_).setWrite c.write
        have := hs.fileConnection g hg
        cases hf : c.files with
        | nil => exact absurd hf hne
        | cons e rest => rw [hf] at this; exact this
    · have hann := hd.ended.2
      rw [htodo] at hann
      exact nomatch hann
  · rename_i hclient
    exact ⟨hcont.added, h.last, fun c hc => nomatch hclient.symm.trans hc⟩

/-- `m_update` of a file is signalled, where nothing is left to be announced once the
    container has ended. -/
theorem update_inv {w : STCSession} (h : RunInv w) (f : FileId) (io : STCCallIO)
    (hend : w.cont.active = false → announced w.todo = []) : RunInv (w.update f io) := by
  unfold update
  split
  · rename_i c hclient
    split
    · rename_i hconn
      obtain hs | hd := h.client c hclient
      · unfold fileUpdated
        simp only
        have hs' : Sending w (if (w.cont.store f).active then c else { c with fileConnection := none }) := by
          split
          · exact hs
          · exact ⟨hs.cont, hs.connection, hs.taken, hs.offset, hs.fileFd, fun _ hn => (nomatch hn),
              hs.notDone⟩
        generalize (if (w.cont.store f).active then c else { c with fileConnection := none }) = c' at hs'
        split
        · exact hs'.setWrite c'.write
        · exact writable_inv hs' io fun hactive _ => hend hactive
      · exact nomatch hd.fileConnection.symm.trans hconn
    · exact h
  · exact h

/-- A file changes under the run. -/
theorem RunInv.setFile {w : STCSession} (h : RunInv w) {f : FileId} {file : StorageFile}
    (hcont : Inv (w.setFile f file).cont w.todo)
    (hg : Grown w.cont.store (Function.update w.cont.store f file)) : RunInv (w.setFile f file) :=
  h.frame hcont id rfl (fun g _ => hg g) rfl rfl

/-- An action that announces nothing is taken from the list. -/
theorem RunInv.tail {w : STCSession} (h : RunInv w) {a : Action} {todo : List Action}
    (htodo : w.todo = a :: todo) (ha : ∀ f, a ≠ .added f) : RunInv { w with todo } := by
  have hcont := h.cont
  rw [htodo] at hcont
  refine h.frame (hcont.tail ha) (fun hn => ⟨hn.1, ?_⟩) rfl (fun g _ => GrownFile.refl _) rfl rfl
  have hann := hn.2
  rw [htodo] at hann
  cases a with
  | added f => exact nomatch hann
  | _ => exact hann

/-- Once the container has ended, an action that announces nothing comes last. -/
theorem RunInv.announced_nil {w : STCSession} (h : RunInv w) {a : Action} {todo : List Action}
    (htodo : w.todo = a :: todo) (ha : ∀ f, a ≠ .added f) (hactive : w.cont.active = false) :
    announced todo = [] := by
  have hcont := h.cont
  rw [htodo] at hcont
  exact (hcont.ended hactive).announced ha

theorem notify_bytes (maxFileSize : Nat) (f : StorageFile) :
    (f.notify maxFileSize).1.bytes = f.bytes ∧ (f.notify maxFileSize).1.active = f.active ∧
      (f.notify maxFileSize).1.paused = f.paused := by
  unfold StorageFile.notify
  simp only
  split <;> split <;> exact ⟨rfl, rfl, rfl⟩

/-- One action of a call keeps the invariant. -/
theorem act_inv {w : STCSession} (h : RunInv w) {a : Action} {todo : List Action}
    (htodo : w.todo = a :: todo) (status : List UInt8) (io : STCCallIO)
    (hok : NoEarlyEnd w (.proceed status io)) : RunInv ({ w with todo }.act status io a) := by
  have hcont := h.cont
  rw [htodo] at hcont
  cases a with
  | added f => exact added_inv h htodo status io hok
  | append f bs =>
    have ht := h.tail htodo fun g hg => (nomatch hg)
    obtain ⟨hact, -⟩ := hcont.targets _ List.mem_cons_self f rfl
    exact ht.setFile (ht.cont.setFile rfl)
      (Grown.of_active hact (List.prefix_append _ _) rfl)
  | notify f =>
    have ht := h.tail htodo fun g hg => (nomatch hg)
    have hsame := notify_bytes w.maxFileSize (w.cont.store f)
    have hset := ht.setFile (ht.cont.setFile hsame.2.1) (Grown.of_same hsame)
    unfold act
    simp only
    split <;> rename_i file hnotify <;> rw [hnotify] at hset
    · exact update_inv hset f io (h.announced_nil htodo fun g hg => (nomatch hg))
    · exact hset
  | terminate f =>
    have ht := h.tail htodo fun g hg => (nomatch hg)
    obtain ⟨hact, -⟩ := hcont.targets _ List.mem_cons_self f rfl
    have hset := ht.setFile (hcont.terminated ((w.cont.store f).terminate status))
      (Grown.of_active hact (List.prefix_append _ _) rfl)
    have hupd := update_inv hset f io (h.announced_nil htodo fun g hg => (nomatch hg))
    exact hupd.setFile (hupd.cont.setFile rfl) (Grown.of_same ⟨rfl, rfl, rfl⟩)
  | inactive =>
    have ht := h.tail htodo fun g hg => (nomatch hg)
    exact ht.frame hcont.inactive id rfl (fun g _ => GrownFile.refl _) rfl rfl

/-! ### Runs -/

/-- A call of the container begins. -/
theorem call_inv {w : STCSession} (h : RunInv w)
    {r : StorageContainer × List Action} (hr : StorageContainer.Call w.cont [] r) :
    RunInv (w.call r) := by
  refine h.frame hr.inv (fun hn => hr.ended hn.1) hr.files (fun f hf => ?_) rfl rfl
  have hlt : f < w.cont.created := (h.cont.created f).mpr (.inl hf)
  show GrownFile _ (r.1.store f)
  rw [hr.store f hlt]
  exact GrownFile.refl _

/-- A client starts to send the files there are. -/
theorem connect_inv {w w' : STCSession} (h : RunInv w) (htodo : w.todo = []) {b : Bool}
    (hw : w.connect b = some w') : RunInv w' := by
  unfold connect at hw
  split at hw
  · cases hw
    refine ⟨h.cont, fun hd => (nomatch hd), fun c hc => .inl ?_⟩
    cases hc
    refine ⟨h.cont, fun hactive => ⟨?_, ?_⟩, ⟨[], rfl, fun f hf => (nomatch hf), ?_⟩,
      fun h0 => absurd rfl h0, fun fd hfd => (nomatch hfd), fun f hf => ?_, fun hd => (nomatch hd)⟩
    · by_contra hne
      exact absurd (hactive.symm.trans (h.cont.running hne).1) (by decide)
    · show announced w.todo = []
      rw [htodo]
      rfl
    · show [] = [] ++ frontBytes _ _
      unfold frontBytes
      split
      · rename_i f rest hfiles
        show [] = (w.cont.store f).bytes.take 0
        rw [List.take_zero]
      · rfl
    · simp only at hf ⊢
      split at hf
      · rename_i g rest hfiles
        split at hf <;> cases hf
        rw [hfiles]
        rfl
      · cases hf
  · cases hw

theorem start_inv (maxSendChunk maxFileSize : Nat) : RunInv (start maxSendChunk maxFileSize) := by
  refine ⟨?_, fun hd => (nomatch hd), fun c hc => (nomatch hc)⟩
  refine ⟨fun f => ⟨fun hf => (nomatch hf), fun hf => ?_⟩, List.nodup_nil, fun f hf => (nomatch hf),
    fun a ha => (nomatch ha), List.Pairwise.nil, fun _ => ⟨rfl, fun hm => (nomatch hm)⟩,
    fun hf => (nomatch hf), fun post hpost => ?_⟩
  · obtain hf | hf | hf := hf <;> exact nomatch hf
  · exact nomatch hpost.subset List.mem_cons_self

/-- One event keeps the invariant, where no file leaves the client with an empty list too
    early. -/
theorem step_inv (w : STCSession) (ev : STCSession.Event) (w' : STCSession) (h : RunInv w)
    (hok : NoEarlyEnd w ev) (hstep : step w ev = some w') : RunInv w' := by
  -- the container calls that may have no result, as a call with nothing left to do
  have hcalls : ∀ {o : Option (StorageContainer × List Action)}, w.todo = [] →
      (∀ r, o = some r → StorageContainer.Call w.cont [] r) → o.map w.call = some w' →
      RunInv w' := by
    intro o htodo ho hw
    obtain ⟨r, hr, rfl⟩ := Option.map_eq_some_iff.mp hw
    exact call_inv h (ho r hr)
  cases htodo : w.todo with
  -- while a call is going on, only its next action can happen
  | cons a todo =>
    cases ev with
    | proceed status io =>
      simp only [step, htodo] at hstep
      cases hstep
      exact act_inv h htodo status io hok
    | _ => simp only [step, htodo] at hstep; cases hstep
  | nil =>
    have hcont : Inv w.cont [] := htodo ▸ h.cont
    unfold step at hstep
    rw [htodo] at hstep
    cases ev with
    | newFile paused nf =>
      obtain ⟨m, hm, rfl⟩ := Option.map_eq_some_iff.mp hstep
      have hm : w.cont.pauseModeStack[0]? = some m := List.head?_eq_getElem? ▸ hm
      exact call_inv h (StorageContainer.newFile_call hcont hm paused nf)
    | write mode pkt notify nf =>
      exact hcalls htodo (fun r hr => StorageContainer.write_call hcont hr) hstep
    | writeFailed mode part notify nf =>
      exact hcalls htodo (fun r hr => StorageContainer.writeFailed_call hcont hr) hstep
    | pause nf => exact hcalls htodo (fun r hr => StorageContainer.changeMode_call hcont hr) hstep
    | resume nf => exact hcalls htodo (fun r hr => StorageContainer.changeMode_call hcont hr) hstep
    | expireModes found expired =>
      cases hstep
      exact call_inv h (StorageContainer.expireModes_call hcont found expired)
    | notify => exact hcalls htodo (fun r hr => StorageContainer.notify_call hcont hr) hstep
    | terminate =>
      cases hstep
      exact call_inv h (StorageContainer.terminate_call hcont)
    | connect b =>
      simp only at hstep
      split at hstep
      · exact connect_inv h htodo hstep
      · cases hstep
    | writable io =>
      obtain ⟨c, hc, hstep⟩ := Option.bind_eq_some_iff.mp hstep
      split at hstep <;> cases hstep
      rename_i hwrite
      obtain hs | hd := h.client c hc
      · refine writable_inv hs io fun _ _ => ?_
        rw [htodo]
        rfl
      · exact absurd (hd.write.symm.trans hwrite) (by decide)
    | disconnect =>
      obtain ⟨c, hc, rfl⟩ := Option.map_eq_some_iff.mp hstep
      obtain hs | hd := h.client c hc
      · exact hs.delete
      · have hdel : w.delete c = { w with client := none } := by
          unfold STCSession.delete
          rw [hd.files]
          cases c.fileFd <;> rfl
        rw [hdel]
        exact ⟨h.cont, h.last, fun c' hc' => nomatch hc'⟩
    | proceed status io => cases hstep

/-- Whatever the container, the client and the kernel do: as long as no file leaves the
    client with an empty list too early, `DATA_DONE` is sent once, last, and after every
    byte of every file that is to be sent. -/
theorem endsRight_of_run (maxSendChunk maxFileSize : Nat) (evs : List STCSession.Event) (w : STCSession)
    (hok : along step NoEarlyEnd (start maxSendChunk maxFileSize) evs)
    (hrun : run step (start maxSendChunk maxFileSize) evs = some w) : EndsRight w :=
  (invariant_along step_inv (start_inv maxSendChunk maxFileSize) hok hrun).endsRight

/-- Room in the socket for whatever there is to send. -/
def ready : STCCallIO := ⟨[⟨true, .room 100⟩, ⟨true, .room 100⟩], true, true⟩

/-- A run that is paused until its end; the client keeps up with it. -/
def pausedRun : List STCSession.Event :=
  [.newFile false ⟨true, [1]⟩, .proceed [] ready, .connect true, .writable ready,
    .pause ⟨true, [2]⟩, .write 0 [3, 3, 3, 3] true ⟨true, []⟩, .proceed [] ready,
    .proceed [] ready, .terminate, .proceed [9] ready, .proceed [] ready, .proceed [] ready,
    .proceed [9] ready]

theorem endsRight_of_run_paused :
    ∃ w, run step (start 2097152 4) pausedRun = some w ∧
      w.socket = [.bytes [1], .bytes [9], .bytes [2, 3, 3, 3, 3], .bytes [9], .dataDone] ∧
      EndsRight w := by
  refine ⟨(run step (start 2097152 4) pausedRun).get (by decide), ?_, by decide, ?_⟩
  · exact (Option.some_get _).symm
  · exact endsRight_of_run 2097152 4 pausedRun _ (by decide) (Option.some_get _).symm

/-- As above, but the paused file is oversize, and one more packet comes. -/
def oversizeRun : List STCSession.Event :=
  [.newFile false ⟨true, [1]⟩, .proceed [] ready, .connect true, .writable ready,
    .pause ⟨true, [2]⟩, .write 0 [3, 3, 3, 3] true ⟨true, []⟩, .proceed [] ready,
    .proceed [] ready, .write 0 [5] true ⟨true, [4]⟩, .proceed [9] ready, .proceed [] ready,
    .proceed [] ready, .terminate, .proceed [9] ready, .proceed [] ready, .proceed [] ready,
    .proceed [] ready, .proceed [9] ready]

/-- The first of the two deferred files is followed by `DATA_DONE`, the second is sent after
    it, and `DATA_DONE` is sent again. -/
theorem not_endsRight_of_oversize :
    ∃ w, run step (start 2097152 4) oversizeRun = some w ∧
      w.socket = [.bytes [1], .bytes [9], .bytes [2, 3, 3, 3, 3, 9], .dataDone, .bytes [4, 5],
        .bytes [9], .dataDone] ∧ ¬ EndsRight w := by
  have hsocket : ((run step (start 2097152 4) oversizeRun).get (by decide)).socket =
      [.bytes [1], .bytes [9], .bytes [2, 3, 3, 3, 3, 9], .dataDone, .bytes [4, 5], .bytes [9],
        .dataDone] := by decide
  refine ⟨(run step (start 2097152 4) oversizeRun).get (by decide), (Option.some_get _).symm,
    hsocket, fun h => ?_⟩
  obtain ⟨items, hitems, hnone⟩ := h.last (by rw [hsocket]; decide)
  have hcount := congrArg (List.count .dataDone) (hsocket.symm.trans hitems)
  rw [List.count_append, List.count_eq_zero.mpr hnone] at hcount
  exact absurd hcount (by decide)

end Adara.Spec.STCClient
