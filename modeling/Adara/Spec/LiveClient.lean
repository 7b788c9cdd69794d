import Adara.Native.LiveClient
import Adara.Spec.StorageFile
import Adara.ForStd.Runs

/-! # What a live client is sent

The bytes a live client is sent are those of the files put on its list, in that order:
each finished file from its start offset to its end, the front file up to where it has
been sent, and nothing of a file that was skipped.  The descriptor handed to `sendfile`
is then that of the front file.

All of this needs the descriptor to be closed when a file is taken off the list.  The
branch of `writable` that skips a paused file does not close it, although an earlier
visit of the same file can have opened it: the file is visited while paused data is to be
sent, the socket has no room, and the setting changes.  From then on the next file is
sent from the descriptor of the skipped one.  The results below are about the runs in
which no file is skipped with its descriptor open. -/

namespace Adara.Spec.LiveClient

open Adara.Native Adara.Native.LiveSession Runs
open Adara.Spec.StorageFile (Grown take_drop_grown)

/-! ### What has been sent -/

/-- What a file that is off the list has contributed: nothing if it was skipped, else all
    its bytes from the start offset. -/
def contribution (store : FileStore) : FileOutcome → FileEntry → List UInt8
  | .skipped, _ => []
  | .finished, l => (store l.file).bytes.drop l.offset

/-- What the front file has contributed, where `l` is the entry as it was listed. -/
def frontBytes (store : FileStore) : List FileEntry → List FileEntry → List UInt8
  | e :: _, l :: _ => ((store e.file).bytes.take e.offset).drop l.offset
  | _, _ => []

/-- The listed files that are still on the list, with the offsets they were listed with. -/
def pending (w : LiveSession) : List FileEntry := w.listed.drop w.outcomes.length

/-- The bytes of the files listed, in order, up to where the front file has been sent. -/
def expected (w : LiveSession) : List UInt8 :=
  (List.zipWith (contribution w.store) w.outcomes w.listed).flatten ++
    frontBytes w.store w.client.files (pending w)

/-- The client was sent the right bytes, from the right files. -/
structure Faithful (w : LiveSession) : Prop where
  /-- The bytes sent are those of the files listed, in order. -/
  socket : w.socket = expected w
  /-- The files on the list are those listed and not yet taken off, in order. -/
  files : w.client.files.map (·.file) = (pending w).map (·.file)
  /-- Only paused files were skipped. -/
  skipped : ∀ p ∈ w.outcomes.zip w.listed, p.1 = .skipped → (w.store p.2.file).paused
  /-- Every call of `sendfile` was given the descriptor of the front file. -/
  sends : ∀ call ∈ w.sends, call.fd = call.front

/-- The front file would be skipped with its descriptor open. -/
def openSkip (w : LiveSession) : Bool :=
  w.client.files.head?.any fun e =>
    w.client.fileFd.isSome && w.refresh.client.skips (w.store e.file) e.offset

/-- The events at which `writable` is called. -/
def callsWritable (w : LiveSession) : LiveSession.Event → Bool
  | .historicalFile .. | .fileAdded .. | .fileUpdated .. => !w.client.write
  | .containerChange c starting _ =>
    !starting && !w.client.write && w.client.conts.head?.any (·.1 = c) &&
      decide (2 ≤ w.client.conts.length)
  | .writable _ => true
  | _ => false

/-- At this event no file is skipped with its descriptor open. -/
def ClosedSkip (w : LiveSession) (ev : LiveSession.Event) : Prop := callsWritable w ev → openSkip w = false

instance (w : LiveSession) (ev : LiveSession.Event) : Decidable (ClosedSkip w ev) :=
  inferInstanceAs (Decidable (_ → _))

/-! ### The invariant -/

/-- The entries on the list, against the same entries as they were listed: only the front
    one has been sent from. -/
def Waiting (store : FileStore) : List FileEntry → List FileEntry → Prop
  | [], [] => True
  | e :: rest, l :: ls =>
    e.file = l.file ∧ l.offset ≤ e.offset ∧
      (e.offset ≤ (store e.file).size ∨ e.offset = l.offset) ∧ rest = ls
  | _, _ => False

structure Inv (w : LiveSession) : Prop where
  taken : w.outcomes.length ≤ w.listed.length
  waiting : Waiting w.store w.client.files (pending w)
  finished : ∀ p ∈ w.outcomes.zip w.listed, p.1 = .finished → (w.store p.2.file).active = false
  skipped : ∀ p ∈ w.outcomes.zip w.listed, p.1 = .skipped → (w.store p.2.file).paused
  socket : w.socket = expected w
  sends : ∀ call ∈ w.sends, call.fd = call.front
  descriptor : ∀ fd, w.client.fileFd = some fd →
    w.client.files.head?.map (·.file) = some fd

theorem Waiting.files {store : FileStore} {files ls : List FileEntry}
    (h : Waiting store files ls) : files.map (·.file) = ls.map (·.file) := by
  cases files with
  | nil => cases ls with
    | nil => rfl
    | cons l ls => exact h.elim
  | cons e rest => cases ls with
    | nil => exact h.elim
    | cons l ls =>
      obtain ⟨hfile, -, -, rfl⟩ := h
      simp only [List.map_cons, hfile]

theorem Inv.faithful {w : LiveSession} (h : Inv w) : Faithful w :=
  ⟨h.socket, h.waiting.files, h.skipped, h.sends⟩

/-- A session of a client that has just connected. -/
theorem connect_inv (store : FileStore) (contFiles : ContId → List FileId) (b : Bool)
    (maxSendChunk : Nat) (cnt : UInt32) :
    Inv (connect store contFiles b maxSendChunk cnt) where
  taken := Nat.le_refl 0
  waiting := trivial
  finished := fun _ hp => nomatch hp
  skipped := fun _ hp => nomatch hp
  socket := rfl
  sends := fun _ hc => nomatch hc
  descriptor := fun _ hfd => nomatch hfd

/-- The invariant looks at some of the state only. -/
theorem Inv.congr {w w' : LiveSession} (h : Inv w) (hstore : w'.store = w.store)
    (hfiles : w'.client.files = w.client.files) (hfd : w'.client.fileFd = w.client.fileFd)
    (hsocket : w'.socket = w.socket) (hlisted : w'.listed = w.listed)
    (houtcomes : w'.outcomes = w.outcomes) (hsends : w'.sends = w.sends) : Inv w' := by
  obtain ⟨h1, h2, h3, h4, h5, h6, h7⟩ := h
  have hp : pending w' = pending w := by rw [pending, pending, hlisted, houtcomes]
  have he : expected w' = expected w := by
    rw [expected, expected, hstore, hlisted, houtcomes, hfiles, hp]
  constructor
  · rw [hlisted, houtcomes]; exact h1
  · rw [hp, hstore, hfiles]; exact h2
  · rw [hlisted, houtcomes, hstore]; exact h3
  · rw [hlisted, houtcomes, hstore]; exact h4
  · rw [he, hsocket]; exact h5
  · rw [hsends]; exact h6
  · rw [hfd, hfiles]; exact h7

/-! ### Changes of the files -/

/-- What has been contributed stays the same when the files grow. -/
theorem contributions_grown {store store' : FileStore} (hg : Grown store store') :
    ∀ (os : List FileOutcome) (ls : List FileEntry),
      (∀ p ∈ os.zip ls, p.1 = .finished → (store p.2.file).active = false) →
      List.zipWith (contribution store') os ls = List.zipWith (contribution store) os ls
  | [], _, _ => rfl
  | _ :: _, [], _ => rfl
  | o :: os, l :: ls, h => by
    rw [List.zipWith_cons_cons, List.zipWith_cons_cons,
      contributions_grown hg os ls fun p hp => h p (List.mem_cons_of_mem _ hp)]
    congr 1
    cases o with
    | skipped => rfl
    | finished =>
      have hi := h (.finished, l) List.mem_cons_self rfl
      show (store' l.file).bytes.drop l.offset = _
      rw [((hg l.file).2.2 hi).2]
      rfl

theorem Waiting.grown {store store' : FileStore} (hg : Grown store store')
    {files ls : List FileEntry} (h : Waiting store files ls) :
    Waiting store' files ls ∧ frontBytes store' files ls = frontBytes store files ls := by
  cases files with
  | nil => cases ls with
    | nil => exact ⟨trivial, rfl⟩
    | cons l ls => exact h.elim
  | cons e rest => cases ls with
    | nil => exact h.elim
    | cons l ls =>
      obtain ⟨hfile, hle, hoff, hrest⟩ := h
      have hlen := (hg e.file).1.length_le
      refine ⟨⟨hfile, hle, ?_, hrest⟩, take_drop_grown (hg e.file).1 hoff⟩
      exact hoff.imp (fun ho => Nat.le_trans ho hlen) id

/-- The invariant survives whatever can happen to the files. -/
theorem Inv.grown {w : LiveSession} (h : Inv w) {store : FileStore} (hg : Grown w.store store) :
    Inv { w with store } := by
  obtain ⟨hwait, hfront⟩ := h.waiting.grown hg
  refine ⟨h.taken, hwait, ?_, ?_, ?_, h.sends, h.descriptor⟩
  · intro p hp hf
    exact ((hg p.2.file).2.2 (h.finished p hp hf)).1
  · intro p hp hs
    show (store p.2.file).paused
    rw [(hg p.2.file).2.1]
    exact h.skipped p hp hs
  · show w.socket = _ ++ frontBytes store w.client.files (pending w)
    rw [h.socket, hfront, expected, contributions_grown hg _ _ h.finished]

/-! ### Changes of the list -/

/-- The entries after those taken do not matter. -/
private theorem zipWith_append_right {α β γ : Type*} (f : α → β → γ) :
    ∀ (as : List α) (bs cs : List β), as.length ≤ bs.length →
      List.zipWith f as (bs ++ cs) = List.zipWith f as bs
  | [], _, _, _ => rfl
  | _ :: _, [], _, h => nomatch h
  | a :: as, b :: bs, cs, h => by
    rw [List.cons_append, List.zipWith_cons_cons, List.zipWith_cons_cons,
      zipWith_append_right f as bs cs (Nat.le_of_succ_le_succ h)]

/-- One more entry is taken. -/
private theorem zipWith_concat {α β γ : Type*} (f : α → β → γ) (a : α) :
    ∀ (as : List α) (bs : List β) (b : β) (cs : List β), bs.drop as.length = b :: cs →
      List.zipWith f (as ++ [a]) bs = List.zipWith f as bs ++ [f a b]
  | [], bs, b, cs, h => by
    obtain rfl : bs = b :: cs := h
    rfl
  | _ :: _, [], _, _, h => nomatch h
  | a' :: as, b' :: bs, b, cs, h => by
    rw [List.cons_append, List.zipWith_cons_cons, List.zipWith_cons_cons,
      zipWith_concat f a as bs b cs h, List.cons_append]

theorem pushFile_inv {w : LiveSession} (h : Inv w) (file : FileId) (start : Nat) :
    Inv (w.pushFile file start) := by
  have hpending : pending (w.pushFile file start) = pending w ++ [⟨file, start⟩] :=
    List.drop_append_of_le_length h.taken
  have hzip : w.outcomes.zip (w.listed ++ [⟨file, start⟩]) = w.outcomes.zip w.listed :=
    zipWith_append_right Prod.mk _ _ _ h.taken
  have hwait : Waiting w.store (w.client.files ++ [⟨file, start⟩]) (pending w ++ [⟨file, start⟩]) ∧
      frontBytes w.store (w.client.files ++ [⟨file, start⟩]) (pending w ++ [⟨file, start⟩]) =
        frontBytes w.store w.client.files (pending w) := by
    have hw := h.waiting
    -- the list and the pending entries are empty together
    cases hf : w.client.files with
    | nil => cases hp : pending w with
      | nil => exact ⟨⟨rfl, Nat.le_refl _, .inr rfl, rfl⟩, List.drop_take_self⟩
      | cons l ls => rw [hf, hp] at hw; exact hw.elim
    | cons e rest => cases hp : pending w with
      | nil => rw [hf, hp] at hw; exact hw.elim
      | cons l ls =>
        rw [hf, hp] at hw
        obtain ⟨hfile, hle, hoff, rfl⟩ := hw
        exact ⟨⟨hfile, hle, hoff, rfl⟩, rfl⟩
  refine ⟨?_, ?_, ?_, ?_, ?_, h.sends, ?_⟩
  · show w.outcomes.length ≤ (w.listed ++ [_]).length
    rw [List.length_append]
    exact Nat.le_add_right_of_le h.taken
  · rw [hpending]
    exact hwait.1
  · show ∀ p ∈ w.outcomes.zip (w.listed ++ [_]), _
    rw [hzip]
    exact h.finished
  · show ∀ p ∈ w.outcomes.zip (w.listed ++ [_]), _
    rw [hzip]
    exact h.skipped
  · have hcontr := zipWith_append_right (contribution w.store) w.outcomes w.listed
      [⟨file, start⟩] h.taken
    rw [expected, hpending]
    show w.socket = (List.zipWith (contribution w.store) w.outcomes (w.listed ++ [_])).flatten ++
      frontBytes w.store (w.client.files ++ [_]) _
    rw [hcontr, hwait.2]
    exact h.socket
  · intro fd hfd
    have hhead := h.descriptor fd hfd
    show (w.client.files ++ [_]).head?.map _ = _
    cases hf : w.client.files with
    | nil => rw [hf] at hhead; exact nomatch hhead
    | cons e rest => rw [hf] at hhead; exact hhead

/-- Taking the front file off: what it contributes is what was sent of it. -/
theorem erase_inv {w : LiveSession} (h : Inv w) {e : FileEntry} {rest : List FileEntry}
    {o : FileOutcome} (hfiles : w.client.files = e :: rest) (hfd : w.client.fileFd = none)
    (hskip : o = .skipped → (w.store e.file).paused ∧ e.offset = 0)
    (hfin : o = .finished → (w.store e.file).active = false ∧ e.offset = (w.store e.file).size) :
    Inv (w.erase rest o) := by
  have hw := h.waiting
  have hsocket := h.socket
  rw [hfiles] at hw
  unfold expected at hsocket
  rw [hfiles] at hsocket
  cases hp : pending w with
  | nil => rw [hp] at hw; exact hw.elim
  | cons l ls =>
    rw [hp] at hw hsocket
    obtain ⟨hfile, hle, hoff, rfl⟩ := hw
    have hzip : (w.outcomes ++ [o]).zip w.listed = w.outcomes.zip w.listed ++ [(o, l)] :=
      zipWith_concat Prod.mk o _ _ _ _ hp
    have hnext : pending (w.erase rest o) = rest := by
      show w.listed.drop (w.outcomes ++ [o]).length = rest
      rw [List.length_append, ← List.drop_drop]
      exact congrArg (List.drop 1) hp
    -- the rest of the list has not been sent from
    have hwait : Waiting w.store rest rest ∧ frontBytes w.store rest rest = [] := by
      cases rest with
      | nil => exact ⟨trivial, rfl⟩
      | cons e' rest => exact ⟨⟨rfl, Nat.le_refl _, .inr rfl, rfl⟩, List.drop_take_self⟩
    have hcontr : contribution w.store o l = frontBytes w.store (e :: rest) (l :: rest) := by
      cases o with
      | skipped =>
        show [] = ((w.store e.file).bytes.take e.offset).drop l.offset
        rw [(hskip rfl).2, List.take_zero, List.drop_nil]
      | finished =>
        show (w.store l.file).bytes.drop l.offset =
          ((w.store e.file).bytes.take e.offset).drop l.offset
        rw [(hfin rfl).2, StorageFile.size, List.take_length, hfile]
    refine ⟨?_, ?_, ?_, ?_, ?_, h.sends, ?_⟩
    · show (w.outcomes ++ [o]).length ≤ w.listed.length
      have hlen := congrArg List.length hp
      rw [pending, List.length_drop, List.length_cons] at hlen
      rw [List.length_append, List.length_singleton]
      omega
    · rw [hnext]
      exact hwait.1
    · show ∀ p ∈ (w.outcomes ++ [o]).zip w.listed, _
      rw [hzip]
      intro p hmem hf
      obtain hmem | rfl := List.mem_append.mp hmem |>.imp id List.mem_singleton.mp
      · exact h.finished p hmem hf
      · exact hfile ▸ (hfin hf).1
    · show ∀ p ∈ (w.outcomes ++ [o]).zip w.listed, _
      rw [hzip]
      intro p hmem hs
      obtain hmem | rfl := List.mem_append.mp hmem |>.imp id List.mem_singleton.mp
      · exact h.skipped p hmem hs
      · exact hfile ▸ (hskip hs).1
    · rw [expected, hnext]
      show w.socket = (List.zipWith (contribution w.store) (w.outcomes ++ [o]) w.listed).flatten ++
        frontBytes w.store rest rest
      rw [zipWith_concat (contribution w.store) o _ _ _ _ hp, hwait.2, List.append_nil,
        List.flatten_append, List.flatten_singleton, hcontr]
      exact hsocket
    · intro fd hfd'
      cases hfd.symm.trans hfd'

/-! ### Sending -/

theorem sent_inv {w : LiveSession} (h : Inv w) {e : FileEntry} {rest : List FileEntry}
    {fd : FileId} {len : Int} {k : Kernel} {bs : List UInt8}
    (hfiles : w.client.files = e :: rest) (hfd : fd = e.file)
    (hsend : sendfile (w.store fd) e.offset len k = .bytes bs) :
    Inv (w.sent e rest bs) := by
  subst hfd
  obtain ⟨htake, hlen⟩ := sendfile_bytes hsend
  have hw := h.waiting
  have hsocket := h.socket
  unfold expected at hsocket
  rw [hfiles] at hw hsocket
  cases hp : pending w with
  | nil => rw [hp] at hw; exact hw.elim
  | cons l ls =>
    rw [hp] at hw hsocket
    obtain ⟨hfile, hle, hoff, rfl⟩ := hw
    -- the bytes sent follow those that were sent of the file before
    have hfront : ((w.store e.file).bytes.take (e.offset + bs.length)).drop l.offset =
        ((w.store e.file).bytes.take e.offset).drop l.offset ++ bs := by
      rw [htake]
      obtain h0 | hsize := hlen
      · rw [List.length_eq_zero_iff.mp h0, List.append_nil, List.append_nil]
      · refine List.drop_append_of_le_length ?_
        rw [StorageFile.size] at hsize
        rw [List.length_take]
        omega
    refine ⟨h.taken, ?_, h.finished, h.skipped, ?_, h.sends, ?_⟩
    · show Waiting w.store (⟨e.file, e.offset + bs.length⟩ :: rest) (pending w)
      rw [hp]
      refine ⟨hfile, Nat.le_add_right_of_le hle, ?_, rfl⟩
      obtain h0 | hsize := hlen
      · rw [h0]
        exact hoff
      · exact .inl hsize
    · show w.socket ++ bs = (List.zipWith (contribution w.store) w.outcomes w.listed).flatten ++
        frontBytes w.store (⟨e.file, e.offset + bs.length⟩ :: rest) (pending w)
      rw [hp, hsocket, List.append_assoc]
      exact congrArg _ hfront.symm
    · intro fd hfd
      have := h.descriptor fd hfd
      rw [hfiles] at this
      exact this

/-- How a visit leaves the state: where the loop goes on, the descriptor is closed. -/
def Visited (rest : List FileEntry) (r : LiveSession × Exit) : Prop :=
  Inv r.1 ∧ (r.2 = .next → r.1.client.fileFd = none ∧ r.1.client.files = rest)

theorem send_inv {w : LiveSession} (h : Inv w) {e : FileEntry} {rest : List FileEntry}
    {fd : FileId} (k : Kernel) (hfiles : w.client.files = e :: rest) (hfd : fd = e.file) :
    Visited rest (w.send e rest fd k) := by
  have hcall : Inv { w with sends := w.sends ++ [⟨fd, e.file⟩] } := by
    refine ⟨h.taken, h.waiting, h.finished, h.skipped, h.socket, ?_, h.descriptor⟩
    intro call hc
    obtain hc | rfl := List.mem_append.mp hc |>.imp id List.mem_singleton.mp
    · exact h.sends call hc
    · exact hfd
  unfold send
  simp only
  split
  · exact ⟨hcall, fun hn => nomatch hn⟩
  · exact ⟨hcall, fun hn => nomatch hn⟩
  · rename_i bs hsend
    have hsent := sent_inv hcall hfiles hfd hsend
    split
    · exact ⟨hsent, fun hn => nomatch hn⟩
    · rename_i hend
      split
      · exact ⟨hsent, fun hn => nomatch hn⟩
      · rename_i hinactive
        -- the file is finished: its descriptor is closed before it is taken off
        refine ⟨?_, fun _ => ⟨rfl, rfl⟩⟩
        generalize hw₁ : LiveSession.sent _ e rest bs = w₁ at hsent hend hinactive
        have hfiles₁ : w₁.client.files = ⟨e.file, e.offset + bs.length⟩ :: rest := by
          rw [← hw₁]; rfl
        have hclosed : Inv (w₁.closeFile e.file) := by
          have hgrown : Grown w₁.store (w₁.closeFile e.file).store :=
            Grown.of_same ⟨rfl, rfl, rfl⟩
          have hinv := hsent.grown hgrown
          exact ⟨hinv.taken, hinv.waiting, hinv.finished, hinv.skipped, hinv.socket, hinv.sends,
            fun _ hn => nomatch hn⟩
        refine erase_inv hclosed hfiles₁ rfl (fun hn => nomatch hn) fun _ => ?_
        show ((Function.update w₁.store e.file _) e.file).active = false ∧
          e.offset + bs.length = ((Function.update w₁.store e.file _) e.file).size
        rw [Function.update_self]
        exact ⟨by simpa using hinactive, not_not.mp hend⟩

theorem refresh_inv {w : LiveSession} (h : Inv w) : Inv w.refresh := by
  unfold refresh
  split
  · exact h
  · simp only
    split <;> exact h.congr rfl rfl rfl rfl rfl rfl rfl

/-- Reading the setting again changes nothing else of the client. -/
theorem refresh_client (w : LiveSession) :
    w.refresh.store = w.store ∧ w.refresh.client.files = w.client.files ∧
      w.refresh.client.fileFd = w.client.fileFd ∧ w.refresh.client.write = w.client.write := by
  unfold refresh
  split
  · exact ⟨rfl, rfl, rfl, rfl⟩
  · simp only
    split <;> exact ⟨rfl, rfl, rfl, rfl⟩

theorem openFile_inv {w w' : LiveSession} (h : Inv w) {e : FileEntry} {rest : List FileEntry}
    {opens : Bool} (hfiles : w.client.files = e :: rest)
    (hopen : w.openFile e.file opens = some w') :
    Inv w' ∧ w'.client.files = e :: rest ∧ w'.client.fileFd = some e.file := by
  unfold openFile at hopen
  split at hopen
  · rename_i fd hfd
    cases hopen
    have hhead := h.descriptor fd hfd
    rw [hfiles] at hhead
    exact ⟨h, hfiles, hfd.trans hhead.symm⟩
  · obtain ⟨f, hf, rfl⟩ := Option.map_eq_some_iff.mp hopen
    have hgrown : Grown w.store (Function.update w.store e.file f) :=
      Grown.of_same (StorageFile.getFd_bytes hf)
    have hinv := h.grown hgrown
    refine ⟨⟨hinv.taken, hinv.waiting, hinv.finished, hinv.skipped, hinv.socket, hinv.sends, ?_⟩,
      hfiles, rfl⟩
    intro fd hfd
    cases hfd
    show w.client.files.head?.map _ = _
    rw [hfiles]
    rfl

/-- A visit of the front file keeps the invariant, unless it skips it with its descriptor
    open. -/
theorem visit_inv {w : LiveSession} (h : Inv w) {e : FileEntry} {rest : List FileEntry}
    (io : VisitIO) (hfiles : w.client.files = e :: rest) (hskip : openSkip w = false) :
    Visited rest (w.visit e rest io) := by
  have hr := refresh_inv h
  obtain ⟨hstore, hfiles', hfd, -⟩ := refresh_client w
  rw [hfiles] at hfiles'
  unfold visit
  simp only
  split
  · rename_i hs
    have hclosed : w.refresh.client.fileFd = none := by
      rw [openSkip, hfiles] at hskip
      rw [hstore] at hs
      rw [hfd]
      simpa [hs] using hskip
    have hpaused : (w.refresh.store e.file).paused ∧ e.offset = 0 := by
      simp only [LiveClient.skips, Bool.and_eq_true, beq_iff_eq] at hs
      exact ⟨hs.1.1.2, hs.1.2⟩
    exact ⟨erase_inv hr hfiles' hclosed (fun _ => hpaused) (fun hn => nomatch hn),
      fun _ => ⟨hclosed, rfl⟩⟩
  · split
    · exact ⟨hr, fun hn => nomatch hn⟩
    · rename_i w' hopen
      obtain ⟨hinv, hfiles'', hfd'⟩ := openFile_inv hr hfiles' hopen
      split
      · exact ⟨hinv, fun hn => nomatch hn⟩
      · rw [hfd']
        exact send_inv hinv _ hfiles'' rfl

/-- A closed descriptor is not skipped open. -/
theorem openSkip_of_closed {w : LiveSession} (h : w.client.fileFd = none) :
    openSkip w = false := by
  unfold openSkip
  rw [h]
  cases w.client.files <;> rfl

/-- The whole loop: only its first visit can find a descriptor open. -/
theorem sendFiles_inv {files : List FileEntry} :
    ∀ {w : LiveSession} (ios : List VisitIO), Inv w → w.client.files = files →
      openSkip w = false → Inv (w.sendFiles files ios).1 := by
  induction files with
  | nil => intro w ios h _ _; exact h
  | cons e rest ih =>
    intro w ios h hfiles hskip
    have hv := visit_inv h (ios.headD ⟨true, .again⟩) hfiles hskip
    unfold sendFiles
    split
    · rename_i w₁ hvisit
      rw [hvisit] at hv
      obtain ⟨hclosed, hrest⟩ := hv.2 rfl
      exact ih ios.tail hv.1 hrest (openSkip_of_closed hclosed)
    · rename_i w₁ exit _ hvisit
      rw [hvisit] at hv
      exact hv.1

theorem delete_inv {w : LiveSession} (h : Inv w) : Inv w.delete := by
  have hgrown : Grown w.store w.delete.store := by
    unfold delete
    simp only
    split
    · exact Grown.of_same ⟨rfl, rfl, rfl⟩
    · exact fun f => StorageFile.GrownFile.refl _
  have hinv := h.grown hgrown
  exact ⟨hinv.taken, hinv.waiting, hinv.finished, hinv.skipped, hinv.socket, hinv.sends,
    fun _ hn => nomatch hn⟩

theorem writable_inv {w : LiveSession} (h : Inv w) (io : CallIO) (hskip : openSkip w = false) :
    Inv (w.writable io) := by
  have hs := sendFiles_inv io.visits h rfl hskip
  unfold writable
  split <;> rename_i w₁ hsend <;> rw [hsend] at hs
  · split
    · exact hs
    · split
      · exact delete_inv hs
      · exact hs.congr rfl rfl rfl rfl rfl rfl rfl
  · exact delete_inv hs
  · exact hs.congr rfl rfl rfl rfl rfl rfl rfl

/-! ### The handlers -/

/-- What the handlers do before they try to send: entries are put at the end of the list,
    and nothing that decides about the front file changes. -/
structure Appends (w w' : LiveSession) : Prop where
  store : w'.store = w.store
  setting : w'.serverSendPausedData = w.serverSendPausedData
  cnt : w'.cnt = w.cnt
  flags : w'.client.clientFlags = w.client.clientFlags
  paused : w'.client.sendPausedData = w.client.sendPausedData
  fileFd : w'.client.fileFd = w.client.fileFd
  write : w'.client.write = w.client.write
  files : w.client.files <+: w'.client.files

theorem Appends.refl (w : LiveSession) : Appends w w :=
  ⟨rfl, rfl, rfl, rfl, rfl, rfl, rfl, List.prefix_refl _⟩

theorem Appends.trans {w₁ w₂ w₃ : LiveSession} (h : Appends w₁ w₂) (h' : Appends w₂ w₃) :
    Appends w₁ w₃ :=
  ⟨h'.store.trans h.store, h'.setting.trans h.setting, h'.cnt.trans h.cnt,
    h'.flags.trans h.flags, h'.paused.trans h.paused, h'.fileFd.trans h.fileFd,
    h'.write.trans h.write, h.files.trans h'.files⟩

theorem Appends.refresh_skips {w w' : LiveSession} (h : Appends w w') (f : StorageFile)
    (offset : Nat) : w'.refresh.client.skips f offset = w.refresh.client.skips f offset := by
  have hforces : w'.client.forcesPaused = w.client.forcesPaused := by
    rw [LiveClient.forcesPaused, LiveClient.forcesPaused, h.flags]
  unfold refresh
  rw [hforces, h.cnt]
  split
  · simp only [LiveClient.skips, hforces, h.flags, h.paused]
  · simp only
    split <;>
      simp only [LiveClient.skips, LiveClient.forcesPaused, h.flags, h.paused, h.setting]

/-- With its descriptor open, the front file stays at the front. -/
theorem Appends.openSkip {w w' : LiveSession} (h : Appends w w') (hinv : Inv w)
    (hskip : openSkip w = false) : openSkip w' = false := by
  cases hfd : w.client.fileFd with
  | none => exact openSkip_of_closed (h.fileFd.trans hfd)
  | some fd =>
    have hhead := hinv.descriptor fd hfd
    obtain ⟨es, hes⟩ := h.files
    cases hf : w.client.files with
    | nil => rw [hf] at hhead; exact nomatch hhead
    | cons e rest =>
      unfold LiveClient.openSkip at hskip ⊢
      rw [← hes, h.fileFd, h.store]
      rw [hf] at hskip ⊢
      show (_ && w'.refresh.client.skips (w.store e.file) e.offset) = false
      rw [h.refresh_skips]
      exact hskip

theorem pushFile_appends (w : LiveSession) (file : FileId) (start : Nat) :
    Appends w (w.pushFile file start) :=
  ⟨rfl, rfl, rfl, rfl, rfl, rfl, rfl, List.prefix_append _ _⟩

theorem foldl_pushFile {w : LiveSession} (h : Inv w) (files : List FileId) :
    Inv (files.foldl (pushFile · · 0) w) ∧ Appends w (files.foldl (pushFile · · 0) w) := by
  induction files generalizing w with
  | nil => exact ⟨h, Appends.refl w⟩
  | cons f files ih =>
    obtain ⟨hinv, happ⟩ := ih (pushFile_inv h f 0)
    exact ⟨hinv, (pushFile_appends w f 0).trans happ⟩

theorem nextContainers_inv (conts : List (ContId × Bool)) {w : LiveSession} (h : Inv w) :
    Inv (w.nextContainers conts) ∧ Appends w (w.nextContainers conts) := by
  induction conts generalizing w with
  | nil =>
    exact ⟨h.congr rfl rfl rfl rfl rfl rfl rfl,
      ⟨rfl, rfl, rfl, rfl, rfl, rfl, rfl, List.prefix_refl _⟩⟩
  | cons c conts ih =>
    obtain ⟨hinv, happ⟩ := foldl_pushFile h (w.contFiles c.1)
    unfold nextContainers
    simp only
    split
    · refine ⟨hinv.congr rfl rfl rfl rfl rfl rfl rfl, happ.trans ?_⟩
      exact ⟨rfl, rfl, rfl, rfl, rfl, rfl, rfl, List.prefix_refl _⟩
    · obtain ⟨hinv', happ'⟩ := ih hinv
      exact ⟨hinv', happ.trans happ'⟩

theorem trySend_inv {w : LiveSession} (h : Inv w) (io : CallIO)
    (hskip : w.client.write = false → openSkip w = false) : Inv (w.trySend io) := by
  unfold trySend
  split
  · exact h
  · rename_i hwrite
    exact writable_inv h io (hskip (by simpa using hwrite))

/-- Entries are put on the list, and then `writable` is called unless it waits for room. -/
private theorem trySend_appends {w w' : LiveSession} (h : Inv w) (h' : Inv w')
    (happ : Appends w w') (io : CallIO) (hskip : w.client.write = false → openSkip w = false) :
    Inv (w'.trySend io) :=
  trySend_inv h' io fun hwrite => happ.openSkip h (hskip (happ.write ▸ hwrite))

theorem containerChange_inv {w : LiveSession} (h : Inv w) (c : ContId) (starting : Bool)
    (io : CallIO) (hok : ClosedSkip w (.containerChange c starting io)) :
    Inv (w.containerChange c starting io) := by
  unfold containerChange
  split
  · exact h.congr rfl rfl rfl rfl rfl rfl rfl
  · rename_i hstarting
    split
    · exact h
    · rename_i front conts hconts
      split
      · rename_i hfront
        have hinv : Inv { w with client := { w.client with conts, contConnection := none } } :=
          h.congr rfl rfl rfl rfl rfl rfl rfl
        simp only
        split
        · exact hinv
        · rename_i hne
          obtain ⟨hinv', happ⟩ := nextContainers_inv conts hinv
          refine trySend_appends h hinv' (Appends.trans ?_ happ) io fun hwrite => hok ?_
          · exact ⟨rfl, rfl, rfl, rfl, rfl, rfl, rfl, List.prefix_refl _⟩
          · have hlen : 2 ≤ w.client.conts.length := by
              rw [hconts, List.length_cons]
              have := List.length_pos_of_ne_nil hne
              omega
            have hhead : w.client.conts.head?.any (·.1 = c) = true := by
              rw [hconts]
              exact decide_eq_true hfront
            simp [callsWritable, hwrite, hstarting, hlen, hhead]
      · exact h.congr rfl rfl rfl rfl rfl rfl rfl

/-! ### Runs -/

/-- One event keeps the invariant, where no file is skipped with its descriptor open. -/
theorem step_inv (w : LiveSession) (ev : LiveSession.Event) (w' : LiveSession) (h : Inv w)
    (hok : ClosedSkip w ev) (hstep : step w ev = some w') : Inv w' := by
  unfold step at hstep
  split at hstep
  · cases hstep
  -- the calls that may come to `writable` are those that `ClosedSkip` is asked of
  · cases ev with
    | historicalFile file start io =>
      cases hstep
      refine trySend_appends h (pushFile_inv h file start) (pushFile_appends w file start) io ?_
      exact fun hwrite => hok (by simp [callsWritable, hwrite])
    | fileAdded file io =>
      cases hstep
      refine trySend_appends h (pushFile_inv h file 0) (pushFile_appends w file 0) io ?_
      exact fun hwrite => hok (by simp [callsWritable, hwrite])
    | fileUpdated file io =>
      cases hstep
      unfold fileUpdated
      simp only
      split
      · exact trySend_inv h io fun hwrite => hok (by simp [callsWritable, hwrite])
      · have hinv : Inv { w with client := { w.client with fileConnection := none } } :=
          h.congr rfl rfl rfl rfl rfl rfl rfl
        refine trySend_appends h hinv
          ⟨rfl, rfl, rfl, rfl, rfl, rfl, rfl, List.prefix_refl _⟩ io fun hwrite => hok ?_
        simp [callsWritable, hwrite]
    | containerChange c starting io =>
      cases hstep
      exact containerChange_inv h c starting io hok
    | writable io =>
      simp only at hstep
      split at hstep <;> cases hstep
      exact writable_inv h io (hok rfl)
    | clientHello flags => cases hstep; exact h.congr rfl rfl rfl rfl rfl rfl rfl
    | helloDone cont adapter =>
      cases hstep
      unfold helloDone
      cases cont <;> (simp only; split; · exact h.congr rfl rfl rfl rfl rfl rfl rfl) <;>
        split <;> exact h.congr rfl rfl rfl rfl rfl rfl rfl
    | setSendPausedData b => cases hstep; exact h.congr rfl rfl rfl rfl rfl rfl rfl
    | otherClient => cases hstep; exact h.congr rfl rfl rfl rfl rfl rfl rfl
    | containerFile c file => cases hstep; exact h.congr rfl rfl rfl rfl rfl rfl rfl
    | write file bs =>
      simp only at hstep
      split at hstep <;> cases hstep
      exact h.grown (.of_active ‹_› (List.prefix_append _ _) rfl)
    | terminate file bs =>
      simp only at hstep
      split at hstep <;> cases hstep
      exact h.grown (.of_active ‹_› (List.prefix_append _ _) rfl)

/-- Whatever the files, the other clients and the kernel do: as long as no file is skipped
    with its descriptor open, the client is sent the bytes of the files listed, in order. -/
theorem faithful_of_run (store : FileStore) (contFiles : ContId → List FileId) (b : Bool)
    (maxSendChunk : Nat) (cnt : UInt32) (evs : List LiveSession.Event) (w : LiveSession)
    (hok : along step ClosedSkip (connect store contFiles b maxSendChunk cnt) evs)
    (hrun : run step (connect store contFiles b maxSendChunk cnt) evs = some w) :
    Faithful w :=
  (invariant_along step_inv (connect_inv store contFiles b maxSendChunk cnt) hok hrun).faithful

/-- Two files that have ended, the first with paused data. -/
def twoFiles : FileStore := fun f =>
  if f = 0 then ⟨[1, 2], false, true, false, 2, 0⟩ else ⟨[3, 4], false, false, false, 2, 0⟩

/-- The client connects while paused data is sent; the count stands at 98. -/
def twoFilesSession : LiveSession := connect twoFiles (fun _ => []) true 2097152 98

/-- The first file is visited while the socket is full.  Then paused data is no longer to
    be sent, and the setting is read again at the next visit. -/
def fullThenPaused : List LiveSession.Event :=
  [.clientHello 0, .historicalFile 0 0 ⟨[⟨true, .again⟩], true⟩,
    .historicalFile 1 0 ⟨[], true⟩, .setSendPausedData false,
    .writable ⟨[⟨true, .room 10⟩, ⟨true, .room 10⟩], true⟩]

/-- As above, but the first file is begun before paused data is no longer to be sent. -/
def begunThenPaused : List LiveSession.Event :=
  [.clientHello 0, .historicalFile 0 0 ⟨[⟨true, .room 1⟩], true⟩,
    .historicalFile 1 0 ⟨[], true⟩, .setSendPausedData false,
    .writable ⟨[⟨true, .room 10⟩, ⟨true, .room 10⟩], true⟩]

theorem faithful_of_run_begunThenPaused :
    ∃ w, run step twoFilesSession begunThenPaused = some w ∧
      w.socket = [1, 2, 3, 4] ∧ Faithful w := by
  refine ⟨(run step twoFilesSession begunThenPaused).get (by decide), ?_, by decide, ?_⟩
  · exact (Option.some_get _).symm
  · exact faithful_of_run twoFiles (fun _ => []) true 2097152 98 begunThenPaused _ (by decide)
      (Option.some_get _).symm

/-- The second file is sent from the descriptor of the first one, which was skipped. -/
theorem not_faithful_of_fullThenPaused :
    ∃ w, run step twoFilesSession fullThenPaused = some w ∧ w.socket = [1, 2] ∧
      expected w = [3, 4] ∧ w.sends.getLast? = some ⟨0, 1⟩ ∧ ¬ Faithful w := by
  refine ⟨(run step twoFilesSession fullThenPaused).get (by decide), ?_, by decide, by decide,
    by decide, fun h => ?_⟩
  · exact (Option.some_get _).symm
  · exact absurd h.socket (by decide)

end Adara.Spec.LiveClient
