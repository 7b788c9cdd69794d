import Adara.Spec.FileBytes
import Adara.Spec.FileWrite

/-! # From the files of a run to the packets of its translation

The packets a container writes go to files, the client sends the files, and the translator cuts
what it reads into packets again.  Where nothing but whole packets is written and `DATA_DONE` is
sent in time, the packets received are those written, file by file, in the order of their writing
(`received_of_run`). -/

namespace Adara.Spec.RunStream

open Adara.Native Adara.Native.StorageContainer Adara.Native.STCSession
open Adara.Spec.StorageContainer (Inv announced deferred)
open Adara.Spec.STCClient (RunInv NoEarlyEnd leftOut content socketBytes)
open Adara.Spec.Framing (stream received whole unparsed Session)
open Adara.Spec.FileWrite (Framed framed_nil)
open Adara.Spec.FileBytes

/-- Whatever an event puts into files is whole packets. -/
def FramedEvent : STCSession.Event → Prop
  | .newFile _ nf | .pause nf | .resume nf => Framed nf.bytes
  | .write _ pkt _ nf | .writeFailed _ pkt _ nf => Framed pkt ∧ Framed nf.bytes
  | .proceed status _ => Framed status
  | _ => True

theorem framed_madeBy {c : StorageContainer} {nf : NewFile}
    {r : StorageContainer × List Action} (hnew : Framed nf.bytes)
    (hacts : ∀ e ∈ appends r.2, Framed e.2) : ∀ e ∈ madeBy c nf r, Framed e.2 := by
  intro e he
  rcases List.mem_append.mp he with he | he
  · split at he
    · rw [List.mem_singleton.mp he]
      exact hnew
    · cases he
  · exact hacts e he

theorem framed_filed {w : STCSession} {ev : STCSession.Event} (h : FramedEvent ev) :
    ∀ e ∈ filed w ev, Framed e.2 := by
  have hcall : ∀ {ev nf r}, w.todo = [] → callOf w ev = some (nf, r) → Framed nf.bytes →
      (∀ e ∈ appends r.2, Framed e.2) → ∀ e ∈ filed w ev, Framed e.2 := by
    intro ev nf r htodo hsome hnew hacts
    have hfiled : filed w ev = madeBy w.cont nf r := by simp only [filed, htodo, hsome]
    rw [hfiled]
    exact framed_madeBy hnew hacts
  have hnone : ∀ {acts : List Action}, appends acts = [] → ∀ e ∈ appends acts, Framed e.2 := by
    intro acts hacts
    rw [hacts]
    exact List.forall_mem_nil _
  cases htodo : w.todo with
  | cons a todo =>
    cases ev with
    | proceed status io =>
      cases a with
      | terminate f =>
        simp only [filed, htodo]
        exact List.forall_mem_singleton.mpr h
      | _ =>
        simp only [filed, htodo]
        exact List.forall_mem_nil _
    | _ =>
      simp only [filed, htodo]
      exact List.forall_mem_nil _
  | nil =>
    cases hsome : callOf w ev with
    | none =>
      have hfiled : filed w ev = [] := by simp only [filed, htodo, hsome]
      rw [hfiled]
      exact List.forall_mem_nil _
    | some called =>
      obtain ⟨nf, r⟩ := called
      cases ev with
      | newFile paused nf' =>
        obtain ⟨m, -, heq⟩ := Option.map_eq_some_iff.mp hsome
        cases heq
        exact hcall htodo hsome h (hnone (appends_newFile m paused))
      | write mode pkt notify nf' =>
        obtain ⟨r', hr, heq⟩ := Option.map_eq_some_iff.mp hsome
        cases heq
        exact hcall htodo hsome h.2 fun e he => appends_write hr e he ▸ h.1
      | writeFailed mode part notify nf' =>
        obtain ⟨r', hr, heq⟩ := Option.map_eq_some_iff.mp hsome
        cases heq
        exact hcall htodo hsome h.2 fun e he => appends_writeFailed hr e he ▸ h.1
      | pause nf' =>
        obtain ⟨r', hr, heq⟩ := Option.map_eq_some_iff.mp hsome
        cases heq
        exact hcall htodo hsome h (hnone (appends_changeMode hr))
      | resume nf' =>
        obtain ⟨r', hr, heq⟩ := Option.map_eq_some_iff.mp hsome
        cases heq
        exact hcall htodo hsome h (hnone (appends_changeMode hr))
      | _ => cases hsome

theorem framed_flatMap {α : Type} {f : α → List UInt8} {l : List α} (h : ∀ a ∈ l, Framed (f a)) :
    Framed (l.flatMap f) := by
  induction l with
  | nil => exact framed_nil
  | cons a l ih =>
    obtain ⟨ha, hl⟩ := List.forall_mem_cons.mp h
    exact ha.append (ih hl)

/-- The files left out have no part in what is sent. -/
theorem flatMap_content (store : FileStore) (sendPausedData : Bool) (fs : List FileId) :
    fs.flatMap (content store sendPausedData) =
      (fs.filter fun f => !leftOut store sendPausedData f).flatMap fun f => (store f).bytes := by
  induction fs with
  | nil => rfl
  | cons f fs ih =>
    rw [List.flatMap_cons, ih, content]
    cases hleft : leftOut store sendPausedData f with
    | true =>
      rw [if_pos rfl, List.filter_cons_of_neg (by rw [hleft]; exact Bool.false_ne_true)]
      rfl
    | false =>
      rw [if_neg Bool.false_ne_true, List.filter_cons_of_pos (by rw [hleft]; rfl)]
      rfl

/-- A parser that has used up a stream of packets has received these packets. -/
theorem received_of_stream {initialBufferSize maxPktSize : Nat}
    (hsize : initialBufferSize ≤ maxPktSize) {pkts : List Framing.StreamPacket}
    {ops : List Framing.Op} {S : Session}
    (hparse : Runs.run (Session.step Callbacks.accepting)
      (Session.new initialBufferSize maxPktSize) ops = some S)
    (hfed : S.fed = stream pkts) (hlive : .hung ∉ S.outcomes) (hall : unparsed S.parser = []) :
    received S.log = some (pkts.map (whole maxPktSize)) := by
  have hprefix : S.fed <+: stream pkts := hfed ▸ List.prefix_refl _
  have h := Framing.session_inStep hsize hparse hprefix
  obtain ⟨rs, hrs, -, hsplit⟩ := (h.parser hlive).tracks.received_eq_split
  have hend := Framing.split_append maxPktSize pkts [] 0
  rw [hall, List.length_nil, Nat.sub_zero, hfed] at hsplit
  rw [List.append_nil, Framing.split_zero, List.append_nil] at hend
  rw [hrs, hsplit]
  exact congrArg some hend

section Run

variable {maxSendChunk maxFileSize : Nat} {evs : List STCSession.Event} {w : STCSession}

theorem kept_of_run (hok : Runs.along step NoEarlyEnd (start maxSendChunk maxFileSize) evs)
    (hrun : Runs.run step (start maxSendChunk maxFileSize) evs = some w) :
    RunInv w ∧ Kept (Runs.collect step filed (start maxSendChunk maxFileSize) evs) w := by
  refine Runs.invariant_collect (I := fun log w => RunInv w ∧ Kept log w) ?_
    ⟨STCClient.start_inv maxSendChunk maxFileSize, kept_start maxSendChunk maxFileSize⟩ hok hrun
  rintro log w ev w' ⟨hinv, hkept⟩ hev hstep
  exact ⟨STCClient.step_inv w ev w' hinv hev hstep, hkept.step hinv.cont hstep⟩

theorem framed_collect (hframed : ∀ ev ∈ evs, FramedEvent ev) (w : STCSession) :
    ∀ e ∈ Runs.collect step filed w evs, Framed e.2 := by
  induction evs generalizing w with
  | nil => exact List.forall_mem_nil _
  | cons ev evs ih =>
    obtain ⟨hev, hrest⟩ := List.forall_mem_cons.mp hframed
    intro e he
    rcases List.mem_append.mp he with he | he
    · exact framed_filed hev e he
    · cases hstep : step w ev with
      | none =>
        rw [hstep] at he
        cases he
      | some w' =>
        rw [hstep] at he
        exact ih hrest w' e he

/-- Every file is sent once, and the translator receives its packets: what the file starts with,
    the packets written to it, in the order of the calls, and what ends it.  This is so however
    the bytes are cut on their way. -/
theorem received_of_run {c : STCClient} {initialBufferSize maxPktSize : Nat}
    {ops : List Framing.Op} {S : Session}
    (hok : Runs.along step NoEarlyEnd (start maxSendChunk maxFileSize) evs)
    (hframed : ∀ ev ∈ evs, FramedEvent ev)
    (hrun : Runs.run step (start maxSendChunk maxFileSize) evs = some w)
    (hclient : w.client = some c) (hdone : .dataDone ∈ w.socket)
    (hsize : initialBufferSize ≤ maxPktSize)
    (hparse : Runs.run (Session.step Callbacks.accepting)
      (Session.new initialBufferSize maxPktSize) ops = some S)
    (hfed : S.fed = socketBytes w.socket) (hlive : .hung ∉ S.outcomes)
    (hall : unparsed S.parser = []) :
    w.cont.files.Perm (List.range w.cont.created) ∧
      ∃ pkts, stream pkts = (w.cont.files.filter fun f =>
          !leftOut w.cont.store c.sendPausedData f).flatMap (fun f =>
            bytesOf f (Runs.collect step filed (start maxSendChunk maxFileSize) evs)) ∧
        received S.log = some (pkts.map (whole maxPktSize)) := by
  obtain ⟨hinv, hkept⟩ := kept_of_run hok hrun
  obtain hsending | hdone := hinv.client c hclient
  · exact absurd hdone hsending.notDone
  have hlisted := hkept.listed
  rw [hdone.ended.1, hdone.ended.2] at hlisted
  -- a file that has been sent has nothing left to be written to it
  have hbytes : ∀ f ∈ w.cont.files.filter fun f => !leftOut w.cont.store c.sendPausedData f,
      (w.cont.store f).bytes =
        bytesOf f (Runs.collect step filed (start maxSendChunk maxFileSize) evs) := by
    intro f hf
    obtain ⟨hmem, hnot⟩ := List.mem_filter.mp hf
    have hinactive : (w.cont.store f).active = false :=
      (hdone.inactive f hmem).resolve_left fun hleft => by
        rw [hleft] at hnot
        cases hnot
    have hpending : bytesOf f (appends w.todo) = [] := bytesOf_appends fun a ha htarget => by
      obtain ⟨hactive, -⟩ := hdone.cont.targets a ha f htarget
      rw [hinactive] at hactive
      cases hactive
    rw [hkept.bytes, hpending, List.append_nil]
  have hsent : socketBytes w.socket = (w.cont.files.filter fun f =>
      !leftOut w.cont.store c.sendPausedData f).flatMap fun f =>
        bytesOf f (Runs.collect step filed (start maxSendChunk maxFileSize) evs) := by
    rw [hdone.complete, flatMap_content]
    exact List.flatMap_congr hbytes
  obtain ⟨pkts, hpkts⟩ : Framed (socketBytes w.socket) := by
    rw [hsent]
    apply framed_flatMap
    intro f _
    apply framed_flatMap
    intro e he
    exact framed_collect hframed _ e (List.mem_filter.mp he).1
  refine ⟨?_, pkts, hpkts.trans hsent, received_of_stream hsize hparse (hfed.trans hpkts.symm)
    hlive hall⟩
  rwa [show deferred [] ++ [] = [] from rfl, List.append_nil] at hlisted

end Run

/-- Room in the socket for whatever there is to send. -/
def room : STCCallIO := ⟨[⟨true, .room 100⟩, ⟨true, .room 100⟩], true, true⟩

/-- A run that is paused until its end. -/
def sampleRun : List STCSession.Event :=
  [.newFile false ⟨true, FileWrite.heartbeat 1⟩, .proceed [] room, .connect true, .writable room,
    .pause ⟨true, FileWrite.heartbeat 2⟩,
    .write 0 (FileWrite.heartbeat 3) true ⟨true, []⟩, .proceed [] room, .proceed [] room,
    .terminate, .proceed FileWrite.noRun room, .proceed [] room, .proceed [] room,
    .proceed FileWrite.noRun room]

/-- The stream of the run, in two chunks that cut a packet. -/
def sampleOps : List Framing.Op :=
  [.append (FileWrite.heartbeat 1 ++ FileWrite.noRun.take 9), .parse 0,
    .append (FileWrite.noRun.drop 9 ++ FileWrite.heartbeat 2 ++ FileWrite.heartbeat 3 ++
      FileWrite.noRun), .parse 0]

theorem received_of_run_sample :
    ∃ w c S, Runs.run step (start 2097152 1000) sampleRun = some w ∧ w.client = some c ∧
      Runs.run (Session.step Callbacks.accepting) (Session.new 256 1000) sampleOps = some S ∧
      w.cont.files.Perm (List.range w.cont.created) ∧
      ∃ pkts, stream pkts = (w.cont.files.filter fun f =>
          !leftOut w.cont.store c.sendPausedData f).flatMap (fun f =>
            bytesOf f (Runs.collect step filed (start 2097152 1000) sampleRun)) ∧
        received S.log = some (pkts.map (whole 1000)) := by
  have hpacket : FileWrite.IsPacket FileWrite.noRun :=
    ⟨⟨FileWrite.noRun, by decide, rfl, rfl, by decide⟩, rfl⟩
  have hbeat : ∀ sec, Framed (FileWrite.heartbeat sec) := fun sec =>
    (FileWrite.isPacket_heartbeat sec).framed
  let w := (Runs.run step (start 2097152 1000) sampleRun).get (by decide +kernel)
  let S := (Runs.run (Session.step Callbacks.accepting) (Session.new 256 1000) sampleOps).get
    (by decide +kernel)
  have hw : Runs.run step (start 2097152 1000) sampleRun = some w := (Option.some_get _).symm
  have hS : Runs.run (Session.step Callbacks.accepting) (Session.new 256 1000) sampleOps =
    some S := (Option.some_get _).symm
  have hclient : w.client.isSome := by decide +kernel
  obtain ⟨c, hc⟩ := Option.isSome_iff_exists.mp hclient
  refine ⟨w, c, S, hw, hc, hS, received_of_run (by decide +kernel) ?_ hw hc (by decide +kernel)
    (by decide) hS (by decide +kernel) (by decide +kernel) (by decide +kernel)⟩
  simp only [sampleRun, List.forall_mem_cons, List.not_mem_nil, false_implies, implies_true,
    FramedEvent, hbeat, hpacket.framed, framed_nil, and_self]

end Adara.Spec.RunStream
