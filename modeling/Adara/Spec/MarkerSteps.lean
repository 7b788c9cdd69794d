import Adara.ForStd.Runs
import Adara.Spec.MarkerQueues
import Mathlib.Data.Set.List

/-! # Steps of the markers

What a step does to the queues and to the run notes is a sequence of a few acts (`Act`): it
adds plain packets, queues an entry, sets, discards or queues a note, or dumps all queues.  A
dump comes only in a run that is not paused, and nothing is queued there at the end of a step
(`Inv`). -/

namespace Adara.Spec.Markers

open Adara.Native Adara.Native.Markers

variable {env : Markers.Env} {s t u : Markers}

/-! ### Acts -/

/-- What a change keeps that is not about queues or run notes. -/
structure Same (s t : Markers) : Prop where
  out : ∃ ms, t.out = s.out ++ ms ∧ ∀ em ∈ ms, Plain em
  queues : t.queues = s.queues
  entries : t.entries = s.entries
  dumps : ∃ ds, t.dumps = s.dumps ++ ds ∧ ∀ d ∈ ds, Idle d
  noted : t.noted = s.noted
  inRun : t.inRun = s.inRun
  notesCommentSet : t.notesCommentSet = s.notesCommentSet
  useFirst : t.useFirstNotesComment = s.useFirstNotesComment
  updates : t.runNotesUpdates = s.runNotesUpdates

theorem Kept.same (h : Kept s t) : Same s t :=
  ⟨h.out, h.queues, h.entries, h.dumps, h.noted, h.inRun, h.notesCommentSet, h.useFirst,
    h.updates⟩

/-- The state after `dumpRunNotesComment` in a prologue. -/
def afterNote (s : Markers) : Markers :=
  match s.chosenNote with
  | none => s
  | some q => s.takeNote q .stream

/-- The state after `dumpQueuedComments` in a run that is not paused. -/
def dumped (s : Markers) (ms : List Emission) : Markers :=
  { s with
    out := s.out ++ ms
    queues := fun _ => []
    dumps := s.dumps ++ [⟨s.queues, s.scanIndex, ms, fun _ => []⟩] }

/-- A note that comes in a run that is not paused: it is set, or it is discarded. -/
def noteNow (s : Markers) (q : Queued) (scanIndex : UInt32) : Markers :=
  let first := !s.notesCommentSet || s.runNotesUpdates
  { s with
    out := s.out ++
      [⟨if first then marker q.1 .overallRunComment scanIndex [] q.2
        else marker q.1 .generic scanIndex Kind.notes.label q.2, .note q, .stream⟩]
    noted := s.noted ++ [q]
    notesCommentSet := s.notesCommentSet || first }

/-- A note that is queued. -/
def noteLater (s : Markers) (q : Queued) (scanIndex : UInt32) : Markers :=
  { s with useFirstNotesComment := s.inRun, noted := s.noted ++ [q] }.push
    ⟨.notes, q.1, scanIndex, q.2⟩

/-- All queues are dumped: there is a run, it is not paused, and the packets are these. -/
structure Dumps (s : Markers) (ms : List Emission) : Prop where
  inRun : s.inRun = true
  isPaused : s.isPaused = false
  emitted : (afterNote s).queuedInOrder.mapM (emissionOf (afterNote s).scanIndex .stream) = some ms

inductive Act : Markers → Markers → Prop where
  | same {s t : Markers} (h : Same s t) : Act s t
  | push {s : Markers} (e : Entry) (hkind : e.kind ≠ .notes) (htime : e.time.nanos < 2 ^ 64 - 1) :
      Act s (s.push e)
  | noteNow {s : Markers} (q : Queued) (scanIndex : UInt32) (hrun : s.inRun = true)
      (hempty : ∀ k, s.queues k = []) : Act s (noteNow s q scanIndex)
  | noteLater {s : Markers} (q : Queued) (scanIndex : UInt32) (htime : q.1.nanos < 2 ^ 64 - 1) :
      Act s (noteLater s q scanIndex)
  | dump {s : Markers} (ms : List Emission) (h : Dumps s ms) : Act s (dumped (afterNote s) ms)

/-- A sequence of acts. -/
abbrev Acts : Markers → Markers → Prop := Relation.ReflTransGen Act

theorem Same.acts (h : Same s t) : Acts s t := .single (.same h)

theorem Kept.acts (h : Kept s t) : Acts s t := h.same.acts

theorem Same.trans (h : Same s t) (h' : Same t u) : Same s u where
  out := appended_trans h.out h'.out
  queues := h'.queues.trans h.queues
  entries := h'.entries.trans h.entries
  dumps := appended_trans h.dumps h'.dumps
  noted := h'.noted.trans h.noted
  inRun := h'.inRun.trans h.inRun
  notesCommentSet := h'.notesCommentSet.trans h.notesCommentSet
  useFirst := h'.useFirst.trans h.useFirst
  updates := h'.updates.trans h.updates

/-! ### What acts keep -/

theorem push_queues_self (s : Markers) (e : Entry) :
    (s.push e).queues e.kind = s.queues e.kind ++ [e.queued] := Function.update_self _ _ _

theorem push_queues_of_ne {e : Entry} {k : Kind} (h : k ≠ e.kind) :
    (s.push e).queues k = s.queues k := Function.update_of_ne h _ _

/-- Notes that are dumped first change the queue of notes, and that they are set. -/
theorem afterNote_eq (s : Markers) :
    ∃ out queues set, afterNote s =
        { s with out := out, queues := queues, notesCommentSet := set } ∧
      ∀ k, (queues k).Sublist (s.queues k) := by
  rw [afterNote]
  cases s.chosenNote with
  | none => exact ⟨s.out, s.queues, s.notesCommentSet, rfl, fun _ => List.Sublist.refl _⟩
  | some q =>
    refine ⟨_, _, _, rfl, ?_⟩
    intro k
    by_cases hk : k = .notes
    · subst hk
      rw [Function.update_self]
      split
      · exact List.tail_sublist _
      · exact List.dropLast_sublist _
    · rw [Function.update_of_ne hk]

theorem afterNote_inRun (s : Markers) : (afterNote s).inRun = s.inRun := by
  obtain ⟨_, _, _, heq, -⟩ := afterNote_eq s
  rw [heq]

theorem afterNote_updates (s : Markers) :
    (afterNote s).runNotesUpdates = s.runNotesUpdates := by
  obtain ⟨_, _, _, heq, -⟩ := afterNote_eq s
  rw [heq]

theorem Filled.afterNote (h : Filled s.queues) : Filled (afterNote s).queues := by
  obtain ⟨_, _, _, heq, hsub⟩ := afterNote_eq s
  rw [heq]
  exact h.sublist hsub

theorem Act.inRun (h : Act s t) : t.inRun = s.inRun := by
  cases h with
  | same h => exact h.inRun
  | push e => rfl
  | noteNow q => rfl
  | noteLater q => rfl
  | dump ms => exact afterNote_inRun s

theorem Act.updates (h : Act s t) : t.runNotesUpdates = s.runNotesUpdates := by
  cases h with
  | same h => exact h.updates
  | push e => rfl
  | noteNow q => rfl
  | noteLater q => rfl
  | dump ms => exact afterNote_updates s

theorem Act.filled (h : Act s t) (hs : Filled s.queues) : Filled t.queues := by
  cases h with
  | same h => exact h.queues ▸ hs
  | push e hkind htime => exact hs.push htime
  | noteNow q => exact hs
  | noteLater q scanIndex htime => exact Filled.push (e := ⟨.notes, q.1, scanIndex, q.2⟩) hs htime
  | dump ms => exact Filled.empty

theorem Acts.inRun (h : Acts s t) : t.inRun = s.inRun := by
  induction h with
  | refl => rfl
  | tail _ hact ih => exact hact.inRun.trans ih

theorem Acts.updates (h : Acts s t) : t.runNotesUpdates = s.runNotesUpdates := by
  induction h with
  | refl => rfl
  | tail _ hact ih => exact hact.updates.trans ih

theorem Acts.filled (h : Acts s t) (hs : Filled s.queues) : Filled t.queues := by
  induction h with
  | refl => exact hs
  | tail _ hact ih => exact hact.filled ih

/-- Outside of a run all notes are queued. -/
theorem Acts.notes (h : Acts s t) (hrun : s.inRun = false) :
    ∃ notes, t.noted = s.noted ++ notes ∧ t.queues .notes = s.queues .notes ++ notes := by
  induction h with
  | refl => exact ⟨[], (List.append_nil _).symm, (List.append_nil _).symm⟩
  | tail hacts hact ih =>
    obtain ⟨notes, hnoted, hqueue⟩ := ih
    have hrun' := (Acts.inRun hacts).trans hrun
    cases hact with
    | same h => exact ⟨notes, h.noted.trans hnoted, (congrFun h.queues .notes).trans hqueue⟩
    | push e hkind =>
      refine ⟨notes, hnoted, ?_⟩
      rw [push_queues_of_ne hkind.symm, hqueue]
    | noteNow q _ hr => exact absurd (hr.symm.trans hrun') (by decide)
    | noteLater q =>
      refine ⟨notes ++ [q], ?_, ?_⟩
      · rw [← List.append_assoc, ← hnoted]
        rfl
      · rw [← List.append_assoc, ← hqueue]
        exact push_queues_self _ _
    | dump ms hms => exact absurd (hms.inRun.symm.trans hrun') (by decide)

/-! ### Dumps -/

/-- What is merged was queued as entries. -/
theorem exists_entries (h : Filled s.queues) :
    ∃ es : List Entry, es.map (fun e => (e.kind, e.queued)) = s.queuedInOrder := by
  have hmem : ∀ x ∈ s.queuedInOrder, x ∈ Set.range fun e : Entry => (e.kind, e.queued) := by
    intro x hx
    have hbound : ∀ k ∈ Kind.all, ∀ q ∈ s.queues k, q.1.nanos < 2 ^ 64 - 1 :=
      fun k _ q hq => (h k q hq).1
    have hx := QueueMerge.mem_of_mem_merge kinds_pairwise mem_all (Nat.le_refl _) hbound hx
    obtain ⟨-, e, hkind, hqueued⟩ := h x.1 x.2 hx
    exact ⟨e, Prod.ext hkind hqueued⟩
  have hrange : s.queuedInOrder ∈ Set.range (List.map fun e : Entry => (e.kind, e.queued)) := by
    rw [Set.range_list_map]
    exact hmem
  exact hrange

/-- Packets of entries are emitted without an exception. -/
theorem mapM_emissionOf (es : List Entry) (scanIndex : UInt32) (sink : Sink) :
    (es.map fun e => (e.kind, e.queued)).mapM (emissionOf scanIndex sink) =
      some (es.map fun e => Entry.emission e scanIndex sink) := by
  induction es with
  | nil => rfl
  | cons e es ih =>
    rw [List.map_cons, List.mapM_cons, emissionOf_queued, ih]
    rfl

theorem exists_emitted (h : Filled s.queues) (scanIndex : UInt32) (sink : Sink) :
    ∃ ms, s.queuedInOrder.mapM (emissionOf scanIndex sink) = some ms := by
  obtain ⟨es, hes⟩ := exists_entries h
  exact ⟨_, hes ▸ mapM_emissionOf es scanIndex sink⟩

variable (env)

theorem dumpRunNotesComment_prologue (s : Markers) :
    s.dumpRunNotesComment env true .stream = some (afterNote s) := by
  rw [dumpRunNotesComment, afterNote]
  cases s.chosenNote with
  | none => rfl
  | some q => simp

/-- A prologue in a run that is not paused dumps everything. -/
theorem onPrologue_dumps (hrun : s.inRun = true) (hpaused : s.isPaused = false)
    (h : Filled s.queues) :
    ∃ ms t, s.onPrologue env .stream = some t ∧ Dumps s ms ∧
      Kept (dumped (afterNote s) ms) t := by
  obtain ⟨ms, hms⟩ := exists_emitted h.afterNote (afterNote s).scanIndex .stream
  have hdump : (afterNote s).dumpQueuedComments env true .stream =
      some (dumped (afterNote s) ms) := by
    obtain ⟨out, queues, set, heq, -⟩ := afterNote_eq s
    have hguard : (!(afterNote s).inRun || (afterNote s).isPaused) = false := by
      rw [heq]
      simp [hrun, hpaused]
    simp only [dumpQueuedComments, reduceCtorEq, decide_false, Bool.false_eq_true, if_false,
      hguard, true_or, if_true, hms, Option.map_some]
    rfl
  refine ⟨ms, (dumped (afterNote s) ms).emitContinuations env .stream, ?_,
    ⟨hrun, hpaused, hms⟩, emitContinuations_kept .stream⟩
  rw [onPrologue]
  simp [dumpRunNotesComment_prologue, hdump]

/-! ### Modes that end -/

/-- What a call does that may end a mode: its acts, and the flags and the file after it. -/
structure Turned (s t : Markers) (paused : Bool) : Prop where
  acts : Acts s t
  noted : t.noted = s.noted
  isPaused : t.isPaused = s.isPaused
  lastInRun : t.lastInRun = s.lastInRun
  scanIndex : t.scanIndex = s.scanIndex
  filePaused : t.filePaused = paused
  hasLast : s.inRun = true → s.hasLastPrologue = false → t.hasLastPrologue = false

theorem Turned.inRun {paused : Bool} (h : Turned s t paused) : t.inRun = s.inRun := h.acts.inRun

theorem Turned.refl (s : Markers) : Turned s s s.filePaused :=
  ⟨.refl, rfl, rfl, rfl, rfl, rfl, fun _ h => h⟩

theorem Turned.kept {paused : Bool} (h : Turned s t paused) (hk : Kept t u) : Turned s u paused :=
  { acts := h.acts.trans hk.acts
    noted := hk.noted.trans h.noted
    isPaused := hk.isPaused.trans h.isPaused
    lastInRun := hk.lastInRun.trans h.lastInRun
    scanIndex := hk.scanIndex.trans h.scanIndex
    filePaused := hk.filePaused.trans h.filePaused
    hasLast := fun hrun hlast =>
      (hk.hasLast (h.inRun.trans hrun)).trans (h.hasLast hrun hlast) }

/-- The state in which the first file of a new mode begins. -/
theorem exists_newMode (hcap : Quiet s .captured) (paused : Bool) :
    ∃ t, Turned s t paused ∧ Same s t ∧ s.turnMode env paused = t.newFile env ∧
      t.hasLastPrologue = false := by
  obtain ⟨t, ht, hkept⟩ := captureLast_quiet env hcap
  let u : Markers := { t with modes := t.modes + 1, hasLastPrologue := false, filePaused := paused }
  have hsame : Same s u := { hkept.same with }
  refine ⟨u, ?_, hsame, ?_, rfl⟩
  · exact
      { acts := hsame.acts
        noted := hsame.noted
        isPaused := hkept.isPaused
        lastInRun := hkept.lastInRun
        scanIndex := hkept.scanIndex
        filePaused := rfl
        hasLast := fun _ _ => rfl }
  · simp only [turnMode, ht, Option.bind_eq_bind, Option.bind_some]
    rfl

/-- A prologue of a new mode that finds nothing to dump. -/
theorem turnMode_quiet (hcap : Quiet s .captured) (hreal : Quiet s .stream) (paused : Bool) :
    ∃ t, s.turnMode env paused = some t ∧ Turned s t paused ∧ t.queues = s.queues := by
  obtain ⟨t, hturned, hsame, heq, -⟩ := exists_newMode env hcap paused
  have hquiet : Quiet t .stream := by
    apply Quiet.mk
    · intro h
      cases h
    · rw [hturned.inRun, hturned.isPaused, hsame.queues]
      exact hreal.real
  obtain ⟨u, hu, hkept⟩ := newFile_quiet env hquiet
  exact ⟨u, heq.trans hu, hturned.kept hkept, hkept.queues.trans hsame.queues⟩

/-- A prologue of a new mode that dumps everything. -/
theorem turnMode_dumps (hcap : Quiet s .captured) (hrun : s.inRun = true)
    (hpaused : s.isPaused = false) (hs : Filled s.queues) (paused : Bool) :
    ∃ t, s.turnMode env paused = some t ∧ Turned s t paused ∧ ∀ k, t.queues k = [] := by
  obtain ⟨t, hturned, hsame, heq, hlast⟩ := exists_newMode env hcap paused
  obtain ⟨ms, u, hu, hms, hkept⟩ := onPrologue_dumps env (hturned.inRun.trans hrun)
    (hturned.isPaused.trans hpaused) (hsame.queues ▸ hs)
  refine ⟨u, ?_, ?_, fun k => congrFun hkept.queues k⟩
  · rw [heq, newFile, if_neg (by simp [hlast]), hu]
  · -- the dump only changes queues and notes
    have hdumped : Turned s (dumped (afterNote t) ms) paused := by
      obtain ⟨out, queues, set, hnote, -⟩ := afterNote_eq t
      exact
        { acts := hturned.acts.tail (.dump ms hms)
          noted := by rw [dumped, hnote]; exact hturned.noted
          isPaused := by rw [dumped, hnote]; exact hturned.isPaused
          lastInRun := by rw [dumped, hnote]; exact hturned.lastInRun
          scanIndex := by rw [dumped, hnote]; exact hturned.scanIndex
          filePaused := by rw [dumped, hnote]; exact hturned.filePaused
          hasLast := fun _ _ => by rw [dumped, hnote]; exact hlast }
    exact hdumped.kept hkept

/-- The last state was saved before a pause or a resume: it was paused if the file is. -/
theorem quiet_of_lastIsPaused (h : s.lastIsPaused = true) : Quiet s .captured := by
  apply Quiet.mk
  · rw [h]
    intro _ _ hp
    cases hp
  · exact fun hne => absurd rfl hne

theorem pauseRecording_turned (hpaused : s.isPaused = true)
    (hcap : s.filePaused = false → Quiet s .captured) :
    ∃ t, s.pauseRecording env = some t ∧ Turned s t true := by
  rw [pauseRecording]
  cases hfile : s.filePaused with
  | true => exact ⟨s, rfl, hfile ▸ Turned.refl s⟩
  | false =>
    have hreal : Quiet s .stream := by
      apply Quiet.mk
      · intro h
        cases h
      · rw [hpaused]
        intro _ _ hp
        cases hp
    obtain ⟨t, ht, hturned, -⟩ := turnMode_quiet env (hcap hfile) hreal true
    exact ⟨t, ht, hturned⟩

/-- A paused file ends, and in a run the queues are dumped. -/
theorem resumeRecording_turned (hpaused : s.isPaused = false)
    (hlast : s.filePaused = true → s.lastIsPaused = true)
    (hopen : s.filePaused = false → s.inRun = true → ∀ k, s.queues k = [])
    (hs : Filled s.queues) :
    ∃ t, s.resumeRecording env = some t ∧ Turned s t false ∧
      (s.inRun = true → ∀ k, t.queues k = []) ∧ (s.inRun = false → t.queues = s.queues) := by
  rw [resumeRecording]
  cases hfile : s.filePaused with
  | false => exact ⟨s, rfl, hfile ▸ Turned.refl s, hopen hfile, fun _ => rfl⟩
  | true =>
    have hcap := quiet_of_lastIsPaused (hlast hfile)
    cases hrun : s.inRun with
    | true =>
      obtain ⟨t, ht, hturned, hempty⟩ := turnMode_dumps env hcap hrun hpaused hs false
      exact ⟨t, ht, hturned, fun _ => hempty, nofun⟩
    | false =>
      have hreal : Quiet s .stream := by
        apply Quiet.mk
        · intro h
          cases h
        · rw [hrun]
          intro _ hr
          cases hr
      obtain ⟨t, ht, hturned, hqueues⟩ := turnMode_quiet env hcap hreal false
      exact ⟨t, ht, hturned, nofun, fun _ => hqueues⟩

/-! ### Between the steps -/

/-- What holds between two steps: the file is paused when the markers are, nothing is queued in a
    run that is not paused, and outside of a run the last state is none of a run if a mode has
    ended since. -/
structure Inv (s : Markers) : Prop where
  files : s.filePaused = s.isPaused
  fresh : s.inRun = true → s.hasLastPrologue = false
  settled : Settled s
  pausedLast : s.inRun = false → s.isPaused = true → s.lastInRun = false
  filled : Filled s.queues

theorem Inv.kept (h : Inv s) (hk : Kept s t) : Inv t :=
  { files := by rw [hk.filePaused, hk.isPaused, h.files]
    fresh := fun hrun => by
      rw [hk.inRun] at hrun
      rw [hk.hasLast hrun, h.fresh hrun]
    settled := h.settled.kept hk
    pausedLast := by
      rw [hk.inRun, hk.isPaused, hk.lastInRun]
      exact h.pausedLast
    filled := hk.queues ▸ h.filled }

/-- Entries are queued before a run, or while it is paused. -/
theorem Inv.push (h : Inv s) {e : Entry} (htime : e.time.nanos < 2 ^ 64 - 1)
    (hlater : s.inRun = true → s.isPaused = true) : Inv (s.push e) :=
  { files := h.files
    fresh := h.fresh
    settled := ⟨fun hrun hpaused => absurd ((hlater hrun).symm.trans hpaused) (by decide),
      h.settled.stale⟩
    pausedLast := h.pausedLast
    filled := h.filled.push htime }

/-- The step is performed by acts, and what holds between steps holds after it. -/
def Steps (s : Markers) (r : Option Markers) : Prop := ∃ t, r = some t ∧ Acts s t ∧ Inv t

/-- A packet, and what is queued behind it. -/
theorem emitPacket_steps (h : Inv s) {m : Marker} (hm : m.type ≠ .overallRunComment) :
    Steps s (s.emitPacket env m .request) := by
  obtain ⟨t, ht, hkept⟩ := emitPacket_kept env h.settled hm
  exact ⟨t, ht, hkept.acts, h.kept hkept⟩

theorem push_steps (h : Inv s) {e : Entry} (hkind : e.kind ≠ .notes)
    (htime : e.time.nanos < 2 ^ 64 - 1) (hlater : s.inRun = true → s.isPaused = true) :
    Steps s (some (s.push e)) :=
  ⟨_, rfl, .single (.push e hkind htime), h.push htime hlater⟩

theorem Steps.bind {r : Option Markers} {f : Markers → Option Markers} (h : Steps s r)
    (hf : ∀ t, r = some t → Acts s t → Inv t → Steps t (f t)) : Steps s (r.bind f) := by
  obtain ⟨t, rfl, hacts, hinv⟩ := h
  obtain ⟨u, hu, hacts', hinv'⟩ := hf t rfl hacts hinv
  exact ⟨u, hu, hacts.trans hacts', hinv'⟩

/-! ### Scans and comments -/

theorem scanPacket_steps (h : Inv s) {kind : Kind} (hkind : kind.markerType ≠ .overallRunComment)
    (hnotes : kind ≠ .notes) (verb : Text) (r : Request) (scanIndex : UInt32) :
    Steps s (s.scanPacket env kind verb r scanIndex) := by
  obtain ⟨t, ht, hkept⟩ := emitPacket_kept env h.settled (m := marker r.time.toStamp
    kind.markerType scanIndex (runTag s.inRun (s.isPaused || s.isPausedPT) s.runNumber ++
      scanLabel scanIndex verb) (if r.passThru ≠ .ignore then r.ptComment else [])) hkind
  rw [scanPacket]
  simp only [ht, Option.bind_eq_bind, Option.bind_some]
  split
  · exact ⟨t, rfl, hkept.acts, h.kept hkept⟩
  · rename_i hlive
    obtain ⟨u, hu, hacts, hinv⟩ := push_steps (h.kept hkept) (e := ⟨kind, r.time.toStamp, scanIndex,
      _⟩) hnotes (WallTime.nanos_lt r.time) (by simpa using hlive)
    exact ⟨u, hu, hkept.acts.trans hacts, hinv⟩

theorem comment_steps (h : Inv s) {kind : Kind} (hkind : kind.markerType ≠ .overallRunComment)
    (hnotes : kind ≠ .notes) (time : WallTime) (scanIndex : UInt32) (label text : Text) :
    Steps s (s.comment env kind time.toStamp scanIndex label text) := by
  rw [comment]
  split
  · exact emitPacket_steps env h hkind
  · rename_i hlive
    exact push_steps h hnotes (WallTime.nanos_lt time) (by simpa using hlive)

/-- The scan index is not what the invariant is about. -/
theorem Inv.withScanIndex (h : Inv s) (index last : UInt32) :
    Inv { s with scanIndex := index, lastScanIndex := last } :=
  { files := h.files
    fresh := h.fresh
    settled := ⟨h.settled.quiet, h.settled.stale⟩
    pausedLast := h.pausedLast
    filled := h.filled }

theorem Same.withScanIndex (s : Markers) (index last : UInt32) :
    Same s { s with scanIndex := index, lastScanIndex := last } :=
  { (Kept.refl s).same with }

theorem Steps.of_same {r : Option Markers} (h : Same s t) (hr : Steps t r) : Steps s r := by
  obtain ⟨u, hu, hacts, hinv⟩ := hr
  exact ⟨u, hu, h.acts.trans hacts, hinv⟩

theorem startScan_steps (h : Inv s) (r : Request) (indexPV : UInt32) :
    Steps s (s.startScan env r indexPV) := by
  rw [startScan]
  split
  · exact scanPacket_steps env h (by decide) (by decide) _ r _
  · exact Steps.of_same (Same.withScanIndex s _ _)
      (scanPacket_steps env (h.withScanIndex _ _) (by decide) (by decide) _ r _)

theorem stopScan_steps (h : Inv s) (r : Request) : Steps s (s.stopScan env r) := by
  rw [stopScan]
  split
  · exact scanPacket_steps env h (by decide) (by decide) _ r _
  · exact Steps.of_same (Same.withScanIndex s _ _)
      (scanPacket_steps env (h.withScanIndex _ _) (by decide) (by decide) _ r _)

/-! ### Run notes -/

/-- A note that comes while the run goes on is put out between what its packet adds. -/
theorem noteNow_acts (h : Inv s) (hrun : s.inRun = true) (hpaused : s.isPaused = false)
    (q : Queued) (scanIndex : UInt32) (set : Bool)
    (hset : set = (s.notesCommentSet || (!s.notesCommentSet || s.runNotesUpdates))) :
    Steps s ((s.emitPacket env
      (if !s.notesCommentSet || s.runNotesUpdates then marker q.1 .overallRunComment scanIndex [] q.2
        else marker q.1 .generic scanIndex Kind.notes.label q.2) (.note q)).map fun t =>
          { t with notesCommentSet := set, noted := t.noted ++ [q] }) := by
  obtain ⟨t, u, hu, hkept, hkept'⟩ := emitPacket_spec env h.settled
    (if !s.notesCommentSet || s.runNotesUpdates then marker q.1 .overallRunComment scanIndex [] q.2
      else marker q.1 .generic scanIndex Kind.notes.label q.2) (.note q)
  have hput : Inv u := (⟨(h.kept hkept).files, (h.kept hkept).fresh,
    ⟨(h.kept hkept).settled.quiet, (h.kept hkept).settled.stale⟩, (h.kept hkept).pausedLast,
    (h.kept hkept).filled⟩ : Inv (t.put _ (.note q) .stream)).kept hkept'
  have hnow : Act t (noteNow t q scanIndex) :=
    .noteNow q scanIndex (hkept.inRun.trans hrun) fun k => by
      rw [hkept.queues, h.settled.quiet hrun hpaused k]
  have hsame : Same (noteNow t q scanIndex) { u with notesCommentSet := set, noted := u.noted ++ [q] } := by
    obtain ⟨ms, hms, hplain⟩ := hkept'.out
    exact
      { out := ⟨ms, by rw [noteNow, hms, hkept.notesCommentSet, hkept.updates]; rfl, hplain⟩
        queues := hkept'.queues
        entries := hkept'.entries
        dumps := hkept'.dumps
        noted := by rw [noteNow, hkept'.noted]; rfl
        inRun := hkept'.inRun
        notesCommentSet := by rw [noteNow, hset, hkept.notesCommentSet, hkept.updates]
        useFirst := hkept'.useFirst
        updates := hkept'.updates }
  refine ⟨_, by rw [hu]; rfl, (hkept.acts.tail hnow).trans hsame.acts, ?_⟩
  exact
    { files := hput.files
      fresh := hput.fresh
      settled := ⟨hput.settled.quiet, hput.settled.stale⟩
      pausedLast := hput.pausedLast
      filled := hput.filled }

theorem addNote_steps (h : Inv s) {time : Stamp} (htime : time.nanos < 2 ^ 64 - 1)
    (scanIndex : UInt32) (text : Text) : Steps s (s.addNote env time scanIndex text) := by
  rw [addNote]
  by_cases hlive : s.inRun = true ∧ s.isPaused = false
  · obtain ⟨hrun, hpaused⟩ := hlive
    rw [if_pos (by simp [hrun, hpaused])]
    by_cases hfirst : (!s.notesCommentSet || s.runNotesUpdates) = true
    · have hnow := noteNow_acts env h hrun hpaused (time, text) scanIndex true (by simp [hfirst])
      rw [if_pos hfirst] at hnow ⊢
      cases hemit : s.emitPacket env (marker time .overallRunComment scanIndex [] text)
          (.note (time, text)) with
      | none =>
        obtain ⟨t, ht, -⟩ := hnow
        rw [hemit] at ht
        cases ht
      | some t =>
        rw [hemit] at hnow
        exact hnow
    · have hset : s.notesCommentSet = true := by simp_all
      have hnow := noteNow_acts env h hrun hpaused (time, text) scanIndex true (by simp [hset])
      rw [if_neg hfirst] at hnow ⊢
      obtain ⟨t, u, hu, hkept, hkept'⟩ := emitPacket_spec env h.settled
        (marker time .generic scanIndex Kind.notes.label text) (.note (time, text))
      rw [hu] at hnow ⊢
      -- that notes are set does not change
      have hsame : u.notesCommentSet = true :=
        hkept'.notesCommentSet.trans (hkept.notesCommentSet.trans hset)
      rw [Option.map_some] at hnow
      have heq : ({ u with notesCommentSet := true, noted := u.noted ++ [(time, text)] } : Markers) =
          { u with noted := u.noted ++ [(time, text)] } := by
        rw [← hsame]
      rw [heq] at hnow
      exact hnow
  · rw [if_neg (by simpa using hlive)]
    refine ⟨_, rfl, .single (.noteLater (time, text) scanIndex htime), ?_⟩
    have hinv : Inv { s with useFirstNotesComment := s.inRun, noted := s.noted ++ [(time, text)] } :=
      { files := h.files
        fresh := h.fresh
        settled := ⟨h.settled.quiet, h.settled.stale⟩
        pausedLast := h.pausedLast
        filled := h.filled }
    exact hinv.push htime fun hrun => by simpa [show s.inRun = true from hrun] using hlive

/-! ### Pauses -/

theorem pushBeforeRun_steps (h : Inv s) {e : Entry} (hkind : e.kind ≠ .notes)
    (htime : e.time.nanos < 2 ^ 64 - 1) : Steps s (some (s.pushBeforeRun e)) := by
  rw [pushBeforeRun]
  split
  · exact ⟨s, rfl, .refl, h⟩
  · rename_i hrun
    exact push_steps h hkind htime fun hr => absurd hr hrun

/-- The passing flag changes nothing. -/
theorem withPausedPT_steps (h : Inv s) (paused : Bool) :
    Steps s (some { s with isPausedPT := paused }) :=
  ⟨_, rfl, Same.acts { (Kept.refl s).same with },
    ⟨h.files, h.fresh, ⟨h.settled.quiet, h.settled.stale⟩, h.pausedLast, h.filled⟩⟩

theorem pauseMode_steps (h : Inv s) (r : Request) (scanIndex : UInt32) :
    Steps s (s.pauseMode env r scanIndex) := by
  rw [pauseMode]
  split
  · let t : Markers := { s.saveLast scanIndex with isPaused := true }
    have hsame : Same s t := { (Kept.refl s).same with }
    -- a file that is not paused ends while nothing is queued, or there is no run
    have hcap : t.filePaused = false → Quiet t .captured := by
      intro hfile
      have hpaused : s.isPaused = false := h.files ▸ hfile
      exact ⟨fun _ hrun _ => h.settled.quiet hrun hpaused, fun hne => absurd rfl hne⟩
    obtain ⟨u, hu, hturned⟩ := pauseRecording_turned env (s := t) rfl hcap
    have hpaused : u.isPaused = true := hturned.isPaused
    have hlast : u.lastInRun = u.inRun := hturned.lastInRun.trans hturned.inRun.symm
    refine ⟨u, hu, hsame.acts.trans hturned.acts, ?_⟩
    exact
      { files := hturned.filePaused.trans hpaused.symm
        fresh := fun hr => hturned.hasLast (hturned.inRun.symm.trans hr)
          (h.fresh (hturned.inRun.symm.trans hr))
        settled := ⟨fun _ hp => absurd (hpaused.symm.trans hp) (by decide),
          fun hr _ => hlast.trans hr⟩
        pausedLast := fun hr _ => hlast.trans hr
        filled := hturned.acts.filled h.filled }
  · exact withPausedPT_steps h true

theorem resumeMode_steps (h : Inv s) (r : Request) (scanIndex : UInt32) :
    Steps s (s.resumeMode env r scanIndex) := by
  rw [resumeMode]
  split
  · let t : Markers := { s.saveLast scanIndex with isPaused := false }
    have hsame : Same s t := { (Kept.refl s).same with }
    obtain ⟨u, hu, hturned, hempty, -⟩ := resumeRecording_turned env (s := t) rfl
      (fun hfile => h.files.symm.trans hfile)
      (fun hfile hrun => h.settled.quiet hrun (h.files ▸ hfile)) h.filled
    have hpaused : u.isPaused = false := hturned.isPaused
    have hlast : u.lastInRun = u.inRun := hturned.lastInRun.trans hturned.inRun.symm
    refine ⟨u, hu, hsame.acts.trans hturned.acts, ?_⟩
    exact
      { files := hturned.filePaused.trans hpaused.symm
        fresh := fun hr => hturned.hasLast (hturned.inRun.symm.trans hr)
          (h.fresh (hturned.inRun.symm.trans hr))
        settled := ⟨fun hr _ => hempty (hturned.inRun.symm.trans hr), fun hr _ => hlast.trans hr⟩
        pausedLast := fun hr _ => hlast.trans hr
        filled := hturned.acts.filled h.filled }
  · exact withPausedPT_steps h false

theorem pause_steps (h : Inv s) (r : Request) : Steps s (s.pause env r) := by
  apply (emitPacket_steps env h (show MarkerType.pause ≠ .overallRunComment by decide)).bind
  intro t _ _ ht
  apply (pauseMode_steps env ht r _).bind
  intro u _ _ hu
  exact pushBeforeRun_steps hu (show Kind.pause ≠ .notes by decide) (WallTime.nanos_lt r.time)

theorem resume_steps (h : Inv s) (r : Request) : Steps s (s.resume env r) := by
  apply (resumeMode_steps env h r _).bind
  intro t _ _ ht
  apply (emitPacket_steps env ht (show MarkerType.resume ≠ .overallRunComment by decide)).bind
  intro u _ _ hu
  exact pushBeforeRun_steps hu (show Kind.resume ≠ .notes by decide) (WallTime.nanos_lt r.time)

/-! ### The start of a run -/

/-- A part of the start or the stop of a run: nothing is paused after it, and it does not come
    with notes. -/
def Opened (s : Markers) (r : Option Markers) : Prop :=
  ∃ t, r = some t ∧ Acts s t ∧ Inv t ∧ t.isPaused = false ∧ t.noted = s.noted

theorem Opened.bind {r : Option Markers} {f : Markers → Option Markers} (h : Opened s r)
    (hf : ∀ t, t.inRun = s.inRun → Inv t → t.isPaused = false → Opened t (f t)) :
    Opened s (r.bind f) := by
  obtain ⟨t, rfl, hacts, hinv, hpaused, hnoted⟩ := h
  obtain ⟨u, hu, hacts', hinv', hpaused', hnoted'⟩ := hf t hacts.inRun hinv hpaused
  exact ⟨u, hu, hacts.trans hacts', hinv', hpaused', hnoted'.trans hnoted⟩

theorem Opened.of_same {r : Option Markers} (h : Same s t) (hr : Opened t r) : Opened s r := by
  obtain ⟨u, hu, hacts, hinv, hpaused, hnoted⟩ := hr
  exact ⟨u, hu, h.acts.trans hacts, hinv, hpaused, hnoted.trans h.noted⟩

theorem emitPacket_opened (h : Inv s) (hpaused : s.isPaused = false) {m : Marker}
    (hm : m.type ≠ .overallRunComment) : Opened s (s.emitPacket env m .request) := by
  obtain ⟨t, ht, hkept⟩ := emitPacket_kept env h.settled hm
  exact ⟨t, ht, hkept.acts, h.kept hkept, hkept.isPaused.trans hpaused, hkept.noted⟩

theorem push_opened (h : Inv s) (hrun : s.inRun = false) (hpaused : s.isPaused = false) (e : Entry)
    (hkind : e.kind ≠ .notes) (htime : e.time.nanos < 2 ^ 64 - 1) :
    Opened s (some (s.push e)) := by
  obtain ⟨t, ht, hacts, hinv⟩ := push_steps h hkind htime fun hr =>
    absurd (hr.symm.trans hrun) (by decide)
  refine ⟨t, ht, hacts, hinv, ?_⟩
  rw [← Option.some.inj ht]
  exact ⟨hpaused, rfl⟩

/-- A pause ends before a run begins. -/
theorem resumeRecording_opened (h : Inv s) (hrun : s.inRun = false) :
    Opened s ({ s with lastIsPaused := true, isPaused := false }.resumeRecording env) := by
  let t : Markers := { s with lastIsPaused := true, isPaused := false }
  have hsame : Same s t := { (Kept.refl s).same with }
  cases hpaused : s.isPaused with
  | false =>
    have hfile : t.filePaused = false := h.files.trans hpaused
    refine ⟨t, ?_, hsame.acts, ?_, rfl, rfl⟩
    · rw [resumeRecording, if_neg (by simp [h.files, hpaused])]
    · exact
        { files := hfile
          fresh := h.fresh
          settled := ⟨fun hr => absurd (hr.symm.trans hrun) (by decide), h.settled.stale⟩
          pausedLast := fun _ hp => by cases hp
          filled := h.filled }
  | true =>
    obtain ⟨u, hu, hturned, -, -⟩ := resumeRecording_turned env (s := t) rfl (fun _ => rfl)
      (fun _ hr => absurd (hr.symm.trans hrun) (by decide)) h.filled
    have hpaused' : u.isPaused = false := hturned.isPaused
    have hrun' : u.inRun = false := hturned.inRun.trans hrun
    -- the last state was saved when the pause began
    have hlast : u.lastInRun = false := hturned.lastInRun.trans (h.pausedLast hrun hpaused)
    refine ⟨u, hu, hsame.acts.trans hturned.acts, ?_, hpaused', hturned.noted⟩
    exact
      { files := hturned.filePaused.trans hpaused'.symm
        fresh := fun hr => absurd (hr.symm.trans hrun') (by decide)
        settled := ⟨fun hr => absurd (hr.symm.trans hrun') (by decide), fun _ _ => hlast⟩
        pausedLast := fun _ _ => hlast
        filled := hturned.acts.filled h.filled }

theorem resumeBeforeRun_opened (h : Inv s) (hrun : s.inRun = false) (time : WallTime)
    (pausedPV : Bool) : Opened s (s.resumeBeforeRun env time pausedPV) := by
  rw [resumeBeforeRun]
  split
  · apply (resumeRecording_opened env h hrun).bind
    intro t ht hinv hpaused
    apply (emitPacket_opened env hinv hpaused
      (show MarkerType.resume ≠ .overallRunComment by decide)).bind
    intro u hu hinv' hpaused'
    exact push_opened hinv' (hu.trans (ht.trans hrun)) hpaused' _
      (show Kind.resume ≠ .notes by decide) (WallTime.nanos_lt time)
  · rename_i hguard
    have hpaused : s.isPaused = false := by simp_all
    exact ⟨_, rfl, Same.acts { (Kept.refl s).same with },
      ⟨h.files, h.fresh, ⟨h.settled.quiet, h.settled.stale⟩, h.pausedLast, h.filled⟩, hpaused, rfl⟩

theorem withScanIndex_opened (h : Inv s) (hpaused : s.isPaused = false) (index last : UInt32) :
    Opened s (some { s with scanIndex := index, lastScanIndex := last }) :=
  ⟨_, rfl, (Same.withScanIndex s index last).acts, h.withScanIndex index last, hpaused, rfl⟩

theorem stopScanBeforeRun_opened (h : Inv s) (hrun : s.inRun = false) (hpaused : s.isPaused = false)
    (time : WallTime) : Opened s (s.stopScanBeforeRun env time) := by
  rw [stopScanBeforeRun]
  split
  · apply (emitPacket_opened env h hpaused
      (show MarkerType.scanStop ≠ .overallRunComment by decide)).bind
    intro t ht hinv hpaused'
    obtain ⟨u, hu, hacts, hinv', hpaused'', hnoted⟩ := push_opened hinv (ht.trans hrun) hpaused'
      ⟨.scanStop, time.toStamp, s.scanIndex, _⟩ (show Kind.scanStop ≠ .notes by decide)
      (WallTime.nanos_lt time)
    obtain rfl := Option.some.inj hu
    exact ⟨_, rfl, hacts.trans (Same.withScanIndex _ 0 s.scanIndex).acts,
      hinv'.withScanIndex 0 s.scanIndex, hpaused'', hnoted⟩
  · exact withScanIndex_opened h hpaused s.scanIndex 0

/-- The notes that are used again at the start of a run. -/
def reused (s : Markers) (notesPV : Option (WallTime × Text)) : List Queued :=
  if s.queues .notes = [] then notesPV.toList.map fun (ts, text) => (ts.toStamp, text) else []

/-- Notes that are used again are queued. -/
theorem reuseNotes_spec (h : Inv s) (hrun : s.inRun = false) (hpaused : s.isPaused = false)
    (notesPV : Option (WallTime × Text)) :
    ∃ t, s.reuseNotes env notesPV = some t ∧ Acts s t ∧ Inv t ∧ t.isPaused = false ∧
      t.noted = s.noted ++ reused s notesPV := by
  cases notesPV with
  | none => exact ⟨s, rfl, .refl, h, hpaused, by simp [reused]⟩
  | some note =>
    obtain ⟨ts, text⟩ := note
    rw [reuseNotes, reused]
    split
    · obtain ⟨t, ht, hacts, hinv⟩ := addNote_steps env h (WallTime.nanos_lt ts) s.scanIndex text
      refine ⟨t, ht, hacts, hinv, ?_⟩
      rw [addNote, if_neg (by simp [hrun])] at ht
      rw [← Option.some.inj ht]
      exact ⟨hpaused, rfl⟩
    · exact ⟨s, rfl, .refl, h, hpaused, by simp⟩

/-- The start of a run, which only changes the flags of it. -/
def begun (s : Markers) : Markers := { s with lastInRun := s.inRun, inRun := true }

/-- All of `beforeNewRun` is done outside of the run that begins. -/
theorem beforeNewRun_begun (h : Inv s) (hrun : s.inRun = false) (runNumber : UInt32)
    (time : WallTime) (pausedPV : Bool) (notesPV : Option (WallTime × Text)) :
    ∃ t, s.beforeNewRun env runNumber time pausedPV notesPV = some (begun t) ∧ Acts s t ∧ Inv t ∧
      t.isPaused = false ∧ t.noted = s.noted ++ reused s notesPV := by
  let s' : Markers := { s with lastRunNumber := s.runNumber, runNumber := runNumber }
  have hsame : Same s s' := { (Kept.refl s).same with }
  have hinv : Inv s' :=
    ⟨h.files, h.fresh, ⟨h.settled.quiet, h.settled.stale⟩, h.pausedLast, h.filled⟩
  have hopened : Opened s' ((s'.resumeBeforeRun env time pausedPV).bind fun s =>
      (s.stopScanBeforeRun env time).bind fun s =>
        some (s.push ⟨.annotationComment, time.succ, s.scanIndex,
          "Run ".toList ++ digits runNumber ++ " Started.".toList⟩)) := by
    apply (resumeBeforeRun_opened env hinv hrun time pausedPV).bind
    intro t ht htinv htp
    apply (stopScanBeforeRun_opened env htinv (ht.trans hrun) htp time).bind
    intro u hu huinv hup
    exact push_opened huinv (hu.trans (ht.trans hrun)) hup _
      (show Kind.annotationComment ≠ .notes by decide) (WallTime.nanos_succ_lt time)
  obtain ⟨t, ht, hacts, htinv, htp, hnoted⟩ := Opened.of_same hsame hopened
  have htrun : t.inRun = false := hacts.inRun.trans hrun
  obtain ⟨u, hu, hacts', huinv, hup, hnoted'⟩ := reuseNotes_spec env htinv htrun htp notesPV
  -- the queue of notes is still that of before
  have hqueue : t.queues .notes = s.queues .notes := by
    obtain ⟨notes, hn, hq⟩ := hacts.notes hrun
    rw [hnoted, List.self_eq_append_right] at hn
    rw [hq, hn, List.append_nil]
  refine ⟨u, ?_, hacts.trans hacts', huinv, hup, ?_⟩
  · obtain ⟨a, ha, ht⟩ := Option.bind_eq_some_iff.mp ht
    obtain ⟨b, hb, ht⟩ := Option.bind_eq_some_iff.mp ht
    rw [← Option.some.inj ht] at hu
    show (s'.resumeBeforeRun env time pausedPV).bind _ = _
    rw [ha, Option.bind_some]
    show (a.stopScanBeforeRun env time).bind _ = _
    rw [hb, Option.bind_some]
    show ((b.push _).reuseNotes env notesPV).bind _ = _
    rw [hu, Option.bind_some]
    rfl
  · rw [hnoted', hnoted, reused, reused, hqueue]

/-- The state in which the first file of a new container begins. -/
theorem exists_newContainer (hcap : Quiet s .captured) (connected : Bool) :
    ∃ t, Same s t ∧ t.isPaused = s.isPaused ∧ t.modes = 1 ∧ t.hasLastPrologue = false ∧
      t.filePaused = false ∧ s.switchContainer env connected = t.newFile env := by
  have hcapture : ∃ t, s.captureIf env connected = some t ∧ Kept s t := by
    rw [captureIf]
    split
    · exact captureLast_quiet env hcap
    · exact ⟨s, rfl, Kept.refl s⟩
  obtain ⟨t, ht, hkept⟩ := hcapture
  refine ⟨{ t with modes := 1, hasLastPrologue := false, filePaused := false }, ?_,
    hkept.isPaused, rfl, rfl, rfl, ?_⟩
  · exact { hkept.same with }
  · simp only [switchContainer, ht, Option.bind_eq_bind, Option.bind_some]

/-- What has been queued before the run is dumped into its first file. -/
theorem switchContainer_begun (h : Inv s) (hpaused : s.isPaused = false) (hrun : s.inRun = false)
    (connected : Bool) :
    ∃ t ms u, (begun s).switchContainer env connected = some u ∧ Same (begun s) t ∧ Dumps t ms ∧
      Kept (dumped (afterNote t) ms) u ∧ Inv u := by
  have hcap : Quiet (begun s) .captured :=
    ⟨fun _ hl => absurd (hl.symm.trans hrun) (by decide), fun hne => absurd rfl hne⟩
  obtain ⟨t, hsame, htp, hmodes, hlast, hfile, heq⟩ := exists_newContainer env hcap connected
  have htrun : t.inRun = true := hsame.inRun
  have htfilled : Filled t.queues := hsame.queues ▸ h.filled
  obtain ⟨ms, u, hu, hms, hkept⟩ := onPrologue_dumps env htrun (htp.trans hpaused) htfilled
  obtain ⟨out, queues, set, hnote, -⟩ := afterNote_eq t
  have hempty : ∀ k, u.queues k = [] := congrFun hkept.queues
  have hdrun : (dumped (afterNote t) ms).inRun = true := (afterNote_inRun t).trans htrun
  have hurun : u.inRun = true := hkept.inRun.trans hdrun
  have hdumped : (dumped (afterNote t) ms).hasLastPrologue = false := by
    rw [dumped, hnote]
    exact hlast
  refine ⟨t, ms, u, ?_, hsame, hms, hkept, ?_⟩
  · rw [heq, newFile, if_neg (by simp [hlast]), hu]
  · exact
      { files := by
          rw [hkept.filePaused, hkept.isPaused, dumped, hnote, hfile, htp]
          exact hpaused.symm
        fresh := fun _ => (hkept.hasLast hdrun).trans hdumped
        settled := ⟨fun _ _ => hempty, fun hr => absurd (hr.symm.trans hurun) (by decide)⟩
        pausedLast := fun hr => absurd (hr.symm.trans hurun) (by decide)
        filled := fun k q hq => by rw [hempty k] at hq; cases hq }

/-- The start of a run queues what belongs to it, and then dumps all there is. -/
theorem startRun_begun (h : Inv s) (hrun : s.inRun = false) (runNumber : UInt32)
    (time : WallTime) (pausedPV : Bool) (notesPV : Option (WallTime × Text)) (connected : Bool) :
    ∃ t t' ms u, s.startRun env runNumber time pausedPV notesPV connected = some u ∧ Acts s t ∧
      t.noted = s.noted ++ reused s notesPV ∧ Same (begun t) t' ∧ Filled t'.queues ∧ Dumps t' ms ∧
      Kept (dumped (afterNote t') ms) u ∧ Inv u := by
  obtain ⟨t, ht, hacts, htinv, htp, hnoted⟩ :=
    beforeNewRun_begun env h hrun runNumber time pausedPV notesPV
  obtain ⟨t', ms, u, hu, hsame, hms, hkept, huinv⟩ :=
    switchContainer_begun env htinv htp (hacts.inRun.trans hrun) connected
  refine ⟨t, t', ms, u, ?_, hacts, hnoted, hsame, hsame.queues ▸ htinv.filled, hms, hkept, huinv⟩
  rw [startRun, if_neg (by simp [hrun]), ht]
  exact hu

/-! ### The stop of a run -/

/-- Nothing is left to dump at the stop of a run. -/
theorem dumpAll_opened (h : Inv s) (hpaused : s.isPaused = false) :
    Opened s ((s.dumpRunNotesComment env false .stream).bind fun s =>
      s.dumpQueuedComments env false .stream) := by
  have hquiet : Quiet s .stream := h.settled.real (by decide)
  obtain ⟨t, ht, hkept⟩ := dumpQueuedComments_quiet env hquiet false
  refine ⟨t, ?_, hkept.acts, h.kept hkept, hkept.isPaused.trans hpaused, hkept.noted⟩
  rw [dumpRunNotesComment, chosenNote_eq_none (by decide) hquiet]
  exact ht

/-- A pause ends before the run does, and all that was queued while paused is dumped. -/
theorem resumeRecording_stop (h : Inv s) (hrun : s.inRun = true) :
    ∃ t, { s with lastIsPaused := true, isPaused := false, scanIndex := 0 }.resumeRecording env =
        some t ∧
      Opened s (some { t with scanIndex := s.scanIndex }) := by
  let s' : Markers := { s with lastIsPaused := true, isPaused := false, scanIndex := 0 }
  have hsame : Same s s' := { (Kept.refl s).same with }
  obtain ⟨t, ht, hturned, hempty, -⟩ := resumeRecording_turned env (s := s') rfl (fun _ => rfl)
    (fun hfile hr => h.settled.quiet hr (h.files ▸ hfile)) h.filled
  have hpaused : t.isPaused = false := hturned.isPaused
  have htrun : t.inRun = true := hturned.inRun.trans hrun
  have hsame' : Same t { t with scanIndex := s.scanIndex } := { (Kept.refl t).same with }
  refine ⟨t, ht, _, rfl, (hsame.acts.trans hturned.acts).trans hsame'.acts, ?_, hpaused,
    hturned.noted⟩
  exact
    { files := hturned.filePaused.trans hpaused.symm
      fresh := fun _ => hturned.hasLast hrun (h.fresh hrun)
      settled := ⟨fun _ _ => hempty hrun, fun hr => absurd (hr.symm.trans htrun) (by decide)⟩
      pausedLast := fun hr => absurd (hr.symm.trans htrun) (by decide)
      filled := hturned.acts.filled h.filled }

theorem resumeBeforeStop_opened (h : Inv s) (hrun : s.inRun = true) (time : WallTime)
    (pausedPV : Bool) : Opened s (s.resumeBeforeStop env time pausedPV) := by
  rw [resumeBeforeStop]
  split
  · obtain ⟨t, ht, hopened⟩ := resumeRecording_stop env h hrun
    simp only [ht, Option.bind_eq_bind, Option.bind_some]
    refine hopened.bind (f := fun s => (s.dumpRunNotesComment env false .stream).bind fun s =>
      (s.dumpQueuedComments env false .stream).bind fun s => s.emitPacket env
        (marker time.toStamp .resume s.scanIndex [] "Warning: Run Resumed at Run Stop!".toList)
        .request) ?_
    intro u hu huinv hup
    rw [← Option.bind_assoc]
    apply (dumpAll_opened env huinv hup).bind
    intro v _ hvinv hvp
    exact emitPacket_opened env hvinv hvp (show MarkerType.resume ≠ .overallRunComment by decide)
  · rename_i hguard
    have hpaused : s.isPaused = false := by simp_all
    exact ⟨_, rfl, Same.acts { (Kept.refl s).same with },
      ⟨h.files, h.fresh, ⟨h.settled.quiet, h.settled.stale⟩, h.pausedLast, h.filled⟩, hpaused, rfl⟩

theorem stopScanBeforeStop_opened (h : Inv s) (hpaused : s.isPaused = false) (time : WallTime) :
    Opened s (s.stopScanBeforeStop env time) := by
  rw [stopScanBeforeStop]
  split
  · apply (emitPacket_opened env h hpaused
      (show MarkerType.scanStop ≠ .overallRunComment by decide)).bind
    intro t _ hinv hpaused'
    exact withScanIndex_opened hinv hpaused' 0 s.scanIndex
  · exact withScanIndex_opened h hpaused s.scanIndex 0

/-- The stop of a run, which only changes the flags of it. -/
def ended (s : Markers) : Markers :=
  { s with lastInRun := s.inRun, inRun := false, notesCommentSet := false }

theorem runStop_ended (h : Inv s) (hrun : s.inRun = true) (time : WallTime) (pausedPV : Bool) :
    ∃ t, s.runStop env time pausedPV = some (ended t) ∧ Acts s t ∧ Inv t ∧ t.isPaused = false ∧
      t.noted = s.noted := by
  have hopened : Opened s ((s.resumeBeforeStop env time pausedPV).bind fun s =>
      ((s.dumpRunNotesComment env false .stream).bind fun s =>
        s.dumpQueuedComments env false .stream).bind fun s =>
          (s.stopScanBeforeStop env time).bind fun s =>
            s.emitPacket env (marker time.toStamp .generic s.scanIndex []
              ("Run ".toList ++ digits s.runNumber ++ " Stopped.".toList)) .request) := by
    apply (resumeBeforeStop_opened env h hrun time pausedPV).bind
    intro t ht htinv htp
    apply (dumpAll_opened env htinv htp).bind
    intro u _ huinv hup
    apply (stopScanBeforeStop_opened env huinv hup time).bind
    intro v _ hvinv hvp
    exact emitPacket_opened env hvinv hvp (show MarkerType.generic ≠ .overallRunComment by decide)
  obtain ⟨t, ht, hrest⟩ := hopened
  refine ⟨t, ?_, hrest⟩
  obtain ⟨a, ha, ht⟩ := Option.bind_eq_some_iff.mp ht
  rw [Option.bind_assoc] at ht
  obtain ⟨b, hb, ht⟩ := Option.bind_eq_some_iff.mp ht
  obtain ⟨c, hc, ht⟩ := Option.bind_eq_some_iff.mp ht
  obtain ⟨d, hd, ht⟩ := Option.bind_eq_some_iff.mp ht
  simp only [runStop, ha, hb, hc, hd, ht, Option.bind_eq_bind, Option.bind_some]
  rfl

/-- After the run nothing is queued. -/
theorem stopRun_ended (h : Inv s) (hrun : s.inRun = true) (time : WallTime)
    (pausedPV connected : Bool) :
    ∃ t u, s.stopRun env time pausedPV connected = some u ∧ Acts s t ∧ t.noted = s.noted ∧
      (∀ k, t.queues k = []) ∧ Same (ended t) u ∧ Inv u := by
  obtain ⟨t, ht, hacts, htinv, htp, hnoted⟩ := runStop_ended env h hrun time pausedPV
  have hempty : ∀ k, t.queues k = [] := htinv.settled.quiet (hacts.inRun.trans hrun) htp
  have hcap : Quiet (ended t) .captured := ⟨fun _ _ _ => hempty, fun hne => absurd rfl hne⟩
  obtain ⟨u, hsame, hup, hmodes, hlast, hfile, heq⟩ := exists_newContainer env hcap connected
  have hurun : u.inRun = false := hsame.inRun
  have hquiet : Quiet u .stream :=
    ⟨nofun, fun _ hr => absurd (hr.symm.trans hurun) (by decide)⟩
  obtain ⟨v, hv, hkept⟩ := newFile_quiet env hquiet
  have hvrun : v.inRun = false := hkept.inRun.trans hurun
  have hvp : v.isPaused = false := hkept.isPaused.trans (hup.trans htp)
  refine ⟨t, v, ?_, hacts, hnoted, hempty, ?_, ?_⟩
  · rw [stopRun, if_neg (by simp [hrun]), ht]
    exact heq.trans hv
  · exact hsame.trans hkept.same
  · exact
      { files := (hkept.filePaused.trans hfile).trans hvp.symm
        fresh := fun hr => absurd (hr.symm.trans hvrun) (by decide)
        settled := ⟨fun hr => absurd (hr.symm.trans hvrun) (by decide),
          fun _ hm => absurd hmodes (hkept.modes hm)⟩
        pausedLast := fun _ hp => absurd (hp.symm.trans hvp) (by decide)
        filled := by rw [hkept.queues, hsame.queues]; exact htinv.filled }

/-! ### All steps -/

/-- Another packet only adds what the files add. -/
theorem data_steps (h : Inv s) (event : FileEvent) :
    Steps s ((s.beforeWrite env event).bind fun s => s.afterWrite env event) := by
  obtain ⟨t, ht, hkept⟩ := beforeWrite_kept env h.settled event
  obtain ⟨u, hu, hkept'⟩ := afterWrite_kept env (h.kept hkept).settled event
  rw [ht]
  exact ⟨u, hu, (hkept.trans hkept').acts, h.kept (hkept.trans hkept')⟩

theorem expire_steps (h : Inv s) (modes : Nat) :
    Steps s (some { s with modes := max 1 (min modes s.modes) }) := by
  have hkept : Kept s { s with modes := max 1 (min modes s.modes) } :=
    { Kept.refl s with
      modes := by
        simp only
        omega }
  exact ⟨_, rfl, hkept.acts, h.kept hkept⟩

/-- Neither a start nor a stop of a run, nor a change of how notes are updated. -/
def within : Op → Bool
  | .startRun .. | .stopRun .. | .setRunNotesUpdates _ => false
  | _ => true

theorem step_steps (h : Inv s) {op : Op} (hop : within op = true) : Steps s (step env s op) := by
  cases op with
  | pause r => exact pause_steps env h r
  | resume r => exact resume_steps env h r
  | startScan r indexPV => exact startScan_steps env h r indexPV
  | stopScan r => exact stopScan_steps env h r
  | annotate r pv => exact comment_steps env h (by decide) (by decide) r.time _ _ _
  | addAnnotationComment r pv => exact comment_steps env h (by decide) (by decide) r.time _ _ _
  | addScanComment r pv => exact comment_steps env h (by decide) (by decide) r.time _ _ _
  | addSystemComment time scanIndex text =>
    exact comment_steps env h (by decide) (by decide) time _ _ _
  | addRunComment r pv => exact addNote_steps env h (WallTime.nanos_lt r.time) _ _
  | addNotesComment r pv => exact addNote_steps env h (WallTime.nanos_lt r.time) _ _
  | startRun => cases hop
  | stopRun => cases hop
  | data event => exact data_steps env h event
  | expire modes => exact expire_steps h modes
  | setRunNotesUpdates enabled => cases hop

/-! ### Runs -/

/-- What the acts keep, the start and the stop of a run, and the updates of notes that are
    allowed. -/
structure Lasting (J : Markers → Prop) (allowed : Bool → Prop) : Prop where
  act : ∀ {s t}, Act s t → J s → J t
  begun : ∀ {s}, s.inRun = false → J s → J (begun s)
  ended : ∀ {s}, (∀ k, s.queues k = []) → J s → J (ended s)
  updates : ∀ {s} enabled, allowed enabled → J s → J { s with runNotesUpdates := enabled }

variable {J : Markers → Prop} {allowed : Bool → Prop}

theorem Lasting.acts (hJ : Lasting J allowed) (h : Acts s t) (hs : J s) : J t := by
  induction h with
  | refl => exact hs
  | tail _ hact ih => exact hJ.act hact ih

theorem step_lasting (hJ : Lasting J allowed) {op : Op}
    (hop : ∀ enabled, op = .setRunNotesUpdates enabled → allowed enabled) (h : Inv s) (hs : J s) :
    ∃ t, step env s op = some t ∧ Inv t ∧ J t := by
  by_cases hwithin : within op = true
  · obtain ⟨t, ht, hacts, hinv⟩ := step_steps env h hwithin
    exact ⟨t, ht, hinv, hJ.acts hacts hs⟩
  cases op with
  | startRun runNumber time pausedPV notesPV connected =>
    cases hrun : s.inRun with
    | true => exact ⟨s, by rw [step, startRun, if_pos hrun], h, hs⟩
    | false =>
      obtain ⟨t, t', ms, u, hu, hacts, -, hsame, -, hms, hkept, hinv⟩ :=
        startRun_begun env h hrun runNumber time pausedPV notesPV connected
      have hacts' : Acts (begun t) u := (hsame.acts.tail (.dump ms hms)).trans hkept.acts
      exact ⟨u, hu, hinv, hJ.acts hacts' (hJ.begun (hacts.inRun.trans hrun) (hJ.acts hacts hs))⟩
  | stopRun time pausedPV connected =>
    cases hrun : s.inRun with
    | false => exact ⟨s, by rw [step, stopRun, if_pos (by rw [hrun]; rfl)], h, hs⟩
    | true =>
      obtain ⟨t, u, hu, hacts, -, hempty, hsame, hinv⟩ :=
        stopRun_ended env h hrun time pausedPV connected
      exact ⟨u, hu, hinv, hJ.act (.same hsame) (hJ.ended hempty (hJ.acts hacts hs))⟩
  | setRunNotesUpdates enabled =>
    refine ⟨_, rfl, ?_, hJ.updates enabled (hop enabled rfl) hs⟩
    exact ⟨h.files, h.fresh, ⟨h.settled.quiet, h.settled.stale⟩, h.pausedLast, h.filled⟩
  | _ => exact absurd rfl hwithin

theorem init_inv : Inv init :=
  { files := rfl
    fresh := fun _ => rfl
    settled := ⟨nofun, fun _ hm => absurd rfl hm⟩
    pausedLast := fun _ _ => rfl
    filled := Filled.empty }

/-- Every run comes to its end, and keeps what lasts. -/
theorem run_lasting (hJ : Lasting J allowed) (ops : List Op)
    (hops : ∀ op ∈ ops, ∀ enabled, op = .setRunNotesUpdates enabled → allowed enabled) (h : Inv s)
    (hs : J s) : ∃ t, Runs.run (step env) s ops = some t ∧ Inv t ∧ J t := by
  have htrue : Runs.along (step env) (fun _ _ => True) s ops :=
    Runs.along_of_forall fun _ _ => trivial
  have halong := (htrue.and_forall hops).imp fun _ _ h => h.2
  refine Runs.exists_run_along (I := fun s => Inv s ∧ J s) ?_ ⟨h, hs⟩ halong
  rintro t op ⟨hinv, ht⟩ hop
  exact step_lasting env hJ hop hinv ht

end Adara.Spec.Markers
