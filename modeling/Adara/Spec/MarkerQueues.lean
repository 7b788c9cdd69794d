import Adara.Native.Markers
import Adara.Spec.AutoSave

/-! # What changes the queues of markers

Most of what the handlers do leaves the queues alone: packets of their own, prologues and
captured prologues, as long as no prologue comes in a run that is not paused while something is
queued (`Settled`).  `Kept` is what such calls keep.  What they add to the output is `Plain`. -/

namespace Adara.Spec.Markers

open Adara.Native Adara.Native.Markers

variable {env : Markers.Env} {s t u : Markers}

/-! ### The order of the queues -/

theorem kinds_pairwise : Kind.all.Pairwise fun k l => k.idx < l.idx := by decide

theorem mem_all (k : Kind) : k ∈ Kind.all := by cases k <;> decide

/-! ### Entries of the queues -/

/-- A scan index is read back as it was written. -/
theorem decode_digits {k : Kind} (hk : k.isScan = true) (index current : UInt32) (text : Text) :
    decode k current (digits index ++ '|' :: text) = some (index, text) := by
  have hdigit : ∀ c ∈ digits index, decide (c ≠ '|') = true := by
    intro c hc
    have hc := AutoSave.isDigit_toDigits index.toNat c hc
    rw [decide_eq_true_iff]
    rintro rfl
    exact absurd hc (by decide)
  rw [decode, if_pos ⟨hk, by simp⟩, List.takeWhile_append_of_pos hdigit,
    List.dropWhile_append_of_pos hdigit, List.takeWhile_cons_of_neg (by decide),
    List.dropWhile_cons_of_neg (by decide), List.append_nil]
  rw [digits, AutoSave.lexicalCast_digits (AutoSave.toDigits_ne_nil _)
    (AutoSave.isDigit_toDigits _), Nat.ofDigitChars_ten_toDigits]
  simp

theorem decode_of_not_scan {k : Kind} (hk : k.isScan = false) (current : UInt32) (text : Text) :
    decode k current text = some (current, text) := by
  rw [decode, if_neg (by simp [hk])]

/-- The packet for an entry that was queued: it has the scan index of its own if the queue
    keeps one. -/
def Entry.emission (e : Entry) (current : UInt32) (sink : Sink) : Emission where
  marker := marker e.time e.kind.markerType (if e.kind.isScan then e.scanIndex else current)
    e.kind.label e.text
  origin := .queue e.kind e.queued
  sink := sink

theorem emissionOf_queued (e : Entry) (current : UInt32) (sink : Sink) :
    emissionOf current sink (e.kind, e.queued) = some (Entry.emission e current sink) := by
  cases hk : e.kind.isScan with
  | true => simp [emissionOf, Entry.emission, Entry.queued, hk, decode_digits hk]
  | false => simp [emissionOf, Entry.emission, Entry.queued, hk, decode_of_not_scan hk]

/-- All that is in the queues was put there, at a time that 64 bits hold. -/
def Filled (queues : Kind → List Queued) : Prop :=
  ∀ k, ∀ q ∈ queues k, q.1.nanos < 2 ^ 64 - 1 ∧ ∃ e : Entry, e.kind = k ∧ e.queued = q

theorem Filled.empty : Filled fun _ => [] := fun _ _ h => absurd h List.not_mem_nil

theorem Filled.push {queues : Kind → List Queued} (h : Filled queues) {e : Entry}
    (htime : e.time.nanos < 2 ^ 64 - 1) :
    Filled (Function.update queues e.kind (queues e.kind ++ [e.queued])) := by
  intro k q hq
  by_cases hk : k = e.kind
  · subst hk
    rw [Function.update_self, List.mem_append, List.mem_singleton] at hq
    rcases hq with hq | rfl
    · exact h _ q hq
    · exact ⟨htime, e, rfl, rfl⟩
  · rw [Function.update_of_ne hk] at hq
    exact h k q hq

theorem Filled.sublist {queues queues' : Kind → List Queued} (h : Filled queues)
    (hsub : ∀ k, (queues' k).Sublist (queues k)) : Filled queues' :=
  fun k q hq => h k q ((hsub k).mem hq)

theorem WallTime.nanos_lt (t : WallTime) : t.toStamp.nanos < 2 ^ 64 - 1 := by
  have hfits := t.fits
  simp only [Stamp.nanos]
  omega

theorem WallTime.nanos_succ_lt (t : WallTime) : t.succ.nanos < 2 ^ 64 - 1 := by
  have hfits := t.fits
  have hsum : t.succ.sec * 1000000000 + t.succ.nsec = t.sec * 1000000000 + t.nsec + 1 := by
    rw [Stamp.succ]
    split
    · simp only
      omega
    · simp only
      omega
  simp only [Stamp.nanos, hsum]
  omega

/-! ### Plain packets -/

/-- A packet that is not for an entry of a queue, nor for run notes. -/
def Plain (em : Emission) : Prop :=
  (em.origin = .request ∨ em.origin = .continuation) ∧ em.marker.type ≠ .overallRunComment

/-- A dump that found nothing. -/
def Idle (d : Dump) : Prop := (∀ k, d.found k = []) ∧ d.emitted = [] ∧ ∀ k, d.left k = []

/-- What a call keeps that does not touch queues or run notes. -/
structure Kept (s t : Markers) : Prop where
  out : ∃ ms, t.out = s.out ++ ms ∧ ∀ em ∈ ms, Plain em
  queues : t.queues = s.queues
  entries : t.entries = s.entries
  dumps : ∃ ds, t.dumps = s.dumps ++ ds ∧ ∀ d ∈ ds, Idle d
  noted : t.noted = s.noted
  inRun : t.inRun = s.inRun
  isPaused : t.isPaused = s.isPaused
  lastInRun : t.lastInRun = s.lastInRun
  lastIsPaused : t.lastIsPaused = s.lastIsPaused
  notesCommentSet : t.notesCommentSet = s.notesCommentSet
  useFirst : t.useFirstNotesComment = s.useFirstNotesComment
  updates : t.runNotesUpdates = s.runNotesUpdates
  scanIndex : t.scanIndex = s.scanIndex
  filePaused : t.filePaused = s.filePaused
  modes : t.modes ≠ 1 → s.modes ≠ 1
  hasLast : s.inRun = true → t.hasLastPrologue = s.hasLastPrologue

section Appended

variable {α : Type} {P : α → Prop} {as bs cs : List α}

theorem appended_nil (P : α → Prop) (as : List α) : ∃ xs, as = as ++ xs ∧ ∀ x ∈ xs, P x :=
  ⟨[], (List.append_nil _).symm, List.forall_mem_nil _⟩

/-- What is added in two steps is such as what is added in each. -/
theorem appended_trans (h : ∃ xs, bs = as ++ xs ∧ ∀ x ∈ xs, P x)
    (h' : ∃ xs, cs = bs ++ xs ∧ ∀ x ∈ xs, P x) : ∃ xs, cs = as ++ xs ∧ ∀ x ∈ xs, P x := by
  obtain ⟨xs, rfl, hxs⟩ := h
  obtain ⟨ys, rfl, hys⟩ := h'
  exact ⟨xs ++ ys, List.append_assoc .., List.forall_mem_append.mpr ⟨hxs, hys⟩⟩

end Appended

theorem Kept.refl (s : Markers) : Kept s s :=
  ⟨appended_nil _ _, rfl, rfl, appended_nil _ _, rfl, rfl, rfl, rfl, rfl, rfl, rfl, rfl, rfl, rfl,
    id, fun _ => rfl⟩

theorem Kept.trans (h : Kept s t) (h' : Kept t u) : Kept s u where
  out := appended_trans h.out h'.out
  queues := h'.queues.trans h.queues
  entries := h'.entries.trans h.entries
  dumps := appended_trans h.dumps h'.dumps
  noted := h'.noted.trans h.noted
  inRun := h'.inRun.trans h.inRun
  isPaused := h'.isPaused.trans h.isPaused
  lastInRun := h'.lastInRun.trans h.lastInRun
  lastIsPaused := h'.lastIsPaused.trans h.lastIsPaused
  notesCommentSet := h'.notesCommentSet.trans h.notesCommentSet
  useFirst := h'.useFirst.trans h.useFirst
  updates := h'.updates.trans h.updates
  scanIndex := h'.scanIndex.trans h.scanIndex
  filePaused := h'.filePaused.trans h.filePaused
  modes := fun hne => h.modes (h'.modes hne)
  hasLast := fun hrun => (h'.hasLast (h.inRun.trans hrun)).trans (h.hasLast hrun)

theorem Kept.put {m : Marker} {o : Origin} {sink : Sink} (h : Plain ⟨m, o, sink⟩) :
    Kept s (s.put m o sink) :=
  { Kept.refl s with out := ⟨[⟨m, o, sink⟩], rfl, fun _ hem => List.mem_singleton.mp hem ▸ h⟩ }

theorem plain_continuation {time : Stamp} {type : MarkerType} {scanIndex : UInt32}
    {comment : Text} {sink : Sink} (h : type ≠ .overallRunComment) :
    Plain ⟨marker time type scanIndex [] comment, .continuation, sink⟩ :=
  ⟨.inr rfl, h⟩

theorem emitPrologue_kept {type : MarkerType} {comment : Text} {sink : Sink}
    (h : type ≠ .overallRunComment) : Kept s (s.emitPrologue env type comment sink) :=
  Kept.put (plain_continuation h)

theorem Kept.ite {c : Prop} [Decidable c] (h : Kept s t) : Kept s (if c then t else s) := by
  split
  · exact h
  · exact Kept.refl s

theorem emitContinuations_kept (sink : Sink) : Kept s (s.emitContinuations env sink) :=
  -- a scan, then a pause
  (Kept.ite (emitPrologue_kept (by decide))).trans (Kept.ite (emitPrologue_kept (by decide)))

/-! ### Prologues that dump nothing -/

/-- A prologue for the sink finds nothing to dump. -/
structure Quiet (s : Markers) (sink : Sink) : Prop where
  captured : sink = .captured → s.lastInRun = true → s.lastIsPaused = false →
    ∀ k, s.queues k = []
  real : sink ≠ .captured → s.inRun = true → s.isPaused = false → ∀ k, s.queues k = []

theorem queuedInOrder_eq_nil (h : ∀ k, s.queues k = []) : s.queuedInOrder = [] := by
  have htotal : QueueMerge.total Kind.all s.queues = 0 := by
    simp [QueueMerge.total, Kind.all, h]
  rw [queuedInOrder, htotal]
  rfl

variable (env)

/-- Nothing is dumped where nothing is queued, in a prologue or outside of one. -/
theorem dumpQueuedComments_quiet {sink : Sink} (h : Quiet s sink) (prologue : Bool) :
    ∃ t, s.dumpQueuedComments env prologue sink = some t ∧ Kept s t := by
  rw [dumpQueuedComments]
  by_cases hsink : sink = .captured
  · simp only [hsink, decide_true, if_true]
    split
    · exact ⟨s, rfl, Kept.refl s⟩
    · rename_i hguard
      have hempty : ∀ k, s.queues k = [] :=
        h.captured hsink (by simp_all) (by simp_all)
      rw [queuedInOrder_eq_nil hempty, if_pos (.inr fun i hi => absurd hi (Nat.not_lt_zero i))]
      refine ⟨_, rfl, ?_⟩
      exact { Kept.refl s with out := ⟨[], rfl, fun _ hem => absurd hem List.not_mem_nil⟩ }
  · simp only [hsink, decide_false, Bool.false_eq_true, if_false]
    split
    · exact ⟨s, rfl, Kept.refl s⟩
    · rename_i hguard
      have hempty : ∀ k, s.queues k = [] := h.real hsink (by simp_all) (by simp_all)
      rw [queuedInOrder_eq_nil hempty, if_pos (.inr fun i hi => absurd hi (Nat.not_lt_zero i))]
      refine ⟨_, rfl, ?_⟩
      exact
        { Kept.refl s with
          out := ⟨[], rfl, fun _ hem => absurd hem List.not_mem_nil⟩
          queues := funext fun k => (hempty k).symm
          dumps := ⟨[⟨s.queues, s.scanIndex, [], fun _ => []⟩], rfl, fun d hd => by
            rw [List.mem_singleton.mp hd]
            exact ⟨hempty, rfl, fun _ => rfl⟩⟩ }

theorem chosenNote_eq_none {sink : Sink} (hsink : sink ≠ .captured) (h : Quiet s sink) :
    s.chosenNote = none := by
  rw [chosenNote]
  split
  · rfl
  · rename_i hguard
    have hempty := h.real hsink (by simp_all) (by simp_all) .notes
    simp [hempty]

theorem onPrologue_quiet {sink : Sink} (h : Quiet s sink) :
    ∃ t, s.onPrologue env sink = some t ∧ Kept s t := by
  obtain ⟨t, ht, hkept⟩ := dumpQueuedComments_quiet env h true
  refine ⟨t.emitContinuations env sink, ?_, hkept.trans (emitContinuations_kept sink)⟩
  rw [onPrologue]
  by_cases hsink : sink = .captured
  · simp only [hsink, if_true] at ht ⊢
    simp [ht]
  · simp [hsink, dumpRunNotesComment, chosenNote_eq_none hsink h, ht]

/-! ### Files -/

/-- No prologue finds anything to dump, whatever a packet finds. -/
structure Settled (s : Markers) : Prop where
  quiet : s.inRun = true → s.isPaused = false → ∀ k, s.queues k = []
  stale : s.inRun = false → s.modes ≠ 1 → s.lastInRun = false

theorem Settled.real (h : Settled s) {sink : Sink} (hsink : sink ≠ .captured) : Quiet s sink :=
  ⟨fun heq => absurd heq hsink, fun _ => h.quiet⟩

theorem Settled.kept (h : Settled s) (hk : Kept s t) : Settled t := by
  apply Settled.mk
  · rw [hk.inRun, hk.isPaused, hk.queues]
    exact h.quiet
  · rw [hk.inRun, hk.lastInRun]
    exact fun hrun hmodes => h.stale hrun (hk.modes hmodes)

theorem newFile_quiet (h : Quiet s .stream) : ∃ t, s.newFile env = some t ∧ Kept s t := by
  rw [newFile]
  split
  · exact ⟨s, rfl, Kept.refl s⟩
  · exact onPrologue_quiet env h

theorem captureLast_quiet (h : Quiet s .captured) :
    ∃ t, s.captureLast env = some t ∧ Kept s t := by
  rw [captureLast]
  split
  · exact ⟨s, rfl, Kept.refl s⟩
  · exact onPrologue_quiet env h

/-- A container that is split has no run: a mode of it has ended since, and the last state was
    saved then. -/
theorem splitContainer_kept (h : Settled s) (hrun : s.inRun = false) (connected : Bool) :
    ∃ t, s.splitContainer env connected = some t ∧ Kept s t := by
  have hcapture : ∃ t, s.captureIf env (decide (s.modes ≠ 1) && connected) = some t ∧
      Kept s t := by
    rw [captureIf]
    split
    · rename_i hkept
      rw [Bool.and_eq_true, decide_eq_true_iff] at hkept
      have hlast := h.stale hrun hkept.1
      apply captureLast_quiet env
      apply Quiet.mk
      · rw [hlast]
        intro _ hl
        cases hl
      · exact fun hne => absurd rfl hne
    · exact ⟨s, rfl, Kept.refl s⟩
  obtain ⟨t, ht, hkept⟩ := hcapture
  let u : Markers :=
    { t with
      modes := 1
      hasLastPrologue := t.hasLastPrologue || (decide (s.modes ≠ 1) && connected) }
  have hnew : Kept s u :=
    { hkept with
      modes := fun hne => absurd rfl hne
      hasLast := fun hr => by rw [hrun] at hr; cases hr }
  obtain ⟨v, hv, hkept'⟩ := newFile_quiet env ((h.kept hnew).real (by decide))
  refine ⟨v, ?_, hnew.trans hkept'⟩
  simp only [splitContainer, ht, Option.bind_eq_bind, Option.bind_some]
  exact hv

theorem beforeWrite_kept (h : Settled s) (event : FileEvent) :
    ∃ t, s.beforeWrite env event = some t ∧ Kept s t := by
  cases event with
  | goesOn => exact ⟨s, rfl, Kept.refl s⟩
  | full => exact newFile_quiet env (h.real (by decide))
  | split connected =>
    rw [beforeWrite]
    split
    · exact newFile_quiet env (h.real (by decide))
    · rename_i hrun
      exact splitContainer_kept env h (by simpa using hrun) connected
  | snapshot => exact ⟨s, rfl, Kept.refl s⟩

theorem afterWrite_kept (h : Settled s) (event : FileEvent) :
    ∃ t, s.afterWrite env event = some t ∧ Kept s t := by
  cases event with
  | goesOn => exact ⟨s, rfl, Kept.refl s⟩
  | full => exact ⟨s, rfl, Kept.refl s⟩
  | split connected => exact ⟨s, rfl, Kept.refl s⟩
  | snapshot => exact onPrologue_quiet env (@Settled.real s h .snapshot (by decide))

/-- A packet that is emitted is put out between what its file events add. -/
theorem emitPacket_spec (h : Settled s) (m : Marker) (o : Origin) :
    ∃ t u, s.emitPacket env m o = some u ∧ Kept s t ∧ Kept (t.put m o .stream) u := by
  obtain ⟨t, ht, hkept⟩ := beforeWrite_kept env h (env.files s.out.length)
  have hput : Settled (t.put m o .stream) := ⟨(h.kept hkept).quiet, (h.kept hkept).stale⟩
  obtain ⟨u, hu, hkept'⟩ := afterWrite_kept env hput (env.files s.out.length)
  refine ⟨t, u, ?_, hkept, hkept'⟩
  simp only [emitPacket, ht, Option.bind_eq_bind, Option.bind_some]
  exact hu

theorem emitPacket_kept (h : Settled s) {m : Marker} (hm : m.type ≠ .overallRunComment) :
    ∃ t, s.emitPacket env m .request = some t ∧ Kept s t := by
  obtain ⟨t, u, hu, hkept, hkept'⟩ := emitPacket_spec env h m .request
  exact ⟨u, hu, hkept.trans ((Kept.put ⟨.inl rfl, hm⟩).trans hkept')⟩

end Adara.Spec.Markers
