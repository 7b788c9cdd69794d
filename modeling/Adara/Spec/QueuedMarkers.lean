import Adara.Spec.MarkerSteps

/-! # Queued markers

All that is queued comes out once: an entry is in its queue or it was put out, by a dump of all
queues or, as the run notes that were set, before one.  A dump puts out what it found in the
order of the times, and leaves nothing. -/

namespace Adara.Spec.Markers

open Adara.Native Adara.Native.Markers

variable {env : Markers.Env} {s t : Markers}

/-! ### What a dump does -/

/-- The entry of a queue that a packet was put out for. -/
def ofQueue (k : Kind) (em : Emission) : Option Queued :=
  match em.origin with
  | .queue k' q => if k' = k then some q else none
  | _ => none

/-- The packet is one of a dump of all queues. -/
def isDumped (em : Emission) : Bool :=
  match em.origin with
  | .queue _ _ => decide (em.marker.type ≠ .overallRunComment)
  | _ => false

/-- The order of a dump: by the times, and by the queues among equal ones. -/
def Earlier (e e' : Entry) : Prop :=
  e.time.nanos < e'.time.nanos ∨ e.time.nanos = e'.time.nanos ∧ e.kind.idx ≤ e'.kind.idx

/-- A dump puts out each entry of each queue, with its own type, text, and scan index if the
    queue keeps one.  They are in order if each queue is. -/
structure Complete (d : Dump) : Prop where
  left : ∀ k, d.left k = []
  emitted : ∃ es : List Entry, (∀ k, (es.filter (·.kind = k)).map Entry.queued = d.found k) ∧
    d.emitted = es.map (Entry.emission · d.scanIndex .stream) ∧
    ((∀ k, (d.found k).Pairwise fun q q' => q.1.nanos ≤ q'.1.nanos) → es.Pairwise Earlier)

theorem entries_filter {es : List Entry} {xs : List (Kind × Queued)}
    (h : es.map (fun e => (e.kind, e.queued)) = xs) (k : Kind) :
    (es.filter (·.kind = k)).map Entry.queued = (xs.filter (·.1 = k)).map (·.2) := by
  rw [← h, List.filter_map, List.map_map]
  rfl

theorem complete_of_idle {d : Dump} (h : Idle d) : Complete d := by
  obtain ⟨hfound, hemitted, hleft⟩ := h
  exact ⟨hleft, [], fun k => (hfound k).symm, hemitted, fun _ => List.Pairwise.nil⟩

theorem complete_dumped (h : Filled s.queues) {ms : List Emission}
    (hms : s.queuedInOrder.mapM (emissionOf s.scanIndex .stream) = some ms) :
    Complete ⟨s.queues, s.scanIndex, ms, fun _ => []⟩ := by
  obtain ⟨es, hes⟩ := exists_entries h
  have hbound : ∀ k ∈ Kind.all, ∀ q ∈ s.queues k, q.1.nanos < 2 ^ 64 - 1 :=
    fun k _ q hq => (h k q hq).1
  refine ⟨fun _ => rfl, es, ?_, ?_, ?_⟩
  · intro k
    rw [entries_filter hes]
    exact QueueMerge.filter_merge kinds_pairwise mem_all (Nat.le_refl _) hbound k
  · rw [← hes, mapM_emissionOf] at hms
    exact (Option.some.inj hms).symm
  · intro hsorted
    have hpair : s.queuedInOrder.Pairwise (QueueMerge.Before (fun q => q.1.nanos) Kind.idx) :=
      QueueMerge.merge_pairwise kinds_pairwise mem_all (Nat.le_refl _) hbound hsorted
    rw [← hes, List.pairwise_map] at hpair
    exact hpair

/-! ### The ledger of all entries -/

/-- Each entry is in its queue, or was put out once, into the stream.  The packets of dumps are
    those in the output, in this order. -/
structure Ledger (s : Markers) : Prop where
  once : ∀ k, (s.out.filterMap (ofQueue k) ++ s.queues k).Perm
    ((s.entries.filter (·.kind = k)).map Entry.queued)
  stream : ∀ em ∈ s.out, ∀ k q, em.origin = .queue k q → em.sink = .stream
  dumped : s.out.filter isDumped = s.dumps.flatMap (·.emitted)
  complete : ∀ d ∈ s.dumps, Complete d

theorem Plain.ofQueue {em : Emission} (h : Plain em) (k : Kind) : ofQueue k em = none := by
  rw [Markers.ofQueue]
  rcases h.1 with heq | heq
  · rw [heq]
  · rw [heq]

theorem Plain.isDumped {em : Emission} (h : Plain em) : isDumped em = false := by
  rw [Markers.isDumped]
  rcases h.1 with heq | heq
  · rw [heq]
  · rw [heq]

theorem Ledger.same (hs : Ledger s) (h : Same s t) : Ledger t := by
  obtain ⟨ms, hms, hplain⟩ := h.out
  obtain ⟨ds, hds, hidle⟩ := h.dumps
  apply Ledger.mk
  · intro k
    have hnone : ms.filterMap (ofQueue k) = [] := by
      rw [List.filterMap_eq_nil_iff]
      exact fun em hem => (hplain em hem).ofQueue k
    rw [hms, List.filterMap_append, hnone, List.append_nil, h.queues, h.entries]
    exact hs.once k
  · intro em hem k q horigin
    rw [hms, List.mem_append] at hem
    rcases hem with hem | hem
    · exact hs.stream em hem k q horigin
    · rcases (hplain em hem).1 with heq | heq
      · rw [heq] at horigin
        cases horigin
      · rw [heq] at horigin
        cases horigin
  · have hnone : ms.filter isDumped = [] := by
      rw [List.filter_eq_nil_iff]
      intro em hem
      rw [(hplain em hem).isDumped]
      decide
    have hidle' : ds.flatMap (·.emitted) = [] := by
      rw [List.flatMap_eq_nil_iff]
      exact fun d hd => (hidle d hd).2.1
    rw [hms, hds, List.filter_append, hnone, List.flatMap_append, hidle', hs.dumped]
  · intro d hd
    rw [hds, List.mem_append] at hd
    rcases hd with hd | hd
    · exact hs.complete d hd
    · exact complete_of_idle (hidle d hd)

theorem Ledger.push (hs : Ledger s) (e : Entry) : Ledger (s.push e) := by
  refine ⟨?_, hs.stream, hs.dumped, hs.complete⟩
  intro k
  have hentries : (s.push e).entries = s.entries ++ [e] := rfl
  have hout : (s.push e).out = s.out := rfl
  rw [hentries, hout, List.filter_append, List.map_append]
  by_cases hk : k = e.kind
  · subst hk
    rw [push_queues_self, ← List.append_assoc]
    apply (hs.once _).append
    rw [List.filter_singleton]
    simp
  · have hnone : [e].filter (fun e => decide (e.kind = k)) = [] := by
      simp [Ne.symm hk]
    rw [push_queues_of_ne hk, hnone, List.map_nil, List.append_nil]
    exact hs.once k

/-- The note that is taken comes out of the queue. -/
theorem chosenNote_perm {q : Queued} (h : s.chosenNote = some q) :
    (s.queues .notes).Perm (q :: if s.useFirstNotesComment then (s.queues .notes).tail
      else (s.queues .notes).dropLast) := by
  rw [chosenNote] at h
  split at h
  · cases h
  · split at h
    · split at h
      · rename_i hfirst
        obtain ⟨rest, hrest⟩ := List.head?_eq_some_iff.mp h
        rw [if_pos hfirst, hrest, List.tail_cons]
      · rename_i hfirst
        obtain ⟨rest, hrest⟩ := List.getLast?_eq_some_iff.mp h
        rw [if_neg hfirst, hrest, List.dropLast_concat]
        exact List.perm_append_singleton q rest
    · cases h

theorem Ledger.afterNote (hs : Ledger s) : Ledger (afterNote s) := by
  rw [Markers.afterNote]
  cases hnote : s.chosenNote with
  | none => exact hs
  | some q =>
    have hout : (s.takeNote q .stream).out = s.out ++
        [⟨marker q.1 .overallRunComment s.scanIndex [] q.2, .queue .notes q, .stream⟩] := rfl
    apply Ledger.mk
    · intro k
      have hentries : (s.takeNote q .stream).entries = s.entries := rfl
      have hqueues : (s.takeNote q .stream).queues = Function.update s.queues .notes
          (if s.useFirstNotesComment then (s.queues .notes).tail
            else (s.queues .notes).dropLast) := rfl
      rw [hentries, hout, hqueues, List.filterMap_append, List.append_assoc]
      apply List.Perm.trans ?_ (hs.once k)
      apply List.Perm.append_left
      by_cases hk : k = .notes
      · subst hk
        rw [Function.update_self]
        exact (chosenNote_perm hnote).symm
      · rw [Function.update_of_ne hk]
        simp [ofQueue, Ne.symm hk]
    · intro em hem k q' horigin
      rw [hout, List.mem_append, List.mem_singleton] at hem
      rcases hem with hem | rfl
      · exact hs.stream em hem k q' horigin
      · rfl
    · rw [hout, List.filter_append, hs.dumped]
      simp [isDumped, marker, Markers.takeNote, Markers.put]
    · exact hs.complete

/-- What is put out for a queue, when an entry of it is dumped. -/
theorem filterMap_emission (es : List Entry) (index : UInt32) (k : Kind) :
    (es.map (Entry.emission · index .stream)).filterMap (ofQueue k) =
      (es.filter (·.kind = k)).map Entry.queued := by
  induction es with
  | nil => rfl
  | cons e es ih =>
    rw [List.map_cons, List.filterMap_cons, ih, List.filter_cons]
    by_cases hk : e.kind = k
    · simp [ofQueue, Entry.emission, hk]
    · simp [ofQueue, Entry.emission, hk]

theorem isDumped_emission (e : Entry) (index : UInt32) :
    isDumped (Entry.emission e index .stream) = true := by
  have htype : e.kind.markerType ≠ .overallRunComment := by cases e.kind <;> decide
  simp [isDumped, Entry.emission, marker, htype]

theorem Ledger.dumpAll (hs : Ledger s) (hfilled : Filled s.queues) {ms : List Emission}
    (hms : s.queuedInOrder.mapM (emissionOf s.scanIndex .stream) = some ms) :
    Ledger (Markers.dumped s ms) := by
  have hcomplete := complete_dumped hfilled hms
  obtain ⟨es, hfound, hemitted, -⟩ := hcomplete.emitted
  simp only at hfound hemitted
  apply Ledger.mk
  · intro k
    have hout : (Markers.dumped s ms).out.filterMap (ofQueue k) =
        s.out.filterMap (ofQueue k) ++ s.queues k := by
      rw [Markers.dumped, List.filterMap_append, hemitted, filterMap_emission, hfound]
    rw [hout]
    exact (List.append_nil _).symm ▸ hs.once k
  · intro em hem k q horigin
    rcases List.mem_append.mp hem with hem | hem
    · exact hs.stream em hem k q horigin
    · rw [hemitted] at hem
      obtain ⟨e, -, rfl⟩ := List.mem_map.mp hem
      rfl
  · have hall : ms.filter isDumped = ms := by
      rw [List.filter_eq_self, hemitted]
      intro em hem
      obtain ⟨e, -, rfl⟩ := List.mem_map.mp hem
      exact isDumped_emission e _
    rw [Markers.dumped, List.filter_append, List.flatMap_append, hs.dumped, hall,
      List.flatMap_singleton]
  · intro d hd
    rcases List.mem_append.mp hd with hd | hd
    · exact hs.complete d hd
    · rw [List.mem_singleton.mp hd]
      exact hcomplete

theorem Ledger.act (hs : Ledger s) (hfilled : Filled s.queues) (h : Act s t) : Ledger t := by
  cases h with
  | same h => exact hs.same h
  | push e => exact hs.push e
  | noteNow q scanIndex =>
    -- the packet is not for an entry of a queue
    apply Ledger.mk
    · intro k
      rw [noteNow, List.filterMap_append, List.filterMap_cons_none rfl, List.filterMap_nil,
        List.append_nil]
      exact hs.once k
    · intro em hem k q' horigin
      rcases List.mem_append.mp hem with hem | hem
      · exact hs.stream em hem k q' horigin
      · rw [List.mem_singleton.mp hem]
    · rw [noteNow, List.filter_append, hs.dumped]
      simp [isDumped]
    · exact hs.complete
  | noteLater q scanIndex =>
    have hnoted : Ledger { s with useFirstNotesComment := s.inRun, noted := s.noted ++ [q] } :=
      ⟨hs.once, hs.stream, hs.dumped, hs.complete⟩
    exact hnoted.push _
  | dump ms hms => exact hs.afterNote.dumpAll hfilled.afterNote hms.emitted

theorem ledger_lasting :
    Lasting (fun s => Filled s.queues ∧ Ledger s) fun _ => True where
  act h hs := ⟨h.filled hs.1, hs.2.act hs.1 h⟩
  begun _ hs := ⟨hs.1, hs.2.once, hs.2.stream, hs.2.dumped, hs.2.complete⟩
  ended _ hs := ⟨hs.1, hs.2.once, hs.2.stream, hs.2.dumped, hs.2.complete⟩
  updates _ _ hs := ⟨hs.1, hs.2.once, hs.2.stream, hs.2.dumped, hs.2.complete⟩

theorem init_ledger : Ledger init :=
  ⟨fun _ => List.Perm.nil, fun _ h => absurd h List.not_mem_nil, rfl,
    fun _ h => absurd h List.not_mem_nil⟩

/-! ### Dumps that are none -/

/-- For a captured prologue, without a run, or while it is paused, no queue changes. -/
theorem dumpQueuedComments_queues {prologue : Bool} {sink : Sink}
    (h : sink = .captured ∨ s.inRun = false ∨ s.isPaused = true)
    (ht : s.dumpQueuedComments env prologue sink = some t) :
    t.queues = s.queues ∧ t.entries = s.entries ∧ t.dumps = s.dumps := by
  rw [dumpQueuedComments] at ht
  by_cases hsink : sink = .captured
  · simp only [hsink, decide_true, if_true] at ht
    split at ht
    · rw [← Option.some.inj ht]
      exact ⟨rfl, rfl, rfl⟩
    · split at ht
      · obtain ⟨ms, -, rfl⟩ := Option.map_eq_some_iff.mp ht
        exact ⟨rfl, rfl, rfl⟩
      · cases ht
  · have hguard : (!s.inRun || s.isPaused) = true := by
      rcases h.resolve_left hsink with hrun | hpaused
      · simp [hrun]
      · simp [hpaused]
    simp only [hsink, decide_false, Bool.false_eq_true, if_false, hguard, if_true] at ht
    rw [← Option.some.inj ht]
    exact ⟨rfl, rfl, rfl⟩

/-! ### Every run -/

/-- In every run an entry that is queued comes out once, dumps are complete and in order, and
    nothing is queued in a run that is not paused.  Other dumps change no queue. -/
theorem queued_markers (env : Markers.Env) (ops : List Op) :
    ∃ s, run env ops = some s ∧ Ledger s ∧
      (s.inRun = true → s.isPaused = false → ∀ k, s.queues k = []) ∧
      ∀ prologue sink u t, sink = .captured ∨ u.inRun = false ∨ u.isPaused = true →
        dumpQueuedComments env u prologue sink = some t →
          t.queues = u.queues ∧ t.entries = u.entries ∧ t.dumps = u.dumps := by
  obtain ⟨s, hs, hinv, -, hledger⟩ := run_lasting env ledger_lasting ops
    (fun _ _ _ _ => trivial) init_inv ⟨Filled.empty, init_ledger⟩
  exact ⟨s, hs, hledger, hinv.settled.quiet, fun _ _ _ _ => dumpQueuedComments_queues⟩

/-- An annotation of scan 5 that comes while the run is paused. -/
def annotated : List Op :=
  [.startRun 1 ⟨⟨1, 0⟩, by decide⟩ false none true,
    .pause (.ofTime ⟨⟨2, 0⟩, by decide⟩),
    .annotate ⟨⟨⟨3, 0⟩, by decide⟩, .execute, 5, ['x']⟩ none,
    .resume (.ofTime ⟨⟨4, 0⟩, by decide⟩)]

/-- It is put out with the scan index there is when it is dumped. -/
theorem not_own_scanIndex :
    ∃ s, run ⟨fun _ => .goesOn, fun _ => ⟨0, 0⟩⟩ annotated = some s ∧
      ∃ d ∈ s.dumps, (∀ k, (d.found k).Pairwise fun q q' => q.1.nanos ≤ q'.1.nanos) ∧
        ∃ e ∈ s.entries, e.scanIndex = 5 ∧ e.queued ∈ d.found e.kind ∧
          (d.emitted.filter (·.origin = .queue e.kind e.queued)).map (·.marker.scanIndex) = [0] := by
  refine ⟨_, rfl, ⟨_, _, _, _⟩, List.mem_cons_of_mem _ List.mem_cons_self, ?_, _,
    List.mem_cons_of_mem _ List.mem_cons_self, ?_, ?_, ?_⟩
  · intro k
    cases k <;> decide
  · decide
  · decide
  · decide

end Adara.Spec.Markers
