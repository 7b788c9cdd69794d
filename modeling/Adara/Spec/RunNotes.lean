import Adara.Spec.QueuedMarkers

/-! # Run notes

A note is put out at once, in a run that is not paused, or waits in its queue.  None gets lost
or comes out twice (`Moved`), and what a packet for a note looks like is fixed (`Labelled`).
Within a run notes are set once: by the last that waits when it begins, or else by its first
(`Noting`). -/

namespace Adara.Spec.Markers

open Adara.Native Adara.Native.Markers

variable {env : Markers.Env} {s t u b : Markers} {ms ms' : List Emission} {q : Queued}
  {before notes notes' : List Queued}

/-! ### Packets for notes -/

/-- The note a packet was put out for. -/
def noteOf (em : Emission) : Option Queued :=
  match em.origin with
  | .note q => some q
  | .queue .notes q => some q
  | _ => none

def isOverall (em : Emission) : Bool := decide (em.marker.type = .overallRunComment)

/-- The notes that did not become those of the run. -/
def discarded (ms : List Emission) : List Queued := (ms.filter (!isOverall ·)).filterMap noteOf

/-- The notes of a run: the last that waits when it begins, or else its first. -/
def chosen (before during : List Queued) : Option Queued := before.getLast?.or during.head?

/-- A packet for a note has its time and text, and a label if the note is discarded.  Only a
    packet for a note is an overall comment. -/
structure Labelled (em : Emission) : Prop where
  overall : isOverall em = true →
    ∃ q, noteOf em = some q ∧ em.marker = marker q.1 .overallRunComment 0 [] q.2
  generic : isOverall em = false → ∀ q, noteOf em = some q →
    ∃ index, em.marker = marker q.1 .generic index "[DISCARDED RUN NOTES] ".toList q.2

theorem isOverall_marker (time : Stamp) (type : MarkerType) (index : UInt32) (label text : Text)
    (origin : Origin) (sink : Sink) :
    isOverall ⟨marker time type index label text, origin, sink⟩ =
      decide (type = .overallRunComment) := rfl

theorem Plain.noteOf {em : Emission} (h : Plain em) : noteOf em = none := by
  rw [Markers.noteOf]
  rcases h.1 with heq | heq
  · rw [heq]
  · rw [heq]

theorem Plain.isOverall {em : Emission} (h : Plain em) : isOverall em = false := by
  rw [Markers.isOverall, decide_eq_false_iff_not]
  exact h.2

theorem Plain.labelled {em : Emission} (h : Plain em) : Labelled em := by
  apply Labelled.mk
  · rw [h.isOverall]
    exact nofun
  · rw [h.noteOf]
    exact nofun

theorem labelled_overall (q : Queued) (index : UInt32) {origin : Origin} {sink : Sink}
    (h : ∀ m, noteOf ⟨m, origin, sink⟩ = some q) :
    Labelled ⟨marker q.1 .overallRunComment index [] q.2, origin, sink⟩ :=
  ⟨fun _ => ⟨q, h _, by simp [marker]⟩, fun hne => by simp [isOverall_marker] at hne⟩

theorem labelled_discarded (q : Queued) (index : UInt32) {origin : Origin} {sink : Sink}
    (h : ∀ m, noteOf ⟨m, origin, sink⟩ = some q) :
    Labelled ⟨marker q.1 .generic index Kind.notes.label q.2, origin, sink⟩ := by
  apply Labelled.mk
  · intro heq
    simp [isOverall_marker] at heq
  · intro _ q' hq'
    rw [h] at hq'
    obtain rfl := Option.some.inj hq'
    exact ⟨index, rfl⟩

theorem filter_isOverall_plain (h : ∀ em ∈ ms, Plain em) : ms.filter isOverall = [] := by
  rw [List.filter_eq_nil_iff]
  intro em hem
  rw [(h em hem).isOverall]
  decide

theorem filterMap_noteOf_plain (h : ∀ em ∈ ms, Plain em) : ms.filterMap noteOf = [] := by
  rw [List.filterMap_eq_nil_iff]
  exact fun em hem => (h em hem).noteOf

/-! ### Dumped notes -/

theorem noteOf_emission (e : Entry) (index : UInt32) :
    noteOf (Entry.emission e index .stream) = ofQueue .notes (Entry.emission e index .stream) := by
  cases hk : e.kind <;> simp [noteOf, ofQueue, Entry.emission, hk]

theorem isOverall_emission (e : Entry) (index : UInt32) :
    isOverall (Entry.emission e index .stream) = false := by
  have htype : e.kind.markerType ≠ .overallRunComment := by cases e.kind <;> decide
  simp [isOverall, Entry.emission, marker, htype]

theorem labelled_emission (e : Entry) (index : UInt32) :
    Labelled (Entry.emission e index .stream) := by
  apply Labelled.mk
  · rw [isOverall_emission]
    exact nofun
  · intro _ q hq
    rw [noteOf_emission, ofQueue, Entry.emission] at hq
    simp only [Option.ite_none_right_eq_some, Option.some.injEq] at hq
    obtain ⟨hk, rfl⟩ := hq
    have hscan : e.kind.isScan = false := by rw [hk]; rfl
    have htype : e.kind.markerType = .generic := by rw [hk]; rfl
    have hlabel : e.kind.label = "[DISCARDED RUN NOTES] ".toList := by rw [hk]; rfl
    refine ⟨index, ?_⟩
    simp only [Entry.emission, Entry.queued, hscan, htype, hlabel, Bool.false_eq_true, if_false]

/-- What a dump of all queues puts out for notes. -/
theorem notes_of_dump (h : Filled s.queues)
    (hms : s.queuedInOrder.mapM (emissionOf s.scanIndex .stream) = some ms) :
    ms.filterMap noteOf = s.queues .notes ∧ ms.filter isOverall = [] ∧ ∀ em ∈ ms, Labelled em := by
  obtain ⟨es, hfound, hemitted, -⟩ := (complete_dumped h hms).emitted
  simp only at hfound hemitted
  rw [hemitted]
  refine ⟨?_, ?_, ?_⟩
  · rw [← hfound .notes, ← filterMap_emission es s.scanIndex .notes, List.filterMap_map,
      List.filterMap_map]
    exact List.filterMap_congr fun e _ => noteOf_emission e _
  · rw [List.filter_eq_nil_iff]
    intro em hem
    obtain ⟨e, -, rfl⟩ := List.mem_map.mp hem
    rw [isOverall_emission]
    decide
  · intro em hem
    obtain ⟨e, -, rfl⟩ := List.mem_map.mp hem
    exact labelled_emission e _

/-! ### Notes that move -/

/-- The packets `ms` are put out while the notes come: each note there was or that came is put
    out once or waits. -/
structure Moved (s t : Markers) (ms : List Emission) (notes : List Queued) : Prop where
  out : t.out = s.out ++ ms
  noted : t.noted = s.noted ++ notes
  once : (ms.filterMap noteOf ++ t.queues .notes).Perm (s.queues .notes ++ notes)
  labelled : ∀ em ∈ ms, Labelled em

theorem Moved.trans (h : Moved s t ms notes) (h' : Moved t u ms' notes') :
    Moved s u (ms ++ ms') (notes ++ notes') := by
  apply Moved.mk
  · rw [h'.out, h.out, List.append_assoc]
  · rw [h'.noted, h.noted, List.append_assoc]
  · rw [List.filterMap_append, List.append_assoc, ← List.append_assoc _ notes]
    have hmiddle := h'.once.append_left (ms.filterMap noteOf)
    rw [← List.append_assoc _ _ notes'] at hmiddle
    exact hmiddle.trans (h.once.append_right notes')
  · exact fun em hem => (List.mem_append.mp hem).elim (h.labelled em) (h'.labelled em)

theorem Same.moved (h : Same s t) :
    ∃ ms, Moved s t ms [] ∧ (∀ em ∈ ms, Plain em) := by
  obtain ⟨ms, hout, hplain⟩ := h.out
  refine ⟨ms, ⟨hout, ?_, ?_, fun em hem => (hplain em hem).labelled⟩, hplain⟩
  · rw [h.noted, List.append_nil]
  · rw [filterMap_noteOf_plain hplain, h.queues, List.append_nil, List.nil_append]

theorem push_moved {e : Entry} (h : e.kind ≠ .notes) : Moved s (s.push e) [] [] :=
  { out := (List.append_nil _).symm
    noted := (List.append_nil _).symm
    once := by rw [push_queues_of_ne h.symm]; simp
    labelled := fun _ h => absurd h List.not_mem_nil }

theorem noteLater_moved (index : UInt32) : Moved s (noteLater s q index) [] [q] :=
  { out := (List.append_nil _).symm
    noted := rfl
    once := by
      have hqueue : (noteLater s q index).queues .notes = s.queues .notes ++ [q] :=
        push_queues_self _ _
      rw [hqueue, List.filterMap_nil, List.nil_append]
    labelled := fun _ h => absurd h List.not_mem_nil }

/-- The packet for a note that comes in a run that is not paused. -/
def nowEmission (s : Markers) (q : Queued) (index : UInt32) : Emission :=
  ⟨if !s.notesCommentSet || s.runNotesUpdates then marker q.1 .overallRunComment index [] q.2
    else marker q.1 .generic index Kind.notes.label q.2, .note q, .stream⟩

theorem noteNow_moved (index : UInt32) (hempty : ∀ k, s.queues k = []) :
    Moved s (noteNow s q index) [nowEmission s q index] [q] := by
  refine ⟨rfl, rfl, ?_, ?_⟩
  · have hqueue : (noteNow s q index).queues .notes = [] := hempty .notes
    rw [hqueue, hempty .notes]
    rfl
  · intro em hem
    rw [List.mem_singleton.mp hem, nowEmission]
    split
    · exact labelled_overall q index fun _ => rfl
    · exact labelled_discarded q index fun _ => rfl

/-- The packet for the notes that are set before a dump. -/
def noteEmissions (s : Markers) : List Emission :=
  s.chosenNote.toList.map fun q =>
    ⟨marker q.1 .overallRunComment s.scanIndex [] q.2, .queue .notes q, .stream⟩

theorem afterNote_moved (s : Markers) : Moved s (afterNote s) (noteEmissions s) [] := by
  rw [afterNote, noteEmissions]
  cases hnote : s.chosenNote with
  | none => exact ⟨(List.append_nil _).symm, (List.append_nil _).symm, by simp,
      fun _ h => absurd h List.not_mem_nil⟩
  | some q =>
    refine ⟨rfl, (List.append_nil _).symm, ?_, ?_⟩
    · have hqueue : (s.takeNote q .stream).queues = Function.update s.queues .notes
          (if s.useFirstNotesComment then (s.queues .notes).tail
            else (s.queues .notes).dropLast) := rfl
      simp only [hqueue, Function.update_self, List.append_nil]
      exact (chosenNote_perm hnote).symm
    · intro em hem
      rw [Option.toList_some, List.map_singleton, List.mem_singleton] at hem
      rw [hem]
      exact labelled_overall q s.scanIndex fun _ => rfl

theorem dump_moved (hfilled : Filled s.queues) (h : Dumps s ms) :
    Moved s (dumped (afterNote s) ms) (noteEmissions s ++ ms) [] := by
  obtain ⟨hnotes, -, hlabelled⟩ := notes_of_dump hfilled.afterNote h.emitted
  have hdump : Moved (afterNote s) (dumped (afterNote s) ms) ms [] := by
    refine ⟨rfl, (List.append_nil _).symm, ?_, hlabelled⟩
    rw [hnotes, List.append_nil]
    exact List.Perm.of_eq (List.append_nil _)
  exact (afterNote_moved s).trans hdump

theorem Act.moved (h : Act s t) (hfilled : Filled s.queues) : ∃ ms notes, Moved s t ms notes := by
  cases h with
  | same h =>
    obtain ⟨ms, hmoved, -⟩ := h.moved
    exact ⟨ms, [], hmoved⟩
  | push e hkind => exact ⟨[], [], push_moved hkind⟩
  | noteNow q index hrun hempty => exact ⟨_, _, noteNow_moved index hempty⟩
  | noteLater q index => exact ⟨_, _, noteLater_moved index⟩
  | dump ms hms => exact ⟨_, _, dump_moved hfilled hms⟩

/-! ### Within a run -/

/-- The notes of a run are not set yet, and all that came wait; or one was set, the chosen
    one. -/
inductive Choice (before : List Queued) (s : Markers) (ms : List Emission)
    (notes : List Queued) : Prop where
  | unset (hset : s.notesCommentSet = false) (hbefore : before = [])
      (hms : ms.filter isOverall = []) (hqueue : s.queues .notes = notes)
      (hfirst : notes ≠ [] → s.useFirstNotesComment = true)
  | set (hset : s.notesCommentSet = true) (q : Queued) (hchosen : chosen before notes = some q)
      (hms : (ms.filter isOverall).map noteOf = [some q])

/-- Later notes do not change the choice. -/
theorem chosen_append (h : chosen before notes = some q) :
    chosen before (notes ++ notes') = some q := by
  rw [chosen] at h ⊢
  cases hlast : before.getLast? with
  | some q' =>
    rw [hlast, Option.some_or] at h
    rw [Option.some_or, h]
  | none =>
    rw [hlast, Option.none_or] at h
    rw [Option.none_or, List.head?_append, h, Option.some_or]

theorem filter_append_plain {p : Emission → Bool} (h : ms'.filter p = []) :
    (ms ++ ms').filter p = ms.filter p := by
  rw [List.filter_append, h, List.append_nil]

/-- What changes neither the choice nor what it rests on. -/
theorem Choice.congr (h : Choice before s ms notes) (hms : ms'.filter isOverall = [])
    (hset : t.notesCommentSet = s.notesCommentSet)
    (hfirst : t.useFirstNotesComment = s.useFirstNotesComment)
    (hqueue : t.queues .notes = s.queues .notes) :
    Choice before t (ms ++ ms') (notes ++ []) := by
  rw [List.append_nil]
  cases h with
  | unset hs hbefore hms' hqueue' hfirst' =>
    exact .unset (hset.trans hs) hbefore ((filter_append_plain hms).trans hms')
      (hqueue.trans hqueue') fun hne => hfirst.trans (hfirst' hne)
  | set hs q hchosen hms' =>
    refine .set (hset.trans hs) q hchosen ?_
    rw [filter_append_plain hms, hms']

theorem noteEmissions_of_none (h : s.chosenNote = none) :
    afterNote s = s ∧ noteEmissions s = [] := by
  rw [afterNote, noteEmissions, h]
  exact ⟨rfl, rfl⟩

theorem chosenNote_of_set (h : s.notesCommentSet = true) (hupdates : s.runNotesUpdates = false) :
    s.chosenNote = none := by
  rw [chosenNote, h, hupdates]
  split
  · rfl
  · rfl

theorem chosenNote_of_unset (hms : Dumps s ms) (h : s.notesCommentSet = false) :
    s.chosenNote = if s.useFirstNotesComment then (s.queues .notes).head?
      else (s.queues .notes).getLast? := by
  rw [chosenNote, hms.inRun, hms.isPaused, h]
  rfl

theorem Choice.noteNow (h : Choice before s ms notes) (hupdates : s.runNotesUpdates = false)
    (hempty : ∀ k, s.queues k = []) (q : Queued) (index : UInt32) :
    Choice before (noteNow s q index) (ms ++ [nowEmission s q index]) (notes ++ [q]) := by
  cases h with
  | unset hset hbefore hms hqueue hfirst =>
    have hnone : notes = [] := hqueue.symm.trans (hempty .notes)
    refine .set ?_ q ?_ ?_
    · simp [Markers.noteNow, hset]
    · simp [chosen, hbefore, hnone]
    · rw [List.filter_append, hms, nowEmission, hset, hupdates]
      rfl
  | set hset q' hchosen hms =>
    refine .set ?_ q' (chosen_append hchosen) ?_
    · simp [Markers.noteNow, hset]
    · rw [List.filter_append, nowEmission, hset, hupdates]
      simpa [isOverall_marker] using hms

theorem Choice.noteLater (h : Choice before s ms notes) (hrun : s.inRun = true) (q : Queued)
    (index : UInt32) : Choice before (noteLater s q index) (ms ++ []) (notes ++ [q]) := by
  rw [List.append_nil]
  cases h with
  | unset hset hbefore hms hqueue hfirst =>
    refine .unset hset hbefore hms ?_ fun _ => hrun
    rw [← hqueue]
    exact push_queues_self _ _
  | set hset q' hchosen hms => exact .set hset q' (chosen_append hchosen) hms

/-- A dump sets the first note of the run if none is set and one waits. -/
theorem Choice.dump (h : Choice before s ms notes) (hupdates : s.runNotesUpdates = false)
    (hfilled : Filled s.queues) (hdump : Dumps s ms') :
    Choice before (dumped (afterNote s) ms') (ms ++ (noteEmissions s ++ ms')) (notes ++ []) := by
  obtain ⟨-, hplain, -⟩ := notes_of_dump hfilled.afterNote hdump.emitted
  cases h with
  | unset hset hbefore hms hqueue hfirst =>
    have hchosen := chosenNote_of_unset hdump hset
    cases hnotes : notes with
    | nil =>
      have hnone : s.chosenNote = none := by
        rw [hchosen, hqueue, hnotes]
        split
        · rfl
        · rfl
      obtain ⟨hafter, hno⟩ := noteEmissions_of_none hnone
      rw [hafter, hno, List.nil_append]
      refine .unset hset hbefore ?_ rfl fun hne => absurd rfl hne
      rw [filter_append_plain hplain, hms]
    | cons q rest =>
      have hsome : s.chosenNote = some q := by
        rw [hchosen, hfirst (by rw [hnotes]; exact List.cons_ne_nil _ _), hqueue, hnotes]
        rfl
      have hafter : afterNote s = s.takeNote q .stream := by rw [afterNote, hsome]
      refine .set ?_ q ?_ ?_
      · rw [hafter]
        rfl
      · rw [chosen, hbefore]
        rfl
      · rw [List.filter_append, hms, filter_append_plain hplain, noteEmissions, hsome]
        rfl
  | set hset q hchosen hms =>
    obtain ⟨hafter, hno⟩ := noteEmissions_of_none (chosenNote_of_set hset hupdates)
    rw [hafter, hno, List.nil_append, List.append_nil]
    refine .set hset q hchosen ?_
    rw [filter_append_plain hplain, hms]

theorem Choice.act (h : Choice before s ms notes) (hrun : s.inRun = true)
    (hupdates : s.runNotesUpdates = false) (hfilled : Filled s.queues) (hact : Act s t) :
    ∃ ms' notes', Moved s t ms' notes' ∧ Choice before t (ms ++ ms') (notes ++ notes') := by
  cases hact with
  | same hsame =>
    obtain ⟨ms', hmoved, hplain⟩ := hsame.moved
    exact ⟨ms', [], hmoved, h.congr (filter_isOverall_plain hplain) hsame.notesCommentSet
      hsame.useFirst (congrFun hsame.queues .notes)⟩
  | push e hkind =>
    exact ⟨[], [], push_moved hkind, h.congr rfl rfl rfl (push_queues_of_ne hkind.symm)⟩
  | noteNow q index _ hempty =>
    exact ⟨_, _, noteNow_moved index hempty, h.noteNow hupdates hempty q index⟩
  | noteLater q index => exact ⟨_, _, noteLater_moved index, h.noteLater hrun q index⟩
  | dump ms' hdump => exact ⟨_, _, dump_moved hfilled hdump, h.dump hupdates hfilled hdump⟩

/-- The same along the whole run, since it began in `b`. -/
theorem Choice.acts (hacts : Acts s t) (hrun : s.inRun = true)
    (hupdates : s.runNotesUpdates = false) (hfilled : Filled s.queues)
    (hmoved : Moved b s ms notes) (h : Choice before s ms notes) :
    ∃ ms' notes', Moved b t ms' notes' ∧ Choice before t ms' notes' := by
  induction hacts with
  | refl => exact ⟨ms, notes, hmoved, h⟩
  | tail hacts hact ih =>
    obtain ⟨ms', notes', hmoved', h'⟩ := ih
    obtain ⟨ms₂, notes₂, hmoved₂, h₂⟩ := h'.act ((Acts.inRun hacts).trans hrun)
      ((Acts.updates hacts).trans hupdates) (Acts.filled hacts hfilled) hact
    exact ⟨_, _, hmoved'.trans hmoved₂, h₂⟩

/-! ### Outside of runs -/

/-- What holds of the notes that wait outside of a run, as long as updates are disabled. -/
structure Waiting (s : Markers) : Prop where
  filled : Filled s.queues
  updates : s.runNotesUpdates = false
  unset : s.inRun = false → s.notesCommentSet = false
  last : s.inRun = false → s.queues .notes ≠ [] → s.useFirstNotesComment = false

theorem Waiting.act (h : Waiting s) (hact : Act s t) : Waiting t := by
  refine ⟨hact.filled h.filled, hact.updates.trans h.updates, ?_, ?_⟩
  · intro hrun
    have hrun' : s.inRun = false := hact.inRun.symm.trans hrun
    cases hact with
    | same hsame => exact hsame.notesCommentSet.trans (h.unset hrun')
    | push e => exact h.unset hrun'
    | noteNow q index hr => exact absurd (hr.symm.trans hrun') (by decide)
    | noteLater q index => exact h.unset hrun'
    | dump ms hdump => exact absurd (hdump.inRun.symm.trans hrun') (by decide)
  · intro hrun
    have hrun' : s.inRun = false := hact.inRun.symm.trans hrun
    cases hact with
    | same hsame =>
      rw [hsame.queues, hsame.useFirst]
      exact h.last hrun'
    | push e hkind =>
      rw [push_queues_of_ne hkind.symm]
      exact h.last hrun'
    | noteNow q index hr => exact absurd (hr.symm.trans hrun') (by decide)
    | noteLater q index => exact fun _ => hrun'
    | dump ms hdump => exact absurd (hdump.inRun.symm.trans hrun') (by decide)

theorem Waiting.acts (h : Waiting s) (hacts : Acts s t) : Waiting t := by
  induction hacts with
  | refl => exact h
  | tail _ hact ih => exact ih.act hact

/-- Outside of a run only plain packets are put out. -/
theorem Acts.plain (h : Acts s t) (hrun : s.inRun = false) :
    ∃ ms, t.out = s.out ++ ms ∧ ∀ em ∈ ms, Plain em := by
  induction h with
  | refl => exact appended_nil _ _
  | tail hacts hact ih =>
    have hrun' := (Acts.inRun hacts).trans hrun
    cases hact with
    | same hsame => exact appended_trans ih hsame.out
    | push e => exact ih
    | noteNow q index hr => exact absurd (hr.symm.trans hrun') (by decide)
    | noteLater q index => exact ih
    | dump ms hdump => exact absurd (hdump.inRun.symm.trans hrun') (by decide)

/-- The ledger of the notes, over all runs. -/
theorem waiting_lasting :
    Lasting (fun s => Waiting s ∧ ∃ ms notes, Moved init s ms notes) (· = false) where
  act := by
    intro s t hact ⟨hwaiting, ms, notes, hmoved⟩
    obtain ⟨ms', notes', hmoved'⟩ := hact.moved hwaiting.filled
    exact ⟨hwaiting.act hact, _, _, hmoved.trans hmoved'⟩
  begun := by
    intro s _ ⟨h, ms, notes, hmoved⟩
    refine ⟨⟨h.filled, h.updates, nofun, nofun⟩, ms, notes, ?_⟩
    exact ⟨hmoved.out, hmoved.noted, hmoved.once, hmoved.labelled⟩
  ended := by
    intro s hempty ⟨h, ms, notes, hmoved⟩
    refine ⟨⟨h.filled, h.updates, fun _ => rfl, fun _ hne => absurd (hempty .notes) hne⟩, ms,
      notes, ?_⟩
    exact ⟨hmoved.out, hmoved.noted, hmoved.once, hmoved.labelled⟩
  updates := by
    intro s enabled henabled ⟨h, ms, notes, hmoved⟩
    refine ⟨⟨h.filled, henabled, h.unset, h.last⟩, ms, notes, ?_⟩
    exact ⟨hmoved.out, hmoved.noted, hmoved.once, hmoved.labelled⟩

theorem init_waiting : Waiting init ∧ ∃ ms notes, Moved init init ms notes := by
  refine ⟨⟨Filled.empty, rfl, fun _ => rfl, fun _ hne => absurd rfl hne⟩, [], [], ?_⟩
  exact ⟨rfl, rfl, List.Perm.nil, fun _ h => absurd h List.not_mem_nil⟩

/-! ### From the start of a run to its stop -/

/-- The dump at the start of a run sets the last note that waits. -/
theorem Choice.begin (h : Waiting s) (hrun : s.inRun = false) (hsame : Same (begun s) t)
    (hfilled : Filled t.queues) (hdump : Dumps t ms) :
    ∃ ms', Moved (begun s) (dumped (afterNote t) ms) ms' [] ∧
      Choice (s.queues .notes) (dumped (afterNote t) ms) ms' [] := by
  obtain ⟨ms₁, hmoved, hplain⟩ := hsame.moved
  obtain ⟨-, hplain', -⟩ := notes_of_dump hfilled.afterNote hdump.emitted
  refine ⟨_, hmoved.trans (dump_moved hfilled hdump), ?_⟩
  have hqueue : t.queues .notes = s.queues .notes := congrFun hsame.queues .notes
  have hset : t.notesCommentSet = false := hsame.notesCommentSet.trans (h.unset hrun)
  have hchosen := chosenNote_of_unset hdump hset
  by_cases hwaits : s.queues .notes = []
  · have hnone : t.chosenNote = none := by
      rw [hchosen, hqueue, hwaits]
      split
      · rfl
      · rfl
    obtain ⟨hafter, hno⟩ := noteEmissions_of_none hnone
    rw [hafter, hno, List.nil_append]
    refine .unset hset hwaits ?_ rfl fun hne => absurd rfl hne
    rw [filter_append_plain hplain', filter_isOverall_plain hplain]
  · have hfirst : t.useFirstNotesComment = false := hsame.useFirst.trans (h.last hrun hwaits)
    have hsome : t.chosenNote = some ((s.queues .notes).getLast hwaits) := by
      rw [hchosen, hfirst, hqueue]
      exact List.getLast?_eq_some_getLast hwaits
    have hafter : afterNote t = t.takeNote ((s.queues .notes).getLast hwaits) .stream := by
      rw [afterNote, hsome]
    refine .set ?_ ((s.queues .notes).getLast hwaits) ?_ ?_
    · rw [hafter]
      rfl
    · rw [chosen, List.getLast?_eq_some_getLast hwaits, Option.some_or]
    · rw [List.filter_append, filter_isOverall_plain hplain, filter_append_plain hplain',
        noteEmissions, hsome]
      rfl

variable (env)

/-- The start of a run: what waits by then has been put out in its first file. -/
theorem startRun_choice (h : Inv s) (hwaiting : Waiting s) (hrun : s.inRun = false)
    (runNumber : UInt32) (time : WallTime) (pausedPV : Bool)
    (notesPV : Option (WallTime × Text)) (connected : Bool) :
    ∃ b t ms₁ ms₂, s.startRun env runNumber time pausedPV notesPV connected = some t ∧ Inv t ∧
      t.inRun = true ∧ t.runNotesUpdates = false ∧ b.out = s.out ++ ms₁ ∧
      (∀ em ∈ ms₁, Plain em) ∧ b.noted = s.noted ++ reused s notesPV ∧
      b.queues .notes = s.queues .notes ++ reused s notesPV ∧ Moved b t ms₂ [] ∧
      Choice (b.queues .notes) t ms₂ [] := by
  obtain ⟨u, u', ms, t, ht, hacts, hnoted, hsame, hfilled, hdump, hkept, hinv⟩ :=
    startRun_begun env h hrun runNumber time pausedPV notesPV connected
  obtain ⟨ms₁, hout, hplain⟩ := hacts.plain hrun
  obtain ⟨notes, hnoted', hqueue⟩ := hacts.notes hrun
  have hnotes : notes = reused s notesPV := List.append_cancel_left (hnoted'.symm.trans hnoted)
  have hwaits : Waiting u := hwaiting.acts hacts
  obtain ⟨ms₂, hmoved, hchoice⟩ := Choice.begin hwaits (hacts.inRun.trans hrun) hsame hfilled hdump
  obtain ⟨ms₃, hmoved', hplain'⟩ := hkept.same.moved
  have hdrun : (dumped (afterNote u') ms).inRun = true := (afterNote_inRun u').trans hdump.inRun
  have hupdates : (dumped (afterNote u') ms).runNotesUpdates = false :=
    (afterNote_updates u').trans (hsame.updates.trans hwaits.updates)
  refine ⟨begun u, t, ms₁, ms₂ ++ ms₃, ht, hinv, hkept.inRun.trans hdrun,
    hkept.updates.trans hupdates, hout, hplain, hnoted, ?_, ?_, ?_⟩
  · rw [← hnotes]
    exact hqueue
  · exact hmoved.trans hmoved'
  · exact hchoice.congr (filter_isOverall_plain hplain') hkept.notesCommentSet hkept.useFirst
      (congrFun hkept.queues .notes)

/-- While a run goes on every step is a sequence of acts. -/
theorem during_acts (h : Inv s) (hrun : s.inRun = true) (hupdates : s.runNotesUpdates = false)
    {during : List Op} (hoff : .setRunNotesUpdates true ∉ during)
    (hstop : ∀ time pausedPV connected, .stopRun time pausedPV connected ∉ during) :
    ∃ t, Runs.run (step env) s during = some t ∧ Acts s t ∧ Inv t := by
  have htrue : Runs.along (step env) (fun _ _ => True) s during :=
    Runs.along_of_forall fun _ _ => trivial
  have halong := (htrue.and_forall (q := (· ∈ during)) fun _ hop => hop).imp fun _ _ h => h.2
  refine Runs.exists_run_along (I := fun t => Acts s t ∧ Inv t) ?_ ⟨.refl, h⟩ halong
  rintro t op ⟨hacts, hinv⟩ hop
  by_cases hwithin : within op = true
  · obtain ⟨u, hu, hacts', hinv'⟩ := step_steps env hinv hwithin
    exact ⟨u, hu, hacts.trans hacts', hinv'⟩
  cases op with
  | startRun =>
    -- there is a run already
    have htrun : t.inRun = true := hacts.inRun.trans hrun
    exact ⟨t, by rw [step, startRun, if_pos htrun], hacts, hinv⟩
  | stopRun time pausedPV connected => exact absurd hop (hstop time pausedPV connected)
  | setRunNotesUpdates enabled =>
    cases enabled with
    | true => exact absurd hop hoff
    | false =>
      have hsame : ({ t with runNotesUpdates := false } : Markers) = t := by
        rw [← hacts.updates.trans hupdates]
      exact ⟨t, congrArg some hsame, hacts, hinv⟩
  | _ => exact absurd rfl hwithin

/-- The packets of a run: the chosen note is put out as the overall comment, and no other is.
    All others are put out once, with the label. -/
structure RunNotes (before during : List Queued) (ms : List Emission) : Prop where
  overall : (ms.filter isOverall).map noteOf = (chosen before during).toList.map some
  others : ((chosen before during).toList ++ discarded ms).Perm (before ++ during)
  labelled : ∀ em ∈ ms, Labelled em

/-- At the stop of a run nothing waits. -/
theorem Choice.runNotes (h : Choice before s ms notes) (hmoved : Moved b s ms notes)
    (hbefore : b.queues .notes = before) (hempty : s.queues .notes = []) :
    RunNotes before notes ms := by
  have hall : (ms.filterMap noteOf).Perm (before ++ notes) := by
    have honce := hmoved.once
    rwa [hempty, List.append_nil, hbefore] at honce
  have hoverall : (ms.filter isOverall).map noteOf = (chosen before notes).toList.map some := by
    cases h with
    | unset hset hbefore' hms hqueue =>
      have hnone : notes = [] := hqueue.symm.trans hempty
      rw [hms, hbefore', hnone]
      rfl
    | set hset q hchosen hms =>
      rw [hms, hchosen]
      rfl
  refine ⟨hoverall, ?_, hmoved.labelled⟩
  have hchosen : (ms.filter isOverall).filterMap noteOf = (chosen before notes).toList := by
    calc (ms.filter isOverall).filterMap noteOf
        = ((ms.filter isOverall).map noteOf).filterMap id := by
          rw [List.filterMap_map, Function.id_comp]
      _ = ((chosen before notes).toList.map some).filterMap id := by rw [hoverall]
      _ = (chosen before notes).toList := by cases chosen before notes <;> rfl
  rw [← hchosen, discarded, ← List.filterMap_append]
  exact ((List.filter_append_perm isOverall ms).filterMap noteOf).trans hall

/-- Plain packets before and after it belong to no note. -/
theorem RunNotes.plain {ms₁ ms₂ : List Emission} (h : RunNotes before notes ms)
    (h₁ : ∀ em ∈ ms₁, Plain em) (h₂ : ∀ em ∈ ms₂, Plain em) :
    RunNotes before notes (ms₁ ++ ms ++ ms₂) := by
  have hdiscarded : ∀ {ms'}, (∀ em ∈ ms', Plain em) → discarded ms' = [] := fun h =>
    filterMap_noteOf_plain fun em hem => h em (List.mem_of_mem_filter hem)
  apply RunNotes.mk
  · rw [filter_append_plain (filter_isOverall_plain h₂), List.filter_append,
      filter_isOverall_plain h₁]
    exact h.overall
  · have hall : discarded (ms₁ ++ ms ++ ms₂) = discarded ms := by
      rw [discarded, List.filter_append, List.filter_append, List.filterMap_append,
        List.filterMap_append]
      change discarded ms₁ ++ discarded ms ++ discarded ms₂ = _
      rw [hdiscarded h₁, hdiscarded h₂, List.nil_append, List.append_nil]
    rw [hall]
    exact h.others
  · intro em hem
    rw [List.mem_append, List.mem_append] at hem
    rcases hem with (hem | hem) | hem
    · exact (h₁ em hem).labelled
    · exact h.labelled em hem
    · exact (h₂ em hem).labelled

/-- In every run with updates disabled the notes that came are put out once or wait, and a run
    from its start to its stop sets one note of those that waited or came, and discards the
    others. -/
theorem run_notes (env : Markers.Env) (before during : List Op)
    (hoff : .setRunNotesUpdates true ∉ before ++ during)
    (hstop : ∀ time pausedPV connected, .stopRun time pausedPV connected ∉ during)
    (runNumber : UInt32) (time time' : WallTime) (pausedPV pausedPV' connected connected' : Bool)
    (notesPV : Option (WallTime × Text)) :
    ∃ s, run env before = some s ∧ (s.out.filterMap noteOf ++ s.queues .notes).Perm s.noted ∧
      (∀ em ∈ s.out, Labelled em) ∧
      (s.inRun = false → ∃ t ms notes,
        run env (before ++ .startRun runNumber time pausedPV notesPV connected :: during ++
          [.stopRun time' pausedPV' connected']) = some t ∧
        t.out = s.out ++ ms ∧ t.noted = s.noted ++ reused s notesPV ++ notes ∧ t.inRun = false ∧
        t.queues .notes = [] ∧ RunNotes (s.queues .notes ++ reused s notesPV) notes ms) := by
  rw [List.mem_append, not_or] at hoff
  obtain ⟨s, hs, hinv, hwaiting, ms₀, notes₀, hmoved₀⟩ := run_lasting env waiting_lasting before
    (fun op hop enabled heq => by
      cases enabled with
      | true => exact absurd (heq ▸ hop) hoff.1
      | false => rfl) init_inv init_waiting
  refine ⟨s, hs, ?_, ?_, ?_⟩
  · rw [hmoved₀.out, hmoved₀.noted]
    exact hmoved₀.once
  · rw [hmoved₀.out]
    exact hmoved₀.labelled
  · intro hrun
    obtain ⟨b, t, ms₁, ms₂, ht, htinv, htrun, htupdates, hout, hplain, hnoted, hqueue, hmoved,
      hchoice⟩ := startRun_choice env hinv hwaiting hrun runNumber time pausedPV notesPV connected
    obtain ⟨u, hu, hacts, huinv⟩ := during_acts env htinv htrun htupdates hoff.2 hstop
    obtain ⟨v, w, hw, hacts', hnoted', hempty, hsame, hwinv⟩ :=
      stopRun_ended env huinv (hacts.inRun.trans htrun) time' pausedPV' connected'
    obtain ⟨ms₃, notes, hmoved', hchoice'⟩ := Choice.acts (hacts.trans hacts') htrun htupdates
      htinv.filled hmoved hchoice
    obtain ⟨ms₄, hout', hplain'⟩ := hsame.out
    have hnotes := (hchoice'.runNotes hmoved' rfl (hempty .notes)).plain hplain hplain'
    rw [hqueue] at hnotes
    refine ⟨w, ms₁ ++ ms₃ ++ ms₄, notes, ?_, ?_, ?_, hsame.inRun, ?_, hnotes⟩
    · have hstart : Runs.run (step env) s
          (.startRun runNumber time pausedPV notesPV connected :: during) = some u := by
        rw [Runs.run, step, ht]
        exact hu
      have hend : Runs.run (step env) u [.stopRun time' pausedPV' connected'] = some w := by
        rw [Runs.run, step, hw]
        rfl
      rw [run, Runs.run_append, Runs.run_append, hs, Option.bind_some, hstart, Option.bind_some,
        hend]
    · rw [hout', ended, hmoved'.out, hout, List.append_assoc, List.append_assoc, List.append_assoc]
    · rw [hsame.noted, ended, hmoved'.noted, hnoted]
    · exact (congrFun hsame.queues .notes).trans (hempty .notes)

/-- A time in the first minute. -/
def seconds (n : Nat) : WallTime where
  sec := n % 60
  nsec := 0
  fits := by omega

/-- A note in the run, and one while it is paused. -/
def notedRun : List Op :=
  [.addNotesComment ⟨seconds 2, .execute, 0, ['b']⟩ none,
    .pause (.ofTime (seconds 3)),
    .addRunComment ⟨seconds 4, .execute, 0, ['c']⟩ none]

/-- The note that waits before the run is the one that is set. -/
theorem run_notes_waiting :
    ∃ t ms notes, run ⟨fun _ => .goesOn, fun _ => ⟨0, 0⟩⟩
        (.addNotesComment ⟨⟨⟨1, 0⟩, by decide⟩, .execute, 0, ['a']⟩ none ::
          .startRun 1 ⟨⟨2, 0⟩, by decide⟩ false none true :: notedRun ++
            [.stopRun ⟨⟨5, 0⟩, by decide⟩ false true]) = some t ∧
      t.out = ms ∧ RunNotes [(⟨1, 0⟩, ['a'])] notes ms := by
  obtain ⟨s, hs, -, -, hstop⟩ := run_notes ⟨fun _ => .goesOn, fun _ => ⟨0, 0⟩⟩
    [.addNotesComment ⟨⟨⟨1, 0⟩, by decide⟩, .execute, 0, ['a']⟩ none] notedRun (by decide)
    (by simp [notedRun]) 1 ⟨⟨2, 0⟩, by decide⟩ ⟨⟨5, 0⟩, by decide⟩ false false true true none
  obtain rfl := Option.some.inj hs
  obtain ⟨t, ms, notes, ht, hout, -, -, -, hnotes⟩ := hstop rfl
  exact ⟨t, ms, notes, ht, hout, hnotes⟩

end Adara.Spec.Markers
