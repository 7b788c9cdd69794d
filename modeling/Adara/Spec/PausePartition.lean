import Adara.Spec.PauseLookup
import Adara.Spec.Publication

/-! # The pause modes partition the time of a container

When the pauses and resumes come at increasing times and every file opens, the ranges of the
pause modes are adjacent and no time is in two of them.  A lookup by the time of a packet then
gives the one mode that holds it, and a packet from a pause goes to paused files only.  A
packet whose time is ignored always goes to the current mode. -/

namespace Adara.Spec.TimedContainer

open Adara.Native Adara.Native.TimedContainer

/-- The time of a pause or a resume. -/
def boundary : TimedContainer.Call → Option Timespec
  | .pause t _ | .resume t _ => some t
  | _ => none

/-- The times of a call are proper ones, and every file opens that it makes. -/
def Proper : TimedContainer.Call → Prop
  | .write _ io => io.opens = true ∧ ∀ opens ∈ io.failed, opens = true
  | .pause t io | .resume t io => t.Valid ∧ io.prologueOpens = true ∧ io.opens = true
  | .getPauseModeByTime _ ts _ _ timeout => ts ≠ ⟨-1, -1⟩ ∧ timeout.Valid

instance (a : TimedContainer.Call) : Decidable (Proper a) :=
  match a with
  | .write .. | .pause .. | .resume .. | .getPauseModeByTime .. => by
    unfold Proper
    infer_instance

/-- The mode for a packet with time `ts`: the only one that holds the time, or the current one
    if the time is before all of them. -/
def Designated (c : TimedContainer) (ts : Timespec) (m : TimedMode) : Prop :=
  m.holds ts = true ∧ (∀ m' ∈ c.pauseModeStack, m'.holds ts = true → m' = m) ∨
    c.pauseModeStack.head? = some m ∧ ∀ m' ∈ c.pauseModeStack, ts.before m'.minTime = true

/-- The ranges of the modes are adjacent and disjoint, and lookups and writes go by them. -/
structure Partitioned (c : TimedContainer) : Prop where
  current : ∀ m ∈ c.pauseModeStack.head?, m.maxTime.isZero = true
  adjacent : c.pauseModeStack.IsChain fun newer older =>
    older.maxTime.isZero = false ∧ older.maxTime.nanos + 1 = newer.minTime.nanos
  disjoint : c.pauseModeStack.Pairwise fun m m' =>
    ∀ ts, m.holds ts = true → m'.holds ts = false
  lookup : ∀ ts check oldTs timeout, ts ≠ ⟨-1, -1⟩ → timeout.Valid →
    ∃ m ∈ c.pauseModeStack, Designated c ts m ∧
      (c.getPauseModeByTime false ts check oldTs timeout).2 = some m.node
  rollOver : ∀ n io r, c.write n io = some r → ranges r.1 = ranges c
  pausedOnly : ∀ ts check oldTs timeout, ts ≠ ⟨-1, -1⟩ → timeout.Valid →
    ∀ m ∈ c.pauseModeStack, m.paused = true → m.holds ts = true →
    ∀ n ∈ (c.getPauseModeByTime false ts check oldTs timeout).2, ∀ io r,
      (c.getPauseModeByTime false ts check oldTs timeout).1.write n io = some r →
      ∀ f ∈ r.2, ∃ d, r.1.made[f]? = some d ∧ d.paused = true

/-! ### What a run preserves -/

/-- The stack is a timeline, its modes have their files, and the last pause or resume was not
    after `last`. -/
structure Steady (last : Nat) (c : TimedContainer) : Prop where
  regular : Regular c
  cache : CacheSound c
  timeline : Period.IsTimeline (c.pauseModeStack.map period)
  files : ∀ m ∈ c.pauseModeStack, m.file.isSome = true
  start : ∀ m ∈ c.pauseModeStack.head?, m.minTime.nanos ≤ last

theorem Steady.lookupOpens {last : Nat} {c : TimedContainer} (h : Steady last c)
    (ignore : Bool) (ts : Timespec) : LookupOpens c ignore ts :=
  fun _ _ => h.files

/-- The next pause or resume is later. -/
def Later (last : Nat) (a : TimedContainer.Call) : Prop := ∀ t ∈ boundary a, last < t.nanos

theorem Steady.filesOpen {last : Nat} {c : TimedContainer} {a : TimedContainer.Call} (h : Steady last c)
    (hlast : 0 < last) (hproper : Proper a) (hlater : Later last a) : FilesOpen c a := by
  cases a with
  | write n io => exact fun m _ _ => ⟨.inr hproper.1, hproper.2⟩
  | pause t io =>
    have ht := hlater t rfl
    exact ⟨⟨hproper.1, by omega⟩,
      fun m hm => ⟨h.files m (List.mem_of_mem_head? hm), .inr hproper.2.1⟩⟩
  | resume t io =>
    have ht := hlater t rfl
    exact ⟨⟨hproper.1, by omega⟩,
      fun m hm => ⟨h.files m (List.mem_of_mem_head? hm), .inr hproper.2.1⟩⟩
  | getPauseModeByTime ignore ts check oldTs timeout =>
    exact ⟨hproper.1, hproper.2, h.lookupOpens ignore ts⟩

/-- A mode that keeps its range, and has a file. -/
private theorem Steady.replace {last : Nat} {c c' : TimedContainer} {pre post : List TimedMode}
    {m m' : TimedMode} (h : Steady last c) (hr : Regular c') (hc : CacheSound c')
    (hstack : c.pauseModeStack = pre ++ m :: post)
    (hstack' : c'.pauseModeStack = pre ++ m' :: post) (hrange : range m' = range m)
    (hfile : m'.file.isSome = true) : Steady last c' := by
  have htimeline := h.timeline
  refine ⟨hr, hc, ?_, fun x hx => ?_, fun x hx => ?_⟩
  · rw [hstack, List.map_append, List.map_cons] at htimeline
    rw [hstack', List.map_append, List.map_cons, period_congr hrange]
    exact htimeline
  · rw [hstack', List.mem_append, List.mem_cons] at hx
    obtain hx | rfl | hx := hx
    · exact h.files x (by simp [hstack, hx])
    · exact hfile
    · exact h.files x (by simp [hstack, hx])
  · have hmin : m'.minTime = m.minTime := congrArg ModeRange.minTime hrange
    cases pre with
    | nil =>
      obtain rfl : m' = x := by simpa [hstack'] using hx
      exact hmin ▸ h.start m (by simp [hstack])
    | cons top pre =>
      obtain rfl : top = x := by simpa [hstack'] using hx
      exact h.start top (by simp [hstack])

/-- A new mode begins, after the one that was the current one began. -/
private theorem Steady.turned {last : Nat} {c c' : TimedContainer} {m : TimedMode}
    {post : List TimedMode} {paused : Bool} {t : Timespec} (h : Steady last c)
    (hr : Regular c') (hc : CacheSound c') (hstack : c.pauseModeStack = m :: post)
    (ht : t.Valid) (hlater : last < t.nanos) (hlast : 0 < last)
    (hturned : Turned c c' m post paused t true) : Steady t.nanos c' := by
  obtain ⟨top, below, hstack', htop, hsome, hbelow, hfile⟩ := hturned.stack
  obtain ⟨-, hpred, hrange⟩ := Timespec.Range.period_pred ht (by omega) m.minTime
  have hptop : period top = ⟨t.pred.nanos + 1, none⟩ := hpred ▸ period_eq htop
  have hpbelow : period below = ⟨(period m).lo, some t.pred.nanos⟩ :=
    (period_eq hbelow).trans hrange
  refine ⟨hr, hc, ?_, fun x hx => ?_, fun x hx => ?_⟩
  · have htimeline := h.timeline
    rw [hstack, List.map_cons] at htimeline
    rw [hstack', List.map_cons, List.map_cons, hptop, hpbelow]
    have hstart := h.start m (by simp [hstack])
    exact htimeline.push (by show m.minTime.nanos ≤ _; omega)
  · rw [hstack', List.mem_cons, List.mem_cons] at hx
    obtain rfl | rfl | hx := hx
    · exact hsome
    · exact hfile ▸ h.files m (by simp [hstack])
    · exact h.files x (by simp [hstack, hx])
  · obtain rfl : top = x := by simpa [hstack'] using hx
    exact Nat.le_of_eq (congrArg (·.minTime.nanos) htop)

/-- The modes that expire are the oldest ones. -/
private theorem Steady.expire {last : Nat} {c c' : TimedContainer} {n : Nat} {oldTs : Timespec}
    {timeout : Timespec} (h : Steady last c) (hr : Regular c') (hc : CacheSound c')
    (htimeout : timeout.Valid) (hn : ∃ m ∈ c.pauseModeStack, m.node = n)
    (hstack' : c'.pauseModeStack = (c.expireModes n oldTs timeout).pauseModeStack) :
    Steady last c' := by
  obtain ⟨m, hm, rfl⟩ := hn
  obtain ⟨front, behind, hstack⟩ := List.append_of_mem hm
  have hmap : ∀ {β : Type} (g : TimedMode → β),
      (∀ m : TimedMode, g { m with pendingFiles := [] } = g m) → c'.pauseModeStack.map g =
        (front ++ m :: behind.filter (!·.expired oldTs timeout)).map g :=
    fun g hg => hstack' ▸ expireModes_map hg h.regular.wellFormed hstack oldTs timeout
  have hsub : front ++ m :: behind.filter (!·.expired oldTs timeout) ⊆ c.pauseModeStack := by
    rw [hstack]
    intro x hx
    simp only [List.mem_append, List.mem_cons] at hx ⊢
    exact hx.imp_right (.imp_right fun hx => (List.mem_filter.mp hx).1)
  refine ⟨hr, hc, ?_, fun x hx => ?_, fun x hx => ?_⟩
  · rw [hmap period fun _ => rfl]
    have htimeline := h.timeline
    rw [hstack] at htimeline
    refine htimeline.filter fun x hx e he => expired_iff htimeout (h.regular.valid x ?_) he
    simp [hstack, hx]
  · have hfile := List.mem_map_of_mem (f := (·.file.isSome)) hx
    rw [hmap (·.file.isSome) fun _ => rfl] at hfile
    obtain ⟨y, hy, heq⟩ := List.mem_map.mp hfile
    exact heq ▸ h.files y (hsub hy)
  · have hhead := congrArg List.head? (hmap (·.minTime) fun _ => rfl)
    rw [List.head?_map, List.head?_map, Option.mem_def.mp hx] at hhead
    obtain ⟨y, hy, heq⟩ := Option.map_eq_some_iff.mp hhead.symm
    have heq : y.minTime = x.minTime := heq
    refine heq ▸ h.start y ?_
    rw [hstack]
    cases front <;> exact hy

/-- The last boundary after a call. -/
def after (last : Nat) (a : TimedContainer.Call) : Nat := ((boundary a).map (·.nanos)).getD last

theorem step_steady {last : Nat} {c c' : TimedContainer} {a : TimedContainer.Call} (h : Steady last c)
    (hlast : 0 < last) (hproper : Proper a) (hlater : Later last a)
    (hstep : step c a = some c') : Steady (after last a) c' := by
  have hopen := h.filesOpen hlast hproper hlater
  obtain ⟨hr, hc⟩ := step_regular h.regular h.cache hopen hstep
  have hwf := h.regular.wellFormed
  obtain ⟨top, post, hstack⟩ := List.exists_cons_of_ne_nil h.regular.stack_ne_nil
  obtain ⟨f, hf⟩ := Option.isSome_iff_exists.mp (h.files top (by simp [hstack]))
  cases a with
  | write n io =>
    obtain ⟨r, hr', rfl⟩ := Option.map_eq_some_iff.mp hstep
    obtain ⟨pre, m, m', post, hsplit, -, hsplit', hrange, hfile⟩ :=
      write_split hwf hr' h.regular.proper
    exact h.replace hr hc hsplit hsplit' hrange (hfile ⟨.inr hproper.1, hproper.2⟩)
  | pause t io =>
    obtain ⟨ht, hprologue, hopens⟩ := hproper
    obtain ⟨-, hkept⟩ | ⟨-, hturned⟩ :=
      pause_split hwf h.regular.filesPaused hstack hf (.inr hprologue) hstep
    · obtain ⟨m', hstack', hrange, hfile⟩ := hkept.stack
      have hsteady := @Steady.replace last c c' [] post top m' h hr hc hstack hstack' hrange
        (by simp [hfile, hf])
      exact { hsteady with
        start := fun m hm => Nat.le_of_lt (Nat.lt_of_le_of_lt (hsteady.start m hm) (hlater t rfl)) }
    · exact h.turned hr hc hstack ht (hlater t rfl) hlast (hopens ▸ hturned)
  | resume t io =>
    obtain ⟨ht, hprologue, hopens⟩ := hproper
    obtain ⟨-, hkept⟩ | ⟨-, hturned⟩ :=
      resume_split hwf h.regular.filesPaused hstack hf (.inr hprologue) hstep
    · obtain ⟨m', hstack', hrange, hfile⟩ := hkept.stack
      have hsteady := @Steady.replace last c c' [] post top m' h hr hc hstack hstack' hrange
        (by simp [hfile, hf])
      exact { hsteady with
        start := fun m hm => Nat.le_of_lt (Nat.lt_of_le_of_lt (hsteady.start m hm) (hlater t rfl)) }
    · exact h.turned hr hc hstack ht (hlater t rfl) hlast (hopens ▸ hturned)
  | getPauseModeByTime ignore ts check oldTs timeout =>
    cases hstep
    obtain ⟨n, hn, -⟩ := getPauseModeByTime_spec h.regular h.cache check oldTs hproper.1
      (h.lookupOpens ignore ts) hproper.2
    -- a lookup may expire the modes behind the one found
    obtain hsame | hexpired := getPauseModeByTime_stack h.cache hproper.1 hn check oldTs timeout
    · have hsplit : c.pauseModeStack = [] ++ top :: post := hstack
      exact h.replace hr hc hsplit (hsame.trans hsplit) rfl (by simp [hf])
    · exact h.expire hr hc hproper.2 (lookup_mem hn) hexpired

/-! ### The partition -/

theorem Steady.designated {last : Nat} {c : TimedContainer} (h : Steady last c)
    {ts : Timespec} {n : Nat} (hn : c.lookup false ts = some n) :
    ∃ m ∈ c.pauseModeStack, Designated c ts m ∧ m.node = n := by
  have hdisjoint : (c.pauseModeStack.map view).Pairwise fun v v' =>
      v.holds ts = true → v'.holds ts = false := by
    have h' := h.timeline.disjoint
    rw [List.pairwise_map] at h' ⊢
    exact h'.imp fun {m m'} hm hts =>
      Bool.eq_false_iff.mpr fun hts' => hm ts.nanos (holds_iff.mp hts) (holds_iff.mp hts')
  have hcover := h.regular.covers (h.lookupOpens false ts) rfl
  rw [lookup_eq] at hn
  obtain ⟨v, hv, rfl, hholds, honly⟩ | ⟨v, hv, rfl, hold⟩ :=
    StackLookup.find_cases hcover hdisjoint hn
  · obtain ⟨m, hm, rfl⟩ := List.mem_map.mp hv
    refine ⟨m, hm, .inl ⟨hholds, fun m' hm' hmh => ?_⟩, rfl⟩
    have hnode := congrArg (·.range.node) (honly (view m') (List.mem_map_of_mem hm') hmh)
    exact List.inj_on_of_nodup_map h.regular.wellFormed.nodup hm' hm hnode
  · rw [List.head?_map] at hv
    obtain ⟨m, hm, rfl⟩ := Option.map_eq_some_iff.mp hv
    refine ⟨m, List.mem_of_mem_head? hm, .inr ⟨hm, fun m' hm' => ?_⟩, rfl⟩
    have hold' := (hold (view m') (List.mem_map_of_mem hm')).1
    exact (Bool.and_eq_true _ _ ▸ hold').2

/-- The mode that a lookup gives keeps its range and its flag. -/
theorem Steady.modeAt_lookup {last : Nat} {c : TimedContainer} {m : TimedMode}
    (h : Steady last c) {ignore : Bool} {ts : Timespec} (hts : ts ≠ ⟨-1, -1⟩)
    (hn : c.lookup ignore ts = some m.node) (hm : m ∈ c.pauseModeStack) (check : Bool)
    (oldTs : Timespec) {timeout : Timespec} (htimeout : timeout.Valid) :
    ∃ m', (c.getPauseModeByTime ignore ts check oldTs timeout).1.modeAt m.node = some m' ∧
      range m' = range m := by
  obtain ⟨front, behind, hstack⟩ := List.append_of_mem hm
  have hat : c.modeAt m.node = some m := modeAt_split h.regular.wellFormed.nodup hstack rfl
  obtain hsame | hexpired := getPauseModeByTime_stack h.cache hts hn check oldTs timeout
  · exact ⟨m, by rw [modeAt, hsame]; exact hat, rfl⟩
  · have hmap := expireModes_map (g := range) (fun _ => rfl) h.regular.wellFormed hstack oldTs
      timeout
    rw [← hexpired, List.map_append, List.map_cons] at hmap
    obtain ⟨pre, rest, hsplit, -, hrest⟩ := List.map_eq_append_iff.mp hmap
    obtain ⟨m', post, rfl, hm', -⟩ := List.map_eq_cons_iff.mp hrest
    obtain ⟨-, -, -, hr, -⟩ := getPauseModeByTime_spec h.regular h.cache check oldTs hts
      (h.lookupOpens ignore ts) htimeout
    exact ⟨m', modeAt_split hr.wellFormed.nodup hsplit (congrArg ModeRange.node hm'), hm'⟩

theorem Steady.partitioned {last : Nat} {c : TimedContainer} (h : Steady last c) :
    Partitioned c where
  current := by
    intro m hm
    obtain ⟨post, hstack⟩ := List.head?_eq_some_iff.mp hm
    have htimeline := h.timeline
    rw [hstack] at htimeline
    have hnone : (period m).hi = none := htimeline.1
    simp only [period] at hnone
    split at hnone
    · assumption
    · cases hnone
  adjacent := by
    have hchain := h.timeline.isChain
    rw [List.isChain_map] at hchain
    refine hchain.imp fun newer older ⟨e, he, hnext⟩ => ?_
    simp only [period] at he hnext
    split at he
    · cases he
    · rename_i hzero
      obtain rfl := Option.some.inj he
      exact ⟨by simpa using hzero, hnext⟩
  disjoint := by
    have hdisjoint := h.timeline.disjoint
    rw [List.pairwise_map] at hdisjoint
    refine hdisjoint.imp fun {m m'} hm ts hts => ?_
    rw [Bool.eq_false_iff]
    exact fun hts' => hm ts.nanos (holds_iff.mp hts) (holds_iff.mp hts')
  lookup := by
    intro ts check oldTs timeout hts htimeout
    obtain ⟨n, hn, hresult, -⟩ := getPauseModeByTime_spec h.regular h.cache check oldTs hts
      (h.lookupOpens false ts) htimeout
    obtain ⟨m, hm, hdesignated, rfl⟩ := h.designated hn
    exact ⟨m, hm, hdesignated, hresult⟩
  rollOver := by
    intro n io r hr
    obtain ⟨pre, m, m', post, hstack, -, hstack', hrange, -⟩ :=
      write_split h.regular.wellFormed hr h.regular.proper
    simp [ranges, hstack, hstack', hrange]
  pausedOnly := by
    intro ts check oldTs timeout hts htimeout m hm hpaused hholds n hn io r hr f hf
    obtain ⟨n', hn', hresult, hregular, -⟩ := getPauseModeByTime_spec h.regular h.cache check
      oldTs hts (h.lookupOpens false ts) htimeout
    obtain rfl : n' = n := Option.some.inj (hresult.symm.trans hn)
    obtain ⟨m', hm', hdesignated, rfl⟩ := h.designated hn'
    -- the mode that holds the time is the only one, so it is the one looked up
    obtain rfl : m = m' := by
      obtain ⟨-, honly⟩ | ⟨-, hold⟩ := hdesignated
      · exact honly m hm hholds
      · simp [TimedMode.holds, hold m hm] at hholds
    obtain ⟨m₁, hm₁, hrange⟩ := h.modeAt_lookup hts hn' hm check oldTs htimeout
    obtain ⟨d, hd, hdp⟩ := write_files hregular.wellFormed hregular.filesPaused hm₁ hr f hf
    exact ⟨d, hd, hdp.trans ((congrArg ModeRange.paused hrange).trans hpaused)⟩

/-! ### A whole run -/

theorem start_steady (runNumber : Nat) (minTime : Timespec) (paused : Bool) :
    Steady minTime.nanos (start runNumber minTime paused true) := by
  have hwf := start_wellFormed runNumber minTime paused true
  rw [start_eq] at hwf ⊢
  refine ⟨⟨hwf, ?_, ?_, ?_⟩, .inl rfl, ?_, ?_, ?_⟩
  · simp [FilesPaused]
  · simp only [if_true, List.mem_singleton, forall_eq]
    decide
  · exact ⟨by simp [period, Timespec.isZero], trivial⟩
  · exact ⟨by simp [period, Timespec.isZero], trivial⟩
  · simp
  · simp

theorem run_steady {calls : List TimedContainer.Call} :
    ∀ {last : Nat} {c c' : TimedContainer}, Steady last c → 0 < last →
      (∀ a ∈ calls, Proper a) →
      (last :: (calls.filterMap boundary).map (·.nanos)).Pairwise (· < ·) →
      Runs.run step c calls = some c' → ∃ last', Steady last' c' := by
  induction calls with
  | nil => exact fun {last c c'} h _ _ _ hrun => ⟨last, Option.some.inj hrun ▸ h⟩
  | cons a calls ih =>
    intro last c c' h hlast hproper hlater hrun
    obtain ⟨t, ht, hrest⟩ := Runs.run_cons hrun
    have ha := hproper a List.mem_cons_self
    have hcalls := fun b hb => hproper b (List.mem_cons_of_mem _ hb)
    cases hb : boundary a with
    | none =>
      have hstep := step_steady h hlast ha (by simp [Later, hb]) ht
      simp only [after, hb, Option.map_none, Option.getD_none] at hstep
      rw [List.filterMap_cons_none hb] at hlater
      exact ih hstep hlast hcalls hlater hrest
    | some t₀ =>
      rw [List.filterMap_cons_some hb, List.map_cons] at hlater
      obtain ⟨hlt, hrestLater⟩ := List.pairwise_cons.mp hlater
      have ht₀ : last < t₀.nanos := hlt _ List.mem_cons_self
      have hstep := step_steady h hlast ha (by simpa [Later, hb] using ht₀) ht
      simp only [after, hb, Option.map_some, Option.getD_some] at hstep
      exact ih hstep (by omega) hcalls hrestLater hrest

/-- Where the pauses and resumes come at increasing times and every file opens, the pause
    modes partition the time of the container in every state. -/
theorem partitioned_of_run {runNumber : Nat} {minTime : Timespec} {paused : Bool}
    {calls : List TimedContainer.Call} {c : TimedContainer} (hpos : 0 < minTime.nanos)
    (hproper : ∀ a ∈ calls, Proper a)
    (hlater : ((minTime :: calls.filterMap boundary).map (·.nanos)).Pairwise (· < ·))
    (h : Runs.run step (start runNumber minTime paused true) calls = some c) : Partitioned c := by
  obtain ⟨last, hsteady⟩ := run_steady (start_steady runNumber minTime paused) hpos hproper hlater h
  exact hsteady.partitioned

/-- A run with a pause, whose older mode gets another file and then expires. -/
theorem partitioned_of_run_pause :
    ∃ c, Runs.run step (start 1 ⟨100, 0⟩ false true)
        [.pause ⟨200, 0⟩ ⟨true, true⟩, .write 0 ⟨true, true, [true]⟩,
          .resume ⟨300, 0⟩ ⟨true, true⟩,
          .getPauseModeByTime false ⟨350, 0⟩ true ⟨290, 0⟩ ⟨60, 0⟩] = some c ∧
      Partitioned c ∧ c.pauseModeStack.map (·.paused) = [false, true] := by
  have hproper : ∀ a ∈
      ([.pause ⟨200, 0⟩ ⟨true, true⟩, .write 0 ⟨true, true, [true]⟩,
        .resume ⟨300, 0⟩ ⟨true, true⟩,
        .getPauseModeByTime false ⟨350, 0⟩ true ⟨290, 0⟩ ⟨60, 0⟩] : List TimedContainer.Call), Proper a := by
    decide
  have hpos : 0 < (⟨100, 0⟩ : Timespec).nanos := by decide
  exact ⟨_, rfl, @partitioned_of_run 1 _ false _ _ hpos hproper (by decide) rfl, by decide⟩

/-- After a pause the packets of a source whose times are ignored are written to the current
    mode, also one with a time in the pause. -/
theorem not_partitioned_ignored :
    ∃ c, Runs.run step (start 1 ⟨100, 0⟩ false true)
        [.pause ⟨200, 0⟩ ⟨true, true⟩, .resume ⟨300, 0⟩ ⟨true, true⟩] = some c ∧
      (∃ m ∈ c.pauseModeStack, m.node = 1 ∧ m.paused = true ∧ m.holds ⟨250, 0⟩ = true) ∧
      ∃ c', c.getPauseModeByTime true ⟨250, 0⟩ false ⟨0, 0⟩ ⟨60, 0⟩ = (c', some 2) ∧
        ∃ r, c'.write 2 ⟨false, true, []⟩ = some r ∧ r.2 = [2] ∧
          (r.1.made[2]?).map (·.paused) = some false := by
  refine ⟨_, rfl, by decide, _, rfl, _, rfl, by decide, by decide⟩

end Adara.Spec.TimedContainer
