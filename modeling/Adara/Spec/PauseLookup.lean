import Adara.ForStd.StackLookup
import Adara.Spec.PauseRanges

/-! # The lookup of a pause mode

A lookup gives the first mode whose range holds the time, or the current mode for a time
before the oldest one.  The ranges leave no gap, whatever the times of the pauses are, so a
lookup finds a mode as long as the files open.  What the last lookup found is kept, and is
given again for the same time: it is what a new search would find, since the stack has not
changed or the last time has been reset. -/

namespace Adara.Spec.TimedContainer

open Adara.Native Adara.Native.TimedContainer

/-- What a lookup sees of a mode: its range, and whether it has a file. -/
structure ModeView where
  range : ModeRange
  hasFile : Bool

def view (m : TimedMode) : ModeView := ⟨range m, m.file.isSome⟩

/-- The range holds the time. -/
def ModeView.holds (ts : Timespec) (v : ModeView) : Bool :=
  !ts.before v.range.minTime && (v.range.maxTime.isZero || !v.range.maxTime.before ts)

/-- The time is before the mode, which has a file. -/
def ModeView.older (ts : Timespec) (v : ModeView) : Bool :=
  v.hasFile && ts.before v.range.minTime

/-- The lookup is the search of a stack. -/
theorem lookup_eq (c : TimedContainer) (ignore : Bool) (ts : Timespec) :
    c.lookup ignore ts =
      StackLookup.find (·.range.node) (ModeView.holds ts) (ModeView.older ts) ignore
        (c.pauseModeStack.map view) := by
  rw [StackLookup.find_map]
  rfl

theorem lookup_mem {c : TimedContainer} {ignore : Bool} {ts : Timespec} {n : Nat}
    (h : c.lookup ignore ts = some n) : ∃ m ∈ c.pauseModeStack, m.node = n := by
  rw [lookup_eq] at h
  obtain ⟨v, hv, rfl⟩ := StackLookup.find_mem h
  obtain ⟨m, hm, rfl⟩ := List.mem_map.mp hv
  exact ⟨m, hm, rfl⟩

/-! ### Regular stacks -/

/-- The stack of a container whose modes leave no gap between their ranges. -/
structure Regular (c : TimedContainer) : Prop where
  wellFormed : WellFormed c
  filesPaused : FilesPaused c
  valid : ∀ m ∈ c.pauseModeStack, m.maxTime.Valid
  gapless : Period.Gapless (c.pauseModeStack.map period)

theorem Regular.stack_ne_nil {c : TimedContainer} (h : Regular c) : c.pauseModeStack ≠ [] := by
  intro hnil
  have := h.gapless
  rw [hnil] at this
  exact this

/-- A time is in the range of a mode, or before all of them. -/
theorem Regular.cover {c : TimedContainer} (h : Regular c) (ts : Timespec) :
    (∃ m ∈ c.pauseModeStack, m.holds ts = true) ∨
      ∀ m ∈ c.pauseModeStack, ts.before m.minTime = true := by
  obtain ⟨p, hp, hps⟩ | hall := h.gapless.cover ts.nanos
  · obtain ⟨m, hm, rfl⟩ := List.mem_map.mp hp
    exact .inl ⟨m, hm, holds_iff.mpr hps⟩
  · exact .inr fun m hm => Timespec.before_iff.mpr (hall _ (List.mem_map_of_mem hm))

/-- A time before all the modes comes only while all of them have a file. -/
def LookupOpens (c : TimedContainer) (ignore : Bool) (ts : Timespec) : Prop :=
  ignore = false → (∀ m ∈ c.pauseModeStack, ts.before m.minTime = true) →
    ∀ m ∈ c.pauseModeStack, m.file.isSome = true

instance (c : TimedContainer) (ignore : Bool) (ts : Timespec) :
    Decidable (LookupOpens c ignore ts) :=
  inferInstanceAs (Decidable (_ → _ → _))

theorem Regular.covers {c : TimedContainer} (h : Regular c) {ignore : Bool} {ts : Timespec}
    (hopens : LookupOpens c ignore ts) (hignore : ignore = false) :
    StackLookup.Covers (ModeView.holds ts) (ModeView.older ts) (c.pauseModeStack.map view) := by
  obtain ⟨m, hm, hholds⟩ | hold := h.cover ts
  · exact .inl ⟨_, List.mem_map_of_mem hm, hholds⟩
  · refine .inr fun v hv => ?_
    obtain ⟨m, hm, rfl⟩ := List.mem_map.mp hv
    have hfile := hopens hignore hold m hm
    simp [ModeView.holds, ModeView.older, view, range, hold m hm, hfile]

/-- A lookup finds a mode. -/
theorem Regular.lookup_isSome {c : TimedContainer} (h : Regular c) {ignore : Bool}
    {ts : Timespec} (hopens : LookupOpens c ignore ts) :
    ∃ n, c.lookup ignore ts = some n := by
  rw [lookup_eq]
  exact StackLookup.find_isSome (by simpa using h.stack_ne_nil) (h.covers hopens)

/-! ### The expiry of modes -/

theorem splitBehind_split {c : TimedContainer} {front behind : List TimedMode} {m : TimedMode}
    (hn : WellFormed c) (hstack : c.pauseModeStack = front ++ m :: behind) :
    c.splitBehind m.node = (front ++ [m], behind) := by
  have hnodup := hn.nodup
  rw [hstack] at hnodup
  rw [splitBehind, hstack]
  exact StackLookup.splitAt_split hnodup

/-- Publishing the deferred files of the oldest mode changes nothing else of it. -/
theorem flushOldest_map {β : Type} {g : TimedMode → β}
    (hg : ∀ m : TimedMode, g { m with pendingFiles := [] } = g m) {c : TimedContainer}
    (hn : WellFormed c) : c.flushOldest.pauseModeStack.map g = c.pauseModeStack.map g := by
  unfold flushOldest
  split
  · rfl
  · rename_i m hlast
    have hstack := (List.dropLast_append_getLast? m hlast).symm
    rw [setMode_split hn.nodup hstack (by rfl)]
    conv_rhs => rw [hstack]
    simp [hg]

/-- The modes behind the one that was found that have not expired are left. -/
theorem expireModes_behind {β : Type} {g : TimedMode → β}
    (hg : ∀ m : TimedMode, g { m with pendingFiles := [] } = g m) {c : TimedContainer}
    (hn : WellFormed c) (n : Nat) (oldTs timeout : Timespec) :
    (c.expireModes n oldTs timeout).pauseModeStack.map g =
      ((c.splitBehind n).1 ++ (c.splitBehind n).2.filter (!·.expired oldTs timeout)).map g := by
  have hmoves := @closeExpired_behind False False False c n oldTs timeout hn False.elim
  simp only [expireModes]
  refine (flushOldest_map hg (Moves.wellFormed hmoves hn)).trans ?_
  rw [closeExpired_kept]

theorem expireModes_map {β : Type} {g : TimedMode → β}
    (hg : ∀ m : TimedMode, g { m with pendingFiles := [] } = g m) {c : TimedContainer}
    {front behind : List TimedMode} {m : TimedMode} (hn : WellFormed c)
    (hstack : c.pauseModeStack = front ++ m :: behind) (oldTs timeout : Timespec) :
    (c.expireModes m.node oldTs timeout).pauseModeStack.map g =
      (front ++ m :: behind.filter (!·.expired oldTs timeout)).map g := by
  rw [expireModes_behind hg hn, splitBehind_split hn hstack, List.append_assoc]
  rfl

theorem expired_iff {oldTs timeout : Timespec} (htimeout : timeout.Valid) {m : TimedMode}
    (hm : m.maxTime.Valid) {e : Nat} (he : (period m).hi = some e) :
    (!m.expired oldTs timeout) = decide (oldTs.nanos < e + timeout.nanos) :=
  @Timespec.Range.expired_iff ⟨m.minTime, m.maxTime⟩ oldTs timeout htimeout hm e he

/-- The stack stays regular when modes expire, whatever their times are. -/
theorem Regular.expire {c : TimedContainer} {front behind : List TimedMode} {m : TimedMode}
    (h : Regular c) (hstack : c.pauseModeStack = front ++ m :: behind) (oldTs : Timespec)
    {timeout : Timespec} (htimeout : timeout.Valid) :
    Regular (c.expireModes m.node oldTs timeout) := by
  have hmoves := @expireModes_moves False False False c m.node oldTs timeout h.wellFormed
    False.elim
  refine ⟨Moves.wellFormed hmoves h.wellFormed, Moves.filesPaused hmoves h.filesPaused,
    fun x hx => ?_, ?_⟩
  · have hmax := expireModes_map (g := (·.maxTime)) (fun _ => rfl) h.wellFormed hstack oldTs timeout
    have hx := List.mem_map_of_mem (f := (·.maxTime)) hx
    rw [hmax] at hx
    obtain ⟨y, hy, heq⟩ := List.mem_map.mp hx
    refine heq ▸ h.valid y ?_
    simp only [hstack, List.mem_append, List.mem_cons] at hy ⊢
    exact hy.imp_right (.imp_right fun hy => (List.mem_filter.mp hy).1)
  · rw [expireModes_map (g := period) (fun _ => rfl) h.wellFormed hstack]
    have hgapless := h.gapless
    rw [hstack] at hgapless
    refine hgapless.filter fun x hx e he => expired_iff htimeout (h.valid x ?_) he
    simp [hstack, hx]

/-! ### The cache -/

/-- What the last lookup found is what a search finds for its time, or its time has been
    reset. -/
def CacheSound (c : TimedContainer) : Prop :=
  c.lastTs = ⟨-1, -1⟩ ∨
    ∃ n, c.lastFound = some n ∧ c.lookup c.lastIgnorePktTimestamp c.lastTs = some n

theorem CacheSound.congr {c c' : TimedContainer} (h : CacheSound c) (hcached : cached c' = cached c)
    (hlookup : ∀ ignore ts n, c.lookup ignore ts = some n → c'.lookup ignore ts = some n) :
    CacheSound c' := by
  simp only [cached, Prod.mk.injEq] at hcached
  obtain ⟨hfound, hts, hignore⟩ := hcached
  rw [CacheSound, hfound, hts, hignore]
  exact h.imp_right fun ⟨n, hn, hl⟩ => ⟨n, hn, hlookup _ _ n hl⟩

/-- Where a lookup is the same as the last one, that has found the mode. -/
theorem CacheSound.lastFound {c : TimedContainer} (h : CacheSound c) {ignore check : Bool}
    {ts : Timespec} {n : Nat} (hts : ts ≠ ⟨-1, -1⟩) (hn : c.lookup ignore ts = some n)
    (hsame : c.sameLookup ignore ts check = true) : c.lastFound = some n := by
  simp only [sameLookup, Bool.and_eq_true, beq_iff_eq] at hsame
  obtain ⟨⟨rfl, -⟩, rfl⟩ := hsame
  obtain hreset | ⟨k, hk, hl⟩ := h
  · exact absurd hreset hts
  · rw [hk, ← hl, hn]

theorem CacheSound.foundMode {c : TimedContainer} (h : CacheSound c) {ignore check : Bool}
    {ts : Timespec} {n k : Nat} (hts : ts ≠ ⟨-1, -1⟩) (hn : c.lookup ignore ts = some n)
    (hk : c.foundMode ignore ts check = some k) : k = n := by
  unfold TimedContainer.foundMode at hk
  split at hk
  · rename_i hs
    rw [Bool.and_eq_true] at hs
    exact Option.some.inj (hk.symm.trans (h.lastFound hts hn hs.1))
  · have hl : c.lookup ignore ts = some k := by simp [lookup, hk]
    exact Option.some.inj (hl.symm.trans hn)

/-- A lookup leaves the stack as it is, or without the modes that have expired. -/
theorem getPauseModeByTime_stack {c : TimedContainer} (hc : CacheSound c) {ignore : Bool}
    {ts : Timespec} {n : Nat} (hts : ts ≠ ⟨-1, -1⟩) (hn : c.lookup ignore ts = some n)
    (check : Bool) (oldTs timeout : Timespec) :
    (c.getPauseModeByTime ignore ts check oldTs timeout).1.pauseModeStack = c.pauseModeStack ∨
      (c.getPauseModeByTime ignore ts check oldTs timeout).1.pauseModeStack =
        (c.expireModes n oldTs timeout).pauseModeStack := by
  unfold getPauseModeByTime
  split
  · exact .inl rfl
  · cases hf : c.foundMode ignore ts check with
    | none => exact .inl rfl
    | some k =>
      obtain rfl := hc.foundMode hts hn hf
      cases check with
      | true => exact .inr rfl
      | false => exact .inl rfl

/-- A lookup gives the mode that a search finds, from the cache or not, and the search finds
    it in the stack that the lookup leaves. -/
theorem getPauseModeByTime_spec {c : TimedContainer} (h : Regular c) (hc : CacheSound c)
    {ignore : Bool} {ts : Timespec} (check : Bool) (oldTs : Timespec) {timeout : Timespec}
    (hts : ts ≠ ⟨-1, -1⟩) (hopens : LookupOpens c ignore ts) (htimeout : timeout.Valid) :
    ∃ n, c.lookup ignore ts = some n ∧
      (c.getPauseModeByTime ignore ts check oldTs timeout).2 = some n ∧
      Regular (c.getPauseModeByTime ignore ts check oldTs timeout).1 ∧
      CacheSound (c.getPauseModeByTime ignore ts check oldTs timeout).1 ∧
      (c.getPauseModeByTime ignore ts check oldTs timeout).1.lookup ignore ts = some n := by
  obtain ⟨n, hn⟩ := h.lookup_isSome hopens
  refine ⟨n, hn, ?_⟩
  unfold getPauseModeByTime
  split
  · rename_i hcache
    rw [usesCache, Bool.and_eq_true] at hcache
    exact ⟨hc.lastFound hts hn hcache.1, h, hc, hn⟩
  · obtain ⟨m, hm, hnode⟩ := lookup_mem hn
    obtain ⟨front, behind, hstack⟩ := List.append_of_mem hm
    have hresult : (c.foundMode ignore ts check).or (c.sawtooth ts) = some n := by
      cases hf : c.foundMode ignore ts check with
      | some k => rw [hc.foundMode hts hn hf, Option.some_or]
      | none =>
        unfold foundMode at hf
        split at hf
        · rename_i hs
          rw [Bool.and_eq_true] at hs
          exact absurd ((hc.lastFound hts hn hs.1).symm.trans hf) (by simp)
        · rwa [lookup, hf] at hn
    -- what is left of the stack still leads to the mode
    have hleft : ∀ c' : TimedContainer,
        c'.pauseModeStack.map view =
            (front ++ m :: behind.filter (!·.expired oldTs timeout)).map view →
        c'.lookup ignore ts = some n := by
      intro c' hview
      have hmem : front.map view ++ view m :: behind.map view = c.pauseModeStack.map view := by
        simp [hstack]
      rw [lookup_eq, ← hmem, ← hnode] at hn
      rw [lookup_eq, hview, List.map_append, List.map_cons, ← hnode]
      refine StackLookup.find_filter (a := view m) ?_ ?_ ?_ hn
      · exact List.map_subset _ List.filter_sublist.subset
      · rw [hmem, List.map_map]
        exact h.wellFormed.nodup
      · rw [hmem]
        exact h.covers hopens
    have hend : ∀ c' : TimedContainer, Regular c' → c'.lookup ignore ts = some n →
        ∀ result, result = some n →
        let c'' : TimedContainer := { c' with
          lastFound := result, lastTs := ts, lastIgnorePktTimestamp := ignore
          lastCheckOldPausemodes := check }
        result = some n ∧ Regular c'' ∧ CacheSound c'' ∧ c''.lookup ignore ts = some n := by
      rintro c' hc' hl result rfl
      exact ⟨rfl, ⟨⟨hc'.wellFormed.nodup, hc'.wellFormed.lt, hc'.wellFormed.isMade⟩,
        hc'.filesPaused, hc'.valid, hc'.gapless⟩, .inr ⟨n, rfl, hl⟩, hl⟩
    simp only
    cases hf : c.foundMode ignore ts check with
    | none =>
      rw [hf] at hresult
      exact hend c h hn _ hresult
    | some k =>
      obtain rfl := hc.foundMode hts hn hf
      cases check with
      | true =>
        simp only [if_true]
        refine hend _ (hnode ▸ h.expire hstack oldTs htimeout) (hleft _ ?_) _ rfl
        exact hnode ▸ expireModes_map (g := view) (fun _ => rfl) h.wellFormed hstack oldTs timeout
      | false =>
        simp only [Bool.false_eq_true, if_false]
        exact hend c h hn _ rfl

/-! ### A call -/

/-- A call can be made without a file of its missing: the file that a write needs opens, a
    mode that is ended has its file and its prologue, and its end is a proper time; a lookup
    is by a time of a packet, and one for a time before all modes finds their files. -/
def FilesOpen (c : TimedContainer) : TimedContainer.Call → Prop
  | .write n io => ∀ m ∈ c.modeAt n, c.isOldest n = true → WriteOpens m io
  | .pause t io | .resume t io =>
    (t.Valid ∧ 1 < t.nanos) ∧ ∀ m ∈ c.pauseModeStack.head?,
      m.file.isSome = true ∧ (m.hasLastPrologue = true ∨ io.prologueOpens = true)
  | .getPauseModeByTime ignore ts _ _ timeout =>
    ts ≠ ⟨-1, -1⟩ ∧ timeout.Valid ∧ LookupOpens c ignore ts

instance (c : TimedContainer) (a : TimedContainer.Call) : Decidable (FilesOpen c a) :=
  match a with
  | .write .. | .pause .. | .resume .. | .getPauseModeByTime .. => by
    unfold FilesOpen
    infer_instance

/-- A mode that is not changed for the lookup. -/
private theorem Regular.replace {c c' : TimedContainer} {pre post : List TimedMode}
    {m m' : TimedMode} (h : Regular c) (hwf : WellFormed c') (hfiles : FilesPaused c')
    (hstack : c.pauseModeStack = pre ++ m :: post)
    (hstack' : c'.pauseModeStack = pre ++ m' :: post) (hrange : range m' = range m) :
    Regular c' := by
  have hmax : m'.maxTime = m.maxTime := congrArg ModeRange.maxTime hrange
  refine ⟨hwf, hfiles, fun x hx => ?_, ?_⟩
  · rw [hstack', List.mem_append, List.mem_cons] at hx
    obtain hx | rfl | hx := hx
    · exact h.valid x (by simp [hstack, hx])
    · exact hmax ▸ h.valid m (by simp [hstack])
    · exact h.valid x (by simp [hstack, hx])
  · have hgapless := h.gapless
    rw [hstack, List.map_append, List.map_cons] at hgapless
    rw [hstack', List.map_append, List.map_cons, period_congr hrange]
    exact hgapless

/-- A mode keeps its range, and the oldest one its file. -/
private theorem CacheSound.replace {c c' : TimedContainer} {pre post : List TimedMode}
    {m m' : TimedMode} (h : CacheSound c) (hcached : cached c' = cached c)
    (hstack : c.pauseModeStack = pre ++ m :: post)
    (hstack' : c'.pauseModeStack = pre ++ m' :: post) (hrange : range m' = range m)
    (hfile : post = [] → m.file.isSome = true → m'.file.isSome = true) : CacheSound c' := by
  refine h.congr hcached fun ignore ts n hn => ?_
  rw [lookup_eq, hstack] at hn
  rw [lookup_eq, hstack']
  refine StackLookup.find_mono ?_ (fun v hv hold v' hv' => ?_) hn
  · simp [view, hrange, ModeView.holds]
  · obtain rfl | ⟨post, x, rfl⟩ := List.eq_nil_or_concat post
    · simp only [List.map_append, List.map_cons, List.map_nil, List.getLast?_concat,
        Option.mem_def, Option.some.injEq] at hv hv'
      subst hv hv'
      simp only [ModeView.older, view, hrange, Bool.and_eq_true] at hold ⊢
      exact ⟨hfile rfl hold.1, hold.2⟩
    · -- another mode is the oldest
      rw [List.concat_eq_append, ← List.cons_append, ← List.append_assoc, List.map_append,
        List.map_singleton, List.getLast?_concat] at hv hv'
      obtain rfl := Option.some.inj (hv.symm.trans hv')
      exact hold

theorem Regular.turned {c c' : TimedContainer} {m : TimedMode} {post : List TimedMode}
    {paused opens : Bool} {t : Timespec} (h : Regular c) (hwf : WellFormed c')
    (hfiles : FilesPaused c') (hstack : c.pauseModeStack = m :: post)
    (ht : t.Valid) (hpos : 1 < t.nanos) (hturned : Turned c c' m post paused t opens) :
    Regular c' := by
  obtain ⟨top, below, hstack', htop, -, hbelow, -⟩ := hturned.stack
  obtain ⟨hvalid, hpred, hrange⟩ := Timespec.Range.period_pred ht hpos m.minTime
  have hptop : period top = ⟨t.pred.nanos + 1, none⟩ := hpred ▸ period_eq htop
  have hpbelow : period below = ⟨m.minTime.nanos, some t.pred.nanos⟩ :=
    (period_eq hbelow).trans hrange
  refine ⟨hwf, hfiles, fun x hx => ?_, ?_⟩
  · rw [hstack', List.mem_cons, List.mem_cons] at hx
    obtain rfl | rfl | hx := hx
    · have hmax : x.maxTime = ⟨0, 0⟩ := congrArg ModeRange.maxTime htop
      rw [hmax]
      decide
    · have hmax : x.maxTime = t.pred := congrArg ModeRange.maxTime hbelow
      rwa [hmax]
    · exact h.valid x (by simp [hstack, hx])
  · have hgapless := h.gapless
    rw [hstack, List.map_cons] at hgapless
    rw [hstack', List.map_cons, List.map_cons, hptop, hpbelow]
    exact hgapless.push t.pred.nanos

theorem Regular.kept {c c' : TimedContainer} {m : TimedMode} {post : List TimedMode}
    (h : Regular c) (hwf : WellFormed c') (hfiles : FilesPaused c')
    (hstack : c.pauseModeStack = m :: post) (hkept : Kept c c' m post) : Regular c' := by
  obtain ⟨m', hstack', hrange, -⟩ := hkept.stack
  exact @Regular.replace c c' [] post m m' h hwf hfiles hstack hstack' hrange

theorem CacheSound.kept {c c' : TimedContainer} {m : TimedMode} {post : List TimedMode}
    (h : CacheSound c) (hstack : c.pauseModeStack = m :: post) (hkept : Kept c c' m post) :
    CacheSound c' := by
  obtain ⟨m', hstack', hrange, hfile⟩ := hkept.stack
  exact @CacheSound.replace c c' [] post m m' h hkept.cached hstack hstack' hrange
    fun _ hsome => hfile ▸ hsome

/-- The proper times of a regular stack. -/
theorem Regular.proper {c : TimedContainer} (h : Regular c) {n : Nat} :
    ∀ m ∈ c.modeAt n, m.maxTime.succ.pred = m.maxTime := by
  intro m hm
  have hvalid := h.valid m (List.mem_of_find?_eq_some hm)
  exact Timespec.pred_succ hvalid.nsec_nonneg hvalid.nsec_lt

theorem step_regular {c c' : TimedContainer} {a : TimedContainer.Call} (h : Regular c) (hc : CacheSound c)
    (hok : FilesOpen c a) (hstep : step c a = some c') : Regular c' ∧ CacheSound c' := by
  have hmoves := @step_moves False False False _ _ _ h.wellFormed hstep False.elim False.elim
    False.elim
  have hwf := Moves.wellFormed hmoves h.wellFormed
  have hfiles := Moves.filesPaused hmoves h.filesPaused
  obtain ⟨top, post, hstack⟩ := List.exists_cons_of_ne_nil h.stack_ne_nil
  cases a with
  | write n io =>
    obtain ⟨r, hr, rfl⟩ := Option.map_eq_some_iff.mp hstep
    obtain ⟨pre, m, m', post, hsplit, rfl, hsplit', hrange, hfile⟩ :=
      write_split h.wellFormed hr h.proper
    have hat : c.modeAt m.node = some m := modeAt_split h.wellFormed.nodup hsplit rfl
    refine ⟨h.replace hwf hfiles hsplit hsplit' hrange,
      hc.replace (cached_write hr) hsplit hsplit' hrange fun hlast _ => hfile ?_⟩
    exact hok m hat ((isOldest_split h.wellFormed.nodup hsplit).mpr hlast)
  | pause t io =>
    obtain ⟨⟨hvalid, hpos⟩, hfile⟩ := hok
    obtain ⟨hsome, hprologue⟩ := hfile top (by simp [hstack])
    obtain ⟨f, hf⟩ := Option.isSome_iff_exists.mp hsome
    obtain ⟨-, hkept⟩ | ⟨-, hturned⟩ :=
      pause_split h.wellFormed h.filesPaused hstack hf hprologue hstep
    · exact ⟨h.kept hwf hfiles hstack hkept, hc.kept hstack hkept⟩
    · exact ⟨h.turned hwf hfiles hstack hvalid hpos hturned, .inl hturned.lastTs⟩
  | resume t io =>
    obtain ⟨⟨hvalid, hpos⟩, hfile⟩ := hok
    obtain ⟨hsome, hprologue⟩ := hfile top (by simp [hstack])
    obtain ⟨f, hf⟩ := Option.isSome_iff_exists.mp hsome
    obtain ⟨-, hkept⟩ | ⟨-, hturned⟩ :=
      resume_split h.wellFormed h.filesPaused hstack hf hprologue hstep
    · exact ⟨h.kept hwf hfiles hstack hkept, hc.kept hstack hkept⟩
    · exact ⟨h.turned hwf hfiles hstack hvalid hpos hturned, .inl hturned.lastTs⟩
  | getPauseModeByTime ignore ts check oldTs timeout =>
    cases hstep
    obtain ⟨hts, htimeout, hopens⟩ := hok
    obtain ⟨-, -, -, hregular, hsound, -⟩ :=
      getPauseModeByTime_spec h hc check oldTs hts hopens htimeout
    exact ⟨hregular, hsound⟩

end Adara.Spec.TimedContainer
