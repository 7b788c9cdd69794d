import Adara.Spec.PVLog
import Adara.ForStd.Runs
import Mathlib.Data.List.Forall2

/-! # Statistics of the written logs

At the end of a run duplicates are merged and every log gets its statistics.  These are of the
numbers in the value dataset (`DescribesLog`) if nothing was purged from a variable that had
been written to, its times were in order when they were normalised, its values are all of one
length, and its duplicates hold nothing that it has not (`Covers`).

Values that are taken over from a duplicate are written, but are never pushed to the
statistics. -/

namespace Adara.Spec.PVStatistics

open Adara.Native Adara.Native.PVInfo Adara.Spec.PVLog

variable {D : Type} {startTime t : Nat} {p q o : PVInfo D} {orig rest : List (PVInfo D)}

/-- Minimum, maximum, average and error were written of the numbers in the value dataset. -/
def DescribesLog (p : PVInfo D) : Prop :=
  ∀ stats, p.statsWritten = some stats → stats.Perm p.written

theorem describesLog_of_none (hp : p.statsWritten = none)
    (hq : q.statsWritten = p.statsWritten) : DescribesLog q := by
  intro stats hstats
  rw [hq, hp] at hstats
  cases hstats

/-! ### New variables -/

theorem findDuplicate_getElem? (defn : PVInfoBase) {pvs : List (PVInfo D)}
    {connection : List Char} {history : List (List Char)} {i : Nat}
    (hq : (findDuplicate defn pvs connection history).1[i]? = some q) :
    ∃ p ∈ pvs[i]?, ∃ b, q = { p with duplicate := b } := by
  induction pvs generalizing connection history i with
  | nil => simp [findDuplicate] at hq
  | cons p pvs ih =>
    rw [findDuplicate] at hq
    split at hq
    · cases i with
      | zero =>
        obtain rfl := Option.some.inj hq
        exact ⟨p, rfl, true, rfl⟩
      | succ i => exact ⟨q, hq, q.duplicate, rfl⟩
    · split at hq
      cases i with
      | zero =>
        obtain rfl := Option.some.inj hq
        exact ⟨p, rfl, p.duplicate, rfl⟩
      | succ i => exact ih hq

/-- A new variable comes last, and may mark another as its duplicate. -/
theorem makePVInfo_getElem? {s : PVStream D} {defn : PVInfoBase} {i : Nat}
    (hq : q ∈ (s.makePVInfo defn).pvsList[i]?) :
    (∃ p ∈ s.pvsList[i]?, ∃ b, q = { p with duplicate := b }) ∨ ∃ b, q = make defn b := by
  obtain ⟨history, hlist⟩ : ∃ history, (s.makePVInfo defn).pvsList =
      (findDuplicate defn s.pvsList defn.connection history).1 ++
        [make defn (findDuplicate defn s.pvsList defn.connection history).2.1] := ⟨_, rfl⟩
  rw [hlist, Option.mem_def, List.getElem?_append] at hq
  split at hq
  · exact .inl (findDuplicate_getElem? defn hq)
  · exact .inr ⟨_, List.mem_singleton.mp (List.mem_of_getElem? hq)⟩

/-! ### Duplicates -/

/-- A variable of the list is as it was, or taken over by another and ignored. -/
def Touched (o p : PVInfo D) : Prop :=
  p = o ∨ p.ignore = true ∧ p.statsWritten = o.statsWritten

/-- What becomes of a variable when duplicates are merged: it is taken over and ignored, or at
    most normalised. -/
def Merged (t : Nat) (o p : PVInfo D) : Prop :=
  p.ignore = true ∧ p.statsWritten = o.statsWritten ∨
    ∃ b, p = { o with duplicate := b } ∨ p = { o.normalize t with duplicate := b }

theorem Touched.merged (h : Touched o p) : Merged t o p := by
  rcases h with rfl | h
  · exact .inr ⟨_, .inl rfl⟩
  · exact .inl h

theorem normalize_normalize (t : Nat) (p : PVInfo D) :
    (p.normalize t).normalize t = p.normalize t := by
  by_cases h : p.hasNonNormalized = true
  · simp [PVInfo.normalize, h, normalizeTimestamps]
  · simp [PVInfo.normalize, h]

theorem sameDefinitionPVConn_ignore {p q : PVInfoBase}
    (h : p.sameDefinitionPVConn q false = true) : p.ignore = q.ignore := by
  simp only [PVInfoBase.sameDefinitionPVConn, Bool.and_eq_true, beq_iff_eq] at h
  exact h.2

section Duplicates

variable [PVDouble D]

/-- Every entry of the duplicate is met, in order, by one of ours with its time and value. -/
inductive Covers : List (PVEntry D) → List (PVEntry D) → Prop
  | done (buffer : List (PVEntry D)) : Covers buffer []
  | skip {e d : PVEntry D} {buffer dup : List (PVEntry D)} (htime : e.time < d.time)
      (h : Covers buffer (d :: dup)) : Covers (e :: buffer) (d :: dup)
  | both {e d : PVEntry D} {buffer dup : List (PVEntry D)} (htime : e.time = d.time)
      (hvalue : e.value.valuesEqual d.value = true) (h : Covers buffer dup) :
      Covers (e :: buffer) (d :: dup)

theorem subsumeValues_of_covers {buffer dup : List (PVEntry D)} (h : Covers buffer dup) :
    subsumeValues buffer dup = buffer := by
  induction h with
  | done buffer => rw [subsumeValues]
  | skip htime _ ih => rw [subsumeValues, if_pos htime, ih]
  | both htime hvalue _ ih =>
    rw [subsumeValues, if_neg (by omega), if_neg (by omega), if_pos hvalue, ih]

theorem subsumeAll_touched (t : Nat) (p : PVInfo D) (h : List.Forall₂ Touched orig rest) :
    List.Forall₂ Touched orig (subsumeAll t p rest).2 := by
  induction h generalizing p with
  | nil => exact .nil
  | cons hd _ ih =>
    rw [subsumeAll]
    split
    · refine .cons (.inr ⟨rfl, ?_⟩) (ih _)
      rcases hd with rfl | ⟨-, hstats⟩
      · exact (normalize_same t _).statsWritten
      · exact (normalize_same t _).statsWritten.trans hstats
    · exact .cons hd (ih _)

/-- A variable that covers its duplicates is at most normalised. -/
theorem subsumeAll_of_covers (hp : p.ignore = false) (h : List.Forall₂ Touched orig rest)
    (hcovers : ∀ d ∈ orig, p.sameDefinitionPVConn d.toPVInfoBase false = true →
      Covers (p.normalize t).buffer (d.normalize t).buffer) :
    (subsumeAll t p rest).1 = p ∨ (subsumeAll t p rest).1 = p.normalize t := by
  induction h generalizing p with
  | nil => exact .inl rfl
  | @cons o d os ds hd _ ih =>
    obtain ⟨hhead, htail⟩ := List.forall_mem_cons.mp hcovers
    rw [subsumeAll]
    split
    · next hsame =>
      have hd : d = o := by
        rcases hd with rfl | ⟨hignore, -⟩
        · rfl
        · rw [← sameDefinitionPVConn_ignore hsame, hp] at hignore
          exact Bool.noConfusion hignore
      subst hd
      have hkept : { p.normalize t with
          buffer := subsumeValues (p.normalize t).buffer (d.normalize t).buffer } =
            p.normalize t := by
        rw [subsumeValues_of_covers (hhead hsame)]
      have hbase := (normalize_same t p).base
      have ih := ih (p := p.normalize t) (by rw [hbase]; exact hp) (by
        rw [normalize_normalize, hbase]
        exact htail)
      rw [normalize_normalize, or_self] at ih
      simp only [hkept]
      exact .inr ih
    · exact ih hp htail

/-- A duplicate that is to be written covers those behind it that match. -/
def CoversAll (t : Nat) (p : PVInfo D) (behind : List (PVInfo D)) : Prop :=
  p.duplicate = true → ∀ d ∈ behind, p.sameDefinitionPVConn d.toPVInfoBase false = true →
    Covers (p.normalize t).buffer (d.normalize t).buffer

theorem collapse_spec {ahead behind : List (PVInfo D)} (hcovers : CoversAll t o behind)
    {pvs : List (PVInfo D)} (h : List.Forall₂ Touched (ahead ++ o :: behind) pvs) (n : Nat) :
    ∃ q, (collapseDuplicatePVs t n pvs)[ahead.length]? = some q ∧ Merged t o q := by
  induction ahead generalizing pvs n with
  | nil =>
    obtain _ | ⟨hp, hrest⟩ := h
    cases n with
    | zero => exact ⟨_, rfl, hp.merged⟩
    | succ n =>
      rw [collapseDuplicatePVs]
      split
      · next hduplicate =>
        refine ⟨_, rfl, ?_⟩
        rcases hp with rfl | ⟨hignore, -⟩
        · have hmain := subsumeAll_of_covers (by simpa using hduplicate.2) hrest
            (hcovers hduplicate.1)
          rcases hmain with hmain | hmain
          · exact .inr ⟨false, .inl (by rw [hmain])⟩
          · exact .inr ⟨false, .inr (by rw [hmain])⟩
        · exact absurd hignore hduplicate.2
      · exact ⟨_, rfl, hp.merged⟩
  | cons a ahead ih =>
    obtain _ | ⟨-, hrest⟩ := h
    cases n with
    | zero => simpa [collapseDuplicatePVs] using ih hrest 0
    | succ n =>
      rw [collapseDuplicatePVs]
      split
      · exact ih (subsumeAll_touched t _ hrest) n
      · exact ih hrest n

/-! ### The final flush -/

variable {cfg : PVConfig} {initialized : Bool}

/-- What the last flush can do about the statistics: write none, or write them with the rest of
    the values. -/
theorem flushBuffers_final (cfg : PVConfig) (initialized : Bool) (t : Nat) (p : PVInfo D) :
    let q := (p.flushBuffers cfg initialized t true).2
    let r := p.normalize t
    q.statsWritten = p.statsWritten ∨ cfg.genNexus = true ∧ r.ignore = false ∧
      q = { r.flushValueBuffers.writeStatistics with buffer := [] } := by
  have hsame := (normalize_same t p).statsWritten
  simp only [flushBuffers, not_true_eq_false, false_and, if_false, if_true]
  split
  · exact .inl rfl
  · split
    · exact .inl hsame
    · split
      · next hrecorded =>
        split
        · exact .inl hsame
        · split
          · exact .inl hsame
          · exact .inr ⟨hrecorded.1, by simpa using hrecorded.2, rfl⟩
      · exact .inl hsame

theorem flushBuffers_describesLog (hnone : p.statsWritten = none) (hfinal : p.finalized = false)
    (h : Recorded cfg p → Normal (p.normalize t) ∧ Even (p.normalize t).buffer) :
    DescribesLog (p.flushBuffers cfg initialized t true).2 := by
  have hsame := (normalize_same t p).trans (flushValueBuffers_same _)
  rcases flushBuffers_final cfg initialized t p with hq | ⟨hgen, hignore, hq⟩
  · exact describesLog_of_none hnone hq
  · rw [hq, writeStatistics, if_neg (by rw [hsame.finalized, hfinal]; decide)]
    split
    · next hwritten =>
      have htype : (p.normalize t).type ≠ .string := by
        rw [(normalize_same t p).base, ← hsame.base]
        exact hwritten.2
      have hrec : Recorded cfg (p.normalize t) := ⟨hgen, hignore, htype⟩
      obtain ⟨hnormal, heven⟩ := h ((Recorded.same (normalize_same t p)).mp hrec)
      rintro stats ⟨⟩
      rw [flushValueBuffers_stats]
      exact (flushValueBuffers_spec hnormal heven htype).1
    · exact describesLog_of_none hnone hsame.statsWritten

/-! ### Runs -/

/-- At the end, what is written of a variable has its times in order and its values of one
    length, and its duplicates add nothing. -/
structure FinalKept (t : Nat) (p : PVInfo D) (behind : List (PVInfo D)) : Prop where
  inOrder : InOrder t p.absTimes
  even : Even (p.normalize t).buffer
  covers : CoversAll t p behind

/-- An event does no harm to the statistics of the variable at a place of the list. -/
def EventKept (i : Nat) (s : PVStream D) : PVEvent D → Prop
  | .update index value ts _ _ =>
    index = i → ∀ p ∈ s.pvsList[i]?, UpdateKept s.startTime value ts p
  | _ => True

instance (startTime : Nat) (value : PVValue D) (ts : Nat) (p : PVInfo D) :
    Decidable (UpdateKept startTime value ts p) :=
  decidable_of_iff ((¬ p.Repeats value ts → p.Superseded startTime ts → p.curSize = 0) ∧
      (startTime ≠ 0 → InOrder startTime p.absTimes))
    ⟨fun h => ⟨h.1, h.2⟩, fun h => ⟨h.unwritten, h.inOrder⟩⟩

instance (i : Nat) (s : PVStream D) : (e : PVEvent D) → Decidable (EventKept i s e)
  | .update index value ts _ _ => inferInstanceAs (Decidable (index = i →
      ∀ p ∈ s.pvsList[i]?, UpdateKept s.startTime value ts p))
  | .makePVInfo _ | .pulse _ => instDecidableTrue

/-- The invariant of the variable at a place of the list. -/
def InvAt (cfg : PVConfig) (i : Nat) (s : PVStream D) : Prop :=
  ∀ p ∈ s.pvsList[i]?, Inv cfg s.startTime p

theorem step_inv {i : Nat} {s s' : PVStream D} {e : PVEvent D} (h : InvAt cfg i s)
    (hkept : EventKept i s e) (hs : PVStream.step cfg s e = some s') : InvAt cfg i s' := by
  cases e with
  | makePVInfo defn =>
    obtain rfl := Option.some.inj hs
    intro q hq
    rcases makePVInfo_getElem? hq with ⟨p, hp, b, rfl⟩ | ⟨b, rfl⟩
    · exact (h p hp).withDuplicate b
    · exact inv_make cfg _ defn b
  | pulse timestamp =>
    obtain rfl := Option.some.inj hs
    rw [PVStream.pulse]
    split
    · next h0 =>
      intro p hp
      exact (h0 ▸ h p hp).start timestamp
    · exact h
  | update index value ts ready initialized =>
    rw [PVStream.step] at hs
    simp only [Option.bind_eq_bind, Option.bind_eq_some_iff] at hs
    obtain ⟨p, hp, q, hq, hs⟩ := hs
    obtain rfl := Option.some.inj hs
    intro r hr
    by_cases hindex : index = i
    · have hlt : index < s.pvsList.length := (List.getElem?_eq_some_iff.mp hp).1
      rw [← hindex, Option.mem_def, List.getElem?_set_self hlt] at hr
      obtain rfl := Option.some.inj hr
      exact (pvValueUpdate_inv (h p (hindex ▸ hp)) (hkept hindex p (hindex ▸ hp)) hq).1
    · rw [List.getElem?_set_ne hindex] at hr
      exact h r hr

theorem Merged.describesLog {behind : List (PVInfo D)} (h : Merged t p q)
    (hinv : Inv cfg startTime p) (hfinal : FinalKept t p behind) :
    DescribesLog (q.flushBuffers cfg initialized t true).2 := by
  have hnormal : Recorded cfg p → Normal (p.normalize t) := by
    intro hrec
    obtain ⟨pre, post, hsplit, hcounted, -⟩ := hinv.holds hrec
    exact normalize_normal hsplit hcounted hfinal.inOrder
  have hnormalize : ∀ (r : PVInfo D) (b : Bool),
      ({ r with duplicate := b } : PVInfo D).normalize t = { r.normalize t with duplicate := b } := by
    intro r b
    rw [PVInfo.normalize, PVInfo.normalize]
    split <;> rfl
  have hsame := normalize_same t p
  rcases h with ⟨hignore, hstats⟩ | ⟨b, rfl | rfl⟩
  · rcases flushBuffers_final cfg initialized t q with hq | ⟨-, hrecorded, -⟩
    · exact describesLog_of_none (hstats.trans hinv.statsWritten) hq
    · rw [(normalize_same t q).base, hignore] at hrecorded
      cases hrecorded
  · apply flushBuffers_describesLog (p := { p with duplicate := b }) hinv.statsWritten
      hinv.finalized
    intro hrec
    rw [hnormalize]
    exact ⟨(hnormal ⟨hrec.genNexus, hrec.ignore, hrec.type⟩).withDuplicate b, hfinal.even⟩
  · apply flushBuffers_describesLog (p := { p.normalize t with duplicate := b })
      (hsame.statsWritten.trans hinv.statsWritten) (hsame.finalized.trans hinv.finalized)
    intro hrec
    rw [hnormalize, normalize_normalize]
    have hrec : Recorded cfg (p.normalize t) := ⟨hrec.genNexus, hrec.ignore, hrec.type⟩
    exact ⟨(hnormal ((Recorded.same hsame).mp hrec)).withDuplicate b, hfinal.even⟩

/-- The statistics of a variable describe its log, if no event of the run and nothing at its end
    does harm to them. -/
theorem statistics_describe_log (cfg : PVConfig) (defaultStart : Nat) (initialized : Nat → Bool)
    {events : List (PVEvent D)} {s : PVStream D} {i : Nat}
    (hrun : Runs.run (PVStream.step cfg) .init events = some s)
    (hkept : Runs.along (PVStream.step cfg) (EventKept i) .init events)
    (hp : s.pvsList[i]? = some p)
    (hfinal : FinalKept (s.runStartTime.getD defaultStart) p (s.pvsList.drop (i + 1))) :
    ∃ q, (s.finalize cfg defaultStart initialized)[i]? = some q ∧ DescribesLog q := by
  have hinit : InvAt cfg i (.init : PVStream D) := by simp [InvAt, PVStream.init]
  have hinv : Inv cfg s.startTime p :=
    Runs.invariant_along (fun _ _ _ => step_inv) hinit hkept hrun p hp
  have hlist : s.pvsList = s.pvsList.take i ++ p :: s.pvsList.drop (i + 1) := by
    obtain ⟨hlt, hget⟩ := List.getElem?_eq_some_iff.mp hp
    rw [← hget, ← List.drop_eq_getElem_cons hlt, List.take_append_drop]
  have hlength : (s.pvsList.take i).length = i := by
    exact List.length_take_of_le (Nat.le_of_lt (List.getElem?_eq_some_iff.mp hp).1)
  have htouched : List.Forall₂ Touched (s.pvsList.take i ++ p :: s.pvsList.drop (i + 1))
      s.pvsList := by
    rw [← hlist]
    exact List.forall₂_same.mpr fun _ _ => .inl rfl
  obtain ⟨q, hq, hmerged⟩ := collapse_spec hfinal.covers htouched s.pvsList.length
  rw [hlength] at hq
  refine ⟨(q.flushBuffers cfg (initialized i) (s.runStartTime.getD defaultStart) true).2,
    ?_, hmerged.describesLog hinv hfinal⟩
  rw [PVStream.finalize, List.getElem?_mapIdx, hq]
  rfl

end Duplicates

/-! ### Two aliases -/

/-- Whole numbers, for values that are not floating point numbers. -/
instance : PVDouble Nat where
  zero := 0
  approximatelyEqual a b := a == b

/-- A variable with the given name, for one connection. -/
def aliasOf (name : Char) (pvId : UInt32) : PVInfoBase where
  deviceName := ['d']
  name := [name]
  connection := ['c']
  deviceId := 1
  pvId := pvId
  type := .uint
  enumType := none
  units := []
  ignore := false

/-- Two aliases of one variable; each gets an update, the second as given. -/
def aliasEvents (value : UInt32) (ts : Nat) : List (PVEvent Nat) :=
  [.makePVInfo (aliasOf 'a' 1), .makePVInfo (aliasOf 'b' 2), .pulse 1000,
    .update 0 (.uint32 5) 2000 true true, .update 1 (.uint32 value) ts true true]

def aliasConfig : PVConfig := ⟨true, 100⟩

/-- The variables after these events. -/
def aliasState (value : UInt32) (ts : Nat) : PVStream Nat :=
  (Runs.run (PVStream.step aliasConfig) .init (aliasEvents value ts)).getD .init

/-- Both aliases get the same update, which is met in the log of the first. -/
theorem statistics_describe_log_aliases :
    ∃ q, ((aliasState 5 2000).finalize aliasConfig 0 fun _ => true)[0]? = some q ∧
      DescribesLog q := by
  have hrun : Runs.run (PVStream.step aliasConfig) .init (aliasEvents 5 2000) =
    some (aliasState 5 2000) := by decide +kernel
  have hkept : Runs.along (PVStream.step aliasConfig) (EventKept 0) .init
      (aliasEvents 5 2000) := by decide +kernel
  have hstart : (aliasState 5 2000).runStartTime.getD 0 = 1000 := by decide +kernel
  have hlogs : (aliasState 5 2000).pvsList.map (fun p => (p.absTimes, (p.normalize 1000).buffer)) =
      [([], [⟨.uint32 5, 1000⟩]), ([], [⟨.uint32 5, 1000⟩])] := by decide +kernel
  obtain ⟨p, ps, hlist, hp, hps⟩ := List.map_eq_cons_iff.mp hlogs
  obtain ⟨d, ds, rfl, hd, hds⟩ := List.map_eq_cons_iff.mp hps
  obtain rfl := List.map_eq_nil_iff.mp hds
  rw [Prod.mk.injEq] at hp hd
  refine statistics_describe_log aliasConfig 0 (fun _ => true) hrun hkept
    (by rw [hlist]; rfl) ?_
  rw [hstart, hlist]
  refine ⟨by rw [hp.1]; exact .nil, ⟨1, Nat.one_pos, by simp [hp.2, PVValue.size]⟩, ?_⟩
  intro _ x hx _
  obtain rfl := List.mem_singleton.mp hx
  rw [hp.2, hd.2]
  exact .both rfl (by decide) (.done [])

/-- The second alias has a value that the first has not. -/
theorem not_statistics_describe_log :
    ¬ ∀ (events : List (PVEvent Nat)) (s : PVStream Nat) (i : Nat) (q : PVInfo Nat),
      Runs.run (PVStream.step aliasConfig) .init events = some s →
      (s.finalize aliasConfig 0 fun _ => true)[i]? = some q → DescribesLog q := by
  intro h
  have hrun : Runs.run (PVStream.step aliasConfig) .init (aliasEvents 7 3000) =
    some (aliasState 7 3000) := by decide +kernel
  have hlog : ((aliasState 7 3000).finalize aliasConfig 0 fun _ => true)[0]?.any (fun q =>
      q.statsWritten = some [.uint32 5] ∧ q.written = [.uint32 5, .uint32 7]) = true := by
    decide +kernel
  obtain ⟨q, hq, hwritten⟩ := (Option.any_eq_true _ _).mp hlog
  obtain ⟨hstats, hcells⟩ := of_decide_eq_true hwritten
  have hperm := h _ _ 0 q hrun hq _ hstats
  rw [hcells] at hperm
  exact absurd hperm.length_eq (by decide)

end Adara.Spec.PVStatistics
