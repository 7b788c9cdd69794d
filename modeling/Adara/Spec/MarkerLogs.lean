import Adara.Native.MarkerLogs
import Mathlib.Data.List.Induction

/-! # Repeated scan and comment markers

A marker is a repetition if it has the time stamp, the scan state and the comment of the marker
of its kind before it.  The translator instead compares it with what it inserted last, and the
two are the same only while no marker changes what is remembered of another one: a scan marker
without a comment leaves the comment of an older one behind, and the comment of a scan marker
takes the place of the comment marker before it. -/

namespace Adara.Spec.MarkerLogs

open Native.MarkerLogs

variable {T : Type}

/-! ### Markers and their kinds -/

/-- What tells a marker from the others of its kind. -/
structure Mark where
  ts : UInt64
  state : UInt32
  text : List Char
deriving DecidableEq, Repr

/-- What a call marks a scan with.  The scan log has a zero for every stop. -/
def scanMark : Call T → Option Mark
  | .scanStart _ ts scanIndex comment => some ⟨ts, scanIndex, comment⟩
  | .scanStop _ ts _ comment => some ⟨ts, 0, comment⟩
  | .comment .. => none

/-- What a call comments. -/
def commentMark : Call T → Option Mark
  | .comment _ ts comment => some ⟨ts, 0, comment⟩
  | _ => none

/-- The most recent call of a kind. -/
def latest (kind : Call T → Option Mark) (cs : List (Call T)) : Option (Call T) :=
  (cs.filter fun c => (kind c).isSome).getLast?

/-- The most recent marker of a kind. -/
def latestMark (kind : Call T → Option Mark) (cs : List (Call T)) : Option Mark :=
  (latest kind cs).bind kind

theorem latest_concat (kind : Call T → Option Mark) (cs : List (Call T)) (c : Call T) :
    latest kind (cs ++ [c]) = if (kind c).isSome then some c else latest kind cs := by
  by_cases h : (kind c).isSome <;> simp [latest, List.filter_append, h]

theorem latestMark_concat (kind : Call T → Option Mark) (cs : List (Call T)) (c : Call T) :
    latestMark kind (cs ++ [c]) = (kind c).or (latestMark kind cs) := by
  rw [latestMark, latest_concat]
  cases h : kind c with
  | none => simp [latestMark]
  | some m => simp [h]

/-- The most recent call of a kind is of it. -/
theorem latestMark_of_latest {kind : Call T → Option Mark} {cs : List (Call T)} {c : Call T}
    (h : c ∈ latest kind cs) : ∃ m, kind c = some m ∧ latestMark kind cs = some m := by
  have hmem := (List.mem_filter.mp (List.mem_of_getLast? h)).2
  obtain ⟨m, hm⟩ := Option.isSome_iff_exists.mp hmem
  exact ⟨m, hm, by rw [latestMark, Option.mem_def.mp h, Option.bind_some, hm]⟩

theorem commentMark_state {c : Call T} {m : Mark} (h : commentMark c = some m) : m.state = 0 := by
  cases c <;> cases h
  rfl

/-- A call is a scan marker or a comment. -/
theorem mark_cases (c : Call T) :
    (∃ m, scanMark c = some m ∧ commentMark c = none) ∨
      ∃ m, scanMark c = none ∧ commentMark c = some m := by
  cases c with
  | scanStart => exact .inl ⟨_, rfl, rfl⟩
  | scanStop => exact .inl ⟨_, rfl, rfl⟩
  | comment => exact .inr ⟨_, rfl, rfl⟩

/-! ### One call -/

/-- An entry is one more. -/
theorem multimapInsert_ne {V : Type} (e : Entry T V) (entries : List (Entry T V)) :
    multimapInsert e entries ≠ entries := by
  intro h
  have hlen := List.orderedInsert_length (fun a b : Entry T V => a.ts < b.ts) entries e
  rw [multimapInsert] at h
  rw [h] at hlen
  omega

/-- The two multimaps, and what new markers are compared with, are the same. -/
structure SameLogs (s t : Logs T) : Prop where
  scans : t.scanMultimap = s.scanMultimap
  lastScan : t.lastScan = s.lastScan
  lastScanComment : t.lastScanComment = s.lastScanComment
  comments : t.commentMultimap = s.commentMultimap
  lastComment : t.lastComment = s.lastComment

/-- The comment was inserted last. -/
def IsLastComment (s : Logs T) (ts : UInt64) (text : List Char) : Prop :=
  ∃ e ∈ s.lastComment, e.ts = ts ∧ e.value = text

/-- The scan marker is what is remembered of the scan markers. -/
def IsLastScan (s : Logs T) (m : Mark) : Prop :=
  (∃ e ∈ s.lastScan, e.ts = m.ts ∧ e.value = m.state) ∧ s.lastScanComment = m.text

/-- The test of `markerComment`. -/
theorem any_lastComment (s : Logs T) (ts : UInt64) (text : List Char) :
    (s.lastComment.any fun last => ts = last.ts ∧ last.value = text) = true ↔
      IsLastComment s ts text := by
  cases h : s.lastComment with
  | none => simp [IsLastComment, h]
  | some last => simp [IsLastComment, h, eq_comm (a := ts)]

/-- The test of `markerScanStart` and `markerScanStop`. -/
theorem any_lastScan (s : Logs T) (m : Mark) :
    (s.lastScan.any fun last => m.ts = last.ts ∧ s.lastScanComment = m.text ∧
      ¬stateChanged s.lastScan m.state) = true ↔ IsLastScan s m := by
  cases h : s.lastScan with
  | none => simp [IsLastScan, h]
  | some last =>
    simp only [IsLastScan, stateChanged, h, Option.any_some, Option.mem_some_iff, exists_eq_left',
      bne_iff_ne, ne_eq, not_not, decide_eq_true_eq, and_assoc, eq_comm (a := m.ts)]
    exact and_congr_right fun _ => and_comm

theorem IsLastScan.unique {s : Logs T} {m p : Mark} (hm : IsLastScan s m) (hp : IsLastScan s p) :
    p = m := by
  obtain ⟨⟨e, he, hts, hstate⟩, htext⟩ := hm
  obtain ⟨⟨e', he', hts', hstate'⟩, htext'⟩ := hp
  obtain rfl : e = e' := Option.mem_unique he he'
  cases m
  cases p
  simp_all

theorem IsLastComment.unique {s : Logs T} {ts ts' : UInt64} {text text' : List Char}
    (h : IsLastComment s ts text) (h' : IsLastComment s ts' text') : ts' = ts ∧ text' = text := by
  obtain ⟨e, he, rfl, rfl⟩ := h
  obtain ⟨e', he', rfl, rfl⟩ := h'
  obtain rfl : e = e' := Option.mem_unique he he'
  exact ⟨rfl, rfl⟩

/-- What was inserted last is in the log. -/
def LastEntered (s : Logs T) : Prop := ∀ e ∈ s.lastComment, e ∈ s.commentMultimap

theorem SameLogs.lastEntered {s t : Logs T} (h : SameLogs s t) (hs : LastEntered s) :
    LastEntered t := by
  intro e he
  rw [h.lastComment] at he
  rw [h.comments]
  exact hs e he

variable [Zero T] [LT T] [DecidableLT T]

theorem markerComment_same {s : Logs T} {ts : UInt64} {text : List Char} (time : T)
    (h : IsLastComment s ts text ∨ text = []) : SameLogs s (markerComment s time ts text) := by
  rcases h with h | rfl
  · rw [← any_lastComment] at h
    constructor <;> simp only [markerComment, h, ↓reduceIte]
  · constructor <;> (simp only [markerComment, ↓reduceIte]; split <;> rfl)

theorem markerComment_new {s : Logs T} {ts : UInt64} {text : List Char} (time : T)
    (h : ¬IsLastComment s ts text) (htext : text ≠ []) :
    (markerComment s time ts text).commentMultimap = multimapInsert ⟨ts, time, text⟩ s.commentMultimap ∧
      (markerComment s time ts text).lastComment = some ⟨ts, time, text⟩ := by
  rw [← any_lastComment] at h
  simp only [markerComment, h, htext, ↓reduceIte, Bool.false_eq_true, and_self]

/-- The scan members are not the business of a comment. -/
theorem markerComment_scan (s : Logs T) (time : T) (ts : UInt64) (text : List Char) :
    (markerComment s time ts text).scanMultimap = s.scanMultimap ∧
      (markerComment s time ts text).lastScan = s.lastScan ∧
      (markerComment s time ts text).lastScanComment = s.lastScanComment := by
  by_cases h : IsLastComment s ts text ∨ text = []
  · have hsame := markerComment_same time h
    exact ⟨hsame.scans, hsame.lastScan, hsame.lastScanComment⟩
  · obtain ⟨hlast, htext⟩ := not_or.mp h
    rw [← any_lastComment] at hlast
    simp only [markerComment, hlast, htext, ↓reduceIte, Bool.false_eq_true, and_self]

/-- A comment with a text is the last one afterwards. -/
theorem markerComment_last (s : Logs T) (time : T) (ts : UInt64) {text : List Char}
    (htext : text ≠ []) : IsLastComment (markerComment s time ts text) ts text := by
  by_cases h : IsLastComment s ts text
  · have hsame := markerComment_same time (Or.inl h)
    rw [IsLastComment, hsame.lastComment]
    exact h
  · exact ⟨_, (markerComment_new time h htext).2, rfl, rfl⟩

theorem markerScan_same {s : Logs T} {m : Mark} (time : T) (h : IsLastScan s m) :
    SameLogs s (markerScan s time m.ts m.state m.text) := by
  rw [← any_lastScan] at h
  constructor <;> simp only [markerScan, h, ↓reduceIte]

/-- A new scan marker is remembered, except that one without a comment leaves the comment of an
    older one. -/
theorem markerScan_new {s : Logs T} {m : Mark} (time : T) (h : ¬IsLastScan s m) :
    let t := markerScan s time m.ts m.state m.text
    t.scanMultimap = multimapInsert ⟨m.ts, time, m.state⟩ s.scanMultimap ∧
      t.lastScan = some ⟨m.ts, time, m.state⟩ ∧
      t.lastScanComment = if m.text = [] then s.lastScanComment else m.text := by
  rw [← any_lastScan] at h
  by_cases htext : m.text = []
  · rw [htext] at h
    simp only [markerScan, h, htext, ↓reduceIte, Bool.false_eq_true, and_self]
  · simp only [markerScan, h, htext, ↓reduceIte, Bool.false_eq_true]
    exact markerComment_scan _ time m.ts m.text

/-- The comment log after a new scan marker is that after its comment. -/
theorem markerScan_comment {s : Logs T} {m : Mark} (time : T) (h : ¬IsLastScan s m) :
    let t := markerScan s time m.ts m.state m.text
    (m.text = [] → t.commentMultimap = s.commentMultimap ∧ t.lastComment = s.lastComment) ∧
      (m.text ≠ [] → ∃ u, u.commentMultimap = s.commentMultimap ∧ u.lastComment = s.lastComment ∧
        t = markerComment u time m.ts m.text) := by
  rw [← any_lastScan] at h
  constructor
  · intro htext
    rw [htext] at h
    simp only [markerScan, h, htext, ↓reduceIte, Bool.false_eq_true, and_self]
  · intro htext
    simp only [markerScan, h, htext, ↓reduceIte, Bool.false_eq_true]
    exact ⟨_, by rfl, by rfl, rfl⟩

theorem markerComment_lastEntered {s : Logs T} (hs : LastEntered s) (time : T) (ts : UInt64)
    (text : List Char) : LastEntered (markerComment s time ts text) := by
  by_cases h : IsLastComment s ts text ∨ text = []
  · exact (markerComment_same time h).lastEntered hs
  · obtain ⟨hlast, htext⟩ := not_or.mp h
    obtain ⟨hlog, hnew⟩ := markerComment_new time hlast htext
    intro e he
    rw [hnew] at he
    cases he
    rw [hlog]
    exact (List.mem_orderedInsert _).mpr (.inl rfl)

theorem markerScan_lastEntered {s : Logs T} (hs : LastEntered s) (time : T) (m : Mark) :
    LastEntered (markerScan s time m.ts m.state m.text) := by
  by_cases h : IsLastScan s m
  · exact (markerScan_same time h).lastEntered hs
  · by_cases htext : m.text = []
    · obtain ⟨hlog, hlast⟩ := (markerScan_comment time h).1 htext
      intro e he
      rw [hlast] at he
      rw [hlog]
      exact hs e he
    · obtain ⟨u, hlog, hlast, hu⟩ := (markerScan_comment time h).2 htext
      rw [hu]
      refine markerComment_lastEntered ?_ time m.ts m.text
      intro e he
      rw [hlast] at he
      rw [hlog]
      exact hs e he

/-- The comment of a new scan marker was inserted last, then. -/
theorem markerScan_last {s : Logs T} {m : Mark} (time : T) (h : ¬IsLastScan s m)
    (htext : m.text ≠ []) :
    IsLastComment (markerScan s time m.ts m.state m.text) m.ts m.text := by
  obtain ⟨u, -, -, hu⟩ := (markerScan_comment time h).2 htext
  rw [hu]
  exact markerComment_last u time m.ts htext

theorem call_scan {c : Call T} {m : Mark} (s : Logs T) (h : scanMark c = some m) :
    call s c = markerScan s c.time m.ts m.state m.text := by
  cases c <;> cases h <;> rfl

theorem call_comment {c : Call T} {m : Mark} (s : Logs T) (h : commentMark c = some m) :
    call s c = markerComment s c.time m.ts m.text := by
  cases c <;> cases h
  rfl

theorem calls_concat (cs : List (Call T)) (c : Call T) :
    calls (cs ++ [c]) = call (calls cs) c := by
  rw [calls, List.foldl_append]
  rfl

/-! ### Repetitions are ignored, and nothing else -/

/-- Made again, the most recent call of a kind changes neither multimap. -/
def RepeatIgnored (kind : Call T → Option Mark) (cs : List (Call T)) : Prop :=
  ∀ c ∈ latest kind cs,
    (call (calls cs) c).scanMultimap = (calls cs).scanMultimap ∧
      (call (calls cs) c).commentMultimap = (calls cs).commentMultimap

/-- A call enters its marker.  A scan marker may find its comment already there; a comment
    without a text has nothing to enter. -/
def Entered (s : Logs T) (c : Call T) : Prop :=
  (∀ m ∈ scanMark c, (call s c).scanMultimap = multimapInsert ⟨m.ts, c.time, m.state⟩ s.scanMultimap ∧
    (m.text ≠ [] → ∃ e ∈ (call s c).commentMultimap, e.ts = m.ts ∧ e.value = m.text)) ∧
  ∀ m ∈ commentMark c, m.text ≠ [] →
    (call s c).commentMultimap = multimapInsert ⟨m.ts, c.time, m.text⟩ s.commentMultimap

/-- After the calls `cs`, a call that differs from the marker of its kind before it is entered. -/
def NotDropped (kind : Call T → Option Mark) (cs : List (Call T)) (c : Call T) : Prop :=
  ∀ m ∈ kind c, ∀ p ∈ latestMark kind cs, p ≠ m → Entered (calls cs) c

/-- Along the calls, repetitions are ignored, and nothing else is. -/
def Deduplicates (cs : List (Call T)) : Prop :=
  (∀ pre, pre <+: cs → RepeatIgnored scanMark pre ∧ RepeatIgnored commentMark pre) ∧
    ∀ pre c, pre ++ [c] <+: cs → NotDropped scanMark pre c ∧ NotDropped commentMark pre c

/-- The call leaves what is remembered of the others right.  A scan marker without a comment does
    not come after one with a comment.  A scan marker with a comment is a repetition, or has the
    comment of the comment marker before it.  A comment marker that comes after an empty one is
    not what was inserted last. -/
structure Fits (pre : List (Call T)) (c : Call T) : Prop where
  scanComment : ∀ m ∈ scanMark c, ∀ p ∈ latestMark scanMark pre, m.text = [] → p.text = []
  overComment : ∀ m ∈ scanMark c, ∀ k ∈ latestMark commentMark pre, m.text ≠ [] → k.text ≠ [] →
    latestMark scanMark pre = some m ∨ (k.ts = m.ts ∧ k.text = m.text)
  afterEmpty : ∀ m ∈ commentMark c, ∀ k ∈ latestMark commentMark pre, m.text ≠ [] → k.text = [] →
    ¬IsLastComment (calls pre) m.ts m.text

/-! ### What is remembered is the last marker of a kind -/

/-- After the calls, what new markers are compared with is the latest marker of their kind. -/
structure Remembers (pre : List (Call T)) : Prop where
  scan : ∀ p ∈ latestMark scanMark pre, IsLastScan (calls pre) p
  noScan : latestMark scanMark pre = none → IsLastScan (calls pre) ⟨0, 0, []⟩
  comment : ∀ k ∈ latestMark commentMark pre, k.text ≠ [] →
    IsLastComment (calls pre) k.ts k.text
  entered : LastEntered (calls pre)

/-- A scan marker with a comment that is what is remembered is the latest one. -/
theorem Remembers.latest_scan {pre : List (Call T)} (hr : Remembers pre) {m : Mark}
    (hm : IsLastScan (calls pre) m) (htext : m.text ≠ []) : latestMark scanMark pre = some m := by
  cases hp : latestMark scanMark pre with
  | none =>
    have h := hm.unique (hr.noScan hp)
    subst h
    exact absurd rfl htext
  | some p => rw [hm.unique (hr.scan p hp)]

theorem remembers_nil : Remembers ([] : List (Call T)) where
  scan := by simp [latestMark, latest]
  noScan _ := ⟨⟨_, rfl, rfl, rfl⟩, rfl⟩
  comment := by simp [latestMark, latest]
  entered := by simp [LastEntered, calls, Logs.initial]

/-- A call that fits leaves the latest markers remembered. -/
theorem Remembers.concat {pre : List (Call T)} {c : Call T} (hr : Remembers pre)
    (hfit : Fits pre c) : Remembers (pre ++ [c]) := by
  rcases mark_cases c with ⟨m, hscan, hcomment⟩ | ⟨m, hscan, hcomment⟩
  · have hcall : calls (pre ++ [c]) = markerScan (calls pre) c.time m.ts m.state m.text := by
      rw [calls_concat, call_scan _ hscan]
    have hlatest : latestMark scanMark (pre ++ [c]) = some m := by
      rw [latestMark_concat, hscan, Option.some_or]
    have hcomments : latestMark commentMark (pre ++ [c]) = latestMark commentMark pre := by
      rw [latestMark_concat, hcomment, Option.none_or]
    refine ⟨?_, ?_, ?_, hcall ▸ markerScan_lastEntered hr.entered c.time m⟩
    · intro p hp
      obtain rfl : m = p := Option.mem_unique hlatest hp
      rw [hcall]
      by_cases h : IsLastScan (calls pre) m
      · have hsame := markerScan_same c.time h
        rw [IsLastScan, hsame.lastScan, hsame.lastScanComment]
        exact h
      · obtain ⟨-, hlast, htext⟩ := markerScan_new c.time h
        refine ⟨⟨_, hlast, rfl, rfl⟩, ?_⟩
        rw [htext]
        split
        · -- nothing else has left a comment
          rename_i hnil
          rw [hnil]
          cases hp : latestMark scanMark pre with
          | none => exact (hr.noScan hp).2
          | some p => rw [(hr.scan p hp).2, hfit.scanComment m hscan p hp hnil]
        · rfl
    · rw [hlatest]
      intro h
      cases h
    · intro k hk htext
      rw [hcomments] at hk
      have hlast := hr.comment k hk htext
      rw [hcall]
      by_cases h : IsLastScan (calls pre) m
      · rw [IsLastComment, (markerScan_same c.time h).lastComment]
        exact hlast
      · by_cases hm : m.text = []
        · rw [IsLastComment, ((markerScan_comment c.time h).1 hm).2]
          exact hlast
        · rcases hfit.overComment m hscan k hk hm htext with hsame | ⟨hts, hsame⟩
          · exact absurd (hr.scan m hsame) h
          · rw [hts, hsame]
            exact markerScan_last c.time h hm
  · have hcall : calls (pre ++ [c]) = markerComment (calls pre) c.time m.ts m.text := by
      rw [calls_concat, call_comment _ hcomment]
    have hlatest : latestMark commentMark (pre ++ [c]) = some m := by
      rw [latestMark_concat, hcomment, Option.some_or]
    have hscans : latestMark scanMark (pre ++ [c]) = latestMark scanMark pre := by
      rw [latestMark_concat, hscan, Option.none_or]
    obtain ⟨-, hlast, htext⟩ := markerComment_scan (calls pre) c.time m.ts m.text
    refine ⟨?_, ?_, ?_, hcall ▸ markerComment_lastEntered hr.entered c.time m.ts m.text⟩
    · rw [hscans, hcall]
      intro p hp
      rw [IsLastScan, hlast, htext]
      exact hr.scan p hp
    · rw [hscans, hcall]
      intro hp
      rw [IsLastScan, hlast, htext]
      exact hr.noScan hp
    · intro k hk hkt
      obtain rfl : m = k := Option.mem_unique hlatest hk
      rw [hcall]
      exact markerComment_last (calls pre) c.time m.ts hkt

/-- The latest call of a kind is ignored while it is remembered. -/
theorem Remembers.repeatIgnored {pre : List (Call T)} (hr : Remembers pre) :
    RepeatIgnored scanMark pre ∧ RepeatIgnored commentMark pre := by
  constructor
  · intro c hc
    obtain ⟨m, hm, hlatest⟩ := latestMark_of_latest hc
    have hsame := markerScan_same c.time (hr.scan m hlatest)
    rw [call_scan _ hm]
    exact ⟨hsame.scans, hsame.comments⟩
  · intro c hc
    obtain ⟨m, hm, hlatest⟩ := latestMark_of_latest hc
    have hsame : SameLogs (calls pre) (markerComment (calls pre) c.time m.ts m.text) := by
      apply markerComment_same
      by_cases htext : m.text = []
      · exact .inr htext
      · exact .inl (hr.comment m hlatest htext)
    rw [call_comment _ hm]
    exact ⟨hsame.scans, hsame.comments⟩

/-- A call that fits is entered if it is no repetition. -/
theorem Remembers.notDropped {pre : List (Call T)} {c : Call T} (hr : Remembers pre)
    (hfit : Fits pre c) : NotDropped scanMark pre c ∧ NotDropped commentMark pre c := by
  rcases mark_cases c with ⟨m, hscan, hcomment⟩ | ⟨m, hscan, hcomment⟩
  · refine ⟨?_, by simp [NotDropped, hcomment]⟩
    intro m' hm' p hp hne
    obtain rfl : m = m' := Option.mem_unique hscan hm'
    have hnew : ¬IsLastScan (calls pre) m := fun h => hne (h.unique (hr.scan p hp))
    refine ⟨?_, by simp [hcomment]⟩
    intro m' hm'
    obtain rfl : m = m' := Option.mem_unique hscan hm'
    rw [call_scan _ hscan]
    refine ⟨(markerScan_new c.time hnew).1, fun htext => ?_⟩
    obtain ⟨e, he, hts, hvalue⟩ := markerScan_last c.time hnew htext
    exact ⟨e, markerScan_lastEntered hr.entered c.time m e he, hts, hvalue⟩
  · refine ⟨by simp [NotDropped, hscan], ?_⟩
    intro m' hm' p hp hne
    obtain rfl : m = m' := Option.mem_unique hcomment hm'
    refine ⟨by simp [hscan], ?_⟩
    intro m' hm' htext
    obtain rfl : m = m' := Option.mem_unique hcomment hm'
    rw [call_comment _ hcomment]
    refine (markerComment_new c.time (fun hlast => ?_) htext).1
    by_cases hpt : p.text = []
    · exact hfit.afterEmpty m hcomment p hp htext hpt hlast
    · obtain ⟨hts, htxt⟩ := hlast.unique (hr.comment p hp hpt)
      obtain ⟨k, -, hk⟩ := Option.bind_eq_some_iff.mp hp
      have hstate : p.state = m.state := by
        rw [commentMark_state hk, commentMark_state hcomment]
      apply hne
      cases p
      cases m
      simp_all

/-- A call that does not fit is dropped, or leaves a call that is not ignored when made again. -/
theorem Remembers.fits {pre : List (Call T)} {c : Call T} (hr : Remembers pre)
    (hscans : RepeatIgnored scanMark (pre ++ [c]))
    (hcomments : RepeatIgnored commentMark (pre ++ [c]))
    (hkept : NotDropped commentMark pre c) : Fits pre c where
  scanComment := by
    intro m hm p hp hnil
    by_contra htext
    -- the comment of `p` is left behind, and the call is a new marker each time
    have hleft := (hr.scan p hp).2
    have hnew : ¬IsLastScan (calls pre) m := by
      intro h
      rw [h.2, hnil] at hleft
      exact htext hleft.symm
    have hcall : calls (pre ++ [c]) = markerScan (calls pre) c.time m.ts m.state m.text := by
      rw [calls_concat, call_scan _ hm]
    obtain ⟨-, -, hcomment⟩ := markerScan_new c.time hnew
    rw [← hcall, if_pos hnil] at hcomment
    have hagain : ¬IsLastScan (calls (pre ++ [c])) m := by
      intro h
      rw [← hcomment, h.2, hnil] at hleft
      exact htext hleft.symm
    have hsame := (hscans c (by rw [latest_concat, hm]; rfl)).1
    rw [call_scan _ hm, (markerScan_new c.time hagain).1] at hsame
    exact multimapInsert_ne _ _ hsame
  overComment := by
    intro m hm k hk htext hktext
    by_contra hne
    obtain ⟨hscan, hcomment⟩ := not_or.mp hne
    -- the comment of the scan marker takes the place of that of `k`
    have hnew : ¬IsLastScan (calls pre) m := fun h => hscan (hr.latest_scan h htext)
    have hlast := markerScan_last c.time hnew htext
    rw [← call_scan _ hm, ← calls_concat] at hlast
    obtain ⟨d, hd, hdk⟩ := Option.bind_eq_some_iff.mp hk
    have hnot : ¬IsLastComment (calls (pre ++ [c])) k.ts k.text :=
      fun h => hcomment (hlast.unique h)
    have hlatest : latest commentMark (pre ++ [c]) = some d := by
      rw [latest_concat]
      rcases mark_cases c with ⟨-, -, hc⟩ | ⟨-, hc, -⟩
      · rw [hc]
        exact hd
      · rw [hc] at hm
        cases hm
    have hsame := (hcomments d hlatest).2
    rw [call_comment _ hdk, (markerComment_new d.time hnot hktext).1] at hsame
    exact multimapInsert_ne _ _ hsame
  afterEmpty := by
    intro m hm k hk htext hktext hlast
    have hne : k ≠ m := fun h => htext (h ▸ hktext)
    have hnew := (hkept m hm k hk hne).2 m hm htext
    rw [call_comment _ hm, (markerComment_same c.time (.inl hlast)).comments] at hnew
    exact multimapInsert_ne _ _ hnew.symm

/-- What is remembered is right behind every call, as long as each fits those before it. -/
theorem remembers_of_fits {cs : List (Call T)}
    (hfits : ∀ pre c, Remembers pre → pre ++ [c] <+: cs → Fits pre c) {pre : List (Call T)}
    (hpre : pre <+: cs) : Remembers pre := by
  induction pre using List.reverseRecOn with
  | nil => exact remembers_nil
  | append_singleton pre c ih =>
    have hr := ih ((List.prefix_append pre [c]).trans hpre)
    exact hr.concat (hfits pre c hr hpre)

/-- Repeated markers are ignored, and no others, in exactly the sequences whose calls all leave
    what is remembered of the other markers right. -/
theorem deduplicates_iff (cs : List (Call T)) :
    Deduplicates cs ↔ ∀ pre c, pre ++ [c] <+: cs → Fits pre c := by
  constructor
  · intro h
    have hfits : ∀ pre c, Remembers pre → pre ++ [c] <+: cs → Fits pre c := fun pre c hr hpre =>
      hr.fits (h.1 _ hpre).1 (h.1 _ hpre).2 (h.2 pre c hpre).2
    intro pre c hpre
    have hr := remembers_of_fits hfits ((List.prefix_append pre [c]).trans hpre)
    exact hfits pre c hr hpre
  · intro h
    have hr : ∀ {pre}, pre <+: cs → Remembers pre :=
      remembers_of_fits fun pre c _ hpre => h pre c hpre
    refine ⟨fun pre hpre => (hr hpre).repeatIgnored, fun pre c hpre => ?_⟩
    exact (hr ((List.prefix_append pre [c]).trans hpre)).notDropped (h pre c hpre)

/-- A stop without a comment is entered again where the scan began with a comment, and so is a
    comment marker after a scan marker that has one. -/
theorem not_deduplicates :
    ¬Deduplicates (T := Int) [.scanStart 1 10 1 ['a'], .scanStop 2 20 1 []] ∧
      ¬Deduplicates (T := Int) [.comment 1 10 ['a'], .scanStart 2 20 1 ['b']] := by
  constructor
  · intro h
    have hagain := ((h.1 _ (List.prefix_refl _)).1 (.scanStop 2 20 1 []) rfl).1
    exact absurd hagain (by decide)
  · intro h
    have hagain := ((h.1 _ (List.prefix_refl _)).2 (.comment 1 10 ['a']) rfl).2
    exact absurd hagain (by decide)

end Adara.Spec.MarkerLogs
