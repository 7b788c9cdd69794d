import Adara.ForStd.Runs
import Adara.Spec.BankedFormat

/-! # Source attributes of banked events

At every event the cursor remembers where the header of a section stands, and what its TOF field
says.  That section is the one the event is in (`atEvent_contains`), and the high bit of the
field is kept as it is, but of the other bits only whether there are any. -/

namespace Adara.Spec.BankedSources

open Adara.Native Adara.Native.BankedEventPkt Adara.Spec.BankedFormat

variable {pkt : BankedEventPkt} {c : EventCursor} {header : List UInt32}
variable {all before ss : List SourceSection} {s : SourceSection}

/-- The section, with others before it, takes in the word with this index. -/
def Contains (before : List SourceSection) (s : SourceSection) (i : Nat) : Prop :=
  4 + (sectionWords before).length ≤ i ∧ i < 4 + (sectionWords (before ++ [s])).length

/-- At every event that the calls return, the id, the flag and the offset are those in the header
    of the section that the event is in.  The id has no accessor: it is what the remembered start
    of the section points to. -/
def AttributesFollow (pkt : BankedEventPkt) (all : List SourceSection) : Prop :=
  ∀ calls c i, Runs.run (cursorStep pkt) .new calls = some c → c.curEvent = some i →
    ∃ before s after, all = before ++ s :: after ∧ Contains before s i ∧
      pkt.fields[c.sourceStartIndex]? = some s.sourceId ∧
      c.getSourceCORFlag = (s.tofField &&& 0x80000000 != 0) ∧
      c.getSourceTOFOffset = s.tofField &&& 0x7fffffff

/-! ### The section of an event -/

/-- In a list whose ends have growing sizes, a size is reached with one element only. -/
theorem suffix_unique {α : Type} {f : List α → Nat} (hf : ∀ x l, f l ≤ f (x :: l))
    {whole l l' : List α} {x x' : α} {r : Nat} (h : x :: l <:+ whole) (h' : x' :: l' <:+ whole)
    (hl : f l < r) (hr : r ≤ f (x :: l)) (hl' : f l' < r) (hr' : r ≤ f (x' :: l')) :
    x = x' ∧ l = l' := by
  have hmono : ∀ {a b : List α}, a <:+ b → f a ≤ f b := by
    rintro a b ⟨t, rfl⟩
    induction t with
    | nil => exact Nat.le_refl _
    | cons y t ih => exact ih.trans (hf y _)
  rcases List.suffix_or_suffix_of_suffix h h' with hsub | hsub
  · rcases List.suffix_cons_iff.mp hsub with heq | hsub
    · exact ⟨(List.cons.inj heq).1, (List.cons.inj heq).2⟩
    · have := hmono hsub
      omega
  · rcases List.suffix_cons_iff.mp hsub with heq | hsub
    · exact ⟨(List.cons.inj heq).1.symm, (List.cons.inj heq).2.symm⟩
    · have := hmono hsub
      omega

theorem sectionWords_append (ss ss' : List SourceSection) :
    sectionWords (ss ++ ss') = sectionWords ss ++ sectionWords ss' :=
  List.flatMap_append

theorem length_sectionWords_cons (s : SourceSection) (ss : List SourceSection) :
    (sectionWords (s :: ss)).length = 4 + (bankWords s.banks).length + (sectionWords ss).length := by
  rw [sectionWords_cons, List.length_append, List.length_append, ← Nat.add_assoc]
  rfl

theorem sectionEvents_append (ss ss' : List SourceSection) :
    sectionEvents (ss ++ ss') = sectionEvents ss ++ sectionEvents ss' :=
  List.flatMap_append

theorem bankEvents_length_le {bs bs' : List Bank} (h : bs <:+ bs') :
    (bankEvents bs).length ≤ (bankEvents bs').length := by
  obtain ⟨t, rfl⟩ := h
  simp [bankEvents]

/-- What lies behind an event in its section. -/
theorem atEvent_length {e : Event} {es : List Event} {bs : List Bank}
    (h : AtEvent pkt c e es bs s ss) :
    es.length + 1 + (bankEvents bs).length ≤ (bankEvents s.banks).length ∧
      2 * (es.length + 1) + (bankWords bs).length + 2 ≤ (bankWords s.banks).length := by
  obtain ⟨b, hbs, hes⟩ := h.bank
  have hevents := bankEvents_length_le hbs
  have hlen := hes.length_le
  have hbanks := hbs.length_le
  rw [length_bankWords, length_bankWords]
  simp only [bankEvents, List.flatMap_cons, List.length_append, List.length_map,
    List.length_cons] at *
  omega

/-- The section that is remembered is the one the event is in. -/
theorem atEvent_contains {e : Event} {es : List Event} {bs : List Bank}
    (h : AtEvent pkt c e es bs s ss) (hheader : header.length = 4)
    (hfields : pkt.fields = header ++ sectionWords (before ++ s :: ss)) :
    Contains before s c.curFieldIndex := by
  have hlen := congrArg List.length hfields
  rw [sectionWords_append, List.length_append, List.length_append, hheader,
    length_sectionWords_cons] at hlen
  have hahead := add_length_le_of_drop h.ahead (by simp [Event.fields])
  have hin := (atEvent_length h).2
  rw [List.length_append, List.length_append, length_eventFields, List.length_cons] at hahead
  rw [Contains, sectionWords_append, List.length_append, length_sectionWords_cons]
  omega

/-- Two sections do not take in the same word. -/
theorem Contains.unique {before' after after' : List SourceSection} {s' : SourceSection} {i : Nat}
    (h : Contains before s i) (h' : Contains before' s' i)
    (heq : before ++ s :: after = before' ++ s' :: after') : s = s' := by
  have hlen := congrArg (fun l => (sectionWords l).length) heq
  have hnil : (sectionWords []).length = 0 := rfl
  simp only [Contains, sectionWords_append, List.length_append, length_sectionWords_cons] at hlen h h'
  refine (suffix_unique (f := fun l => (sectionWords l).length)
    (r := 4 + (sectionWords (before ++ s :: after)).length - i) ?_ (List.suffix_append before _)
    (heq ▸ List.suffix_append before' _) ?_ ?_ ?_ ?_).1
  · intro x l
    rw [length_sectionWords_cons]
    omega
  all_goals
    simp only [sectionWords_append, List.length_append, length_sectionWords_cons]
    omega

/-- At an event, the start, the flag and the offset are those of its section. -/
theorem atEvent_attributes {e : Event} {es : List Event} {bs : List Bank}
    (h : AtEvent pkt c e es bs s ss) :
    pkt.fields[c.sourceStartIndex]? = some s.sourceId ∧
      c.getSourceCORFlag = (s.tofField &&& 0x80000000 != 0) ∧
      c.getSourceTOFOffset = if s.tofField &&& 0x7fffffff != 0 then 1 else 0 := by
  refine ⟨?_, h.source.isCorrected_eq, h.source.tofOffset_eq⟩
  have hdrop := h.source.header
  rw [sectionWords_cons] at hdrop
  exact getElem?_of_drop (k := 0) hdrop rfl

/-! ### Runs of the cursor -/

/-- Every call goes to an event of the packet, or to none. -/
theorem cursorStep_ahead (hpkt : Complete pkt) (hheader : header.length = 4)
    (hfields : pkt.fields = header ++ sectionWords all) {evs : List (UInt32 × Event)}
    (h : Ahead pkt all c evs) (call : CursorCall) :
    ∃ c' evs', cursorStep pkt c call = some c' ∧ Ahead pkt all c' evs' := by
  cases call with
  | firstEvent =>
    obtain ⟨c', hfirst, hahead⟩ := firstEvent_spec hpkt hheader hfields c
    exact ⟨c', _, hfirst, hahead⟩
  | nextEvent =>
    cases h with
    | done hcur => exact ⟨c, [], by simp only [cursorStep, nextEvent, hcur], .done hcur⟩
    | event e es bs s ss hat hs =>
      obtain ⟨c', hnext, hahead⟩ := nextEvent_spec hpkt hat hs
      exact ⟨c', _, hnext, hahead⟩

theorem run_ahead (hpkt : Complete pkt) (hheader : header.length = 4)
    (hfields : pkt.fields = header ++ sectionWords all) (calls : List CursorCall)
    {evs : List (UInt32 × Event)} (h : Ahead pkt all c evs) :
    ∃ c' evs', Runs.run (cursorStep pkt) c calls = some c' ∧ Ahead pkt all c' evs' := by
  induction calls generalizing c evs with
  | nil => exact ⟨c, evs, rfl, h⟩
  | cons call calls ih =>
    obtain ⟨c', evs', hstep, hahead⟩ := cursorStep_ahead hpkt hheader hfields h call
    rw [Runs.run, hstep, Option.bind_some]
    exact ih hahead

/-- Every event of the packet is reached. -/
theorem exists_run (hpkt : Complete pkt) (hheader : header.length = 4)
    (hfields : pkt.fields = header ++ sectionWords all) (k : Nat) :
    ∃ calls c, Runs.run (cursorStep pkt) .new calls = some c ∧
      Ahead pkt all c ((sectionEvents all).drop k) := by
  induction k with
  | zero =>
    obtain ⟨c, hfirst, hahead⟩ := firstEvent_spec hpkt hheader hfields .new
    exact ⟨[.firstEvent], c, by rw [Runs.run, cursorStep, hfirst]; rfl, hahead⟩
  | succ k ih =>
    obtain ⟨calls, c, hrun, hahead⟩ := ih
    generalize hevs : (sectionEvents all).drop k = evs at hahead
    have htail : (sectionEvents all).drop (k + 1) = evs.tail := by
      rw [← hevs, List.tail_drop]
    cases hahead with
    | done hcur => exact ⟨calls, c, hrun, htail ▸ .done hcur⟩
    | event e es bs s ss hat hs =>
      obtain ⟨c', hnext, hnew⟩ := nextEvent_spec hpkt hat hs
      refine ⟨calls ++ [.nextEvent], c', ?_, ?_⟩
      · rw [Runs.run_append, hrun, Option.bind_some, Runs.run, cursorStep, hnext]
        rfl
      · rw [htail]
        exact hnew

/-- The offset of a field is kept where it is 0 or 1. -/
theorem bool_offset_iff (x : UInt32) : (if x != 0 then 1 else 0) = x ↔ x ≤ 1 := by
  rw [UInt32.le_iff_toNat_le, ← UInt32.toNat_inj]
  have hzero : x = 0 ↔ x.toNat = 0 := by rw [← UInt32.toNat_inj]; rfl
  by_cases hx : x = 0
  · simp [hx]
  · have hne : x.toNat ≠ 0 := fun h => hx (hzero.mpr h)
    simp only [bne_iff_ne, ne_eq, hx, not_false_eq_true, if_true]
    show 1 = x.toNat ↔ x.toNat ≤ 1
    omega

/-- The attributes follow the cursor exactly where no section with events has an offset other
    than 0 and 1. -/
theorem attributesFollow_iff (hpkt : Complete pkt) (hheader : header.length = 4)
    (hfields : pkt.fields = header ++ sectionWords all) :
    AttributesFollow pkt all ↔
      ∀ s ∈ all, bankEvents s.banks ≠ [] → s.tofField &&& 0x7fffffff ≤ 1 := by
  constructor
  · intro h s hs hne
    obtain ⟨before, after, rfl⟩ := List.append_of_mem hs
    -- the cursor at the first event of the section
    obtain ⟨calls, c, hrun, hahead⟩ :=
      exists_run hpkt hheader hfields (sectionEvents before).length
    rw [sectionEvents_append, List.drop_left] at hahead
    have hpos := List.length_pos_iff.mpr hne
    have hcons : ∀ s ss, (sectionEvents (s :: ss)).length =
        (bankEvents s.banks).length + (sectionEvents ss).length := by
      intro s ss
      rw [sectionEvents, List.flatMap_cons, List.length_append, ← sectionEvents]
    generalize hevs : sectionEvents (s :: after) = evs at hahead
    have hlen := congrArg List.length hevs
    rw [hcons] at hlen
    cases hahead with
    | done =>
      rw [List.length_nil] at hlen
      omega
    | event e es bs s' ss hat hss =>
      have hbound := (atEvent_length hat).1
      simp only [List.length_append, List.length_map, List.length_cons] at hlen
      obtain ⟨rfl, rfl⟩ := suffix_unique (f := fun l => (sectionEvents l).length)
        (r := (sectionEvents (s :: after)).length) (fun x l => by simp only [hcons]; omega)
        (List.suffix_append before _) hss (by simp only [hcons]; omega) (Nat.le_refl _)
        (by simp only [hcons]; omega) (by simp only [hcons]; omega)
      obtain ⟨before', t, after', heq, hcontains, -, -, hoffset⟩ := h calls c _ hrun hat.curEvent_eq
      obtain rfl := (atEvent_contains hat hheader hfields).unique hcontains heq
      rw [(atEvent_attributes hat).2.2] at hoffset
      exact (bool_offset_iff _).mp hoffset
  · intro h calls c i hrun hcur
    obtain ⟨c', evs, hrun', hahead⟩ := run_ahead hpkt hheader hfields calls
      (.done rfl : Ahead pkt all .new [])
    obtain rfl : c' = c := Option.some.inj (hrun'.symm.trans hrun)
    cases hahead with
    | done hnone =>
      rw [hnone] at hcur
      cases hcur
    | event e es bs s ss hat hs =>
      obtain ⟨before, rfl⟩ := hs
      obtain ⟨hid, hflag, hoffset⟩ := atEvent_attributes hat
      obtain rfl : c'.curFieldIndex = i := Option.some.inj (hat.curEvent_eq.symm.trans hcur)
      refine ⟨before, s, ss, rfl, atEvent_contains hat hheader hfields, hid, hflag, ?_⟩
      have hevents : bankEvents s.banks ≠ [] := by
        intro hnil
        have := (atEvent_length hat).1
        rw [hnil] at this
        simp at this
      rw [hoffset]
      exact (bool_offset_iff _).mpr (h s (by simp) hevents)

/-- A packet with two sources, the first with an empty bank, the second with an event. -/
def twoSources (tofField : UInt32) : List SourceSection :=
  [⟨1, 0, 0, [⟨7, []⟩]⟩, ⟨2, 0, tofField, [⟨8, [⟨100, 5⟩]⟩]⟩]

/-- The packet of some sections, behind four words. -/
def packetOf (ss : List SourceSection) : BankedEventPkt :=
  ⟨4 * (4 + (sectionWords ss).length), [0, 0, 0, 0] ++ sectionWords ss⟩

theorem attributesFollow_iff_twoSources :
    AttributesFollow (packetOf (twoSources 0x80000001)) (twoSources 0x80000001) ↔
      ∀ s ∈ twoSources 0x80000001, bankEvents s.banks ≠ [] → s.tofField &&& 0x7fffffff ≤ 1 :=
  @attributesFollow_iff _ [0, 0, 0, 0] _ ⟨rfl, by decide, by decide⟩ rfl rfl

/-- An offset of 25 is read as 1. -/
theorem not_attributesFollow :
    ¬AttributesFollow (packetOf (twoSources 25)) (twoSources 25) := by
  intro h
  have hrun : ((Runs.run (cursorStep (packetOf (twoSources 25))) .new [.firstEvent]).any
      fun c => c.curEvent = some 16 ∧ c.getSourceTOFOffset = 1) = true := by
    decide +kernel
  obtain ⟨c, hc, hcond⟩ := (Option.any_eq_true _ _).mp hrun
  obtain ⟨hcur, hoffset⟩ := of_decide_eq_true hcond
  obtain ⟨before, s, after, heq, -, -, -, hfield⟩ := h _ c 16 hc hcur
  rw [hoffset] at hfield
  have hmem : s ∈ twoSources 25 := heq ▸ List.mem_append_right before (List.mem_cons_self ..)
  rcases List.mem_cons.mp hmem with rfl | hmem
  · exact absurd hfield (by decide)
  · obtain rfl := List.mem_singleton.mp hmem
    exact absurd hfield (by decide)

end Adara.Spec.BankedSources
