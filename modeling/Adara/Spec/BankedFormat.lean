import Adara.Native.BankedEvent

/-! # The format of banked events

A banked event packet is a list of source sections, each a list of banks, each a list of
events.  Reading the words of such a list yields its events in order, whichever sections
and banks are empty (`readEvents_eq`): the cursor is described by what lies ahead of it,
and each of its moves by what it leaves ahead. -/

namespace Adara.Spec.BankedFormat

open Adara.Native Adara.Native.BankedEventPkt

/-! ### Sections, banks and their words -/

structure Bank where
  id : UInt32
  events : List Event

structure SourceSection where
  sourceId : UInt32
  intraPulseTime : UInt32
  tofField : UInt32
  banks : List Bank

/-- The words of some banks. -/
def bankWords (bs : List Bank) : List UInt32 :=
  bs.flatMap fun b => [b.id, UInt32.ofNat b.events.length] ++ b.events.flatMap Event.fields

/-- The words of some sections. -/
def sectionWords (ss : List SourceSection) : List UInt32 :=
  ss.flatMap fun s =>
    [s.sourceId, s.intraPulseTime, s.tofField, UInt32.ofNat s.banks.length] ++ bankWords s.banks

/-- The events of some banks, each with the id of its bank. -/
def bankEvents (bs : List Bank) : List (UInt32 × Event) :=
  bs.flatMap fun b => b.events.map fun ev => (b.id, ev)

/-- The events of some sections. -/
def sectionEvents (ss : List SourceSection) : List (UInt32 × Event) :=
  ss.flatMap fun s => bankEvents s.banks

@[simp] theorem length_eventFields (evs : List Event) :
    (evs.flatMap Event.fields).length = 2 * evs.length := by
  induction evs with
  | nil => rfl
  | cons ev evs ih =>
    simp only [List.flatMap_cons, List.length_append, ih, Event.fields, List.length_cons,
      List.length_nil]
    omega

theorem bankWords_cons (b : Bank) (bs : List Bank) :
    bankWords (b :: bs) = [b.id, UInt32.ofNat b.events.length] ++
      (b.events.flatMap Event.fields ++ bankWords bs) := by
  simp [bankWords]

theorem sectionWords_cons (s : SourceSection) (ss : List SourceSection) :
    sectionWords (s :: ss) =
      [s.sourceId, s.intraPulseTime, s.tofField, UInt32.ofNat s.banks.length] ++
        (bankWords s.banks ++ sectionWords ss) := by
  simp [sectionWords]

/-- A bank takes two words, and two for each event. -/
theorem length_bankWords (bs : List Bank) :
    (bankWords bs).length = 2 * bs.length + 2 * (bankEvents bs).length := by
  induction bs with
  | nil => rfl
  | cons b bs ih =>
    rw [bankWords_cons]
    simp only [List.length_append, length_eventFields, ih, bankEvents, List.flatMap_cons,
      List.length_map, List.length_cons, List.length_nil]
    omega

/-- No section has more banks or events than words. -/
theorem length_sectionWords (ss : List SourceSection) :
    4 * ss.length + 2 * (sectionEvents ss).length ≤ (sectionWords ss).length := by
  induction ss with
  | nil => exact Nat.le_refl _
  | cons s ss ih =>
    rw [sectionWords_cons]
    simp only [List.length_append, length_bankWords, sectionEvents, List.flatMap_cons,
      List.length_cons, List.length_nil] at ih ⊢
    omega

/-! ### Reading at a position -/

section Position

variable {α : Type} {l xs ys : List α} {i k : Nat}

/-- What stands at a position whose rest of the list is known. -/
theorem getElem?_of_drop {x : α} (h : l.drop i = xs ++ ys) (hk : xs[k]? = some x) :
    l[i + k]? = some x := by
  have hlt : k < xs.length := by
    obtain ⟨hk, -⟩ := List.getElem?_eq_some_iff.mp hk
    exact hk
  rw [← List.getElem?_drop, h, List.getElem?_append_left hlt, hk]

/-- The rest of the list behind a known part. -/
theorem drop_of_drop (h : l.drop i = xs ++ ys) (hk : xs.length = k) : l.drop (i + k) = ys := by
  rw [← List.drop_drop, h, ← hk, List.drop_left]

/-- A position with something behind it lies in the list. -/
theorem add_length_le_of_drop (h : l.drop i = xs) (hxs : 0 < xs.length) :
    i + xs.length = l.length := by
  have hlen := congrArg List.length h
  rw [List.length_drop] at hlen
  omega

end Position

/-! ### What lies ahead of a cursor -/

/-- The words of the packet fit the length in its header. -/
structure Complete (pkt : BankedEventPkt) : Prop where
  payloadLen_eq : pkt.payloadLen = 4 * pkt.fields.length
  length_lt : 4 * pkt.fields.length < Word32.modulus
  header_le : 4 ≤ pkt.fields.length

/-- What the cursor remembers of the header of the section `s`, with the sections `ss` behind. -/
structure SourceFields (pkt : BankedEventPkt) (start : Nat) (tofOffset : UInt32)
    (isCorrected : Bool) (s : SourceSection) (ss : List SourceSection) : Prop where
  header : pkt.fields.drop start = sectionWords (s :: ss)
  tofOffset_eq : tofOffset = if s.tofField &&& 0x7fffffff != 0 then 1 else 0
  isCorrected_eq : isCorrected = (s.tofField &&& 0x80000000 != 0)

/-- The cursor is in the section `s`, with the sections `ss` behind. -/
abbrev InSource (pkt : BankedEventPkt) (c : EventCursor) (s : SourceSection)
    (ss : List SourceSection) : Prop :=
  SourceFields pkt c.sourceStartIndex c.tofOffset c.isCorrected s ss

/-- The cursor stands before the banks `bs` of the section `s`, with the sections `ss` behind. -/
structure AtBanks (pkt : BankedEventPkt) (c : EventCursor) (bs : List Bank) (s : SourceSection)
    (ss : List SourceSection) : Prop where
  curEvent_eq : c.curEvent = none
  bankNum_eq : c.bankNum + bs.length = c.bankCount + 1
  bankCount_le : c.bankCount ≤ pkt.fields.length
  ahead : pkt.fields.drop c.curFieldIndex = bankWords bs ++ sectionWords ss
  source : InSource pkt c s ss
  banks : bs <:+ s.banks

/-- The cursor points to the first of the events `es`, with the banks `bs` of the section `s` and
    the sections `ss` behind. -/
structure AtEvent (pkt : BankedEventPkt) (c : EventCursor) (e : Event) (es : List Event)
    (bs : List Bank) (s : SourceSection) (ss : List SourceSection) : Prop where
  curEvent_eq : c.curEvent = some c.curFieldIndex
  bankNum_eq : c.bankNum + bs.length = c.bankCount
  bankCount_le : c.bankCount ≤ pkt.fields.length
  bankEnd_eq : c.bankStartIndex + 2 + 2 * c.eventCount = c.curFieldIndex + 2 * (es.length + 1)
  ahead : pkt.fields.drop c.curFieldIndex =
    (e :: es).flatMap Event.fields ++ (bankWords bs ++ sectionWords ss)
  source : InSource pkt c s ss
  bank : ∃ b, b :: bs <:+ s.banks ∧ e :: es <:+ b.events

/-- The events the cursor points to or has ahead, of a packet with the sections `all`. -/
inductive Ahead (pkt : BankedEventPkt) (all : List SourceSection) (c : EventCursor) :
    List (UInt32 × Event) → Prop
  | done (h : c.curEvent = none) : Ahead pkt all c []
  | event (e : Event) (es : List Event) (bs : List Bank) (s : SourceSection)
      (ss : List SourceSection) (h : AtEvent pkt c e es bs s ss) (hs : s :: ss <:+ all) :
      Ahead pkt all c
        ((e :: es).map (fun ev => (c.bankId, ev)) ++ (bankEvents bs ++ sectionEvents ss))

/-! ### Banks -/

section Moves

variable {pkt : BankedEventPkt} {c : EventCursor} {bs : List Bank} {s : SourceSection}
variable {ss all : List SourceSection}

/-- Where a search through banks can end: at an event of one of them, or behind them, when
    none has any. -/
inductive BanksSearched (pkt : BankedEventPkt) (c : EventCursor) (bs : List Bank)
    (s : SourceSection) (ss : List SourceSection) : Prop
  | found (e : Event) (es : List Event) (bs' : List Bank) (h : AtEvent pkt c e es bs' s ss)
      (hevents : bankEvents bs = (e :: es).map (fun ev => (c.bankId, ev)) ++ bankEvents bs')
  | passed (hcur : c.curEvent = none) (hahead : pkt.fields.drop c.curFieldIndex = sectionWords ss)
      (hevents : bankEvents bs = [])

theorem firstEventInBank_eq {b : Bank} (hpkt : Complete pkt) (h : AtBanks pkt c (b :: bs) s ss) :
    firstEventInBank pkt c = some { c with
      bankStartIndex := c.curFieldIndex
      bankId := b.id
      eventCount := b.events.length
      curFieldIndex := c.curFieldIndex + 2
      curEvent := if 0 < b.events.length then some (c.curFieldIndex + 2) else none } ∧
    pkt.fields.drop (c.curFieldIndex + 2) =
      b.events.flatMap Event.fields ++ (bankWords bs ++ sectionWords ss) := by
  have hahead := h.ahead
  rw [bankWords_cons, List.append_assoc, List.append_assoc] at hahead
  have hlen := add_length_le_of_drop hahead (by simp)
  simp only [List.length_append, length_eventFields, List.length_cons, List.length_nil] at hlen
  have hlt := hpkt.length_lt
  have hmod : Word32.modulus = 2 ^ 32 := rfl
  have hone : Word32.add c.curFieldIndex 1 = c.curFieldIndex + 1 := Word32.add_of_lt (by omega)
  have htwo : Word32.add c.curFieldIndex 2 = c.curFieldIndex + 2 := Word32.add_of_lt (by omega)
  have hcount : (UInt32.ofNat b.events.length).toNat = b.events.length :=
    UInt32.toNat_ofNat_of_lt' (by simp only [UInt32.size]; omega)
  have hid : pkt.fields[c.curFieldIndex]? = some b.id :=
    getElem?_of_drop (k := 0) hahead rfl
  have hevents : pkt.fields[c.curFieldIndex + 1]? = some (UInt32.ofNat b.events.length) :=
    getElem?_of_drop hahead rfl
  constructor
  · simp only [firstEventInBank, hone, htwo, hid, hevents, hcount]
  · exact drop_of_drop hahead rfl

/-- The loop over banks finds the next event. -/
theorem searchBanks_spec (hpkt : Complete pkt) (h : AtBanks pkt c bs s ss) {fuel : Nat}
    (hfuel : bs.length < fuel) :
    ∃ c', searchBanks pkt fuel c = some c' ∧ BanksSearched pkt c' bs s ss := by
  induction bs generalizing c fuel with
  | nil =>
    obtain ⟨fuel, rfl⟩ : ∃ n, fuel = n + 1 := ⟨fuel - 1, by omega⟩
    have hnum := h.bankNum_eq
    simp only [List.length_nil] at hnum
    use c
    constructor
    · rw [searchBanks, if_neg (by omega)]
    · exact .passed h.curEvent_eq h.ahead rfl
  | cons b bs ih =>
    simp only [List.length_cons] at hfuel
    obtain ⟨fuel, rfl⟩ : ∃ n, fuel = n + 1 := ⟨fuel - 1, by omega⟩
    have hnum := h.bankNum_eq
    simp only [List.length_cons] at hnum
    have hlt := hpkt.length_lt
    have hmod : Word32.modulus = 2 ^ 32 := rfl
    have hmax := h.bankCount_le
    obtain ⟨hbank, hahead⟩ := firstEventInBank_eq hpkt h
    rw [searchBanks, if_pos ⟨by omega, h.curEvent_eq⟩, hbank]
    cases hevents : b.events with
    | nil =>
      -- an empty bank: on to the next one
      have hnext : Word32.add c.bankNum 1 = c.bankNum + 1 := Word32.add_of_lt (by omega)
      rw [hevents] at hahead
      simp only [List.length_nil, Nat.lt_irrefl, if_false, Option.bind_some, if_true, hnext]
      obtain ⟨c', hsearch, hfound⟩ := ih (c := { c with
        bankStartIndex := c.curFieldIndex, bankId := b.id, eventCount := 0
        curFieldIndex := c.curFieldIndex + 2, curEvent := none, bankNum := c.bankNum + 1 })
        ⟨rfl, by simp only; omega, hmax, hahead, h.source, (List.suffix_cons b bs).trans h.banks⟩
        (show bs.length < fuel by omega)
      have hskip : bankEvents (b :: bs) = bankEvents bs := by
        simp only [bankEvents, List.flatMap_cons, hevents, List.map_nil, List.nil_append]
      refine ⟨c', hsearch, ?_⟩
      cases hfound with
      | found e es bs' hat htail => exact .found e es bs' hat (hskip.trans htail)
      | passed hcur hrest htail => exact .passed hcur hrest (hskip.trans htail)
    | cons e es =>
      obtain ⟨fuel, rfl⟩ : ∃ n, fuel = n + 1 := ⟨fuel - 1, by omega⟩
      rw [hevents] at hahead
      simp only [List.length_cons, Nat.succ_pos, if_true, Option.bind_some, reduceCtorEq, if_false]
      rw [searchBanks, if_neg (by simp)]
      have hbank : e :: es <:+ b.events := hevents ▸ List.suffix_refl _
      refine ⟨_, rfl, .found e es bs
        ⟨rfl, ?_, hmax, ?_, hahead, h.source, ⟨b, h.banks, hbank⟩⟩ ?_⟩
      · show c.bankNum + bs.length = c.bankCount
        omega
      · show c.curFieldIndex + 2 + 2 * (es.length + 1) = c.curFieldIndex + 2 + 2 * (es.length + 1)
        rfl
      · simp only [bankEvents, List.flatMap_cons, hevents]

/-! ### Sources -/

/-- Where a search through sections can end. -/
inductive SourcesSearched (pkt : BankedEventPkt) (c : EventCursor) (s : SourceSection)
    (ss : List SourceSection) : Prop
  | found (e : Event) (es : List Event) (bs : List Bank) (h : AtEvent pkt c e es bs s ss)
      (hevents : bankEvents s.banks = (e :: es).map (fun ev => (c.bankId, ev)) ++ bankEvents bs)
  | passed (hcur : c.curEvent = none) (hahead : pkt.fields.drop c.curFieldIndex = sectionWords ss)
      (hevents : bankEvents s.banks = [])

theorem firstEventInSource_spec (hpkt : Complete pkt)
    (hcur : c.curEvent = none)
    (hahead : pkt.fields.drop c.curFieldIndex = sectionWords (s :: ss)) :
    ∃ c', firstEventInSource pkt c = some c' ∧ SourcesSearched pkt c' s ss := by
  have hheader := hahead
  rw [sectionWords_cons] at hahead
  have hlen := add_length_le_of_drop hahead (by simp)
  simp only [List.length_append, length_bankWords, List.length_cons, List.length_nil] at hlen
  have hlt := hpkt.length_lt
  have hmod : Word32.modulus = 2 ^ 32 := rfl
  have htwo : Word32.add c.curFieldIndex 2 = c.curFieldIndex + 2 := Word32.add_of_lt (by omega)
  have hthree : Word32.add c.curFieldIndex 3 = c.curFieldIndex + 3 := Word32.add_of_lt (by omega)
  have hfour : Word32.add c.curFieldIndex 4 = c.curFieldIndex + 4 := Word32.add_of_lt (by omega)
  have hcount : (UInt32.ofNat s.banks.length).toNat = s.banks.length :=
    UInt32.toNat_ofNat_of_lt' (by simp only [UInt32.size]; omega)
  have htof : pkt.fields[c.curFieldIndex + 2]? = some s.tofField := getElem?_of_drop hahead rfl
  have hbanks : pkt.fields[c.curFieldIndex + 3]? = some (UInt32.ofNat s.banks.length) :=
    getElem?_of_drop hahead rfl
  have hrest : pkt.fields.drop (c.curFieldIndex + 4) = bankWords s.banks ++ sectionWords ss :=
    drop_of_drop hahead rfl
  simp only [firstEventInSource, htwo, hthree, hfour, hbanks, htof, hcount]
  by_cases hempty : 0 < s.banks.length
  · rw [if_pos hempty]
    obtain ⟨c', hsearch, hfound⟩ := searchBanks_spec hpkt (c := { c with
      sourceStartIndex := c.curFieldIndex, bankCount := s.banks.length
      tofOffset := if s.tofField &&& 0x7fffffff != 0 then 1 else 0
      isCorrected := s.tofField &&& 0x80000000 != 0
      bankNum := 1, curFieldIndex := c.curFieldIndex + 4 })
      ⟨hcur, Nat.add_comm .., by simp only; omega, hrest, ⟨hheader, rfl, rfl⟩, List.suffix_refl _⟩
      (show s.banks.length < pkt.fields.length + 1 by omega)
    use c', hsearch
    cases hfound with
    | found e es bs hat hevents => exact .found e es bs hat hevents
    | passed hcur hahead hevents => exact .passed hcur hahead hevents
  · -- a source without banks
    have hnil : s.banks = [] := List.eq_nil_of_length_eq_zero (by omega)
    rw [if_neg hempty]
    rw [hnil] at hrest
    exact ⟨_, rfl, .passed rfl hrest (by rw [hnil]; rfl)⟩

/-- The loop over sources finds the next event.  Any bound on the index will do that lets
    in every section and ends with the packet. -/
theorem searchSources_spec (inPacket : Nat → Bool) (hpkt : Complete pkt)
    (hin : ∀ i, i + 4 ≤ pkt.fields.length → inPacket i)
    (hout : ∀ i, pkt.fields.length ≤ i → ¬ inPacket i)
    (hcur : c.curEvent = none) (hahead : pkt.fields.drop c.curFieldIndex = sectionWords ss)
    (hss : ss <:+ all) {fuel : Nat} (hfuel : ss.length < fuel) :
    ∃ c', searchSources pkt inPacket fuel c = some c' ∧ Ahead pkt all c' (sectionEvents ss) := by
  induction ss generalizing c fuel with
  | nil =>
    obtain ⟨fuel, rfl⟩ : ∃ n, fuel = n + 1 := ⟨fuel - 1, by omega⟩
    have hend : ¬ inPacket c.curFieldIndex := hout _ (List.drop_eq_nil_iff.mp hahead)
    use c
    constructor
    · rw [searchSources, if_neg (fun h => hend h.2)]
    · exact .done hcur
  | cons s ss ih =>
    simp only [List.length_cons] at hfuel
    obtain ⟨fuel, rfl⟩ : ∃ n, fuel = n + 1 := ⟨fuel - 1, by omega⟩
    have hin' : inPacket c.curFieldIndex := by
      apply hin
      have hlen := add_length_le_of_drop hahead (by simp [sectionWords_cons])
      simp only [sectionWords_cons, List.length_append, List.length_cons, List.length_nil] at hlen
      omega
    obtain ⟨c', hsource, hsearched⟩ := firstEventInSource_spec hpkt hcur hahead
    rw [searchSources, if_pos ⟨hcur, hin'⟩, hsource, Option.bind_some]
    have hevents : sectionEvents (s :: ss) = bankEvents s.banks ++ sectionEvents ss :=
      List.flatMap_cons
    cases hsearched with
    | found e es bs hat hfound =>
      -- the loop stops at the event
      obtain ⟨fuel, rfl⟩ : ∃ n, fuel = n + 1 := ⟨fuel - 1, by omega⟩
      rw [searchSources, if_neg (by simp [hat.curEvent_eq]), hevents, hfound, List.append_assoc]
      exact ⟨c', rfl, .event e es bs s ss hat hss⟩
    | passed hcur' hahead' hnone =>
      rw [hevents, hnone, List.nil_append]
      exact ih hcur' hahead' ((List.suffix_cons s ss).trans hss) (by omega)

/-! ### Events -/

/-- The index of the last word, in a packet that is complete. -/
theorem lastFieldIndex_eq (hpkt : Complete pkt) : pkt.lastFieldIndex = pkt.fields.length - 1 := by
  have hlt := hpkt.length_lt
  have hheader := hpkt.header_le
  rw [lastFieldIndex, hpkt.payloadLen_eq, Nat.mul_div_cancel_left _ (by decide)]
  exact Word32.sub_of_le (by omega) (by omega)

/-- Reading on from an event leaves what lies behind it. -/
theorem nextEvent_spec {e : Event} {es : List Event} (hpkt : Complete pkt)
    (h : AtEvent pkt c e es bs s ss) (hs : s :: ss <:+ all) :
    ∃ c', nextEvent pkt c = some c' ∧
      Ahead pkt all c' (es.map (fun ev => (c.bankId, ev)) ++ (bankEvents bs ++ sectionEvents ss)) := by
  have hahead := h.ahead
  have hlen := add_length_le_of_drop hahead (by simp [Event.fields])
  simp only [List.length_append, length_eventFields, length_bankWords, List.length_cons] at hlen
  have hsections := length_sectionWords ss
  have hlt := hpkt.length_lt
  have hend := h.bankEnd_eq
  have hnum := h.bankNum_eq
  have hmax := h.bankCount_le
  have hmod : Word32.modulus = 2 ^ 32 := rfl
  have hcur : Word32.add c.curFieldIndex 2 = c.curFieldIndex + 2 := Word32.add_of_lt (by omega)
  have hbankEnd : Word32.add (Word32.add c.bankStartIndex 2) (Word32.mul 2 c.eventCount) =
      c.curFieldIndex + 2 * (es.length + 1) := by
    rw [Word32.add_of_lt (a := c.bankStartIndex) (by omega), Word32.mul_of_lt (by omega),
      Word32.add_of_lt (by omega), hend]
  have hbehind : pkt.fields.drop (c.curFieldIndex + 2) =
      es.flatMap Event.fields ++ (bankWords bs ++ sectionWords ss) := by
    rw [List.flatMap_cons, List.append_assoc] at hahead
    exact drop_of_drop hahead rfl
  obtain ⟨b, hbank, hes⟩ := h.bank
  simp only [nextEvent, h.curEvent_eq, hcur, hbankEnd]
  cases es with
  | cons e' es =>
    -- the next event is in the same bank
    simp only [List.length_cons] at hend ⊢
    rw [if_pos (by omega)]
    refine ⟨_, rfl, .event e' es bs s ss ⟨rfl, hnum, hmax, ?_, hbehind, h.source,
      ⟨b, hbank, (List.suffix_cons e _).trans hes⟩⟩ hs⟩
    show c.bankStartIndex + 2 + 2 * c.eventCount = c.curFieldIndex + 2 + 2 * (es.length + 1)
    omega
  | nil =>
    simp only [List.length_nil]
    rw [if_neg (by omega)]
    have hnext : Word32.add c.bankNum 1 = c.bankNum + 1 := Word32.add_of_lt (by omega)
    rw [hnext]
    obtain ⟨c', hsearch, hfound⟩ := searchBanks_spec hpkt (c := { c with
      curFieldIndex := c.curFieldIndex + 2, curEvent := none, bankNum := c.bankNum + 1 })
      ⟨rfl, by simp only; omega, hmax, hbehind, h.source, (List.suffix_cons b bs).trans hbank⟩
      (show bs.length < pkt.fields.length + 1 by omega)
    rw [hsearch, Option.bind_some]
    have hlast := lastFieldIndex_eq hpkt
    cases hfound with
    | found e es bs' hat hevents =>
      rw [searchSources, if_neg (by simp [hat.curEvent_eq]), hevents, List.map_nil,
        List.nil_append, List.append_assoc]
      exact ⟨c', rfl, .event e es bs' s ss hat hs⟩
    | passed hcur' hrest hevents =>
      rw [hevents, List.map_nil, List.nil_append, List.nil_append]
      apply searchSources_spec _ hpkt _ _ hcur' hrest ((List.suffix_cons s ss).trans hs) (by omega)
      · intro i hi
        simp only [hlast, decide_eq_true_eq]
        omega
      · intro i hi
        simp only [hlast, decide_eq_true_eq]
        omega

/-- Reading on until there are no events yields all that lie ahead. -/
theorem eventsFrom_eq {evs : List (UInt32 × Event)} (hpkt : Complete pkt)
    (h : Ahead pkt all c evs) {fuel : Nat} (hfuel : evs.length < fuel) :
    eventsFrom pkt fuel c = some evs := by
  induction evs generalizing c fuel with
  | nil =>
    obtain ⟨fuel, rfl⟩ : ∃ n, fuel = n + 1 := ⟨fuel - 1, by omega⟩
    cases h with
    | done hcur => simp only [eventsFrom, hcur]
  | cons ev evs ih =>
    simp only [List.length_cons] at hfuel
    obtain ⟨fuel, rfl⟩ : ∃ n, fuel = n + 1 := ⟨fuel - 1, by omega⟩
    cases h with
    | event e es bs s ss hat hs =>
      have hahead := hat.ahead
      rw [List.flatMap_cons, List.append_assoc] at hahead
      have hlen := add_length_le_of_drop hahead (by simp [Event.fields])
      simp only [List.length_append, Event.fields, List.length_cons, List.length_nil] at hlen
      have hlt := hpkt.length_lt
      have hone : Word32.add c.curFieldIndex 1 = c.curFieldIndex + 1 :=
        Word32.add_of_lt (by omega)
      have htof : pkt.fields[c.curFieldIndex]? = some e.tof :=
        getElem?_of_drop (k := 0) hahead rfl
      have hpixel : pkt.fields[c.curFieldIndex + 1]? = some e.pixel :=
        getElem?_of_drop hahead rfl
      obtain ⟨c', hnext, hrest⟩ := nextEvent_spec hpkt hat hs
      simp only [eventsFrom, hat.curEvent_eq, hone, htof, hpixel, hnext, Option.bind_some]
      rw [ih hrest (by omega)]
      rfl

end Moves

/-- From whatever cursor, the first event is the first of the packet's sections. -/
theorem firstEvent_spec {pkt : BankedEventPkt} {header : List UInt32} {ss : List SourceSection}
    (hpkt : Complete pkt) (hheader : header.length = 4)
    (hfields : pkt.fields = header ++ sectionWords ss) (c : EventCursor) :
    ∃ c', firstEvent pkt c = some c' ∧ Ahead pkt ss c' (sectionEvents ss) := by
  have hlen : pkt.fields.length = 4 + (sectionWords ss).length := by
    rw [hfields, List.length_append, hheader]
  have hsections := length_sectionWords ss
  have hlast := lastFieldIndex_eq hpkt
  have hbehind : pkt.fields.drop 4 = sectionWords ss := by
    rw [hfields]
    exact List.drop_left' hheader
  apply searchSources_spec _ hpkt _ _ rfl hbehind (List.suffix_refl ss) (by omega)
  · intro i hi
    simp only [hlast, decide_eq_true_eq]
    omega
  · intro i hi
    simp only [hlast, decide_eq_true_eq]
    omega

/-- Reading a packet yields the events of its sections, in order. -/
theorem readEvents_eq {pkt : BankedEventPkt} (header : List UInt32) {ss : List SourceSection}
    (hpkt : Complete pkt) (hheader : header.length = 4)
    (hfields : pkt.fields = header ++ sectionWords ss) :
    readEvents pkt = some (sectionEvents ss) := by
  have hlen : pkt.fields.length = 4 + (sectionWords ss).length := by
    rw [hfields, List.length_append, hheader]
  have hsections := length_sectionWords ss
  obtain ⟨c, hfirst, hahead⟩ := firstEvent_spec hpkt hheader hfields .new
  rw [readEvents, hfirst, Option.bind_some]
  exact eventsFrom_eq hpkt hahead (by omega)

end Adara.Spec.BankedFormat
