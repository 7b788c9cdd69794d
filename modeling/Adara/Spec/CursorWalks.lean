import Adara.ForStd.Runs
import Adara.Spec.BankedFormat
import Adara.Spec.SectionWalks

/-! # Walking banked events with the cursor

The cursor of a `BankedEventPkt` is moved by `firstEvent` and `nextEvent`, in any order.  Each
move is described by what has to be walkable for it (`Moved`): it leaves the payload, or comes
to the end, or to an event with something walkable behind its bank.  So all moves stay in the
payload just if its sections are walkable by the rules of the cursor (`run_inside_iff`). -/

namespace Adara.Spec.CursorWalks

open Adara.Native Adara.Native.BankedEventPkt
open BankedFormat (Complete lastFieldIndex_eq)
open SectionWalks

/-! ### The rules of the cursor -/

/-- The words the cursor skips behind the header of a bank, in a payload of `n` words.  Where
    the end of the events does not fit in 32 bits, or seems to be their start, it skips one
    event only. -/
def cursorSkip (n : Nat) (bank : BankSection) : Nat :=
  if bank.eventCount = 0 then 0
  else if bank.eventWords = 0 ∨
      Word32.modulus ≤ n - bank.rpos.length + bank.eventWords then 2
  else bank.eventWords

/-- The rules of the cursor.  The events are in the payload where they are asked for.  Before
    the first event no word may be left at the end, and then one. -/
def cursorRules (events : Prop) (n : Nat) : WalkRules where
  withState := false
  skip := cursorSkip n
  fits := fun bank => events → cursorSkip n bank ≤ bank.rpos.length
  tail := fun found => if found then 1 else 0

/-- The index at which the cursor leaves the events of its bank. -/
def bankEnd (c : EventCursor) : Nat :=
  if Word32.mul 2 c.eventCount = 0 ∨
      Word32.modulus ≤ c.bankStartIndex + 2 + Word32.mul 2 c.eventCount then
    c.bankStartIndex + 4
  else c.bankStartIndex + 2 + Word32.mul 2 c.eventCount

/-- The cursor points to an event of a bank, in a payload of `n` words. -/
structure InBank (n : Nat) (c : EventCursor) : Prop where
  curEvent_eq : c.curEvent = some c.curFieldIndex
  bankNum_le : c.bankNum ≤ c.bankCount
  bankCount_lt : c.bankCount < Word32.modulus
  /-- Every bank before this one has a header. -/
  bankNum_words : 2 * c.bankNum ≤ c.bankStartIndex
  header_le : c.bankStartIndex + 2 ≤ n
  start_le : c.bankStartIndex + 2 ≤ c.curFieldIndex
  eventsLeft : ∃ j, c.curFieldIndex + 2 * (j + 1) = bankEnd c

/-- What is behind the bank of the cursor is walkable, and where the events are asked for, they
    are in the payload. -/
def RestWalkable (events : Prop) (pkt : BankedEventPkt) (c : EventCursor) : Prop :=
  (events → bankEnd c ≤ pkt.fields.length) ∧
    Walkable (cursorRules events pkt.fields.length) true (c.bankCount - c.bankNum)
      (pkt.fields.drop (bankEnd c))

/-- The end of a bank with events is a word, an even number of words behind their start. -/
theorem bankEnd_spec {c : EventCursor} (hstart : c.bankStartIndex + 4 < Word32.modulus) :
    bankEnd c < Word32.modulus ∧ ∃ j, c.bankStartIndex + 2 + 2 * (j + 1) = bankEnd c := by
  have hmod : Word32.modulus = 2 ^ 32 := rfl
  have hmul : Word32.mul 2 c.eventCount = 2 * c.eventCount % 2 ^ 32 := rfl
  unfold bankEnd
  split
  · exact ⟨hstart, 0, rfl⟩
  · constructor
    · omega
    · exact ⟨Word32.mul 2 c.eventCount / 2 - 1, by omega⟩

variable {events : Prop} {pkt : BankedEventPkt} {c : EventCursor} {found : Bool}

/-! ### Banks -/

section Banks

/-- A search for a bank with events from `start` on leaves the payload where it is not
    walkable.  Else it passes some banks, or finds an event. -/
inductive Searched (events : Prop) (pkt : BankedEventPkt) (found : Bool) (walkable : Prop)
    (start : Nat) : Option EventCursor → Prop
  | left (h : ¬ walkable) : Searched events pkt found walkable start none
  | passed {c : EventCursor} (hcur : c.curEvent = none) (hle : start ≤ c.curFieldIndex)
      (h : walkable ↔ Walkable (cursorRules events pkt.fields.length) found 0
        (pkt.fields.drop c.curFieldIndex)) :
      Searched events pkt found walkable start (some c)
  | found {c : EventCursor} (hin : InBank pkt.fields.length c) (hlt : start < c.curFieldIndex)
      (h : walkable ↔ RestWalkable events pkt c) :
      Searched events pkt found walkable start (some c)

theorem Searched.congr {walkable walkable' : Prop} {start start' : Nat}
    {result : Option EventCursor} (hiff : walkable' ↔ walkable) (hle : start' ≤ start)
    (h : Searched events pkt found walkable start result) :
    Searched events pkt found walkable' start' result := by
  cases h with
  | left h => exact .left (mt hiff.mp h)
  | passed hcur hle' h => exact .passed hcur (Nat.le_trans hle hle') (hiff.trans h)
  | found hin hlt h => exact .found hin (Nat.lt_of_le_of_lt hle hlt) (hiff.trans h)

/-- A header that is cut off is read outside the payload. -/
theorem firstEventInBank_none
    (hread : readBankHeader false (pkt.fields.drop c.curFieldIndex) = none)
    (hpkt : Complete pkt) : firstEventInBank pkt c = none := by
  have hlt := hpkt.length_lt
  have hmod : Word32.modulus = 2 ^ 32 := rfl
  have hfirst : pkt.fields[c.curFieldIndex]? = (pkt.fields.drop c.curFieldIndex)[0]? := by
    rw [List.getElem?_drop, Nat.add_zero]
  match hdrop : pkt.fields.drop c.curFieldIndex with
  | [] =>
    rw [hdrop] at hfirst
    simp only [firstEventInBank, hfirst, List.getElem?_nil]
  | [bankId] =>
    have hlen := congrArg List.length hdrop
    simp only [List.length_drop, List.length_singleton] at hlen
    have hone : Word32.add c.curFieldIndex 1 = c.curFieldIndex + 1 :=
      Word32.add_of_lt (by omega)
    have hsecond : pkt.fields[c.curFieldIndex + 1]? = none :=
      List.getElem?_eq_none (by omega)
    rw [hdrop] at hfirst
    simp only [firstEventInBank, hone, hsecond, hfirst, List.getElem?_cons_zero]
  | _ :: _ :: _ =>
    rw [hdrop] at hread
    cases hread

/-- The words of a header that is read, and the cursor behind it. -/
theorem firstEventInBank_some {bank : BankSection} (hpkt : Complete pkt)
    (hread : readBankHeader false (pkt.fields.drop c.curFieldIndex) = some bank) :
    c.curFieldIndex + 2 + bank.rpos.length = pkt.fields.length ∧
      pkt.fields.drop (c.curFieldIndex + 2) = bank.rpos ∧
      ∃ bankId, firstEventInBank pkt c = some { c with
        bankStartIndex := c.curFieldIndex
        bankId
        eventCount := bank.eventCount
        curFieldIndex := c.curFieldIndex + 2
        curEvent := if 0 < bank.eventCount then some (c.curFieldIndex + 2) else none } := by
  have hlt := hpkt.length_lt
  have hmod : Word32.modulus = 2 ^ 32 := rfl
  match hdrop : pkt.fields.drop c.curFieldIndex with
  | [] =>
    rw [hdrop] at hread
    cases hread
  | [_] =>
    rw [hdrop] at hread
    cases hread
  | bankId :: eventCount :: rpos =>
    rw [hdrop] at hread
    cases hread
    have hlen := congrArg List.length hdrop
    simp only [List.length_drop, List.length_cons] at hlen
    have hone : Word32.add c.curFieldIndex 1 = c.curFieldIndex + 1 :=
      Word32.add_of_lt (by omega)
    have htwo : Word32.add c.curFieldIndex 2 = c.curFieldIndex + 2 :=
      Word32.add_of_lt (by omega)
    have hheader : pkt.fields.drop c.curFieldIndex = [bankId, eventCount] ++ rpos := hdrop
    have hid : pkt.fields[c.curFieldIndex]? = some bankId :=
      BankedFormat.getElem?_of_drop (k := 0) hheader rfl
    have hcount : pkt.fields[c.curFieldIndex + 1]? = some eventCount :=
      BankedFormat.getElem?_of_drop hheader rfl
    refine ⟨?_, ?_, bankId, ?_⟩
    · show c.curFieldIndex + 2 + rpos.length = pkt.fields.length
      omega
    · rw [← List.drop_drop, hdrop]
      rfl
    · simp only [firstEventInBank, hone, htwo, hid, hcount]

/-- In a bank with events the cursor points to the first, and what is left is what is behind
    them. -/
theorem searched_event {bank : BankSection} {bankId : UInt32} {k : Nat} (hpkt : Complete pkt)
    (hread : readBankHeader false (pkt.fields.drop c.curFieldIndex) = some bank)
    (hcount : 0 < bank.eventCount) (hnum : c.bankNum + k = c.bankCount)
    (hlt : c.bankCount < Word32.modulus) (hwords : 2 * c.bankNum ≤ c.curFieldIndex) :
    Searched events pkt found
      (Walkable (cursorRules events pkt.fields.length) found (k + 1)
        (pkt.fields.drop c.curFieldIndex)) c.curFieldIndex
      (some { c with
        bankStartIndex := c.curFieldIndex
        bankId
        eventCount := bank.eventCount
        curFieldIndex := c.curFieldIndex + 2
        curEvent := some (c.curFieldIndex + 2) }) := by
  have hfields := hpkt.length_lt
  have hmod : Word32.modulus = 2 ^ 32 := rfl
  obtain ⟨hlen, hdrop, -⟩ := firstEventInBank_some hpkt hread
  set c' : EventCursor := { c with
    bankStartIndex := c.curFieldIndex
    bankId
    eventCount := bank.eventCount
    curFieldIndex := c.curFieldIndex + 2
    curEvent := some (c.curFieldIndex + 2) } with hc'
  have hstart : c'.bankStartIndex = c.curFieldIndex := rfl
  -- what the cursor skips is what the rules of the walk skip
  have hend : bankEnd c' = c.curFieldIndex + 2 + cursorSkip pkt.fields.length bank := by
    have hpos : pkt.fields.length - bank.rpos.length = c.curFieldIndex + 2 := by omega
    have hwords : Word32.mul 2 c'.eventCount = bank.eventWords := rfl
    rw [bankEnd, cursorSkip, if_neg (show ¬ bank.eventCount = 0 by omega), hpos, hwords, hstart]
    split <;> rfl
  obtain ⟨-, hleft⟩ := bankEnd_spec (c := c') (by omega)
  refine .found
    { curEvent_eq := rfl
      bankNum_le := show c.bankNum ≤ c.bankCount by omega
      bankCount_lt := hlt
      bankNum_words := hwords
      header_le := show c.curFieldIndex + 2 ≤ _ by omega
      start_le := Nat.le_refl _
      eventsLeft := hleft } (Nat.lt_add_of_pos_right (by decide)) ?_
  have hbanks : c'.bankCount - c'.bankNum = k := show c.bankCount - c.bankNum = k by omega
  have hbehind : bank.rpos.drop (cursorSkip pkt.fields.length bank) =
      pkt.fields.drop (bankEnd c') := by
    rw [hend, ← List.drop_drop, hdrop]
  rw [walkable_bank_iff hread, RestWalkable, hbanks]
  -- a bank with events counts as found from here on
  have hfound : (found || decide (0 < bank.eventCount)) = true := by simp [hcount]
  rw [hfound, ← hbehind, hend]
  have hfits : (cursorRules events pkt.fields.length).fits bank ↔
      (events → c.curFieldIndex + 2 + cursorSkip pkt.fields.length bank ≤ pkt.fields.length) := by
    show (events → cursorSkip pkt.fields.length bank ≤ bank.rpos.length) ↔ _
    exact imp_congr_right fun _ => by omega
  exact and_congr_left fun _ => hfits

/-- The loop over the banks of a source, with `k` banks to go. -/
theorem searchBanks_spec {k fuel : Nat} (hpkt : Complete pkt) (hcur : c.curEvent = none)
    (hnum : c.bankNum + k = c.bankCount + 1) (hlt : c.bankCount < Word32.modulus)
    (hwords : 2 * c.bankNum ≤ c.curFieldIndex)
    (hfuel : (pkt.fields.drop c.curFieldIndex).length < fuel) :
    Searched events pkt found
      (Walkable (cursorRules events pkt.fields.length) found k
        (pkt.fields.drop c.curFieldIndex)) c.curFieldIndex
      (searchBanks pkt fuel c) := by
  have hfields := hpkt.length_lt
  have hmod : Word32.modulus = 2 ^ 32 := rfl
  induction k generalizing c fuel with
  | zero =>
    obtain ⟨fuel, rfl⟩ : ∃ n, fuel = n + 1 := ⟨fuel - 1, by omega⟩
    rw [searchBanks, if_neg (by omega)]
    exact .passed hcur (Nat.le_refl _) Iff.rfl
  | succ k ih =>
    obtain ⟨fuel, rfl⟩ : ∃ n, fuel = n + 1 := ⟨fuel - 1, by omega⟩
    rw [searchBanks, if_pos ⟨by omega, hcur⟩]
    cases hread : readBankHeader false (pkt.fields.drop c.curFieldIndex) with
    | none =>
      rw [firstEventInBank_none hread hpkt]
      exact .left (not_walkable_bank hread)
    | some bank =>
      obtain ⟨hlen, hdrop, bankId, hfirst⟩ := firstEventInBank_some hpkt hread
      rw [List.length_drop] at hfuel
      rw [hfirst, Option.bind_some]
      by_cases hcount : 0 < bank.eventCount
      · -- the search ends here
        obtain ⟨fuel, rfl⟩ : ∃ n, fuel = n + 1 := ⟨fuel - 1, by omega⟩
        simp only [if_pos hcount, reduceCtorEq, if_false]
        rw [searchBanks, if_neg (fun h => Option.some_ne_none _ h.2)]
        exact searched_event hpkt hread hcount (by omega) hlt hwords
      · -- an empty bank is passed
        have hzero : bank.eventCount = 0 := by omega
        have hnext : Word32.add c.bankNum 1 = c.bankNum + 1 := Word32.add_of_lt (by omega)
        simp only [if_neg hcount, if_true, hnext]
        refine Searched.congr ?_ (Nat.le_add_right _ 2) (ih (c := { c with
          bankStartIndex := c.curFieldIndex, bankId, eventCount := bank.eventCount
          curFieldIndex := c.curFieldIndex + 2, curEvent := none, bankNum := c.bankNum + 1 })
          rfl ?_ hlt ?_ ?_)
        · have hskip : cursorSkip pkt.fields.length bank = 0 := if_pos hzero
          have hfits : (cursorRules events pkt.fields.length).fits bank :=
            fun _ => (Nat.le_of_eq hskip).trans (Nat.zero_le _)
          have hfound : (found || decide (0 < bank.eventCount)) = found := by simp [hcount]
          have hbehind : bank.rpos.drop ((cursorRules events pkt.fields.length).skip bank) =
              pkt.fields.drop (c.curFieldIndex + 2) := by
            show bank.rpos.drop (cursorSkip _ _) = _
            rw [hskip, hdrop, List.drop_zero]
          rw [walkable_bank_iff hread, hfound, hbehind]
          exact and_iff_right hfits
        · show c.bankNum + 1 + k = c.bankCount + 1
          omega
        · show 2 * (c.bankNum + 1) ≤ c.curFieldIndex + 2
          omega
        · show (pkt.fields.drop (c.curFieldIndex + 2)).length < fuel
          rw [List.length_drop]
          omega

end Banks

/-! ### Sources -/

/-- The search in one source, that starts with more words than may be left at the end. -/
theorem firstEventInSource_spec (hpkt : Complete pkt) (hcur : c.curEvent = none)
    (hmore : c.curFieldIndex + (if found then 1 else 0) < pkt.fields.length) :
    Searched events pkt found
      (Walkable (cursorRules events pkt.fields.length) found 0
        (pkt.fields.drop c.curFieldIndex)) (c.curFieldIndex + 4)
      (firstEventInSource pkt c) := by
  have hlt := hpkt.length_lt
  have hmod : Word32.modulus = 2 ^ 32 := rfl
  have hthree : Word32.add c.curFieldIndex 3 = c.curFieldIndex + 3 := Word32.add_of_lt (by omega)
  have hlen : (pkt.fields.drop c.curFieldIndex).length =
      pkt.fields.length - c.curFieldIndex := List.length_drop
  by_cases hheader : c.curFieldIndex + 4 ≤ pkt.fields.length
  · match hdrop : pkt.fields.drop c.curFieldIndex with
    | [] | [_] | [_, _] | [_, _, _] =>
      rw [hdrop] at hlen
      simp only [List.length_cons, List.length_nil] at hlen
      omega
    | sourceId :: intraPulse :: tof :: bankCount :: rest =>
      have hwords : pkt.fields.drop c.curFieldIndex =
          [sourceId, intraPulse, tof, bankCount] ++ rest := hdrop
      have htof : pkt.fields[c.curFieldIndex + 2]? = some tof :=
        BankedFormat.getElem?_of_drop hwords rfl
      have hbanks : pkt.fields[c.curFieldIndex + 3]? = some bankCount :=
        BankedFormat.getElem?_of_drop hwords rfl
      have hrest : pkt.fields.drop (c.curFieldIndex + 4) = rest :=
        BankedFormat.drop_of_drop hwords rfl
      have htwo : Word32.add c.curFieldIndex 2 = c.curFieldIndex + 2 :=
        Word32.add_of_lt (by omega)
      have hfour : Word32.add c.curFieldIndex 4 = c.curFieldIndex + 4 :=
        Word32.add_of_lt (by omega)
      have hsource : Walkable (cursorRules events pkt.fields.length) found 0
            (sourceId :: intraPulse :: tof :: bankCount :: rest) ↔
          Walkable (cursorRules events pkt.fields.length) found bankCount.toNat
            (pkt.fields.drop (c.curFieldIndex + 4)) := by
        rw [hrest]
        refine walkable_source_iff (show (if found then 1 else 0) < rest.length + 4 from ?_)
        split <;> omega
      simp only [firstEventInSource, htwo, hthree, hfour, hbanks, htof]
      by_cases hcount : 0 < bankCount.toNat
      · rw [if_pos hcount]
        refine Searched.congr hsource (Nat.le_refl _) (searchBanks_spec (c := { c with
          sourceStartIndex := c.curFieldIndex, bankCount := bankCount.toNat
          tofOffset := if tof &&& 0x7fffffff != 0 then 1 else 0
          isCorrected := tof &&& 0x80000000 != 0
          bankNum := 1, curFieldIndex := c.curFieldIndex + 4 })
          hpkt hcur (Nat.add_comm ..) bankCount.toNat_lt ?_ ?_)
        · show 2 * 1 ≤ c.curFieldIndex + 4
          omega
        · show (pkt.fields.drop (c.curFieldIndex + 4)).length < _
          rw [List.length_drop]
          omega
      · -- a source without banks
        have hzero : bankCount.toNat = 0 := by omega
        rw [if_neg hcount]
        rw [hzero] at hsource
        exact .passed rfl (Nat.le_refl _) hsource
  · have hnone : pkt.fields[Word32.add c.curFieldIndex 3]? = none := by
      rw [hthree]
      exact List.getElem?_eq_none (by omega)
    simp only [firstEventInSource, hnone]
    refine .left (not_walkable_source ?_ (by omega))
    show (if found then 1 else 0) < _
    omega

/-- A move leaves the payload where what it needs is not walkable, and else goes to the end or
    forward to an event. -/
inductive Moved (events : Prop) (pkt : BankedEventPkt) (walkable : Prop) (start : Nat) :
    Option EventCursor → Prop
  | left (h : ¬ walkable) : Moved events pkt walkable start none
  | ended {c : EventCursor} (hcur : c.curEvent = none) (h : walkable) :
      Moved events pkt walkable start (some c)
  | found {c : EventCursor} (hin : InBank pkt.fields.length c) (hlt : start < c.curFieldIndex)
      (h : walkable ↔ RestWalkable events pkt c) :
      Moved events pkt walkable start (some c)

theorem Moved.congr {walkable walkable' : Prop} {start start' : Nat}
    {result : Option EventCursor} (hiff : walkable' ↔ walkable) (hle : start' ≤ start)
    (h : Moved events pkt walkable start result) : Moved events pkt walkable' start' result := by
  cases h with
  | left h => exact .left (mt hiff.mp h)
  | ended hcur h => exact .ended hcur (hiff.mpr h)
  | found hin hlt h => exact .found hin (Nat.lt_of_le_of_lt hle hlt) (hiff.trans h)

/-- The loop over the sources that goes on while more words are left than may be. -/
theorem searchSources_spec {inPacket : Nat → Bool} {fuel : Nat} (hpkt : Complete pkt)
    (hin : ∀ i, inPacket i ↔ i + (if found then 1 else 0) < pkt.fields.length)
    (hcur : c.curEvent = none) (hfuel : (pkt.fields.drop c.curFieldIndex).length < fuel) :
    Moved events pkt
      (Walkable (cursorRules events pkt.fields.length) found 0
        (pkt.fields.drop c.curFieldIndex)) c.curFieldIndex
      (searchSources pkt inPacket fuel c) := by
  induction fuel generalizing c with
  | zero => omega
  | succ fuel ih =>
    rw [searchSources]
    by_cases hmore : inPacket c.curFieldIndex
    · have hlt := (hin _).mp hmore
      rw [if_pos ⟨hcur, hmore⟩]
      have hsearched := @firstEventInSource_spec events pkt c found hpkt hcur hlt
      generalize firstEventInSource pkt c = result at hsearched
      rw [List.length_drop] at hfuel
      cases hsearched with
      | left h => exact .left h
      | @passed c' hcur' hle h =>
        refine Moved.congr h (by omega) (ih hcur' ?_)
        rw [List.length_drop]
        omega
      | @found c' hin' hlt' h =>
        -- the loop ends at the event
        obtain ⟨fuel, rfl⟩ : ∃ n, fuel = n + 1 := ⟨fuel - 1, by omega⟩
        have hsome : ¬ (c'.curEvent = none ∧ inPacket c'.curFieldIndex = true) := by
          rw [hin'.curEvent_eq]
          exact fun h => Option.some_ne_none _ h.1
        rw [Option.bind_some, searchSources, if_neg hsome]
        exact .found hin' (by omega) h
    · rw [if_neg fun h => hmore h.2]
      refine .ended hcur (.done ?_)
      have hge := mt (hin _).mpr hmore
      show _ ≤ if found then 1 else 0
      rw [List.length_drop]
      omega

/-! ### The calls -/

/-- `firstEvent` needs the whole payload to be walkable. -/
theorem firstEvent_spec (hpkt : Complete pkt) (c : EventCursor) :
    Moved events pkt
      (Walkable (cursorRules events pkt.fields.length) false 0 (pkt.fields.drop 4)) 3
      (firstEvent pkt c) := by
  have hlast := BankedFormat.lastFieldIndex_eq hpkt
  have hheader := hpkt.header_le
  rw [firstEvent]
  refine Moved.congr Iff.rfl (Nat.le_succ 3) (searchSources_spec (c := { c with
    curEvent := none, curFieldIndex := 4 }) hpkt (fun i => ?_) rfl ?_)
  · rw [decide_eq_true_iff, hlast]
    show i ≤ _ ↔ i + 0 < _
    omega
  · show (pkt.fields.drop 4).length < _
    rw [List.length_drop]
    omega

/-- `nextEvent` goes on through the events of the bank, and then to what is behind it. -/
theorem nextEvent_spec (hpkt : Complete pkt) (hin : InBank pkt.fields.length c)
    (hevent : events → c.curFieldIndex + 2 ≤ pkt.fields.length) :
    Moved events pkt (RestWalkable events pkt c) c.curFieldIndex (nextEvent pkt c) := by
  have hfields := hpkt.length_lt
  have hmod : Word32.modulus = 2 ^ 32 := rfl
  have hbanks := hin.bankNum_le
  have hlt := hin.bankCount_lt
  have hwords := hin.bankNum_words
  have hheader := hin.header_le
  have hstart := hin.start_le
  obtain ⟨j, hleft⟩ := hin.eventsLeft
  obtain ⟨hend, -⟩ := bankEnd_spec (c := c) (by omega)
  have hnext : Word32.add c.curFieldIndex 2 = c.curFieldIndex + 2 := Word32.add_of_lt (by omega)
  -- the test for the end of the bank does not go wrong where the end fits
  have htest : c.curFieldIndex + 2 <
        Word32.add (Word32.add c.bankStartIndex 2) (Word32.mul 2 c.eventCount) ↔
      c.curFieldIndex + 2 < bankEnd c := by
    have hmul : Word32.mul 2 c.eventCount < 2 ^ 32 := Word32.mul_lt _ _
    have hheaderEnd : Word32.add c.bankStartIndex 2 = c.bankStartIndex + 2 :=
      Word32.add_of_lt (by omega)
    have hadd : Word32.add (c.bankStartIndex + 2) (Word32.mul 2 c.eventCount) =
      (c.bankStartIndex + 2 + Word32.mul 2 c.eventCount) % 2 ^ 32 := rfl
    rw [hheaderEnd, hadd]
    by_cases hwraps : Word32.mul 2 c.eventCount = 0 ∨
        Word32.modulus ≤ c.bankStartIndex + 2 + Word32.mul 2 c.eventCount
    · have hone : bankEnd c = c.bankStartIndex + 4 := if_pos hwraps
      omega
    · have hall : bankEnd c = c.bankStartIndex + 2 + Word32.mul 2 c.eventCount := if_neg hwraps
      omega
  simp only [nextEvent, hin.curEvent_eq, hnext, htest]
  by_cases hlast : c.curFieldIndex + 2 < bankEnd c
  · rw [if_pos hlast]
    refine .found { hin with
      curEvent_eq := rfl
      start_le := show c.bankStartIndex + 2 ≤ c.curFieldIndex + 2 by omega
      eventsLeft := ⟨j - 1, ?_⟩ } (Nat.lt_add_of_pos_right (by decide)) Iff.rfl
    show c.curFieldIndex + 2 + 2 * (j - 1 + 1) = bankEnd c
    omega
  · have hcur : c.curFieldIndex + 2 = bankEnd c := by omega
    have hnum : Word32.add c.bankNum 1 = c.bankNum + 1 := Word32.add_of_lt (by omega)
    rw [if_neg hlast, hnum]
    have hfuel : (pkt.fields.drop (c.curFieldIndex + 2)).length < pkt.fields.length + 1 := by
      rw [List.length_drop]
      omega
    have hsearched := @searchBanks_spec events pkt { c with
        curFieldIndex := c.curFieldIndex + 2, curEvent := none, bankNum := c.bankNum + 1 }
      true (c.bankCount - c.bankNum) (pkt.fields.length + 1) hpkt rfl
      (show c.bankNum + 1 + (c.bankCount - c.bankNum) = c.bankCount + 1 by omega) hlt
      (show 2 * (c.bankNum + 1) ≤ c.curFieldIndex + 2 by omega) hfuel
    have hrest : RestWalkable events pkt c ↔
        Walkable (cursorRules events pkt.fields.length) true (c.bankCount - c.bankNum)
          (pkt.fields.drop (c.curFieldIndex + 2)) := by
      rw [RestWalkable, ← hcur]
      exact and_iff_right hevent
    generalize searchBanks pkt _ _ = result at hsearched
    cases hsearched with
    | left h => exact .left (mt hrest.mp h)
    | @passed c' hcur' hle h =>
      refine Moved.congr (hrest.trans h) ?_ (searchSources_spec hpkt (fun i => ?_) hcur' ?_)
      · exact (Nat.le_add_right _ 2).trans hle
      · have hheader := hpkt.header_le
        rw [decide_eq_true_iff, BankedFormat.lastFieldIndex_eq hpkt]
        show i < _ ↔ i + 1 < _
        omega
      · rw [List.length_drop]
        omega
    | @found c' hin' hlt' h =>
      have hsome : ¬ (c'.curEvent = none ∧
          decide (c'.curFieldIndex < pkt.lastFieldIndex) = true) := by
        rw [hin'.curEvent_eq]
        exact fun h => Option.some_ne_none _ h.1
      rw [Option.bind_some, searchSources, if_neg hsome]
      exact .found hin' ((Nat.le_add_right _ 2).trans_lt hlt') (hrest.trans h)

/-! ### Runs -/

/-- A cursor with nothing or something walkable ahead. -/
def Ahead (events : Prop) (pkt : BankedEventPkt) (c : EventCursor) : Prop :=
  c.curEvent = none ∨ InBank pkt.fields.length c ∧ RestWalkable events pkt c

/-- The event of a cursor is in the payload, where it is asked for. -/
def EventInside (events : Prop) (pkt : BankedEventPkt) (c : EventCursor) : Prop :=
  events → ∀ i, c.curEvent = some i → i + 1 < pkt.fields.length

theorem InBank.eventInside (hin : InBank pkt.fields.length c) :
    EventInside events pkt c ↔ (events → c.curFieldIndex + 2 ≤ pkt.fields.length) := by
  refine imp_congr_right fun _ => ?_
  rw [hin.curEvent_eq]
  constructor
  · exact fun h => h _ rfl
  · rintro h _ ⟨⟩
    exact h

theorem Ahead.eventInside (h : Ahead events pkt c) : EventInside events pkt c := by
  rcases h with hnone | ⟨hin, hrest⟩
  · intro _ i hi
    rw [hnone] at hi
    cases hi
  · rw [hin.eventInside]
    obtain ⟨j, hleft⟩ := hin.eventsLeft
    intro hevents
    have hend := hrest.1 hevents
    omega

/-- What can be moved to when all is walkable. -/
theorem Moved.ahead {walkable : Prop} {start : Nat} {result : Option EventCursor}
    (h : Moved events pkt walkable start result) (hwalkable : walkable) :
    ∃ c, result = some c ∧ Ahead events pkt c := by
  cases h with
  | left h => exact absurd hwalkable h
  | @ended c hcur _ => exact ⟨c, rfl, .inl hcur⟩
  | @found c hin _ h => exact ⟨c, rfl, .inr ⟨hin, h.mp hwalkable⟩⟩

/-- In a walkable payload every call keeps something walkable ahead. -/
theorem cursorStep_ahead (hpkt : Complete pkt)
    (hwalkable : Walkable (cursorRules events pkt.fields.length) false 0 (pkt.fields.drop 4))
    (h : Ahead events pkt c) (call : CursorCall) :
    ∃ c', cursorStep pkt c call = some c' ∧ Ahead events pkt c' := by
  cases call with
  | firstEvent => exact (firstEvent_spec hpkt c).ahead hwalkable
  | nextEvent =>
    rcases h with hnone | ⟨hin, hrest⟩
    · exact ⟨c, by simp only [cursorStep, nextEvent, hnone], .inl hnone⟩
    · have hinside : EventInside events pkt c := Ahead.eventInside (.inr ⟨hin, hrest⟩)
      exact (nextEvent_spec hpkt hin (hin.eventInside.mp hinside)).ahead hrest

/-- Where all further calls stay inside, what is behind the bank is walkable. -/
theorem restWalkable_of_inside {c : EventCursor} (hpkt : Complete pkt)
    (hin : InBank pkt.fields.length c)
    (h : ∀ calls, ∃ c', Runs.run (cursorStep pkt) c calls = some c' ∧ EventInside events pkt c') :
    RestWalkable events pkt c := by
  obtain ⟨c', hrun, hinside⟩ := h []
  cases hrun
  have hmoved := nextEvent_spec hpkt hin (hin.eventInside.mp hinside)
  have hrest : ∀ c', nextEvent pkt c = some c' → ∀ calls, ∃ c'',
      Runs.run (cursorStep pkt) c' calls = some c'' ∧ EventInside events pkt c'' := by
    intro c' hnext calls
    obtain ⟨c'', hrun, hinside⟩ := h (.nextEvent :: calls)
    rw [Runs.run, cursorStep, hnext] at hrun
    exact ⟨c'', hrun, hinside⟩
  -- every move goes forward, so there are only finitely many
  have hlt : c.curFieldIndex < Word32.modulus := by
    obtain ⟨j, hleft⟩ := hin.eventsLeft
    have hheader := hin.header_le
    have hfields := hpkt.length_lt
    have hmod : Word32.modulus = 2 ^ 32 := rfl
    obtain ⟨hend, -⟩ := bankEnd_spec (c := c) (by omega)
    omega
  cases hnext : nextEvent pkt c with
  | none =>
    obtain ⟨c'', hrun, -⟩ := h [.nextEvent]
    rw [Runs.run, cursorStep, hnext] at hrun
    cases hrun
  | some c' =>
    rw [hnext] at hmoved
    cases hmoved with
    | ended _ h => exact h
    | found hin' hforward hiff =>
      exact hiff.mpr (restWalkable_of_inside hpkt hin' (hrest c' hnext))
termination_by Word32.modulus - c.curFieldIndex

/-- All calls stay in the payload, to events in it where these are asked for, just if the
    sections are walkable. -/
theorem run_inside_iff (hpkt : Complete pkt) :
    (∀ calls, ∃ c, Runs.run (cursorStep pkt) .new calls = some c ∧ EventInside events pkt c) ↔
      Walkable (cursorRules events pkt.fields.length) false 0 (pkt.fields.drop 4) := by
  constructor
  · intro h
    have hmoved := @firstEvent_spec events pkt hpkt .new
    cases hfirst : firstEvent pkt .new with
    | none =>
      obtain ⟨c, hrun, -⟩ := h [.firstEvent]
      rw [Runs.run, cursorStep, hfirst] at hrun
      cases hrun
    | some c =>
      rw [hfirst] at hmoved
      cases hmoved with
      | ended _ h => exact h
      | found hin _ hiff =>
        refine hiff.mpr (restWalkable_of_inside hpkt hin fun calls => ?_)
        obtain ⟨c', hrun, hinside⟩ := h (.firstEvent :: calls)
        rw [Runs.run, cursorStep, hfirst] at hrun
        exact ⟨c', hrun, hinside⟩
  · intro hwalkable calls
    have hstep : ∀ c call, Ahead events pkt c → True →
        ∃ c', cursorStep pkt c call = some c' ∧ Ahead events pkt c' :=
      fun _ call h _ => cursorStep_ahead hpkt hwalkable h call
    have hnew : Ahead events pkt .new := .inl rfl
    obtain ⟨c, hrun, hahead⟩ :=
      Runs.exists_run_along hstep hnew (Runs.along_of_forall fun _ _ => trivial)
    exact ⟨c, hrun, hahead.eventInside⟩

end Adara.Spec.CursorWalks
