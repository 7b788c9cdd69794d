import Adara.Native.POSIXParser
import Adara.Spec.Framing

/-! # The request to stop

What a call of `bufferParse` hands to the callbacks is the beginning of what its bytes hold, up
to the first delivery that is not answered with `false` (`bufferParse_spec`).  So the call stops
at a request, and goes on behind what was delivered.  The request is told by the sign of the
number of packets, which has none when no packet was completed: a request for a first chunk,
or one for a chunk that does not end its packet, is lost. -/

namespace Adara.Spec.ParserStop

open Adara.Native Adara.Native.Parser Adara.Spec.Framing

/-! ### Deliveries ahead -/

/-- The bytes of a delivery. -/
def bytes : Delivery → List UInt8
  | .packet data => data
  | .oversize _ chunk _ => chunk

/-- A delivery to come, and whether it completes a packet. -/
structure Planned where
  delivery : Delivery
  completes : Bool
deriving DecidableEq, Repr

/-- What the bytes at a packet boundary hold for the packet loop. -/
def packetsAhead (buffer : List UInt8) (maxSize : Nat) : (budget pos validLen : Nat) → List Planned
  | 0, _, _ => []
  | budget + 1, pos, validLen =>
    if validLen < PacketHeader.headerLength then []
    else
      let hdr := PacketHeader.ofBytes (buffer.drop pos)
      if hdr.payloadLen % 4 ≠ 0 then []
      else if maxSize < hdr.packetLength then
        [⟨.oversize (some hdr) ((buffer.drop pos).take validLen) 0, false⟩]
      else if buffer.length < hdr.packetLength ∨ validLen < hdr.packetLength then []
      else
        ⟨.packet ((buffer.drop pos).take hdr.packetLength), true⟩ ::
          packetsAhead buffer maxSize budget (pos + hdr.packetLength)
            (validLen - hdr.packetLength)

/-- The deliveries up to the first that is not answered with `false`. -/
def untilStop (cb : Callbacks) : List Delivery → List Planned → List Planned
  | _, [] => []
  | log, d :: ds =>
    if cb (log ++ [d.delivery]) = .proceed then d :: untilStop cb (log ++ [d.delivery]) ds
    else [d]

/-- The answer to the last delivery, if one was made. -/
def answer (cb : Callbacks) (log : List Delivery) (made : List Planned) : Reply :=
  if made = [] then .proceed else cb (log ++ made.map (·.delivery))

/-- The number of packets that are completed. -/
def completed (made : List Planned) : Nat := made.countP (·.completes)

@[simp] theorem answer_nil (cb : Callbacks) (log : List Delivery) : answer cb log [] = .proceed := rfl

@[simp] theorem answer_singleton (cb : Callbacks) (log : List Delivery) (d : Planned) :
    answer cb log [d] = cb (log ++ [d.delivery]) := rfl

theorem answer_cons {cb : Callbacks} {log : List Delivery} {d : Planned} {ds : List Planned}
    (h : cb (log ++ [d.delivery]) = .proceed) :
    answer cb log (d :: ds) = answer cb (log ++ [d.delivery]) ds := by
  cases ds with
  | nil => simp [answer, h]
  | cons e ds => simp [answer]

theorem completed_append (before after : List Planned) :
    completed (before ++ after) = completed before + completed after := List.countP_append

theorem completed_cons (d : Planned) (made : List Planned) :
    completed (d :: made) = completed [d] + completed made := completed_append [d] made

@[simp] theorem untilStop_singleton (cb : Callbacks) (log : List Delivery) (d : Planned) :
    untilStop cb log [d] = [d] := by
  simp [untilStop]

/-! ### The loop -/

/-- The state of a loop that made the deliveries `made`. -/
structure Made (cb : Callbacks) (buffer : List UInt8) {len : Nat} (c : Cursor len)
    (made : List Planned) (c' : Cursor len) : Prop where
  log : c'.log = c.log ++ made.map (·.delivery)
  processed : c'.processed = c.processed + completed made
  stopped : c'.stopped = (answer cb c.log made == .stop)
  window : cursorWindow buffer c = made.flatMap (bytes ·.delivery) ++ cursorWindow buffer c'

/-- How the loop ends, where it comes back at all without an exception. -/
def LoopMade (cb : Callbacks) (buffer : List UInt8) {len : Nat} (c : Cursor len)
    (made : List Planned) : LoopExit len → Prop
  | .finished c' => Made cb buffer c made c'
  | .grown c' _ _ => Made cb buffer c made c' ∧ answer cb c.log made ≠ .stop
  | .threw c' _ => c'.log = c.log ++ made.map (·.delivery) ∧ answer cb c.log made ≠ .stop
  | .hung c' => c'.log = c.log ++ made.map (·.delivery) ∧ answer cb c.log made ≠ .stop

theorem parseLoop_stopped (cb : Callbacks) {buffer : List UInt8} {maxSize len : Nat}
    (hlen : len ≤ buffer.length) (budget : Nat) (c : Cursor len) (hstopped : c.stopped = true) :
    parseLoop cb buffer maxSize hlen budget c = .finished c := by
  cases budget with
  | zero => rfl
  | succ budget => simp [parseLoop, hstopped]

theorem Made.none {cb : Callbacks} {buffer : List UInt8} {len : Nat} {c : Cursor len}
    (hstopped : c.stopped = false) : Made cb buffer c [] c :=
  ⟨by simp, rfl, by rw [hstopped]; rfl, by simp⟩

theorem Made.single {cb : Callbacks} {buffer : List UInt8} {len : Nat} {c c' : Cursor len}
    {d : Planned} (hlog : c'.log = c.log ++ [d.delivery])
    (hprocessed : c'.processed = c.processed + completed [d])
    (hstopped : c'.stopped = (cb c'.log == .stop))
    (hwindow : cursorWindow buffer c = bytes d.delivery ++ cursorWindow buffer c') :
    Made cb buffer c [d] c' :=
  ⟨hlog, hprocessed, by rw [hstopped, hlog]; rfl, by simpa using hwindow⟩

/-- A delivery before the ones that are made next. -/
theorem Made.cons {cb : Callbacks} {buffer : List UInt8} {len : Nat} {c c₁ c' : Cursor len}
    {d : Planned} {made : List Planned} (h : Made cb buffer c₁ made c')
    (hlog : c₁.log = c.log ++ [d.delivery]) (hreply : cb c₁.log = .proceed)
    (hprocessed : c₁.processed = c.processed + completed [d])
    (hwindow : cursorWindow buffer c = bytes d.delivery ++ cursorWindow buffer c₁) :
    Made cb buffer c (d :: made) c' := by
  refine ⟨?_, ?_, ?_, ?_⟩
  · rw [h.log, hlog, List.map_cons, List.append_assoc, List.singleton_append]
  · rw [h.processed, hprocessed, completed_cons d made, Nat.add_assoc]
  · rw [h.stopped, hlog, answer_cons (hlog ▸ hreply)]
  · rw [hwindow, h.window, List.flatMap_cons, List.append_assoc]

theorem LoopMade.cons {cb : Callbacks} {buffer : List UInt8} {len : Nat} {c c₁ : Cursor len}
    {e : LoopExit len} {d : Planned} {made : List Planned} (h : LoopMade cb buffer c₁ made e)
    (hlog : c₁.log = c.log ++ [d.delivery]) (hreply : cb c₁.log = .proceed)
    (hprocessed : c₁.processed = c.processed + completed [d])
    (hwindow : cursorWindow buffer c = bytes d.delivery ++ cursorWindow buffer c₁) :
    LoopMade cb buffer c (d :: made) e := by
  have hlogs : c₁.log ++ made.map (·.delivery) = c.log ++ (d :: made).map (·.delivery) := by
    rw [hlog, List.map_cons, List.append_assoc, List.singleton_append]
  have hanswer : answer cb c.log (d :: made) = answer cb (c.log ++ [d.delivery]) made :=
    answer_cons (hlog ▸ hreply)
  cases e with
  | finished c' => exact Made.cons h hlog hreply hprocessed hwindow
  | grown c' n hn =>
    exact ⟨Made.cons h.1 hlog hreply hprocessed hwindow, by rw [hanswer, ← hlog]; exact h.2⟩
  | threw c' what => exact ⟨h.1.trans hlogs, by rw [hanswer, ← hlog]; exact h.2⟩
  | hung c' => exact ⟨h.1.trans hlogs, by rw [hanswer, ← hlog]; exact h.2⟩

/-- The window behind a delivery of its first `n` bytes. -/
theorem cursorWindow_drop {buffer : List UInt8} {pos validLen n : Nat} (h : n ≤ validLen) :
    (buffer.drop pos).take validLen =
      (buffer.drop pos).take n ++ (buffer.drop (pos + n)).take (validLen - n) := by
  obtain ⟨m, rfl⟩ := Nat.exists_eq_add_of_le h
  rw [List.take_add, List.drop_drop, Nat.add_sub_cancel_left]

theorem parseLoop_made (cb : Callbacks) {buffer : List UInt8} {maxSize len : Nat}
    (hlen : len ≤ buffer.length) (budget : Nat) (c : Cursor len) (hstopped : c.stopped = false) :
    LoopMade cb buffer c
      (untilStop cb c.log (packetsAhead buffer maxSize budget c.pos c.validLen))
      (parseLoop cb buffer maxSize hlen budget c) := by
  induction budget generalizing c with
  | zero => exact Made.none hstopped
  | succ budget ih =>
    simp only [parseLoop, packetsAhead, hstopped, Bool.false_eq_true, or_false]
    split
    · exact Made.none hstopped
    split
    · simp [untilStop, LoopMade]
    split
    · -- the first chunk of an oversize packet
      rw [untilStop_singleton]
      split
      · rename_i what hreply
        refine ⟨rfl, fun hstop => ?_⟩
        rw [answer_singleton] at hstop
        cases hreply.symm.trans hstop
      · exact Made.single rfl rfl rfl (by simp [cursorWindow, bytes])
    split
    · -- the packet is not there as a whole
      rename_i hmissing
      by_cases hsize : buffer.length < (PacketHeader.ofBytes (buffer.drop c.pos)).packetLength
      · rw [dif_pos hsize]
        split
        · simp [untilStop, LoopMade]
        · refine ⟨Made.none hstopped, fun hstop => ?_⟩
          cases hstop
      · rw [dif_neg hsize, dif_pos (hmissing.resolve_left hsize)]
        exact Made.none hstopped
    -- a complete packet
    rename_i hpresent
    obtain ⟨hsize, hvalid⟩ := not_or.mp hpresent
    rw [dif_neg hsize, dif_neg hvalid]
    have hwindow := @cursorWindow_drop buffer c.pos _ _ (Nat.not_lt.mp hvalid)
    split
    · rename_i what hreply
      simp [untilStop, hreply, LoopMade]
    · rename_i hthrows
      cases hreply : cb (c.log ++ [.packet ((buffer.drop c.pos).take
          (PacketHeader.ofBytes (buffer.drop c.pos)).packetLength)]) with
      | throws what => exact absurd hreply (hthrows what)
      | stop =>
        rw [parseLoop_stopped _ _ _ _ rfl]
        simp only [untilStop, hreply, reduceCtorEq, if_false]
        exact Made.single rfl rfl (by rw [hreply]) hwindow
      | proceed =>
        simp only [untilStop, hreply, if_true]
        exact (ih _ rfl).cons rfl hreply rfl hwindow

/-! ### The call -/

/-- The next chunk of an oversize packet that is being received. -/
def chunkAhead (P : Parser) : Planned :=
  let chunkLen := min P.oversizeLen (P.len - P.restartOffset)
  ⟨.oversize none ((P.buffer.drop P.restartOffset).take chunkLen) P.oversizeOffset,
    P.oversizeLen - chunkLen = 0⟩

/-- What the bytes that are not parsed yet hold for a call of `bufferParse`. -/
def ahead (P : Parser) (maxPackets : Nat) : List Planned :=
  let validLen := P.len - P.restartOffset
  let maxPackets := if maxPackets = 0 then P.size else maxPackets
  if validLen = 0 then []
  else if P.oversizeLen = 0 then
    packetsAhead P.buffer P.maxSize maxPackets P.restartOffset validLen
  else
    let chunkLen := min P.oversizeLen validLen
    chunkAhead P ::
      packetsAhead P.buffer P.maxSize (maxPackets - if P.oversizeLen - chunkLen = 0 then 1 else 0)
        (P.restartOffset + chunkLen) (validLen - chunkLen)

/-- The deliveries that a call makes. -/
def made (cb : Callbacks) (P : Parser) (log : List Delivery) (maxPackets : Nat) : List Planned :=
  untilStop cb log (ahead P maxPackets)

/-- What a call of `bufferParse` comes to that made the deliveries `made`. -/
structure CallMade (cb : Callbacks) (P : Parser) (log : List Delivery) (made : List Planned)
    (P' : Parser) (log' : List Delivery) (outcome : Outcome) : Prop where
  delivered : log' = log ++ made.map (·.delivery)
  value : ∀ rc, outcome = .returned rc →
    rc = if answer cb log made = .stop then -Word32.toInt (completed made)
      else Word32.toInt (completed made)
  consumed : ∀ rc, outcome = .returned rc → unparsed P = made.flatMap (bytes ·.delivery) ++ unparsed P'
  returns : answer cb log made = .stop → ∃ rc, outcome = .returned rc

/-- The end of a call, from the end of the packet loop. -/
def close (P : Parser) (maxPackets : Nat) : LoopExit P.len → Parser × List Delivery × Outcome
  | .threw c what => (abandon P c, c.log, .threw what)
  | .hung c => (abandon P c, c.log, .hung)
  | .grown c newSize hfits => (grow P c newSize hfits, c.log, .returned (Word32.toInt c.processed))
  | .finished c =>
    (finishParse P maxPackets c, c.log,
      .returned (if c.stopped then -Word32.toInt c.processed else Word32.toInt c.processed))

theorem start_fits (P : Parser) :
    P.len - P.restartOffset = 0 ∨ P.restartOffset + (P.len - P.restartOffset) = P.len := by
  have := P.restart_le_len
  omega

/-- The cursor at the beginning of a call. -/
def start (P : Parser) (log : List Delivery) : Cursor P.len where
  pos := P.restartOffset
  validLen := P.len - P.restartOffset
  processed := 0
  stopped := false
  oversizeLen := P.oversizeLen
  oversizeOffset := P.oversizeOffset
  log
  fits := start_fits P

/-- The cursor behind the chunk with which a call begins. -/
def afterChunk (P : Parser) (log : List Delivery) (stopped : Bool) : Cursor P.len :=
  let chunkLen := min P.oversizeLen (P.len - P.restartOffset)
  { pos := P.restartOffset + chunkLen
    validLen := P.len - P.restartOffset - chunkLen
    processed := if P.oversizeLen - chunkLen = 0 then 1 else 0
    stopped
    oversizeLen := P.oversizeLen - chunkLen
    oversizeOffset := Word32.add P.oversizeOffset chunkLen
    log := log ++ [(chunkAhead P).delivery]
    fits := by have := P.restart_le_len; omega }

theorem afterChunk_processed (P : Parser) (log : List Delivery) (stopped : Bool) :
    (afterChunk P log stopped).processed = (start P log).processed + completed [chunkAhead P] := by
  simp [afterChunk, start, completed, chunkAhead, List.countP_singleton]

theorem startParse_closed (cb : Callbacks) {P : Parser} (log : List Delivery)
    (hclosed : P.oversizeLen = 0) : startParse cb P log = .ok (start P log) := by
  simp [startParse, hclosed, start]

theorem startParse_open (cb : Callbacks) {P : Parser} (log : List Delivery)
    (hopen : P.oversizeLen ≠ 0) :
    startParse cb P log =
      match cb (log ++ [(chunkAhead P).delivery]) with
      | .throws what => .error ({ start P log with
          log := log ++ [(chunkAhead P).delivery], fits := (start P log).fits }, what)
      | reply => .ok (afterChunk P log (reply == .stop)) := by
  have hchunk : (chunkAhead P).delivery = .oversize none ((P.buffer.drop P.restartOffset).take
      (min P.oversizeLen (P.len - P.restartOffset))) P.oversizeOffset := rfl
  simp only [startParse, if_neg hopen, oversizeChunk, ← hchunk]
  cases cb (log ++ [(chunkAhead P).delivery]) <;> rfl

section Call

variable {cb : Callbacks} {P : Parser} {log : List Delivery} {made : List Planned}

theorem close_made (maxPackets : Nat) {e : LoopExit P.len}
    (h : LoopMade cb P.buffer (start P log) made e) :
    CallMade cb P log made (close P maxPackets e).1 (close P maxPackets e).2.1
      (close P maxPackets e).2.2 := by
  cases e with
  | finished c =>
    refine ⟨h.log, ?_, ?_, fun _ => ⟨_, rfl⟩⟩
    · rintro _ ⟨⟩
      rw [h.processed, h.stopped]
      simp [start]
    · intro _ _
      exact h.window.trans (by rw [close, unparsed_finishParse])
  | grown c newSize hfits =>
    refine ⟨h.1.log, ?_, ?_, fun hs => absurd hs h.2⟩
    · rintro _ ⟨⟩
      have hgoes : answer cb log made ≠ .stop := h.2
      rw [if_neg hgoes, h.1.processed, start, Nat.zero_add]
    · intro _ _
      exact h.1.window.trans (by rw [close, unparsed_grow])
  | threw c what | hung c =>
    refine ⟨h.1, ?_, ?_, fun hs => absurd hs h.2⟩
    · rintro _ ⟨⟩
    · rintro _ ⟨⟩

/-- What a call of `bufferParse` does. -/
theorem bufferParse_spec (cb : Callbacks) (P : Parser) (log : List Delivery) (maxPackets : Nat) :
    CallMade cb P log (ParserStop.made cb P log maxPackets) (bufferParse cb P log maxPackets).1
      (bufferParse cb P log maxPackets).2.1 (bufferParse cb P log maxPackets).2.2 := by
  simp only [bufferParse, ParserStop.made, ahead]
  split
  · refine ⟨by simp [untilStop], ?_, ?_, fun _ => ⟨_, rfl⟩⟩
    · rintro _ ⟨⟩
      rfl
    · intro _ _
      simp [untilStop]
  · generalize (if maxPackets = 0 then P.size else maxPackets) = maxPackets
    by_cases hclosed : P.oversizeLen = 0
    · rw [startParse_closed cb log hclosed, if_pos hclosed]
      exact close_made maxPackets (parseLoop_made cb P.len_le_size maxPackets (start P log) rfl)
    · -- the call begins inside an oversize packet
      have hwindow := @cursorWindow_drop P.buffer P.restartOffset _ _
        (Nat.min_le_right P.oversizeLen (P.len - P.restartOffset))
      rw [startParse_open cb log hclosed, if_neg hclosed]
      cases hreply : cb (log ++ [(chunkAhead P).delivery]) with
      | throws what =>
        simp only [untilStop, hreply, reduceCtorEq, if_false]
        refine ⟨rfl, ?_, ?_, fun hs => ?_⟩
        · rintro _ ⟨⟩
        · rintro _ ⟨⟩
        · cases hreply.symm.trans hs
      | stop =>
        simp only [untilStop, hreply, reduceCtorEq, if_false]
        have hloop : LoopMade cb P.buffer (start P log) [chunkAhead P]
            (parseLoop cb P.buffer P.maxSize P.len_le_size
              (maxPackets - (afterChunk P log true).processed) (afterChunk P log true)) := by
          rw [parseLoop_stopped _ _ _ _ rfl]
          exact Made.single rfl (afterChunk_processed P log true)
            (by rw [afterChunk, hreply]; rfl) hwindow
        exact close_made maxPackets hloop
      | proceed =>
        simp only [untilStop, hreply, if_true]
        exact close_made maxPackets
          ((parseLoop_made cb P.len_le_size _ (afterChunk P log false) rfl).cons rfl hreply
            (afterChunk_processed P log false) hwindow)

end Call

/-! ### Requests -/

/-- A callback for one of the deliveries from `log` to `log'` asked to stop. -/
def Asked (cb : Callbacks) (log log' : List Delivery) : Prop :=
  ∃ ds, ds ≠ [] ∧ log ++ ds <+: log' ∧ cb (log ++ ds) = .stop

/-- The callbacks for the deliveries `ds` all return `false`. -/
def Passed (cb : Callbacks) (log : List Delivery) (ds : List Planned) : Prop :=
  ∀ before, before ≠ [] → before <+: ds → cb (log ++ before.map (·.delivery)) = .proceed

theorem passed_cons {cb : Callbacks} {log : List Delivery} {d : Planned} {ds : List Planned} :
    Passed cb log (d :: ds) ↔
      cb (log ++ [d.delivery]) = .proceed ∧ Passed cb (log ++ [d.delivery]) ds := by
  constructor
  · refine fun h => ⟨h [d] nofun (List.prefix_append [d] ds), fun before hne hbefore => ?_⟩
    have hd := h (d :: before) nofun ((List.prefix_cons_inj d).mpr hbefore)
    rwa [List.map_cons, ← List.singleton_append, ← List.append_assoc] at hd
  · rintro ⟨hd, hds⟩ before hne hbefore
    cases before with
    | nil => exact absurd rfl hne
    | cons e before =>
      obtain ⟨rfl, hrest⟩ := List.cons_prefix_cons.mp hbefore
      by_cases hnil : before = []
      · subst hnil
        exact hd
      · rw [List.map_cons, ← List.singleton_append, ← List.append_assoc]
        exact hds before hnil hrest

/-- The deliveries that are passed are made, and what is behind them is looked at next. -/
theorem untilStop_append {cb : Callbacks} {log : List Delivery} {before : List Planned}
    (h : Passed cb log before) (ds : List Planned) :
    untilStop cb log (before ++ ds) =
      before ++ untilStop cb (log ++ before.map (·.delivery)) ds := by
  induction before generalizing log with
  | nil => simp
  | cons d before ih =>
    obtain ⟨hd, hrest⟩ := passed_cons.mp h
    rw [List.cons_append, untilStop, if_pos hd, ih hrest, List.map_cons, List.append_assoc,
      List.singleton_append, List.cons_append]

/-- All deliveries are passed, or there is a first that is not. -/
theorem passed_or_first (cb : Callbacks) (log : List Delivery) (ds : List Planned) :
    Passed cb log ds ∨ ∃ before d after, ds = before ++ d :: after ∧ Passed cb log before ∧
      cb (log ++ before.map (·.delivery) ++ [d.delivery]) ≠ .proceed := by
  induction ds generalizing log with
  | nil => exact .inl fun before hne hbefore => absurd (List.prefix_nil.mp hbefore) hne
  | cons d ds ih =>
    by_cases hd : cb (log ++ [d.delivery]) = .proceed
    · obtain h | ⟨before, e, after, rfl, hbefore, he⟩ := ih (log ++ [d.delivery])
      · exact .inl (passed_cons.mpr ⟨hd, h⟩)
      · refine .inr ⟨d :: before, e, after, rfl, passed_cons.mpr ⟨hd, hbefore⟩, ?_⟩
        rwa [List.map_cons, ← List.singleton_append, ← List.append_assoc]
    · refine .inr ⟨[], d, ds, rfl, fun before hne hbefore => absurd (List.prefix_nil.mp hbefore) hne, ?_⟩
      simpa using hd

/-- All but the last of the deliveries that are made are passed. -/
theorem passed_of_append {cb : Callbacks} {log : List Delivery} {ds before after : List Planned}
    (h : untilStop cb log ds = before ++ after) (hafter : after ≠ []) : Passed cb log before := by
  induction ds generalizing log before with
  | nil => exact absurd (List.append_eq_nil_iff.mp h.symm).2 hafter
  | cons d ds ih =>
    cases before with
    | nil => exact fun before hne hbefore => absurd (List.prefix_nil.mp hbefore) hne
    | cons e before =>
      rw [untilStop] at h
      split at h
      · rename_i hd
        obtain ⟨rfl, hrest⟩ := List.cons.inj h
        exact passed_cons.mpr ⟨hd, ih hrest⟩
      · obtain ⟨rfl, hrest⟩ := List.cons.inj h
        exact absurd (List.append_eq_nil_iff.mp hrest.symm).2 hafter

/-- A request comes with the last delivery that is made. -/
theorem request_last {cb : Callbacks} {log : List Delivery} {ds : List Planned}
    {asked : List Delivery} (hne : asked ≠ [])
    (hasked : log ++ asked <+: log ++ (untilStop cb log ds).map (·.delivery))
    (hstop : cb (log ++ asked) = .stop) : asked = (untilStop cb log ds).map (·.delivery) := by
  obtain ⟨rest, hrest⟩ := (List.prefix_append_right_inj log).mp hasked
  obtain ⟨before, after, hmade, rfl, rfl⟩ := List.map_eq_append_iff.mp hrest.symm
  by_cases hafter : after = []
  · rw [hmade, hafter, List.append_nil]
  · have hpassed := passed_of_append hmade hafter
    have hproceed := hpassed before (fun h => hne (by rw [h, List.map_nil])) (List.prefix_refl before)
    exact nomatch hstop.symm.trans hproceed

theorem asked_iff (cb : Callbacks) (log : List Delivery) (ds : List Planned) :
    Asked cb log (log ++ (untilStop cb log ds).map (·.delivery)) ↔
      answer cb log (untilStop cb log ds) = .stop := by
  constructor
  · rintro ⟨asked, hne, hasked, hstop⟩
    have hlast := request_last hne hasked hstop
    rw [answer, if_neg fun h => hne (by rw [hlast, h, List.map_nil]), ← hlast]
    exact hstop
  · intro hstop
    unfold answer at hstop
    split at hstop
    · cases hstop
    · rename_i hne
      exact ⟨_, fun h => hne (List.map_eq_nil_iff.mp h), List.prefix_refl _, hstop⟩

/-! ### What the stop needs -/

/-- What is expected of a call: its value is negative if and only if a callback has asked to
    stop; no callback is called after that; and the next call starts behind what was delivered
    last. -/
structure Stops (cb : Callbacks) (P : Parser) (log : List Delivery) (maxPackets : Nat) : Prop where
  sign : (∃ rc, (bufferParse cb P log maxPackets).2.2 = .returned rc ∧ rc < 0) ↔
    Asked cb log (bufferParse cb P log maxPackets).2.1
  silent : ∀ ds, ds ≠ [] → log ++ ds <+: (bufferParse cb P log maxPackets).2.1 →
    cb (log ++ ds) = .stop → log ++ ds = (bufferParse cb P log maxPackets).2.1
  behind : Asked cb log (bufferParse cb P log maxPackets).2.1 →
    ∃ before d, (bufferParse cb P log maxPackets).2.1 = log ++ before ++ [d] ∧ bytes d ≠ [] ∧
      unparsed P =
        before.flatMap bytes ++ bytes d ++ unparsed (bufferParse cb P log maxPackets).1

/-- The callback for the first delivery does not ask to stop unless that delivery completes a
    packet; none asks for an empty packet; and the number of packets fits in an `int`. -/
structure Heeded (cb : Callbacks) (P : Parser) (log : List Delivery) (maxPackets : Nat) : Prop where
  completes : ∀ d after, ahead P maxPackets = d :: after → cb (log ++ [d.delivery]) = .stop →
    d.completes = true
  nonempty : ∀ before d after, ahead P maxPackets = before ++ d :: after → Passed cb log before →
    cb (log ++ before.map (·.delivery) ++ [d.delivery]) = .stop → bytes d.delivery ≠ []
  few : ∀ before d after, ahead P maxPackets = before ++ d :: after → Passed cb log before →
    completed (before ++ [d]) < 2 ^ 31

/-- The same, of the deliveries that are made. -/
structure HeededMade (cb : Callbacks) (log : List Delivery) (made : List Planned) : Prop where
  counted : answer cb log made = .stop → completed made ≠ 0
  nonempty : answer cb log made = .stop → ∀ before d, made = before ++ [d] → bytes d.delivery ≠ []
  few : completed made < 2 ^ 31

/-- A delivery with others behind it completes a packet. -/
theorem packetsAhead_first {buffer : List UInt8} {maxSize budget pos validLen : Nat} {d : Planned}
    {rest : List Planned} (h : packetsAhead buffer maxSize budget pos validLen = d :: rest)
    (hrest : rest ≠ []) : d.completes = true := by
  cases budget with
  | zero => cases h
  | succ budget =>
    simp only [packetsAhead] at h
    split at h
    · cases h
    split at h
    · cases h
    split at h
    · cases h
      exact absurd rfl hrest
    split at h
    · cases h
    · cases h
      rfl

theorem packetsAhead_short {buffer : List UInt8} {maxSize budget pos validLen : Nat}
    (h : validLen < PacketHeader.headerLength) :
    packetsAhead buffer maxSize budget pos validLen = [] := by
  cases budget with
  | zero => rfl
  | succ budget => rw [packetsAhead, if_pos h]

theorem ahead_first {P : Parser} {maxPackets : Nat} {d : Planned} {rest : List Planned}
    (h : ahead P maxPackets = d :: rest) (hrest : rest ≠ []) : d.completes = true := by
  simp only [ahead] at h
  split at h
  · cases h
  split at h
  · exact packetsAhead_first h hrest
  · obtain ⟨rfl, rfl⟩ := List.cons.inj h
    have hlong : PacketHeader.headerLength ≤
        P.len - P.restartOffset - min P.oversizeLen (P.len - P.restartOffset) := by
      by_contra hshort
      exact hrest (packetsAhead_short (Nat.not_le.mp hshort))
    simp only [PacketHeader.headerLength] at hlong
    simp only [chunkAhead, decide_eq_true_eq]
    omega

theorem Passed.of_append {cb : Callbacks} {log : List Delivery} {before after : List Planned}
    (h : Passed cb log (before ++ after)) : Passed cb log before :=
  fun ds hne hds => h ds hne (hds.trans (List.prefix_append before after))

theorem untilStop_passed {cb : Callbacks} {log : List Delivery} {ds : List Planned}
    (h : Passed cb log ds) : untilStop cb log ds = ds := by
  simpa [untilStop] using untilStop_append h []

theorem untilStop_first {cb : Callbacks} {log : List Delivery} {before : List Planned} {d : Planned}
    (h : Passed cb log before)
    (hd : cb (log ++ before.map (·.delivery) ++ [d.delivery]) ≠ .proceed) (after : List Planned) :
    untilStop cb log (before ++ d :: after) = before ++ [d] := by
  rw [untilStop_append h, untilStop, if_neg hd]

theorem answer_concat (cb : Callbacks) (log : List Delivery) (before : List Planned) (d : Planned) :
    answer cb log (before ++ [d]) = cb (log ++ before.map (·.delivery) ++ [d.delivery]) := by
  rw [answer, if_neg (by simp), List.map_append, List.append_assoc]
  rfl

/-- The next delivery is made. -/
theorem concat_made {cb : Callbacks} {log : List Delivery} {before : List Planned}
    (h : Passed cb log before) (d : Planned) (after : List Planned) :
    before ++ [d] <+: untilStop cb log (before ++ d :: after) := by
  rw [untilStop_append h, untilStop, List.prefix_append_right_inj]
  split
  · exact List.prefix_append [d] _
  · exact List.prefix_refl [d]

theorem heeded_iff (cb : Callbacks) (P : Parser) (log : List Delivery) (maxPackets : Nat) :
    Heeded cb P log maxPackets ↔ HeededMade cb log (made cb P log maxPackets) := by
  unfold made
  constructor
  · intro h
    obtain hpassed | ⟨before, d, after, hahead, hbefore, hd⟩ :=
      passed_or_first cb log (ahead P maxPackets)
    · -- no callback asks to stop
      rw [untilStop_passed hpassed]
      have hgoes : answer cb log (ahead P maxPackets) ≠ .stop := by
        intro hstop
        unfold answer at hstop
        split at hstop
        · cases hstop
        · rename_i hne
          exact nomatch hstop.symm.trans (hpassed _ hne (List.prefix_refl _))
      refine ⟨fun hstop => absurd hstop hgoes, fun hstop => absurd hstop hgoes, ?_⟩
      obtain hnil | ⟨before, d, hlast⟩ := List.eq_nil_or_concat (ahead P maxPackets)
      · rw [hnil]
        decide
      · rw [List.concat_eq_append] at hlast
        rw [hlast] at hpassed ⊢
        exact h.few before d [] hlast hpassed.of_append
    · rw [hahead, untilStop_first hbefore hd]
      refine ⟨fun hstop => ?_, fun hstop => ?_, h.few before d after hahead hbefore⟩
      · rw [answer_concat] at hstop
        cases before with
        | nil =>
          have hcompletes := h.completes d after hahead (by simpa using hstop)
          simp [completed, hcompletes]
        | cons e before =>
          have hcompletes := ahead_first hahead (by simp)
          simp [completed, hcompletes]
      · rw [answer_concat] at hstop
        intro before' d' hconcat
        obtain ⟨-, hlast⟩ := List.append_inj' hconcat rfl
        cases hlast
        exact h.nonempty before d after hahead hbefore hstop
  · intro h
    refine ⟨fun d after hahead hstop => ?_, fun before d after hahead hbefore hstop => ?_,
      fun before d after hahead hbefore => ?_⟩
    · have hmade : untilStop cb log (ahead P maxPackets) = [d] := by
        simp [hahead, untilStop, hstop]
      rw [hmade] at h
      simpa [completed, List.countP_singleton] using h.counted hstop
    · have hmade : untilStop cb log (ahead P maxPackets) = before ++ [d] := by
        rw [hahead]
        exact untilStop_first hbefore (fun hproceed => nomatch hstop.symm.trans hproceed) after
      rw [hmade] at h
      exact h.nonempty ((answer_concat cb log before d).trans hstop) before d rfl
    · rw [hahead] at h
      obtain ⟨rest, hrest⟩ := concat_made hbefore d after
      have hfew := h.few
      rw [← hrest, completed_append] at hfew
      omega

theorem completed_packetsAhead (buffer : List UInt8) (maxSize budget pos validLen : Nat) :
    completed (packetsAhead buffer maxSize budget pos validLen) ≤ budget := by
  induction budget generalizing pos validLen with
  | zero => exact Nat.le_refl 0
  | succ budget ih =>
    simp only [packetsAhead]
    split
    · exact Nat.zero_le _
    split
    · exact Nat.zero_le _
    split
    · exact Nat.zero_le _
    split
    · exact Nat.zero_le _
    · rw [completed_cons, Nat.add_comm]
      exact Nat.add_le_add (ih _ _) (List.countP_le_length)

/-- No more packets are completed than the call is to process. -/
theorem completed_ahead (P : Parser) (maxPackets : Nat) :
    completed (ahead P maxPackets) ≤ if maxPackets = 0 then P.size else maxPackets := by
  have hlen := P.len_le_size
  simp only [ahead]
  split
  · exact Nat.zero_le _
  split
  · exact completed_packetsAhead ..
  · have hpackets := completed_packetsAhead P.buffer P.maxSize
      ((if maxPackets = 0 then P.size else maxPackets) -
        if P.oversizeLen - min P.oversizeLen (P.len - P.restartOffset) = 0 then 1 else 0)
      (P.restartOffset + min P.oversizeLen (P.len - P.restartOffset))
      (P.len - P.restartOffset - min P.oversizeLen (P.len - P.restartOffset))
    have hpositive : 0 < if maxPackets = 0 then P.size else maxPackets := by
      simp only [size]
      split <;> omega
    have hchunk : completed [chunkAhead P] =
        if P.oversizeLen - min P.oversizeLen (P.len - P.restartOffset) = 0 then 1 else 0 := by
      simp [completed, chunkAhead, List.countP_singleton]
    rw [completed_cons, hchunk]
    split
    · rename_i hends
      rw [if_pos hends] at hpackets
      omega
    · rename_i hends
      rw [if_neg hends] at hpackets
      omega

theorem untilStop_initial (cb : Callbacks) (log : List Delivery) (ds : List Planned) :
    untilStop cb log ds <+: ds := by
  induction ds generalizing log with
  | nil => exact List.prefix_refl []
  | cons d ds ih =>
    rw [untilStop]
    split
    · exact (List.prefix_cons_inj d).mpr (ih _)
    · exact List.prefix_append [d] ds

section Call

variable {cb : Callbacks} {P : Parser} {log : List Delivery} {maxPackets : Nat}

theorem asked_iff_answer : Asked cb log (bufferParse cb P log maxPackets).2.1 ↔
    answer cb log (made cb P log maxPackets) = .stop := by
  rw [(bufferParse_spec cb P log maxPackets).delivered]
  exact asked_iff cb log (ahead P maxPackets)

/-- A call in which a callback asks to stop returns. -/
theorem returns_of_asked (h : Asked cb log (bufferParse cb P log maxPackets).2.1) :
    ∃ rc, (bufferParse cb P log maxPackets).2.2 = .returned rc :=
  (bufferParse_spec cb P log maxPackets).returns (asked_iff_answer.mp h)

theorem stops_of_made (h : HeededMade cb log (made cb P log maxPackets)) :
    Stops cb P log maxPackets := by
  have hcall := bufferParse_spec cb P log maxPackets
  have hcount : Word32.toInt (completed (made cb P log maxPackets)) =
      completed (made cb P log maxPackets) := if_pos h.few
  refine ⟨⟨?_, ?_⟩, ?_, ?_⟩
  · rintro ⟨rc, hreturned, hneg⟩
    by_contra hquiet
    rw [asked_iff_answer] at hquiet
    rw [hcall.value rc hreturned, if_neg hquiet, hcount] at hneg
    omega
  · intro hasked
    have hstop := asked_iff_answer.mp hasked
    obtain ⟨rc, hreturned⟩ := returns_of_asked hasked
    refine ⟨rc, hreturned, ?_⟩
    have := h.counted hstop
    rw [hcall.value rc hreturned, if_pos hstop, hcount]
    omega
  · intro ds hne hds hstop
    rw [hcall.delivered] at hds ⊢
    rw [request_last hne hds hstop]
    rfl
  · intro hasked
    have hstop := asked_iff_answer.mp hasked
    obtain ⟨rc, hreturned⟩ := returns_of_asked hasked
    obtain hnil | ⟨before, d, hlast⟩ := List.eq_nil_or_concat (made cb P log maxPackets)
    · rw [hnil] at hstop
      cases hstop
    · rw [List.concat_eq_append] at hlast
      refine ⟨before.map (·.delivery), d.delivery, ?_, h.nonempty hstop before d hlast, ?_⟩
      · rw [hcall.delivered, hlast, List.map_append, List.append_assoc]
        rfl
      · rw [hcall.consumed rc hreturned, hlast]
        simp [List.flatMap_map]

theorem made_of_stops (hmax : maxPackets < Word32.modulus) (hsize : P.size < Word32.modulus)
    {rc : Int} (hreturned : (bufferParse cb P log maxPackets).2.2 = .returned rc)
    (h : Stops cb P log maxPackets) : HeededMade cb log (made cb P log maxPackets) := by
  have hcall := bufferParse_spec cb P log maxPackets
  have hvalue := hcall.value rc hreturned
  -- the sign of the value
  have hsign : rc < 0 ↔ answer cb log (made cb P log maxPackets) = .stop := by
    rw [← asked_iff_answer, ← h.sign]
    constructor
    · exact fun hneg => ⟨rc, hreturned, hneg⟩
    · rintro ⟨rc', hreturned', hneg⟩
      cases hreturned.symm.trans hreturned'
      exact hneg
  refine ⟨fun hstop hzero => ?_, fun hstop before d hlast => ?_, ?_⟩
  · have hneg := hsign.mpr hstop
    rw [hvalue, if_pos hstop, hzero] at hneg
    exact absurd hneg (by decide)
  · obtain ⟨before', d', hlog, hbytes, -⟩ := h.behind (asked_iff_answer.mpr hstop)
    rw [hcall.delivered, hlast, List.map_append, ← List.append_assoc] at hlog
    obtain ⟨-, hd⟩ := List.append_inj' hlog rfl
    obtain rfl : d.delivery = d' := List.singleton_inj.mp hd
    exact hbytes
  · by_contra hmany
    have hbound : completed (made cb P log maxPackets) < Word32.modulus := by
      have hle := (untilStop_initial cb log (ahead P maxPackets)).sublist.countP_le (p := (·.completes))
      have hahead := completed_ahead P maxPackets
      unfold made completed at *
      split at hahead <;> omega
    have hcount : Word32.toInt (completed (made cb P log maxPackets)) < 0 := by
      rw [Word32.toInt, if_neg hmany]
      omega
    by_cases hstop : answer cb log (made cb P log maxPackets) = .stop
    · have hneg := hsign.mpr hstop
      rw [hvalue, if_pos hstop] at hneg
      omega
    · rw [if_neg hstop] at hvalue
      exact hstop (hsign.mp (hvalue ▸ hcount))

end Call

/-! ### The reader -/

open POSIXParser

/-- Every call of `bufferParse` that the loop makes is heeded. -/
def HeededRun (cb : Callbacks) (io : Nat → ReadResult) (toParse : Nat) :
    (fuel : Nat) → ReadState → Prop
  | 0, _ => True
  | fuel + 1, s =>
    if s.toRead = 0 ∨ toParse ≤ s.totalPackets ∨ 10 ≤ s.readCount then True
    else
      match fill io s with
      | .error _ => True
      | .ok s =>
        Heeded cb s.parser s.log maxParse ∧
          match parse cb s with
          | (_, some _) => True
          | (s, none) => HeededRun cb io toParse fuel s

theorem Asked.trans_iff {cb : Callbacks} {log log₁ log' : List Delivery} (h : log <+: log₁)
    (h' : log₁ <+: log') : Asked cb log log' ↔ Asked cb log log₁ ∨ Asked cb log₁ log' := by
  obtain ⟨first, rfl⟩ := h
  constructor
  · rintro ⟨ds, hne, hds, hstop⟩
    obtain hle | hle := Nat.le_total ds.length first.length
    · refine .inl ⟨ds, hne, List.prefix_of_prefix_length_le hds h' ?_, hstop⟩
      simp only [List.length_append]
      omega
    · have hfirst : log ++ first <+: log ++ ds := by
        refine List.prefix_of_prefix_length_le h' hds ?_
        simp only [List.length_append]
        omega
      obtain ⟨rest, rfl⟩ := (List.prefix_append_right_inj log).mp hfirst
      by_cases hrest : rest = []
      · subst hrest
        rw [List.append_nil] at hne hstop
        exact .inl ⟨first, hne, List.prefix_refl _, hstop⟩
      · rw [← List.append_assoc] at hds hstop
        exact .inr ⟨rest, hrest, hds, hstop⟩
  · rintro (⟨ds, hne, hds, hstop⟩ | ⟨ds, hne, hds, hstop⟩)
    · exact ⟨ds, hne, hds.trans h', hstop⟩
    · refine ⟨first ++ ds, fun hnil => hne (List.append_eq_nil_iff.mp hnil).2, ?_, ?_⟩
      · rwa [← List.append_assoc]
      · rwa [← List.append_assoc]

theorem not_asked_refl (cb : Callbacks) (log : List Delivery) : ¬ Asked cb log log := by
  rintro ⟨ds, hne, ⟨rest, hrest⟩, -⟩
  rw [List.append_assoc] at hrest
  have hnil := List.append_cancel_left (hrest.trans (List.append_nil log).symm)
  exact hne (List.append_eq_nil_iff.mp hnil).1

/-- Reading delivers nothing and does not stop. -/
theorem fill_spec (io : Nat → ReadResult) (s : ReadState) :
    match fill io s with
    | .ok s' => s'.log = s.log
    | .error e => e ≠ .stopped := by
  simp only [fill]
  split
  · rename_i heq
    split at heq
    · cases heq
      rfl
    split at heq <;> try cases heq
    split at heq
    · cases heq
    split at heq
    · cases heq
    · cases heq
      rfl
  · rename_i heq
    split at heq
    · cases heq
    split at heq <;> try (cases heq; exact nofun)
    split at heq
    · cases heq
      exact nofun
    split at heq
    · cases heq
      exact nofun
    · cases heq

theorem parse_log (cb : Callbacks) (s : ReadState) :
    (parse cb s).1.log = (bufferParse cb s.parser s.log maxParse).2.1 := by
  simp only [parse]
  split
  · rfl
  · rfl
  · split <;> rfl

/-- A heeded call ends the loop at a request, and only then. -/
theorem parse_stopped_iff {cb : Callbacks} {s : ReadState} (h : Heeded cb s.parser s.log maxParse) :
    (parse cb s).2 = some .stopped ↔ Asked cb s.log (parse cb s).1.log := by
  rw [parse_log, ← (stops_of_made ((heeded_iff ..).mp h)).sign]
  simp only [parse]
  split
  · rename_i hout
    simp [hout]
  · rename_i hout
    simp [hout]
  · rename_i rc hout
    split
    · rename_i hneg
      simp [hout, hneg]
    · rename_i hneg
      simp [hout, hneg]

theorem parse_grows (cb : Callbacks) (s : ReadState) : s.log <+: (parse cb s).1.log := by
  rw [parse_log, (bufferParse_spec cb s.parser s.log maxParse).delivered]
  exact List.prefix_append s.log _

theorem readLoop_stopped_iff {cb : Callbacks} {io : Nat → ReadResult} {toParse fuel : Nat}
    {s s' : ReadState} {e : ReadExit} (hheeded : HeededRun cb io toParse fuel s)
    (h : readLoop cb io toParse fuel s = some (s', e)) :
    s.log <+: s'.log ∧ (e = .stopped ↔ Asked cb s.log s'.log) := by
  -- an exit without a call asks for nothing
  have hquiet : ∀ {s : ReadState} {e : ReadExit}, e ≠ .stopped →
      s.log <+: s.log ∧ (e = .stopped ↔ Asked cb s.log s.log) := fun he =>
    ⟨List.prefix_refl _, iff_of_false he (not_asked_refl cb _)⟩
  induction fuel generalizing s with
  | zero => cases h
  | succ fuel ih =>
    simp only [readLoop] at h
    simp only [HeededRun] at hheeded
    split at h
    · cases h
      exact hquiet nofun
    rename_i hgoes
    rw [if_neg hgoes] at hheeded
    have hfill := fill_spec io s
    cases hfilled : fill io s with
    | error e' =>
      rw [hfilled] at h hfill
      cases h
      exact hquiet hfill
    | ok s₁ =>
      simp only [hfilled] at h hheeded hfill
      obtain ⟨hcall, hrest⟩ := hheeded
      have hstop := parse_stopped_iff hcall
      have hgrows := parse_grows cb s₁
      rw [hfill] at hstop hgrows
      -- the callbacks of this call are heeded, those of the rest by induction
      cases hparsed : parse cb s₁ with
      | mk s₂ exit =>
        rw [hparsed] at h hrest hstop hgrows
        cases exit with
        | some e' =>
          cases h
          exact ⟨hgrows, Option.some_inj.symm.trans hstop⟩
        | none =>
          obtain ⟨hlater, hiff⟩ := ih hrest h
          refine ⟨hgrows.trans hlater, ?_⟩
          rw [Asked.trans_iff hgrows hlater, ← hstop, hiff]
          simp

/-- In a call of `bufferParse` that returns, the stop is as expected if and only if it is heeded;
    and a `read` whose calls are all heeded reports a stop exactly when a callback has asked for
    one. -/
theorem stops_iff_heeded (cb : Callbacks) :
    (∀ P log maxPackets, Asked cb log (bufferParse cb P log maxPackets).2.1 →
      ∃ rc, (bufferParse cb P log maxPackets).2.2 = .returned rc) ∧
    (∀ P log maxPackets rc, maxPackets < Word32.modulus → P.size < Word32.modulus →
      (bufferParse cb P log maxPackets).2.2 = .returned rc →
      (Stops cb P log maxPackets ↔ Heeded cb P log maxPackets)) ∧
    ∀ io P log maxPackets maxRead fuel s' e,
      HeededRun cb io (if maxPackets = 0 then maxParse else maxPackets) fuel
        ⟨P, log, if maxRead = 0 then 2 ^ 64 - 1 else maxRead, 0, 0⟩ →
      read cb io P log maxPackets maxRead fuel = some (s', e) →
      (e = .stopped ↔ Asked cb log s'.log) := by
  refine ⟨fun P log maxPackets => returns_of_asked, fun P log maxPackets rc hmax hsize hreturned => ?_,
    fun io P log maxPackets maxRead fuel s' e hheeded h => ?_⟩
  · rw [heeded_iff]
    exact ⟨made_of_stops hmax hsize hreturned, stops_of_made⟩
  · exact (readLoop_stopped_iff hheeded h).2

/-- A parser that holds the header of a packet, with nothing parsed. -/
def withHeader (bytes : List UInt8) : Parser where
  buffer := bytes
  maxSize := bytes.length
  len := bytes.length
  restartOffset := 0
  oversizeLen := 0
  oversizeOffset := 0
  restart_le_len := Nat.zero_le _
  len_le_size := Nat.le_refl _

/-- Sixteen zeros are a packet without payload. -/
def emptyPacket : List UInt8 := List.replicate 16 0

theorem heeded_emptyPacket (maxPackets : Nat) (hmax : maxPackets = 0 ∨ maxPackets = maxParse) :
    Heeded (fun _ => .stop) (withHeader emptyPacket) [] maxPackets := by
  rw [heeded_iff]
  have hmade : made (fun _ => .stop) (withHeader emptyPacket) [] maxPackets =
      [⟨.packet emptyPacket, true⟩] := by
    obtain rfl | rfl := hmax
    · decide
    · decide
  rw [hmade]
  refine ⟨fun _ => by decide, fun _ before d hlast => ?_, by decide⟩
  obtain ⟨-, hd⟩ := List.append_inj' (List.nil_append _ |>.trans hlast) rfl
  obtain rfl := List.singleton_inj.mp hd
  decide

/-- What a descriptor gives that holds one packet without payload. -/
def oneEmptyPacket : Nat → ReadResult
  | 0 => .data emptyPacket
  | _ => .noData

theorem stops_iff_heeded_emptyPacket :
    Asked (fun _ => .stop) [] [.packet emptyPacket] ∧
      (∃ rc, (bufferParse (fun _ => .stop) (withHeader emptyPacket) [] 0).2.2 = .returned rc) ∧
      (Stops (fun _ => .stop) (withHeader emptyPacket) [] 0 ↔
        Heeded (fun _ => .stop) (withHeader emptyPacket) [] 0) ∧
      ∃ s', read (fun _ => .stop) oneEmptyPacket (Parser.new 16 16) [] 0 0 1 = some (s', .stopped) ∧
        (ReadExit.stopped = .stopped ↔ Asked (fun _ => .stop) [] s'.log) := by
  have hasked : Asked (fun _ => .stop) [] [.packet emptyPacket] :=
    ⟨[.packet emptyPacket], nofun, List.prefix_refl _, rfl⟩
  obtain ⟨hreturns, hcalls, hreads⟩ := stops_iff_heeded (fun _ => .stop)
  refine ⟨hasked, hreturns (withHeader emptyPacket) [] 0 hasked,
    hcalls (withHeader emptyPacket) [] 0 (-1) (by decide) (by decide) (by decide), _, rfl, ?_⟩
  refine hreads oneEmptyPacket (Parser.new 16 16) [] 0 0 1 _ .stopped ?_ rfl
  exact ⟨heeded_emptyPacket maxParse (.inr rfl), trivial⟩

/-- The header of a packet of 20 bytes. -/
def longHeader : List UInt8 := [4] ++ List.replicate 15 0

/-- The first chunk of an oversize packet is refused, but the call returns 0, and the reader goes
    on. -/
theorem not_stops_of_longHeader :
    ¬ (∀ cb P log maxPackets, Stops cb P log maxPackets) ∧
      ¬ ∀ cb io P log maxPackets maxRead fuel s' e,
        read cb io P log maxPackets maxRead fuel = some (s', e) →
        (e = .stopped ↔ Asked cb log s'.log) := by
  constructor
  · intro h
    have hasked : Asked (fun _ => .stop) []
        (bufferParse (fun _ => .stop) (withHeader longHeader) [] 0).2.1 :=
      ⟨[.oversize (some (PacketHeader.ofBytes longHeader)) longHeader 0], nofun, List.prefix_refl _, rfl⟩
    obtain ⟨rc, hreturned, hneg⟩ := (h _ _ _ _).sign.mpr hasked
    have hzero : (bufferParse (fun _ => .stop) (withHeader longHeader) [] 0).2.2 = .returned 0 := by
      decide
    cases hzero.symm.trans hreturned
    exact absurd hneg (by decide)
  · intro h
    let io : Nat → ReadResult := fun n => if n = 0 then .data longHeader else .noData
    have hasked : Asked (fun _ => .stop) []
        [.oversize (some (PacketHeader.ofBytes longHeader)) longHeader 0] :=
      ⟨[.oversize (some (PacketHeader.ofBytes longHeader)) longHeader 0], nofun, List.prefix_refl _, rfl⟩
    have hexit := (h (fun _ => .stop) io (Parser.new 16 16) [] 0 0 2 _ .noData rfl).mpr hasked
    cases hexit

end Adara.Spec.ParserStop
