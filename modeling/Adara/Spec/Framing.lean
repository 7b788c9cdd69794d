import Adara.ForStd.Runs
import Adara.Native.Parser

/-! # Framing does not depend on chunking

A session is any interleaving of appends to the parser's buffer with calls of
`bufferParse`.  What the callbacks received, with the chunks of every oversize
packet joined, is compared with the packet-by-packet split of the bytes consumed so
far.

The invariant `Tracks` says where the parser stands in the stream: between two
packets, or inside one that is above the size limit.  `parseLoop` keeps it at every
packet (`parseLoop_tracks`), hence so does `bufferParse`, and `framing_run` carries it
over a session. -/

namespace Adara.Spec.Framing

open Adara.Native Adara.Native.Parser

/-! ### Packets of a well-formed stream -/

/-- A well-formed packet: a header whose payload length, a multiple of four, is what
    follows the header, with a total length that fits in 32 bits. -/
structure StreamPacket where
  bytes : List UInt8
  header_le : PacketHeader.headerLength ≤ bytes.length
  length_eq : (PacketHeader.ofBytes bytes).payloadLen + PacketHeader.headerLength = bytes.length
  aligned : (PacketHeader.ofBytes bytes).payloadLen % 4 = 0
  length_lt : bytes.length < Word32.modulus

/-- The byte stream of a list of packets. -/
def stream (pkts : List StreamPacket) : List UInt8 := pkts.flatMap StreamPacket.bytes

@[simp] theorem stream_nil : stream [] = [] := rfl

@[simp] theorem stream_cons (p : StreamPacket) (pkts : List StreamPacket) :
    stream (p :: pkts) = p.bytes ++ stream pkts := rfl

@[simp] theorem stream_append (ps qs : List StreamPacket) :
    stream (ps ++ qs) = stream ps ++ stream qs := List.flatMap_append

/-- The header parsed anywhere at the start of a packet's bytes is the packet's. -/
theorem StreamPacket.header_of_start (p : StreamPacket) {window rest : List UInt8}
    (hw : PacketHeader.headerLength ≤ window.length) (h : window <+: p.bytes ++ rest) :
    PacketHeader.ofBytes window = PacketHeader.ofBytes p.bytes := by
  obtain ⟨tail, htail⟩ := h
  rw [← PacketHeader.ofBytes_append tail hw, htail, PacketHeader.ofBytes_append rest p.header_le]

/-- The packet length the parser computes does not wrap. -/
theorem StreamPacket.packetLength_eq (p : StreamPacket) :
    (PacketHeader.ofBytes p.bytes).packetLength = p.bytes.length := by
  have h := p.length_eq
  have hlt := p.length_lt
  rw [PacketHeader.packetLength, Word32.add_of_lt (by omega), h]

/-! ### What was received, and what should have been -/

/-- One packet as the receiver sees it: its bytes so far, and whether they came
    through `rxOversizePkt`. -/
structure Received where
  bytes : List UInt8
  oversize : Bool
deriving DecidableEq, Repr

/-- Add a delivery to the packets received so far.  A first chunk starts an oversize
    packet, and must carry the header it starts with; a later chunk continues the
    last packet, at the offset that has been reached.  Anything else is out of place. -/
def receive (acc : Option (List Received)) (d : Delivery) : Option (List Received) :=
  acc.bind fun rs =>
    match d with
    | .packet data => some (rs ++ [⟨data, false⟩])
    | .oversize (some hdr) chunk off =>
      if hdr = PacketHeader.ofBytes chunk ∧ off = 0 then some (rs ++ [⟨chunk, true⟩]) else none
    | .oversize none chunk off =>
      match rs.getLast? with
      | some ⟨bytes, true⟩ =>
        if off = bytes.length then some (rs.dropLast ++ [⟨bytes ++ chunk, true⟩]) else none
      | _ => none

/-- The packets received through a log of deliveries, `none` where a chunk was out
    of place. -/
def received (log : List Delivery) : Option (List Received) := log.foldl receive (some [])

/-- A packet delivered in full: through `rxOversizePkt` exactly when it is above the
    limit. -/
def whole (maxSize : Nat) (p : StreamPacket) : Received :=
  ⟨p.bytes, decide (maxSize < p.bytes.length)⟩

/-- The packet-by-packet split of the first `n` bytes of a stream.  A packet within
    the limit appears once all of it is there, a packet above the limit as far as it
    is there. -/
def split (maxSize : Nat) : List StreamPacket → Nat → List Received
  | [], _ => []
  | p :: pkts, n =>
    if n = 0 then []
    else if maxSize < p.bytes.length then
      ⟨p.bytes.take n, true⟩ :: split maxSize pkts (n - p.bytes.length)
    else if p.bytes.length ≤ n then
      ⟨p.bytes, false⟩ :: split maxSize pkts (n - p.bytes.length)
    else []

@[simp] theorem received_snoc (log : List Delivery) (d : Delivery) :
    received (log ++ [d]) = receive (received log) d := by
  simp [received]

/-- The split of complete packets and `n` further bytes starts with the packets. -/
theorem split_append (maxSize : Nat) (done rest : List StreamPacket) (n : Nat) :
    split maxSize (done ++ rest) ((stream done).length + n) =
      done.map (whole maxSize) ++ split maxSize rest n := by
  induction done with
  | nil => simp
  | cons p done ih =>
    have hp := p.header_le
    simp only [PacketHeader.headerLength] at hp
    have hsub : (stream (p :: done)).length + n - p.bytes.length = (stream done).length + n := by
      simp only [stream_cons, List.length_append]; omega
    have hpos : (stream (p :: done)).length + n ≠ 0 := by
      simp only [stream_cons, List.length_append]; omega
    have hle : p.bytes.length ≤ (stream (p :: done)).length + n := by
      simp only [stream_cons, List.length_append]; omega
    simp only [List.cons_append, split, if_neg hpos, hsub, ih, if_pos hle, List.map_cons, whole]
    by_cases hmax : maxSize < p.bytes.length
    · rw [if_pos hmax, List.take_of_length_le hle, decide_eq_true hmax]
    · rw [if_neg hmax, decide_eq_false hmax]

/-- Nothing is received of a stream of which nothing was consumed. -/
@[simp] theorem split_zero (maxSize : Nat) (pkts : List StreamPacket) :
    split maxSize pkts 0 = [] := by
  cases pkts <;> simp [split]

/-- Inside an oversize packet the split ends with the part consumed. -/
theorem split_partial (maxSize : Nat) (p : StreamPacket) (rest : List StreamPacket) {j : Nat}
    (hj : 0 < j) (hlt : j < p.bytes.length) (hmax : maxSize < p.bytes.length) :
    split maxSize (p :: rest) j = [⟨p.bytes.take j, true⟩] := by
  have hsub : j - p.bytes.length = 0 := by omega
  simp [split, hmax, hsub, Nat.ne_of_gt hj]

/-! ### Where the parser stands in the stream -/

/-- Where the parser stands: `fed` is what it was given, `window` the part not yet
    consumed. -/
inductive Tracks (maxSize : Nat) (pkts : List StreamPacket) (fed : List UInt8) :
    List Delivery → (oversizeLen oversizeOffset : Nat) → (window : List UInt8) → Prop where
  /-- The packets `done` are consumed, the next byte starts a packet. -/
  | boundary {log off window} (done rest : List StreamPacket)
      (split_eq : pkts = done ++ rest)
      (received_eq : received log = some (done.map (whole maxSize)))
      (fed_eq : fed = stream done ++ window) :
      Tracks maxSize pkts fed log 0 off window
  /-- Besides `done`, the first `j` bytes of the oversize packet `p` are consumed. -/
  | inside {log window} (done rest : List StreamPacket) (p : StreamPacket) (j : Nat)
      (split_eq : pkts = done ++ p :: rest)
      (j_pos : 0 < j) (j_lt : j < p.bytes.length) (above : maxSize < p.bytes.length)
      (received_eq :
        received log = some (done.map (whole maxSize) ++ [⟨p.bytes.take j, true⟩]))
      (fed_eq : fed = stream done ++ p.bytes.take j ++ window) :
      Tracks maxSize pkts fed log (p.bytes.length - j) j window

/-- What was received is the split of the consumed bytes, and with the bytes not yet
    consumed it makes up what was fed. -/
theorem Tracks.received_eq_split {maxSize : Nat} {pkts : List StreamPacket}
    {fed window : List UInt8} {log : List Delivery} {left j : Nat}
    (h : Tracks maxSize pkts fed log left j window) :
    ∃ rs, received log = some rs ∧ rs.flatMap Received.bytes ++ window = fed ∧
      rs = split maxSize pkts (fed.length - window.length) := by
  have hflat : ∀ done : List StreamPacket,
      (done.map (whole maxSize)).flatMap Received.bytes = stream done := fun done => by
    simp [stream, whole, List.flatMap_map]
  cases h with
  | boundary done rest split_eq received_eq fed_eq =>
    refine ⟨_, received_eq, by rw [hflat, fed_eq], ?_⟩
    have hn : fed.length - window.length = (stream done).length + 0 := by simp [fed_eq]
    rw [hn, split_eq, split_append, split_zero, List.append_nil]
  | inside done rest p _ split_eq j_pos j_lt above received_eq fed_eq =>
    refine ⟨_, received_eq, by rw [List.flatMap_append, hflat, fed_eq]; simp, ?_⟩
    have htake : (p.bytes.take j).length = j := by rw [List.length_take]; omega
    have hn : fed.length - window.length = (stream done).length + j := by
      simp only [fed_eq, List.length_append, htake]; omega
    rw [hn, split_eq, split_append, split_partial maxSize p rest j_pos j_lt above]

/-! ### One delivery -/

/-- The next bytes at a packet boundary are those of the next packet. -/
private theorem window_ahead {done rest : List StreamPacket} {fed window : List UInt8}
    (hfed : fed <+: stream (done ++ rest)) (fed_eq : fed = stream done ++ window) :
    window <+: stream rest := by
  rw [fed_eq, stream_append] at hfed
  exact (List.prefix_append_right_inj _).mp hfed

/-- At a packet boundary with a header in the window, the window starts with some
    packet: handing over all of it through `rxPacket`, or the whole window as the
    first chunk of an oversize packet, keeps track of the stream. -/
theorem Tracks.next {maxSize : Nat} {pkts : List StreamPacket} {fed window : List UInt8}
    {log : List Delivery} {off : Nat} (hfed : fed <+: stream pkts)
    (h : Tracks maxSize pkts fed log 0 off window)
    (hw : PacketHeader.headerLength ≤ window.length) :
    ∃ p : StreamPacket, PacketHeader.ofBytes window = PacketHeader.ofBytes p.bytes ∧
      (p.bytes.length ≤ maxSize → p.bytes.length ≤ window.length → ∀ off',
        Tracks maxSize pkts fed (log ++ [.packet (window.take p.bytes.length)]) 0 off'
          (window.drop p.bytes.length)) ∧
      (maxSize < p.bytes.length → window.length < p.bytes.length →
        Tracks maxSize pkts fed
          (log ++ [.oversize (some (PacketHeader.ofBytes window)) window 0])
          (p.bytes.length - window.length) window.length []) := by
  generalize hleft : 0 = left at h
  cases h with
  | inside done rest p _ split_eq j_pos j_lt above received_eq fed_eq => omega
  | boundary done rest split_eq received_eq fed_eq =>
    subst split_eq
    have hpre := window_ahead hfed fed_eq
    cases rest with
    | nil =>
      simp only [PacketHeader.headerLength] at hw
      have := List.prefix_nil.mp hpre
      simp [this] at hw
    | cons p rest =>
      refine ⟨p, p.header_of_start hw hpre, ?_, ?_⟩
      · -- the packet is complete in the window
        intro hmax hle off'
        have hp : window.take p.bytes.length = p.bytes := by
          rw [List.prefix_iff_eq_take.mp hpre, List.take_take, Nat.min_eq_left hle]
          simp
        refine .boundary (done ++ [p]) rest (by simp) ?_ ?_
        · rw [received_snoc, received_eq, hp]
          simp [receive, whole, Nat.not_lt.mpr hmax]
        · rw [fed_eq, stream_append, List.append_assoc]
          congr 1
          simpa [hp] using (List.take_append_drop p.bytes.length window).symm
      · -- the packet is above the limit and longer than the window
        intro hmax hlt
        have hp : p.bytes.take window.length = window := by
          have := List.prefix_iff_eq_take.mp hpre
          rw [stream_cons, List.take_append_of_le_length (by omega)] at this
          exact this.symm
        simp only [PacketHeader.headerLength] at hw
        refine .inside done rest p window.length rfl (by omega) hlt hmax ?_ (by simp [fed_eq, hp])
        rw [received_snoc, received_eq, hp]
        simp [receive]

/-- Inside an oversize packet, handing over the next chunk keeps track of the stream:
    the chunk ends at the end of the packet or takes the whole window. -/
theorem Tracks.chunk {maxSize : Nat} {pkts : List StreamPacket} {fed window : List UInt8}
    {log : List Delivery} {left off : Nat} (hfed : fed <+: stream pkts)
    (h : Tracks maxSize pkts fed log left off window) (hleft : left ≠ 0) (hw : window ≠ []) :
    Tracks maxSize pkts fed
      (log ++ [.oversize none (window.take (min left window.length)) off])
      (left - min left window.length) (Word32.add off (min left window.length))
      (window.drop (min left window.length)) := by
  cases h with
  | boundary => exact absurd rfl hleft
  | inside done rest p _ split_eq off_pos off_lt above received_eq fed_eq =>
    subst split_eq
    have hlen := List.length_pos_of_ne_nil hw
    have hplt := p.length_lt
    -- the window goes on where the packet was left
    have hpre : window <+: p.bytes.drop off ++ stream rest := by
      have hopen : fed = stream done ++ (p.bytes.take off ++ window) := by simp [fed_eq]
      have h := window_ahead hfed hopen
      rw [stream_cons] at h
      nth_rewrite 2 [← List.take_append_drop off p.bytes] at h
      rw [List.append_assoc] at h
      exact (List.prefix_append_right_inj _).mp h
    generalize hk : min (p.bytes.length - off) window.length = k
    have htake : p.bytes.take off ++ window.take k = p.bytes.take (off + k) := by
      rw [List.take_add]
      congr 1
      rw [List.prefix_iff_eq_take.mp hpre, List.take_take, Nat.min_eq_left (by omega),
        List.take_append_of_le_length (by rw [List.length_drop]; omega)]
    have hrec : received (log ++ [.oversize none (window.take k) off]) =
        some (done.map (whole maxSize) ++ [⟨p.bytes.take (off + k), true⟩]) := by
      rw [received_snoc, received_eq]
      simp [receive, htake, Nat.le_of_lt off_lt]
    rw [Word32.add_of_lt (by omega)]
    have hfed' : fed = stream done ++ p.bytes.take (off + k) ++ window.drop k := by
      rw [fed_eq, ← htake]
      simp
    by_cases hend : off + k = p.bytes.length
    · rw [hend, List.take_length] at hrec hfed'
      rw [show p.bytes.length - off - k = 0 by omega]
      refine .boundary (done ++ [p]) rest (by simp) ?_ (by simp [hfed'])
      rw [hrec]
      simp [whole, above]
    · rw [Nat.sub_sub]
      exact .inside done rest p (off + k) rfl (by omega) (by omega) above hrec hfed'

/-- New bytes are appended to the window. -/
theorem Tracks.feed {maxSize : Nat} {pkts : List StreamPacket} {fed window : List UInt8}
    {log : List Delivery} {left off : Nat} (h : Tracks maxSize pkts fed log left off window)
    (bytes : List UInt8) : Tracks maxSize pkts (fed ++ bytes) log left off (window ++ bytes) := by
  cases h with
  | boundary done rest split_eq received_eq fed_eq =>
    exact .boundary done rest split_eq received_eq (by simp [fed_eq])
  | inside done rest p _ split_eq j_pos j_lt above received_eq fed_eq =>
    exact .inside done rest p _ split_eq j_pos j_lt above received_eq (by simp [fed_eq])

/-! ### One call of `bufferParse` -/

/-- The bytes `bufferParse` has not consumed yet. -/
def cursorWindow (buffer : List UInt8) {len : Nat} (c : Cursor len) : List UInt8 :=
  (buffer.drop c.pos).take c.validLen

theorem length_cursorWindow {buffer : List UInt8} {len : Nat} (hlen : len ≤ buffer.length)
    (c : Cursor len) : (cursorWindow buffer c).length = c.validLen := by
  have := c.fits
  simp only [cursorWindow, List.length_take, List.length_drop]
  omega

/-- The header is read from the window: the memory behind it does not matter. -/
private theorem header_eq {buffer : List UInt8} {len : Nat} (hlen : len ≤ buffer.length)
    (c : Cursor len) (hvalid : PacketHeader.headerLength ≤ c.validLen) :
    PacketHeader.ofBytes (buffer.drop c.pos) =
      PacketHeader.ofBytes (cursorWindow buffer c) := by
  nth_rewrite 1 [← List.take_append_drop c.validLen (buffer.drop c.pos)]
  exact PacketHeader.ofBytes_append _ (by rw [← length_cursorWindow hlen c] at hvalid; exact hvalid)

/-- A cursor still in step with the stream, with no stop requested. -/
def InStep (maxSize : Nat) (pkts : List StreamPacket) (fed buffer : List UInt8) {len : Nat}
    (c : Cursor len) : Prop :=
  c.stopped = false ∧
    Tracks maxSize pkts fed c.log c.oversizeLen c.oversizeOffset (cursorWindow buffer c)

/-- Every exit of the packet loop but an exception, with the cursor in step. -/
def LoopInStep (maxSize : Nat) (pkts : List StreamPacket) (fed buffer : List UInt8) {len : Nat} :
    LoopExit len → Prop
  | .finished c | .hung c => InStep maxSize pkts fed buffer c
  | .grown c newSize _ => InStep maxSize pkts fed buffer c ∧ newSize ≤ maxSize
  | .threw _ _ => False

/-- The packet loop keeps track of the stream, at whatever packet it stops. -/
theorem parseLoop_tracks {maxSize : Nat} {pkts : List StreamPacket} {fed buffer : List UInt8}
    {len : Nat} (hlen : len ≤ buffer.length) (hsize : buffer.length ≤ maxSize)
    (hfed : fed <+: stream pkts) (budget : Nat) (c : Cursor len)
    (hopen : c.oversizeLen = 0 ∨ c.validLen < PacketHeader.headerLength)
    (h : InStep maxSize pkts fed buffer c) :
    LoopInStep maxSize pkts fed buffer
      (parseLoop Callbacks.accepting buffer maxSize hlen budget c) := by
  induction budget generalizing c with
  | zero => exact h
  | succ budget ih =>
    obtain ⟨hstop, htracks⟩ := h
    simp only [parseLoop, hstop, Bool.false_eq_true, or_false]
    split
    · exact ⟨hstop, htracks⟩
    · rename_i hvalid
      rw [Nat.not_lt] at hvalid
      have hwin := length_cursorWindow hlen c
      have hclosed : c.oversizeLen = 0 := by omega
      rw [hclosed] at htracks
      obtain ⟨p, hhdr, hpacket, hoversize⟩ := htracks.next hfed (by rw [hwin]; exact hvalid)
      rw [hwin] at hpacket hoversize
      have hhdr' := (header_eq hlen c hvalid).trans hhdr
      have hfits := c.fits
      simp only [hhdr', p.aligned, p.packetLength_eq, ne_eq, not_true_eq_false, if_false,
        Callbacks.accepting]
      split
      · -- above the limit: the window is the first chunk
        rename_i hmax
        have hlt : c.validLen < p.bytes.length := by omega
        refine ⟨rfl, ?_⟩
        rw [Word32.sub_of_le (by omega) p.length_lt]
        have := hoversize hmax hlt
        rw [hhdr] at this
        simpa [oversizeChunk, cursorWindow] using this
      · rename_i hmax
        rw [Nat.not_lt] at hmax
        split
        · -- the buffer is too small: it grows, or the growth never ends
          split
          · exact ⟨hstop, by rw [hclosed]; exact htracks⟩
          · rename_i hgrow
            rw [hhdr', p.packetLength_eq] at hgrow
            exact ⟨⟨hstop, by rw [hclosed]; exact htracks⟩, (le_of_grownSize hmax hgrow).2⟩
        · split
          · exact ⟨hstop, by rw [hclosed]; exact htracks⟩
          · -- a complete packet
            rename_i hle
            rw [Nat.not_lt] at hle
            refine ih _ (.inl hclosed) ⟨rfl, ?_⟩
            have := hpacket hmax hle c.oversizeOffset
            simpa [cursorWindow, hclosed, List.take_take, List.drop_take, List.drop_drop,
              Nat.min_eq_left hle] using this

/-- The buffered bytes the parser has not consumed yet. -/
def unparsed (P : Parser) : List UInt8 :=
  (P.buffer.drop P.restartOffset).take (P.len - P.restartOffset)

theorem length_unparsed (P : Parser) : (unparsed P).length = P.len - P.restartOffset := by
  have := P.restart_le_len
  have := P.len_le_size
  simp only [unparsed, List.length_take, List.length_drop]
  omega

/-- A parser in step with the stream, whose buffer is within the limit. -/
structure ParserInStep (maxSize : Nat) (pkts : List StreamPacket) (fed : List UInt8)
    (log : List Delivery) (P : Parser) : Prop where
  maxSize_eq : P.maxSize = maxSize
  size_le : P.buffer.length ≤ maxSize
  tracks : Tracks maxSize pkts fed log P.oversizeLen P.oversizeOffset (unparsed P)

/-- The chunk with which `bufferParse` starts inside an oversize packet keeps track of
    the stream, and ends the packet or takes the whole window. -/
private theorem startParse_tracks {maxSize : Nat} {pkts : List StreamPacket}
    {fed : List UInt8} {log : List Delivery} {P : Parser} (hfed : fed <+: stream pkts)
    (h : ParserInStep maxSize pkts fed log P) (hdata : P.len - P.restartOffset ≠ 0) :
    ∃ c, startParse Callbacks.accepting P log = .ok c ∧
      (c.oversizeLen = 0 ∨ c.validLen < PacketHeader.headerLength) ∧
      InStep maxSize pkts fed P.buffer c := by
  have htracks := h.tracks
  have hwin := length_unparsed P
  simp only [startParse]
  split
  · rename_i hzero
    exact ⟨_, rfl, .inl hzero, rfl, htracks⟩
  · rename_i hleft
    refine ⟨_, rfl, ?_, rfl, ?_⟩
    · simp only [PacketHeader.headerLength]
      omega
    · have hne : unparsed P ≠ [] := List.ne_nil_of_length_pos (by omega)
      have := htracks.chunk hfed hleft hne
      rw [hwin] at this
      have hmin : min P.oversizeLen (P.len - P.restartOffset) ≤ P.len - P.restartOffset :=
        Nat.min_le_right _ _
      simpa [oversizeChunk, cursorWindow, unparsed, List.take_take, List.drop_take,
        List.drop_drop, Nat.min_eq_left hmin] using this

/-- The end of `bufferParse` leaves the unconsumed bytes in the buffer, moved to its
    front or not. -/
theorem unparsed_finishParse (P : Parser) (maxPackets : Nat) (c : Cursor P.len) :
    unparsed (finishParse P maxPackets c) = cursorWindow P.buffer c := by
  have hwin := length_cursorWindow P.len_le_size c
  have hfits := c.fits
  unfold finishParse
  split
  · rename_i hvalid
    have hnil : cursorWindow P.buffer c = [] := List.length_eq_zero_iff.mp (hwin.trans hvalid)
    simp [unparsed, hnil]
  · rename_i hvalid
    split
    · -- the rest is moved to the front
      have hfront : ((P.buffer.drop c.pos).take c.validLen ++ P.buffer.drop c.validLen).take
          c.validLen = cursorWindow P.buffer c := List.take_left' hwin
      simpa [unparsed] using hfront
    · have hrest : P.len - c.pos = c.validLen := by omega
      simp [unparsed, hrest, cursorWindow]

/-- Growing the buffer keeps the unconsumed bytes. -/
theorem unparsed_grow (P : Parser) (c : Cursor P.len) (newSize : Nat)
    (hfits : c.validLen ≤ newSize) :
    unparsed (grow P c newSize hfits) = cursorWindow P.buffer c := by
  have hfront : ((P.buffer.drop c.pos).take c.validLen ++
      List.replicate (newSize - c.validLen) 0).take c.validLen = cursorWindow P.buffer c :=
    List.take_left' (length_cursorWindow P.len_le_size c)
  simpa [grow, unparsed] using hfront

@[simp] theorem finishParse_maxSize (P : Parser) (maxPackets : Nat) (c : Cursor P.len) :
    (finishParse P maxPackets c).maxSize = P.maxSize := by
  unfold finishParse
  split
  · rfl
  · split <;> rfl

@[simp] theorem finishParse_oversizeLen (P : Parser) (maxPackets : Nat) (c : Cursor P.len) :
    (finishParse P maxPackets c).oversizeLen = c.oversizeLen := by
  unfold finishParse
  split
  · rfl
  · split <;> rfl

@[simp] theorem finishParse_oversizeOffset (P : Parser) (maxPackets : Nat) (c : Cursor P.len) :
    (finishParse P maxPackets c).oversizeOffset = c.oversizeOffset := by
  unfold finishParse
  split
  · rfl
  · split <;> rfl

theorem length_finishParse (P : Parser) (maxPackets : Nat) (c : Cursor P.len) :
    (finishParse P maxPackets c).buffer.length = P.buffer.length := by
  have hfits := c.fits
  have hlen := P.len_le_size
  unfold finishParse
  split
  · rfl
  · split
    · simp only [List.length_append, List.length_take, List.length_drop]
      omega
    · rfl

private theorem finishParse_inStep {maxSize : Nat} {pkts : List StreamPacket}
    {fed : List UInt8} {log : List Delivery} {P : Parser} (h : ParserInStep maxSize pkts fed log P)
    (maxPackets : Nat) {c : Cursor P.len} (hc : InStep maxSize pkts fed P.buffer c) :
    ParserInStep maxSize pkts fed c.log (finishParse P maxPackets c) := by
  refine ⟨by rw [finishParse_maxSize, h.maxSize_eq], by rw [length_finishParse]; exact h.size_le, ?_⟩
  rw [finishParse_oversizeLen, finishParse_oversizeOffset, unparsed_finishParse]
  exact hc.2

private theorem grow_inStep {maxSize : Nat} {pkts : List StreamPacket}
    {fed : List UInt8} {log : List Delivery} {P : Parser} (h : ParserInStep maxSize pkts fed log P)
    {c : Cursor P.len} (hc : InStep maxSize pkts fed P.buffer c) {newSize : Nat}
    (hfits : c.validLen ≤ newSize) (hmax : newSize ≤ maxSize) :
    ParserInStep maxSize pkts fed c.log (grow P c newSize hfits) := by
  have hwin := length_cursorWindow P.len_le_size c
  have htracks := hc.2
  rw [← unparsed_grow P c newSize hfits] at htracks
  refine ⟨h.maxSize_eq, ?_, htracks⟩
  simp only [cursorWindow] at hwin
  simp only [grow, List.length_append, hwin, List.length_replicate]
  omega

/-- The parser and the log in step with the stream after a call that ended with the
    given outcome: a call that never returns leaves the log in step, and no call
    throws. -/
def AfterCall (maxSize : Nat) (pkts : List StreamPacket) (fed : List UInt8)
    (log : List Delivery) (P : Parser) : Outcome → Prop
  | .returned _ => ParserInStep maxSize pkts fed log P
  | .hung => ∃ left off window, Tracks maxSize pkts fed log left off window
  | .threw _ => False

/-- `bufferParse` on a well-formed stream keeps the parser in step with it and does
    not throw. -/
theorem bufferParse_inStep {maxSize : Nat} {pkts : List StreamPacket} {fed : List UInt8}
    {log log' : List Delivery} {P P' : Parser} {maxPackets : Nat} {out : Outcome}
    (hfed : fed <+: stream pkts) (h : ParserInStep maxSize pkts fed log P)
    (hrun : bufferParse Callbacks.accepting P log maxPackets = (P', log', out)) :
    AfterCall maxSize pkts fed log' P' out := by
  unfold bufferParse at hrun
  split at hrun
  · cases hrun
    exact h
  · rename_i hdata
    obtain ⟨c, hstart, hopen, hc⟩ := startParse_tracks hfed h hdata
    simp only [hstart] at hrun
    generalize (if maxPackets = 0 then P.size else maxPackets) = maxPackets at hrun
    obtain rfl := h.maxSize_eq
    have hloop := parseLoop_tracks P.len_le_size h.size_le hfed (maxPackets - c.processed) c hopen hc
    cases hexit : parseLoop Callbacks.accepting P.buffer P.maxSize P.len_le_size
        (maxPackets - c.processed) c with
    | threw c' what => simp [hexit, LoopInStep] at hloop
    | hung c' =>
      simp only [hexit] at hloop hrun
      cases hrun
      exact ⟨_, _, _, hloop.2⟩
    | grown c' newSize hfits =>
      simp only [hexit] at hloop hrun
      cases hrun
      exact grow_inStep h hloop.1 hfits hloop.2
    | finished c' =>
      simp only [hexit] at hloop hrun
      cases hrun
      exact finishParse_inStep h maxPackets hloop

/-! ### Sessions -/

/-- What the user of a parser does with it. -/
inductive Op where
  | append (bytes : List UInt8)
  | parse (maxPackets : Nat)
deriving DecidableEq, Repr

/-- A parser with the history of its use: the deliveries it made, the bytes it was
    given and how its calls ended. -/
structure Session where
  parser : Parser
  log : List Delivery
  fed : List UInt8
  outcomes : List Outcome

def Session.new (initialBufferSize maxPktSize : Nat) : Session :=
  ⟨Parser.new initialBufferSize maxPktSize, [], [], []⟩

/-- One operation on the parser.  An append must fit in the buffer, and nothing
    follows a call that never returns. -/
def Session.step (cb : Callbacks) (S : Session) (op : Op) : Option Session :=
  if .hung ∈ S.outcomes then none
  else
    match op with
    | .append bytes =>
      match S.parser.bufferBytesAppended bytes with
      | .error _ => none
      | .ok P => some { S with parser := P, fed := S.fed ++ bytes }
    | .parse maxPackets =>
      let (P, log, out) := S.parser.bufferParse cb S.log maxPackets
      some { S with parser := P, log, outcomes := S.outcomes ++ [out] }

/-- What holds of a session over a well-formed stream as long as the bytes fed are a
    prefix of it. -/
structure SessionInStep (maxSize : Nat) (pkts : List StreamPacket) (S : Session) : Prop where
  parser : .hung ∉ S.outcomes → ParserInStep maxSize pkts S.fed S.log S.parser
  log : ∃ left off window, Tracks maxSize pkts S.fed S.log left off window
  not_threw : ∀ what, .threw what ∉ S.outcomes

/-- Appending to the buffer extends the unconsumed bytes. -/
private theorem append_inStep {maxSize : Nat} {pkts : List StreamPacket}
    {fed bytes : List UInt8} {log : List Delivery} {P P' : Parser}
    (h : ParserInStep maxSize pkts fed log P)
    (happ : P.bufferBytesAppended bytes = .ok P') :
    ParserInStep maxSize pkts (fed ++ bytes) log P' := by
  unfold bufferBytesAppended at happ
  split at happ
  · cases happ
  · rename_i hroom
    cases happ
    have hlen := P.len_le_size
    have hle := P.restart_le_len
    simp only [bufferFillLength, size] at hroom
    have htake : (P.buffer.take P.len).length = P.len := by rw [List.length_take]; omega
    refine ⟨h.maxSize_eq, ?_, ?_⟩
    · have := h.size_le
      simp only [List.length_append, htake, List.length_drop]
      omega
    · have hwin : ((P.buffer.take P.len ++ bytes ++ P.buffer.drop (P.len + bytes.length)).drop
          P.restartOffset).take (P.len + bytes.length - P.restartOffset) =
            unparsed P ++ bytes := by
        rw [List.append_assoc, List.drop_append_of_le_length (by omega), ← List.append_assoc,
          List.drop_take]
        exact List.take_left' (by
          rw [List.length_append]
          have := length_unparsed P
          simp only [unparsed] at this
          omega)
      simpa only [unparsed, hwin] using h.tracks.feed bytes

/-- One operation keeps the session in step with the stream. -/
theorem step_inStep {maxSize : Nat} {pkts : List StreamPacket} {S S' : Session} {op : Op}
    (h : SessionInStep maxSize pkts S) (hfed : S.fed <+: stream pkts)
    (hstep : S.step Callbacks.accepting op = some S') : SessionInStep maxSize pkts S' := by
  unfold Session.step at hstep
  split at hstep
  · cases hstep
  · rename_i hlive
    cases op with
    | append bytes =>
      cases happ : S.parser.bufferBytesAppended bytes with
      | error what => simp [happ] at hstep
      | ok P =>
        simp only [happ] at hstep
        cases hstep
        have hP := append_inStep (h.parser hlive) happ
        exact ⟨fun _ => hP, ⟨_, _, _, hP.tracks⟩, h.not_threw⟩
    | parse maxPackets =>
      cases hparse : S.parser.bufferParse Callbacks.accepting S.log maxPackets with
      | mk P rest =>
        obtain ⟨log, out⟩ := rest
        simp only [hparse] at hstep
        cases hstep
        have hcall := bufferParse_inStep hfed (h.parser hlive) hparse
        cases out with
        | threw what => exact hcall.elim
        | returned rc =>
          refine ⟨fun _ => hcall, ⟨_, _, _, hcall.tracks⟩, fun what hmem => ?_⟩
          simp only [List.mem_append, List.mem_singleton, reduceCtorEq, or_false] at hmem
          exact h.not_threw what hmem
        | hung =>
          refine ⟨fun hlive' => absurd (by simp) hlive', hcall, fun what hmem => ?_⟩
          simp only [List.mem_append, List.mem_singleton, reduceCtorEq, or_false] at hmem
          exact h.not_threw what hmem

/-- A session only ever gains bytes. -/
private theorem fed_mono {cb : Callbacks} {S S' : Session} {op : Op}
    (hstep : S.step cb op = some S') : S.fed <+: S'.fed := by
  unfold Session.step at hstep
  split at hstep
  · cases hstep
  · cases op with
    | append bytes =>
      simp only at hstep
      split at hstep
      · cases hstep
      · cases hstep
        exact List.prefix_append _ _
    | parse maxPackets =>
      cases hstep
      exact List.prefix_rfl

/-- A new parser has consumed nothing. -/
private theorem new_inStep {initialBufferSize maxPktSize : Nat}
    (hsize : initialBufferSize ≤ maxPktSize) (pkts : List StreamPacket) :
    SessionInStep maxPktSize pkts (Session.new initialBufferSize maxPktSize) := by
  have htracks : Tracks maxPktSize pkts [] [] 0 0 [] := .boundary [] pkts rfl rfl rfl
  refine ⟨fun _ => ⟨rfl, ?_, ?_⟩, ⟨0, 0, [], htracks⟩, fun _ => nofun⟩
  · simpa [Session.new, Parser.new] using hsize
  · simpa [Session.new, Parser.new, unparsed] using htracks

/-- A session over a well-formed stream stays in step with it. -/
theorem session_inStep {initialBufferSize maxPktSize : Nat}
    (hsize : initialBufferSize ≤ maxPktSize) {pkts : List StreamPacket} {ops : List Op}
    {S : Session}
    (hrun : Runs.run (Session.step Callbacks.accepting)
      (Session.new initialBufferSize maxPktSize) ops = some S)
    (hfed : S.fed <+: stream pkts) : SessionInStep maxPktSize pkts S := by
  refine Runs.invariant (I := fun S => S.fed <+: stream pkts → SessionInStep maxPktSize pkts S)
    ?_ (fun _ => new_inStep hsize pkts) hrun hfed
  intro S op S' h hstep hfed'
  have hfed := (fed_mono hstep).trans hfed'
  exact step_inStep (h hfed) hfed hstep

/-- Framing is independent of chunking.  Whatever appends and calls of `bufferParse`
    a session makes over a stream of well-formed packets, no call throws, and the
    packets received are the packet-by-packet split of the bytes consumed, with those
    above the limit, and no others, coming through `rxOversizePkt`.  The bytes received
    and the bytes still in the buffer (`window`) make up what was fed. -/
theorem bufferParse_framing {initialBufferSize maxPktSize : Nat}
    (hsize : initialBufferSize ≤ maxPktSize) (pkts : List StreamPacket) (ops : List Op)
    {S : Session}
    (hrun : Runs.run (Session.step Callbacks.accepting)
      (Session.new initialBufferSize maxPktSize) ops = some S)
    (hfed : S.fed <+: stream pkts) :
    (∀ what, .threw what ∉ S.outcomes) ∧
      ∃ window rs, received S.log = some rs ∧
        rs.flatMap Received.bytes ++ window = S.fed ∧
        rs = split maxPktSize pkts (S.fed.length - window.length) ∧
        (.hung ∉ S.outcomes → window = unparsed S.parser) := by
  have h := session_inStep hsize hrun hfed
  refine ⟨h.not_threw, ?_⟩
  by_cases hlive : .hung ∈ S.outcomes
  · obtain ⟨left, off, window, htracks⟩ := h.log
    obtain ⟨rs, hrs, hbytes, hsplit⟩ := htracks.received_eq_split
    exact ⟨window, rs, hrs, hbytes, hsplit, fun hn => absurd hlive hn⟩
  · obtain ⟨rs, hrs, hbytes, hsplit⟩ := (h.parser hlive).tracks.received_eq_split
    exact ⟨unparsed S.parser, rs, hrs, hbytes, hsplit, fun _ => rfl⟩

/-- A packet without payload and one with two payload words. -/
private def samplePackets : List StreamPacket :=
  [{ bytes := 0 :: List.replicate 15 0
     header_le := by decide, length_eq := by decide, aligned := by decide, length_lt := by decide },
   { bytes := 8 :: List.replicate 23 0
     header_le := by decide, length_eq := by decide, aligned := by decide, length_lt := by decide }]

/-- The second packet is above the limit of 20 bytes and arrives in two chunks. -/
private def sampleOps : List Op :=
  [.append (List.replicate 10 0), .parse 0, .append (List.replicate 6 0), .parse 1,
    .append (8 :: List.replicate 15 0), .parse 0, .append (List.replicate 8 0), .parse 0]

/-- `bufferParse_framing` on a session that receives both kinds of packets. -/
theorem bufferParse_framing_sample :
    ∃ S, Runs.run (Session.step Callbacks.accepting) (Session.new 16 20) sampleOps = some S ∧
      S.fed = stream samplePackets ∧ (∀ what, .threw what ∉ S.outcomes) ∧
      ∃ window rs, received S.log = some rs ∧
        rs.flatMap Received.bytes ++ window = S.fed ∧
        rs = split 20 samplePackets (S.fed.length - window.length) ∧
        (.hung ∉ S.outcomes → window = unparsed S.parser) := by
  obtain ⟨S, hrun, hfed⟩ : ∃ S,
      Runs.run (Session.step Callbacks.accepting) (Session.new 16 20) sampleOps = some S ∧
        S.fed = stream samplePackets :=
    ⟨_, rfl, by decide⟩
  exact ⟨S, hrun, hfed,
    bufferParse_framing (by decide) samplePackets sampleOps hrun (hfed ▸ List.prefix_rfl)⟩

end Adara.Spec.Framing
