import Adara.Native.Packets

/-! # The stream parser

`Parser` turns a byte stream into packets.  Its user appends bytes to an internal
buffer and calls `bufferParse`, which hands every complete packet to `rxPacket`,
grows the buffer for packets that do not fit yet, and passes packets above the
maximum size to `rxOversizePkt` chunk by chunk.

The callbacks are virtual functions, so the parser is modelled against arbitrary
`Callbacks`: each answers from the deliveries made so far.  The log of deliveries
is the only trace `bufferParse` leaves outside the parser. -/

namespace Adara.Native

/-- What the parser hands to a callback.  Only the first chunk of an oversize
    packet comes with its header. -/
inductive Delivery where
  | packet (data : List UInt8)
  | oversize (hdr : Option PacketHeader) (chunk : List UInt8) (chunkOffset : Nat)
deriving DecidableEq, Repr

/-- How a callback returned: `false`, `true` (a request to stop), or by throwing. -/
inductive Reply where
  | proceed
  | stop
  | throws (what : String)
deriving DecidableEq, Repr

/-- `rxPacket` and `rxOversizePkt`, as a function of all deliveries up to and
    including the current one. -/
abbrev Callbacks := List Delivery → Reply

/-- Callbacks that always return false and never throw. -/
def Callbacks.accepting : Callbacks := fun _ => .proceed

/-- The parser's buffer and its position in the stream.  `buffer` is the allocated
    memory, so `m_size` is its length. -/
structure Parser where
  buffer : List UInt8
  maxSize : Nat
  len : Nat
  restartOffset : Nat
  oversizeLen : Nat
  oversizeOffset : Nat
  restart_le_len : restartOffset ≤ len
  len_le_size : len ≤ buffer.length

namespace Parser

/-- `m_size`. -/
def size (P : Parser) : Nat := P.buffer.length

/-- The constructor. -/
def new (initialBufferSize maxPktSize : Nat) : Parser where
  buffer := List.replicate initialBufferSize 0
  maxSize := maxPktSize
  len := 0
  restartOffset := 0
  oversizeLen := 0
  oversizeOffset := 0
  restart_le_len := Nat.le_refl 0
  len_le_size := Nat.zero_le _

def reset (P : Parser) : Parser :=
  { P with
    len := 0, restartOffset := 0, oversizeLen := 0, oversizeOffset := 0
    restart_le_len := Nat.le_refl 0, len_le_size := Nat.zero_le _ }

def bufferFillLength (P : Parser) : Nat := P.size - P.len

/-- Place `bytes` at `bufferFillAddress()` and report them with
    `bufferBytesAppended`. -/
def bufferBytesAppended (P : Parser) (bytes : List UInt8) : Except String Parser :=
  if h : P.bufferFillLength < bytes.length then
    .error "attempting to append too much data"
  else
    .ok { P with
      buffer := P.buffer.take P.len ++ bytes ++ P.buffer.drop (P.len + bytes.length)
      len := P.len + bytes.length
      restart_le_len := by have := P.restart_le_len; omega
      len_le_size := by
        have := P.len_le_size
        simp only [bufferFillLength, size] at h
        simp only [List.length_append, List.length_take, List.length_drop]
        omega }

/-! ### Growing the buffer -/

/-- `do { new_size *= 2; } while (new_size < need);` in 32-bit arithmetic, for at
    most `fuel` rounds. -/
def doubleSize (need : Nat) : (fuel : Nat) → Nat → Option Nat
  | 0, _ => none
  | fuel + 1, newSize =>
    let newSize := Word32.mul newSize 2
    if newSize < need then doubleSize need fuel newSize else some newSize

/-- The size the buffer grows to, `none` where the doubling never ends
    (`doubleSize_none`). -/
def grownSize (size need maxSize : Nat) : Option Nat :=
  (doubleSize need 32 size).map (min · maxSize)

private theorem doubleSize_zero {need : Nat} (hneed : 0 < need) (fuel : Nat) :
    doubleSize need fuel 0 = none := by
  induction fuel with
  | zero => rfl
  | succ fuel ih => simp [doubleSize, Word32.mul, hneed, ih]

/-- A doubling that is not over after `n` rounds goes on from the wrapped size. -/
private theorem doubleSize_add {need : Nat} {n size : Nat} (m : Nat)
    (hsize : size < Word32.modulus) (h : doubleSize need n size = none) :
    doubleSize need (n + m) size = doubleSize need m (size * 2 ^ n % Word32.modulus) := by
  induction n generalizing size with
  | zero => rw [Nat.zero_add, Nat.pow_zero, Nat.mul_one, Nat.mod_eq_of_lt hsize]
  | succ n ih =>
    simp only [doubleSize] at h
    split at h
    · rename_i hlt
      have hwrap : Word32.mul size 2 * 2 ^ n % Word32.modulus =
          size * 2 ^ (n + 1) % Word32.modulus := by
        rw [Word32.mul, Nat.mod_mul_mod, Nat.mul_assoc, Nat.pow_succ, Nat.mul_comm 2]
      have hstep : doubleSize need (n + 1 + m) size =
          doubleSize need (n + m) (Word32.mul size 2) := by
        rw [Nat.add_right_comm, doubleSize]
        exact if_pos hlt
      rw [hstep, ih (Word32.mul_lt _ _) h, hwrap]
    · cases h

/-- A doubling that is not over after 32 rounds is never over. -/
theorem doubleSize_none {need size : Nat} (hneed : 0 < need) (hsize : size < Word32.modulus)
    (h : doubleSize need 32 size = none) (fuel : Nat) : doubleSize need (32 + fuel) size = none := by
  rw [doubleSize_add fuel hsize h, Nat.mul_mod_left, doubleSize_zero hneed]

private theorem le_of_doubleSize {need : Nat} : ∀ {fuel size newSize : Nat},
    doubleSize need fuel size = some newSize → need ≤ newSize
  | 0, _, _, h => nomatch h
  | fuel + 1, size, newSize, h => by
    simp only [doubleSize] at h
    split at h
    · exact le_of_doubleSize h
    · have := Option.some.inj h
      omega

/-- A buffer grown for a packet within the limit holds the whole packet. -/
theorem le_of_grownSize {size need maxSize newSize : Nat} (hneed : need ≤ maxSize)
    (h : grownSize size need maxSize = some newSize) :
    need ≤ newSize ∧ newSize ≤ maxSize := by
  simp only [grownSize, Option.map_eq_some_iff] at h
  obtain ⟨n, hn, rfl⟩ := h
  have := le_of_doubleSize hn
  omega

/-! ### Parsing -/

/-- The local variables of `bufferParse` over a buffer that holds `len` bytes, with
    the members and the log it has changed so far.  `pos` is `p - m_buffer`; the
    unparsed bytes reach to the end of the data, or there are none. -/
structure Cursor (len : Nat) where
  pos : Nat
  validLen : Nat
  processed : Nat
  stopped : Bool
  oversizeLen : Nat
  oversizeOffset : Nat
  log : List Delivery
  fits : validLen = 0 ∨ pos + validLen = len

/-- How the packet loop of `bufferParse` ends. -/
inductive LoopExit (len : Nat) where
  /-- The loop condition failed, or the rest of the buffer was left for later. -/
  | finished (c : Cursor len)
  /-- The buffer is to be grown to `newSize`. -/
  | grown (c : Cursor len) (newSize : Nat) (fits : c.validLen ≤ newSize)
  | threw (c : Cursor len) (what : String)
  /-- The size computation for the larger buffer never ends. -/
  | hung (c : Cursor len)

/-- The message of the exception for a payload length that is no multiple of four. -/
def invalidPacket (hdr : PacketHeader) : String :=
  "Payload length " ++ toString hdr.payloadLen ++ " not multiple of 4 (Packet Type 0x" ++
    String.ofList (Nat.toDigits 16 hdr.type) ++ ")"

/-- Hand the next `n` buffered bytes of an oversize packet to `rxOversizePkt`. -/
def oversizeChunk (buffer : List UInt8) {len : Nat} (c : Cursor len) (hdr : Option PacketHeader)
    (chunkOffset n : Nat) : List Delivery :=
  c.log ++ [.oversize hdr ((buffer.drop c.pos).take n) chunkOffset]

/-- The packet loop, with `budget` counting how far `processed` is below
    `max_packets`. -/
def parseLoop (cb : Callbacks) (buffer : List UInt8) (maxSize : Nat) {len : Nat}
    (hlen : len ≤ buffer.length) : (budget : Nat) → Cursor len → LoopExit len
  | 0, c => .finished c
  | budget + 1, c =>
    if c.validLen < PacketHeader.headerLength ∨ c.stopped then .finished c
    else
      let hdr := PacketHeader.ofBytes (buffer.drop c.pos)
      if hdr.payloadLen % 4 ≠ 0 then .threw c (invalidPacket hdr)
      else if hmax : maxSize < hdr.packetLength then
        -- over the limit: the whole buffered rest is the first chunk
        let log := oversizeChunk buffer c (some hdr) 0 c.validLen
        match cb log with
        | .throws what => .threw { c with log, fits := c.fits } what
        | reply => .finished
          { c with
            validLen := 0
            stopped := reply == .stop
            oversizeLen := Word32.sub hdr.packetLength c.validLen
            oversizeOffset := c.validLen
            log
            fits := .inl rfl }
      else if hsize : buffer.length < hdr.packetLength then
        match hgrow : grownSize buffer.length hdr.packetLength maxSize with
        | none => .hung c
        | some newSize => .grown c newSize (by
            have := (le_of_grownSize (by omega) hgrow).1
            have := c.fits
            omega)
      else if hvalid : c.validLen < hdr.packetLength then .finished c
      else
        let log := c.log ++ [.packet ((buffer.drop c.pos).take hdr.packetLength)]
        match cb log with
        | .throws what => .threw { c with log, fits := c.fits } what
        | reply => parseLoop cb buffer maxSize hlen budget
          { c with
            pos := c.pos + hdr.packetLength
            validLen := c.validLen - hdr.packetLength
            processed := c.processed + 1
            stopped := reply == .stop
            log
            fits := by have := c.fits; omega }

/-- How `bufferParse` ended. -/
inductive Outcome where
  | returned (rc : Int)
  | threw (what : String)
  | hung
deriving DecidableEq, Repr

/-- The end of `bufferParse`: compact the buffer where the loop ran out of data,
    remember the position where it was cut short. -/
def finishParse (P : Parser) (maxPackets : Nat) (c : Cursor P.len) : Parser :=
  if hvalid : c.validLen = 0 then
    { P with
      len := 0, restartOffset := 0
      oversizeLen := c.oversizeLen, oversizeOffset := c.oversizeOffset
      restart_le_len := Nat.le_refl 0, len_le_size := Nat.zero_le _ }
  else if !c.stopped ∧ c.processed < maxPackets then
    { P with
      buffer := (P.buffer.drop c.pos).take c.validLen ++ P.buffer.drop c.validLen
      len := c.validLen, restartOffset := 0
      oversizeLen := c.oversizeLen, oversizeOffset := c.oversizeOffset
      restart_le_len := Nat.zero_le _
      len_le_size := by
        have := c.fits
        have := P.len_le_size
        simp only [List.length_append, List.length_take, List.length_drop]
        omega }
  else
    { P with
      restartOffset := c.pos
      oversizeLen := c.oversizeLen, oversizeOffset := c.oversizeOffset
      restart_le_len := by have := c.fits; omega }

/-- The buffer after growth, with the unparsed bytes moved to its front. -/
def grow (P : Parser) (c : Cursor P.len) (newSize : Nat) (hfits : c.validLen ≤ newSize) : Parser :=
  { P with
    buffer := (P.buffer.drop c.pos).take c.validLen ++ List.replicate (newSize - c.validLen) 0
    len := c.validLen, restartOffset := 0
    oversizeLen := c.oversizeLen, oversizeOffset := c.oversizeOffset
    restart_le_len := Nat.zero_le _
    len_le_size := by
      have := c.fits
      have := P.len_le_size
      simp only [List.length_append, List.length_take, List.length_drop, List.length_replicate]
      omega }

/-- The parser with the oversize position the cursor has reached; an exception
    leaves everything else as it was. -/
def abandon (P : Parser) (c : Cursor P.len) : Parser :=
  { P with oversizeLen := c.oversizeLen, oversizeOffset := c.oversizeOffset }

/-- The position from which `bufferParse` starts: behind the next chunk of an
    oversize packet when one is being received, or an exception from its callback. -/
def startParse (cb : Callbacks) (P : Parser) (log : List Delivery) :
    Except (Cursor P.len × String) (Cursor P.len) :=
  let c : Cursor P.len :=
    { pos := P.restartOffset, validLen := P.len - P.restartOffset, processed := 0, stopped := false
      oversizeLen := P.oversizeLen, oversizeOffset := P.oversizeOffset, log
      fits := by have := P.restart_le_len; omega }
  if P.oversizeLen = 0 then .ok c
  else
    let chunkLen := min P.oversizeLen c.validLen
    let log := oversizeChunk P.buffer c none P.oversizeOffset chunkLen
    match cb log with
    | .throws what => .error ({ c with log, fits := c.fits }, what)
    | reply => .ok
      { pos := c.pos + chunkLen
        validLen := c.validLen - chunkLen
        processed := if P.oversizeLen - chunkLen = 0 then 1 else 0
        stopped := reply == .stop
        oversizeLen := P.oversizeLen - chunkLen
        oversizeOffset := Word32.add P.oversizeOffset chunkLen
        log
        fits := by have := c.fits; omega }

/-- `bufferParse`: the parser and the log afterwards, and how the call ended. -/
def bufferParse (cb : Callbacks) (P : Parser) (log : List Delivery) (maxPackets : Nat) :
    Parser × List Delivery × Outcome :=
  if P.len - P.restartOffset = 0 then (P, log, .returned 0)
  else
    let maxPackets := if maxPackets = 0 then P.size else maxPackets
    match startParse cb P log with
    | .error (c, what) => (abandon P c, c.log, .threw what)
    | .ok c =>
      match parseLoop cb P.buffer P.maxSize P.len_le_size (maxPackets - c.processed) c with
      | .threw c what => (abandon P c, c.log, .threw what)
      | .hung c => (abandon P c, c.log, .hung)
      | .grown c newSize hfits =>
        (grow P c newSize hfits, c.log, .returned (Word32.toInt c.processed))
      | .finished c =>
        (finishParse P maxPackets c, c.log,
          .returned (if c.stopped then -Word32.toInt c.processed else Word32.toInt c.processed))

end Parser

end Adara.Native
