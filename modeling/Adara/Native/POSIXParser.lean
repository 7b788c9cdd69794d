import Adara.Native.Parser

/-! # The reader of a descriptor

`POSIXParser::read` fills the parser's buffer from a file descriptor and parses what it has
read, until one of its limits is reached, there is no more data, or the parser says that a
callback has asked to stop.  What the descriptor gives is an argument.  How a call ended is
seen in its return value and in the text it leaves in `log_info`; the statistics are left out,
but for those that the loop goes by. -/

namespace Adara.Native

namespace POSIXParser

/-- What `::read` comes to.  Of the data at most as many bytes are taken as there is room
    for. -/
inductive ReadResult where
  | data (bytes : List UInt8)
  | noData
  | hostGone
  | error (what : String)
deriving DecidableEq, Repr

/-- How a call of `read` ends. -/
inductive ReadExit where
  /-- "read() true exit; " -/
  | limit
  /-- "read() no data but OK exit; " -/
  | noData
  /-- "read() host went away exit; " -/
  | hostGone
  /-- "read() read returned 0 exit; " -/
  | endOfFile
  /-- "read() bufferParse() error exit; " -/
  | stopped
  | threw (what : String)
  | hung
deriving DecidableEq, Repr

/-- The return value, if the call returns. -/
def ReadExit.value : ReadExit → Option Bool
  | .limit | .noData => some true
  | .hostGone | .endOfFile | .stopped => some false
  | .threw _ | .hung => none

structure ReadState where
  parser : Parser
  log : List Delivery
  toRead : Nat
  totalPackets : Nat
  readCount : Nat

/-- The part of the loop that reads: the state when there is something to parse, or how the
    call ends. -/
def fill (io : Nat → ReadResult) (s : ReadState) : Except ReadExit ReadState :=
  let len := min s.parser.bufferFillLength s.toRead
  if len = 0 then .ok s
  else
    match io s.readCount with
    | .noData => .error .noData
    | .hostGone => .error .hostGone
    | .error what => .error (.threw what)
    | .data bytes =>
      let bytes := bytes.take len
      if bytes = [] then .error .endOfFile
      else
        match s.parser.bufferBytesAppended bytes with
        | .error what => .error (.threw what)
        | .ok parser =>
          .ok { s with parser, toRead := s.toRead - bytes.length, readCount := s.readCount + 1 }

/-- `max_parse` -/
def maxParse : Nat := Word32.modulus - 1

/-- The part of the loop that parses. -/
def parse (cb : Callbacks) (s : ReadState) : ReadState × Option ReadExit :=
  let (parser, log, outcome) := s.parser.bufferParse cb s.log maxParse
  let s := { s with parser, log }
  match outcome with
  | .threw what => (s, some (.threw what))
  | .hung => (s, some .hung)
  | .returned rc =>
    if rc < 0 then (s, some .stopped)
    else ({ s with totalPackets := Word32.add s.totalPackets rc.toNat }, none)

/-- The loop, for at most `fuel` rounds. -/
def readLoop (cb : Callbacks) (io : Nat → ReadResult) (toParse : Nat) :
    (fuel : Nat) → ReadState → Option (ReadState × ReadExit)
  | 0, _ => none
  | fuel + 1, s =>
    if s.toRead = 0 ∨ toParse ≤ s.totalPackets ∨ 10 ≤ s.readCount then some (s, .limit)
    else
      match fill io s with
      | .error e => some (s, e)
      | .ok s =>
        match parse cb s with
        | (s, some e) => some (s, e)
        | (s, none) => readLoop cb io toParse fuel s

/-- `read`, where a limit that is zero means the greatest number of its type. -/
def read (cb : Callbacks) (io : Nat → ReadResult) (P : Parser) (log : List Delivery)
    (maxPackets maxRead fuel : Nat) : Option (ReadState × ReadExit) :=
  let toRead := if maxRead = 0 then 2 ^ 64 - 1 else maxRead
  let toParse := if maxPackets = 0 then maxParse else maxPackets
  readLoop cb io toParse fuel ⟨P, log, toRead, 0, 0⟩

end POSIXParser

end Adara.Native
