import Mathlib.Algebra.Order.Ring.Int
import Mathlib.Data.List.Sort

/-! # Marker logs of the translator

`StreamParser` keeps the scan and the comment markers of a run in two multimaps, ordered by
their time stamps, until they are written to the file.  The stream repeats markers where the
manager begins a new file, so that each kind of marker is compared with what was inserted last.
-/

namespace Adara.Native.MarkerLogs

variable {T : Type}

/-- An entry of a multimap: the time stamp in nanoseconds is the key. -/
structure Entry (T V : Type) where
  ts : UInt64
  time : T
  value : V
deriving DecidableEq, Repr

/-- `std::multimap::insert`, behind the entries with the same key. -/
def multimapInsert {V : Type} (e : Entry T V) (entries : List (Entry T V)) : List (Entry T V) :=
  entries.orderedInsert (fun a b => a.ts < b.ts) e

/-- The scan and comment members of `StreamParser`.  An iterator is what it points to, `none`
    at the end: entries are neither changed nor erased while markers come in. -/
structure Logs (T : Type) where
  scanMultimap : List (Entry T UInt32)
  scanHasNonNormalized : Bool
  /-- What was pushed to the statistics, in order. -/
  scanStats : List UInt32
  lastScan : Option (Entry T UInt32)
  lastScanComment : List Char
  commentMultimap : List (Entry T (List Char))
  commentHasNonNormalized : Bool
  lastComment : Option (Entry T (List Char))
deriving DecidableEq, Repr

variable [Zero T]

/-- What the constructor leaves: "Insert initial 'not in scan' value". -/
def Logs.initial : Logs T where
  scanMultimap := [⟨0, 0, 0⟩]
  scanHasNonNormalized := false
  scanStats := [0]
  lastScan := some ⟨0, 0, 0⟩
  lastScanComment := []
  commentMultimap := []
  commentHasNonNormalized := false
  lastComment := none

variable [LT T] [DecidableLT T]

/-- `markerComment` -/
def markerComment (s : Logs T) (time : T) (ts : UInt64) (comment : List Char) : Logs T :=
  let s := { s with commentHasNonNormalized := s.commentHasNonNormalized || time < 0 }
  if s.lastComment.any fun last => ts = last.ts ∧ last.value = comment then s
  else if comment = [] then s
  else
    let e : Entry T (List Char) := ⟨ts, time, comment⟩
    { s with commentMultimap := multimapInsert e s.commentMultimap, lastComment := some e }

/-- "Did the Scan State *Change* with This Annotation...?" -/
def stateChanged (lastScan : Option (Entry T UInt32)) (index : UInt32) : Bool :=
  match lastScan with
  | some last => last.value != index
  | none => index != 0

/-- The body that `markerScanStart` and `markerScanStop` share, for the index that the scan
    log gets. -/
def markerScan (s : Logs T) (time : T) (ts : UInt64) (index : UInt32) (comment : List Char) :
    Logs T :=
  let s := { s with scanHasNonNormalized := s.scanHasNonNormalized || time < 0 }
  let changed := stateChanged s.lastScan index
  if s.lastScan.any fun last => ts = last.ts ∧ s.lastScanComment = comment ∧ ¬changed then s
  else
    let e : Entry T UInt32 := ⟨ts, time, index⟩
    let s := { s with
      scanMultimap := multimapInsert e s.scanMultimap
      lastScan := some e
      scanStats := s.scanStats ++ [index] }
    if comment = [] then s
    else markerComment { s with lastScanComment := comment } time ts comment

/-- `markerScanStart` -/
def markerScanStart (s : Logs T) (time : T) (ts : UInt64) (scanIndex : UInt32)
    (comment : List Char) : Logs T :=
  markerScan s time ts scanIndex comment

/-- `markerScanStop`: "When Stopping a Scan, the Index _Always_ Gets Set to Zero..." -/
def markerScanStop (s : Logs T) (time : T) (ts : UInt64) (_scanIndex : UInt32)
    (comment : List Char) : Logs T :=
  markerScan s time ts 0 comment

/-- A call with its arguments. -/
inductive Call (T : Type) where
  | scanStart (time : T) (ts : UInt64) (scanIndex : UInt32) (comment : List Char)
  | scanStop (time : T) (ts : UInt64) (scanIndex : UInt32) (comment : List Char)
  | comment (time : T) (ts : UInt64) (comment : List Char)
deriving DecidableEq, Repr

/-- The time of the marker in the run. -/
def Call.time : Call T → T
  | .scanStart time .. => time
  | .scanStop time .. => time
  | .comment time .. => time

/-- Make a call. -/
def call (s : Logs T) : Call T → Logs T
  | .scanStart time ts scanIndex comment => markerScanStart s time ts scanIndex comment
  | .scanStop time ts scanIndex comment => markerScanStop s time ts scanIndex comment
  | .comment time ts comment => markerComment s time ts comment

/-- The state after a sequence of calls. -/
def calls (cs : List (Call T)) : Logs T := cs.foldl call .initial

end Adara.Native.MarkerLogs
