import Adara.ForStd.SortedMap
import Adara.ForStd.Word32

/-! # Rate-limited logging

`RateLimitedLogging::checkLog` keeps the times at which a message occurred, and tells whether it
is to be logged now.  A time that was logged is negative; one that is older than the window
becomes 0, or -1 if it was logged, and is erased later.

The key of a message, its number and its name, is of any type with an order.  The clock is an
argument. -/

namespace Adara.Native

namespace RateLimitedLogging

/-- The occurrences of each message. -/
abbrev History (κ : Type) [LinearOrder κ] := SortedMap κ (List Int)

/-- Why a call has no result. -/
inductive CheckFailure where
  /-- The last time of no times is marked. -/
  | emptyVector
  /-- The remainder by a log rate of 0. -/
  | divisionByZero
  /-- There are `2 ^ 32` old times, so that their count wraps and the loop goes on forever. -/
  | endless
deriving DecidableEq, Repr

/-- What a caller asks for. -/
structure Limits where
  windowSeconds : UInt32
  threshold : UInt32
  logRate : UInt32
deriving DecidableEq, Repr

/-- A time is older than the window. -/
def expired (limits : Limits) (now time : Int) : Bool :=
  limits.windowSeconds.toNat < now - time.natAbs

/-- The mark of an old time keeps whether it was logged. -/
def oldMark (time : Int) : Int := if time < 0 then -1 else 0

/-- A time is marked as old. -/
def isOld (time : Int) : Bool := time = 0 ∨ time = -1

/-- Mark the old times from `old` on, as far as they come in order. -/
def markOld (limits : Limits) (now : Int) :
    (fuel : Nat) → (old : Nat) → List Int → Option (Nat × List Int)
  | 0, _, _ => none
  | fuel + 1, old, times =>
    match times[old]? with
    | none => some (old, times)
    | some time =>
      if expired limits now time then
        markOld limits now fuel (Word32.add old 1) (times.set old (oldMark time))
      else some (old, times)

/-- Erase old times from the front, up to `cnt` of them. -/
def eraseOld : (cnt : Nat) → List Int → List Int
  | 0, times => times
  | _, [] => []
  | cnt + 1, time :: times => if isOld time then eraseOld cnt times else time :: times

/-- Erase in chunks of the log rate.  There are at most `old` of them. -/
def eraseChunks (logRate : Nat) : (fuel : Nat) → (old : Nat) → List Int → List Int
  | 0, _, times => times
  | fuel + 1, old, times =>
    if logRate ≤ old then eraseChunks logRate fuel (old - logRate) (eraseOld logRate times)
    else times

/-- Mark the most recent time as logged. -/
def markLogged (times : List Int) : Except CheckFailure (List Int) :=
  match times.getLast? with
  | none => .error .emptyVector
  | some time => .ok (times.dropLast ++ [-time])

/-- The commentary when the threshold is reset. -/
def resetInfo (limits : Limits) (old size : Nat) : String :=
  "[*** Reset Threshold, Log Rate has Slowed! " ++ toString old ++
    " Timestamps Marked Old out of " ++ toString size ++ " Total Saved" ++
    (if size = Word32.add old 1 then " [ALL OLD]" else "") ++ ", Now Under Threshold of " ++
    toString limits.threshold ++ ".] "

/-- The commentary when one of many is logged. -/
def rateInfo (limits : Limits) (old : Nat) (times : List Int) : String :=
  let newLogs := (times.reverse.takeWhile (0 ≤ ·)).length % Word32.modulus
  "[*** Rate-Limited Log: " ++ toString (times.length - old) ++ " Occurrences (" ++
    toString newLogs ++ " New) in Last " ++ toString limits.windowSeconds ++ " Seconds!" ++
    " (thresh=" ++ toString limits.threshold ++ ", rate=" ++ toString limits.logRate ++
    ", old=" ++ toString old ++ ")] "

/-- What a call does with the times of its message: whether to log, the commentary, and what the
    times are then. -/
def checkTimes (limits : Limits) (now : Int) (times : List Int) :
    Except CheckFailure (Bool × String × List Int) :=
  let times := times ++ [now]
  match markOld limits now (times.length + 1) 0 times with
  | none => .error .endless
  | some (old, times) =>
    let size := times.length
    let threshold := limits.threshold.toNat
    let resetThresh := decide (threshold ≤ size ∧ size - old < threshold)
    let info := if resetThresh then resetInfo limits old size else ""
    if threshold ≤ size ∧ resetThresh = false then
      if limits.logRate = 0 then .error .divisionByZero
      else if (size - threshold) % limits.logRate.toNat = 0 then do
        let logged ← markLogged times
        .ok (true, info ++ rateInfo limits old times,
          eraseChunks limits.logRate.toNat old old logged)
      else .ok (false, info, times)
    else do
      let logged ← markLogged (times.dropWhile isOld)
      .ok (true, info, logged)

variable {κ : Type} [LinearOrder κ]

/-- `checkLog` -/
def checkLog (limits : Limits) (key : κ) (now : Int) (history : History κ) :
    Except CheckFailure (Bool × String × History κ) := do
  let (ok, info, times) ← checkTimes limits now ((history.find? key).getD [])
  .ok (ok, info, history.alter key fun _ => times)

/-- What the calls for one message return, at some times of the clock.  There is nothing behind a
    call without a result. -/
def checkLogs (limits : Limits) (key : κ) :
    History κ → List Int → List (Except CheckFailure Bool)
  | _, [] => []
  | history, now :: rest =>
    match checkLog limits key now history with
    | .error failure => [.error failure]
    | .ok (ok, _, history) => .ok ok :: checkLogs limits key history rest

end RateLimitedLogging

end Adara.Native
