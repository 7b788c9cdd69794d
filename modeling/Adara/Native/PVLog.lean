import Adara.Native.PVInfo

/-! # Value logs of process variables

The translator keeps the updates of a process variable in a buffer, with times relative to the
first pulse, and writes full buffers to the log of the variable.  An update before the first
pulse has its time normalised later; of those not after the first pulse only the last is kept.
Variables with the same connection are marked as duplicates, and are written at the end of the
run only, as one log.

`m_stats` is here the list of the numbers pushed since it was last reset.  Times are in whole
nanoseconds, so that the comparisons of `subsumeValues` up to its epsilon are exact, and the
marker `-1.0` is minus one second.  The two buffers, which always change together, are one.
A variable's value dataset is kept with it; paths, links, the strings of enumerations and what
only serves the conditional groups are left out. -/

namespace Adara.Native

/-- What the translator asks of floating point numbers. -/
class PVDouble (D : Type) where
  zero : D
  /-- `approximatelyEqual`, with `STC_DOUBLE_EPSILON`. -/
  approximatelyEqual : D → D → Bool

/-- A number or a string in a dataset. -/
inductive PVCell (D : Type)
  | uint32 (n : UInt32)
  | double (d : D)
  | string (s : List UInt8)
deriving DecidableEq

/-- A value of a process variable. -/
inductive PVValue (D : Type)
  | uint32 (n : UInt32)
  | double (d : D)
  | string (s : List UInt8)
  | uint32Array (ns : List UInt32)
  | doubleArray (ds : List D)
deriving DecidableEq

/-- An entry of `m_value_buffer` and `m_time_buffer`. -/
structure PVEntry (D : Type) where
  value : PVValue D
  time : Int
deriving DecidableEq

/-- Types whose values wait for the end of the run. -/
def PVType.deferred (type : PVType) : Bool :=
  type = .string || type = .uintArray || type = .doubleArray

variable {D : Type} [PVDouble D]

namespace PVValue

/-- Whether `PVInfo` for this type has such values. -/
def hasType : PVValue D → PVType → Bool
  | uint32 _, type => type = .int || type = .enum || type = .uint
  | double _, type => type = .float || type = .double
  | string _, type => type = .string
  | uint32Array _, type => type = .uintArray
  | doubleArray _, type => type = .doubleArray

def valuesEqual : PVValue D → PVValue D → Bool
  | uint32 m, uint32 n => m == n
  | double c, double d => PVDouble.approximatelyEqual c d
  | string s, string t => s == t
  | uint32Array ms, uint32Array ns => ms == ns
  | doubleArray cs, doubleArray ds =>
    cs.length == ds.length && (cs.zip ds).all fun e => PVDouble.approximatelyEqual e.1 e.2
  | _, _ => false

/-- What `addToStats` pushes for a value. -/
def pushed : PVValue D → List (PVCell D)
  | uint32 n => [.uint32 n]
  | double d => [.double d]
  | string _ => []
  | uint32Array ns => ns.map .uint32
  | doubleArray ds => ds.map .double

/-- The length of a string or an array. -/
def size : PVValue D → Nat
  | uint32 _ | double _ => 1
  | string s => s.length
  | uint32Array ns => ns.length
  | doubleArray ds => ds.length

/-- The row of the dataset for a value: strings and arrays are padded. -/
def row (maxLen : Nat) : PVValue D → List (PVCell D)
  | uint32 n => [.uint32 n]
  | double d => [.double d]
  | string s => [.string (s ++ List.replicate (maxLen - s.length) 0x20)]
  | uint32Array ns => ns.map .uint32 ++ List.replicate (maxLen - ns.length) (.uint32 0)
  | doubleArray ds =>
    ds.map .double ++ List.replicate (maxLen - ds.length) (.double PVDouble.zero)

end PVValue

/-- `max_len` of the values of a buffer, which is never zero. -/
def maxLen (values : List (PVValue D)) : Nat := values.foldl (fun len v => max len v.size) 1

/-- What is written for the values of a buffer. -/
def datasetCells (values : List (PVValue D)) : List (PVCell D) :=
  values.flatMap (PVValue.row (maxLen values))

/-- `PVInfo`, with what is in its log. -/
structure PVInfo (D : Type) extends PVInfoBase where
  duplicate : Bool
  stats : List (PVCell D)
  lastTime : Nat
  absTimes : List Nat
  hasNonNormalized : Bool
  buffer : List (PVEntry D)
  lastValue : Option (PVValue D)
  curSize : Nat
  finalized : Bool
  /-- The value dataset. -/
  written : List (PVCell D)
  /-- The time dataset. -/
  timesWritten : List Int
  /-- The pushes that minimum, maximum, average and error were written from. -/
  statsWritten : Option (List (PVCell D))
deriving DecidableEq

/-- The run's configuration, as far as it concerns the logs. -/
structure PVConfig where
  genNexus : Bool
  ancBufWriteThresh : Nat

/-! ### Normalised times -/

/-- The result of the loop of `normalizeTimestamps`. -/
structure Normalized (D : Type) where
  buffer : List (PVEntry D)
  added : List (PVValue D)
  lastPrePulseIndex : Option Nat

/-- The loop of `normalizeTimestamps`, from the given index on.  It ends at the first time that
    is normalised. -/
def normalizeLoop (startTime : Nat) :
    Nat → Option Nat → List Nat → List (PVEntry D) → Normalized D
  | i, last, t :: absTimes, e :: buffer =>
    if e.time < 0 then
      if startTime < t then
        let r := normalizeLoop startTime (i + 1) last absTimes buffer
        ⟨{ e with time := t - startTime } :: r.buffer, e.value :: r.added, r.lastPrePulseIndex⟩
      else
        let r := normalizeLoop startTime (i + 1) (some i) absTimes buffer
        ⟨{ e with time := 0 } :: r.buffer, r.added, r.lastPrePulseIndex⟩
    else ⟨e :: buffer, [], last⟩
  | _, last, _, buffer => ⟨buffer, [], last⟩

namespace PVInfo

/-- The object that `makePVInfo` creates. -/
def make (defn : PVInfoBase) (isDuplicate : Bool) : PVInfo D where
  toPVInfoBase := defn
  duplicate := isDuplicate
  stats := []
  lastTime := 0
  absTimes := []
  hasNonNormalized := false
  buffer := []
  lastValue := none
  curSize := 0
  finalized := false
  written := []
  timesWritten := []
  statsWritten := none

def addToStats (p : PVInfo D) (values : List (PVValue D)) : PVInfo D :=
  { p with stats := p.stats ++ values.flatMap PVValue.pushed }

def normalizeTimestamps (startTime : Nat) (p : PVInfo D) : PVInfo D :=
  let r := normalizeLoop startTime 0 none p.absTimes p.buffer
  -- The entries before the last one that was not after the first pulse are erased.
  let buffer := r.buffer.drop (r.lastPrePulseIndex.getD 0)
  let last := if r.lastPrePulseIndex.isSome then (buffer.head?.map (·.value)).toList else []
  { (p.addToStats r.added).addToStats last with
    buffer := buffer
    absTimes := []
    hasNonNormalized := false }

/-- `normalizeTimestamps` for buffers of any length: the loop counts in 32 bits, and finds a
    normalised time when it is at the first entry again; `last_pre_pulse_index` has a sign. -/
def normalizeTimestamps32 (startTime : Nat) (p : PVInfo D) : PVInfo D :=
  let r := normalizeLoop startTime 0 none (p.absTimes.take (2 ^ 32)) p.buffer
  let lastPrePulseIndex : Int := r.lastPrePulseIndex.elim (-1) fun i => Int.bmod i (2 ^ 32)
  let buffer :=
    if 0 < lastPrePulseIndex then r.buffer.drop lastPrePulseIndex.toNat else r.buffer
  let last := if 0 ≤ lastPrePulseIndex then (buffer.head?.map (·.value)).toList else []
  { (p.addToStats r.added).addToStats last with
    buffer := buffer
    absTimes := []
    hasNonNormalized := false }

/-- The times of a variable are normalised if there are some that are not. -/
def normalize (startTime : Nat) (p : PVInfo D) : PVInfo D :=
  if p.hasNonNormalized then p.normalizeTimestamps startTime else p

/-! ### Flushed buffers -/

/-- `flushValueBuffers`, with the times and `m_cur_size`. -/
def flushValueBuffers (p : PVInfo D) : PVInfo D :=
  match p.buffer.getLast? with
  | none => p
  | some e =>
    { p with
      written := p.written ++ datasetCells (p.buffer.map (·.value))
      timesWritten := p.timesWritten ++ p.buffer.map (·.time)
      curSize := p.curSize + p.buffer.length
      lastValue := some e.value }

/-- The final pass, which is made once. -/
def writeStatistics (p : PVInfo D) : PVInfo D :=
  if p.finalized then p
  else if p.curSize ≠ 0 ∧ p.type ≠ .string then
    { p with statsWritten := some p.stats, finalized := true }
  else { p with finalized := true }

/-- `flushBuffers`: `final` tells whether there are run metrics, `initialized` whether the
    NeXus file could be initialised. -/
def flushBuffers (cfg : PVConfig) (initialized : Bool) (startTime : Nat) (final : Bool)
    (p : PVInfo D) : Int × PVInfo D :=
  if p.hasNonNormalized ∧ startTime = 0 then (-1, p)
  else
    let p := p.normalize startTime
    if cfg.genNexus ∧ ¬ initialized then (0, p)
    else if cfg.genNexus ∧ ¬ p.ignore then
      if p.duplicate then (-1, p)
      else if ¬ final ∧ p.type.deferred then (-1, p)
      else if p.curSize = 0 ∧ p.buffer = [] then (0, p)
      else
        let q := if final then p.flushValueBuffers.writeStatistics else p.flushValueBuffers
        (p.buffer.length, { q with buffer := [] })
    else (if cfg.genNexus then 0 else -1, { p with buffer := [] })

/-! ### Updates -/

/-- Existing values before the first pulse are purged: all there is goes. -/
def purge (p : PVInfo D) : PVInfo D := { p with buffer := [], absTimes := [], stats := [] }

/-- The one value in the buffer and the update are both from before the first pulse. -/
def Superseded (startTime ts : Nat) (p : PVInfo D) : Prop :=
  startTime ≠ 0 ∧ ts ≤ startTime ∧ p.buffer.length = 1 ∧ p.lastTime < startTime

instance (startTime ts : Nat) (p : PVInfo D) : Decidable (p.Superseded startTime ts) :=
  inferInstanceAs (Decidable (_ ∧ _))

/-- The relative time of an update. -/
def relativeTime (startTime ts : Nat) : Int :=
  if startTime = 0 then -1000000000 else if startTime < ts then ts - startTime else 0

/-- The update is put into the buffer, and into the statistics if its time is normalised. -/
def store (startTime : Nat) (value : PVValue D) (ts : Nat) (p : PVInfo D) : PVInfo D :=
  let time := relativeTime startTime ts
  let p := { p with
    hasNonNormalized := p.hasNonNormalized || startTime = 0
    lastTime := ts
    lastValue := some value
    buffer := p.buffer ++ [⟨value, time⟩]
    absTimes := if startTime = 0 then p.absTimes ++ [ts] else p.absTimes }
  if 0 ≤ time then p.addToStats [value] else p

/-- An update that repeats the last value at its time, as at file boundaries. -/
def Repeats (value : PVValue D) (ts : Nat) (p : PVInfo D) : Prop :=
  ts = p.lastTime ∧ p.lastValue.any (·.valuesEqual value) = true

instance (value : PVValue D) (ts : Nat) (p : PVInfo D) : Decidable (p.Repeats value ts) :=
  inferInstanceAs (Decidable (_ ∧ _))

/-- `pvValueUpdate`, for the variable its key stands for.  A value of another type is an error;
    `ready` tells whether the working directory is. -/
def pvValueUpdate (cfg : PVConfig) (startTime : Nat) (value : PVValue D) (ts : Nat)
    (ready initialized : Bool) (p : PVInfo D) : Option (PVInfo D) :=
  if ¬ value.hasType p.type then none
  else if p.Repeats value ts then some p
  else
    let p := if p.Superseded startTime ts then p.purge else p
    let p := p.store startTime value ts
    if cfg.ancBufWriteThresh ≤ p.buffer.length ∧ ready then
      some (p.flushBuffers cfg initialized startTime false).2
    else some p

/-! ### Duplicates -/

/-- `subsumeValues`: the entries of a duplicate's log that are omitted in ours are added. -/
def subsumeValues : List (PVEntry D) → List (PVEntry D) → List (PVEntry D)
  | buffer, [] => buffer
  | [], dup => dup
  | e :: buffer, d :: dup =>
    if e.time < d.time then e :: subsumeValues buffer (d :: dup)
    else if d.time < e.time then d :: subsumeValues (e :: buffer) dup
    else if e.value.valuesEqual d.value then e :: subsumeValues buffer dup
    else e :: d :: subsumeValues buffer dup
termination_by buffer dup => buffer.length + dup.length

/-- The variable takes in the matching ones among those behind it, which are then ignored. -/
def subsumeAll (startTime : Nat) : PVInfo D → List (PVInfo D) → PVInfo D × List (PVInfo D)
  | p, [] => (p, [])
  | p, d :: rest =>
    if p.sameDefinitionPVConn d.toPVInfoBase false then
      let p := p.normalize startTime
      let d := d.normalize startTime
      let r := subsumeAll startTime { p with buffer := subsumeValues p.buffer d.buffer } rest
      (r.1, { d with buffer := [], ignore := true } :: r.2)
    else
      let r := subsumeAll startTime p rest
      (r.1, d :: r.2)

/-- `collapseDuplicatePVs`, for as many variables of the list as given. -/
def collapseDuplicatePVs (startTime : Nat) : Nat → List (PVInfo D) → List (PVInfo D)
  | n + 1, p :: rest =>
    if p.duplicate ∧ ¬ p.ignore then
      let r := subsumeAll startTime p rest
      { r.1 with duplicate := false } :: collapseDuplicatePVs startTime n r.2
    else p :: collapseDuplicatePVs startTime n rest
  | _, pvs => pvs

end PVInfo

/-! ### Names -/

/-- The first of a name and its versions from the given one on that is not in use.  There are
    more versions than names in use. -/
def freshName (history : List (List Char)) (base : List Char) :
    Nat → Nat → List Char → List Char
  | 0, _, name => name
  | fuel + 1, version, name =>
    if name ∈ history then
      freshName history base fuel (version + 1)
        (base ++ '(' :: Nat.toDigits 10 (version + 1) ++ [')'])
    else name

/-- The scan of `makePVInfo` for the connection of a new variable: the variables with the first
    match marked, whether there is one, the connection and the names in use. -/
def findDuplicate (defn : PVInfoBase) : List (PVInfo D) → List Char → List (List Char) →
    List (PVInfo D) × Bool × List Char × List (List Char)
  | [], connection, history => ([], false, connection, history)
  | p :: pvs, connection, history =>
    if p.sameDefinitionPVConn { defn with connection := connection } false then
      ({ p with duplicate := true } :: pvs, true, connection, history)
    else
      let (connection, history) :=
        if p.connection = connection then
          let name := freshName history defn.connection (history.length + 1) 0 connection
          (name, name :: history)
        else (connection, history)
      let r := findDuplicate defn pvs connection history
      (p :: r.1, r.2)

/-! ### The variables of a run -/

/-- What the translator knows of its process variables: `m_pvs_list`, the names in use, the
    time of the first pulse (zero for none) and that of the run start. -/
structure PVStream (D : Type) where
  pvsList : List (PVInfo D)
  nameHistory : List (List Char)
  startTime : Nat
  runStartTime : Option Nat
deriving DecidableEq

/-- What happens to the process variables in a run.  An update is for the variable its key
    stands for, given by its place in the list. -/
inductive PVEvent (D : Type)
  | makePVInfo (defn : PVInfoBase)
  | pulse (timestamp : Nat)
  | update (index : Nat) (value : PVValue D) (ts : Nat) (ready initialized : Bool)

namespace PVStream

def init : PVStream D where
  pvsList := []
  nameHistory := []
  startTime := 0
  runStartTime := none

/-- `makePVInfo`, and the new variable in the list. -/
def makePVInfo (defn : PVInfoBase) (s : PVStream D) : PVStream D :=
  let history :=
    if defn.name = defn.connection then s.nameHistory
    else freshName s.nameHistory defn.name (s.nameHistory.length + 1) 0 defn.name ::
      s.nameHistory
  let (pvs, isDuplicate, connection, history) := findDuplicate defn s.pvsList defn.connection
    history
  { s with
    pvsList := pvs ++ [.make defn isDuplicate]
    nameHistory := if isDuplicate then history else connection :: history }

/-- The first pulse sets the start time. -/
def pulse (timestamp : Nat) (s : PVStream D) : PVStream D :=
  if s.startTime = 0 then { s with startTime := timestamp, runStartTime := some timestamp }
  else s

/-- One event; an error has no result. -/
def step (cfg : PVConfig) (s : PVStream D) : PVEvent D → Option (PVStream D)
  | .makePVInfo defn => some (s.makePVInfo defn)
  | .pulse timestamp => some (s.pulse timestamp)
  | .update index value ts ready initialized => do
    let p ← s.pvsList[index]?
    let p ← p.pvValueUpdate cfg s.startTime value ts ready initialized
    some { s with pvsList := s.pvsList.set index p }

/-- What `finalizeStreamProcessing` does for the variables.  Without a pulse the run starts at a
    default time. -/
def finalize (cfg : PVConfig) (defaultStart : Nat) (initialized : Nat → Bool) (s : PVStream D) :
    List (PVInfo D) :=
  let startTime := s.runStartTime.getD defaultStart
  (PVInfo.collapseDuplicatePVs startTime s.pvsList.length s.pvsList).mapIdx fun i p =>
    (p.flushBuffers cfg (initialized i) startTime true).2

end PVStream

end Adara.Native
