import Mathlib.Logic.Function.Basic

/-! # Quick counters

`QuickCounter` counts the events of a count period: fast-metadata events start and stop it,
and it waits for late events before it is done.  While it counts or waits, `SMSControl` has it
in two vectors, of those that count detector events and those that count monitor events.

The counters are named by a type `κ`, their keys.  A key has 16 bits, so that ids and vectors
stay far below `INT32_MAX`.  The statistics of a count are left out: what is registered does not
depend on them. -/

namespace Adara.Native

/-! ### Registered counters -/

/-- `m_detectorAllCounter` with `m_numDetectorAllCounters`, or the same for monitors. -/
structure CounterRegistry (κ : Type*) where
  counters : List κ
  num : Int
deriving DecidableEq, Repr

namespace CounterRegistry

variable {κ : Type*} (r : CounterRegistry κ)

/-- Register a counter, under the next id. -/
def register (counter : κ) : CounterRegistry κ × Int :=
  (⟨r.counters ++ [counter], r.num + 1⟩, r.num)

/-- Erase the counter at a position.  An id that is no position is only logged. -/
def unregister (id : Int) : CounterRegistry κ :=
  if id < 0 ∨ (r.counters.length : Int) ≤ id then r
  else ⟨r.counters.eraseIdx id.toNat, r.num - 1⟩

end CounterRegistry

/-! ### Counters -/

/-- `QC_NOT_COUNTING` -/
def qcNotCounting : UInt32 := 0

/-- `QC_COUNTING` -/
def qcCounting : UInt32 := 1

/-- `QC_WAITING` -/
def qcWaiting : UInt32 := 2

/-- `QC_DONE_COUNTING` -/
def qcDoneCounting : UInt32 := 3

/-- A counter, with the PVs it is controlled by. -/
structure QuickCounter where
  counting : UInt32
  autoReset : Bool
  detectorCountsAllId : Int
  monitorCountsAllId : Int
  pvCounting : UInt32
  pvAutoReset : Bool
deriving DecidableEq, Repr

/-- All counters, what `SMSControl` has of them, and how often PVs have been updated. -/
structure QuickCounters (κ : Type*) where
  counter : κ → QuickCounter
  detectorAll : CounterRegistry κ
  monitorAll : CounterRegistry κ
  cnt : UInt32

namespace QuickCounters

variable {κ : Type*} [DecidableEq κ] (s : QuickCounters κ) (c : κ)

def modify (f : QuickCounter → QuickCounter) : QuickCounters κ :=
  { s with counter := Function.update s.counter c (f (s.counter c)) }

def setCounting (counting : UInt32) : QuickCounters κ :=
  s.modify c fun qc => { qc with counting }

/-- `update_pvs`: `IsCounting` is shown, and `AutoReset` is read every hundredth time. -/
def updatePvs : QuickCounters κ :=
  let cnt := s.cnt + 1
  { s.modify c fun qc =>
      { qc with
        pvCounting := qc.counting
        autoReset := if cnt % 100 = 0 then qc.pvAutoReset else qc.autoReset } with cnt }

def registerDetectorAllCounter : QuickCounters κ × Int :=
  let (detectorAll, id) := s.detectorAll.register c
  ({ s with detectorAll }, id)

def registerMonitorAllCounter : QuickCounters κ × Int :=
  let (monitorAll, id) := s.monitorAll.register c
  ({ s with monitorAll }, id)

def unregisterDetectorAllCounter (id : Int) : QuickCounters κ :=
  { s with detectorAll := s.detectorAll.unregister id }

def unregisterMonitorAllCounter (id : Int) : QuickCounters κ :=
  { s with monitorAll := s.monitorAll.unregister id }

/-- The end of `startCounting`, where a count starts. -/
def startCount : QuickCounters κ :=
  let s := (s.setCounting c qcCounting).updatePvs c
  let (s, detectorCountsAllId) := s.registerDetectorAllCounter c
  let s := s.modify c fun qc => { qc with detectorCountsAllId }
  let (s, monitorCountsAllId) := s.registerMonitorAllCounter c
  s.modify c fun qc => { qc with monitorCountsAllId }

/-- `startCounting`.  The state is what the PV says. -/
def startCounting : QuickCounters κ :=
  let s := s.modify c fun qc => { qc with counting := qc.pvCounting }
  let state := (s.counter c).counting
  if state = qcCounting then s.startCount c -- a redundant start
  else if state = qcWaiting then s
  else if state = qcDoneCounting then
    if (s.counter c).autoReset then s.startCount c else s
  else s.startCount c

/-- `stopCounting` -/
def stopCounting : QuickCounters κ :=
  if (s.counter c).counting ≠ qcCounting then s.updatePvs c
  else (s.setCounting c qcWaiting).updatePvs c

/-- `doneCounting` -/
def doneCounting : QuickCounters κ :=
  if (s.counter c).counting ≠ qcWaiting then s
  else
    let s := (s.setCounting c qcDoneCounting).updatePvs c
    let s := s.unregisterDetectorAllCounter (s.counter c).detectorCountsAllId
    let s := s.modify c fun qc => { qc with detectorCountsAllId := -1 }
    let s := s.unregisterMonitorAllCounter (s.counter c).monitorCountsAllId
    s.modify c fun qc => { qc with monitorCountsAllId := -1 }

/-- `addDetectorAllCounts` and `addMonitorAllCounts`, where the PVs are due. -/
def addCounts : QuickCounters κ :=
  if (s.counter c).counting ≠ qcCounting ∧ (s.counter c).counting ≠ qcWaiting then s
  else s.updatePvs c

end QuickCounters

/-- What happens to the counters: a call, or the write of a PV.  Adding counts is one where
    it updates the PVs, which it does for every thousandth. -/
inductive CounterOp (κ : Type*)
  | start (c : κ)
  | stop (c : κ)
  | done (c : κ)
  | counts (c : κ)
  | writeCounting (c : κ) (value : UInt32)
  | writeAutoReset (c : κ) (value : Bool)
deriving DecidableEq, Repr

namespace QuickCounters

variable {κ : Type*} [DecidableEq κ]

def step (s : QuickCounters κ) : CounterOp κ → QuickCounters κ
  | .start c => s.startCounting c
  | .stop c => s.stopCounting c
  | .done c => s.doneCounting c
  | .counts c => s.addCounts c
  | .writeCounting c value => s.modify c fun qc => { qc with pvCounting := value }
  | .writeAutoReset c value => s.modify c fun qc => { qc with pvAutoReset := value }

/-- The counters as they are constructed; their ids have no value yet. -/
structure Initial (s : QuickCounters κ) : Prop where
  counting : ∀ c, (s.counter c).counting = qcNotCounting
  pvCounting : ∀ c, (s.counter c).pvCounting = qcNotCounting
  detectorAll : s.detectorAll = ⟨[], 0⟩
  monitorAll : s.monitorAll = ⟨[], 0⟩

end QuickCounters

end Adara.Native
