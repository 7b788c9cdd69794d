import Adara.ForStd.SortedMap
import Adara.Native.RawData
import Mathlib.Data.Fintype.Card
import Mathlib.Data.Prod.Lex

/-! # Pulses

The data the SMS collects for one pulse before it records it: the events of every
source by bank and state, monitor, chopper and fast-metadata events, and what the
timing packets say about the pulse. -/

namespace Adara.Native

/-- `SourceSet`, a bit for each of the 256 event sources the SMS can track. -/
abbrev SourceSet := Finset (Fin 256)

/-- `PulseIdentifier`: pulse id and duplicate count, in lexicographic order. -/
abbrev PulseIdentifier := UInt64 ×ₗ UInt32

def PulseIdentifier.mk (id : UInt64) (dup : UInt32) : PulseIdentifier := toLex (id, dup)

/-- `PulseIdentifier(-1, -1)`. -/
def invalidPid : PulseIdentifier := .mk 0xffffffffffffffff 0xffffffff

/-! ### Pulse flags -/

namespace PulseFlags

def errorPixels : UInt32 := 0x00001
def partialData : UInt32 := 0x00002
def pulseVeto : UInt32 := 0x00004
def missingRtdl : UInt32 := 0x00008
def mappingError : UInt32 := 0x00010
def duplicatePulse : UInt32 := 0x00020
def pchargeUncorrected : UInt32 := 0x00040
def vetoUncorrected : UInt32 := 0x00080
def gotMetadata : UInt32 := 0x00100
def gotNeutrons : UInt32 := 0x00200
def hasStates : UInt32 := 0x00400

end PulseFlags

/-! ### The parts of a pulse -/

/-- The events one hardware source sent for a pulse.  `banksArr` is the array at
    `m_banks_arr`, so `m_banks_arr_size` is its length. -/
structure EventSource where
  intraPulseTime : UInt32
  tofField : UInt32
  activeBanks : UInt32
  numStates : Nat
  banksArr : List (List Event)
deriving DecidableEq

structure BeamMonitor where
  sourceId : UInt32
  tofField : UInt32
  eventTof : List UInt32
deriving DecidableEq

structure Pulse where
  id : PulseIdentifier
  pending : SourceSet
  numEventSources : Nat
  rtdl : Option RTDLPkt
  pulseSources : SortedMap UInt32 EventSource
  monitors : SortedMap UInt32 BeamMonitor
  chopperEvents : SortedMap UInt32 (List UInt32)
  fastMetaEvents : SortedMap UInt32 (List Event)
  numEvents : UInt32
  numBanks : UInt32
  numMonEvents : UInt32
  charge : UInt32
  vetoFlags : UInt32
  cycle : UInt32
  ringPeriod : UInt32
  flags : UInt32
deriving DecidableEq

namespace Pulse

/-- The constructor. -/
def new (id : PulseIdentifier) (srcs : SourceSet) : Pulse where
  id
  pending := srcs
  numEventSources := srcs.card
  rtdl := none
  pulseSources := .empty
  monitors := .empty
  chopperEvents := .empty
  fastMetaEvents := .empty
  numEvents := 0
  numBanks := 0
  numMonEvents := 0
  charge := 0
  vetoFlags := 0
  cycle := 0
  ringPeriod := 0
  flags := 0

/-- `m_flags |= flag`. -/
def setFlag (p : Pulse) (flag : UInt32) : Pulse := { p with flags := p.flags ||| flag }

/-- `m_flags |= flag` where `cond` holds. -/
def setFlagIf (p : Pulse) (cond : Bool) (flag : UInt32) : Pulse :=
  if cond then p.setFlag flag else p

/-- `m_flags &= ~flag`. -/
def clearFlag (p : Pulse) (flag : UInt32) : Pulse := { p with flags := p.flags &&& ~~~flag }

/-- `m_flags & flag`. -/
def hasFlag (p : Pulse) (flag : UInt32) : Bool := p.flags &&& flag != 0

/-- Stop waiting for a source: a pulse that was still pending on it is partial. -/
def releasePartial (p : Pulse) (smsId : Fin 256) : Pulse :=
  if smsId ∈ p.pending then
    { p.setFlag PulseFlags.partialData with pending := p.pending.erase smsId }
  else p

@[simp] theorem id_setFlag (p : Pulse) (flag : UInt32) : (p.setFlag flag).id = p.id := rfl

@[simp] theorem pending_setFlag (p : Pulse) (flag : UInt32) :
    (p.setFlag flag).pending = p.pending := rfl

@[simp] theorem id_releasePartial (p : Pulse) (smsId : Fin 256) :
    (p.releasePartial smsId).id = p.id := by
  unfold releasePartial
  split <;> rfl

/-- Released from a source, a pulse is pending on the others. -/
@[simp] theorem pending_releasePartial (p : Pulse) (smsId : Fin 256) :
    (p.releasePartial smsId).pending = p.pending.erase smsId := by
  unfold releasePartial
  split
  · rfl
  · rename_i hnot
    rw [Finset.erase_eq_of_notMem hnot]

end Pulse

end Adara.Native
