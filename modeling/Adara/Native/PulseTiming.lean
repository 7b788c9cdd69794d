import Adara.ForStd.Runs
import Adara.Native.EventStream
import Adara.Native.Packets

/-! # The times and frequencies of pulses

`processPulseInfo` with the statistics of the frequencies.  A frequency is the reciprocal of an
interval, and is kept as the interval. -/

namespace Adara.Native

/-- A banked event packet, of either format: the constructors check that there is the information
    of the pulse. -/
structure PulsePacket where
  tvSec : UInt32
  tvNsec : UInt32
  payload : List UInt32
  hasPulseInfo : 4 ≤ payload.length
deriving DecidableEq, Repr

/-- `timespec_to_nsec` of `timestamp()`.  The seconds are moved from the EPICS epoch. -/
def PulsePacket.timestamp (pkt : PulsePacket) : Nat :=
  Word32.add pkt.tvSec.toNat epicsEpochOffset * 1000000000 + pkt.tvNsec.toNat

/-- `m_pulse_info`, and `freq_stats` of the run. -/
structure PulseTiming where
  info : PulseInfo
  freqStats : List Nat
deriving DecidableEq, Repr

namespace PulseTiming

def new : PulseTiming := ⟨.new, []⟩

/-- The subtractions of unsigned numbers for the time of a pulse. -/
def subtractions (info : PulseInfo) (timestamp : Nat) : List (Nat × Nat) :=
  if info.startTime ≠ 0 then
    if timestamp < info.startTime then [(0, info.lastTime)]
    else [(timestamp, info.startTime), (timestamp - info.startTime, info.lastTime)]
  else []

/-- What is pushed to the statistics: the last of the frequencies, unless it is the one that there
    is not for the first pulse. -/
def pushed (info : PulseInfo) (timestamp : Nat) : List Nat :=
  (info.logTime timestamp).buffered.freqs.getLast?.join.toList

/-- `processPulseInfo`, with whether the adapter is ready. -/
def processPulseInfo (ancBufWriteThresh : Nat) (t : PulseTiming) (call : Bool × PulsePacket) :
    Option PulseTiming :=
  (t.info.process call.1 ancBufWriteThresh call.2.timestamp call.2.payload).map fun info =>
    ⟨info, t.freqStats ++ pushed t.info call.2.timestamp⟩

end PulseTiming

end Adara.Native
