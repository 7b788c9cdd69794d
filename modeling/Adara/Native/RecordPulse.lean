import Adara.Native.EventPackets
import Adara.Native.EventStream
import Adara.Native.Packets

/-! # The packets of a recorded pulse

The packets `SMSControl::recordPulse` builds from the pulse it has marked, and the translator's
calls for them.  Only the packets with neutron and beam monitor events are here; the others (the
timing packet before them, those of choppers and fast metadata behind them) have nothing for the
banks and beam monitors of the translator. -/

namespace Adara.Native

namespace SMSControl

/-- The packet with the banked events, which has states if the pulse has any. -/
def buildEvents (maxBank : Nat) (pulseEnergy : UInt32 → UInt32) (p : Pulse) :
    Option (List UInt32) :=
  if p.hasFlag PulseFlags.hasStates then buildBankedStatePacket maxBank pulseEnergy p
  else buildBankedPacket maxBank pulseEnergy p

/-- The packets with events that `recordPulse` adds for a pulse, in order. -/
def eventPackets (maxBank : Nat) (pulseEnergy : UInt32 → UInt32) (p : Pulse) :
    Option (List (List UInt32)) := do
  let monitorPkt ← buildMonitorPacket pulseEnergy p
  let bankedPkt ← buildEvents maxBank pulseEnergy p
  some [monitorPkt, bankedPkt]

end SMSControl

/-- The translator's call for the words of a packet, by the base type in the header.  There is
    none for the packets that are not here. -/
def StreamOp.ofWords : List UInt32 → Option StreamOp
  | _ :: type :: secs :: nsecs :: payload =>
    let timestamp := Word32.add secs.toNat epicsEpochOffset * 1000000000 + nsecs.toNat
    let baseType := adaraBasePktType type.toNat
    if baseType = 0x4000 then some (.packet timestamp (.bankedEvent payload))
    else if baseType = 0x4100 then some (.packet timestamp (.bankedEventState payload))
    else if baseType = 0x4001 then some (.packet timestamp (.beamMonitor payload))
    else none
  | _ => none

end Adara.Native
