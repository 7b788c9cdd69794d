import Adara.ForStd.InUseBuffer
import Adara.ForStd.Runs
import Adara.ForStd.SortedMap
import Adara.Native.StreamParser
import Mathlib.Order.Nat

/-! # Beam monitors and the pulse log

What `StreamParser` keeps of a run besides its banks: for every beam monitor its events, in a
histogram or in buffers like those of a bank, and the pulse log, with an entry for every
banked event packet.  A packet that does not fit the input buffer is thrown away, but it is
counted as a pulse.  When the run is over, what is still buffered goes to the adapter.

The source converts what it logs to floating-point numbers.  Here times stay in nanoseconds,
times of flight in units of 100 ns and charges in units of 10 pC, and a frequency is kept as
the interval it is computed from. -/

namespace Adara.Native

/-! ### Beam monitors -/

/-- `HISTO_FORMAT`. -/
def histoFormat : UInt32 := 0x0002

/-- `BeamMonitorConfig`, without the distance, which is only for the metadata. -/
structure BeamMonitorConfig where
  id : Nat
  format : UInt32
  tofOffset : Nat
  tofMax : Nat
  tofBin : Nat
deriving DecidableEq, Repr

namespace BeamMonitorConfig

/-- What `getBeamMonitorConfig` gives for a monitor that is not in any configuration: events,
    and one big bin. -/
def default (monitorId : Nat) : BeamMonitorConfig where
  id := monitorId
  format := eventFormat
  tofOffset := 0
  tofMax := 0xffffffff
  tofBin := 0xffffffff

/-- A configuration as it is accepted, with the formats of all monitors forced to events or
    not. -/
def accept (forceEvent : Bool) (config : BeamMonitorConfig) : BeamMonitorConfig :=
  let config := if forceEvent then { config with format := eventFormat } else config
  let config :=
    if config.tofMax ≤ config.tofOffset ∧ config.format = histoFormat then
      { config with format := eventFormat }
    else config
  if config.tofBin < 1 then { config with tofBin := 1 } else config

/-- `m_num_tof_bins`: the limits of the bins, at least those of one bin. -/
def numTofBins (config : BeamMonitorConfig) : Nat :=
  let range := Word32.sub config.tofMax config.tofOffset
  let bins := Word32.add (range / config.tofBin) 1
  let bins := if range % config.tofBin ≠ 0 then Word32.add bins 1 else bins
  if bins < 2 then 2 else bins

end BeamMonitorConfig

/-- What `StreamParser` keeps of a beam monitor.  `m_tof_buffer` and `m_tof_buffer_size` are
    one buffer here. -/
structure MonitorInfo where
  config : BeamMonitorConfig
  eventCount : Nat
  eventUncounted : Nat
  lastPulseWithData : Nat
  indexBuffer : List Nat
  tofBuffer : InUseBuffer UInt32
  dataBuffer : List Nat
  /-- The index entries given to the adapter. -/
  indexWritten : List Nat
  /-- The times of flight given to the adapter. -/
  tofsWritten : List (Option UInt32)
deriving DecidableEq, Repr

namespace MonitorInfo

/-- `makeMonitorInfo`.  The buffers of the other format stay empty. -/
def make (config : BeamMonitorConfig) : MonitorInfo where
  config
  eventCount := 0
  eventUncounted := 0
  lastPulseWithData := 0
  indexBuffer := []
  tofBuffer := .empty
  dataBuffer :=
    if config.format = histoFormat then List.replicate (config.numTofBins - 1) 0 else []
  indexWritten := []
  tofsWritten := []

/-- `monitorIndexBuffersReady`: the adapter writes the index buffer. -/
def monitorIndexBuffersReady (mi : MonitorInfo) : MonitorInfo :=
  { mi with indexWritten := mi.indexWritten ++ mi.indexBuffer }

/-- `monitorPulseGap`: the adapter writes entries for pulses without data. -/
def monitorPulseGap (mi : MonitorInfo) (count : Nat) : MonitorInfo :=
  { mi with indexWritten := mi.indexWritten ++ List.replicate count mi.eventCount }

/-- `monitorTOFBuffersReady`: the adapter writes the part of the buffer in use. -/
def monitorTOFBuffersReady (mi : MonitorInfo) : MonitorInfo :=
  { mi with tofsWritten := mi.tofsWritten ++ mi.tofBuffer.inUse }

/-- The lower 21 bits of an event are its time of flight. -/
def tofOf (field : UInt32) : UInt32 := field &&& 0x1fffff

/-- Count an event in the histogram. -/
def countInHistogram (mi : MonitorInfo) (field : UInt32) : Option MonitorInfo :=
  let tof := (tofOf field).toNat / 10
  if mi.config.tofOffset ≤ tof ∧ tof < mi.config.tofMax then
    let tofbin := (tof - mi.config.tofOffset) / mi.config.tofBin
    if mi.config.numTofBins - 1 ≤ tofbin then
      some { mi with eventUncounted := mi.eventUncounted + 1 }
    else if tofbin < mi.dataBuffer.length then
      some { mi with
        dataBuffer := mi.dataBuffer.modify tofbin (Word32.add · 1)
        eventCount := mi.eventCount + 1 }
    else none
  else some { mi with eventUncounted := mi.eventUncounted + 1 }

end MonitorInfo

/-- The events of a beam monitor in a packet: its header, and the words from the first event
    on. -/
structure MonitorSection where
  monitorId : Nat
  eventCount : Nat
  rpos : List UInt32
deriving DecidableEq, Repr

namespace MonitorSection

/-- Read the header of a beam monitor, and skip the two words about the source. -/
def ofHeader (field : UInt32) (rpos : List UInt32) : MonitorSection where
  monitorId := (field >>> 22).toNat
  eventCount := (field &&& 0x003fffff).toNat
  rpos := rpos.drop 2

/-- The events processed. -/
def events (monitor : MonitorSection) : Option (List UInt32) :=
  if monitor.eventCount ≤ monitor.rpos.length then
    some (monitor.rpos.take monitor.eventCount)
  else none

end MonitorSection

/-- The loop over the beam monitors, up to the end of the payload. -/
def walkMonitors {σ : Type} (process : σ → MonitorSection → Option σ) :
    (fuel : Nat) → σ → List UInt32 → Option σ
  | _, s, [] => some s
  | fuel + 1, s, field :: rpos => do
    let monitor := MonitorSection.ofHeader field rpos
    let s ← process s monitor
    walkMonitors process fuel s (monitor.rpos.drop monitor.eventCount)
  | 0, _, _ :: _ => none

/-! ### The pulse log -/

/-- The columns of the pulse log.  There is no frequency for the first pulse. -/
structure PulseLog where
  times : List Nat
  freqs : List (Option Nat)
  flags : List UInt32
  charges : List UInt32
deriving DecidableEq, Repr

namespace PulseLog

def empty : PulseLog := ⟨[], [], [], []⟩

def append (log log' : PulseLog) : PulseLog where
  times := log.times ++ log'.times
  freqs := log.freqs ++ log'.freqs
  flags := log.flags ++ log'.flags
  charges := log.charges ++ log'.charges

end PulseLog

/-- `m_pulse_info`, and what the adapter has been given of it. -/
structure PulseInfo where
  startTime : Nat
  lastTime : Nat
  maxTime : Nat
  buffered : PulseLog
  written : PulseLog
deriving DecidableEq, Repr

namespace PulseInfo

def new : PulseInfo := ⟨0, 0, 0, .empty, .empty⟩

/-- `pulseBuffersReady`: the adapter writes the columns. -/
def pulseBuffersReady (info : PulseInfo) : PulseInfo :=
  { info with written := info.written.append info.buffered }

/-- Log the time of a pulse, and the interval from the one before: an unsigned number, so it
    wraps where time goes backwards. -/
def logTime (info : PulseInfo) (timestamp : Nat) : PulseInfo :=
  if info.startTime ≠ 0 then
    let pulseTime := if timestamp < info.startTime then 0 else timestamp - info.startTime
    let interval := (pulseTime + (2 ^ 64 - info.lastTime)) % 2 ^ 64
    { info with
      buffered := { info.buffered with
        times := info.buffered.times ++ [pulseTime]
        freqs := info.buffered.freqs ++ [some interval] }
      lastTime := pulseTime
      maxTime := max info.maxTime pulseTime }
  else
    { info with
      startTime := timestamp
      lastTime := 0
      maxTime := 0
      buffered := { info.buffered with
        times := info.buffered.times ++ [0]
        freqs := info.buffered.freqs ++ [none] } }

/-- `processPulseInfo`, for the time and the payload of a banked event packet. -/
def process (ready : Bool) (ancBufWriteThresh : Nat) (info : PulseInfo) (timestamp : Nat)
    (payload : List UInt32) : Option PulseInfo := do
  let charge ← payload[0]?
  let field ← payload[3]?
  let info := { info with
    buffered := { info.buffered with
      charges := info.buffered.charges ++ [charge]
      flags := info.buffered.flags ++ [field &&& 0xfffff] } }
  let info := info.logTime timestamp
  if info.buffered.times.length = ancBufWriteThresh ∧ ready = true then
    some { info.pulseBuffersReady with buffered := .empty }
  else some info

end PulseInfo

/-! ### The stream -/

/-- The types of packets that `rxOversizePkt` tells apart. -/
inductive PacketType where
  | bankedEvent
  | bankedEventState
  | beamMonitorEvent
  | other
deriving DecidableEq, Repr

namespace PulseCounter

/-- `rxOversizePkt`, for the first chunk of a packet or the next (`none`).  The sequence of
    pulses is followed as for packets that are processed. -/
def rxOversizePkt (c : PulseCounter) : Option PacketType → PulseCounter
  | some .bankedEvent => c.countBanked
  | some .bankedEventState => c.countBanked
  | some .beamMonitorEvent => c.countMonitor
  | some .other => c
  | none => c

end PulseCounter

/-- `StreamParser` with its beam monitors and the pulse log. -/
structure EventStream where
  parser : StreamParser
  monitorConfig : List BeamMonitorConfig
  monitors : SortedMap Nat MonitorInfo
  nonEventsCounted : Nat
  pulseInfo : PulseInfo
deriving DecidableEq

namespace EventStream

variable (ready : Bool)

/-- `getBeamMonitorConfig`. -/
def getBeamMonitorConfig (s : EventStream) (monitorId : Nat) : BeamMonitorConfig :=
  (s.monitorConfig.find? fun config => config.id = monitorId).getD (.default monitorId)

/-- Keep a configuration, and make the `MonitorInfo` if there is none. -/
def addMonitor (s : EventStream) (config : BeamMonitorConfig) : EventStream :=
  { s with
    monitorConfig := s.monitorConfig ++ [config]
    monitors := s.monitors.insert config.id (.make config) }

/-- `rxPacket` for the configurations of beam monitors.  Where both formats are asked for,
    all monitors get events. -/
def rxBeamMonitorConfig (s : EventStream) (configs : List BeamMonitorConfig) : EventStream :=
  let numEvent := configs.countP fun config => config.format = eventFormat
  let numHisto := configs.countP fun config => config.format = histoFormat
  let forceEvent := decide (0 < numEvent ∧ 0 < numHisto)
  (configs.map (.accept forceEvent)).foldl addMonitor s

/-- `handleMonitorPulseGap`. -/
def handleMonitorPulseGap (p : StreamParser) (mi : MonitorInfo) (count : Nat) : MonitorInfo :=
  if mi.config.format = histoFormat then mi
  else if mi.indexBuffer.length + count < p.ancBufWriteThresh ∨ ready = false then
    { mi with indexBuffer := mi.indexBuffer ++ List.replicate count mi.eventCount }
  else { mi.monitorIndexBuffersReady.monitorPulseGap count with indexBuffer := [] }

/-- Make room for some events in the buffer. -/
def growBuffer (p : StreamParser) (tofBuffer : InUseBuffer UInt32) (eventCount : Nat) :
    InUseBuffer UInt32 :=
  let needed := tofBuffer.size + eventCount
  if tofBuffer.cells.length < needed then
    let resz := if tofBuffer.cells.length = 0 then 10 * needed else 2 * needed
    -- not beyond the threshold, or just what is needed
    tofBuffer.resize <|
      if ready = true ∧ p.eventBufWriteThresh < resz then max p.eventBufWriteThresh needed
      else resz
  else tofBuffer

/-- Give full buffers to the adapter. -/
def flushMonitor (p : StreamParser) (mi : MonitorInfo) : MonitorInfo :=
  let mi :=
    if p.eventBufWriteThresh ≤ mi.tofBuffer.size ∧ ready = true then
      { mi.monitorTOFBuffersReady with tofBuffer := mi.tofBuffer.clear }
    else mi
  if p.ancBufWriteThresh ≤ mi.indexBuffer.length ∧ ready = true then
    { mi.monitorIndexBuffersReady with indexBuffer := [] }
  else mi

/-- The event-based part of `processMonitorEvents`. -/
def processMonitorData (p : StreamParser) (mi : MonitorInfo) (events : List UInt32) :
    Option MonitorInfo := do
  -- fill the event index for the pulses since the last one with data
  let last := p.pulses.pulseCount - 1
  let mi :=
    if mi.lastPulseWithData < last then
      handleMonitorPulseGap ready p mi (last - mi.lastPulseWithData)
    else mi
  let tofBuffer ← (growBuffer ready p mi.tofBuffer events.length).push
    (events.map MonitorInfo.tofOf)
  let mi := { mi with
    tofBuffer
    indexBuffer := mi.indexBuffer ++ [mi.eventCount]
    eventCount := mi.eventCount + events.length
    lastPulseWithData := p.pulses.pulseCount }
  some (flushMonitor ready p mi)

/-- `processMonitorEvents`, and the count of the monitor's events. -/
def processMonitorEvents (s : EventStream) (monitor : MonitorSection) : Option EventStream := do
  let config := s.getBeamMonitorConfig monitor.monitorId
  let mi := (s.monitors.find? monitor.monitorId).getD (.make config)
  let events ← monitor.events
  let mi ←
    if mi.config.format = histoFormat then Runs.run MonitorInfo.countInHistogram mi events
    else processMonitorData ready s.parser mi events
  some { s with
    monitors := s.monitors.set monitor.monitorId mi
    nonEventsCounted := s.nonEventsCounted + monitor.eventCount }

/-- Log the pulse of a banked event packet. -/
def logPulse (s : EventStream) (timestamp : Nat) (payload : List UInt32) :
    Option EventStream := do
  if ← StreamParser.isDuplicate payload then some s
  else
    let pulseInfo ←
      s.pulseInfo.process ready s.parser.ancBufWriteThresh timestamp payload
    some { s with pulseInfo }

/-- Process the beam monitors of a packet. -/
def processMonitors (s : EventStream) (payload : List UInt32) : Option EventStream := do
  if ← StreamParser.isDuplicate payload then some s
  else walkMonitors (processMonitorEvents ready) payload.length s (payload.drop 4)

/-- `rxPacket`.  The pulse is counted, and the banks are processed, by the parser. -/
def rxPacket (s : EventStream) (timestamp : Nat) (pkt : StreamPacket) : Option EventStream := do
  let parser ← s.parser.rxPacket ready pkt
  match pkt with
  | .bankedEvent payload => logPulse ready { s with parser } timestamp payload
  | .bankedEventState payload => logPulse ready { s with parser } timestamp payload
  | .beamMonitor payload => processMonitors ready { s with parser } payload

end EventStream

/-- What the translator is called for: a packet with its time, the configurations of beam
    monitors, or a chunk of a packet that is too large. -/
inductive StreamOp where
  | packet (timestamp : Nat) (pkt : StreamPacket)
  | monitorConfig (configs : List BeamMonitorConfig)
  | oversize (hdr : Option PacketType)
deriving DecidableEq, Repr

namespace EventStream

/-- A call, given whether the working directory is ready. -/
def step (s : EventStream) : Bool × StreamOp → Option EventStream
  | (ready, .packet timestamp pkt) => s.rxPacket ready timestamp pkt
  | (_, .monitorConfig configs) => some (s.rxBeamMonitorConfig configs)
  | (_, .oversize hdr) =>
    some { s with
      parser := { s.parser with pulses := s.parser.pulses.rxOversizePkt hdr } }

/-- The translator when the processing of events starts. -/
def start (eventBufWriteThresh ancBufWriteThresh : Nat) (banks : BankTable BankInfo) :
    EventStream where
  parser := .start eventBufWriteThresh ancBufWriteThresh banks
  monitorConfig := []
  monitors := .empty
  nonEventsCounted := 0
  pulseInfo := .new

/-! ### The end of a run -/

/-- Write what is left of a bank. -/
def finalizeBank (p : StreamParser) (bi : BankInfo) : BankInfo :=
  let bi := bi.initializeBank
  let bi :=
    if bi.lastPulseWithData < p.pulses.pulseCount then
      p.handleBankPulseGap true bi (p.pulses.pulseCount - bi.lastPulseWithData)
    else bi
  bi.bankPidTOFBuffersReady.bankIndexBuffersReady

/-- Write what is left of a beam monitor with events. -/
def finalizeMonitor (p : StreamParser) (mi : MonitorInfo) : MonitorInfo :=
  if mi.config.format = eventFormat then
    let mi :=
      if mi.lastPulseWithData < p.pulses.pulseCount then
        handleMonitorPulseGap true p mi (p.pulses.pulseCount - mi.lastPulseWithData)
      else mi
    mi.monitorTOFBuffersReady.monitorIndexBuffersReady
  else mi

/-- `finalizeStreamProcessing`, given whether there is a working directory, or one can be
    made now.  Without one nothing more is written. -/
def finalizeStreamProcessing (workingDirectory : Bool) (s : EventStream) : EventStream :=
  if workingDirectory then
    { s with
      pulseInfo := s.pulseInfo.pulseBuffersReady
      parser := { s.parser with
        banks := { s.parser.banks with
          banksArr := s.parser.banks.banksArr.map fun arr =>
            arr.map fun bi => bi.map (finalizeBank s.parser) } }
      monitors := s.monitors.mapVal fun _ => finalizeMonitor s.parser }
  else s

end EventStream

end Adara.Native
