import Adara.Native.BankTable
import Adara.Native.RawData

/-! # Banked events in the translator

`StreamParser` receives the packets of a run.  A banked event packet has sections for its
sources, each with the events of some banks; `processBankEvents` stores these in the
`BankInfo` of the bank and keeps its event index, which has one entry for every pulse.
Buffers that are full go to the stream adapter, once the working directory is known.

What the adapter has been given of a bank is kept with the bank.  Histograms, the events
of beam monitors and the pulse log are left out.  A read or a write outside a packet or a
buffer has no result (`none`). -/

namespace Adara.Native

/-! ### Banks -/

/-- What `StreamParser` keeps of a bank with events.  Of a detector bank set there are only
    the flags (`none` for a null pointer).  `m_tof_buffer` and `m_pid_buffer`, which are
    resized and filled together, are one buffer here; its fill value is `none`. -/
structure BankInfo where
  bankSets : List (Option UInt32)
  initialized : Bool
  hasEvent : Bool
  eventCount : Nat
  lastPulseWithData : Nat
  indexBuffer : List Nat
  tofBuffer : List (Option Event)
  tofBufferSize : Nat
  /-- The index entries given to the adapter. -/
  indexWritten : List Nat
  /-- The events given to the adapter. -/
  eventsWritten : List (Option Event)
deriving DecidableEq, Repr

/-- `EVENT_FORMAT`. -/
def eventFormat : UInt32 := 0x0001

/-- `DUPLICATE_PULSE`. -/
def duplicatePulse : UInt32 := 0x00020

namespace BankInfo

/-- `makeBankInfo`, with the bank sets assigned after it. -/
def make (bankSets : List (Option UInt32)) : BankInfo where
  bankSets
  initialized := false
  hasEvent := false
  eventCount := 0
  lastPulseWithData := 0
  indexBuffer := []
  tofBuffer := []
  tofBufferSize := 0
  indexWritten := []
  eventsWritten := []

/-- Whether the sets of a bank ask for its events: one of them does, or there is none. -/
def wantsEvents (bankSets : List (Option UInt32)) : Bool :=
  bankSets.isEmpty || bankSets.any fun
    | some flags => flags &&& eventFormat ≠ 0
    | none => false

/-- `initializeBank`. -/
def initializeBank (bi : BankInfo) : BankInfo :=
  if bi.initialized then bi
  else { bi with
    hasEvent := bi.hasEvent || wantsEvents bi.bankSets
    initialized := true }

/-- `bankIndexBuffersReady`: the adapter writes the index buffer. -/
def bankIndexBuffersReady (bi : BankInfo) : BankInfo :=
  { bi with indexWritten := bi.indexWritten ++ bi.indexBuffer }

/-- `bankPulseGap`: the adapter writes entries for pulses without data. -/
def bankPulseGap (bi : BankInfo) (count : Nat) : BankInfo :=
  { bi with indexWritten := bi.indexWritten ++ List.replicate count bi.eventCount }

/-- `bankPidTOFBuffersReady`: the adapter writes the part of the buffers in use. -/
def bankPidTOFBuffersReady (bi : BankInfo) : BankInfo :=
  { bi with eventsWritten := bi.eventsWritten ++ bi.tofBuffer.take bi.tofBufferSize }

end BankInfo

/-! ### Pulses -/

/-- `m_pulse_count` and `m_pulse_flag`. -/
structure PulseCounter where
  pulseCount : Nat
  pulseFlag : Nat
deriving DecidableEq, Repr

namespace PulseCounter

/-- Count a packet with its own flag, when the other kind of packet has the other flag. -/
def count (own other : Nat) (c : PulseCounter) : PulseCounter :=
  if c.pulseFlag = 0 then ⟨c.pulseCount + 1, c.pulseFlag ||| own⟩
  -- the other packet of the pulse has counted it
  else if c.pulseFlag = other then ⟨c.pulseCount, 0⟩
  else ⟨c.pulseCount + 1, own⟩

/-- Count a banked event packet. -/
def countBanked : PulseCounter → PulseCounter := count 1 2

/-- Count a beam monitor packet. -/
def countMonitor : PulseCounter → PulseCounter := count 2 1

end PulseCounter

/-! ### The parser -/

/-- The event counts of `RunMetrics`. -/
structure RunMetrics where
  eventsCounted : Nat
  eventsUncounted : Nat
  eventsUnmapped : Nat
  eventsError : Nat
deriving DecidableEq, Repr

structure StreamParser where
  eventBufWriteThresh : Nat
  ancBufWriteThresh : Nat
  pulses : PulseCounter
  banks : BankTable BankInfo
  runMetrics : RunMetrics
deriving DecidableEq, Repr

/-- The events of a bank in a packet: its header, and the words from the first event on. -/
structure BankSection where
  bankId : Nat
  state : Nat
  eventCount : Nat
  rpos : List UInt32
deriving DecidableEq, Repr

namespace BankSection

/-- `UNMAPPED_BANK`. -/
def unmappedBank : Nat := 0xffffffff

/-- `ERROR_BANK`. -/
def errorBank : Nat := 0xfffffffe

/-- The entry of the bank. -/
def key (bank : BankSection) : BankKey :=
  if bank.bankId = unmappedBank then .unmapped
  else if bank.bankId = errorBank then .error
  else .bank bank.bankId bank.state

/-- The bank to make room for. -/
def roomFor (bank : BankSection) : Nat :=
  if bank.bankId = unmappedBank ∨ bank.bankId = errorBank then 1 else bank.bankId

/-- `event_count << 1`: the words of the events. -/
def eventWords (bank : BankSection) : Nat := Word32.mul 2 bank.eventCount

/-- The events copied to the buffers. -/
def events (bank : BankSection) : Option (List Event) :=
  if bank.eventWords ≤ bank.rpos.length then
    some (Event.ofFields (bank.rpos.take bank.eventWords))
  else none

end BankSection

namespace StreamParser

variable (ready : Bool)

/-- `handleBankPulseGap`. -/
def handleBankPulseGap (p : StreamParser) (bi : BankInfo) (count : Nat) : BankInfo :=
  let bi := bi.initializeBank
  if bi.indexBuffer.length + count < p.ancBufWriteThresh ∨ ready = false then
    { bi with indexBuffer := bi.indexBuffer ++ List.replicate count bi.eventCount }
  else { bi.bankIndexBuffersReady.bankPulseGap count with indexBuffer := [] }

/-- Make room for some events in the buffers. -/
def growBuffers (p : StreamParser) (bi : BankInfo) (eventCount : Nat) : BankInfo :=
  let needed := bi.tofBufferSize + eventCount
  if bi.tofBuffer.length < needed then
    let resz := if bi.tofBuffer.length = 0 then 10 * needed else 2 * needed
    -- not beyond the threshold, or just what is needed
    let resz :=
      if ready = true ∧ p.eventBufWriteThresh < resz then max p.eventBufWriteThresh needed
      else resz
    { bi with tofBuffer := bi.tofBuffer ++ List.replicate (resz - bi.tofBuffer.length) none }
  else bi

/-- Copy events behind those in the buffers. -/
def copyEvents (bi : BankInfo) (eventCount : Nat) (events : List Event) : Option BankInfo :=
  let stop := bi.tofBufferSize + events.length
  if stop ≤ bi.tofBuffer.length then
    some { bi with
      tofBuffer :=
        bi.tofBuffer.take bi.tofBufferSize ++ events.map some ++ bi.tofBuffer.drop stop
      tofBufferSize := bi.tofBufferSize + eventCount }
  else none

/-- Give full buffers to the adapter. -/
def flushBuffers (p : StreamParser) (bi : BankInfo) : BankInfo :=
  let bi :=
    if p.eventBufWriteThresh ≤ bi.tofBufferSize ∧ ready = true then
      { bi.bankPidTOFBuffersReady with tofBufferSize := 0 }
    else bi
  if p.ancBufWriteThresh ≤ bi.indexBuffer.length ∧ ready = true then
    { bi.bankIndexBuffersReady with indexBuffer := [] }
  else bi

/-- The event-based part of `processBankEvents`. -/
def processEventData (p : StreamParser) (bi : BankInfo) (eventCount : Nat)
    (events : List Event) : Option BankInfo := do
  -- fill the event index for the pulses since the last one with data
  let last := p.pulses.pulseCount - 1
  let bi :=
    if bi.lastPulseWithData < last then
      p.handleBankPulseGap ready bi (last - bi.lastPulseWithData)
    else bi
  let bi ← copyEvents (p.growBuffers ready bi eventCount) eventCount events
  let bi := { bi with
    indexBuffer := bi.indexBuffer ++ [bi.eventCount]
    eventCount := bi.eventCount + eventCount
    lastPulseWithData := p.pulses.pulseCount }
  some (p.flushBuffers ready bi)

/-- Find the `BankInfo` of a bank, or make it: always for a special bank, and for a
    detector bank when there is one for state 0. -/
def findBankInfo (banks : BankTable BankInfo) (key : BankKey) :
    Option (BankTable BankInfo × Option BankInfo) := do
  match ← banks.read (banks.index key) with
  | some bi => some (banks, some bi)
  | none =>
    let bankSets? ←
      match key with
      | .bank bankId _ =>
        (banks.read (banks.index (.bank bankId 0))).map fun bi0 => bi0.map BankInfo.bankSets
      | _ => some (some [])
    match bankSets? with
    | some bankSets =>
      let banks ← banks.write (banks.index key) (.make bankSets)
      some (banks, some (.make bankSets))
    | none => some (banks, none)

/-- Count the events of a bank that stores them. -/
def countStored (m : RunMetrics) (key : BankKey) (eventCount : Nat) : RunMetrics :=
  match key with
  | .bank _ _ => { m with eventsCounted := m.eventsCounted + eventCount }
  | _ => { m with eventsUncounted := m.eventsUncounted + eventCount }

/-- Count the events of an unknown bank. -/
def countUnknown (m : RunMetrics) (eventCount : Nat) : RunMetrics :=
  { m with eventsUncounted := m.eventsUncounted + eventCount }

/-- Count the events of a special bank. -/
def countSpecial (m : RunMetrics) (key : BankKey) (eventCount : Nat) : RunMetrics :=
  match key with
  | .unmapped => { m with eventsUnmapped := m.eventsUnmapped + eventCount }
  | .error => { m with eventsError := m.eventsError + eventCount }
  | .bank _ _ => m

/-- `processBankEvents`. -/
def processBankEvents (p : StreamParser) (bank : BankSection) : Option StreamParser := do
  let banks ← p.banks.reallocateBanksArray bank.roomFor bank.state
  let (banks, bi) ← findBankInfo banks bank.key
  match bi.map BankInfo.initializeBank with
  | none =>
    let runMetrics := countUnknown p.runMetrics bank.eventCount
    some { p with banks, runMetrics := countSpecial runMetrics bank.key bank.eventCount }
  | some bi =>
    if bi.hasEvent then
      let events ← bank.events
      let bi ← p.processEventData ready bi bank.eventCount events
      let banks ← banks.write (banks.index bank.key) bi
      let runMetrics := countStored p.runMetrics bank.key bank.eventCount
      some { p with banks, runMetrics := countSpecial runMetrics bank.key bank.eventCount }
    else
      let banks ← banks.write (banks.index bank.key) bi
      some { p with banks, runMetrics := countSpecial p.runMetrics bank.key bank.eventCount }

end StreamParser

/-! ### Packets -/

/-- A packet, with the words of its payload. -/
inductive StreamPacket where
  | bankedEvent (payload : List UInt32)
  | bankedEventState (payload : List UInt32)
  | beamMonitor (payload : List UInt32)
deriving DecidableEq, Repr

/-- Read the header of a bank. -/
def readBankHeader (withState : Bool) (rpos : List UInt32) : Option BankSection :=
  match withState, rpos with
  | false, bankId :: eventCount :: rpos => some ⟨bankId.toNat, 0, eventCount.toNat, rpos⟩
  | true, bankId :: state :: eventCount :: rpos =>
    some ⟨bankId.toNat, state.toNat, eventCount.toNat, rpos⟩
  | _, _ => none

/-- The loop over the banks of a source, with what is done for a bank. -/
def walkBanks {σ : Type} (withState : Bool) (process : σ → BankSection → Option σ) :
    (bankCount : Nat) → σ → List UInt32 → Option (σ × List UInt32)
  | 0, s, rpos => some (s, rpos)
  | bankCount + 1, s, rpos => do
    let bank ← readBankHeader withState rpos
    let s ← process s bank
    walkBanks withState process bankCount s (bank.rpos.drop bank.eventWords)

/-- The loop over the sources, up to the end of the payload. -/
def walkSources {σ : Type} (withState : Bool) (process : σ → BankSection → Option σ) :
    (fuel : Nat) → σ → List UInt32 → Option σ
  | _, s, [] => some s
  | fuel + 1, s, _ :: _ :: _ :: bankCount :: rpos => do
    let (s, rpos) ← walkBanks withState process bankCount.toNat s rpos
    walkSources withState process fuel s rpos
  | _, _, _ => none

namespace StreamParser

variable (ready : Bool)

/-- Whether a payload with the four words of pulse data has the flag of a duplicate. -/
def isDuplicate (payload : List UInt32) : Option Bool :=
  payload[3]?.map fun field => field &&& 0xfffff &&& duplicatePulse ≠ 0

/-- The `rxPacket`s for banked events, which differ in the header of a bank. -/
def rxBanked (withState : Bool) (p : StreamParser) (payload : List UInt32) :
    Option StreamParser := do
  if ← isDuplicate payload then some p
  else
    let p := { p with pulses := p.pulses.countBanked }
    walkSources withState (processBankEvents ready) payload.length p (payload.drop 4)

/-- `rxPacket` for a beam monitor packet, without the events. -/
def rxBeamMonitor (p : StreamParser) (payload : List UInt32) : Option StreamParser := do
  if ← isDuplicate payload then some p
  else some { p with pulses := p.pulses.countMonitor }

/-- `rxPacket`. -/
def rxPacket (p : StreamParser) : StreamPacket → Option StreamParser
  | .bankedEvent payload => rxBanked ready false p payload
  | .bankedEventState payload => rxBanked ready true p payload
  | .beamMonitor payload => rxBeamMonitor p payload

/-! ### The start of a run -/

/-- Make the `BankInfo` of a bank, if there is none. -/
def createBank (bankSets : List (Option UInt32)) (banks : BankTable BankInfo) (key : BankKey) :
    Option (BankTable BankInfo) := do
  match ← banks.read (banks.index key) with
  | some _ => some banks
  | none => banks.write (banks.index key) (.make bankSets)

/-- Make the `BankInfo`s of some banks. -/
def createBanks (bankSets : UInt16 → List (Option UInt32)) :
    List UInt16 → BankTable BankInfo → Option (BankTable BankInfo)
  | [], banks => some banks
  | bankId :: bankIds, banks => do
    let banks ← createBank (bankSets bankId) banks (.bank bankId.toNat 0)
    createBanks bankSets bankIds banks

/-- The largest bank id, or 0. -/
def maxBankId (bankIds : List UInt16) : Nat :=
  bankIds.foldl (fun bankCount bankId => max bankCount bankId.toNat) 0

/-- The banks after the pixel mapping packet, given the bank ids of its mapped sections and
    `getDetectorBankSets`. -/
def pixelMappingBanks (bankSets : UInt16 → List (Option UInt32)) (bankIds : List UInt16) :
    Option (BankTable BankInfo) := do
  let banks ← (BankTable.new BankInfo).reallocateBanksArray (maxBankId bankIds) 0
  let banks ← createBanks bankSets bankIds banks
  let banks ← createBank [] banks .unmapped
  createBank [] banks .error

/-- The parser when the processing of events starts. -/
def start (eventBufWriteThresh ancBufWriteThresh : Nat) (banks : BankTable BankInfo) :
    StreamParser where
  eventBufWriteThresh
  ancBufWriteThresh
  pulses := ⟨0, 0⟩
  banks
  runMetrics := ⟨0, 0, 0, 0⟩

end StreamParser

end Adara.Native
