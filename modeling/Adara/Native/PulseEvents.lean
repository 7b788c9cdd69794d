import Adara.Native.Pulse

/-! # Filing the events of a data packet

What `SMSControl::pulseEvents` does to a pulse once it has found it: monitor,
chopper and fast-metadata events go to lists of their own, every other event goes to
a bank of its source, in an array indexed by bank and state that is grown when a new
state shows up.

An access outside that array has no result (`none`). -/

namespace Adara.Native

/-! ### Pixel map -/

/-- `PixelMap`: the bank, and for a physical pixel the logical pixel, of every pixel.
    `readMap` refuses the reserved bank ids, and `m_numBanks` is one above the largest
    bank in use. -/
structure PixelMap where
  table : List (UInt32 × Nat)
  banks : List Nat
  numBanks : Nat
  numBanks_pos : 0 < numBanks
  numBanks_le : numBanks ≤ 0xfffe
  table_lt : ∀ e ∈ table, e.2 = 0xffff ∨ e.2 < numBanks
  banks_lt : ∀ b ∈ banks, b = 0xffff ∨ b < numBanks

namespace PixelMap

def unmappedBank : Nat := 0xffff

def errorBank : Nat := 0xfffe

def realBankOffset : Nat := 2

/-- Logical pixel and bank of a physical pixel. -/
def mapEvent (pm : PixelMap) (physical : UInt32) : UInt32 × Nat :=
  pm.table.getD physical.toNat (physical ||| 0x80000000, unmappedBank)

/-- Bank of a logical pixel. -/
def mapEventBank (pm : PixelMap) (logical : UInt32) : Nat :=
  pm.banks.getD logical.toNat unmappedBank

end PixelMap

/-- `m_maxBank`, the largest index of a bank. -/
def maxBank (pm : PixelMap) : Nat := pm.numBanks + PixelMap.realBankOffset

/-- `bank += PixelMap::REAL_BANK_OFFSET` on a 16-bit bank: the error bank gets index 0,
    the unmapped bank index 1. -/
def bankIndex (bank : Nat) : Nat := (bank + PixelMap.realBankOffset) % 2 ^ 16

/-! ### Settings -/

/-- The settings `pulseEvents` reads while it files events. -/
structure EventSettings where
  neutronEventStateBits : UInt32
  neutronEventStateMask : UInt32
  neutronEventSortByState : Bool
  monitorTOFBits : UInt32
  monitorTOFMask : UInt32
  chopperTOFBits : UInt32
  chopperTOFMask : UInt32
  enablePixelMapping : Bool
deriving DecidableEq

/-- The values of the control PVs behind the settings. -/
structure EventPVs where
  neutronEventStateBits : UInt32
  neutronEventSortByState : Bool
  monitorTOFBits : UInt32
  chopperTOFBits : UInt32
  enablePixelMapping : Bool
deriving DecidableEq

/-- `((uint32_t) -1) << (28 - bits) & 0x0FFFFFFF`. -/
def stateMask (bits : UInt32) : UInt32 :=
  let ones : UInt32 := 0xffffffff <<< (28 - bits)
  ones &&& 0x0fffffff

/-- `((uint32_t) -1) >> (32 - bits)`. -/
def tofMask (bits : UInt32) : UInt32 := 0xffffffff >>> (32 - bits)

/-- Take over the PVs: a mask changes with its number of bits, the state mask only
    while there are state bits. -/
def EventSettings.refresh (s : EventSettings) (pv : EventPVs) : EventSettings where
  neutronEventStateBits := pv.neutronEventStateBits
  neutronEventStateMask :=
    if pv.neutronEventStateBits ≠ s.neutronEventStateBits ∧ 0 < pv.neutronEventStateBits then
      stateMask pv.neutronEventStateBits
    else s.neutronEventStateMask
  neutronEventSortByState := pv.neutronEventSortByState
  monitorTOFBits := pv.monitorTOFBits
  monitorTOFMask :=
    if pv.monitorTOFBits ≠ s.monitorTOFBits then tofMask pv.monitorTOFBits else s.monitorTOFMask
  chopperTOFBits := pv.chopperTOFBits
  chopperTOFMask :=
    if pv.chopperTOFBits ≠ s.chopperTOFBits then tofMask pv.chopperTOFBits else s.chopperTOFMask
  enablePixelMapping := pv.enablePixelMapping

/-! ### Events outside the banks -/

/-- `addMonitorEvent`. -/
def addMonitorEvent (s : EventSettings) (pkt : RawDataPkt) (p : Pulse) (pixel tof : UInt32) :
    Pulse :=
  let monId := (pixel >>> 16) &&& 0xff
  let rising := (pixel &&& 1) <<< 31
  let word := (tof &&& s.monitorTOFMask) ||| rising
  { p with
    monitors := p.monitors.alter monId fun mon =>
      let mon := mon.getD ⟨pkt.sourceID, pkt.tofField, []⟩
      { mon with eventTof := mon.eventTof ++ [word] } }

/-- `addChopperEvent`: the time in nanoseconds, with the edge in the low bit. -/
def addChopperEvent (s : EventSettings) (p : Pulse) (pixel tof : UInt32) : Pulse :=
  let cid := (pixel &&& ~~~0xf0000000) >>> 16
  let ns := ((tof &&& s.chopperTOFMask) * 100) <<< 1
  let word := if pixel &&& 1 != 0 then ns ||| 1 else ns
  { p with chopperEvents := p.chopperEvents.alter cid fun evs => evs.getD [] ++ [word] }

/-- File a fast-metadata event under its device, known or generic. -/
def addFastMetaEvent (p : Pulse) (ev : Event) : Pulse :=
  let key := ev.pixel &&& ~~~0xffff
  { p with fastMetaEvents := p.fastMetaEvents.alter key fun evs => evs.getD [] ++ [ev] }

/-! ### Banked events -/

/-- What an event becomes: the fields of its entry in a bank, and the flags it sets. -/
structure Placement where
  logical : UInt32
  bank : Nat
  state : UInt32
  flag : UInt32
deriving DecidableEq, Repr

/-- Case 0 of the switch: a detector event, with its state decoded and its bank looked
    up. -/
def placeDetector (s : EventSettings) (pm : PixelMap) (isMapped : Bool) (phys : UInt32) :
    Placement :=
  let withStates := 0 < s.neutronEventStateBits
  let state :=
    if withStates then (phys &&& s.neutronEventStateMask) >>> (28 - s.neutronEventStateBits) else 0
  let basePhys := if withStates then phys &&& ~~~s.neutronEventStateMask else phys
  let (logical, bank) :=
    if isMapped then
      (basePhys, if s.enablePixelMapping then pm.mapEventBank basePhys else 1)
    else if s.enablePixelMapping then pm.mapEvent basePhys
    else (basePhys, 1)
  { logical
    bank := bankIndex bank
    state
    flag :=
      if s.enablePixelMapping ∧ bank = PixelMap.unmappedBank then PulseFlags.mappingError else 0 }

/-- The default of the switch: an error event, identity mapped into the error bank. -/
def placeError (phys : UInt32) : Placement :=
  { logical := phys
    bank := bankIndex PixelMap.errorBank
    state := 0
    flag := PulseFlags.errorPixels }

/-- The variables of the event loop: the pulse, the source being filled, the state
    counts shared by all sources, and the counts reported to the caller. -/
structure EventLoop where
  pulse : Pulse
  src : EventSource
  numStatesLast : Nat
  numStatesResetCount : UInt32
  eventCount : Nat
  metaCount : Nat
  errCount : Nat
  monitorCount : Nat
  gotNeutrons : Bool
  gotMetadata : Bool

/-- Grow the source's array for a new state, moving every list to the same index. -/
def growBanks (maxBank state : Nat) (a : EventLoop) : Option EventLoop :=
  if a.src.numStates < state + 1 then
    let newBanksArrSize := Word32.mul (state + 1) (maxBank + 1)
    if newBanksArrSize < a.src.banksArr.length then none
    else some { a with
      src := { a.src with
        banksArr := a.src.banksArr ++
          List.replicate (newBanksArrSize - a.src.banksArr.length) []
        numStates := state + 1 }
      numStatesLast := max a.numStatesLast (state + 1)
      numStatesResetCount :=
        if a.numStatesLast < state + 1 then 10 else a.numStatesResetCount }
  else some a

/-- `bsindex`, the index of a bank and state. -/
def bankStateIndex (maxBank bank state : Nat) : Nat :=
  Word32.add bank (Word32.mul state (maxBank + 1))

/-- Append an event to its bank, counting the bank when it is the first one there. -/
def pushBanked (maxBank : Nat) (bank state : Nat) (ev : Event) (a : EventLoop) :
    Option EventLoop :=
  let bsindex := bankStateIndex maxBank bank state
  match a.src.banksArr[bsindex]? with
  | none => none
  | some evs =>
    let first : UInt32 := if evs = [] then 1 else 0
    some { a with
      src := { a.src with
        banksArr := a.src.banksArr.set bsindex (evs ++ [ev])
        activeBanks := a.src.activeBanks + first }
      pulse := { a.pulse with
        numBanks := a.pulse.numBanks + first
        numEvents := a.pulse.numEvents + 1 } }

/-- File an event under a placement.  Without sorting by state every event goes to
    state 0, but the pulse is still marked as having states. -/
def fileBanked (s : EventSettings) (maxBank : Nat) (pl : Placement) (tof : UInt32)
    (a : EventLoop) : Option EventLoop :=
  let p := a.pulse.setFlag pl.flag
  let p := p.setFlagIf (0 < pl.state) PulseFlags.hasStates
  let state := if s.neutronEventSortByState then pl.state.toNat else 0
  (growBanks maxBank state { a with pulse := p }).bind
    (pushBanked maxBank pl.bank state ⟨tof, pl.logical⟩)

/-- One round of the event loop: the switch on the top four bits of the pixel id.  The
    third case falls through to the error handling. -/
def handleEvent (s : EventSettings) (pm : PixelMap) (pkt : RawDataPkt) (isMapped : Bool)
    (a : EventLoop) (ev : Event) : Option EventLoop :=
  let phys := ev.pixel
  let kind := phys >>> 28
  if kind = 4 then
    let p := addMonitorEvent s pkt a.pulse phys ev.tof
    some { a with
      pulse := { p with numMonEvents := p.numMonEvents + 1 }
      gotMetadata := true
      monitorCount := a.monitorCount + 1
      metaCount := a.metaCount + 1 }
  else if kind = 7 then
    some { a with
      pulse := addChopperEvent s a.pulse phys ev.tof
      gotMetadata := true
      metaCount := a.metaCount + 1 }
  else if kind = 0 then
    fileBanked s (maxBank pm) (placeDetector s pm isMapped phys) ev.tof
      { a with gotNeutrons := true, eventCount := a.eventCount + 1 }
  else if kind = 5 ∨ kind = 6 then
    some { a with
      pulse := addFastMetaEvent a.pulse ev
      gotMetadata := true
      metaCount := a.metaCount + 1 }
  else if kind = 1 ∨ kind = 2 ∨ kind = 3 then
    fileBanked s (maxBank pm) (placeError phys) ev.tof
      { a with gotMetadata := true, metaCount := a.metaCount + 1, errCount := a.errCount + 1 }
  else
    fileBanked s (maxBank pm) (placeError phys) ev.tof { a with errCount := a.errCount + 1 }

/-- The event loop. -/
def handleEvents (s : EventSettings) (pm : PixelMap) (pkt : RawDataPkt) (isMapped : Bool) :
    EventLoop → List Event → Option EventLoop
  | a, [] => some a
  | a, ev :: evs =>
    (handleEvent s pm pkt isMapped a ev).bind (handleEvents s pm pkt isMapped · evs)

/-! ### A whole packet -/

/-- Without an RTDL the packet's own view of the pulse is kept. -/
def takeTiming (pkt : RawDataPkt) (lastRingPeriod : UInt32) (p : Pulse) : Pulse :=
  if p.rtdl.isSome then p
  else { p with vetoFlags := pkt.vetoFlags, cycle := pkt.cycle, ringPeriod := lastRingPeriod }

/-- The proton charge comes from the RTDL where there is one. -/
def takeCharge (pkt : RawDataPkt) (p : Pulse) : Pulse :=
  match p.rtdl with
  | some rtdl => { p with charge := rtdl.pulseCharge }
  | none => { p with charge := pkt.pulseCharge }

/-- The source's entry in the pulse, or a new one with empty banks for the current
    number of states. -/
def findSource (pm : PixelMap) (numStatesLast : Nat) (pkt : RawDataPkt) (hwId : UInt32)
    (p : Pulse) : EventSource :=
  (p.pulseSources.find? hwId).getD
    { intraPulseTime := pkt.intraPulseTime
      tofField := pkt.tofField
      activeBanks := 0
      numStates := numStatesLast
      banksArr := List.replicate (Word32.mul numStatesLast (maxBank pm + 1)) [] }

/-- Whether the pulse counts as having neutrons, and as having metadata: the packet's
    data flags supersede what its events suggest. -/
def markContents (pkt : RawDataPkt) (mixedDataPackets : Bool) (a : EventLoop) : Pulse :=
  let neutrons :=
    a.gotNeutrons || (!pkt.gotDataFlags && (!a.gotMetadata || mixedDataPackets)) ||
      (pkt.gotDataFlags && pkt.dataFlags &&& dataFlagGotNeutrons != 0)
  let metadata :=
    a.gotMetadata || (!pkt.gotDataFlags && mixedDataPackets) ||
      (pkt.gotDataFlags && pkt.dataFlags &&& dataFlagGotMetadata != 0)
  (a.pulse.setFlagIf neutrons PulseFlags.gotNeutrons).setFlagIf metadata PulseFlags.gotMetadata

/-- `pulseEvents` from the point where it has the pulse to the end of the event loop. -/
def fileEvents (s : EventSettings) (pm : PixelMap) (lastRingPeriod : UInt32)
    (numStatesLast : Nat) (numStatesResetCount : UInt32) (pkt : RawDataPkt) (hwId : UInt32)
    (isMapped : Bool) (p : Pulse) : Option EventLoop :=
  let p := takeTiming pkt lastRingPeriod p
  let src := findSource pm numStatesLast pkt hwId p
  handleEvents s pm pkt isMapped
    { pulse := takeCharge pkt p
      src, numStatesLast, numStatesResetCount
      eventCount := 0, metaCount := 0, errCount := 0, monitorCount := 0
      gotNeutrons := false, gotMetadata := false }
    pkt.events

/-- The pulse after the packet, with the source's entry stored back. -/
def finishEvents (pkt : RawDataPkt) (hwId : UInt32) (mixedDataPackets : Bool) (a : EventLoop) :
    Pulse :=
  let p := markContents pkt mixedDataPackets a
  { p with pulseSources := p.pulseSources.alter hwId fun _ => a.src }

end Adara.Native
