import Adara.Native.EventStream

/-! # Histograms of detector banks

A detector bank set can ask for a histogram of its banks.  `initializeBank` makes it when the
first events of a bank come: a counter for every time-of-flight bin of every pixel, and a table
of the offsets of the pixels in these counters.  `processBankEvents` then counts the events.

Of a `BankInfo` there is here what the histogram needs.  Of a set the name, the throttle and the
suffix are left out, which are only for the events and the metadata; and so are the limits of the
bins, which are only written.  A division by zero, and a read or a write outside the table or the
counters, has no result (`none`). -/

namespace Adara.Native

/-! ### Sets of detector banks -/

/-- `DetectorBankSet`, as far as histograms go. -/
structure DetectorBankSet where
  flags : UInt32
  tofOffset : UInt32
  tofMax : UInt32
  tofBin : UInt32
deriving DecidableEq, Repr

namespace DetectorBankSet

/-- A set as `rxPacket` accepts it. -/
def accept (set : DetectorBankSet) : DetectorBankSet :=
  -- the mask `!(HISTO_FORMAT)` is 0, not the complement of the flag
  let set := if set.tofMax ≤ set.tofOffset then { set with flags := set.flags &&& 0 } else set
  if set.tofBin < 1 then { set with tofBin := 1 } else set

/-- Whether the set asks for a histogram. -/
def wantsHisto (set : DetectorBankSet) : Bool := set.flags &&& histoFormat ≠ 0

/-- The limits of the bins, at least those of one bin, as for a beam monitor. -/
def numTofBins (set : DetectorBankSet) : Nat :=
  let range := Word32.sub set.tofMax.toNat set.tofOffset.toNat
  let bins := Word32.add (range / set.tofBin.toNat) 1
  let bins := if range % set.tofBin.toNat ≠ 0 then Word32.add bins 1 else bins
  if bins < 2 then 2 else bins

end DetectorBankSet

/-! ### The histogram of a bank -/

/-- What a `BankInfo` has for its histogram. -/
structure BankHistogram where
  logicalPixelids : List UInt32
  bankSets : List (Option DetectorBankSet)
  initialized : Bool
  hasHisto : Bool
  numTofBins : Nat
  tofBinSize : Nat
  basePid : UInt32
  histoPidOffset : List Int32
  dataBuffer : List Nat
  histoEventCount : Nat
  histoEventUncounted : Nat
deriving DecidableEq, Repr

/-- What is done with an event: it is counted in a bin, or as uncounted, in the end or in one of
    the branches that should never happen. -/
inductive HistoOutcome where
  | counted
  | uncounted
  | tofbinTooLarge
  | indexTooLarge
deriving DecidableEq, Repr

namespace BankHistogram

/-- `makeBankInfo`, with the pixel ids and the sets assigned after it. -/
def make (logicalPixelids : List UInt32) (bankSets : List (Option DetectorBankSet)) :
    BankHistogram where
  logicalPixelids
  bankSets
  initialized := false
  hasHisto := false
  numTofBins := 0
  tofBinSize := 0
  basePid := 0
  histoPidOffset := []
  dataBuffer := []
  histoEventCount := 0
  histoEventUncounted := 0

/-- The first `num_pids` pixel ids: their number is cut to 32 bits. -/
def pids (bi : BankHistogram) : List UInt32 :=
  bi.logicalPixelids.take (UInt32.ofNat bi.logicalPixelids.length).toNat

/-- The smallest pixel id. -/
def minPid (first : UInt32) (rest : List UInt32) : UInt32 :=
  rest.foldl (fun least pid => if pid < least then pid else least) first

/-- The largest pixel id. -/
def maxPid (first : UInt32) (rest : List UInt32) : UInt32 :=
  rest.foldl (fun most pid => if most < pid then pid else most) first

/-- Fill in the offsets.  They are cut to 32 bits with a sign; a pixel whose offset is not
    negative is a duplicate. -/
def fillOffsets (basePid : UInt32) (binsPerPid : Nat) :
    (offset : Nat) → List UInt32 → List Int32 → Option (List Int32)
  | _, [], table => some table
  | offset, pid :: pids, table =>
    let index := (pid - basePid).toNat
    match table[index]? with
    | none => none
    | some old =>
      fillOffsets basePid binsPerPid (offset + 1) pids
        (if old < 0 then table.set index (UInt32.ofNat (offset * binsPerPid)).toInt32 else table)

/-- Make the histogram of a set, unless there are no pixel ids.  At the end of a run it is a
    tiny one. -/
def addHistogram (endOfRun : Bool) (bi : BankHistogram) (set : DetectorBankSet) :
    Option BankHistogram :=
  match bi.pids with
  | [] => some bi
  | first :: rest =>
    if endOfRun = false ∧ set.tofBin = 0 then none
    else
      let numTofBins := if endOfRun then 3 else set.numTofBins
      let basePid := minPid first rest
      let offsetSize := maxPid first rest - basePid + 1
      (fillOffsets basePid (numTofBins - 1) 0 (first :: rest)
          (List.replicate offsetSize.toNat (-1))).map fun histoPidOffset =>
        { bi with
          hasHisto := true
          numTofBins
          tofBinSize := if endOfRun then set.tofMax.toNat / 2 else set.tofBin.toNat
          basePid
          histoPidOffset
          dataBuffer := List.replicate ((first :: rest).length * (numTofBins - 1)) 0 }

/-- A set of the bank, in `initializeBank`. -/
def addSet (endOfRun : Bool) (bi : BankHistogram) : Option DetectorBankSet → Option BankHistogram
  | none => some bi
  | some set =>
    -- there is room for one histogram only
    if set.wantsHisto ∧ bi.hasHisto = false then addHistogram endOfRun bi set else some bi

/-- `initializeBank`. -/
def initializeBank (endOfRun : Bool) (bi : BankHistogram) : Option BankHistogram :=
  if bi.initialized then some bi
  else (bi.bankSets.foldlM (addSet endOfRun) bi).map fun bi => { bi with initialized := true }

/-- The set of the histogram: the first that asks for one. -/
def setInUse (bankSets : List (Option DetectorBankSet)) : Option DetectorBankSet :=
  bankSets.findSome? fun set? => set?.filter DetectorBankSet.wantsHisto

/-- Count an event as uncounted. -/
def uncount (bi : BankHistogram) : BankHistogram :=
  { bi with histoEventUncounted := bi.histoEventUncounted + 1 }

/-- The loop body for an event.  The offset of its pixel is looked up in both branches. -/
def countEvent (set : DetectorBankSet) (bi : BankHistogram) (ev : Event) :
    Option (HistoOutcome × BankHistogram) :=
  let tof := ev.tof.toNat / 10
  match bi.histoPidOffset[(ev.pixel - bi.basePid).toNat]? with
  | none => none
  | some slot =>
    if set.tofOffset.toNat ≤ tof ∧ tof < set.tofMax.toNat ∧ 0 ≤ slot then
      if bi.tofBinSize = 0 then none
      else
        let tofbin := (tof - set.tofOffset.toNat) / bi.tofBinSize
        if bi.numTofBins - 1 ≤ tofbin then some (.tofbinTooLarge, bi.uncount)
        else
          let index := Word32.add slot.toUInt32.toNat tofbin
          if bi.logicalPixelids.length * (bi.numTofBins - 1) ≤ index then
            some (.indexTooLarge, bi.uncount)
          else if index < bi.dataBuffer.length then
            some (.counted, { bi with
              dataBuffer := bi.dataBuffer.modify index (Word32.add · 1)
              histoEventCount := bi.histoEventCount + 1 })
          else none
    else some (.uncounted, bi.uncount)

/-- The loop over some events. -/
def countEvents (set : DetectorBankSet) :
    BankHistogram → List Event → Option (List HistoOutcome × BankHistogram)
  | bi, [] => some ([], bi)
  | bi, ev :: evs => do
    let (outcome, bi) ← countEvent set bi ev
    let (outcomes, bi) ← countEvents set bi evs
    some (outcome :: outcomes, bi)

/-- What packets do to the histogram of a bank: a set is associated with the bank, or there are
    events for it. -/
inductive HistoOp where
  | associate (set : DetectorBankSet)
  | events (evs : List Event)
deriving DecidableEq, Repr

/-- `associateDetectorBankSet`, and the histogram part of `processBankEvents`. -/
def histoStep (bi : BankHistogram) : HistoOp → Option (List HistoOutcome × BankHistogram)
  | .associate set => some ([], { bi with bankSets := bi.bankSets ++ [some set.accept] })
  | .events evs => do
    let bi ← bi.initializeBank false
    match bi.hasHisto, setInUse bi.bankSets with
    | true, some set => countEvents set bi evs
    | _, _ => some ([], bi)

/-- Some packets after each other. -/
def histoSteps : BankHistogram → List HistoOp → Option (List HistoOutcome × BankHistogram)
  | bi, [] => some ([], bi)
  | bi, op :: ops => do
    let (outcomes, bi) ← histoStep bi op
    let (outcomes', bi) ← histoSteps bi ops
    some (outcomes ++ outcomes', bi)

/-- A whole run, with `finalizeStreamProcessing` in the end. -/
def histoRun (bi : BankHistogram) (ops : List HistoOp) :
    Option (List HistoOutcome × BankHistogram) := do
  let (outcomes, bi) ← histoSteps bi ops
  let bi ← bi.initializeBank true
  some (outcomes, bi)

end BankHistogram

/-! ### The histogram of a beam monitor -/

/-- Whether an event of a monitor comes to the branch that should never happen. -/
def MonitorInfo.tofbinTooLarge (mi : MonitorInfo) (field : UInt32) : Bool :=
  let tof := (MonitorInfo.tofOf field).toNat / 10
  mi.config.tofOffset ≤ tof ∧ tof < mi.config.tofMax ∧
    mi.config.numTofBins - 1 ≤ (tof - mi.config.tofOffset) / mi.config.tofBin

end Adara.Native
