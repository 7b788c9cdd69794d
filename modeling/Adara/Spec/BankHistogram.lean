import Adara.ForStd.LoggedSteps
import Adara.ForStd.WrappingTally
import Adara.Spec.HistogramBins

/-! # The histogram of a bank over a run

Once a bank has its histogram, the counters are a tally of its events (`Ready`).  An event is
fine if its pixel id has a place in the table and its time of flight does not come to the
branch that should never happen (`Fits`); any other event is read from outside the table, or does
come to this branch. -/

namespace Adara.Spec.BankHistogram

open Adara.Native Adara.Native.BankHistogram HistogramBins WrappingTally

/-! ### One event -/

/-- The bin of an event, if it is of a pixel and a time of flight that are counted. -/
def binOf (set : DetectorBankSet) (pids : List UInt32) (ev : Event) : Option Nat :=
  let tof := ev.tof.toNat / 10
  if set.tofOffset.toNat ≤ tof ∧ tof < set.tofMax.toNat then
    (offsetFrom (set.numTofBins - 1) ev.pixel 0 pids).map fun offset =>
      offset + (tof - set.tofOffset.toNat) / set.tofBin.toNat
  else none

/-- An event that can be counted as it should: its pixel id is from the range of the table, and
    if all times of flight share one bin, it is at time 0 or not of a pixel. -/
structure Fits (set : DetectorBankSet) (first : UInt32) (rest : List UInt32) (ev : Event) :
    Prop where
  inTable : InTable first rest ev.pixel
  inBin : WholeRange set.tofOffset.toNat set.tofMax.toNat set.tofBin.toNat →
    (offsetFrom (set.numTofBins - 1) ev.pixel 0 (first :: rest)).isSome → ev.tof.toNat / 10 = 0

/-- A bank with the histogram of a set, which has counted some events. -/
structure Ready (set : DetectorBankSet) (first : UInt32) (rest : List UInt32)
    (done : List Event) (bi : BankHistogram) : Prop where
  hasHisto : bi.hasHisto = true
  initialized : bi.initialized = true
  setInUse : setInUse bi.bankSets = some set
  pids : bi.pids = first :: rest
  numTofBins : bi.numTofBins = set.numTofBins
  tofBinSize : bi.tofBinSize = set.tofBin.toNat
  basePid : bi.basePid = minPid first rest
  table : Table (set.numTofBins - 1) first rest bi.histoPidOffset
  dataBuffer : bi.dataBuffer = tally Word32.modulus
    ((first :: rest).length * (set.numTofBins - 1)) (binOf set (first :: rest)) done
  uncounted : bi.histoEventUncounted = inNone (binOf set (first :: rest)) done

/-- The outcomes that may happen. -/
def MayHappen (outcome : HistoOutcome) : Prop :=
  outcome ≠ .tofbinTooLarge ∧ outcome ≠ .indexTooLarge

section Event

variable {set : DetectorBankSet} {first : UInt32} {rest : List UInt32} {done : List Event}
  {bi : BankHistogram} {ev : Event}

/-- There are no more places for pixels than pixel ids. -/
theorem Ready.length_le (h : Ready set first rest done bi) :
    (first :: rest).length ≤ bi.logicalPixelids.length := by
  rw [← h.pids, BankHistogram.pids, List.length_take]
  exact Nat.min_le_right _ _

theorem Ready.concat_none (h : Ready set first rest done bi)
    (hnone : binOf set (first :: rest) ev = none) :
    Ready set first rest (done ++ [ev]) bi.uncount where
  hasHisto := h.hasHisto
  initialized := h.initialized
  setInUse := h.setInUse
  pids := h.pids
  numTofBins := h.numTofBins
  tofBinSize := h.tofBinSize
  basePid := h.basePid
  table := h.table
  dataBuffer := by
    rw [tally_concat_none hnone]
    exact h.dataBuffer
  uncounted := by
    rw [inNone_concat, if_pos hnone, ← h.uncounted]
    rfl

theorem Ready.concat_some (h : Ready set first rest done bi) {index : Nat}
    (hsome : binOf set (first :: rest) ev = some index) :
    Ready set first rest (done ++ [ev]) { bi with
      dataBuffer := bi.dataBuffer.modify index (Word32.add · 1)
      histoEventCount := bi.histoEventCount + 1 } where
  hasHisto := h.hasHisto
  initialized := h.initialized
  setInUse := h.setInUse
  pids := h.pids
  numTofBins := h.numTofBins
  tofBinSize := h.tofBinSize
  basePid := h.basePid
  table := h.table
  dataBuffer := by
    rw [tally_concat_some hsome, ← h.dataBuffer]
    rfl
  uncounted := by
    rw [inNone_concat, if_neg (by rw [hsome]; exact nofun)]
    exact h.uncounted

/-- The bins of a pixel with an offset are counters of the histogram, with 32 bits. -/
theorem index_lt {n offset tofbin : Nat} (h : offsetFrom n ev.pixel 0 (first :: rest) = some offset)
    (htofbin : tofbin < n) (hsmall : tofbin < 2 ^ 31) :
    Word32.add offset tofbin = offset + tofbin ∧
      offset + tofbin < (first :: rest).length * n := by
  obtain ⟨hlt, hle⟩ := offsetFrom_lt h
  rw [Nat.zero_add] at hle
  refine ⟨Word32.add_of_lt ?_, by omega⟩
  have hmod : Word32.modulus = 2 ^ 32 := rfl
  omega

/-- The offset of a pixel, as the table has it. -/
theorem slot_of_offset {offset : Nat} (hlt : offset < 2 ^ 31) :
    0 ≤ (UInt32.ofNat offset).toInt32 ∧
      (UInt32.ofNat offset).toInt32.toUInt32.toNat = offset := by
  have hmod : offset % 2 ^ 32 = offset := Nat.mod_eq_of_lt (by omega)
  refine ⟨(nonneg_cut_iff _).mpr (by rwa [hmod]), ?_⟩
  show (UInt32.ofNat offset).toNat = offset
  rw [UInt32.toNat_ofNat', hmod]

/-- An event in the range of a set, and of a pixel with an offset, has its bin just if it fits. -/
theorem fits_iff_lt {offset : Nat} (hbin : 0 < set.tofBin.toNat)
    (hin : InTable first rest ev.pixel)
    (hoffset : offsetFrom (set.numTofBins - 1) ev.pixel 0 (first :: rest) = some offset)
    (hlow : set.tofOffset.toNat ≤ ev.tof.toNat / 10)
    (hhigh : ev.tof.toNat / 10 < set.tofMax.toNat) :
    Fits set first rest ev ↔
      (ev.tof.toNat / 10 - set.tofOffset.toNat) / set.tofBin.toNat < set.numTofBins - 1 := by
  have htwo : 2 ≤ set.numTofBins := two_le_numBins _ _ _
  by_cases hwhole : WholeRange set.tofOffset.toNat set.tofMax.toNat set.tofBin.toNat
  · have hbins : set.numTofBins = 2 := numBins_wholeRange hwhole
    rw [hbins, hwhole.1, hwhole.2.2, Nat.div_one, Nat.sub_zero]
    constructor
    · intro h
      have hfirst := h.inBin hwhole (by rw [hoffset]; rfl)
      omega
    · exact fun hlt => ⟨hin, fun _ _ => by omega⟩
  · have hlt := div_lt_numBins set.tofMax.toNat_lt hbin hwhole hlow hhigh
    exact ⟨fun _ => hlt, fun _ => ⟨hin, fun h => absurd h hwhole⟩⟩

/-- An event that is not in the range of the set, or of no pixel, fits. -/
theorem fits_of_none (hin : InTable first rest ev.pixel)
    (hnone : offsetFrom (set.numTofBins - 1) ev.pixel 0 (first :: rest) = none ∨
      ¬ (set.tofOffset.toNat ≤ ev.tof.toNat / 10 ∧ ev.tof.toNat / 10 < set.tofMax.toNat)) :
    Fits set first rest ev where
  inTable := hin
  inBin := fun hwhole hsome => by
    rcases hnone with hnone | hout
    · rw [hnone] at hsome
      cases hsome
    · -- only the largest word is outside of the whole range
      obtain ⟨hzero, hmax, -⟩ := hwhole
      have htof := ev.tof.toNat_lt
      omega

/-- An event in the range of the set, whose pixel has an offset. -/
theorem countEvent_inRange {slot : Int32} {tofbin index : Nat}
    (hslot : bi.histoPidOffset[(ev.pixel - bi.basePid).toNat]? = some slot)
    (hrange : set.tofOffset.toNat ≤ ev.tof.toNat / 10 ∧ ev.tof.toNat / 10 < set.tofMax.toNat ∧
      0 ≤ slot) (hbinSize : bi.tofBinSize ≠ 0)
    (htofbin : (ev.tof.toNat / 10 - set.tofOffset.toNat) / bi.tofBinSize = tofbin)
    (hindex : Word32.add slot.toUInt32.toNat tofbin = index) :
    countEvent set bi ev =
      if bi.numTofBins - 1 ≤ tofbin then some (.tofbinTooLarge, bi.uncount)
      else if bi.logicalPixelids.length * (bi.numTofBins - 1) ≤ index then
        some (.indexTooLarge, bi.uncount)
      else if index < bi.dataBuffer.length then
        some (.counted, { bi with
          dataBuffer := bi.dataBuffer.modify index (Word32.add · 1)
          histoEventCount := bi.histoEventCount + 1 })
      else none := by
  subst htofbin hindex
  simp only [countEvent, hslot]
  rw [if_pos hrange, if_neg hbinSize]

/-- What is done with an event whose pixel id has a place in the table. -/
theorem countEvent_spec (h : Ready set first rest done bi) (hbin : 0 < set.tofBin.toNat)
    (hin : InTable first rest ev.pixel) :
    (Fits set first rest ev ∧ ∃ outcome bi', countEvent set bi ev = some (outcome, bi') ∧
        MayHappen outcome ∧ Ready set first rest (done ++ [ev]) bi') ∨
      (¬ Fits set first rest ev ∧
        countEvent set bi ev = some (.tofbinTooLarge, bi.uncount)) := by
  obtain ⟨slot, hslot, hoffset⟩ := h.table.inside ev.pixel hin
  rw [← h.basePid] at hslot
  have huncounted : MayHappen .uncounted := ⟨nofun, nofun⟩
  cases hpid : offsetFrom (set.numTofBins - 1) ev.pixel 0 (first :: rest) with
  | none =>
    -- there is no such pixel
    rw [hpid] at hoffset
    have hneg : ¬ 0 ≤ slot := Int32.not_le.mpr hoffset
    have hnone : binOf set (first :: rest) ev = none := by
      simp only [binOf, hpid, Option.map_none, ite_self]
    refine .inl ⟨fits_of_none hin (.inl hpid), .uncounted, _, ?_, huncounted,
      h.concat_none hnone⟩
    simp only [countEvent, hslot]
    rw [if_neg fun hand => hneg hand.2.2]
  | some offset =>
    rw [hpid] at hoffset
    obtain ⟨hpos, hvalue⟩ := slot_of_offset (offsetFrom_lt hpid).1
    rw [← hoffset] at hpos hvalue
    by_cases hrange : set.tofOffset.toNat ≤ ev.tof.toNat / 10 ∧
        ev.tof.toNat / 10 < set.tofMax.toNat
    · have hfits := fits_iff_lt hbin hin hpid hrange.1 hrange.2
      have hsome : binOf set (first :: rest) ev = some (offset +
          (ev.tof.toNat / 10 - set.tofOffset.toNat) / set.tofBin.toNat) := by
        simp only [binOf, hpid, if_pos hrange, Option.map_some]
      have hbinSize : bi.tofBinSize ≠ 0 := by
        rw [h.tofBinSize]
        omega
      rw [countEvent_inRange hslot ⟨hrange.1, hrange.2, hpos⟩ hbinSize (by rw [h.tofBinSize])
        (by rw [hvalue])]
      have hbins := h.numTofBins
      by_cases hlt : (ev.tof.toNat / 10 - set.tofOffset.toNat) / set.tofBin.toNat <
          set.numTofBins - 1
      · have hsmall : (ev.tof.toNat / 10 - set.tofOffset.toNat) / set.tofBin.toNat < 2 ^ 31 := by
          have hle := Nat.div_le_self (ev.tof.toNat / 10 - set.tofOffset.toNat) set.tofBin.toNat
          have htof := ev.tof.toNat_lt
          omega
        obtain ⟨hindex, hroom⟩ := index_lt hpid hlt hsmall
        have hlength : bi.dataBuffer.length =
            (first :: rest).length * (set.numTofBins - 1) := by
          rw [h.dataBuffer, length_tally]
        have hmore := Nat.mul_le_mul_right (set.numTofBins - 1) h.length_le
        rw [← hbins] at hlt hroom hlength hmore
        rw [hindex, if_neg (by omega), if_neg (by omega), if_pos (by omega)]
        rw [hbins] at hlt
        exact .inl ⟨hfits.mpr hlt, .counted, _, rfl, ⟨nofun, nofun⟩, h.concat_some hsome⟩
      · rw [if_pos (by rw [hbins]; omega)]
        exact .inr ⟨mt hfits.mp hlt, rfl⟩
    · have hnone : binOf set (first :: rest) ev = none := by
        simp only [binOf, if_neg hrange]
      refine .inl ⟨fits_of_none hin (.inr hrange), .uncounted, _, ?_, huncounted,
        h.concat_none hnone⟩
      simp only [countEvent, hslot]
      rw [if_neg fun hand => hrange ⟨hand.1, hand.2.1⟩]

end Event

/-! ### The events of a run -/

/-- The events the packets have for a bank. -/
def eventsOf (ops : List HistoOp) : List Event :=
  ops.flatMap fun
    | .associate _ => []
    | .events evs => evs

@[simp] theorem eventsOf_concat (ops : List HistoOp) (op : HistoOp) :
    eventsOf (ops ++ [op]) = eventsOf ops ++ eventsOf [op] := List.flatMap_append

theorem mem_eventsOf {ev : Event} {ops : List HistoOp} :
    ev ∈ eventsOf ops ↔ ∃ op ∈ ops, ev ∈ eventsOf [op] := by
  rw [eventsOf, List.mem_flatMap]
  simp only [eventsOf, List.flatMap_cons, List.flatMap_nil, List.append_nil]

theorem countEvents_eq (set : DetectorBankSet) (bi : BankHistogram) (evs : List Event) :
    countEvents set bi evs =
      LoggedSteps.steps (fun bi ev => (countEvent set bi ev).map fun done => ([done.1], done.2))
        bi evs := by
  induction evs generalizing bi with
  | nil => rfl
  | cons ev evs ih =>
    rw [countEvents, LoggedSteps.steps, LoggedSteps.andThen]
    cases countEvent set bi ev with
    | none => rfl
    | some done =>
      simp only [Option.bind_eq_bind, Option.bind_some, Option.map_some, ← ih]
      cases countEvents set done.2 evs with
      | none => rfl
      | some last => rfl

theorem histoSteps_eq (bi : BankHistogram) (ops : List HistoOp) :
    histoSteps bi ops = LoggedSteps.steps histoStep bi ops := by
  induction ops generalizing bi with
  | nil => rfl
  | cons op ops ih =>
    rw [histoSteps, LoggedSteps.steps, LoggedSteps.andThen]
    cases histoStep bi op with
    | none => rfl
    | some done =>
      simp only [Option.bind_eq_bind, Option.bind_some, ← ih]
      cases histoSteps done.2 ops with
      | none => rfl
      | some last => rfl

section Run

open LoggedSteps

variable {set : DetectorBankSet} {first : UInt32} {rest : List UInt32} {done : List Event}
  {bi : BankHistogram} {P : BankHistogram → Prop}

/-- Events work out just if they fit. -/
theorem countEvents_spec (h : Ready set first rest done bi) (hbin : 0 < set.tofBin.toNat)
    (evs : List Event) :
    ((∀ ev ∈ evs, Fits set first rest ev) →
      wp MayHappen (countEvents set bi evs) (Ready set first rest (done ++ evs))) ∧
    (wp MayHappen (countEvents set bi evs) P → ∀ ev ∈ evs, Fits set first rest ev) := by
  have hgood : ∀ (done : List Event) bi ev, Ready set first rest done bi →
      Fits set first rest ev →
      wp MayHappen ((countEvent set bi ev).map fun done => ([done.1], done.2))
        (Ready set first rest (done ++ [ev])) := by
    intro done bi ev h hfits
    rcases countEvent_spec h hbin hfits.inTable with ⟨-, outcome, bi', heq, hmay, hready⟩ | ⟨hnot, -⟩
    · rw [heq, Option.map_some, wp_some]
      exact ⟨fun b hb => List.mem_singleton.mp hb ▸ hmay, hready⟩
    · exact absurd hfits hnot
  have hbad : ∀ (done : List Event) bi ev, Ready set first rest done bi →
      wp MayHappen ((countEvent set bi ev).map fun done => ([done.1], done.2))
        (fun _ => True) → Fits set first rest ev := by
    intro done bi ev h hwp
    by_cases hin : InTable first rest ev.pixel
    · rcases countEvent_spec h hbin hin with ⟨hfits, -⟩ | ⟨-, heq⟩
      · exact hfits
      · -- the branch for a bin that is too large
        rw [heq, Option.map_some, wp_some] at hwp
        exact absurd rfl (hwp.1 _ (List.mem_singleton.mpr rfl)).1
    · have hslot := h.table.outside ev.pixel hin
      rw [← h.basePid] at hslot
      simp only [countEvent, hslot, Option.map_none, not_wp_none] at hwp
  rw [countEvents_eq]
  exact ⟨wp_steps hgood h, good_of_wp_steps hgood hbad h⟩

/-- A packet for a bank with a histogram. -/
theorem Ready.histoStep (h : Ready set first rest done bi) (op : HistoOp) :
    (∃ bi', histoStep bi op = some ([], bi') ∧ eventsOf [op] = [] ∧
        Ready set first rest done bi') ∨
      histoStep bi op = countEvents set bi (eventsOf [op]) := by
  cases op with
  | associate new =>
    refine .inl ⟨_, rfl, rfl, ?_⟩
    exact
      { hasHisto := h.hasHisto
        initialized := h.initialized
        setInUse := by
          -- the new set comes behind the one of the histogram
          have hfirst := h.setInUse
          rw [BankHistogram.setInUse] at hfirst ⊢
          rw [List.findSome?_append, hfirst]
          rfl
        pids := h.pids
        numTofBins := h.numTofBins
        tofBinSize := h.tofBinSize
        basePid := h.basePid
        table := h.table
        dataBuffer := h.dataBuffer
        uncounted := h.uncounted }
  | events evs =>
    have hinit : bi.initializeBank false = some bi := by
      rw [initializeBank, if_pos h.initialized]
    have hevents : eventsOf [HistoOp.events evs] = evs := List.append_nil evs
    rw [BankHistogram.histoStep, hinit, hevents]
    simp only [Option.bind_eq_bind, Option.bind_some, h.hasHisto, h.setInUse]
    exact .inr trivial

/-- The packets of a run work out just if all their events fit. -/
theorem histoSteps_spec (h : Ready set first rest done bi) (hbin : 0 < set.tofBin.toNat)
    (ops : List HistoOp) :
    ((∀ ev ∈ eventsOf ops, Fits set first rest ev) →
      wp MayHappen (histoSteps bi ops) (Ready set first rest (done ++ eventsOf ops))) ∧
    (wp MayHappen (histoSteps bi ops) P → ∀ ev ∈ eventsOf ops, Fits set first rest ev) := by
  have hgood : ∀ opsDone bi op, Ready set first rest (done ++ eventsOf opsDone) bi →
      (∀ ev ∈ eventsOf [op], Fits set first rest ev) →
      wp MayHappen (BankHistogram.histoStep bi op)
        (Ready set first rest (done ++ eventsOf (opsDone ++ [op]))) := by
    intro opsDone bi op h hfits
    rw [eventsOf_concat, ← List.append_assoc]
    rcases h.histoStep op with ⟨bi', heq, hnone, hready⟩ | heq
    · rw [heq, hnone, List.append_nil, wp_some]
      exact ⟨nofun, hready⟩
    · rw [heq]
      exact (@countEvents_spec _ _ _ _ _ (fun _ => True) h hbin _).1 hfits
  have hbad : ∀ opsDone bi op, Ready set first rest (done ++ eventsOf opsDone) bi →
      wp MayHappen (BankHistogram.histoStep bi op) (fun _ => True) →
      ∀ ev ∈ eventsOf [op], Fits set first rest ev := by
    intro opsDone bi op h hwp
    rcases h.histoStep op with ⟨bi', -, hnone, -⟩ | heq
    · rw [hnone]
      exact nofun
    · rw [heq] at hwp
      exact (countEvents_spec h hbin _).2 hwp
  have hstart : Ready set first rest (done ++ eventsOf []) bi := by
    rwa [eventsOf, List.flatMap_nil, List.append_nil]
  rw [histoSteps_eq]
  constructor
  · intro hfits
    exact wp_steps (I := fun opsDone => Ready set first rest (done ++ eventsOf opsDone)) hgood
      hstart fun op hop ev hev => hfits ev (mem_eventsOf.mpr ⟨op, hop, hev⟩)
  · intro hwp ev hev
    obtain ⟨op, hop, hev⟩ := mem_eventsOf.mp hev
    exact good_of_wp_steps (I := fun opsDone => Ready set first rest (done ++ eventsOf opsDone))
      hgood hbad hstart hwp op hop ev hev

end Run

/-! ### The start of a run -/

/-- A bank without a histogram before its first events. -/
structure Waiting (pids : List UInt32) (sets : List (Option DetectorBankSet))
    (bi : BankHistogram) : Prop where
  initialized : bi.initialized = false
  hasHisto : bi.hasHisto = false
  pids : bi.pids = pids
  bankSets : bi.bankSets = sets
  uncounted : bi.histoEventUncounted = 0

/-- A bank that never gets a histogram. -/
structure Idle (bi : BankHistogram) : Prop where
  initialized : bi.initialized = true
  hasHisto : bi.hasHisto = false

section Start

variable {endOfRun : Bool} {pids : List UInt32} {sets : List (Option DetectorBankSet)}
  {set : DetectorBankSet} {first : UInt32} {rest : List UInt32} {bi : BankHistogram}

theorem pids_addHistogram_eq_nil (hpids : bi.pids = []) :
    addHistogram endOfRun bi set = some bi := by
  rw [addHistogram, hpids]

/-- A histogram is made, or the table of the offsets is written outside. -/
theorem addHistogram_spec (hpids : bi.pids = first :: rest) (hbin : 0 < set.tofBin.toNat) :
    (AllPids first rest → addHistogram endOfRun bi set = none) ∧
    (¬ AllPids first rest → ∃ table,
      Table ((if endOfRun then 3 else set.numTofBins) - 1) first rest table ∧
      addHistogram endOfRun bi set = some { bi with
        hasHisto := true
        numTofBins := if endOfRun then 3 else set.numTofBins
        tofBinSize := if endOfRun then set.tofMax.toNat / 2 else set.tofBin.toNat
        basePid := minPid first rest
        histoPidOffset := table
        dataBuffer := List.replicate
          ((first :: rest).length * ((if endOfRun then 3 else set.numTofBins) - 1)) 0 }) := by
  have hdivisor : ¬ (endOfRun = false ∧ set.tofBin = 0) := by
    rintro ⟨-, hzero⟩
    rw [hzero] at hbin
    exact absurd hbin (by decide)
  simp only [addHistogram, hpids]
  rw [if_neg hdivisor, ← places]
  constructor
  · intro hall
    rw [fillOffsets_all hall, Option.map_none]
  · intro hall
    obtain ⟨table, hfill, htable⟩ := fillOffsets_table hall
    refine ⟨table, htable, ?_⟩
    rw [hfill, Option.map_some]

theorem of_addHistogram {bi' : BankHistogram} (h : addHistogram endOfRun bi set = some bi') :
    bi'.hasHisto = true ∨ bi'.pids = [] := by
  rw [addHistogram] at h
  split at h
  · rename_i hpids
    cases h
    exact .inr hpids
  · split at h
    · cases h
    · obtain ⟨table, -, rfl⟩ := Option.map_eq_some_iff.mp h
      exact .inl rfl

/-- With a histogram, or without pixel ids, there is nothing to add. -/
theorem foldlM_addSet_self (h : bi.hasHisto = true ∨ bi.pids = []) :
    sets.foldlM (addSet endOfRun) bi = some bi := by
  induction sets with
  | nil => rfl
  | cons set? sets ih =>
    have hset : addSet endOfRun bi set? = some bi := by
      cases set? with
      | none => rfl
      | some set =>
        rw [addSet]
        split
        · rename_i hwants
          rcases h with h | h
          · exact absurd (h.symm.trans hwants.2) (by decide)
          · exact pids_addHistogram_eq_nil h
        · rfl
    rw [List.foldlM_cons, hset, Option.bind_eq_bind, Option.bind_some, ih]

theorem mem_of_setInUse (h : setInUse sets = some set) : some set ∈ sets := by
  obtain ⟨set?, hmem, hset⟩ := List.exists_of_findSome?_eq_some h
  cases set? with
  | none => cases hset
  | some set' =>
    rw [Option.filter_some] at hset
    split at hset
    · cases hset
      exact hmem
    · cases hset

/-- No set is accepted with bins of size 0. -/
theorem tofBin_accept (set : DetectorBankSet) : 0 < set.accept.tofBin.toNat := by
  simp only [DetectorBankSet.accept]
  generalize (if set.tofMax ≤ set.tofOffset then { set with flags := set.flags &&& 0 }
    else set) = checked
  split
  · exact Nat.one_pos
  · rename_i hlt
    rw [UInt32.lt_iff_toNat_lt, UInt32.toNat_one] at hlt
    omega

/-- The histogram is that of the set in use. -/
theorem foldlM_addSet (h : bi.hasHisto = false) :
    sets.foldlM (addSet endOfRun) bi =
      match setInUse sets with
      | none => some bi
      | some set => addHistogram endOfRun bi set := by
  induction sets with
  | nil => rfl
  | cons set? sets ih =>
    rw [List.foldlM_cons, setInUse, List.findSome?_cons]
    cases set? with
    | none => exact ih
    | some set =>
      by_cases hwants : set.wantsHisto
      · rw [addSet, if_pos ⟨hwants, h⟩, Option.filter_some, if_pos hwants]
        simp only
        cases hadd : addHistogram endOfRun bi set with
        | none => rw [Option.bind_eq_bind, Option.bind_none]
        | some bi' =>
          -- nothing is added after this one
          rw [Option.bind_eq_bind, Option.bind_some, foldlM_addSet_self (of_addHistogram hadd)]
      · rw [addSet, if_neg fun hand => hwants hand.1, Option.filter_some, if_neg hwants]
        exact ih

variable (h : Waiting pids sets bi)
include h

theorem Waiting.initializeBank_idle (hno : setInUse sets = none ∨ pids = []) :
    ∃ bi', initializeBank endOfRun bi = some bi' ∧ Idle bi' := by
  have hfold : sets.foldlM (addSet endOfRun) bi = some bi := by
    rcases hno with hno | hno
    · rw [foldlM_addSet h.hasHisto, hno]
    · exact foldlM_addSet_self (.inr (h.pids.trans hno))
  rw [initializeBank, if_neg (by rw [h.initialized]; decide), h.bankSets, hfold]
  exact ⟨_, rfl, rfl, h.hasHisto⟩

theorem Waiting.initializeBank_all (huse : setInUse sets = some set)
    (hpids : pids = first :: rest) (hbin : 0 < set.tofBin.toNat) (hall : AllPids first rest) :
    initializeBank endOfRun bi = none := by
  rw [initializeBank, if_neg (by rw [h.initialized]; decide), h.bankSets,
    foldlM_addSet h.hasHisto, huse]
  simp only [(addHistogram_spec (h.pids.trans hpids) hbin).1 hall, Option.map_none]

/-- The first events find the histogram ready. -/
theorem Waiting.initializeBank_ready (huse : setInUse sets = some set)
    (hpids : pids = first :: rest) (hbin : 0 < set.tofBin.toNat) (hall : ¬ AllPids first rest) :
    ∃ bi', initializeBank false bi = some bi' ∧ Ready set first rest [] bi' := by
  obtain ⟨table, htable, hadd⟩ :=
    (@addHistogram_spec false _ _ _ _ (h.pids.trans hpids) hbin).2 hall
  rw [initializeBank, if_neg (by rw [h.initialized]; decide), h.bankSets,
    foldlM_addSet h.hasHisto, huse]
  simp only [hadd, Option.map_some]
  refine ⟨_, rfl, ?_⟩
  exact
    { hasHisto := rfl
      initialized := rfl
      setInUse := h.bankSets ▸ huse
      pids := h.pids.trans hpids
      numTofBins := rfl
      tofBinSize := rfl
      basePid := rfl
      table := htable
      dataBuffer := tally_nil.symm
      uncounted := h.uncounted }

/-- Without events, there is a tiny histogram with nothing in it. -/
theorem Waiting.initializeBank_end (huse : setInUse sets = some set)
    (hpids : pids = first :: rest) (hbin : 0 < set.tofBin.toNat) (hall : ¬ AllPids first rest) :
    ∃ bi', initializeBank true bi = some bi' ∧
      bi'.dataBuffer.sum + bi'.histoEventUncounted = 0 := by
  obtain ⟨table, -, hadd⟩ :=
    (@addHistogram_spec true _ _ _ _ (h.pids.trans hpids) hbin).2 hall
  rw [initializeBank, if_neg (by rw [h.initialized]; decide), h.bankSets,
    foldlM_addSet h.hasHisto, huse]
  simp only [hadd, Option.map_some]
  refine ⟨_, rfl, ?_⟩
  rw [List.sum_replicate_nat, Nat.mul_zero, h.uncounted]

theorem Waiting.associate (new : DetectorBankSet) :
    ∃ bi', histoStep bi (.associate new) = some ([], bi') ∧
      Waiting pids (sets ++ [some new.accept]) bi' :=
  ⟨_, rfl,
    { initialized := h.initialized
      hasHisto := h.hasHisto
      pids := h.pids
      bankSets := congrArg (· ++ [some new.accept]) h.bankSets
      uncounted := h.uncounted }⟩

omit h

theorem Idle.histoStep (h : Idle bi) (op : HistoOp) :
    ∃ bi', histoStep bi op = some ([], bi') ∧ Idle bi' := by
  cases op with
  | associate new => exact ⟨_, rfl, h.initialized, h.hasHisto⟩
  | events evs =>
    refine ⟨bi, ?_, h⟩
    rw [BankHistogram.histoStep, initializeBank, if_pos h.initialized]
    simp only [Option.bind_eq_bind, Option.bind_some, h.hasHisto]

end Start

/-! ### A whole run -/

/-- The sets a bank has when its first events come. -/
def setsAtStart : List (Option DetectorBankSet) → List HistoOp → List (Option DetectorBankSet)
  | sets, .associate set :: ops => setsAtStart (sets ++ [some set.accept]) ops
  | sets, _ => sets

/-- The histogram has every event, in a counter or as uncounted. -/
def Complete (events : List Event) (bi : BankHistogram) : Prop :=
  bi.hasHisto = true → bi.dataBuffer.sum + bi.histoEventUncounted = events.length

/-- A run of packets reads and writes inside of its table and its counters, does not divide by
    zero or come to a branch that should never happen, and has counted all events in the end. -/
def SafeAndComplete (bi : BankHistogram) (ops : List HistoOp) : Prop :=
  ∃ outcomes bi', histoRun bi ops = some (outcomes, bi') ∧
    (∀ outcome ∈ outcomes, MayHappen outcome) ∧ Complete (eventsOf ops) bi'

/-- What a bank with a histogram needs: a table with places, events that fit, and not so many
    for one counter that it wraps. -/
def Countable (pids : List UInt32) (sets : List (Option DetectorBankSet))
    (events : List Event) : Prop :=
  ∀ set first rest, setInUse sets = some set → pids = first :: rest →
    ¬ AllPids first rest ∧ (∀ ev ∈ events, Fits set first rest ev) ∧
      ∀ i, inBin (binOf set (first :: rest)) i events < 2 ^ 32

section Whole

open LoggedSteps

variable {pids : List UInt32} {sets : List (Option DetectorBankSet)} {set : DetectorBankSet}
  {first : UInt32} {rest : List UInt32} {bi : BankHistogram} {ops : List HistoOp}

/-- The last thing in a run is to initialize the bank. -/
theorem safeAndComplete_iff :
    SafeAndComplete bi ops ↔ wp MayHappen (histoSteps bi ops) fun t =>
      ∃ bi', initializeBank true t = some bi' ∧ Complete (eventsOf ops) bi' := by
  rw [SafeAndComplete, histoRun]
  constructor
  · rintro ⟨outcomes, bi', hrun, hmay, hcomplete⟩
    obtain ⟨⟨outcomes', t⟩, hsteps, hrun⟩ := Option.bind_eq_some_iff.mp hrun
    obtain ⟨bi'', hinit, heq⟩ := Option.bind_eq_some_iff.mp hrun
    cases heq
    exact ⟨_, t, hsteps, hmay, _, hinit, hcomplete⟩
  · rintro ⟨outcomes, t, hsteps, hmay, bi', hinit, hcomplete⟩
    refine ⟨outcomes, bi', ?_, hmay, hcomplete⟩
    simp only [hsteps, Option.bind_eq_bind, Option.bind_some, hinit]

/-- The bins are those of the histogram. -/
theorem binOf_lt {ev : Event} (hbin : 0 < set.tofBin.toNat) (hfits : Fits set first rest ev)
    {i : Nat} (h : binOf set (first :: rest) ev = some i) :
    i < (first :: rest).length * (set.numTofBins - 1) := by
  simp only [binOf] at h
  split at h
  · rename_i hrange
    obtain ⟨offset, hoffset, rfl⟩ := Option.map_eq_some_iff.mp h
    have hlt := (fits_iff_lt hbin hfits.inTable hoffset hrange.1 hrange.2).mp hfits
    have hle := (offsetFrom_lt hoffset).2
    rw [Nat.zero_add] at hle
    omega
  · cases h

theorem Ready.complete_iff {events : List Event} (h : Ready set first rest events bi)
    (hbin : 0 < set.tofBin.toNat) (hfits : ∀ ev ∈ events, Fits set first rest ev) :
    Complete events bi ↔ ∀ i, inBin (binOf set (first :: rest)) i events < 2 ^ 32 := by
  have hsum := sum_tally_add_iff (show 0 < Word32.modulus by decide)
    fun ev hev i hi => binOf_lt hbin (hfits ev hev) hi
  rw [Complete, h.dataBuffer, h.uncounted]
  exact ⟨fun hall => hsum.mp (hall h.hasHisto), fun hall _ => hsum.mpr hall⟩

/-- Once the bank has its histogram. -/
theorem Ready.safeAndComplete_iff (h : Ready set first rest [] bi) (hbin : 0 < set.tofBin.toNat) :
    SafeAndComplete bi ops ↔ (∀ ev ∈ eventsOf ops, Fits set first rest ev) ∧
      ∀ i, inBin (binOf set (first :: rest)) i (eventsOf ops) < 2 ^ 32 := by
  have hinit : ∀ t, Ready set first rest (eventsOf ops) t → initializeBank true t = some t :=
    fun t ht => by rw [initializeBank, if_pos ht.initialized]
  rw [BankHistogram.safeAndComplete_iff]
  constructor
  · intro hwp
    have hfits := (histoSteps_spec h hbin ops).2 hwp
    have hready := (@histoSteps_spec _ _ _ _ _ (fun _ => True) h hbin ops).1 hfits
    rw [List.nil_append] at hready
    obtain ⟨-, t, -, -, ht, bi', hbi', hcomplete⟩ := hready.and hwp
    cases (hinit t ht).symm.trans hbi'
    exact ⟨hfits, (ht.complete_iff hbin hfits).mp hcomplete⟩
  · rintro ⟨hfits, hroom⟩
    have hready := (@histoSteps_spec _ _ _ _ _ (fun _ => True) h hbin ops).1 hfits
    rw [List.nil_append] at hready
    exact hready.imp fun t ht => ⟨t, hinit t ht, (ht.complete_iff hbin hfits).mpr hroom⟩

/-- A bank without a histogram has nothing to count. -/
theorem Idle.safeAndComplete (h : Idle bi) : SafeAndComplete bi ops := by
  have hgood : ∀ (done : List HistoOp) t op, Idle t → True →
      wp MayHappen (BankHistogram.histoStep t op) Idle := by
    intro done t op ht _
    obtain ⟨t', heq, ht'⟩ := ht.histoStep op
    rw [heq, wp_some]
    exact ⟨nofun, ht'⟩
  have hidle := @wp_steps _ _ _ MayHappen _ (fun _ => True) (fun _ => Idle) hgood [] ops _ h
    fun _ _ => trivial
  rw [safeAndComplete_iff, histoSteps_eq]
  refine hidle.imp fun t ht => ⟨t, by rw [initializeBank, if_pos ht.initialized], ?_⟩
  exact fun hhisto => absurd (ht.hasHisto.symm.trans hhisto) (by decide)

/-- The first events initialize the bank. -/
theorem safeAndComplete_events {evs : List Event} {bi' : BankHistogram}
    (hinit : initializeBank false bi = some bi') (hdone : bi'.initialized = true) :
    SafeAndComplete bi (.events evs :: ops) ↔ SafeAndComplete bi' (.events evs :: ops) := by
  have hstep : BankHistogram.histoStep bi (.events evs) =
      BankHistogram.histoStep bi' (.events evs) := by
    have hagain : initializeBank false bi' = some bi' := by rw [initializeBank, if_pos hdone]
    rw [histoStep, histoStep, hinit, hagain]
  simp only [SafeAndComplete, histoRun, histoSteps, hstep]

theorem not_safeAndComplete_events {evs : List Event} (hinit : initializeBank false bi = none) :
    ¬ SafeAndComplete bi (.events evs :: ops) := by
  have hstep : BankHistogram.histoStep bi (.events evs) = none := by
    rw [histoStep, hinit]
    rfl
  rw [safeAndComplete_iff, histoSteps, hstep]
  exact not_wp_none

theorem Waiting.safeAndComplete_associate (h : Waiting pids sets bi) (new : DetectorBankSet) :
    ∃ bi', Waiting pids (sets ++ [some new.accept]) bi' ∧
      (SafeAndComplete bi (.associate new :: ops) ↔ SafeAndComplete bi' ops) := by
  obtain ⟨bi', heq, hwaiting⟩ := h.associate new
  refine ⟨bi', hwaiting, ?_⟩
  have hevents : eventsOf (.associate new :: ops) = eventsOf ops := rfl
  rw [safeAndComplete_iff, safeAndComplete_iff, hevents, histoSteps_eq, histoSteps_eq, steps,
    wp_andThen, heq, wp_some]
  exact ⟨fun hand => hand.2, fun hwp => ⟨List.forall_mem_nil _, hwp⟩⟩

/-- Without a set for a histogram, or without pixel ids, there is no histogram. -/
theorem Waiting.safeAndComplete_idle (h : Waiting pids sets bi)
    (hno : setInUse sets = none ∨ pids = []) (hops : ∀ new ops', ops ≠ .associate new :: ops') :
    SafeAndComplete bi ops := by
  cases ops with
  | nil =>
    obtain ⟨bi', hinit, hidle⟩ := @Waiting.initializeBank_idle true _ _ _ h hno
    rw [safeAndComplete_iff, histoSteps, wp_some]
    exact ⟨nofun, bi', hinit, fun hhisto => absurd (hidle.hasHisto.symm.trans hhisto) (by decide)⟩
  | cons op ops =>
    cases op with
    | associate new => exact absurd rfl (hops new ops)
    | events evs =>
      obtain ⟨bi', hinit, hidle⟩ := @Waiting.initializeBank_idle false _ _ _ h hno
      exact (safeAndComplete_events hinit hidle.initialized).mpr hidle.safeAndComplete

/-- The histogram of a set is made with the first events, or in the end. -/
theorem Waiting.safeAndComplete_histo (h : Waiting pids sets bi) (huse : setInUse sets = some set)
    (hpids : pids = first :: rest) (hbin : 0 < set.tofBin.toNat)
    (hops : ∀ new ops', ops ≠ .associate new :: ops') :
    SafeAndComplete bi ops ↔ ¬ AllPids first rest ∧
      (∀ ev ∈ eventsOf ops, Fits set first rest ev) ∧
      ∀ i, inBin (binOf set (first :: rest)) i (eventsOf ops) < 2 ^ 32 := by
  by_cases hall : AllPids first rest
  · refine iff_of_false ?_ fun hand => hand.1 hall
    cases ops with
    | nil =>
      rw [safeAndComplete_iff, histoSteps, wp_some]
      rintro ⟨-, bi', hinit, -⟩
      rw [h.initializeBank_all huse hpids hbin hall] at hinit
      cases hinit
    | cons op ops =>
      cases op with
      | associate new => exact absurd rfl (hops new ops)
      | events evs => exact not_safeAndComplete_events (h.initializeBank_all huse hpids hbin hall)
  · rw [and_iff_right hall]
    cases ops with
    | nil =>
      obtain ⟨bi', hinit, hsum⟩ := h.initializeBank_end huse hpids hbin hall
      rw [safeAndComplete_iff, histoSteps, wp_some]
      refine iff_of_true ⟨nofun, bi', hinit, fun _ => hsum⟩ ⟨nofun, fun i => ?_⟩
      exact Nat.two_pow_pos 32
    | cons op ops =>
      cases op with
      | associate new => exact absurd rfl (hops new ops)
      | events evs =>
        obtain ⟨bi', hinit, hready⟩ := h.initializeBank_ready huse hpids hbin hall
        rw [safeAndComplete_events hinit hready.initialized]
        exact hready.safeAndComplete_iff hbin

/-- A bank is safe and complete over a run just if its events can be counted. -/
theorem Waiting.safeAndComplete_iff (h : Waiting pids sets bi)
    (haccepted : ∀ set, some set ∈ sets → 0 < set.tofBin.toNat) :
    SafeAndComplete bi ops ↔ Countable pids (setsAtStart sets ops) (eventsOf ops) := by
  fun_induction setsAtStart sets ops generalizing bi with
  | case1 sets new ops ih =>
    obtain ⟨bi', hwaiting, hiff⟩ := @Waiting.safeAndComplete_associate _ _ _ ops h new
    rw [hiff]
    refine ih hwaiting fun set hset => ?_
    rcases List.mem_append.mp hset with hset | hset
    · exact haccepted set hset
    · cases List.mem_singleton.mp hset
      exact tofBin_accept new
  | case2 ops sets hops =>
    have hops' : ∀ new ops', ops ≠ .associate new :: ops' := fun new ops' heq =>
      hops new ops' heq
    cases huse : setInUse sets with
    | none =>
      exact iff_of_true (h.safeAndComplete_idle (.inl huse) hops') fun set _ _ hset =>
        absurd (huse.symm.trans hset) nofun
    | some set =>
      cases pids with
      | nil =>
        exact iff_of_true (h.safeAndComplete_idle (.inr rfl) hops') fun _ _ _ _ hpids => nomatch hpids
      | cons first rest =>
        have hbin : 0 < set.tofBin.toNat := haccepted set (mem_of_setInUse huse)
        rw [h.safeAndComplete_histo huse rfl hbin hops']
        constructor
        · rintro hall set' first' rest' huse' hpids
          cases huse.symm.trans huse'
          cases hpids
          exact hall
        · exact fun hcountable => hcountable set first rest huse rfl

end Whole

end Adara.Spec.BankHistogram
