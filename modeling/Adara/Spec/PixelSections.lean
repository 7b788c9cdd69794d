import Adara.ForStd.Stride
import Adara.Native.PixelMapping

/-! # The sections of a pixel map

A `PixelRun` is what a section stands for: some pixels of one bank, whose ids advance by
constant steps.  The pixels of a map are cut into runs (`runsOf`), and `genAltPacket` writes
the words of those that have a bank, and of those that have a pixel too far behind them
(`altSectionWords_emittedOf`).  So the words are those of the pixels of the map in its order;
only unmapped ones may be missing, and none is added (`altSectionWords_eq`). -/

namespace Adara.Spec.PixelSections

open Adara.Native

/-- A pixel of the map: physical id, logical id and bank. -/
abbrev Entry := UInt32 × UInt32 × UInt16

/-! ### Runs of pixels -/

structure PixelRun where
  bank : UInt16
  physicalStart : UInt32
  physicalStep : UInt32
  logicalStart : UInt32
  logicalStep : UInt32
  count : Nat

namespace PixelRun

/-- A run that a section has room for. -/
structure Wf (r : PixelRun) : Prop where
  pos : 0 < r.count
  le : r.count ≤ 0x7fff
  steps : 1 < r.count →
    Stride.Small r.physicalStep ∧ r.physicalStep ≠ 0 ∧
      Stride.Small r.logicalStep ∧ r.logicalStep ≠ 0

variable (r : PixelRun)

def physical (i : Nat) : UInt32 := Stride.point r.physicalStart r.physicalStep i

def logical (i : Nat) : UInt32 := Stride.point r.logicalStart r.logicalStep i

/-- The pixels of the run, from the first on. -/
def entries : List Entry :=
  (List.range r.count).map fun i => (r.physical i, r.logical i, r.bank)

/-- Bank id, shorthand bit and count. -/
def bankWord (shorthand : UInt32) : UInt32 :=
  (r.bank.toUInt32 <<< 16) ||| (shorthand <<< 15) ||| UInt32.ofNat r.count

/-- The words of the section. -/
def words : List UInt32 :=
  if 1 < r.count then
    [r.physicalStart, r.bankWord 1, r.physical (r.count - 1), r.logicalStart,
      (r.physicalStep <<< 16) ||| (r.logicalStep &&& 0xffff), r.logical (r.count - 1)]
  else [r.physicalStart, r.bankWord 0, r.logicalStart]

theorem words_ne_nil : r.words ≠ [] := by
  rw [words]
  split <;> simp

/-- A run of one pixel. -/
def single (physical logical : UInt32) (bank : UInt16) : PixelRun where
  bank
  physicalStart := physical
  physicalStep := 0
  logicalStart := logical
  logicalStep := 0
  count := 1

theorem single_wf (physical logical : UInt32) (bank : UInt16) :
    (single physical logical bank).Wf where
  pos := Nat.one_pos
  le := by
    show 1 ≤ 0x7fff
    omega
  steps := fun h => absurd h (Nat.lt_irrefl 1)

@[simp] theorem entries_single (physical logical : UInt32) (bank : UInt16) :
    (single physical logical bank).entries = [(physical, logical, bank)] := by
  simp [entries, single, PixelRun.physical, PixelRun.logical]

@[simp] theorem physical_zero : r.physical 0 = r.physicalStart := Stride.point_zero ..

@[simp] theorem logical_zero : r.logical 0 = r.logicalStart := Stride.point_zero ..

/-- The run with one pixel more. -/
theorem entries_succ :
    { r with count := r.count + 1 }.entries =
      r.entries ++ [(r.physical r.count, r.logical r.count, r.bank)] := by
  rw [entries, List.range_succ, List.map_append]
  rfl

/-- The number of the bank word; the fields do not overlap. -/
theorem bankWord_toNat (shorthand : UInt32) (hcount : r.count ≤ 0x7fff)
    (hshort : shorthand.toNat < 2) :
    (r.bankWord shorthand).toNat =
      65536 * r.bank.toNat + 32768 * shorthand.toNat + r.count := by
  have hbank := r.bank.toNat_lt
  have hlow : 32768 * shorthand.toNat + r.count < 2 ^ 16 := by omega
  rw [bankWord, UInt32.or_assoc, UInt32.toNat_or, UInt32.toNat_or, UInt32.toNat_shiftLeft,
    UInt32.toNat_shiftLeft, UInt16.toNat_toUInt32, UInt32.toNat_ofNat']
  have h16 : (16 : UInt32).toNat % 32 = 16 := rfl
  have h15 : (15 : UInt32).toNat % 32 = 15 := rfl
  rw [h16, h15, Nat.mod_eq_of_lt (by omega : r.count < 2 ^ 32)]
  rw [Nat.mod_eq_of_lt (by rw [Nat.shiftLeft_eq]; omega : shorthand.toNat <<< 15 < 2 ^ 32),
    ← Nat.shiftLeft_add_eq_or_of_lt (by omega : r.count < 2 ^ 15)]
  rw [Nat.mod_eq_of_lt (by rw [Nat.shiftLeft_eq]; omega : r.bank.toNat <<< 16 < 2 ^ 32),
    ← Nat.shiftLeft_add_eq_or_of_lt (by rw [Nat.shiftLeft_eq]; omega)]
  rw [Nat.shiftLeft_eq, Nat.shiftLeft_eq]
  omega

/-- The reader finds bank, format and count in the bank word. -/
theorem bankWord_fields (shorthand : UInt32) (hcount : r.count ≤ 0x7fff)
    (hshort : shorthand.toNat < 2) :
    (r.bankWord shorthand >>> 16).toUInt16 = r.bank ∧
      ((r.bankWord shorthand &&& 0x8000) >>> 15).toNat = shorthand.toNat ∧
      (r.bankWord shorthand &&& 0x7fff).toNat = r.count := by
  have hword := r.bankWord_toNat shorthand hcount hshort
  have hbank := r.bank.toNat_lt
  refine ⟨?_, ?_, ?_⟩
  · apply UInt16.toNat_inj.mp
    rw [UInt32.toNat_toUInt16, UInt32.toNat_shiftRight, hword]
    show (_ >>> 16) % _ = _
    rw [Nat.shiftRight_eq_div_pow]
    omega
  · rw [UInt32.toNat_shiftRight, UInt32.toNat_and, hword]
    show ((_ &&& 32768) >>> 15) = _
    rw [Nat.shiftRight_and_distrib]
    show (_ >>> 15) &&& 1 = _
    rw [Nat.and_one_is_mod, Nat.shiftRight_eq_div_pow]
    omega
  · rw [UInt32.toNat_and, hword]
    show _ &&& (2 ^ 15 - 1) = _
    rw [Nat.and_two_pow_sub_one_eq_mod]
    omega

end PixelRun

/-! ### Writing -/

/-- The pixels that are mapped to a bank. -/
def mapped (es : List Entry) : List Entry :=
  es.filter fun e => e.2.2 ≠ PixelFile.unmappedBank

@[simp] theorem mapped_append (es es' : List Entry) :
    mapped (es ++ es') = mapped es ++ mapped es' := List.filter_append ..

/-- A run is mapped to its bank as a whole. -/
theorem mapped_entries (r : PixelRun) :
    mapped r.entries = if r.bank = PixelFile.unmappedBank then [] else r.entries := by
  have hbank : ∀ e ∈ r.entries, e.2.2 = r.bank := by
    intro e he
    obtain ⟨i, -, rfl⟩ := List.mem_map.mp he
    rfl
  split
  · rename_i hunmapped
    rw [mapped, List.filter_eq_nil_iff]
    intro e he
    simp [hbank e he, hunmapped]
  · rename_i hmapped
    rw [mapped, List.filter_eq_self]
    intro e he
    rw [hbank e he]
    exact decide_eq_true hmapped

/-- The pixels of some runs. -/
def allEntries (runs : List PixelRun) : List Entry := runs.flatMap PixelRun.entries

/-- The words of some runs. -/
def allWords (runs : List PixelRun) : List UInt32 := runs.flatMap PixelRun.words

namespace PixelRun

/-- The run of two pixels. -/
def second (r : PixelRun) (physical logical : UInt32) : PixelRun :=
  { r with
    physicalStep := physical - r.physicalStart
    logicalStep := logical - r.logicalStart
    count := 2 }

theorem second_physical_one (r : PixelRun) (physical logical : UInt32) :
    (r.second physical logical).physical 1 = physical := Stride.point_one_sub ..

theorem second_logical_one (r : PixelRun) (physical logical : UInt32) :
    (r.second physical logical).logical 1 = logical := Stride.point_one_sub ..

/-- The run with a pixel more, if it has the bank and is where it is expected. -/
def extend (allow : Bool) (r : PixelRun) (e : Entry) : Option PixelRun :=
  let (physical, logical, bank) := e
  if bank ≠ r.bank then none
  else if r.count = 1 then
    if ¬(allow = true ∧ logical = r.logicalStart) ∧
        Stride.Small (physical - r.physicalStart) ∧ Stride.Small (logical - r.logicalStart) then
      some (r.second physical logical)
    else none
  else if physical = r.physical r.count ∧ logical = r.logical r.count ∧ r.count < 0x7fff then
    some { r with count := r.count + 1 }
  else none

/-- The second pixel is too far away for a step. -/
structure TooFar (allow : Bool) (r : PixelRun) (e : Entry) : Prop where
  bank_eq : e.2.2 = r.bank
  single : r.count = 1
  distinct : ¬(allow = true ∧ e.2.1 = r.logicalStart)
  far : ¬(Stride.Small (e.1 - r.physicalStart) ∧ Stride.Small (e.2.1 - r.logicalStart))

instance (allow : Bool) (r : PixelRun) (e : Entry) : Decidable (r.TooFar allow e) :=
  decidable_of_iff (e.2.2 = r.bank ∧ r.count = 1 ∧ ¬(allow = true ∧ e.2.1 = r.logicalStart) ∧
      ¬(Stride.Small (e.1 - r.physicalStart) ∧ Stride.Small (e.2.1 - r.logicalStart)))
    ⟨fun ⟨h1, h2, h3, h4⟩ => ⟨h1, h2, h3, h4⟩, fun h =>
      ⟨h.bank_eq, h.single, h.distinct, h.far⟩⟩

end PixelRun

/-- The pixels cut into runs, the first of which is under way. -/
def stretches (allow : Bool) : PixelRun → List Entry → List PixelRun
  | r, [] => [r]
  | r, e :: es =>
    match r.extend allow e with
    | some r => stretches allow r es
    | none => r :: stretches allow (.single e.1 e.2.1 e.2.2) es

/-- The runs that are written: those with a bank, and those with a pixel too far behind them. -/
def emitted (allow : Bool) : PixelRun → List Entry → List PixelRun
  | r, [] => if r.bank ≠ PixelFile.unmappedBank then [r] else []
  | r, e :: es =>
    match r.extend allow e with
    | some r => emitted allow r es
    | none =>
      (if r.bank ≠ PixelFile.unmappedBank ∨ r.TooFar allow e then [r] else []) ++
        emitted allow (.single e.1 e.2.1 e.2.2) es

/-- A run that is written: an unmapped one has a single pixel. -/
def Written (r : PixelRun) : Prop :=
  r.Wf ∧ (r.bank = PixelFile.unmappedBank → r.count = 1)

/-- The builder has written `runs`, and has `cur` under construction. -/
structure Builds (b : AltBuilder) (runs : List PixelRun) (cur : PixelRun) : Prop where
  sectionWords : b.sectionWords = allWords runs
  written : ∀ r ∈ runs, Written r
  wf : cur.Wf
  entries : b.entries = cur.count
  lastBank : b.lastBank = cur.bank
  physicalStart : b.physicalStart = cur.physicalStart
  logicalStart : b.logicalStart = cur.logicalStart
  physicalStop : b.physicalStop = cur.physical (cur.count - 1)
  logicalStop : b.logicalStop = cur.logical (cur.count - 1)
  lastPhysical : b.lastPhysical = cur.physical (cur.count - 1)
  lastLogical : b.lastLogical = cur.logical (cur.count - 1)
  stepsSet : b.stepsSet = decide (1 < cur.count)
  steps : 1 < cur.count →
    b.physicalStep = cur.physicalStep.toInt32 ∧ b.logicalStep = cur.logicalStep.toInt32
  next : 1 < cur.count →
    b.nextPhysical = cur.physical cur.count ∧ b.nextLogical = cur.logical cur.count

section Builder

variable {b : AltBuilder} {runs : List PixelRun} {cur : PixelRun}

theorem builds_first (physical logical : UInt32) (bank : UInt16) :
    Builds (.first physical logical bank) [] (.single physical logical bank) where
  sectionWords := rfl
  written := fun _ hr => absurd hr List.not_mem_nil
  wf := PixelRun.single_wf ..
  entries := rfl
  lastBank := rfl
  physicalStart := rfl
  logicalStart := rfl
  physicalStop := (PixelRun.single physical logical bank).physical_zero.symm
  logicalStop := (PixelRun.single physical logical bank).logical_zero.symm
  lastPhysical := (PixelRun.single physical logical bank).physical_zero.symm
  lastLogical := (PixelRun.single physical logical bank).logical_zero.symm
  stepsSet := rfl
  steps := fun h => absurd h (Nat.lt_irrefl 1)
  next := fun h => absurd h (Nat.lt_irrefl 1)

/-- The section under construction, in the format it has. -/
theorem Builds.section_eq (h : Builds b runs cur) :
    (if b.physicalStart ≠ b.physicalStop ∧ b.physicalStep ≠ 0 ∧
        b.logicalStart ≠ b.logicalStop ∧ b.logicalStep ≠ 0 then b.shorthandSection
      else b.directSection) = cur.words := by
  rw [PixelRun.words]
  by_cases hcount : 1 < cur.count
  · obtain ⟨hphys, hphys0, hlog, hlog0⟩ := h.wf.steps hcount
    obtain ⟨hstep, hstep'⟩ := h.steps hcount
    have hle := h.wf.le
    have hstart : b.physicalStart ≠ b.physicalStop := by
      rw [h.physicalStart, h.physicalStop, ← cur.physical_zero]
      exact Stride.point_ne hphys.half hphys0 (by omega) (by omega)
    have hstart' : b.logicalStart ≠ b.logicalStop := by
      rw [h.logicalStart, h.logicalStop, ← cur.logical_zero]
      exact Stride.point_ne hlog.half hlog0 (by omega) (by omega)
    have hne : b.physicalStep ≠ 0 := by
      intro hzero
      exact hphys0 (Stride.eq_zero_of_toInt (congrArg Int32.toInt (hstep.symm.trans hzero)))
    have hne' : b.logicalStep ≠ 0 := by
      intro hzero
      exact hlog0 (Stride.eq_zero_of_toInt (congrArg Int32.toInt (hstep'.symm.trans hzero)))
    rw [if_pos ⟨hstart, hne, hstart', hne'⟩, if_pos hcount]
    simp only [AltBuilder.shorthandSection, AltBuilder.bankAndCount, PixelRun.bankWord,
      h.physicalStart, h.logicalStart, h.physicalStop, h.logicalStop, h.lastBank, h.entries,
      hstep, hstep', UInt32.toUInt32_toInt32]
  · -- a single pixel starts where it stops
    have hone : cur.count = 1 := by
      have hpos := h.wf.pos
      omega
    have hstart : b.physicalStart = b.physicalStop := by
      rw [h.physicalStart, h.physicalStop, hone]
      exact cur.physical_zero.symm
    rw [if_neg (fun hall => hall.1 hstart), if_neg hcount]
    simp only [AltBuilder.directSection, AltBuilder.bankAndCount, PixelRun.bankWord,
      h.physicalStart, h.logicalStart, h.lastBank, h.entries]

/-- The runs written once the section is pushed. -/
def pushed (runs : List PixelRun) (cur : PixelRun) : List PixelRun :=
  if cur.bank ≠ PixelFile.unmappedBank then runs ++ [cur] else runs

theorem Builds.pushed_spec (h : Builds b runs cur) :
    b.pushSection.sectionWords = allWords (pushed runs cur) ∧
      ∀ r ∈ pushed runs cur, Written r := by
  rw [AltBuilder.pushSection, pushed, h.lastBank]
  by_cases hbank : cur.bank ≠ PixelFile.unmappedBank
  · rw [if_pos hbank, if_pos hbank]
    constructor
    · show b.sectionWords ++ _ = _
      rw [h.section_eq, h.sectionWords]
      simp only [allWords, List.flatMap_append, List.flatMap_singleton]
    · intro r hr
      rcases List.mem_append.mp hr with hr | hr
      · exact h.written r hr
      · rw [List.mem_singleton.mp hr]
        exact ⟨h.wf, fun hunmapped => absurd hunmapped hbank⟩
  · rw [if_neg hbank, if_neg hbank]
    exact ⟨h.sectionWords, h.written⟩

/-- A pixel that does not continue the section starts one of its own. -/
theorem Builds.start {allow : Bool} (h : Builds b runs cur) {physical logical : UInt32}
    {bank : UInt16} (hcuts : b.cuts allow physical logical bank) :
    Builds (b.addPixel allow (physical, logical, bank)) (pushed runs cur)
      (.single physical logical bank) := by
  obtain ⟨hwords, hwritten⟩ := h.pushed_spec
  simp only [AltBuilder.addPixel, if_pos hcuts, AltBuilder.startSection, Bool.false_eq_true,
    if_false]
  exact
    { builds_first physical logical bank with
      sectionWords := hwords
      written := hwritten }

/-- The steps to a pixel, which do not overflow, are small. -/
theorem small_of_not_overflow {d : UInt32} (h : ¬ AltBuilder.stepOverflow d.toInt32) :
    Stride.Small d := by
  rw [AltBuilder.stepOverflow, not_or, Int32.lt_iff_toInt_lt, Int32.lt_iff_toInt_lt] at h
  have hmax : (32767 : Int32).toInt = 32767 := by decide
  have hmin : (-32767 : Int32).toInt = -32767 := by decide
  rw [hmax, hmin] at h
  constructor <;> omega

theorem not_overflow_of_small {d : UInt32} (h : Stride.Small d) :
    ¬ AltBuilder.stepOverflow d.toInt32 := by
  obtain ⟨hlow, hhigh⟩ := h
  rw [AltBuilder.stepOverflow, not_or, Int32.lt_iff_toInt_lt, Int32.lt_iff_toInt_lt]
  have hmax : (32767 : Int32).toInt = 32767 := by decide
  have hmin : (-32767 : Int32).toInt = -32767 := by decide
  rw [hmax, hmin]
  constructor <;> omega

/-- The section of a run of one pixel, in the direct format. -/
theorem Builds.directSection_eq (h : Builds b runs cur) (hcount : cur.count = 1) :
    b.directSection = cur.words := by
  rw [PixelRun.words, if_neg (by omega)]
  simp only [AltBuilder.directSection, AltBuilder.bankAndCount, PixelRun.bankWord,
    h.physicalStart, h.logicalStart, h.lastBank, h.entries]

/-- What there is of the builder of a run of one pixel. -/
theorem Builds.of_single (h : Builds b runs cur) (hcount : cur.count = 1) :
    b.stepsSet = false ∧ b.lastPhysical = cur.physicalStart ∧
      b.lastLogical = cur.logicalStart := by
  refine ⟨?_, ?_, ?_⟩
  · rw [h.stepsSet, hcount]
    rfl
  · rw [h.lastPhysical, hcount]
    exact cur.physical_zero
  · rw [h.lastLogical, hcount]
    exact cur.logical_zero

/-- A second pixel that is too far away starts a section, and the first is written directly. -/
theorem Builds.second_far {allow : Bool} (h : Builds b runs cur) {physical logical : UInt32}
    (hcount : cur.count = 1) (hcuts : ¬ b.cuts allow physical logical cur.bank)
    (hfar : ¬(Stride.Small (physical - cur.physicalStart) ∧
      Stride.Small (logical - cur.logicalStart))) :
    Builds (b.addPixel allow (physical, logical, cur.bank)) (runs ++ [cur])
      (.single physical logical cur.bank) := by
  obtain ⟨hset, hlast, hlast'⟩ := h.of_single hcount
  have hover : AltBuilder.stepOverflow (physical - cur.physicalStart).toInt32 ∨
      AltBuilder.stepOverflow (logical - cur.logicalStart).toInt32 := by
    by_contra hnot
    rw [not_or] at hnot
    exact hfar ⟨small_of_not_overflow hnot.1, small_of_not_overflow hnot.2⟩
  simp only [AltBuilder.addPixel, if_neg hcuts, hset, if_true, hlast, hlast', if_pos hover]
  exact
    { builds_first physical logical cur.bank with
      sectionWords := by
        show b.sectionWords ++ b.directSection = _
        rw [h.directSection_eq hcount, h.sectionWords]
        simp only [allWords, List.flatMap_append, List.flatMap_singleton]
      written := fun r hr => by
        rcases List.mem_append.mp hr with hr | hr
        · exact h.written r hr
        · rw [List.mem_singleton.mp hr]
          exact ⟨h.wf, fun _ => hcount⟩
      lastBank := h.lastBank }

/-- A second pixel in reach sets the steps. -/
theorem Builds.second_near {allow : Bool} (h : Builds b runs cur) {physical logical : UInt32}
    (hcount : cur.count = 1) (hcuts : ¬ b.cuts allow physical logical cur.bank)
    (hphysical : physical ≠ b.lastPhysical) (hlogical : logical ≠ b.lastLogical)
    (hsmall : Stride.Small (physical - cur.physicalStart))
    (hsmall' : Stride.Small (logical - cur.logicalStart)) :
    Builds (b.addPixel allow (physical, logical, cur.bank)) runs
      (cur.second physical logical) := by
  obtain ⟨hset, hlast, hlast'⟩ := h.of_single hcount
  have hover : ¬(AltBuilder.stepOverflow (physical - cur.physicalStart).toInt32 ∨
      AltBuilder.stepOverflow (logical - cur.logicalStart).toInt32) :=
    not_or.mpr ⟨not_overflow_of_small hsmall, not_overflow_of_small hsmall'⟩
  rw [hlast] at hphysical
  rw [hlast'] at hlogical
  simp only [AltBuilder.addPixel, if_neg hcuts, hset, if_true, hlast, hlast', if_neg hover]
  have hphys := cur.second_physical_one physical logical
  have hlog := cur.second_logical_one physical logical
  -- the next values are one step behind the second pixel
  have hphys2 : (cur.second physical logical).physical 2 =
      physical + (physical - cur.physicalStart) := by
    have hsucc : (cur.second physical logical).physical 2 =
        (cur.second physical logical).physical 1 +
          (cur.second physical logical).physicalStep := Stride.point_succ ..
    rw [hsucc, hphys]
    rfl
  have hlog2 : (cur.second physical logical).logical 2 =
      logical + (logical - cur.logicalStart) := by
    have hsucc : (cur.second physical logical).logical 2 =
        (cur.second physical logical).logical 1 +
          (cur.second physical logical).logicalStep := Stride.point_succ ..
    rw [hsucc, hlog]
    rfl
  exact
    { sectionWords := h.sectionWords
      written := h.written
      wf :=
        { pos := Nat.succ_pos 1
          le := by
            show 2 ≤ 0x7fff
            omega
          -- a step of 0 would make the pixel equal to the last one
          steps := fun _ => ⟨hsmall,
            fun hzero => hphysical (by
              have hzero' : physical - cur.physicalStart = 0 := hzero
              grind),
            hsmall',
            fun hzero => hlogical (by
              have hzero' : logical - cur.logicalStart = 0 := hzero
              grind)⟩ }
      entries := by
        show b.entries + 1 = 2
        rw [h.entries, hcount]
      lastBank := h.lastBank
      physicalStart := h.physicalStart
      logicalStart := h.logicalStart
      physicalStop := hphys.symm
      logicalStop := hlog.symm
      lastPhysical := hphys.symm
      lastLogical := hlog.symm
      stepsSet := rfl
      steps := fun _ => ⟨rfl, rfl⟩
      next := fun _ => ⟨hphys2.symm, hlog2.symm⟩ }

/-- A pixel that continues a section with steps. -/
theorem Builds.continue {allow : Bool} (h : Builds b runs cur) {physical logical : UInt32}
    (hcount : 1 < cur.count) (hcuts : ¬ b.cuts allow physical logical cur.bank) :
    Builds (b.addPixel allow (physical, logical, cur.bank)) runs
        { cur with count := cur.count + 1 } ∧
      physical = cur.physical cur.count ∧ logical = cur.logical cur.count := by
  obtain ⟨hphys, hphys0, hlog, hlog0⟩ := h.wf.steps hcount
  obtain ⟨hstep, hstep'⟩ := h.steps hcount
  obtain ⟨hnext, hnext'⟩ := h.next hcount
  have hset : b.stepsSet = true := by
    rw [h.stepsSet]
    exact decide_eq_true hcount
  -- no cut means that the pixel is the one that the steps lead to
  obtain ⟨hphysical, hlogical, hroom⟩ : physical = b.nextPhysical ∧ logical = b.nextLogical ∧
      b.entries < AltBuilder.maxSectionPixelidCount := by
    rw [AltBuilder.cuts, not_or, not_or, not_or, not_and, not_or] at hcuts
    obtain ⟨-, hnot, -, hfull⟩ := hcuts
    obtain ⟨hp, hl⟩ := hnot hset
    exact ⟨not_not.mp hp, not_not.mp hl, Nat.lt_of_not_le hfull⟩
  rw [hnext] at hphysical
  rw [hnext'] at hlogical
  -- the steps were checked when they were set
  have hover : ¬ (AltBuilder.stepOverflow cur.physicalStep.toInt32 ∨
      AltBuilder.stepOverflow cur.logicalStep.toInt32) := by
    rw [not_or]
    exact ⟨not_overflow_of_small hphys, not_overflow_of_small hlog⟩
  refine ⟨?_, hphysical, hlogical⟩
  simp only [AltBuilder.addPixel, if_neg hcuts, hset, Bool.true_eq_false, if_false, if_true,
    hstep, hstep', if_neg hover]
  exact
    { sectionWords := h.sectionWords
      written := h.written
      wf :=
        { pos := Nat.succ_pos _
          le := by
            rw [h.entries, AltBuilder.maxSectionPixelidCount] at hroom
            exact hroom
          steps := fun _ => h.wf.steps hcount }
      entries := congrArg (· + 1) h.entries
      lastBank := h.lastBank
      physicalStart := h.physicalStart
      logicalStart := h.logicalStart
      physicalStop := hphysical
      logicalStop := hlogical
      lastPhysical := hphysical
      lastLogical := hlogical
      stepsSet := by
        show true = decide (1 < cur.count + 1)
        exact (decide_eq_true (by omega)).symm
      steps := fun _ => ⟨rfl, rfl⟩
      next := fun _ => by
        show physical + cur.physicalStep.toInt32.toUInt32 = _ ∧
          logical + cur.logicalStep.toInt32.toUInt32 = _
        rw [UInt32.toUInt32_toInt32, UInt32.toUInt32_toInt32, hphysical, hlogical]
        exact ⟨(Stride.point_succ ..).symm, (Stride.point_succ ..).symm⟩ }

/-- The pixel added is the last one, whatever becomes of the section. -/
theorem last_addPixel (allow : Bool) (b : AltBuilder) (e : Entry) :
    (b.addPixel allow e).lastPhysical = e.1 ∧ (b.addPixel allow e).lastLogical = e.2.1 := by
  obtain ⟨physical, logical, bank⟩ := e
  simp only [AltBuilder.addPixel]
  generalize (if b.cuts allow physical logical bank then b.startSection physical logical bank
    else _ : AltBuilder) = b'
  cases b'.stepsSet with
  | false => exact ⟨rfl, rfl⟩
  | true =>
    simp only [if_true]
    split <;> exact ⟨rfl, rfl⟩

/-- A pixel is added to the section, or starts a new one behind what is written. -/
theorem Builds.add {allow : Bool} (h : Builds b runs cur) {e : Entry}
    (hphysical : e.1 ≠ b.lastPhysical) (hlogical : allow = false → e.2.1 ≠ b.lastLogical) :
    match cur.extend allow e with
    | some cur' => Builds (b.addPixel allow e) runs cur'
    | none => Builds (b.addPixel allow e)
        (runs ++ if cur.bank ≠ PixelFile.unmappedBank ∨ cur.TooFar allow e then [cur] else [])
        (.single e.1 e.2.1 e.2.2) := by
  obtain ⟨physical, logical, bank⟩ := e
  -- where the pixel cuts the section, the runs written are those of `pushed`
  have hstart : b.cuts allow physical logical bank →
      ¬cur.TooFar allow (physical, logical, bank) →
      Builds (b.addPixel allow (physical, logical, bank))
        (runs ++ if cur.bank ≠ PixelFile.unmappedBank ∨
          cur.TooFar allow (physical, logical, bank) then [cur] else [])
        (.single physical logical bank) := by
    intro hcuts hnear
    have hnew := h.start hcuts
    rw [pushed] at hnew
    by_cases hbank : cur.bank ≠ PixelFile.unmappedBank
    · rw [if_pos hbank] at hnew
      rwa [if_pos (.inl hbank)]
    · rw [if_neg hbank] at hnew
      rwa [if_neg (not_or.mpr ⟨hbank, hnear⟩), List.append_nil]
  rw [PixelRun.extend]
  by_cases hbank : bank = cur.bank
  swap
  · rw [if_pos hbank]
    refine hstart (.inl ?_) (fun hfar => hbank hfar.bank_eq)
    rwa [h.lastBank]
  subst hbank
  rw [if_neg (not_not.mpr rfl)]
  by_cases hone : cur.count = 1
  · obtain ⟨hset, hlast, hlast'⟩ := h.of_single hone
    rw [if_pos hone]
    by_cases hsame : allow = true ∧ logical = cur.logicalStart
    · rw [if_neg (fun hcond => hcond.1 hsame)]
      refine hstart (.inr (.inr (.inl ?_))) (fun hfar => hfar.distinct hsame)
      rwa [hlast']
    · have hcuts : ¬b.cuts allow physical logical cur.bank := by
        rintro (hne | ⟨hsteps, -⟩ | hrep | hfull)
        · exact hne h.lastBank.symm
        · rw [hset] at hsteps
          cases hsteps
        · rw [hlast'] at hrep
          exact hsame hrep
        · rw [h.entries, hone, AltBuilder.maxSectionPixelidCount] at hfull
          omega
      by_cases hsmall : Stride.Small (physical - cur.physicalStart) ∧
          Stride.Small (logical - cur.logicalStart)
      · rw [if_pos ⟨hsame, hsmall⟩]
        refine h.second_near hone hcuts hphysical ?_ hsmall.1 hsmall.2
        cases allow with
        | false => exact hlogical rfl
        | true =>
          rw [hlast']
          exact fun heq => hsame ⟨rfl, heq⟩
      · rw [if_neg (fun hcond => hsmall hcond.2)]
        have hfar : cur.TooFar allow (physical, logical, cur.bank) := ⟨rfl, hone, hsame, hsmall⟩
        simp only [if_pos (show cur.bank ≠ PixelFile.unmappedBank ∨ _ from .inr hfar)]
        exact h.second_far hone hcuts hsmall
  · rw [if_neg hone]
    have hmany : 1 < cur.count := by
      have hpos := h.wf.pos
      omega
    have hnear : ¬cur.TooFar allow (physical, logical, cur.bank) := fun hfar => hone hfar.single
    obtain ⟨hnext, hnext'⟩ := h.next hmany
    have hset : b.stepsSet = true := by
      rw [h.stepsSet]
      exact decide_eq_true hmany
    by_cases hcond : physical = cur.physical cur.count ∧ logical = cur.logical cur.count ∧
        cur.count < 0x7fff
    · rw [if_pos hcond]
      obtain ⟨hp, hl, hroom⟩ := hcond
      have hcuts : ¬b.cuts allow physical logical cur.bank := by
        rintro (hne | ⟨-, hne⟩ | ⟨-, hrep⟩ | hfull)
        · exact hne h.lastBank.symm
        · rw [hnext, hnext'] at hne
          exact hne.elim (fun hne => hne hp) (fun hne => hne hl)
        · -- the logical step is not zero
          obtain ⟨-, -, hsmall, hzero⟩ := h.wf.steps hmany
          rw [h.lastLogical, hl] at hrep
          exact Stride.point_ne hsmall.half hzero (by omega) (by omega) hrep.symm
        · rw [h.entries, AltBuilder.maxSectionPixelidCount] at hfull
          omega
      exact (h.continue hmany hcuts).1
    · rw [if_neg hcond]
      refine hstart ?_ hnear
      by_cases hroom : cur.count < 0x7fff
      · refine .inr (.inl ⟨hset, ?_⟩)
        rw [hnext, hnext', ← not_and_or]
        exact fun hboth => hcond ⟨hboth.1, hboth.2, hroom⟩
      · refine .inr (.inr (.inr ?_))
        rw [h.entries, AltBuilder.maxSectionPixelidCount]
        omega

/-- Consecutive pixels have different ids. -/
def Distinct (allow : Bool) (e e' : Entry) : Prop :=
  e.1 ≠ e'.1 ∧ (allow = false → e.2.1 ≠ e'.2.1)

/-- In the end, the runs written are those emitted. -/
theorem Builds.addAll {allow : Bool} {es : List Entry} {last : Entry} (h : Builds b runs cur)
    (hlast : b.lastPhysical = last.1) (hlast' : b.lastLogical = last.2.1)
    (hdistinct : (last :: es).Pairwise (Distinct allow)) :
    (es.foldl (AltBuilder.addPixel allow) b).pushSection.sectionWords =
        allWords (runs ++ emitted allow cur es) ∧
      ∀ r ∈ runs ++ emitted allow cur es, Written r := by
  induction es generalizing b runs cur last with
  | nil =>
    obtain ⟨hwords, hwritten⟩ := h.pushed_spec
    have hpushed : pushed runs cur = runs ++ emitted allow cur [] := by
      rw [pushed, emitted]
      split
      · rfl
      · rw [List.append_nil]
    rw [← hpushed]
    exact ⟨hwords, hwritten⟩
  | cons e es ih =>
    rw [List.pairwise_cons] at hdistinct
    obtain ⟨hne, hne'⟩ := hdistinct.1 e (List.mem_cons_self ..)
    have hnew := h.add (hlast ▸ Ne.symm hne) (fun hallow => hlast' ▸ Ne.symm (hne' hallow))
    obtain ⟨hphysical, hlogical⟩ := last_addPixel allow b e
    rw [List.foldl_cons, emitted]
    cases hextend : cur.extend allow e with
    | some cur' =>
      rw [hextend] at hnew
      exact ih hnew hphysical hlogical hdistinct.2
    | none =>
      rw [hextend] at hnew
      have hdone := ih hnew hphysical hlogical hdistinct.2
      rwa [List.append_assoc] at hdone

end Builder

/-! ### The pixels of the runs -/

theorem entries_extend {allow : Bool} {r r' : PixelRun} {e : Entry}
    (h : r.extend allow e = some r') : r'.entries = r.entries ++ [e] := by
  obtain ⟨physical, logical, bank⟩ := e
  rw [PixelRun.extend] at h
  split at h
  · cases h
  next hbank =>
  obtain rfl := not_not.mp hbank
  split at h
  · next hone =>
    split at h
    · obtain rfl := Option.some.inj h
      have hstart : r.entries = [(r.physicalStart, r.logicalStart, r.bank)] := by
        rw [PixelRun.entries, hone]
        simp
      have hlast : (r.second physical logical).entries =
          [(r.physicalStart, r.logicalStart, r.bank), (physical, logical, r.bank)] := by
        have htwo : (r.second physical logical).entries =
            [((r.second physical logical).physical 0, (r.second physical logical).logical 0,
              r.bank), ((r.second physical logical).physical 1,
              (r.second physical logical).logical 1, r.bank)] := rfl
        rw [htwo, r.second_physical_one, r.second_logical_one, PixelRun.physical_zero,
          PixelRun.logical_zero]
        rfl
      rw [hlast, hstart]
      rfl
    · cases h
  · split at h
    · next hcond =>
      obtain rfl := Option.some.inj h
      obtain ⟨rfl, rfl, -⟩ := hcond
      exact r.entries_succ
    · cases h

/-- The runs have all the pixels, in order. -/
theorem allEntries_stretches (allow : Bool) (r : PixelRun) (es : List Entry) :
    allEntries (stretches allow r es) = r.entries ++ es := by
  induction es generalizing r with
  | nil => simp [stretches, allEntries]
  | cons e es ih =>
    rw [stretches]
    cases hextend : r.extend allow e with
    | some r' =>
      show allEntries (stretches allow r' es) = _
      rw [ih, entries_extend hextend, List.append_assoc]
      rfl
    | none =>
      have hrest := ih (.single e.1 e.2.1 e.2.2)
      rw [PixelRun.entries_single] at hrest
      show r.entries ++ allEntries _ = _
      rw [hrest]
      rfl

/-- The runs that are written are mapped as all of them. -/
theorem mapped_emitted (allow : Bool) (r : PixelRun) (es : List Entry) :
    mapped (allEntries (emitted allow r es)) = mapped (allEntries (stretches allow r es)) := by
  have hsingle : ∀ r : PixelRun, allEntries [r] = r.entries := fun r => List.append_nil _
  induction es generalizing r with
  | nil =>
    rw [emitted, stretches, hsingle]
    split
    · rw [hsingle]
    · next hbank =>
      rw [mapped_entries, if_pos (not_not.mp hbank)]
      rfl
  | cons e es ih =>
    rw [emitted, stretches]
    cases r.extend allow e with
    | some r' => exact ih r'
    | none =>
      have hcons : ∀ rs, allEntries (r :: rs) = r.entries ++ allEntries rs := fun _ => rfl
      have happend : ∀ rs rs', allEntries (rs ++ rs') = allEntries rs ++ allEntries rs' :=
        fun _ _ => List.flatMap_append
      simp only
      rw [hcons, happend, mapped_append, mapped_append, ih]
      congr 1
      split
      · rw [hsingle]
      · next hnot =>
        rw [mapped_entries, if_pos (not_not.mp (not_or.mp hnot).1)]
        rfl

/-- The runs of some pixels, and those of them that are written. -/
def runsOf (allow : Bool) : List Entry → List PixelRun
  | [] => []
  | e :: es => stretches allow (.single e.1 e.2.1 e.2.2) es

def emittedOf (allow : Bool) : List Entry → List PixelRun
  | [] => []
  | e :: es => emitted allow (.single e.1 e.2.1 e.2.2) es

theorem allEntries_runsOf (allow : Bool) (es : List Entry) :
    allEntries (runsOf allow es) = es := by
  cases es with
  | nil => rfl
  | cons e es =>
    rw [runsOf, allEntries_stretches, PixelRun.entries_single]
    rfl

/-- The words written are those of the runs that are emitted. -/
theorem altSectionWords_emittedOf {allow : Bool} {es : List Entry}
    (hdistinct : es.Pairwise (Distinct allow)) :
    altSectionWords allow es = allWords (emittedOf allow es) ∧
      ∀ r ∈ emittedOf allow es, Written r := by
  cases es with
  | nil => exact ⟨rfl, fun _ hr => absurd hr List.not_mem_nil⟩
  | cons e es =>
    exact (builds_first e.1 e.2.1 e.2.2).addAll rfl rfl hdistinct

/-- The words written are those of runs with the pixels of the map, unmapped ones apart. -/
theorem altSectionWords_eq {allow : Bool} {es : List Entry}
    (hdistinct : es.Pairwise (Distinct allow)) :
    ∃ runs, altSectionWords allow es = allWords runs ∧ (∀ r ∈ runs, Written r) ∧
      mapped (allEntries runs) = mapped es := by
  obtain ⟨hwords, hwritten⟩ := altSectionWords_emittedOf hdistinct
  refine ⟨_, hwords, hwritten, ?_⟩
  cases es with
  | nil => rfl
  | cons e es =>
    rw [emittedOf, mapped_emitted, ← runsOf, allEntries_runsOf]

end Adara.Spec.PixelSections
