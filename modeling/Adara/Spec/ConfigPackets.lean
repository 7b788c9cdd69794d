import Adara.Native.ConfigPackets
import Mathlib.Logic.Basic

/-! # Sections of configurations in bounds

Once a list of configurations is accepted, its accessors should read words of the section only
that they are asked for.  The sizes that the constructors check are computed with 32 bits.  The
accessors stay in bounds if no size needs more (`configPackets_iff`). -/

namespace Adara.Spec.ConfigPackets

open Adara.Native
open MultVariable (doubleAt)
open SizedPackets (Constructor)

variable {p : Payload} {index : UInt32} {i : Nat} {w : Nat} {behind : Nat → UInt32}

/-! ### Reading words -/

@[simp] theorem readWord_result (p : Payload) (i : Nat) :
    (readWord p i).result = .ok (p.word i) := rfl

@[simp] theorem readWord_touched (p : Payload) (i : Nat) : (readWord p i).touched = [i] := rfl

@[simp] theorem readDouble_touched (p : Payload) (i : Nat) :
    (readDouble p i).touched = [i, i + 1] := rfl

@[simp] theorem pure_touched {α : Type} (a : α) : (pure a : Constructor α).touched = [] := rfl

/-- The copy has all words if its length fits in 32 bits, and none otherwise. -/
theorem copy_words (p : Payload) (behind : Nat → UInt32) :
    (p.copy behind).words = if p.payloadLen + 16 < 2 ^ 32 then p.words else [] := by
  have hlt := p.length_lt
  have hlen : p.payloadLen = p.words.length * 4 := rfl
  simp only [Payload.copy, PacketHeader.headerLength]
  split
  · next hfits =>
    rw [Word32.add_of_lt hfits]
    exact List.take_of_length_le (by omega)
  · next hwraps =>
    have hsmall : (Word32.add p.payloadLen 16 - 16) / 4 = 0 := by
      simp only [Word32.add, Word32.modulus] at hlt ⊢
      omega
    rw [hsmall, List.take_zero]

/-- A word within the packet does not depend on what is behind it. -/
theorem word_eq_getD (hi : i < p.words.length) : p.word i = p.words.getD i 0 := by
  rw [Payload.word, List.getD_eq_getElem?_getD, List.getElem?_eq_getElem hi]
  rfl

theorem word_of_words {q : Payload} (hwords : q.words = p.words) (hi : i < p.words.length) :
    q.word i = p.word i := by
  rw [word_eq_getD hi, word_eq_getD (hwords ▸ hi), hwords]

theorem word_zero_of_nil (h : p.words = []) : p.word 0 = p.behind 0 := by
  rw [Payload.word, h]
  rfl

/-! ### Beam monitors -/

section BeamMonitors

variable {pkt : BeamMonitorConfigPkt}

/-- The words that the accessors read for an index. -/
def monitorReads (pkt : BeamMonitorConfigPkt) (index : UInt32) : List Nat :=
  (pkt.bmonId index).touched ++ (pkt.tofOffset index).touched ++ (pkt.tofMax index).touched ++
    (pkt.tofBin index).touched ++ (pkt.distance index).touched ++ (pkt.format index).touched

/-- A word of a section: the count, one of its six, or its format. -/
def MonitorWord (pkt : BeamMonitorConfigPkt) (index : UInt32) (w : Nat) : Prop :=
  w = 0 ∨ 1 + 6 * index.toNat ≤ w ∧ w < 1 + 6 * (index.toNat + 1) ∨
    1 ≤ pkt.payload.version ∧ w = 1 + 6 * (pkt.payload.word 0).toNat + index.toNat

/-- For every index below the count the accessors read words of the section in the payload. -/
def MonitorsInBounds (pkt : BeamMonitorConfigPkt) : Prop :=
  ∀ index, index < pkt.payload.word 0 → ∀ w ∈ monitorReads pkt index,
    w < pkt.payload.words.length ∧ MonitorWord pkt index w

/-- The size of the sections and formats. -/
def monitorsSize (p : Payload) : Nat :=
  4 + 24 * (p.word 0).toNat + if 1 ≤ p.version then 4 * (p.word 0).toNat else 0

theorem sectionWord_touched (h : index < pkt.payload.word 0) (k : Nat) :
    (pkt.sectionWord k index).touched = [0, pkt.sectionAt index + k] := by
  rw [BeamMonitorConfigPkt.sectionWord, Traced.bind_touched (a := pkt.payload.word 0) rfl, if_pos h]
  rfl

theorem distance_touched (h : index < pkt.payload.word 0) :
    (pkt.distance index).touched =
      [0, pkt.sectionAt index + 4, pkt.sectionAt index + 4 + 1] := by
  rw [BeamMonitorConfigPkt.distance, Traced.bind_touched (a := pkt.payload.word 0) rfl, if_pos h]
  rfl

theorem format_touched (h : index < pkt.payload.word 0) :
    (pkt.format index).touched =
      if 1 ≤ pkt.payload.version then
        [0, 0, pkt.sectionAt (pkt.payload.word 0) + index.toNat]
      else [] := by
  rw [BeamMonitorConfigPkt.format]
  split
  · rw [Traced.bind_touched (a := pkt.payload.word 0) rfl, if_pos h]
    rfl
  · rfl

/-- All words that are read for an index. -/
theorem mem_monitorReads (hsize : pkt.sectionSize = 24) (h : index < pkt.payload.word 0) :
    w ∈ monitorReads pkt index ↔
      w = 0 ∨ 1 + 6 * index.toNat ≤ w ∧ w < 1 + 6 * (index.toNat + 1) ∨
        1 ≤ pkt.payload.version ∧ w = 1 + 6 * (pkt.payload.word 0).toNat + index.toNat := by
  have hat : ∀ index : UInt32, pkt.sectionAt index = 1 + 6 * index.toNat := by
    intro index
    rw [BeamMonitorConfigPkt.sectionAt, hsize]
    omega
  simp only [monitorReads, BeamMonitorConfigPkt.bmonId, BeamMonitorConfigPkt.tofOffset,
    BeamMonitorConfigPkt.tofMax, BeamMonitorConfigPkt.tofBin, sectionWord_touched h,
    distance_touched h, format_touched h, hat, List.mem_append, List.mem_cons, List.not_mem_nil,
    or_false]
  by_cases hversion : 1 ≤ pkt.payload.version
  · rw [if_pos hversion]
    simp only [List.mem_cons, List.not_mem_nil, or_false, hversion, true_and]
    omega
  · rw [if_neg hversion]
    simp only [List.not_mem_nil, hversion, false_and, or_false]
    omega

/-- Sections in the payload are in bounds. -/
theorem monitorsInBounds_of_size (hsize : pkt.sectionSize = 24)
    (hfits : monitorsSize pkt.payload ≤ 4 * pkt.payload.words.length) : MonitorsInBounds pkt := by
  intro index hindex w hw
  have hlt := UInt32.lt_iff_toNat_lt.mp hindex
  have hword := (mem_monitorReads hsize hindex).mp hw
  refine ⟨?_, hword⟩
  rw [monitorsSize] at hfits
  rcases hword with rfl | ⟨-, hw⟩ | ⟨hversion, rfl⟩
  · omega
  · omega
  · rw [if_pos hversion] at hfits
    omega

/-- Sections that need more than 32 bits are not. -/
theorem size_lt_of_monitorsInBounds (hsize : pkt.sectionSize = 24)
    (h : MonitorsInBounds pkt) : monitorsSize pkt.payload < 2 ^ 32 := by
  have hlt : pkt.payload.words.length * 4 < 2 ^ 32 := pkt.payload.length_lt
  have hcount := (pkt.payload.word 0).toNat_lt
  rw [monitorsSize]
  rcases Nat.eq_zero_or_pos (pkt.payload.word 0).toNat with hzero | hpos
  · rw [hzero]
    split <;> omega
  -- the last section, and its format
  have hlast : (UInt32.ofNat ((pkt.payload.word 0).toNat - 1)).toNat =
      (pkt.payload.word 0).toNat - 1 := UInt32.toNat_ofNat_of_lt' (by
    show _ < 2 ^ 32
    omega)
  have hindex : UInt32.ofNat ((pkt.payload.word 0).toNat - 1) < pkt.payload.word 0 :=
    UInt32.lt_iff_toNat_lt.mpr (by omega)
  have hread := fun w hw => (h _ hindex w ((mem_monitorReads hsize hindex).mpr hw)).1
  rw [hlast] at hread
  by_cases hversion : 1 ≤ pkt.payload.version
  · rw [if_pos hversion]
    have hformat := hread _ (.inr (.inr ⟨hversion, rfl⟩))
    omega
  · rw [if_neg hversion]
    have hdistance := hread (6 * (pkt.payload.word 0).toNat) (.inr (.inl (by omega)))
    omega

/-- What an accepted packet is, and what was checked. -/
theorem beamMonitorConfigPkt_ok (h : (beamMonitorConfigPkt p).result = .ok pkt) :
    pkt = ⟨p, 24⟩ ∧ monitorsSize p % 2 ^ 32 ≤ p.payloadLen := by
  rw [beamMonitorConfigPkt, Traced.bind_result_eq_ok] at h
  obtain ⟨count, hcount, h⟩ := h
  obtain rfl := Except.ok.inj hcount
  have hexpected : (if 1 ≤ p.version then
      Word32.add (Word32.add 4 ((p.word 0).toNat * (4 * 4 + 8))) ((p.word 0).toNat * 4)
      else Word32.add 4 ((p.word 0).toNat * (4 * 4 + 8))) = monitorsSize p % 2 ^ 32 := by
    rw [monitorsSize]
    simp only [Word32.add, Word32.modulus]
    split <;> omega
  simp only [hexpected] at h
  split at h
  · cases h
  next hzero =>
  split at h
  · cases h
  next hone =>
  split at h
  · cases h
  next hnewer =>
  refine ⟨(Except.ok.inj h).symm, ?_⟩
  rcases Nat.lt_trichotomy p.version 1 with hlt | heq | hgt
  · exact Nat.le_of_eq (not_not.mp fun hne => hzero ⟨by omega, Ne.symm hne⟩)
  · exact Nat.le_of_eq (not_not.mp fun hne => hone ⟨heq, Ne.symm hne⟩)
  · exact Nat.not_lt.mp fun hless => hnewer ⟨hgt, hless⟩

/-- An accepted packet and its copies are in bounds just if no size needs more than 32 bits. -/
theorem monitors_iff (h : (beamMonitorConfigPkt p).result = .ok pkt) :
    (MonitorsInBounds pkt ∧ ∀ behind, MonitorsInBounds (pkt.copy behind)) ↔
      p.payloadLen + 16 < 2 ^ 32 ∧ monitorsSize p < 2 ^ 32 := by
  obtain ⟨rfl, hchecked⟩ := beamMonitorConfigPkt_ok h
  have hlen : p.payloadLen = 4 * p.words.length := Nat.mul_comm ..
  constructor
  · rintro ⟨hbounds, hcopies⟩
    have hsize := size_lt_of_monitorsInBounds rfl hbounds
    refine ⟨?_, hsize⟩
    by_contra hwraps
    -- the copy has no words, and finds a count behind them
    have hwords := copy_words p fun _ => 1
    rw [if_neg hwraps] at hwords
    have hcount : (p.copy fun _ => 1).word 0 = 1 := word_zero_of_nil hwords
    have hindex : (0 : UInt32) < (p.copy fun _ => 1).word 0 := by
      rw [hcount]
      decide
    have hread := hcopies (fun _ => 1) 0 hindex 0
      ((mem_monitorReads rfl hindex).mpr (.inl rfl))
    have hlt : 0 < (p.copy fun _ => 1).words.length := hread.1
    rw [hwords] at hlt
    exact absurd hlt (Nat.lt_irrefl 0)
  · rintro ⟨hfits, hsize⟩
    rw [Nat.mod_eq_of_lt hsize, hlen] at hchecked
    refine ⟨monitorsInBounds_of_size rfl hchecked, fun behind => ?_⟩
    have hwords := copy_words p behind
    rw [if_pos hfits] at hwords
    have hpos : 0 < p.words.length := by
      rw [monitorsSize] at hchecked
      omega
    apply monitorsInBounds_of_size rfl
    have hcopy : monitorsSize (p.copy behind) = monitorsSize p := by
      rw [monitorsSize, monitorsSize, word_of_words hwords hpos]
      rfl
    show monitorsSize (p.copy behind) ≤ 4 * (p.copy behind).words.length
    rw [hcopy, hwords]
    exact hchecked

end BeamMonitors

/-! ### Detector bank sets -/

section BankSets

variable {pkt : DetectorBankSetsPkt} {n numSets : Nat} {offset last : UInt32}
variable {offsets afters : List UInt32}

/-- The word that a section begins with, as the bank counts before it say. -/
def setStart (words : List UInt32) : Nat → Nat
  | 0 => 1
  | i + 1 => setStart words i + 15 + (words.getD (setStart words i + 5) 0).toNat

/-- The words that the accessors read for an index, those of the bank ids included. -/
def setReads (pkt : DetectorBankSetsPkt) (index : UInt32) : List Nat :=
  (pkt.sectionOffset index).touched ++ (pkt.name index).touched ++ (pkt.flags index).touched ++
    (pkt.bankCount index).touched ++ (pkt.banklist index).touched ++
    (pkt.tofOffset index).touched ++ (pkt.tofMax index).touched ++ (pkt.tofBin index).touched ++
    (pkt.throttle index).touched ++ (pkt.suffix index).touched

/-- The table has an entry for each section, and for every index below the count the accessors
    read words of the section in the payload. -/
def SetsInBounds (pkt : DetectorBankSetsPkt) : Prop :=
  pkt.sectionOffsets.length = (pkt.payload.word 0).toNat ∧
    ∀ index, index < pkt.payload.word 0 → ∀ w ∈ setReads pkt index,
      w < pkt.payload.words.length ∧
        (w = 0 ∨ setStart pkt.payload.words index.toNat ≤ w ∧
          w < setStart pkt.payload.words (index.toNat + 1))

theorem setStart_succ_le (words : List UInt32) (i : Nat) :
    setStart words i + 15 ≤ setStart words (i + 1) := by
  rw [setStart]
  omega

theorem setStart_mono (words : List UInt32) {i j : Nat} (h : i ≤ j) :
    setStart words i ≤ setStart words j := by
  obtain ⟨d, rfl⟩ := Nat.exists_eq_add_of_le h
  induction d with
  | zero => exact Nat.le_refl _
  | succ d ih =>
    have hstep := setStart_succ_le words (i + d)
    exact Nat.le_trans (ih (Nat.le_add_right i d)) (Nat.le_trans (Nat.le_add_right _ 15) hstep)

/-- The tables have as many entries as there are sections. -/
theorem walkSections_length
    (h : (DetectorBankSetsPkt.walkSections p numSets n i offset).result =
      .ok (offsets, afters, last)) : offsets.length = n ∧ afters.length = n := by
  induction n generalizing i offset offsets afters last with
  | zero =>
    cases h
    exact ⟨rfl, rfl⟩
  | succ n ih =>
    rw [DetectorBankSetsPkt.walkSections] at h
    split at h
    · cases h
    · obtain ⟨bankCount, -, h⟩ := Traced.bind_result_eq_ok.mp h
      obtain ⟨⟨offsets', afters', last'⟩, hwalk, h⟩ := Traced.bind_result_eq_ok.mp h
      obtain ⟨hoffsets, hafters⟩ := ih hwalk
      cases h
      exact ⟨congrArg (· + 1) hoffsets, congrArg (· + 1) hafters⟩

theorem toNat_ofNat_add {a b : Nat} {x : UInt32} (hx : x.toNat = b) (h : a + b < 2 ^ 32) :
    (UInt32.ofNat a + x).toNat = a + b := by
  rw [UInt32.toNat_add, hx, UInt32.toNat_ofNat', Nat.mod_eq_of_lt (show a < 2 ^ 32 by omega)]
  exact Nat.mod_eq_of_lt h

/-- A step of the walk to a section that begins within 32 bits. -/
theorem walk_step (hnext : setStart p.words (i + 1) < 2 ^ 32)
    (hfits : setStart p.words i + 15 ≤ p.words.length) :
    (UInt32.ofNat (setStart p.words i) + (DetectorBankSetsPkt.baseSectionOffsetPart1 +
        p.word (UInt32.ofNat (setStart p.words i) + DetectorBankSetsPkt.nameOffset + 1).toNat)).toNat
      + 9 = setStart p.words (i + 1) ∧
    UInt32.ofNat (setStart p.words i) + (DetectorBankSetsPkt.baseSectionOffsetPart1 +
        p.word (UInt32.ofNat (setStart p.words i) + DetectorBankSetsPkt.nameOffset + 1).toNat) +
      DetectorBankSetsPkt.baseSectionOffsetPart2 = UInt32.ofNat (setStart p.words (i + 1)) := by
  have hstep := setStart_succ_le p.words i
  have hposition : (UInt32.ofNat (setStart p.words i) + DetectorBankSetsPkt.nameOffset +
      1).toNat = setStart p.words i + 5 := by
    rw [UInt32.add_assoc]
    exact toNat_ofNat_add rfl (by omega)
  have hword : p.word (setStart p.words i + 5) = p.words.getD (setStart p.words i + 5) 0 :=
    word_eq_getD (by omega)
  have hsize : setStart p.words (i + 1) = setStart p.words i +
      (6 + (p.words.getD (setStart p.words i + 5) 0).toNat) + 9 := by
    rw [setStart]
    omega
  have hpart1 : (DetectorBankSetsPkt.baseSectionOffsetPart1 +
      p.words.getD (setStart p.words i + 5) 0).toNat =
      6 + (p.words.getD (setStart p.words i + 5) 0).toNat := by
    rw [UInt32.toNat_add]
    exact Nat.mod_eq_of_lt (by show 6 + _ < 2 ^ 32; omega)
  rw [hposition, hword]
  have hafter := @toNat_ofNat_add (setStart p.words i) _ _ hpart1 (by omega)
  refine ⟨by omega, ?_⟩
  rw [← UInt32.toNat_inj, UInt32.toNat_add, hafter, hsize]
  rfl

/-- As long as the sections begin within 32 bits, the tables say where, and each section without
    its bank ids was checked. -/
theorem walkSections_spec (hlt : setStart p.words i < 2 ^ 32)
    (h : (DetectorBankSetsPkt.walkSections p numSets n i
      (UInt32.ofNat (setStart p.words i))).result = .ok (offsets, afters, last)) :
    (setStart p.words (i + n) < 2 ^ 32 →
      last.toNat = setStart p.words (i + n) ∧
        ∀ j < n, (afters.getD j 0).toNat + 9 = setStart p.words (i + j + 1)) ∧
      ∀ j < n, setStart p.words (i + j) < 2 ^ 32 →
        (offsets.getD j 0).toNat = setStart p.words (i + j) ∧
          (setStart p.words (i + j) + 15) % 2 ^ 32 * 4 ≤ p.payloadLen := by
  induction n generalizing i offsets afters last with
  | zero =>
    cases h
    exact ⟨fun hend => ⟨UInt32.toNat_ofNat_of_lt' hend, fun j hj => absurd hj (Nat.not_lt_zero j)⟩,
      fun j hj => absurd hj (Nat.not_lt_zero j)⟩
  | succ n ih =>
    rw [DetectorBankSetsPkt.walkSections] at h
    split at h
    · cases h
    next hcheck =>
    obtain ⟨bankCount, hbanks, h⟩ := Traced.bind_result_eq_ok.mp h
    obtain ⟨⟨offsets', afters', last'⟩, hwalk, h⟩ := Traced.bind_result_eq_ok.mp h
    obtain rfl := Except.ok.inj hbanks
    cases h
    have hfirst : (UInt32.ofNat (setStart p.words i)).toNat = setStart p.words i :=
      UInt32.toNat_ofNat_of_lt' hlt
    have hchecked : (setStart p.words i + 15) % 2 ^ 32 * 4 ≤ p.payloadLen := by
      rw [UInt32.toNat_add, hfirst] at hcheck
      exact Nat.not_lt.mp hcheck
    by_cases hnext : setStart p.words (i + 1) < 2 ^ 32
    · have hstep := setStart_succ_le p.words i
      have hlen : p.payloadLen = p.words.length * 4 := rfl
      have hfits := hchecked
      rw [Nat.mod_eq_of_lt (by omega)] at hfits
      obtain ⟨hafter, hoffset⟩ := walk_step hnext (by omega)
      rw [hoffset] at hwalk
      obtain ⟨hend, hrest⟩ := ih hnext hwalk
      have hshift : ∀ j, i + (j + 1) = i + 1 + j := fun j => by omega
      constructor
      · intro hall
        rw [hshift n] at hall
        obtain ⟨hlast, hafters⟩ := hend hall
        refine ⟨by rw [hlast, hshift n], fun j hj => ?_⟩
        cases j with
        | zero => exact hafter
        | succ j =>
          rw [hshift j]
          exact hafters j (by omega)
      · intro j hj hbegins
        cases j with
        | zero => exact ⟨hfirst, hchecked⟩
        | succ j =>
          rw [hshift j] at hbegins ⊢
          exact hrest j (by omega) hbegins
    · -- all sections behind this one begin beyond 32 bits
      have hbeyond : ∀ j, i + 1 ≤ j → ¬setStart p.words j < 2 ^ 32 := fun j hj hlt' =>
        hnext (Nat.lt_of_le_of_lt (setStart_mono p.words hj) hlt')
      refine ⟨fun hall => absurd hall (hbeyond _ (by omega)), fun j hj hbegins => ?_⟩
      cases j with
      | zero => exact ⟨hfirst, hchecked⟩
      | succ j => exact absurd hbegins (hbeyond _ (by omega))

/-- What an accepted packet is, and what was checked. -/
theorem detectorBankSetsPkt_ok (h : (detectorBankSetsPkt p).result = .ok pkt) :
    0 < p.words.length ∧ pkt.payload = p ∧
      (p.word 0 = 0 ∧ pkt.sectionOffsets = [] ∧ pkt.afterBanksOffset = [] ∨
        ∃ last, (DetectorBankSetsPkt.walkSections p (p.word 0).toNat (p.word 0).toNat 0 1).result =
          .ok (pkt.sectionOffsets, pkt.afterBanksOffset, last) ∧
          last.toNat * 4 ≤ p.payloadLen) := by
  rw [detectorBankSetsPkt, Traced.bind_result_eq_ok] at h
  obtain ⟨u, hfixed, h⟩ := h
  have hlen : p.payloadLen = p.words.length * 4 := rfl
  have hpos : 0 < p.words.length := by
    unfold SizedPackets.checkFixed at hfixed
    split at hfixed
    · cases hfixed
    · omega
  obtain ⟨count, hcount, h⟩ := Traced.bind_result_eq_ok.mp h
  obtain rfl := Except.ok.inj hcount
  split at h
  · next hnone =>
    cases h
    refine ⟨hpos, rfl, .inl ⟨?_, rfl, rfl⟩⟩
    have hlt := UInt32.lt_iff_toNat_lt.mp hnone
    exact UInt32.toNat_inj.mp (Nat.lt_one_iff.mp hlt)
  · obtain ⟨⟨offsets, afters, last⟩, hwalk, h⟩ := Traced.bind_result_eq_ok.mp h
    simp only at h
    split at h
    · cases h
    next hchecked =>
    cases h
    exact ⟨hpos, rfl, .inr ⟨last, hwalk, Nat.not_lt.mp hchecked⟩⟩

/-- The tables say where the sections are, and these are in the payload. -/
structure Laid (pkt : DetectorBankSetsPkt) : Prop where
  length_pos : 0 < pkt.payload.words.length
  length_eq : pkt.sectionOffsets.length = (pkt.payload.word 0).toNat
  starts : ∀ j < (pkt.payload.word 0).toNat,
    (pkt.sectionOffsets.getD j 0).toNat = setStart pkt.payload.words j
  afters : ∀ j < (pkt.payload.word 0).toNat,
    (pkt.afterBanksOffset.getD j 0).toNat + 9 = setStart pkt.payload.words (j + 1)
  fits : 0 < (pkt.payload.word 0).toNat →
    setStart pkt.payload.words (pkt.payload.word 0).toNat ≤ pkt.payload.words.length

theorem laid_of_ok (h : (detectorBankSetsPkt p).result = .ok pkt)
    (hend : setStart p.words (p.word 0).toNat < 2 ^ 32) : Laid pkt := by
  obtain ⟨hpos, rfl, hnone | ⟨last, hwalk, hchecked⟩⟩ := detectorBankSetsPkt_ok h
  · obtain ⟨hzero, hoffsets, -⟩ := hnone
    refine ⟨hpos, ?_, fun j hj => ?_, fun j hj => ?_, fun hlt => ?_⟩
    · rw [hoffsets, hzero]
      rfl
    all_goals
      rw [hzero] at *
      exact absurd ‹_ < (0 : UInt32).toNat› (Nat.not_lt_zero _)
  · obtain ⟨hall, hrest⟩ := @walkSections_spec pkt.payload 0 _ _ _ _ _
      (show setStart pkt.payload.words 0 < 2 ^ 32 from by
        rw [setStart]
        omega) hwalk
    rw [Nat.zero_add] at hall
    obtain ⟨hlast, hafters⟩ := hall hend
    have hlen : pkt.payload.payloadLen = pkt.payload.words.length * 4 := rfl
    refine ⟨hpos, (walkSections_length hwalk).1, fun j hj => ?_, fun j hj => ?_, fun _ => ?_⟩
    · have hbegins : setStart pkt.payload.words (0 + j) < 2 ^ 32 := by
        rw [Nat.zero_add]
        exact Nat.lt_of_le_of_lt (setStart_mono _ (Nat.le_of_lt hj)) hend
      have hstart := (hrest j hj hbegins).1
      rwa [Nat.zero_add] at hstart
    · have hafter := hafters j hj
      rwa [Nat.zero_add] at hafter
    · omega

theorem indexed_touched {α : Type} (h : index < pkt.payload.word 0) (other : α)
    (x : Constructor α) : (pkt.indexed index other x).touched = 0 :: x.touched := by
  rw [DetectorBankSetsPkt.indexed, Traced.bind_touched (a := pkt.payload.word 0) rfl, if_pos h]
  rfl

theorem bankCount_result (h : index < pkt.payload.word 0) :
    (pkt.bankCount index).result = .ok (pkt.payload.word
      (pkt.sectionStart index + DetectorBankSetsPkt.nameOffset + 1).toNat) := by
  rw [DetectorBankSetsPkt.bankCount, DetectorBankSetsPkt.indexed, Traced.bind_result_eq_ok]
  refine ⟨pkt.payload.word 0, rfl, ?_⟩
  rw [if_pos h]
  rfl

/-- The words of the bank ids. -/
theorem banklist_touched (h : index < pkt.payload.word 0) :
    (pkt.banklist index).touched =
      [0, (pkt.sectionStart index + DetectorBankSetsPkt.nameOffset + 1).toNat] ++
        (0 :: List.range' (pkt.sectionStart index + DetectorBankSetsPkt.nameOffset + 2).toNat
          (pkt.payload.word
            (pkt.sectionStart index + DetectorBankSetsPkt.nameOffset + 1).toNat).toNat) := by
  have hcount : (pkt.bankCount index).touched =
      [0, (pkt.sectionStart index + DetectorBankSetsPkt.nameOffset + 1).toNat] := by
    rw [DetectorBankSetsPkt.bankCount, indexed_touched h]
    rfl
  rw [DetectorBankSetsPkt.banklist, Traced.bind_touched (bankCount_result h), hcount,
    indexed_touched h, Traced.bind_touched (a := ()) rfl]
  exact congrArg _ (congrArg _ (List.append_nil _))

/-- A string is read from up to four words. -/
theorem mem_readString_touched {p : Payload}
    (h : w ∈ (DetectorBankSetsPkt.readString p i).touched) : i ≤ w ∧ w < i + 4 := by
  rw [DetectorBankSetsPkt.readString, Traced.bind_touched (a := ()) rfl] at h
  rw [pure_touched, List.append_nil] at h
  obtain ⟨k, hk, rfl⟩ := List.mem_map.mp h
  have hlt := List.mem_range.mp hk
  omega

theorem toNat_add_of {x c : UInt32} {a b : Nat} (hx : x.toNat = a) (hc : c.toNat = b)
    (h : a + b < 2 ^ 32) : (x + c).toNat = a + b := by
  rw [UInt32.toNat_add, hx, hc]
  exact Nat.mod_eq_of_lt h

/-- The words that are read of a section, by where it begins and where its bank ids end. -/
theorem setReads_spec {first after : Nat} (hindex : index < pkt.payload.word 0)
    (hstart : (pkt.sectionStart index).toNat = first)
    (hafter : (pkt.afterBanks index).toNat = after) (hend : after + 9 < 2 ^ 32)
    (hbegin : first + 6 + (pkt.payload.word (first + 5)).toNat ≤ after)
    (hw : w ∈ setReads pkt index) : w = 0 ∨ first ≤ w ∧ w < after + 9 := by
  have hflags : (pkt.sectionStart index + DetectorBankSetsPkt.nameOffset).toNat = first + 4 :=
    toNat_add_of hstart rfl (by omega)
  have hbanks : (pkt.sectionStart index + DetectorBankSetsPkt.nameOffset + 1).toNat =
      first + 5 := (toNat_add_of hflags (b := 1) rfl (by omega))
  have hlist : (pkt.sectionStart index + DetectorBankSetsPkt.nameOffset + 2).toNat =
      first + 6 := (toNat_add_of hflags (b := 2) rfl (by omega))
  have hmax : (pkt.afterBanks index + 1).toNat = after + 1 := toNat_add_of hafter rfl (by omega)
  have hbin : (pkt.afterBanks index + 2).toNat = after + 2 := toNat_add_of hafter rfl (by omega)
  have hthrottle : (pkt.afterBanks index + 3).toNat = after + 3 :=
    toNat_add_of hafter rfl (by omega)
  have hsuffix : (pkt.afterBanks index + 5).toNat = after + 5 :=
    toNat_add_of hafter rfl (by omega)
  simp only [setReads, DetectorBankSetsPkt.sectionOffset, DetectorBankSetsPkt.name,
    DetectorBankSetsPkt.flags, DetectorBankSetsPkt.bankCount, DetectorBankSetsPkt.tofOffset,
    DetectorBankSetsPkt.tofMax, DetectorBankSetsPkt.tofBin, DetectorBankSetsPkt.throttle,
    DetectorBankSetsPkt.suffix, indexed_touched hindex, banklist_touched hindex, hbanks, hflags,
    hlist, hstart, hafter, hmax, hbin, hthrottle, hsuffix, readWord_touched, readDouble_touched,
    pure_touched, List.mem_append, List.mem_cons, List.not_mem_nil, or_false,
    List.mem_range'_1] at hw
  have hname := @mem_readString_touched first w pkt.payload
  have htext := @mem_readString_touched (after + 5) w pkt.payload
  generalize (DetectorBankSetsPkt.readString pkt.payload first).touched = xs at hw hname
  generalize (DetectorBankSetsPkt.readString pkt.payload (after + 5)).touched = ys at hw htext
  rcases hw with (((((((((hw | hw | hw) | hw | hw) | hw | hw) | (hw | hw) | hw | hw) |
    hw | hw) | hw | hw) | hw | hw) | hw | hw | hw) | hw | hw)
  all_goals first
    | omega
    | (have hread := hname hw; omega)
    | (have hread := htext hw; omega)

/-- Sections that are laid out in the payload are in bounds. -/
theorem Laid.setsInBounds (h : Laid pkt) : SetsInBounds pkt := by
  refine ⟨h.length_eq, fun index hindex w hw => ?_⟩
  have hlt := UInt32.lt_iff_toNat_lt.mp hindex
  have hstart : (pkt.sectionStart index).toNat = setStart pkt.payload.words index.toNat :=
    h.starts _ hlt
  have hafter : (pkt.afterBanks index).toNat + 9 =
      setStart pkt.payload.words (index.toNat + 1) := h.afters _ hlt
  have hend := Nat.le_trans (setStart_mono pkt.payload.words hlt) (h.fits (by omega))
  have hbytes : pkt.payload.words.length * 4 < 2 ^ 32 := pkt.payload.length_lt
  have hnext : setStart pkt.payload.words (index.toNat + 1) =
      setStart pkt.payload.words index.toNat + 15 +
        (pkt.payload.words.getD (setStart pkt.payload.words index.toNat + 5) 0).toNat := rfl
  have hle : setStart pkt.payload.words (index.toNat + 1) ≤ pkt.payload.words.length := hend
  have hword : pkt.payload.word (setStart pkt.payload.words index.toNat + 5) =
      pkt.payload.words.getD (setStart pkt.payload.words index.toNat + 5) 0 :=
    word_eq_getD (by omega)
  have hsection := setReads_spec hindex hstart rfl (by omega) (by rw [hword]; omega) hw
  rw [hafter] at hsection
  refine ⟨?_, hsection⟩
  rcases hsection with rfl | ⟨-, hw⟩
  · exact h.length_pos
  · omega

/-- Some section begins within 32 bits, and the one behind it does not. -/
theorem exists_crossing {words : List UInt32} (h : ¬setStart words n < 2 ^ 32) :
    ∃ j < n, setStart words j < 2 ^ 32 ∧ ¬setStart words (j + 1) < 2 ^ 32 := by
  induction n with
  | zero => exact absurd (show setStart words 0 < 2 ^ 32 by rw [setStart]; omega) h
  | succ n ih =>
    by_cases hn : setStart words n < 2 ^ 32
    · exact ⟨n, Nat.lt_succ_self n, hn, h⟩
    · obtain ⟨j, hj, hcross⟩ := ih hn
      exact ⟨j, Nat.lt_succ_of_lt hj, hcross⟩

/-- Where the sections need more than 32 bits, there is an accessor that leaves the payload. -/
theorem not_setsInBounds (h : (detectorBankSetsPkt p).result = .ok pkt)
    (hwraps : ¬setStart p.words (p.word 0).toNat < 2 ^ 32) : ¬SetsInBounds pkt := by
  rintro ⟨-, hreads⟩
  obtain ⟨j, hj, hbegins, hbeyond⟩ := exists_crossing hwraps
  obtain ⟨-, rfl, ⟨hzero, -⟩ | ⟨last, hwalk, -⟩⟩ := detectorBankSetsPkt_ok h
  · rw [hzero] at hj
    exact absurd hj (Nat.not_lt_zero j)
  have hcount := (pkt.payload.word 0).toNat_lt
  have hbytes : pkt.payload.words.length * 4 < 2 ^ 32 := pkt.payload.length_lt
  have hlen : pkt.payload.payloadLen = pkt.payload.words.length * 4 := rfl
  have hindexNat : (UInt32.ofNat j).toNat = j :=
    UInt32.toNat_ofNat_of_lt' (Nat.lt_trans hj hcount)
  have hindex : UInt32.ofNat j < pkt.payload.word 0 := UInt32.lt_iff_toNat_lt.mpr (by omega)
  have hrest := (@walkSections_spec pkt.payload 0 _ _ _ _ _
    (show setStart pkt.payload.words 0 < 2 ^ 32 by rw [setStart]; omega) hwalk).2 j hj
  rw [Nat.zero_add] at hrest
  obtain ⟨hstartNat, hchecked⟩ := hrest hbegins
  have hstart : (pkt.sectionStart (UInt32.ofNat j)).toNat = setStart pkt.payload.words j := by
    rw [DetectorBankSetsPkt.sectionStart, hindexNat]
    exact hstartNat
  have hread := fun w hw => (hreads _ hindex w hw).1
  have hnext : setStart pkt.payload.words (j + 1) = setStart pkt.payload.words j + 15 +
      (pkt.payload.words.getD (setStart pkt.payload.words j + 5) 0).toNat := rfl
  generalize setStart pkt.payload.words j = first at hstart hnext hbegins hchecked
  by_cases hbase : first + 15 < 2 ^ 32
  · -- the bank ids do not end in the payload
    rw [Nat.mod_eq_of_lt hbase] at hchecked
    have hflags : (pkt.sectionStart (UInt32.ofNat j) + DetectorBankSetsPkt.nameOffset).toNat =
        first + 4 := toNat_add_of hstart rfl (by omega)
    have hbanks : (pkt.sectionStart (UInt32.ofNat j) + DetectorBankSetsPkt.nameOffset + 1).toNat =
        first + 5 := (toNat_add_of hflags (b := 1) rfl (by omega))
    have hlist : (pkt.sectionStart (UInt32.ofNat j) + DetectorBankSetsPkt.nameOffset + 2).toNat =
        first + 6 := (toNat_add_of hflags (b := 2) rfl (by omega))
    have hword : pkt.payload.word (first + 5) = pkt.payload.words.getD (first + 5) 0 :=
      word_eq_getD (by omega)
    have hlast := hread (first + 5 + (pkt.payload.words.getD (first + 5) 0).toNat) (by
      simp only [setReads, banklist_touched hindex, hbanks, hlist, hword, List.mem_append,
        List.mem_cons, List.mem_range'_1]
      omega)
    omega
  · -- the name is behind the payload
    have hname := hread first (by
      simp only [setReads, DetectorBankSetsPkt.name, indexed_touched hindex, hstart,
        List.mem_append]
      refine .inl (.inl (.inl (.inl (.inl (.inl (.inl (.inl (.inr (.tail _ ?_)))))))))
      rw [DetectorBankSetsPkt.readString, Traced.bind_touched (a := ()) rfl]
      refine List.mem_append_left _ (List.mem_map.mpr ⟨0, List.mem_range.mpr (by omega), ?_⟩)
      omega)
    omega

theorem setStart_congr {q : Payload} (hwords : q.words = p.words) (i : Nat) :
    setStart q.words i = setStart p.words i := by rw [hwords]

/-- The copy of a packet with its sections laid out. -/
theorem Laid.copy (h : Laid pkt) (hfits : pkt.payload.payloadLen + 16 < 2 ^ 32)
    (hafters : pkt.afterBanksOffset.length = pkt.sectionOffsets.length)
    (behind : Nat → UInt32) : ∃ pkt', pkt.copy behind = some pkt' ∧ Laid pkt' := by
  have hwords := copy_words pkt.payload behind
  rw [if_pos hfits] at hwords
  have hcount : (pkt.payload.copy behind).word 0 = pkt.payload.word 0 :=
    word_of_words hwords h.length_pos
  have hlength := h.length_eq
  simp only [DetectorBankSetsPkt.copy, hcount]
  split
  · next hnone =>
    refine ⟨_, rfl, hwords ▸ h.length_pos, ?_, fun j hj => ?_, fun j hj => ?_, fun hpos => ?_⟩
    · show 0 = ((pkt.payload.copy behind).word 0).toNat
      rw [hcount]
      omega
    · have hlt : j < ((pkt.payload.copy behind).word 0).toNat := hj
      rw [hcount] at hlt
      omega
    · have hlt : j < ((pkt.payload.copy behind).word 0).toNat := hj
      rw [hcount] at hlt
      omega
    · have hlt : 0 < ((pkt.payload.copy behind).word 0).toNat := hpos
      rw [hcount] at hlt
      omega
  · rw [if_pos ⟨by omega, by omega⟩, List.take_of_length_le (by omega),
      List.take_of_length_le (by omega)]
    refine ⟨_, rfl, hwords ▸ h.length_pos, ?_, fun j hj => ?_, fun j hj => ?_, fun hpos => ?_⟩
    · exact hlength.trans (congrArg _ hcount.symm)
    · rw [setStart_congr hwords]
      exact h.starts j (by rwa [← hcount])
    · rw [setStart_congr hwords]
      exact h.afters j (by rwa [← hcount])
    · show setStart (pkt.payload.copy behind).words ((pkt.payload.copy behind).word 0).toNat ≤
        (pkt.payload.copy behind).words.length
      rw [hcount, hwords]
      exact h.fits (by rwa [← hcount])

/-- An accepted packet and its copies are in bounds just if no sum needs more than 32 bits. -/
theorem sets_iff (h : (detectorBankSetsPkt p).result = .ok pkt) :
    (SetsInBounds pkt ∧ ∀ behind, ∃ pkt', pkt.copy behind = some pkt' ∧ SetsInBounds pkt') ↔
      p.payloadLen + 16 < 2 ^ 32 ∧ setStart p.words (p.word 0).toNat < 2 ^ 32 := by
  constructor
  · rintro ⟨hbounds, hcopies⟩
    constructor
    · by_contra hwraps
      -- the copy has no words, and finds a count behind them
      obtain ⟨pkt', hcopy, -, hreads⟩ := hcopies fun _ => 1
      have hpayload : pkt'.payload = pkt.payload.copy fun _ => 1 := by
        simp only [DetectorBankSetsPkt.copy] at hcopy
        split at hcopy
        · cases hcopy
          rfl
        · split at hcopy
          · cases hcopy
            rfl
          · cases hcopy
      obtain ⟨-, hp, -⟩ := detectorBankSetsPkt_ok h
      have hwords := copy_words pkt.payload fun _ => 1
      rw [hp, if_neg hwraps, ← hp, ← hpayload] at hwords
      have hbehind : pkt'.payload.word 0 = 1 := by
        rw [word_zero_of_nil hwords, hpayload]
        rfl
      have hindex : (0 : UInt32) < pkt'.payload.word 0 := by
        rw [hbehind]
        decide
      have hread := (hreads 0 hindex 0 (by
        simp only [setReads, DetectorBankSetsPkt.sectionOffset, indexed_touched hindex,
          List.mem_append, List.mem_cons]
        simp)).1
      rw [hwords] at hread
      exact absurd hread (Nat.lt_irrefl 0)
    · by_contra hwraps
      exact not_setsInBounds h hwraps hbounds
  · rintro ⟨hfits, hend⟩
    have hlaid := laid_of_ok h hend
    obtain ⟨-, rfl, hcases⟩ := detectorBankSetsPkt_ok h
    have hlengths : pkt.afterBanksOffset.length = pkt.sectionOffsets.length := by
      rcases hcases with ⟨-, hoffsets, hafters⟩ | ⟨last, hwalk, -⟩
      · rw [hoffsets, hafters]
      · obtain ⟨hoffsets, hafters⟩ := walkSections_length hwalk
        rw [hoffsets, hafters]
    refine ⟨hlaid.setsInBounds, fun behind => ?_⟩
    obtain ⟨pkt', hcopy, hlaid'⟩ := hlaid.copy hfits hlengths behind
    exact ⟨pkt', hcopy, hlaid'.setsInBounds⟩

end BankSets

/-- One word, which says that there are `2 ^ 29` beam monitors. -/
def manyMonitors : Payload := ⟨0, 0, [0x20000000], by decide, fun _ => 0⟩

/-- A bank set that is said to have `2 ^ 32 - 15` banks, and has no word for any of them. -/
def hugeSet : Payload :=
  ⟨0, 0, [1, 0, 0, 0, 0, 0, 0xfffffff1, 0, 0, 0, 0, 0, 0, 0, 0, 0], by decide, fun _ => 0⟩

theorem detectorBankSetsPkt_hugeSet :
    (detectorBankSetsPkt hugeSet).result = .ok ⟨hugeSet, [1], [0xfffffff8]⟩ := by
  have hfirst : (DetectorBankSetsPkt.walkSections hugeSet 1 1 0 1).result =
      .ok ([1], [0xfffffff8], 1) := by
    rw [DetectorBankSetsPkt.walkSections, if_neg (by decide)]
    rfl
  rw [detectorBankSetsPkt, Traced.bind_result_eq_ok]
  refine ⟨(), rfl, Traced.bind_result_eq_ok.mpr ⟨1, rfl, ?_⟩⟩
  rw [if_neg (by decide)]
  exact Traced.bind_result_eq_ok.mpr ⟨_, hfirst, rfl⟩

end Adara.Spec.ConfigPackets
