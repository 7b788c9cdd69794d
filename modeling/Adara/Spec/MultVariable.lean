import Adara.Native.MultVariable

/-! # Decoding several values stays inside the payload

A constructor of a `MultVariable` packet is safe on a payload when, if it returns, it
has read words of the payload only, and it throws if the payload does not hold all
values it declares.  Three of the five constructors always are.  `MultVariableU32Pkt`
is not when twice the number of values wraps around 32 bits, `MultVariableStringPkt` is
not when the strings before the last end exactly where the payload ends. -/

namespace Adara.Spec.MultVariable

open Adara.Native Adara.Native.MultVariable

/-! ### What a payload holds -/

/-- The payload holds all its values, each of `width` words after its time of flight. -/
def HoldsFixed (p : Payload) (width : Nat) : Prop :=
  4 ≤ p.words.length ∧ 4 + (1 + width) * p.numValues ≤ p.words.length

/-- Where `n` elements end that start at `ptr`, if they lie in the payload: an element
    is a time of flight, a size, and a number of words that depends on the size. -/
def endOf (p : Payload) (units : Nat → Nat) : (n ptr : Nat) → Option Nat
  | 0, ptr => some ptr
  | n + 1, ptr =>
    if ptr + 2 + units (p.word (ptr + 1)).toNat ≤ p.words.length then
      endOf p units n (ptr + 2 + units (p.word (ptr + 1)).toNat)
    else none

/-- The payload holds all its values, each of the size it says. -/
def HoldsSized (p : Payload) (units : Nat → Nat) : Prop :=
  4 ≤ p.words.length ∧ (endOf p units p.numValues 4).isSome

/-- The words a string takes. -/
def stringUnits (size : Nat) : Nat := (size + 3) / 4

/-! ### Safe constructors -/

/-- A constructor that returns has only read words of the payload, and one whose payload
    does not hold all values throws. -/
structure DecodesSafely {α : Type} (p : Payload) (d : Decoded α) (holds : Prop) : Prop where
  reads_inside : ∀ tofs vals, d.outcome = .returned tofs vals → ∀ i ∈ d.reads, i < p.words.length
  throws : ¬ holds → ∃ what, d.outcome = .threw what

/-- What the checks before the values accept. -/
structure HeaderPasses (p : Payload) (size : Nat) : Prop where
  header_le : 16 ≤ p.payloadLen
  size_le : size + 16 ≤ p.payloadLen
  status_valid : validStatus p.status
  severity_valid : validSeverity p.severity

theorem checkHeader_eq_none {p : Payload} {label tooShort arrays : String} {size : Nat} :
    checkHeader p label tooShort arrays size = none ↔ HeaderPasses p size := by
  unfold checkHeader
  constructor
  · intro h
    split at h
    · cases h
    · split at h
      · cases h
      · split at h
        · cases h
        · split at h
          · cases h
          · rename_i hheader hsize hstatus hseverity
            exact ⟨by omega, by omega, by simpa using hstatus, by simpa using hseverity⟩
  · intro h
    rw [if_neg (Nat.not_lt.mpr h.header_le), if_neg (Nat.not_lt.mpr h.size_le),
      if_neg (by simp [h.status_valid]), if_neg (by simp [h.severity_valid])]

theorem headerReads_lt {p : Payload} {size i : Nat} (h : i ∈ headerReads p size) :
    i < p.words.length := by
  have hlen : p.payloadLen = p.words.length * 4 := rfl
  unfold headerReads at h
  by_cases hheader : p.payloadLen < 16
  · rw [if_pos hheader] at h
    cases h
  · rw [if_neg hheader] at h
    -- both words the checks read lie in the four of the header
    have hi : i = 3 ∨ i = 2 := by
      by_cases hsize : p.payloadLen < size + 16
      · rw [if_pos hsize] at h
        simp at h
        exact .inl h
      · rw [if_neg hsize] at h
        simp at h
        exact h
    omega

/-! ### Constructors and their loops -/

section Construct

variable {α : Type} {p : Payload} {label tooShort arrays : String} {size : Nat}
  {values : Decoded α} {holds : Prop}

/-- A constructor whose checks throw is safe. -/
theorem construct_of_fails (h : ¬ HeaderPasses p size) :
    DecodesSafely p (construct p label tooShort arrays size values) holds := by
  cases hcheck : checkHeader p label tooShort arrays size with
  | none => exact absurd (checkHeader_eq_none.mp hcheck) h
  | some what =>
    have hthrew : construct p label tooShort arrays size values =
        ⟨.threw what, headerReads p size⟩ := by
      simp only [construct, hcheck]
    rw [hthrew]
    apply DecodesSafely.mk
    · intro tofs vals hret
      cases hret
    · intro _
      exact ⟨what, rfl⟩

/-- A constructor whose checks pass is safe exactly when its loop is. -/
theorem construct_of_passes (h : HeaderPasses p size) :
    DecodesSafely p (construct p label tooShort arrays size values) holds ↔
      DecodesSafely p values holds := by
  have hcheck : checkHeader p label tooShort arrays size = none := checkHeader_eq_none.mpr h
  have hloop : construct p label tooShort arrays size values =
      ⟨values.outcome, headerReads p size ++ values.reads⟩ := by
    simp only [construct, hcheck]
  rw [hloop]
  constructor
  · intro hsafe
    have hinside : ∀ tofs vals, values.outcome = .returned tofs vals →
        ∀ i ∈ values.reads, i < p.words.length := fun tofs vals hret i hi =>
      hsafe.reads_inside tofs vals hret i (List.mem_append_right _ hi)
    exact ⟨hinside, hsafe.throws⟩
  · intro hsafe
    have hinside : ∀ tofs vals, values.outcome = .returned tofs vals →
        ∀ i ∈ headerReads p size ++ values.reads, i < p.words.length := by
      intro tofs vals hret i hi
      rcases List.mem_append.mp hi with hi | hi
      · exact headerReads_lt hi
      · exact hsafe.reads_inside tofs vals hret i hi
    exact ⟨hinside, hsafe.throws⟩

/-- A loop that comes to its end inside the payload is safe. -/
theorem safe_of_holds {d : Decoded α} (hreads : ∀ i ∈ d.reads, i < p.words.length)
    (hholds : holds) : DecodesSafely p d holds := by
  apply DecodesSafely.mk
  · intro _ _ _
    exact hreads
  · intro h
    exact absurd hholds h

/-- A loop that throws is safe. -/
theorem safe_of_threw {d : Decoded α} {what : String} (h : d.outcome = .threw what) :
    DecodesSafely p d holds := by
  apply DecodesSafely.mk
  · intro tofs vals hret
    rw [h] at hret
    cases hret
  · intro _
    exact ⟨what, h⟩

/-- The ends of a loop do not change when a value is put in front. -/
theorem push_returned {d : Decoded α} {tof : UInt32} {val : α} {reads : List Nat}
    (h : ∃ tofs vals, d.outcome = .returned tofs vals) :
    ∃ tofs vals, (d.push tof val reads).outcome = .returned tofs vals := by
  obtain ⟨tofs, vals, h⟩ := h
  exact ⟨tof :: tofs, val :: vals, by simp only [Decoded.push, h]⟩

theorem push_threw {d : Decoded α} {tof : UInt32} {val : α} {reads : List Nat}
    (h : ∃ what, d.outcome = .threw what) : ∃ what, (d.push tof val reads).outcome = .threw what := by
  obtain ⟨what, h⟩ := h
  exact ⟨what, by simp only [Decoded.push, h]⟩

theorem push_ranAway {d : Decoded α} {tof : UInt32} {val : α} {reads : List Nat}
    (h : d.outcome = .ranAway) : (d.push tof val reads).outcome = .ranAway := by
  simp only [Decoded.push, h]

theorem push_reads {d : Decoded α} {tof : UInt32} {val : α} {reads : List Nat} {i bound : Nat}
    (hreads : ∀ i ∈ reads, i < bound) (hrest : ∀ i ∈ d.reads, i < bound)
    (hi : i ∈ (d.push tof val reads).reads) : i < bound := by
  rcases List.mem_append.mp hi with hi | hi
  · exact hreads i hi
  · exact hrest i hi

end Construct

/-! ### Values of a fixed size -/

section Fixed

variable {α : Type} (p : Payload) (width : Nat) (value : Nat → α)

theorem copyFixed_returned (n ptr : Nat) :
    ∃ tofs vals, (copyFixed p width value n ptr).outcome = .returned tofs vals := by
  induction n generalizing ptr with
  | zero => exact ⟨[], [], rfl⟩
  | succ n ih => exact push_returned (ih _)

theorem copyFixed_reads (n ptr bound : Nat) (h : ptr + (1 + width) * n ≤ bound) :
    ∀ i ∈ (copyFixed p width value n ptr).reads, i < bound := by
  induction n generalizing ptr with
  | zero =>
    intro i hi
    cases hi
  | succ n ih =>
    have hstep : ptr + 1 + width + (1 + width) * n ≤ bound := by
      rw [Nat.mul_succ] at h
      omega
    intro i hi
    apply push_reads _ (ih _ hstep) hi
    -- a value ends where the next one starts
    intro j hj
    rw [List.mem_range'_1] at hj
    omega

variable {p width value}

/-- The loop over values of a fixed size does not look at the payload's length: it is
    safe only where the payload holds all values. -/
theorem safe_copyFixed (hheader : 4 ≤ p.words.length) :
    DecodesSafely p (copyFixed p width value p.numValues 4) (HoldsFixed p width) ↔
      4 + (1 + width) * p.numValues ≤ p.words.length := by
  obtain ⟨tofs, vals, hret⟩ := copyFixed_returned p width value p.numValues 4
  constructor
  · intro hsafe
    by_contra hnot
    obtain ⟨what, hthrew⟩ := hsafe.throws fun h => hnot h.2
    rw [hret] at hthrew
    cases hthrew
  · intro hfits
    exact safe_of_holds (copyFixed_reads p width value _ _ _ hfits) ⟨hheader, hfits⟩

end Fixed

/-! ### Elements that say their own size -/

section Sized

variable {p : Payload} {units : Nat → Nat}

theorem endOf_succ_of_le {n ptr : Nat}
    (h : ptr + 2 + units (p.word (ptr + 1)).toNat ≤ p.words.length) :
    endOf p units (n + 1) ptr = endOf p units n (ptr + 2 + units (p.word (ptr + 1)).toNat) := by
  rw [endOf, if_pos h]

theorem endOf_succ_of_lt {n ptr : Nat}
    (h : p.words.length < ptr + 2 + units (p.word (ptr + 1)).toNat) :
    endOf p units (n + 1) ptr = none := by
  rw [endOf, if_neg (Nat.not_le.mpr h)]

/-- An element that starts where the payload ends does not lie in it. -/
theorem endOf_succ_length (n : Nat) : endOf p units (n + 1) p.words.length = none :=
  endOf_succ_of_lt (by omega)

/-- No element follows one that ends where the payload ends. -/
theorem endOf_eq_none_of_length {k n ptr : Nat} (hk : k < n)
    (h : endOf p units k ptr = some p.words.length) : endOf p units n ptr = none := by
  induction k generalizing n ptr with
  | zero =>
    obtain ⟨n, rfl⟩ : ∃ m, n = m + 1 := ⟨n - 1, by omega⟩
    cases h
    exact endOf_succ_length n
  | succ k ih =>
    obtain ⟨n, rfl⟩ : ∃ m, n = m + 1 := ⟨n - 1, by omega⟩
    by_cases hfits : ptr + 2 + units (p.word (ptr + 1)).toNat ≤ p.words.length
    · rw [endOf_succ_of_le hfits] at h ⊢
      exact ih (by omega) h
    · exact endOf_succ_of_lt (by omega)

/-! ### Arrays -/

section Arrays

variable {α : Type} (label : String) {need advance : Nat → Nat} {width : Nat} (value : Nat → α)

/-- The loop over arrays checks each array before it copies it: it throws where the
    payload does not hold them all, and otherwise returns with what it read inside. -/
theorem copyArrays_spec (hneed : ∀ size, need size = (width * size + 2) * 4)
    (hadvance : ∀ size, width * size < Word32.modulus → advance size = width * size)
    (n ptr : Nat) (hptr : ptr ≤ p.words.length) :
    let d := copyArrays p label need advance width value n ptr ((p.words.length - ptr) * 4)
    if (endOf p (width * ·) n ptr).isSome then ∀ i ∈ d.reads, i < p.words.length
    else ∃ what, d.outcome = .threw what := by
  induction n generalizing ptr with
  | zero =>
    intro d
    rw [if_pos (by rfl)]
    intro i hi
    cases hi
  | succ n ih =>
    have hlen := p.length_lt
    by_cases hfits : ptr + 2 + width * (p.word (ptr + 1)).toNat ≤ p.words.length
    · have hchecked : ¬ (p.words.length - ptr) * 4 < need (p.word (ptr + 1)).toNat := by
        rw [hneed]
        omega
      have hadv : advance (p.word (ptr + 1)).toNat = width * (p.word (ptr + 1)).toNat :=
        hadvance _ (by omega)
      -- what remains is what lies behind the array
      have hrest : Word32.sub ((p.words.length - ptr) * 4)
          ((width * (p.word (ptr + 1)).toNat + 2) * 4) =
          (p.words.length - (ptr + 2 + width * (p.word (ptr + 1)).toNat)) * 4 := by
        rw [Word32.sub_of_le (by omega) (by omega)]
        omega
      have hnext := ih _ hfits
      rw [copyArrays, if_neg hchecked, hadv, hrest, endOf_succ_of_le hfits]
      intro d
      split at hnext
      · rename_i hend
        rw [if_pos hend]
        intro i hi
        apply push_reads _ hnext hi
        intro j hj
        rcases List.mem_append.mp hj with hj | hj
        · simp at hj
          omega
        · rw [List.mem_range'_1] at hj
          omega
      · rename_i hend
        rw [if_neg hend]
        exact push_threw hnext
    · have hunderflow : (p.words.length - ptr) * 4 < need (p.word (ptr + 1)).toNat := by
        rw [hneed]
        omega
      rw [copyArrays, if_pos hunderflow, endOf_succ_of_lt (Nat.not_le.mp hfits)]
      exact ⟨_, rfl⟩

/-- A constructor of arrays is safe on every payload. -/
theorem safe_arrays {tooShort arrays : String} {size : Nat}
    (hneed : ∀ size, need size = (width * size + 2) * 4)
    (hadvance : ∀ size, width * size < Word32.modulus → advance size = width * size) :
    DecodesSafely p
      (construct p label tooShort arrays size
        (copyArrays p label need advance width value p.numValues 4 (p.payloadLen - 16)))
      (HoldsSized p (width * ·)) := by
  by_cases hpasses : HeaderPasses p size
  · rw [construct_of_passes hpasses]
    have hheader : 4 ≤ p.words.length := by
      have := hpasses.header_le
      simp only [Payload.payloadLen] at this
      omega
    have hspec := copyArrays_spec (p := p) label value hneed hadvance p.numValues 4 hheader
    have hremaining : p.payloadLen - 16 = (p.words.length - 4) * 4 := by
      simp only [Payload.payloadLen]
      omega
    rw [hremaining]
    split at hspec
    · rename_i hend
      exact safe_of_holds hspec ⟨hheader, hend⟩
    · obtain ⟨what, hthrew⟩ := hspec
      exact safe_of_threw hthrew
  · exact construct_of_fails hpasses

end Arrays

end Sized

/-! ### Strings -/

section Strings

variable {p : Payload}

/-- What the loop over strings comes to. -/
theorem copyStrings_spec (n ptr : Nat) (hptr : ptr ≤ p.words.length) :
    let d := copyStrings p n ptr ((p.words.length - ptr) * 4)
    if (endOf p stringUnits n ptr).isSome then ∀ i ∈ d.reads, i < p.words.length
    else if ∃ k < n, endOf p stringUnits k ptr = some p.words.length then d.outcome = .ranAway
    else ∃ what, d.outcome = .threw what := by
  induction n generalizing ptr with
  | zero =>
    intro d
    rw [if_pos (by rfl)]
    intro i hi
    cases hi
  | succ n ih =>
    have hlen := p.length_lt
    have hmod : Word32.modulus = 4294967296 := rfl
    by_cases hfits : ptr + 2 + stringUnits (p.word (ptr + 1)).toNat ≤ p.words.length
    · have hchecked : ¬ (p.words.length - ptr) * 4 < (p.word (ptr + 1)).toNat + 8 := by
        simp only [stringUnits] at hfits
        omega
      -- the size is rounded up to words, and so is what remains
      have hrest : Word32.sub ((p.words.length - ptr) * 4)
          ((stringUnits (p.word (ptr + 1)).toNat + 2) * 4) =
          (p.words.length - (ptr + 2 + stringUnits (p.word (ptr + 1)).toNat)) * 4 := by
        rw [Word32.sub_of_le (by omega) (by omega)]
        omega
      have hstep : ∀ k, endOf p stringUnits (k + 1) ptr =
          endOf p stringUnits k (ptr + 2 + stringUnits (p.word (ptr + 1)).toNat) :=
        fun k => endOf_succ_of_le hfits
      have hexists : (∃ k < n + 1, endOf p stringUnits k ptr = some p.words.length) ↔
          ∃ k < n, endOf p stringUnits k
            (ptr + 2 + stringUnits (p.word (ptr + 1)).toNat) = some p.words.length := by
        constructor
        · rintro ⟨k, hk, hend⟩
          cases k with
          | zero =>
            -- there is a string behind `ptr`, so the payload does not end there
            have hptr : ptr = p.words.length := by simpa [endOf] using hend
            omega
          | succ k => exact ⟨k, by omega, (hstep k).symm.trans hend⟩
        · rintro ⟨k, hk, hend⟩
          exact ⟨k + 1, by omega, (hstep k).trans hend⟩
      have hnext := ih _ hfits
      rw [copyStrings, if_neg hchecked]
      simp only [show ((p.word (ptr + 1)).toNat + 3) / 4 =
        stringUnits (p.word (ptr + 1)).toNat from rfl, hrest, hstep, hexists]
      split at hnext
      · rename_i hend
        rw [if_pos hend]
        intro i hi
        apply push_reads _ hnext hi
        intro j hj
        rcases List.mem_append.mp hj with hj | hj
        · simp at hj
          omega
        · rw [List.mem_range'_1] at hj
          omega
      · rename_i hend
        rw [if_neg hend]
        split at hnext
        · rename_i hend
          rw [if_pos hend]
          exact push_ranAway hnext
        · rename_i hend
          rw [if_neg hend]
          exact push_threw hnext
    · have hunderflow : (p.words.length - ptr) * 4 < (p.word (ptr + 1)).toNat + 8 := by
        simp only [stringUnits] at hfits
        omega
      rw [copyStrings, if_pos hunderflow, endOf_succ_of_lt (Nat.not_le.mp hfits)]
      intro d
      rw [if_neg (by simp)]
      by_cases hend : ptr = p.words.length
      · -- nothing remains, and the bound of the message wraps
        rw [if_pos ⟨0, by omega, by rw [endOf, hend]⟩]
        have hbound : Word32.modulus ≤ ((p.words.length - ptr) * 4 + 2 ^ 64 - 4) % 2 ^ 64 := by
          omega
        show d.outcome = .ranAway
        simp only [d, if_pos hbound]
      · have hnot : ¬ ∃ k < n + 1, endOf p stringUnits k ptr = some p.words.length := by
          rintro ⟨k, hk, hk'⟩
          cases k with
          | zero =>
            cases hk'
            exact hend rfl
          | succ k =>
            rw [endOf_succ_of_lt (Nat.not_le.mp hfits)] at hk'
            cases hk'
        rw [if_neg hnot]
        have hbound : ¬ Word32.modulus ≤ ((p.words.length - ptr) * 4 + 2 ^ 64 - 4) % 2 ^ 64 := by
          omega
        simp only [d, if_neg hbound]
        exact ⟨_, rfl⟩

/-- Strings the payload does not hold, the last one it does hold reaching to its end. -/
def EndsAtPayload (p : Payload) : Prop :=
  ∃ k < p.numValues, endOf p stringUnits k 4 = some p.words.length

theorem safe_copyStrings (hheader : 4 ≤ p.words.length) :
    DecodesSafely p (copyStrings p p.numValues 4 (p.payloadLen - 16))
      (HoldsSized p stringUnits) ↔ ¬ EndsAtPayload p := by
  have hspec := copyStrings_spec (p := p) p.numValues 4 hheader
  have hremaining : p.payloadLen - 16 = (p.words.length - 4) * 4 := by
    simp only [Payload.payloadLen]
    omega
  rw [hremaining]
  by_cases hend : (endOf p stringUnits p.numValues 4).isSome
  · rw [if_pos hend] at hspec
    constructor
    · rintro - ⟨k, hk, hlength⟩
      rw [endOf_eq_none_of_length hk hlength] at hend
      cases hend
    · intro _
      exact safe_of_holds hspec ⟨hheader, hend⟩
  · rw [if_neg hend] at hspec
    by_cases hdefect : ∃ k < p.numValues, endOf p stringUnits k 4 = some p.words.length
    · rw [if_pos hdefect] at hspec
      constructor
      · intro hsafe
        obtain ⟨what, hthrew⟩ := hsafe.throws fun h => hend h.2
        rw [hspec] at hthrew
        cases hthrew
      · intro hnot
        exact absurd hdefect hnot
    · rw [if_neg hdefect] at hspec
      obtain ⟨what, hthrew⟩ := hspec
      constructor
      · intro _
        exact hdefect
      · intro _
        exact safe_of_threw hthrew

end Strings

/-! ### All constructors -/

/-- The types of the values. -/
inductive Kind where
  | u32
  | double
  | string
  | u32Array
  | doubleArray

/-- The constructor for a type of values is safe on a payload. -/
def Safe (p : Payload) : Kind → Prop
  | .u32 => DecodesSafely p (multVariableU32Pkt p) (HoldsFixed p 1)
  | .double => DecodesSafely p (multVariableDoublePkt p) (HoldsFixed p 2)
  | .string => DecodesSafely p (multVariableStringPkt p) (HoldsSized p stringUnits)
  | .u32Array => DecodesSafely p (multVariableU32ArrayPkt p) (HoldsSized p (1 * ·))
  | .doubleArray => DecodesSafely p (multVariableDoubleArrayPkt p) (HoldsSized p (2 * ·))

/-- The payloads whose header is complete and valid. -/
structure ValidHeader (p : Payload) : Prop where
  header_le : 4 ≤ p.words.length
  status_valid : validStatus p.status
  severity_valid : validSeverity p.severity

/-- The payloads on which a constructor goes wrong: single words whose number is beyond
    `2 ^ 31` while the payload holds the excess, and strings that end where the payload
    does before all were found, when the number of strings passes the check. -/
def Defect (p : Payload) : Kind → Prop
  | .u32 =>
    ValidHeader p ∧ 2 ^ 31 ≤ p.numValues ∧ 4 + 2 * (p.numValues - 2 ^ 31) ≤ p.words.length
  | .string =>
    ValidHeader p ∧ 8 * p.numValues % 2 ^ 32 + 16 ≤ 4 * p.words.length ∧ EndsAtPayload p
  | .double => False
  | .u32Array => False
  | .doubleArray => False

theorem headerPasses_iff {p : Payload} {size : Nat} :
    HeaderPasses p size ↔ ValidHeader p ∧ size + 16 ≤ 4 * p.words.length := by
  have hlen : p.payloadLen = p.words.length * 4 := rfl
  constructor
  · intro h
    have hheader := h.header_le
    have hsize := h.size_le
    exact ⟨⟨by omega, h.status_valid, h.severity_valid⟩, by omega⟩
  · intro h
    have hheader := h.1.header_le
    exact ⟨by omega, by omega, h.1.status_valid, h.1.severity_valid⟩

theorem safe_u32 (p : Payload) : Safe p .u32 ↔ ¬ Defect p .u32 := by
  have hn : p.numValues < 2 ^ 32 := UInt32.toNat_lt _
  have hlen := p.length_lt
  have hmul : Word32.mul p.numValues 2 = p.numValues * 2 % 2 ^ 32 := rfl
  have hmod : Word32.modulus = 2 ^ 32 := rfl
  show DecodesSafely p (construct p _ _ _ _ _) _ ↔ _
  by_cases hpasses : HeaderPasses p (Word32.mul p.numValues 2 * 4)
  · have hheader := headerPasses_iff.mp hpasses
    rw [construct_of_passes hpasses, safe_copyFixed hheader.1.header_le]
    constructor
    · intro hfits hdefect
      have := hdefect.2.1
      omega
    · intro hnot
      by_contra hshort
      exact hnot ⟨hheader.1, by omega, by omega⟩
  · constructor
    · intro _ hdefect
      apply hpasses
      apply headerPasses_iff.mpr
      refine ⟨hdefect.1, ?_⟩
      -- the product wraps once
      have hbig := hdefect.2.1
      have hexcess := hdefect.2.2
      omega
    · intro _
      exact construct_of_fails hpasses

theorem safe_double (p : Payload) : Safe p .double := by
  show DecodesSafely p (construct p _ _ _ _ _) _
  by_cases hpasses : HeaderPasses p (p.numValues * (4 + 8))
  · have hheader := headerPasses_iff.mp hpasses
    rw [construct_of_passes hpasses, safe_copyFixed hheader.1.header_le]
    omega
  · exact construct_of_fails hpasses

theorem safe_string (p : Payload) : Safe p .string ↔ ¬ Defect p .string := by
  have hmul : Word32.mul (Word32.mul p.numValues 2) 4 = 8 * p.numValues % 2 ^ 32 := by
    simp only [Word32.mul, Word32.modulus]
    omega
  show DecodesSafely p (construct p _ _ _ _ _) _ ↔ _
  rw [hmul]
  by_cases hpasses : HeaderPasses p (8 * p.numValues % 2 ^ 32)
  · have hheader := headerPasses_iff.mp hpasses
    rw [construct_of_passes hpasses, safe_copyStrings hheader.1.header_le]
    constructor
    · intro hnot hdefect
      exact hnot hdefect.2.2
    · intro hnot hends
      exact hnot ⟨hheader.1, hheader.2, hends⟩
  · constructor
    · intro _ hdefect
      exact hpasses (headerPasses_iff.mpr ⟨hdefect.1, hdefect.2.1⟩)
    · intro _
      exact construct_of_fails hpasses

theorem safe_u32Array (p : Payload) : Safe p .u32Array := by
  apply safe_arrays
  · intro size
    omega
  · intro size _
    exact (Nat.one_mul size).symm

theorem safe_doubleArray (p : Payload) : Safe p .doubleArray := by
  apply safe_arrays
  · intro size
    omega
  · intro size h
    -- the size in words is cut to 32 bits, but it fits
    show size * 8 / 4 % Word32.modulus = 2 * size
    rw [Nat.mod_eq_of_lt (by omega)]
    omega

/-- A constructor is safe exactly on the payloads without a defect. -/
theorem safe_iff (p : Payload) (kind : Kind) : Safe p kind ↔ ¬ Defect p kind := by
  cases kind with
  | u32 => exact safe_u32 p
  | double => exact ⟨fun _ h => h, fun _ => safe_double p⟩
  | string => exact safe_string p
  | u32Array => exact ⟨fun _ h => h, fun _ => safe_u32Array p⟩
  | doubleArray => exact ⟨fun _ h => h, fun _ => safe_doubleArray p⟩

/-- A payload with two strings declared, and one that fills it. -/
def oneOfTwoStrings : Payload where
  version := 0
  pulseId := 0
  words := [1, 1, 0, 2, 100, 8, 0x64636261, 0x68676665]
  length_lt := by decide
  behind := fun _ => 0

/-- A payload with `2 ^ 31` words declared, and none in it. -/
def manyWords : Payload where
  version := 0
  pulseId := 0
  words := [1, 1, 0, 0x80000000]
  length_lt := by decide
  behind := fun _ => 0

/-- The constructor of the strings does not throw when the second is missing, and that
    of the words reads behind the payload. -/
theorem not_safe_of_missing : ¬ Safe oneOfTwoStrings .string ∧ ¬ Safe manyWords .u32 := by
  constructor
  · intro hsafe
    have hend : (endOf oneOfTwoStrings stringUnits oneOfTwoStrings.numValues 4) = none := by decide
    obtain ⟨what, hthrew⟩ := hsafe.throws fun h => by
      rw [HoldsSized, hend] at h
      cases h.2
    have hran : (multVariableStringPkt oneOfTwoStrings).outcome = .ranAway := by decide
    rw [hran] at hthrew
    cases hthrew
  · intro hsafe
    have hpasses : HeaderPasses manyWords (Word32.mul manyWords.numValues 2 * 4) :=
      ⟨by decide, by decide, by decide, by decide⟩
    have hloop := (construct_of_passes hpasses).mp hsafe
    have hfits := (safe_copyFixed (by decide)).mp hloop
    exact absurd hfits (by decide)

end Adara.Spec.MultVariable
