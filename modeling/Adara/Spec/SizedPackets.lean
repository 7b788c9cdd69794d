import Adara.Native.SizedPackets

/-! # Declared sizes

A constructor honours the size a packet declares if, where it returns, that size and the fixed
part fit in the payload, and neither it nor an accessor touches a byte behind it.  Five of the
seven always do.  `SyncPkt` does not when the sum of size and fixed part wraps, and
`DeviceDescriptorPkt` does not for a newer version, whose message it puts together but does not
throw. -/

namespace Adara.Spec.SizedPackets

open Adara.Native Adara.Native.SizedPackets
open Adara.Native.MultVariable (doubleAt validStatus validSeverity)

/-! ### Bytes of the payload -/

/-- The bytes with these numbers are in the payload. -/
def Inside (p : Payload) (touched : List Nat) : Prop := ∀ i ∈ touched, i < p.payloadLen

@[simp] theorem inside_nil (p : Payload) : Inside p [] := nofun

@[simp] theorem inside_append {p : Payload} {xs ys : List Nat} :
    Inside p (xs ++ ys) ↔ Inside p xs ∧ Inside p ys :=
  List.forall_mem_append

theorem inside_places {p : Payload} {start n : Nat} (h : start + n ≤ p.payloadLen) :
    Inside p (places start n) := by
  intro i hi
  have hlt := (List.mem_range'_1.mp hi).2
  exact Nat.lt_of_lt_of_le hlt h

/-- The constructor `x` honours the size, which stands behind `fixed` bytes. -/
def Honours {α : Type} (p : Payload) (x : Constructor α) (fixed size : Nat)
    (accessed : List Nat) : Prop :=
  Traced.Returns x fun _ touched => fixed + size ≤ p.payloadLen ∧ Inside p (touched ++ accessed)

/-! ### What the constructors return -/

section Returns

variable (p : Payload) (name text : String)

@[simp] theorem returns_checkFixed (fixed : Nat) {Q : Unit → List Nat → Prop} :
    Traced.Returns (checkFixed p name text fixed) Q ↔ (fixed ≤ p.payloadLen → Q () []) := by
  simp [checkFixed]

@[simp] theorem returns_checkStatus {Q : Unit → List Nat → Prop} :
    Traced.Returns (checkStatus p name) Q ↔
      (validStatus p.status = true → validSeverity p.severity = true →
        Q () (places 8 4 ++ places 8 4)) := by
  simp [checkStatus]

theorem returns_syncPkt {Q : SyncPkt → List Nat → Prop} :
    Traced.Returns (syncPkt p) Q ↔
      (28 ≤ p.payloadLen → Word32.add (p.word 6).toNat 28 ≤ p.payloadLen →
        Q ⟨bytesAt p 0 16, doubleAt p 4, bytesAt p 28 (p.word 6).toNat⟩
          (places 0 28 ++ places 28 (p.word 6).toNat)) := by
  simp [syncPkt]

/-- A newer version returns whether the string fits or not. -/
theorem returns_deviceDescriptorPkt {Q : SizedPackets.DeviceDescriptorPkt → List Nat → Prop} :
    Traced.Returns (deviceDescriptorPkt p) Q ↔
      (8 ≤ p.payloadLen →
        (p.payloadLen < (p.word 1).toNat + 8 → p.version ≠ 0 →
          Q ⟨p.word 0, bytesAt p 8 (p.word 1).toNat⟩
            (places 4 4 ++ (places 8 (p.payloadLen - 8) ++
              (places 0 4 ++ places 8 (p.word 1).toNat)))) ∧
        ((p.word 1).toNat + 8 ≤ p.payloadLen →
          Q ⟨p.word 0, bytesAt p 8 (p.word 1).toNat⟩
            (places 4 4 ++ (places 0 4 ++ places 8 (p.word 1).toNat)))) := by
  simp [deviceDescriptorPkt]

theorem returns_runInfoPkt {Q : RunInfoPkt → List Nat → Prop} :
    Traced.Returns (runInfoPkt p) Q ↔
      (4 ≤ p.payloadLen → (p.word 0).toNat + 4 ≤ p.payloadLen →
        Q ⟨bytesAt p 4 (p.word 0).toNat⟩ (places 0 4 ++ places 4 (p.word 0).toNat)) := by
  simp [runInfoPkt]

theorem returns_geometryPkt {Q : GeometryPkt → List Nat → Prop} :
    Traced.Returns (geometryPkt p) Q ↔
      (4 ≤ p.payloadLen → (p.word 0).toNat + 4 ≤ p.payloadLen →
        Q ⟨bytesAt p 4 (p.word 0).toNat⟩ (places 0 4 ++ places 4 (p.word 0).toNat)) := by
  simp [geometryPkt]

theorem returns_variableStringPkt {Q : VariablePkt UInt8 → List Nat → Prop} :
    Traced.Returns (variableStringPkt p) Q ↔
      (16 ≤ p.payloadLen → (p.word 3).toNat + 16 ≤ p.payloadLen →
        validStatus p.status = true → validSeverity p.severity = true →
        Q ⟨bytesAt p 16 (p.word 3).toNat⟩
          (places 12 4 ++ (places 8 4 ++ (places 8 4 ++ places 16 (p.word 3).toNat)))) := by
  simp [variableStringPkt]

theorem returns_variableArrayPkt {α : Type} (width : Nat) (elem : Nat → α)
    {Q : VariablePkt α → List Nat → Prop} :
    Traced.Returns (variableArrayPkt p name text width elem) Q ↔
      (16 ≤ p.payloadLen → (p.word 3).toNat * width + 16 ≤ p.payloadLen →
        validStatus p.status = true → validSeverity p.severity = true →
        Q ⟨(List.range (p.word 3).toNat).map elem⟩
          (places 12 4 ++ (places 8 4 ++ (places 8 4 ++ places 16 ((p.word 3).toNat * width))))) := by
  simp [variableArrayPkt]

end Returns

/-! ### Sizes -/

/-- The sum of size and fixed part does not wrap, or there is no fixed part. -/
theorem syncPkt_honours_iff (p : Payload) :
    Honours p (syncPkt p) 28 (p.word 6).toNat [] ↔
      (28 ≤ p.payloadLen → (p.word 6).toNat + 28 < Word32.modulus) := by
  have hword : (p.word 6).toNat < Word32.modulus := UInt32.toNat_lt _
  rw [Honours, returns_syncPkt]
  constructor
  · intro h hfixed
    by_contra hwraps
    -- the sum comes to less than the fixed part
    have hsum : Word32.add (p.word 6).toNat 28 ≤ p.payloadLen := by
      simp only [Word32.add, Word32.modulus] at hword hwraps ⊢
      omega
    have hfits := (h hfixed hsum).1
    have hlen : p.payloadLen < Word32.modulus := p.length_lt
    omega
  · intro h hfixed hsum
    rw [Word32.add_of_lt (h hfixed), Nat.add_comm] at hsum
    simp only [inside_append, inside_nil, and_true]
    exact ⟨hsum, inside_places (by omega), inside_places hsum⟩

/-- The version is 0, or the size fits, or there is no fixed part. -/
theorem deviceDescriptorPkt_honours_iff (p : Payload) :
    Honours p (deviceDescriptorPkt p) 8 (p.word 1).toNat [] ↔
      (8 ≤ p.payloadLen → p.version = 0 ∨ (p.word 1).toNat + 8 ≤ p.payloadLen) := by
  rw [Honours, returns_deviceDescriptorPkt]
  constructor
  · intro h hfixed
    by_contra hnewer
    obtain ⟨hversion, hlong⟩ := not_or.mp hnewer
    have hfits := ((h hfixed).1 (Nat.not_le.mp hlong) hversion).1
    omega
  · intro h hfixed
    simp only [inside_append, inside_nil, and_true]
    constructor
    · intro hlong hversion
      have := (h hfixed).resolve_left hversion
      omega
    · intro hfits
      refine ⟨by omega, inside_places (by omega), inside_places (by omega), inside_places (by omega)⟩

theorem runInfoPkt_honours (p : Payload) : Honours p (runInfoPkt p) 4 (p.word 0).toNat [] := by
  rw [Honours, returns_runInfoPkt]
  intro hfixed hfits
  simp only [inside_append, inside_nil, and_true]
  exact ⟨by omega, inside_places hfixed, inside_places (by omega)⟩

theorem geometryPkt_honours (p : Payload) : Honours p (geometryPkt p) 4 (p.word 0).toNat [] := by
  rw [Honours, returns_geometryPkt]
  intro hfixed hfits
  simp only [inside_append, inside_nil, and_true]
  exact ⟨by omega, inside_places hfixed, inside_places (by omega)⟩

/-- The fields of a value are in its fixed part. -/
theorem inside_variableAccessed {p : Payload} (h : 16 ≤ p.payloadLen) :
    Inside p variableAccessed := by
  simp only [variableAccessed, inside_append]
  exact ⟨⟨⟨inside_places (by omega), inside_places (by omega)⟩, inside_places (by omega)⟩,
    inside_places h⟩

theorem variableStringPkt_honours (p : Payload) :
    Honours p (variableStringPkt p) 16 (p.word 3).toNat variableAccessed := by
  rw [Honours, returns_variableStringPkt]
  intro hfixed hfits _ _
  have hstatus : Inside p (places 8 4) := inside_places (by omega)
  simp only [inside_append]
  exact ⟨by omega, ⟨inside_places hfixed, hstatus, hstatus, inside_places (by omega)⟩,
    inside_variableAccessed hfixed⟩

theorem variableArrayPkt_honours {α : Type} (p : Payload) (name what : String) (width : Nat)
    (elem : Nat → α) :
    Honours p (variableArrayPkt p name what width elem) 16 ((p.word 3).toNat * width)
      variableAccessed := by
  rw [Honours, returns_variableArrayPkt]
  intro hfixed hfits _ _
  have hstatus : Inside p (places 8 4) := inside_places (by omega)
  simp only [inside_append]
  exact ⟨by omega, ⟨inside_places hfixed, hstatus, hstatus, inside_places (by omega)⟩,
    inside_variableAccessed hfixed⟩

/-- Which constructors honour the size, and on which payloads. -/
theorem honours_iff (p : Payload) :
    (Honours p (syncPkt p) 28 (p.word 6).toNat [] ↔
      (28 ≤ p.payloadLen → (p.word 6).toNat + 28 < Word32.modulus)) ∧
    (Honours p (deviceDescriptorPkt p) 8 (p.word 1).toNat [] ↔
      (8 ≤ p.payloadLen → p.version = 0 ∨ (p.word 1).toNat + 8 ≤ p.payloadLen)) ∧
    Honours p (runInfoPkt p) 4 (p.word 0).toNat [] ∧
    Honours p (geometryPkt p) 4 (p.word 0).toNat [] ∧
    Honours p (variableStringPkt p) 16 (p.word 3).toNat variableAccessed ∧
    Honours p (variableU32ArrayPkt p) 16 ((p.word 3).toNat * 4) variableAccessed ∧
    Honours p (variableDoubleArrayPkt p) 16 ((p.word 3).toNat * 8) variableAccessed :=
  ⟨syncPkt_honours_iff p, deviceDescriptorPkt_honours_iff p, runInfoPkt_honours p,
    geometryPkt_honours p, variableStringPkt_honours p, variableArrayPkt_honours p _ _ _ _,
    variableArrayPkt_honours p _ _ _ _⟩

/-- A `SyncPkt` whose comment is said to have `2 ^ 32 - 28` bytes, and a `DeviceDescriptorPkt` of
    version 1 whose description is said to have one byte, and neither has any. -/
theorem not_honours :
    (¬ ∀ p, Honours p (syncPkt p) 28 (p.word 6).toNat []) ∧
      ¬ ∀ p, Honours p (deviceDescriptorPkt p) 8 (p.word 1).toNat [] := by
  constructor
  · intro h
    let p : Payload := ⟨0, 0, [0, 0, 0, 0, 0, 0, 0xffffffe4], by decide, fun _ => 0⟩
    have hwraps := (syncPkt_honours_iff p).mp (h p) (by decide)
    exact absurd hwraps (by decide)
  · intro h
    let p : Payload := ⟨1, 0, [0, 1], by decide, fun _ => 0⟩
    have hnewer := (deviceDescriptorPkt_honours_iff p).mp (h p) (by decide)
    exact absurd hnewer (by decide)

end Adara.Spec.SizedPackets
