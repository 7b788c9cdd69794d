import Adara.Native.Parser

/-! # Progress on hostile headers

A pass through the packet loop gets on, grows the buffer far enough and keeps packets above
the limit away from `rxPacket`, as long as the length of the packet fits in 32 bits and some
doubling of the buffer size reaches it.  Both can fail: the length of a header close to
`2 ^ 32` wraps to less than the header itself, and the size wraps while it is doubled. -/

namespace Adara.Spec.ParserProgress

open Adara.Native Adara.Native.Parser

/-! ### Doubling -/

/-- A doubling of the size that holds the packet is found, in 32-bit arithmetic. -/
def Doubles (size need : Nat) : Prop := ∃ k, 0 < k ∧ need ≤ size * 2 ^ k % Word32.modulus

theorem doubleSize_eq_none {need fuel size : Nat} :
    doubleSize need fuel size = none ↔
      ∀ k, 0 < k → k ≤ fuel → size * 2 ^ k % Word32.modulus < need := by
  induction fuel generalizing size with
  | zero => exact iff_of_true rfl fun k hpos hle => by omega
  | succ fuel ih =>
    have hwrap : ∀ k, Word32.mul size 2 * 2 ^ k % Word32.modulus =
        size * 2 ^ (k + 1) % Word32.modulus := fun k => by
      rw [Word32.mul, Nat.mod_mul_mod, Nat.mul_assoc, Nat.pow_succ, Nat.mul_comm 2]
    simp only [doubleSize]
    split
    · -- the first doubling is too small
      rename_i hsmall
      rw [ih]
      refine ⟨fun h k hpos hle => ?_, fun h k hpos hle => ?_⟩
      · obtain rfl | ⟨k, rfl⟩ : k = 1 ∨ ∃ j, k = j + 1 + 1 := by
          obtain _ | _ | j := k
          · omega
          · exact .inl rfl
          · exact .inr ⟨j, rfl⟩
        · rw [Nat.pow_one]
          exact hsmall
        · rw [← hwrap]
          exact h (k + 1) (Nat.succ_pos k) (by omega)
      · rw [hwrap]
        exact h (k + 1) (Nat.succ_pos k) (by omega)
    · rename_i hlarge
      refine iff_of_false (Option.some_ne_none _) fun h => hlarge ?_
      have := h 1 (by omega) (by omega)
      rwa [Nat.pow_one] at this

theorem grownSize_isSome_iff {size need maxSize : Nat} (hneed : 0 < need) :
    (grownSize size need maxSize).isSome ↔ Doubles size need := by
  rw [grownSize, Option.isSome_map, Option.isSome_iff_ne_none, ne_eq, doubleSize_eq_none]
  simp only [Classical.not_forall, Nat.not_lt, exists_prop]
  constructor
  · rintro ⟨k, hpos, -, hk⟩
    exact ⟨k, hpos, hk⟩
  · rintro ⟨k, hpos, hk⟩
    refine ⟨k, hpos, ?_, hk⟩
    -- from 32 doublings on nothing is left of the size
    by_contra hlarge
    obtain ⟨j, rfl⟩ := Nat.exists_eq_add_of_le (show 32 ≤ k by omega)
    have hzero : size * 2 ^ (32 + j) % Word32.modulus = 0 := by
      rw [Nat.pow_add, Nat.mul_left_comm, Nat.mul_mod_right]
    omega

/-! ### One pass -/

/-- The cursor at the end of a pass. -/
def cursor {len : Nat} : LoopExit len → Cursor len
  | .finished c => c
  | .grown c _ _ => c
  | .threw c _ => c
  | .hung c => c

/-- The length of a packet in 64-bit arithmetic. -/
def fullLength (hdr : PacketHeader) : Nat := hdr.payloadLen + PacketHeader.headerLength

/-- The header at a cursor. -/
def header (buffer : List UInt8) {len : Nat} (c : Cursor len) : PacketHeader :=
  PacketHeader.ofBytes (buffer.drop c.pos)

/-- The length of the packet fits in 32 bits, or is above the limit all the same; and where the
    buffer has to grow, some doubling of its size holds the packet. -/
def Sane (buffer : List UInt8) (maxSize : Nat) (hdr : PacketHeader) : Prop :=
  hdr.payloadLen % 4 ≠ 0 ∨ maxSize < hdr.packetLength ∨
    (fullLength hdr < Word32.modulus ∧
      (buffer.length < fullLength hdr → Doubles buffer.length (fullLength hdr)))

theorem packetLength_of_lt {hdr : PacketHeader} (h : fullLength hdr < Word32.modulus) :
    hdr.packetLength = fullLength hdr := Word32.add_of_lt h

section Pass

variable (cb : Callbacks) (buffer : List UInt8) (maxSize : Nat) {len : Nat}
  (hlen : len ≤ buffer.length) (c : Cursor len)

/-- One pass through the packet loop. -/
def pass : LoopExit len := parseLoop cb buffer maxSize hlen 1 c

/-- The pass leaves the loop: no other is made, whatever is left of the budget. -/
def Leaves : Prop :=
  ∀ budget, parseLoop cb buffer maxSize hlen (budget + 1) c = pass cb buffer maxSize hlen c

/-- What is expected of a pass: it consumes a header at least, unless it leaves the loop; the
    buffer comes to a size that holds the packet; and a packet above the limit goes to
    `rxOversizePkt`. -/
structure Sound : Prop where
  getsOn : (cursor (pass cb buffer maxSize hlen c)).validLen + PacketHeader.headerLength ≤ c.validLen ∨
    Leaves cb buffer maxSize hlen c
  ends : ∀ c', pass cb buffer maxSize hlen c ≠ .hung c'
  grows : ∀ c' n h, pass cb buffer maxSize hlen c = .grown c' n h → fullLength (header buffer c) ≤ n
  routed : (header buffer c).payloadLen % 4 = 0 → maxSize < fullLength (header buffer c) →
    (cursor (pass cb buffer maxSize hlen c)).log =
      oversizeChunk buffer c (some (header buffer c)) 0 c.validLen

variable {buffer c} (hvalid : PacketHeader.headerLength ≤ c.validLen)
  (hstopped : c.stopped = false)

include hvalid hstopped

theorem pass_unaligned (halign : (header buffer c).payloadLen % 4 ≠ 0) (budget : Nat) :
    parseLoop cb buffer maxSize hlen (budget + 1) c =
      .threw c (invalidPacket (header buffer c)) := by
  rw [header] at halign
  simp [parseLoop, hstopped, Nat.not_lt.mpr hvalid, halign, header]

/-- Above the limit, as far as the 32-bit length says. -/
theorem pass_oversize (halign : (header buffer c).payloadLen % 4 = 0)
    (hmax : maxSize < (header buffer c).packetLength) :
    Leaves cb buffer maxSize hlen c ∧
      (cursor (pass cb buffer maxSize hlen c)).log =
        oversizeChunk buffer c (some (header buffer c)) 0 c.validLen ∧
      (∀ c' n h, pass cb buffer maxSize hlen c ≠ .grown c' n h) ∧
      ∀ c', pass cb buffer maxSize hlen c ≠ .hung c' := by
  rw [header] at halign hmax
  have hloop : ∀ budget, parseLoop cb buffer maxSize hlen (budget + 1) c =
      parseLoop cb buffer maxSize hlen 1 c := fun budget => by
    simp only [parseLoop, hstopped, Nat.not_lt.mpr hvalid, halign, hmax, Bool.false_eq_true, or_self,
      ne_eq, not_true_eq_false, if_false, dif_pos]
  refine ⟨hloop, ?_⟩
  simp only [pass, parseLoop, hstopped, Nat.not_lt.mpr hvalid, halign, hmax, Bool.false_eq_true, or_self,
    ne_eq, not_true_eq_false, if_false, dif_pos, header]
  split <;> exact ⟨rfl, nofun, nofun⟩

/-- The buffer is too small. -/
theorem pass_grow (halign : (header buffer c).payloadLen % 4 = 0)
    (hmax : ¬ maxSize < (header buffer c).packetLength)
    (hsize : buffer.length < (header buffer c).packetLength) :
    Leaves cb buffer maxSize hlen c ∧
      match grownSize buffer.length (header buffer c).packetLength maxSize with
      | none => pass cb buffer maxSize hlen c = .hung c
      | some n => ∃ h, pass cb buffer maxSize hlen c = .grown c n h := by
  rw [header] at *
  have hloop : ∀ budget, parseLoop cb buffer maxSize hlen (budget + 1) c =
      parseLoop cb buffer maxSize hlen 1 c := fun budget => by
    simp only [parseLoop, hstopped, Nat.not_lt.mpr hvalid, halign, hmax, hsize, Bool.false_eq_true, or_self,
      ne_eq, not_true_eq_false, if_false, dif_pos, dif_neg, not_false_eq_true]
  refine ⟨hloop, ?_⟩
  simp only [pass, parseLoop, hstopped, Nat.not_lt.mpr hvalid, halign, hmax, hsize, Bool.false_eq_true, or_self,
    ne_eq, not_true_eq_false, if_false, dif_pos, dif_neg, not_false_eq_true]
  split
  · rename_i hnone
    split
    · rfl
    · rename_i n hsome
      cases hnone.symm.trans hsome
  · rename_i n hsome
    split
    · rename_i hnone
      cases hnone.symm.trans hsome
    · rename_i m hm
      obtain rfl := Option.some.inj (hm.symm.trans hsome)
      have hfits : c.validLen ≤ m := by
        have := (le_of_grownSize (Nat.not_lt.mp hmax) hm).1
        have := c.fits
        omega
      exact ⟨hfits, rfl⟩

/-- The packet is not complete yet. -/
theorem pass_short (halign : (header buffer c).payloadLen % 4 = 0)
    (hmax : ¬ maxSize < (header buffer c).packetLength)
    (hsize : ¬ buffer.length < (header buffer c).packetLength)
    (hshort : c.validLen < (header buffer c).packetLength) (budget : Nat) :
    parseLoop cb buffer maxSize hlen (budget + 1) c = .finished c := by
  rw [header] at *
  simp only [parseLoop, hstopped, Nat.not_lt.mpr hvalid, halign, hmax, hsize, hshort,
    Bool.false_eq_true, or_self, ne_eq, not_true_eq_false, if_false, dif_pos, dif_neg,
    not_false_eq_true]

/-- The packet goes to `rxPacket`. -/
theorem pass_packet (halign : (header buffer c).payloadLen % 4 = 0)
    (hmax : ¬ maxSize < (header buffer c).packetLength)
    (hsize : ¬ buffer.length < (header buffer c).packetLength)
    (hshort : ¬ c.validLen < (header buffer c).packetLength) :
    (cursor (pass cb buffer maxSize hlen c)).log =
        c.log ++ [.packet ((buffer.drop c.pos).take (header buffer c).packetLength)] ∧
      ((cursor (pass cb buffer maxSize hlen c)).validLen = c.validLen - (header buffer c).packetLength ∨
        Leaves cb buffer maxSize hlen c) ∧
      (∀ c' n h, pass cb buffer maxSize hlen c ≠ .grown c' n h) ∧
      ∀ c', pass cb buffer maxSize hlen c ≠ .hung c' := by
  rw [header] at *
  simp only [Leaves, pass, parseLoop, hstopped, Nat.not_lt.mpr hvalid, halign, hmax, hsize, hshort,
    Bool.false_eq_true, or_self, ne_eq, not_true_eq_false, if_false, dif_neg, not_false_eq_true]
  split
  · exact ⟨rfl, .inr fun _ => rfl, nofun, nofun⟩
  · exact ⟨rfl, .inl rfl, nofun, nofun⟩

/-- A pass is sound if and only if the header it finds is sane. -/
theorem sound_iff (hmaxSize : maxSize < Word32.modulus) :
    Sound cb buffer maxSize hlen c ↔ Sane buffer maxSize (header buffer c) := by
  by_cases halign : (header buffer c).payloadLen % 4 ≠ 0
  · -- an exception
    have hpass := pass_unaligned cb maxSize hlen hvalid hstopped halign
    refine iff_of_true ⟨.inr fun budget => (hpass budget).trans (hpass 0).symm, ?_, ?_, ?_⟩
      (.inl halign)
    · intro c' h
      cases (hpass 0).symm.trans h
    · intro c' n hle h
      cases (hpass 0).symm.trans h
    · exact fun h => absurd h halign
  have halign := Decidable.not_not.mp halign
  by_cases hmax : maxSize < (header buffer c).packetLength
  · obtain ⟨hleaves, hlog, hgrown, hhung⟩ := pass_oversize cb maxSize hlen hvalid hstopped halign hmax
    exact iff_of_true ⟨.inr hleaves, hhung, fun c' n h hpass => absurd hpass (hgrown c' n h), fun _ _ => hlog⟩
      (.inr (.inl hmax))
  have hle : c.validLen ≤ buffer.length := by
    have := c.fits
    omega
  by_cases hwrap : fullLength (header buffer c) < Word32.modulus
  · have hlength := packetLength_of_lt hwrap
    have hroute : ¬ maxSize < fullLength (header buffer c) := hlength ▸ hmax
    by_cases hsize : buffer.length < (header buffer c).packetLength
    · obtain ⟨hleaves, hgrow⟩ := pass_grow cb maxSize hlen hvalid hstopped halign hmax hsize
      rw [hlength] at hgrow hsize
      have hpos : 0 < fullLength (header buffer c) := Nat.add_pos_right _ (by decide)
      have hdoubles := @grownSize_isSome_iff buffer.length _ maxSize hpos
      cases hn : grownSize buffer.length (fullLength (header buffer c)) maxSize with
      | none =>
        rw [hn] at hgrow hdoubles
        refine iff_of_false (fun h => h.ends c hgrow) ?_
        rintro (h | h | ⟨-, h⟩)
        · exact h halign
        · exact hmax h
        · exact absurd (hdoubles.mpr (h hsize)) (by simp)
      | some n =>
        rw [hn] at hgrow hdoubles
        obtain ⟨hfits, hpass⟩ := hgrow
        refine iff_of_true ⟨.inr hleaves, fun c' h => ?_, fun c' m hfits' h => ?_, fun _ h => absurd h hroute⟩
          (.inr (.inr ⟨hwrap, fun _ => hdoubles.mp rfl⟩))
        · cases hpass.symm.trans h
        · obtain ⟨-, rfl⟩ := LoopExit.grown.inj (hpass.symm.trans h)
          exact (le_of_grownSize (Nat.not_lt.mp hroute) hn).1
    · have hsane : Sane buffer maxSize (header buffer c) :=
        .inr (.inr ⟨hwrap, fun h => absurd h (hlength ▸ hsize)⟩)
      by_cases hshort : c.validLen < (header buffer c).packetLength
      · have hpass := pass_short cb maxSize hlen hvalid hstopped halign hmax hsize hshort
        refine iff_of_true ⟨.inr fun budget => (hpass budget).trans (hpass 0).symm, ?_, ?_,
          fun _ h => absurd h hroute⟩ hsane
        · intro c' h
          cases (hpass 0).symm.trans h
        · intro c' n hle h
          cases (hpass 0).symm.trans h
      · obtain ⟨hlog, hgets, hgrown, hhung⟩ :=
          pass_packet cb maxSize hlen hvalid hstopped halign hmax hsize hshort
        refine iff_of_true ⟨hgets.imp_left fun h => ?_, hhung,
          fun c' n h hpass => absurd hpass (hgrown c' n h), fun _ h => absurd h hroute⟩ hsane
        rw [h, hlength, fullLength]
        rw [hlength, fullLength] at hshort
        omega
  · -- the length wraps to less than a header
    have hlt : (header buffer c).payloadLen < Word32.modulus := Word32.ofBytes_lt _ _
    have hlength : (header buffer c).packetLength < PacketHeader.headerLength := by
      rw [PacketHeader.packetLength, Word32.add]
      simp only [fullLength, PacketHeader.headerLength, Word32.modulus] at *
      omega
    obtain ⟨hlog, -⟩ := pass_packet cb maxSize hlen hvalid hstopped halign hmax
      (by omega) (by omega)
    refine iff_of_false (fun h => ?_) ?_
    · have hroute := h.routed halign (by omega)
      rw [hlog, oversizeChunk] at hroute
      simp at hroute
    · rintro (h | h | ⟨h, -⟩)
      · exact h halign
      · exact hmax h
      · exact hwrap h

end Pass

/-- The loop at the only packet in a buffer. -/
def atPacket (bytes : List UInt8) : Cursor bytes.length :=
  { pos := 0, validLen := bytes.length, processed := 0, stopped := false, oversizeLen := 0
    oversizeOffset := 0, log := [], fits := .inr (Nat.zero_add _) }

/-- A packet without payload. -/
def heartbeat : List UInt8 := List.replicate 16 0

theorem sound_iff_heartbeat :
    Sound Callbacks.accepting heartbeat 20 (Nat.le_refl _) (atPacket heartbeat) ↔
      Sane heartbeat 20 (header heartbeat (atPacket heartbeat)) :=
  sound_iff _ _ _ (by decide) rfl (by decide)

/-- A header with the payload length `2 ^ 32 - 16`. -/
def hostile : List UInt8 := [240, 255, 255, 255] ++ List.replicate 12 0

theorem not_sound_of_hostile :
    ∃ P c, (Parser.new 16 20).bufferBytesAppended hostile = .ok P ∧
      startParse Callbacks.accepting P [] = .ok c ∧
      ¬ Sound Callbacks.accepting P.buffer P.maxSize P.len_le_size c := by
  refine ⟨_, _, rfl, rfl, fun h => ?_⟩
  have hroute := h.routed (by decide) (by decide)
  exact absurd hroute (by decide)

end Adara.Spec.ParserProgress
