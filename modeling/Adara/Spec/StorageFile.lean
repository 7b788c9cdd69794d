import Adara.Native.StorageFile

/-! # Files only grow

An active file can only be written to at its end, and a file that is not active keeps its
bytes.  What was sent of a file therefore stays a part of it. -/

namespace Adara.Spec.StorageFile

open Adara.Native

/-- What can happen to a file: while it is active it grows, and then it keeps its bytes. -/
def GrownFile (f f' : StorageFile) : Prop :=
  f.bytes <+: f'.bytes ∧ f'.paused = f.paused ∧
    (f.active = false → f'.active = false ∧ f'.bytes = f.bytes)

/-- What can happen to the files. -/
def Grown (store store' : FileStore) : Prop := ∀ f, GrownFile (store f) (store' f)

theorem GrownFile.refl (f : StorageFile) : GrownFile f f :=
  ⟨List.prefix_refl _, rfl, fun hi => ⟨hi, rfl⟩⟩

/-- A change of one file that leaves its bytes, its state and its mode alone. -/
theorem Grown.of_same {store : FileStore} {file : FileId} {f : StorageFile}
    (h : f.bytes = (store file).bytes ∧ f.active = (store file).active ∧
      f.paused = (store file).paused) : Grown store (Function.update store file f) := by
  intro g
  obtain ⟨hb, ha, hp⟩ := h
  by_cases hg : g = file
  · subst hg
    rw [Function.update_self]
    exact ⟨hb ▸ List.prefix_refl _, hp, fun hi => ⟨ha.trans hi, hb⟩⟩
  · rw [Function.update_of_ne hg]
    exact GrownFile.refl _

/-- An active file gets more bytes. -/
theorem Grown.of_active {store : FileStore} {file : FileId} {f : StorageFile}
    (hact : (store file).active = true) (hb : (store file).bytes <+: f.bytes)
    (hp : f.paused = (store file).paused) : Grown store (Function.update store file f) := by
  intro g
  by_cases hg : g = file
  · subst hg
    rw [Function.update_self]
    exact ⟨hb, hp, fun hi => absurd (hact.symm.trans hi) (by decide)⟩
  · rw [Function.update_of_ne hg]
    exact GrownFile.refl _

/-- The start of a file is still its start when the file has grown. -/
theorem take_grown {bs bs' : List UInt8} {off : Nat} (h : bs <+: bs') (hoff : off ≤ bs.length) :
    bs'.take off = bs.take off := by
  rw [List.prefix_iff_eq_take.mp h, List.take_take, Nat.min_eq_left hoff]

/-- The part of a file that was sent is still its part when the file has grown. -/
theorem take_drop_grown {bs bs' : List UInt8} {start off : Nat} (h : bs <+: bs')
    (hoff : off ≤ bs.length ∨ off = start) :
    (bs'.take off).drop start = (bs.take off).drop start := by
  obtain hle | rfl := hoff
  · rw [take_grown h hle]
  · rw [List.drop_take_self, List.drop_take_self]

end Adara.Spec.StorageFile
