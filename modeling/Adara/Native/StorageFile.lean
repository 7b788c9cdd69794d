import Mathlib.Logic.Function.Basic

/-! # Data files

A `StorageFile` is written at its end while it is active, and read by the clients through
one shared descriptor.  The descriptor is opened by the first `get_fd` and closed when
every user has called `put_fd`.  A descriptor stands here for the file it was opened on;
the bytes of a file are those counted by `m_size`. -/

namespace Adara.Native

/-- Files are numbered in the order they are made. -/
abbrev FileId := Nat

structure StorageFile where
  bytes : List UInt8
  active : Bool
  paused : Bool
  oversize : Bool
  sizeLastUpdate : Nat
  fdRefs : UInt32
deriving DecidableEq, Repr

namespace StorageFile

/-- `size()` -/
def size (f : StorageFile) : Nat := f.bytes.length

/-- `get_fd`, where `opens` says whether `openat` succeeds. -/
def getFd (f : StorageFile) (opens : Bool) : Option StorageFile :=
  if f.fdRefs ≠ 0 then some { f with fdRefs := f.fdRefs + 1 }
  else if opens then some { f with fdRefs := 1 }
  else none

/-- `put_fd` -/
def putFd (f : StorageFile) : StorageFile := { f with fdRefs := f.fdRefs - 1 }

/-- `write` without its notification: the bytes that reach the disk are appended. -/
def append (f : StorageFile) (bs : List UInt8) : StorageFile := { f with bytes := f.bytes ++ bs }

/-- `notify`, with whether `m_update` is signalled. -/
def notify (maxFileSize : Nat) (f : StorageFile) : StorageFile × Bool :=
  let f := if maxFileSize ≤ f.size then { f with oversize := true } else f
  if f.sizeLastUpdate < f.size then ({ f with sizeLastUpdate := f.size }, true) else (f, false)

/-- `terminate` up to its notification: the file is inactive, and ends with the run
    status packet. -/
def terminate (f : StorageFile) (runStatus : List UInt8) : StorageFile :=
  { f with active := false, bytes := f.bytes ++ runStatus }

theorem getFd_bytes {f f' : StorageFile} {opens : Bool} (h : f.getFd opens = some f') :
    f'.bytes = f.bytes ∧ f'.active = f.active ∧ f'.paused = f.paused := by
  unfold getFd at h
  split at h
  · cases h; exact ⟨rfl, rfl, rfl⟩
  · split at h <;> cases h
    exact ⟨rfl, rfl, rfl⟩

@[simp] theorem putFd_bytes (f : StorageFile) : f.putFd.bytes = f.bytes := rfl

@[simp] theorem putFd_active (f : StorageFile) : f.putFd.active = f.active := rfl

@[simp] theorem putFd_paused (f : StorageFile) : f.putFd.paused = f.paused := rfl

end StorageFile

/-- The kernel's answer to `sendfile`: room for some bytes, `EAGAIN` or `EINTR`, or an
    error. -/
inductive Kernel where
  | room (n : Nat)
  | again
  | error
deriving DecidableEq, Repr

/-- What `sendfile` returns: the bytes it sent, or one of two kinds of error. -/
inductive Sent where
  | bytes (bs : List UInt8)
  | again
  | failed
deriving DecidableEq, Repr

/-- `sendfile` from an open descriptor.  A negative length is `EINVAL`, and no byte past
    the end of the file is sent. -/
def sendfile (f : StorageFile) (offset : Nat) (len : Int) : Kernel → Sent
  | .room n => if len < 0 then .failed else .bytes ((f.bytes.drop offset).take (min n len.toNat))
  | .again => .again
  | .error => .failed

/-- What `sendfile` sends are the next bytes of the file. -/
theorem sendfile_bytes {f : StorageFile} {offset : Nat} {len : Int} {k : Kernel}
    {bs : List UInt8} (h : sendfile f offset len k = .bytes bs) :
    f.bytes.take (offset + bs.length) = f.bytes.take offset ++ bs ∧
      (bs.length = 0 ∨ offset + bs.length ≤ f.size) := by
  unfold sendfile at h
  split at h
  · split at h
    · cases h
    · rename_i n _
      injection h with h
      subst h
      refine ⟨?_, ?_⟩
      · rw [List.take_add]
        exact congrArg _ (List.prefix_iff_eq_take.mp (List.take_prefix _ _)).symm
      · simp only [List.length_take, List.length_drop, StorageFile.size]
        omega
  · cases h
  · cases h

/-- The files of the storage. -/
abbrev FileStore := FileId → StorageFile

end Adara.Native
