import Adara.ForStd.Word32

/-! # Packet headers

The sixteen-byte header every packet starts with, as the `PacketHeader`
constructor reads it, and the packet types the development refers to. -/

namespace Adara.Native

/-- Seconds between 1970-01-01 and 1990-01-01. -/
def epicsEpochOffset : Nat := 631152000

/-- `ADARA_PKT_TYPE`: base type and version in one word. -/
def adaraPktType (baseType version : Nat) : Nat := baseType * 256 + version

/-- `ADARA_BASE_PKT_TYPE`. -/
def adaraBasePktType (type : Nat) : Nat := type / 256

/-- `ADARA_PKT_VERSION`. -/
def adaraPktVersion (type : Nat) : Nat := type % 256

structure PacketHeader where
  payloadLen : Nat
  type : Nat
  baseType : Nat
  version : Nat
  tvSec : Nat
  tvNsec : Nat
  pulseId : Nat
deriving DecidableEq, Repr

namespace PacketHeader

/-- The header at the start of `data`.  The timestamp is moved from the EPICS
    epoch to the Unix epoch. -/
def ofBytes (data : List UInt8) : PacketHeader :=
  let field := Word32.ofBytes data
  { payloadLen := field 0
    type := field 1
    baseType := adaraBasePktType (field 1)
    version := adaraPktVersion (field 1)
    tvSec := Word32.add (field 2) epicsEpochOffset
    tvNsec := field 3
    pulseId := field 2 * 2 ^ 32 + field 3 }

def headerLength : Nat := 16

/-- The length of header and payload together, in 32-bit arithmetic. -/
def packetLength (hdr : PacketHeader) : Nat := Word32.add hdr.payloadLen headerLength

/-- Only the first sixteen bytes determine the header. -/
theorem ofBytes_append {xs : List UInt8} (ys : List UInt8) (h : headerLength ≤ xs.length) :
    ofBytes (xs ++ ys) = ofBytes xs := by
  simp only [headerLength] at h
  simp only [ofBytes]
  rw [Word32.ofBytes_append ys (i := 0) (by omega), Word32.ofBytes_append ys (i := 1) (by omega),
    Word32.ofBytes_append ys (i := 2) (by omega), Word32.ofBytes_append ys (i := 3) (by omega)]

end PacketHeader

end Adara.Native
