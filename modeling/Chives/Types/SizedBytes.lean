import Chives.Util.StructStream

set_option autoImplicit false

/-!
# Byte strings of 32 bytes

`bytes32` of `types/blockchain_format/sized_bytes.py`: hashes, puzzle hashes and coin ids.

## Main definitions

* `Bytes32` — byte strings of length 32.
* `Bytes32.zero`, `Bytes32.ofNat` — 32 zero bytes, and a number as 32 bytes.
-/

namespace Chives

/-- A byte string of 32 bytes. -/
structure Bytes32 where
  bytes : Bytes
  length_eq : bytes.length = 32
  deriving DecidableEq

namespace Bytes32

/-- `bytes32([0] * 32)`. -/
def zero : Bytes32 := ⟨List.replicate 32 0, rfl⟩

/-- The 32 bytes whose big-endian value is `n`. -/
def ofNat (n : ℕ) : Bytes32 := ⟨BigEndian.toBytes 32 n, BigEndian.length_toBytes 32 n⟩

/-- `bytes32(b)`: the constructor rejects a byte string of another length. -/
def new (b : Bytes) : Except PyError Bytes32 :=
  if h : b.length = 32 then .ok ⟨b, h⟩ else .error .valueError

@[ext] lemma ext {a b : Bytes32} (h : a.bytes = b.bytes) : a = b := by
  cases a
  cases b
  cases h
  rfl

lemma bytes_injective : Function.Injective Bytes32.bytes := fun _ _ h => ext h

lemma ofNat_injOn {a b : ℕ} (ha : a < 256 ^ 32) (hb : b < 256 ^ 32) (h : ofNat a = ofNat b) :
    a = b := by
  have hbytes : BigEndian.toBytes 32 a = BigEndian.toBytes 32 b := by
    simpa only [ofNat, Bytes32.mk.injEq] using h
  calc a = BigEndian.ofBytes (BigEndian.toBytes 32 a) := (BigEndian.ofBytes_toBytes ha).symm
    _ = BigEndian.ofBytes (BigEndian.toBytes 32 b) := by rw [hbytes]
    _ = b := BigEndian.ofBytes_toBytes hb

end Bytes32

end Chives
