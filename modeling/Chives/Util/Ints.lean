import Chives.Util.StructStream

set_option autoImplicit false

/-!
# Sized integers as naturals

The constructors `uint8`, `uint32`, `uint64` and `uint128` of `util/ints.py` on the result of an
integer computation: a value out of range raises `ValueError`.

## Main definitions

* `uint8`, `uint32`, `uint64`, `uint128` — the constructors.

## Main results

* `uintN_eq_ok` — a constructed integer is the number it was constructed from.
-/

namespace Chives

/-- The constructor of an unsigned class with the given number of bits. -/
def uintN (bits : ℕ) (n : ℤ) : Except PyError ℕ :=
  if 0 ≤ n ∧ n < 2 ^ bits then .ok n.toNat else .error .valueError

/-- `uint8(n)`. -/
def uint8 (n : ℤ) : Except PyError ℕ := uintN 8 n

/-- `uint32(n)`. -/
def uint32 (n : ℤ) : Except PyError ℕ := uintN 32 n

/-- `uint64(n)`. -/
def uint64 (n : ℤ) : Except PyError ℕ := uintN 64 n

/-- `uint128(n)`. -/
def uint128 (n : ℤ) : Except PyError ℕ := uintN 128 n

lemma uintN_eq_ok {bits : ℕ} {n : ℤ} {m : ℕ} :
    uintN bits n = .ok m ↔ n = (m : ℤ) ∧ m < 2 ^ bits := by
  rw [uintN]
  split
  · rename_i h
    have hcast : (2 : ℤ) ^ bits = ((2 ^ bits : ℕ) : ℤ) := by push_cast; rfl
    rw [hcast] at h
    constructor
    · intro he
      obtain rfl := Except.ok.inj he
      omega
    · rintro ⟨rfl, -⟩
      rw [Int.toNat_natCast]
  · rename_i h
    have hcast : (2 : ℤ) ^ bits = ((2 ^ bits : ℕ) : ℤ) := by push_cast; rfl
    rw [hcast] at h
    constructor
    · intro he
      cases he
    · rintro ⟨rfl, hm⟩
      omega

end Chives
