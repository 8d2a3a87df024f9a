import Mathlib.Data.Nat.Bitwise
import Mathlib.Tactic

set_option autoImplicit false

/-!
# The bits of byte strings

Byte strings as strings of bits, the most significant bit of each byte first.

## Main definitions

* `BitString.bitAt` — the bit at a position.

## Main results

* `BitString.eq_of_bitAt_eq` — byte strings of one length with the same bits are equal.
* `BitString.exists_bitAt_ne` — different byte strings of one length differ in a first bit.
* `BitString.lt_of_bitAt` — the first bit that differs decides the lexicographic order.
-/

namespace BitString

/-- The bit at a position, `false` beyond the end. -/
def bitAt (b : List UInt8) (i : ℕ) : Bool :=
  match b[i / 8]? with
  | some x => x.toNat.testBit (7 - i % 8)
  | none => false

lemma bitAt_cons_of_lt (x : UInt8) (b : List UInt8) {i : ℕ} (h : i < 8) :
    bitAt (x :: b) i = x.toNat.testBit (7 - i) := by
  have hdiv : i / 8 = 0 := by omega
  have hmod : i % 8 = i := by omega
  simp [bitAt, hdiv, hmod]

lemma bitAt_cons_add (x : UInt8) (b : List UInt8) (i : ℕ) : bitAt (x :: b) (i + 8) = bitAt b i := by
  have hdiv : (i + 8) / 8 = i / 8 + 1 := by omega
  have hmod : (i + 8) % 8 = i % 8 := by omega
  simp [bitAt, hdiv, hmod]

lemma eq_of_testBit {x y : UInt8} (h : ∀ i < 8, x.toNat.testBit (7 - i) = y.toNat.testBit (7 - i)) :
    x = y := by
  apply UInt8.toNat_inj.mp
  apply Nat.eq_of_testBit_eq
  intro j
  by_cases hj : j < 8
  · have := h (7 - j) (by omega)
    rwa [show 7 - (7 - j) = j by omega] at this
  · have hpow : 2 ^ 8 ≤ 2 ^ j := Nat.pow_le_pow_right (by omega) (by omega)
    have hx := x.toNat_lt
    have hy := y.toNat_lt
    rw [Nat.testBit_lt_two_pow (by omega), Nat.testBit_lt_two_pow (by omega)]

lemma eq_of_bitAt_eq {a b : List UInt8} (hlen : a.length = b.length)
    (h : ∀ i < 8 * a.length, bitAt a i = bitAt b i) : a = b := by
  induction a generalizing b with
  | nil => exact (List.eq_nil_of_length_eq_zero hlen.symm).symm
  | cons x a ih =>
    cases b with
    | nil => cases hlen
    | cons y b =>
      rw [List.length_cons] at h
      have hfirst : x = y := eq_of_testBit fun i hi => by
        have := h i (by omega)
        rwa [bitAt_cons_of_lt x a hi, bitAt_cons_of_lt y b hi] at this
      rw [hfirst, ih (by simpa using hlen) fun i hi => ?_]
      have := h (i + 8) (by omega)
      rwa [bitAt_cons_add, bitAt_cons_add] at this

lemma exists_bitAt_ne {a b : List UInt8} (hlen : a.length = b.length) (hne : a ≠ b) :
    ∃ i < 8 * a.length, bitAt a i ≠ bitAt b i ∧ ∀ j < i, bitAt a j = bitAt b j := by
  have hex : ∃ i, i < 8 * a.length ∧ bitAt a i ≠ bitAt b i := by
    by_contra hall
    push Not at hall
    exact hne (eq_of_bitAt_eq hlen hall)
  refine ⟨Nat.find hex, (Nat.find_spec hex).1, (Nat.find_spec hex).2, fun j hj => ?_⟩
  by_contra hj'
  exact Nat.find_min hex hj ⟨by have := (Nat.find_spec hex).1; omega, hj'⟩

/-- The first bit that differs decides the lexicographic order. -/
lemma lt_of_bitAt {a b : List UInt8} (hlen : a.length = b.length) {i : ℕ}
    (hbefore : ∀ j < i, bitAt a j = bitAt b j) (ha : bitAt a i = false) (hb : bitAt b i = true) :
    a < b := by
  induction a generalizing b i with
  | nil =>
    rw [(List.eq_nil_of_length_eq_zero hlen.symm : b = [])] at hb
    cases hb
  | cons x a ih =>
    cases b with
    | nil => cases hlen
    | cons y b =>
      rw [List.cons_lt_cons_iff]
      by_cases hi : i < 8
      · left
        rw [bitAt_cons_of_lt _ _ hi] at ha hb
        rw [UInt8.lt_iff_toNat_lt]
        refine Nat.lt_of_testBit (7 - i) ha hb fun j hj => ?_
        by_cases hj8 : j < 8
        · have := hbefore (7 - j) (by omega)
          rw [bitAt_cons_of_lt _ _ (by omega), bitAt_cons_of_lt _ _ (by omega),
            show 7 - (7 - j) = j by omega] at this
          exact this
        · have hpow : 2 ^ 8 ≤ 2 ^ j := Nat.pow_le_pow_right (by omega) (by omega)
          have hx := x.toNat_lt
          have hy := y.toNat_lt
          rw [Nat.testBit_lt_two_pow (by omega), Nat.testBit_lt_two_pow (by omega)]
      · right
        have hfirst : x = y := eq_of_testBit fun j hj => by
          have := hbefore j (by omega)
          rwa [bitAt_cons_of_lt x a hj, bitAt_cons_of_lt y b hj] at this
        obtain ⟨k, rfl⟩ : ∃ k, i = k + 8 := ⟨i - 8, by omega⟩
        rw [bitAt_cons_add] at ha hb
        refine ⟨hfirst, ih (by simpa using hlen) (fun j hj => ?_) ha hb⟩
        have := hbefore (j + 8) (by omega)
        rwa [bitAt_cons_add, bitAt_cons_add] at this

end BitString
