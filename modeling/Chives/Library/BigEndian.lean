import Mathlib.Data.List.Induction
import Mathlib.Data.Nat.Size
import Mathlib.Tactic

set_option autoImplicit false

/-!
# Big-endian byte strings

Natural numbers and integers as fixed-length byte strings, most significant byte first, in
plain binary for naturals and in two's complement for integers.

## Main definitions

* `BigEndian.toBytes`, `BigEndian.ofBytes` — the unsigned encoding.
* `BigEndian.toBytesSigned`, `BigEndian.ofBytesSigned` — the two's complement encoding.
* `BigEndian.toBytesMinimal` — the shortest two's complement encoding.

## Main results

* `BigEndian.ofBytes_toBytes`, `BigEndian.toBytes_ofBytes` — the unsigned encoding is a
  bijection between `[0, 256ᵏ)` and the byte strings of length `k`.
* `BigEndian.ofBytesSigned_toBytesSigned`, `BigEndian.toBytesSigned_ofBytesSigned` — the same
  for two's complement.
* `BigEndian.ofBytesSigned_toBytesMinimal` — the shortest encoding is read back.
-/

namespace BigEndian

/-- The `k` low bytes of `n`, most significant first. -/
def toBytes : ℕ → ℕ → List UInt8
  | 0, _ => []
  | k + 1, n => toBytes k (n / 256) ++ [UInt8.ofNat n]

/-- The number a byte string stands for, most significant byte first. -/
def ofBytes (l : List UInt8) : ℕ := l.foldl (fun acc b => 256 * acc + b.toNat) 0

@[simp] lemma length_toBytes (k n : ℕ) : (toBytes k n).length = k := by
  induction k generalizing n with
  | zero => rfl
  | succ k ih => simp [toBytes, ih]

/-- The `k` low bytes of `n` in front of other bytes. It takes one step for each byte, where `toBytes` appends. -/
def toBytesOnto : ℕ → ℕ → List UInt8 → List UInt8
  | 0, _, l => l
  | k + 1, n, l => toBytesOnto k (Nat.div n 256) (UInt8.ofNat n :: l)

lemma toBytesOnto_eq (k n : ℕ) (l : List UInt8) : toBytesOnto k n l = toBytes k n ++ l := by
  induction k generalizing n l with
  | zero => rfl
  | succ k ih =>
    rw [toBytesOnto, ih, toBytes, List.append_assoc]
    rfl

@[simp] lemma ofBytes_concat (l : List UInt8) (b : UInt8) :
    ofBytes (l ++ [b]) = 256 * ofBytes l + b.toNat := by
  simp [ofBytes, List.foldl_append]

/-- Reading the `k`-byte encoding of a number that fits gives the number. -/
lemma ofBytes_toBytes {k n : ℕ} (h : n < 256 ^ k) : ofBytes (toBytes k n) = n := by
  induction k generalizing n with
  | zero => simp [toBytes, ofBytes] at h ⊢; omega
  | succ k ih =>
    have hdiv : n / 256 < 256 ^ k := by
      rw [pow_succ] at h
      exact Nat.div_lt_of_lt_mul (by rwa [mul_comm])
    rw [toBytes, ofBytes_concat, ih hdiv, UInt8.toNat_ofNat']
    omega

/-- A byte string of length `k` reads as a number below `256ᵏ`, and it is that number's
encoding.

**Proof sketch.** Induction from the right: the last byte contributes the remainder modulo
`256`, the bytes before it the quotient. -/
lemma ofBytes_lt_and_toBytes (l : List UInt8) :
    ofBytes l < 256 ^ l.length ∧ toBytes l.length (ofBytes l) = l := by
  induction l using List.reverseRecOn with
  | nil => simp [ofBytes, toBytes]
  | append_singleton l b ih =>
    obtain ⟨hlt, hto⟩ := ih
    have hb : b.toNat < 256 := b.toNat_lt
    rw [ofBytes_concat, List.length_append, List.length_singleton]
    refine ⟨by rw [pow_succ]; omega, ?_⟩
    have hquot : (256 * ofBytes l + b.toNat) / 256 = ofBytes l := by omega
    have hlast : UInt8.ofNat (256 * ofBytes l + b.toNat) = b := by
      apply UInt8.toNat.inj
      rw [UInt8.toNat_ofNat']
      omega
    rw [toBytes, hquot, hto, hlast]

lemma ofBytes_lt (l : List UInt8) : ofBytes l < 256 ^ l.length := (ofBytes_lt_and_toBytes l).1

lemma toBytes_ofBytes {k : ℕ} {l : List UInt8} (h : l.length = k) : toBytes k (ofBytes l) = l :=
  h ▸ (ofBytes_lt_and_toBytes l).2

/-! ## Two's complement -/

/-- The `k`-byte two's complement encoding. -/
def toBytesSigned (k : ℕ) (n : ℤ) : List UInt8 := toBytes k (n % 256 ^ k).toNat

/-- The integer a byte string stands for in two's complement. -/
def ofBytesSigned (l : List UInt8) : ℤ :=
  if 2 * ofBytes l < 256 ^ l.length then ofBytes l else ofBytes l - 256 ^ l.length

@[simp] lemma length_toBytesSigned (k : ℕ) (n : ℤ) : (toBytesSigned k n).length = k :=
  length_toBytes _ _

lemma ofBytesSigned_toBytesSigned {k : ℕ} {n : ℤ} (hlo : -256 ^ k ≤ 2 * n)
    (hhi : 2 * n < 256 ^ k) : ofBytesSigned (toBytesSigned k n) = n := by
  have hM : (0 : ℤ) < 256 ^ k := by positivity
  have hmod0 : 0 ≤ n % 256 ^ k := Int.emod_nonneg _ hM.ne'
  have hmodlt : n % 256 ^ k < 256 ^ k := Int.emod_lt_of_pos _ hM
  have hcast : (((n % 256 ^ k).toNat : ℕ) : ℤ) = n % 256 ^ k := Int.toNat_of_nonneg hmod0
  have hlt : (n % 256 ^ k).toNat < 256 ^ k := by
    zify
    rwa [hcast]
  rw [ofBytesSigned, toBytesSigned, ofBytes_toBytes hlt, length_toBytes]
  rcases le_or_gt 0 n with hn | hn
  · have hmod : n % 256 ^ k = n := Int.emod_eq_of_lt hn (by omega)
    rw [if_pos (by zify; rw [hcast, hmod]; exact hhi), hcast, hmod]
  · have hmod : n % 256 ^ k = n + 256 ^ k := by
      rw [← Int.add_emod_right, Int.emod_eq_of_lt (by omega) (by omega)]
    rw [if_neg (by zify; rw [hcast, hmod]; omega), hcast, hmod]
    ring

lemma toBytesSigned_ofBytesSigned {k : ℕ} {l : List UInt8} (h : l.length = k) :
    toBytesSigned k (ofBytesSigned l) = l := by
  have hlt := ofBytes_lt l
  rw [h] at hlt
  have hltZ : (ofBytes l : ℤ) < 256 ^ k := by exact_mod_cast hlt
  have hmod : ofBytesSigned l % 256 ^ k = ofBytes l := by
    rw [ofBytesSigned, h]
    split
    · exact Int.emod_eq_of_lt (by omega) hltZ
    · rw [Int.sub_emod_right, Int.emod_eq_of_lt (by omega) hltZ]
  rw [toBytesSigned, hmod, Int.toNat_natCast, toBytes_ofBytes h]

/-! ## Shortest two's complement -/

/-- Leave out leading bytes that only repeat the sign. -/
def stripSign : List UInt8 → List UInt8
  | b :: c :: l => if b = (if 128 ≤ c.toNat then 255 else 0) then stripSign (c :: l) else b :: c :: l
  | l => l

/-- The shortest two's complement encoding, which is empty for 0. -/
def toBytesMinimal (n : ℤ) : List UInt8 :=
  if n = 0 then [] else stripSign (toBytesSigned ((n.natAbs.size + 8) / 8) n)

lemma ofBytes_cons (b : UInt8) (l : List UInt8) :
    ofBytes (b :: l) = b.toNat * 256 ^ l.length + ofBytes l := by
  have hfold : ∀ (l : List UInt8) (acc : ℕ), l.foldl (fun acc b => 256 * acc + b.toNat) acc =
      acc * 256 ^ l.length + l.foldl (fun acc b => 256 * acc + b.toNat) 0 := by
    intro l
    induction l with
    | nil => simp
    | cons c l ih =>
      intro acc
      rw [List.foldl_cons, List.foldl_cons, ih, ih (256 * 0 + c.toNat), List.length_cons, pow_succ]
      ring
  rw [ofBytes, List.foldl_cons, hfold]
  simp [ofBytes]

lemma two_mul_ofBytes_cons (c : UInt8) (l : List UInt8) :
    2 * ofBytes (c :: l) < 256 ^ (c :: l).length ↔ c.toNat < 128 := by
  have hlt := ofBytes_lt l
  have hpos : 0 < 256 ^ l.length := Nat.pow_pos (by norm_num)
  rw [ofBytes_cons, List.length_cons, pow_succ]
  constructor
  · intro h
    by_contra hge
    have : 128 * 256 ^ l.length ≤ c.toNat * 256 ^ l.length := Nat.mul_le_mul_right _ (not_lt.mp hge)
    omega
  · intro h
    have : c.toNat * 256 ^ l.length ≤ 127 * 256 ^ l.length := Nat.mul_le_mul_right _ (by omega)
    omega

/-- A leading byte that only repeats the sign does not change the integer. -/
lemma ofBytesSigned_sign (c : UInt8) (l : List UInt8) :
    ofBytesSigned ((if 128 ≤ c.toNat then 255 else 0) :: c :: l) = ofBytesSigned (c :: l) := by
  have hsign := two_mul_ofBytes_cons c l
  by_cases hc : 128 ≤ c.toNat
  · rw [if_pos hc, ofBytesSigned, ofBytesSigned, if_neg, if_neg]
    · have h255 : (255 : UInt8).toNat = 255 := rfl
      rw [ofBytes_cons 255, List.length_cons, List.length_cons, h255, pow_succ, List.length_cons]
      push_cast
      ring
    · rw [hsign]
      omega
    · rw [two_mul_ofBytes_cons]
      decide
  · rw [if_neg hc, ofBytesSigned, ofBytesSigned, if_pos, if_pos]
    · rw [ofBytes_cons]
      simp
    · rw [hsign]
      omega
    · rw [two_mul_ofBytes_cons]
      decide

lemma ofBytesSigned_stripSign (l : List UInt8) : ofBytesSigned (stripSign l) = ofBytesSigned l := by
  fun_induction stripSign l with
  | case1 c l ih =>
    rw [ih, ofBytesSigned_sign]
  | case2 b c l h => rfl
  | case3 l h => rfl

lemma ofBytesSigned_toBytesMinimal (n : ℤ) : ofBytesSigned (toBytesMinimal n) = n := by
  unfold toBytesMinimal
  split
  · rename_i h
    rw [h]
    rfl
  · rw [ofBytesSigned_stripSign]
    have hsize : n.natAbs < 2 ^ n.natAbs.size := Nat.lt_size_self _
    have hpow : 2 * 2 ^ n.natAbs.size ≤ 256 ^ ((n.natAbs.size + 8) / 8) := by
      rw [show (256 : ℕ) = 2 ^ 8 from rfl, ← pow_mul, ← pow_succ']
      exact Nat.pow_le_pow_right (by norm_num) (by omega)
    have hbound : 2 * n.natAbs < 256 ^ ((n.natAbs.size + 8) / 8) := by omega
    have hboundZ : 2 * (n.natAbs : ℤ) < 256 ^ ((n.natAbs.size + 8) / 8) := by exact_mod_cast hbound
    exact ofBytesSigned_toBytesSigned (by omega) (by omega)

end BigEndian
