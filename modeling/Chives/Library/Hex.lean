import Mathlib.Tactic

set_option autoImplicit false

/-!
# Hexadecimal text

Byte strings as hexadecimal text, two digits for each byte.

## Main definitions

* `Hex.encode` — lower-case digits.
* `Hex.decode` — digits of either case, with white space between bytes skipped.

## Main results

* `Hex.decode_encode` — the text of a byte string reads as that byte string.
* `Hex.encode_isPrefix_iff` — texts start with each other as the byte strings do.
-/

namespace Hex

/-- The digit of a value below 16. -/
def digit (n : ℕ) : Char := Char.ofNat (if n < 10 then 48 + n else 87 + n)

/-- The value of a digit. -/
def digitVal (c : Char) : Option ℕ :=
  if '0' ≤ c ∧ c ≤ '9' then some (c.toNat - 48)
  else if 'a' ≤ c ∧ c ≤ 'f' then some (c.toNat - 87)
  else if 'A' ≤ c ∧ c ≤ 'F' then some (c.toNat - 55)
  else none

/-- ASCII white space. -/
def isSpace (c : Char) : Bool := c.toNat = 32 || (9 ≤ c.toNat && c.toNat ≤ 13)

/-- `b.hex()`. -/
def encode (b : List UInt8) : List Char :=
  b.flatMap fun x => [digit (x.toNat / 16), digit (x.toNat % 16)]

/-- `bytes.fromhex(s)`, with `none` for its `ValueError`. -/
def decode : List Char → Option (List UInt8)
  | [] => some []
  | [c] => if isSpace c then some [] else none
  | c :: d :: s =>
    if isSpace c then decode (d :: s)
    else do
      let hi ← digitVal c
      let lo ← digitVal d
      let rest ← decode s
      return UInt8.ofNat (16 * hi + lo) :: rest

lemma digitVal_digit {n : ℕ} (h : n < 16) :
    digitVal (digit n) = some n ∧ isSpace (digit n) = false := by
  interval_cases n <;> decide

lemma decode_encode (b : List UInt8) : decode (encode b) = some b := by
  induction b with
  | nil => rfl
  | cons x b ih =>
    have hx : x.toNat < 256 := x.toNat_lt
    obtain ⟨hhi, hsp⟩ := digitVal_digit (n := x.toNat / 16) (by omega)
    obtain ⟨hlo, -⟩ := digitVal_digit (n := x.toNat % 16) (by omega)
    have hsum : 16 * (x.toNat / 16) + x.toNat % 16 = x.toNat := Nat.div_add_mod _ _
    show decode (digit (x.toNat / 16) :: digit (x.toNat % 16) :: encode b) = some (x :: b)
    rw [decode, hsp, hhi, hlo, ih]
    show some (UInt8.ofNat (16 * (x.toNat / 16) + x.toNat % 16) :: b) = some (x :: b)
    rw [hsum, UInt8.ofNat_toNat]

/-! ## Parts of a text -/

@[simp] lemma encode_append (a b : List UInt8) : encode (a ++ b) = encode a ++ encode b := List.flatMap_append

@[simp] lemma length_encode (b : List UInt8) : (encode b).length = 2 * b.length := by
  induction b with
  | nil => rfl
  | cons x b ih =>
    show (encode b).length + 1 + 1 = _
    rw [ih, List.length_cons]
    omega

lemma encode_injective : Function.Injective encode := fun a b h =>
  Option.some.inj ((decode_encode a).symm.trans ((congrArg decode h).trans (decode_encode b)))

lemma encode_drop (b : List UInt8) (k : ℕ) : (encode b).drop (2 * k) = encode (b.drop k) := by
  rcases Nat.lt_or_ge k b.length with h | h
  · conv_lhs => rw [← List.take_append_drop k b, encode_append]
    apply List.drop_left'
    rw [length_encode, List.length_take, Nat.min_eq_left h.le]
  · rw [List.drop_of_length_le h, List.drop_of_length_le (by rw [length_encode]; omega)]
    rfl

lemma encode_take (b : List UInt8) (k : ℕ) : (encode b).take (2 * k) = encode (b.take k) := by
  rcases Nat.lt_or_ge k b.length with h | h
  · conv_lhs => rw [← List.take_append_drop k b, encode_append]
    apply List.take_left'
    rw [length_encode, List.length_take, Nat.min_eq_left h.le]
  · rw [List.take_of_length_le h, List.take_of_length_le (by rw [length_encode]; omega)]

/-- **Texts start with each other as the byte strings do.** -/
lemma encode_isPrefix_iff {a b : List UInt8} : encode a <+: encode b ↔ a <+: b := by
  constructor
  · intro h
    rw [List.prefix_iff_eq_take, length_encode, encode_take] at h
    rw [List.prefix_iff_eq_take]
    exact encode_injective h
  · rintro ⟨c, rfl⟩
    exact ⟨encode c, (encode_append a c).symm⟩

lemma mem_encode {b : List UInt8} {c : Char} (h : c ∈ encode b) : ∃ n < 16, c = digit n := by
  obtain ⟨x, -, hc⟩ := List.mem_flatMap.mp h
  have hx := x.toNat_lt
  rcases List.mem_cons.mp hc with rfl | hc
  · exact ⟨_, by omega, rfl⟩
  · rw [List.mem_singleton.mp hc]
    exact ⟨_, by omega, rfl⟩

end Hex
