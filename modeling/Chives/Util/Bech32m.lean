import Mathlib.Data.Nat.Digits.Lemmas
import Mathlib.Data.Nat.Bitwise
import Chives.Util.StructStream

set_option autoImplicit false

/-!
# Bech32m

`util/bech32m.py`: numbers of five bits as a text with a checksum, and the conversion between bytes and such numbers.

## Main definitions

* `convertbits` — regrouping bits.
* `bech32Encode`, `bech32Decode` — the text.

## Main results

* `convertbits_convertbits` — regrouping to smaller numbers with padding, and back.
* `bech32VerifyChecksum_create` — the checksum that was appended is accepted.
* `bech32Decode_encode` — a text is decoded to what it was encoded from.

## Design

A text is the list of its characters. The decoder rejects a text with a character outside of ASCII before it changes
case, so that only ASCII letters have a case here.
-/

namespace Chives

open ExceptRun

/-! ## Regrouping bits -/

/-- The state of the loop of `convertbits`. -/
structure BitState where
  acc : ℕ
  bits : ℕ
  ret : List ℕ

/-- The loop `while bits >= tobits`, for as many rounds as the first argument says. -/
def drainBits (tobits acc : ℕ) : ℕ → ℕ → List ℕ → BitState
  | 0, bits, ret => ⟨acc, bits, ret⟩
  | n + 1, bits, ret =>
    if tobits ≤ bits then
      drainBits tobits acc n (bits - tobits) (ret ++ [(acc >>> (bits - tobits)) &&& ((1 <<< tobits) - 1)])
    else ⟨acc, bits, ret⟩

/-- A round of the loop of `convertbits`. -/
def takeValue (frombits tobits : ℕ) (s : BitState) (value : ℕ) : Except PyError BitState :=
  if value >>> frombits ≠ 0 then .error .valueError
  else .ok (drainBits tobits (((s.acc <<< frombits) ||| value) &&& ((1 <<< (frombits + tobits - 1)) - 1))
    (s.bits + frombits) (s.bits + frombits) s.ret)

/-- `convertbits`. -/
def convertbits (data : List ℕ) (frombits tobits : ℕ) (pad : Bool) : Except PyError (List ℕ) := do
  let s ← data.foldlM (takeValue frombits tobits) ⟨0, 0, []⟩
  if pad then
    pure (if s.bits = 0 then s.ret
      else s.ret ++ [(s.acc <<< (tobits - s.bits)) &&& ((1 <<< tobits) - 1)])
  else if frombits ≤ s.bits ∨ (s.acc <<< (tobits - s.bits)) &&& ((1 <<< tobits) - 1) ≠ 0 then
    throw .valueError
  else pure s.ret

/-- `bytes(data)`, of a list of numbers. -/
def bytesOfNumbers (data : List ℕ) : Except PyError Bytes :=
  data.mapM fun n => if n < 256 then .ok (UInt8.ofNat n) else .error .valueError

lemma bytesOfNumbers_map (b : Bytes) : bytesOfNumbers (b.map UInt8.toNat) = .ok b := by
  unfold bytesOfNumbers
  induction b with
  | nil => rfl
  | cons x b ih =>
    rw [List.map_cons, List.mapM_cons, if_pos x.toNat_lt, ok_bind, ih, ok_bind, UInt8.ofNat_toNat]
    rfl

/-- The number whose digits of `w` bits are given, the first one foremost. -/
def bitValue (w : ℕ) (l : List ℕ) : ℕ := Nat.ofDigits (2 ^ w) l.reverse

@[simp] lemma bitValue_append (w : ℕ) (l : List ℕ) (d : ℕ) : bitValue w (l ++ [d]) = bitValue w l * 2 ^ w + d := by
  rw [bitValue, List.reverse_append, List.reverse_singleton, List.singleton_append, Nat.ofDigits_cons, bitValue]
  ring

lemma eq_of_bitValue {w : ℕ} (hw : 0 < w) {l l' : List ℕ} (hlen : l.length = l'.length)
    (hl : ∀ d ∈ l, d < 2 ^ w) (hl' : ∀ d ∈ l', d < 2 ^ w) (h : bitValue w l = bitValue w l') : l = l' := by
  have hbase : 1 < 2 ^ w := Nat.one_lt_two_pow (by omega)
  have hrev : l.reverse = l'.reverse := Nat.ofDigits_inj_of_len_eq hbase
    (by rw [List.length_reverse, List.length_reverse, hlen])
    (fun d hd => hl d (List.mem_reverse.mp hd)) (fun d hd => hl' d (List.mem_reverse.mp hd)) h
  exact List.reverse_injective hrev

/-- What the loop of `convertbits` keeps, for the values that it has taken: their bits are those of the numbers that
it has returned, and the last bits of the accumulator. -/
structure BitState.Holds (frombits tobits : ℕ) (data : List ℕ) (s : BitState) : Prop where
  value : bitValue frombits data = bitValue tobits s.ret * 2 ^ s.bits + s.acc % 2 ^ s.bits
  count : frombits * data.length = tobits * s.ret.length + s.bits
  bits_lt : s.bits < tobits
  ret_lt : ∀ d ∈ s.ret, d < 2 ^ tobits

lemma and_mask (n k : ℕ) : n &&& ((1 <<< k) - 1) = n % 2 ^ k := by
  rw [Nat.one_shiftLeft, Nat.and_two_pow_sub_one_eq_mod]

variable {tobits : ℕ}

/-- The inner loop moves bits from the accumulator to the result.

**Proof sketch.** Induction on the number of rounds left. A round takes the first of the bits that are left in the
accumulator. -/
lemma drainBits_holds (acc : ℕ) (hto : 0 < tobits) : ∀ (n bits : ℕ) (ret : List ℕ), bits ≤ n →
    (∀ d ∈ ret, d < 2 ^ tobits) →
    (drainBits tobits acc n bits ret).acc = acc ∧
      bitValue tobits (drainBits tobits acc n bits ret).ret * 2 ^ (drainBits tobits acc n bits ret).bits +
        acc % 2 ^ (drainBits tobits acc n bits ret).bits = bitValue tobits ret * 2 ^ bits + acc % 2 ^ bits ∧
      tobits * (drainBits tobits acc n bits ret).ret.length + (drainBits tobits acc n bits ret).bits =
        tobits * ret.length + bits ∧
      (drainBits tobits acc n bits ret).bits < tobits ∧
      ∀ d ∈ (drainBits tobits acc n bits ret).ret, d < 2 ^ tobits := by
  intro n
  induction n with
  | zero =>
    intro bits ret hbits hret
    obtain rfl : bits = 0 := by omega
    exact ⟨rfl, rfl, rfl, hto, hret⟩
  | succ n ih =>
    intro bits ret hbits hret
    rw [drainBits]
    by_cases h : tobits ≤ bits
    · rw [if_pos h]
      obtain ⟨rest, rfl⟩ : ∃ rest, bits = rest + tobits := ⟨bits - tobits, by omega⟩
      rw [Nat.add_sub_cancel, and_mask, Nat.shiftRight_eq_div_pow]
      have hret' : ∀ d ∈ ret ++ [acc / 2 ^ rest % 2 ^ tobits], d < 2 ^ tobits := by
        intro d hd
        rcases List.mem_append.mp hd with hd | hd
        · exact hret d hd
        · rw [List.mem_singleton.mp hd]
          exact Nat.mod_lt _ (by positivity)
      obtain ⟨hacc, hvalue, hcount, hlt, hdigits⟩ := ih rest _ (by omega) hret'
      refine ⟨hacc, ?_, ?_, hlt, hdigits⟩
      · rw [hvalue, bitValue_append, pow_add, Nat.mod_mul]
        ring
      · rw [hcount, List.length_append, List.length_singleton]
        ring
    · rw [if_neg h]
      exact ⟨rfl, rfl, rfl, not_le.mp h, hret⟩

variable {frombits : ℕ} {data : List ℕ}

lemma BitState.Holds.takeValue {s : BitState} (hto : 0 < tobits) (h : s.Holds frombits tobits data) {value : ℕ}
    (hvalue : value < 2 ^ frombits) :
    ∃ s', Chives.takeValue frombits tobits s value = .ok s' ∧ s'.Holds frombits tobits (data ++ [value]) := by
  have hshift : value >>> frombits = 0 := by
    rw [Nat.shiftRight_eq_div_pow]
    exact Nat.div_eq_of_lt hvalue
  have hacc : ((s.acc <<< frombits) ||| value) &&& ((1 <<< (frombits + tobits - 1)) - 1) =
      (s.acc * 2 ^ frombits + value) % 2 ^ (frombits + tobits - 1) := by
    rw [and_mask, Nat.shiftLeft_eq, mul_comm s.acc, Nat.two_pow_add_eq_or_of_lt hvalue]
  refine ⟨_, by rw [Chives.takeValue, if_neg (not_not.mpr hshift)], ?_⟩
  rw [hacc]
  obtain ⟨hkeep, hval, hcount, hlt, hdigits⟩ := drainBits_holds ((s.acc * 2 ^ frombits + value) %
    2 ^ (frombits + tobits - 1)) hto (s.bits + frombits) (s.bits + frombits) s.ret le_rfl h.ret_lt
  -- the mask leaves the bits that were not returned yet
  have hmask : (s.acc * 2 ^ frombits + value) % 2 ^ (frombits + tobits - 1) % 2 ^ (s.bits + frombits) =
      s.acc % 2 ^ s.bits * 2 ^ frombits + value := by
    have hbits := h.bits_lt
    rw [Nat.mod_mod_of_dvd _ (pow_dvd_pow 2 (by omega)), pow_add, mul_comm (2 ^ s.bits),
      Nat.mod_mul, Nat.add_comm (s.acc * 2 ^ frombits), Nat.add_mul_mod_self_right, Nat.mod_eq_of_lt hvalue,
      Nat.add_mul_div_right _ _ (by positivity), Nat.div_eq_of_lt hvalue, Nat.zero_add]
    ring
  constructor
  · rw [hkeep, hval, hmask, bitValue_append, h.value, pow_add]
    ring
  · rw [hcount, List.length_append, List.length_singleton, Nat.mul_add, h.count]
    ring
  · exact hlt
  · exact hdigits

/-- The loop of `convertbits` takes values that fit. -/
lemma exists_foldlM_takeValue (tobits : ℕ) (hto : 0 < tobits) (hdata : ∀ v ∈ data, v < 2 ^ frombits) :
    ∃ s, data.foldlM (takeValue frombits tobits) ⟨0, 0, []⟩ = .ok s ∧ s.Holds frombits tobits data := by
  induction data using List.reverseRecOn with
  | nil => exact ⟨⟨0, 0, []⟩, rfl, ⟨by simp [bitValue], rfl, hto, by simp⟩⟩
  | append_singleton data v ih =>
    obtain ⟨s, hs, hholds⟩ := ih fun w hw => hdata w (List.mem_append_left _ hw)
    obtain ⟨s', hs', hholds'⟩ := hholds.takeValue hto (hdata v (by simp))
    refine ⟨s', ?_, hholds'⟩
    rw [List.foldlM_append, hs, ok_bind, List.foldlM_cons, hs', ok_bind]
    rfl

/-- What padding makes of the numbers that were returned. -/
def padded (tobits : ℕ) (s : BitState) : List ℕ :=
  if s.bits = 0 then s.ret else s.ret ++ [(s.acc <<< (tobits - s.bits)) &&& ((1 <<< tobits) - 1)]

lemma shift_mask {bits acc : ℕ} (h : bits ≤ tobits) :
    (acc <<< (tobits - bits)) &&& ((1 <<< tobits) - 1) = acc % 2 ^ bits * 2 ^ (tobits - bits) := by
  rw [and_mask, Nat.shiftLeft_eq]
  conv_lhs => rw [← Nat.add_sub_cancel' h, pow_add]
  rw [Nat.add_sub_cancel' h, Nat.mul_mod_mul_right]

lemma BitState.Holds.padded {s : BitState} (h : s.Holds frombits tobits data) :
    ∃ pad < tobits, bitValue tobits (padded tobits s) = bitValue frombits data * 2 ^ pad ∧
      tobits * (Chives.padded tobits s).length = frombits * data.length + pad ∧
      ∀ d ∈ Chives.padded tobits s, d < 2 ^ tobits := by
  have hbits := h.bits_lt
  unfold Chives.padded
  by_cases h0 : s.bits = 0
  · rw [if_pos h0]
    refine ⟨0, by omega, ?_, ?_, h.ret_lt⟩
    · rw [h.value, h0, pow_zero, Nat.mod_one]
      ring
    · rw [h.count, h0, Nat.add_zero]
  · rw [if_neg h0, shift_mask hbits.le]
    refine ⟨tobits - s.bits, by omega, ?_, ?_, ?_⟩
    · have hpow : 2 ^ tobits = 2 ^ s.bits * 2 ^ (tobits - s.bits) := by
        rw [← pow_add, Nat.add_sub_cancel' hbits.le]
      rw [bitValue_append, h.value, hpow]
      ring
    · rw [List.length_append, List.length_singleton, Nat.mul_add, h.count]
      omega
    · intro d hd
      rcases List.mem_append.mp hd with hd | hd
      · exact h.ret_lt d hd
      · rw [List.mem_singleton.mp hd]
        calc s.acc % 2 ^ s.bits * 2 ^ (tobits - s.bits)
            < 2 ^ s.bits * 2 ^ (tobits - s.bits) :=
              Nat.mul_lt_mul_of_pos_right (Nat.mod_lt _ (by positivity)) (by positivity)
          _ = 2 ^ tobits := by rw [← pow_add, Nat.add_sub_cancel' hbits.le]

lemma eq_of_mul_add {n a b r r' : ℕ} (hr : r < n) (hr' : r' < n) (h : n * a + r = n * b + r') :
    a = b ∧ r = r' := by
  have hdiv := congrArg (· / n) h
  have hmod := congrArg (· % n) h
  simp only [Nat.mul_add_div (by omega : 0 < n), Nat.div_eq_of_lt hr, Nat.div_eq_of_lt hr',
    Nat.mul_add_mod, Nat.mod_eq_of_lt hr, Nat.mod_eq_of_lt hr'] at hdiv hmod
  exact ⟨hdiv, hmod⟩

/-- **Regrouping with padding, and back.** What is padded is less than a number of the result, and less than one of
the data, so that it is dropped on the way back.

**Proof sketch.** By the invariant of the first loop the result has the value of the data, shifted by the padding. The
second loop returns as many numbers as the data has, for no other count leaves too few bits for another one; so the
bits that it does not return are the padding, and the values agree. -/
theorem convertbits_convertbits (hto : 0 < tobits) (hle : tobits ≤ frombits) (hdata : ∀ v ∈ data, v < 2 ^ frombits) :
    ∃ grouped, convertbits data frombits tobits true = .ok grouped ∧ (∀ d ∈ grouped, d < 2 ^ tobits) ∧
      convertbits grouped tobits frombits false = .ok data := by
  obtain ⟨s, hs, hholds⟩ := exists_foldlM_takeValue tobits hto hdata
  obtain ⟨pad, hpad, hvalue, hcount, hdigits⟩ := hholds.padded
  refine ⟨padded tobits s, by rw [convertbits, hs, ok_bind]; rfl, hdigits, ?_⟩
  obtain ⟨s', hs', hback⟩ := exists_foldlM_takeValue frombits (by omega) hdigits
  have hbits := hback.bits_lt
  obtain ⟨hlen, hpadded⟩ := eq_of_mul_add (by omega) hbits (hcount.symm.trans hback.count)
  have hlow := Nat.mod_lt s'.acc (y := 2 ^ s'.bits) (by positivity)
  obtain ⟨hsame, hzero⟩ := eq_of_mul_add (n := 2 ^ s'.bits) (a := bitValue frombits data)
    (b := bitValue frombits s'.ret) (r := 0) (by positivity) hlow (by
      rw [Nat.add_zero, mul_comm, ← hpadded, ← hvalue, hback.value, hpadded, mul_comm])
  have hdata' : data = s'.ret := eq_of_bitValue (by omega) hlen hdata hback.ret_lt hsame
  rw [convertbits, hs', ok_bind, if_neg (by decide), shift_mask hbits.le, ← hzero, zero_mul, if_neg ?_, hdata']
  · rfl
  · rw [not_or]
    exact ⟨by omega, not_not.mpr rfl⟩

/-! ## The checksum -/

/-- `CHARSET`. -/
def CHARSET : List Char := "qpzry9x8gf2tvdw0s3jn54khce6mua7l".toList

/-- The constants of `bech32_polymod`. -/
def bech32Generator : List ℕ := [0x3B6A57B2, 0x26508E6D, 0x1EA119FA, 0x3D4233DD, 0x2A1462B3]

/-- The loop over the generator, for the bits of `top`. -/
def addGenerators (top chk : ℕ) : ℕ :=
  (List.range 5).foldl (fun chk i => chk ^^^ (if (top >>> i) &&& 1 ≠ 0 then bech32Generator.getD i 0 else 0)) chk

/-- A round of `bech32_polymod`. -/
def polymodStep (chk value : ℕ) : ℕ := addGenerators (chk >>> 25) (((chk &&& 0x1FFFFFF) <<< 5) ^^^ value)

/-- `bech32_polymod`. -/
def bech32Polymod (values : List ℕ) : ℕ := values.foldl polymodStep 1

/-- `bech32_hrp_expand`. -/
def bech32HrpExpand (hrp : List Char) : List ℕ :=
  hrp.map (fun x => x.toNat >>> 5) ++ [0] ++ hrp.map (fun x => x.toNat &&& 31)

/-- `M`. -/
def bech32M : ℕ := 0x2BC830A3

/-- `bech32_verify_checksum`. -/
def bech32VerifyChecksum (hrp : List Char) (data : List ℕ) : Bool :=
  bech32Polymod (bech32HrpExpand hrp ++ data) = bech32M

/-- The six numbers of five bits of a number of 30 bits. -/
def fiveBits (polymod : ℕ) : List ℕ := (List.range 6).map fun i => (polymod >>> (5 * (5 - i))) &&& 31

/-- `bech32_create_checksum`. -/
def bech32CreateChecksum (hrp : List Char) (data : List ℕ) : List ℕ :=
  fiveBits (bech32Polymod (bech32HrpExpand hrp ++ data ++ [0, 0, 0, 0, 0, 0]) ^^^ bech32M)

lemma addGenerators_xor (top chk d : ℕ) : addGenerators top (chk ^^^ d) = addGenerators top chk ^^^ d := by
  unfold addGenerators
  generalize List.range 5 = l
  induction l generalizing chk with
  | nil => rfl
  | cons i l ih =>
    rw [List.foldl_cons, List.foldl_cons, ← ih]
    congr 1
    rw [Nat.xor_assoc, Nat.xor_assoc, Nat.xor_comm d]

/-- Numbers below a power of two are closed under exclusive or, and so are the values of `addGenerators`. -/
lemma addGenerators_lt (top : ℕ) {chk : ℕ} (h : chk < 2 ^ 30) : addGenerators top chk < 2 ^ 30 := by
  unfold addGenerators
  generalize hl : List.range 5 = l
  clear hl
  induction l generalizing chk with
  | nil => exact h
  | cons i l ih =>
    rw [List.foldl_cons]
    refine ih (Nat.xor_lt_two_pow h ?_)
    split
    · rw [List.getD_eq_getElem?_getD]
      have hall : ∀ x ∈ bech32Generator, x < 2 ^ 30 := by decide
      cases hx : bech32Generator[i]? with
      | none => norm_num
      | some x => exact hall x (List.mem_of_getElem? hx)
    · norm_num

lemma polymodStep_lt (chk : ℕ) {value : ℕ} (h : value < 2 ^ 30) : polymodStep chk value < 2 ^ 30 := by
  refine addGenerators_lt _ (Nat.xor_lt_two_pow ?_ h)
  have hmask : chk &&& 0x1FFFFFF < 2 ^ 25 := Nat.and_lt_two_pow _ (by norm_num)
  rw [Nat.shiftLeft_eq]
  omega

/-- **A difference in the last bits goes through a round unchanged**: it is shifted, and the difference of the values
is added.

**Proof sketch.** A difference of 25 bits does not reach the bits that choose the generators. -/
lemma polymodStep_xor (chk value value' : ℕ) {d : ℕ} (hd : d < 2 ^ 25) :
    polymodStep (chk ^^^ d) (value ^^^ value') = polymodStep chk value ^^^ ((d <<< 5) ^^^ value') := by
  have htop : (chk ^^^ d) >>> 25 = chk >>> 25 := by
    rw [Nat.shiftRight_xor_distrib, Nat.shiftRight_eq_div_pow d, Nat.div_eq_of_lt hd, Nat.xor_zero]
  have hmask : (chk ^^^ d) &&& 0x1FFFFFF = (chk &&& 0x1FFFFFF) ^^^ d := by
    rw [Nat.and_xor_distrib_right]
    congr 1
    rw [show (0x1FFFFFF : ℕ) = 2 ^ 25 - 1 from rfl, Nat.and_two_pow_sub_one_eq_mod, Nat.mod_eq_of_lt hd]
  rw [polymodStep, polymodStep, htop, hmask, Nat.shiftLeft_xor_distrib, ← addGenerators_xor]
  congr 1
  rw [Nat.xor_assoc, Nat.xor_assoc]
  congr 1
  rw [← Nat.xor_assoc, ← Nat.xor_assoc, Nat.xor_comm value]

lemma shift_xor_and (x : ℕ) : ((x >>> 5) <<< 5) ^^^ (x &&& 31) = x := by
  apply Nat.eq_of_testBit_eq
  intro i
  rw [Nat.testBit_xor, Nat.testBit_shiftLeft, Nat.testBit_shiftRight, Nat.testBit_and,
    show (31 : ℕ) = 2 ^ 5 - 1 from rfl, Nat.testBit_two_pow_sub_one]
  by_cases hi : 5 ≤ i
  · have : ¬i < 5 := by omega
    simp [hi, this]
  · have : i < 5 := by omega
    simp [hi, this]

lemma polymodStep_digit {q n : ℕ} (chk : ℕ) (hq : q < 2 ^ (n + 30)) :
    polymodStep (chk ^^^ (q >>> (n + 5))) ((q >>> n) &&& 31) = polymodStep chk 0 ^^^ (q >>> n) := by
  have hlt : q >>> (n + 5) < 2 ^ 25 := by
    rw [Nat.shiftRight_eq_div_pow]
    refine Nat.div_lt_of_lt_mul ?_
    rwa [← pow_add]
  have hstep := polymodStep_xor chk 0 ((q >>> n) &&& 31) hlt
  rw [Nat.zero_xor] at hstep
  rw [hstep, Nat.shiftRight_add, shift_xor_and]

/-- **The checksum that was appended is accepted.**

**Proof sketch.** Six zeros in the place of the checksum give some value; the six numbers of the checksum add to it
what they spell, which is the difference to the value that is asked for. -/
theorem bech32VerifyChecksum_create (hrp : List Char) (data : List ℕ) :
    bech32VerifyChecksum hrp (data ++ bech32CreateChecksum hrp data) = true := by
  unfold bech32VerifyChecksum bech32CreateChecksum bech32Polymod
  rw [decide_eq_true_iff]
  simp only [List.foldl_append, List.foldl_cons, List.foldl_nil]
  generalize List.foldl polymodStep (List.foldl polymodStep 1 (bech32HrpExpand hrp)) data = a
  have hlt : polymodStep (polymodStep (polymodStep (polymodStep (polymodStep (polymodStep a 0) 0) 0) 0) 0) 0
      < 2 ^ 30 := polymodStep_lt _ (by norm_num)
  generalize hp : polymodStep (polymodStep (polymodStep (polymodStep (polymodStep (polymodStep a 0) 0) 0) 0) 0) 0
    = p at hlt ⊢
  have hq : p ^^^ bech32M < 2 ^ 30 := Nat.xor_lt_two_pow hlt (by decide)
  have hzero : (p ^^^ bech32M) >>> 30 = 0 := by
    rw [Nat.shiftRight_eq_div_pow]
    exact Nat.div_eq_of_lt hq
  have hdigit : ∀ n chk, polymodStep (chk ^^^ ((p ^^^ bech32M) >>> (n + 5))) (((p ^^^ bech32M) >>> n) &&& 31) =
      polymodStep chk 0 ^^^ ((p ^^^ bech32M) >>> n) := fun n chk =>
    polymodStep_digit chk (lt_of_lt_of_le hq (Nat.pow_le_pow_right (by norm_num) (by omega)))
  show List.foldl polymodStep a [((p ^^^ bech32M) >>> 25) &&& 31, ((p ^^^ bech32M) >>> 20) &&& 31,
    ((p ^^^ bech32M) >>> 15) &&& 31, ((p ^^^ bech32M) >>> 10) &&& 31, ((p ^^^ bech32M) >>> 5) &&& 31,
    ((p ^^^ bech32M) >>> 0) &&& 31] = bech32M
  have hfirst : a = a ^^^ ((p ^^^ bech32M) >>> 30) := by rw [hzero, Nat.xor_zero]
  rw [List.foldl_cons, List.foldl_cons, List.foldl_cons, List.foldl_cons, List.foldl_cons, List.foldl_cons,
    List.foldl_nil, hfirst, hdigit 25, hdigit 20, hdigit 15, hdigit 10, hdigit 5, hdigit 0, hp,
    Nat.shiftRight_zero, ← Nat.xor_assoc, Nat.xor_self, Nat.zero_xor]

/-! ## The text -/

/-- `bech32_encode`. -/
def bech32Encode (hrp : List Char) (data : List ℕ) : Except PyError (List Char) := do
  let chars ← (data ++ bech32CreateChecksum hrp data).mapM (pyIndex CHARSET)
  pure (hrp ++ '1' :: chars)

/-- `bech.rfind(c)`. -/
def rfind (l : List Char) (c : Char) : Option ℕ :=
  if c ∈ l then some (l.length - 1 - l.reverse.idxOf c) else none

/-- `bech32_decode`, of a text in lower case. -/
def bech32DecodeLower (bech : List Char) (maxLength : ℕ) : Option (List Char × List ℕ) := do
  let pos ← rfind bech '1'
  if pos < 1 ∨ pos + 7 > bech.length ∨ bech.length > maxLength then none
  else if ¬(bech.drop (pos + 1)).all (fun x => x ∈ CHARSET) then none
  else if bech32VerifyChecksum (bech.take pos) ((bech.drop (pos + 1)).map CHARSET.idxOf) then
    some (bech.take pos, ((bech.drop (pos + 1)).map CHARSET.idxOf).take (bech.length - (pos + 1) - 6))
  else none

/-- `bech32_decode`. -/
def bech32Decode (bech : List Char) (maxLength : ℕ) : Option (List Char × List ℕ) :=
  if bech.any (fun x => x.toNat < 33 ∨ 126 < x.toNat) ∨
      bech.map Char.toLower ≠ bech ∧ bech.map Char.toUpper ≠ bech then none
  else bech32DecodeLower (bech.map Char.toLower) maxLength

lemma rfind_append {l l' : List Char} {c : Char} (h : c ∉ l') : rfind (l ++ c :: l') c = some l.length := by
  have hidx : (l ++ c :: l').reverse.idxOf c = l'.length := by
    rw [List.reverse_append, List.reverse_cons, List.append_assoc, List.idxOf_append_of_notMem (by simpa using h),
      List.length_reverse, List.singleton_append, List.idxOf_cons_self, Nat.add_zero]
  rw [rfind, if_pos (by simp), hidx, List.length_append, List.length_cons]
  congr 1
  omega

lemma exists_mapM_charset (h : ∀ d ∈ data, d < 32) :
    ∃ chars, data.mapM (pyIndex CHARSET) = .ok chars ∧ (∀ x ∈ chars, x ∈ CHARSET) ∧
      chars.map CHARSET.idxOf = data ∧ chars.length = data.length := by
  have hfound : ∀ d < 32, CHARSET[d]? = some (CHARSET.getD d '1') ∧ CHARSET.idxOf (CHARSET.getD d '1') = d := by
    decide +kernel
  have hset : ∀ d < 32, ∃ x, pyIndex CHARSET d = .ok x ∧ x ∈ CHARSET ∧ CHARSET.idxOf x = d := by
    intro d hd
    obtain ⟨hget, hidx⟩ := hfound d hd
    exact ⟨_, by rw [pyIndex, hget], List.mem_of_getElem? hget, hidx⟩
  induction data with
  | nil => exact ⟨[], rfl, by simp, rfl, rfl⟩
  | cons d data ih =>
    obtain ⟨x, hx, hmem, hidx⟩ := hset d (h d List.mem_cons_self)
    obtain ⟨chars, hchars, hall, hback, hlen⟩ := ih fun e he => h e (List.mem_cons_of_mem _ he)
    refine ⟨x :: chars, by rw [List.mapM_cons, hx, ok_bind, hchars, ok_bind]; rfl, ?_, ?_, ?_⟩
    · intro y hy
      rcases List.mem_cons.mp hy with rfl | hy
      · exact hmem
      · exact hall y hy
    · rw [List.map_cons, hidx, hback]
    · rw [List.length_cons, List.length_cons, hlen]

lemma of_mem_charset : ∀ x ∈ CHARSET, 33 ≤ x.toNat ∧ x.toNat ≤ 126 ∧ x.toLower = x ∧ x ≠ '1' := by
  have hall : CHARSET.all (fun x => decide (33 ≤ x.toNat ∧ x.toNat ≤ 126 ∧ x.toLower = x ∧ x ≠ '1')) = true := by
    decide +kernel
  intro x hx
  exact of_decide_eq_true (List.all_eq_true.mp hall x hx)

/-- A prefix of a text that is decoded: characters in lower case. -/
structure HrpOk (hrp : List Char) : Prop where
  ne_nil : hrp ≠ []
  printable : ∀ x ∈ hrp, 33 ≤ x.toNat ∧ x.toNat ≤ 126
  lower : ∀ x ∈ hrp, x.toLower = x

/-- **A text is decoded to what it was encoded from**, if it may be as long as it is. -/
theorem bech32Decode_encode {hrp : List Char} (hhrp : HrpOk hrp) (h : ∀ d ∈ data, d < 32) :
    ∃ bech, bech32Encode hrp data = .ok bech ∧ bech32Decode bech bech.length = some (hrp, data) := by
  have hfive : ∀ d ∈ data ++ bech32CreateChecksum hrp data, d < 32 := by
    intro d hd
    rcases List.mem_append.mp hd with hd | hd
    · exact h d hd
    · obtain ⟨i, -, rfl⟩ := List.mem_map.mp hd
      exact Nat.and_lt_two_pow _ (by norm_num : 31 < 2 ^ 5)
  obtain ⟨chars, hchars, hall, hback, hlen⟩ := exists_mapM_charset hfive
  have hsum : chars.length = data.length + 6 := by
    rw [hlen, List.length_append, bech32CreateChecksum, fiveBits, List.length_map, List.length_range]
  have hcharset : ∀ x ∈ CHARSET, 33 ≤ x.toNat ∧ x.toNat ≤ 126 ∧ x.toLower = x ∧ x ≠ '1' := of_mem_charset
  have hone : '1' ∉ chars := fun hmem => (hcharset _ (hall _ hmem)).2.2.2 rfl
  -- every character is printable and in lower case
  have htext : ∀ x ∈ hrp ++ '1' :: chars, (33 ≤ x.toNat ∧ x.toNat ≤ 126) ∧ x.toLower = x := by
    intro x hx
    rcases List.mem_append.mp hx with hx | hx
    · exact ⟨hhrp.printable x hx, hhrp.lower x hx⟩
    · rcases List.mem_cons.mp hx with rfl | hx
      · decide
      · obtain ⟨hlo, hhi, hlower, -⟩ := hcharset x (hall x hx)
        exact ⟨⟨hlo, hhi⟩, hlower⟩
  have hlower : (hrp ++ '1' :: chars).map Char.toLower = hrp ++ '1' :: chars :=
    List.map_congr_left (fun x hx => (htext x hx).2) |>.trans (List.map_id _)
  have hany : (hrp ++ '1' :: chars).any (fun x => x.toNat < 33 ∨ 126 < x.toNat) = false := by
    rw [List.any_eq_false]
    intro x hx
    have := (htext x hx).1
    simp only [decide_eq_true_eq, not_or]
    omega
  have hpos : 0 < hrp.length := List.length_pos_iff.mpr hhrp.ne_nil
  refine ⟨hrp ++ '1' :: chars, by rw [bech32Encode, hchars, ok_bind]; rfl, ?_⟩
  rw [bech32Decode, if_neg (by rw [hany, hlower]; simp), hlower, bech32DecodeLower, rfind_append hone]
  have hdrop : (hrp ++ '1' :: chars).drop (hrp.length + 1) = chars := by simp
  have htake : (hrp ++ '1' :: chars).take hrp.length = hrp := by simp
  have hcount : (hrp ++ '1' :: chars).length = hrp.length + 1 + chars.length := by
    rw [List.length_append, List.length_cons]
    omega
  rw [Option.bind_eq_bind, Option.bind_some, if_neg (by omega), hdrop, htake, hback, bech32VerifyChecksum_create,
    if_neg (not_not.mpr (List.all_eq_true.mpr fun x hx => decide_eq_true (hall x hx))), if_pos rfl, hcount, hsum,
    Nat.add_sub_cancel_left, Nat.add_sub_cancel, List.take_left]

end Chives
