import Chives.Types.SizedBytes
import Chives.Util.Bech32m

set_option autoImplicit false

/-!
# Addresses

`encode_puzzle_hash` and `decode_puzzle_hash` of `util/bech32m.py`: puzzle hashes as texts.

## Main definitions

* `encodePuzzleHash`, `decodePuzzleHash` — the address of a puzzle hash, and back.
* `AddressPrefix` — the prefixes that an address can have.

## Main results

* `convertbits_of_convertbits` — numbers that were regrouped without padding come back with padding.
* `eq_create_of_verify` — no other checksum is accepted than the one that is appended.
* `bech32Decode_burst` — up to six consecutive characters that are changed are noticed.
* `encodePuzzleHash_of_decode` — what is decoded is encoded to the same text in lower case.
* `puzzleHash_bijection` — addresses and puzzle hashes belong to each other.
-/

namespace Chives

open ExceptRun

/-! ## Definitions -/

/-- `encode_puzzle_hash`. -/
def encodePuzzleHash (puzzleHash : Bytes32) (hrp : List Char) : Except PyError (List Char) := do
  let data ← convertbits (puzzleHash.bytes.map UInt8.toNat) 8 5 true
  bech32Encode hrp data

/-- `decode_puzzle_hash`. -/
def decodePuzzleHash (address : List Char) : Except PyError Bytes32 :=
  match bech32Decode address 90 with
  | none => .error .valueError
  | some (_, data) => do
    let decoded ← convertbits data 5 8 false
    let decodedBytes ← bytesOfNumbers decoded
    Bytes32.new decodedBytes

/-- A prefix of an address: 1 to 31 printable characters that are not upper-case letters. -/
structure AddressPrefix (hrp : List Char) : Prop extends HrpOk hrp where
  length_le : hrp.length ≤ 31

/-! ## Regrouping without padding -/

section Regrouping

variable {frombits tobits : ℕ} {data grouped : List ℕ}

lemma length_of_convertbits (hto : 0 < tobits) (hdata : ∀ v ∈ data, v < 2 ^ frombits)
    (h : convertbits data frombits tobits true = .ok grouped) :
    ∃ pad < tobits, tobits * grouped.length = frombits * data.length + pad := by
  obtain ⟨s, hs, hholds⟩ := exists_foldlM_takeValue tobits hto hdata
  obtain ⟨pad, hpad, -, hcount, -⟩ := hholds.padded
  rw [convertbits, hs, ok_bind] at h
  obtain rfl : padded tobits s = grouped := Except.ok.inj h
  exact ⟨pad, hpad, hcount⟩

/-- **Regrouping without padding, and back.** The bits that were left over are fewer than a number has, and zero, so that the
padding brings them back.

**Proof sketch.** The left-over bits and the padding complete the same number of bits to a multiple of the smaller
size, so that they are as many. -/
theorem convertbits_of_convertbits (hfrom : 0 < frombits) (hle : frombits ≤ tobits)
    (hdata : ∀ v ∈ data, v < 2 ^ frombits) (h : convertbits data frombits tobits false = .ok grouped) :
    (∀ d ∈ grouped, d < 2 ^ tobits) ∧ convertbits grouped tobits frombits true = .ok data := by
  have hto : 0 < tobits := by omega
  obtain ⟨s, hs, hholds⟩ := exists_foldlM_takeValue tobits hto hdata
  rw [convertbits, hs, ok_bind, if_neg (by decide), shift_mask hholds.bits_lt.le] at h
  split at h
  · cases h
  next hleft =>
  obtain ⟨hbits, hzero⟩ := not_or.mp hleft
  have hlow : s.acc % 2 ^ s.bits = 0 := by
    have hpos : 0 < 2 ^ (tobits - s.bits) := by positivity
    exact (Nat.mul_eq_zero.mp (not_not.mp hzero)).resolve_right hpos.ne'
  obtain rfl : s.ret = grouped := Except.ok.inj h
  obtain ⟨s', hs', hback⟩ := exists_foldlM_takeValue frombits hfrom hholds.ret_lt
  obtain ⟨pad, hpad, hvalue, hcount, hdigits⟩ := hback.padded
  refine ⟨hholds.ret_lt, ?_⟩
  rw [convertbits, hs', ok_bind]
  show Except.ok (padded frombits s') = .ok data
  have hsame : frombits * data.length + pad = frombits * (padded frombits s').length + s.bits := by
    rw [hcount, hholds.count]
    ring
  obtain ⟨hlength, hpadbits⟩ := eq_of_mul_add hpad (Nat.not_le.mp hbits) hsame
  congr 1
  refine (eq_of_bitValue hfrom hlength hdata hdigits ?_).symm
  rw [hvalue, hholds.value, hlow, hpadbits, Nat.add_zero]

end Regrouping

/-! ## The only checksum -/

section Checksum

variable {hrp : List Char} {data check : List ℕ}

lemma shift_xor_eq (n : ℕ) {d : ℕ} (hd : d < 32) : (n <<< 5) ^^^ d = n * 32 + d := by
  have h := shift_xor_and (n * 32 + d)
  have hshift : (n * 32 + d) >>> 5 = n := by
    rw [Nat.shiftRight_eq_div_pow]
    omega
  have hand : (n * 32 + d) &&& 31 = d := by
    rw [show (31 : ℕ) = 2 ^ 5 - 1 from rfl, Nat.and_two_pow_sub_one_eq_mod]
    omega
  rwa [hshift, hand] at h

/-- The number that digits of five bits spell after another number. -/
def spell (n : ℕ) (digits : List ℕ) : ℕ := digits.foldl (fun n d => n * 32 + d) n

lemma eq_of_spell {digits digits' : List ℕ} {n n' : ℕ} (hlength : digits.length = digits'.length)
    (hdigits : ∀ d ∈ digits, d < 32) (hdigits' : ∀ d ∈ digits', d < 32) (h : spell n digits = spell n' digits') :
    n = n' ∧ digits = digits' := by
  induction digits generalizing digits' n n' with
  | nil =>
    obtain rfl := List.length_eq_zero_iff.mp hlength.symm
    exact ⟨h, rfl⟩
  | cons d digits ih =>
    cases digits' with
    | nil => simp at hlength
    | cons d' digits' =>
      rw [List.forall_mem_cons] at hdigits hdigits'
      obtain ⟨hsame, rfl⟩ := ih (by simpa using hlength) hdigits.2 hdigits'.2 h
      have hd := hdigits.1
      have hd' := hdigits'.1
      have hsame : n * 32 + d = n' * 32 + d' := hsame
      obtain ⟨rfl, rfl⟩ : n = n' ∧ d = d' := by omega
      exact ⟨rfl, rfl⟩

/-- **Digits add what they spell** to the checksum that zeros in their places give, up to six digits.

**Proof sketch.** Induction on the digits: before each round the difference is the number that was spelled so far, which is
short enough to go through the round. -/
lemma foldl_polymodStep_digits {digits : List ℕ} {m n : ℕ} (a : ℕ) (hcount : digits.length + m = 6)
    (hdigits : ∀ d ∈ digits, d < 32) (hn : n < 32 ^ m) : digits.foldl polymodStep (a ^^^ n) =
      (List.replicate digits.length 0).foldl polymodStep a ^^^ spell n digits := by
  induction digits generalizing a m n with
  | nil => rfl
  | cons d digits ih =>
    rw [List.forall_mem_cons] at hdigits
    rw [List.length_cons] at hcount
    have hshort : n < 2 ^ 25 := by
      have hle : 32 ^ m ≤ 32 ^ 5 := Nat.pow_le_pow_right (by norm_num) (by omega)
      have hpow : 32 ^ 5 = 2 ^ 25 := by norm_num
      omega
    have hstep := polymodStep_xor a 0 d hshort
    rw [Nat.zero_xor, shift_xor_eq n hdigits.1] at hstep
    have hnext : n * 32 + d < 32 ^ (m + 1) := by
      have hd := hdigits.1
      rw [pow_succ]
      omega
    rw [List.foldl_cons, hstep, ih (polymodStep a 0) (by omega) hdigits.2 hnext]
    rfl

lemma length_create (hrp : List Char) (data : List ℕ) : (bech32CreateChecksum hrp data).length = 6 := by
  simp [bech32CreateChecksum, fiveBits]

lemma lt_of_mem_create {d : ℕ} (h : d ∈ bech32CreateChecksum hrp data) : d < 32 := by
  obtain ⟨i, -, rfl⟩ := List.mem_map.mp h
  exact Nat.and_lt_two_pow _ (by norm_num : 31 < 2 ^ 5)

lemma verify_iff_spell (hlength : check.length = 6) (hcheck : ∀ d ∈ check, d < 32) :
    bech32VerifyChecksum hrp (data ++ check) = true ↔
      (List.replicate 6 0).foldl polymodStep (bech32Polymod (bech32HrpExpand hrp ++ data)) ^^^ spell 0 check = bech32M := by
  have h := foldl_polymodStep_digits (bech32Polymod (bech32HrpExpand hrp ++ data)) (m := 0) (n := 0) (by omega) hcheck
    (by norm_num)
  rw [Nat.xor_zero, hlength] at h
  rw [← h, bech32VerifyChecksum, decide_eq_true_iff, ← List.append_assoc]
  unfold bech32Polymod
  rw [List.foldl_append]

/-- **No other checksum is accepted** than the one that is appended. -/
theorem eq_create_of_verify (hlength : check.length = 6) (hcheck : ∀ d ∈ check, d < 32)
    (h : bech32VerifyChecksum hrp (data ++ check) = true) : check = bech32CreateChecksum hrp data := by
  have hcreate : ∀ d ∈ bech32CreateChecksum hrp data, d < 32 := fun d hd => lt_of_mem_create hd
  have hspell := (verify_iff_spell hlength hcheck).mp h
  rw [← (verify_iff_spell (length_create hrp data) hcreate).mp (bech32VerifyChecksum_create hrp data)] at hspell
  exact (eq_of_spell (hlength.trans (length_create hrp data).symm) hcheck hcreate (Nat.xor_right_injective hspell)).2

lemma addGenerators_mod_inj : ∀ s < 32, ∀ t < 32, addGenerators s 0 % 32 = addGenerators t 0 % 32 → s = t := by
  decide +kernel

lemma polymodStep_left_inj {a b value : ℕ} (ha : a < 2 ^ 30) (hb : b < 2 ^ 30)
    (h : polymodStep a value = polymodStep b value) : a = b := by
  have hround (c : ℕ) : polymodStep c value = (addGenerators (c >>> 25) 0 ^^^ ((c &&& 0x1FFFFFF) <<< 5)) ^^^ value := by
    have hsplit := addGenerators_xor (c >>> 25) 0 (((c &&& 0x1FFFFFF) <<< 5) ^^^ value)
    rw [Nat.zero_xor] at hsplit
    rw [polymodStep, hsplit, Nat.xor_assoc]
  rw [hround, hround] at h
  have hxor := Nat.xor_left_injective h
  have hlow (t n : ℕ) : (t ^^^ (n <<< 5)) % 32 = t % 32 := by
    rw [show (32 : ℕ) = 2 ^ 5 from rfl, Nat.xor_mod_two_pow, Nat.shiftLeft_eq, Nat.mul_mod_left, Nat.xor_zero]
  have htop : a >>> 25 = b >>> 25 := by
    apply addGenerators_mod_inj
    · rw [Nat.shiftRight_eq_div_pow]
      omega
    · rw [Nat.shiftRight_eq_div_pow]
      omega
    · rw [← hlow _ (a &&& 0x1FFFFFF), hxor, hlow]
  rw [htop] at hxor
  have hrest := Nat.xor_right_injective hxor
  rw [show (0x1FFFFFF : ℕ) = 2 ^ 25 - 1 from rfl, Nat.and_two_pow_sub_one_eq_mod, Nat.and_two_pow_sub_one_eq_mod,
    Nat.shiftLeft_eq, Nat.shiftLeft_eq] at hrest
  rw [Nat.shiftRight_eq_div_pow, Nat.shiftRight_eq_div_pow] at htop
  omega

lemma eq_of_foldl_polymodStep {digits : List ℕ} {a b : ℕ} (ha : a < 2 ^ 30) (hb : b < 2 ^ 30)
    (hdigits : ∀ d ∈ digits, d < 32) (h : digits.foldl polymodStep a = digits.foldl polymodStep b) : a = b := by
  induction digits generalizing a b with
  | nil => exact h
  | cons d digits ih =>
    rw [List.forall_mem_cons] at hdigits
    have hd : d < 2 ^ 30 := by
      have := hdigits.1
      omega
    exact polymodStep_left_inj ha hb (ih (polymodStep_lt a hd) (polymodStep_lt b hd) hdigits.2 h)

lemma eq_of_verify {before part part' after : List ℕ} (hlength : part.length = part'.length) (hshort : part.length ≤ 6)
    (hpart : ∀ d ∈ part, d < 32) (hpart' : ∀ d ∈ part', d < 32) (hafter : ∀ d ∈ after, d < 32)
    (h : bech32VerifyChecksum hrp (before ++ part ++ after) = true)
    (h' : bech32VerifyChecksum hrp (before ++ part' ++ after) = true) : part = part' := by
  rcases List.eq_nil_or_concat part with rfl | ⟨l, d, rfl⟩
  · exact (List.length_eq_zero_iff.mp hlength.symm).symm
  rcases List.eq_nil_or_concat part' with rfl | ⟨l', d', rfl⟩
  · simp at hlength
  unfold bech32VerifyChecksum bech32Polymod at h h'
  rw [decide_eq_true_iff, ← List.append_assoc, ← List.append_assoc, List.foldl_append, List.foldl_append] at h h'
  generalize (bech32HrpExpand hrp ++ before).foldl polymodStep 1 = a at h h'
  have hlt (l : List ℕ) {d : ℕ} (hd : d < 32) : (l.concat d).foldl polymodStep a < 2 ^ 30 := by
    rw [List.concat_eq_append, List.foldl_concat]
    exact polymodStep_lt _ (by omega)
  have hsame := eq_of_foldl_polymodStep (hlt l (hpart d (by simp))) (hlt l' (hpart' d' (by simp))) hafter
    (h.trans h'.symm)
  have hdigits {digits : List ℕ} (hle : digits.length ≤ 6) (hall : ∀ d ∈ digits, d < 32) :=
    foldl_polymodStep_digits a (Nat.add_sub_of_le hle) hall (Nat.pow_pos (by norm_num : 0 < 32))
  have hleft := hdigits hshort hpart
  have hright := hdigits (hlength ▸ hshort) hpart'
  rw [Nat.xor_zero] at hleft hright
  rw [hleft, hright, hlength] at hsame
  exact (eq_of_spell hlength hpart hpart' (Nat.xor_right_injective hsame)).2

end Checksum

/-! ## Texts -/

section Texts

variable {hrp chars : List Char} {data : List ℕ}

lemma length_of_bech32Encode {bech : List Char} (hdata : ∀ d ∈ data, d < 32) (h : bech32Encode hrp data = .ok bech) :
    bech.length = hrp.length + data.length + 7 := by
  have hfive : ∀ d ∈ data ++ bech32CreateChecksum hrp data, d < 32 := by
    intro d hd
    rcases List.mem_append.mp hd with hd | hd
    · exact hdata d hd
    · exact lt_of_mem_create hd
  obtain ⟨chars, hchars, -, -, hlength⟩ := exists_mapM_charset hfive
  rw [bech32Encode, hchars, ok_bind] at h
  obtain rfl : hrp ++ '1' :: chars = bech := Except.ok.inj h
  simp only [List.length_append, List.length_cons, hlength, length_create]
  omega

lemma bech32Decode_of_le {bech : List Char} {n m : ℕ} (hle : n ≤ m) {r : List Char × List ℕ}
    (h : bech32Decode bech n = some r) : bech32Decode bech m = some r := by
  unfold bech32Decode at h ⊢
  split at h
  · cases h
  next hchars =>
  rw [if_neg hchars]
  unfold bech32DecodeLower at h ⊢
  cases hpos : rfind (bech.map Char.toLower) '1' with
  | none =>
    rw [hpos] at h
    cases h
  | some pos =>
    rw [hpos, Option.bind_eq_bind, Option.bind_some] at h
    rw [Option.bind_eq_bind, Option.bind_some]
    split at h
    · cases h
    next hlength => rwa [if_neg (by omega)]

lemma mapM_charset (h : ∀ x ∈ chars, x ∈ CHARSET) : (chars.map CHARSET.idxOf).mapM (pyIndex CHARSET) = .ok chars := by
  induction chars with
  | nil => rfl
  | cons x chars ih =>
    rw [List.forall_mem_cons] at h
    have hidx : pyIndex CHARSET (CHARSET.idxOf x) = .ok x := by
      rw [pyIndex, List.getElem?_eq_getElem (List.idxOf_lt_length_of_mem h.1), List.getElem_idxOf]
    rw [List.map_cons, List.mapM_cons, hidx, ok_bind, ih h.2, ok_bind]
    rfl

lemma eq_of_rfind {l : List Char} {c : Char} {pos : ℕ} (h : rfind l c = some pos) :
    pos < l.length ∧ l = l.take pos ++ c :: l.drop (pos + 1) := by
  unfold rfind at h
  split at h
  swap
  · cases h
  next hmem =>
  have hidx : l.reverse.idxOf c < l.reverse.length := List.idxOf_lt_length_of_mem (List.mem_reverse.mpr hmem)
  have hget := List.getElem_idxOf hidx
  rw [List.getElem_reverse] at hget
  rw [List.length_reverse] at hidx
  obtain rfl := Option.some.inj h
  have hlt : l.length - 1 - l.reverse.idxOf c < l.length := by omega
  refine ⟨hlt, ?_⟩
  conv_lhs => rw [← List.take_append_drop (l.length - 1 - l.reverse.idxOf c) l]
  rw [List.drop_eq_getElem_cons hlt, hget]

/-- **A text that is decoded** is in lower case what its prefix and its data are encoded to.

**Proof sketch.** The characters after the last separator are those of the data and of six digits that are accepted,
and no other digits are than those that are appended. -/
theorem bech32Encode_of_decode {bech : List Char} {maxLength : ℕ} (h : bech32Decode bech maxLength = some (hrp, data)) :
    (∀ d ∈ data, d < 32) ∧ bech32Encode hrp data = .ok (bech.map Char.toLower) := by
  unfold bech32Decode at h
  split at h
  · cases h
  generalize bech.map Char.toLower = text at h ⊢
  unfold bech32DecodeLower at h
  cases hpos : rfind text '1' with
  | none =>
    rw [hpos] at h
    cases h
  | some pos =>
    rw [hpos, Option.bind_eq_bind, Option.bind_some] at h
    obtain ⟨hlt, hsplit⟩ := eq_of_rfind hpos
    split at h
    · cases h
    next hlength =>
    split at h
    · cases h
    next hset =>
    split at h
    swap
    · cases h
    next hverify =>
    obtain ⟨rfl, rfl⟩ := Prod.mk.inj (Option.some.inj h)
    have hset : ∀ x ∈ text.drop (pos + 1), x ∈ CHARSET := fun x hx =>
      of_decide_eq_true (List.all_eq_true.mp (not_not.mp hset) x hx)
    have hdigits : ∀ d ∈ (text.drop (pos + 1)).map CHARSET.idxOf, d < 32 := by
      intro d hd
      obtain ⟨x, hx, rfl⟩ := List.mem_map.mp hd
      exact List.idxOf_lt_length_of_mem (hset x hx)
    have hcount : ((text.drop (pos + 1)).map CHARSET.idxOf).length = text.length - (pos + 1) := by simp
    generalize hnumbers : (text.drop (pos + 1)).map CHARSET.idxOf = numbers at hverify hdigits hcount ⊢
    generalize hk : text.length - (pos + 1) - 6 = k
    have hcheck : numbers.drop k = bech32CreateChecksum (text.take pos) (numbers.take k) := by
      apply eq_create_of_verify
      · rw [List.length_drop]
        omega
      · exact fun d hd => hdigits d (List.mem_of_mem_drop hd)
      · rwa [List.take_append_drop]
    refine ⟨fun d hd => hdigits d (List.mem_of_mem_take hd), ?_⟩
    rw [bech32Encode, ← hcheck, List.take_append_drop, ← hnumbers, mapM_charset hset, ok_bind]
    exact congrArg Except.ok hsplit.symm

lemma verify_of_decode {maxLength : ℕ} {r : List Char × List ℕ} (hset : ∀ x ∈ chars, x.toLower ∈ CHARSET)
    (h : bech32Decode (hrp ++ '1' :: chars) maxLength = some r) :
    bech32VerifyChecksum (hrp.map Char.toLower) (chars.map fun x => CHARSET.idxOf x.toLower) = true := by
  unfold bech32Decode at h
  split at h
  · cases h
  have hone : '1' ∉ chars.map Char.toLower := by
    intro hmem
    obtain ⟨x, hx, hlower⟩ := List.mem_map.mp hmem
    exact (of_mem_charset _ (hset x hx)).2.2.2 hlower
  rw [List.map_append, List.map_cons, show '1'.toLower = '1' from by decide, bech32DecodeLower, rfind_append hone,
    Option.bind_eq_bind, Option.bind_some] at h
  split at h
  · cases h
  split at h
  · cases h
  split at h
  swap
  · cases h
  next hverify =>
  have hdrop (l l' : List Char) : (l ++ '1' :: l').drop (l.length + 1) = l' := by simp
  rw [List.take_left, hdrop, List.map_map] at hverify
  exact hverify

/-- **A burst of errors is refused**: of two texts that differ in up to six consecutive characters after the prefix,
at most one is decoded.

**Proof sketch.** Different digits in one place leave different values of the checksum, and the rounds over the digits
that follow keep them apart. -/
theorem bech32Decode_burst {before part part' after : List Char} {maxLength maxLength' : ℕ} {r : List Char × List ℕ}
    (hset : ∀ x ∈ before ++ part ++ part' ++ after, x.toLower ∈ CHARSET) (hlength : part.length = part'.length)
    (hshort : part.length ≤ 6) (hne : part.map Char.toLower ≠ part'.map Char.toLower)
    (h : bech32Decode (hrp ++ '1' :: (before ++ part ++ after)) maxLength = some r) :
    bech32Decode (hrp ++ '1' :: (before ++ part' ++ after)) maxLength' = none := by
  refine Option.eq_none_iff_forall_not_mem.mpr fun r' h' => hne ?_
  have hverify := verify_of_decode (fun x hx => hset x (by simp at hx ⊢; tauto)) h
  have hverify' := verify_of_decode (fun x hx => hset x (by simp at hx ⊢; tauto)) h'
  simp only [List.map_append] at hverify hverify'
  have hlt {l : List Char} (hl : ∀ x ∈ l, x ∈ before ++ part ++ part' ++ after) :
      ∀ d ∈ l.map (fun x => CHARSET.idxOf x.toLower), d < 32 := by
    intro d hd
    obtain ⟨x, hx, rfl⟩ := List.mem_map.mp hd
    exact List.idxOf_lt_length_of_mem (hset x (hl x hx))
  have hsame := eq_of_verify (by simpa using hlength) (by simpa using hshort) (hlt fun x hx => by simp [hx])
    (hlt fun x hx => by simp [hx]) (hlt fun x hx => by simp [hx]) hverify hverify'
  -- the numbers are those of the characters in lower case
  have hback (l : List Char) (hl : ∀ x ∈ l, x ∈ before ++ part ++ part' ++ after) :
      (l.map fun x => CHARSET.idxOf x.toLower).mapM (pyIndex CHARSET) = .ok (l.map Char.toLower) := by
    have hmem : ∀ y ∈ l.map Char.toLower, y ∈ CHARSET := by
      intro y hy
      obtain ⟨x, hx, rfl⟩ := List.mem_map.mp hy
      exact hset x (hl x hx)
    have hnumbers := mapM_charset hmem
    rwa [List.map_map] at hnumbers
  have hleft := hback part fun x hx => by simp [hx]
  rw [hsame, hback part' fun x hx => by simp [hx]] at hleft
  exact (Except.ok.inj hleft).symm

theorem bech32Decode_burst_sample : bech32Decode "a1lqfq3a".toList 90 = none :=
  show bech32Decode (['a'] ++ '1' :: (['l', 'q', 'f'] ++ ['q'] ++ ['3', 'a'])) 90 = none from
    @bech32Decode_burst ['a'] ['l', 'q', 'f'] ['n'] ['q'] ['3', 'a'] 90 90 (['a'], [])
      (fun x hx => of_decide_eq_true (List.all_eq_true.mp (by decide +kernel : ['l', 'q', 'f', 'n', 'q', '3', 'a'].all
        (fun x => decide (x.toLower ∈ CHARSET)) = true) x hx)) rfl (by decide) (by decide) (by decide +kernel)

end Texts

/-! ## Puzzle hashes -/

section PuzzleHashes

variable {hrp address address' : List Char} {puzzleHash : Bytes32}

/-- **A puzzle hash is decoded from its address.** -/
theorem decodePuzzleHash_encode (puzzleHash : Bytes32) (hhrp : AddressPrefix hrp) :
    ∃ address, encodePuzzleHash puzzleHash hrp = .ok address ∧ decodePuzzleHash address = .ok puzzleHash := by
  have hnumbers : ∀ n ∈ puzzleHash.bytes.map UInt8.toNat, n < 2 ^ 8 := by
    intro n hn
    obtain ⟨x, -, rfl⟩ := List.mem_map.mp hn
    exact x.toNat_lt
  obtain ⟨data, hdata, hfive, hback⟩ := convertbits_convertbits (by norm_num : 0 < 5) (by norm_num) hnumbers
  obtain ⟨pad, hpad, hcount⟩ := length_of_convertbits (by norm_num) hnumbers hdata
  obtain ⟨address, haddress, hdecode⟩ := bech32Decode_encode hhrp.toHrpOk hfive
  rw [List.length_map, puzzleHash.length_eq] at hcount
  have hlength := length_of_bech32Encode hfive haddress
  have hshort := hhrp.length_le
  refine ⟨address, by rw [encodePuzzleHash, hdata, ok_bind, haddress], ?_⟩
  simp only [decodePuzzleHash, bech32Decode_of_le (show address.length ≤ 90 by omega) hdecode, hback, ok_bind,
    bytesOfNumbers_map]
  rw [Bytes32.new, dif_pos puzzleHash.length_eq]

lemma eq_map_of_bytesOfNumbers {data : List ℕ} {b : Bytes} (h : bytesOfNumbers data = .ok b) :
    b.map UInt8.toNat = data := by
  unfold bytesOfNumbers at h
  induction data generalizing b with
  | nil =>
    cases h
    rfl
  | cons n data ih =>
    rw [List.mapM_cons] at h
    obtain ⟨x, hx, h⟩ := bind_eq_ok.mp h
    obtain ⟨rest, hrest, h⟩ := bind_eq_ok.mp h
    cases h
    split at hx
    next hlt =>
      cases hx
      rw [List.map_cons, ih hrest, UInt8.toNat_ofNat_of_lt' hlt]
    next => cases hx

/-- **What is decoded is encoded to the same address** in lower case. -/
theorem encodePuzzleHash_of_decode (h : decodePuzzleHash address = .ok puzzleHash) :
    ∃ hrp data, bech32Decode address 90 = some (hrp, data) ∧
      encodePuzzleHash puzzleHash hrp = .ok (address.map Char.toLower) := by
  unfold decodePuzzleHash at h
  split at h
  · cases h
  next hrp data hdecode =>
  refine ⟨hrp, data, hdecode, ?_⟩
  obtain ⟨hfive, hencode⟩ := bech32Encode_of_decode hdecode
  obtain ⟨decoded, hdecoded, h⟩ := bind_eq_ok.mp h
  obtain ⟨b, hb, h⟩ := bind_eq_ok.mp h
  obtain ⟨-, hback⟩ := convertbits_of_convertbits (by norm_num) (by norm_num) hfive hdecoded
  have hbytes : puzzleHash.bytes = b := by
    unfold Bytes32.new at h
    split at h
    · cases h
      rfl
    · cases h
  rw [encodePuzzleHash, hbytes, eq_map_of_bytesOfNumbers hb, hback, ok_bind, hencode]

/-- **Addresses and puzzle hashes belong to each other**: a puzzle hash is decoded from its address, for every prefix that an
address can have; an address that is decoded is what its puzzle hash is encoded to, in lower case; and no two addresses in lower
case with the same prefix have the same puzzle hash. -/
theorem puzzleHash_bijection :
    (∀ (puzzleHash : Bytes32) (hrp : List Char), AddressPrefix hrp →
      ∃ address, encodePuzzleHash puzzleHash hrp = .ok address ∧ decodePuzzleHash address = .ok puzzleHash) ∧
    (∀ address puzzleHash, decodePuzzleHash address = .ok puzzleHash →
      ∃ hrp data, bech32Decode address 90 = some (hrp, data) ∧
        encodePuzzleHash puzzleHash hrp = .ok (address.map Char.toLower)) ∧
    ∀ address address' puzzleHash hrp data data', address.map Char.toLower = address →
      address'.map Char.toLower = address' → bech32Decode address 90 = some (hrp, data) →
      bech32Decode address' 90 = some (hrp, data') → decodePuzzleHash address = .ok puzzleHash →
      decodePuzzleHash address' = .ok puzzleHash → address = address' := by
  refine ⟨fun puzzleHash hrp h => decodePuzzleHash_encode puzzleHash h,
    fun address puzzleHash h => encodePuzzleHash_of_decode h, ?_⟩
  intro address address' puzzleHash hrp data data' hlower hlower' hdecode hdecode' h h'
  obtain ⟨p, d, hp, hencode⟩ := encodePuzzleHash_of_decode h
  obtain ⟨p', d', hp', hencode'⟩ := encodePuzzleHash_of_decode h'
  rw [hdecode, Option.some.injEq, Prod.mk.injEq] at hp
  rw [hdecode', Option.some.injEq, Prod.mk.injEq] at hp'
  rw [← hp.1, hlower] at hencode
  rw [← hp'.1, hlower', hencode] at hencode'
  exact Except.ok.inj hencode'

end PuzzleHashes

end Chives
