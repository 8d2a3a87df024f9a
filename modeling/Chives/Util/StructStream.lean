import Chives.Library.BigEndian
import Chives.Library.PrefixCodec
import Chives.Util.PyError

set_option autoImplicit false

/-!
# Sized integers and raw reads

The byte-level layer under the Streamable format: `BinaryIO.read`, the sized integer classes of
`util/ints.py` with the parse and stream methods they inherit from `StructStream`, the sized byte
strings of `util/byte_types.py`, and the UTF-8 codec of `str`.

A binary stream is the list of the bytes still to be read, and a stream function is modelled by
the bytes it writes.

## Main definitions

* `read` — `BinaryIO.read`, which returns fewer bytes at the end of the stream.
* `SizedInt` — the integer classes, with their size, sign and bounds.
* `SizedInt.fromBytes`, `SizedInt.toBytes` — `from_bytes` and `__bytes__`.
* `strEncode`, `strDecode` — `str.encode("utf-8")` and `bytes.decode`.

## Main results

* `SizedInt.fromBytes_toBytes`, `SizedInt.toBytes_fromBytes` — every sized integer
  class is a bijection between its values and the byte strings it accepts.
* `strDecode_strEncode`, `strEncode_strDecode` — the same for UTF-8, on strings
  that can be encoded.

## Design

A Python `str` is a list of code points, and a code point may be a lone surrogate, which UTF-8
cannot encode. It is therefore not a Lean `String`.
-/

namespace Chives

open BigEndian PrefixCodec ExceptRun

/-- A byte string. -/
abbrev Bytes := List UInt8

/-- `f.read(n)`: the next `n` bytes, or fewer when the stream ends before. -/
def read (n : ℕ) (f : Bytes) : Bytes × Bytes := f.splitAt n

lemma read_append {n : ℕ} {w : Bytes} (h : w.length = n) (rest : Bytes) :
    read n (w ++ rest) = (w, rest) := by
  subst h
  simp [read, List.splitAt_eq]

@[simp] lemma read_one_cons (b : UInt8) (rest : Bytes) : read 1 (b :: rest) = ([b], rest) := by
  simp [read, List.splitAt_eq]

lemma eq_append_of_read {n : ℕ} {f w rest : Bytes} (h : read n f = (w, rest)) :
    f = w ++ rest := by
  rw [read, List.splitAt_eq, Prod.mk.injEq] at h
  rw [← h.1, ← h.2, List.take_append_drop]

/-! ## Sized integers -/

/-- The integer classes of `util/ints.py`. -/
inductive SizedInt
  | int8 | uint8 | int16 | uint16 | int32 | uint32 | int64 | uint64 | uint128 | int512
  deriving DecidableEq, Repr

namespace SizedInt

/-- The number of bits in the class name. -/
def BITS : SizedInt → ℕ
  | int8 | uint8 => 8
  | int16 | uint16 => 16
  | int32 | uint32 => 32
  | int64 | uint64 => 64
  | uint128 => 128
  | int512 => 512

/-- Whether the class holds negative numbers. -/
def SIGNED : SizedInt → Bool
  | int8 | int16 | int32 | int64 | int512 => true
  | uint8 | uint16 | uint32 | uint64 | uint128 => false

/-- The number of bytes written; `int512` uses one more byte for the sign. -/
def SIZE : SizedInt → ℕ
  | int512 => 65
  | c => c.BITS / 8

/-- The least value of the class. -/
def MINIMUM : SizedInt → ℤ
  | int512 => -(2 ^ 512) + 1
  | c => if c.SIGNED then -(2 ^ (c.BITS - 1)) else 0

/-- The bound above the greatest value of the class. -/
def MAXIMUM_EXCLUSIVE : SizedInt → ℤ
  | int512 => 2 ^ 512
  | c => if c.SIGNED then 2 ^ (c.BITS - 1) else 2 ^ c.BITS

/-- The integers that the class constructor lets through. -/
def InRange (c : SizedInt) (n : ℤ) : Prop := c.MINIMUM ≤ n ∧ n < c.MAXIMUM_EXCLUSIVE

instance (c : SizedInt) (n : ℤ) : Decidable (c.InRange n) := inferInstanceAs (Decidable (_ ∧ _))

/-- `StructStream.__init__`: the range check of the constructor. -/
def new (c : SizedInt) (n : ℤ) : Except PyError ℤ :=
  if c.InRange n then .ok n else .error .valueError

variable {c : SizedInt} {n : ℤ}

lemma new_eq_ok {m : ℤ} : c.new n = .ok m ↔ c.InRange n ∧ n = m := by
  unfold new
  split <;> simp_all

/-- `StructStream.from_bytes`. -/
def fromBytes (c : SizedInt) (blob : Bytes) : Except PyError ℤ :=
  if blob.length ≠ c.SIZE then .error .valueError
  else c.new (if c.SIGNED then ofBytesSigned blob else ofBytes blob)

/-- `StructStream.__bytes__`. -/
def toBytes (c : SizedInt) (n : ℤ) : Bytes :=
  if c.SIGNED then toBytesSigned c.SIZE n else BigEndian.toBytes c.SIZE n.toNat

/-- `StructStream.parse`. -/
def parse (c : SizedInt) : Decoder PyError ℤ UInt8 := fun f => do
  let (readBytes, f) := read c.SIZE f
  let n ← c.fromBytes readBytes
  return (n, f)

lemma inRange_unsigned (hc : c.SIGNED = false) (n : ℤ) : c.InRange n ↔ 0 ≤ n ∧ n < 256 ^ c.SIZE := by
  cases c <;> simp_all [InRange, SIGNED, MINIMUM, MAXIMUM_EXCLUSIVE, BITS, SIZE]

lemma fits_signed (hc : c.SIGNED = true) (h : c.InRange n) : -256 ^ c.SIZE ≤ 2 * n ∧ 2 * n < 256 ^ c.SIZE := by
  cases c with
  | int512 =>
    -- 65 bytes leave seven bits beyond the 512 of the class
    have hpow : (256 : ℤ) ^ 65 = 2 ^ 8 * 2 ^ 512 := by
      rw [show (256 : ℤ) = 2 ^ 8 by norm_num, ← pow_mul, ← pow_add]
    have hpos : (0 : ℤ) < 2 ^ 512 := by positivity
    obtain ⟨hlo, hhi⟩ := h
    simp only [MINIMUM, MAXIMUM_EXCLUSIVE] at hlo hhi
    rw [SIZE, hpow]
    generalize (2 : ℤ) ^ 512 = M at *
    omega
  | _ => simp_all [InRange, SIGNED, MINIMUM, MAXIMUM_EXCLUSIVE, BITS, SIZE] <;> omega

@[simp] lemma length_toBytes (c : SizedInt) (n : ℤ) : (c.toBytes n).length = c.SIZE := by
  unfold toBytes
  split <;> simp

lemma fromBytes_toBytes (c : SizedInt) (h : c.InRange n) : c.fromBytes (c.toBytes n) = .ok n := by
  have hval : (if c.SIGNED then ofBytesSigned (c.toBytes n) else (ofBytes (c.toBytes n) : ℤ)) =
      n := by
    cases hs : c.SIGNED with
    | true =>
      obtain ⟨hlo, hhi⟩ := fits_signed hs h
      simp only [toBytes, hs, if_true]
      exact ofBytesSigned_toBytesSigned hlo hhi
    | false =>
      obtain ⟨h0, hlt⟩ := (inRange_unsigned hs n).mp h
      simp only [toBytes, hs, Bool.false_eq_true, if_false]
      rw [ofBytes_toBytes (by zify; rwa [Int.toNat_of_nonneg h0]), Int.toNat_of_nonneg h0]
  rw [fromBytes, length_toBytes, if_neg (by simp), hval, new, if_pos h]

lemma toBytes_fromBytes {blob : Bytes} (h : c.fromBytes blob = .ok n) : c.InRange n ∧ c.toBytes n = blob := by
  rw [fromBytes, guard_eq_ok] at h
  obtain ⟨hlen, hnew⟩ := h
  have hlen : blob.length = c.SIZE := not_not.mp hlen
  obtain ⟨hr, rfl⟩ := new_eq_ok.mp hnew
  refine ⟨hr, ?_⟩
  cases hs : c.SIGNED with
  | true => simp [toBytes, hs, toBytesSigned_ofBytesSigned hlen]
  | false => simp [toBytes, hs, BigEndian.toBytes_ofBytes hlen]

lemma lawful (c : SizedInt) :
    Lawful c.InRange (fun n => (.ok (c.toBytes n) : Except PyError Bytes)) c.parse where
  dec_enc n h := by
    refine ⟨c.toBytes n, rfl, fun rest => ?_⟩
    simp [parse, read_append (c.length_toBytes n) rest, fromBytes_toBytes c h]
  enc_dec := by
    intro s n rest h
    simp only [parse, bind_eq_ok, pure_eq, Except.ok.injEq, Prod.mk.injEq] at h
    obtain ⟨m, hm, rfl, rfl⟩ := h
    obtain ⟨hr, hbytes⟩ := toBytes_fromBytes hm
    exact ⟨hr, _, rfl, by rw [hbytes]; exact eq_append_of_read rfl⟩

end SizedInt

/-! ## Strings -/

/-- A Unicode code point, possibly a surrogate. -/
abbrev CodePoint := Fin 0x110000

namespace CodePoint

/-- The scalar value of a code point, if it is not a surrogate. -/
def toChar? (c : CodePoint) : Option Char :=
  if h : c.val.isValidChar then some (Char.ofNatAux c.val h) else none

/-- The code point of a scalar value. -/
def ofChar (c : Char) : CodePoint :=
  ⟨c.toNat, by
    have h : c.toNat.isValidChar := c.valid
    unfold Nat.isValidChar at h
    omega⟩

@[simp] lemma toChar?_ofChar (c : Char) : toChar? (ofChar c) = some c := by
  have h : c.toNat.isValidChar := c.valid
  have haux : Char.ofNatAux c.toNat h = c := Char.ext (UInt32.toNat.inj rfl)
  rw [toChar?, dif_pos (show (ofChar c).val.isValidChar from h)]
  exact congrArg some haux

lemma ofChar_of_toChar? {p : CodePoint} {c : Char} (h : toChar? p = some c) : ofChar c = p := by
  unfold toChar? at h
  by_cases hvalid : p.val.isValidChar
  · rw [dif_pos hvalid] at h
    obtain rfl := Option.some.inj h
    rfl
  · rw [dif_neg hvalid] at h
    cases h

end CodePoint

/-- `str.encode("utf-8")`. -/
def strEncode (s : List CodePoint) : Except PyError Bytes :=
  match s.mapM CodePoint.toChar? with
  | some cs => .ok (cs.flatMap String.utf8EncodeChar)
  | none => .error .unicodeError

/-- `bytes.decode(…, "utf-8")`, the strict decoder. -/
def strDecode (b : Bytes) : Except PyError (List CodePoint) :=
  match (ByteArray.mk b.toArray).utf8Decode? with
  | some cs => .ok (cs.toList.map CodePoint.ofChar)
  | none => .error .unicodeError

/-- The strings that UTF-8 can encode: no code point is a surrogate. -/
def NoSurrogate (s : List CodePoint) : Prop := ∀ c ∈ s, c.val.isValidChar

variable {s : List CodePoint}

lemma NoSurrogate.exists_chars (h : NoSurrogate s) : ∃ cs : List Char, s = cs.map CodePoint.ofChar := by
  induction s with
  | nil => exact ⟨[], rfl⟩
  | cons p s ih =>
    obtain ⟨cs, hcs⟩ := ih fun c hc => h c (List.mem_cons_of_mem p hc)
    have hp : CodePoint.toChar? p = some (Char.ofNatAux p.val (h p (by simp))) :=
      dif_pos (h p (by simp))
    exact ⟨_ :: cs, by rw [List.map_cons, CodePoint.ofChar_of_toChar? hp, ← hcs]⟩

lemma noSurrogate_map_ofChar (cs : List Char) : NoSurrogate (cs.map CodePoint.ofChar) := by
  intro p hp
  obtain ⟨c, -, rfl⟩ := List.mem_map.mp hp
  exact c.valid

lemma strEncode_map_ofChar (cs : List Char) :
    strEncode (cs.map CodePoint.ofChar) = .ok (cs.flatMap String.utf8EncodeChar) := by
  have hmap : (cs.map CodePoint.ofChar).mapM CodePoint.toChar? = some cs := by
    induction cs with
    | nil => rfl
    | cons c cs ih => simp [List.mapM_cons, ih]
  rw [strEncode, hmap]

lemma mk_flatMap_utf8EncodeChar (cs : List Char) :
    ByteArray.mk (cs.flatMap String.utf8EncodeChar).toArray = cs.utf8Encode := by
  rw [List.utf8Encode, ByteArray.ext_iff, List.data_toByteArray]

lemma strDecode_strEncode (h : NoSurrogate s) : ∃ b, strEncode s = .ok b ∧ strDecode b = .ok s := by
  obtain ⟨cs, rfl⟩ := h.exists_chars
  refine ⟨_, strEncode_map_ofChar cs, ?_⟩
  rw [strDecode, mk_flatMap_utf8EncodeChar, List.utf8Decode?_utf8Encode]

lemma strEncode_strDecode {b : Bytes} (h : strDecode b = .ok s) : NoSurrogate s ∧ strEncode s = .ok b := by
  unfold strDecode at h
  split at h
  · rename_i cs hcs
    obtain rfl := Except.ok.inj h
    refine ⟨noSurrogate_map_ofChar _, ?_⟩
    have hget : (ByteArray.mk b.toArray).utf8Decode?.get (by simp [hcs]) = cs := by simp [hcs]
    have henc := ByteArray.utf8Encode_get_utf8Decode? (b := ByteArray.mk b.toArray)
      (h := by simp [hcs])
    rw [hget, ← mk_flatMap_utf8EncodeChar] at henc
    have hlist := congrArg (fun a : ByteArray => a.data.toList) henc
    rw [strEncode_map_ofChar]
    exact congrArg Except.ok hlist
  · cases h

end Chives
