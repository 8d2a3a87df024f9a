import Chives.Types.BlockCodec
import Chives.Types.Program

set_option autoImplicit false

/-!
# Programs as bytes

The serialization of CLVM values: an atom is written after its size, a pair after a marker. `Program.from_bytes`,
`Program.__bytes__` and `serialized_length` are built on it.

## Main definitions

* `SExp.toStream`, `SExp.fromStream` — `sexp_to_stream` and `sexp_from_stream` of `clvm.serialize`.
* `Program.toBytes`, `Program.fromBytes` — `Program.__bytes__` and `Program.from_bytes`.
* `clvmTypes` — the serialized programs of Streamable objects, read by the length that their bytes state.

## Main results

* `SExp.fromStream_append` — what was read from a stream is read from it again, whatever comes after it.
* `SExp.fromStream_toStream` — a value is read back from its bytes.
* `SExp.exists_toStream_iff`, `SExp.fits_of_fromStream` — which values can be written; a value that was
  read can.

## Design

Reading is recursive, with the length of the stream as fuel: every call takes a byte first, so that a stream that runs
out of fuel is empty, and raises all the same.
-/

namespace Chives

open ExceptRun PrefixCodec

namespace SExp

/-! ## Writing -/

/-- The bytes before an atom that hold its size. -/
def sizeBlob (size : ℕ) : Except PyError Bytes :=
  if size < 0x40 then .ok (BigEndian.toBytes 1 (0x80 + size))
  else if size < 0x2000 then .ok (BigEndian.toBytes 2 (0xC000 + size))
  else if size < 0x100000 then .ok (BigEndian.toBytes 3 (0xE00000 + size))
  else if size < 0x8000000 then .ok (BigEndian.toBytes 4 (0xF0000000 + size))
  else if size < 0x400000000 then .ok (BigEndian.toBytes 5 (0xF800000000 + size))
  else .error .valueError

/-- An atom that is not written as a single byte. -/
def sizedAtom (b : Bytes) : Except PyError Bytes := do
  let blob ← sizeBlob b.length
  pure (blob ++ b)

/-- The bytes of an atom. -/
def atomToStream : Bytes → Except PyError Bytes
  | [] => .ok [0x80]
  | [b] => if b ≤ 0x7f then .ok [b] else sizedAtom [b]
  | b => sizedAtom b

/-- `sexp_to_stream`. -/
def toStream : SExp → Except PyError Bytes
  | atom b => atomToStream b
  | pair l r => do
    let left ← toStream l
    let right ← toStream r
    pure (0xff :: (left ++ right))

/-! ## Reading -/

/-- The number of bytes that hold the size of an atom, read off the first of them. -/
def sizeCount (b : UInt8) : ℕ :=
  if b < 0xC0 then 1 else if b < 0xE0 then 2 else if b < 0xF0 then 3 else if b < 0xF8 then 4
  else if b < 0xFC then 5 else if b < 0xFE then 6 else 7

/-- The bits of the first byte that count the others. -/
def sizeMarker (count : ℕ) : ℕ := 256 - 2 ^ (8 - count)

/-- An atom of the given size. -/
def readAtom (size : ℕ) (f : Bytes) : Except PyError (Bytes × Bytes) :=
  if 0x400000000 ≤ size then .error .valueError
  else if (read size f).1.length ≠ size then .error .valueError
  else .ok (read size f)

/-- An atom that was not written as a single byte. -/
def sizedAtomFromStream (b : UInt8) (f : Bytes) : Except PyError (Bytes × Bytes) :=
  if (read (sizeCount b - 1) f).1.length ≠ sizeCount b - 1 then .error .valueError
  else readAtom (BigEndian.ofBytes (b :: (read (sizeCount b - 1) f).1) -
      sizeMarker (sizeCount b) * 256 ^ (sizeCount b - 1)) (read (sizeCount b - 1) f).2

/-- An atom, whose first byte was read. -/
def atomFromStream (b : UInt8) (f : Bytes) : Except PyError (Bytes × Bytes) :=
  if b = 0x80 then .ok ([], f)
  else if b ≤ 0x7f then .ok ([b], f)
  else sizedAtomFromStream b f

/-- `sexp_from_stream`, of a stream that has at most as many bytes as the first argument says. -/
def fromStream : ℕ → Bytes → Except PyError (SExp × Bytes)
  | 0, _ => .error .valueError
  | _ + 1, [] => .error .valueError
  | n + 1, b :: f =>
    if b = 0xff then do
      let (l, f) ← fromStream n f
      let (r, f) ← fromStream n f
      pure (pair l r, f)
    else do
      let (a, f) ← atomFromStream b f
      pure (atom a, f)

/-! ## What is read is a prefix -/

variable {n : ℕ} {f : Bytes}

lemma read_eq_of_length (h : (read n f).1.length = n) :
    ∃ w, w.length = n ∧ f = w ++ (read n f).2 ∧ (read n f).1 = w ∧ ∀ t, read n (w ++ t) = (w, t) :=
  ⟨(read n f).1, h, eq_append_of_read rfl, rfl, fun t => read_append h t⟩

variable {size : ℕ} {a rest : Bytes}

lemma readAtom_eq_ok (h : readAtom size f = .ok (a, rest)) :
    a.length < 0x400000000 ∧ f = a ++ rest ∧ ∀ t, readAtom size (a ++ t) = .ok (a, t) := by
  unfold readAtom at h
  split at h
  · cases h
  · rename_i hsize
    split at h
    · cases h
    · rename_i hlen
      obtain ⟨w, hw, hf, hfirst, hread⟩ := read_eq_of_length (not_not.mp hlen)
      have hpair : ((read size f).1, (read size f).2) = (a, rest) := Except.ok.inj h
      obtain ⟨rfl, rfl⟩ := Prod.mk.inj hpair
      rw [hfirst]
      refine ⟨by omega, hf, fun t => ?_⟩
      unfold readAtom
      rw [if_neg hsize, hread, if_neg (not_not.mpr hw)]

variable {b : UInt8}

lemma atomFromStream_eq_ok (h : atomFromStream b f = .ok (a, rest)) :
    a.length < 0x400000000 ∧ ∃ w, f = w ++ rest ∧ ∀ t, atomFromStream b (w ++ t) = .ok (a, t) := by
  unfold atomFromStream at h
  split at h
  · rename_i h80
    cases h
    refine ⟨by simp, [], rfl, fun t => ?_⟩
    rw [atomFromStream, if_pos h80, List.nil_append]
  · rename_i h80
    split at h
    · rename_i h7f
      cases h
      refine ⟨by simp, [], rfl, fun t => ?_⟩
      rw [atomFromStream, if_neg h80, if_pos h7f, List.nil_append]
    · rename_i h7f
      unfold sizedAtomFromStream at h
      split at h
      · cases h
      · rename_i hlen
        obtain ⟨more, -, hf, hmore, hread⟩ := read_eq_of_length (not_not.mp hlen)
        rw [hmore] at h hlen
        obtain ⟨hsize, hrest, hatom⟩ := readAtom_eq_ok h
        refine ⟨hsize, more ++ a, by rw [List.append_assoc, ← hrest]; exact hf, fun t => ?_⟩
        rw [atomFromStream, if_neg h80, if_neg h7f, sizedAtomFromStream, List.append_assoc, hread, if_neg hlen]
        exact hatom t

variable {x : SExp}

/-- **What was read from a stream** is read from it again, whatever comes after it.

**Proof sketch.** Induction on the fuel. The parts of a pair are read one after the other, each with less fuel than
the pair; the bytes of the pair are the marker and the bytes of the parts. -/
theorem fromStream_append {s : Bytes} (h : fromStream n s = .ok (x, rest)) :
    ∃ w, s = w ++ rest ∧ ∀ m t, w.length ≤ m → fromStream m (w ++ t) = .ok (x, t) := by
  induction n generalizing s x rest with
  | zero => cases h
  | succ n ih =>
    cases s with
    | nil => cases h
    | cons b f =>
      rw [fromStream] at h
      by_cases hb : b = 0xff
      · rw [if_pos hb] at h
        obtain ⟨⟨l, f'⟩, hl, h⟩ := bind_eq_ok.mp h
        obtain ⟨⟨r, f''⟩, hr, h⟩ := bind_eq_ok.mp h
        obtain ⟨rfl, rfl⟩ := Prod.mk.inj (Except.ok.inj h)
        obtain ⟨u, rfl, hu⟩ := ih hl
        obtain ⟨v, rfl, hv⟩ := ih hr
        refine ⟨b :: (u ++ v), by simp, fun m t hm => ?_⟩
        rw [List.length_cons, List.length_append] at hm
        obtain ⟨m, rfl⟩ : ∃ k, m = k + 1 := ⟨m - 1, by omega⟩
        rw [List.cons_append, List.append_assoc, fromStream, if_pos hb, hu m (v ++ t) (by omega), ok_bind]
        show (do
          let (r', f'') ← fromStream m (v ++ t)
          pure (pair l r', f'')) = _
        rw [hv m t (by omega), ok_bind]
        rfl
      · rw [if_neg hb] at h
        obtain ⟨⟨a, f'⟩, ha, h⟩ := bind_eq_ok.mp h
        obtain ⟨rfl, rfl⟩ := Prod.mk.inj (Except.ok.inj h)
        obtain ⟨-, w, rfl, hw⟩ := atomFromStream_eq_ok ha
        refine ⟨b :: w, rfl, fun m t hm => ?_⟩
        obtain ⟨m, rfl⟩ : ∃ k, m = k + 1 := ⟨m - 1, by rw [List.length_cons] at hm; omega⟩
        rw [List.cons_append, fromStream, if_neg hb, hw, ok_bind]
        rfl

/-! ## Reading what was written -/

/-- The first byte of a size that is held by `j + 1` bytes. -/
lemma sizeBlob_cons {j : ℕ} {more : Bytes}
    (hb : BigEndian.toBytes (j + 1) (sizeMarker (j + 1) * 256 ^ j + size) = b :: more)
    (hsize : sizeMarker (j + 1) * 256 ^ j + size < 256 ^ (j + 1)) :
    more.length = j ∧ BigEndian.ofBytes more < 256 ^ j ∧
      b.toNat * 256 ^ j + BigEndian.ofBytes more = sizeMarker (j + 1) * 256 ^ j + size := by
  have hlen : more.length = j := by
    have := congrArg List.length hb
    rw [BigEndian.length_toBytes, List.length_cons] at this
    omega
  have hval := BigEndian.ofBytes_toBytes hsize
  rw [hb, BigEndian.ofBytes_cons, hlen] at hval
  exact ⟨hlen, hlen ▸ BigEndian.ofBytes_lt more, hval⟩

lemma sizedAtomFromStream_of_count {j : ℕ} {more : Bytes}
    (hb : BigEndian.toBytes (j + 1) (sizeMarker (j + 1) * 256 ^ j + size) = b :: more)
    (hsize : sizeMarker (j + 1) * 256 ^ j + size < 256 ^ (j + 1)) (hcount : sizeCount b = j + 1) (f : Bytes) :
    sizedAtomFromStream b (more ++ f) = readAtom size f := by
  obtain ⟨hlen, -, hval⟩ := sizeBlob_cons hb hsize
  rw [sizedAtomFromStream, hcount, Nat.add_sub_cancel, read_append hlen, if_neg (not_not.mpr hlen),
    BigEndian.ofBytes_cons, hlen, hval, Nat.add_sub_cancel_left]

lemma sizeBlob_eq_ok {blob : Bytes} (h : sizeBlob size = .ok blob) :
    ∃ j < 5, size < 2 ^ (7 * j + 6) ∧ blob = BigEndian.toBytes (j + 1) (sizeMarker (j + 1) * 256 ^ j + size) := by
  unfold sizeBlob at h
  split at h
  · exact ⟨0, by omega, by omega, (Except.ok.inj h).symm⟩
  · split at h
    · exact ⟨1, by omega, by omega, (Except.ok.inj h).symm⟩
    · split at h
      · exact ⟨2, by omega, by omega, (Except.ok.inj h).symm⟩
      · split at h
        · exact ⟨3, by omega, by omega, (Except.ok.inj h).symm⟩
        · split at h
          · exact ⟨4, by omega, by omega, (Except.ok.inj h).symm⟩
          · cases h

lemma sizeCount_eq (b : UInt8) : sizeCount b = if b.toNat < 0xC0 then 1 else if b.toNat < 0xE0 then 2 else
    if b.toNat < 0xF0 then 3 else if b.toNat < 0xF8 then 4 else if b.toNat < 0xFC then 5 else
    if b.toNat < 0xFE then 6 else 7 := by
  simp only [sizeCount, UInt8.lt_iff_toNat_lt]
  rfl

/-- The first byte of a size counts the bytes that hold it.

**Proof sketch.** In each of the five ranges the first byte lies between the marker of the range and the next one. -/
lemma sizeCount_of_range {j : ℕ} (hj : j < 5) (hsize : size < 2 ^ (7 * j + 6)) (hn : n < 256 ^ j)
    (hval : b.toNat * 256 ^ j + n = sizeMarker (j + 1) * 256 ^ j + size) (hpos : 0 < size) :
    sizeCount b = j + 1 ∧ 0x80 ≤ b.toNat ∧ b.toNat < 0xff ∧ (b.toNat = 0x80 → False) := by
  rw [sizeCount_eq]
  unfold sizeMarker at hval
  interval_cases j <;> norm_num at hval hn hsize ⊢ <;> split_ifs <;> omega

lemma sizedAtomFromStream_append {blob : Bytes} (h : sizeBlob size = .ok blob) (hpos : 0 < size) :
    size < 0x400000000 ∧ ∃ b more, blob = b :: more ∧ b ≠ 0x80 ∧ ¬b ≤ 0x7f ∧ b ≠ 0xff ∧
      ∀ f, sizedAtomFromStream b (more ++ f) = readAtom size f := by
  obtain ⟨j, hj, hsize, rfl⟩ := sizeBlob_eq_ok h
  have hfits : sizeMarker (j + 1) * 256 ^ j + size < 256 ^ (j + 1) := by
    unfold sizeMarker
    interval_cases j <;> norm_num at hsize ⊢ <;> omega
  cases hb : BigEndian.toBytes (j + 1) (sizeMarker (j + 1) * 256 ^ j + size) with
  | nil =>
    have := congrArg List.length hb
    rw [BigEndian.length_toBytes, List.length_nil] at this
    omega
  | cons b more =>
    obtain ⟨-, hmore, hval⟩ := sizeBlob_cons hb hfits
    obtain ⟨hcount, hlo, hhi, hne⟩ := sizeCount_of_range hj hsize hmore hval hpos
    refine ⟨by interval_cases j <;> norm_num at hsize ⊢ <;> omega, b, more, rfl, ?_, ?_, ?_,
      sizedAtomFromStream_of_count hb hfits hcount⟩
    · rintro rfl
      exact hne rfl
    · rw [UInt8.le_iff_toNat_le]
      exact not_le.mpr (lt_of_lt_of_le (by decide) hlo)
    · rintro rfl
      exact absurd hhi (by decide)

lemma readAtom_append (ha : a.length = size) (hsize : size < 0x400000000) (t : Bytes) :
    readAtom size (a ++ t) = .ok (a, t) := by
  rw [readAtom, if_neg (not_le.mpr hsize), read_append ha, if_neg (not_not.mpr ha)]

variable {w : Bytes}

lemma sizedAtom_eq_ok (h : sizedAtom a = .ok w) (hne : a ≠ []) :
    a.length < 0x400000000 ∧ ∃ b more, w = b :: more ∧ b ≠ 0xff ∧
      ∀ t, atomFromStream b (more ++ t) = .ok (a, t) := by
  obtain ⟨blob, hblob, h⟩ := bind_eq_ok.mp h
  obtain rfl := Except.ok.inj h
  obtain ⟨hsize, b, more, rfl, h80, h7f, hff, hread⟩ :=
    sizedAtomFromStream_append hblob (List.length_pos_iff.mpr hne)
  refine ⟨hsize, b, more ++ a, rfl, hff, fun t => ?_⟩
  rw [atomFromStream, if_neg h80, if_neg h7f, List.append_assoc, hread]
  exact readAtom_append rfl hsize t

lemma atomToStream_eq_ok (h : atomToStream a = .ok w) :
    a.length < 0x400000000 ∧ ∃ b more, w = b :: more ∧ b ≠ 0xff ∧
      ∀ t, atomFromStream b (more ++ t) = .ok (a, t) := by
  unfold atomToStream at h
  split at h
  · obtain rfl := Except.ok.inj h
    exact ⟨by simp, 0x80, [], rfl, by decide, fun t => rfl⟩
  · rename_i b
    split at h
    · rename_i h7f
      obtain rfl := Except.ok.inj h
      refine ⟨by simp, b, [], rfl, ?_, fun t => ?_⟩
      · rintro rfl
        exact absurd h7f (by decide)
      · have h80 : b ≠ 0x80 := by
          rintro rfl
          exact absurd h7f (by decide)
        rw [atomFromStream, if_neg h80, if_pos h7f, List.nil_append]
    · exact sizedAtom_eq_ok h (List.cons_ne_nil _ _)
  · rename_i hne _
    exact sizedAtom_eq_ok h hne

/-- **A value is read back from its bytes**, whatever comes after them. -/
theorem fromStream_toStream (h : toStream x = .ok w) {m : ℕ} (hm : w.length ≤ m) (t : Bytes) :
    fromStream m (w ++ t) = .ok (x, t) := by
  induction x generalizing w m t with
  | atom a =>
    obtain ⟨-, b, more, rfl, hff, hread⟩ := atomToStream_eq_ok h
    obtain ⟨m, rfl⟩ : ∃ k, m = k + 1 := ⟨m - 1, by rw [List.length_cons] at hm; omega⟩
    rw [List.cons_append, fromStream, if_neg hff, hread, ok_bind]
    rfl
  | pair l r ihl ihr =>
    obtain ⟨u, hu, h⟩ := bind_eq_ok.mp h
    obtain ⟨v, hv, h⟩ := bind_eq_ok.mp h
    obtain rfl := Except.ok.inj h
    rw [List.length_cons, List.length_append] at hm
    obtain ⟨m, rfl⟩ : ∃ k, m = k + 1 := ⟨m - 1, by omega⟩
    rw [List.cons_append, List.append_assoc, fromStream, if_pos rfl, ihl hu (by omega) (v ++ t), ok_bind]
    show (do
      let (r', f) ← fromStream m (v ++ t)
      pure (pair l r', f)) = _
    rw [ihr hv (by omega) t, ok_bind]
    rfl

/-! ## What can be written -/

/-- Every atom is short enough to be written. -/
def Fits : SExp → Prop
  | atom b => b.length < 0x400000000
  | pair l r => Fits l ∧ Fits r

lemma exists_sizeBlob (h : size < 0x400000000) : ∃ blob, sizeBlob size = .ok blob := by
  unfold sizeBlob
  split_ifs <;> exact ⟨_, rfl⟩

lemma exists_sizedAtom (h : a.length < 0x400000000) : ∃ w, sizedAtom a = .ok w := by
  obtain ⟨blob, hblob⟩ := exists_sizeBlob h
  exact ⟨blob ++ a, by rw [sizedAtom, hblob]; rfl⟩

/-- **A value can be written exactly if its atoms are short enough.** -/
theorem exists_toStream_iff : (∃ w, toStream x = .ok w) ↔ x.Fits := by
  induction x with
  | atom a =>
    constructor
    · rintro ⟨w, hw⟩
      exact (atomToStream_eq_ok hw).1
    · intro h
      show ∃ w, atomToStream a = .ok w
      unfold atomToStream
      split
      · exact ⟨_, rfl⟩
      · split
        · exact ⟨_, rfl⟩
        · exact exists_sizedAtom h
      · exact exists_sizedAtom h
  | pair l r ihl ihr =>
    constructor
    · rintro ⟨w, hw⟩
      obtain ⟨u, hu, hw⟩ := bind_eq_ok.mp hw
      obtain ⟨v, hv, -⟩ := bind_eq_ok.mp hw
      exact ⟨ihl.mp ⟨u, hu⟩, ihr.mp ⟨v, hv⟩⟩
    · rintro ⟨hl, hr⟩
      obtain ⟨u, hu⟩ := ihl.mpr hl
      obtain ⟨v, hv⟩ := ihr.mpr hr
      exact ⟨_, by rw [toStream, hu, ok_bind, hv, ok_bind]; rfl⟩

theorem fits_of_fromStream {s : Bytes} (h : fromStream n s = .ok (x, rest)) : x.Fits := by
  induction n generalizing s x rest with
  | zero => cases h
  | succ n ih =>
    cases s with
    | nil => cases h
    | cons b f =>
      rw [fromStream] at h
      by_cases hb : b = 0xff
      · rw [if_pos hb] at h
        obtain ⟨⟨l, f'⟩, hl, h⟩ := bind_eq_ok.mp h
        obtain ⟨⟨r, f''⟩, hr, h⟩ := bind_eq_ok.mp h
        obtain ⟨rfl, -⟩ := Prod.mk.inj (Except.ok.inj h)
        exact ⟨ih hl, ih hr⟩
      · rw [if_neg hb] at h
        obtain ⟨⟨a, f'⟩, ha, h⟩ := bind_eq_ok.mp h
        obtain ⟨rfl, -⟩ := Prod.mk.inj (Except.ok.inj h)
        exact (atomFromStream_eq_ok ha).1

end SExp

/-! ## Programs -/

namespace Program

/-- `bytes(program)`. -/
def toBytes (x : SExp) : Except PyError Bytes := x.toStream

/-- `Program.from_bytes`. -/
def fromBytes (blob : Bytes) : Except PyError SExp :=
  decWhole (fun f => SExp.fromStream f.length f) .assertionError blob

/-- `serialized_length`: the length of the program at the start of a buffer. -/
def serializedLength (buf : Bytes) : Except PyError ℕ := do
  let (_, rest) ← SExp.fromStream buf.length buf
  pure (buf.length - rest.length)

lemma fromBytes_eq_ok {blob : Bytes} {x : SExp} :
    fromBytes blob = .ok x ↔ SExp.fromStream blob.length blob = .ok (x, []) := by
  unfold fromBytes decWhole
  constructor
  · intro h
    obtain ⟨⟨y, rest⟩, hy, h⟩ := bind_eq_ok.mp h
    cases rest with
    | nil =>
      obtain rfl := Except.ok.inj h
      exact hy
    | cons b l => cases h
  · intro h
    show (SExp.fromStream blob.length blob >>= fun p =>
      if p.2.isEmpty then pure p.1 else throw PyError.assertionError) = _
    rw [h, ok_bind]
    rfl

/-- **A program is read back from its bytes.** -/
theorem fromBytes_toBytes {x : SExp} {w : Bytes} (h : toBytes x = .ok w) : fromBytes w = .ok x := by
  have := SExp.fromStream_toStream h le_rfl []
  rw [List.append_nil] at this
  exact fromBytes_eq_ok.mpr this

lemma fits_of_fromBytes {blob : Bytes} {x : SExp} (h : fromBytes blob = .ok x) : x.Fits :=
  SExp.fits_of_fromStream (fromBytes_eq_ok.mp h)

end Program

/-- The types of other packages in Streamable objects, where `valid` says which bytes of the right length are a BLS
element. -/
def clvmTypes (valid : BlockExternal → Bytes → Bool) : BlockTypes where
  valid := valid
  serializedLength := Program.serializedLength
  isProgram b := ∃ x, Program.fromBytes b = .ok x
  serializedLength_append := by
    rintro p rest ⟨x, hx⟩
    obtain ⟨w, hw, happend⟩ := SExp.fromStream_append (Program.fromBytes_eq_ok.mp hx)
    obtain rfl : p = w := by simpa using hw
    rw [Program.serializedLength, happend _ rest (by simp), ok_bind]
    simp only [List.length_append, Nat.add_sub_cancel, pure_eq]
  of_serializedLength := by
    intro b n h
    obtain ⟨⟨x, rest⟩, hx, h⟩ := bind_eq_ok.mp h
    obtain rfl := Except.ok.inj h
    obtain ⟨w, rfl, happend⟩ := SExp.fromStream_append hx
    have hlen : (w ++ rest).length - rest.length = w.length := by simp
    refine ⟨by omega, x, ?_⟩
    rw [hlen, List.take_left]
    have := happend w.length [] le_rfl
    rw [List.append_nil] at this
    exact Program.fromBytes_eq_ok.mpr this

end Chives
