import Chives.Clvm.Operators
import Chives.Clvm.Serialize

set_option autoImplicit false

/-!
# A deserialiser written in the puzzles' language

`wallet/puzzles/chialisp_deserialisation.clvm` reads a serialized value inside a puzzle: the generator of a block
whose spends are compressed runs it. It assembles the size of an atom from one or two bytes with operators that
read atoms as signed integers.

## Main definitions

* `ChialispDeserialisation.sexpFromStream`, `ChialispDeserialisation.deserialise` — the program.
* `ChialispDeserialisation.Inverts` — the program reads a value back from its bytes.
* `SExp.HasSize` — every atom of a value has a given kind of size.

## Main results

* `ChialispDeserialisation.inverts_iff` — a value is read back exactly if none of its atoms has between
  128 and 255 bytes.

## Design

Every call of `sexp_from_stream` takes a byte first, so that the length of the stream is enough fuel: a stream that
runs out of it is empty, and the call raises all the same.
-/

namespace Chives

open ExceptRun

/-- Every atom of a value has a size of the given kind. -/
def SExp.HasSize (P : ℕ → Prop) : SExp → Prop
  | atom b => P b.length
  | pair l r => HasSize P l ∧ HasSize P r

namespace ChialispDeserialisation

open SExp

/-! ## The program -/

/-- `MAX_SINGLE_BYTE`. -/
def maxSingleByte : SExp := atom [0x7f]

/-- `MAX_TWO_BYTE`. -/
def maxTwoByte : SExp := atom [0xbf]

/-- `MAX_THREE_BYTE`. -/
def maxThreeByte : SExp := atom [0xdf]

/-- `CONS_BOX_MARKER`. -/
def consBoxMarker : SExp := atom [0xff]

/-- `cons_return`. -/
def consReturn (leftSexp rightSexpWithInput : SExp) : Eval SExp := do
  let right ← rightSexpWithInput.first
  let inputFile ← rightSexpWithInput.second
  pure (ofList [pair leftSexp right, inputFile])

/-- `cons_sexp_from_stream`, with the function that reads a value. -/
def consSexpFromStream (sexpFromStream : SExp → Eval SExp) (leftSexpWithInput : SExp) : Eval SExp := do
  let left ← leftSexpWithInput.first
  let inputFile ← leftSexpWithInput.second
  let right ← sexpFromStream inputFile
  consReturn left right

/-- `get_bitcount`: the size of an atom, and the stream behind it. -/
def getBitcount (inputBits inputFile : SExp) : Eval SExp := do
  if ← grBytes inputBits maxTwoByte then
    if ← grBytes inputBits maxThreeByte then clvmRaise
    else do
      let high ← logand (atom [0x1f]) inputBits
      let low ← substr inputFile nil (atom [1])
      let size ← concat high low
      let inputFile ← substrFrom inputFile (atom [1])
      pure (ofList [size, inputFile])
  else do
    let size ← logand (atom [0x3f]) inputBits
    pure (ofList [size, inputFile])

/-- `atom_from_stream_part_two`. -/
def atomFromStreamPartTwo (sizeAndInput : SExp) : Eval SExp := do
  let sizeToRead ← sizeAndInput.first
  let inputFile ← sizeAndInput.second
  let a ← substr inputFile nil sizeToRead
  let rest ← substrFrom inputFile sizeToRead
  pure (ofList [a, rest])

/-- `atom_from_stream`. -/
def atomFromStream (inputFile inputBits : SExp) : Eval SExp := do
  if ← eqAtoms inputBits (atom [0x80]) then pure (ofList [nil, inputFile])
  else if ← grBytes inputBits maxSingleByte then do
    let sizeAndInput ← getBitcount inputBits inputFile
    atomFromStreamPartTwo sizeAndInput
  else pure (ofList [inputBits, inputFile])

/-- `sexp_from_stream`, of a stream that has at most as many bytes as the first argument says. -/
def sexpFromStream : ℕ → SExp → Eval SExp
  | 0, _ => clvmRaise
  | fuel + 1, inputStream => do
    let inputBits ← substr inputStream nil (atom [1])
    if ← eqAtoms inputBits consBoxMarker then do
      let inputFile ← substrFrom inputStream (atom [1])
      let left ← sexpFromStream fuel inputFile
      consSexpFromStream (sexpFromStream fuel) left
    else do
      let inputFile ← substrFrom inputStream (atom [1])
      let inputBits ← substr inputStream nil (atom [1])
      atomFromStream inputFile inputBits

/-- The program: the value that the input starts with. -/
def deserialise (input : SExp) : Eval SExp := do
  let fuel := match input with
    | atom b => b.length + 1
    | pair _ _ => 1
  let sexpAndRest ← sexpFromStream fuel input
  sexpAndRest.first

/-! ## Sizes -/

/-- Evaluation raises. -/
def Raises (x : Eval SExp) : Prop := ∃ e, x = .error e

lemma Raises.bind {x : Eval SExp} (hx : Raises x) (f : SExp → Eval SExp) : Raises (x >>= f) := by
  obtain ⟨e, rfl⟩ := hx
  exact ⟨e, rfl⟩

lemma asInt32_one : (atom [1]).asInt32 = .ok ((1 : ℕ) : ℤ) := by
  decide

lemma tests_byte {n : ℕ} (hn : n < 0x100) :
    eqAtoms (atom [UInt8.ofNat n]) (atom [0x80]) = .ok (decide (n = 0x80)) ∧
      grBytes (atom [UInt8.ofNat n]) maxSingleByte = .ok (decide (0x7f < n)) ∧
      grBytes (atom [UInt8.ofNat n]) maxTwoByte = .ok (decide (0xbf < n)) ∧
      grBytes (atom [UInt8.ofNat n]) maxThreeByte = .ok (decide (0xdf < n)) := by
  have h : ∀ n < 0x100, eqAtoms (atom [UInt8.ofNat n]) (atom [0x80]) = .ok (decide (n = 0x80)) ∧
      grBytes (atom [UInt8.ofNat n]) maxSingleByte = .ok (decide (0x7f < n)) ∧
      grBytes (atom [UInt8.ofNat n]) maxTwoByte = .ok (decide (0xbf < n)) ∧
      grBytes (atom [UInt8.ofNat n]) maxThreeByte = .ok (decide (0xdf < n)) := by decide +kernel
  exact h n hn

lemma logand_size {n : ℕ} (hn : n < 0x40) :
    logand (atom [0x3f]) (atom [UInt8.ofNat (0x80 + n)]) = .ok (ofInt n) ∧ (ofInt n).asInt32 = .ok (n : ℤ) := by
  have h : ∀ n : ℕ, n < 0x40 → logand (atom [0x3f]) (atom [UInt8.ofNat (0x80 + n)]) = .ok (ofInt n) ∧
      (ofInt n).asInt32 = .ok (n : ℤ) := by decide +kernel
  exact h n hn

lemma ofNat_ne_marker {n : ℕ} (hn : n < 0xff) : UInt8.ofNat n ≠ 0xff := by
  intro h
  have hval := congrArg UInt8.toNat h
  rw [UInt8.toNat_ofNat', Nat.mod_eq_of_lt (by omega)] at hval
  exact absurd hval (Nat.ne_of_lt hn)

lemma getBitcount_one {n : ℕ} (hn : n < 0x40) (f : SExp) :
    getBitcount (atom [UInt8.ofNat (0x80 + n)]) f = .ok (ofList [ofInt n, f]) := by
  rw [getBitcount, (tests_byte (by omega)).2.2.1, ok_bind]
  rw [if_neg (by simp; omega), (logand_size hn).1, ok_bind]
  rfl

lemma logand_high {k : ℕ} (hk : k < 0x20) :
    logand (atom [0x1f]) (atom [UInt8.ofNat (0xc0 + k)]) =
      .ok (atom (if k = 0 then [] else [UInt8.ofNat k])) := by
  have h : ∀ k < 0x20, logand (atom [0x1f]) (atom [UInt8.ofNat (0xc0 + k)]) =
      .ok (atom (if k = 0 then [] else [UInt8.ofNat k])) := by decide +kernel
  exact h k hk

lemma getBitcount_two {k : ℕ} (hk : k < 0x20) (c : UInt8) (f : Bytes) :
    getBitcount (atom [UInt8.ofNat (0xc0 + k)]) (atom (c :: f)) =
      .ok (ofList [atom ((if k = 0 then [] else [UInt8.ofNat k]) ++ [c]), atom f]) := by
  have hle : 1 ≤ (c :: f).length := by simp
  rw [getBitcount, (tests_byte (by omega)).2.2.1, ok_bind]
  rw [if_pos (by simp; omega), (tests_byte (by omega)).2.2.2, ok_bind]
  rw [if_neg (by simp; omega), logand_high hk, ok_bind, substr_take asInt32_one, if_pos hle, ok_bind]
  rw [substrFrom_drop asInt32_one, if_pos hle]
  rfl

lemma getBitcount_short {k : ℕ} (hk : k < 0x20) :
    Raises (getBitcount (atom [UInt8.ofNat (0xc0 + k)]) (atom [])) := by
  rw [getBitcount, (tests_byte (by omega)).2.2.1, ok_bind]
  rw [if_pos (by simp; omega), (tests_byte (by omega)).2.2.2, ok_bind]
  rw [if_neg (by simp; omega), logand_high hk, ok_bind, substr_take asInt32_one]
  exact ⟨_, rfl⟩

lemma asInt32_two {k : ℕ} (hk : k < 0x20) (c : UInt8) :
    (atom ((if k = 0 then [] else [UInt8.ofNat k]) ++ [c])).asInt32 =
      .ok (if k = 0 ∧ 0x80 ≤ c.toNat then (c.toNat : ℤ) - 256 else ((256 * k + c.toNat : ℕ) : ℤ)) := by
  have hc := c.toNat_lt
  by_cases h0 : k = 0
  · subst h0
    have hval : BigEndian.ofBytes [c] = c.toNat := by simp [BigEndian.ofBytes]
    rw [if_pos rfl, List.nil_append, asInt32, if_neg (by simp), intFromBytes, BigEndian.ofBytesSigned, hval,
      List.length_singleton]
    congr 1
    split_ifs <;> omega
  · have hval : BigEndian.ofBytes [UInt8.ofNat k, c] = 256 * k + c.toNat := by
      have hmod : k % 256 = k := by omega
      simp [BigEndian.ofBytes, hmod]
    rw [if_neg h0, List.singleton_append, asInt32, if_neg (by simp), intFromBytes, BigEndian.ofBytesSigned, hval,
      if_pos (show 2 * (256 * k + c.toNat) < 256 ^ [UInt8.ofNat k, c].length by
        simp only [List.length_cons, List.length_nil]
        omega), if_neg fun h => h0 h.1]

/-! ## Atoms -/

/-- The sizes that are read back. -/
def Readable (size : ℕ) : Prop := ¬(0x80 ≤ size ∧ size < 0x100)

lemma atomFromStreamPartTwo_eq {size : SExp} {n : ℕ} (hsize : size.asInt32 = .ok (n : ℤ)) (f : Bytes) :
    atomFromStreamPartTwo (ofList [size, atom f]) =
      if n ≤ f.length then .ok (ofList [atom (f.take n), atom (f.drop n)]) else .error .invalidIndices := by
  show (do
    let a ← substr (atom f) nil size
    let rest ← substrFrom (atom f) size
    pure (ofList [a, rest])) = _
  rw [substr_take hsize, substrFrom_drop hsize]
  split <;> rfl

lemma atomFromStreamPartTwo_neg {size : SExp} {n : ℤ} (hsize : size.asInt32 = .ok n) (hn : n < 0) (f : Bytes) :
    Raises (atomFromStreamPartTwo (ofList [size, atom f])) := by
  refine ⟨.invalidIndices, ?_⟩
  show (do
    let a ← substr (atom f) nil size
    let rest ← substrFrom (atom f) size
    pure (ofList [a, rest])) = _
  rw [substr_neg hsize hn]
  rfl

lemma atomFromStream_sized {n : ℕ} (hlo : 0x80 < n) (hhi : n < 0x100) (f : SExp) :
    atomFromStream f (atom [UInt8.ofNat n]) =
      getBitcount (atom [UInt8.ofNat n]) f >>= atomFromStreamPartTwo := by
  rw [atomFromStream, (tests_byte hhi).1, ok_bind]
  rw [if_neg (by simp; omega), (tests_byte hhi).2.1, ok_bind]
  rw [if_pos (by simp; omega)]

/-- How an atom of a given size is read, by the bytes of its size. -/
structure ReadsSize (size : ℕ) (b : UInt8) (more : Bytes) : Prop where
  ne_marker : b ≠ 0xff
  reads : Readable size → ∀ f : Bytes, size ≤ f.length →
    atomFromStream (atom (more ++ f)) (atom [b]) = .ok (ofList [atom (f.take size), atom (f.drop size)])
  raises : ∀ f : Bytes, (Readable size → f.length < size) →
    Raises (atomFromStream (atom (more ++ f)) (atom [b]))
  short : ∀ p, p <+: more → p ≠ more → Raises (atomFromStream (atom p) (atom [b]))

lemma readsSize_one {size : ℕ} (hpos : 0 < size) (hsize : size < 0x40) :
    ReadsSize size (UInt8.ofNat (0x80 + size)) [] := by
  have hread : ∀ f : Bytes, atomFromStream (atom ([] ++ f)) (atom [UInt8.ofNat (0x80 + size)]) =
      if size ≤ f.length then .ok (ofList [atom (f.take size), atom (f.drop size)])
      else .error .invalidIndices := by
    intro f
    rw [List.nil_append, atomFromStream_sized (by omega) (by omega), getBitcount_one hsize, ok_bind,
      atomFromStreamPartTwo_eq (logand_size hsize).2]
  refine ⟨ofNat_ne_marker (by omega), fun _ f hf => ?_, fun f hf => ?_,
    fun p hp hne => absurd (List.prefix_nil.mp hp) hne⟩
  · rw [hread, if_pos hf]
  · have hlt := hf fun (h : 0x80 ≤ size ∧ size < 0x100) => by omega
    rw [hread, if_neg (by omega)]
    exact ⟨_, rfl⟩

/-- A size of two bytes is read, except if it is negative as a signed integer. -/
lemma readsSize_two {k : ℕ} (hk : k < 0x20) (c : UInt8) (hlo : 0x40 ≤ 256 * k + c.toNat) :
    ReadsSize (256 * k + c.toNat) (UInt8.ofNat (0xc0 + k)) [c] := by
  have hc := c.toNat_lt
  have hint := asInt32_two hk c
  have hread : ∀ f : Bytes, atomFromStream (atom ([c] ++ f)) (atom [UInt8.ofNat (0xc0 + k)]) =
      atomFromStreamPartTwo
        (ofList [atom ((if k = 0 then [] else [UInt8.ofNat k]) ++ [c]), atom f]) := by
    intro f
    rw [List.singleton_append, atomFromStream_sized (by omega) (by omega), getBitcount_two hk, ok_bind]
  refine ⟨ofNat_ne_marker (by omega), fun hok f hf => ?_, fun f hf => ?_, fun p hp hne => ?_⟩
  · rw [if_neg (show ¬(k = 0 ∧ 0x80 ≤ c.toNat) from fun h => hok (by omega))] at hint
    rw [hread, atomFromStreamPartTwo_eq hint, if_pos hf]
  · rw [hread]
    by_cases hneg : k = 0 ∧ 0x80 ≤ c.toNat
    · rw [if_pos hneg] at hint
      exact atomFromStreamPartTwo_neg hint (by omega) f
    · rw [if_neg hneg] at hint
      have hlt := hf fun (h : 0x80 ≤ 256 * k + c.toNat ∧ 256 * k + c.toNat < 0x100) => hneg (by omega)
      rw [atomFromStreamPartTwo_eq hint, if_neg (by omega)]
      exact ⟨_, rfl⟩
  · obtain rfl : p = [] := by
      obtain ⟨t, ht⟩ := hp
      cases p with
      | nil => rfl
      | cons x p =>
        obtain ⟨rfl, hnil⟩ := List.cons.inj ht
        rw [(List.append_eq_nil_iff.mp hnil).1] at hne
        exact absurd rfl hne
    rw [atomFromStream_sized (by omega) (by omega)]
    exact (getBitcount_short hk).bind _

lemma readsSize_of_sizeBlob {size : ℕ} {blob : Bytes} (h : sizeBlob size = .ok blob) (hpos : 0 < size)
    (hsize : size < 0x2000) : ∃ b more, blob = b :: more ∧ ReadsSize size b more := by
  unfold sizeBlob at h
  by_cases hone : size < 0x40
  · rw [if_pos hone] at h
    obtain rfl := Except.ok.inj h
    exact ⟨_, [], rfl, readsSize_one hpos hone⟩
  · rw [if_neg hone, if_pos hsize] at h
    obtain rfl := Except.ok.inj h
    have hfirst : (0xC000 + size) / 256 = 0xc0 + size / 256 := by omega
    have hsecond : (UInt8.ofNat (0xC000 + size)).toNat = size % 256 := by
      rw [UInt8.toNat_ofNat']
      omega
    have hval : 256 * (size / 256) + (UInt8.ofNat (0xC000 + size)).toNat = size := by
      rw [hsecond]
      omega
    refine ⟨UInt8.ofNat (0xc0 + size / 256), [UInt8.ofNat (0xC000 + size)], ?_, ?_⟩
    · rw [BigEndian.toBytes, BigEndian.toBytes, BigEndian.toBytes, hfirst]
      rfl
    · have hreads := readsSize_two (k := size / 256) (by omega) (UInt8.ofNat (0xC000 + size)) (by omega)
      rwa [hval] at hreads

/-- How an atom is read, by the bytes that it is written as. -/
structure ReadsAtom (a : Bytes) (b : UInt8) (more : Bytes) : Prop where
  ne_marker : b ≠ 0xff
  reads : Readable a.length → ∀ t : Bytes,
    atomFromStream (atom (more ++ t)) (atom [b]) = .ok (ofList [atom a, atom t])
  raises : ¬Readable a.length → ∀ t : Bytes, Raises (atomFromStream (atom (more ++ t)) (atom [b]))
  short : ∀ p, p <+: more → p ≠ more → Raises (atomFromStream (atom p) (atom [b]))

lemma readsAtom_byte {a : Bytes} {b : UInt8} (hb : b ≠ 0xff) (hread : Readable a.length)
    (h : ∀ t : Bytes, atomFromStream (atom t) (atom [b]) = .ok (ofList [atom a, atom t])) :
    ReadsAtom a b [] where
  ne_marker := hb
  reads _ t := h t
  raises hnot _ := absurd hread hnot
  short _ hp hne := absurd (List.prefix_nil.mp hp) hne

lemma readsAtom_sized {a w : Bytes} (h : sizedAtom a = .ok w) (hne : a ≠ []) (hsize : a.length < 0x2000) :
    ∃ b more, w = b :: more ∧ ReadsAtom a b more := by
  obtain ⟨blob, hblob, h⟩ := bind_eq_ok.mp h
  obtain rfl := Except.ok.inj h
  obtain ⟨b, more, rfl, hreads⟩ := readsSize_of_sizeBlob hblob (List.length_pos_iff.mpr hne) hsize
  refine ⟨b, more ++ a, rfl, hreads.ne_marker, fun hok t => ?_, fun hnot t => ?_, fun p hp hne => ?_⟩
  · rw [List.append_assoc, hreads.reads hok (a ++ t) (by simp), List.take_left, List.drop_left]
  · rw [List.append_assoc]
    exact hreads.raises _ fun hok => absurd hok hnot
  · -- the stream ends in the size or in the atom
    rcases List.prefix_or_prefix_of_prefix hp (List.prefix_append more a) with hshort | ⟨q, rfl⟩
    · by_cases heq : p = more
      · subst heq
        have hraises := hreads.raises [] fun _ => List.length_pos_iff.mpr ‹a ≠ []›
        rwa [List.append_nil] at hraises
      · exact hreads.short p hshort heq
    · refine hreads.raises q fun _ => ?_
      obtain ⟨t, ht⟩ := (List.prefix_append_right_inj more).mp hp
      rw [← ht, List.length_append]
      have : t ≠ [] := by
        rintro rfl
        rw [List.append_nil] at ht
        exact hne (by rw [ht])
      have := List.length_pos_iff.mpr this
      omega

lemma readsAtom_of_toStream {a w : Bytes} (h : atomToStream a = .ok w) (hsize : a.length < 0x2000) :
    ∃ b more, w = b :: more ∧ ReadsAtom a b more := by
  unfold atomToStream at h
  split at h
  · obtain rfl := Except.ok.inj h
    exact ⟨0x80, [], rfl, readsAtom_byte (by decide) (by simp [Readable]) fun t => rfl⟩
  · rename_i b
    split at h
    · rename_i h7f
      obtain rfl := Except.ok.inj h
      refine ⟨b, [], rfl, readsAtom_byte ?_ (by simp [Readable]) fun t => ?_⟩
      · rintro rfl
        exact absurd h7f (by decide)
      · have hlt : b.toNat < 0x80 := Nat.lt_succ_of_le (UInt8.le_iff_toNat_le.mp h7f)
        have hb := tests_byte (Nat.lt_trans hlt (by norm_num))
        rw [UInt8.ofNat_toNat] at hb
        rw [atomFromStream, hb.1, ok_bind]
        rw [if_neg (by simp; omega), hb.2.1, ok_bind]
        rw [if_neg (by simp; omega)]
        rfl
    · exact readsAtom_sized h (List.cons_ne_nil _ _) hsize
  · rename_i hne _
    exact readsAtom_sized h hne hsize

/-! ## Values -/

lemma sexpFromStream_atom {b : UInt8} (hb : b ≠ 0xff) (fuel : ℕ) (f : Bytes) :
    sexpFromStream (fuel + 1) (atom (b :: f)) = atomFromStream (atom f) (atom [b]) := by
  have hle : 1 ≤ (b :: f).length := by simp
  have hne : eqAtoms (atom [b]) consBoxMarker = .ok false :=
    eqAtoms_atom_eq_ok.mpr ⟨[b], rfl, by simpa using hb⟩
  rw [sexpFromStream, substr_take asInt32_one, if_pos hle, ok_bind, List.take_succ_cons, List.take_zero, hne,
    ok_bind]
  rw [if_neg Bool.false_ne_true, substrFrom_drop asInt32_one, if_pos hle]
  rfl

lemma sexpFromStream_pair (fuel : ℕ) (f : Bytes) :
    sexpFromStream (fuel + 1) (atom (0xff :: f)) =
      sexpFromStream fuel (atom f) >>= consSexpFromStream (sexpFromStream fuel) := by
  have hle : 1 ≤ (0xff :: f : Bytes).length := by simp
  have heq : eqAtoms (atom [0xff]) consBoxMarker = .ok true := by decide
  rw [sexpFromStream, substr_take asInt32_one, if_pos hle, ok_bind, List.take_succ_cons, List.take_zero, heq,
    ok_bind]
  rw [if_pos rfl, substrFrom_drop asInt32_one, if_pos hle]
  rfl

lemma consSexpFromStream_eq (recur : SExp → Eval SExp) (l : SExp) (f : SExp) :
    consSexpFromStream recur (ofList [l, f]) = recur f >>= consReturn l :=
  rfl

lemma sexpFromStream_nil (fuel : ℕ) : Raises (sexpFromStream fuel (atom [])) := by
  cases fuel with
  | zero => exact ⟨_, rfl⟩
  | succ fuel =>
    rw [sexpFromStream, substr_take asInt32_one]
    exact ⟨_, rfl⟩

variable {x : SExp} {w : Bytes}

lemma sexpFromStream_reads (h : toStream x = .ok w) (hsize : x.HasSize (· < 0x2000)) (hok : x.HasSize Readable)
    {fuel : ℕ} (hfuel : w.length ≤ fuel) (t : Bytes) :
    sexpFromStream fuel (atom (w ++ t)) = .ok (ofList [x, atom t]) := by
  induction x generalizing w fuel t with
  | atom a =>
    obtain ⟨b, more, rfl, hreads⟩ := readsAtom_of_toStream h hsize
    obtain ⟨fuel, rfl⟩ : ∃ k, fuel = k + 1 := ⟨fuel - 1, by rw [List.length_cons] at hfuel; omega⟩
    rw [List.cons_append, sexpFromStream_atom hreads.ne_marker, hreads.reads hok]
  | pair l r ihl ihr =>
    obtain ⟨u, hu, h⟩ := bind_eq_ok.mp h
    obtain ⟨v, hv, h⟩ := bind_eq_ok.mp h
    obtain rfl := Except.ok.inj h
    rw [List.length_cons, List.length_append] at hfuel
    obtain ⟨fuel, rfl⟩ : ∃ k, fuel = k + 1 := ⟨fuel - 1, by omega⟩
    rw [List.cons_append, List.append_assoc, sexpFromStream_pair, ihl hu hsize.1 hok.1 (by omega), ok_bind,
      consSexpFromStream_eq, ihr hv hsize.2 hok.2 (by omega), ok_bind]
    rfl

lemma sexpFromStream_raises (h : toStream x = .ok w) (hsize : x.HasSize (· < 0x2000))
    (hnot : ¬x.HasSize Readable) {fuel : ℕ} (hfuel : w.length ≤ fuel) (t : Bytes) :
    Raises (sexpFromStream fuel (atom (w ++ t))) := by
  induction x generalizing w fuel t with
  | atom a =>
    obtain ⟨b, more, rfl, hreads⟩ := readsAtom_of_toStream h hsize
    obtain ⟨fuel, rfl⟩ : ∃ k, fuel = k + 1 := ⟨fuel - 1, by rw [List.length_cons] at hfuel; omega⟩
    rw [List.cons_append, sexpFromStream_atom hreads.ne_marker]
    exact hreads.raises hnot t
  | pair l r ihl ihr =>
    obtain ⟨u, hu, h⟩ := bind_eq_ok.mp h
    obtain ⟨v, hv, h⟩ := bind_eq_ok.mp h
    obtain rfl := Except.ok.inj h
    rw [List.length_cons, List.length_append] at hfuel
    obtain ⟨fuel, rfl⟩ : ∃ k, fuel = k + 1 := ⟨fuel - 1, by omega⟩
    rw [List.cons_append, List.append_assoc, sexpFromStream_pair]
    by_cases hl : l.HasSize Readable
    · rw [sexpFromStream_reads hu hsize.1 hl (by omega), ok_bind, consSexpFromStream_eq]
      exact (ihr hv hsize.2 (fun hr => hnot ⟨hl, hr⟩) (by omega) t).bind _
    · exact (ihl hu hsize.1 hl (by omega) _).bind _

/-- A stream that ends before the value is complete is not read.

**Proof sketch.** The stream ends in the first part of a pair, or behind it. In the second case the first part was
read, or reading it has raised. -/
lemma sexpFromStream_short (h : toStream x = .ok w) (hsize : x.HasSize (· < 0x2000)) {p : Bytes} (hp : p <+: w)
    (hne : p ≠ w) {fuel : ℕ} (hfuel : p.length ≤ fuel) : Raises (sexpFromStream fuel (atom p)) := by
  induction x generalizing w p fuel with
  | atom a =>
    obtain ⟨b, more, rfl, hreads⟩ := readsAtom_of_toStream h hsize
    cases p with
    | nil => exact sexpFromStream_nil fuel
    | cons b' p =>
      obtain ⟨rfl, hrest⟩ := List.cons_prefix_cons.mp hp
      obtain ⟨fuel, rfl⟩ : ∃ k, fuel = k + 1 := ⟨fuel - 1, by rw [List.length_cons] at hfuel; omega⟩
      rw [sexpFromStream_atom hreads.ne_marker]
      exact hreads.short p hrest fun heq => hne (by rw [heq])
  | pair l r ihl ihr =>
    obtain ⟨u, hu, h⟩ := bind_eq_ok.mp h
    obtain ⟨v, hv, h⟩ := bind_eq_ok.mp h
    obtain rfl := Except.ok.inj h
    cases p with
    | nil => exact sexpFromStream_nil fuel
    | cons b' p =>
      obtain ⟨rfl, hrest⟩ := List.cons_prefix_cons.mp hp
      rw [List.length_cons] at hfuel
      obtain ⟨fuel, rfl⟩ : ∃ k, fuel = k + 1 := ⟨fuel - 1, by omega⟩
      rw [sexpFromStream_pair]
      by_cases hleft : u <+: p
      · obtain ⟨q, rfl⟩ := hleft
        have hq : q <+: v := (List.prefix_append_right_inj u).mp hrest
        rw [List.length_append] at hfuel
        by_cases hl : l.HasSize Readable
        · rw [sexpFromStream_reads hu hsize.1 hl (by omega), ok_bind, consSexpFromStream_eq]
          exact (ihr hv hsize.2 hq (fun heq => hne (by rw [heq])) (by omega)).bind _
        · exact (sexpFromStream_raises hu hsize.1 hl (by omega) q).bind _
      · have hshort : p <+: u :=
          (List.prefix_or_prefix_of_prefix hrest (List.prefix_append u v)).resolve_right hleft
        exact (ihl hu hsize.1 hshort (fun heq => hleft (by rw [heq])) (by omega)).bind _

/-! ## The program inverts serialization -/

/-- Run on the bytes of a value, the program returns the value, whatever comes after them, and it raises on a byte
string that ends before they are complete. -/
def Inverts (x : SExp) (w : Bytes) : Prop :=
  (∀ more : Bytes, deserialise (atom (w ++ more)) = .ok x) ∧
    ∀ p, p <+: w → p ≠ w → ∃ e, deserialise (atom p) = .error e

/-- **The program inverts the serialization** of a value whose atoms have fewer than 8192 bytes exactly if none of
its atoms has between 128 and 255 bytes.

**Proof sketch.** The size of such an atom is assembled from a first byte without any bits of it, which is dropped,
and a second byte that is negative as a signed integer; the program raises when it takes as many bytes from the
stream. For all other sizes the integer is the size. -/
theorem inverts_iff (h : toStream x = .ok w) (hsize : x.HasSize (· < 0x2000)) :
    Inverts x w ↔ x.HasSize fun size => ¬(0x80 ≤ size ∧ size < 0x100) := by
  constructor
  · rintro ⟨hread, -⟩
    by_contra hnot
    obtain ⟨e, he⟩ := @sexpFromStream_raises _ _ h hsize hnot ((w ++ []).length + 1) (by simp) []
    have hok := hread []
    rw [deserialise, he] at hok
    cases hok
  · intro hok
    refine ⟨fun more => ?_, fun p hp hne => ?_⟩
    · rw [deserialise, sexpFromStream_reads h hsize hok (by simp; omega)]
      rfl
    · rw [deserialise]
      exact (sexpFromStream_short h hsize hp hne (Nat.le_succ _)).bind _

/-- A pair of two short atoms is read back, and nothing is read from a part of its bytes. -/
theorem inverts_iff_pair : Inverts (pair (atom [1]) (atom [0x80, 2])) [0xff, 1, 0x82, 0x80, 2] ↔
    (pair (atom [1]) (atom [0x80, 2])).HasSize fun size => ¬(0x80 ≤ size ∧ size < 0x100) :=
  inverts_iff (by decide) ⟨show 1 < 0x2000 by decide, show 2 < 0x2000 by decide⟩

/-- An atom of 128 zero bytes is written behind the two bytes 0xc0 and 0x80, and the program raises on them. -/
theorem not_inverts : toStream (atom (List.replicate 128 0)) = .ok (0xc0 :: 0x80 :: List.replicate 128 0) ∧
    deserialise (atom (0xc0 :: 0x80 :: List.replicate 128 0)) = .error .invalidIndices ∧
    ¬Inverts (atom (List.replicate 128 0)) (0xc0 :: 0x80 :: List.replicate 128 0) := by
  have hraised : deserialise (atom (0xc0 :: 0x80 :: List.replicate 128 0)) = .error .invalidIndices := by
    decide +kernel
  refine ⟨by decide +kernel, hraised, fun hinverts => ?_⟩
  have hok := hinverts.1 []
  rw [List.append_nil, hraised] at hok
  cases hok

end ChialispDeserialisation

end Chives
