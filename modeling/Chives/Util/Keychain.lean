import Chives.Library.BitGroups
import Chives.Types.SizedBytes

set_option autoImplicit false

/-!
# Mnemonic phrases

`util/keychain.py`: the entropy of a key with a checksum as a phrase of words, and back.

## Main definitions

* `Keychain.WordList` — 2048 distinct words without spaces.
* `Keychain.bytesToMnemonic`, `Keychain.bytesFromMnemonic` — the phrase of the entropy, and back.

## Main results

* `Keychain.mnemonic_roundTrip` — each is the inverse of the other.

## Design

A text is a list of characters, a `BitArray` a list of bits. The file of the words and `std_hash` are parameters.
-/

namespace Chives

namespace Keychain

/-- The lines of `bip39_word_list`. -/
structure WordList where
  words : List (List Char)
  length_eq : words.length = 2048
  nodup : words.Nodup
  noSpace : ∀ word ∈ words, ' ' ∉ word

/-- The words `a`, `aa`, `aaa` and so on. -/
instance : Inhabited WordList where
  default :=
    { words := (List.range 2048).map fun n => List.replicate n 'a'
      length_eq := by simp
      nodup := List.nodup_range.map fun _ _ h => by simpa using congrArg List.length h
      noSpace := by simp }

/-- `BitArray(b)`. -/
def bitArray (b : Bytes) : List Bool := BitGroups.join 8 (b.map UInt8.toNat)

/-- `bits.bytes`. -/
def bitBytes (bits : List Bool) : Except PyError Bytes :=
  if bits.length % 8 = 0 then .ok ((BitGroups.groups 8 bits).map UInt8.ofNat) else .error .valueError

/-- `{word: i for i, word in enumerate(words)}[word]`, the last one of equal words. -/
def wordIndex (words : List (List Char)) (word : List Char) : Except PyError ℕ :=
  match words.zipIdx.reverse.find? fun entry => entry.1 = word with
  | some entry => .ok entry.2
  | none => .error .valueError

open ExceptRun

variable (stdHash : Bytes → Bytes32) (wordList : WordList)

/-- `bytes_to_mnemonic`. -/
def bytesToMnemonic (mnemonicBytes : Bytes) : Except PyError (List Char) :=
  if mnemonicBytes.length ∉ [16, 20, 24, 28, 32] then .error .valueError
  else do
    let CS := mnemonicBytes.length / 4
    let checksum := (bitArray (stdHash mnemonicBytes).bytes).take CS
    let bitarray := bitArray mnemonicBytes ++ checksum
    let _ ← pyAssert (bitarray.length % 11 = 0)
    let mnemonics ← (BitGroups.groups 11 bitarray).mapM (pyIndex wordList.words)
    pure ([' '].intercalate mnemonics)

/-- `bytes_from_mnemonic`. -/
def bytesFromMnemonic (mnemonicStr : List Char) : Except PyError Bytes :=
  let mnemonic := mnemonicStr.splitOn ' '
  if mnemonic.length ∉ [12, 15, 18, 21, 24] then .error .valueError
  else do
    let values ← mnemonic.mapM (wordIndex wordList.words)
    let bitArray' := BitGroups.join 11 values
    let CS := mnemonic.length / 3
    let ENT := mnemonic.length * 11 - CS
    let _ ← pyAssert (bitArray'.length = mnemonic.length * 11)
    let _ ← pyAssert (ENT % 32 = 0)
    let entropyBytes ← bitBytes (bitArray'.take ENT)
    let checksumBytes := bitArray'.drop ENT
    let checksum := (bitArray (stdHash entropyBytes).bytes).take CS
    let _ ← pyAssert (checksumBytes.length = CS)
    if checksum ≠ checksumBytes then .error .valueError else pure entropyBytes

/-! ## Bits, bytes and words -/

@[simp] lemma length_bitArray (b : Bytes) : (bitArray b).length = 8 * b.length := by
  rw [bitArray, BitGroups.length_join, List.length_map, Nat.mul_comm]

lemma bitBytes_eq_ok {bits : List Bool} {b : Bytes} : bitBytes bits = .ok b ↔ bits = bitArray b := by
  unfold bitBytes
  constructor
  · intro h
    split at h
    next hlen =>
      cases h
      have hvals : ((BitGroups.groups 8 bits).map UInt8.ofNat).map UInt8.toNat = BitGroups.groups 8 bits := by
        rw [List.map_map]
        refine (List.map_congr_left fun v hv => ?_).trans (List.map_id _)
        exact UInt8.toNat_ofNat_of_lt (BitGroups.lt_of_mem_groups hv)
      rw [bitArray, hvals, BitGroups.join_groups (n := bits.length / 8) (by norm_num) (by omega)]
    next => cases h
  · rintro rfl
    have hvals : BitGroups.groups 8 (bitArray b) = b.map UInt8.toNat :=
      BitGroups.groups_join (by norm_num) fun v hv => by
        obtain ⟨x, -, rfl⟩ := List.mem_map.mp hv
        exact x.toNat_lt
    rw [if_pos (by simp), hvals, List.map_map]
    simp [Function.comp_def]

variable {wordList}

lemma wordIndex_eq_ok {word : List Char} {v : ℕ} :
    wordIndex wordList.words word = .ok v ↔ pyIndex wordList.words v = .ok word := by
  rw [pyIndex_eq_ok]
  have hplace : ∀ entry ∈ wordList.words.zipIdx.reverse, wordList.words[entry.2]? = some entry.1 := fun entry h =>
    List.mem_zipIdx_iff_getElem?.mp (List.mem_reverse.mp h)
  unfold wordIndex
  constructor
  · intro h
    split at h
    next entry hfind =>
      cases h
      have hword : entry.1 = word := by simpa using List.find?_some hfind
      rw [← hword]
      exact hplace entry (List.mem_of_find?_eq_some hfind)
    next => cases h
  · intro h
    split
    next entry hfind =>
      have hword : entry.1 = word := by simpa using List.find?_some hfind
      have hentry := hplace entry (List.mem_of_find?_eq_some hfind)
      rw [hword] at hentry
      obtain ⟨hlt, hget⟩ := List.getElem?_eq_some_iff.mp hentry
      obtain ⟨hlt', hget'⟩ := List.getElem?_eq_some_iff.mp h
      exact congrArg Except.ok ((wordList.nodup.getElem_inj_iff).mp (hget.trans hget'.symm))
    next hnone =>
      have hmem : (word, v) ∈ wordList.words.zipIdx.reverse :=
        List.mem_reverse.mpr (List.mem_zipIdx_iff_getElem?.mpr h)
      simpa using List.find?_eq_none.mp hnone _ hmem

lemma mapM_wordIndex_eq_ok {words : List (List Char)} {values : List ℕ} :
    words.mapM (wordIndex wordList.words) = .ok values ↔ values.mapM (pyIndex wordList.words) = .ok words := by
  simp only [mapM_eq_ok_iff, ← List.forall₂_eq_eq_eq, List.forall₂_map_left_iff, List.forall₂_map_right_iff,
    wordIndex_eq_ok]
  exact ⟨List.Forall₂.flip, List.Forall₂.flip⟩

lemma pyIndex_words_iff {v : ℕ} : (∃ word, pyIndex wordList.words v = .ok word) ↔ v < 2 ^ 11 := by
  simp [pyIndex_eq_ok, List.getElem?_eq_some_iff, wordList.length_eq]

/-! ## Phrases -/

/-- The phrase of some entropy: the words of the entropy and of a bit of its checksum for each 32 bits. -/
structure Encodes (wordList : WordList) (b : Bytes) (words : List (List Char)) : Prop where
  length_mem : b.length ∈ [16, 20, 24, 28, 32]
  words_eq : (BitGroups.groups 11 (bitArray b ++ (bitArray (stdHash b).bytes).take (b.length / 4))).mapM
    (pyIndex wordList.words) = .ok words

variable {stdHash} {b : Bytes} {words : List (List Char)}

lemma length_checked (h : b.length ∈ [16, 20, 24, 28, 32]) :
    (bitArray b ++ (bitArray (stdHash b).bytes).take (b.length / 4)).length = b.length / 4 * 3 * 11 := by
  rw [List.length_append, List.length_take, length_bitArray, length_bitArray, (stdHash b).length_eq]
  simp only [List.mem_cons, List.not_mem_nil, or_false] at h
  omega

lemma Encodes.length_words (h : Encodes stdHash wordList b words) : words.length = b.length / 4 * 3 := by
  have hlen := congrArg List.length (mapM_eq_ok_iff.mp h.words_eq)
  rw [List.length_map, List.length_map, BitGroups.groups, List.length_map, List.length_range, length_checked h.length_mem]
    at hlen
  omega

/-- What `bytes_to_mnemonic` returns. -/
lemma bytesToMnemonic_eq_ok {m : List Char} : bytesToMnemonic stdHash wordList b = .ok m ↔
    ∃ words, Encodes stdHash wordList b words ∧ [' '].intercalate words = m := by
  unfold bytesToMnemonic
  rw [guard_eq_ok, not_not]
  constructor
  · rintro ⟨hlen, h⟩
    obtain ⟨_, -, h⟩ := bind_eq_ok.mp h
    obtain ⟨words, hwords, h⟩ := bind_eq_ok.mp h
    exact ⟨words, ⟨hlen, hwords⟩, Except.ok.inj h⟩
  · rintro ⟨words, h, rfl⟩
    refine ⟨h.length_mem, bind_eq_ok.mpr ⟨(), pyAssert_eq_ok.mpr ?_, bind_eq_ok.mpr ⟨words, h.words_eq, rfl⟩⟩⟩
    rw [length_checked h.length_mem]
    omega

/-- What `bytes_from_mnemonic` returns.

**Proof sketch.** In both directions the bits of the words are those of the entropy and of the checksum, since the number
of words and that of bytes determine each other. -/
lemma bytesFromMnemonic_eq_ok {m : List Char} :
    bytesFromMnemonic stdHash wordList m = .ok b ↔ Encodes stdHash wordList b (m.splitOn ' ') := by
  unfold bytesFromMnemonic
  dsimp only
  generalize m.splitOn ' ' = words
  rw [guard_eq_ok, not_not]
  constructor
  · rintro ⟨hlen, h⟩
    obtain ⟨values, hvalues, h⟩ := bind_eq_ok.mp h
    obtain ⟨_, hbits, h⟩ := bind_eq_ok.mp h
    obtain ⟨_, -, h⟩ := bind_eq_ok.mp h
    obtain ⟨entropy, hentropy, h⟩ := bind_eq_ok.mp h
    obtain ⟨_, -, h⟩ := bind_eq_ok.mp h
    obtain ⟨hchecksum, h⟩ := guard_eq_ok.mp h
    obtain rfl := Except.ok.inj h
    have hbits := pyAssert_eq_ok.mp hbits
    have hentropy := bitBytes_eq_ok.mp hentropy
    have hcount := congrArg List.length hentropy
    rw [List.length_take, hbits, length_bitArray] at hcount
    simp only [List.mem_cons, List.not_mem_nil, or_false] at hlen
    have hCS : words.length / 3 = entropy.length / 4 := by omega
    refine ⟨by simp only [List.mem_cons, List.not_mem_nil, or_false]; omega, ?_⟩
    have hvalues := mapM_wordIndex_eq_ok.mp hvalues
    have hfit : ∀ v ∈ values, v < 2 ^ 11 := fun v hv => pyIndex_words_iff.mp (exists_of_mapM_eq_ok hvalues hv)
    rwa [← hCS, not_not.mp hchecksum, ← hentropy, List.take_append_drop, BitGroups.groups_join (by norm_num) hfit]
  · intro h
    have hwords := h.length_words
    have hlen := h.length_mem
    have hvalues := mapM_wordIndex_eq_ok.mpr h.words_eq
    have hchecked := @length_checked stdHash b hlen
    have hbits := BitGroups.join_groups (by norm_num) hchecked
    simp only [List.mem_cons, List.not_mem_nil, or_false] at hlen
    have hCS : words.length / 3 = b.length / 4 := by omega
    have hENT : words.length * 11 - words.length / 3 = (bitArray b).length := by
      rw [length_bitArray]
      omega
    refine ⟨by simp only [List.mem_cons, List.not_mem_nil, or_false]; omega, ?_⟩
    rw [hvalues, ok_bind, hbits, hENT, List.take_left, List.drop_left, hCS]
    refine bind_eq_ok.mpr ⟨(), pyAssert_eq_ok.mpr (by rw [hchecked, hwords]), bind_eq_ok.mpr ⟨(), pyAssert_eq_ok.mpr ?_,
      bind_eq_ok.mpr ⟨b, bitBytes_eq_ok.mpr rfl, bind_eq_ok.mpr ⟨(), pyAssert_eq_ok.mpr ?_, if_neg (not_not.mpr rfl)⟩⟩⟩⟩
    · rw [length_bitArray]
      omega
    · rw [List.length_take, length_bitArray, (stdHash b).length_eq]
      omega

/-- **The mnemonic codec is a bijection** between the entropies and the phrases that are accepted: what
`bytes_to_mnemonic` gives is read back, and what is read is given again, so that no two phrases have one entropy. -/
theorem mnemonic_roundTrip (stdHash : Bytes → Bytes32) (wordList : WordList) :
    (∀ b : Bytes, b.length ∈ [16, 20, 24, 28, 32] → ∃ m, bytesToMnemonic stdHash wordList b = .ok m ∧
      bytesFromMnemonic stdHash wordList m = .ok b) ∧
    (∀ m b, bytesFromMnemonic stdHash wordList m = .ok b → bytesToMnemonic stdHash wordList b = .ok m) ∧
    ∀ m m' b, bytesFromMnemonic stdHash wordList m = .ok b → bytesFromMnemonic stdHash wordList m' = .ok b → m = m' := by
  have hagain : ∀ m b, bytesFromMnemonic stdHash wordList m = .ok b → bytesToMnemonic stdHash wordList b = .ok m :=
    fun m b h => bytesToMnemonic_eq_ok.mpr ⟨_, bytesFromMnemonic_eq_ok.mp h, List.intercalate_splitOn ' '⟩
  refine ⟨fun b hb => ?_, hagain, fun m m' b h h' => Except.ok.inj ((hagain m b h).symm.trans (hagain m' b h'))⟩
  obtain ⟨words, hwords, -⟩ := exists_mapM_eq_ok fun v hv => pyIndex_words_iff.mpr (BitGroups.lt_of_mem_groups hv)
  have hcode : Encodes stdHash wordList b words := ⟨hb, hwords⟩
  have hspace : ∀ word ∈ words, ' ' ∉ word := fun word hword => by
    obtain ⟨v, -, hv⟩ := mem_of_mapM_eq_ok hwords hword
    exact wordList.noSpace word (List.mem_of_getElem? (pyIndex_eq_ok.mp hv))
  have hnil : words ≠ [] := List.ne_nil_of_length_pos (by
    rw [hcode.length_words]
    simp only [List.mem_cons, List.not_mem_nil, or_false] at hb
    omega)
  refine ⟨_, bytesToMnemonic_eq_ok.mpr ⟨words, hcode, rfl⟩, bytesFromMnemonic_eq_ok.mpr ?_⟩
  rwa [List.splitOn_intercalate ' ' hspace hnil]

end Keychain

end Chives
