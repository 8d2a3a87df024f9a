import Chives.Types.BlockCodec

set_option autoImplicit false

/-!
# The generator of a serialized block

`util/full_block_utils.py`: `generator_from_block` finds the transactions generator in the bytes of a
block by skipping what comes before it, with the layout of every class written out by hand.

## Main definitions

* `skipList`, `skipBytes`, `skipOptional` and the other skipping functions.
* `generatorFromBlock` — the function.
* `Skips` — a function skips exactly what Streamable writes for a type.

## Main results

* `skips_streamable` — skipping a class is skipping its fields in order.
* `skips_endOfSubSlotBundle`, `skips_rewardChainBlock`, `skips_foliage` and others —
  the functions follow the declared fields.
* `generatorFromBlock_toBytes` — the generator that is found is that of the block.

## Design

A `memoryview` is the list of its bytes; slicing never fails, and `buf[0]` raises on an empty one.
-/

namespace Chives

open ExceptRun PrefixCodec Streamable

/-- A function that skips the front of a buffer. -/
abbrev Skip := Bytes → Except PyError Bytes

/-! ## The source -/

/-- `buf[n:]`. -/
def skip (n : ℕ) : Skip := fun buf => .ok (buf.drop n)

/-- `for i in range(n): buf = skip_item(buf)`. -/
def skipTimes (skipItem : Skip) : ℕ → Skip
  | 0, buf => .ok buf
  | n + 1, buf => do
    let buf ← skipItem buf
    skipTimes skipItem n buf

/-- `skip_list`. -/
def skipList (skipItem : Skip) : Skip := fun buf =>
  let n := BigEndian.ofBytes (buf.take 4)
  skipTimes skipItem n (buf.drop 4)

/-- `skip_bytes`. The assertion holds of every unsigned number. -/
def skipBytes : Skip := fun buf =>
  let n := BigEndian.ofBytes (buf.take 4)
  skip n (buf.drop 4)

/-- `skip_optional`. -/
def skipOptional (skipItem : Skip) : Skip := fun buf => do
  let first ← pyIndex buf 0
  if first = 0 then return buf.drop 1
  else do
    let _ ← pyAssert (first = 1)
    skipItem (buf.drop 1)

/-- `skip_bytes32`. -/
def skipBytes32 : Skip := skip 32

/-- `skip_uint32`. -/
def skipUint32 : Skip := skip 4

/-- `skip_uint64`. -/
def skipUint64 : Skip := skip 8

/-- `skip_uint128`. -/
def skipUint128 : Skip := skip 16

/-- `skip_uint8`. -/
def skipUint8 : Skip := skip 1

/-- `skip_bool`. -/
def skipBool : Skip := fun buf => do
  let first ← pyIndex buf 0
  let _ ← pyAssert (first = 0 ∨ first = 1)
  return buf.drop 1

/-- `skip_vdf_info`. -/
def skipVdfInfo : Skip := skip (32 + 8 + 100)

/-- `skip_vdf_proof`. -/
def skipVdfProof : Skip := fun buf => do
  let buf ← skipUint8 buf
  let buf ← skipBytes buf
  skipBool buf

/-- `skip_challenge_chain_sub_slot`. -/
def skipChallengeChainSubSlot : Skip := fun buf => do
  let buf ← skipVdfInfo buf
  let buf ← skipOptional skipBytes32 buf
  let buf ← skipOptional skipBytes32 buf
  let buf ← skipOptional skipUint64 buf
  skipOptional skipUint64 buf

/-- `skip_infused_challenge_chain`. -/
def skipInfusedChallengeChain : Skip := fun buf => skipVdfInfo buf

/-- `skip_reward_chain_sub_slot`. -/
def skipRewardChainSubSlot : Skip := fun buf => do
  let buf ← skipVdfInfo buf
  let buf ← skipBytes32 buf
  let buf ← skipOptional skipBytes32 buf
  skipUint8 buf

/-- `skip_sub_slot_proofs`. -/
def skipSubSlotProofs : Skip := fun buf => do
  let buf ← skipVdfProof buf
  let buf ← skipOptional skipVdfProof buf
  skipVdfProof buf

/-- `skip_end_of_sub_slot_bundle`. -/
def skipEndOfSubSlotBundle : Skip := fun buf => do
  let buf ← skipChallengeChainSubSlot buf
  let buf ← skipOptional skipInfusedChallengeChain buf
  let buf ← skipRewardChainSubSlot buf
  skipSubSlotProofs buf

/-- `skip_g1_element`. -/
def skipG1Element : Skip := skip (BlockTypes.size .g1Element)

/-- `skip_g2_element`. -/
def skipG2Element : Skip := skip (BlockTypes.size .g2Element)

/-- `skip_proof_of_space`. -/
def skipProofOfSpace : Skip := fun buf => do
  let buf ← skipBytes32 buf
  let buf ← skipOptional skipG1Element buf
  let buf ← skipOptional skipBytes32 buf
  let buf ← skipG1Element buf
  let buf ← skipUint8 buf
  skipBytes buf

/-- `skip_reward_chain_block`. -/
def skipRewardChainBlock : Skip := fun buf => do
  let buf ← skipUint128 buf
  let buf ← skipUint32 buf
  let buf ← skipUint128 buf
  let buf ← skipUint8 buf
  let buf ← skipBytes32 buf
  let buf ← skipProofOfSpace buf
  let buf ← skipOptional skipVdfInfo buf
  let buf ← skipG2Element buf
  let buf ← skipVdfInfo buf
  let buf ← skipOptional skipVdfInfo buf
  let buf ← skipG2Element buf
  let buf ← skipVdfInfo buf
  let buf ← skipOptional skipVdfInfo buf
  skipBool buf

/-- `skip_pool_target`. -/
def skipPoolTarget : Skip := skip (32 + 4)

/-- `skip_foliage_block_data`. -/
def skipFoliageBlockData : Skip := fun buf => do
  let buf ← skipBytes32 buf
  let buf ← skipPoolTarget buf
  let buf ← skipOptional skipG2Element buf
  let buf ← skipBytes32 buf
  let buf ← skipBytes32 buf
  skipBytes32 buf

/-- `skip_foliage`. -/
def skipFoliage : Skip := fun buf => do
  let buf ← skipBytes32 buf
  let buf ← skipBytes32 buf
  let buf ← skipFoliageBlockData buf
  let buf ← skipG2Element buf
  let buf ← skipOptional skipBytes32 buf
  skipOptional skipG2Element buf

/-- `skip_foliage_transaction_block`. -/
def skipFoliageTransactionBlock : Skip := skip (32 + 8 + 32 + 32 + 32 + 32)

/-- `skip_coin`. -/
def skipCoin : Skip := skip (32 + 32 + 8)

/-- `skip_transactions_info`. -/
def skipTransactionsInfo : Skip := fun buf => do
  let buf ← skip (32 + 32 + BlockTypes.size .g2Element + 8 + 8) buf
  skipList skipCoin buf

/-- `generator_from_block`. -/
def generatorFromBlock (serializedLength : Bytes → Except PyError ℕ) (buf : Bytes) :
    Except PyError (Option SerializedProgram) := do
  let buf ← skipList skipEndOfSubSlotBundle buf
  let buf ← skipRewardChainBlock buf
  let buf ← skipOptional skipVdfProof buf
  let buf ← skipVdfProof buf
  let buf ← skipOptional skipVdfProof buf
  let buf ← skipVdfProof buf
  let buf ← skipOptional skipVdfProof buf
  let buf ← skipFoliage buf
  let buf ← skipOptional skipFoliageTransactionBlock buf
  let buf ← skipOptional skipTransactionsInfo buf
  let first ← pyIndex buf 0
  if first = 0 then return none
  else do
    let buf := buf.drop 1
    let length ← serializedLength buf
    return some (buf.take length)

/-! ## Skipping what was written -/

/-- The function skips what Streamable writes for a value of the type. -/
def Skips (B : BlockTypes) (f : Skip) (t : FieldType BlockExternal) : Prop :=
  ∀ v w, t.HasType B.external NoSurrogate v → streamField B.external t v = .ok w →
    ∀ rest, f (w ++ rest) = .ok rest

/-- The functions one after the other. -/
def skipEach : List Skip → Skip
  | [], buf => .ok buf
  | f :: fs, buf => do
    let buf ← f buf
    skipEach fs buf

section Types

variable {B : BlockTypes} {f : Skip} {n : ℕ} {t : FieldType BlockExternal}

lemma skips_of_length (h : ∀ v w, t.HasType B.external NoSurrogate v →
    streamField B.external t v = .ok w → w.length = n) : Skips B (skip n) t := by
  intro v w hv hw rest
  rw [skip, List.drop_left' (h v w hv hw)]

lemma skips_int (c : SizedInt) : Skips B (skip c.SIZE) (intField c) := by
  apply skips_of_length
  intro v w hv hw
  simp only [intField, FieldType.HasType, ItemType.HasType] at hv
  obtain ⟨k, rfl, -⟩ := hv
  obtain rfl : c.toBytes k = w := Except.ok.inj hw
  exact c.length_toBytes k

lemma skips_sizedBytes (size : ℕ) : Skips B (skip size) (.item (.sizedBytes size)) := by
  apply skips_of_length
  intro v w hv hw
  simp only [FieldType.HasType, ItemType.HasType] at hv
  obtain ⟨b, rfl, hb⟩ := hv
  obtain rfl : b = w := Except.ok.inj hw
  exact hb

lemma skips_element (k : BlockExternal) : Skips B (skip (BlockTypes.size k)) (elementField k) := by
  apply skips_of_length
  intro v w hv hw
  simp only [elementField, FieldType.HasType, ItemType.HasType] at hv
  obtain ⟨b, rfl, hb⟩ := hv
  obtain rfl : b = w := Except.ok.inj hw
  exact hb.1

lemma skips_bool : Skips B skipBool (.item .bool) := by
  intro v w hv hw rest
  simp only [FieldType.HasType, ItemType.HasType] at hv
  obtain ⟨b, rfl⟩ := hv
  obtain rfl : [if b then 1 else 0] = w := Except.ok.inj hw
  cases b <;> rfl

lemma take_drop_writeUint32 {k : ℕ} {size : Bytes} (h : writeUint32 k = .ok size) (rest : Bytes) :
    BigEndian.ofBytes ((size ++ rest).take 4) = k ∧ (size ++ rest).drop 4 = rest := by
  unfold writeUint32 at h
  split at h
  · rename_i hk
    obtain rfl := Except.ok.inj h
    have hlen := BigEndian.length_toBytes 4 k
    rw [List.take_left' hlen, List.drop_left' hlen]
    exact ⟨BigEndian.ofBytes_toBytes (by omega), rfl⟩
  · cases h

lemma skips_bytes : Skips B skipBytes (.item .bytes) := by
  intro v w hv hw rest
  simp only [FieldType.HasType, ItemType.HasType] at hv
  obtain ⟨b, rfl, -⟩ := hv
  obtain ⟨size, hsize, hw⟩ := bind_eq_ok.mp (show streamCounted b = .ok w from hw)
  obtain rfl : size ++ b = w := Except.ok.inj hw
  obtain ⟨hcount, hdrop⟩ := take_drop_writeUint32 hsize (b ++ rest)
  rw [List.append_assoc]
  simp only [skipBytes, hcount, hdrop, skip, List.drop_left]

lemma skips_optional {t : ItemType BlockExternal} (h : Skips B f (.item t)) :
    Skips B (skipOptional f) (.optional t) := by
  intro v w hv hw rest
  simp only [FieldType.HasType] at hv
  rcases hv with rfl | hv
  · obtain rfl : [0] = w := Except.ok.inj hw
    rfl
  · have hsome : ∃ w', streamField B.external (.item t) v = .ok w' ∧ w = 1 :: w' := by
      cases v with
      | none => exact absurd hv (not_hasType_none _ _ t)
      | _ =>
        obtain ⟨w', hw', hw⟩ := bind_eq_ok.mp hw
        exact ⟨w', hw', (Except.ok.inj hw).symm⟩
    obtain ⟨w', hw', rfl⟩ := hsome
    have hrest := h v w' (by simpa only [FieldType.HasType] using hv) hw' rest
    show f (w' ++ rest) = _
    exact hrest

lemma skipTimes_encMany (h : Skips B f t) {vs : List (PyValue Bytes)}
    (hvs : ∀ v ∈ vs, t.HasType B.external NoSurrogate v) {w : Bytes}
    (hw : encMany (streamField B.external t) vs = .ok w) (rest : Bytes) :
    skipTimes f vs.length (w ++ rest) = .ok rest := by
  induction vs generalizing w with
  | nil =>
    obtain rfl : [] = w := Except.ok.inj hw
    rfl
  | cons v vs ih =>
    obtain ⟨w₁, hw₁, hw⟩ := bind_eq_ok.mp hw
    obtain ⟨w₂, hw₂, hw⟩ := bind_eq_ok.mp hw
    obtain rfl : w₁ ++ w₂ = w := Except.ok.inj hw
    rw [List.length_cons, skipTimes, List.append_assoc, h v w₁ (hvs v List.mem_cons_self) hw₁, ok_bind]
    exact ih (fun u hu => hvs u (List.mem_cons_of_mem _ hu)) hw₂

lemma skips_list (h : Skips B f t) : Skips B (skipList f) (.item (.list t)) := by
  intro v w hv hw rest
  simp only [FieldType.HasType, ItemType.HasType] at hv
  obtain ⟨vs, rfl, -, hvs⟩ := hv
  obtain ⟨size, hsize, hw⟩ := bind_eq_ok.mp
    (show streamList (streamField B.external t) (.list vs) = .ok w from hw)
  obtain ⟨ws, hws, hw⟩ := bind_eq_ok.mp hw
  obtain rfl : size ++ ws = w := Except.ok.inj hw
  obtain ⟨hcount, hdrop⟩ := take_drop_writeUint32 hsize (ws ++ rest)
  rw [List.append_assoc]
  simp only [skipList, hcount, hdrop]
  exact skipTimes_encMany h hvs hws rest

lemma skipEach_encEach {fs : List Skip} {ts ts' : List (FieldType BlockExternal)}
    (h : List.Forall₂ (Skips B) fs ts) {vs : List (PyValue Bytes)} {w : Bytes}
    (hvs : FieldType.HaveTypes B.external NoSurrogate (ts ++ ts') vs)
    (hw : encEach (streamFields B.external (ts ++ ts')) vs = .ok w) :
    ∃ w', encEach (streamFields B.external ts') (vs.drop ts.length) = .ok w' ∧
      FieldType.HaveTypes B.external NoSurrogate ts' (vs.drop ts.length) ∧
      ∀ rest, skipEach fs (w ++ rest) = .ok (w' ++ rest) := by
  induction h generalizing vs w with
  | nil => exact ⟨w, hw, hvs, fun rest => rfl⟩
  | @cons f t fs ts hf _ ih =>
    simp only [List.cons_append, FieldType.HaveTypes] at hvs
    obtain ⟨v, vs, rfl, hv, hvs⟩ := hvs
    simp only [List.cons_append, streamFields] at hw
    obtain ⟨w₁, hw₁, hw⟩ := bind_eq_ok.mp hw
    obtain ⟨w₂, hw₂, hw⟩ := bind_eq_ok.mp hw
    obtain rfl : w₁ ++ w₂ = w := Except.ok.inj hw
    obtain ⟨w', hw', hvs', hskip⟩ := ih hvs hw₂
    refine ⟨w', hw', hvs', fun rest => ?_⟩
    rw [skipEach, List.append_assoc, hf v w₁ hv hw₁, ok_bind]
    exact hskip rest

lemma skips_streamable {cls : String} {fs : List Skip} {ts : List (FieldType BlockExternal)}
    (h : List.Forall₂ (Skips B) fs ts) : Skips B (skipEach fs) (.item (.streamable cls ts)) := by
  intro v w hv hw rest
  simp only [FieldType.HasType, ItemType.HasType] at hv
  obtain ⟨vs, rfl, hvs⟩ := hv
  rw [← List.append_nil ts] at hvs
  have hw' : encEach (streamFields B.external (ts ++ [])) vs = .ok w := by
    rw [List.append_nil]
    exact hw
  obtain ⟨w', hnil, hdrop, hskip⟩ := skipEach_encEach h hvs hw'
  simp only [FieldType.HaveTypes] at hdrop
  rw [hdrop] at hnil
  obtain rfl : [] = w' := Except.ok.inj hnil
  exact hskip rest

lemma Skips.congr {g : Skip} (h : Skips B f t) (hfg : ∀ buf, f buf = g buf) : Skips B g t := by
  intro v w hv hw rest
  rw [← hfg]
  exact h v w hv hw rest

end Types

/-! ## The classes -/

section Classes

variable {B : BlockTypes}

lemma skipEach_singleton (f : Skip) (buf : Bytes) : skipEach [f] buf = f buf := by
  rw [skipEach]
  cases f buf <;> rfl

lemma skipEach_cons_cons (f g : Skip) (fs : List Skip) (buf : Bytes) :
    skipEach (f :: g :: fs) buf = f buf >>= fun buf => skipEach (g :: fs) buf := rfl

lemma skipEach_append (fs gs : List Skip) (buf : Bytes) :
    skipEach (fs ++ gs) buf = skipEach fs buf >>= fun buf => skipEach gs buf := by
  induction fs generalizing buf with
  | nil => rfl
  | cons f fs ih =>
    rw [List.cons_append, skipEach, skipEach]
    cases f buf with
    | error e => rfl
    | ok buf' =>
      rw [ok_bind, ok_bind]
      exact ih buf'

lemma skipEach_skip (ns : List ℕ) (buf : Bytes) : skipEach (ns.map skip) buf = skip ns.sum buf := by
  induction ns generalizing buf with
  | nil => rfl
  | cons n ns ih =>
    rw [List.map_cons, skipEach, skip, ok_bind, ih, skip, skip, List.drop_drop, List.sum_cons]

lemma skips_vdfInfo : Skips B skipVdfInfo (.item vdfInfoType) := by
  have helement : Skips B (skip 100) (.item classgroupElementType) :=
    (skips_streamable (.cons (skips_sizedBytes 100) .nil)).congr (skipEach_singleton _)
  have hfields : List.Forall₂ (Skips B) ([32, 8, 100].map skip)
      [bytes32Field, intField .uint64, .item classgroupElementType] :=
    .cons (skips_sizedBytes 32) (.cons (skips_int .uint64) (.cons helement .nil))
  exact (skips_streamable hfields).congr (skipEach_skip [32, 8, 100])

lemma skips_vdfProof : Skips B skipVdfProof (.item vdfProofType) := by
  have hfields : List.Forall₂ (Skips B)
      [skipUint8, skipBytes, skipBool]
      [intField .uint8, .item .bytes, .item .bool] :=
    .cons (skips_int .uint8) (.cons skips_bytes (.cons skips_bool .nil))
  refine (skips_streamable hfields).congr fun buf => ?_
  simp only [skipEach_cons_cons, skipEach_singleton]
  rfl

/-- `skip_challenge_chain_sub_slot` follows the fields of `ChallengeChainSubSlot`. -/
lemma skips_challengeChainSubSlot : Skips B skipChallengeChainSubSlot (.item challengeChainSubSlotType) := by
  have hfields : List.Forall₂ (Skips B)
      [skipVdfInfo, skipOptional skipBytes32, skipOptional skipBytes32, skipOptional skipUint64,
      skipOptional skipUint64]
      [.item vdfInfoType, .optional (.sizedBytes 32), .optional (.sizedBytes 32),
      .optional (.int .uint64), .optional (.int .uint64)] :=
    .cons skips_vdfInfo (.cons (skips_optional (skips_sizedBytes 32))
    (.cons (skips_optional (skips_sizedBytes 32)) (.cons (skips_optional (skips_int .uint64))
    (.cons (skips_optional (skips_int .uint64)) .nil))))
  refine (skips_streamable hfields).congr fun buf => ?_
  simp only [skipEach_cons_cons, skipEach_singleton]
  rfl

lemma skips_infusedChallengeChain :
    Skips B skipInfusedChallengeChain (.item infusedChallengeChainSubSlotType) :=
  (skips_streamable (.cons skips_vdfInfo .nil)).congr (skipEach_singleton _)

/-- `skip_reward_chain_sub_slot` follows the fields of `RewardChainSubSlot`. -/
lemma skips_rewardChainSubSlot : Skips B skipRewardChainSubSlot (.item rewardChainSubSlotType) := by
  have hfields : List.Forall₂ (Skips B)
      [skipVdfInfo, skipBytes32, skipOptional skipBytes32, skipUint8]
      [.item vdfInfoType, bytes32Field, .optional (.sizedBytes 32), intField .uint8] :=
    .cons skips_vdfInfo (.cons (skips_sizedBytes 32) (.cons (skips_optional (skips_sizedBytes 32))
    (.cons (skips_int .uint8) .nil)))
  refine (skips_streamable hfields).congr fun buf => ?_
  simp only [skipEach_cons_cons, skipEach_singleton]
  rfl

lemma skips_subSlotProofs : Skips B skipSubSlotProofs (.item subSlotProofsType) := by
  have hfields : List.Forall₂ (Skips B)
      [skipVdfProof, skipOptional skipVdfProof, skipVdfProof]
      [.item vdfProofType, .optional vdfProofType, .item vdfProofType] :=
    .cons skips_vdfProof (.cons (skips_optional skips_vdfProof) (.cons skips_vdfProof .nil))
  refine (skips_streamable hfields).congr fun buf => ?_
  simp only [skipEach_cons_cons, skipEach_singleton]
  rfl

/-- `skip_end_of_sub_slot_bundle` follows the fields of `EndOfSubSlotBundle`. -/
lemma skips_endOfSubSlotBundle : Skips B skipEndOfSubSlotBundle (.item endOfSubSlotBundleType) := by
  have hfields : List.Forall₂ (Skips B)
      [skipChallengeChainSubSlot, skipOptional skipInfusedChallengeChain, skipRewardChainSubSlot,
      skipSubSlotProofs]
      [.item challengeChainSubSlotType, .optional infusedChallengeChainSubSlotType,
      .item rewardChainSubSlotType, .item subSlotProofsType] :=
    .cons skips_challengeChainSubSlot (.cons (skips_optional skips_infusedChallengeChain)
    (.cons skips_rewardChainSubSlot (.cons skips_subSlotProofs .nil)))
  refine (skips_streamable hfields).congr fun buf => ?_
  simp only [skipEach_cons_cons, skipEach_singleton]
  rfl

/-- `skip_proof_of_space` follows the fields of `ProofOfSpace`. -/
lemma skips_proofOfSpace : Skips B skipProofOfSpace (.item proofOfSpaceType) := by
  have hfields : List.Forall₂ (Skips B)
      [skipBytes32, skipOptional skipG1Element, skipOptional skipBytes32, skipG1Element, skipUint8,
      skipBytes]
      [bytes32Field, .optional (.element .g1Element), .optional (.sizedBytes 32), elementField .g1Element,
      intField .uint8, .item .bytes] :=
    .cons (skips_sizedBytes 32) (.cons (skips_optional (skips_element .g1Element))
    (.cons (skips_optional (skips_sizedBytes 32)) (.cons (skips_element .g1Element)
    (.cons (skips_int .uint8) (.cons skips_bytes .nil)))))
  refine (skips_streamable hfields).congr fun buf => ?_
  simp only [skipEach_cons_cons, skipEach_singleton]
  rfl

/-- `skip_reward_chain_block` follows the fields of `RewardChainBlock`. -/
lemma skips_rewardChainBlock : Skips B skipRewardChainBlock (.item rewardChainBlockType) := by
  have hfields : List.Forall₂ (Skips B)
      [skipUint128, skipUint32, skipUint128, skipUint8, skipBytes32, skipProofOfSpace,
      skipOptional skipVdfInfo, skipG2Element, skipVdfInfo, skipOptional skipVdfInfo, skipG2Element,
      skipVdfInfo, skipOptional skipVdfInfo, skipBool]
      [intField .uint128, intField .uint32, intField .uint128, intField .uint8, bytes32Field,
      .item proofOfSpaceType, .optional vdfInfoType, elementField .g2Element, .item vdfInfoType,
      .optional vdfInfoType, elementField .g2Element, .item vdfInfoType, .optional vdfInfoType,
      .item .bool] :=
    .cons (skips_int .uint128) (.cons (skips_int .uint32) (.cons (skips_int .uint128)
    (.cons (skips_int .uint8) (.cons (skips_sizedBytes 32) (.cons skips_proofOfSpace
    (.cons (skips_optional skips_vdfInfo) (.cons (skips_element .g2Element) (.cons skips_vdfInfo
    (.cons (skips_optional skips_vdfInfo) (.cons (skips_element .g2Element) (.cons skips_vdfInfo
    (.cons (skips_optional skips_vdfInfo) (.cons skips_bool .nil)))))))))))))
  refine (skips_streamable hfields).congr fun buf => ?_
  simp only [skipEach_cons_cons, skipEach_singleton]
  rfl

lemma skips_poolTarget : Skips B skipPoolTarget (.item poolTargetType) := by
  have hfields : List.Forall₂ (Skips B) ([32, 4].map skip)
      [bytes32Field, intField .uint32] :=
    .cons (skips_sizedBytes 32) (.cons (skips_int .uint32) .nil)
  exact (skips_streamable hfields).congr (skipEach_skip [32, 4])

/-- `skip_foliage_block_data` follows the fields of `FoliageBlockData`. -/
lemma skips_foliageBlockData : Skips B skipFoliageBlockData (.item foliageBlockDataType) := by
  have hfields : List.Forall₂ (Skips B)
      [skipBytes32, skipPoolTarget, skipOptional skipG2Element, skipBytes32, skipBytes32, skipBytes32]
      [bytes32Field, .item poolTargetType, .optional (.element .g2Element), bytes32Field, bytes32Field,
      bytes32Field] :=
    .cons (skips_sizedBytes 32) (.cons skips_poolTarget
    (.cons (skips_optional (skips_element .g2Element)) (.cons (skips_sizedBytes 32)
    (.cons (skips_sizedBytes 32) (.cons (skips_sizedBytes 32) .nil)))))
  refine (skips_streamable hfields).congr fun buf => ?_
  simp only [skipEach_cons_cons, skipEach_singleton]
  rfl

/-- `skip_foliage` follows the fields of `Foliage`. -/
lemma skips_foliage : Skips B skipFoliage (.item foliageType) := by
  have hfields : List.Forall₂ (Skips B)
      [skipBytes32, skipBytes32, skipFoliageBlockData, skipG2Element, skipOptional skipBytes32,
      skipOptional skipG2Element]
      [bytes32Field, bytes32Field, .item foliageBlockDataType, elementField .g2Element,
      .optional (.sizedBytes 32), .optional (.element .g2Element)] :=
    .cons (skips_sizedBytes 32) (.cons (skips_sizedBytes 32) (.cons skips_foliageBlockData
    (.cons (skips_element .g2Element) (.cons (skips_optional (skips_sizedBytes 32))
    (.cons (skips_optional (skips_element .g2Element)) .nil)))))
  refine (skips_streamable hfields).congr fun buf => ?_
  simp only [skipEach_cons_cons, skipEach_singleton]
  rfl

lemma skips_foliageTransactionBlock : Skips B skipFoliageTransactionBlock (.item foliageTransactionBlockType) := by
  have hfields : List.Forall₂ (Skips B) ([32, 8, 32, 32, 32, 32].map skip)
      [bytes32Field, intField .uint64, bytes32Field, bytes32Field, bytes32Field, bytes32Field] :=
    .cons (skips_sizedBytes 32) (.cons (skips_int .uint64) (.cons (skips_sizedBytes 32)
    (.cons (skips_sizedBytes 32) (.cons (skips_sizedBytes 32) (.cons (skips_sizedBytes 32) .nil)))))
  exact (skips_streamable hfields).congr (skipEach_skip [32, 8, 32, 32, 32, 32])

lemma skips_coin : Skips B skipCoin (.item coinType) := by
  have hfields : List.Forall₂ (Skips B) ([32, 32, 8].map skip)
      [bytes32Field, bytes32Field, intField .uint64] :=
    .cons (skips_sizedBytes 32) (.cons (skips_sizedBytes 32) (.cons (skips_int .uint64) .nil))
  exact (skips_streamable hfields).congr (skipEach_skip [32, 32, 8])

/-- `skip_transactions_info` follows the fields of `TransactionsInfo`. -/
lemma skips_transactionsInfo : Skips B skipTransactionsInfo (.item transactionsInfoType) := by
  have hfields : List.Forall₂ (Skips B) ([32, 32, 96, 8, 8].map skip ++ [skipList skipCoin])
      [bytes32Field, bytes32Field, elementField .g2Element, intField .uint64, intField .uint64,
        .item (.list (.item coinType))] :=
    .cons (skips_sizedBytes 32) (.cons (skips_sizedBytes 32) (.cons (skips_element .g2Element)
      (.cons (skips_int .uint64) (.cons (skips_int .uint64) (.cons (skips_list skips_coin) .nil)))))
  refine (skips_streamable hfields).congr fun buf => ?_
  rw [skipEach_append, skipEach_skip]
  simp only [skipEach_singleton]
  rfl

lemma skips_beforeGenerator : List.Forall₂ (Skips B)
    [skipList skipEndOfSubSlotBundle, skipRewardChainBlock, skipOptional skipVdfProof, skipVdfProof,
      skipOptional skipVdfProof, skipVdfProof, skipOptional skipVdfProof, skipFoliage,
      skipOptional skipFoliageTransactionBlock, skipOptional skipTransactionsInfo]
    (fullBlockFields.take 10) :=
  .cons (skips_list skips_endOfSubSlotBundle) (.cons skips_rewardChainBlock
    (.cons (skips_optional skips_vdfProof) (.cons skips_vdfProof (.cons (skips_optional skips_vdfProof)
      (.cons skips_vdfProof (.cons (skips_optional skips_vdfProof) (.cons skips_foliage
        (.cons (skips_optional skips_foliageTransactionBlock)
          (.cons (skips_optional skips_transactionsInfo) .nil)))))))))

/-- `generator_from_block` after what comes before the generator. -/
def generatorAfter (serializedLength : Bytes → Except PyError ℕ) (buf : Bytes) :
    Except PyError (Option SerializedProgram) := do
  let first ← pyIndex buf 0
  if first = 0 then return none
  else do
    let buf := buf.drop 1
    let length ← serializedLength buf
    return some (buf.take length)

lemma generatorFromBlock_eq (serializedLength : Bytes → Except PyError ℕ) (buf : Bytes) :
    generatorFromBlock serializedLength buf = skipEach [skipList skipEndOfSubSlotBundle,
      skipRewardChainBlock, skipOptional skipVdfProof, skipVdfProof, skipOptional skipVdfProof,
      skipVdfProof, skipOptional skipVdfProof, skipFoliage, skipOptional skipFoliageTransactionBlock,
      skipOptional skipTransactionsInfo] buf >>= generatorAfter serializedLength := by
  simp only [skipEach_cons_cons, skipEach_singleton, bind_assoc]
  rfl

end Classes

/-- **The cheap parser agrees with the block.** For a block whose fields have their declared types,
`generator_from_block` of its bytes is its transactions generator, `None` exactly when the block has
none. -/
theorem generatorFromBlock_toBytes (B : BlockTypes) (b : FullBlock) (hb : b.Fits B) :
    ∃ buf, b.toBytes B = .ok buf ∧
      generatorFromBlock B.serializedLength buf = .ok b.transactionsGenerator := by
  obtain ⟨buf, hbuf⟩ := hb.exists_toBytes
  refine ⟨buf, hbuf, ?_⟩
  unfold FullBlock.Fits fullBlockType ItemType.HasType at hb
  obtain ⟨vs, hvs, htypes⟩ := hb
  obtain ⟨-, hvs⟩ := PyValue.obj.inj hvs
  subst hvs
  have hfields : FieldType.HaveTypes B.external NoSurrogate
      (fullBlockFields.take 10 ++ fullBlockFields.drop 10) _ := htypes
  have henc : encEach (streamFields B.external (fullBlockFields.take 10 ++ fullBlockFields.drop 10)) _ =
    .ok buf := hbuf
  obtain ⟨w, hw, hrest, hskip⟩ := skipEach_encEach skips_beforeGenerator hfields henc
  have hdrop := hskip []
  rw [List.append_nil, List.append_nil] at hdrop
  rw [generatorFromBlock_eq, hdrop, ok_bind]
  -- what is left are the generator and its references
  obtain ⟨w₁, hw₁, hw⟩ := bind_eq_ok.mp hw
  obtain ⟨w₂, -, hw⟩ := bind_eq_ok.mp hw
  obtain rfl : w₁ ++ w₂ = w := Except.ok.inj hw
  change streamField B.external (.optional (.program .serializedProgram))
    (optionObj .ext b.transactionsGenerator) = .ok w₁ at hw₁
  change FieldType.HaveTypes B.external NoSurrogate [.optional (.program .serializedProgram), _]
    [optionObj .ext b.transactionsGenerator, _] at hrest
  cases hgen : b.transactionsGenerator with
  | none =>
    rw [hgen] at hw₁
    obtain rfl : [0] = w₁ := Except.ok.inj hw₁
    rfl
  | some p =>
    rw [hgen] at hw₁ hrest
    obtain rfl : 1 :: p = w₁ := Except.ok.inj hw₁
    have hprogram : B.isProgram p := by
      simp only [FieldType.HaveTypes, FieldType.HasType, ItemType.HasType, optionObj] at hrest
      obtain ⟨v, _, heq, hv, -⟩ := hrest
      obtain ⟨rfl, -⟩ := List.cons.inj heq
      rcases hv with hv | ⟨x, hx, hprogram⟩
      · cases hv
      · rw [PyValue.ext.inj hx]
        exact hprogram
    show (B.serializedLength (p ++ w₂) >>= fun length => .ok (some ((p ++ w₂).take length))) = _
    rw [B.serializedLength_append p w₂ hprogram, ok_bind, List.take_left' rfl]

/-- Programs that are a single small atom. -/
def atomTypes : BlockTypes where
  valid _ _ := true
  serializedLength b := match b with
    | x :: _ => if x ≤ 0x80 then .ok 1 else .error .valueError
    | [] => .error .valueError
  isProgram p := ∃ x, x ≤ 0x80 ∧ p = [x]
  serializedLength_append := by
    rintro _ rest ⟨x, hx, rfl⟩
    simp [hx]
  of_serializedLength := by
    intro b n h
    cases b with
    | nil => cases h
    | cons x b =>
      simp only at h
      split at h
      · rename_i hx
        obtain rfl := Except.ok.inj h
        exact ⟨by simp, x, hx, rfl⟩
      · cases h

/-- A BLS element of the size of its class. -/
def zeroElement (k : BlockExternal) : Bytes := List.replicate (BlockTypes.size k) 0

/-- A VDF of seven iterations. -/
def slotVdf : VDFInfo := ⟨Bytes32.zero, 7, defaultElement⟩

/-- A proof with a witness of three bytes. -/
def slotVdfProof : VDFProof := ⟨0, [1, 2, 3], false⟩

/-- A finished slot. -/
def slotBundle : EndOfSubSlotBundle :=
  ⟨⟨slotVdf, none, some Bytes32.zero, some 5, none⟩, some ⟨slotVdf⟩,
    ⟨slotVdf, Bytes32.zero, none, 16⟩, ⟨slotVdfProof, some slotVdfProof, slotVdfProof⟩⟩

/-- A reward chain block with a signage point. -/
def slotRewardChainBlock : RewardChainBlock :=
  ⟨3, 1, 9, 4, Bytes32.zero, ⟨Bytes32.zero, some (zeroElement .g1Element), none,
    zeroElement .g1Element, 32, [4, 5]⟩, some slotVdf, zeroElement .g2Element, slotVdf, none,
    zeroElement .g2Element, slotVdf, none, true⟩

/-- The foliage of a transaction block. -/
def slotFoliage : Foliage :=
  ⟨Bytes32.zero, Bytes32.zero, ⟨Bytes32.zero, ⟨Bytes32.zero, 0⟩, none, Bytes32.zero, Bytes32.zero,
    Bytes32.zero⟩, zeroElement .g2Element, some Bytes32.zero, some (zeroElement .g2Element)⟩

/-- A block with a finished slot, a reward claim and a generator. -/
def slotBlock : FullBlock :=
  ⟨[slotBundle], slotRewardChainBlock, some slotVdfProof, slotVdfProof, none, slotVdfProof, none,
    slotFoliage,
    some ⟨Bytes32.zero, 10, Bytes32.zero, Bytes32.zero, Bytes32.zero, Bytes32.zero⟩,
    some ⟨Bytes32.zero, Bytes32.zero, zeroElement .g2Element, 0, 0, [⟨Bytes32.zero, Bytes32.zero, 1⟩]⟩,
    some [0x80], [0]⟩

section Sample

mutual

/-- Whether a value has a field type, as far as it is computed: there is one program and one element of each class. -/
def fieldFits : FieldType BlockExternal → PyValue Bytes → Bool
  | .optional _, .none => true
  | .optional t, v => itemFits t v
  | .item t, v => itemFits t v

/-- Whether a value has an item type. -/
def itemFits : ItemType BlockExternal → PyValue Bytes → Bool
  | .int c, .int n => decide (c.InRange n)
  | .bool, .bool _ => true
  | .sizedBytes size, .bytes b => decide (b.length = size)
  | .bytes, .bytes b => decide (b.length < 2 ^ 32)
  | .list t, .list vs => decide (vs.length < 2 ^ 32) && vs.all fun v => fieldFits t v
  | .streamable cls ts, .obj cls' vs => decide (cls' = cls) && fieldsFit ts vs
  | .program _, .ext x => decide (x = [0x80])
  | .element k, .ext x => decide (x = zeroElement k)
  | _, _ => false

/-- Whether values have the types, position by position. -/
def fieldsFit : List (FieldType BlockExternal) → List (PyValue Bytes) → Bool
  | [], [] => true
  | t :: ts, v :: vs => fieldFits t v && fieldsFit ts vs
  | _, _ => false

end

mutual

lemma hasType_of_fieldFits (t : FieldType BlockExternal) (v : PyValue Bytes) (h : fieldFits t v = true) :
    t.HasType atomTypes.external NoSurrogate v := by
  cases t with
  | item t =>
    unfold FieldType.HasType
    exact hasType_of_itemFits t v (by simpa only [fieldFits] using h)
  | optional t =>
    unfold FieldType.HasType
    cases v with
    | none => exact .inl rfl
    | _ => exact .inr (hasType_of_itemFits t _ (by simpa only [fieldFits] using h))

lemma hasType_of_itemFits (t : ItemType BlockExternal) (v : PyValue Bytes) (h : itemFits t v = true) :
    t.HasType atomTypes.external NoSurrogate v := by
  unfold itemFits at h
  unfold ItemType.HasType
  split at h
  · exact ⟨_, rfl, of_decide_eq_true h⟩
  · exact ⟨_, rfl⟩
  · exact ⟨_, rfl, of_decide_eq_true h⟩
  · exact ⟨_, rfl, of_decide_eq_true h⟩
  · rename_i t vs
    obtain ⟨hlen, hall⟩ := Bool.and_eq_true_iff.mp h
    exact ⟨vs, rfl, of_decide_eq_true hlen, fun w hw => hasType_of_fieldFits t w (List.all_eq_true.mp hall w hw)⟩
  · rename_i cls ts cls' vs
    obtain ⟨hcls, hall⟩ := Bool.and_eq_true_iff.mp h
    exact ⟨vs, by rw [of_decide_eq_true hcls], haveTypes_of_fieldsFit ts vs hall⟩
  · exact ⟨_, rfl, 0x80, by decide, of_decide_eq_true h⟩
  · rename_i k x
    exact ⟨x, rfl, by rw [of_decide_eq_true h]; exact List.length_replicate, rfl⟩
  · cases h

lemma haveTypes_of_fieldsFit (ts : List (FieldType BlockExternal)) (vs : List (PyValue Bytes))
    (h : fieldsFit ts vs = true) : FieldType.HaveTypes atomTypes.external NoSurrogate ts vs := by
  unfold fieldsFit at h
  unfold FieldType.HaveTypes
  split at h
  · rfl
  · rename_i t ts v vs
    obtain ⟨hv, hvs⟩ := Bool.and_eq_true_iff.mp h
    exact ⟨v, vs, rfl, hasType_of_fieldFits t v hv, haveTypes_of_fieldsFit ts vs hvs⟩
  · cases h

end

lemma fits_slotBlock : slotBlock.Fits atomTypes := hasType_of_itemFits fullBlockType slotBlock.obj (by decide +kernel)

end Sample

/-- The generator of the sample block is found in its bytes. -/
theorem generatorFromBlock_toBytes_slotBlock : ∃ buf, slotBlock.toBytes atomTypes = .ok buf ∧
    generatorFromBlock atomTypes.serializedLength buf = .ok (some [0x80]) :=
  generatorFromBlock_toBytes atomTypes slotBlock fits_slotBlock

end Chives
