import Chives.Types.Block
import Chives.Util.Streamable

set_option autoImplicit false

/-!
# Blocks as bytes

The field declarations of `FullBlock` and of the classes it is made of (`types/full_block.py`,
`types/end_of_slot_bundle.py` and `types/blockchain_format/`), in the order in which Streamable writes
them, and `bytes(block)`.

## Main definitions

* `BlockTypes` — what is assumed of BLS elements and of serialized CLVM programs.
* `fullBlockType` and the types of the other classes — the declared fields.
* `FullBlock.obj` — a block as an object with its fields.
* `FullBlock.toBytes` — `bytes(block)`.

## Main results

* `FullBlock.Fits.exists_toBytes` — a block whose fields have their declared types can be written.
-/

namespace Chives

open ExceptRun PrefixCodec

/-- The types of other packages in a block. -/
inductive BlockExternal
  | g1Element
  | g2Element
  | serializedProgram
  deriving DecidableEq, Repr

/-- What is assumed of the types of other packages: `valid` says which bytes of the right length are a BLS
element, and `serializedLength` is `serialized_length` of `chia_rs`, which gives the length of the program
that a buffer starts with and raises if there is none. -/
structure BlockTypes where
  valid : BlockExternal → Bytes → Bool
  serializedLength : Bytes → Except PyError ℕ
  isProgram : Bytes → Prop
  serializedLength_append : ∀ p rest, isProgram p → serializedLength (p ++ rest) = .ok p.length
  of_serializedLength : ∀ b n, serializedLength b = .ok n → n ≤ b.length ∧ isProgram (b.take n)

namespace BlockTypes

/-- `SIZE` of the BLS elements. -/
def size : BlockExternal → ℕ
  | .g1Element => 48
  | .g2Element => 96
  | .serializedProgram => 0

/-- `SerializedProgram.parse`. -/
def parseProgram (B : BlockTypes) : Decoder PyError Bytes UInt8 := fun f => do
  let length ← B.serializedLength f
  return read length f

/-- `SerializedProgram.parse` and `SerializedProgram.stream`. -/
lemma lawful_program (B : BlockTypes) : Lawful B.isProgram (fun p => .ok p) B.parseProgram where
  dec_enc p hp := by
    refine ⟨p, rfl, fun rest => ?_⟩
    rw [parseProgram, B.serializedLength_append p rest hp, ok_bind, read_append rfl]
    rfl
  enc_dec := by
    intro s p rest h
    simp only [parseProgram] at h
    obtain ⟨n, hn, h⟩ := bind_eq_ok.mp h
    obtain ⟨hle, hp⟩ := B.of_serializedLength s n hn
    have hread : read n s = (p, rest) := Except.ok.inj h
    have htake : s.take n = p := by
      rw [read, List.splitAt_eq, Prod.mk.injEq] at hread
      exact hread.1
    rw [htake] at hp
    exact ⟨hp, p, rfl, eq_append_of_read hread⟩

/-- The types of other packages, for the Streamable functions. Their values are kept as bytes. -/
def external (B : BlockTypes) : ExternalTypes BlockExternal Bytes where
  programParse _ := B.parseProgram
  programStream _ p := .ok p
  isProgram _ := B.isProgram
  program_lawful _ := B.lawful_program
  sizeHint := size
  elementFromBytes k b := if B.valid k b then .ok b else .error .valueError
  elementToBytes _ b := b
  isElement k b := b.length = size k ∧ B.valid k b = true
  element_length _ _ h := h.1
  element_from_to k x h := by simp [h.2]
  element_to_from k b x hlen h := by
    split at h
    · rename_i hv
      obtain rfl := Except.ok.inj h
      exact ⟨⟨hlen, hv⟩, rfl⟩
    · cases h

end BlockTypes

/-! ## Declared fields -/

section Declarations

/-- A field `bytes32`. -/
def bytes32Field : FieldType BlockExternal := .item (.sizedBytes 32)

/-- A field of a sized integer. -/
def intField (c : SizedInt) : FieldType BlockExternal := .item (.int c)

/-- A field of a BLS element. -/
def elementField (k : BlockExternal) : FieldType BlockExternal := .item (.element k)

/-- `ClassgroupElement`. -/
def classgroupElementType : ItemType BlockExternal :=
  .streamable "ClassgroupElement" [.item (.sizedBytes 100)]

/-- `VDFInfo`. -/
def vdfInfoType : ItemType BlockExternal :=
  .streamable "VDFInfo" [bytes32Field, intField .uint64, .item classgroupElementType]

/-- `VDFProof`. -/
def vdfProofType : ItemType BlockExternal :=
  .streamable "VDFProof" [intField .uint8, .item .bytes, .item .bool]

/-- `ProofOfSpace`. -/
def proofOfSpaceType : ItemType BlockExternal :=
  .streamable "ProofOfSpace" [bytes32Field, .optional (.element .g1Element),
    .optional (.sizedBytes 32), elementField .g1Element, intField .uint8, .item .bytes]

/-- `ChallengeChainSubSlot`. -/
def challengeChainSubSlotType : ItemType BlockExternal :=
  .streamable "ChallengeChainSubSlot" [.item vdfInfoType, .optional (.sizedBytes 32),
    .optional (.sizedBytes 32), .optional (.int .uint64), .optional (.int .uint64)]

/-- `InfusedChallengeChainSubSlot`. -/
def infusedChallengeChainSubSlotType : ItemType BlockExternal :=
  .streamable "InfusedChallengeChainSubSlot" [.item vdfInfoType]

/-- `RewardChainSubSlot`. -/
def rewardChainSubSlotType : ItemType BlockExternal :=
  .streamable "RewardChainSubSlot" [.item vdfInfoType, bytes32Field, .optional (.sizedBytes 32),
    intField .uint8]

/-- `SubSlotProofs`. -/
def subSlotProofsType : ItemType BlockExternal :=
  .streamable "SubSlotProofs" [.item vdfProofType, .optional vdfProofType, .item vdfProofType]

/-- `EndOfSubSlotBundle`. -/
def endOfSubSlotBundleType : ItemType BlockExternal :=
  .streamable "EndOfSubSlotBundle" [.item challengeChainSubSlotType,
    .optional infusedChallengeChainSubSlotType, .item rewardChainSubSlotType, .item subSlotProofsType]

/-- `RewardChainBlock`. -/
def rewardChainBlockType : ItemType BlockExternal :=
  .streamable "RewardChainBlock" [intField .uint128, intField .uint32, intField .uint128,
    intField .uint8, bytes32Field, .item proofOfSpaceType, .optional vdfInfoType,
    elementField .g2Element, .item vdfInfoType, .optional vdfInfoType, elementField .g2Element,
    .item vdfInfoType, .optional vdfInfoType, .item .bool]

/-- `PoolTarget`. -/
def poolTargetType : ItemType BlockExternal :=
  .streamable "PoolTarget" [bytes32Field, intField .uint32]

/-- `FoliageBlockData`. -/
def foliageBlockDataType : ItemType BlockExternal :=
  .streamable "FoliageBlockData" [bytes32Field, .item poolTargetType, .optional (.element .g2Element),
    bytes32Field, bytes32Field, bytes32Field]

/-- `Foliage`. -/
def foliageType : ItemType BlockExternal :=
  .streamable "Foliage" [bytes32Field, bytes32Field, .item foliageBlockDataType,
    elementField .g2Element, .optional (.sizedBytes 32), .optional (.element .g2Element)]

/-- `FoliageTransactionBlock`. -/
def foliageTransactionBlockType : ItemType BlockExternal :=
  .streamable "FoliageTransactionBlock" [bytes32Field, intField .uint64, bytes32Field, bytes32Field,
    bytes32Field, bytes32Field]

/-- `Coin`. -/
def coinType : ItemType BlockExternal :=
  .streamable "Coin" [bytes32Field, bytes32Field, intField .uint64]

/-- `TransactionsInfo`. -/
def transactionsInfoType : ItemType BlockExternal :=
  .streamable "TransactionsInfo" [bytes32Field, bytes32Field, elementField .g2Element,
    intField .uint64, intField .uint64, .item (.list (.item coinType))]

/-- The fields of `FullBlock`. -/
def fullBlockFields : List (FieldType BlockExternal) :=
  [.item (.list (.item endOfSubSlotBundleType)), .item rewardChainBlockType, .optional vdfProofType,
    .item vdfProofType, .optional vdfProofType, .item vdfProofType, .optional vdfProofType,
    .item foliageType, .optional foliageTransactionBlockType, .optional transactionsInfoType,
    .optional (.program .serializedProgram), .item (.list (intField .uint32))]

/-- `FullBlock`. -/
def fullBlockType : ItemType BlockExternal := .streamable "FullBlock" fullBlockFields

end Declarations

/-! ## Objects -/

/-- An optional field. -/
def optionObj {α : Type} (f : α → PyValue Bytes) : Option α → PyValue Bytes
  | some x => f x
  | none => .none

/-- A field `bytes32`. -/
def Bytes32.obj (h : Bytes32) : PyValue Bytes := .bytes h.bytes

/-- The object with its fields. -/
def VDFInfo.obj (i : VDFInfo) : PyValue Bytes :=
  .obj "VDFInfo" [i.challenge.obj, .int i.numberOfIterations, .obj "ClassgroupElement" [.bytes i.output]]

/-- The object with its fields. -/
def VDFProof.obj (p : VDFProof) : PyValue Bytes :=
  .obj "VDFProof" [.int p.witnessType, .bytes p.witness, .bool p.normalizedToIdentity]

/-- The object with its fields. -/
def ProofOfSpace.obj (p : ProofOfSpace) : PyValue Bytes :=
  .obj "ProofOfSpace" [p.challenge.obj, optionObj .ext p.poolPublicKey,
    optionObj Bytes32.obj p.poolContractPuzzleHash, .ext p.plotPublicKey, .int p.size, .bytes p.proof]

/-- The object with its fields. -/
def ChallengeChainSubSlot.obj (s : ChallengeChainSubSlot) : PyValue Bytes :=
  .obj "ChallengeChainSubSlot" [s.challengeChainEndOfSlotVdf.obj,
    optionObj Bytes32.obj s.infusedChallengeChainSubSlotHash,
    optionObj Bytes32.obj s.subepochSummaryHash, optionObj (fun n => .int n) s.newSubSlotIters,
    optionObj (fun n => .int n) s.newDifficulty]

/-- The object with its fields. -/
def InfusedChallengeChainSubSlot.obj (s : InfusedChallengeChainSubSlot) : PyValue Bytes :=
  .obj "InfusedChallengeChainSubSlot" [s.infusedChallengeChainEndOfSlotVdf.obj]

/-- The object with its fields. -/
def RewardChainSubSlot.obj (s : RewardChainSubSlot) : PyValue Bytes :=
  .obj "RewardChainSubSlot" [s.endOfSlotVdf.obj, s.challengeChainSubSlotHash.obj,
    optionObj Bytes32.obj s.infusedChallengeChainSubSlotHash, .int s.deficit]

/-- The object with its fields. -/
def SubSlotProofs.obj (p : SubSlotProofs) : PyValue Bytes :=
  .obj "SubSlotProofs" [p.challengeChainSlotProof.obj,
    optionObj VDFProof.obj p.infusedChallengeChainSlotProof, p.rewardChainSlotProof.obj]

/-- The object with its fields. -/
def EndOfSubSlotBundle.obj (s : EndOfSubSlotBundle) : PyValue Bytes :=
  .obj "EndOfSubSlotBundle" [s.challengeChain.obj,
    optionObj InfusedChallengeChainSubSlot.obj s.infusedChallengeChain, s.rewardChain.obj, s.proofs.obj]

/-- The object with its fields. -/
def RewardChainBlock.obj (b : RewardChainBlock) : PyValue Bytes :=
  .obj "RewardChainBlock" [.int b.weight, .int b.height, .int b.totalIters, .int b.signagePointIndex,
    b.posSsCcChallengeHash.obj, b.proofOfSpace.obj, optionObj VDFInfo.obj b.challengeChainSpVdf,
    .ext b.challengeChainSpSignature, b.challengeChainIpVdf.obj,
    optionObj VDFInfo.obj b.rewardChainSpVdf, .ext b.rewardChainSpSignature, b.rewardChainIpVdf.obj,
    optionObj VDFInfo.obj b.infusedChallengeChainIpVdf, .bool b.isTransactionBlock]

/-- The object with its fields. -/
def PoolTarget.obj (p : PoolTarget) : PyValue Bytes :=
  .obj "PoolTarget" [p.puzzleHash.obj, .int p.maxHeight]

/-- The object with its fields. -/
def FoliageBlockData.obj (d : FoliageBlockData) : PyValue Bytes :=
  .obj "FoliageBlockData" [d.unfinishedRewardBlockHash.obj, d.poolTarget.obj,
    optionObj .ext d.poolSignature, d.farmerRewardPuzzleHash.obj, d.communityRewardPuzzleHash.obj,
    d.extensionData.obj]

/-- The object with its fields. -/
def Foliage.obj (f : Foliage) : PyValue Bytes :=
  .obj "Foliage" [f.prevBlockHash.obj, f.rewardBlockHash.obj, f.foliageBlockData.obj,
    .ext f.foliageBlockDataSignature, optionObj Bytes32.obj f.foliageTransactionBlockHash,
    optionObj .ext f.foliageTransactionBlockSignature]

/-- The object with its fields. -/
def FoliageTransactionBlock.obj (f : FoliageTransactionBlock) : PyValue Bytes :=
  .obj "FoliageTransactionBlock" [f.prevTransactionBlockHash.obj, .int f.timestamp, f.filterHash.obj,
    f.additionsRoot.obj, f.removalsRoot.obj, f.transactionsInfoHash.obj]

/-- The object with its fields. -/
def Coin.obj (c : Coin) : PyValue Bytes :=
  .obj "Coin" [c.parentCoinInfo.obj, c.puzzleHash.obj, .int c.amount]

/-- The object with its fields. -/
def TransactionsInfo.obj (i : TransactionsInfo) : PyValue Bytes :=
  .obj "TransactionsInfo" [i.generatorRoot.obj, i.generatorRefsRoot.obj, .ext i.aggregatedSignature,
    .int i.fees, .int i.cost, .list (i.rewardClaimsIncorporated.map Coin.obj)]

namespace FullBlock

/-- The object with its fields. -/
def obj (b : FullBlock) : PyValue Bytes :=
  .obj "FullBlock" [.list (b.finishedSubSlots.map EndOfSubSlotBundle.obj), b.rewardChainBlock.obj,
    optionObj VDFProof.obj b.challengeChainSpProof, b.challengeChainIpProof.obj,
    optionObj VDFProof.obj b.rewardChainSpProof, b.rewardChainIpProof.obj,
    optionObj VDFProof.obj b.infusedChallengeChainIpProof, b.foliage.obj,
    optionObj FoliageTransactionBlock.obj b.foliageTransactionBlock,
    optionObj TransactionsInfo.obj b.transactionsInfo, optionObj .ext b.transactionsGenerator,
    .list (b.transactionsGeneratorRefList.map fun n => .int n)]

/-- `bytes(block)`. -/
def toBytes (B : BlockTypes) (b : FullBlock) : Except PyError Bytes :=
  Streamable.toBytes B.external "FullBlock" fullBlockFields b.obj

/-- The fields of the block have their declared types, and its lengths can be written. -/
def Fits (B : BlockTypes) (b : FullBlock) : Prop :=
  ItemType.HasType B.external NoSurrogate fullBlockType b.obj

lemma Fits.exists_toBytes {B : BlockTypes} {b : FullBlock} (h : b.Fits B) :
    ∃ buf, b.toBytes B = .ok buf := by
  obtain ⟨buf, hbuf, -⟩ := (Streamable.lawful_item B.external fullBlockType).dec_enc b.obj h
  exact ⟨buf, hbuf⟩

end FullBlock

end Chives
