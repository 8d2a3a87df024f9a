import Chives.Types.Coin

set_option autoImplicit false

/-!
# Blocks

The classes a block is made of (`types/blockchain_format/`, `types/full_block.py`,
`types/header_block.py`, `types/unfinished_block.py`, `types/end_of_slot_bundle.py`) and the block
record kept of it (`consensus/block_record.py`).

## Main definitions

* `FullBlock`, `UnfinishedBlock`, `HeaderBlock`,
  `UnfinishedHeaderBlock` — blocks with and without their final VDFs and their body.
* `BlockRecord` — the record of a block.
* `Hashes` — the `get_hash` of each class.

## Design

Elements of external types (class group elements, BLS keys and signatures, CLVM programs) are kept
as their bytes. The hash of an object is SHA-256 of its Streamable encoding; since nothing is
assumed of SHA-256 beyond what a theorem says, `get_hash` of each class is a field of `Hashes`.
-/

namespace Chives

/-- A class group element, as its 100 bytes. -/
abbrev ClassgroupElement := Bytes

/-- A BLS public key, as its bytes. -/
abbrev G1Element := Bytes

/-- A BLS signature, as its bytes. -/
abbrev G2Element := Bytes

/-- A serialized CLVM program. -/
abbrev SerializedProgram := Bytes

/-- `ClassgroupElement.get_default_element()`. -/
def defaultElement : ClassgroupElement := 0x08 :: List.replicate 99 0

/-! ## VDFs and slots -/

/-- `VDFInfo`. -/
structure VDFInfo where
  challenge : Bytes32
  numberOfIterations : ℕ
  output : ClassgroupElement
  deriving DecidableEq

/-- `VDFProof`. -/
structure VDFProof where
  witnessType : ℕ
  witness : Bytes
  normalizedToIdentity : Bool
  deriving DecidableEq

/-- `ProofOfSpace`. -/
structure ProofOfSpace where
  challenge : Bytes32
  poolPublicKey : Option G1Element
  poolContractPuzzleHash : Option Bytes32
  plotPublicKey : G1Element
  size : ℕ
  proof : Bytes
  deriving DecidableEq

/-- `ChallengeBlockInfo`. -/
structure ChallengeBlockInfo where
  proofOfSpace : ProofOfSpace
  challengeChainSpVdf : Option VDFInfo
  challengeChainSpSignature : G2Element
  challengeChainIpVdf : VDFInfo
  deriving DecidableEq

/-- `ChallengeChainSubSlot`. -/
structure ChallengeChainSubSlot where
  challengeChainEndOfSlotVdf : VDFInfo
  infusedChallengeChainSubSlotHash : Option Bytes32
  subepochSummaryHash : Option Bytes32
  newSubSlotIters : Option ℕ
  newDifficulty : Option ℕ
  deriving DecidableEq

/-- `InfusedChallengeChainSubSlot`. -/
structure InfusedChallengeChainSubSlot where
  infusedChallengeChainEndOfSlotVdf : VDFInfo
  deriving DecidableEq

/-- `RewardChainSubSlot`. -/
structure RewardChainSubSlot where
  endOfSlotVdf : VDFInfo
  challengeChainSubSlotHash : Bytes32
  infusedChallengeChainSubSlotHash : Option Bytes32
  deficit : ℕ
  deriving DecidableEq

/-- `SubSlotProofs`. -/
structure SubSlotProofs where
  challengeChainSlotProof : VDFProof
  infusedChallengeChainSlotProof : Option VDFProof
  rewardChainSlotProof : VDFProof
  deriving DecidableEq

/-- `EndOfSubSlotBundle`. -/
structure EndOfSubSlotBundle where
  challengeChain : ChallengeChainSubSlot
  infusedChallengeChain : Option InfusedChallengeChainSubSlot
  rewardChain : RewardChainSubSlot
  proofs : SubSlotProofs
  deriving DecidableEq

/-- `SubEpochSummary`. -/
structure SubEpochSummary where
  prevSubepochSummaryHash : Bytes32
  rewardChainHash : Bytes32
  numBlocksOverflow : ℕ
  newDifficulty : Option ℕ
  newSubSlotIters : Option ℕ
  deriving DecidableEq

/-! ## The reward chain block -/

/-- `RewardChainBlockUnfinished`. -/
structure RewardChainBlockUnfinished where
  totalIters : ℕ
  signagePointIndex : ℕ
  posSsCcChallengeHash : Bytes32
  proofOfSpace : ProofOfSpace
  challengeChainSpVdf : Option VDFInfo
  challengeChainSpSignature : G2Element
  rewardChainSpVdf : Option VDFInfo
  rewardChainSpSignature : G2Element
  deriving DecidableEq

/-- `RewardChainBlock`. -/
structure RewardChainBlock where
  weight : ℕ
  height : ℕ
  totalIters : ℕ
  signagePointIndex : ℕ
  posSsCcChallengeHash : Bytes32
  proofOfSpace : ProofOfSpace
  challengeChainSpVdf : Option VDFInfo
  challengeChainSpSignature : G2Element
  challengeChainIpVdf : VDFInfo
  rewardChainSpVdf : Option VDFInfo
  rewardChainSpSignature : G2Element
  rewardChainIpVdf : VDFInfo
  infusedChallengeChainIpVdf : Option VDFInfo
  isTransactionBlock : Bool
  deriving DecidableEq

/-- `RewardChainBlock.get_unfinished`. -/
def RewardChainBlock.getUnfinished (b : RewardChainBlock) : RewardChainBlockUnfinished where
  totalIters := b.totalIters
  signagePointIndex := b.signagePointIndex
  posSsCcChallengeHash := b.posSsCcChallengeHash
  proofOfSpace := b.proofOfSpace
  challengeChainSpVdf := b.challengeChainSpVdf
  challengeChainSpSignature := b.challengeChainSpSignature
  rewardChainSpVdf := b.rewardChainSpVdf
  rewardChainSpSignature := b.rewardChainSpSignature

/-! ## The foliage -/

/-- `PoolTarget`. -/
structure PoolTarget where
  puzzleHash : Bytes32
  maxHeight : ℕ
  deriving DecidableEq

/-- `TransactionsInfo`. -/
structure TransactionsInfo where
  generatorRoot : Bytes32
  generatorRefsRoot : Bytes32
  aggregatedSignature : G2Element
  fees : ℕ
  cost : ℕ
  rewardClaimsIncorporated : List Coin
  deriving DecidableEq

/-- `FoliageTransactionBlock`. -/
structure FoliageTransactionBlock where
  prevTransactionBlockHash : Bytes32
  timestamp : ℕ
  filterHash : Bytes32
  additionsRoot : Bytes32
  removalsRoot : Bytes32
  transactionsInfoHash : Bytes32
  deriving DecidableEq

/-- `FoliageBlockData`. -/
structure FoliageBlockData where
  unfinishedRewardBlockHash : Bytes32
  poolTarget : PoolTarget
  poolSignature : Option G2Element
  farmerRewardPuzzleHash : Bytes32
  communityRewardPuzzleHash : Bytes32
  extensionData : Bytes32
  deriving DecidableEq

/-- `Foliage`. -/
structure Foliage where
  prevBlockHash : Bytes32
  rewardBlockHash : Bytes32
  foliageBlockData : FoliageBlockData
  foliageBlockDataSignature : G2Element
  foliageTransactionBlockHash : Option Bytes32
  foliageTransactionBlockSignature : Option G2Element
  deriving DecidableEq

/-! ## Blocks -/

/-- `FullBlock`. -/
structure FullBlock where
  finishedSubSlots : List EndOfSubSlotBundle
  rewardChainBlock : RewardChainBlock
  challengeChainSpProof : Option VDFProof
  challengeChainIpProof : VDFProof
  rewardChainSpProof : Option VDFProof
  rewardChainIpProof : VDFProof
  infusedChallengeChainIpProof : Option VDFProof
  foliage : Foliage
  foliageTransactionBlock : Option FoliageTransactionBlock
  transactionsInfo : Option TransactionsInfo
  transactionsGenerator : Option SerializedProgram
  transactionsGeneratorRefList : List ℕ
  deriving DecidableEq

namespace FullBlock

/-- `prev_header_hash`. -/
def prevHeaderHash (b : FullBlock) : Bytes32 := b.foliage.prevBlockHash

/-- `height`. -/
def height (b : FullBlock) : ℕ := b.rewardChainBlock.height

/-- `weight`. -/
def weight (b : FullBlock) : ℕ := b.rewardChainBlock.weight

/-- `total_iters`. -/
def totalIters (b : FullBlock) : ℕ := b.rewardChainBlock.totalIters

/-- `is_transaction_block`. -/
def isTransactionBlock (b : FullBlock) : Bool := b.foliageTransactionBlock.isSome

/-- `get_included_reward_coins`, a set. -/
def getIncludedRewardCoins (b : FullBlock) : List Coin :=
  if b.isTransactionBlock then
    ((b.transactionsInfo.map TransactionsInfo.rewardClaimsIncorporated).getD []).dedup
  else []

end FullBlock

/-- `UnfinishedBlock`. -/
structure UnfinishedBlock where
  finishedSubSlots : List EndOfSubSlotBundle
  rewardChainBlock : RewardChainBlockUnfinished
  challengeChainSpProof : Option VDFProof
  rewardChainSpProof : Option VDFProof
  foliage : Foliage
  foliageTransactionBlock : Option FoliageTransactionBlock
  transactionsInfo : Option TransactionsInfo
  transactionsGenerator : Option SerializedProgram
  transactionsGeneratorRefList : List ℕ
  deriving DecidableEq

/-- `HeaderBlock`. -/
structure HeaderBlock where
  finishedSubSlots : List EndOfSubSlotBundle
  rewardChainBlock : RewardChainBlock
  challengeChainSpProof : Option VDFProof
  challengeChainIpProof : VDFProof
  rewardChainSpProof : Option VDFProof
  rewardChainIpProof : VDFProof
  infusedChallengeChainIpProof : Option VDFProof
  foliage : Foliage
  foliageTransactionBlock : Option FoliageTransactionBlock
  transactionsFilter : Bytes
  transactionsInfo : Option TransactionsInfo
  deriving DecidableEq

namespace HeaderBlock

/-- `prev_header_hash`. -/
def prevHeaderHash (b : HeaderBlock) : Bytes32 := b.foliage.prevBlockHash

/-- `height`. -/
def height (b : HeaderBlock) : ℕ := b.rewardChainBlock.height

/-- `weight`. -/
def weight (b : HeaderBlock) : ℕ := b.rewardChainBlock.weight

/-- `total_iters`. -/
def totalIters (b : HeaderBlock) : ℕ := b.rewardChainBlock.totalIters

end HeaderBlock

/-- `UnfinishedHeaderBlock`. -/
structure UnfinishedHeaderBlock where
  finishedSubSlots : List EndOfSubSlotBundle
  rewardChainBlock : RewardChainBlockUnfinished
  challengeChainSpProof : Option VDFProof
  rewardChainSpProof : Option VDFProof
  foliage : Foliage
  foliageTransactionBlock : Option FoliageTransactionBlock
  transactionsFilter : Bytes
  deriving DecidableEq

namespace UnfinishedHeaderBlock

/-- `prev_header_hash`. -/
def prevHeaderHash (b : UnfinishedHeaderBlock) : Bytes32 := b.foliage.prevBlockHash

/-- `total_iters`. -/
def totalIters (b : UnfinishedHeaderBlock) : ℕ := b.rewardChainBlock.totalIters

end UnfinishedHeaderBlock

/-! ## Block records -/

/-- `BlockRecord`. -/
structure BlockRecord where
  headerHash : Bytes32
  prevHash : Bytes32
  height : ℕ
  weight : ℕ
  totalIters : ℕ
  signagePointIndex : ℕ
  challengeVdfOutput : ClassgroupElement
  infusedChallengeVdfOutput : Option ClassgroupElement
  rewardInfusionNewChallenge : Bytes32
  challengeBlockInfoHash : Bytes32
  subSlotIters : ℕ
  poolPuzzleHash : Bytes32
  farmerPuzzleHash : Bytes32
  communityPuzzleHash : Bytes32
  requiredIters : ℕ
  deficit : ℕ
  overflow : Bool
  prevTransactionBlockHeight : ℕ
  timestamp : Option ℕ
  prevTransactionBlockHash : Option Bytes32
  fees : Option ℕ
  rewardClaimsIncorporated : Option (List Coin)
  finishedChallengeSlotHashes : Option (List Bytes32)
  finishedInfusedChallengeSlotHashes : Option (List Bytes32)
  finishedRewardSlotHashes : Option (List Bytes32)
  subEpochSummaryIncluded : Option SubEpochSummary
  deriving DecidableEq

namespace BlockRecord

/-- `is_transaction_block`. -/
def isTransactionBlock (b : BlockRecord) : Bool := b.timestamp.isSome

/-- `first_in_sub_slot`. -/
def firstInSubSlot (b : BlockRecord) : Bool := b.finishedChallengeSlotHashes.isSome

end BlockRecord

/-! ## Hashes -/

/-- `get_hash` of the classes whose hashes the modelled code takes, and `Coin.name`. -/
structure Hashes where
  challengeBlockInfo : ChallengeBlockInfo → Bytes32
  challengeChainSubSlot : ChallengeChainSubSlot → Bytes32
  infusedChallengeChainSubSlot : InfusedChallengeChainSubSlot → Bytes32
  rewardChainSubSlot : RewardChainSubSlot → Bytes32
  subEpochSummary : SubEpochSummary → Bytes32
  rewardChainBlock : RewardChainBlock → Bytes32
  rewardChainBlockUnfinished : RewardChainBlockUnfinished → Bytes32
  transactionsInfo : TransactionsInfo → Bytes32
  foliageTransactionBlock : FoliageTransactionBlock → Bytes32
  foliageBlockData : FoliageBlockData → Bytes32
  foliage : Foliage → Bytes32
  vdfOutput : ClassgroupElement → Bytes32
  coinName : Coin → Bytes32
  stdHash : Bytes → Bytes32

end Chives
