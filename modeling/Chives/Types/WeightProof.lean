import Chives.Types.Block

set_option autoImplicit false

/-!
# Weight proofs

The classes of `types/weight_proof.py`.

## Main definitions

* `SubEpochData`, `SubSlotData`, `SubEpochChallengeSegment` — what a proof
  says about a sub-epoch, about a part of a slot, and about the slots after a challenge.
* `WeightProof` — a proof.
-/

namespace Chives

/-- `SubEpochData`. -/
structure SubEpochData where
  rewardChainHash : Bytes32
  numBlocksOverflow : ℕ
  newSubSlotIters : Option ℕ
  newDifficulty : Option ℕ
  deriving DecidableEq

/-- `SubSlotData`. -/
structure SubSlotData where
  proofOfSpace : Option ProofOfSpace
  ccSignagePoint : Option VDFProof
  ccInfusionPoint : Option VDFProof
  iccInfusionPoint : Option VDFProof
  ccSpVdfInfo : Option VDFInfo
  signagePointIndex : Option ℕ
  ccSlotEnd : Option VDFProof
  iccSlotEnd : Option VDFProof
  ccSlotEndInfo : Option VDFInfo
  iccSlotEndInfo : Option VDFInfo
  ccIpVdfInfo : Option VDFInfo
  iccIpVdfInfo : Option VDFInfo
  totalIters : Option ℕ
  deriving DecidableEq

namespace SubSlotData

/-- `is_challenge`. -/
def isChallenge (d : SubSlotData) : Bool := d.proofOfSpace.isSome

/-- `is_end_of_slot`. -/
def isEndOfSlot (d : SubSlotData) : Bool := d.ccSlotEndInfo.isSome

end SubSlotData

/-- `SubEpochChallengeSegment`. -/
structure SubEpochChallengeSegment where
  subEpochN : ℕ
  subSlots : List SubSlotData
  rcSlotEndInfo : Option VDFInfo
  deriving DecidableEq

/-- `WeightProof`. -/
structure WeightProof where
  subEpochs : List SubEpochData
  subEpochSegments : List SubEpochChallengeSegment
  recentChainData : List HeaderBlock
  deriving DecidableEq

/-- `HeaderBlock.is_transaction_block`. -/
def HeaderBlock.isTransactionBlock (b : HeaderBlock) : Bool := b.rewardChainBlock.isTransactionBlock

/-- `HeaderBlock.first_in_sub_slot`. -/
def HeaderBlock.firstInSubSlot (b : HeaderBlock) : Bool := decide (b.finishedSubSlots ≠ [])

/-- A header as a block without generator, for the functions of the source that take either class
and read what they share. -/
def HeaderBlock.asFullBlock (b : HeaderBlock) : FullBlock where
  finishedSubSlots := b.finishedSubSlots
  rewardChainBlock := b.rewardChainBlock
  challengeChainSpProof := b.challengeChainSpProof
  challengeChainIpProof := b.challengeChainIpProof
  rewardChainSpProof := b.rewardChainSpProof
  rewardChainIpProof := b.rewardChainIpProof
  infusedChallengeChainIpProof := b.infusedChallengeChainIpProof
  foliage := b.foliage
  foliageTransactionBlock := b.foliageTransactionBlock
  transactionsInfo := b.transactionsInfo
  transactionsGenerator := none
  transactionsGeneratorRefList := []

end Chives
