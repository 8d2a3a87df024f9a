import Chives.Consensus.DifficultyAdjustment

set_option autoImplicit false

/-!
# The record of a block

`consensus/full_block_to_block_record.py`, with `make_sub_epoch_summary` of
`consensus/make_sub_epoch_summary.py`.

## Main definitions

* `makeSubEpochSummary` — the summary of the sub-epoch before.
* `blockToBlockRecord` — the record of a block.

## Main results

* `blockToBlockRecord_eq_ok` — the fields that a record takes from its block.
-/

namespace Chives

open ExceptRun

/-- `make_sub_epoch_summary`. -/
def makeSubEpochSummary (H : Hashes) (constants : ConsensusConstants) (blocks : BlockRecords)
    (blocksIncludedHeight : ℕ) (prevPrevBlock : BlockRecord)
    (newDifficulty newSubSlotIters : Option ℕ) : Except PyError SubEpochSummary := do
  let _ ← pyAssert (prevPrevBlock.height + 2 = blocksIncludedHeight)
  if (blocksIncludedHeight + constants.MAX_SUB_SLOT_BLOCKS) / constants.SUB_EPOCH_BLOCKS ≤ 1 then
    return ⟨constants.GENESIS_CHALLENGE, constants.GENESIS_CHALLENGE, 0, none, none⟩
  else do
    let curr ← blocks.walkBack (fun r => r.subEpochSummaryIncluded.isSome) prevPrevBlock
    let ses ← pySome curr.subEpochSummaryIncluded
    let hashes ← pySome curr.finishedRewardSlotHashes
    let last ← pyLast hashes
    let overflowing ← uint8 (curr.height % constants.SUB_EPOCH_BLOCKS : ℕ)
    return ⟨H.subEpochSummary ses, last, overflowing, newDifficulty, newSubSlotIters⟩

/-- `header_hash` of a full block. -/
def FullBlock.headerHash (H : Hashes) (b : FullBlock) : Bytes32 := H.foliage b.foliage

/-- The hashes of the finished slots of a block, and the genesis challenge for a genesis block
without any. -/
def finishedSlotHashes (constants : ConsensusConstants) (block : FullBlock)
    (hash : EndOfSubSlotBundle → Bytes32) : Option (List Bytes32) :=
  if block.finishedSubSlots ≠ [] then some (block.finishedSubSlots.map hash)
  else if block.height = 0 then some [constants.GENESIS_CHALLENGE]
  else none

/-- `finished_infused_challenge_slot_hashes`. -/
def finishedInfusedSlotHashes (H : Hashes) (block : FullBlock) : Option (List Bytes32) :=
  if block.finishedSubSlots ≠ [] then
    some ((block.finishedSubSlots.filterMap EndOfSubSlotBundle.infusedChallengeChain).map
      H.infusedChallengeChainSubSlot)
  else none

/-- `header_block_to_sub_block_record`. -/
def headerBlockToSubBlockRecord (H : Hashes) (constants : ConsensusConstants) (requiredIters : ℕ)
    (block : FullBlock) (subSlotIters : ℕ) (overflow : Bool)
    (deficit prevTransactionBlockHeight : ℕ) (ses : Option SubEpochSummary) : BlockRecord where
  headerHash := block.headerHash H
  prevHash := block.prevHeaderHash
  height := block.height
  weight := block.weight
  totalIters := block.totalIters
  signagePointIndex := block.rewardChainBlock.signagePointIndex
  challengeVdfOutput := block.rewardChainBlock.challengeChainIpVdf.output
  infusedChallengeVdfOutput := block.rewardChainBlock.infusedChallengeChainIpVdf.map VDFInfo.output
  rewardInfusionNewChallenge := H.rewardChainBlock block.rewardChainBlock
  challengeBlockInfoHash := H.challengeBlockInfo
    ⟨block.rewardChainBlock.proofOfSpace, block.rewardChainBlock.challengeChainSpVdf,
      block.rewardChainBlock.challengeChainSpSignature, block.rewardChainBlock.challengeChainIpVdf⟩
  subSlotIters := subSlotIters
  poolPuzzleHash := block.foliage.foliageBlockData.poolTarget.puzzleHash
  farmerPuzzleHash := block.foliage.foliageBlockData.farmerRewardPuzzleHash
  communityPuzzleHash := block.foliage.foliageBlockData.communityRewardPuzzleHash
  requiredIters := requiredIters
  deficit := deficit
  overflow := overflow
  prevTransactionBlockHeight := prevTransactionBlockHeight
  timestamp := block.foliageTransactionBlock.map FoliageTransactionBlock.timestamp
  prevTransactionBlockHash :=
    block.foliageTransactionBlock.map FoliageTransactionBlock.prevTransactionBlockHash
  fees := block.transactionsInfo.map TransactionsInfo.fees
  rewardClaimsIncorporated := block.transactionsInfo.map TransactionsInfo.rewardClaimsIncorporated
  finishedChallengeSlotHashes :=
    finishedSlotHashes constants block fun s => H.challengeChainSubSlot s.challengeChain
  finishedInfusedChallengeSlotHashes := finishedInfusedSlotHashes H block
  finishedRewardSlotHashes :=
    finishedSlotHashes constants block fun s => H.rewardChainSubSlot s.rewardChain
  subEpochSummaryIncluded := ses

/-- The last sub-epoch summary hash among the finished slots. -/
def foundSesHash (block : FullBlock) : Option Bytes32 :=
  (block.finishedSubSlots.filterMap fun s => s.challengeChain.subepochSummaryHash).getLast?

/-- The sub-epoch summary that a block with a summary hash includes. -/
def includedSummary (H : Hashes) (constants : ConsensusConstants) (blocks : BlockRecords)
    (block : FullBlock) (prevB : Option BlockRecord) : Except PyError (Option SubEpochSummary) :=
  match foundSesHash block, block.finishedSubSlots with
  | some foundHash, slot :: _ => do
    let prevB ← pySome prevB
    let prevPrev ← blocks.blockRecord prevB.prevHash
    let ses ← makeSubEpochSummary H constants blocks block.height prevPrev
      slot.challengeChain.newDifficulty slot.challengeChain.newSubSlotIters
    if H.subEpochSummary ses ≠ foundHash then throw .valueError else return some ses
  | _, _ => .ok none

/-- The walk to the previous transaction block, which may end at an unknown block:
`while curr is not None and not curr.is_transaction_block: curr = blocks.try_block_record(…)`. -/
def prevTransactionBlockHeightFrom (blocks : BlockRecords) : ℕ → Option BlockRecord → Except PyError ℕ
  | _, none => .ok 0
  | 0, some _ => .error .divergence
  | fuel + 1, some r =>
    if r.isTransactionBlock then .ok r.height
    else prevTransactionBlockHeightFrom blocks fuel (blocks.get r.prevHash)

/-- `block_to_block_record`. -/
def blockToBlockRecord (H : Hashes) (constants : ConsensusConstants) (blocks : BlockchainInterface)
    (requiredIters : ℕ) (block : FullBlock) : Except PyError BlockRecord := do
  let prevB := blocks.records.get block.prevHeaderHash
  let _ ← pyAssert (block.height > 0 → prevB.isSome)
  let (subSlotIters, _) ← getNextSubSlotItersAndDifficulty constants
    (decide (block.finishedSubSlots ≠ [])) prevB blocks
  let overflow ← isOverflowBlock constants block.rewardChainBlock.signagePointIndex
  let deficit ← calculateDeficit constants block.height prevB overflow block.finishedSubSlots.length
  let ses ← includedSummary H constants blocks.records block prevB
  let prevTransactionBlockHeight ←
    prevTransactionBlockHeightFrom blocks.records blocks.records.fuel prevB
  return headerBlockToSubBlockRecord H constants requiredIters block subSlotIters overflow deficit
    prevTransactionBlockHeight ses

lemma blockToBlockRecord_eq_ok {H : Hashes} {constants : ConsensusConstants}
    {blocks : BlockchainInterface} {requiredIters : ℕ} {block : FullBlock} {r : BlockRecord}
    (h : blockToBlockRecord H constants blocks requiredIters block = .ok r) :
    ∃ subSlotIters overflow deficit prevTransactionBlockHeight ses,
      calculateDeficit constants block.height (blocks.records.get block.prevHeaderHash) overflow
        block.finishedSubSlots.length = .ok deficit ∧
      includedSummary H constants blocks.records block
        (blocks.records.get block.prevHeaderHash) = .ok ses ∧
      r = headerBlockToSubBlockRecord H constants requiredIters block subSlotIters overflow deficit
        prevTransactionBlockHeight ses := by
  simp only [blockToBlockRecord] at h
  obtain ⟨-, -, h⟩ := bind_eq_ok.mp h
  obtain ⟨⟨subSlotIters, difficulty⟩, -, h⟩ := bind_eq_ok.mp h
  obtain ⟨overflow, -, h⟩ := bind_eq_ok.mp h
  obtain ⟨deficit, hdeficit, h⟩ := bind_eq_ok.mp h
  obtain ⟨ses, hses, h⟩ := bind_eq_ok.mp h
  obtain ⟨height, -, h⟩ := bind_eq_ok.mp h
  exact ⟨subSlotIters, overflow, deficit, height, ses, hdeficit, hses, (Except.ok.inj h).symm⟩

end Chives
