import Chives.Consensus.BlockRecords
import Chives.Consensus.PotIterations

set_option autoImplicit false

/-!
# Difficulty adjustment

`consensus/difficulty_adjustment.py`, with the parts of `BlockchainInterface` it uses.

## Main definitions

* `BlockchainInterface` — block records and the hashes of the main chain by height.
* `canFinishSubAndFullEpoch` — whether a new sub-slot starts a sub-epoch or an epoch.
* `getNextSubSlotItersAndDifficulty` — the parameters of the next block.
-/

namespace Chives

open ExceptRun

/-- The methods of `BlockchainInterface` that validation uses: `block_record` and `contains_block`
look into the records, `height_to_hash` and `contains_height` into the main chain. -/
structure BlockchainInterface where
  records : BlockRecords
  heightToHash : ℕ → Option Bytes32

/-- `BlockCache(blocks)`: no heights are known. -/
def blockCache (blocks : BlockRecords) : BlockchainInterface := ⟨blocks, fun _ => none⟩

/-- `truncate_to_significant_bits`, of a number that is not negative. -/
def truncateToSignificantBits (x numSignificantBits : ℕ) : ℕ :=
  if numSignificantBits > x.size then x
  else x &&& (2 ^ x.size - 1 - (2 ^ (x.size - numSignificantBits) - 1))

/-- `count_significant_bits`. -/
def countSignificantBits (x : ℕ) : ℕ :=
  match (List.range x.size).find? fun i => x.testBit i with
  | some i => x.size - i
  | none => 0

/-! ## Blocks of earlier epochs -/

/-- `height_to_block_record`, after `assert blocks.contains_height(h)`. -/
def BlockchainInterface.recordAtHeight (blocks : BlockchainInterface) (h : ℕ) :
    Except PyError BlockRecord := do
  let hash ← pySome (blocks.heightToHash h)
  blocks.records.blockRecord hash

/-- `_get_blocks_at_height`: directly if the block is on the main chain, else one by one. -/
def getBlocksAtHeight (blocks : BlockchainInterface) (prevB : BlockRecord)
    (targetHeight maxNumBlocks : ℕ) : Except PyError (List BlockRecord) :=
  if blocks.heightToHash prevB.height = some prevB.headerHash then
    (List.range' targetHeight maxNumBlocks).mapM blocks.recordAtHeight
  else do
    let (passed, last) ← blocks.records.visit
      (fun r => decide (r.height < targetHeight) || decide (r.height = 0)) prevB
    return ((passed ++ [last]).filter fun r =>
      decide (targetHeight ≤ r.height) && decide (r.height < targetHeight + maxNumBlocks)).reverse

/-- The last block before the one that includes a sub-epoch summary:
`while next_b.sub_epoch_summary_included is None: …`. -/
def lastBeforeSummary (currB nextB : BlockRecord) : List BlockRecord → Except PyError BlockRecord
  | [] => if nextB.subEpochSummaryIncluded.isSome then .ok currB else .error .indexError
  | b :: fetched =>
    if nextB.subEpochSummaryIncluded.isSome then .ok currB else lastBeforeSummary nextB b fetched

/-- The last transaction block before a block. -/
def prevTransactionBlockOf (blocks : BlockRecords) (b : BlockRecord) :
    Except PyError BlockRecord := do
  let p ← blocks.blockRecord b.prevHash
  blocks.walkBack BlockRecord.isTransactionBlock p

/-- The second to last transaction block at or before a block. -/
def secondToLastTransactionBlock (blocks : BlockRecords) (b : BlockRecord) :
    Except PyError BlockRecord :=
  if b.isTransactionBlock then prevTransactionBlockOf blocks b
  else do
    let t ← prevTransactionBlockOf blocks b
    prevTransactionBlockOf blocks t

/-- `_get_second_to_last_transaction_block_in_previous_epoch`. -/
def getSecondToLastTransactionBlockInPreviousEpoch (constants : ConsensusConstants)
    (blocks : BlockchainInterface) (lastB : BlockRecord) : Except PyError BlockRecord := do
  let heightInNextEpoch :=
    lastB.height + 2 * constants.MAX_SUB_SLOT_BLOCKS + constants.MIN_BLOCKS_PER_CHALLENGE_BLOCK + 5
  let heightEpochSurpass ←
    uint32 (heightInNextEpoch - heightInNextEpoch % constants.EPOCH_BLOCKS : ℕ)
  let heightPrevEpochSurpass ← uint32 ((heightEpochSurpass : ℤ) - constants.EPOCH_BLOCKS)
  let _ ← pyAssert (heightPrevEpochSurpass % constants.EPOCH_BLOCKS = 0)
  let _ ← pyAssert (heightInNextEpoch - heightEpochSurpass < 5 * constants.MAX_SUB_SLOT_BLOCKS)
  if heightPrevEpochSurpass = 0 then do
    let fetched ← getBlocksAtHeight blocks lastB 0 1
    pyIndex fetched 0
  else do
    let start ← uint32 ((heightPrevEpochSurpass : ℤ) - constants.MAX_SUB_SLOT_BLOCKS - 1)
    let fetched ← getBlocksAtHeight blocks lastB start
      (3 * constants.MAX_SUB_SLOT_BLOCKS + constants.MIN_BLOCKS_PER_CHALLENGE_BLOCK + 3)
    let currB ← pyIndex fetched constants.MAX_SUB_SLOT_BLOCKS
    let _ ← pyAssert (currB.height + 1 = heightPrevEpochSurpass)
    let nextB ← pyIndex fetched (constants.MAX_SUB_SLOT_BLOCKS + 1)
    let _ ← pyAssert (nextB.height = heightPrevEpochSurpass)
    let last ← lastBeforeSummary currB nextB (fetched.drop (constants.MAX_SUB_SLOT_BLOCKS + 1))
    secondToLastTransactionBlock blocks.records last

/-! ## Sub-epochs and epochs -/

/-- `height_can_be_first_in_epoch`. -/
def heightCanBeFirstInEpoch (constants : ConsensusConstants) (height : ℕ) : Bool :=
  decide ((height - height % constants.SUB_EPOCH_BLOCKS) % constants.EPOCH_BLOCKS = 0)

/-- Whether a block of the current sub-epoch, before the one at the given height, includes a
summary. At a height next to the start of a sub-epoch there is nothing to look at. -/
def summaryInSubEpoch (constants : ConsensusConstants) (blocks : BlockRecords) (height : ℕ)
    (prevHeaderHash : Bytes32) : Except PyError Bool :=
  if (height + 1) % constants.SUB_EPOCH_BLOCKS > 1 then do
    let p ← blocks.blockRecord prevHeaderHash
    let curr ← blocks.walkBack (fun r => decide (r.height % constants.SUB_EPOCH_BLOCKS = 0) ||
      r.subEpochSummaryIncluded.isSome) p
    return curr.subEpochSummaryIncluded.isSome
  else .ok false

/-- `can_finish_sub_and_full_epoch`. -/
def canFinishSubAndFullEpoch (constants : ConsensusConstants) (blocks : BlockRecords) (height : ℕ)
    (prevHeaderHash : Bytes32) (deficit : ℕ) (blockAtHeightIncludedSes : Bool) :
    Except PyError (Bool × Bool) :=
  if height + 1 < constants.SUB_EPOCH_BLOCKS then .ok (false, false)
  else if deficit > 0 then .ok (false, false)
  else if blockAtHeightIncludedSes then .ok (false, false)
  else do
    let found ← summaryInSubEpoch constants blocks height prevHeaderHash
    if found then return (false, false)
    else do
      let nextHeight ← uint32 (height + 1)
      return (true, heightCanBeFirstInEpoch constants nextHeight)

/-! ## The next parameters -/

/-- The last transaction block before a signage point, from the given block back. -/
def lastBlockCurr (blocks : BlockRecords) (signagePointTotalIters : ℕ) (prevB : BlockRecord) :
    Except PyError BlockRecord :=
  blocks.walkBack (fun r => !decide (r.totalIters > signagePointTotalIters) && r.isTransactionBlock)
    prevB

/-- Whether the parameters stay as they are: `not new_slot or not can_finish_epoch`. -/
def staysInEpoch (constants : ConsensusConstants) (blocks : BlockRecords) (prevHeaderHash : Bytes32)
    (height deficit : ℕ) (blockAtHeightIncludedSes newSlot skipEpochCheck : Bool) :
    Except PyError Bool :=
  if skipEpochCheck then .ok false
  else do
    let (_, canFinishEpoch) ← canFinishSubAndFullEpoch constants blocks height prevHeaderHash deficit
      blockAtHeightIncludedSes
    return !newSlot || !canFinishEpoch

/-- The new sub-slot iterations, from the two transaction blocks that bound the epoch. -/
def subSlotItersOfEpoch (constants : ConsensusConstants) (lastBlockPrev lastBlockCurr : BlockRecord) :
    Except PyError ℕ := do
  let timeCurr ← pySome lastBlockCurr.timestamp
  let timePrev ← pySome lastBlockPrev.timestamp
  let quotient ← pyDiv
    (constants.SUB_SLOT_TIME_TARGET * ((lastBlockCurr.totalIters : ℤ) - lastBlockPrev.totalIters))
    ((timeCurr : ℤ) - timePrev)
  let precise ← uint64 quotient
  let maxSsi ← uint64 (constants.DIFFICULTY_CHANGE_MAX_FACTOR * lastBlockCurr.subSlotIters : ℕ)
  let minSsi ← uint64 (lastBlockCurr.subSlotIters / constants.DIFFICULTY_CHANGE_MAX_FACTOR : ℕ)
  let bounded := if precise ≥ lastBlockCurr.subSlotIters then min precise maxSsi
    else max (max constants.NUM_SPS_SUB_SLOT precise) minSsi
  let truncated := truncateToSignificantBits bounded constants.SIGNIFICANT_BITS
  let newSsi ← uint64 (truncated - truncated % constants.NUM_SPS_SUB_SLOT : ℕ)
  let _ ← pyAssert (countSignificantBits newSsi ≤ constants.SIGNIFICANT_BITS)
  return newSsi

/-- `_get_next_sub_slot_iters`. -/
def getNextSubSlotIters (constants : ConsensusConstants) (blocks : BlockchainInterface)
    (prevHeaderHash : Bytes32) (height currSubSlotIters deficit : ℕ)
    (blockAtHeightIncludedSes newSlot : Bool) (signagePointTotalIters : ℕ)
    (skipEpochCheck : Bool) : Except PyError ℕ := do
  let nextHeight ← uint32 (height + 1)
  if nextHeight < constants.EPOCH_BLOCKS then return constants.SUB_SLOT_ITERS_STARTING
  else match blocks.records.get prevHeaderHash with
    | none => throw .valueError
    | some prevB => do
      let stays ← staysInEpoch constants blocks.records prevHeaderHash height deficit
        blockAtHeightIncludedSes newSlot skipEpochCheck
      if stays then return currSubSlotIters
      else do
        let lastPrev ← getSecondToLastTransactionBlockInPreviousEpoch constants blocks prevB
        let lastCurr ← lastBlockCurr blocks.records signagePointTotalIters prevB
        subSlotItersOfEpoch constants lastPrev lastCurr

/-- The new difficulty, from the two transaction blocks that bound the epoch. -/
def difficultyOfEpoch (constants : ConsensusConstants) (blocks : BlockRecords)
    (prevB lastBlockPrev lastBlockCurr : BlockRecord) : Except PyError ℕ := do
  let timeCurr ← pySome lastBlockCurr.timestamp
  let timePrev ← pySome lastBlockPrev.timestamp
  let actualEpochTime ← uint64 ((timeCurr : ℤ) - timePrev)
  let prevPrev ← blocks.blockRecord prevB.prevHash
  let oldDifficulty ← uint64 ((prevB.weight : ℤ) - prevPrev.weight)
  let quotient ← pyDiv
    (((lastBlockCurr.weight : ℤ) - lastBlockPrev.weight) * constants.SUB_SLOT_TIME_TARGET)
    (constants.SLOT_BLOCKS_TARGET * actualEpochTime : ℕ)
  let precise ← uint64 quotient
  let maxDiff ← uint64 (constants.DIFFICULTY_CHANGE_MAX_FACTOR * oldDifficulty : ℕ)
  let minDiff ← uint64 (oldDifficulty / constants.DIFFICULTY_CHANGE_MAX_FACTOR : ℕ)
  let bounded := if precise ≥ oldDifficulty then min precise maxDiff else max (max 1 precise) minDiff
  let newDifficulty := truncateToSignificantBits bounded constants.SIGNIFICANT_BITS
  let _ ← pyAssert (countSignificantBits newDifficulty ≤ constants.SIGNIFICANT_BITS)
  uint64 newDifficulty

/-- `_get_next_difficulty`. -/
def getNextDifficulty (constants : ConsensusConstants) (blocks : BlockchainInterface)
    (prevHeaderHash : Bytes32) (height currentDifficulty deficit : ℕ)
    (blockAtHeightIncludedSes newSlot : Bool) (signagePointTotalIters : ℕ)
    (skipEpochCheck : Bool) : Except PyError ℕ := do
  let nextHeight ← uint32 (height + 1)
  if nextHeight + 3 * constants.MAX_SUB_SLOT_BLOCKS < constants.EPOCH_BLOCKS then
    return constants.DIFFICULTY_STARTING
  else match blocks.records.get prevHeaderHash with
    | none => throw .valueError
    | some prevB => do
      let stays ← staysInEpoch constants blocks.records prevHeaderHash height deficit
        blockAtHeightIncludedSes newSlot skipEpochCheck
      if stays then return currentDifficulty
      else do
        let lastPrev ← getSecondToLastTransactionBlockInPreviousEpoch constants blocks prevB
        let lastCurr ← lastBlockCurr blocks.records signagePointTotalIters prevB
        difficultyOfEpoch constants blocks.records prevB lastPrev lastCurr

/-- The difficulty at a block: its weight less that of its parent. -/
def prevDifficulty (blocks : BlockRecords) (prevB : BlockRecord) : Except PyError ℕ :=
  if prevB.height ≠ 0 then do
    let p ← blocks.blockRecord prevB.prevHash
    uint64 ((prevB.weight : ℤ) - p.weight)
  else uint64 prevB.weight

/-- `get_next_sub_slot_iters_and_difficulty`. -/
def getNextSubSlotItersAndDifficulty (constants : ConsensusConstants) (isFirstInSubSlot : Bool)
    (prevB : Option BlockRecord) (blocks : BlockchainInterface) : Except PyError (ℕ × ℕ) :=
  match prevB with
  | none => .ok (constants.SUB_SLOT_ITERS_STARTING, constants.DIFFICULTY_STARTING)
  | some prevB => do
    let difficulty ← prevDifficulty blocks.records prevB
    if prevB.subEpochSummaryIncluded.isSome then return (prevB.subSlotIters, difficulty)
    else do
      let spTotalIters ← prevB.spTotalIters constants
      let nextDifficulty ← getNextDifficulty constants blocks prevB.prevHash prevB.height difficulty
        prevB.deficit false isFirstInSubSlot spTotalIters false
      let nextSubSlotIters ← getNextSubSlotIters constants blocks prevB.prevHash prevB.height
        prevB.subSlotIters prevB.deficit false isFirstInSubSlot spTotalIters false
      return (nextSubSlotIters, nextDifficulty)

end Chives
