import Chives.Consensus.FullBlockToBlockRecord

set_option autoImplicit false

/-!
# The summary after a block

`next_sub_epoch_summary` of `consensus/make_sub_epoch_summary.py`: the sub-epoch summary that may be included after a
block, if it should be.

## Main definitions

* `nextSubEpochSummary` — the function.
-/

namespace Chives

/-- Whether the epoch can finish soon after the block on top of the given one, whose deficit will be zero. -/
def canFinishEpochSoon (constants : ConsensusConstants) (blocks : BlockRecords) (prevB : BlockRecord) :
    Except PyError Bool := do
  let next ← uint32 (prevB.height + 2)
  if heightCanBeFirstInEpoch constants next then
    if (prevB.height + 2) % constants.SUB_EPOCH_BLOCKS > 1 then do
      let (passed, last) ← blocks.visit (fun r => decide (r.height % constants.SUB_EPOCH_BLOCKS = 0)) prevB
      return !(passed ++ [last]).any fun r => (r.subEpochSummaryIncluded.bind SubEpochSummary.newDifficulty).isSome
    else return true
  else do
    let later ← uint32 (prevB.height + constants.MAX_SUB_SLOT_BLOCKS + 2)
    return heightCanBeFirstInEpoch constants later

/-- The deficit of a block, and whether the sub-epoch and the epoch can finish after it. -/
def canFinishAfter (constants : ConsensusConstants) (blocks : BlockRecords) (prevB : BlockRecord) (overflow : Bool)
    (numFinishedSubSlots : ℕ) (canFinishSoon : Bool) : Except PyError (ℕ × Bool × Bool) :=
  if canFinishSoon then do
    let canFinishEpoch ← canFinishEpochSoon constants blocks prevB
    return (0, true, canFinishEpoch)
  else do
    let height ← uint32 (prevB.height + 1)
    let deficit ← calculateDeficit constants height (some prevB) overflow numFinishedSubSlots
    let (canFinishSe, canFinishEpoch) ←
      canFinishSubAndFullEpoch constants blocks height prevB.headerHash deficit false
    return (deficit, canFinishSe, canFinishEpoch)

/-- The difficulty and the iterations of the next epoch. -/
def nextEpochParameters (constants : ConsensusConstants) (blocks : BlockchainInterface) (requiredIters : ℕ)
    (block : FullBlock) (prevB : BlockRecord) (subSlotIters deficit : ℕ) (overflow : Bool) :
    Except PyError (ℕ × ℕ) := do
  let spIters ← calculateSpIters constants subSlotIters block.rewardChainBlock.signagePointIndex
  let ipIters ← calculateIpIters constants subSlotIters block.rewardChainBlock.signagePointIndex requiredIters
  let height ← uint32 (prevB.height + 1)
  let prevPrev ← blocks.records.blockRecord prevB.prevHash
  let difficulty ← uint64 ((prevB.weight : ℤ) - prevPrev.weight)
  let spTotalIters ← uint128 ((block.totalIters : ℤ) - ipIters + spIters - (if overflow then subSlotIters else 0 : ℕ))
  let nextDifficulty ← getNextDifficulty constants blocks block.prevHeaderHash height difficulty deficit false true
    spTotalIters true
  let nextSubSlotIters ← getNextSubSlotIters constants blocks block.prevHeaderHash height subSlotIters deficit false true
    spTotalIters true
  return (nextDifficulty, nextSubSlotIters)

/-- `next_sub_epoch_summary`. -/
def nextSubEpochSummary (H : Hashes) (constants : ConsensusConstants) (blocks : BlockchainInterface) (requiredIters : ℕ)
    (block : FullBlock) (canFinishSoon : Bool) : Except PyError (Option SubEpochSummary) :=
  match blocks.records.get block.prevHeaderHash with
  | none => .ok none
  | some prevB =>
    if prevB.height = 0 then .ok none
    else if (block.finishedSubSlots.head?.bind fun s => s.challengeChain.newDifficulty).isSome then .ok none
    else do
      let (subSlotIters, _) ← getNextSubSlotItersAndDifficulty constants (decide (block.finishedSubSlots.length > 0))
        (some prevB) blocks
      let overflow ← isOverflowBlock constants block.rewardChainBlock.signagePointIndex
      if (block.finishedSubSlots.head?.bind fun s => s.challengeChain.subepochSummaryHash).isSome then return none
      else do
        let (deficit, canFinishSe, canFinishEpoch) ← canFinishAfter constants blocks.records prevB overflow
          block.finishedSubSlots.length canFinishSoon
        if !canFinishSe then return none
        else do
          let height ← uint32 (prevB.height + 2)
          if canFinishEpoch then do
            let (nextDifficulty, nextSubSlotIters) ← nextEpochParameters constants blocks requiredIters block prevB
              subSlotIters deficit overflow
            let ses ← makeSubEpochSummary H constants blocks.records height prevB (some nextDifficulty)
              (some nextSubSlotIters)
            return some ses
          else do
            let ses ← makeSubEpochSummary H constants blocks.records height prevB none none
            return some ses

end Chives
