import Chives.Types.Proofs
import Chives.Util.Ints

set_option autoImplicit false

/-!
# Iterations

`consensus/pot_iterations.py`, `_expected_plot_size` of `consensus/pos_quality.py`,
`calculate_deficit` of `consensus/deficit.py`, and the methods of `BlockRecord` that use them.

## Main definitions

* `isOverflowBlock`, `calculateSpIntervalIters`, `calculateSpIters`,
  `calculateIpIters`, `calculateIterationsQuality` — iterations of signage and
  infusion points.
* `calculateDeficit` — the deficit of a block.
* `BlockRecord.ipIters`, `BlockRecord.spTotalIters` — iterations of a stored block.
-/

namespace Chives

/-- `is_overflow_block`. -/
def isOverflowBlock (constants : ConsensusConstants) (signagePointIndex : ℕ) :
    Except PyError Bool :=
  if signagePointIndex ≥ constants.NUM_SPS_SUB_SLOT then .error .valueError
  else .ok (decide (signagePointIndex + constants.NUM_SP_INTERVALS_EXTRA ≥
    constants.NUM_SPS_SUB_SLOT))

/-- `calculate_sp_interval_iters`. -/
def calculateSpIntervalIters (constants : ConsensusConstants) (subSlotIters : ℕ) :
    Except PyError ℕ := do
  let rest ← pyMod subSlotIters constants.NUM_SPS_SUB_SLOT
  let _ ← pyAssert (rest = 0)
  uint64 (subSlotIters / constants.NUM_SPS_SUB_SLOT : ℕ)

/-- `calculate_sp_iters`. -/
def calculateSpIters (constants : ConsensusConstants) (subSlotIters signagePointIndex : ℕ) :
    Except PyError ℕ :=
  if signagePointIndex ≥ constants.NUM_SPS_SUB_SLOT then .error .valueError
  else do
    let interval ← calculateSpIntervalIters constants subSlotIters
    uint64 (interval * signagePointIndex)

/-- `calculate_ip_iters`. -/
def calculateIpIters (constants : ConsensusConstants)
    (subSlotIters signagePointIndex requiredIters : ℕ) : Except PyError ℕ := do
  let spIters ← calculateSpIters constants subSlotIters signagePointIndex
  let spIntervalIters ← calculateSpIntervalIters constants subSlotIters
  let rest ← pyMod spIters spIntervalIters
  if rest ≠ 0 ∨ spIters ≥ subSlotIters then throw .valueError
  else if requiredIters ≥ spIntervalIters ∨ requiredIters = 0 then throw .valueError
  else uint64 ((spIters + constants.NUM_SP_INTERVALS_EXTRA * spIntervalIters + requiredIters) %
    subSlotIters : ℕ)

/-- `_expected_plot_size`. For `k = 0` the source raises, as it does on division by the `0` here. -/
def expectedPlotSize (k : ℕ) : ℕ := (2 * k + 1) * 2 ^ k / 2

/-- `calculate_iterations_quality`. -/
def calculateIterationsQuality (H : Hashes) (difficultyConstantFactor : ℕ)
    (qualityString : Bytes32) (size difficulty : ℕ) (ccSpOutputHash : Bytes32) :
    Except PyError ℕ := do
  let spQualityString := H.stdHash (qualityString.bytes ++ ccSpOutputHash.bytes)
  let quotient ← pyDiv
    (difficulty * difficultyConstantFactor * BigEndian.ofBytes spQualityString.bytes : ℕ)
    (2 ^ 256 * expectedPlotSize size : ℕ)
  let iters ← uint64 quotient
  return max iters 1

/-- `calculate_deficit`. -/
def calculateDeficit (constants : ConsensusConstants) (height : ℕ) (prevB : Option BlockRecord)
    (overflow : Bool) (numFinishedSubSlots : ℕ) : Except PyError ℕ :=
  if height = 0 then uint8 ((constants.MIN_BLOCKS_PER_CHALLENGE_BLOCK : ℤ) - 1)
  else do
    let prevB ← pySome prevB
    let prevDeficit := prevB.deficit
    if prevDeficit = constants.MIN_BLOCKS_PER_CHALLENGE_BLOCK then
      -- the previous block is an overflow block, maybe in a different sub-slot
      if overflow = true ∧ numFinishedSubSlots = 0 then uint8 prevDeficit
      else uint8 ((prevDeficit : ℤ) - 1)
    else if prevDeficit = 0 then
      if numFinishedSubSlots = 0 then uint8 0
      else if numFinishedSubSlots = 1 ∧ overflow = true then
        uint8 constants.MIN_BLOCKS_PER_CHALLENGE_BLOCK
      else uint8 ((constants.MIN_BLOCKS_PER_CHALLENGE_BLOCK : ℤ) - 1)
    else uint8 ((prevDeficit : ℤ) - 1)

namespace BlockRecord

/-- `is_challenge_block`. -/
def isChallengeBlock (constants : ConsensusConstants) (b : BlockRecord) : Bool :=
  decide (b.deficit + 1 = constants.MIN_BLOCKS_PER_CHALLENGE_BLOCK)

/-- `sp_iters`. -/
def spIters (constants : ConsensusConstants) (b : BlockRecord) : Except PyError ℕ :=
  calculateSpIters constants b.subSlotIters b.signagePointIndex

/-- `ip_iters`. -/
def ipIters (constants : ConsensusConstants) (b : BlockRecord) : Except PyError ℕ :=
  calculateIpIters constants b.subSlotIters b.signagePointIndex b.requiredIters

/-- `sp_sub_slot_total_iters`. -/
def spSubSlotTotalIters (constants : ConsensusConstants) (b : BlockRecord) : Except PyError ℕ := do
  let ip ← b.ipIters constants
  if b.overflow then uint128 ((b.totalIters : ℤ) - ip - b.subSlotIters)
  else uint128 ((b.totalIters : ℤ) - ip)

/-- `sp_total_iters`. -/
def spTotalIters (constants : ConsensusConstants) (b : BlockRecord) : Except PyError ℕ := do
  let start ← b.spSubSlotTotalIters constants
  let sp ← b.spIters constants
  uint128 (start + sp)

end BlockRecord

end Chives
