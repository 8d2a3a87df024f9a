import Chives.Consensus.BlockRecords
import Chives.Consensus.PotIterations

set_option autoImplicit false

/-!
# Challenges and signage points

`consensus/get_block_challenge.py` and `consensus/vdf_info_computation.py`: where the challenge of
a block comes from, and where the VDFs of its signage point start.

## Main definitions

* `finalEosIsAlreadyIncluded`, `getBlockChallenge` — the challenge of a block.
* `getSignagePointVdfInfo` — the start of the signage point VDFs.
-/

namespace Chives

open ExceptRun

/-! ## The challenge of a block -/

/-- Whether a record is an overflow block close to the given total iterations. -/
def isCloseOverflow (totalIters subSlotIters : ℕ) (r : BlockRecord) : Bool :=
  r.overflow && decide ((totalIters : ℤ) - r.totalIters < (subSlotIters / 2 : ℕ))

/-- `final_eos_is_already_included`. -/
def finalEosIsAlreadyIncluded (finishedSubSlots : List EndOfSubSlotBundle)
    (prevHeaderHash : Bytes32) (totalIters : ℕ) (blocks : BlockRecords) (subSlotIters : ℕ) :
    Except PyError Bool :=
  if finishedSubSlots ≠ [] then .ok false
  else do
    let prev ← blocks.blockRecord prevHeaderHash
    let (passed, curr) ← blocks.visit (fun r => r.firstInSubSlot || decide (r.height = 0)) prev
    return curr.firstInSubSlot && (prev :: passed).any (isCloseOverflow totalIters subSlotIters)

/-- The loop of `get_block_challenge`, with the challenge hashes found so far, newest first. The
parent is looked up before the number of hashes is compared with the number needed. -/
def challengeHashesFrom (blocks : BlockRecords) (challengesToLookFor : ℕ) :
    ℕ → BlockRecord → List Bytes32 → Except PyError (List Bytes32)
  | 0, _, _ => .error .divergence
  | fuel + 1, curr, found =>
    if challengesToLookFor ≤ found.length then .ok found
    else
      let found := found ++ (curr.finishedChallengeSlotHashes.getD []).reverse
      if curr.height = 0 then
        if curr.finishedChallengeSlotHashes.getD [] = [] then .error .assertionError else .ok found
      else do
        let p ← blocks.blockRecord curr.prevHash
        challengeHashesFrom blocks challengesToLookFor fuel p found

/-- The challenge of a block without finished sub-slots. -/
def challengeOnTop (blocks : BlockRecords) (prevHeaderHash : Bytes32) (challengesToLookFor : ℕ) :
    Except PyError Bytes32 := do
  let prev ← blocks.blockRecord prevHeaderHash
  let found ← challengeHashesFrom blocks challengesToLookFor blocks.fuel prev []
  pyIndex found (challengesToLookFor - 1)

/-- `get_block_challenge`. -/
def getBlockChallenge (H : Hashes) (constants : ConsensusConstants)
    (finishedSubSlots : List EndOfSubSlotBundle) (prevHeaderHash : Bytes32) (blocks : BlockRecords)
    (genesisBlock overflow skipOverflowLastSsValidation : Bool) : Except PyError Bytes32 :=
  match finishedSubSlots.getLast? with
  | some slot =>
    if overflow && !skipOverflowLastSsValidation then
      .ok slot.challengeChain.challengeChainEndOfSlotVdf.challenge
    else .ok (H.challengeChainSubSlot slot.challengeChain)
  | none =>
    if genesisBlock then .ok constants.GENESIS_CHALLENGE
    else challengeOnTop blocks prevHeaderHash
      (if overflow && !skipOverflowLastSsValidation then 2 else 1)

/-! ## The start of the signage point VDFs -/

/-- What `get_signage_point_vdf_info` returns: the challenges, the start element of the challenge
chain and the iterations, which are the same for both chains. The reward chain starts from the
default element. -/
structure SignagePointVdfInfo where
  ccVdfChallenge : Bytes32
  rcVdfChallenge : Bytes32
  ccVdfInput : ClassgroupElement
  spVdfIters : ℕ
  deriving DecidableEq

/-- The last finished slot hash of a record that is the first in its sub-slot. -/
def lastSlotHash (hashes : Option (List Bytes32)) : Except PyError Bytes32 := do
  let hashes ← pySome hashes
  pyLast hashes

/-- The reward chain challenge, the start element and the iterations from a block that was infused
before the signage point. -/
def spVdfFromBlock (spTotalIters : ℕ) (b : BlockRecord) :
    Except PyError (Bytes32 × ClassgroupElement × ℕ) := do
  let iters ← uint64 ((spTotalIters : ℤ) - b.totalIters)
  return (b.rewardInfusionNewChallenge, b.challengeVdfOutput, iters)

/-- The same from a block at which the walk of cases 4 and 6 ended: either it was infused before the
signage point, or it is the first of the sub-slot. -/
def spVdfStart (spTotalIters spIters : ℕ) (curr : BlockRecord) :
    Except PyError (Bytes32 × ClassgroupElement × ℕ) :=
  if curr.totalIters < spTotalIters then spVdfFromBlock spTotalIters curr
  else (lastSlotHash curr.finishedRewardSlotHashes).map fun h => (h, defaultElement, spIters)

/-- Cases 4 and 6: from the previous block back to the signage point or the start of the
sub-slot. -/
def spVdfInSubSlot (blocks : BlockRecords) (prevB : BlockRecord) (spTotalIters spIters : ℕ) :
    Except PyError SignagePointVdfInfo := do
  let curr ← blocks.walkBack
    (fun r => r.firstInSubSlot || !decide (r.totalIters > spTotalIters)) prevB
  let (rcVdfChallenge, ccVdfInput, spVdfIters) ← spVdfStart spTotalIters spIters curr
  let start ← blocks.walkBack BlockRecord.firstInSubSlot curr
  let ccVdfChallenge ← lastSlotHash start.finishedChallengeSlotHashes
  return ⟨ccVdfChallenge, rcVdfChallenge, ccVdfInput, spVdfIters⟩

/-- The finished slots of a record, newest first, as pairs of challenge and reward chain hashes. -/
def foundSubSlots (r : BlockRecord) : Except PyError (List (Bytes32 × Bytes32)) :=
  match r.finishedChallengeSlotHashes with
  | none => .ok []
  | some challengeHashes => do
    let rewardHashes ← pySome r.finishedRewardSlotHashes
    return (challengeHashes.zip rewardHashes).reverse

/-- The loop of case 5: back to the second finished slot, with the first block passed that was
infused before the signage point. -/
def twoSubSlotsFrom (blocks : BlockRecords) (spTotalIters : ℕ) :
    ℕ → BlockRecord → List (Bytes32 × Bytes32) → Option BlockRecord →
      Except PyError (BlockRecord × List (Bytes32 × Bytes32) × Option BlockRecord)
  | 0, _, _, _ => .error .divergence
  | fuel + 1, curr, found, spPreSb =>
    if found.length < 2 ∧ curr.height > 0 then do
      let spPreSb := if spPreSb.isNone ∧ curr.totalIters < spTotalIters then some curr else spPreSb
      let p ← blocks.blockRecord curr.prevHash
      let more ← foundSubSlots p
      twoSubSlotsFrom blocks spTotalIters fuel p (found ++ more) spPreSb
    else .ok (curr, found, spPreSb)

/-- The start of the VDFs in case 5: the block infused before the signage point, or the second
finished slot. -/
def spVdfStartInPrevSubSlot (spTotalIters spIters : ℕ) (found : List (Bytes32 × Bytes32)) :
    Option BlockRecord → Except PyError (Bytes32 × ClassgroupElement × ℕ)
  | some b => spVdfFromBlock spTotalIters b
  | none => (pyIndex found 1).map fun slot => (slot.2, defaultElement, spIters)

/-- Case 5: the previous block is in the same sub-slot as an overflow block. -/
def spVdfInPrevSubSlot (blocks : BlockRecords) (prevB : BlockRecord) (spTotalIters spIters : ℕ) :
    Except PyError SignagePointVdfInfo := do
  let found ← foundSubSlots prevB
  let (curr, found, spPreSb) ← twoSubSlotsFrom blocks spTotalIters blocks.fuel prevB found none
  let spPreSb := if spPreSb.isNone ∧ curr.totalIters < spTotalIters then some curr else spPreSb
  let (rcVdfChallenge, ccVdfInput, spVdfIters) ←
    spVdfStartInPrevSubSlot spTotalIters spIters found spPreSb
  let slot ← pyIndex found 1
  return ⟨slot.1, rcVdfChallenge, ccVdfInput, spVdfIters⟩

/-- The start of the signage point VDFs at the end of a finished slot: cases 1 and 2. -/
def spVdfFromSlot (H : Hashes) (slot : EndOfSubSlotBundle) (spIters : ℕ) : SignagePointVdfInfo :=
  ⟨H.challengeChainSubSlot slot.challengeChain, H.rewardChainSubSlot slot.rewardChain,
    defaultElement, spIters⟩

/-- `get_signage_point_vdf_info`. -/
def getSignagePointVdfInfo (H : Hashes) (constants : ConsensusConstants)
    (finishedSubSlots : List EndOfSubSlotBundle) (overflow : Bool) (prevB : Option BlockRecord)
    (blocks : BlockRecords) (spTotalIters spIters : ℕ) : Except PyError SignagePointVdfInfo :=
  match finishedSubSlots.reverse, overflow, prevB with
  | last :: _, false, _ => .ok (spVdfFromSlot H last spIters)
  | _ :: secondToLast :: _, true, _ => .ok (spVdfFromSlot H secondToLast spIters)
  | _, _, none =>
    .ok ⟨constants.GENESIS_CHALLENGE, constants.GENESIS_CHALLENGE, defaultElement, spIters⟩
  | [_], true, some prevB => spVdfInSubSlot blocks prevB spTotalIters spIters
  | [], true, some prevB => spVdfInPrevSubSlot blocks prevB spTotalIters spIters
  | [], false, some prevB => spVdfInSubSlot blocks prevB spTotalIters spIters

end Chives
