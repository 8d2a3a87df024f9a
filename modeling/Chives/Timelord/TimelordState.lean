import Chives.Consensus.BlockHeaderValidation
import Chives.Consensus.NextSubEpochSummary

set_option autoImplicit false

/-!
# The state of a timelord

`LastState` of `timelord/timelord_state.py` is what a timelord runs its VDFs on top of: a peak that a full node has
sent, or the end of a sub slot that the timelord has made itself. `send_peak_to_timelords` of `full_node/full_node.py`
makes the message for a peak.

## Main definitions

* `NewPeakTimelord`, `sendPeakToTimelords` — the message and how a full node makes it.
* `LastState`, `LastState.setState` — the state and its transitions.
* `LastState.canInfuseBlock`, `LastState.getNextSubEpochSummary` — what the timelord asks the state.

## Design

`state_type`, `peak` and `subslot_end` are one value here, so that there is a peak exactly if the state is one. The
cache of reward challenges is read by `can_infuse_block` only. A `set_state` that raises has no result.
-/

namespace Chives

/-- `NewPeakTimelord`. -/
structure NewPeakTimelord where
  rewardChainBlock : RewardChainBlock
  difficulty : ℕ
  deficit : ℕ
  subSlotIters : ℕ
  subEpochSummary : Option SubEpochSummary
  previousRewardChallenges : List (Bytes32 × ℕ)
  lastChallengeSbOrEosTotalIters : ℕ
  passesSesHeightButNotYetIncluded : Bool
  deriving DecidableEq

/-- `ip_sub_slot_total_iters`. -/
def BlockRecord.ipSubSlotTotalIters (constants : ConsensusConstants) (b : BlockRecord) : Except PyError ℕ := do
  let ip ← b.ipIters constants
  uint128 ((b.totalIters : ℤ) - ip)

/-! ## The full node -/

section FullNode

variable (constants : ConsensusConstants) (blocks : BlockchainInterface)

/-- The reward chain hashes of finished sub slots, newest first, with the total iterations at which they end, back to
the first sub slot. -/
def rewardSlotChallenges (subSlotIters : ℕ) : ℕ → List Bytes32 → Except PyError (List (Bytes32 × ℕ))
  | _, [] => .ok []
  | subSlotTotalIters, rc :: rcs =>
    if subSlotTotalIters < subSlotIters then .ok []
    else do
      let before ← uint128 ((subSlotTotalIters : ℤ) - subSlotIters)
      let rest ← rewardSlotChallenges subSlotIters before rcs
      return (rc, subSlotTotalIters) :: rest

/-- The challenges of the sub slots that a block finishes. -/
def finishedSlotChallenges (curr : BlockRecord) : Except PyError (List (Bytes32 × ℕ)) :=
  if curr.firstInSubSlot then do
    let hashes ← pySome curr.finishedRewardSlotHashes
    let subSlotTotalIters ← curr.ipSubSlotTotalIters constants
    rewardSlotChallenges curr.subSlotIters subSlotTotalIters hashes.reverse
  else .ok []

/-- The challenge of a block that is not the peak. -/
def infusedChallenge (peak curr : BlockRecord) : List (Bytes32 × ℕ) :=
  if curr ≠ peak then [(curr.rewardInfusionNewChallenge, curr.totalIters)] else []

/-- The loop of `get_recent_reward_challenges`, newest first. -/
def recentRewardChallengesFrom (peak : BlockRecord) :
    ℕ → Option BlockRecord → List (Bytes32 × ℕ) → Except PyError (List (Bytes32 × ℕ))
  | _, none, recentRc => .ok recentRc
  | 0, some _, _ => .error .divergence
  | fuel + 1, some curr, recentRc =>
    if recentRc.length < 2 * constants.MAX_SUB_SLOT_BLOCKS then do
      let slots ← finishedSlotChallenges constants curr
      recentRewardChallengesFrom peak fuel (blocks.records.get curr.prevHash)
        (recentRc ++ infusedChallenge peak curr ++ slots)
    else .ok recentRc

/-- `get_recent_reward_challenges`. -/
def getRecentRewardChallenges (peak : Option BlockRecord) : Except PyError (List (Bytes32 × ℕ)) :=
  match peak with
  | none => .ok []
  | some peak => do
    let recentRc ← recentRewardChallengesFrom constants blocks peak blocks.records.fuel (some peak) []
    return recentRc.reverse

/-- `get_next_difficulty` of the blockchain. -/
def nextDifficultyAfter (headerHash : Bytes32) (newSlot : Bool) : Except PyError ℕ := do
  let _ ← pyAssert (blocks.records.get headerHash).isSome
  let curr ← blocks.records.blockRecord headerHash
  if curr.height ≤ 2 then return constants.DIFFICULTY_STARTING
  else do
    let (_, difficulty) ← getNextSubSlotItersAndDifficulty constants newSlot (some curr) blocks
    return difficulty

/-- The total iterations of the last challenge block or end of sub slot. -/
def lastCsbOrEos (peak : BlockRecord) : Except PyError ℕ := do
  let curr ← blocks.records.walkBack (fun r => r.isChallengeBlock constants || r.firstInSubSlot) peak
  if curr.isChallengeBlock constants then return curr.totalIters else curr.ipSubSlotTotalIters constants

/-- Whether the chain has passed a sub-epoch whose summary is not included yet. -/
def passedSesHeight (peak : BlockRecord) : Except PyError Bool := do
  let (passed, curr) ← blocks.records.visit (fun r => decide (r.height % constants.SUB_EPOCH_BLOCKS = 0)) peak
  return !(passed.any fun r => r.subEpochSummaryIncluded.isSome) &&
    !(curr.subEpochSummaryIncluded.isSome || decide (curr.height = 0))

/-- `send_peak_to_timelords`: the message for a block, where the peak of the blockchain is `chainPeak`. -/
def sendPeakToTimelords (H : Hashes) (chainPeak : Option BlockRecord) (peakBlock : FullBlock) :
    Except PyError NewPeakTimelord := do
  let peak ← blocks.records.blockRecord (peakBlock.headerHash H)
  let difficulty ← nextDifficultyAfter constants blocks peak.headerHash false
  let ses ← nextSubEpochSummary H constants blocks peak.requiredIters peakBlock true
  let recentRc ← getRecentRewardChallenges constants blocks chainPeak
  let lastCsbOrEos ← lastCsbOrEos constants blocks peak
  let passed ← passedSesHeight constants blocks peak
  return ⟨peakBlock.rewardChainBlock, difficulty, peak.deficit, peak.subSlotIters, ses, recentRc, lastCsbOrEos, passed⟩

end FullNode

/-! ## The timelord -/

/-- `iters_from_block`. -/
def itersFromBlock (H : Hashes) (V : Verifiers) (constants : ConsensusConstants) (rewardChainBlock : RewardChainBlock)
    (subSlotIters difficulty : ℕ) : Except PyError (ℕ × ℕ) := do
  let _ ← pyAssert (rewardChainBlock.challengeChainSpVdf = none → rewardChainBlock.signagePointIndex = 0)
  let ccSp := ccSpHashOf H rewardChainBlock.challengeChainSpVdf rewardChainBlock.posSsCcChallengeHash
  let qualityString ← pySome (rewardChainBlock.proofOfSpace.verifyAndGetQualityString H V constants
    rewardChainBlock.posSsCcChallengeHash ccSp)
  let requiredIters ← calculateIterationsQuality H constants.DIFFICULTY_CONSTANT_FACTOR qualityString
    rewardChainBlock.proofOfSpace.size difficulty ccSp
  let spIters ← calculateSpIters constants subSlotIters rewardChainBlock.signagePointIndex
  let ipIters ← calculateIpIters constants subSlotIters rewardChainBlock.signagePointIndex requiredIters
  return (spIters, ipIters)

/-- `state_type`, with the `peak` or the `subslot_end` that it comes with. -/
inductive StateType
  | firstSubSlot
  | peak (peak : NewPeakTimelord)
  | endOfSubSlot (subslotEnd : EndOfSubSlotBundle)

/-- `LastState`. -/
structure LastState where
  stateType : StateType
  lastIp : ℕ
  deficit : ℕ
  subEpochSummary : Option SubEpochSummary
  lastWeight : ℕ
  lastHeight : ℕ
  totalIters : ℕ
  lastChallengeSbOrEosTotalIters : ℕ
  lastBlockTotalIters : Option ℕ
  lastPeakChallenge : Bytes32
  difficulty : ℕ
  subSlotIters : ℕ
  rewardChallengeCache : List (Bytes32 × ℕ)
  newEpoch : Bool
  passedSesHeightButNotYetIncluded : Bool
  infusedSes : Bool

namespace LastState

variable (H : Hashes) (V : Verifiers) (constants : ConsensusConstants)

/-- `__init__`. -/
def initial : LastState where
  stateType := .firstSubSlot
  lastIp := 0
  deficit := constants.MIN_BLOCKS_PER_CHALLENGE_BLOCK
  subEpochSummary := none
  lastWeight := 0
  lastHeight := 0
  totalIters := 0
  lastChallengeSbOrEosTotalIters := 0
  lastBlockTotalIters := none
  lastPeakChallenge := constants.GENESIS_CHALLENGE
  difficulty := constants.DIFFICULTY_STARTING
  subSlotIters := constants.SUB_SLOT_ITERS_STARTING
  rewardChallengeCache := [(constants.GENESIS_CHALLENGE, 0)]
  newEpoch := false
  passedSesHeightButNotYetIncluded := false
  infusedSes := false

/-- `get_challenge(Chain.REWARD_CHAIN)`. -/
def rewardChallenge (s : LastState) : Bytes32 :=
  match s.stateType with
  | .firstSubSlot => constants.GENESIS_CHALLENGE
  | .peak peak => H.rewardChainBlock peak.rewardChainBlock
  | .endOfSubSlot subslotEnd => H.rewardChainSubSlot subslotEnd.rewardChain

/-- The end of `set_state`: the cache gets the new reward challenge, and stays short. -/
def addRewardChallenge (s : LastState) : LastState :=
  let cache := s.rewardChallengeCache ++ [(s.rewardChallenge H constants, s.totalIters)]
  { s with rewardChallengeCache := cache.drop (cache.length - 2 * constants.MAX_SUB_SLOT_BLOCKS) }

/-- `set_state` with a peak, but for the new reward challenge. -/
def setPeak (s : LastState) (peak : NewPeakTimelord) : Except PyError LastState := do
  let (_, lastIp) ← itersFromBlock H V constants peak.rewardChainBlock peak.subSlotIters peak.difficulty
  let rc := peak.rewardChainBlock
  return {
    stateType := .peak peak
    lastIp := lastIp
    deficit := peak.deficit
    subEpochSummary := peak.subEpochSummary
    lastWeight := rc.weight
    lastHeight := rc.height
    totalIters := rc.totalIters
    lastChallengeSbOrEosTotalIters := peak.lastChallengeSbOrEosTotalIters
    lastBlockTotalIters := if rc.isTransactionBlock then some rc.totalIters else s.lastBlockTotalIters
    lastPeakChallenge := H.rewardChainBlock rc
    difficulty := peak.difficulty
    subSlotIters := peak.subSlotIters
    rewardChallengeCache := peak.previousRewardChallenges
    newEpoch := false
    passedSesHeightButNotYetIncluded :=
      if (rc.height + 1) % constants.SUB_EPOCH_BLOCKS = 0 then true else peak.passesSesHeightButNotYetIncluded
    infusedSes := s.infusedSes }

/-- The total iterations at the end of the current sub slot. -/
def slotEndTotalIters (s : LastState) : Except PyError ℕ :=
  match s.stateType with
  | .peak _ => uint128 ((s.totalIters : ℤ) - s.lastIp + s.subSlotIters)
  | _ => uint128 (s.totalIters + s.subSlotIters)

/-- `set_state` with the end of a sub slot, but for the new reward challenge. -/
def setEndOfSubSlot (s : LastState) (subslotEnd : EndOfSubSlotBundle) : Except PyError LastState := do
  let totalIters ← s.slotEndTotalIters
  let infusedSes := subslotEnd.challengeChain.subepochSummaryHash.isSome
  let ended : LastState := { s with
    stateType := .endOfSubSlot subslotEnd
    lastIp := 0
    deficit := subslotEnd.rewardChain.deficit
    totalIters := totalIters
    lastChallengeSbOrEosTotalIters := totalIters
    infusedSes := infusedSes
    passedSesHeightButNotYetIncluded := !infusedSes && s.passedSesHeightButNotYetIncluded }
  match subslotEnd.challengeChain.newDifficulty with
  | none => return { ended with newEpoch := false }
  | some newDifficulty => do
    let newSubSlotIters ← pySome subslotEnd.challengeChain.newSubSlotIters
    return { ended with difficulty := newDifficulty, subSlotIters := newSubSlotIters, newEpoch := true }

/-- `set_state`. -/
def setState (s : LastState) (state : NewPeakTimelord ⊕ EndOfSubSlotBundle) : Except PyError LastState := do
  let next ← match state with
    | .inl peak => s.setPeak H V constants peak
    | .inr subslotEnd => s.setEndOfSubSlot subslotEnd
  return next.addRewardChallenge H constants

/-- `can_infuse_block`. -/
def canInfuseBlock (s : LastState) (overflow : Bool) : Bool :=
  if overflow && s.newEpoch then false
  else match s.stateType with
    | .peak _ =>
      let ssStartIters : ℤ := s.totalIters - s.lastIp
      !decide (s.rewardChallengeCache.countP (fun c => decide ((c.2 : ℤ) > ssStartIters)) ≥
        constants.MAX_SUB_SLOT_BLOCKS)
    | _ => true

/-- `get_next_sub_epoch_summary`. -/
def getNextSubEpochSummary (s : LastState) : Option SubEpochSummary :=
  match s.stateType with
  | .peak _ => if s.passedSesHeightButNotYetIncluded = true ∧ s.deficit = 0 then s.subEpochSummary else none
  | _ => none

end LastState

end Chives
