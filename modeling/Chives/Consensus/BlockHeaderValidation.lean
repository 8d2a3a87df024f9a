import Chives.Consensus.GetBlockChallenge
import Chives.Consensus.FullBlockToBlockRecord
import Chives.Consensus.RewardClaims

set_option autoImplicit false

/-!
# Header validation

`consensus/block_header_validation.py`: `validate_unfinished_header_block` and
`validate_finished_header_block`. The numbers in the comments are those of the source.

## Main definitions

* `HeaderFailure` — an error code that is returned, or an exception.
* `validateUnfinishedHeaderBlock`, `validateFinishedHeaderBlock` — the functions; a
  valid header gives its required iterations.

## Design

`return None, ValidationError(e)` is the failure `invalid e`, a raised exception the failure
`raised`. Every step that reads earlier blocks is a function of its own, so that what validation
needs of the block records can be read off the steps.
-/

namespace Chives

open ExceptRun

/-- Why the validation of a header stops. -/
inductive HeaderFailure
  | invalid (e : Err)
  | raised (e : PyError)
  deriving DecidableEq, Repr

/-- A computation of the source that may raise. -/
def raising {α : Type} (x : Except PyError α) : Except HeaderFailure α := x.mapError .raised

/-- `if bad: return None, ValidationError(e)`. -/
def rejectIf (bad : Prop) [Decidable bad] (e : Err) : Except HeaderFailure Unit :=
  if bad then .error (.invalid e) else .ok ()

section Steps

variable (H : Hashes) (V : Verifiers) (constants : ConsensusConstants)

/-- The check of a proof that either starts from a given element, or is normalized to the identity
and then covers the whole VDF, unless VDFs are not checked. -/
def checkVdfProof (skipVdfIsValid : Bool) (proof : VDFProof) (startElement : ClassgroupElement)
    (partialInfo info : VDFInfo) (e : Err) : Except HeaderFailure Unit := do
  let _ ← rejectIf (skipVdfIsValid = false ∧ proof.normalizedToIdentity = false ∧
    ¬proof.isValid V constants startElement partialInfo none) e
  rejectIf (skipVdfIsValid = false ∧ proof.normalizedToIdentity = true ∧
    ¬proof.isValid V constants defaultElement info none) e

/-! ## Finished sub-slots -/

/-- The challenge with which a finished sub-slot starts: 2a, 2b and 2c. -/
def slotStartChallenge (blocks : BlockRecords) (prevB : Option BlockRecord)
    (prevSlot : Option EndOfSubSlotBundle) : Except PyError Bytes32 :=
  match prevSlot, prevB with
  | some slot, _ => .ok (H.challengeChainSubSlot slot.challengeChain)
  | none, none => .ok constants.GENESIS_CHALLENGE
  | none, some prevB => do
    let curr ← blocks.walkBack BlockRecord.firstInSubSlot prevB
    lastSlotHash curr.finishedChallengeSlotHashes

/-- The infused challenge chain that a finished sub-slot has to have. -/
structure IccTarget where
  challengeHash : Bytes32
  itersCommitted : ℕ
  itersProof : ℕ
  vdfInput : Option ClassgroupElement

/-- The infused challenge chain at the end of the sub-slot of the previous block. -/
def iccOfSubSlot (blocks : BlockRecords) (prevB : BlockRecord) : Except PyError (Bytes32 × ℕ) := do
  let curr ← blocks.walkBack (fun r => r.isChallengeBlock constants || r.firstInSubSlot) prevB
  if curr.isChallengeBlock constants then do
    let ip ← curr.ipIters constants
    let iters ← uint64 ((prevB.subSlotIters : ℤ) - ip)
    return (curr.challengeBlockInfoHash, iters)
  else do
    let hash ← lastSlotHash curr.finishedInfusedChallengeSlotHashes
    return (hash, prevB.subSlotIters)

/-- The infused challenge chain of a finished sub-slot after the previous block, if there is one. -/
def iccTarget (blocks : BlockRecords) (prevB : BlockRecord) (prevSlot : Option EndOfSubSlotBundle) :
    Except PyError (Option IccTarget) :=
  if prevB.deficit < constants.MIN_BLOCKS_PER_CHALLENGE_BLOCK then
    match prevSlot with
    | none => do
      let (hash, itersCommitted) ← iccOfSubSlot constants blocks prevB
      let ip ← prevB.ipIters constants
      let itersProof ← uint64 ((prevB.subSlotIters : ℤ) - ip)
      return some ⟨hash, itersCommitted, itersProof,
        if prevB.isChallengeBlock constants then some defaultElement
        else prevB.infusedChallengeVdfOutput⟩
    | some slot =>
      if slot.rewardChain.deficit < constants.MIN_BLOCKS_PER_CHALLENGE_BLOCK then do
        let icc ← pySome slot.infusedChallengeChain
        return some ⟨H.infusedChallengeChainSubSlot icc, prevB.subSlotIters, prevB.subSlotIters,
          some defaultElement⟩
      else .ok none
  else .ok none

/-- 2e to 2k: the infused challenge chain of a finished sub-slot. -/
def checkIcc (slot : EndOfSubSlotBundle) (target : Option IccTarget) (skipVdfIsValid : Bool) :
    Except HeaderFailure Unit :=
  match slot.infusedChallengeChain, target with
  | some icc, some target => do
    let input ← raising (pySome target.vdfInput)
    let proof ← raising (pySome slot.proofs.infusedChallengeChainSlotProof)
    let vdf := icc.infusedChallengeChainEndOfSlotVdf
    let partialInfo : VDFInfo := ⟨target.challengeHash, target.itersProof, vdf.output⟩
    let _ ← rejectIf
      (vdf ≠ { partialInfo with numberOfIterations := target.itersCommitted }) .invalidIccEosVdf
    let _ ← checkVdfProof V constants skipVdfIsValid proof input partialInfo vdf .invalidIccEosVdf
    let hash := H.infusedChallengeChainSubSlot icc
    -- 2g and 2h: the challenge chain has the hash only if the deficit is reset
    let _ ← rejectIf (slot.challengeChain.infusedChallengeChainSubSlotHash ≠
      (if slot.rewardChain.deficit = constants.MIN_BLOCKS_PER_CHALLENGE_BLOCK then some hash
        else none)) .invalidIccHashCc
    rejectIf (slot.rewardChain.infusedChallengeChainSubSlotHash ≠ some hash) .invalidIccHashRc
  | none, none => do
    let _ ← rejectIf slot.challengeChain.infusedChallengeChainSubSlotHash.isSome .invalidIccHashCc
    rejectIf slot.rewardChain.infusedChallengeChainSubSlotHash.isSome .invalidIccHashRc
  | _, _ => .error (.raised .assertionError)

/-- 2d to 2k. -/
def checkSlotIcc (blocks : BlockRecords) (prevB : Option BlockRecord)
    (prevSlot : Option EndOfSubSlotBundle) (skipVdfIsValid : Bool) (slot : EndOfSubSlotBundle) :
    Except HeaderFailure Unit :=
  match prevB with
  | none => rejectIf slot.infusedChallengeChain.isSome .shouldNotHaveIcc
  | some prevB => do
    let target ← raising (iccTarget H constants blocks prevB prevSlot)
    checkIcc H V constants slot target skipVdfIsValid

/-- 2l to 2o: the sub-epoch summary hash and the new parameters of a finished sub-slot, with the
summary hash found so far. -/
def checkSlotData (canFinishEpoch : Bool) (expectedDifficulty expectedSubSlotIters : ℕ)
    (prevSlot : Option EndOfSubSlotBundle) (sesHash : Option Bytes32) (slot : EndOfSubSlotBundle) :
    Except HeaderFailure (Option Bytes32) := do
  let cc := slot.challengeChain
  let _ ← raising (pyAssert (cc.subepochSummaryHash.isSome → sesHash.isNone))
  let _ ← rejectIf (prevSlot.isSome ∧ cc.subepochSummaryHash.isSome) .invalidSubEpochSummaryHash
  let newEpoch := canFinishEpoch && cc.subepochSummaryHash.isSome
  let _ ← rejectIf
    (cc.newSubSlotIters ≠ (if newEpoch then some expectedSubSlotIters else none))
    .invalidNewSubSlotIters
  let _ ← rejectIf
    (cc.newDifficulty ≠ (if newEpoch then some expectedDifficulty else none)) .invalidNewDifficulty
  let _ ← rejectIf (H.challengeChainSubSlot cc ≠ slot.rewardChain.challengeChainSubSlotHash)
    .invalidChallengeSlotHashRc
  return if cc.subepochSummaryHash.isSome then cc.subepochSummaryHash else sesHash

/-- Where the VDFs at the end of a sub-slot start: the reward chain challenge, the iterations and
the element of the challenge chain. -/
def slotVdfStart (prevB : Option BlockRecord) (prevSlot : Option EndOfSubSlotBundle)
    (expectedSubSlotIters : ℕ) : Except PyError (Bytes32 × ℕ × ClassgroupElement) :=
  match prevSlot, prevB with
  | some slot, _ =>
    .ok (H.rewardChainSubSlot slot.rewardChain, expectedSubSlotIters, defaultElement)
  | none, none => .ok (constants.GENESIS_CHALLENGE, expectedSubSlotIters, defaultElement)
  | none, some prevB => do
    let ip ← prevB.ipIters constants
    let iters ← uint64 ((prevB.subSlotIters : ℤ) - ip)
    return (prevB.rewardInfusionNewChallenge, iters, prevB.challengeVdfOutput)

/-- 2p and 2q: the VDFs at the end of a sub-slot. -/
def checkSlotVdfs (prevB : Option BlockRecord) (prevSlot : Option EndOfSubSlotBundle)
    (expectedSubSlotIters : ℕ) (skipVdfIsValid : Bool) (slot : EndOfSubSlotBundle) :
    Except HeaderFailure Unit := do
  let (rcChallenge, iters, ccStart) ←
    raising (slotVdfStart H constants prevB prevSlot expectedSubSlotIters)
  let rcVdf := slot.rewardChain.endOfSlotVdf
  let _ ← rejectIf (skipVdfIsValid = false ∧ ¬slot.proofs.rewardChainSlotProof.isValid V constants
    defaultElement rcVdf (some ⟨rcChallenge, iters, rcVdf.output⟩)) .invalidRcEosVdf
  let ccVdf := slot.challengeChain.challengeChainEndOfSlotVdf
  let partialInfo : VDFInfo := ⟨ccVdf.challenge, iters, ccVdf.output⟩
  let committed := match prevB, prevSlot with
    | none, _ => constants.SUB_SLOT_ITERS_STARTING
    | some prevB, none => prevB.subSlotIters
    | some _, some _ => expectedSubSlotIters
  let _ ← rejectIf (ccVdf.numberOfIterations ≠ committed) .invalidCcEosVdf
  checkVdfProof V constants skipVdfIsValid slot.proofs.challengeChainSlotProof ccStart partialInfo
    ccVdf .invalidCcEosVdf

/-- 2r, 2s and 2t: the deficit at the end of a sub-slot. -/
def checkSlotDeficit (prevB : Option BlockRecord) (slot : EndOfSubSlotBundle) :
    Except HeaderFailure Unit :=
  match prevB with
  | none =>
    rejectIf (slot.rewardChain.deficit ≠ constants.MIN_BLOCKS_PER_CHALLENGE_BLOCK) .invalidDeficit
  | some prevB =>
    rejectIf (slot.rewardChain.deficit ≠
      (if prevB.deficit = 0 then constants.MIN_BLOCKS_PER_CHALLENGE_BLOCK else prevB.deficit))
      .invalidDeficit

/-- One round of the loop of step 2, which returns the summary hash found so far. -/
def checkSlot (blocks : BlockRecords) (prevB : Option BlockRecord) (canFinishEpoch : Bool)
    (expectedDifficulty expectedSubSlotIters : ℕ) (skipVdfIsValid : Bool)
    (prevSlot : Option EndOfSubSlotBundle) (sesHash : Option Bytes32) (slot : EndOfSubSlotBundle) :
    Except HeaderFailure (Option Bytes32) := do
  let challenge ← raising (slotStartChallenge H constants blocks prevB prevSlot)
  let _ ← rejectIf (slot.challengeChain.challengeChainEndOfSlotVdf.challenge ≠ challenge)
    .invalidPrevChallengeSlotHash
  let _ ← checkSlotIcc H V constants blocks prevB prevSlot skipVdfIsValid slot
  let sesHash ← checkSlotData H canFinishEpoch expectedDifficulty expectedSubSlotIters prevSlot
    sesHash slot
  let _ ← checkSlotVdfs H V constants prevB prevSlot expectedSubSlotIters skipVdfIsValid slot
  let _ ← checkSlotDeficit constants prevB slot
  return sesHash

/-- The loop of step 2 over the finished sub-slots. -/
def checkSlots (blocks : BlockRecords) (prevB : Option BlockRecord) (canFinishEpoch : Bool)
    (expectedDifficulty expectedSubSlotIters : ℕ) (skipVdfIsValid : Bool) :
    Option EndOfSubSlotBundle → Option Bytes32 → List EndOfSubSlotBundle →
      Except HeaderFailure (Option Bytes32)
  | _, sesHash, [] => .ok sesHash
  | prevSlot, sesHash, slot :: slots => do
    let sesHash ← checkSlot H V constants blocks prevB canFinishEpoch expectedDifficulty
      expectedSubSlotIters skipVdfIsValid prevSlot sesHash slot
    checkSlots blocks prevB canFinishEpoch expectedDifficulty expectedSubSlotIters skipVdfIsValid
      (some slot) sesHash slots

/-! ## The sub-epoch summary -/

/-- 3c: the summary that a block has to include. -/
def expectedSummary (blocks : BlockRecords) (prevB : BlockRecord) (canFinishEpoch : Bool)
    (expectedDifficulty expectedSubSlotIters : ℕ) : Except PyError SubEpochSummary := do
  let prevPrev ← blocks.blockRecord prevB.prevHash
  makeSubEpochSummary H constants blocks (prevB.height + 1) prevPrev
    (if canFinishEpoch then some expectedDifficulty else none)
    (if canFinishEpoch then some expectedSubSlotIters else none)

/-- 3: the sub-epoch summary of a block with finished sub-slots. -/
def checkSummary (blocks : BlockRecords) (prevB : Option BlockRecord)
    (canFinishSe canFinishEpoch : Bool) (expectedDifficulty expectedSubSlotIters : ℕ)
    (checkSubEpochSummary : Bool) (sesHash : Option Bytes32) : Except HeaderFailure Unit :=
  match sesHash, prevB with
  | some _, none => .error (.invalid .invalidSubEpochSummaryHash)
  | some sesHash, some prevB =>
    if ¬canFinishSe then .error (.invalid .invalidSubEpochSummaryHash)
    else if ¬checkSubEpochSummary then .ok ()
    else do
      let ses ← raising (expectedSummary H constants blocks prevB canFinishEpoch expectedDifficulty
        expectedSubSlotIters)
      rejectIf (H.subEpochSummary ses ≠ sesHash) .invalidSubEpochSummary
  | none, some _ => rejectIf (canFinishSe ∨ canFinishEpoch) .invalidSubEpochSummary
  | none, none => .ok ()

/-- 2 and 3: the finished sub-slots and the sub-epoch summary, if there are new sub-slots that are
not skipped. -/
def checkFinishedSubSlots (blocks : BlockRecords) (prevB : Option BlockRecord)
    (checked canFinishSe canFinishEpoch : Bool) (expectedDifficulty expectedSubSlotIters : ℕ)
    (skipVdfIsValid checkSubEpochSummary : Bool) (slots : List EndOfSubSlotBundle) :
    Except HeaderFailure Unit :=
  if ¬checked then .ok ()
  else do
    let sesHash ← checkSlots H V constants blocks prevB canFinishEpoch expectedDifficulty
      expectedSubSlotIters skipVdfIsValid none none slots
    checkSummary H constants blocks prevB canFinishSe canFinishEpoch expectedDifficulty
      expectedSubSlotIters checkSubEpochSummary sesHash

/-! ## The challenge and the signage point -/

/-- 4: the number of blocks in the sub-slot. -/
def checkNumBlocks (blocks : BlockRecords) (newSubSlot : Bool) (prevB : Option BlockRecord) :
    Except HeaderFailure Unit :=
  match newSubSlot, prevB with
  | false, some prevB => do
    let (passed, _) ← raising (blocks.visit BlockRecord.firstInSubSlot prevB)
    rejectIf (2 + passed.length > constants.MAX_SUB_SLOT_BLOCKS) .tooManyBlocks
  | _, _ => .ok ()

/-- 4 and the challenge of the block. -/
def challengeOfBlock (blocks : BlockRecords) (hb : UnfinishedHeaderBlock)
    (prevB : Option BlockRecord) (newSubSlot overflow skipOverflowLastSsValidation : Bool) :
    Except HeaderFailure Bytes32 := do
  let _ ← checkNumBlocks constants blocks newSubSlot prevB
  raising (getBlockChallenge H constants hb.finishedSubSlots hb.prevHeaderHash blocks prevB.isNone
    overflow skipOverflowLastSsValidation)

/-- The hash that a proof of space is made for at the signage point. -/
def ccSpHashOf (challengeChainSpVdf : Option VDFInfo) (challenge : Bytes32) : Bytes32 :=
  match challengeChainSpVdf with
  | none => challenge
  | some vdf => H.vdfOutput vdf.output

/-- 5 to 8: the proof of space and the signage point index. -/
def checkProofOfSpace (hb : UnfinishedHeaderBlock) (challenge : Bytes32)
    (expectedDifficulty expectedSubSlotIters : ℕ) : Except HeaderFailure ℕ := do
  let rc := hb.rewardChainBlock
  let _ ← rejectIf (challenge ≠ rc.posSsCcChallengeHash) .invalidCcChallenge
  let ccSpHash := ccSpHashOf H rc.challengeChainSpVdf challenge
  match rc.proofOfSpace.verifyAndGetQualityString H V constants challenge ccSpHash with
  | none => throw (.invalid .invalidPospace)
  | some qStr => do
    let _ ← rejectIf (rc.signagePointIndex ≥ constants.NUM_SPS_SUB_SLOT) .invalidSpIndex
    let requiredIters ← raising (calculateIterationsQuality H constants.DIFFICULTY_CONSTANT_FACTOR
      qStr rc.proofOfSpace.size expectedDifficulty ccSpHash)
    let interval ← raising (calculateSpIntervalIters constants expectedSubSlotIters)
    let _ ← rejectIf (requiredIters ≥ interval) .invalidRequiredIters
    let _ ← rejectIf ((rc.signagePointIndex = 0) ≠ rc.challengeChainSpVdf.isNone) .invalidSpIndex
    let _ ← rejectIf ((rc.signagePointIndex = 0) ≠ rc.rewardChainSpVdf.isNone) .invalidSpIndex
    return requiredIters

/-- The total iterations at the start of the sub-slot in which the block is infused. -/
def slotStartTotalIters (prevB : Option BlockRecord) (expectedSubSlotIters n : ℕ) :
    Except PyError ℕ :=
  match prevB with
  | none => uint128 (expectedSubSlotIters * n)
  | some prevB => do
    let ip ← prevB.ipIters constants
    if n > 0 then do
      let start ← uint128 ((prevB.totalIters : ℤ) + prevB.subSlotIters - ip)
      uint128 (start + expectedSubSlotIters * ((n : ℤ) - 1))
    else uint128 ((prevB.totalIters : ℤ) - ip)

/-- 9 and 10: overflow blocks in a new epoch and the total iterations. The result is the total
iterations of the signage point. -/
def checkTotalIters (hb : UnfinishedHeaderBlock) (prevB : Option BlockRecord)
    (overflow canFinishEpoch : Bool) (n expectedSubSlotIters spIters ipIters : ℕ) :
    Except HeaderFailure ℕ := do
  let _ ← raising (pyAssert (hb.rewardChainBlock.challengeChainSpVdf.isNone → overflow = false))
  let _ ← rejectIf (overflow ∧ canFinishEpoch ∧ n < 2) .noOverflowsInFirstSubSlotNewEpoch
  let start ← raising (slotStartTotalIters constants prevB expectedSubSlotIters n)
  let totalIters ← raising (uint128 (start + ipIters))
  let _ ← rejectIf (totalIters ≠ hb.rewardChainBlock.totalIters) .invalidTotalIters
  raising (uint128 ((totalIters : ℤ) - ipIters + spIters -
    (if overflow then expectedSubSlotIters else 0 : ℕ)))

/-- A sub-slot that stands for the one that is not finished yet. -/
def dummySubSlot : EndOfSubSlotBundle :=
  let vdf : VDFInfo := ⟨Bytes32.zero, 1, defaultElement⟩
  let proof : VDFProof := ⟨0, [], false⟩
  ⟨⟨vdf, none, none, none, none⟩, none, ⟨vdf, Bytes32.zero, none, 0⟩, ⟨proof, none, proof⟩⟩

/-- The reward chain hash at the start of the sub-slot, for the signage point with index 0. -/
def rcSpHashAtStart (blocks : BlockRecords) (hb : UnfinishedHeaderBlock)
    (prevB : Option BlockRecord) (newSubSlot : Bool) : Except PyError Bytes32 :=
  match newSubSlot, prevB with
  | true, _ => do
    let slot ← pyLast hb.finishedSubSlots
    return H.rewardChainSubSlot slot.rewardChain
  | false, none => .ok constants.GENESIS_CHALLENGE
  | false, some prevB => do
    let curr ← blocks.walkBack BlockRecord.firstInSubSlot prevB
    lastSlotHash curr.finishedRewardSlotHashes

/-- 11: the reward chain VDF of the signage point. The result is the hash that is signed. -/
def checkRcSpVdf (blocks : BlockRecords) (hb : UnfinishedHeaderBlock) (prevB : Option BlockRecord)
    (newSubSlot skipVdfIsValid : Bool) (spIters : ℕ) (info : SignagePointVdfInfo) :
    Except HeaderFailure Bytes32 :=
  if spIters ≠ 0 then do
    let vdf ← raising (pySome hb.rewardChainBlock.rewardChainSpVdf)
    let proof ← raising (pySome hb.rewardChainSpProof)
    let _ ← rejectIf (skipVdfIsValid = false ∧ ¬proof.isValid V constants defaultElement vdf
      (some ⟨info.rcVdfChallenge, info.spVdfIters, vdf.output⟩)) .invalidRcSpVdf
    return H.vdfOutput vdf.output
  else do
    let _ ← rejectIf hb.rewardChainBlock.rewardChainSpVdf.isSome .invalidRcSpVdf
    raising (rcSpHashAtStart H constants blocks hb prevB newSubSlot)

/-- 13: the challenge chain VDF of the signage point. -/
def checkCcSpVdf (hb : UnfinishedHeaderBlock) (skipVdfIsValid : Bool) (spIters : ℕ)
    (info : SignagePointVdfInfo) : Except HeaderFailure Unit :=
  if spIters ≠ 0 then do
    let vdf ← raising (pySome hb.rewardChainBlock.challengeChainSpVdf)
    let proof ← raising (pySome hb.challengeChainSpProof)
    let target : VDFInfo := ⟨info.ccVdfChallenge, info.spVdfIters, vdf.output⟩
    let _ ← rejectIf (vdf ≠ { target with numberOfIterations := spIters }) .invalidCcSpVdf
    checkVdfProof V constants skipVdfIsValid proof info.ccVdfInput target vdf .invalidCcSpVdf
  else rejectIf hb.rewardChainBlock.challengeChainSpVdf.isSome .invalidCcSpVdf

/-- 15: whether the block is a transaction block. -/
def checkIsTransactionBlock (blocks : BlockRecords) (hb : UnfinishedHeaderBlock)
    (prevB : Option BlockRecord) (spTotalIters : ℕ) : Except HeaderFailure Unit :=
  match prevB with
  | none => rejectIf hb.foliage.foliageTransactionBlockHash.isNone .invalidIsTransactionBlock
  | some prevB => do
    let curr ← raising (blocks.walkBack BlockRecord.isTransactionBlock prevB)
    let isTransactionBlock := decide (spTotalIters > curr.totalIters)
    let _ ← rejectIf (isTransactionBlock ≠ hb.foliage.foliageTransactionBlockHash.isSome)
      .invalidIsTransactionBlock
    rejectIf (isTransactionBlock ≠ hb.foliage.foliageTransactionBlockSignature.isSome)
      .invalidIsTransactionBlock

/-! ## The foliage -/

/-- A signature that has to be there: `None` raises a `TypeError` in the verifier. -/
def givenSignature : Option G2Element → Except PyError G2Element
  | some sig => .ok sig
  | none => .error .typeError

/-- `bytes(pool_target)`. -/
def PoolTarget.toBytes (target : PoolTarget) : Bytes :=
  target.puzzleHash.bytes ++ BigEndian.toBytes 4 target.maxHeight

/-- 17: the signature of the foliage transaction block. -/
def checkFoliageTransactionBlockSignature (hb : UnfinishedHeaderBlock) :
    Except HeaderFailure Unit :=
  match hb.foliage.foliageTransactionBlockHash with
  | none => .ok ()
  | some hash => do
    let sig ← raising (givenSignature hb.foliage.foliageTransactionBlockSignature)
    rejectIf (¬V.verify hb.rewardChainBlock.proofOfSpace.plotPublicKey hash.bytes sig)
      .invalidPlotSignature

/-- 20: the pool target. -/
def checkPoolTarget (hb : UnfinishedHeaderBlock) (genesisBlock : Bool) :
    Except HeaderFailure Unit :=
  let data := hb.foliage.foliageBlockData
  let pos := hb.rewardChainBlock.proofOfSpace
  if genesisBlock then do
    let _ ← rejectIf (data.poolTarget.puzzleHash ≠ constants.GENESIS_PRE_FARM_POOL_PUZZLE_HASH)
      .invalidPrefarm
    rejectIf (data.farmerRewardPuzzleHash ≠ constants.GENESIS_PRE_FARM_FARMER_PUZZLE_HASH)
      .invalidPrefarm
  else match pos.poolPublicKey with
    | some poolPublicKey => do
      let _ ← raising (pyAssert pos.poolContractPuzzleHash.isNone)
      let sig ← raising (givenSignature data.poolSignature)
      rejectIf (¬V.verify poolPublicKey data.poolTarget.toBytes sig) .invalidPoolSignature
    | none => do
      let contract ← raising (pySome pos.poolContractPuzzleHash)
      rejectIf (data.poolTarget.puzzleHash ≠ contract) .invalidPoolTarget

/-- 12, 14, 16 to 20: signatures, the reward chain block hash and the pool target. -/
def checkFoliageData (hb : UnfinishedHeaderBlock) (height : ℕ) (genesisBlock : Bool) :
    Except HeaderFailure Unit := do
  let data := hb.foliage.foliageBlockData
  let _ ← rejectIf (¬V.verify hb.rewardChainBlock.proofOfSpace.plotPublicKey
    (H.foliageBlockData data).bytes hb.foliage.foliageBlockDataSignature) .invalidPlotSignature
  let _ ← checkFoliageTransactionBlockSignature V hb
  let _ ← rejectIf (H.rewardChainBlockUnfinished hb.rewardChainBlock ≠
    data.unfinishedRewardBlockHash) .invalidUrsbHash
  let _ ← rejectIf (data.poolTarget.maxHeight ≠ 0 ∧ data.poolTarget.maxHeight < height)
    .oldPoolTarget
  checkPoolTarget V constants hb genesisBlock

/-- 24: the hash of the previous transaction block. -/
def checkPrevTransactionBlockHash (blocks : BlockRecords) (prevB : Option BlockRecord)
    (ftb : FoliageTransactionBlock) : Except HeaderFailure Unit :=
  match prevB with
  | none => rejectIf (ftb.prevTransactionBlockHash ≠ constants.GENESIS_CHALLENGE)
      .invalidPrevBlockHash
  | some prevB => do
    let curr ← raising (blocks.walkBack BlockRecord.isTransactionBlock prevB)
    rejectIf (ftb.prevTransactionBlockHash ≠ curr.headerHash) .invalidPrevBlockHash

/-- 26b: the timestamp of the previous transaction block. -/
def checkTimestamp (blocks : BlockRecords) (prevB : Option BlockRecord)
    (ftb : FoliageTransactionBlock) : Except HeaderFailure Unit :=
  match prevB with
  | none => .ok ()
  | some _ => do
    let prevTransactionB ← raising (blocks.blockRecord ftb.prevTransactionBlockHash)
    let timestamp ← raising (pySome prevTransactionB.timestamp)
    rejectIf (ftb.timestamp ≤ timestamp) .timestampTooFarInPast

/-- 22 to 26: the foliage transaction block. -/
def checkFoliageTransactionBlock (blocks : BlockRecords) (hb : UnfinishedHeaderBlock)
    (prevB : Option BlockRecord) (checkFilter : Bool) (now : ℕ) : Except HeaderFailure Unit := do
  let present := hb.foliageTransactionBlock.isSome
  let _ ← rejectIf (hb.foliage.foliageTransactionBlockHash.isSome ≠ present)
    .invalidFoliageBlockPresence
  let _ ← rejectIf (hb.foliage.foliageTransactionBlockSignature.isSome ≠ present)
    .invalidFoliageBlockPresence
  match hb.foliageTransactionBlock with
  | none => return ()
  | some ftb => do
    let _ ← rejectIf (some (H.foliageTransactionBlock ftb) ≠ hb.foliage.foliageTransactionBlockHash)
      .invalidFoliageBlockHash
    let _ ← checkPrevTransactionBlockHash constants blocks prevB ftb
    let _ ← rejectIf (checkFilter ∧ ftb.filterHash ≠ H.stdHash hb.transactionsFilter)
      .invalidTransactionsFilterHash
    let _ ← rejectIf (ftb.timestamp > now + constants.MAX_FUTURE_TIME) .timestampTooFarInFuture
    checkTimestamp blocks prevB ftb

end Steps

/-! ## The unfinished header -/

section Validation

variable (H : Hashes) (V : Verifiers) (constants : ConsensusConstants)

/-- Whether the last sub-slot is skipped, and the number of sub-slots finished since the previous
block. -/
def finishedSubSlotsSincePrev (blocks : BlockRecords) (hb : UnfinishedHeaderBlock)
    (overflow : Bool) (expectedSubSlotIters : ℕ) (skipOverflowLastSsValidation : Bool) :
    Except PyError (Bool × ℕ) :=
  if skipOverflowLastSsValidation && overflow then do
    let included ← finalEosIsAlreadyIncluded hb.finishedSubSlots hb.prevHeaderHash hb.totalIters
      blocks expectedSubSlotIters
    return if included then (false, hb.finishedSubSlots.length)
      else (true, hb.finishedSubSlots.length + 1)
  else .ok (skipOverflowLastSsValidation, hb.finishedSubSlots.length)

/-- The height of the block, and whether it may start a sub-epoch and an epoch. -/
def heightAndEpoch (blocks : BlockRecords) (prevB : Option BlockRecord) (newSubSlot : Bool)
    (expectedDifficulty expectedSubSlotIters : ℕ) : Except PyError (ℕ × Bool × Bool) :=
  match prevB with
  | none => do
    let _ ← pyAssert (expectedDifficulty = constants.DIFFICULTY_STARTING)
    let _ ← pyAssert (expectedSubSlotIters = constants.SUB_SLOT_ITERS_STARTING)
    return (0, false, false)
  | some prevB => do
    let height ← uint32 (prevB.height + 1)
    if newSubSlot then do
      let (canFinishSe, canFinishEpoch) ← canFinishSubAndFullEpoch constants blocks prevB.height
        prevB.prevHash prevB.deficit prevB.subEpochSummaryIncluded.isSome
      return (height, canFinishSe, canFinishEpoch)
    else return (height, false, false)

/-- Steps 9 to 26, which start from the required iterations of the proof of space. -/
def checkSignagePointAndFoliage (blocks : BlockRecords) (hb : UnfinishedHeaderBlock)
    (prevB : Option BlockRecord) (checkFilter : Bool) (now height n : ℕ) (overflow : Bool)
    (canFinishEpoch : Bool) (expectedSubSlotIters requiredIters : ℕ) (ccSpHash : Bytes32)
    (skipOverflowLastSsValidation skipVdfIsValid : Bool) : Except HeaderFailure Unit := do
  let rc := hb.rewardChainBlock
  let spIters ← raising (calculateSpIters constants expectedSubSlotIters rc.signagePointIndex)
  let ipIters ← raising
    (calculateIpIters constants expectedSubSlotIters rc.signagePointIndex requiredIters)
  let spTotalIters ← checkTotalIters constants hb prevB overflow canFinishEpoch n
    expectedSubSlotIters spIters ipIters
  let slots := if overflow && skipOverflowLastSsValidation then
    hb.finishedSubSlots ++ [dummySubSlot] else hb.finishedSubSlots
  let info ← raising
    (getSignagePointVdfInfo H constants slots overflow prevB blocks spTotalIters spIters)
  let rcSpHash ← checkRcSpVdf H V constants blocks hb prevB (decide (n > 0)) skipVdfIsValid spIters
    info
  let _ ← rejectIf (¬V.verify rc.proofOfSpace.plotPublicKey rcSpHash.bytes
    rc.rewardChainSpSignature) .invalidRcSignature
  let _ ← checkCcSpVdf V constants hb skipVdfIsValid spIters info
  let _ ← rejectIf (¬V.verify rc.proofOfSpace.plotPublicKey ccSpHash.bytes
    rc.challengeChainSpSignature) .invalidCcSignature
  let _ ← checkIsTransactionBlock blocks hb prevB spTotalIters
  let _ ← checkFoliageData H V constants hb height prevB.isNone
  checkFoliageTransactionBlock H constants blocks hb prevB checkFilter now

/-- `validate_unfinished_header_block`, which returns the required iterations; `now` is the time at
which the block is validated. -/
def validateUnfinishedHeaderBlock (blocks : BlockRecords) (hb : UnfinishedHeaderBlock)
    (checkFilter : Bool) (expectedDifficulty expectedSubSlotIters : ℕ)
    (skipOverflowLastSsValidation skipVdfIsValid checkSubEpochSummary : Bool) (now : ℕ) :
    Except HeaderFailure ℕ := do
  let prevB := blocks.get hb.prevHeaderHash
  let _ ← rejectIf (prevB.isNone ∧ hb.prevHeaderHash ≠ constants.GENESIS_CHALLENGE)
    .invalidPrevBlockHash
  let overflow ← raising (isOverflowBlock constants hb.rewardChainBlock.signagePointIndex)
  let (skipLast, n) ← raising (finishedSubSlotsSincePrev blocks hb overflow expectedSubSlotIters
    skipOverflowLastSsValidation)
  let newSubSlot := decide (n > 0)
  let (height, canFinishSe, canFinishEpoch) ← raising (heightAndEpoch constants blocks prevB
    newSubSlot expectedDifficulty expectedSubSlotIters)
  let _ ← checkFinishedSubSlots H V constants blocks prevB (newSubSlot && !skipLast) canFinishSe
    canFinishEpoch expectedDifficulty expectedSubSlotIters skipVdfIsValid checkSubEpochSummary
    hb.finishedSubSlots
  let challenge ← challengeOfBlock H constants blocks hb prevB newSubSlot overflow skipLast
  let requiredIters ← checkProofOfSpace H V constants hb challenge expectedDifficulty
    expectedSubSlotIters
  let ccSpHash := ccSpHashOf H hb.rewardChainBlock.challengeChainSpVdf challenge
  let _ ← checkSignagePointAndFoliage H V constants blocks hb prevB checkFilter now height n overflow
    canFinishEpoch expectedSubSlotIters requiredIters ccSpHash skipLast skipVdfIsValid
  return requiredIters

/-! ## The finished header -/

/-- 27 and 28: height, weight and community puzzle hash. -/
def checkHeightAndWeight (hb : HeaderBlock) (prevB : Option BlockRecord) (expectedDifficulty : ℕ) :
    Except HeaderFailure Unit :=
  match prevB with
  | some prevB => do
    let _ ← rejectIf (hb.height ≠ prevB.height + 1) .invalidHeight
    let _ ← rejectIf (hb.weight ≠ prevB.weight + expectedDifficulty) .invalidWeight
    rejectIf (hb.foliage.foliageBlockData.communityRewardPuzzleHash ≠
      communityPuzzleHash constants hb.height) .invalidCommunity
  | none => do
    let _ ← rejectIf (hb.height ≠ 0) .invalidHeight
    let _ ← rejectIf (hb.weight ≠ constants.DIFFICULTY_STARTING) .invalidWeight
    rejectIf (hb.prevHeaderHash ≠ constants.GENESIS_CHALLENGE) .invalidPrevBlockHash

/-- Where the VDFs of the infusion point start: the reward chain challenge, the iterations and the
element of the challenge chain. -/
def ipVdfStart (hb : HeaderBlock) (prevB : Option BlockRecord) (ipIters : ℕ) :
    Except PyError (Bytes32 × ℕ × ClassgroupElement) :=
  match hb.finishedSubSlots.getLast?, prevB with
  | some slot, _ => .ok (H.rewardChainSubSlot slot.rewardChain, ipIters, defaultElement)
  | none, none => .ok (constants.GENESIS_CHALLENGE, ipIters, defaultElement)
  | none, some prevB => do
    let iters ← uint64 ((hb.totalIters : ℤ) - prevB.totalIters)
    return (prevB.rewardInfusionNewChallenge, iters, prevB.challengeVdfOutput)

/-- The challenge of the challenge chain at the infusion point. -/
def ccIpChallenge (blocks : BlockRecords) (hb : HeaderBlock) (prevB : Option BlockRecord) :
    Except PyError Bytes32 :=
  match hb.finishedSubSlots.getLast?, prevB with
  | some slot, _ => .ok (H.challengeChainSubSlot slot.challengeChain)
  | none, none => .ok constants.GENESIS_CHALLENGE
  | none, some prevB => do
    let curr ← blocks.walkBack BlockRecord.firstInSubSlot prevB
    lastSlotHash curr.finishedChallengeSlotHashes

/-- 29: the challenge chain VDF of the infusion point. -/
def checkCcIpVdf (blocks : BlockRecords) (hb : HeaderBlock) (prevB : Option BlockRecord)
    (ipIters ipVdfIters : ℕ) (ccVdfOutput : ClassgroupElement) : Except HeaderFailure Unit := do
  let challenge ← raising (ccIpChallenge H constants blocks hb prevB)
  let vdf := hb.rewardChainBlock.challengeChainIpVdf
  let target : VDFInfo := ⟨challenge, ipVdfIters, vdf.output⟩
  let _ ← rejectIf (vdf ≠ { target with numberOfIterations := ipIters }) .invalidCcIpVdf
  checkVdfProof V constants false hb.challengeChainIpProof ccVdfOutput target vdf .invalidCcIpVdf

/-- The challenge of the infused challenge chain, from the previous block back. -/
def iccChallengeFrom (blocks : BlockRecords) (prevB : BlockRecord) : Except PyError Bytes32 := do
  let curr ← blocks.walkBack (fun r => r.finishedInfusedChallengeSlotHashes.isSome ||
    r.isChallengeBlock constants) prevB
  if curr.isChallengeBlock constants then return curr.challengeBlockInfoHash
  else lastSlotHash curr.finishedInfusedChallengeSlotHashes

/-- The challenge and the start element of the infused challenge chain at the infusion point. -/
def iccIpStart (blocks : BlockRecords) (hb : HeaderBlock) (prevB : BlockRecord) :
    Except PyError (Bytes32 × Option ClassgroupElement) :=
  match hb.finishedSubSlots.getLast? with
  | some slot => do
    let icc ← pySome slot.infusedChallengeChain
    return (H.infusedChallengeChainSubSlot icc, some defaultElement)
  | none => do
    let challenge ← iccChallengeFrom constants blocks prevB
    return (challenge, if prevB.isChallengeBlock constants then some defaultElement
      else prevB.infusedChallengeVdfOutput)

/-- 31, for a block with an infused challenge chain. -/
def checkIccIpVdf (blocks : BlockRecords) (hb : HeaderBlock) (prevB : BlockRecord)
    (ipVdfIters deficit : ℕ) (vdf : VDFInfo) : Except HeaderFailure Unit := do
  let proof ← raising (pySome hb.infusedChallengeChainIpProof)
  let _ ← rejectIf (deficit + 1 ≥ constants.MIN_BLOCKS_PER_CHALLENGE_BLOCK) .invalidIccVdf
  let (challenge, input) ← raising (iccIpStart H constants blocks hb prevB)
  match input with
  | none => throw (.invalid .invalidIccVdf)
  | some input => rejectIf (¬proof.isValid V constants input vdf
      (some ⟨challenge, ipVdfIters, vdf.output⟩)) .invalidIccVdf

/-- 31: the infused challenge chain VDF of the infusion point. -/
def checkIccIp (blocks : BlockRecords) (hb : HeaderBlock) (prevB : Option BlockRecord)
    (ipVdfIters : ℕ) : Except HeaderFailure Unit :=
  match prevB with
  | none => rejectIf hb.infusedChallengeChainIpProof.isSome .invalidIccVdf
  | some prevB => do
    let overflow ← raising (isOverflowBlock constants hb.rewardChainBlock.signagePointIndex)
    let deficit ← raising (calculateDeficit constants hb.height (some prevB) overflow
      hb.finishedSubSlots.length)
    match hb.rewardChainBlock.infusedChallengeChainIpVdf with
    | none => rejectIf (deficit + 1 < constants.MIN_BLOCKS_PER_CHALLENGE_BLOCK) .invalidIccVdf
    | some vdf => checkIccIpVdf H V constants blocks hb prevB ipVdfIters deficit vdf

/-- The unfinished header of a header. -/
def HeaderBlock.unfinished (hb : HeaderBlock) : UnfinishedHeaderBlock :=
  ⟨hb.finishedSubSlots, hb.rewardChainBlock.getUnfinished, hb.challengeChainSpProof,
    hb.rewardChainSpProof, hb.foliage, hb.foliageTransactionBlock, hb.transactionsFilter⟩

/-- The previous block of a header that is not genesis. -/
def prevOfHeader (blocks : BlockRecords) (hb : HeaderBlock) :
    Except PyError (Option BlockRecord) :=
  if hb.height = 0 then .ok none
  else (blocks.blockRecord hb.prevHeaderHash).map some

/-- `validate_finished_header_block`. -/
def validateFinishedHeaderBlock (blocks : BlockRecords) (hb : HeaderBlock) (checkFilter : Bool)
    (expectedDifficulty expectedSubSlotIters : ℕ) (checkSubEpochSummary : Bool) (now : ℕ) :
    Except HeaderFailure ℕ := do
  let requiredIters ← validateUnfinishedHeaderBlock H V constants blocks hb.unfinished checkFilter
    expectedDifficulty expectedSubSlotIters false false checkSubEpochSummary now
  let prevB ← raising (prevOfHeader blocks hb)
  let ipIters ← raising (calculateIpIters constants expectedSubSlotIters
    hb.rewardChainBlock.signagePointIndex requiredIters)
  let _ ← checkHeightAndWeight constants hb prevB expectedDifficulty
  let (rcVdfChallenge, ipVdfIters, ccVdfOutput) ← raising (ipVdfStart H constants hb prevB ipIters)
  let _ ← checkCcIpVdf H V constants blocks hb prevB ipIters ipVdfIters ccVdfOutput
  let rcVdf := hb.rewardChainBlock.rewardChainIpVdf
  let _ ← rejectIf (¬hb.rewardChainIpProof.isValid V constants defaultElement rcVdf
    (some ⟨rcVdfChallenge, ipVdfIters, rcVdf.output⟩)) .invalidRcIpVdf
  let _ ← checkIccIp H V constants blocks hb prevB ipVdfIters
  let _ ← rejectIf (hb.foliage.rewardBlockHash ≠ H.rewardChainBlock hb.rewardChainBlock)
    .invalidRewardBlockHash
  let _ ← rejectIf (hb.foliage.foliageTransactionBlockHash.isSome ≠
    hb.rewardChainBlock.isTransactionBlock) .invalidFoliageBlockPresence
  return requiredIters

end Validation

end Chives
