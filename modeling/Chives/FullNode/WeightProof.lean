import Chives.Consensus.BlockHeaderValidation
import Chives.FullNode.WeightProofSampling
import Chives.Library.Chunks

set_option autoImplicit false

/-!
# Validation of weight proofs

The validation half of `full_node/weight_proof.py`: the sub-epoch summaries, the segments of the
sampled sub-epochs, the recent blocks, and the two validators that put them together.

## Main definitions

* `mapSubEpochSummaries`, `validateSubEpochSummaries` — the summaries of a proof.
* `validateSegment`, `validateSubEpochSegments` — the segments; the VDFs of the sampled
  ones are returned to be checked by the caller.
* `validateRecentBlocks` — the recent blocks.
* `WeightProofHandler.validateWeightProofSingleProc`,
  `WeightProofHandler.validateWeightProof` — the validators.

## Design

A proof is passed to worker processes as bytes and decoded there; the encoding is a bijection, so
the model passes the objects. Asserting an `Optional` number of the source also fails on zero. The
file that tells the workers to stop exists as long as a validation runs.
-/

namespace Chives

open ExceptRun

/-- `l[i]`, where a negative index counts from the end. -/
def pyItem {α : Type} (l : List α) (i : ℤ) : Except PyError α :=
  if 0 ≤ i then pyIndex l i.toNat
  else if 0 ≤ i + l.length then pyIndex l (i + l.length).toNat
  else .error .indexError

/-- `assert n` for an optional number, which is neither `None` nor zero. -/
def pyPositive (n : Option ℕ) : Except PyError ℕ :=
  match n with
  | some (n + 1) => .ok (n + 1)
  | _ => .error .assertionError

/-- An optional number in an arithmetic expression or a comparison. -/
def pyNumber (n : Option ℕ) : Except PyError ℕ :=
  match n with
  | some n => .ok n
  | none => .error .typeError

/-! ## Summaries -/

section Summaries

variable (H : Hashes) (constants : ConsensusConstants)

/-- The hash of the first sub-epoch summary in the finished sub-slots of a list of headers, with the
height of its header. -/
def firstSesHash (headers : List HeaderBlock) : Option (Bytes32 × ℕ) :=
  headers.findSome? fun b => b.finishedSubSlots.findSome? fun slot =>
    slot.challengeChain.subepochSummaryHash.map fun hash => (hash, b.height)

/-- The search of `_get_last_ses_hash` that starts at the last of the first `n` headers. -/
def lastSesHashFrom (headers : List HeaderBlock) : ℕ → Option (Bytes32 × ℕ)
  | 0 => none
  | n + 1 =>
    match headers[n]? with
    | some b =>
      if b.height % constants.SUB_EPOCH_BLOCKS = 0 then
        (firstSesHash (headers.drop n)).or (lastSesHashFrom headers n)
      else lastSesHashFrom headers n
    | none => lastSesHashFrom headers n

/-- `_get_last_ses_hash`. -/
def getLastSesHash (recentRewardChain : List HeaderBlock) : Option (Bytes32 × ℕ) :=
  lastSesHashFrom constants recentRewardChain recentRewardChain.length

/-- The loop of `_map_sub_epoch_summaries` over the data of sub-epoch `idx` and those after it. -/
def mapSummariesFrom (subBlocksForSe : ℕ) : ℕ → Bytes32 → ℕ → ℕ → List SubEpochData →
    Except PyError (List SubEpochSummary × ℕ × List ℕ)
  | _, _, currDifficulty, totalWeight, [] => do
    let last ← uint128 (totalWeight + currDifficulty)
    return ([], totalWeight, [last])
  | idx, sesHash, currDifficulty, totalWeight, data :: rest => do
    let ses : SubEpochSummary := ⟨sesHash, data.rewardChainHash, data.numBlocksOverflow,
      data.newDifficulty, data.newSubSlotIters⟩
    let newDifficulty := data.newDifficulty.getD currDifficulty
    match rest with
    | [] => do
      let (summaries, total, weights) ← mapSummariesFrom subBlocksForSe (idx + 1)
        (H.subEpochSummary ses) newDifficulty totalWeight []
      return (ses :: summaries, total, weights)
    | next :: rest => do
      let start ← uint128 (totalWeight + currDifficulty)
      let delta := if idx > 0 then data.numBlocksOverflow else 0
      let weight ← uint128
        (currDifficulty * ((subBlocksForSe : ℤ) + next.numBlocksOverflow - delta))
      let (summaries, total, weights) ← mapSummariesFrom subBlocksForSe (idx + 1)
        (H.subEpochSummary ses) newDifficulty (totalWeight + weight) (next :: rest)
      return (ses :: summaries, total, start :: weights)

/-- `_map_sub_epoch_summaries`: the summaries, the weight and the list of weights. -/
def mapSubEpochSummaries (subBlocksForSe : ℕ) (sesHash : Bytes32)
    (subEpochData : List SubEpochData) (currDifficulty : ℕ) :
    Except PyError (List SubEpochSummary × ℕ × List ℕ) :=
  mapSummariesFrom H subBlocksForSe 0 sesHash currDifficulty 0 subEpochData

/-- `_validate_summaries_weight`. -/
def validateSummariesWeight (subEpochDataWeight : ℕ) (summaries : List SubEpochSummary)
    (wp : WeightProof) : Except PyError Bool := do
  let last ← pyLast summaries
  let sesEndHeight : ℤ :=
    ((summaries.length : ℤ) - 1) * constants.SUB_EPOCH_BLOCKS + last.numBlocksOverflow - 1
  match (wp.recentChainData.filter fun b => decide ((b.height : ℤ) = sesEndHeight)).getLast? with
  | none => return false
  | some curr => return decide (curr.weight = subEpochDataWeight)

/-- `_validate_sub_epoch_summaries`. -/
def validateSubEpochSummaries (wp : WeightProof) :
    Except PyError (Option (List SubEpochSummary × List ℕ)) :=
  match getLastSesHash constants wp.recentChainData with
  | none => .ok none
  | some (lastSesHash, _) => do
    let (summaries, total, subEpochWeightList) ← mapSubEpochSummaries H constants.SUB_EPOCH_BLOCKS
      constants.GENESIS_CHALLENGE wp.subEpochs constants.DIFFICULTY_STARTING
    let valid ← validateSummariesWeight constants total summaries wp
    if ¬valid then return none
    else do
      let lastSes ← pyLast summaries
      if H.subEpochSummary lastSes ≠ lastSesHash then return none
      else return some (summaries, subEpochWeightList)

end Summaries

/-! ## The VDFs of a segment -/

/-- A VDF proof with its input and what it proves. -/
abbrev DeferredVdf := VDFProof × ClassgroupElement × VDFInfo

section Segments

variable (H : Hashes) (V : Verifiers) (constants : ConsensusConstants)

/-- `get_sp_total_iters`. -/
def getSpTotalIters (isOverflow : Bool) (ssi : ℕ) (data : SubSlotData) : Except PyError ℕ := do
  let ipInfo ← pySome data.ccIpVdfInfo
  let totalIters ← pySome data.totalIters
  let index ← pySome data.signagePointIndex
  let spIters ← calculateSpIters constants ssi index
  let start ← uint128 ((totalIters : ℤ) - ipInfo.numberOfIterations)
  let start ← (if isOverflow then uint128 ((start : ℤ) - ssi) else .ok start)
  return start + spIters

/-- The search back from slot data `n` for the first that is not after the signage point, which ends
after the end of a slot. -/
def ssdBefore (slots : List SubSlotData) (spTotalIters : ℕ) :
    ℕ → Option SubSlotData → Except PyError (Option SubSlotData)
  | 0, ssd => .ok ssd
  | n + 1, _ => do
    let ssd ← pyIndex slots n
    if ssd.ccSlotEndInfo.isSome then do
      let next ← pyIndex slots (n + 1)
      return some next
    else do
      let total ← pyNumber ssd.totalIters
      if ¬total > spTotalIters then return some ssd
      else ssdBefore slots spTotalIters n (some ssd)

/-- The search back for the signage point of an overflow block, over the end of one slot; `true` if
it comes to the end of another. -/
def ssdBeforeOverflow (slots : List SubSlotData) (spTotalIters : ℕ) :
    ℕ → ℕ → Option SubSlotData → Except PyError (Bool × Option SubSlotData)
  | 0, _, ssd => .ok (false, ssd)
  | n + 1, slotsSeen, _ => do
    let ssd ← pyIndex slots n
    if ssd.ccSlotEndInfo.isSome then
      if slotsSeen + 1 = 2 then return (true, some ssd)
      else ssdBeforeOverflow slots spTotalIters n (slotsSeen + 1) (some ssd)
    else do
      let total ← pyNumber ssd.totalIters
      if ¬total > spTotalIters then return (false, some ssd)
      else ssdBeforeOverflow slots spTotalIters n slotsSeen (some ssd)

/-- The output of the infusion point of slot data before the signage point. -/
def inputOfSsd (spTotalIters : ℕ) (ssd : SubSlotData) : Except PyError ClassgroupElement :=
  match ssd.ccIpVdfInfo with
  | none => .ok defaultElement
  | some info => do
    let total ← pyNumber ssd.totalIters
    return if total < spTotalIters then info.output else defaultElement

/-- `sub_slot_data_vdf_input`. -/
def subSlotDataVdfInput (data : SubSlotData) (idx : ℕ) (slots : List SubSlotData)
    (isOverflow newSubSlot : Bool) (ssi : ℕ) : Except PyError ClassgroupElement := do
  let spTotalIters ← getSpTotalIters constants isOverflow ssi data
  match isOverflow, newSubSlot with
  | true, true =>
    if idx ≥ 2 then do
      let prevPrev ← pyIndex slots (idx - 2)
      if prevPrev.ccSlotEndInfo.isNone then do
        match ← ssdBefore slots spTotalIters (idx - 1) none with
        | none => return defaultElement
        | some ssd => inputOfSsd spTotalIters ssd
      else return defaultElement
    else return defaultElement
  | false, false => do
    let ssd ← pySome (← ssdBefore slots spTotalIters idx none)
    inputOfSsd spTotalIters ssd
  | true, false => do
    let (twoSlots, ssd) ← ssdBeforeOverflow slots spTotalIters idx 0 none
    if twoSlots then return defaultElement
    else do
      let ssd ← pySome ssd
      inputOfSsd spTotalIters ssd
  | false, true => return defaultElement

/-- The VDF of an infusion point, which starts at the infusion point before it if that is in the same
slot. -/
def ccIpVdf (prev : Option SubSlotData) (data : SubSlotData) : Except PyError DeferredVdf := do
  let proof ← pySome data.ccInfusionPoint
  let info ← pySome data.ccIpVdfInfo
  match prev with
  | none => return (proof, defaultElement, info)
  | some prev =>
    if ¬proof.normalizedToIdentity ∧ prev.ccSlotEnd.isNone then do
      let prevInfo ← pySome prev.ccIpVdfInfo
      let prevTotal ← pyPositive prev.totalIters
      let total ← pyPositive data.totalIters
      let iters ← uint64 ((total : ℤ) - prevTotal)
      return (proof, prevInfo.output, ⟨info.challenge, iters, info.output⟩)
    else return (proof, defaultElement, info)

/-- `_get_challenge_block_vdfs`. -/
def getChallengeBlockVdfs (idx : ℕ) (slots : List SubSlotData) (ssi : ℕ) :
    Except PyError (List DeferredVdf) := do
  let data ← pyIndex slots idx
  let prev := if idx ≥ 1 then slots[idx - 1]? else none
  let spVdfs ← (match data.ccSignagePoint, data.ccSpVdfInfo with
    | some proof, some info => do
      let index ← pyPositive data.signagePointIndex
      let input ← (match prev with
        | some prev =>
          if ¬proof.normalizedToIdentity then do
            let isOverflow ← isOverflowBlock constants index
            subSlotDataVdfInput constants data idx slots isOverflow prev.isEndOfSlot ssi
          else .ok defaultElement
        | none => .ok defaultElement)
      .ok [(proof, input, info)]
    | _, _ => .ok [])
  let ipVdf ← ccIpVdf prev data
  return spVdfs ++ [ipVdf]

/-- The end of a slot in `_validate_sub_slot_data`; `none` if its challenge chain VDF is invalid. -/
def validateSlotEnd (prev data : SubSlotData) : Except PyError (Option (List DeferredVdf)) := do
  let iccVdfs ← (match data.iccSlotEnd with
    | some proof => do
      let info ← pySome data.iccSlotEndInfo
      let input := if ¬proof.normalizedToIdentity then
        (prev.iccIpVdfInfo.map VDFInfo.output).getD defaultElement else defaultElement
      .ok [(proof, input, info)]
    | none => .ok [])
  let info ← pySome data.ccSlotEndInfo
  let proof ← pySome data.ccSlotEnd
  let input ← (if ¬prev.isEndOfSlot ∧ ¬proof.normalizedToIdentity then
    (pySome prev.ccIpVdfInfo).map VDFInfo.output else .ok defaultElement)
  if ¬proof.isValid V constants input info none then return none
  else return some iccVdfs

/-- Whether the slot of slot data is blue boxed, so that its intermediate VDFs are not checked. The
last slot data is not looked at. -/
def slotIsBlueBoxed (idx : ℕ) (slots : List SubSlotData) : Except PyError Bool :=
  match (slots.dropLast.drop idx).find? SubSlotData.isEndOfSlot with
  | some slot => (pySome slot.ccSlotEnd).map VDFProof.normalizedToIdentity
  | none => .ok false

/-- A block in `_validate_sub_slot_data`. -/
def blockVdfs (idx : ℕ) (slots : List SubSlotData) (ssi : ℕ) (prev data : SubSlotData) :
    Except PyError (List DeferredVdf) := do
  let iccVdfs := match data.iccInfusionPoint, data.iccIpVdfInfo with
    | some proof, some info =>
      [(proof, if ¬prev.isChallenge then (prev.iccIpVdfInfo.map VDFInfo.output).getD defaultElement
        else defaultElement, info)]
    | _, _ => []
  let index ← pySome data.signagePointIndex
  let spVdfs ← (match data.ccSignagePoint with
    | some proof => do
      let info ← pySome data.ccSpVdfInfo
      let input ← (if ¬proof.normalizedToIdentity then do
          let isOverflow ← isOverflowBlock constants index
          subSlotDataVdfInput constants data idx slots isOverflow prev.isEndOfSlot ssi
        else .ok defaultElement)
      .ok [(proof, input, info)]
    | none => .ok [])
  let ipVdf ← ccIpVdf (some prev) data
  return iccVdfs ++ spVdfs ++ [ipVdf]

/-- `_validate_sub_slot_data`; `none` is `(False, [])`. -/
def validateSubSlotData (idx : ℕ) (slots : List SubSlotData) (ssi : ℕ) :
    Except PyError (Option (List DeferredVdf)) := do
  let data ← pyIndex slots idx
  let _ ← pyAssert (idx > 0)
  let prev ← pyIndex slots (idx - 1)
  if data.isEndOfSlot then validateSlotEnd V constants prev data
  else if ← slotIsBlueBoxed idx slots then return some []
  else do
    let vdfs ← blockVdfs constants idx slots ssi prev data
    return some vdfs

/-! ## Segments -/

/-- `__get_cc_sub_slot`. -/
def getCcSubSlot (slots : List SubSlotData) (idx : ℕ) (ses : Option SubEpochSummary) :
    Except PyError ChallengeChainSubSlot := do
  let slot ← pySome ((slots.take idx).reverse.find? SubSlotData.isEndOfSlot)
  let info ← pySome slot.ccSlotEndInfo
  return ⟨info, slot.iccSlotEndInfo.map fun icc => H.infusedChallengeChainSubSlot ⟨icc⟩,
    ses.map H.subEpochSummary, ses.bind SubEpochSummary.newSubSlotIters,
    ses.bind SubEpochSummary.newDifficulty⟩

/-- `__validate_pospace`: the required iterations, or `none` if the proof of space is invalid. -/
def validatePospace (segment : SubEpochChallengeSegment) (idx : ℕ) (currDiff : Option ℕ)
    (ses : Option SubEpochSummary) (firstInSubEpoch : Bool) : Except PyError (Option ℕ) := do
  let ccSubSlotHash ← (if firstInSubEpoch ∧ segment.subEpochN = 0 ∧ idx = 0 then
    .ok constants.GENESIS_CHALLENGE
    else (getCcSubSlot H segment.subSlots idx ses).map H.challengeChainSubSlot)
  let data ← pyIndex segment.subSlots idx
  let overflow ← (match data.signagePointIndex with
    | some (index + 1) => isOverflowBlock constants (index + 1)
    | _ => .ok false)
  let challenge ← (if overflow then do
      let currSlot ← pyItem segment.subSlots ((idx : ℤ) - 1)
      (pySome currSlot.ccSlotEndInfo).map VDFInfo.challenge
    else .ok ccSubSlotHash)
  let ccSpHash := match data.ccSpVdfInfo with
    | none => ccSubSlotHash
    | some info => H.vdfOutput info.output
  let pos ← pySome data.proofOfSpace
  match pos.verifyAndGetQualityString H V constants challenge ccSpHash with
  | none => return none
  | some quality => do
    let difficulty ← pyNumber currDiff
    let iters ← calculateIterationsQuality H constants.DIFFICULTY_CONSTANT_FACTOR quality pos.size
      difficulty ccSpHash
    return some iters

/-- What `_validate_segment` adds up over the slot data of a segment. -/
structure SegmentTotals where
  ipIters : ℕ
  slotIters : ℕ
  slots : ℕ
  afterChallenge : Bool
  toValidate : List DeferredVdf

/-- One round of the loop of `_validate_segment`: the totals after it without the slot, or `none` if
the segment is rejected. -/
def validateSlotData (segment : SubEpochChallengeSegment) (currSsi : ℕ) (currDifficulty : Option ℕ)
    (ses : Option SubEpochSummary) (firstSegmentInSe sampled : Bool) (idx : ℕ) (data : SubSlotData)
    (totals : SegmentTotals) : Except PyError (Option SegmentTotals) :=
  if sampled ∧ data.isChallenge then do
    match ← validatePospace H V constants segment idx currDifficulty ses firstSegmentInSe with
    | none => return none
    | some requiredIters => do
      let index ← pySome data.signagePointIndex
      let ipIters ← calculateIpIters constants currSsi index requiredIters
      let vdfs ← getChallengeBlockVdfs constants idx segment.subSlots currSsi
      return some { totals with
        ipIters := totals.ipIters + ipIters
        afterChallenge := true
        toValidate := totals.toValidate ++ vdfs }
  else if sampled ∧ totals.afterChallenge then do
    match ← validateSubSlotData V constants idx segment.subSlots currSsi with
    | none => return none
    | some vdfs => return some { totals with toValidate := totals.toValidate ++ vdfs }
  else .ok (some totals)

/-- The loop of `_validate_segment`. -/
def validateSegmentFrom (segment : SubEpochChallengeSegment) (currSsi : ℕ)
    (currDifficulty : Option ℕ) (ses : Option SubEpochSummary) (firstSegmentInSe sampled : Bool) :
    List (SubSlotData × ℕ) → SegmentTotals → Except PyError (Option SegmentTotals)
  | [], totals => .ok (some totals)
  | (data, idx) :: rest, totals => do
    match ← validateSlotData H V constants segment currSsi currDifficulty ses firstSegmentInSe
      sampled idx data totals with
    | none => return none
    | some totals =>
      validateSegmentFrom segment currSsi currDifficulty ses firstSegmentInSe sampled rest
        { totals with slotIters := totals.slotIters + currSsi, slots := totals.slots + 1 }

/-- `_validate_segment`; `none` if it returns `False`. -/
def validateSegment (segment : SubEpochChallengeSegment) (currSsi : ℕ) (currDifficulty : Option ℕ)
    (ses : Option SubEpochSummary) (firstSegmentInSe sampled : Bool) :
    Except PyError (Option SegmentTotals) :=
  validateSegmentFrom H V constants segment currSsi currDifficulty ses firstSegmentInSe sampled
    segment.subSlots.zipIdx ⟨0, 0, 0, false, []⟩

/-! ## The reward chain of a sub-epoch -/

/-- The loop of `__get_rc_sub_slot` that goes back to the end of a slot. The index may become
negative, and then counts from the end. -/
def slotEndBefore (slots : List SubSlotData) :
    ℕ → ℤ → ℕ → SubSlotData → Except PyError (ℤ × SubSlotData)
  | 0, _, _, _ => .error .divergence
  | fuel + 1, idx, slotsN, slot =>
    let slotsN := if slot.ccSlotEnd.isSome then slotsN - 1 else slotsN
    if slot.ccSlotEnd.isSome ∧ slotsN = 0 then .ok (idx, slot)
    else do
      let slot ← pyItem slots (idx - 1)
      slotEndBefore slots fuel (idx - 1) slotsN slot

/-- `__get_rc_sub_slot`. -/
def getRcSubSlot (segment : SubEpochChallengeSegment) (summaries : List SubEpochSummary)
    (currSsi : ℕ) : Except PyError RewardChainSubSlot := do
  let sesIdx ← uint32 ((segment.subEpochN : ℤ) - 1)
  let ses ← pyIndex summaries sesIdx
  let slots := segment.subSlots
  let firstIdx ← pyPositive (slots.findIdx? fun d => d.ccSlotEnd.isNone)
  let first ← pyIndex slots firstIdx
  let index ← pySome first.signagePointIndex
  let overflow ← isOverflowBlock constants index
  let prevPrev := if firstIdx ≥ 2 then slots[firstIdx - 2]? else none
  let slotsN := if overflow ∧ (prevPrev.any fun d => d.ccSlotEnd.isNone) then 2 else 1
  -- the challenge chain says nothing of the sub-epoch after an empty slot
  let empty := overflow && (prevPrev.any fun d => d.ccSlotEnd.isSome) &&
    ((slots[firstIdx - 1]?).any fun d => d.ccSlotEnd.isSome)
  let (idx, slot) ← slotEndBefore slots (firstIdx + slots.length + 2) firstIdx slotsN first
  let info ← pySome slot.ccSlotEndInfo
  let rcInfo ← pySome segment.rcSlotEndInfo
  let sesData := idx = 0 ∧ ¬empty
  let ccInfo := if idx ≠ 0 then { info with numberOfIterations := currSsi } else info
  let iccHash := slot.iccSlotEndInfo.map fun icc => H.infusedChallengeChainSubSlot
    ⟨if idx ≠ 0 then { icc with numberOfIterations := currSsi } else icc⟩
  let cc : ChallengeChainSubSlot := ⟨ccInfo, iccHash,
    if sesData then some (H.subEpochSummary ses) else none,
    if sesData then ses.newSubSlotIters else none, if sesData then ses.newDifficulty else none⟩
  return ⟨rcInfo, H.challengeChainSubSlot cc, iccHash, constants.MIN_BLOCKS_PER_CHALLENGE_BLOCK⟩

/-- `_get_curr_diff_ssi`. -/
def getCurrDiffSsi (idx : ℕ) (summaries : List SubEpochSummary) : Option ℕ × ℕ :=
  match (summaries.take idx).reverse.find? fun ses => ses.newSubSlotIters.isSome with
  | some ses => (ses.newDifficulty, ses.newSubSlotIters.getD constants.SUB_SLOT_ITERS_STARTING)
  | none => (some constants.DIFFICULTY_STARTING, constants.SUB_SLOT_ITERS_STARTING)

/-! ## All segments -/

/-- What `_validate_sub_epoch_segments` returns: `False`, or `True` with the VDFs to validate. -/
inductive SegmentsResult
  | rejected
  | accepted (vdfsToValidate : List DeferredVdf)
  deriving DecidableEq

/-- Whether the result counts as true; a pair does, whatever is in it. -/
def SegmentsResult.truthy : SegmentsResult → Bool
  | .rejected => false
  | .accepted _ => true

/-- `segments_validated, vdfs_to_validate = result`: a `bool` cannot be unpacked. -/
def SegmentsResult.unpack : SegmentsResult → Except PyError (Bool × List DeferredVdf)
  | .rejected => .error .typeError
  | .accepted vdfsToValidate => .ok (true, vdfsToValidate)

/-- The loop over the segments of one sub-epoch: the VDFs of the sampled one, or `none` if a segment
is rejected. The summary of the previous sub-epoch is given to the first segment only. -/
def validateSegmentsOf (currSsi : ℕ) (currDifficulty : Option ℕ) (sampledSegIndex : ℕ) :
    Option SubEpochSummary → List (SubEpochChallengeSegment × ℕ) → List DeferredVdf →
      Except PyError (Option (List DeferredVdf))
  | _, [], vdfs => .ok (some vdfs)
  | prevSes, (segment, idx) :: rest, vdfs => do
    match ← validateSegment H V constants segment currSsi currDifficulty prevSes
      (decide (idx = 0)) (decide (sampledSegIndex = idx)) with
    | none => return none
    | some totals =>
      validateSegmentsOf currSsi currDifficulty sampledSegIndex none rest (vdfs ++ totals.toValidate)

/-- The loop over the sub-epochs, with the hash of the last reward chain slot. -/
def validateGroups (R : RandomSource) (summaries : List SubEpochSummary) :
    R.State → Bytes32 → List (ℤ × List SubEpochChallengeSegment) → List DeferredVdf →
      Except PyError SegmentsResult
  | _, _, [], vdfs => .ok (.accepted vdfs)
  | rng, rcSubSlotHash, (n, segments) :: rest, vdfs => do
    let subEpochN := n.toNat
    let (currDifficulty, currSsi) := getCurrDiffSsi constants subEpochN summaries
    let (sampledSegIndex, rng) := R.choice rng segments.length
    let (rcSubSlotHash, prevSes) ← (if subEpochN > 0 then do
        let first ← pyIndex segments 0
        let rcSubSlot ← getRcSubSlot H constants first summaries currSsi
        let prevSes ← pyIndex summaries (subEpochN - 1)
        .ok (H.rewardChainSubSlot rcSubSlot, some prevSes)
      else .ok (rcSubSlotHash, none))
    let ses ← pyIndex summaries subEpochN
    if ses.rewardChainHash ≠ rcSubSlotHash then return .rejected
    else do
      match ← validateSegmentsOf H V constants currSsi currDifficulty sampledSegIndex prevSes
        segments.zipIdx vdfs with
      | none => return .rejected
      | some vdfs => validateGroups R summaries rng rcSubSlotHash rest vdfs

/-- `_validate_sub_epoch_segments`. -/
def validateSubEpochSegments (R : RandomSource) (rng : R.State)
    (segments : List SubEpochChallengeSegment) (summaries : List SubEpochSummary) :
    Except PyError SegmentsResult := do
  let segmentsBySubEpoch ← mapSegmentsBySubEpoch segments
  validateGroups H V constants R summaries rng constants.GENESIS_CHALLENGE
    segmentsBySubEpoch.entries []

/-- `_validate_vdf_batch`. -/
def validateVdfBatch (vdfs : List DeferredVdf) : Bool :=
  vdfs.all fun vdf => vdf.1.isValid V constants vdf.2.1 vdf.2.2 none

end Segments

end Chives
