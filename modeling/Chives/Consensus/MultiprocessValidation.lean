import Chives.Consensus.BlockHeaderValidation
import Chives.Library.Chunks
import Chives.Types.Conditions

set_option autoImplicit false

/-!
# Batch pre-validation

`consensus/multiprocess_validation.py`: `pre_validate_blocks_multiprocessing` and its worker
`batch_pre_validate_blocks`, with `get_block_header` of `util/generator_tools.py`.

## Main definitions

* `Window`, `recentWindow` — the recent blocks that are given to the workers.
* `prePassStep`, `prePass` — the pass over the batch that adds block records to the
  cache.
* `preValidateBlock` — what a worker does with a block.
* `preValidateBlocksMultiprocessing` — the whole call, which also returns the cache.

## Design

The call changes the cache of block records it is given, and may return early or raise. Its model
returns the cache it leaves together with the outcome, so that the cache is known in every case.
-/

namespace Chives

open ExceptRun Chunks

/-- `PreValidationResult`. -/
structure PreValidationResult where
  error : Option ℕ
  requiredIters : Option ℕ
  npcResult : Option NPCResult
  validatedSignature : Bool
  deriving DecidableEq

/-- The result that carries only an error code. -/
def PreValidationResult.ofErr (e : Err) : PreValidationResult := ⟨some e.value, none, none, false⟩

/-- What pre-validation takes from elsewhere: hashes, verifiers, the CLVM, the BIP158 filter, the
generators of other blocks and the time. -/
structure PreValidationTools where
  H : Hashes
  V : Verifiers
  runGenerator : BlockGenerator → ℕ → ℕ → NPCResult
  encodedFilter : List Bytes → Bytes
  getBlockGenerator : FullBlock → List FullBlock → Except PyError (Option BlockGenerator)
  now : ℕ

/-! ## The worker -/

/-- `get_block_header`. -/
def getBlockHeader (encodedFilter : List Bytes → Bytes) (block : FullBlock)
    (txAdditionCoins : List Coin) (removalsNames : List Bytes32) : HeaderBlock where
  finishedSubSlots := block.finishedSubSlots
  rewardChainBlock := block.rewardChainBlock
  challengeChainSpProof := block.challengeChainSpProof
  challengeChainIpProof := block.challengeChainIpProof
  rewardChainSpProof := block.rewardChainSpProof
  rewardChainIpProof := block.rewardChainIpProof
  infusedChallengeChainIpProof := block.infusedChallengeChainIpProof
  foliage := block.foliage
  foliageTransactionBlock := block.foliageTransactionBlock
  transactionsFilter := encodedFilter (if block.isTransactionBlock then
      (txAdditionCoins ++ block.getIncludedRewardCoins).map (fun c => c.puzzleHash.bytes) ++
        removalsNames.map Bytes32.bytes
    else [])
  transactionsInfo := block.transactionsInfo

section Worker

variable (T : PreValidationTools) (constants : ConsensusConstants)

/-- The result of the generator of a block: from the cache, or by running it. -/
def npcOfBlock (npcResults : ℕ → Option NPCResult) (block : FullBlock)
    (generator : Option BlockGenerator) : Except PyError (Option NPCResult) :=
  match npcResults block.height, block.transactionsGenerator with
  | some npc, _ => .ok (some npc)
  | none, none => .ok none
  | none, some program => do
    let g ← pySome generator
    let info ← pySome block.transactionsInfo
    let _ ← pyAssert (g.program = program)
    return some (T.runGenerator g (min constants.MAX_BLOCK_COST_CLVM info.cost) block.height)

/-- The signature check of a worker: an error code, and whether the signature was validated. -/
def checkAggregateSignature (block : FullBlock) (npc : Option NPCResult)
    (validateSignatures : Bool) : Except PyError (Option ℕ × Bool) :=
  match validateSignatures, npc, block.transactionsInfo with
  | true, some npc, some info => do
    let conds ← pySome npc.conds
    let (pks, msgs) := pkmPairs conds constants.AGG_SIG_ME_ADDITIONAL_DATA
    return if T.V.aggregateVerify pks msgs info.aggregatedSignature then (none, true)
      else (some Err.badAggregateSignature.value, false)
  | _, _, _ => .ok (none, false)

/-- A block of a batch with what its worker gets for it. -/
structure PreValidationJob where
  block : FullBlock
  generator : Option BlockGenerator
  expectedDifficulty : ℕ
  expectedSubSlotIters : ℕ

/-- The header check of a worker, for the given result of the generator. -/
def preValidateHeader (checkFilter : Bool) (blocks : BlockRecords) (job : PreValidationJob)
    (npc : Option NPCResult) : Except HeaderFailure ℕ :=
  let (removals, txAdditions) := txRemovalsAndAdditions (npc.bind NPCResult.conds)
  validateFinishedHeaderBlock T.H T.V constants blocks
    (getBlockHeader T.encodedFilter job.block txAdditions removals) checkFilter
    job.expectedDifficulty job.expectedSubSlotIters true T.now

/-- What a worker does with a block, as long as nothing raises. -/
def preValidateBody (checkFilter validateSignatures : Bool) (npcResults : ℕ → Option NPCResult)
    (blocks : BlockRecords) (job : PreValidationJob) : Except PyError PreValidationResult := do
  let npc ← npcOfBlock T constants npcResults job.block job.generator
  match npc.bind NPCResult.error with
  | some e => return ⟨some e, none, npc, false⟩
  | none =>
    match preValidateHeader T constants checkFilter blocks job npc with
    | .error (.raised e) => throw e
    | .error (.invalid e) => return ⟨some e.value, none, npc, false⟩
    | .ok requiredIters => do
      let (error, validated) ←
        checkAggregateSignature T constants job.block npc validateSignatures
      return ⟨error, some requiredIters, npc, validated⟩

/-- What a worker returns for a block: an exception becomes `Err.UNKNOWN`. -/
def preValidateBlock (checkFilter validateSignatures : Bool) (npcResults : ℕ → Option NPCResult)
    (blocks : BlockRecords) (job : PreValidationJob) : PreValidationResult :=
  match preValidateBody T constants checkFilter validateSignatures npcResults blocks job with
  | .ok result => result
  | .error _ => .ofErr .unknown

end Worker

/-! ## The window of recent blocks -/

/-- The recent blocks that are collected for the workers, with the counters of the loop. -/
structure Window where
  recent : BlockRecords
  compressed : BlockRecords
  numSubSlotsFound : ℕ
  numBlocksSeen : ℕ

/-- Whether the compressed blocks are not complete yet. -/
def Window.wantsMore (constants : ConsensusConstants) (numSubSlotsToLookFor : ℕ) (w : Window) :
    Bool :=
  decide (w.numBlocksSeen < constants.NUMBER_OF_TIMESTAMPS) ||
    decide (w.numSubSlotsFound < numSubSlotsToLookFor)

/-- One round of the loop that collects recent blocks. -/
def Window.add (constants : ConsensusConstants) (numSubSlotsToLookFor : ℕ) (w : Window)
    (curr : BlockRecord) : Window where
  recent := w.recent.set curr.headerHash curr
  compressed := if w.wantsMore constants numSubSlotsToLookFor then
    w.compressed.set curr.headerHash curr else w.compressed
  numSubSlotsFound :=
    w.numSubSlotsFound + (curr.finishedChallengeSlotHashes.map List.length).getD 0
  numBlocksSeen := w.numBlocksSeen + (if curr.isTransactionBlock then 1 else 0)

/-- The loop that collects recent blocks: back to a sub-epoch summary, but not before the compressed
blocks are complete, and to genesis at most. -/
def windowFrom (constants : ConsensusConstants) (blocks : BlockRecords)
    (numSubSlotsToLookFor : ℕ) : ℕ → BlockRecord → Window → Except PyError Window
  | 0, _, _ => .error .divergence
  | fuel + 1, curr, w =>
    if (curr.subEpochSummaryIncluded.isNone || w.wantsMore constants numSubSlotsToLookFor) &&
        decide (curr.height > 0) then do
      let p ← blocks.blockRecord curr.prevHash
      windowFrom constants blocks numSubSlotsToLookFor fuel p
        (w.add constants numSubSlotsToLookFor curr)
    else .ok { w with
      recent := w.recent.set curr.headerHash curr
      compressed := w.compressed.set curr.headerHash curr }

/-- The recent blocks for a batch on top of the given block. -/
def recentWindow (constants : ConsensusConstants) (blocks : BlockRecords) (prev : BlockRecord) :
    Except PyError Window :=
  windowFrom constants blocks (if prev.overflow then 3 else 2) blocks.fuel prev ⟨∅, ∅, 0, 0⟩

/-! ## The pass over the batch -/

/-- The state of the pass over the batch. -/
structure PrePassState where
  cache : BlockRecords
  recent : BlockRecords
  compressed : BlockRecords
  prevB : Option BlockRecord
  diffSsis : List (ℕ × ℕ)

/-- How the pass stops at a block: with an exception, with an invalid proof of space, after which
the records are removed, or with an invalid sub-epoch summary, after which they are not. -/
inductive PrePassStop
  | raised (e : PyError)
  | invalidPospace
  | invalidSubEpochSummary
  deriving DecidableEq, Repr

section PrePass

variable (T : PreValidationTools) (constants : ConsensusConstants)
  (heightToHash : ℕ → Option Bytes32) (wpSummaries : Option (List SubEpochSummary))

/-- The previous record of a block of the batch: the record of the block before it in the batch, and
for the first block the stored one. -/
def prevOfBlock (s : PrePassState) (block : FullBlock) : Except PyError (Option BlockRecord) :=
  if block.height ≠ 0 then
    match s.cache.get block.prevHeaderHash, s.prevB with
    | none, _ => .error .assertionError
    | some _, some prevB => .ok (some prevB)
    | some r, none => .ok (some r)
  else .ok s.prevB

/-- The challenge of a block and the hash at its signage point. -/
def challengeOfBatchBlock (s : PrePassState) (prevB : Option BlockRecord) (block : FullBlock) :
    Except PyError (Bytes32 × Bytes32) := do
  let overflow ← isOverflowBlock constants block.rewardChainBlock.signagePointIndex
  let challenge ← getBlockChallenge T.H constants block.finishedSubSlots block.prevHeaderHash
    s.recent prevB.isNone overflow false
  return (challenge, ccSpHashOf T.H block.rewardChainBlock.challengeChainSpVdf challenge)

/-- Whether the summary of a record is the one of the weight proof. -/
def matchesWpSummary (block : FullBlock) (rec : BlockRecord) : Except PyError Bool :=
  match rec.subEpochSummaryIncluded, wpSummaries with
  | some ses, some summaries => do
    let idx : ℤ := (block.height / constants.SUB_EPOCH_BLOCKS : ℕ) - 1
    -- a negative index counts from the end
    let next ← pyIndex summaries (if idx < 0 then summaries.length - 1 else idx.toNat)
    return decide (T.H.subEpochSummary ses = T.H.subEpochSummary next)
  | _, _ => .ok true

/-- The record of a block of the batch, with its difficulty and its sub-slot iterations. -/
def recordOfBatchBlock (s : PrePassState) (block : FullBlock) :
    Except PrePassStop (BlockRecord × ℕ × ℕ) := do
  let prevB ← (prevOfBlock s block).mapError .raised
  let (subSlotIters, difficulty) ← (getNextSubSlotItersAndDifficulty constants
    (decide (block.finishedSubSlots ≠ [])) prevB ⟨s.cache, heightToHash⟩).mapError .raised
  let (challenge, ccSpHash) ← (challengeOfBatchBlock T constants s prevB block).mapError .raised
  match block.rewardChainBlock.proofOfSpace.verifyAndGetQualityString T.H T.V constants challenge
      ccSpHash with
  | none => throw .invalidPospace
  | some qStr => do
    let requiredIters ← (calculateIterationsQuality T.H constants.DIFFICULTY_CONSTANT_FACTOR qStr
      block.rewardChainBlock.proofOfSpace.size difficulty ccSpHash).mapError .raised
    let rec ← (blockToBlockRecord T.H constants ⟨s.cache, heightToHash⟩ requiredIters
      block).mapError fun e => if e = .valueError then .invalidSubEpochSummary else .raised e
    let ok ← (matchesWpSummary T constants wpSummaries block rec).mapError .raised
    if ok then return (rec, difficulty, subSlotIters) else throw .invalidSubEpochSummary

/-- One round of the pass: the record of the block is added to the cache unless it is there, and
the stored one to the recent blocks. -/
def prePassStep (s : PrePassState) (block : FullBlock) : Except PrePassStop PrePassState := do
  let (rec, difficulty, subSlotIters) ←
    recordOfBatchBlock T constants heightToHash wpSummaries s block
  let stored := (s.cache.get rec.headerHash).getD rec
  return {
    cache := if (s.cache.get rec.headerHash).isNone then s.cache.set rec.headerHash rec else s.cache
    recent := s.recent.set rec.headerHash stored
    compressed := s.compressed.set rec.headerHash stored
    prevB := some rec
    diffSsis := s.diffSsis ++ [(difficulty, subSlotIters)] }

/-- The pass over the batch: the state it ends in, and why it stopped if it did. -/
def prePass : PrePassState → List FullBlock → PrePassState × Option PrePassStop
  | s, [] => (s, none)
  | s, block :: blocks =>
    match prePassStep T constants heightToHash wpSummaries s block with
    | .ok s' => prePass s' blocks
    | .error stop => (s, some stop)

end PrePass

/-! ## The call -/

section Call

variable (T : PreValidationTools) (constants : ConsensusConstants)

/-- Remove the records of the blocks that were not there before, if they are there. -/
def removeAdded (H : Hashes) (before : BlockRecords) (cache : BlockRecords)
    (blocks : List FullBlock) : BlockRecords :=
  blocks.foldl (fun cache b => if (before.get (b.headerHash H)).isNone then
    cache.erase (b.headerHash H) else cache) cache

/-- Remove the records of the blocks that were not there before; a record that is not there any
more raises. -/
def removeAll (H : Hashes) (before : BlockRecords) :
    BlockRecords → List FullBlock → BlockRecords × Except PyError Unit
  | cache, [] => (cache, .ok ())
  | cache, b :: blocks =>
    if (before.get (b.headerHash H)).isNone then
      if (cache.get (b.headerHash H)).isNone then (cache, .error .keyError)
      else removeAll H before (cache.erase (b.headerHash H)) blocks
    else removeAll H before cache blocks

/-- The blocks of the batch before a block: `while curr_b.prev_header_hash in block_dict: …`. -/
def pastBlocks (blockDict : Dict Bytes32 FullBlock) : ℕ → FullBlock → Except PyError (List FullBlock)
  | 0, _ => .error .divergence
  | fuel + 1, curr =>
    match blockDict.lookup curr.prevHeaderHash with
    | none => .ok []
    | some b => (pastBlocks blockDict fuel b).map (b :: ·)

/-- The generator of a block of the batch. -/
def generatorOfBlock (blockDict : Dict Bytes32 FullBlock) (block : FullBlock) :
    Except PyError (Option BlockGenerator) := do
  let past ← pastBlocks blockDict (blockDict.keys.length + 1) block
  T.getBlockGenerator block past

/-- The blocks given to a worker with its jobs: all recent ones if one of its blocks has finished
sub-slots, else the compressed ones. -/
def mapOfChunk (recent compressed : BlockRecords) (jobs : List PreValidationJob) : BlockRecords :=
  if jobs.any fun job => decide (job.block.finishedSubSlots ≠ []) then recent else compressed

/-- The results of all workers. -/
def runWorkers (checkFilter validateSignatures : Bool) (npcResults : ℕ → Option NPCResult)
    (recent compressed : BlockRecords) (batchSize : ℕ) (jobs : List PreValidationJob) :
    List PreValidationResult :=
  (chunksOf batchSize jobs).flatMap fun chunk =>
    chunk.map (preValidateBlock T constants checkFilter validateSignatures npcResults
      (mapOfChunk recent compressed chunk))

/-- The jobs of a batch after the pass. -/
def jobsOf (blocks : List FullBlock) (generators : List (Option BlockGenerator))
    (diffSsis : List (ℕ × ℕ)) : List PreValidationJob :=
  (blocks.zip (generators.zip diffSsis)).map fun e => ⟨e.1, e.2.1, e.2.2.1, e.2.2.2⟩

/-- The call after the pass: generators and workers. -/
def afterPass (checkFilter validateSignatures : Bool) (npcResults : ℕ → Option NPCResult)
    (batchSize : ℕ) (blocks : List FullBlock) (s : PrePassState) :
    Except PyError (List PreValidationResult) :=
  let blockDict := Dict.ofItems (blocks.map fun b => (b.headerHash T.H, b))
  if batchSize = 0 then .error .valueError
  else match blocks.mapM (generatorOfBlock T blockDict) with
    | .error .valueError => .ok [.ofErr .failedGettingGeneratorMultiprocessing]
    | .error e => .error e
    | .ok generators =>
      .ok (runWorkers T constants checkFilter validateSignatures npcResults s.recent s.compressed
        batchSize (jobsOf blocks generators s.diffSsis))

/-- The window for a batch that starts with the given block; genesis needs none. -/
def windowOfBatch (cache : BlockRecords) (first : FullBlock) :
    Except PyError (Option (BlockRecords × BlockRecords)) :=
  if first.height > 0 then
    match cache.get first.prevHeaderHash with
    | none => .ok none
    | some prev => (recentWindow constants cache prev).map fun w => some (w.recent, w.compressed)
  else .ok (some (∅, ∅))

/-- `pre_validate_blocks_multiprocessing`, with the cache of block records that it leaves. -/
def preValidateBlocksMultiprocessing (heightToHash : ℕ → Option Bytes32) (cache : BlockRecords)
    (blocks : List FullBlock) (checkFilter : Bool) (npcResults : ℕ → Option NPCResult)
    (batchSize : ℕ) (wpSummaries : Option (List SubEpochSummary)) (validateSignatures : Bool) :
    BlockRecords × Except PyError (List PreValidationResult) :=
  match blocks with
  | [] => (cache, .error .indexError)
  | first :: _ =>
    match windowOfBatch constants cache first with
    | .error e => (cache, .error e)
    | .ok none => (cache, .ok [.ofErr .invalidPrevBlockHash])
    | .ok (some (recent, compressed)) =>
      match prePass T constants heightToHash wpSummaries ⟨cache, recent, compressed, none, []⟩
          blocks with
      | (s, some (.raised e)) => (s.cache, .error e)
      | (s, some .invalidSubEpochSummary) => (s.cache, .ok [.ofErr .invalidSubEpochSummary])
      | (s, some .invalidPospace) =>
        (removeAdded T.H cache s.cache blocks, .ok [.ofErr .invalidPospace])
      | (s, none) =>
        match removeAll T.H cache s.cache blocks with
        | (cache', .error e) => (cache', .error e)
        | (cache', .ok ()) =>
          (cache', afterPass T constants checkFilter validateSignatures npcResults batchSize blocks s)

end Call

end Chives
