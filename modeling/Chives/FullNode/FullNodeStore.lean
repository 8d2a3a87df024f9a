import Chives.Consensus.BlockCreation
import Chives.Consensus.NextSubEpochSummary
import Chives.Library.StateRun
import Chives.Util.LruCache

set_option autoImplicit false

/-!
# The store of a full node

`FullNodeStore` of `full_node/full_node_store.py`, as far as it keeps finished sub-slots and signage points, and what
depends on infusions that are not known yet.

## Main definitions

* `FullNodeStore` — the class, with `newFinishedSubSlot`, `newSignagePoint`, `addToFutureSp`, `addToFutureIp`,
  `newPeak` and `clearOldCacheEntries`.
* `FullNodeStore.checkEos`, `FullNodeStore.checkSignagePoint` — what is decided about an end of slot and
  about a signage point before the store changes.

## Design

A method reads the clock once, by an argument. A method that raises leaves the store as it is at that point.
-/

namespace Chives

open StateRun

/-- `NewInfusionPointVDF`. -/
structure NewInfusionPointVDF where
  unfinishedRewardHash : Bytes32
  challengeChainIpVdf : VDFInfo
  challengeChainIpProof : VDFProof
  rewardChainIpVdf : VDFInfo
  rewardChainIpProof : VDFProof
  infusedChallengeChainIpVdf : Option VDFInfo
  infusedChallengeChainIpProof : Option VDFProof

/-- An entry of `finished_sub_slots`. The first sub-slot has no bundle. -/
structure FinishedSubSlot where
  subSlot : Option EndOfSubSlotBundle
  sps : List (Option SignagePoint)
  totalIters : ℕ

/-- `FullNodeStorePeakResult`. -/
structure FullNodeStorePeakResult where
  addedEos : Option EndOfSubSlotBundle
  newSignagePoints : List (ℕ × SignagePoint)
  newInfusionPoints : List NewInfusionPointVDF

/-- `FullNodeStore`. -/
structure FullNodeStore where
  finishedSubSlots : List FinishedSubSlot
  futureEosCache : OrderedDict Bytes32 (List EndOfSubSlotBundle)
  futureSpCache : OrderedDict Bytes32 (List (ℕ × SignagePoint))
  futureIpCache : OrderedDict Bytes32 (List NewInfusionPointVDF)
  futureCacheKeyTimes : OrderedDict Bytes32 ℤ
  recentSignagePoints : LRUCache Bytes32 (SignagePoint × ℤ)
  recentEos : LRUCache Bytes32 (EndOfSubSlotBundle × ℤ)

namespace FullNodeStore

section Store

variable (H : Hashes) (V : Verifiers) (constants : ConsensusConstants)

/-- `[None] * self.constants.NUM_SPS_SUB_SLOT`. -/
def noSignagePoints : List (Option SignagePoint) := List.replicate constants.NUM_SPS_SUB_SLOT none

/-- What `initialize_genesis_sub_slot` puts in `finished_sub_slots`. -/
def genesisSubSlot : FinishedSubSlot := ⟨none, noSignagePoints constants, 0⟩

/-- `FullNodeStore(constants)`. -/
def new : FullNodeStore where
  finishedSubSlots := [genesisSubSlot constants]
  futureEosCache := .empty
  futureSpCache := .empty
  futureIpCache := .empty
  futureCacheKeyTimes := .empty
  recentSignagePoints := .new 500
  recentEos := .new 50

/-! ## Ends of slots -/

/-- What is decided about an end of slot: it is there already, it is not accepted, it depends on an infusion
that is not known, or it is the next one. -/
inductive EosVerdict
  | present
  | rejected
  | future (rcChallenge : Bytes32)
  | valid (totalIters : ℕ)

/-- What the VDFs of an end of slot are checked with. -/
structure EosStart where
  rcChallenge : Bytes32
  ccStartElement : ClassgroupElement
  iters : ℕ
  iccChallenge : Option Bytes32
  iccStartElement : Option ClassgroupElement
  iccIters : Option ℕ

/-- The challenge of the infused challenge chain behind a peak, and how far its slot goes. -/
def iccBehind (blocks : BlockRecords) (peak : BlockRecord) (totalIters subSlotIters : ℕ) :
    Except PyError (Option Bytes32 × Option ℕ) :=
  if peak.deficit < constants.MIN_BLOCKS_PER_CHALLENGE_BLOCK then do
    let curr ← blocks.walkBack (fun r => r.firstInSubSlot || r.isChallengeBlock constants) peak
    if curr.isChallengeBlock constants then do
      let iters ← uint64 ((totalIters : ℤ) - curr.totalIters)
      return (some curr.challengeBlockInfoHash, some iters)
    else do
      let hashes ← pySome curr.finishedInfusedChallengeSlotHashes
      let last ← pyLast hashes
      return (some last, some subSlotIters)
  else return (none, none)

/-- The start element of the infused challenge chain behind a peak. -/
def iccStartElement (peak : BlockRecord) : Option ClassgroupElement :=
  if peak.deficit = constants.MIN_BLOCKS_PER_CHALLENGE_BLOCK then none
  else if peak.deficit + 1 = constants.MIN_BLOCKS_PER_CHALLENGE_BLOCK then some defaultElement
  else peak.infusedChallengeVdfOutput

/-- Whether an end of slot after a peak has the summary that it should have. -/
def summaryMatches (eos : EndOfSubSlotBundle) (blocks : BlockchainInterface) (peak : BlockRecord)
    (peakFullBlock : Option FullBlock) : Except PyError Bool := do
  let (canFinish, _) ← canFinishSubAndFullEpoch constants blocks.records peak.height peak.prevHash peak.deficit
    peak.subEpochSummaryIncluded.isSome
  if canFinish then do
    let block ← pySome peakFullBlock
    let ses ← nextSubEpochSummary H constants blocks peak.requiredIters block true
    return decide (eos.challengeChain.subepochSummaryHash = ses.map H.subEpochSummary)
  else return true

/-- An end of slot in the slot of the peak. -/
def startBehindPeak (eos : EndOfSubSlotBundle) (blocks : BlockchainInterface) (peak : BlockRecord)
    (peakFullBlock : Option FullBlock) (totalIters subSlotIters : ℕ) : Except PyError (EosVerdict ⊕ EosStart) :=
  if totalIters < peak.totalIters then .ok (.inl .rejected)
  else do
    let rcChallenge := eos.rewardChain.endOfSlotVdf.challenge
    let iters ← uint64 ((totalIters : ℤ) - peak.totalIters)
    if peak.rewardInfusionNewChallenge ≠ rcChallenge then return .inl (.future rcChallenge)
    else do
      let (iccChallenge, iccIters) ← iccBehind constants blocks.records peak totalIters subSlotIters
      let rightSummary ← summaryMatches H constants eos blocks peak peakFullBlock
      if rightSummary then
        return .inr ⟨rcChallenge, peak.challengeVdfOutput, iters, iccChallenge, iccStartElement constants peak, iccIters⟩
      else return .inl .rejected

/-- An end of slot after the last finished one, which is empty. -/
def startOfSlot (lastSlot : Option EndOfSubSlotBundle) (rcChallenge : Bytes32) (subSlotIters : ℕ) : EosStart where
  rcChallenge := rcChallenge
  ccStartElement := defaultElement
  iters := subSlotIters
  iccChallenge := lastSlot.bind fun slot =>
    if slot.rewardChain.deficit ≠ constants.MIN_BLOCKS_PER_CHALLENGE_BLOCK then
      slot.infusedChallengeChain.map H.infusedChallengeChainSubSlot
    else none
  iccStartElement := some defaultElement
  iccIters := some subSlotIters

/-- The proof of a VDF that goes from a start element over some iterations to an output; a compact proof goes
over the whole VDF from the default element. -/
def proves (proof : VDFProof) (startElement : ClassgroupElement) (part whole : VDFInfo) : Bool :=
  if proof.normalizedToIdentity then proof.isValid V constants defaultElement whole none
  else proof.isValid V constants startElement part none

/-- Whether the infused challenge chain of an end of slot is the one that it should be. -/
def iccValid (eos : EndOfSubSlotBundle) (start : EosStart) : Except PyError Bool :=
  match start.iccChallenge with
  | some challenge => do
    let startElement ← pySome start.iccStartElement
    let iccIters ← pySome start.iccIters
    let icc ← pySome eos.infusedChallengeChain
    let proof ← pySome eos.proofs.infusedChallengeChainSlotProof
    let vdf := icc.infusedChallengeChainEndOfSlotVdf
    return decide (vdf = ⟨challenge, iccIters, vdf.output⟩) &&
      proves V constants proof startElement ⟨challenge, start.iters, vdf.output⟩ vdf
  | none => return eos.infusedChallengeChain.isNone && eos.proofs.infusedChallengeChainSlotProof.isNone

/-- Whether the VDFs of an end of slot are valid. -/
def eosVdfsValid (eos : EndOfSubSlotBundle) (ccChallenge : Bytes32) (subSlotIters : ℕ) (start : EosStart) :
    Except PyError Bool :=
  let ccVdf := eos.challengeChain.challengeChainEndOfSlotVdf
  let rcVdf := eos.rewardChain.endOfSlotVdf
  if ccVdf ≠ ⟨ccChallenge, subSlotIters, ccVdf.output⟩ then .ok false
  else if ¬ proves V constants eos.proofs.challengeChainSlotProof start.ccStartElement
      ⟨ccChallenge, start.iters, ccVdf.output⟩ ccVdf then .ok false
  else if ¬ eos.proofs.rewardChainSlotProof.isValid V constants defaultElement rcVdf
      (some ⟨start.rcChallenge, start.iters, rcVdf.output⟩) then .ok false
  else iccValid V constants eos start

/-- `new_finished_sub_slot`, until the store changes. -/
def checkEos (finishedSubSlots : List FinishedSubSlot) (eos : EndOfSubSlotBundle) (blocks : BlockchainInterface)
    (peak : Option BlockRecord) (peakFullBlock : Option FullBlock) : Except PyError EosVerdict := do
  let _ ← pyAssert (1 ≤ finishedSubSlots.length)
  let _ ← pyAssert (peak.isNone ↔ peakFullBlock.isNone)
  let last ← pyLast finishedSubSlots
  let ccChallenge := (last.subSlot.map fun s => H.challengeChainSubSlot s.challengeChain).getD constants.GENESIS_CHALLENGE
  let rcChallenge := (last.subSlot.map fun s => H.rewardChainSubSlot s.rewardChain).getD constants.GENESIS_CHALLENGE
  if finishedSubSlots.any (fun s => s.subSlot = some eos) then return .present
  else if eos.challengeChain.challengeChainEndOfSlotVdf.challenge ≠ ccChallenge then return .rejected
  else do
    let subSlotIters := (peak.map BlockRecord.subSlotIters).getD constants.SUB_SLOT_ITERS_STARTING
    let totalIters ← uint128 (last.totalIters + subSlotIters)
    let start ← (match peak with
      | some peak =>
        if peak.totalIters > last.totalIters then
          startBehindPeak H constants eos blocks peak peakFullBlock totalIters subSlotIters
        else return .inr (startOfSlot H constants last.subSlot rcChallenge subSlotIters)
      | none => return .inr (startOfSlot H constants last.subSlot rcChallenge subSlotIters))
    match start with
    | .inl verdict => return verdict
    | .inr start => do
      let valid ← eosVdfsValid V constants eos ccChallenge subSlotIters start
      return (if valid then .valid totalIters else .rejected)

/-- `new_finished_sub_slot`. -/
def newFinishedSubSlot (now : ℤ) (eos : EndOfSubSlotBundle) (blocks : BlockchainInterface) (peak : Option BlockRecord)
    (peakFullBlock : Option FullBlock) : EStateM PyError FullNodeStore (Option (List NewInfusionPointVDF)) := do
  let self ← get
  match checkEos H V constants self.finishedSubSlots eos blocks peak peakFullBlock with
  | .error e => throw e
  | .ok .present => return some []
  | .ok .rejected => return none
  | .ok (.future rcChallenge) => do
    modify fun self => { self with
      futureEosCache := self.futureEosCache.set rcChallenge ((self.futureEosCache.get? rcChallenge).getD [] ++ [eos])
      futureCacheKeyTimes := self.futureCacheKeyTimes.set rcChallenge now }
    return none
  | .ok (.valid totalIters) => do
    modify fun self => { self with
      finishedSubSlots := self.finishedSubSlots ++ [⟨some eos, noSignagePoints constants, totalIters⟩]
      recentEos := self.recentEos.put (H.challengeChainSubSlot eos.challengeChain) (eos, now) }
    return some ((self.futureIpCache.get? (H.rewardChainSubSlot eos.rewardChain)).getD [])

/-! ## Signage points -/

/-- `in_future_sp_cache`. -/
def inFutureSpCache (self : FullNodeStore) (signagePoint : SignagePoint) (index : ℕ) : Bool :=
  match signagePoint.rcVdf with
  | none => false
  | some rcVdf =>
    match self.futureSpCache.get? rcVdf.challenge with
    | none => false
    | some sps => sps.any fun e => decide (e.1 = index) && decide (e.2.rcVdf = some rcVdf)

/-- `add_to_future_sp`. -/
def addToFutureSp (now : ℤ) (signagePoint : SignagePoint) (index : ℕ) (self : FullNodeStore) : FullNodeStore :=
  match signagePoint.ccVdf, signagePoint.rcVdf, signagePoint.ccProof, signagePoint.rcProof with
  | some _, some rcVdf, some _, some _ =>
    let self := if (self.futureSpCache.get? rcVdf.challenge).isSome then self
      else { self with futureSpCache := self.futureSpCache.set rcVdf.challenge [] }
    if self.inFutureSpCache signagePoint index then self
    else { self with
      futureCacheKeyTimes := self.futureCacheKeyTimes.set rcVdf.challenge now
      futureSpCache := self.futureSpCache.set rcVdf.challenge
        ((self.futureSpCache.get? rcVdf.challenge).getD [] ++ [(index, signagePoint)]) }
  | _, _, _, _ => self

/-- What is decided about a signage point: nothing for an index that no signage point has, it has to wait, or it belongs
to the finished sub-slot at a position. -/
inductive SpVerdict
  | ignored
  | future
  | valid (position : ℕ)

/-- The first finished sub-slot with a challenge: its position, the hash of its reward chain, and where it starts. -/
def findSubSlot (challenge : Bytes32) : ℕ → List FinishedSubSlot → Except PyError (Option (ℕ × Bytes32 × ℕ))
  | _, [] => .ok none
  | position, slot :: slots =>
    match slot.subSlot with
    | none => do
      let _ ← pyAssert (slot.totalIters = 0)
      if constants.GENESIS_CHALLENGE = challenge then return some (position, constants.GENESIS_CHALLENGE, slot.totalIters)
      else findSubSlot challenge (position + 1) slots
    | some bundle =>
      if H.challengeChainSubSlot bundle.challengeChain = challenge then
        return some (position, H.rewardChainSubSlot bundle.rewardChain, slot.totalIters)
      else findSubSlot challenge (position + 1) slots

/-- The block from which the VDFs of a signage point start, if they do not start with the sub-slot. -/
def spStartBlock (blocks : BlockRecords) (peak : Option BlockRecord) (futureSubSlot : Bool)
    (startTotalIters spTotalIters : ℕ) : Except PyError (Option BlockRecord) :=
  match peak with
  | none => .ok none
  | some peak =>
    if futureSubSlot then .ok none
    else do
      let curr ← blocks.walkBack (fun r => r.firstInSubSlot ||
        !(decide (r.totalIters > startTotalIters) && decide (r.totalIters > spTotalIters))) peak
      return (if curr.totalIters > startTotalIters ∧ curr.totalIters > spTotalIters then none else some curr)

/-- Whether the VDFs of a signage point in a sub-slot are valid. -/
def spValid (blocks : BlockRecords) (peak : Option BlockRecord) (subSlotIters nextSubSlotIters index : ℕ)
    (ssRewardHash : Bytes32) (startTotalIters : ℕ) (ccVdf rcVdf : VDFInfo) (ccProof rcProof : VDFProof)
    (skipVdfValidation : Bool) : Except PyError Bool := do
  let futureSubSlot := (peak.map fun p => decide (startTotalIters > p.totalIters)).getD false
  let checkpointSize ← uint64
    ((if futureSubSlot then nextSubSlotIters else subSlotIters) / constants.NUM_SPS_SUB_SLOT : ℕ)
  let deltaIters ← uint64 (checkpointSize * index)
  let spTotalIters := startTotalIters + deltaIters
  let curr ← spStartBlock blocks peak futureSubSlot startTotalIters spTotalIters
  let iters ← (match curr with
    | none => return deltaIters
    | some curr => uint64 ((spTotalIters : ℤ) - curr.totalIters))
  let rcExpected : VDFInfo := ⟨(curr.map BlockRecord.rewardInfusionNewChallenge).getD ssRewardHash, iters, rcVdf.output⟩
  let startElement := (curr.map BlockRecord.challengeVdfOutput).getD defaultElement
  if ccVdf ≠ ⟨ccVdf.challenge, deltaIters, ccVdf.output⟩ then return false
  else if ¬ skipVdfValidation ∧
      ¬ proves V constants ccProof startElement ⟨ccVdf.challenge, iters, ccVdf.output⟩ ccVdf then return false
  else if rcExpected.challenge ≠ rcVdf.challenge then return false
  else return skipVdfValidation || rcProof.isValid V constants defaultElement rcVdf (some rcExpected)

/-- `new_signage_point`, until the store changes. -/
def checkSignagePoint (finishedSubSlots : List FinishedSubSlot) (index : ℕ) (blocks : BlockRecords)
    (peak : Option BlockRecord) (nextSubSlotIters : ℕ) (signagePoint : SignagePoint) (skipVdfValidation : Bool) :
    Except PyError SpVerdict := do
  let _ ← pyAssert (1 ≤ finishedSubSlots.length)
  let subSlotIters := match peak with
    | none => constants.SUB_SLOT_ITERS_STARTING
    | some peak => if peak.height < 2 then constants.SUB_SLOT_ITERS_STARTING else peak.subSlotIters
  if index = 0 ∨ index ≥ constants.NUM_SPS_SUB_SLOT then return .ignored
  else do
    let ccVdf ← pySome signagePoint.ccVdf
    let ccProof ← pySome signagePoint.ccProof
    let rcVdf ← pySome signagePoint.rcVdf
    let rcProof ← pySome signagePoint.rcProof
    let found ← findSubSlot H constants ccVdf.challenge 0 finishedSubSlots
    match found with
    | none => return .future
    | some (position, ssRewardHash, startTotalIters) => do
      let valid ← spValid V constants blocks peak subSlotIters nextSubSlotIters index ssRewardHash startTotalIters
        ccVdf rcVdf ccProof rcProof skipVdfValidation
      return (if valid then .valid position else .future)

/-- `sp_arr[index] = signage_point`, of the finished sub-slot at a position. -/
def putSignagePoint (position index : ℕ) (signagePoint : SignagePoint) (slots : List FinishedSubSlot) :
    List FinishedSubSlot :=
  slots.modify position fun slot => { slot with sps := slot.sps.set index (some signagePoint) }

/-- `new_signage_point`. -/
def newSignagePoint (now : ℤ) (index : ℕ) (blocks : BlockRecords) (peak : Option BlockRecord) (nextSubSlotIters : ℕ)
    (signagePoint : SignagePoint) (skipVdfValidation : Bool) : EStateM PyError FullNodeStore Bool := do
  let self ← get
  match checkSignagePoint H V constants self.finishedSubSlots index blocks peak nextSubSlotIters signagePoint
      skipVdfValidation with
  | .error e => throw e
  | .ok .ignored => return false
  | .ok .future => do
    modify (addToFutureSp now signagePoint index)
    return false
  | .ok (.valid position) => do
    let output := (signagePoint.ccVdf.map VDFInfo.output).getD defaultElement
    modify fun self => { self with
      finishedSubSlots := putSignagePoint position index signagePoint self.finishedSubSlots
      recentSignagePoints := self.recentSignagePoints.put (H.vdfOutput output) (signagePoint, now) }
    return true

/-! ## Infusion points -/

/-- `add_to_future_ip`. -/
def addToFutureIp (infusionPoint : NewInfusionPointVDF) (self : FullNodeStore) : FullNodeStore :=
  let ch := infusionPoint.rewardChainIpVdf.challenge
  { self with futureIpCache := self.futureIpCache.set ch ((self.futureIpCache.get? ch).getD [] ++ [infusionPoint]) }

/-! ## Old entries -/

/-- `self.future_cache_key_times.pop(k, None)`, and the same of the caches. -/
def popKey (self : FullNodeStore) (k : Bytes32) : FullNodeStore :=
  { self with
    futureCacheKeyTimes := self.futureCacheKeyTimes.erase k
    futureIpCache := self.futureIpCache.erase k
    futureEosCache := self.futureEosCache.erase k
    futureSpCache := self.futureSpCache.erase k }

/-- `clear_old_cache_entries`. -/
def clearOldCacheEntries (now : ℤ) (self : FullNodeStore) : FullNodeStore :=
  ((self.futureCacheKeyTimes.entries.filter fun e => now - e.2 > 3600).map Prod.fst).foldl popKey self

/-! ## The peak -/

/-- The signage points of a finished sub-slot that are before the fork. -/
def keptSps (intervalIters : ℕ) (fork : BlockRecord) (slot : FinishedSubSlot) : List (Option SignagePoint) :=
  slot.sps.mapIdx fun i sp => if slot.totalIters + i * intervalIters < fork.totalIters then sp else none

/-- The signage points that are kept for a sub-slot: those of the last finished sub-slot with this bundle. -/
def spsOf (intervalIters : ℕ) (fork : BlockRecord) (slots : List FinishedSubSlot) (bundle : Option EndOfSubSlotBundle) :
    List (Option SignagePoint) :=
  slots.foldl (fun sps slot => if slot.subSlot.isSome ∧ slot.subSlot = bundle then keptSps intervalIters fork slot else sps)
    (noSignagePoints constants)

/-- The finished sub-slots of a new peak that is not in the first sub-slot. -/
def setPeakSlots (peak : BlockRecord) (spSubSlot : Option EndOfSubSlotBundle) (ipSubSlot : EndOfSubSlotBundle)
    (forkBlock : Option BlockRecord) : EStateM PyError FullNodeStore Unit := do
  let self ← get
  let reorged := (forkBlock.map fun fork => decide (fork.subSlotIters ≠ peak.subSlotIters)).getD false
  let (spSps, ipSps) ← lift (if reorged then .ok (noSignagePoints constants, noSignagePoints constants)
    else do
      let interval ← calculateSpIntervalIters constants peak.subSlotIters
      return (spsOf constants interval (forkBlock.getD peak) self.finishedSubSlots spSubSlot,
        spsOf constants interval (forkBlock.getD peak) self.finishedSubSlots (some ipSubSlot)))
  modify fun self => { self with finishedSubSlots := [] }
  let prevSubSlotTotalIters ← lift (peak.spSubSlotTotalIters constants)
  (if spSubSlot.isSome ∨ prevSubSlotTotalIters = 0 then do
    ensure (fun _ => peak.overflow = true ∨ prevSubSlotTotalIters ≠ 0) .assertionError
    modify fun self => { self with
      finishedSubSlots := self.finishedSubSlots ++ [⟨spSubSlot, spSps, prevSubSlotTotalIters⟩] }
  else pure ())
  let ipIters ← lift (peak.ipIters constants)
  let ipSubSlotTotalIters ← lift (uint128 ((peak.totalIters : ℤ) - ipIters))
  modify fun self => { self with
    finishedSubSlots := self.finishedSubSlots ++ [⟨some ipSubSlot, ipSps, ipSubSlotTotalIters⟩] }

/-- The ends of slots that waited for the peak are tried, until one is there. -/
def tryFutureEos (now : ℤ) (blocks : BlockchainInterface) (peak : BlockRecord) (peakFullBlock : FullBlock) :
    List EndOfSubSlotBundle → EStateM PyError FullNodeStore (Option EndOfSubSlotBundle)
  | [] => pure none
  | eos :: rest => do
    let result ← newFinishedSubSlot H V constants now eos blocks (some peak) (some peakFullBlock)
    if result.isSome then return some eos else tryFutureEos now blocks peak peakFullBlock rest

/-- The signage points that waited for the peak are tried; those that are there now are returned. -/
def tryFutureSps (now : ℤ) (blocks : BlockRecords) (peak : BlockRecord) :
    List (ℕ × SignagePoint) → EStateM PyError FullNodeStore (List (ℕ × SignagePoint))
  | [] => pure []
  | (index, sp) :: rest => do
    ensure (fun _ => sp.ccVdf.isSome = true) .assertionError
    let added ← newSignagePoint H V constants now index blocks (some peak) peak.subSlotIters sp false
    let sps ← tryFutureSps now blocks peak rest
    return (if added then (index, sp) :: sps else sps)

/-- What waited for a challenge is forgotten. -/
def popFuture (self : FullNodeStore) (k : Bytes32) : FullNodeStore :=
  { self with
    futureEosCache := self.futureEosCache.erase k
    futureSpCache := self.futureSpCache.erase k
    futureIpCache := self.futureIpCache.erase k }

/-- The bundles of the finished sub-slots are put in the cache of recent ones. -/
def putRecentEos (now : ℤ) (self : FullNodeStore) : FullNodeStore :=
  { self with
    recentEos := (self.finishedSubSlots.filterMap FinishedSubSlot.subSlot).foldl
      (fun cache eos => cache.put (H.challengeChainSubSlot eos.challengeChain) (eos, now)) self.recentEos }

/-- `new_peak`. -/
def newPeak (now : ℤ) (peak : BlockRecord) (peakFullBlock : FullBlock) (spSubSlot ipSubSlot : Option EndOfSubSlotBundle)
    (forkBlock : Option BlockRecord) (blocks : BlockchainInterface) :
    EStateM PyError FullNodeStore FullNodeStorePeakResult := do
  ensure (fun self => 1 ≤ self.finishedSubSlots.length) .assertionError
  (match ipSubSlot with
    | none => modify fun self => { self with finishedSubSlots := [genesisSubSlot constants] }
    | some ipSubSlot => setPeakSlots constants peak spSubSlot ipSubSlot forkBlock)
  let self ← get
  let newEos ← tryFutureEos H V constants now blocks peak peakFullBlock
    ((self.futureEosCache.get? peak.rewardInfusionNewChallenge).getD [])
  let self ← get
  let newSps ← tryFutureSps H V constants now blocks.records peak
    ((self.futureSpCache.get? peak.rewardInfusionNewChallenge).getD [])
  let self ← get
  let newIps := (self.futureIpCache.get? peak.rewardInfusionNewChallenge).getD []
  modify fun self => self.popFuture peak.rewardInfusionNewChallenge
  modify (putRecentEos H now)
  return ⟨newEos, newSps, newIps⟩

end Store

end FullNodeStore

end Chives
