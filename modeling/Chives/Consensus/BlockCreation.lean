import Chives.Consensus.RewardClaims
import Chives.Types.Conditions

set_option autoImplicit false

/-!
# Block creation

`consensus/block_creation.py`: `create_foliage` and `create_unfinished_block`, which run at the
signage point, and `unfinished_block_to_full_block`, which runs at the infusion point, with
`get_prev_transaction_block` of `util/prev_transaction_block.py`.

## Main definitions

* `getPrevTransactionBlock`, `createFoliage`, `createUnfinishedBlock`,
  `unfinishedBlockToFullBlock` — the functions.
* `CreationTools` — the functions of other packages they call.
* `checkRewards`, `checkCommunity` — the two checks made of a finished block.

## Main results

* `farmed_block_passes_iff` — when a farmed block claims what the validator expects.
* `farmed_block_fails_at_switch` — a block that is created before the community puzzle hash
  switches and infused after it.
-/

namespace Chives

open ExceptRun ParentTree

/-! ## The functions -/

/-- `get_prev_transaction_block`. -/
def getPrevTransactionBlock (curr : BlockRecord) (blocks : BlockRecords) (totalItersSp : ℕ) :
    Except PyError (Bool × BlockRecord) := do
  let last ← blocks.walkBack BlockRecord.isTransactionBlock curr
  if totalItersSp > last.totalIters then return (true, last) else return (false, curr)

/-- `SignagePoint`. -/
structure SignagePoint where
  ccVdf : Option VDFInfo
  ccProof : Option VDFProof
  rcVdf : Option VDFInfo
  rcProof : Option VDFProof

/-- What block creation takes from elsewhere: the cost of a generator, the BIP158 filter, the root
of a Merkle set, the extension data drawn for a seed, signatures and their verification. -/
structure CreationTools where
  npcCost : BlockGenerator → Except PyError ℕ
  bip158 : List Bytes → Bytes
  computeMerkleSetRoot : List Bytes32 → Bytes32
  extensionData : Bytes → Bytes32
  getPlotSignature : Bytes32 → G1Element → G2Element
  getPoolSignature : PoolTarget → Option G1Element → Option G2Element
  verify : G1Element → Bytes32 → G2Element → Bool

/-- `hash_coin_ids`. -/
def hashCoinIds (H : Hashes) : List Bytes32 → Bytes32
  | [coinId] => H.stdHash coinId.bytes
  | coinIds => H.stdHash
      ((coinIds.mergeSort fun a b => decide (b.bytes ≤ a.bytes)).flatMap Bytes32.bytes)

/-- Add a coin to the names listed under its puzzle hash, in the order of insertion. -/
def addToGroup (H : Hashes) (c : Coin) :
    List (Bytes32 × List Bytes32) → List (Bytes32 × List Bytes32)
  | [] => [(c.puzzleHash, [H.coinName c])]
  | (puzzle, names) :: groups =>
    if c.puzzleHash = puzzle then (puzzle, names ++ [H.coinName c]) :: groups
    else (puzzle, names) :: addToGroup H c groups

/-- The items of the addition Merkle set: each puzzle hash and the hash of its coins. -/
def additionsMerkleItems (H : Hashes) (additions : List Coin) : List Bytes32 :=
  (additions.foldl (fun groups c => addToGroup H c groups) []).flatMap
    fun g => [g.1, hashCoinIds H g.2]

/-- The bytes of the filter: the puzzle hashes of additions and the names of removals. -/
def filterItems (H : Hashes) (additions removals : List Coin) : List Bytes :=
  additions.map (fun c => c.puzzleHash.bytes) ++ removals.map fun c => (H.coinName c).bytes

/-- `generator_refs_hash`. -/
def generatorRefsHash (H : Hashes) (heights : List ℕ) : Bytes32 :=
  if heights = [] then ⟨List.replicate 32 1, rfl⟩
  else H.stdHash (heights.flatMap (BigEndian.toBytes 4))

/-- Cost and fees of the transactions in a block. -/
def costAndFees (tools : CreationTools) (generator : Option BlockGenerator)
    (additions removals : List Coin) : Except PyError (ℕ × ℤ) :=
  match generator with
  | none => .ok (0, 0)
  | some g => do
    let cost ← tools.npcCost g
    return (cost, (removals.map Coin.amount).sum - (additions.map Coin.amount).sum)

/-- `reward_claims_incorporated` of a block at the given height. Genesis claims nothing. -/
def claimsOnTop (constants : ConsensusConstants) (blocks : BlockRecords)
    (prev : Option (BlockRecord × BlockRecord)) (height : ℕ) : Except PyError (List Coin) :=
  match prev with
  | none => if height > 0 then .error .assertionError else .ok []
  | some (prevBlock, prevTransactionBlock) =>
    claimedRewards constants blocks prevBlock prevTransactionBlock height

/-- The transaction part of `create_foliage`, for a block at the given height. -/
def createTransactionBlock (H : Hashes) (tools : CreationTools) (constants : ConsensusConstants)
    (generator : Option BlockGenerator) (aggregateSig : G2Element) (additions removals : List Coin)
    (prev : Option (BlockRecord × BlockRecord)) (blocks : BlockRecords) (timestamp height : ℕ) :
    Except PyError (FoliageTransactionBlock × TransactionsInfo) := do
  let (cost, spendBundleFees) ← costAndFees tools generator additions removals
  let rewardClaimsIncorporated ← claimsOnTop constants blocks prev height
  let additions := additions ++ rewardClaimsIncorporated
  let encoded := tools.bip158 (filterItems H additions removals)
  let additionsRoot := tools.computeMerkleSetRoot (additionsMerkleItems H additions)
  let removalsRoot := tools.computeMerkleSetRoot (removals.map H.coinName)
  let generatorHash := match generator with
    | none => Bytes32.zero
    | some g => H.stdHash g.program
  let refs := match generator with
    | none => []
    | some g => g.blockHeightList
  let fees ← uint64 spendBundleFees
  let info : TransactionsInfo :=
    ⟨generatorHash, generatorRefsHash H refs, aggregateSig, fees, cost, rewardClaimsIncorporated⟩
  let prevTransactionBlockHash := match prev with
    | none => constants.GENESIS_CHALLENGE
    | some (_, prevTransactionBlock) => prevTransactionBlock.headerHash
  return (⟨prevTransactionBlockHash, timestamp, H.stdHash encoded, additionsRoot, removalsRoot,
    H.transactionsInfo info⟩, info)

/-- Whether a block on top of `prevBlock` is a transaction block, with the previous block and the
previous transaction block; genesis is one. -/
def transactionBlockOnTop (prevBlock : Option BlockRecord) (blocks : BlockRecords)
    (totalItersSp : ℕ) : Except PyError (Bool × Option (BlockRecord × BlockRecord)) :=
  match prevBlock with
  | none => .ok (true, none)
  | some prevBlock => do
    let (isTransactionBlock, prevTransactionBlock) ←
      getPrevTransactionBlock prevBlock blocks totalItersSp
    return (isTransactionBlock, some (prevBlock, prevTransactionBlock))

/-- The height on top of `prevBlock`. -/
def heightOnTop (prevBlock : Option BlockRecord) : Except PyError ℕ :=
  match prevBlock with
  | none => .ok 0
  | some prevBlock => uint32 (prevBlock.height + 1)

/-- `create_foliage`. -/
def createFoliage (H : Hashes) (tools : CreationTools) (constants : ConsensusConstants)
    (rewardBlockUnfinished : RewardChainBlockUnfinished) (generator : Option BlockGenerator)
    (aggregateSig : G2Element) (additions removals : List Coin) (prevBlock : Option BlockRecord)
    (blocks : BlockRecords) (totalItersSp timestamp : ℕ)
    (farmerRewardPuzzlehash communityRewardPuzzlehash : Bytes32) (poolTarget : PoolTarget)
    (seed : Bytes) :
    Except PyError (Foliage × Option (FoliageTransactionBlock × TransactionsInfo)) := do
  let (isTransactionBlock, prev) ← transactionBlockOnTop prevBlock blocks totalItersSp
  let height ← heightOnTop prevBlock
  let pos := rewardBlockUnfinished.proofOfSpace
  let foliageData : FoliageBlockData :=
    ⟨H.rewardChainBlockUnfinished rewardBlockUnfinished, poolTarget,
      tools.getPoolSignature poolTarget pos.poolPublicKey, farmerRewardPuzzlehash,
      communityRewardPuzzlehash, tools.extensionData seed⟩
  let signature := tools.getPlotSignature (H.foliageBlockData foliageData) pos.plotPublicKey
  let prevBlockHash := match prevBlock with
    | none => constants.GENESIS_CHALLENGE
    | some prevBlock => prevBlock.headerHash
  let tx ← if isTransactionBlock then
      (createTransactionBlock H tools constants generator aggregateSig additions removals prev
        blocks timestamp height).map some
    else .ok none
  let txHash := tx.map fun r => H.foliageTransactionBlock r.1
  let txSignature := txHash.map fun h => tools.getPlotSignature h pos.plotPublicKey
  return (⟨prevBlockHash, H.rewardChainBlockUnfinished rewardBlockUnfinished, foliageData,
    signature, txHash, txSignature⟩, tx)

/-- The reward chain hash at the signage point, when it has no VDF of its own. -/
def slotRewardChainHash (H : Hashes) (constants : ConsensusConstants)
    (finishedSubSlots : List EndOfSubSlotBundle) (prevBlock : Option BlockRecord)
    (blocks : BlockRecords) : Except PyError Bytes32 :=
  match finishedSubSlots.getLast? with
  | some slot => .ok (H.rewardChainSubSlot slot.rewardChain)
  | none =>
    match prevBlock with
    | none => .ok constants.GENESIS_CHALLENGE
    | some prevBlock => do
      let curr ← blocks.walkBack BlockRecord.firstInSubSlot prevBlock
      match curr.finishedRewardSlotHashes with
      | none => throw .assertionError
      | some hashes =>
        match hashes.getLast? with
        | none => throw .indexError
        | some h => return h

/-- The hashes signed at the signage point, and the signage point that goes into the block. -/
def signagePointHashes (H : Hashes) (constants : ConsensusConstants) (slotCcChallenge : Bytes32)
    (finishedSubSlots : List EndOfSubSlotBundle) (prevBlock : Option BlockRecord)
    (blocks : BlockRecords) (signagePoint : SignagePoint) :
    Except PyError (Bytes32 × Bytes32 × SignagePoint) :=
  match signagePoint.ccVdf with
  | some ccVdf =>
    match signagePoint.rcVdf with
    | none => .error .assertionError
    | some rcVdf => .ok (H.vdfOutput ccVdf.output, H.vdfOutput rcVdf.output, signagePoint)
  | none => do
    let rcSpHash ← slotRewardChainHash H constants finishedSubSlots prevBlock blocks
    return (slotCcChallenge, rcSpHash, ⟨none, none, none, none⟩)

/-- `create_unfinished_block`. -/
def createUnfinishedBlock (H : Hashes) (tools : CreationTools) (constants : ConsensusConstants)
    (subSlotStartTotalIters subSlotIters signagePointIndex spIters ipIters : ℕ)
    (proofOfSpace : ProofOfSpace) (slotCcChallenge : Bytes32)
    (farmerRewardPuzzleHash communityRewardPuzzleHash : Bytes32) (poolTarget : PoolTarget)
    (signagePoint : SignagePoint) (timestamp : ℕ) (blocks : BlockRecords) (seed : Bytes)
    (generator : Option BlockGenerator) (aggregateSig : G2Element)
    (additions removals : List Coin) (prevBlock : Option BlockRecord)
    (finishedSubSlots : List EndOfSubSlotBundle) : Except PyError UnfinishedBlock := do
  let overflow := decide (spIters > ipIters)
  let totalItersSp ← uint128 (subSlotStartTotalIters + spIters)
  let (ccSpHash, rcSpHash, signagePoint) ←
    signagePointHashes H constants slotCcChallenge finishedSubSlots prevBlock blocks signagePoint
  let ccSpSignature := tools.getPlotSignature ccSpHash proofOfSpace.plotPublicKey
  let rcSpSignature := tools.getPlotSignature rcSpHash proofOfSpace.plotPublicKey
  if ¬tools.verify proofOfSpace.plotPublicKey ccSpHash ccSpSignature then throw .assertionError
  else
    let totalIters ←
      uint128 (subSlotStartTotalIters + ipIters + (if overflow then subSlotIters else 0))
    let rcBlock : RewardChainBlockUnfinished :=
      ⟨totalIters, signagePointIndex, slotCcChallenge, proofOfSpace, signagePoint.ccVdf,
        ccSpSignature, signagePoint.rcVdf, rcSpSignature⟩
    let (foliage, tx) ← createFoliage H tools constants rcBlock generator aggregateSig additions
      removals prevBlock blocks totalItersSp timestamp farmerRewardPuzzleHash
      communityRewardPuzzleHash poolTarget seed
    return ⟨finishedSubSlots, rcBlock, signagePoint.ccProof, signagePoint.rcProof, foliage,
      tx.map Prod.fst, tx.map Prod.snd, generator.map BlockGenerator.program,
      (generator.map BlockGenerator.blockHeightList).getD []⟩

/-- The parts of the body that `unfinished_block_to_full_block` keeps of a transaction block. -/
structure FinishedBody where
  foliage : Foliage
  foliageTransactionBlock : Option FoliageTransactionBlock
  transactionsInfo : Option TransactionsInfo
  transactionsGenerator : Option SerializedProgram
  transactionsGeneratorRefList : List ℕ

/-- The body on top of a block: that of the unfinished block if it is still a transaction block,
and an empty one otherwise. -/
def finishBody (u : UnfinishedBlock) (prevBlock : BlockRecord) (isTransactionBlock : Bool) :
    Except PyError FinishedBody :=
  let fbh := if isTransactionBlock then u.foliage.foliageTransactionBlockHash else none
  let fbs := if isTransactionBlock then u.foliage.foliageTransactionBlockSignature else none
  if fbh.isNone ≠ fbs.isNone then .error .assertionError
  else
    let foliage := { u.foliage with
      prevBlockHash := prevBlock.headerHash
      foliageTransactionBlockHash := fbh
      foliageTransactionBlockSignature := fbs }
    if isTransactionBlock then
      .ok ⟨foliage, u.foliageTransactionBlock, u.transactionsInfo, u.transactionsGenerator,
        u.transactionsGeneratorRefList⟩
    else .ok ⟨foliage, none, none, none, []⟩

/-- Whether the finished block is a transaction block, its weight, its height and its body. -/
def finishOnTop (u : UnfinishedBlock) (prevBlock : Option BlockRecord) (blocks : BlockRecords)
    (totalItersSp difficulty : ℕ) : Except PyError (Bool × ℕ × ℕ × FinishedBody) :=
  match prevBlock with
  | none => do
    let newWeight ← uint128 difficulty
    return (true, newWeight, 0, ⟨u.foliage, u.foliageTransactionBlock, u.transactionsInfo,
      u.transactionsGenerator, u.transactionsGeneratorRefList⟩)
  | some prevBlock => do
    let (isTransactionBlock, _) ← getPrevTransactionBlock prevBlock blocks totalItersSp
    let newWeight ← uint128 (prevBlock.weight + difficulty)
    let newHeight ← uint32 (prevBlock.height + 1)
    let body ← finishBody u prevBlock isTransactionBlock
    return (isTransactionBlock, newWeight, newHeight, body)

/-- `unfinished_block_to_full_block`. -/
def unfinishedBlockToFullBlock (H : Hashes) (u : UnfinishedBlock) (ccIpVdf : VDFInfo)
    (ccIpProof : VDFProof) (rcIpVdf : VDFInfo) (rcIpProof : VDFProof) (iccIpVdf : Option VDFInfo)
    (iccIpProof : Option VDFProof) (finishedSubSlots : List EndOfSubSlotBundle)
    (prevBlock : Option BlockRecord) (blocks : BlockRecords) (totalItersSp difficulty : ℕ) :
    Except PyError FullBlock := do
  let (isTransactionBlock, newWeight, newHeight, body) ←
    finishOnTop u prevBlock blocks totalItersSp difficulty
  let rc := u.rewardChainBlock
  let rewardChainBlock : RewardChainBlock :=
    ⟨newWeight, newHeight, rc.totalIters, rc.signagePointIndex, rc.posSsCcChallengeHash,
      rc.proofOfSpace, rc.challengeChainSpVdf, rc.challengeChainSpSignature, ccIpVdf,
      rc.rewardChainSpVdf, rc.rewardChainSpSignature, rcIpVdf, iccIpVdf, isTransactionBlock⟩
  return ⟨finishedSubSlots, rewardChainBlock, u.challengeChainSpProof, ccIpProof,
    u.rewardChainSpProof, rcIpProof, iccIpProof,
    { body.foliage with rewardBlockHash := H.rewardChainBlock rewardChainBlock },
    body.foliageTransactionBlock, body.transactionsInfo, body.transactionsGenerator,
    body.transactionsGeneratorRefList⟩

/-! ## The checks of a finished block -/

/-- The reward check of `validate_block_body`, step 5, on a finished transaction block at its final
height. -/
def checkRewards (constants : ConsensusConstants) (blocks : BlockRecords) (block : FullBlock) :
    Except PyError (Option Err) :=
  match block.foliageTransactionBlock, block.transactionsInfo with
  | some foliageTransactionBlock, some info => do
    let expected ← expectedRewardCoins constants blocks
      foliageTransactionBlock.prevTransactionBlockHash block.height
    return checkRewardClaims info.rewardClaimsIncorporated expected
  | _, _ => return some .isTransactionBlockButNoData

/-- The community check of `validate_finished_header_block`, for a block above genesis. -/
def checkCommunity (constants : ConsensusConstants) (height : ℕ) (data : FoliageBlockData) :
    Option Err :=
  if data.communityRewardPuzzleHash ≠ communityPuzzleHash constants height then
    some .invalidCommunity
  else none

/-! ## What creation puts into a block -/

section Creation

variable {H : Hashes} {tools : CreationTools} {constants : ConsensusConstants} {blocks : BlockRecords}
  {p t : BlockRecord} {totalItersSp : ℕ} {height : ℕ}

lemma uint32_succ {n : ℕ} (h : uint32 (n + 1) = .ok height) : height = n + 1 := by
  rw [uint32, uintN_eq_ok] at h
  omega

variable {generator : Option BlockGenerator} {aggregateSig : G2Element} {additions removals : List Coin}
  {timestamp : ℕ}

lemma createTransactionBlock_spec {ftb : FoliageTransactionBlock} {info : TransactionsInfo}
    (h : createTransactionBlock H tools constants generator aggregateSig additions removals (some (p, t)) blocks timestamp height = .ok (ftb, info)) :
    claimedRewards constants blocks p t height = .ok info.rewardClaimsIncorporated ∧
      ftb.prevTransactionBlockHash = t.headerHash := by
  simp only [createTransactionBlock, claimsOnTop] at h
  obtain ⟨⟨cost, fees⟩, -, h⟩ := bind_eq_ok.mp h
  obtain ⟨claims, hclaims, h⟩ := bind_eq_ok.mp h
  obtain ⟨fees', -, h⟩ := bind_eq_ok.mp h
  obtain ⟨rfl, rfl⟩ := Prod.mk.inj (Except.ok.inj h)
  exact ⟨hclaims, rfl⟩

variable {farmer community : Bytes32} {poolTarget : PoolTarget} {seed : Bytes}

lemma createFoliage_spec {rc : RewardChainBlockUnfinished} {foliage : Foliage}
    {tx : Option (FoliageTransactionBlock × TransactionsInfo)}
    (h : createFoliage H tools constants rc generator aggregateSig additions removals (some p) blocks totalItersSp timestamp farmer community poolTarget seed = .ok (foliage, tx))
    (ht : getPrevTransactionBlock p blocks totalItersSp = .ok (true, t)) :
    foliage.foliageBlockData.communityRewardPuzzleHash = community ∧
      ∃ ftb info, tx = some (ftb, info) ∧
        claimedRewards constants blocks p t (p.height + 1) = .ok info.rewardClaimsIncorporated ∧
        ftb.prevTransactionBlockHash = t.headerHash := by
  simp only [createFoliage, transactionBlockOnTop, ht, ok_bind, pure_eq, if_true] at h
  obtain ⟨height, hheight, h⟩ := bind_eq_ok.mp h
  obtain ⟨tx', htx, h⟩ := bind_eq_ok.mp h
  obtain ⟨⟨ftb, info⟩, hrun, rfl⟩ := map_eq_ok.mp htx
  obtain ⟨rfl, rfl⟩ := Prod.mk.inj (Except.ok.inj h)
  simp only [heightOnTop] at hheight
  obtain rfl := uint32_succ hheight
  obtain ⟨hclaims, hprev⟩ := createTransactionBlock_spec hrun
  exact ⟨rfl, ftb, info, rfl, hclaims, hprev⟩

variable {subSlotStartTotalIters subSlotIters signagePointIndex spIters ipIters : ℕ} {pos : ProofOfSpace}
  {slotCcChallenge : Bytes32} {signagePoint : SignagePoint} {finishedSubSlots : List EndOfSubSlotBundle}
  {u : UnfinishedBlock}

lemma createUnfinishedBlock_run {prevBlock : Option BlockRecord}
    (h : createUnfinishedBlock H tools constants subSlotStartTotalIters subSlotIters signagePointIndex spIters ipIters pos slotCcChallenge farmer community poolTarget signagePoint timestamp blocks seed generator aggregateSig additions removals prevBlock finishedSubSlots = .ok u) :
    ∃ (sp : SignagePoint) (rc : RewardChainBlockUnfinished) (foliage : Foliage)
        (tx : Option (FoliageTransactionBlock × TransactionsInfo)),
      createFoliage H tools constants rc generator aggregateSig additions removals prevBlock blocks
        (subSlotStartTotalIters + spIters) timestamp farmer community poolTarget seed =
          .ok (foliage, tx) ∧
      u = ⟨finishedSubSlots, rc, sp.ccProof, sp.rcProof, foliage, tx.map Prod.fst,
        tx.map Prod.snd, generator.map BlockGenerator.program,
        (generator.map BlockGenerator.blockHeightList).getD []⟩ := by
  simp only [createUnfinishedBlock] at h
  obtain ⟨total, htotal, h⟩ := bind_eq_ok.mp h
  obtain ⟨⟨cc, rc, sp⟩, -, h⟩ := bind_eq_ok.mp h
  obtain ⟨-, h⟩ := guard_eq_ok.mp h
  obtain ⟨totalIters, -, h⟩ := bind_eq_ok.mp h
  obtain ⟨⟨foliage, tx⟩, hfoliage, h⟩ := bind_eq_ok.mp h
  have hsum : total = subSlotStartTotalIters + spIters := by
    rw [uint128, uintN_eq_ok] at htotal
    omega
  rw [hsum] at hfoliage
  exact ⟨sp, _, foliage, tx, hfoliage, (Except.ok.inj h).symm⟩

lemma createUnfinishedBlock_spec
    (h : createUnfinishedBlock H tools constants subSlotStartTotalIters subSlotIters signagePointIndex spIters ipIters pos slotCcChallenge farmer community poolTarget signagePoint timestamp blocks seed generator aggregateSig additions removals (some p) finishedSubSlots = .ok u)
    (ht : getPrevTransactionBlock p blocks (subSlotStartTotalIters + spIters) = .ok (true, t)) :
    u.foliage.foliageBlockData.communityRewardPuzzleHash = community ∧
      ∃ ftb info, u.foliageTransactionBlock = some ftb ∧ u.transactionsInfo = some info ∧
        claimedRewards constants blocks p t (p.height + 1) = .ok info.rewardClaimsIncorporated ∧
        ftb.prevTransactionBlockHash = t.headerHash := by
  obtain ⟨sp, rc, foliage, tx, hfoliage, rfl⟩ := createUnfinishedBlock_run h
  obtain ⟨hcommunity, ftb, info, rfl, hclaims, hprev⟩ := createFoliage_spec hfoliage ht
  exact ⟨hcommunity, ftb, info, rfl, rfl, hclaims, hprev⟩

lemma createUnfinishedBlock_none
    (h : createUnfinishedBlock H tools constants subSlotStartTotalIters subSlotIters signagePointIndex spIters ipIters pos slotCcChallenge farmer community poolTarget signagePoint timestamp blocks seed generator aggregateSig additions removals (some p) finishedSubSlots = .ok u)
    (ht : getPrevTransactionBlock p blocks (subSlotStartTotalIters + spIters) = .ok (false, t)) :
    u.foliageTransactionBlock = none := by
  obtain ⟨sp, rc, foliage, tx, hfoliage, rfl⟩ := createUnfinishedBlock_run h
  simp only [createFoliage, transactionBlockOnTop, ht, ok_bind, pure_eq] at hfoliage
  obtain ⟨height, -, hfoliage⟩ := bind_eq_ok.mp hfoliage
  obtain ⟨-, rfl⟩ := Prod.mk.inj (Except.ok.inj hfoliage)
  rfl

lemma unfinishedBlockToFullBlock_spec {ccIpVdf rcIpVdf : VDFInfo} {ccIpProof rcIpProof : VDFProof}
    {iccIpVdf : Option VDFInfo} {iccIpProof : Option VDFProof} {difficulty : ℕ} {b : FullBlock}
    (h : unfinishedBlockToFullBlock H u ccIpVdf ccIpProof rcIpVdf rcIpProof iccIpVdf iccIpProof finishedSubSlots (some p) blocks totalItersSp difficulty = .ok b)
    (ht : getPrevTransactionBlock p blocks totalItersSp = .ok (true, t)) :
    b.height = p.height + 1 ∧ b.foliageTransactionBlock = u.foliageTransactionBlock ∧
      b.transactionsInfo = u.transactionsInfo ∧
      b.foliage.foliageBlockData = u.foliage.foliageBlockData := by
  simp only [unfinishedBlockToFullBlock, finishOnTop, ht, ok_bind] at h
  obtain ⟨⟨isTx, weight, height, body⟩, hbody, h⟩ := bind_eq_ok.mp h
  obtain ⟨weight', -, hbody⟩ := bind_eq_ok.mp hbody
  obtain ⟨height', hheight, hbody⟩ := bind_eq_ok.mp hbody
  obtain ⟨body', hfinish, hbody⟩ := bind_eq_ok.mp hbody
  obtain ⟨rfl, rfl, rfl, rfl⟩ : _ ∧ _ ∧ _ ∧ _ := by
    simpa only [Prod.mk.injEq] using Except.ok.inj hbody
  obtain rfl := Except.ok.inj h
  simp only [finishBody, if_true] at hfinish
  obtain ⟨-, hfinish⟩ := guard_eq_ok.mp hfinish
  obtain rfl := Except.ok.inj hfinish
  exact ⟨uint32_succ hheight, rfl, rfl, rfl⟩

end Creation

/-! ## What the validator expects -/

section Validation

variable {constants : ConsensusConstants} {blocks : BlockRecords} {tip t : BlockRecord}
  {chain mid : List BlockRecord}

lemma getPrevTransactionBlock_eq (hc : RecordChain blocks tip chain)
    (hpaid : paidBlocks chain = t :: mid) (totalItersSp : ℕ) :
    getPrevTransactionBlock tip blocks totalItersSp =
      .ok (if totalItersSp > t.totalIters then (true, t) else (false, tip)) := by
  obtain ⟨t', mid', a, b, hpaid', heq, htx, hb, -⟩ := hc.paidBlocks_eq
  obtain ⟨rfl, rfl⟩ := List.cons.inj (hpaid.symm.trans hpaid')
  rw [getPrevTransactionBlock, BlockRecords.walkBack_eq_ok hc.path heq htx hb, ok_bind]
  split <;> rfl

/-- Claims made for one community puzzle hash pass against coins expected for another exactly when
the two agree and no coin is claimed twice.

**Proof sketch.** The community coin of the paid transaction block is expected, so it is the
community coin built with the other hash: it is not the pool coin or the farmer coin, since the
claims list it once, and coins of other blocks have other heights. -/
lemma checkRewardClaims_coinsOfPaid (hc : RecordChain blocks tip chain)
    (hpaid : paidBlocks chain = t :: mid) (community community' : Bytes32) :
    checkRewardClaims (coinsOfPaid constants community (paidBlocks chain))
      (coinsOfPaid constants community' (paidBlocks chain)) = none ↔
    community = community' ∧ ¬Collides constants community t := by
  rw [checkRewardClaims_eq_none, ← hc.nodup_coinsOfPaid_iff hpaid]
  constructor
  · intro hperm
    have hnodup := hperm.symm.nodup (List.nodup_dedup _)
    refine ⟨?_, hnodup⟩
    have hheights := hc.nodup_height_paidBlocks
    have hlt : ∀ r ∈ paidBlocks chain, r.height < 2 ^ 32 :=
      fun r hr => hc.height_lt r (hc.mem_of_mem_paidBlocks hr)
    rw [hpaid] at hperm hnodup hheights hlt
    obtain ⟨amount, hamount⟩ : ∃ amount,
      calculateBaseFarmerReward t.height + t.fees.getD 0 = amount := ⟨_, rfl⟩
    simp only [coinsOfPaid, hamount] at hperm hnodup
    have hfirst := (List.nodup_append.mp hnodup).1
    obtain ⟨c, hc₁⟩ : ∃ c, c = createCommunityCoin t.height community
      (calculateBaseCommunityReward t.height) constants.GENESIS_CHALLENGE := ⟨_, rfl⟩
    have hmem : c ∈ coinsOfBlock constants community t amount := by
      rw [hc₁]
      simp [coinsOfBlock]
    have hexp := List.mem_dedup.mp (hperm.mem_iff.mp (List.mem_append_left _ hmem))
    simp only [coinsOfBlock, List.nodup_cons, List.mem_cons, List.not_mem_nil, or_false,
      ← hc₁] at hfirst
    rcases List.mem_append.mp hexp with hexp | hexp
    · simp only [coinsOfBlock, List.mem_cons, List.not_mem_nil, or_false] at hexp
      rcases hexp with h | h | h
      · exact absurd (.inr h.symm) hfirst.1
      · exact absurd h.symm hfirst.2.1
      · rw [hc₁] at h
        exact congrArg Coin.puzzleHash h
    · obtain ⟨y, hy, hcy⟩ := List.mem_flatMap.mp hexp
      rw [List.map_cons, List.nodup_cons] at hheights
      refine absurd hcy fun hcy => disjoint_coinsOfBlock (hlt t List.mem_cons_self)
        (hlt y (List.mem_cons_of_mem _ hy)) (fun hheight => hheights.1 ?_) hmem hcy
      rw [hheight]
      exact List.mem_map_of_mem hy
  · rintro ⟨rfl, hnodup⟩
    rw [hnodup.dedup]

end Validation

/-! ## Farmed blocks -/

section Farmed

variable {H : Hashes} {tools : CreationTools} {constants : ConsensusConstants}
  {blocksSp blocksIp : BlockRecords} {pSp pIp : BlockRecord} {chain : List BlockRecord} {k : ℕ}
  {subSlotStartTotalIters subSlotIters signagePointIndex spIters ipIters : ℕ} {pos : ProofOfSpace}
  {slotCcChallenge farmer : Bytes32} {poolTarget : PoolTarget} {signagePoint : SignagePoint}
  {timestamp : ℕ} {seed : Bytes} {generator : Option BlockGenerator} {aggregateSig : G2Element}
  {additions removals : List Coin} {finishedSubSlots finishedSubSlots' : List EndOfSubSlotBundle}
  {u : UnfinishedBlock} {ccIpVdf rcIpVdf : VDFInfo} {ccIpProof rcIpProof : VDFProof}
  {iccIpVdf : Option VDFInfo} {iccIpProof : Option VDFProof} {difficulty : ℕ} {b : FullBlock}
  {t tIp : BlockRecord}

/-- A block that was created as a transaction block passes exactly when the community puzzle hash
in force is the same at both heights and the paid transaction block does not collide. -/
lemma farmed_block_checks (hcIp : RecordChain blocksIp pIp chain) (hpSp : chain[k]? = some pSp)
    (hcSp : RecordChain blocksSp pSp (chain.take (k + 1)))
    (hcreate : createUnfinishedBlock H tools constants subSlotStartTotalIters subSlotIters
      signagePointIndex spIters ipIters pos slotCcChallenge farmer
      (communityPuzzleHash constants (pSp.height + 1)) poolTarget signagePoint timestamp blocksSp
      seed generator aggregateSig additions removals (some pSp) finishedSubSlots = .ok u)
    (hfinish : unfinishedBlockToFullBlock H u ccIpVdf ccIpProof rcIpVdf rcIpProof iccIpVdf
      iccIpProof finishedSubSlots' (some pIp) blocksIp (subSlotStartTotalIters + spIters)
      difficulty = .ok b)
    (htx : getPrevTransactionBlock pIp blocksIp (subSlotStartTotalIters + spIters) =
      .ok (true, tIp))
    (ht : getPrevTransactionBlock pSp blocksSp (subSlotStartTotalIters + spIters) =
      .ok (true, t)) :
    (checkRewards constants blocksIp b = .ok none ∧
      checkCommunity constants b.height b.foliage.foliageBlockData = none) ↔
    communityPuzzleHash constants (pSp.height + 1) =
        communityPuzzleHash constants (pIp.height + 1) ∧
      ¬Collides constants (communityPuzzleHash constants (pSp.height + 1)) t := by
  have hc := hcIp.take hpSp
  obtain ⟨t', mid, -, -, hpaid, -⟩ := hc.paidBlocks_eq
  obtain rfl : t' = t := by
    have heq := Except.ok.inj ((getPrevTransactionBlock_eq hcSp hpaid _).symm.trans ht)
    split at heq
    · exact congrArg Prod.snd heq
    · cases heq
  obtain ⟨hcomm, ftb, info, hftb, hinfo, hclaims, hprev⟩ := createUnfinishedBlock_spec hcreate ht
  obtain ⟨hheight, hftb', hinfo', hdata⟩ := unfinishedBlockToFullBlock_spec hfinish htx
  obtain ⟨hfits, -, hcoins⟩ := (claimedRewards_eq_ok hcSp (Nat.succ_pos _) hpaid).mp hclaims
  have hexpected : expectedRewardCoins constants blocksIp t'.headerHash (pIp.height + 1) =
      .ok (coinsOfPaid constants (communityPuzzleHash constants (pIp.height + 1))
        (paidBlocks (chain.take (k + 1)))) :=
    (expectedRewardCoins_eq_ok hc (Nat.succ_pos pIp.height) hpaid).mpr ⟨hfits, rfl⟩
  -- from here on the two puzzle hashes are opaque
  generalize communityPuzzleHash constants (pSp.height + 1) = community at *
  have hreward : checkRewards constants blocksIp b = .ok none ↔
      community = communityPuzzleHash constants (pIp.height + 1) ∧
        ¬Collides constants community t' := by
    rw [checkRewards, hftb', hinfo', hftb, hinfo]
    simp only [hprev, hheight, hexpected, ok_bind, pure_eq, Except.ok.injEq]
    rw [hcoins, checkRewardClaims_coinsOfPaid hc hpaid]
  have hcommunity : checkCommunity constants b.height b.foliage.foliageBlockData = none ↔
      community = communityPuzzleHash constants (pIp.height + 1) := by
    rw [checkCommunity, hdata, hcomm, hheight]
    generalize communityPuzzleHash constants (pIp.height + 1) = community'
    simp
  rw [hreward, hcommunity]
  constructor
  · rintro ⟨h, -⟩
    exact h
  · intro h
    exact ⟨h, h.1⟩

lemma farmed_block_without_body
    (hcreate : createUnfinishedBlock H tools constants subSlotStartTotalIters subSlotIters
      signagePointIndex spIters ipIters pos slotCcChallenge farmer
      (communityPuzzleHash constants (pSp.height + 1)) poolTarget signagePoint timestamp blocksSp
      seed generator aggregateSig additions removals (some pSp) finishedSubSlots = .ok u)
    (hfinish : unfinishedBlockToFullBlock H u ccIpVdf ccIpProof rcIpVdf rcIpProof iccIpVdf
      iccIpProof finishedSubSlots' (some pIp) blocksIp (subSlotStartTotalIters + spIters)
      difficulty = .ok b)
    (htx : getPrevTransactionBlock pIp blocksIp (subSlotStartTotalIters + spIters) =
      .ok (true, tIp))
    (ht : getPrevTransactionBlock pSp blocksSp (subSlotStartTotalIters + spIters) =
      .ok (false, t)) : checkRewards constants blocksIp b ≠ .ok none := by
  obtain ⟨-, hftb, -⟩ := unfinishedBlockToFullBlock_spec hfinish htx
  have hnone := createUnfinishedBlock_none hcreate ht
  rw [checkRewards, hftb, hnone]
  intro h
  cases h

/-- **When a farmed block passes.** A block is created on `pSp` with the community puzzle hash in
force on top of it, and finished on `pIp`, which is `pSp` or a descendant, as a transaction block;
`t` is the last transaction block at or before `pSp`. Its reward claims and its community puzzle
hash pass the checks of the validator at its final height if and only if it was already created as a
transaction block, the community puzzle hash in force is the same at both heights, and no two of the
coins paid for `t` are the same. -/
theorem farmed_block_passes_iff (hcIp : RecordChain blocksIp pIp chain)
    (hpSp : chain[k]? = some pSp) (hcSp : RecordChain blocksSp pSp (chain.take (k + 1)))
    (hcreate : createUnfinishedBlock H tools constants subSlotStartTotalIters subSlotIters
      signagePointIndex spIters ipIters pos slotCcChallenge farmer
      (communityPuzzleHash constants (pSp.height + 1)) poolTarget signagePoint timestamp blocksSp
      seed generator aggregateSig additions removals (some pSp) finishedSubSlots = .ok u)
    (hfinish : unfinishedBlockToFullBlock H u ccIpVdf ccIpProof rcIpVdf rcIpProof iccIpVdf
      iccIpProof finishedSubSlots' (some pIp) blocksIp (subSlotStartTotalIters + spIters)
      difficulty = .ok b)
    (htx : getPrevTransactionBlock pIp blocksIp (subSlotStartTotalIters + spIters) =
      .ok (true, tIp))
    (ht : blocksSp.walkBack BlockRecord.isTransactionBlock pSp = .ok t) :
    (checkRewards constants blocksIp b = .ok none ∧
      checkCommunity constants b.height b.foliage.foliageBlockData = none) ↔
    t.totalIters < subSlotStartTotalIters + spIters ∧
      communityPuzzleHash constants (pSp.height + 1) =
        communityPuzzleHash constants (pIp.height + 1) ∧
      ¬Collides constants (communityPuzzleHash constants (pSp.height + 1)) t := by
  by_cases hsp : t.totalIters < subSlotStartTotalIters + spIters
  · have ht' : getPrevTransactionBlock pSp blocksSp (subSlotStartTotalIters + spIters) =
        .ok (true, t) := by
      rw [getPrevTransactionBlock, ht, ok_bind, if_pos hsp]
      rfl
    rw [farmed_block_checks hcIp hpSp hcSp hcreate hfinish htx ht']
    exact (and_iff_right hsp).symm
  · have ht' : getPrevTransactionBlock pSp blocksSp (subSlotStartTotalIters + spIters) =
        .ok (false, pSp) := by
      rw [getPrevTransactionBlock, ht, ok_bind, if_neg hsp]
      rfl
    exact iff_of_false (fun h => farmed_block_without_body hcreate hfinish htx ht' h.1)
      fun h => hsp h.1

end Farmed

/-! ## A sample farmer -/

/-- A hash function for the samples: every object has the same hash. -/
def sampleHashes : Hashes :=
  ⟨fun _ => Bytes32.zero, fun _ => Bytes32.zero, fun _ => Bytes32.zero, fun _ => Bytes32.zero,
    fun _ => Bytes32.zero, fun _ => Bytes32.zero, fun _ => Bytes32.zero, fun _ => Bytes32.zero,
    fun _ => Bytes32.zero, fun _ => Bytes32.zero, fun _ => Bytes32.zero, fun _ => Bytes32.zero,
    fun _ => Bytes32.zero, fun _ => Bytes32.zero⟩

/-- The tools of a farmer whose signatures are valid. -/
def sampleTools : CreationTools where
  npcCost _ := .ok 0
  bip158 _ := []
  computeMerkleSetRoot _ := Bytes32.zero
  extensionData _ := Bytes32.zero
  getPlotSignature _ _ := []
  getPoolSignature _ _ := none
  verify _ _ _ := true

/-- A proof of space of the samples. -/
def samplePos : ProofOfSpace := ⟨Bytes32.zero, none, some Bytes32.zero, [], 32, []⟩

/-- A VDF of the samples. -/
def sampleVdf : VDFInfo := ⟨Bytes32.zero, 1, defaultElement⟩

/-- A VDF proof of the samples. -/
def sampleProof : VDFProof := ⟨0, [], false⟩

/-- The unfinished block that the sample farmer makes without transactions on top of `p`, at the
signage point one iteration after `start`. -/
def sampleCreate (constants : ConsensusConstants) (blocks : BlockRecords) (p : BlockRecord)
    (start : ℕ) : Except PyError UnfinishedBlock :=
  createUnfinishedBlock sampleHashes sampleTools constants start 1 1 1 1 samplePos Bytes32.zero
    Bytes32.zero (communityPuzzleHash constants (p.height + 1)) ⟨Bytes32.zero, 0⟩
    ⟨some sampleVdf, some sampleProof, some sampleVdf, some sampleProof⟩ 1 blocks [] none [] [] []
    (some p) []

/-- The full block that is made of it on top of `p`. -/
def sampleFinish (u : UnfinishedBlock) (blocks : BlockRecords) (p : BlockRecord) (start : ℕ) :
    Except PyError FullBlock :=
  unfinishedBlockToFullBlock sampleHashes u sampleVdf sampleProof sampleVdf sampleProof none none
    [] (some p) blocks (start + 1) 7

section Sample

variable {constants : ConsensusConstants} {blocks blocksIp : BlockRecords}
  {p pIp t tIp : BlockRecord} {chain mid : List BlockRecord} {start : ℕ}

lemma exists_createFoliage {H : Hashes} {tools : CreationTools} {rc : RewardChainBlockUnfinished}
    {totalItersSp timestamp : ℕ} {farmer community : Bytes32} {poolTarget : PoolTarget}
    {seed : Bytes} {coins : List Coin} (hheight : p.height + 1 < 2 ^ 32)
    (ht : getPrevTransactionBlock p blocks totalItersSp = .ok (true, t))
    (hcoins : claimedRewards constants blocks p t (p.height + 1) = .ok coins) :
    ∃ foliage tx, createFoliage H tools constants rc none [] [] [] (some p) blocks totalItersSp
        timestamp farmer community poolTarget seed = .ok (foliage, tx) ∧
      foliage.foliageTransactionBlockHash.isNone =
        foliage.foliageTransactionBlockSignature.isNone := by
  have hzero : uint64 0 = .ok 0 := uintN_eq_ok.mpr ⟨rfl, by norm_num⟩
  have hsucc : uint32 ((p.height : ℤ) + 1) = .ok (p.height + 1) :=
    uintN_eq_ok.mpr ⟨by push_cast; ring, hheight⟩
  have htx : ∃ r, createTransactionBlock H tools constants none [] [] [] (some (p, t)) blocks
      timestamp (p.height + 1) = .ok r := by
    simp only [createTransactionBlock, costAndFees, claimsOnTop, hcoins, hzero, ok_bind, pure_eq]
    exact ⟨_, rfl⟩
  obtain ⟨r, hr⟩ := htx
  simp only [createFoliage, transactionBlockOnTop, heightOnTop, ht, hsucc, hr, ok_bind, pure_eq,
    if_true, Except.map]
  exact ⟨_, _, rfl, rfl⟩

lemma exists_sampleCreate (constants : ConsensusConstants) (start : ℕ)
    (hc : RecordChain blocks p chain) (hpaid : paidBlocks chain = t :: mid)
    (hsp : t.totalIters < start + 1)
    (hfits : calculateBaseFarmerReward t.height + t.fees.getD 0 < 2 ^ 64)
    (hstart : start + 1 < 2 ^ 128) (hheight : p.height + 1 < 2 ^ 32) :
    ∃ u, sampleCreate constants blocks p start = .ok u ∧
      u.foliage.foliageTransactionBlockHash.isNone =
        u.foliage.foliageTransactionBlockSignature.isNone := by
  have ht : getPrevTransactionBlock p blocks (start + 1) = .ok (true, t) := by
    rw [getPrevTransactionBlock_eq hc hpaid, if_pos hsp]
  have hiters : uint128 ((start : ℤ) + (1 : ℕ)) = .ok (start + 1) :=
    uintN_eq_ok.mpr ⟨by push_cast; ring, hstart⟩
  have hiters' : uint128 ((start : ℤ) + (1 : ℕ) +
      ((if decide (1 > 1) = true then 1 else 0 : ℕ) : ℤ)) = .ok (start + 1) := by
    rw [if_neg (by decide), Nat.cast_zero, add_zero, hiters]
  obtain ⟨coins, hcoins⟩ : ∃ coins, claimedRewards constants blocks p t (p.height + 1) = .ok coins :=
    ⟨_, (claimedRewards_eq_ok hc (Nat.succ_pos _) hpaid).mpr ⟨hfits, rfl, rfl⟩⟩
  rw [sampleCreate, createUnfinishedBlock]
  rw [hiters, ok_bind, signagePointHashes, ok_bind]
  dsimp only
  rw [if_neg (by simp [sampleTools]), hiters', ok_bind]
  obtain ⟨foliage, tx, hfoliage, hsame⟩ := exists_createFoliage (H := sampleHashes)
    hheight ht hcoins
  rw [hfoliage, ok_bind]
  exact ⟨_, rfl, hsame⟩

lemma exists_sampleFinish {u : UnfinishedBlock}
    (hsame : u.foliage.foliageTransactionBlockHash.isNone =
      u.foliage.foliageTransactionBlockSignature.isNone)
    (htx : getPrevTransactionBlock p blocks (start + 1) = .ok (true, t))
    (hheight : p.height + 1 < 2 ^ 32) (hweight : p.weight + 7 < 2 ^ 128) :
    ∃ b, sampleFinish u blocks p start = .ok b := by
  have hsucc : uint32 ((p.height : ℤ) + 1) = .ok (p.height + 1) :=
    uintN_eq_ok.mpr ⟨by push_cast; ring, hheight⟩
  have hweight' : uint128 ((p.weight : ℤ) + (7 : ℕ)) = .ok (p.weight + 7) :=
    uintN_eq_ok.mpr ⟨by push_cast; ring, hweight⟩
  have hbody : ∃ body, finishBody u p true = .ok body := by
    rw [finishBody]
    rw [if_pos rfl, if_pos rfl, if_neg (not_not.mpr hsame), if_pos rfl]
    exact ⟨_, rfl⟩
  obtain ⟨body, hbody⟩ := hbody
  rw [sampleFinish, unfinishedBlockToFullBlock, finishOnTop]
  dsimp only
  rw [htx, ok_bind, hweight', ok_bind, hsucc, ok_bind, hbody, ok_bind, pure_eq, ok_bind]
  exact ⟨_, rfl⟩

end Sample

/-- Two transaction blocks without fees. -/
def twoBlocks : List BlockRecord := (List.range 2).map (txRecord (fun _ => 0) fun _ => Bytes32.zero)

/-- The last of them. -/
def twoBlocksTip : BlockRecord := txRecord (fun _ => 0) (fun _ => Bytes32.zero) 1

/-- A block farmed on top of two transaction blocks passes. -/
theorem farmed_block_passes_sample : ∃ u b,
    sampleCreate defaultConstants (.ofRecords twoBlocks) twoBlocksTip 2 = .ok u ∧
    sampleFinish u (.ofRecords twoBlocks) twoBlocksTip 2 = .ok b ∧
    checkRewards defaultConstants (.ofRecords twoBlocks) b = .ok none ∧
    checkCommunity defaultConstants b.height b.foliage.foliageBlockData = none := by
  have hc : RecordChain (.ofRecords twoBlocks) twoBlocksTip twoBlocks :=
    recordChain_txRecord (fun _ => 0) (fun _ => by norm_num) (fun _ => Bytes32.zero)
      (n := 1) (by norm_num)
  have hheight : twoBlocksTip.height = 1 := rfl
  have hiters : twoBlocksTip.totalIters = 2 := rfl
  have hweight : twoBlocksTip.weight = 14 := rfl
  have hfees : twoBlocksTip.fees.getD 0 = 0 := rfl
  obtain ⟨t, mid, -, -, hpaid, -⟩ := hc.paidBlocks_eq
  obtain rfl : t = twoBlocksTip := by
    have hhead := head?_paidBlocks_concat (l := twoBlocks.take 1) (t := twoBlocksTip) rfl
    have hlist : twoBlocks.take 1 ++ [twoBlocksTip] = twoBlocks := rfl
    rw [hlist, hpaid] at hhead
    exact Option.some.inj hhead
  have ht : getPrevTransactionBlock twoBlocksTip (.ofRecords twoBlocks) (2 + 1) =
      .ok (true, twoBlocksTip) := by
    rw [getPrevTransactionBlock_eq hc hpaid, if_pos (by omega)]
  obtain ⟨u, hu, hsame⟩ := exists_sampleCreate defaultConstants 2 hc hpaid
    (by omega) (by rw [hfees, hheight]; decide) (by norm_num) (by omega)
  obtain ⟨b, hb⟩ := exists_sampleFinish hsame ht (by omega) (by omega)
  have hwalk : BlockRecords.walkBack (.ofRecords twoBlocks) BlockRecord.isTransactionBlock
      twoBlocksTip = .ok twoBlocksTip :=
    BlockRecords.walkBack_eq_ok hc.path (a := twoBlocks.take 1) (b := []) rfl rfl (by simp)
  refine ⟨u, b, hu, hb, ?_⟩
  refine (farmed_block_passes_iff hc (k := 1) rfl hc hu hb ht hwalk).mpr ⟨by omega, rfl, ?_⟩
  have hfarmer : Bytes32.zero ≠ communityPuzzleHash defaultConstants 2 := by decide
  have hhalves : firstHalf defaultConstants.GENESIS_CHALLENGE ≠
      secondHalf defaultConstants.GENESIS_CHALLENGE := by decide
  rintro (⟨h, -⟩ | ⟨h, -⟩)
  · exact hfarmer h
  · exact hhalves h

/-- The record at height `i` of a chain in which only the block at height `m` is no transaction
block. -/
def emptyAt (m i : ℕ) : BlockRecord :=
  { txRecord (fun _ => 0) (fun _ => Bytes32.zero) i with
    timestamp := if i = m then none else some i
    prevTransactionBlockHash := if i = m then none else some (Bytes32.ofNat i)
    fees := if i = m then none else some 0
    rewardClaimsIncorporated := if i = m then none else some [] }

lemma isTransactionBlock_emptyAt {m i : ℕ} :
    (emptyAt m i).isTransactionBlock = true ↔ i ≠ m := by
  by_cases h : i = m <;> simp [emptyAt, BlockRecord.isTransactionBlock, h]

/-- The chain up to the empty block. -/
def chainToEmpty (m : ℕ) : List BlockRecord := (List.range (m + 1)).map (emptyAt m)

lemma recordChain_emptyAt {m : ℕ} (hm : 0 < m) (hlt : m + 1 < 2 ^ 32) :
    RecordChain (.ofRecords (chainToEmpty m)) (emptyAt m m) (chainToEmpty m) := by
  have hfees : ∀ i, (emptyAt m i).isTransactionBlock = true →
      ∃ x, (emptyAt m i).fees = some x ∧ x < 2 ^ 64 := by
    intro i hi
    have hne := isTransactionBlock_emptyAt.mp hi
    exact ⟨0, by simp [emptyAt, hne], by norm_num⟩
  exact recordChain_range (f := emptyAt m) (fun _ => rfl) (fun _ => rfl) (fun _ => rfl)
    (isTransactionBlock_emptyAt.mpr hm.ne) hfees hlt

/-- The farmer makes a block at the signage point after the block at height `m`, which is infused on
top of the empty block. It fails if the community puzzle hash switches in between. -/
lemma farmed_block_fails {constants : ConsensusConstants} {m : ℕ} (hlt : m + 2 < 2 ^ 32)
    (hswitch : communityPuzzleHash constants (m + 1) ≠ communityPuzzleHash constants (m + 2)) :
    ∃ u b, sampleCreate constants (.ofRecords (chainToEmpty (m + 1))) (emptyAt (m + 1) m)
        (m + 1) = .ok u ∧
      getPrevTransactionBlock (emptyAt (m + 1) (m + 1)) (.ofRecords (chainToEmpty (m + 1)))
        (m + 2) = .ok (true, emptyAt (m + 1) m) ∧
      sampleFinish u (.ofRecords (chainToEmpty (m + 1))) (emptyAt (m + 1) (m + 1)) (m + 1) = .ok b ∧
      ¬(checkRewards constants (.ofRecords (chainToEmpty (m + 1))) b = .ok none ∧
        checkCommunity constants b.height b.foliage.foliageBlockData = none) := by
  have hc := recordChain_emptyAt (m := m + 1) (Nat.succ_pos m) hlt
  have hsplit : chainToEmpty (m + 1) =
      (List.range m).map (emptyAt (m + 1)) ++ emptyAt (m + 1) m :: [emptyAt (m + 1) (m + 1)] := by
    rw [chainToEmpty, List.range_succ, List.range_succ]
    simp
  have hget : (chainToEmpty (m + 1))[m]? = some (emptyAt (m + 1) m) := by
    rw [chainToEmpty, List.getElem?_map, List.getElem?_range (by omega)]
    rfl
  have htake : (chainToEmpty (m + 1)).take (m + 1) =
      (List.range m).map (emptyAt (m + 1)) ++ [emptyAt (m + 1) m] := by
    rw [chainToEmpty, ← List.map_take, List.take_range, min_eq_left (by omega), List.range_succ,
      List.map_append]
    rfl
  have htxm : (emptyAt (m + 1) m).isTransactionBlock = true :=
    isTransactionBlock_emptyAt.mpr (by omega)
  have hempty : (emptyAt (m + 1) (m + 1)).isTransactionBlock = false := by
    rw [← Bool.not_eq_true, isTransactionBlock_emptyAt, not_not]
  have hlast : (emptyAt (m + 1) m).totalIters < m + 1 + 1 := Nat.lt_succ_self (m + 1)
  have hwalk := BlockRecords.walkBack_eq_ok hc.path hsplit htxm (by simpa using hempty)
  have htx : getPrevTransactionBlock (emptyAt (m + 1) (m + 1))
      (.ofRecords (chainToEmpty (m + 1))) (m + 1 + 1) = .ok (true, emptyAt (m + 1) m) := by
    rw [getPrevTransactionBlock, hwalk, ok_bind, if_pos hlast]
    rfl
  have hcSp := hc.take hget
  have hwalkSp := BlockRecords.walkBack_eq_ok hcSp.path htake htxm (by simp)
  have ht : getPrevTransactionBlock (emptyAt (m + 1) m)
      (.ofRecords (chainToEmpty (m + 1))) (m + 1 + 1) = .ok (true, emptyAt (m + 1) m) := by
    rw [getPrevTransactionBlock, hwalkSp, ok_bind, if_pos hlast]
    rfl
  obtain ⟨t, mid, -, -, hpaid, -⟩ := hcSp.paidBlocks_eq
  obtain rfl : t = emptyAt (m + 1) m := by
    have hhead := head?_paidBlocks_concat (l := (List.range m).map (emptyAt (m + 1))) htxm
    rw [← htake, hpaid] at hhead
    exact Option.some.inj hhead
  have hfees : (emptyAt (m + 1) m).fees.getD 0 = 0 := by simp [emptyAt]
  obtain ⟨u, hu, hsame⟩ := exists_sampleCreate constants (m + 1) hcSp hpaid
    (Nat.lt_succ_self (m + 1)) (by rw [hfees]; exact calculateBaseFarmerReward_lt _) (by omega) (by show m + 1 < _; omega)
  obtain ⟨b, hb⟩ := exists_sampleFinish hsame htx hlt
    (by show 7 * (m + 1 + 1) + 7 < _; omega)
  refine ⟨u, b, hu, htx, hb, ?_⟩
  rw [farmed_block_checks hc hget hcSp hu hb htx ht]
  rintro ⟨h, -⟩
  exact hswitch h

/-- A farmer that makes its block on top of height 2599999 pays the old community puzzle hash; if a
block without transactions is infused first, the block lands at height 2600001 and is rejected. -/
theorem farmed_block_fails_at_switch :
    ∃ u b, sampleCreate defaultConstants (.ofRecords (chainToEmpty 2600000)) (emptyAt 2600000 2599999)
        2600000 = .ok u ∧
      getPrevTransactionBlock (emptyAt 2600000 2600000) (.ofRecords (chainToEmpty 2600000))
        2600001 = .ok (true, emptyAt 2600000 2599999) ∧
      sampleFinish u (.ofRecords (chainToEmpty 2600000)) (emptyAt 2600000 2600000) 2600000 = .ok b ∧
      ¬(checkRewards defaultConstants (.ofRecords (chainToEmpty 2600000)) b = .ok none ∧
        checkCommunity defaultConstants b.height b.foliage.foliageBlockData = none) := by
  exact farmed_block_fails (m := 2599999) (by norm_num) (by decide)

end Chives
