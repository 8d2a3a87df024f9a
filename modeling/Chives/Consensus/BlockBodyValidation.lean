import Chives.Consensus.BlockCreation
import Chives.Consensus.FindForkPoint
import Chives.FullNode.BlockStore
import Chives.FullNode.CoinStore
import Chives.Types.Proofs

set_option autoImplicit false

/-!
# Validation of block bodies

`validate_block_body` of `consensus/block_body_validation.py` for full blocks, with
`validate_block_merkle_roots` of `consensus/block_root_validation.py` and `mempool_check_time_locks`
of `full_node/mempool_check_conditions.py`.

## Main definitions

* `BodyTools`, `BodyContext` — what the function takes from elsewhere.
* `forkCoins` — the coins created and spent between the fork point and the block.
* `removalCoinRecords` — steps 14 and 15, the check for double spends.
* `validateBlockBody` — the function.

## Design

The function is cut where its comments number the steps. A step rejects the block with an error code
or raises. A set that is only tested for membership is a list.
-/

namespace Chives

open ExceptRun

/-- Why the validation of a body stops: the block is rejected with an error code, or an exception is
raised. -/
inductive BodyFailure
  | invalid (code : ℕ)
  | raised (e : PyError)
  deriving DecidableEq, Repr

/-- A computation of the source that may raise. -/
def bodyRaising {α : Type} (x : Except PyError α) : Except BodyFailure α := x.mapError .raised

/-- `if bad: return e, None`. -/
def bodyRejectIf (bad : Prop) [Decidable bad] (e : Err) : Except BodyFailure Unit :=
  if bad then .error (.invalid e.value) else .ok ()

/-- What validation takes from other packages: hashes, verifiers, the CLVM, the BIP158 filter and
the root of a Merkle set. -/
structure BodyTools where
  H : Hashes
  V : Verifiers
  runGenerator : BlockGenerator → ℕ → ℕ → NPCResult
  encodedFilter : List Bytes → Bytes
  computeMerkleSetRoot : List Bytes32 → Bytes32

/-- The state of the blockchain that validation reads. -/
structure BodyContext where
  blocks : BlockRecords
  blockStore : BlockStore
  coinStore : CoinTable
  peak : Option BlockRecord
  getBlockGenerator : FullBlock → Except PyError (Option BlockGenerator)

section Steps

variable (T : BodyTools) (constants : ConsensusConstants)

/-! ## Steps 1 to 13 -/

/-- Step 1: a block that is not a transaction block has no body. -/
def checkNoBody (blocks : BlockRecords) (block : FullBlock) : Except BodyFailure Unit := do
  let _ ← bodyRejectIf (block.foliageTransactionBlock.isSome ∨ block.transactionsInfo.isSome ∨
    block.transactionsGenerator.isSome) .notBlockButHasData
  let prevB ← bodyRaising (blocks.blockRecord block.prevHeaderHash)
  let prevTb ← bodyRaising (blocks.walkBack BlockRecord.isTransactionBlock prevB)
  let _ ← bodyRaising (pyAssert (prevTb.timestamp.isSome = true))
  bodyRejectIf (block.transactionsGeneratorRefList ≠ []) .notBlockButHasData

/-- Steps 3 and 4: the hashes of the foliage. -/
def checkFoliageHashes (block : FullBlock) (ftb : FoliageTransactionBlock) (info : TransactionsInfo) :
    Except BodyFailure Unit := do
  let _ ← bodyRejectIf (ftb.transactionsInfoHash ≠ T.H.transactionsInfo info)
    .invalidTransactionsInfoHash
  bodyRejectIf (block.foliage.foliageTransactionBlockHash ≠ some (T.H.foliageTransactionBlock ftb))
    .invalidFoliageBlockHash

/-- Step 5: the reward claims are those expected. Gives the set of expected coins. -/
def checkRewardStep (blocks : BlockRecords) (ftb : FoliageTransactionBlock) (info : TransactionsInfo)
    (height : ℕ) : Except BodyFailure (List Coin) := do
  let expected ← bodyRaising
    (expectedRewardCoins constants blocks ftb.prevTransactionBlockHash height)
  match checkRewardClaims info.rewardClaimsIncorporated expected with
  | some e => throw (.invalid e.value)
  | none => return expected.dedup

/-- `prev_transaction_block_height`, 0 for genesis. -/
def prevTransactionBlockHeightOf (blocks : BlockRecords) (ftb : FoliageTransactionBlock)
    (height : ℕ) : Except PyError ℕ :=
  if height > 0 then (blocks.blockRecord ftb.prevTransactionBlockHash).map BlockRecord.height
  else .ok 0

/-- Steps 7a and 8a to 8c: the roots of the generator and of its references, which must be to earlier
heights. -/
def checkGeneratorRoots (block : FullBlock) (info : TransactionsInfo) (height : ℕ) :
    Except BodyFailure Unit := do
  let root := match block.transactionsGenerator with
    | some generator => T.H.stdHash generator
    | none => Bytes32.zero
  let _ ← bodyRejectIf (root ≠ info.generatorRoot) .invalidTransactionsGeneratorHash
  let refs := block.transactionsGeneratorRefList
  let _ ← bodyRejectIf (refs ≠ [] ∧ block.transactionsGenerator.isNone)
    .invalidTransactionsGeneratorRefsRoot
  let _ ← bodyRejectIf (info.generatorRefsRoot ≠ generatorRefsHash T.H refs)
    .invalidTransactionsGeneratorRefsRoot
  let _ ← bodyRejectIf (refs.length > constants.MAX_GENERATOR_REF_LIST_SIZE) .tooManyGeneratorRefs
  bodyRejectIf (∃ index ∈ refs, index ≥ height) .futureGeneratorRefs

/-- What the transactions of a block do. -/
structure BlockEffects where
  removals : List Bytes32
  additions : List Coin
  removalsPuzzleDic : Dict Bytes32 Bytes32
  cost : ℕ

/-- Steps 7 and 8: removals, additions and cost from the result of the generator. -/
def effectsOfNpc (block : FullBlock) (npcResult : Option NPCResult) :
    Except BodyFailure BlockEffects :=
  match block.transactionsGenerator, npcResult with
  | none, none => .ok ⟨[], [], ∅, 0⟩
  | none, some _ => .error (.raised .assertionError)
  | some _, none => .error (.raised .assertionError)
  | some _, some npc => do
    let _ ← bodyRejectIf (npc.cost > constants.MAX_BLOCK_COST_CLVM) .blockCostExceedsMax
    match npc.error with
    | some e => throw (.invalid e)
    | none =>
      let conds ← bodyRaising (pySome npc.conds)
      return ⟨conds.spends.map Spend.coinId, conds.spends.flatMap Spend.additions,
        Dict.ofItems (conds.spends.map fun s => (s.coinId, s.puzzleHash)), npc.cost⟩

/-- `validate_block_merkle_roots`. -/
def validateBlockMerkleRoots (additionsRoot removalsRoot : Bytes32) (txAdditions : List Coin)
    (txRemovals : List Bytes32) : Except BodyFailure Unit := do
  let _ ← bodyRejectIf
    (additionsRoot ≠ T.computeMerkleSetRoot (additionsMerkleItems T.H txAdditions)) .badAdditionRoot
  bodyRejectIf (removalsRoot ≠ T.computeMerkleSetRoot txRemovals) .badRemovalRoot

/-- Steps 9 to 13: the cost, the amounts of the additions (which are not negative by their type), the
roots and the filter of additions and removals, and no output twice. -/
def checkOutputs (ftb : FoliageTransactionBlock) (info : TransactionsInfo) (effects : BlockEffects)
    (coinbaseAdditions : List Coin) : Except BodyFailure Unit := do
  let outputs := effects.additions ++ coinbaseAdditions
  let _ ← bodyRejectIf (info.cost ≠ effects.cost) .invalidBlockCost
  let _ ← bodyRejectIf (∃ c ∈ outputs, c.amount > constants.MAX_COIN_AMOUNT)
    .coinAmountExceedsMaximum
  let _ ← validateBlockMerkleRoots T ftb.additionsRoot ftb.removalsRoot outputs effects.removals
  let filter := T.encodedFilter
    (outputs.map (fun c => c.puzzleHash.bytes) ++ effects.removals.map Bytes32.bytes)
  let _ ← bodyRejectIf (T.H.stdHash filter ≠ ftb.filterHash) .invalidTransactionsFilterHash
  bodyRejectIf (¬(outputs.map T.H.coinName).Nodup) .duplicateOutput

/-! ## Steps 14 and 15 -/

/-- The height of the fork between the peak and the block. -/
def forkHeightOf (ctx : BodyContext) (block : FullBlock) (height : ℕ)
    (forkPointWithPeak : Option ℤ) : Except PyError ℤ :=
  match ctx.peak, forkPointWithPeak with
  | none, _ => .ok (-1)
  | some peak, forkPoint =>
    if height = 0 then .ok (-1)
    else match forkPoint with
      | some forkPoint => .ok forkPoint
      | none => do
        let prev ← ctx.blocks.blockRecord block.prevHeaderHash
        findForkPointInChain ctx.blocks peak prev

/-- `curr` and the blocks before it down to the fork height or genesis:
`while curr.height > fork_h and curr.height > 0: curr = get_full_block(curr.prev_header_hash)`. -/
def blocksBack (store : BlockStore) (forkH : ℤ) : ℕ → FullBlock → Except PyError (List FullBlock)
  | 0, _ => .error .divergence
  | fuel + 1, curr =>
    if (curr.height : ℤ) > forkH ∧ curr.height > 0 then do
      let prev ← pySome (store.getFullBlock curr.prevHeaderHash)
      let rest ← blocksBack store forkH fuel prev
      return curr :: rest
    else .ok [curr]

/-- The number of stored blocks bounds the length of a walk along them. -/
def storeFuel (store : BlockStore) : ℕ := store.fullBlocks.length + 1

/-- The coins created and spent after the fork and before the block: `additions_since_fork`, with the
height and the timestamp of the block that creates the coin, and `removals_since_fork`. -/
structure ForkCoins where
  additionsSinceFork : Dict Bytes32 (Coin × ℕ × ℕ)
  removalsSinceFork : List Bytes32

/-- The removals and additions of a block in the fork, by running its generator. -/
def effectsOfForkBlock (ctx : BodyContext) (curr : FullBlock) :
    Except PyError (List Bytes32 × List Coin) :=
  match curr.transactionsGenerator with
  | none => .ok ([], [])
  | some _ => do
    let generator ← pySome (← ctx.getBlockGenerator curr)
    let info ← pySome curr.transactionsInfo
    let npc := T.runGenerator generator (min constants.MAX_BLOCK_COST_CLVM info.cost) curr.height
    return txRemovalsAndAdditions npc.conds

/-- Add removed coins, each of which must be new. -/
def addRemovals (removalsSinceFork : List Bytes32) : List Bytes32 → Except PyError (List Bytes32)
  | [] => .ok removalsSinceFork
  | name :: names => do
    let _ ← pyAssert (name ∉ removalsSinceFork)
    addRemovals (name :: removalsSinceFork) names

/-- Add created coins, each of which must be new; the block that creates one is a transaction
block. -/
def addAdditions (curr : FullBlock) (additions : Dict Bytes32 (Coin × ℕ × ℕ)) :
    List Coin → Except PyError (Dict Bytes32 (Coin × ℕ × ℕ))
  | [] => .ok additions
  | c :: coins => do
    let _ ← pyAssert (additions.lookup (T.H.coinName c) = none)
    let ftb ← pySome curr.foliageTransactionBlock
    addAdditions curr (additions.set (T.H.coinName c) (c, curr.height, ftb.timestamp)) coins

/-- One round of the loop over the blocks of the fork. -/
def addForkBlock (ctx : BodyContext) (acc : ForkCoins) (curr : FullBlock) :
    Except PyError ForkCoins := do
  let (removalsInCurr, additionsInCurr) ← effectsOfForkBlock T constants ctx curr
  let removals ← addRemovals acc.removalsSinceFork removalsInCurr
  let additions ← addAdditions T curr acc.additionsSinceFork additionsInCurr
  let additions ← addAdditions T curr additions curr.getIncludedRewardCoins
  return ⟨additions, removals⟩

/-- The loop over the blocks of the fork, from the last one on; `reorgBlocks` are the blocks before
it by height. -/
def forkCoinsFrom (ctx : BodyContext) (forkH : ℤ) (reorgBlocks : Dict ℕ FullBlock) :
    ℕ → FullBlock → ForkCoins → Except PyError ForkCoins
  | 0, _, _ => .error .divergence
  | fuel + 1, curr, acc =>
    if (curr.height : ℤ) > forkH then do
      let acc ← addForkBlock T constants ctx acc curr
      if curr.height = 0 then return acc
      else match reorgBlocks.lookup (curr.height - 1) with
        | some prev => forkCoinsFrom ctx forkH reorgBlocks fuel prev acc
        | none => throw .keyError
    else .ok acc

/-- The coins created and spent in the fork. -/
def forkCoins (ctx : BodyContext) (block : FullBlock) (height : ℕ) (forkH : ℤ) :
    Except PyError ForkCoins :=
  if height > 0 then do
    let prevBlock ← pySome (ctx.blockStore.getFullBlock block.prevHeaderHash)
    let passed ← blocksBack ctx.blockStore forkH (storeFuel ctx.blockStore) prevBlock
    let reorgBlocks := Dict.ofItems (passed.tail.map fun b => (b.height, b))
    let _ ← pyAssert (forkH ≠ -1 → (reorgBlocks.keys.length : ℤ) = height - forkH - 1)
    forkCoinsFrom T constants ctx forkH reorgBlocks (storeFuel ctx.blockStore) prevBlock ⟨∅, []⟩
  else .ok ⟨∅, []⟩

/-- The loop over the removals: coins created in this block are recorded as such, of the others none
may be spent in the fork, and their names are returned. -/
def splitRemovals (additionsDic : Dict Bytes32 Coin) (removalsSinceFork : List Bytes32)
    (height timestamp : ℕ) : List Bytes32 → Dict Bytes32 CoinRecord →
      Except BodyFailure (Dict Bytes32 CoinRecord × List Bytes32)
  | [], records => .ok (records, [])
  | rem :: removals, records =>
    match additionsDic.lookup rem with
    | some coin => splitRemovals additionsDic removalsSinceFork height timestamp removals
        (records.set (T.H.coinName coin) ⟨coin, height, height, false, timestamp⟩)
    | none => do
      let _ ← bodyRejectIf (rem ∈ removalsSinceFork) .doubleSpendInFork
      let (records, removalsFromDb) ←
        splitRemovals additionsDic removalsSinceFork height timestamp removals records
      return (records, rem :: removalsFromDb)

/-- The loop over the records found in the coin store: coins confirmed up to the fork must not be
spent up to it; the names of the others are returned. -/
def confirmedBeforeFork (forkH : ℤ) : List CoinRecord → Dict Bytes32 CoinRecord →
    Except BodyFailure (Dict Bytes32 CoinRecord × List Bytes32)
  | [], records => .ok (records, [])
  | unspent :: rest, records =>
    if (unspent.confirmedBlockIndex : ℤ) ≤ forkH then do
      let _ ← bodyRejectIf (unspent.spent = true ∧ (unspent.spentBlockIndex : ℤ) ≤ forkH) .doubleSpend
      confirmedBeforeFork forkH rest (records.set (T.H.coinName unspent.coin) unspent)
    else do
      let (records, lookInFork) ← confirmedBeforeFork forkH rest records
      return (records, T.H.coinName unspent.coin :: lookInFork)

/-- The names that were not found in the coin store. -/
def missingNames (unspentRecords : List CoinRecord) (removalsFromDb : List Bytes32) : List Bytes32 :=
  if unspentRecords.length ≠ removalsFromDb.length then
    removalsFromDb.filter fun rem => rem ∉ unspentRecords.map fun u => T.H.coinName u.coin
  else []

/-- The loop over the names that must have been created in the fork. -/
def createdInFork (additionsSinceFork : Dict Bytes32 (Coin × ℕ × ℕ)) :
    List Bytes32 → Dict Bytes32 CoinRecord → Except BodyFailure (Dict Bytes32 CoinRecord)
  | [], records => .ok records
  | rem :: rest, records =>
    match additionsSinceFork.lookup rem with
    | none => .error (.invalid Err.unknownUnspent.value)
    | some (coin, confirmedHeight, confirmedTimestamp) =>
      createdInFork additionsSinceFork rest
        (records.set (T.H.coinName coin) ⟨coin, confirmedHeight, 0, false, confirmedTimestamp⟩)

/-- Steps 14 and 15: no removal twice, and every removal exists and was not spent before. Gives
`removal_coin_records`. -/
def removalCoinRecords (ctx : BodyContext) (block : FullBlock) (height timestamp : ℕ)
    (forkPointWithPeak : Option ℤ) (removals : List Bytes32) (additionsDic : Dict Bytes32 Coin) :
    Except BodyFailure (Dict Bytes32 CoinRecord) := do
  let _ ← bodyRejectIf (¬removals.Nodup) .doubleSpend
  let forkH ← bodyRaising (forkHeightOf ctx block height forkPointWithPeak)
  let fork ← bodyRaising (forkCoins T constants ctx block height forkH)
  let (records, removalsFromDb) ←
    splitRemovals T additionsDic fork.removalsSinceFork height timestamp removals ∅
  let unspentRecords := ctx.coinStore.getCoinRecords removalsFromDb
  let (records, lookInFork) ← confirmedBeforeFork T forkH unspentRecords records
  createdInFork T fork.additionsSinceFork (lookInFork ++ missingNames T unspentRecords removalsFromDb)
    records

/-! ## Steps 16 to 22 -/

/-- The loop of `mempool_check_time_locks` over the spends. -/
def checkRelativeLocks (records : Dict Bytes32 CoinRecord) (prevTransactionBlockHeight timestamp : ℕ) :
    List Spend → Except BodyFailure Unit
  | [] => .ok ()
  | spend :: spends =>
    match records.lookup spend.coinId with
    | none => .error (.raised .keyError)
    | some unspent => do
      let _ ← bodyRejectIf (∃ h, spend.heightRelative = some h ∧
        prevTransactionBlockHeight < unspent.confirmedBlockIndex + h) .assertHeightRelativeFailed
      let _ ← bodyRejectIf (timestamp < unspent.timestamp + spend.secondsRelative)
        .assertSecondsRelativeFailed
      checkRelativeLocks records prevTransactionBlockHeight timestamp spends

/-- `mempool_check_time_locks`. -/
def mempoolCheckTimeLocks (records : Dict Bytes32 CoinRecord) (conds : SpendBundleConditions)
    (prevTransactionBlockHeight timestamp : ℕ) : Except BodyFailure Unit := do
  let _ ← bodyRejectIf (prevTransactionBlockHeight < conds.heightAbsolute)
    .assertHeightAbsoluteFailed
  let _ ← bodyRejectIf (timestamp < conds.secondsAbsolute) .assertSecondsAbsoluteFailed
  checkRelativeLocks records prevTransactionBlockHeight timestamp conds.spends

/-- The fees of a block: what its removals are worth more than its additions. -/
def feesOf (records : Dict Bytes32 CoinRecord) (additions : List Coin) : ℤ :=
  ((records.items.map fun e => e.2.coin.amount).sum : ℤ) - (additions.map Coin.amount).sum

/-- Steps 16 to 19: the fees. -/
def checkFees (records : Dict Bytes32 CoinRecord) (additions : List Coin) (reserveFee : ℕ)
    (info : TransactionsInfo) (height : ℕ) : Except BodyFailure Unit := do
  let fees := feesOf records additions
  let _ ← bodyRejectIf (fees < 0) .mintingCoin
  let _ ← bodyRejectIf (fees < reserveFee) .reserveFeeConditionFailed
  let _ ← bodyRejectIf (fees + calculateBaseFarmerReward height > constants.MAX_COIN_AMOUNT)
    .coinAmountExceedsMaximum
  let _ ← bodyRejectIf (fees + calculateBaseCommunityReward height > constants.MAX_COIN_AMOUNT)
    .coinAmountExceedsMaximum
  bodyRejectIf ((info.fees : ℤ) ≠ fees) .invalidBlockFeeAmount

/-- Step 20: the puzzle hashes of the removed coins. -/
def checkPuzzleHashes (removalsPuzzleDic : Dict Bytes32 Bytes32) :
    List CoinRecord → Except BodyFailure Unit
  | [] => .ok ()
  | unspent :: rest =>
    match removalsPuzzleDic.lookup (T.H.coinName unspent.coin) with
    | none => .error (.raised .keyError)
    | some puzzleHash => do
      let _ ← bodyRejectIf (unspent.coin.puzzleHash ≠ puzzleHash) .wrongPuzzleHash
      checkPuzzleHashes removalsPuzzleDic rest

/-- Step 21: the time locks, if there are transactions. -/
def checkTimeLocks (records : Dict Bytes32 CoinRecord) (npcResult : Option NPCResult)
    (prevTransactionBlockHeight timestamp : ℕ) : Except BodyFailure Unit :=
  match npcResult with
  | none => .ok ()
  | some npc => do
    let conds ← bodyRaising (pySome npc.conds)
    mempoolCheckTimeLocks records conds prevTransactionBlockHeight timestamp

/-- The conditions of the transactions, if there are any. -/
def condsOf : Option NPCResult → Except PyError (Option SpendBundleConditions)
  | none => .ok none
  | some npc => (pySome npc.conds).map some

/-- Step 22: the aggregated signature. There always is one, since it is not optional. -/
def checkSignature (conds : Option SpendBundleConditions) (info : TransactionsInfo)
    (validateSignature : Bool) : Except BodyFailure Unit :=
  let (pks, msgs) := match conds with
    | some conds => pkmPairs conds constants.AGG_SIG_ME_ADDITIONAL_DATA
    | none => ([], [])
  bodyRejectIf (validateSignature = true ∧
    T.V.aggregateVerify pks msgs info.aggregatedSignature = false) .badAggregateSignature

/-! ## The function -/

/-- `additions_dic`: the coins that the block creates, by name. -/
def additionsDicOf (additions coinbaseAdditions : List Coin) : Dict Bytes32 Coin :=
  Dict.ofItems ((additions ++ coinbaseAdditions).map fun c => (T.H.coinName c, c))

/-- Steps 3 to 22, for a transaction block. -/
def validateTransactions (ctx : BodyContext) (block : FullBlock) (ftb : FoliageTransactionBlock)
    (info : TransactionsInfo) (height : ℕ) (npcResult : Option NPCResult)
    (forkPointWithPeak : Option ℤ) (validateSignature : Bool) : Except BodyFailure Unit := do
  let _ ← checkFoliageHashes T block ftb info
  let coinbaseAdditions ← checkRewardStep constants ctx.blocks ftb info height
  let prevTransactionBlockHeight ←
    bodyRaising (prevTransactionBlockHeightOf ctx.blocks ftb height)
  let _ ← checkGeneratorRoots T constants block info height
  let effects ← effectsOfNpc constants block npcResult
  let _ ← checkOutputs T constants ftb info effects coinbaseAdditions
  let records ← removalCoinRecords T constants ctx block height ftb.timestamp forkPointWithPeak
    effects.removals (additionsDicOf T effects.additions coinbaseAdditions)
  let conds ← bodyRaising (condsOf npcResult)
  let _ ← checkFees constants records effects.additions
    ((conds.map SpendBundleConditions.reserveFee).getD 0) info height
  let _ ← checkPuzzleHashes T effects.removalsPuzzleDic (records.items.map Prod.snd)
  let _ ← checkTimeLocks records npcResult prevTransactionBlockHeight ftb.timestamp
  checkSignature T constants conds info validateSignature

/-- `validate_block_body` of a full block. The result of the generator that it returns with a valid
block is the one it was given. -/
def validateBlockBody (ctx : BodyContext) (block : FullBlock) (height : ℕ)
    (npcResult : Option NPCResult) (forkPointWithPeak : Option ℤ) (validateSignature : Bool) :
    Except BodyFailure Unit := do
  let _ ← bodyRaising (pyAssert (height = block.height))
  if block.foliage.foliageTransactionBlockHash.isNone then checkNoBody ctx.blocks block
  else match block.foliageTransactionBlock, block.transactionsInfo with
    | some ftb, some info =>
      validateTransactions T constants ctx block ftb info height npcResult forkPointWithPeak
        validateSignature
    | _, _ => throw (.invalid Err.isTransactionBlockButNoData.value)

end Steps

end Chives
