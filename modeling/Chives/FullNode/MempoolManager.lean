import Chives.Consensus.BlockBodyValidation
import Chives.FullNode.Mempool

set_option autoImplicit false

/-!
# The mempool manager

`MempoolManager` of `full_node/mempool_manager.py`, as far as it adds bundles, follows the peak and makes the
bundle of a block, with `PendingTxCache` of `full_node/pending_tx_cache.py`.

## Main definitions

* `MempoolManager` — the class.
* `MempoolManager.addSpendbundle`, `MempoolManager.newPeak` — the methods that change it.
* `MempoolManager.createBundleFromMempool` — the bundle of a block.

## Design

All that `add_spendbundle` does before it changes the mempool only reads it, and is the function `admission`: it
stops with the answer of the method, or gives the new item and the items that it replaces. The coin store is
an argument of the methods, since it changes with the chain. `limit_factor` is one half, so that comparisons
with its product are comparisons of twice the other side.
-/

namespace Chives

open ExceptRun StateRun

/-- The constants of the chain, with `MEMPOOL_BLOCK_BUFFER`. -/
structure MempoolConstants extends ConsensusConstants where
  MEMPOOL_BLOCK_BUFFER : ℕ

/-- `DEFAULT_CONSTANTS`. -/
def defaultMempoolConstants : MempoolConstants :=
  { defaultConstants with MEMPOOL_BLOCK_BUFFER := 50 }

/-- `int(self.limit_factor * self.constants.MAX_BLOCK_COST_CLVM)`. -/
def MempoolConstants.maxCost (constants : MempoolConstants) : ℕ := constants.MAX_BLOCK_COST_CLVM / 2

/-- `mempool_max_total_cost`. -/
def MempoolConstants.mempoolMaxTotalCost (constants : MempoolConstants) : ℕ :=
  constants.MAX_BLOCK_COST_CLVM * constants.MEMPOOL_BLOCK_BUFFER

/-! ## The cache of pending transactions -/

/-- `PendingTxCache`. -/
structure PendingTxCache where
  cacheMaxTotalCost : ℕ
  cacheCost : ℤ
  txs : OrderedDict Bytes32 MempoolItem

namespace PendingTxCache

/-- `PendingTxCache(cost_limit)`. -/
def new (costLimit : ℕ) : PendingTxCache := ⟨costLimit, 0, .empty⟩

/-- `while self._cache_cost > self._cache_max_total_cost`: the first transaction is dropped. No more rounds
are needed than there are transactions. -/
def shrink : ℕ → EStateM PyError PendingTxCache Unit
  | 0, c => .error .divergence c
  | fuel + 1, c =>
    if c.cacheCost > c.cacheMaxTotalCost then
      match c.txs.entries.head? with
      | none => .error .indexError c
      | some (firstIn, item) =>
        shrink fuel { c with cacheCost := c.cacheCost - item.cost, txs := c.txs.erase firstIn }
    else .ok () c

/-- `add`. -/
def add (item : MempoolItem) : EStateM PyError PendingTxCache Unit :=
  fun c =>
    if (c.txs.get? item.spendBundleName).isSome then .ok () c
    else shrink (c.txs.values.length + 2)
      { c with txs := c.txs.set item.spendBundleName item, cacheCost := c.cacheCost + item.cost }

/-- `drain`: what is left. -/
def drained (c : PendingTxCache) : PendingTxCache := { c with txs := .empty, cacheCost := 0 }

end PendingTxCache

/-! ## The manager -/

/-- `MempoolInclusionStatus`. -/
inductive MempoolInclusionStatus
  | success
  | pending
  | failed
  deriving DecidableEq, Repr

/-- `MempoolManager`. -/
structure MempoolManager (K : Type) [LinearOrder K] where
  seenBundleHashes : OrderedDict Bytes32 Bytes32
  potentialCache : PendingTxCache
  peak : Option BlockRecord
  mempool : Mempool K

/-- Where an exception comes from: `remove_from_pool` and `add_to_pool`, or elsewhere. -/
inductive MempoolFailure
  | raised (e : PyError)
  | poolRaised (e : PyError)
  deriving DecidableEq, Repr

/-- Why `add_spendbundle` stops before it changes the mempool: an exception, or an answer. Errors are given
by their numbers. -/
inductive AddStop
  | raised (e : PyError)
  | failed (code : ℕ)
  | already (cost : ℕ)
  | pending (item : MempoolItem) (code : ℕ)
  deriving DecidableEq

/-- A computation of the source that may raise. -/
def stopRaising {α : Type} (x : Except PyError α) : Except AddStop α := x.mapError .raised

/-- `if bad: return None, MempoolInclusionStatus.FAILED, err`. -/
def failIf (bad : Prop) [Decidable bad] (err : Err) : Except AddStop Unit :=
  if bad then .error (.failed err.value) else .ok ()

namespace MempoolManager

section Manager

variable {K : Type} [LinearOrder K] (T : MempoolTools K) (constants : MempoolConstants)

/-- `MempoolManager(coin_store, constants)`. -/
def new : MempoolManager K where
  seenBundleHashes := .empty
  potentialCache := .new (constants.MAX_BLOCK_COST_CLVM * 1)
  peak := none
  mempool := .new constants.mempoolMaxTotalCost

/-! ## Admission -/

/-- The records of the coins that a bundle spends. A coin that the bundle creates is dated as if it was
created in the block after the peak. -/
def removalRecords (coinStore : CoinTable) (peak : BlockRecord) (additionsDict : Dict Bytes32 Coin) :
    List Bytes32 → Except AddStop (List (Bytes32 × CoinRecord))
  | [] => .ok []
  | name :: names => do
    let record ← (match additionsDict.lookup name, coinStore.getCoinRecord name with
      | none, none => throw (.failed Err.unknownUnspent.value)
      | none, some record => pure record
      | some coin, _ => do
        let timestamp ← stopRaising (pySome peak.timestamp)
        let height ← stopRaising (uint32 (peak.height + 1))
        return ⟨coin, height, 0, false, timestamp⟩)
    let records ← removalRecords coinStore peak additionsDict names
    return (name, record) :: records

/-- The checks of the result of running a bundle, before the coin store is asked. -/
def checkNpcResult (newSpend : SpendBundle) (npcResult : NPCResult) :
    Except AddStop SpendBundleConditions := do
  let _ ← stopRaising (pyAssert (npcResult.error = none))
  let _ ← failIf (npcResult.cost > constants.maxCost) .blockCostExceedsMax
  let conds ← stopRaising (pySome npcResult.conds)
  let removalNames := conds.spends.map Spend.coinId
  let spentNames := newSpend.removals.map T.coinName
  let _ ← failIf (¬((∀ n ∈ removalNames, n ∈ spentNames) ∧ ∀ n ∈ spentNames, n ∈ removalNames))
    .invalidSpendBundle
  let additions := additionsForNpc npcResult
  let _ ← failIf (∃ c ∈ additions, c.amount > constants.MAX_COIN_AMOUNT) .coinAmountExceedsMaximum
  let _ ← failIf (¬(additions.map T.coinName).Nodup) .duplicateOutput
  let _ ← failIf (¬removalNames.Nodup) .doubleSpend
  return conds

/-- The item for a bundle, whose fees must cover what it reserves. -/
def makeItem (newSpend : SpendBundle) (npcResult : NPCResult) (spendName : Bytes32)
    (program : SerializedProgram) (reserveFee : ℕ) (records : List (Bytes32 × CoinRecord)) :
    Except AddStop MempoolItem := do
  let additions := additionsForNpc npcResult
  let removals := records.map fun e => e.2.coin
  let additionAmount := (additions.map Coin.amount).sum
  let removalAmount := (removals.map Coin.amount).sum
  let _ ← failIf (additionAmount > removalAmount) .mintingCoin
  let fees ← stopRaising (uint64 ((removalAmount : ℤ) - additionAmount))
  let _ ← failIf (fees < reserveFee) .reserveFeeConditionFailed
  let _ ← failIf (npcResult.cost = 0) .unknown
  return ⟨newSpend, fees, npcResult, npcResult.cost, spendName, additions, removals, program⟩

/-- If the mempool is full, the fee has to be high enough. -/
def checkFeeRate (m : Mempool K) (item : MempoolItem) : Except AddStop Unit :=
  if m.atFullCapacity item.cost then do
    let _ ← failIf (item.feePerCost T < T.nonzeroFeeMinimumFpc) .invalidFeeTooCloseToZero
    let rate ← stopRaising (m.getMinFeeRate T item.cost)
    failIf (item.feePerCost T ≤ rate) .invalidFeeLowFee
  else .ok ()

/-- `check_removals`, with the conflicts found so far. -/
def checkRemovals (m : Mempool K) : List CoinRecord → List Coin → Option Err × List Coin
  | [], conflicts => if conflicts.length > 0 then (some .mempoolConflict, conflicts) else (none, [])
  | record :: records, conflicts =>
    if record.spent then (some .doubleSpend, [])
    else checkRemovals m records (if (m.removals.get? (T.coinName record.coin)).isSome then
      conflicts ++ [record.coin] else conflicts)

/-- The items of the mempool that spend one of the coins, by name. -/
def conflictingPoolItems (m : Mempool K) : List Coin → OrderedDict Bytes32 MempoolItem →
    Except PyError (OrderedDict Bytes32 MempoolItem)
  | [], items => .ok items
  | coin :: coins, items =>
    match m.removals.get? (T.coinName coin) with
    | none => .error .keyError
    | some sb => conflictingPoolItems m coins (items.set sb.spendBundleName sb)

/-- `get_min_fee_increase`. -/
def getMinFeeIncrease : ℕ := 10000000

/-- `can_replace`. -/
def canReplace (conflictingItems : List MempoolItem) (removalNames : List Bytes32) (fees : ℕ)
    (feesPerCost : K) : Except PyError Bool :=
  let conflictingFees := (conflictingItems.map MempoolItem.fee).sum
  let conflictingCost := (conflictingItems.map MempoolItem.cost).sum
  if ∃ item ∈ conflictingItems, ∃ coin ∈ item.removals, T.coinName coin ∉ removalNames then .ok false
  else if conflictingCost = 0 then .error .zeroDivisionError
  else if feesPerCost ≤ T.feePerCost conflictingFees conflictingCost then .ok false
  else .ok (¬(fees : ℤ) - conflictingFees < getMinFeeIncrease)

/-- The items that a new one replaces. -/
def replacedItems (m : Mempool K) (item : MempoolItem) (records : List (Bytes32 × CoinRecord)) :
    Except AddStop (List MempoolItem) :=
  match checkRemovals T m (records.map Prod.snd) [] with
  | (none, _) => .ok []
  | (some .mempoolConflict, conflicts) => do
    let items ← stopRaising (conflictingPoolItems T m conflicts .empty)
    let replaces ← stopRaising (canReplace T items.values (records.map Prod.fst) item.fee
      (item.feePerCost T))
    if replaces then return items.values else throw (.pending item Err.mempoolConflict.value)
  | (some err, _) => .error (.failed err.value)

/-- The revealed puzzles match the puzzle hashes. -/
def checkSpendPuzzles (records : Dict Bytes32 CoinRecord) : List Spend → Except AddStop Unit
  | [] => .ok ()
  | spend :: spends =>
    match records.lookup spend.coinId with
    | none => .error (.raised .keyError)
    | some record => do
      let _ ← failIf (spend.puzzleHash ≠ record.coin.puzzleHash) .wrongPuzzleHash
      checkSpendPuzzles records spends

/-- The height of the last transaction block at the peak. -/
def chialispHeight (peak : BlockRecord) : ℕ :=
  if ¬peak.isTransactionBlock then peak.prevTransactionBlockHeight else peak.height

/-- The time locks. A bundle that is only too early by height is kept for later. -/
def checkBundleLocks (peak : BlockRecord) (item : MempoolItem) (conds : SpendBundleConditions)
    (records : Dict Bytes32 CoinRecord) : Except AddStop Unit := do
  let timestamp ← stopRaising (pySome peak.timestamp)
  match mempoolCheckTimeLocks records conds (chialispHeight peak) timestamp with
  | .ok _ => return ()
  | .error (.raised e) => throw (.raised e)
  | .error (.invalid code) =>
    if code = Err.assertHeightAbsoluteFailed.value ∨ code = Err.assertHeightRelativeFailed.value then
      throw (.pending item code)
    else throw (.failed code)

/-- All of `add_spendbundle` that does not change the mempool: the new item and the items it replaces. -/
def admission (coinStore : CoinTable) (self : MempoolManager K) (newSpend : SpendBundle)
    (npcResult : NPCResult) (spendName : Bytes32) (program : Option SerializedProgram) :
    Except AddStop (MempoolItem × List MempoolItem) :=
  match self.peak with
  | none => .error (.failed Err.mempoolNotInitialized.value)
  | some peak => do
    let conds ← checkNpcResult T constants newSpend npcResult
    let _ ← (if (self.mempool.spends.get? spendName).isSome then throw (.already npcResult.cost)
      else pure ())
    let additionsDict := Dict.ofItems ((additionsForNpc npcResult).map fun c => (T.coinName c, c))
    let records ← removalRecords coinStore peak additionsDict (conds.spends.map Spend.coinId)
    let item ← makeItem newSpend npcResult spendName (program.getD (T.simpleSolutionGenerator newSpend))
      conds.reserveFee records
    let _ ← checkFeeRate T self.mempool item
    let replaced ← replacedItems T self.mempool item records
    let _ ← checkSpendPuzzles (Dict.ofItems records) conds.spends
    let _ ← checkBundleLocks peak item conds (Dict.ofItems records)
    return (item, replaced)

/-! ## The methods -/

/-- A method of the mempool. -/
def inPool {α : Type} (x : EStateM PyError (Mempool K) α) : EStateM MempoolFailure (MempoolManager K) α :=
  zoom mempool (fun m self => { self with mempool := m }) .poolRaised x

/-- The conflicting items are removed and the new one is added. -/
def replaceItems (item : MempoolItem) (replaced : List MempoolItem) :
    EStateM MempoolFailure (MempoolManager K) Unit := do
  forEach replaced fun i => inPool (Mempool.removeFromPool T i)
  inPool (Mempool.addToPool T item)

/-- `add_spendbundle`: the cost, the status and the number of the error. -/
def addSpendbundle (coinStore : CoinTable) (newSpend : SpendBundle) (npcResult : NPCResult)
    (spendName : Bytes32) (program : Option SerializedProgram) :
    EStateM MempoolFailure (MempoolManager K) (Option ℕ × MempoolInclusionStatus × Option ℕ) := do
  let self ← get
  match admission T constants coinStore self newSpend npcResult spendName program with
  | .error (.raised e) => throw (.raised e)
  | .error (.failed code) => return (none, .failed, some code)
  | .error (.already cost) => return (some cost, .success, none)
  | .error (.pending item code) => do
    zoom potentialCache (fun c self => { self with potentialCache := c }) .raised
      (PendingTxCache.add item)
    return (some item.cost, .pending, some code)
  | .ok (item, replaced) => do
    replaceItems T item replaced
    return (some item.cost, .success, none)

/-- `remove_seen`. -/
def removeSeen (bundleHash : Bytes32) : EStateM MempoolFailure (MempoolManager K) Unit :=
  modify fun self => { self with seenBundleHashes := self.seenBundleHashes.erase bundleHash }

/-- A round of the optimised branch of `new_peak`: the item that spends the coin is removed. -/
def kickSpent (spend : Spend) : EStateM MempoolFailure (MempoolManager K) Unit := do
  let self ← get
  match self.mempool.removals.get? spend.coinId with
  | none => return ()
  | some item => do
    inPool (Mempool.removeFromPool T item)
    removeSeen item.spendBundleName

/-- The optimised branch of `new_peak`. -/
def kickSpends (lastNpcResult : NPCResult) : EStateM MempoolFailure (MempoolManager K) Unit :=
  forEach ((lastNpcResult.conds.map SpendBundleConditions.spends).getD []) (kickSpent T)

/-- A round of the other branch of `new_peak`: an item of the old mempool is added again. -/
def readdItem (coinStore : CoinTable) (item : MempoolItem) :
    EStateM MempoolFailure (MempoolManager K) Unit := do
  let result ← addSpendbundle T constants coinStore item.spendBundle item.npcResult item.spendBundleName
    (some item.program)
  if result.2.1 ≠ .success then removeSeen item.spendBundleName

/-- The other branch of `new_peak`: the mempool is made again. -/
def readdItems (coinStore : CoinTable) : EStateM MempoolFailure (MempoolManager K) Unit := do
  let self ← get
  modify fun self => { self with mempool := .new constants.mempoolMaxTotalCost }
  forEach self.mempool.spends.values (readdItem T constants coinStore)

/-- The transactions that were pending are tried again; those that are added are returned. -/
def retryPending (coinStore : CoinTable) : List MempoolItem →
    EStateM MempoolFailure (MempoolManager K) (List (SpendBundle × NPCResult × Bytes32))
  | [] => pure []
  | item :: items => do
    let result ← addSpendbundle T constants coinStore item.spendBundle item.npcResult
      item.spendBundleName (some item.program)
    let txs ← retryPending coinStore items
    return (if result.2.1 = .success then
      (item.spendBundle, item.npcResult, item.spendBundleName) :: txs else txs)

/-- Whether `new_peak` only kicks out items that spend a coin spent by the new peak. -/
def useOptimization (self : MempoolManager K) (newPeak : BlockRecord) : Bool :=
  match self.peak with
  | none => false
  | some peak => decide (newPeak.prevTransactionBlockHash = some peak.headerHash)

/-- The mempool for the new peak, before the pending transactions are tried. -/
def updateMempool (coinStore : CoinTable) (useOptimization : Bool) (lastNpcResult : Option NPCResult) :
    EStateM MempoolFailure (MempoolManager K) Unit :=
  match useOptimization, lastNpcResult with
  | true, some npcResult => kickSpends T npcResult
  | _, _ => readdItems T constants coinStore

/-- `new_peak` from where it takes over a peak, which is a transaction block. -/
def followPeak (coinStore : CoinTable) (newPeak : BlockRecord) (lastNpcResult : Option NPCResult) :
    EStateM MempoolFailure (MempoolManager K) (List (SpendBundle × NPCResult × Bytes32)) := do
  let self ← get
  modify fun self => { self with peak := some newPeak }
  updateMempool T constants coinStore (self.useOptimization newPeak) lastNpcResult
  let self ← get
  modify fun self => { self with potentialCache := self.potentialCache.drained }
  let txs ← retryPending T constants coinStore self.potentialCache.txs.values
  -- the message that is logged has the smallest fee rate in it
  zoom mempool (fun m self => { self with mempool := m }) .raised fun m =>
    match m.getMinFeeRate T 5000000 with
    | .ok _ => .ok () m
    | .error e => .error e m
  return txs

/-- `new_peak`. -/
def newPeak (coinStore : CoinTable) (newPeak : Option BlockRecord) (lastNpcResult : Option NPCResult) :
    EStateM MempoolFailure (MempoolManager K) (List (SpendBundle × NPCResult × Bytes32)) := do
  let self ← get
  match newPeak with
  | none => return []
  | some newPeak =>
    if newPeak.isTransactionBlock = false ∨ self.peak = some newPeak then return []
    else followPeak T constants coinStore newPeak lastNpcResult

/-! ## The bundle of a block -/

/-- The items that fit in a block, from the first one on. -/
def takeFitting (costSum feeSum : ℕ) : List MempoolItem → List MempoolItem
  | [] => []
  | item :: items =>
    if 2 * (item.cost + costSum) ≤ constants.MAX_BLOCK_COST_CLVM ∧
        item.fee + feeSum ≤ constants.MAX_COIN_AMOUNT then
      item :: takeFitting (costSum + item.cost) (feeSum + item.fee) items
    else []

/-- The items of the bundle of a block, from the highest fee per cost on. -/
def blockItems (self : MempoolManager K) : List MempoolItem :=
  takeFitting constants 0 0 (self.mempool.sortedSpends.values.reverse.flatMap OrderedDict.values)

/-- `SpendBundle.aggregate`. -/
def aggregate (bundles : List SpendBundle) : SpendBundle :=
  ⟨bundles.flatMap SpendBundle.coinSpends,
    T.aggregateSignatures (bundles.map SpendBundle.aggregatedSignature)⟩

/-- `create_bundle_from_mempool`: the bundle, its additions and its removals. -/
def createBundleFromMempool (self : MempoolManager K) (lastTbHeaderHash : Bytes32) :
    Option (SpendBundle × List Coin × List Coin) :=
  match self.peak with
  | none => none
  | some peak =>
    if peak.headerHash ≠ lastTbHeaderHash then none
    else
      let items := self.blockItems constants
      if items.length > 0 then
        some (aggregate T (items.map MempoolItem.spendBundle), items.flatMap MempoolItem.additions,
          items.flatMap MempoolItem.removals)
      else none

end Manager

end MempoolManager

end Chives
