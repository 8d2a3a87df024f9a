import Chives.Consensus.BlockBodyValidation
import Chives.Consensus.MultiprocessValidation

set_option autoImplicit false

/-!
# The blockchain

`Blockchain` of `consensus/blockchain.py`: the state, `receive_block` with `_reconsider_peak`, and the
lookup of generators.

## Main definitions

* `Blockchain` — the state: block records, height map and peak height in memory, coins and
  blocks in the database, and the cache files of the height map.
* `Blockchain.getBlockGenerator`, `Blockchain.getTxRemovalsAndAdditions` — the
  transactions of a block.
* `Blockchain.reconsiderPeak`, `Blockchain.receiveBlock` — adding a block.

## Design

`receive_block` makes its changes of the database in one transaction, which is rolled back when an
exception is raised, and then changes its memory, which is not rolled back. The model returns the
state that is left together with the outcome.
-/

namespace Chives

open ExceptRun

/-- What the blockchain takes from elsewhere, and the version of its database. -/
structure BlockchainTools extends BodyTools where
  dbVersion : DbVersion

/-- The state of a `Blockchain`. -/
structure Blockchain where
  blockRecords : BlockRecords
  heightMap : BlockHeightMap
  peakHeight : Option ℕ
  coinStore : CoinTable
  blockStore : BlockStore
  files : CacheFiles

/-- `StateChangeSummary`. -/
structure StateChangeSummary where
  peak : BlockRecord
  forkHeight : ℕ
  rolledBackRecords : List CoinRecord
  newNpcResults : List NPCResult
  newRewards : List Coin

/-- `ReceiveBlockResult`, with the error code of an invalid block and the summary of a new peak. -/
inductive ReceiveBlockResult
  | newPeak (summary : StateChangeSummary)
  | addedAsOrphan
  | invalidBlock (code : ℕ)
  | alreadyHaveBlock
  | disconnectedBlock

namespace Blockchain

/-- The state that `create` gives on an empty database. -/
def initial (files : CacheFiles) : Blockchain :=
  ⟨∅, BlockHeightMap.empty, none, [], ⟨[], none⟩, files⟩

section Lookups

variable (self : Blockchain)

/-- `height_to_hash`. The array of hashes has no part of a hash at its end, so `get_hash` does not
fail at a height that it contains. -/
def heightToHash (height : ℕ) : Option Bytes32 :=
  if self.heightMap.containsHeight height then (self.heightMap.getHash height).toOption else none

/-- `height_to_block_record`. -/
def heightToBlockRecord (height : ℕ) : Except PyError BlockRecord :=
  match self.heightToHash height with
  | none => .error .valueError
  | some hash => self.blockRecords.blockRecord hash

/-- `get_peak`. -/
def getPeak : Except PyError (Option BlockRecord) :=
  match self.peakHeight with
  | none => .ok none
  | some height => (self.heightToBlockRecord height).map some

/-- What the difficulty adjustment reads. -/
def interface : BlockchainInterface := ⟨self.blockRecords, self.heightToHash⟩

end Lookups

/-! ## Generators -/

section Generators

variable (version : DbVersion) (self : Blockchain)

/-- Whether the parent of a block is on the main chain. -/
def prevOnMainChain (block : FullBlock) : Bool :=
  match self.blockRecords.get block.prevHeaderHash with
  | some prev => decide (self.heightToHash prev.height = some block.prevHeaderHash)
  | none => false

/-- The generator of the block of the main chain at a height, as version 1 looks it up. -/
def generatorAtHeight (refHeight : ℕ) : Except PyError SerializedProgram := do
  let hash ← pySome (self.heightToHash refHeight)
  match self.blockStore.getGenerator hash with
  | some generator => return generator
  | none => throw .valueError

/-- The referenced generators of a block whose parent is on the main chain. -/
def generatorsOnMainChain (refs : List ℕ) : Except PyError (List SerializedProgram) :=
  match version with
  | .v2 => self.blockStore.getGeneratorsAt refs
  | .v1 => refs.mapM self.generatorAtHeight

/-- The blocks before `curr` among the additional blocks, and the hash of the parent of the first of
them: `while curr.prev_header_hash in additional_blocks: …`. -/
def additionalChain (additionalBlocks : Dict Bytes32 FullBlock) :
    ℕ → FullBlock → Except PyError (List FullBlock × Bytes32)
  | 0, _ => .error .divergence
  | fuel + 1, curr =>
    match additionalBlocks.lookup curr.prevHeaderHash with
    | none => .ok ([], curr.prevHeaderHash)
    | some prev => do
      let _ ← pyAssert (curr.height = prev.height + 1)
      let (rest, hash) ← additionalChain additionalBlocks fuel prev
      return (prev :: rest, hash)

/-- The stored blocks from the given hash back to the fork with the main chain. -/
def storedReorgChain (hash : Bytes32) : Except PyError (List FullBlock) := do
  let peak ← self.getPeak
  match self.blockRecords.get hash, peak with
  | some _, some peak => do
    let prevRecord ← pySome (self.blockStore.getBlockRecord hash)
    let prevBlock ← pySome (self.blockStore.getFullBlock hash)
    let fork ← findForkPointInChain self.blockRecords peak prevRecord
    blocksBack self.blockStore fork (storeFuel self.blockStore) prevBlock
  | _, _ => return []

/-- The generator of a block, which must have one. -/
def generatorOf (b : FullBlock) : Except PyError SerializedProgram :=
  match b.transactionsGenerator with
  | some generator => .ok generator
  | none => .error .valueError

/-- The generator at a height on the chain of a block in a fork: from the blocks of the fork, else
from the main chain. -/
def generatorInReorg (reorgChain additional : Dict ℕ FullBlock) (refHeight : ℕ) :
    Except PyError SerializedProgram :=
  match reorgChain.lookup refHeight, additional.lookup refHeight, self.heightToHash refHeight with
  | some b, _, _ => generatorOf b
  | none, some b, _ => generatorOf b
  | none, none, none => .error .valueError
  | none, none, some hash =>
    match self.blockStore.getGenerator hash with
    | some generator => .ok generator
    | none => .error .valueError

/-- The referenced generators of a block whose parent is not on the main chain. -/
def generatorsInReorg (block : FullBlock) (additionalBlocks : Dict Bytes32 FullBlock) :
    Except PyError (List SerializedProgram) := do
  let (additional, hash) ←
    additionalChain additionalBlocks (additionalBlocks.keys.length + 1) block
  let stored ← self.storedReorgChain hash
  let byHeight := fun bs : List FullBlock => Dict.ofItems (bs.map fun b => (b.height, b))
  block.transactionsGeneratorRefList.mapM
    (self.generatorInReorg (byHeight (additional ++ stored)) (byHeight additional))

/-- The referenced generators of a block. -/
def referencedGenerators (block : FullBlock) (additionalBlocks : Dict Bytes32 FullBlock) :
    Except PyError (List SerializedProgram) :=
  if self.prevOnMainChain block then
    self.generatorsOnMainChain version block.transactionsGeneratorRefList
  else self.generatorsInReorg block additionalBlocks

/-- `get_block_generator`. -/
def getBlockGenerator (block : FullBlock) (additionalBlocks : Dict Bytes32 FullBlock) :
    Except PyError (Option BlockGenerator) :=
  match block.transactionsGenerator with
  | none => do
    let _ ← pyAssert (block.transactionsGeneratorRefList = [])
    return none
  | some program =>
    if block.transactionsGeneratorRefList = [] then .ok (some ⟨program, [], []⟩)
    else do
      let result ← self.referencedGenerators version block additionalBlocks
      let _ ← pyAssert (result.length = block.transactionsGeneratorRefList.length)
      return some ⟨program, result, []⟩

end Generators

section Receive

variable (T : BlockchainTools) (constants : ConsensusConstants) (self : Blockchain)

/-- The result of the generator of a block: as given, else by running it. -/
def npcResultOf (block : FullBlock) (npcResult : Option NPCResult) : Except PyError NPCResult :=
  match npcResult with
  | some npc => .ok npc
  | none => do
    let generator ← pySome (← self.getBlockGenerator T.dbVersion block ∅)
    return T.runGenerator generator constants.MAX_BLOCK_COST_CLVM block.height

/-- `get_tx_removals_and_additions`. -/
def getTxRemovalsAndAdditions (block : FullBlock) (npcResult : Option NPCResult) :
    Except PyError (List Bytes32 × List Coin × Option NPCResult) :=
  if ¬block.isTransactionBlock ∨ block.transactionsGenerator.isNone then .ok ([], [], none)
  else do
    let npc ← self.npcResultOf T constants block npcResult
    let (removals, additions) := txRemovalsAndAdditions npc.conds
    return (removals, additions, some npc)

/-! ## The peak -/

/-- The walk back from the new peak to the fork, which collects the blocks that will be in the
chain, last first. -/
def blocksToAddFrom (forkHeight : ℤ) : ℕ → Bytes32 → Except PyError (List (FullBlock × BlockRecord))
  | 0, _ => .error .divergence
  | fuel + 1, curr =>
    if forkHeight < 0 ∨ self.heightToHash forkHeight.toNat ≠ some curr then do
      let block ← pySome (self.blockStore.getFullBlock curr)
      let rec ← pySome (self.blockStore.getBlockRecord curr)
      if block.height = 0 then return [(block, rec)]
      else
        let rest ← blocksToAddFrom forkHeight fuel rec.prevHash
        return (block, rec) :: rest
    else .ok []

/-- What the application of the new blocks has done so far. -/
structure Applied where
  coinStore : CoinTable
  npcResults : List NPCResult
  rewardCoins : List Coin

/-- Apply a block that is new in the chain to the coin store, with the result of its generator if it
is known. -/
def applyBlock (block : FullBlock) (npcResult : Option NPCResult) (acc : Applied) :
    Except PyError Applied :=
  if block.isTransactionBlock then do
    let (txRemovals, txAdditions, npcRes) ←
      self.getTxRemovalsAndAdditions T constants block npcResult
    let ftb ← pySome block.foliageTransactionBlock
    let coins ← acc.coinStore.newBlock T.H block.height ftb.timestamp block.getIncludedRewardCoins
      txAdditions txRemovals
    return ⟨coins, acc.npcResults ++ npcRes.toList, acc.rewardCoins ++ block.getIncludedRewardCoins⟩
  else .ok acc

/-- Apply the blocks that are new in the chain, in order. Only the result of the new peak's generator
is known. -/
def applyBlocks (newHash : Bytes32) (npcResult : Option NPCResult) :
    List (FullBlock × BlockRecord) → Applied → Except PyError Applied
  | [], acc => .ok acc
  | (block, rec) :: rest, acc => do
    let acc ← self.applyBlock T constants block
      (if rec.headerHash = newHash then npcResult else none) acc
    applyBlocks newHash npcResult rest acc

/-- The coins of the first genesis block. -/
def coinsOfGenesis (block : FullBlock) (npcResult : Option NPCResult) : Except PyError CoinTable :=
  let (txRemovals, txAdditions) := txRemovalsAndAdditions (npcResult.bind NPCResult.conds)
  match block.foliageTransactionBlock with
  | some ftb => self.coinStore.newBlock T.H block.height ftb.timestamp block.getIncludedRewardCoins
      txAdditions txRemovals
  | none => .ok self.coinStore

/-- `_reconsider_peak` for the first genesis block. -/
def setGenesis (rec : BlockRecord) (npcResult : Option NPCResult) :
    Except PyError (Blockchain × List BlockRecord × Option StateChangeSummary) := do
  let block ← pySome (self.blockStore.getFullBlock rec.headerHash)
  let coins ← self.coinsOfGenesis T block npcResult
  let store := (self.blockStore.setInChain T.dbVersion [rec.headerHash]).setPeak T.dbVersion
    rec.headerHash
  return ({ self with coinStore := coins, blockStore := store }, [rec],
    some ⟨rec, 0, [], [], block.getIncludedRewardCoins⟩)

/-- The height of the fork between the new block and the peak. -/
def forkHeightWithPeak (rec peak : BlockRecord) (forkPointWithPeak : Option ℤ) :
    Except PyError ℤ :=
  if rec.prevHash = peak.headerHash then .ok peak.height
  else match forkPointWithPeak with
    | some forkPoint => .ok forkPoint
    | none => findForkPointInChain self.blockRecords rec peak

/-- `_reconsider_peak` for a block that is heavier than the peak. -/
def setHeavierPeak (rec peak : BlockRecord) (forkPointWithPeak : Option ℤ)
    (npcResult : Option NPCResult) :
    Except PyError (Blockchain × List BlockRecord × Option StateChangeSummary) := do
  let forkHeight ← self.forkHeightWithPeak rec peak forkPointWithPeak
  let (coins, rolledBack) := if rec.prevHash ≠ peak.headerHash then
    self.coinStore.rollbackToBlock T.H forkHeight else (self.coinStore, ∅)
  let blocksToAdd ← self.blocksToAddFrom forkHeight (storeFuel self.blockStore) rec.headerHash
  let applied ← self.applyBlocks T constants rec.headerHash npcResult blocksToAdd.reverse
    ⟨coins, [], []⟩
  let recordsToAdd := blocksToAdd.reverse.map Prod.snd
  let store := ((self.blockStore.rollback T.dbVersion forkHeight).setInChain T.dbVersion
    (recordsToAdd.map BlockRecord.headerHash)).setPeak T.dbVersion rec.headerHash
  return ({ self with coinStore := applied.coinStore, blockStore := store }, recordsToAdd,
    some ⟨rec, forkHeight.toNat, rolledBack.items.map Prod.snd, applied.npcResults,
      applied.rewardCoins⟩)

/-- `_reconsider_peak`: the state with its database changed, the records that are new in the chain,
and the summary of the changes if there is a new peak. -/
def reconsiderPeak (rec : BlockRecord) (genesis : Bool) (forkPointWithPeak : Option ℤ)
    (npcResult : Option NPCResult) :
    Except PyError (Blockchain × List BlockRecord × Option StateChangeSummary) := do
  match ← self.getPeak, genesis with
  | none, true => self.setGenesis T rec npcResult
  | some _, true => return (self, [], none)
  | none, false => throw .assertionError
  | some peak, false =>
    if rec.weight ≤ peak.weight then return (self, [], none)
    else self.setHeavierPeak T constants rec peak forkPointWithPeak npcResult

/-! ## Receiving a block -/

/-- `update_height` for a list of records; the map as it is left, and the exception that stopped the
loop if there was one. -/
def updateHeights (map : BlockHeightMap) : List BlockRecord → BlockHeightMap × Option PyError
  | [] => (map, none)
  | rec :: rest =>
    match BlockStore.sesColumn rec >>= map.updateHeight rec.height rec.headerHash with
    | .ok map => updateHeights map rest
    | .error e => (map, some e)

/-- The changes of memory after those of the database, for the state `self'` with the changed
database. When one of them raises, the database is that of `self` again. -/
def updateMemory (self' : Blockchain) (rec : BlockRecord) (records : List BlockRecord)
    (summary : Option StateChangeSummary) : Blockchain × Except PyError ReceiveBlockResult :=
  let blockRecords := self.blockRecords.set rec.headerHash rec
  let rolledBack := match summary with
    | some change => self.heightMap.rollback change.forkHeight
    | none => self.heightMap
  match updateHeights rolledBack records with
  | (map, some e) => ({ self with blockRecords := blockRecords, heightMap := map }, .error e)
  | (map, none) =>
    let peakHeight := if summary.isSome then some rec.height else self.peakHeight
    let self := { self with
      blockRecords := blockRecords, heightMap := map, peakHeight := peakHeight }
    match map.maybeFlush self.files with
    | .error e => (self, .error e)
    | .ok (map, files) =>
      ({ self with
        heightMap := map, coinStore := self'.coinStore, blockStore := self'.blockStore,
        files := files },
      .ok (match summary with
        | some change => .newPeak change
        | none => .addedAsOrphan))

/-- The part of `receive_block` that stores an accepted block. -/
def storeBlock (block : FullBlock) (rec : BlockRecord) (npcResult : Option NPCResult)
    (forkPointWithPeak : Option ℤ) : Blockchain × Except PyError ReceiveBlockResult :=
  match (do
      let store ← self.blockStore.addFullBlock (block.headerHash T.H) block rec
      reconsiderPeak T constants { self with blockStore := store } rec (decide (block.height = 0))
        forkPointWithPeak npcResult) with
  | .error e => (self, .error e)
  | .ok (self', records, summary) => self.updateMemory self' rec records summary

/-- The body validation of `receive_block`: the error code of an invalid block, if any. -/
def checkBody (block : FullBlock) (preValidationResult : PreValidationResult)
    (forkPointWithPeak : Option ℤ) : Except PyError (Option ℕ) := do
  let peak ← self.getPeak
  let ctx : BodyContext := ⟨self.blockRecords, self.blockStore, self.coinStore, peak,
    fun b => self.getBlockGenerator T.dbVersion b ∅⟩
  match validateBlockBody T.toBodyTools constants ctx block block.height
      preValidationResult.npcResult forkPointWithPeak
      (!preValidationResult.validatedSignature) with
  | .ok () => return none
  | .error (.invalid code) => return some code
  | .error (.raised e) => throw e

/-- The tests of `receive_block` before the body is validated: the result if the block is not
added. -/
def rejectedEarly (block : FullBlock) (preValidationResult : PreValidationResult) :
    Option ReceiveBlockResult :=
  let genesis := decide (block.height = 0)
  if (self.blockRecords.get (block.headerHash T.H)).isSome then some .alreadyHaveBlock
  else if (self.blockRecords.get block.prevHeaderHash).isNone ∧ ¬genesis then
    some .disconnectedBlock
  else if ¬genesis ∧ ∀ prev, self.blockRecords.get block.prevHeaderHash = some prev →
      prev.height + 1 ≠ block.height then
    some (.invalidBlock Err.invalidHeight.value)
  else preValidationResult.error.map .invalidBlock

/-- The part of `receive_block` that decides whether a block is added: the result if it is not, else
its record. -/
def acceptBlock (block : FullBlock) (preValidationResult : PreValidationResult)
    (forkPointWithPeak : Option ℤ) : Except PyError (ReceiveBlockResult ⊕ BlockRecord) :=
  match self.rejectedEarly T block preValidationResult with
  | some result => .ok (.inl result)
  | none => do
    let requiredIters ← pySome preValidationResult.requiredIters
    match ← self.checkBody T constants block preValidationResult forkPointWithPeak with
    | some code => return .inl (.invalidBlock code)
    | none =>
      let rec ← blockToBlockRecord T.H constants self.interface requiredIters block
      return .inr rec

/-- `receive_block`: the state that is left, and the outcome. -/
def receiveBlock (block : FullBlock) (preValidationResult : PreValidationResult)
    (forkPointWithPeak : Option ℤ) : Blockchain × Except PyError ReceiveBlockResult :=
  match self.acceptBlock T constants block preValidationResult forkPointWithPeak with
  | .error e => (self, .error e)
  | .ok (.inl result) => (self, .ok result)
  | .ok (.inr rec) => self.storeBlock T constants block rec preValidationResult.npcResult forkPointWithPeak

end Receive

end Blockchain

end Chives
