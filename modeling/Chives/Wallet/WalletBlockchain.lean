import Chives.Consensus.BlockHeaderValidation
import Chives.Types.WeightProof

set_option autoImplicit false

/-!
# The blockchain of the wallet

`WalletBlockchain` of `wallet/wallet_blockchain.py`: headers are validated and kept as records, of which old ones are
removed; the height map has the hashes of the main chain.

## Main definitions

* `WalletBlockchain` — the state.
* `WalletBlockchain.findForkPointInChain` — `find_fork_point_in_chain` for a record and a header.
* `WalletBlockchain.receiveBlock`, `WalletBlockchain.newWeightProof`,
  `WalletBlockchain.setFinishedSyncUpTo`, `WalletBlockchain.cleanBlockRecords` — the methods.

## Design

A method that raises an exception leaves what it has changed so far, so it returns the state together with the outcome;
the outcome says where an exception was raised. The records of a weight proof are those that its validation has given.
The peak in the key-value store is the one in memory, and the weight proof in it is read when the wallet starts, so
neither is part of the state.
-/

namespace Chives

open ExceptRun

/-- `header_hash` of a header. -/
def HeaderBlock.headerHash (H : Hashes) (hb : HeaderBlock) : Bytes32 := H.foliage hb.foliage

/-- `block_to_block_record` for a header, with the iterations of its sub-slot given. -/
def headerToBlockRecord (H : Hashes) (constants : ConsensusConstants) (blocks : BlockRecords) (requiredIters : ℕ)
    (hb : HeaderBlock) (subSlotIters : ℕ) : Except PyError BlockRecord := do
  let prevB := blocks.get hb.prevHeaderHash
  let _ ← pyAssert (hb.height > 0 → prevB.isSome)
  let overflow ← isOverflowBlock constants hb.rewardChainBlock.signagePointIndex
  let deficit ← calculateDeficit constants hb.height prevB overflow hb.finishedSubSlots.length
  let ses ← includedSummary H constants blocks hb.asFullBlock prevB
  let prevTransactionBlockHeight ← prevTransactionBlockHeightFrom blocks blocks.fuel prevB
  return headerBlockToSubBlockRecord H constants requiredIters hb.asFullBlock subSlotIters overflow deficit
    prevTransactionBlockHeight ses

/-- The state of a `WalletBlockchain`; `_sub_slot_iters` and `_difficulty` may not be set. -/
structure WalletBlockchain where
  peak : Option HeaderBlock
  heightToHash : ℕ → Option Bytes32
  blockRecords : BlockRecords
  latestTimestamp : ℕ
  subSlotIters : Option ℕ
  difficulty : Option ℕ
  finishedSyncUpTo : ℕ

namespace WalletBlockchain

/-- `ReceiveBlockResult`, with the error of an invalid block. -/
inductive ReceiveResult
  | newPeak
  | addedAsOrphan
  | invalidBlock (e : Err)
  | alreadyHaveBlock
  | disconnectedBlock
  deriving DecidableEq

/-- An exception: `_sub_slot_iters` is not set, or it is raised by the checks, in `find_fork_point_in_chain`, in
`_rollback_to_height`, or when the peak is changed. -/
inductive Failure
  | unset
  | checking (e : PyError)
  | findForkPoint (e : PyError)
  | rollback (e : PyError)
  | updating (e : PyError)
  deriving DecidableEq

/-- The state that `create` gives: nothing is in memory but the peak. -/
def created (peak : Option HeaderBlock) (subSlotIters difficulty : Option ℕ) (finishedSyncUpTo : ℕ) :
    WalletBlockchain :=
  ⟨peak, fun _ => none, ∅, 0, subSlotIters, difficulty, finishedSyncUpTo⟩

/-! ## The fork point -/

/-- What `find_fork_point_in_chain` takes: a record or a header. -/
inductive ChainBlock
  | record (r : BlockRecord)
  | header (hb : HeaderBlock)
  deriving DecidableEq

namespace ChainBlock

/-- `header_hash`. -/
def headerHash (H : Hashes) : ChainBlock → Bytes32
  | record r => r.headerHash
  | header hb => hb.headerHash H

/-- `prev_hash`. -/
def prevHash : ChainBlock → Bytes32
  | record r => r.prevHash
  | header hb => hb.prevHeaderHash

/-- `height`. -/
def height : ChainBlock → ℕ
  | record r => r.height
  | header hb => hb.height

end ChainBlock

section Methods

variable (H : Hashes) (V : Verifiers) (constants : ConsensusConstants)

/-- `blocks.block_record(block.prev_hash)`. -/
def prevBlock (blocks : BlockRecords) (b : ChainBlock) : Except PyError ChainBlock :=
  (blocks.blockRecord b.prevHash).map .record

/-- The loop of `find_fork_point_in_chain`, with a bound on its rounds. -/
def forkPointFrom (blocks : BlockRecords) : ℕ → ChainBlock → ChainBlock → Except PyError ℤ
  | 0, _, _ => .error .divergence
  | fuel + 1, block1, block2 =>
    if block2.height > 0 ∨ block1.height > 0 then
      if block2.height > block1.height then do
        let block2 ← prevBlock blocks block2
        forkPointFrom blocks fuel block1 block2
      else if block1.height > block2.height then do
        let block1 ← prevBlock blocks block1
        forkPointFrom blocks fuel block1 block2
      else if block2.headerHash H = block1.headerHash H then .ok block2.height
      else do
        let block2 ← prevBlock blocks block2
        let block1 ← prevBlock blocks block1
        forkPointFrom blocks fuel block1 block2
    else if block2 ≠ block1 then .ok (-1)
    else .ok 0

/-- `find_fork_point_in_chain`. A loop with more rounds than there are pairs of records goes round in circles, and the
heights bound the rounds of every other one. -/
def findForkPointInChain (blocks : BlockRecords) (block1 block2 : ChainBlock) : Except PyError ℤ :=
  forkPointFrom H blocks ((blocks.fuel + 1) ^ 2 + block1.height + block2.height + 1) block1 block2

/-! ## The cache -/

/-- `contains_block`. -/
def containsBlock (t : WalletBlockchain) (hash : Bytes32) : Bool := (t.blockRecords.get hash).isSome

/-- `add_block_record`. -/
def addBlockRecord (t : WalletBlockchain) (r : BlockRecord) : WalletBlockchain :=
  { t with blockRecords := Dict.set t.blockRecords r.headerHash r }

/-- `CACHE_SIZE`. -/
def cacheSize : ℕ := constants.SUB_EPOCH_BLOCKS * 3

/-- `height_limit` of `clean_block_records`. -/
def heightLimit (t : WalletBlockchain) : ℕ := t.finishedSyncUpTo - cacheSize constants

/-- The records that `clean_block_records` removes. -/
def toRemove (t : WalletBlockchain) : List Bytes32 :=
  ((Dict.items t.blockRecords).filter fun e => e.2.height < t.heightLimit constants).map Prod.fst

/-- `clean_block_records`. -/
def cleanBlockRecords (t : WalletBlockchain) : WalletBlockchain :=
  if t.blockRecords.keys.length < cacheSize constants then t
  else { t with
    blockRecords := (t.toRemove constants).foldl (fun records hash => records.erase hash) t.blockRecords }

/-- `set_finished_sync_up_to`. -/
def setFinishedSyncUpTo (t : WalletBlockchain) (height : ℤ) (inTransaction inRollback : Bool) : WalletBlockchain :=
  if (inRollback = true ∧ 0 ≤ height) ∨ (t.finishedSyncUpTo : ℤ) < height then
    if inTransaction then { t with finishedSyncUpTo := height.toNat }
    else cleanBlockRecords constants { t with finishedSyncUpTo := height.toNat }
  else t

/-! ## The peak -/

/-- `get_peak_height`. -/
def getPeakHeight (t : WalletBlockchain) : ℕ :=
  match t.peak with
  | none => 0
  | some peak => peak.height

/-- `set_peak_block`. -/
def setPeakBlock (t : WalletBlockchain) (hb : HeaderBlock) (timestamp : Option ℕ) : WalletBlockchain :=
  { t with
    peak := some hb
    latestTimestamp := (timestamp.or (hb.foliageTransactionBlock.map FoliageTransactionBlock.timestamp)).getD
      t.latestTimestamp }

/-- `del self._height_to_hash[h]` for some heights, up to the first one that is missing. -/
def deleteHeights (heightToHash : ℕ → Option Bytes32) : List ℕ → (ℕ → Option Bytes32) × Except PyError Unit
  | [] => (heightToHash, .ok ())
  | h :: heights =>
    if (heightToHash h).isSome then deleteHeights (Function.update heightToHash h none) heights
    else (heightToHash, .error .keyError)

/-- `_rollback_to_height`. -/
def rollbackToHeight (heightToHash : ℕ → Option Bytes32) (peak : HeaderBlock) (height : ℤ) :
    (ℕ → Option Bytes32) × Except PyError Unit :=
  deleteHeights heightToHash ((List.range (peak.height + 1)).filter fun h => height < (h : ℤ))

/-- The loop that sets the heights of the new chain, from a record down to the fork, with the latest timestamp. -/
def setHeights (blocks : BlockRecords) (forkHeight : ℤ) :
    ℕ → BlockRecord → (ℕ → Option Bytes32) → ℕ → (ℕ → Option Bytes32) × ℕ × Except PyError Unit
  | 0, _, heightToHash, latestTimestamp => (heightToHash, latestTimestamp, .error .divergence)
  | fuel + 1, curr, heightToHash, latestTimestamp =>
    if forkHeight < curr.height then
      let heightToHash := Function.update heightToHash curr.height (some curr.headerHash)
      let latestTimestamp := max latestTimestamp (curr.timestamp.getD 0)
      if curr.height = 0 then (heightToHash, latestTimestamp, .ok ())
      else
        match blocks.blockRecord curr.prevHash with
        | .error e => (heightToHash, latestTimestamp, .error e)
        | .ok prev => setHeights blocks forkHeight fuel prev heightToHash latestTimestamp
    else (heightToHash, latestTimestamp, .ok ())

/-- The fork of a new block and the peak. -/
def forkHeight (t : WalletBlockchain) (r : BlockRecord) (peak : HeaderBlock) : Except PyError ℤ :=
  if r.prevHash = peak.headerHash H then .ok peak.height
  else findForkPointInChain H t.blockRecords (.record r) (.header peak)

/-- `uint64(block_record.weight - self.block_record(block_record.prev_hash).weight)`. -/
def difficultyOf (t : WalletBlockchain) (r : BlockRecord) : Except PyError ℕ := do
  let prev ← t.blockRecords.blockRecord r.prevHash
  uint64 ((r.weight : ℤ) - prev.weight)

/-- The end of `receive_block` for a block that is heavier than the peak. -/
def updatePeak (t : WalletBlockchain) (hb : HeaderBlock) (r : BlockRecord) (peak : HeaderBlock) :
    WalletBlockchain × Except Failure ReceiveResult :=
  match t.forkHeight H r peak with
  | .error e => (t, .error (.findForkPoint e))
  | .ok fork =>
    match rollbackToHeight t.heightToHash peak fork with
    | (rolledBack, .error e) => ({ t with heightToHash := rolledBack }, .error (.rollback e))
    | (rolledBack, .ok _) =>
      match setHeights t.blockRecords fork (t.blockRecords.fuel + r.height) r rolledBack t.latestTimestamp with
      | (heightToHash, _, .error e) => ({ t with heightToHash := heightToHash }, .error (.updating e))
      | (heightToHash, latestTimestamp, .ok _) =>
        match t.difficultyOf r with
        | .error e => ({ t with heightToHash := heightToHash, subSlotIters := some r.subSlotIters },
            .error (.updating e))
        | .ok difficulty =>
          (cleanBlockRecords constants (setPeakBlock { t with
            heightToHash := heightToHash, subSlotIters := some r.subSlotIters, difficulty := some difficulty } hb
            (some latestTimestamp)), .ok .newPeak)

/-! ## Blocks -/

/-- The iterations of a sub-slot and the difficulty that a header is validated with. -/
def expectedIters (t : WalletBlockchain) (hb : HeaderBlock) : Except Failure (ℕ × ℕ) :=
  match hb.finishedSubSlots.head?.bind fun slot => slot.challengeChain.newSubSlotIters with
  | some subSlotIters =>
    match hb.finishedSubSlots.head?.bind fun slot => slot.challengeChain.newDifficulty with
    | some difficulty => .ok (subSlotIters, difficulty)
    | none => .error (.checking .assertionError)
  | none =>
    match t.subSlotIters, t.difficulty with
    | some subSlotIters, some difficulty => .ok (subSlotIters, difficulty)
    | _, _ => .error .unset

/-- The checks of a header, and its record if it is valid. -/
def checkedRecord (t : WalletBlockchain) (hb : HeaderBlock) (now : ℕ) : Except Failure (Except Err BlockRecord) := do
  let (subSlotIters, difficulty) ← t.expectedIters hb
  match validateFinishedHeaderBlock H V constants t.blockRecords hb false difficulty subSlotIters false now with
  | .error (.invalid e) => return .error e
  | .error (.raised e) => throw (.checking e)
  | .ok requiredIters =>
    match headerToBlockRecord H constants t.blockRecords requiredIters hb subSlotIters with
    | .error e => throw (.checking e)
    | .ok r => return .ok r

/-- What `receive_block` does with the record of a valid block. -/
def addChecked (t : WalletBlockchain) (hb : HeaderBlock) (r : BlockRecord) :
    WalletBlockchain × Except Failure ReceiveResult :=
  match t.peak with
  | none => (setPeakBlock { t.addBlockRecord r with
      heightToHash := Function.update t.heightToHash r.height (some r.headerHash) } hb
      (if r.isTransactionBlock then r.timestamp else none), .ok .newPeak)
  | some peak =>
    if peak.weight < r.weight then updatePeak H constants (t.addBlockRecord r) hb r peak
    else (t.addBlockRecord r, .ok .addedAsOrphan)

/-- `receive_block`; `now` is the time at which the header is validated. -/
def receiveBlock (t : WalletBlockchain) (hb : HeaderBlock) (now : ℕ) :
    WalletBlockchain × Except Failure ReceiveResult :=
  if t.containsBlock (hb.headerHash H) then (t, .ok .alreadyHaveBlock)
  else if ¬ t.containsBlock hb.prevHeaderHash ∧ hb.height > 0 then (t, .ok .disconnectedBlock)
  else
    match t.checkedRecord H V constants hb now with
    | .error e => (t, .error e)
    | .ok (.error e) => (t, .ok (.invalidBlock e))
    | .ok (.ok r) => addChecked H constants t hb r

/-! ## Weight proofs -/

/-- The loop of `new_weight_proof` over the records. -/
def addRecord (t : WalletBlockchain) (r : BlockRecord) : WalletBlockchain :=
  { t.addBlockRecord r with heightToHash := Function.update t.heightToHash r.height (some r.headerHash) }

/-- `new_weight_proof`, for a proof whose chain ends with `tip`. -/
def newWeightProof (t : WalletBlockchain) (tip : HeaderBlock) (records : List BlockRecord) :
    WalletBlockchain × Except Failure Unit :=
  if ∃ peak ∈ t.peak, tip.weight ≤ peak.weight then (t, .ok ())
  else
    match records.reverse with
    | last :: beforeLast :: _ =>
      match uint64 ((last.weight : ℤ) - beforeLast.weight) with
      | .error e => ({ records.foldl addRecord t with subSlotIters := some last.subSlotIters }, .error (.updating e))
      | .ok difficulty =>
        (cleanBlockRecords constants (setPeakBlock { records.foldl addRecord t with
          subSlotIters := some last.subSlotIters, difficulty := some difficulty } tip
          (some (records.foldl (fun latest r => max latest (r.timestamp.getD 0)) t.latestTimestamp))), .ok ())
    | _ => (t, .error (.checking .assertionError))

end Methods

end WalletBlockchain

end Chives
