import Chives.FullNode.BlockHeightMap
import Chives.Types.SummaryCodec

set_option autoImplicit false

/-!
# The block store

`BlockStore` of `full_node/block_store.py`: the stored blocks with their records, the flags of the
main chain and the peak.

## Main definitions

* `FullBlockRow`, `BlockStore` — the tables.
* `BlockStore.addFullBlock`, `BlockStore.rollback`, `BlockStore.setInChain`,
  `BlockStore.setPeak` — the methods that write.
* `BlockStore.getFullBlock`, `BlockStore.getBlockRecord`,
  `BlockStore.getGenerator`, `BlockStore.getGeneratorsAt` — the methods that read.
* `BlockStore.entry` — a stored block with its record.

## Main results

* `BlockStore.entry_addFullBlock`, `BlockStore.entry_rollback`,
  `BlockStore.entry_setInChain`, `BlockStore.entry_setPeak` — what is stored after each
  method.

## Design

In version 1 of the database a block and its record are in two tables with the same keys, hashes are
kept as text, the main chain is not marked and the peak is a flag of its record; here they are one
row with the columns of both versions. A block is kept as the object and not as its bytes. The
cache of recently used blocks answers what the table would and is left out.
-/

namespace Chives

open Table ExceptRun

/-- The version of the database. -/
inductive DbVersion
  | v1
  | v2
  deriving DecidableEq, Repr

/-- A stored block: the columns that the height map reads, `in_main_chain` of version 2, `is_peak` of
version 1, the block and its record. -/
structure FullBlockRow extends BlockRow where
  inMainChain : Bool
  isPeak : Bool
  block : FullBlock
  blockRecord : BlockRecord

/-- The tables of the block store. `currentPeak` is the table `current_peak` of version 2. -/
structure BlockStore where
  fullBlocks : List FullBlockRow
  currentPeak : Option Bytes32

namespace BlockStore

/-- The key of a row. -/
def hashOf (r : FullBlockRow) : Bytes32 := r.headerHash

variable (self : BlockStore)

/-- The row under a header hash. -/
def row (hash : Bytes32) : Option FullBlockRow := Table.find hashOf self.fullBlocks hash

/-- `bytes(block_record.sub_epoch_summary_included)`, if there is one. -/
def sesColumn (rec : BlockRecord) : Except PyError (Option Bytes) :=
  match rec.subEpochSummaryIncluded with
  | none => .ok none
  | some ses => (SubEpochSummary.toBytes ses).map some

/-- `add_full_block`: a block that is stored already is ignored. -/
def addFullBlock (headerHash : Bytes32) (block : FullBlock) (rec : BlockRecord) :
    Except PyError BlockStore := do
  let ses ← sesColumn rec
  let new : FullBlockRow :=
    ⟨⟨headerHash, block.prevHeaderHash, block.height, ses⟩, false, false, block, rec⟩
  return if (self.row headerHash).isSome then self
    else { self with fullBlocks := self.fullBlocks ++ [new] }

/-- `get_full_block`. -/
def getFullBlock (headerHash : Bytes32) : Option FullBlock :=
  (self.row headerHash).map FullBlockRow.block

/-- `get_block_record`. -/
def getBlockRecord (headerHash : Bytes32) : Option BlockRecord :=
  (self.row headerHash).map FullBlockRow.blockRecord

/-- `get_generator`. -/
def getGenerator (headerHash : Bytes32) : Option SerializedProgram :=
  (self.row headerHash).bind fun r => r.block.transactionsGenerator

/-- Add the generator of a row, which must have one, under its height. -/
def addGenerator (generators : Dict ℕ SerializedProgram) (r : FullBlockRow) :
    Except PyError (Dict ℕ SerializedProgram) :=
  match r.block.transactionsGenerator with
  | some generator => .ok (generators.set r.height generator)
  | none => .error .valueError

/-- The generators of the blocks of the main chain at the given heights, by height. -/
def mainChainGenerators (heights : List ℕ) : Except PyError (Dict ℕ SerializedProgram) :=
  (self.fullBlocks.filter fun r => r.inMainChain ∧ r.height ∈ heights).foldlM addGenerator ∅

/-- `get_generators_at`, in a version 2 database. -/
def getGeneratorsAt (heights : List ℕ) : Except PyError (List SerializedProgram) := do
  let generators ← self.mainChainGenerators heights
  heights.mapM fun h => match generators.lookup h with
    | some generator => .ok generator
    | none => .error .keyError

/-- `rollback`: the blocks above a height are not in the main chain any more. -/
def rollback (version : DbVersion) (height : ℤ) : BlockStore :=
  match version with
  | .v1 => self
  | .v2 => { self with fullBlocks := self.fullBlocks.map fun r =>
      if height < r.height then { r with inMainChain := false } else r }

/-- `set_in_chain`. -/
def setInChain (version : DbVersion) (headerHashes : List Bytes32) : BlockStore :=
  match version with
  | .v1 => self
  | .v2 => { self with fullBlocks := self.fullBlocks.map fun r =>
      if r.headerHash ∈ headerHashes then { r with inMainChain := true } else r }

/-- `set_peak`. -/
def setPeak (version : DbVersion) (headerHash : Bytes32) : BlockStore :=
  match version with
  | .v1 => { self with fullBlocks := self.fullBlocks.map fun r =>
      { r with isPeak := decide (r.headerHash = headerHash) } }
  | .v2 => { self with currentPeak := some headerHash }

/-! ## What is stored -/

/-- A stored block with its record. -/
def entry (hash : Bytes32) : Option (FullBlock × BlockRecord) :=
  (self.row hash).map fun r => (r.block, r.blockRecord)

/-- The primary key. -/
def Keyed : Prop := Table.Keyed hashOf self.fullBlocks

variable {self}

lemma getFullBlock_eq (hash : Bytes32) : self.getFullBlock hash = (self.entry hash).map Prod.fst := by
  unfold getFullBlock entry
  rw [Option.map_map]
  rfl

lemma getBlockRecord_eq (hash : Bytes32) :
    self.getBlockRecord hash = (self.entry hash).map Prod.snd := by
  unfold getBlockRecord entry
  rw [Option.map_map]
  rfl

lemma getGenerator_eq (hash : Bytes32) :
    self.getGenerator hash = (self.entry hash).bind fun e => e.1.transactionsGenerator := by
  unfold getGenerator entry
  cases self.row hash <;> rfl

lemma find_map_of_key {f : FullBlockRow → FullBlockRow} (hf : ∀ r, hashOf (f r) = hashOf r)
    (rows : List FullBlockRow) (hash : Bytes32) :
    Table.find hashOf (rows.map f) hash = (Table.find hashOf rows hash).map f := by
  unfold Table.find
  rw [List.find?_map]
  congr 2
  funext r
  simp only [Function.comp, hf]

lemma entry_map {f : FullBlockRow → FullBlockRow} (hf : ∀ r, hashOf (f r) = hashOf r)
    (hblock : ∀ r, (f r).block = r.block) (hrec : ∀ r, (f r).blockRecord = r.blockRecord)
    (peak : Option Bytes32) (hash : Bytes32) :
    (BlockStore.mk (self.fullBlocks.map f) peak).entry hash = self.entry hash := by
  unfold entry row
  show Option.map _ (Table.find hashOf (self.fullBlocks.map f) hash) = _
  rw [find_map_of_key hf, Option.map_map]
  congr 1
  funext r
  simp only [Function.comp, hblock, hrec]

@[simp] lemma entry_rollback (version : DbVersion) (height : ℤ) (hash : Bytes32) :
    (self.rollback version height).entry hash = self.entry hash := by
  cases version with
  | v1 => rfl
  | v2 => apply entry_map <;> · intro r; split <;> rfl

@[simp] lemma entry_setInChain (version : DbVersion) (hashes : List Bytes32) (hash : Bytes32) :
    (self.setInChain version hashes).entry hash = self.entry hash := by
  cases version with
  | v1 => rfl
  | v2 => apply entry_map <;> · intro r; split <;> rfl

@[simp] lemma entry_setPeak (version : DbVersion) (peak hash : Bytes32) :
    (self.setPeak version peak).entry hash = self.entry hash := by
  cases version with
  | v1 => apply entry_map <;> · intro r; rfl
  | v2 => rfl

/-- `add_full_block` of a new block adds it with its record. -/
lemma addFullBlock_eq_ok {headerHash : Bytes32} {block : FullBlock} {rec : BlockRecord}
    {self' : BlockStore} (h : self.addFullBlock headerHash block rec = .ok self')
    (hnew : self.entry headerHash = none) :
    ∃ ses, sesColumn rec = .ok ses ∧ self' = { self with fullBlocks := self.fullBlocks ++
      [⟨⟨headerHash, block.prevHeaderHash, block.height, ses⟩, false, false, block, rec⟩] } := by
  simp only [addFullBlock] at h
  obtain ⟨ses, hses, h⟩ := bind_eq_ok.mp h
  refine ⟨ses, hses, ?_⟩
  have hrow : self.row headerHash = none := by
    unfold entry at hnew
    exact Option.map_eq_none_iff.mp hnew
  rw [hrow] at h
  exact (Except.ok.inj h).symm

/-- What is stored after `add_full_block` of a new block. -/
lemma entry_addFullBlock {headerHash : Bytes32} {block : FullBlock} {rec : BlockRecord}
    {self' : BlockStore} (h : self.addFullBlock headerHash block rec = .ok self')
    (hnew : self.entry headerHash = none) (hash : Bytes32) :
    self'.entry hash = if hash = headerHash then some (block, rec) else self.entry hash := by
  obtain ⟨ses, -, rfl⟩ := addFullBlock_eq_ok h hnew
  unfold entry row at hnew ⊢
  show Option.map _ (Table.find hashOf (self.fullBlocks ++ [_]) hash) = _
  unfold Table.find at hnew ⊢
  rw [List.find?_append]
  by_cases hh : hash = headerHash
  · subst hh
    rw [Option.map_eq_none_iff.mp hnew, if_pos rfl]
    simp [hashOf]
  · rw [if_neg hh]
    have hlast : List.find? (fun r => decide (hashOf r = hash))
        [(⟨⟨headerHash, block.prevHeaderHash, block.height, ses⟩, false, false, block, rec⟩ :
          FullBlockRow)] = none := by
      simp [hashOf, Ne.symm hh]
    rw [hlast, Option.or_none]

end BlockStore

end Chives
