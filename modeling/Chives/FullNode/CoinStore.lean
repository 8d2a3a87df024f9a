import Chives.Library.Chunks
import Chives.Library.Dict
import Chives.Library.LifeTable
import Chives.Types.Block

set_option autoImplicit false

/-!
# The coin store

`CoinStore` of `full_node/coin_store.py`: the table `coin_record`, as far as adding blocks,
validating them and reorganizing the chain use it.

## Main definitions

* `CoinRow`, `CoinTable` — the table.
* `CoinTable.newBlock`, `CoinTable.rollbackToBlock`,
  `CoinTable.getCoinRecords` — the methods.
* `CoinTable.Named` — the rows of the coin store are filed under the names of their coins.

## Main results

* `CoinTable.newBlock_eq_ok` — what a successful `new_block` has done.
* `CoinTable.exists_newBlock` — when `new_block` succeeds.
* `CoinTable.rollback_newBlock` — a rollback below a block undoes it.

## Design

The table is the list of its rows in the order of insertion, as in version 2 of the database.
Version 1 keeps hexadecimal text and has a column `spent` as well, which no query reads. The columns `puzzle_hash`, `coin_parent` and `amount` are those of the coin.
-/

namespace Chives

open ExceptRun LifeTable Table Chunks

/-- A row of `coin_record`. The spent index is 0 for a coin that is not spent. -/
structure CoinRow where
  coinName : Bytes32
  confirmedIndex : ℕ
  spentIndex : ℕ
  coinbase : Bool
  coin : Coin
  timestamp : ℕ
  deriving DecidableEq

/-- The table `coin_record`. -/
abbrev CoinTable := List CoinRow

/-- A coin is born in the block that creates it and dies in the one that spends it. -/
def coinColumns : Columns Bytes32 CoinRow where
  key := CoinRow.coinName
  born := CoinRow.confirmedIndex
  died := CoinRow.spentIndex
  setDied r t := { r with spentIndex := t }
  key_setDied _ _ := rfl
  born_setDied _ _ := rfl
  died_setDied _ _ := rfl
  setDied_setDied _ _ _ := rfl
  setDied_died _ := rfl

namespace CoinRow

/-- The row that is inserted for a record. -/
def ofRecord (H : Hashes) (r : CoinRecord) : CoinRow :=
  ⟨H.coinName r.coin, r.confirmedBlockIndex, r.spentBlockIndex, r.coinbase, r.coin, r.timestamp⟩

/-- The record that is read from a row. -/
def toRecord (r : CoinRow) : CoinRecord :=
  ⟨r.coin, r.confirmedIndex, r.spentIndex, r.coinbase, r.timestamp⟩

end CoinRow

namespace CoinTable

variable (H : Hashes)

/-- `_add_coin_records`. -/
def addCoinRecords (table : CoinTable) (records : List CoinRecord) : Except PyError CoinTable :=
  match LifeTable.insert coinColumns table (records.map (CoinRow.ofRecord H)) with
  | some table' => .ok table'
  | none => .error .integrityError

/-- `_set_spent`. -/
def setSpent (table : CoinTable) (coinNames : List Bytes32) (index : ℕ) :
    Except PyError CoinTable := do
  let _ ← pyAssert (coinNames = [] ∨ index > 0)
  if coinNames = [] then return table
  else match LifeTable.kill coinColumns index table coinNames with
    | some table' => return table'
    | none => throw .valueError

/-- The records of the coins that a block creates: additions first, then rewards. -/
def recordsOfBlock (height timestamp : ℕ) (includedRewardCoins txAdditions : List Coin) :
    List CoinRecord :=
  txAdditions.map (fun c => ⟨c, height, 0, false, timestamp⟩) ++
    includedRewardCoins.map fun c => ⟨c, height, 0, true, timestamp⟩

/-- `new_block`. -/
def newBlock (table : CoinTable) (height timestamp : ℕ) (includedRewardCoins txAdditions : List Coin)
    (txRemovals : List Bytes32) : Except PyError CoinTable := do
  let _ ← pyAssert (if height = 0 then includedRewardCoins.length = 0
    else includedRewardCoins.length ≥ 2)
  let table ← addCoinRecords H table
    (recordsOfBlock height timestamp includedRewardCoins txAdditions)
  setSpent table txRemovals height

/-- `MAX_SQLITE_PARAMETERS`. -/
def maxSqliteParameters : ℕ := 900

/-- `get_coin_records`: one query for each chunk of names. -/
def getCoinRecords (table : CoinTable) (names : List Bytes32) : List CoinRecord :=
  ((chunksOf maxSqliteParameters names).flatMap fun chunk =>
    table.filter fun r => r.coinName ∈ chunk).map CoinRow.toRecord

/-- `get_coin_record`. -/
def getCoinRecord (table : CoinTable) (name : Bytes32) : Option CoinRecord :=
  (table.find? fun r => r.coinName = name).map CoinRow.toRecord

/-- The records that a rollback returns: those of the deleted rows, with nothing left of when they
were confirmed, and those of the rows that are unspent again. -/
def coinChanges (table : CoinTable) (blockIndex : ℤ) : Dict Bytes32 CoinRecord :=
  let deleted := table.filter fun r => blockIndex < r.confirmedIndex
  let revived := (table.filter fun r => ¬blockIndex < r.confirmedIndex).filter
    fun r => blockIndex < r.spentIndex
  let changes : Dict Bytes32 CoinRecord := Dict.ofItems (deleted.map fun r =>
    (H.coinName r.coin, { r.toRecord with confirmedBlockIndex := 0, timestamp := 0 }))
  revived.foldl (fun d r => if (d.lookup (H.coinName r.coin)).isNone then
    d.set (H.coinName r.coin) { r.toRecord with spentBlockIndex := 0 } else d) changes

/-- `rollback_to_block`: the table afterwards and the changed records. -/
def rollbackToBlock (table : CoinTable) (blockIndex : ℤ) : CoinTable × Dict Bytes32 CoinRecord :=
  (LifeTable.rollback coinColumns blockIndex table, coinChanges H table blockIndex)

/-! ## What the methods do -/

/-- The rows of the coin store are filed under the names of their coins. -/
def Named (coinName : Coin → Bytes32) (table : CoinTable) : Prop :=
  ∀ r ∈ table, r.coinName = coinName r.coin

lemma Named.coinName_eq {coinName : Coin → Bytes32} {table : CoinTable}
    (h : table.Named coinName) {name : Bytes32} {r : CoinRecord} (hr : table.getCoinRecord name = some r) :
    coinName r.coin = name := by
  unfold CoinTable.getCoinRecord at hr
  obtain ⟨row, hrow, rfl⟩ := Option.map_eq_some_iff.mp hr
  have hname : row.coinName = name := by simpa using List.find?_some hrow
  exact (h row (List.mem_of_find?_eq_some hrow)).symm.trans hname

variable {H} {table table' : CoinTable} {height timestamp : ℕ} {includedRewardCoins txAdditions : List Coin}
  {txRemovals : List Bytes32}

/-- The rows that a block adds. -/
def rowsOfBlock (H : Hashes) (height timestamp : ℕ) (includedRewardCoins txAdditions : List Coin) :
    List CoinRow :=
  (recordsOfBlock height timestamp includedRewardCoins txAdditions).map (CoinRow.ofRecord H)

lemma mem_rowsOfBlock {r : CoinRow}
    (hr : r ∈ rowsOfBlock H height timestamp includedRewardCoins txAdditions) :
    r.confirmedIndex = height ∧ r.spentIndex = 0 ∧ r.timestamp = timestamp ∧
      r.coinName = H.coinName r.coin ∧ (r.coin ∈ txAdditions ∨ r.coin ∈ includedRewardCoins) := by
  simp only [rowsOfBlock, recordsOfBlock, List.map_append, List.map_map, List.mem_append,
    List.mem_map, Function.comp] at hr
  rcases hr with ⟨c, hc, rfl⟩ | ⟨c, hc, rfl⟩
  · exact ⟨rfl, rfl, rfl, rfl, .inl hc⟩
  · exact ⟨rfl, rfl, rfl, rfl, .inr hc⟩

/-- A successful `_set_spent`: the names are distinct names of unspent coins, and these are spent.
With no names, nothing happens. -/
lemma setSpent_eq_ok (hkeyed : Keyed coinColumns.key table)
    (h : setSpent table txRemovals height = .ok table') :
    txRemovals.Nodup ∧ (∀ k ∈ txRemovals, Alive coinColumns table k) ∧
      (txRemovals ≠ [] → 0 < height) ∧
      table' = markDied coinColumns height txRemovals table := by
  simp only [setSpent] at h
  obtain ⟨_, hassert, h⟩ := bind_eq_ok.mp h
  by_cases hnil : txRemovals = []
  · rw [if_pos hnil] at h
    subst hnil
    refine ⟨List.nodup_nil, by simp, by simp, ?_⟩
    rw [← Except.ok.inj h]
    simp [markDied]
  · rw [if_neg hnil] at h
    have hpos : 0 < height := (pyAssert_eq_ok.mp hassert).resolve_left hnil
    cases hk : LifeTable.kill coinColumns height table txRemovals with
    | none => simp [hk] at h
    | some t =>
      simp only [hk, pure_eq] at h
      obtain ⟨hnodup, halive, rfl⟩ := kill_eq_some hkeyed hpos.ne' hk
      exact ⟨hnodup, halive, fun _ => hpos, (Except.ok.inj h).symm⟩

/-- A successful `_add_coin_records` appends the rows, and the names stay distinct. -/
lemma addCoinRecords_eq_ok {records : List CoinRecord} (h : addCoinRecords H table records = .ok table') :
    table' = table ++ records.map (CoinRow.ofRecord H) ∧ Keyed coinColumns.key table' := by
  simp only [addCoinRecords, LifeTable.insert] at h
  split at h
  · rename_i t ht
    split at ht
    · rename_i hkeyed
      rw [← Except.ok.inj h, ← Option.some.inj ht]
      exact ⟨rfl, hkeyed⟩
    · cases ht
  · cases h

/-- A successful `new_block`: it appended the rows of the block, whose names were new, and then
spent the removals, which are distinct names of coins that were unspent. -/
lemma newBlock_eq_ok
    (h : newBlock H table height timestamp includedRewardCoins txAdditions txRemovals = .ok table') :
    (height = 0 → includedRewardCoins = []) ∧
      Keyed coinColumns.key (table ++ rowsOfBlock H height timestamp includedRewardCoins txAdditions) ∧
      txRemovals.Nodup ∧
      (∀ k ∈ txRemovals, Alive coinColumns
        (table ++ rowsOfBlock H height timestamp includedRewardCoins txAdditions) k) ∧
      (txRemovals ≠ [] → 0 < height) ∧
      table' = markDied coinColumns height txRemovals
        (table ++ rowsOfBlock H height timestamp includedRewardCoins txAdditions) := by
  simp only [newBlock] at h
  obtain ⟨_, hassert, h⟩ := bind_eq_ok.mp h
  obtain ⟨t, hadd, h⟩ := bind_eq_ok.mp h
  obtain ⟨rfl, hkeyed⟩ := addCoinRecords_eq_ok hadd
  obtain ⟨hnodup, halive, hpos, rfl⟩ := setSpent_eq_ok hkeyed h
  refine ⟨fun h0 => ?_, hkeyed, hnodup, halive, hpos, rfl⟩
  have hlen := pyAssert_eq_ok.mp hassert
  rw [if_pos h0] at hlen
  exact List.length_eq_zero_iff.mp hlen

/-- `new_block` succeeds: the names that it inserts are new and distinct, and the names that it spends
are distinct names of unspent coins. -/
lemma exists_newBlock
    (hrewards : if height = 0 then includedRewardCoins.length = 0 else includedRewardCoins.length ≥ 2)
    (hkeyed : Keyed coinColumns.key (table ++ rowsOfBlock H height timestamp includedRewardCoins txAdditions))
    (hnodup : txRemovals.Nodup)
    (halive : ∀ k ∈ txRemovals, Alive coinColumns
      (table ++ rowsOfBlock H height timestamp includedRewardCoins txAdditions) k)
    (hpos : txRemovals ≠ [] → 0 < height) :
    ∃ table', newBlock H table height timestamp includedRewardCoins txAdditions txRemovals = .ok table' := by
  have hadd : addCoinRecords H table (recordsOfBlock height timestamp includedRewardCoins txAdditions) =
      .ok (table ++ rowsOfBlock H height timestamp includedRewardCoins txAdditions) := by
    unfold addCoinRecords LifeTable.insert
    rw [← rowsOfBlock, if_pos hkeyed]
  have hassert {p : Prop} [Decidable p] (hp : p) : pyAssert p = .ok () := pyAssert_eq_ok.mpr hp
  unfold newBlock
  rw [hassert hrewards, ok_bind, hadd, ok_bind, setSpent]
  by_cases hnil : txRemovals = []
  · refine ⟨table ++ rowsOfBlock H height timestamp includedRewardCoins txAdditions, ?_⟩
    rw [hassert (.inl hnil), ok_bind, if_pos hnil]
    rfl
  · obtain ⟨table', hkill⟩ := exists_kill hkeyed (hpos hnil).ne' hnodup halive
    refine ⟨table', ?_⟩
    rw [hassert (.inr (hpos hnil)), ok_bind, if_neg hnil, hkill]
    rfl

lemma rollback_newBlock {h : ℤ}
    (hnew : newBlock H table height timestamp includedRewardCoins txAdditions txRemovals = .ok table')
    (hh : h < height) :
    LifeTable.rollback coinColumns h table' = LifeTable.rollback coinColumns h table := by
  simp only [newBlock] at hnew
  obtain ⟨-, -, hnew⟩ := bind_eq_ok.mp hnew
  obtain ⟨t, hadd, hspent⟩ := bind_eq_ok.mp hnew
  have hins : LifeTable.rollback coinColumns h t = LifeTable.rollback coinColumns h table := by
    obtain ⟨rfl, -⟩ := addCoinRecords_eq_ok hadd
    apply rollback_append
    intro r hr
    obtain ⟨hborn, -⟩ := mem_rowsOfBlock (H := H) hr
    show h < (r.confirmedIndex : ℤ)
    rw [hborn]
    exact hh
  rw [← hins]
  simp only [setSpent] at hspent
  obtain ⟨-, -, hspent⟩ := bind_eq_ok.mp hspent
  split at hspent
  · rw [← Except.ok.inj hspent]
  · cases hk : LifeTable.kill coinColumns height t txRemovals with
    | none => simp [hk] at hspent
    | some t' =>
      simp only [hk, pure_eq] at hspent
      rw [← Except.ok.inj hspent]
      exact rollback_kill hk hh

lemma getCoinRecords_perm (hkeyed : Keyed coinColumns.key table) {names : List Bytes32}
    (hnodup : names.Nodup) :
    (getCoinRecords table names).Perm
      ((names.filterMap (find coinColumns.key table)).map CoinRow.toRecord) := by
  have hchunks : ∀ chunks : List (List Bytes32), chunks.flatten.Nodup →
      (chunks.flatMap fun chunk => table.filter fun r => r.coinName ∈ chunk).Perm
        (chunks.flatten.filterMap (find coinColumns.key table)) := by
    intro chunks
    induction chunks with
    | nil => simp
    | cons chunk chunks ih =>
      intro hnd
      rw [List.flatten_cons] at hnd ⊢
      rw [List.flatMap_cons, List.filterMap_append]
      obtain ⟨hnd₁, hnd₂, -⟩ := List.nodup_append.mp hnd
      exact (hkeyed.filter_perm_filterMap_find hnd₁).append (ih hnd₂)
  unfold getCoinRecords
  have hflat : (chunksOf maxSqliteParameters names).flatten = names := flatten_chunksOf (by decide) names
  have := hchunks (chunksOf maxSqliteParameters names) (by rwa [hflat])
  rw [hflat] at this
  exact this.map _

end CoinTable

end Chives
