import Chives.Consensus.BlockCreation
import Chives.FullNode.CoinStore
import Chives.FullNode.HeightMapRecovery

set_option autoImplicit false

/-!
# Taking the coin store back

`rollback_to_block` of `full_node/coin_store.py` against the calls of `new_block` that made the
table, in both versions of the database.

## Main definitions

* `NewBlockCall`, `CoinTable.newBlocks` — calls of `new_block`.
* `CoinRowV1`, `CoinTableV1` — the table of version 1, which keeps names and hashes
  as hexadecimal text and whether a coin is spent in a column of its own, with
  `CoinTableV1.newBlock` and `CoinTableV1.rollbackToBlock`.
* `RollsBack` — what a rollback should do.

## Main results

* `CoinTable.lookup_coinChanges` — the changed record of a coin.
* `CoinTable.rollback_newBlocks` — the table of the calls up to a height.
* `CoinTableV1.newBlocks_map`, `CoinTableV1.rollbackToBlock_map` — version 1 does what
  version 2 does.
* `rollback_inverts_newBlocks` — a rollback inverts the calls above its height.
-/

namespace Chives

open ExceptRun LifeTable Table

/-- The arguments of one call of `new_block`. -/
structure NewBlockCall where
  height : ℕ
  timestamp : ℕ
  includedRewardCoins : List Coin
  txAdditions : List Coin
  txRemovals : List Bytes32

/-- What a rollback to a height should do to the rows of a table, and the records that it should
return: the rows are those of an earlier table, every coin whose row is changed has one record,
and that says that a coin created above the height has not been created and that a coin spent
above it has not been spent. -/
structure RollsBack {ρ : Type} (ofRecord : CoinRecord → ρ) (table earlier after : List ρ) (height : ℤ)
    (changes : List CoinRecord) : Prop where
  after_eq : after = earlier
  rows : ∀ row ∈ table, ∃ r, ofRecord r = row
  nodup : (changes.map CoinRecord.coin).Nodup
  mem : ∀ coin, coin ∈ changes.map CoinRecord.coin ↔
    ∃ r, r.coin = coin ∧ ofRecord r ∈ table ∧ ofRecord r ∉ earlier
  created : ∀ r, ofRecord r ∈ table → height < r.confirmedBlockIndex →
    { r with confirmedBlockIndex := 0, timestamp := 0 } ∈ changes
  spent : ∀ r, ofRecord r ∈ table → r.confirmedBlockIndex ≤ height → height < r.spentBlockIndex →
    { r with spentBlockIndex := 0 } ∈ changes

namespace CoinTable

variable {H : Hashes} {table table' : CoinTable} {calls : List NewBlockCall} {h : ℤ}

/-! ## The changed records -/

/-- The record that a rollback returns for a row: that of a deleted row or of a row that is unspent
again, and none for another one. -/
def changeOf (h : ℤ) (r : CoinRow) : Option CoinRecord :=
  if h < r.confirmedIndex then some { r.toRecord with confirmedBlockIndex := 0, timestamp := 0 }
  else if h < r.spentIndex then some { r.toRecord with spentBlockIndex := 0 }
  else none

lemma coin_of_changeOf {r : CoinRow} {c : CoinRecord} (hc : changeOf h r = some c) :
    c.coin = r.coin := by
  unfold changeOf at hc
  split at hc
  · rw [← Option.some.inj hc]
    rfl
  · split at hc
    · rw [← Option.some.inj hc]
      rfl
    · cases hc

/-- What is found under a name after records have been added for the rows of a table whose coins
have none yet. -/
lemma lookup_foldl_setIfNone {f : CoinRow → CoinRecord} (k : Bytes32) :
    ∀ (rows : List CoinRow) (d : Dict Bytes32 CoinRecord), Keyed CoinRow.coinName rows →
      Named H.coinName rows →
      (rows.foldl (fun d r => if (d.lookup (H.coinName r.coin)).isNone then
        d.set (H.coinName r.coin) (f r) else d) d).lookup k =
      (d.lookup k).or ((find CoinRow.coinName rows k).map f) := by
  intro rows
  induction rows with
  | nil =>
    intro d _ _
    simp [find]
  | cons r rows ih =>
    intro d hkeyed hnamed
    have hname : H.coinName r.coin = r.coinName := (hnamed r List.mem_cons_self).symm
    have htail : Keyed CoinRow.coinName rows := hkeyed.sublist (List.sublist_cons_self r rows)
    have hhead : find CoinRow.coinName rows r.coinName = none := by
      apply find_eq_none.mpr
      intro r' hr' he
      have hnot := (List.nodup_cons.mp hkeyed).1
      exact hnot (List.mem_map.mpr ⟨r', hr', he⟩)
    rw [List.foldl_cons, ih _ htail fun r' hr' => hnamed r' (List.mem_cons_of_mem r hr'), hname]
    rw [find_cons]
    by_cases hk : r.coinName = k
    · subst hk
      rw [hhead, if_pos rfl]
      cases hd : d.lookup r.coinName with
      | none => simp [Dict.lookup_set]
      | some c => simp [hd]
    · rw [if_neg hk]
      congr 1
      split
      · rw [Dict.lookup_set, if_neg (Ne.symm hk)]
      · rfl

/-- The record returned for a name is that of the row with the name. -/
lemma lookup_coinChanges (hkeyed : Keyed CoinRow.coinName table) (hnamed : Named H.coinName table) (h : ℤ)
    (k : Bytes32) :
    (coinChanges H table h).lookup k = (find CoinRow.coinName table k).bind (changeOf h) := by
  have hsub : ∀ p : CoinRow → Bool, Keyed CoinRow.coinName (table.filter p) ∧
      Named H.coinName (table.filter p) := fun p =>
    ⟨hkeyed.sublist List.filter_sublist, fun r hr => hnamed r (List.mem_filter.mp hr).1⟩
  have hdeleted : ((Dict.ofItems ((table.filter fun r => h < r.confirmedIndex).map fun r =>
      (H.coinName r.coin, { r.toRecord with confirmedBlockIndex := 0, timestamp := 0 })) :
        Dict Bytes32 CoinRecord).lookup k) =
      ((find CoinRow.coinName table k).filter fun r => h < r.confirmedIndex).map fun r =>
        { r.toRecord with confirmedBlockIndex := 0, timestamp := 0 } := by
    have hitems : ((table.filter fun r => h < r.confirmedIndex).map fun r : CoinRow =>
        (H.coinName r.coin, ({ r.toRecord with confirmedBlockIndex := 0, timestamp := 0 } : CoinRecord))) =
        (table.filter fun r => h < r.confirmedIndex).map fun r : CoinRow =>
          (r.coinName, ({ r.toRecord with confirmedBlockIndex := 0, timestamp := 0 } : CoinRecord)) := by
      apply List.map_congr_left
      intro r hr
      rw [(hsub _).2 r hr]
    rw [hitems, Dict.ofItems, Dict.lookup_foldl_set, AList.lookup_empty, Option.or_none,
      List.find?_map, Option.map_map, ← hkeyed.find_filter]
    · rfl
    · rw [List.map_map]
      exact (hsub fun r => h < r.confirmedIndex).1
  rw [coinChanges, lookup_foldl_setIfNone k _ _ ((hsub _).1.sublist List.filter_sublist)
    fun r hr => (hsub _).2 r (List.mem_filter.mp hr).1, hdeleted, List.filter_filter, hkeyed.find_filter]
  cases hf : find CoinRow.coinName table k with
  | none => rfl
  | some r =>
    rw [Option.bind_some, changeOf]
    by_cases hc : h < r.confirmedIndex
    · simp [Option.filter, hc]
    · by_cases hs : h < r.spentIndex <;> simp [Option.filter, hc, hs]

/-! ## Runs -/

/-- Calls of `new_block`, one after the other. -/
def newBlocks (H : Hashes) (table : CoinTable) (calls : List NewBlockCall) :
    Except PyError CoinTable :=
  calls.foldlM (fun table c =>
    newBlock H table c.height c.timestamp c.includedRewardCoins c.txAdditions c.txRemovals) table

lemma newBlocks_cons {c : NewBlockCall} :
    newBlocks H table (c :: calls) =
      newBlock H table c.height c.timestamp c.includedRewardCoins c.txAdditions c.txRemovals >>=
        fun table => newBlocks H table calls := by
  rw [newBlocks, List.foldlM_cons]
  rfl

/-- Every row of the table has been created and spent at heights up to `h`. -/
def UpTo (h : ℤ) (table : CoinTable) : Prop :=
  ∀ r ∈ table, (r.confirmedIndex : ℤ) ≤ h ∧ (r.spentIndex : ℤ) ≤ h

lemma rollback_of_upTo (hupto : UpTo h table) : LifeTable.rollback coinColumns h table = table :=
  rollback_eq_self (C := coinColumns) hupto

variable {timestamp : ℕ} {includedRewardCoins txAdditions : List Coin} {txRemovals : List Bytes32}

/-- What `new_block` keeps: distinct names, which are those of the coins. -/
lemma named_newBlock {height : ℕ} (hnamed : Named H.coinName table)
    (hnew : newBlock H table height timestamp includedRewardCoins txAdditions txRemovals = .ok table') :
    Keyed CoinRow.coinName table' ∧ Named H.coinName table' := by
  obtain ⟨-, hkeyed, -, -, -, rfl⟩ := newBlock_eq_ok hnew
  refine ⟨?_, fun r hr => ?_⟩
  · rw [Keyed]
    change (List.map coinColumns.key _).Nodup
    rw [map_key_markDied]
    exact hkeyed
  · obtain ⟨r₀, hr₀, rfl⟩ := List.mem_map.mp hr
    have hname : r₀.coinName = H.coinName r₀.coin := by
      rcases List.mem_append.mp hr₀ with hr₀ | hr₀
      · exact hnamed r₀ hr₀
      · exact (mem_rowsOfBlock hr₀).2.2.2.1
    split
    · exact hname
    · exact hname

/-- A block at a height up to `h` leaves no later row. -/
lemma upTo_newBlock {height : ℕ} (hupto : UpTo h table) (hle : (height : ℤ) ≤ h)
    (hnew : newBlock H table height timestamp includedRewardCoins txAdditions txRemovals = .ok table') :
    UpTo h table' := by
  obtain ⟨-, -, -, -, -, rfl⟩ := newBlock_eq_ok hnew
  intro r hr
  obtain ⟨r₀, hr₀, rfl⟩ := List.mem_map.mp hr
  have hrow : (r₀.confirmedIndex : ℤ) ≤ h ∧ (r₀.spentIndex : ℤ) ≤ h := by
    rcases List.mem_append.mp hr₀ with hr₀ | hr₀
    · exact hupto r₀ hr₀
    · obtain ⟨hborn, hdied, -⟩ := mem_rowsOfBlock hr₀
      rw [hborn, hdied]
      exact ⟨hle, le_trans (Int.natCast_nonneg height) hle⟩
  split
  · exact ⟨hrow.1, hle⟩
  · exact hrow

lemma named_newBlocks (hkeyed : Keyed CoinRow.coinName table) (hnamed : Named H.coinName table)
    (hrun : newBlocks H table calls = .ok table') :
    Keyed CoinRow.coinName table' ∧ Named H.coinName table' := by
  induction calls generalizing table with
  | nil =>
    rw [← Except.ok.inj hrun]
    exact ⟨hkeyed, hnamed⟩
  | cons c calls ih =>
    rw [newBlocks_cons] at hrun
    obtain ⟨t, hnew, hrest⟩ := bind_eq_ok.mp hrun
    have hstep := named_newBlock hnamed hnew
    exact ih hstep.1 hstep.2 hrest

lemma rollback_newBlocks_above (habove : ∀ c ∈ calls, h < c.height)
    (hrun : newBlocks H table calls = .ok table') :
    LifeTable.rollback coinColumns h table' = LifeTable.rollback coinColumns h table := by
  induction calls generalizing table with
  | nil => rw [← Except.ok.inj hrun]
  | cons c calls ih =>
    rw [newBlocks_cons] at hrun
    obtain ⟨t, hnew, hrest⟩ := bind_eq_ok.mp hrun
    rw [ih (fun c' hc' => habove c' (List.mem_cons_of_mem c hc')) hrest]
    exact rollback_newBlock hnew (habove c List.mem_cons_self)

/-- A rollback leaves the table of the calls up to its height.

**Proof sketch.** Induction on the calls. A first call up to the height is made by the prefix as well,
and leaves no later row. If the first call is above the height, so are the others: the rollback undoes
all of them and changes nothing in a table without later rows. -/
lemma rollback_newBlocks (hsorted : calls.Pairwise fun a b => a.height < b.height)
    (hupto : UpTo h table) (hrun : newBlocks H table calls = .ok table') :
    newBlocks H table (calls.filter fun c => c.height ≤ h) =
      .ok (LifeTable.rollback coinColumns h table') := by
  induction calls generalizing table with
  | nil =>
    rw [← Except.ok.inj hrun, rollback_of_upTo hupto]
    rfl
  | cons c calls ih =>
    obtain ⟨hlater, hsorted⟩ := List.pairwise_cons.mp hsorted
    by_cases hc : (c.height : ℤ) ≤ h
    · rw [newBlocks_cons] at hrun
      obtain ⟨t, hnew, hrest⟩ := bind_eq_ok.mp hrun
      rw [List.filter_cons_of_pos (by simpa using hc), newBlocks_cons, hnew, ok_bind]
      exact ih hsorted (upTo_newBlock hupto hc hnew) hrest
    · have habove : ∀ c' ∈ c :: calls, h < c'.height := by
        intro c' hc'
        rcases List.mem_cons.mp hc' with rfl | hc'
        · omega
        · have := hlater c' hc'
          omega
      have hnil : (c :: calls).filter (fun c => (c.height : ℤ) ≤ h) = [] := by
        rw [List.filter_eq_nil_iff]
        intro c' hc'
        have := habove c' hc'
        simpa using this
      rw [hnil, rollback_newBlocks_above habove hrun, rollback_of_upTo hupto]
      rfl

section

variable (hkeyed : Keyed CoinRow.coinName table)

include hkeyed

lemma mem_changes_iff (hnamed : Named H.coinName table) {c : CoinRecord} :
    c ∈ (rollbackToBlock H table h).2.items.map Prod.snd ↔
      ∃ row ∈ table, changeOf h row = some c := by
  rw [List.mem_map]
  constructor
  · rintro ⟨⟨k, c⟩, hmem, rfl⟩
    have hlookup := Dict.mem_items_iff.mp hmem
    rw [rollbackToBlock, lookup_coinChanges hkeyed hnamed, Option.bind_eq_some_iff] at hlookup
    obtain ⟨row, hrow, hc⟩ := hlookup
    exact ⟨row, (mem_of_find hrow).1, hc⟩
  · rintro ⟨row, hrow, hc⟩
    refine ⟨(row.coinName, c), Dict.mem_items_iff.mpr ?_, rfl⟩
    rw [rollbackToBlock, lookup_coinChanges hkeyed hnamed, hkeyed.find_eq_some.mpr ⟨hrow, rfl⟩]
    exact hc

lemma nodup_changes (hnamed : Named H.coinName table) :
    (((rollbackToBlock H table h).2.items.map Prod.snd).map CoinRecord.coin).Nodup := by
  -- the records are filed under the names of their coins
  have hnames : (((rollbackToBlock H table h).2.items.map Prod.snd).map CoinRecord.coin).map
      H.coinName = (rollbackToBlock H table h).2.items.map Prod.fst := by
    rw [List.map_map, List.map_map]
    apply List.map_congr_left
    rintro ⟨k, c⟩ hmem
    have hlookup := Dict.mem_items_iff.mp hmem
    rw [rollbackToBlock, lookup_coinChanges hkeyed hnamed, Option.bind_eq_some_iff] at hlookup
    obtain ⟨row, hrow, hc⟩ := hlookup
    obtain ⟨hmem', rfl⟩ := mem_of_find hrow
    simp only [Function.comp]
    rw [coin_of_changeOf hc, hnamed row hmem']
  apply List.Nodup.of_map H.coinName
  rw [hnames]
  exact Dict.nodup_items _

/-- A row is kept by a rollback exactly when no record is returned for it. -/
lemma mem_rollback_iff {row : CoinRow} (hrow : row ∈ table) :
    row ∈ LifeTable.rollback coinColumns h table ↔ changeOf h row = none := by
  constructor
  · intro hmem
    obtain ⟨row', hmem', heq⟩ := List.mem_map.mp hmem
    obtain ⟨hrow', hborn⟩ := List.mem_filter.mp hmem'
    -- the row that was kept or revived is the same one
    have hkey : row'.coinName = row.coinName := by
      rw [← heq, revive]
      split <;> rfl
    obtain rfl : row' = row := hkeyed.eq_of_key_eq hrow' hrow hkey
    have hborn : ¬h < (row'.confirmedIndex : ℤ) := of_decide_eq_true hborn
    have hdied : ¬h < (row'.spentIndex : ℤ) := by
      intro hdied
      have heq : coinColumns.setDied row' 0 = row' := (if_pos hdied).symm.trans heq
      have hzero : row'.spentIndex = 0 := by
        rw [← heq]
        rfl
      omega
    rw [changeOf, if_neg hborn, if_neg hdied]
  · intro hnone
    unfold changeOf at hnone
    split at hnone
    · cases hnone
    · rename_i hborn
      split at hnone
      · cases hnone
      · rename_i hdied
        refine List.mem_map.mpr ⟨row, List.mem_filter.mpr ⟨hrow, decide_eq_true hborn⟩, ?_⟩
        exact if_neg hdied

/-- What a rollback does to a table whose names are distinct and right. -/
lemma rollsBack_rollbackToBlock (hnamed : Named H.coinName table) :
    RollsBack (CoinRow.ofRecord H) table (LifeTable.rollback coinColumns h table)
      (rollbackToBlock H table h).1 h ((rollbackToBlock H table h).2.items.map Prod.snd) where
  after_eq := rfl
  rows row hrow := by
    refine ⟨row.toRecord, ?_⟩
    rw [CoinRow.ofRecord, CoinRow.toRecord, ← hnamed row hrow]
  nodup := nodup_changes hkeyed hnamed
  mem coin := by
    rw [List.mem_map]
    constructor
    · rintro ⟨c, hc, rfl⟩
      obtain ⟨row, hrow, hchange⟩ := (mem_changes_iff hkeyed hnamed).mp hc
      have hof : CoinRow.ofRecord H row.toRecord = row := by
        rw [CoinRow.ofRecord, CoinRow.toRecord, ← hnamed row hrow]
      refine ⟨row.toRecord, (coin_of_changeOf hchange).symm, hof.symm ▸ hrow, ?_⟩
      rw [hof, mem_rollback_iff hkeyed hrow, hchange]
      simp
    · rintro ⟨r, rfl, hrow, hnot⟩
      rw [mem_rollback_iff hkeyed hrow] at hnot
      obtain ⟨c, hc⟩ := Option.ne_none_iff_exists'.mp hnot
      exact ⟨c, (mem_changes_iff hkeyed hnamed).mpr ⟨_, hrow, hc⟩, coin_of_changeOf hc⟩
  created r hrow hlt :=
    (mem_changes_iff hkeyed hnamed).mpr ⟨_, hrow, if_pos hlt⟩
  spent r hrow hle hlt := by
    refine (mem_changes_iff hkeyed hnamed).mpr ⟨_, hrow, ?_⟩
    have hborn : ¬h < ((CoinRow.ofRecord H r).confirmedIndex : ℤ) := not_lt.mpr hle
    rw [changeOf, if_neg hborn]
    exact if_pos hlt

end

end CoinTable

/-! ## Version 1 of the database -/

/-- A row of `coin_record` in version 1: names and hashes are hexadecimal text, and `spent` repeats
whether the coin is spent. -/
structure CoinRowV1 where
  coinName : List Char
  confirmedIndex : ℕ
  spentIndex : ℕ
  spent : Bool
  coinbase : Bool
  puzzleHash : List Char
  coinParent : List Char
  amount : ℕ
  timestamp : ℕ
  deriving DecidableEq

/-- The table `coin_record` in version 1. -/
abbrev CoinTableV1 := List CoinRowV1

namespace CoinRowV1

/-- The row that is inserted for a record. -/
def ofRecord (H : Hashes) (r : CoinRecord) : CoinRowV1 where
  coinName := Hex.encode (H.coinName r.coin).bytes
  confirmedIndex := r.confirmedBlockIndex
  spentIndex := r.spentBlockIndex
  spent := r.spent
  coinbase := r.coinbase
  puzzleHash := Hex.encode r.coin.puzzleHash.bytes
  coinParent := Hex.encode r.coin.parentCoinInfo.bytes
  amount := r.coin.amount
  timestamp := r.timestamp

/-- `row_to_coin`. -/
def rowToCoin (r : CoinRowV1) : Except PyError Coin := do
  let parentCoinInfo ← bytes32FromHex r.coinParent
  let puzzleHash ← bytes32FromHex r.puzzleHash
  return ⟨parentCoinInfo, puzzleHash, r.amount⟩

end CoinRowV1

namespace CoinTableV1

variable (H : Hashes)

/-- `_add_coin_records`. -/
def addCoinRecords (table : CoinTableV1) (records : List CoinRecord) : Except PyError CoinTableV1 :=
  if Keyed CoinRowV1.coinName (table ++ records.map (CoinRowV1.ofRecord H)) then
    .ok (table ++ records.map (CoinRowV1.ofRecord H))
  else .error .integrityError

/-- The updates of `_set_spent`, one for each name, with the number of rows that they change. -/
def updateSpent (index : ℕ) : CoinTableV1 → List Bytes32 → CoinTableV1 × ℕ
  | table, [] => (table, 0)
  | table, name :: names =>
    let hit := fun r : CoinRowV1 => decide (r.coinName = Hex.encode name.bytes ∧ r.spentIndex = 0)
    let (table', n) := updateSpent index
      (table.map fun r => if hit r then { r with spent := true, spentIndex := index } else r) names
    (table', table.countP hit + n)

/-- `_set_spent`. -/
def setSpent (table : CoinTableV1) (coinNames : List Bytes32) (index : ℕ) :
    Except PyError CoinTableV1 := do
  let _ ← pyAssert (coinNames = [] ∨ index > 0)
  if coinNames = [] then return table
  else if (updateSpent index table coinNames).2 = coinNames.length then
    return (updateSpent index table coinNames).1
  else throw .valueError

/-- `new_block`. -/
def newBlock (table : CoinTableV1) (height timestamp : ℕ) (includedRewardCoins txAdditions : List Coin)
    (txRemovals : List Bytes32) : Except PyError CoinTableV1 := do
  let _ ← pyAssert (if height = 0 then includedRewardCoins.length = 0
    else includedRewardCoins.length ≥ 2)
  let table ← addCoinRecords H table
    (CoinTable.recordsOfBlock height timestamp includedRewardCoins txAdditions)
  setSpent table txRemovals height

/-- `rollback_to_block`: the table afterwards and the changed records. -/
def rollbackToBlock (table : CoinTableV1) (blockIndex : ℤ) :
    Except PyError (CoinTableV1 × Dict Bytes32 CoinRecord) := do
  let deleted ← (table.filter fun r => blockIndex < r.confirmedIndex).foldlM
    (fun (d : Dict Bytes32 CoinRecord) r => do
      let coin ← r.rowToCoin
      return d.set (H.coinName coin) ⟨coin, 0, r.spentIndex, r.coinbase, 0⟩) ∅
  let table := table.filter fun r => ¬blockIndex < r.confirmedIndex
  let changes ← (table.filter fun r => blockIndex < r.spentIndex).foldlM
    (fun (d : Dict Bytes32 CoinRecord) r => do
      let coin ← r.rowToCoin
      return if (d.lookup (H.coinName coin)).isNone then
        d.set (H.coinName coin) ⟨coin, r.confirmedIndex, 0, r.coinbase, r.timestamp⟩ else d) deleted
  return (table.map fun r =>
    if blockIndex < r.spentIndex then { r with spentIndex := 0, spent := false } else r, changes)

/-- Calls of `new_block`, one after the other. -/
def newBlocks (H : Hashes) (table : CoinTableV1) (calls : List NewBlockCall) :
    Except PyError CoinTableV1 :=
  calls.foldlM (fun table c =>
    newBlock H table c.height c.timestamp c.includedRewardCoins c.txAdditions c.txRemovals) table

/-! ## Version 1 does what version 2 does -/

variable {H} {table : CoinTable} {height timestamp : ℕ} {includedRewardCoins txAdditions : List Coin}
  {txRemovals : List Bytes32} {h : ℤ}

/-- The version 1 row that holds the same record. -/
def rowV1 (r : CoinRow) : CoinRowV1 where
  coinName := Hex.encode r.coinName.bytes
  confirmedIndex := r.confirmedIndex
  spentIndex := r.spentIndex
  spent := 0 < r.spentIndex
  coinbase := r.coinbase
  puzzleHash := Hex.encode r.coin.puzzleHash.bytes
  coinParent := Hex.encode r.coin.parentCoinInfo.bytes
  amount := r.coin.amount
  timestamp := r.timestamp

lemma encode_inj {a b : Bytes32} (hab : Hex.encode a.bytes = Hex.encode b.bytes) : a = b := by
  have hdecode := congrArg Hex.decode hab
  rw [Hex.decode_encode, Hex.decode_encode] at hdecode
  exact Bytes32.bytes_injective (Option.some.inj hdecode)

lemma rowV1_injective : Function.Injective rowV1 := by
  rintro ⟨name, confirmed, spent, coinbase, ⟨parent, puzzle, amount⟩, timestamp⟩
    ⟨name', confirmed', spent', coinbase', ⟨parent', puzzle', amount'⟩, timestamp'⟩ heq
  simp only [rowV1, CoinRowV1.mk.injEq] at heq
  obtain ⟨hname, rfl, rfl, -, rfl, hpuzzle, hparent, rfl, rfl⟩ := heq
  rw [encode_inj hname, encode_inj hpuzzle, encode_inj hparent]

lemma rowV1_ofRecord (r : CoinRecord) : rowV1 (CoinRow.ofRecord H r) = CoinRowV1.ofRecord H r := rfl

lemma rowToCoin_rowV1 (r : CoinRow) : (rowV1 r).rowToCoin = .ok r.coin := by
  rw [CoinRowV1.rowToCoin]
  simp only [rowV1, BlockTree.bytes32FromHex_encode, ok_bind, pure_eq]

lemma keyed_map_rowV1 {rows : List CoinRow} :
    Keyed CoinRowV1.coinName (rows.map rowV1) ↔ Keyed CoinRow.coinName rows := by
  have hmap : (rows.map rowV1).map CoinRowV1.coinName =
      (rows.map CoinRow.coinName).map fun name => Hex.encode name.bytes := by
    rw [List.map_map, List.map_map]
    rfl
  rw [Keyed, hmap, Keyed]
  exact List.nodup_map_iff fun _ _ => encode_inj

/-- `_add_coin_records` in both versions. -/
lemma addCoinRecords_map (records : List CoinRecord) :
    addCoinRecords H (table.map rowV1) records =
      (CoinTable.addCoinRecords H table records).map (List.map rowV1) := by
  have hrows : table.map rowV1 ++ records.map (CoinRowV1.ofRecord H) =
      (table ++ records.map (CoinRow.ofRecord H)).map rowV1 := by
    rw [List.map_append, List.map_map]
    rfl
  rw [addCoinRecords, hrows, CoinTable.addCoinRecords, LifeTable.insert]
  by_cases hk : Keyed coinColumns.key (table ++ records.map (CoinRow.ofRecord H))
  · rw [if_pos (keyed_map_rowV1.mpr hk), if_pos hk]
    rfl
  · rw [if_neg (fun hv => hk (keyed_map_rowV1.mp hv)), if_neg hk]
    rfl

/-- The updates of `_set_spent` in both versions. -/
lemma updateSpent_map (hpos : 0 < height) (names : List Bytes32) :
    updateSpent height (table.map rowV1) names =
      ((killMany coinColumns height table names).1.map rowV1,
        (killMany coinColumns height table names).2) := by
  induction names generalizing table with
  | nil => rfl
  | cons name names ih =>
    have hhit : ∀ r : CoinRow, ((rowV1 r).coinName = Hex.encode name.bytes ∧ (rowV1 r).spentIndex = 0) ↔
        IsAliveAt coinColumns name r := by
      intro r
      constructor
      · rintro ⟨hname, hdied⟩
        exact ⟨encode_inj hname, hdied⟩
      · rintro ⟨rfl, hdied⟩
        exact ⟨rfl, hdied⟩
    have hone : ((table.map rowV1).map fun r => if decide (r.coinName = Hex.encode name.bytes ∧
          r.spentIndex = 0) then { r with spent := true, spentIndex := height } else r) =
        (killOne coinColumns height table name).map rowV1 := by
      rw [killOne, List.map_map, List.map_map]
      apply List.map_congr_left
      intro r _
      simp only [Function.comp, decide_eq_true_iff, hhit]
      split
      · simp [rowV1, coinColumns, hpos]
      · rfl
    have hcount : (table.map rowV1).countP (fun r => decide (r.coinName = Hex.encode name.bytes ∧
          r.spentIndex = 0)) = table.countP (IsAliveAt coinColumns name) := by
      rw [List.countP_map]
      apply List.countP_congr
      intro r _
      simp only [Function.comp, decide_eq_true_iff, hhit]
    rw [updateSpent]
    simp only [hone, hcount, ih]
    rfl

/-- `_set_spent` in both versions. -/
lemma setSpent_map :
    setSpent (table.map rowV1) txRemovals height =
      (CoinTable.setSpent table txRemovals height).map (List.map rowV1) := by
  unfold setSpent CoinTable.setSpent pyAssert
  by_cases hnil : txRemovals = []
  · simp [hnil, Except.map]
  · by_cases hpos : 0 < height
    · rw [updateSpent_map hpos, LifeTable.kill]
      by_cases hcount : (killMany coinColumns height table txRemovals).2 = txRemovals.length
      · simp [hnil, hpos, hcount, Except.map]
      · simp [hnil, hpos, hcount, Except.map]
    · simp [hnil, hpos, Except.map]

/-- `new_block` in both versions. -/
lemma newBlock_map :
    newBlock H (table.map rowV1) height timestamp includedRewardCoins txAdditions txRemovals =
      (CoinTable.newBlock H table height timestamp includedRewardCoins txAdditions txRemovals).map
        (List.map rowV1) := by
  rw [newBlock, CoinTable.newBlock, addCoinRecords_map]
  cases pyAssert (if height = 0 then includedRewardCoins.length = 0
    else includedRewardCoins.length ≥ 2) with
  | error e => rfl
  | ok u =>
    rw [ok_bind, ok_bind]
    cases CoinTable.addCoinRecords H table
      (CoinTable.recordsOfBlock height timestamp includedRewardCoins txAdditions) with
    | error e => rfl
    | ok t => exact setSpent_map

lemma newBlocks_map (calls : List NewBlockCall) :
    newBlocks H (table.map rowV1) calls = (CoinTable.newBlocks H table calls).map (List.map rowV1) := by
  induction calls generalizing table with
  | nil => rfl
  | cons c calls ih =>
    rw [newBlocks, List.foldlM_cons, newBlock_map, CoinTable.newBlocks_cons]
    cases CoinTable.newBlock H table c.height c.timestamp c.includedRewardCoins c.txAdditions
      c.txRemovals with
    | error e => rfl
    | ok t => exact ih

lemma foldlM_rowToCoin (f : Dict Bytes32 CoinRecord → CoinRowV1 → Coin → Dict Bytes32 CoinRecord)
    (rows : List CoinRow) (d : Dict Bytes32 CoinRecord) :
    ((rows.map rowV1).foldlM (fun d r => do
      let coin ← r.rowToCoin
      return f d r coin) d : Except PyError _) =
      .ok (rows.foldl (fun d r => f d (rowV1 r) r.coin) d) := by
  induction rows generalizing d with
  | nil => rfl
  | cons r rows ih =>
    rw [List.map_cons, List.foldlM_cons, rowToCoin_rowV1, ok_bind, pure_eq, ok_bind, ih]
    rfl

lemma filter_map_rowV1 {p : CoinRowV1 → Bool} {rows : List CoinRow} :
    (rows.map rowV1).filter p = (rows.filter fun r => p (rowV1 r)).map rowV1 := by
  rw [List.filter_map]
  rfl

/-- `rollback_to_block` in both versions. -/
lemma rollbackToBlock_map :
    rollbackToBlock H (table.map rowV1) h =
      .ok ((CoinTable.rollbackToBlock H table h).1.map rowV1,
        (CoinTable.rollbackToBlock H table h).2) := by
  have hdeleted : (Dict.ofItems ((table.filter fun r => h < r.confirmedIndex).map fun r : CoinRow =>
      (H.coinName r.coin, ({ r.toRecord with confirmedBlockIndex := 0, timestamp := 0 } : CoinRecord)))) =
      (table.filter fun r => h < r.confirmedIndex).foldl (fun (d : Dict Bytes32 CoinRecord) r =>
        d.set (H.coinName r.coin) ⟨r.coin, 0, r.spentIndex, r.coinbase, 0⟩) ∅ := by
    rw [Dict.ofItems, List.foldl_map]
    rfl
  have hrows : ((table.filter fun r => ¬h < r.confirmedIndex).map rowV1).map (fun r =>
      if h < r.spentIndex then { r with spentIndex := 0, spent := false } else r) =
      (LifeTable.rollback coinColumns h table).map rowV1 := by
    rw [LifeTable.rollback, List.map_map, List.map_map]
    apply List.map_congr_left
    intro r _
    show (if h < (r.spentIndex : ℤ) then _ else rowV1 r) = rowV1 (if h < (r.spentIndex : ℤ) then _ else r)
    split
    · rfl
    · rfl
  rw [rollbackToBlock, filter_map_rowV1, filter_map_rowV1]
  dsimp only
  rw [filter_map_rowV1]
  have hfirst := foldlM_rowToCoin
    (fun d r coin => d.set (H.coinName coin) ⟨coin, 0, r.spentIndex, r.coinbase, 0⟩)
    (table.filter fun r => h < r.confirmedIndex) ∅
  have hsecond := fun d => foldlM_rowToCoin
    (fun d r coin => if (d.lookup (H.coinName coin)).isNone then
      d.set (H.coinName coin) ⟨coin, r.confirmedIndex, 0, r.coinbase, r.timestamp⟩ else d)
    ((table.filter fun r => ¬h < r.confirmedIndex).filter fun r => h < r.spentIndex) d
  refine (congrArg (· >>= _) hfirst).trans ?_
  rw [ok_bind]
  refine (congrArg (· >>= _) (hsecond _)).trans ?_
  rw [ok_bind, pure_eq]
  refine congrArg Except.ok (Prod.ext hrows ?_)
  rw [CoinTable.rollbackToBlock, CoinTable.coinChanges, hdeleted]
  rfl

lemma rollsBack_map {earlier after : CoinTable} {changes : List CoinRecord}
    (hrolls : RollsBack (CoinRow.ofRecord H) table earlier after h changes) :
    RollsBack (CoinRowV1.ofRecord H) (table.map rowV1) (earlier.map rowV1) (after.map rowV1) h
      changes := by
  have hmem : ∀ (rows : CoinTable) (r : CoinRecord),
      CoinRowV1.ofRecord H r ∈ rows.map rowV1 ↔ CoinRow.ofRecord H r ∈ rows := fun rows r => by
    rw [← rowV1_ofRecord, List.mem_map_of_injective rowV1_injective]
  refine ⟨by rw [hrolls.after_eq], fun row hrow => ?_, hrolls.nodup, fun coin => ?_, fun r hr => ?_,
    fun r hr => ?_⟩
  · obtain ⟨row₂, hrow₂, rfl⟩ := List.mem_map.mp hrow
    obtain ⟨r, rfl⟩ := hrolls.rows row₂ hrow₂
    exact ⟨r, rfl⟩
  · simp only [hmem]
    exact hrolls.mem coin
  · exact hrolls.created r ((hmem table r).mp hr)
  · exact hrolls.spent r ((hmem table r).mp hr)

end CoinTableV1

/-! ## Rollbacks and runs -/

/-- **A rollback inverts the blocks above its height.** Of a coin store that calls of `new_block` at
increasing heights have made, `rollback_to_block` leaves the table that the calls up to its height
make, in both versions of the database, and returns one record for each coin whose row it changed:
a created coin with confirmed height 0, a spent one with spent index 0.

**Proof sketch.** The rollback of the table undoes the calls above the height one by one and changes
nothing in the table of the others. A row is deleted, made unspent or kept as its own heights tell,
and the records are those of the rows of the first two kinds; names of coins are distinct, so that no
record overwrites another one. Version 1 keeps the same rows as text. -/
theorem rollback_inverts_newBlocks {H : Hashes} {calls : List NewBlockCall}
    (hsorted : calls.Pairwise fun a b => a.height < b.height) (h : ℤ) :
    (∀ table, CoinTable.newBlocks H [] calls = .ok table →
      ∃ earlier, CoinTable.newBlocks H [] (calls.filter fun c => c.height ≤ h) = .ok earlier ∧
        RollsBack (CoinRow.ofRecord H) table earlier (CoinTable.rollbackToBlock H table h).1 h
          ((CoinTable.rollbackToBlock H table h).2.items.map Prod.snd)) ∧
      ∀ table, CoinTableV1.newBlocks H [] calls = .ok table →
        ∃ earlier after changes,
          CoinTableV1.newBlocks H [] (calls.filter fun c => c.height ≤ h) = .ok earlier ∧
          CoinTableV1.rollbackToBlock H table h = .ok (after, changes) ∧
          RollsBack (CoinRowV1.ofRecord H) table earlier after h (changes.items.map Prod.snd) := by
  have hversion2 : ∀ table, CoinTable.newBlocks H [] calls = .ok table →
      CoinTable.newBlocks H [] (calls.filter fun c => c.height ≤ h) =
          .ok (LifeTable.rollback coinColumns h table) ∧
        RollsBack (CoinRow.ofRecord H) table (LifeTable.rollback coinColumns h table)
          (CoinTable.rollbackToBlock H table h).1 h
          ((CoinTable.rollbackToBlock H table h).2.items.map Prod.snd) := fun table hrun => by
    have hempty : CoinTable.UpTo h [] := fun r hr => absurd hr List.not_mem_nil
    have hkeyed : Keyed CoinRow.coinName [] := List.nodup_nil
    have hnamed : CoinTable.Named H.coinName [] := fun r hr => absurd hr List.not_mem_nil
    obtain ⟨hkeyed, hnamed⟩ := CoinTable.named_newBlocks hkeyed hnamed hrun
    exact ⟨CoinTable.rollback_newBlocks hsorted hempty hrun,
      CoinTable.rollsBack_rollbackToBlock hkeyed hnamed⟩
  refine ⟨fun table hrun => ⟨_, hversion2 table hrun⟩, fun table hrun => ?_⟩
  rw [show ([] : CoinTableV1) = ([] : CoinTable).map CoinTableV1.rowV1 from rfl,
    CoinTableV1.newBlocks_map] at hrun
  obtain ⟨table₂, hrun₂, rfl⟩ := map_eq_ok.mp hrun
  obtain ⟨hearlier, hrolls⟩ := hversion2 table₂ hrun₂
  refine ⟨_, _, _, ?_, CoinTableV1.rollbackToBlock_map, CoinTableV1.rollsBack_map hrolls⟩
  rw [show ([] : CoinTableV1) = ([] : CoinTable).map CoinTableV1.rowV1 from rfl,
    CoinTableV1.newBlocks_map, hearlier]
  rfl

/-- Hashes of which only the names of coins matter: these are their amounts. -/
def coinNumberHashes : Hashes := { sampleHashes with coinName := fun c => Bytes32.ofNat c.amount }

/-- A coin with a number. -/
def numberedCoin (n : ℕ) : Coin := ⟨Bytes32.zero, Bytes32.zero, n⟩

/-- Three blocks: the second one spends a coin of the first and one that it creates itself, and the
third one spends a reward of the first. -/
def threeCalls : List NewBlockCall :=
  [⟨1, 10, [numberedCoin 1, numberedCoin 2], [numberedCoin 3], []⟩,
    ⟨4, 40, [numberedCoin 5, numberedCoin 6], [numberedCoin 7], [Bytes32.ofNat 3, Bytes32.ofNat 7]⟩,
    ⟨6, 60, [numberedCoin 8, numberedCoin 9], [], [Bytes32.ofNat 1]⟩]

lemma exists_of_isSome {α : Type} {x : Except PyError α} (h : x.toOption.isSome) : ∃ a, x = .ok a := by
  cases x with
  | ok a => exact ⟨a, rfl⟩
  | error e => cases h

/-- A rollback to height 1 of the three blocks. -/
theorem rollback_inverts_newBlocks_three :
    (∃ table earlier, CoinTable.newBlocks coinNumberHashes [] threeCalls = .ok table ∧
      CoinTable.newBlocks coinNumberHashes [] (threeCalls.filter fun c => (c.height : ℤ) ≤ 1) =
        .ok earlier ∧
      RollsBack (CoinRow.ofRecord coinNumberHashes) table earlier
        (CoinTable.rollbackToBlock coinNumberHashes table 1).1 1
        ((CoinTable.rollbackToBlock coinNumberHashes table 1).2.items.map Prod.snd)) ∧
      ∃ table earlier after changes,
        CoinTableV1.newBlocks coinNumberHashes [] threeCalls = .ok table ∧
        CoinTableV1.newBlocks coinNumberHashes [] (threeCalls.filter fun c => (c.height : ℤ) ≤ 1) =
          .ok earlier ∧
        CoinTableV1.rollbackToBlock coinNumberHashes table 1 = .ok (after, changes) ∧
        RollsBack (CoinRowV1.ofRecord coinNumberHashes) table earlier after 1
          (changes.items.map Prod.snd) := by
  have hboth := @rollback_inverts_newBlocks coinNumberHashes threeCalls (by decide) 1
  obtain ⟨table, hrun⟩ := exists_of_isSome
    (x := CoinTable.newBlocks coinNumberHashes [] threeCalls) (by decide +kernel)
  obtain ⟨tableV1, hrunV1⟩ := exists_of_isSome
    (x := CoinTableV1.newBlocks coinNumberHashes [] threeCalls) (by decide +kernel)
  obtain ⟨earlier, hearlier⟩ := hboth.1 table hrun
  obtain ⟨earlierV1, after, changes, hearlierV1⟩ := hboth.2 tableV1 hrunV1
  exact ⟨⟨table, earlier, hrun, hearlier⟩, tableV1, earlierV1, after, changes, hrunV1, hearlierV1⟩

end Chives
