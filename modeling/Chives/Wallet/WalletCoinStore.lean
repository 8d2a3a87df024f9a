import Chives.Library.Keyed
import Chives.Library.Transition
import Chives.Types.CoinSpend

set_option autoImplicit false

/-!
# The coin store of a wallet

`wallet/wallet_coin_store.py`: the coins of a wallet are rows of a table, which is also kept in memory, with an index
of the unspent ones by wallet.

## Main definitions

* `WalletCoinRecord`, `WalletCoinStore` — a coin, and the store with its caches and its table.
* `WalletCoinStore.perform` — the methods that change it.
* `WalletCoinStore.MirrorsTable` — the caches have what the table has.
* `WalletCoinStore.Cached` — what a method needs, to keep that.
* `WalletCoinStore.BalanceExact`, `WalletCoinStore.BalanceStable` — the coins of the past are right, and no
  later rollback changes them.

## Main results

* `WalletCoinStore.mirrorsTable_perform_iff` — one method keeps the caches equal to the table exactly if the
  condition holds.
* `WalletCoinStore.run_coinsMirrored` — in every run whose steps meet the condition, the caches have what the
  table has.
* `WalletCoinStore.not_coinsMirrored_rollback` — not so after a rollback that makes a coin unspent in a wallet
  without unspent coins since the start.
* `WalletCoinStore.historicBalance_iff` — the coins that are found for a height of the past are right and stable
  exactly if no coin that was confirmed later is unspent, or was spent after that.

## Design

A row stands for the record that is made from it. A method whose assertion fails changes nothing.
-/

namespace Chives

/-- `WalletType`. -/
inductive WalletType
  | standardWallet
  | rateLimited
  | atomicSwap
  | authorizedPayee
  | multiSig
  | custody
  | cat
  | recoverable
  | decentralizedId
  | poolingWallet
  | nft
  deriving DecidableEq, Repr

/-- A coin of a wallet. -/
structure WalletCoinRecord where
  coin : Coin
  confirmedBlockHeight : ℕ
  spentBlockHeight : ℕ
  spent : Bool
  coinbase : Bool
  walletType : WalletType
  walletId : ℤ
  deriving DecidableEq

variable (sha256 : Bytes → Bytes32)

/-- `WalletCoinRecord.name`. -/
def WalletCoinRecord.name (r : WalletCoinRecord) : Bytes32 := r.coin.name sha256

/-- A record that is not spent. -/
def WalletCoinRecord.unspend (r : WalletCoinRecord) : WalletCoinRecord :=
  { r with spentBlockHeight := 0, spent := false }

/-- A record after a rollback. -/
def WalletCoinRecord.rolledBack (height : ℤ) (r : WalletCoinRecord) : WalletCoinRecord :=
  if height < r.spentBlockHeight then r.unspend else r

/-- Records by name. -/
abbrev CoinRecords := KeyedRows (WalletCoinRecord.name sha256)

/-- Records by wallet and name. -/
abbrev WalletCoins := GroupIndex ℤ (WalletCoinRecord.name sha256)

/-- `WalletCoinStore`. -/
structure WalletCoinStore where
  coinRecordCache : CoinRecords sha256
  unspentCoinWalletCache : WalletCoins sha256
  table : CoinRecords sha256

namespace WalletCoinStore

variable {sha256}

/-! ## Methods -/

/-- `rebuild_wallet_cache`, as `create` calls it. -/
def create (table : CoinRecords sha256) : WalletCoinStore sha256 where
  coinRecordCache := table.rows.foldl (fun cache r => cache.set r) .empty
  unspentCoinWalletCache :=
    table.rows.foldl (fun unspent r => if r.spent = false then unspent.put r.walletId r else unspent) .empty
  table := table

/-- The unspent coins of a wallet, in `add_coin_record`. -/
def cacheUnspent (unspent : WalletCoins sha256) (r : WalletCoinRecord) : WalletCoins sha256 :=
  match unspent.get? r.walletId with
  | some coins =>
    if r.spent then
      if (coins.get? (r.name sha256)).isSome then unspent.set r.walletId (coins.erase (r.name sha256)) else unspent
    else unspent.set r.walletId (coins.set r)
  | none => if r.spent then unspent else unspent.set r.walletId (KeyedRows.empty.set r)

/-- `add_coin_record`. -/
def addCoinRecord (t : WalletCoinStore sha256) (r : WalletCoinRecord) : WalletCoinStore sha256 where
  coinRecordCache := t.coinRecordCache.set r
  unspentCoinWalletCache := cacheUnspent t.unspentCoinWalletCache r
  table := t.table.set r

/-- A coin is taken out of the unspent coins of its wallet, if it is there. -/
def popUnspent (unspent : WalletCoins sha256) (r : WalletCoinRecord) : WalletCoins sha256 :=
  unspent.pop r.walletId (r.name sha256)

/-- `delete_coin_record`. -/
def deleteCoinRecord (t : WalletCoinStore sha256) (coinName : Bytes32) : WalletCoinStore sha256 :=
  match t.coinRecordCache.get? coinName with
  | some r => ⟨t.coinRecordCache.erase coinName, popUnspent t.unspentCoinWalletCache r, t.table.erase coinName⟩
  | none => { t with table := t.table.erase coinName }

/-- `get_coin_record`. -/
def getCoinRecord (t : WalletCoinStore sha256) (coinName : Bytes32) : Option WalletCoinRecord :=
  match t.coinRecordCache.get? coinName with
  | some r => some r
  | none => t.table.get? coinName

/-- `set_spent`. -/
def setSpent (t : WalletCoinStore sha256) (coinName : Bytes32) (height : ℕ) : WalletCoinStore sha256 :=
  match t.getCoinRecord coinName with
  | some current => t.addCoinRecord { current with spentBlockHeight := height, spent := true }
  | none => t

/-- A coin that a rollback makes unspent, in the cache. -/
def unspendInCache (height : ℤ) (cache : CoinRecords sha256) (r : WalletCoinRecord) : CoinRecords sha256 :=
  if height < r.spentBlockHeight then cache.set r.unspend else cache

/-- A coin that a rollback makes unspent, among the coins of its wallet. -/
def unspendInWallet (height : ℤ) (unspent : WalletCoins sha256) (r : WalletCoinRecord) : WalletCoins sha256 :=
  if height < r.spentBlockHeight then
    match unspent.get? r.walletId with
    | some coins => unspent.set r.walletId (coins.set r.unspend)
    | none => unspent
  else unspent

/-- The records that a rollback deletes. -/
def deleteQueue (t : WalletCoinStore sha256) (height : ℤ) : CoinRecords sha256 :=
  t.coinRecordCache.filter fun r => height < r.confirmedBlockHeight

/-- The table after the two statements of `rollback_to_block`. -/
def rollbackTable (table : CoinRecords sha256) (height : ℤ) : CoinRecords sha256 :=
  (table.filter fun r => ¬ height < r.confirmedBlockHeight).map (WalletCoinRecord.rolledBack height) fun r => by
    rw [WalletCoinRecord.rolledBack]
    split <;> rfl

/-- `rollback_to_block`. -/
def rollbackToBlock (t : WalletCoinStore sha256) (height : ℤ) : WalletCoinStore sha256 where
  coinRecordCache := (t.deleteQueue height).rows.foldl (fun cache r => cache.erase (r.name sha256))
    (t.coinRecordCache.rows.foldl (unspendInCache height) t.coinRecordCache)
  unspentCoinWalletCache := (t.deleteQueue height).rows.foldl popUnspent
    (t.coinRecordCache.rows.foldl (unspendInWallet height) t.unspentCoinWalletCache)
  table := rollbackTable t.table height

/-- `get_unspent_coins_for_wallet`. -/
def getUnspentCoinsForWallet (t : WalletCoinStore sha256) (walletId : ℤ) : List WalletCoinRecord :=
  t.unspentCoinWalletCache.values walletId

/-- `get_unspent_coins_at_height`. -/
def getUnspentCoinsAtHeight (t : WalletCoinStore sha256) : Option ℕ → List WalletCoinRecord
  | none => t.coinRecordCache.rows.filter fun r => r.spent = false
  | some height => t.coinRecordCache.rows.filter fun r =>
    r.spent = false ∨ height < r.spentBlockHeight ∧ r.confirmedBlockHeight ≤ height

/-- The methods that change the store. -/
inductive Op
  | create
  | addCoinRecord (r : WalletCoinRecord)
  | setSpent (coinName : Bytes32) (height : ℕ)
  | deleteCoinRecord (coinName : Bytes32)
  | rollbackToBlock (height : ℤ)

/-- A method. -/
def perform (t : WalletCoinStore sha256) : Op → WalletCoinStore sha256
  | .create => create t.table
  | .addCoinRecord r => t.addCoinRecord r
  | .setSpent coinName height => t.setSpent coinName height
  | .deleteCoinRecord coinName => t.deleteCoinRecord coinName
  | .rollbackToBlock height => t.rollbackToBlock height

/-- The caches have what the table has: all rows, and the unspent ones by wallet. -/
structure MirrorsTable (t : WalletCoinStore sha256) : Prop where
  cache : ∀ r, r ∈ t.coinRecordCache.rows ↔ r ∈ t.table.rows
  unspent : ∀ walletId r, r ∈ t.getUnspentCoinsForWallet walletId ↔
    r ∈ t.table.rows ∧ r.spent = false ∧ r.walletId = walletId

/-- What a method needs: a record does not replace an unspent one of another wallet, and a coin that a rollback makes
unspent, and does not delete, is of a wallet that is in the index. -/
def Cached (t : WalletCoinStore sha256) : Op → Prop
  | .addCoinRecord r => ∀ old ∈ t.coinRecordCache.rows, old.name sha256 = r.name sha256 → old.spent = false →
    old.walletId = r.walletId
  | .rollbackToBlock height => ∀ r ∈ t.coinRecordCache.rows, height < r.spentBlockHeight →
    ¬ height < r.confirmedBlockHeight → (t.unspentCoinWalletCache.get? r.walletId).isSome = true
  | _ => True

instance decidableCached (t : WalletCoinStore sha256) : (op : Op) → Decidable (Cached t op)
  | .create => inferInstanceAs (Decidable True)
  | .addCoinRecord r => inferInstanceAs (Decidable (∀ old ∈ t.coinRecordCache.rows,
    old.name sha256 = r.name sha256 → old.spent = false → old.walletId = r.walletId))
  | .setSpent _ _ => inferInstanceAs (Decidable True)
  | .deleteCoinRecord _ => inferInstanceAs (Decidable True)
  | .rollbackToBlock height => inferInstanceAs (Decidable (∀ r ∈ t.coinRecordCache.rows,
    height < r.spentBlockHeight → ¬ height < r.confirmedBlockHeight →
      (t.unspentCoinWalletCache.get? r.walletId).isSome = true))

/-! ## Lookups -/

/-- The caches and the table, by lookups. -/
structure Consistent (t : WalletCoinStore sha256) : Prop where
  cache : ∀ k, t.coinRecordCache.get? k = t.table.get? k
  unspent : t.unspentCoinWalletCache.Mirrors (fun r => !r.spent) WalletCoinRecord.walletId t.table.get?

lemma consistent_iff {t : WalletCoinStore sha256} : Consistent t ↔ MirrorsTable t := by
  constructor
  · intro h
    refine ⟨fun r => by rw [KeyedRows.mem_rows, KeyedRows.mem_rows, h.cache], fun walletId r => ?_⟩
    rw [getUnspentCoinsForWallet, h.unspent.mem_values, KeyedRows.mem_rows]
    simp
  · intro h
    refine ⟨KeyedRows.get?_congr h.cache, GroupIndex.mirrors_of_mem_values fun walletId r => ?_⟩
    have hvalues := h.unspent walletId r
    rw [getUnspentCoinsForWallet] at hvalues
    rw [hvalues, ← KeyedRows.mem_rows]
    simp

/-- The unspent coins after `add_coin_record`. -/
lemma entry_cacheUnspent (unspent : WalletCoins sha256) (r : WalletCoinRecord) (walletId : ℤ) (k : Bytes32) :
    (cacheUnspent unspent r).entry walletId k =
      if walletId = r.walletId ∧ k = r.name sha256 then (if r.spent then none else some r)
      else unspent.entry walletId k := by
  cases hspent : r.spent with
  | true =>
    have heq : cacheUnspent unspent r = unspent.pop r.walletId (r.name sha256) := by
      rw [cacheUnspent, GroupIndex.pop, hspent]
      cases unspent.get? r.walletId with
      | none => rfl
      | some coins => rfl
    rw [heq, GroupIndex.entry_pop]
    rfl
  | false =>
    have heq : cacheUnspent unspent r = unspent.put r.walletId r := by
      rw [cacheUnspent, GroupIndex.put, hspent]
      cases unspent.get? r.walletId with
      | none => rfl
      | some coins => rfl
    rw [heq, GroupIndex.entry_put]
    rfl

lemma getCoinRecord_eq {t : WalletCoinStore sha256} (hcache : ∀ k, t.coinRecordCache.get? k = t.table.get? k)
    (coinName : Bytes32) : t.getCoinRecord coinName = t.table.get? coinName := by
  rw [getCoinRecord, hcache]
  cases t.table.get? coinName with
  | none => rfl
  | some r => rfl

/-! ## Single methods -/

/-- **A rebuild** makes the caches equal to the table. -/
lemma consistent_create (table : CoinRecords sha256) : Consistent (create table) := by
  refine ⟨table.get?_foldl_set, GroupIndex.mirrors_rebuild (fun unspent r walletId k => ?_) table⟩
  cases hspent : r.spent with
  | false => simp [GroupIndex.entry_put]
  | true => simp

variable {t : WalletCoinStore sha256}

/-- **A record is added**: the index is right exactly if no unspent record of another wallet is replaced. -/
lemma consistent_addCoinRecord_iff (h : Consistent t) (r : WalletCoinRecord) :
    Consistent (t.addCoinRecord r) ↔ Cached t (.addCoinRecord r) := by
  constructor
  · intro hafter old hold hname hspent
    by_contra hwallet
    rw [KeyedRows.mem_rows, h.cache] at hold
    have hbefore := (h.unspent old.walletId (r.name sha256) old).mpr
      ⟨by rwa [hname] at hold, by simp [hspent], rfl⟩
    have hentry : (t.addCoinRecord r).unspentCoinWalletCache.entry old.walletId (r.name sha256) = some old := by
      rw [addCoinRecord, entry_cacheUnspent, if_neg (fun hc => hwallet hc.1), hbefore]
    obtain ⟨htable, -, -⟩ := (hafter.unspent _ _ _).mp hentry
    rw [addCoinRecord, KeyedRows.get?_set, if_pos rfl] at htable
    exact hwallet (congrArg WalletCoinRecord.walletId (Option.some.inj htable)).symm
  · intro hcached
    have hold : ∀ u, t.table.get? (r.name sha256) = some u → (!u.spent) = true → u.walletId = r.walletId := by
      intro u hu hspent
      obtain ⟨hmem, hname⟩ := KeyedRows.get?_eq_some.mp ((h.cache _).trans hu)
      exact hcached u hmem hname (by simpa using hspent)
    refine ⟨fun k => ?_, h.unspent.update hold (fun k => KeyedRows.get?_set t.table r k) fun walletId k => ?_⟩
    · rw [addCoinRecord, KeyedRows.get?_set, KeyedRows.get?_set, h.cache]
    · rw [addCoinRecord, entry_cacheUnspent]
      cases r.spent <;> rfl

/-- **A coin is spent.** -/
lemma Consistent.setSpent (h : Consistent t) (coinName : Bytes32) (height : ℕ) :
    Consistent (t.setSpent coinName height) := by
  rw [WalletCoinStore.setSpent, getCoinRecord_eq h.cache]
  cases htable : t.table.get? coinName with
  | none => exact h
  | some current =>
    refine (consistent_addCoinRecord_iff h _).mpr fun old hold hname _ => ?_
    -- the record that is replaced is the current one
    obtain ⟨hmem, hk⟩ := KeyedRows.get?_eq_some.mp ((h.cache _).trans htable)
    rw [t.coinRecordCache.eq_of_key_eq hold hmem hname]

/-- **A coin is deleted.** -/
lemma Consistent.deleteCoinRecord (h : Consistent t) (coinName : Bytes32) :
    Consistent (t.deleteCoinRecord coinName) := by
  rw [WalletCoinStore.deleteCoinRecord]
  cases hcache : t.coinRecordCache.get? coinName with
  | none =>
    have hnone := KeyedRows.get?_erase_of_none ((h.cache coinName).symm.trans hcache)
    exact ⟨fun k => (h.cache k).trans (hnone k).symm, h.unspent.congr (fun _ _ => rfl) hnone⟩
  | some r =>
    have hmirrors := h.unspent.pop ((h.cache coinName).symm.trans hcache)
    obtain ⟨-, rfl⟩ := KeyedRows.get?_eq_some.mp hcache
    refine ⟨fun k => ?_, hmirrors⟩
    rw [KeyedRows.get?_erase, KeyedRows.get?_erase, h.cache]

/-! ## The rollback -/

lemma get?_rollbackCache (t : WalletCoinStore sha256) (height : ℤ) (k : Bytes32) :
    (t.rollbackToBlock height).coinRecordCache.get? k =
      ((t.coinRecordCache.get? k).filter fun r => ¬ height < r.confirmedBlockHeight).map
        (WalletCoinRecord.rolledBack height) := by
  have hunspend := t.coinRecordCache.foldl_at KeyedRows.get? (unspendInCache height)
    (fun e r => if height < r.spentBlockHeight then some r.unspend else e)
    (fun cache r k hk => by
      rw [unspendInCache]
      split
      · rw [KeyedRows.get?_set, if_neg (show k ≠ r.unspend.name sha256 from hk)]
      · rfl)
    (fun cache r => by
      rw [unspendInCache]
      split
      · rw [KeyedRows.get?_set, if_pos (show r.name sha256 = r.unspend.name sha256 from rfl)]
      · rfl)
    t.coinRecordCache k
  rw [rollbackToBlock, KeyedRows.get?_foldl_erase, hunspend, deleteQueue, KeyedRows.get?_filter]
  cases t.coinRecordCache.get? k with
  | none => rfl
  | some r =>
    by_cases hconfirmed : height < r.confirmedBlockHeight
    · simp [Option.filter, hconfirmed]
    · simp only [Option.filter, hconfirmed, decide_false, Bool.false_eq_true, if_false, not_false_eq_true,
        decide_true, if_true, Option.map_some, WalletCoinRecord.rolledBack, Option.isSome_none]
      split <;> rfl

lemma get?_rollbackTable (table : CoinRecords sha256) (height : ℤ) (k : Bytes32) :
    (rollbackTable table height).get? k =
      ((table.get? k).filter fun r => ¬ height < r.confirmedBlockHeight).map
        (WalletCoinRecord.rolledBack height) := by
  rw [rollbackTable, KeyedRows.get?_map, KeyedRows.get?_filter]

/-- The unspent coins of a wallet after a rollback. -/
lemma entry_rollback (t : WalletCoinStore sha256) (height : ℤ) (walletId : ℤ) (k : Bytes32) :
    (t.rollbackToBlock height).unspentCoinWalletCache.entry walletId k =
      match t.coinRecordCache.get? k with
      | some r =>
        if height < r.confirmedBlockHeight ∧ walletId = r.walletId then none
        else if height < r.spentBlockHeight ∧ walletId = r.walletId ∧
            (t.unspentCoinWalletCache.get? walletId).isSome = true then some r.unspend
        else t.unspentCoinWalletCache.entry walletId k
      | none => t.unspentCoinWalletCache.entry walletId k := by
  -- the loop sees which wallets are in the index, and does not change that
  have hunspend := t.coinRecordCache.foldl_at
    (fun (unspent : WalletCoins sha256) k walletId => (unspent.entry walletId k, (unspent.get? walletId).isSome))
    (unspendInWallet height)
    (fun e r walletId => if height < r.spentBlockHeight ∧ walletId = r.walletId ∧ (e walletId).2 = true then
      (some r.unspend, true) else e walletId)
    (fun unspent r k hk => by
      funext walletId
      rw [unspendInWallet]
      split
      · cases hcoins : unspent.get? r.walletId with
        | none => rfl
        | some coins =>
          simp only [GroupIndex.entry_set, OrderedDict.get?_set, KeyedRows.get?_set]
          by_cases hw : walletId = r.walletId
          · rw [if_pos hw, if_pos hw, if_neg (show k ≠ r.unspend.name sha256 from hk), hw, GroupIndex.entry, hcoins]
            rfl
          · rw [if_neg hw, if_neg hw]
      · rfl)
    (fun unspent r => by
      funext walletId
      rw [unspendInWallet]
      by_cases hspent : height < r.spentBlockHeight
      · rw [if_pos hspent]
        cases hcoins : unspent.get? r.walletId with
        | none =>
          rw [if_neg]
          rintro ⟨-, rfl, hsome⟩
          have hsome : (unspent.get? r.walletId).isSome = true := hsome
          rw [hcoins] at hsome
          cases hsome
        | some coins =>
          simp only [GroupIndex.entry_set, OrderedDict.get?_set, KeyedRows.get?_set]
          by_cases hw : walletId = r.walletId
          · rw [if_pos hw, if_pos hw, if_pos (show r.name sha256 = r.unspend.name sha256 from rfl),
              if_pos ⟨hspent, hw, by rw [hw, hcoins]; rfl⟩]
            rfl
          · rw [if_neg hw, if_neg hw, if_neg (fun hc => hw hc.2.1)]
      · rw [if_neg hspent, if_neg (fun hc => hspent hc.1)])
    t.unspentCoinWalletCache k
  have hdelete := (t.deleteQueue height).foldl_at
    (fun (unspent : WalletCoins sha256) k walletId => unspent.entry walletId k) popUnspent
    (fun e r walletId => if walletId = r.walletId then none else e walletId)
    (fun unspent r k hk => by
      funext walletId
      rw [popUnspent, GroupIndex.entry_pop, if_neg (fun hc => hk hc.2)])
    (fun unspent r => by
      funext walletId
      rw [popUnspent, GroupIndex.entry_pop]
      by_cases hw : walletId = r.walletId
      · rw [if_pos ⟨hw, rfl⟩, if_pos hw]
      · rw [if_neg (fun hc => hw hc.1), if_neg hw])
    (t.coinRecordCache.rows.foldl (unspendInWallet height) t.unspentCoinWalletCache) k
  have hentry := congrArg Prod.fst (congrFun hunspend walletId)
  rw [rollbackToBlock, congrFun hdelete walletId, deleteQueue, KeyedRows.get?_filter]
  cases hcache : t.coinRecordCache.get? k with
  | none =>
    rw [hcache] at hentry
    exact hentry
  | some r =>
    rw [hcache] at hentry
    have hentry' : GroupIndex.entry (t.coinRecordCache.rows.foldl (unspendInWallet height)
        t.unspentCoinWalletCache) walletId k =
        if height < r.spentBlockHeight ∧ walletId = r.walletId ∧
          (t.unspentCoinWalletCache.get? walletId).isSome = true then some r.unspend
        else t.unspentCoinWalletCache.entry walletId k := hentry.trans (apply_ite Prod.fst _ _ _)
    by_cases hconfirmed : height < r.confirmedBlockHeight
    · simp only [Option.filter, hconfirmed, decide_true, if_true, true_and]
      rw [hentry']
    · simp only [Option.filter, hconfirmed, decide_false, Bool.false_eq_true, if_false, false_and]
      exact hentry'

variable {t : WalletCoinStore sha256}

/-- **A rollback**: the index is right exactly if each coin that is made unspent is of a wallet in the index. -/
lemma consistent_rollback_iff (h : Consistent t) (height : ℤ) :
    Consistent (t.rollbackToBlock height) ↔ Cached t (.rollbackToBlock height) := by
  constructor
  · intro hafter r hr hspent hconfirmed
    have hcache := KeyedRows.mem_rows.mp hr
    have htable : (t.rollbackToBlock height).table.get? (r.name sha256) = some r.unspend := by
      rw [rollbackToBlock, get?_rollbackTable, ← h.cache, hcache]
      simp [Option.filter, hconfirmed, WalletCoinRecord.rolledBack, hspent]
    have hentry := (hafter.unspent r.walletId (r.name sha256) r.unspend).mpr ⟨htable, rfl, rfl⟩
    rw [entry_rollback, hcache] at hentry
    by_contra hnone
    rw [Bool.not_eq_true, Option.isSome_eq_false_iff, Option.isNone_iff_eq_none] at hnone
    simp [hconfirmed, hnone, GroupIndex.entry] at hentry
  · intro hcached
    refine ⟨fun k => ?_, fun walletId k r => ?_⟩
    · rw [get?_rollbackCache, h.cache]
      exact (get?_rollbackTable t.table height k).symm
    · rw [entry_rollback]
      show _ ↔ (rollbackTable t.table height).get? k = some r ∧ _
      rw [get?_rollbackTable, ← h.cache]
      cases hcache : t.coinRecordCache.get? k with
      | none =>
        have hbefore := h.unspent walletId k r
        rw [← h.cache, hcache] at hbefore
        exact hbefore
      | some old =>
        have hmem := (KeyedRows.get?_eq_some.mp hcache).1
        have hbefore := h.unspent walletId k r
        rw [← h.cache, hcache] at hbefore
        simp only
        by_cases hconfirmed : height < old.confirmedBlockHeight
        · -- the record is deleted
          have hnone : ¬ ((Option.some old).filter fun r => ¬ height < r.confirmedBlockHeight).map
              (WalletCoinRecord.rolledBack height) = some r := by
            simp [Option.filter, hconfirmed]
          refine ⟨fun hr => ?_, fun hr => absurd hr.1 hnone⟩
          by_cases hw : walletId = old.walletId
          · rw [if_pos ⟨hconfirmed, hw⟩] at hr
            cases hr
          · rw [if_neg (fun hc => hw hc.2), if_neg (fun hc => hw hc.2.1)] at hr
            obtain ⟨heq, -, hwallet⟩ := hbefore.mp hr
            rw [← Option.some.inj heq] at hwallet
            exact absurd hwallet.symm hw
        · rw [if_neg (fun hc => hconfirmed hc.1)]
          have hkept : ((Option.some old).filter fun r => ¬ height < r.confirmedBlockHeight).map
              (WalletCoinRecord.rolledBack height) = some (old.rolledBack height) := by
            simp [Option.filter, hconfirmed]
          rw [hkept, WalletCoinRecord.rolledBack]
          by_cases hspent : height < old.spentBlockHeight
          · have hsome := hcached old hmem hspent hconfirmed
            rw [if_pos hspent]
            by_cases hw : walletId = old.walletId
            · rw [if_pos ⟨hspent, hw, by rw [hw]; exact hsome⟩]
              constructor
              · rintro ⟨rfl⟩
                exact ⟨rfl, rfl, hw.symm⟩
              · exact fun hr => hr.1
            · rw [if_neg (fun hc => hw hc.2.1), hbefore]
              constructor
              · rintro ⟨heq, -, hwallet⟩
                rw [← Option.some.inj heq] at hwallet
                exact absurd hwallet.symm hw
              · rintro ⟨heq, -, hwallet⟩
                rw [← Option.some.inj heq] at hwallet
                exact absurd hwallet.symm hw
          · rw [if_neg (fun hc => hspent hc.1), if_neg hspent]
            exact hbefore

/-- **One method keeps the caches equal to the table** exactly if the condition holds. -/
theorem mirrorsTable_perform_iff (h : MirrorsTable t) (op : Op) :
    MirrorsTable (t.perform op) ↔ Cached t op := by
  rw [← consistent_iff]
  have h := consistent_iff.mpr h
  cases op with
  | create => exact ⟨fun _ => trivial, fun _ => consistent_create t.table⟩
  | addCoinRecord r => exact consistent_addCoinRecord_iff h r
  | setSpent coinName height => exact ⟨fun _ => trivial, fun _ => h.setSpent coinName height⟩
  | deleteCoinRecord coinName => exact ⟨fun _ => trivial, fun _ => h.deleteCoinRecord coinName⟩
  | rollbackToBlock height => exact consistent_rollback_iff h height

/-! ## Runs -/

/-- A method, as a step of a run. -/
def step (t : WalletCoinStore sha256) (op : Op) : Option (WalletCoinStore sha256) := some (t.perform op)

/-- **The caches mirror the table.** In every run from a start on whose steps meet the condition, the caches have what
the table has. -/
theorem run_coinsMirrored {table : CoinRecords sha256} {ops : List Op}
    (hcached : Transition.Along step Cached (create table) ops)
    (h : Transition.run step (create table) ops = some t) : MirrorsTable t := by
  refine Transition.invariant_along (consistent_iff.mp (consistent_create table)) (fun t op u hop hinv hu => ?_)
    hcached h
  obtain rfl := Option.some.inj hu
  exact (mirrorsTable_perform_iff hinv op).mpr hop

/-- A coin of wallet 1, confirmed at height 2. -/
def coinOfWallet (spentBlockHeight : ℕ) (spent : Bool) : WalletCoinRecord :=
  ⟨⟨Bytes32.zero, Bytes32.zero, 7⟩, 2, spentBlockHeight, spent, false, .standardWallet, 1⟩

/-- A table with a coin that was spent at height 5. -/
def spentTable (sha256 : Bytes → Bytes32) : CoinRecords sha256 := ⟨[coinOfWallet 5 true], List.nodup_singleton _⟩

/-- The coin becomes unspent, is spent again, and becomes unspent in a rollback. -/
def spendAgain : List Op :=
  [.addCoinRecord (coinOfWallet 0 false), .setSpent Bytes32.zero 6, .rollbackToBlock 3]

theorem run_coinsMirrored_spendAgain :
    ∃ t, Transition.run step (create (spentTable fun _ => Bytes32.zero)) spendAgain = some t ∧
      t.getUnspentCoinsForWallet 1 = [coinOfWallet 0 false] ∧ MirrorsTable t := by
  have hcached : Transition.Along step Cached (create (spentTable fun _ => Bytes32.zero)) spendAgain := by
    decide +kernel
  exact ⟨_, rfl, by decide +kernel, run_coinsMirrored hcached rfl⟩

/-- **Not in every run**: after a start, the wallet of a spent coin is not in the index, and a rollback that makes the
coin unspent does not put it there. -/
theorem not_coinsMirrored_rollback :
    ¬ ∃ sha256 : Bytes → Bytes32, ∀ (table : CoinRecords sha256) (ops : List Op) (t : WalletCoinStore sha256),
      Transition.run step (create table) ops = some t → MirrorsTable t := by
  rintro ⟨sha256, h⟩
  have hafter : MirrorsTable ((create (spentTable sha256)).perform (.rollbackToBlock 3)) :=
    h (spentTable sha256) [.rollbackToBlock 3] _ rfl
  have hcached := (mirrorsTable_perform_iff (consistent_iff.mp (consistent_create _)) _).mp hafter
  have hmem : coinOfWallet 5 true ∈ (create (spentTable sha256)).coinRecordCache.rows := by
    rw [KeyedRows.mem_rows, (consistent_create _).cache, ← KeyedRows.mem_rows]
    exact List.mem_singleton_self _
  have hsome := hcached (coinOfWallet 5 true) hmem (by decide) (by decide)
  cases hsome

/-! ## Balances of the past -/

/-- A coin exists at a height and is not spent there. -/
def UnspentAt (height : ℕ) (r : WalletCoinRecord) : Prop :=
  r.confirmedBlockHeight ≤ height ∧ (r.spent = false ∨ height < r.spentBlockHeight)

/-- The coins that are found for a height are the stored ones that are unspent there. -/
def BalanceExact (t : WalletCoinStore sha256) (height : ℕ) : Prop :=
  ∀ r, r ∈ t.getUnspentCoinsAtHeight (some height) ↔ r ∈ t.table.rows ∧ UnspentAt height r

/-- A rollback to the height or above only changes the marks of the coins that are found for the height. -/
def BalanceStable (t : WalletCoinStore sha256) (height : ℕ) : Prop :=
  ∀ fork : ℤ, height ≤ fork → ∀ r,
    r ∈ ((t.rollbackToBlock fork).getUnspentCoinsAtHeight (some height)).map WalletCoinRecord.unspend ↔
      r ∈ (t.getUnspentCoinsAtHeight (some height)).map WalletCoinRecord.unspend

lemma mem_getUnspentCoinsAtHeight {height : ℕ} {r : WalletCoinRecord} :
    r ∈ t.getUnspentCoinsAtHeight (some height) ↔ r ∈ t.coinRecordCache.rows ∧
      (r.spent = false ∨ height < r.spentBlockHeight ∧ r.confirmedBlockHeight ≤ height) := by
  simp [getUnspentCoinsAtHeight, List.mem_filter]

lemma mem_rollbackCache {fork : ℤ} {r : WalletCoinRecord} :
    r ∈ (t.rollbackToBlock fork).coinRecordCache.rows ↔
      ∃ old ∈ t.coinRecordCache.rows, old.confirmedBlockHeight ≤ fork ∧ old.rolledBack fork = r := by
  have hname : ∀ old : WalletCoinRecord, (old.rolledBack fork).name sha256 = old.name sha256 := by
    intro old
    rw [WalletCoinRecord.rolledBack]
    split <;> rfl
  rw [KeyedRows.mem_rows, get?_rollbackCache, Option.map_eq_some_iff]
  constructor
  · rintro ⟨old, hold, heq⟩
    obtain ⟨hget, hkept⟩ := Option.filter_eq_some_iff.mp hold
    exact ⟨old, (KeyedRows.get?_eq_some.mp hget).1, by simpa using hkept, heq⟩
  · rintro ⟨old, hold, hkept, rfl⟩
    rw [hname]
    exact ⟨old, Option.filter_eq_some_iff.mpr ⟨KeyedRows.mem_rows.mp hold, by simpa using hkept⟩, rfl⟩

/-- **Each method changes the records in memory as those of the table**, whatever the index of the unspent ones is. -/
lemma cache_perform (hcache : ∀ k, t.coinRecordCache.get? k = t.table.get? k) (op : Op) (k : Bytes32) :
    (t.perform op).coinRecordCache.get? k = (t.perform op).table.get? k := by
  have hadd : ∀ r, (t.addCoinRecord r).coinRecordCache.get? k = (t.addCoinRecord r).table.get? k := by
    intro r
    rw [addCoinRecord, KeyedRows.get?_set, KeyedRows.get?_set, hcache]
  cases op with
  | create => exact t.table.get?_foldl_set k
  | addCoinRecord r => exact hadd r
  | setSpent coinName height =>
    rw [perform, setSpent]
    cases t.getCoinRecord coinName with
    | none => exact hcache k
    | some current => exact hadd _
  | deleteCoinRecord coinName =>
    rw [perform, deleteCoinRecord]
    cases hfound : t.coinRecordCache.get? coinName with
    | none => exact (hcache k).trans (KeyedRows.get?_erase_of_none ((hcache coinName).symm.trans hfound) k).symm
    | some r => rw [KeyedRows.get?_erase, KeyedRows.get?_erase, hcache]
  | rollbackToBlock height =>
    rw [perform, get?_rollbackCache, hcache]
    exact (get?_rollbackTable t.table height k).symm

/-- The store after some methods. -/
def after (table : CoinRecords sha256) (ops : List Op) : WalletCoinStore sha256 := ops.foldl perform (create table)

lemma cache_after (table : CoinRecords sha256) (ops : List Op) (k : Bytes32) :
    (after table ops).coinRecordCache.get? k = (after table ops).table.get? k := by
  induction ops using List.reverseRecOn generalizing k with
  | nil => exact (consistent_create table).cache k
  | append_singleton ops op ih =>
    rw [after, List.foldl_append]
    exact cache_perform ih op k

/-- **When the balance of the past is exact.** In the store after any run, the coins that are found for a height are the
stored ones that are unspent there, and no rollback to the height or above changes them but in their marks, exactly if
each coin that was confirmed above the height is spent, and not after that.

**Proof sketch.** An unspent coin is found for each height. A rollback between the heights at which a coin was confirmed
and spent makes it such a coin. -/
theorem historicBalance_iff (table : CoinRecords sha256) (ops : List Op) (height : ℕ) :
    BalanceExact (after table ops) height ∧ BalanceStable (after table ops) height ↔
      ∀ r ∈ (after table ops).table.rows, height < r.confirmedBlockHeight →
        r.spent = true ∧ r.spentBlockHeight ≤ r.confirmedBlockHeight := by
  have hcache := cache_after table ops
  generalize after table ops = t at hcache ⊢
  have hrows : ∀ r, r ∈ t.coinRecordCache.rows ↔ r ∈ t.table.rows := fun r => by
    rw [KeyedRows.mem_rows, KeyedRows.mem_rows, hcache]
  constructor
  · rintro ⟨hexact, hstable⟩ r hr hlater
    have hspent : r.spent = true := by
      by_contra hspent
      have hfound : r ∈ t.getUnspentCoinsAtHeight (some height) := mem_getUnspentCoinsAtHeight.mpr
        ⟨(hrows r).mpr hr, .inl (Bool.eq_false_of_not_eq_true hspent)⟩
      have hbefore := ((hexact r).mp hfound).2.1
      omega
    refine ⟨hspent, ?_⟩
    by_contra hafter
    -- the rollback to the height at which the coin was confirmed
    have hrolled : r.unspend ∈ (t.rollbackToBlock r.confirmedBlockHeight).getUnspentCoinsAtHeight (some height) := by
      refine mem_getUnspentCoinsAtHeight.mpr ⟨mem_rollbackCache.mpr ⟨r, (hrows r).mpr hr, le_rfl, ?_⟩, .inl rfl⟩
      rw [WalletCoinRecord.rolledBack, if_pos (by omega)]
    have hmarked := (hstable r.confirmedBlockHeight (by omega) _).mp (List.mem_map_of_mem hrolled)
    obtain ⟨r', hr', heq⟩ := List.mem_map.mp hmarked
    have hsame := congrArg WalletCoinRecord.confirmedBlockHeight heq
    change r'.confirmedBlockHeight = r.confirmedBlockHeight at hsame
    have hbefore := ((hexact r').mp hr').2.1
    omega
  · intro hlater
    have hearly : ∀ r ∈ t.coinRecordCache.rows, r.spent = false → r.confirmedBlockHeight ≤ height := by
      intro r hr hspent
      by_contra hnot
      have htrue := (hlater r ((hrows r).mp hr) (by omega)).1
      rw [hspent] at htrue
      cases htrue
    refine ⟨fun r => ?_, fun fork hfork r => ?_⟩
    · rw [mem_getUnspentCoinsAtHeight, ← hrows, UnspentAt]
      constructor
      · rintro ⟨hr, hspent | ⟨hspent, hconfirmed⟩⟩
        · exact ⟨hr, hearly r hr hspent, .inl hspent⟩
        · exact ⟨hr, hconfirmed, .inr hspent⟩
      · rintro ⟨hr, hconfirmed, hspent | hspent⟩
        · exact ⟨hr, .inl hspent⟩
        · exact ⟨hr, .inr ⟨hspent, hconfirmed⟩⟩
    · simp only [List.mem_map, mem_getUnspentCoinsAtHeight, mem_rollbackCache]
      constructor
      · rintro ⟨_, ⟨⟨old, hold, hkept, rfl⟩, hfound⟩, rfl⟩
        rw [WalletCoinRecord.rolledBack] at hfound ⊢
        by_cases hspent : fork < old.spentBlockHeight
        · rw [if_pos hspent]
          refine ⟨old, ⟨hold, .inr ⟨by omega, ?_⟩⟩, rfl⟩
          by_contra hnot
          have := (hlater old ((hrows old).mp hold) (by omega)).2
          omega
        · rw [if_neg hspent] at hfound ⊢
          exact ⟨old, ⟨hold, hfound⟩, rfl⟩
      · rintro ⟨old, ⟨hold, hfound⟩, rfl⟩
        have hconfirmed : old.confirmedBlockHeight ≤ height := hfound.elim (hearly old hold) And.right
        refine ⟨old.rolledBack fork, ⟨⟨old, hold, by omega, rfl⟩, ?_⟩, ?_⟩
        · rw [WalletCoinRecord.rolledBack]
          split
          · exact .inl rfl
          · exact hfound
        · rw [WalletCoinRecord.rolledBack]
          split <;> rfl

/-- **Not in every run**: a coin that was confirmed at height 2 is found for height 1. -/
theorem not_historicBalance : ¬ ∃ sha256 : Bytes → Bytes32, ∀ (table : CoinRecords sha256) (ops : List Op) (height : ℕ),
    BalanceExact (after table ops) height ∧ BalanceStable (after table ops) height := by
  rintro ⟨sha256, h⟩
  obtain ⟨hexact, -⟩ := h .empty [.addCoinRecord (coinOfWallet 0 false)] 1
  have hfound : coinOfWallet 0 false ∈
      (@after sha256 .empty [.addCoinRecord (coinOfWallet 0 false)]).getUnspentCoinsAtHeight (some 1) :=
    mem_getUnspentCoinsAtHeight.mpr ⟨List.mem_singleton_self _, .inl rfl⟩
  have hbefore : 2 ≤ 1 := ((hexact _).mp hfound).2.1
  omega

end WalletCoinStore

end Chives
