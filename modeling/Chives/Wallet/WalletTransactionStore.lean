import Chives.Library.Keyed
import Chives.Library.Transition
import Chives.Types.Coin

set_option autoImplicit false

/-!
# The transaction store of a wallet

`wallet/wallet_transaction_store.py`: the transactions of a wallet are rows of a table, which is also kept in memory,
with an index of the unconfirmed ones by wallet.

## Main definitions

* `TransactionRecord`, `WalletTransactionStore` — a transaction, and the store with its caches and its
  table.
* `WalletTransactionStore.perform` — the methods that change it.
* `WalletTransactionStore.MirrorsTable` — the caches have what the table has.
* `WalletTransactionStore.KeepsWallet`, `WalletTransactionStore.KeepsUnconfirmed` — a record does not
  move to another wallet, and no unconfirmed record is deleted in bulk.

## Main results

* `WalletTransactionStore.mirrorsTable_perform_iff` — one method keeps the caches equal to the table exactly if
  it deletes no unconfirmed records in bulk.
* `WalletTransactionStore.run_transactionsMirrored` — the same for runs.
* `WalletTransactionStore.not_transactionsMirrored_rollback` — a rollback to height -1 leaves an unconfirmed record in
  the index.

## Design

A row stands for the record that is made from it, and all statements succeed. When transactions were submitted is not
modelled, and neither is the lock of the database. Spend bundles are not looked at.
-/

namespace Chives

/-- A transaction; `errStr` of an entry of `sentTo` is the name of an error. -/
structure TransactionRecord (σ : Type) where
  confirmedAtHeight : ℕ
  createdAtTime : ℕ
  toPuzzleHash : Bytes32
  amount : ℕ
  feeAmount : ℕ
  confirmed : Bool
  sent : ℕ
  spendBundle : Option σ
  additions : List Coin
  removals : List Coin
  walletId : ℕ
  sentTo : List (String × ℕ × Option String)
  tradeId : Option Bytes32
  type : ℕ
  name : Bytes32
  memos : List (Bytes32 × List Bytes)

variable (σ : Type)

/-- Transactions by name. -/
abbrev TransactionRecords := KeyedRows (@TransactionRecord.name σ)

/-- Transactions by wallet and name. -/
abbrev WalletTransactions := GroupIndex ℕ (@TransactionRecord.name σ)

/-- `WalletTransactionStore`. -/
structure WalletTransactionStore where
  txRecordCache : TransactionRecords σ
  unconfirmedForWallet : WalletTransactions σ
  table : TransactionRecords σ

namespace WalletTransactionStore

variable {σ}

/-! ## Methods -/

/-- The transactions of a wallet, or none if there is no such wallet in the index. -/
def unconfirmedDict (unconfirmed : WalletTransactions σ) (walletId : ℕ) : TransactionRecords σ :=
  (unconfirmed.get? walletId).getD .empty

/-- `rebuild_tx_cache`, as `create` calls it. -/
def create (table : TransactionRecords σ) : WalletTransactionStore σ where
  txRecordCache := table.rows.foldl (fun cache r => cache.set r) .empty
  unconfirmedForWallet := table.rows.foldl (fun unconfirmed r =>
    unconfirmed.set r.walletId (if r.confirmed then unconfirmedDict unconfirmed r.walletId
      else (unconfirmedDict unconfirmed r.walletId).set r)) .empty
  table := table

/-- The unconfirmed transactions of a wallet, in `add_transaction_record`. -/
def cacheUnconfirmed (unconfirmed : WalletTransactions σ) (r : TransactionRecord σ) : WalletTransactions σ :=
  unconfirmed.set r.walletId (
    if r.confirmed then
      if ((unconfirmedDict unconfirmed r.walletId).get? r.name).isSome
      then (unconfirmedDict unconfirmed r.walletId).erase r.name
      else unconfirmedDict unconfirmed r.walletId
    else (unconfirmedDict unconfirmed r.walletId).set r)

/-- `add_transaction_record`. -/
def addTransactionRecord (t : WalletTransactionStore σ) (r : TransactionRecord σ) : WalletTransactionStore σ where
  txRecordCache := t.txRecordCache.set r
  unconfirmedForWallet := cacheUnconfirmed t.unconfirmedForWallet r
  table := t.table.set r

/-- `delete_transaction_record`. -/
def deleteTransactionRecord (t : WalletTransactionStore σ) (txId : Bytes32) : WalletTransactionStore σ :=
  match t.txRecordCache.get? txId with
  | some r => ⟨t.txRecordCache.erase txId, t.unconfirmedForWallet.pop r.walletId txId, t.table.erase txId⟩
  | none => { t with table := t.table.erase txId }

/-- `get_transaction_record`. -/
def getTransactionRecord (t : WalletTransactionStore σ) (txId : Bytes32) : Option (TransactionRecord σ) :=
  match t.txRecordCache.get? txId with
  | some r => some r
  | none => t.table.get? txId

/-- `set_confirmed`. -/
def setConfirmed (t : WalletTransactionStore σ) (txId : Bytes32) (height : ℕ) : WalletTransactionStore σ :=
  match t.getTransactionRecord txId with
  | some current =>
    if current.confirmedAtHeight = height then t
    else t.addTransactionRecord { current with confirmedAtHeight := height, confirmed := true }
  | none => t

/-- How often a transaction was sent, after one more peer has answered. -/
def sentCount (current : TransactionRecord σ) (peer : String) : ℕ :=
  if peer ∈ current.sentTo.map Prod.fst then current.sent else current.sent + 1

/-- `increment_sent`, which raises an exception if the count is too large. -/
def incrementSent (t : WalletTransactionStore σ) (txId : Bytes32) (peer : String) (sendStatus : ℕ)
    (errStr : Option String) : WalletTransactionStore σ :=
  match t.getTransactionRecord txId with
  | some current =>
    if sentCount current peer < 2 ^ 32 then
      t.addTransactionRecord { current with
        sent := sentCount current peer, sentTo := current.sentTo ++ [(peer, sendStatus, errStr)] }
    else t
  | none => t

/-- `tx_reorged`. -/
def txReorged (t : WalletTransactionStore σ) (r : TransactionRecord σ) : WalletTransactionStore σ :=
  t.addTransactionRecord { r with confirmedAtHeight := 0, confirmed := false, sent := 0, sentTo := [] }

/-- `rollback_to_block`. -/
def rollbackToBlock (t : WalletTransactionStore σ) (height : ℤ) : WalletTransactionStore σ :=
  { t with
    txRecordCache := (t.txRecordCache.filter fun r => height < r.confirmedAtHeight).rows.foldl
      (fun cache r => cache.erase r.name) t.txRecordCache
    table := t.table.filter fun r => ¬ height < r.confirmedAtHeight }

/-- `delete_unconfirmed_transactions`. -/
def deleteUnconfirmedTransactions (t : WalletTransactionStore σ) (walletId : ℕ) : WalletTransactionStore σ :=
  { t with table := t.table.filter fun r => ¬ (r.confirmed = false ∧ r.walletId = walletId) }

/-- `get_unconfirmed_for_wallet`. -/
def getUnconfirmedForWallet (t : WalletTransactionStore σ) (walletId : ℕ) : List (TransactionRecord σ) :=
  t.unconfirmedForWallet.values walletId

/-- The methods that change the store. -/
inductive Op (σ : Type)
  | create
  | addTransactionRecord (r : TransactionRecord σ)
  | setConfirmed (txId : Bytes32) (height : ℕ)
  | incrementSent (txId : Bytes32) (peer : String) (sendStatus : ℕ) (errStr : Option String)
  | txReorged (r : TransactionRecord σ)
  | deleteTransactionRecord (txId : Bytes32)
  | rollbackToBlock (height : ℤ)
  | deleteUnconfirmedTransactions (walletId : ℕ)

/-- A method. -/
def perform (t : WalletTransactionStore σ) : Op σ → WalletTransactionStore σ
  | .create => create t.table
  | .addTransactionRecord r => t.addTransactionRecord r
  | .setConfirmed txId height => t.setConfirmed txId height
  | .incrementSent txId peer sendStatus errStr => t.incrementSent txId peer sendStatus errStr
  | .txReorged r => t.txReorged r
  | .deleteTransactionRecord txId => t.deleteTransactionRecord txId
  | .rollbackToBlock height => t.rollbackToBlock height
  | .deleteUnconfirmedTransactions walletId => t.deleteUnconfirmedTransactions walletId

/-- The caches have what the table has: all rows, and the unconfirmed ones by wallet. -/
structure MirrorsTable (t : WalletTransactionStore σ) : Prop where
  cache : ∀ r, r ∈ t.txRecordCache.rows ↔ r ∈ t.table.rows
  unconfirmed : ∀ walletId r, r ∈ t.getUnconfirmedForWallet walletId ↔
    r ∈ t.table.rows ∧ r.confirmed = false ∧ r.walletId = walletId

/-- A record replaces only a record of the same wallet. -/
def KeepsWallet (t : WalletTransactionStore σ) : Op σ → Prop
  | .addTransactionRecord r => ∀ old ∈ t.table.rows, old.name = r.name → old.walletId = r.walletId
  | .txReorged r => ∀ old ∈ t.table.rows, old.name = r.name → old.walletId = r.walletId
  | _ => True

/-- No unconfirmed record is deleted by a rollback or with its wallet. -/
def KeepsUnconfirmed (t : WalletTransactionStore σ) : Op σ → Prop
  | .rollbackToBlock height => ∀ r ∈ t.table.rows, height < r.confirmedAtHeight → r.confirmed = true
  | .deleteUnconfirmedTransactions walletId => ∀ r ∈ t.table.rows, r.confirmed = false → r.walletId ≠ walletId
  | _ => True

instance decidableKeepsWallet (t : WalletTransactionStore σ) : (op : Op σ) → Decidable (KeepsWallet t op)
  | .create => inferInstanceAs (Decidable True)
  | .addTransactionRecord r =>
    inferInstanceAs (Decidable (∀ old ∈ t.table.rows, old.name = r.name → old.walletId = r.walletId))
  | .setConfirmed _ _ => inferInstanceAs (Decidable True)
  | .incrementSent _ _ _ _ => inferInstanceAs (Decidable True)
  | .txReorged r =>
    inferInstanceAs (Decidable (∀ old ∈ t.table.rows, old.name = r.name → old.walletId = r.walletId))
  | .deleteTransactionRecord _ => inferInstanceAs (Decidable True)
  | .rollbackToBlock _ => inferInstanceAs (Decidable True)
  | .deleteUnconfirmedTransactions _ => inferInstanceAs (Decidable True)

instance decidableKeepsUnconfirmed (t : WalletTransactionStore σ) :
    (op : Op σ) → Decidable (KeepsUnconfirmed t op)
  | .create => inferInstanceAs (Decidable True)
  | .addTransactionRecord _ => inferInstanceAs (Decidable True)
  | .setConfirmed _ _ => inferInstanceAs (Decidable True)
  | .incrementSent _ _ _ _ => inferInstanceAs (Decidable True)
  | .txReorged _ => inferInstanceAs (Decidable True)
  | .deleteTransactionRecord _ => inferInstanceAs (Decidable True)
  | .rollbackToBlock height =>
    inferInstanceAs (Decidable (∀ r ∈ t.table.rows, height < r.confirmedAtHeight → r.confirmed = true))
  | .deleteUnconfirmedTransactions walletId =>
    inferInstanceAs (Decidable (∀ r ∈ t.table.rows, r.confirmed = false → r.walletId ≠ walletId))

/-! ## Lookups -/

/-- The caches and the table, by lookups. -/
structure Consistent (t : WalletTransactionStore σ) : Prop where
  cache : ∀ k, t.txRecordCache.get? k = t.table.get? k
  unconfirmed : t.unconfirmedForWallet.Mirrors (fun r => !r.confirmed) TransactionRecord.walletId t.table.get?

lemma consistent_iff {t : WalletTransactionStore σ} : Consistent t ↔ MirrorsTable t := by
  constructor
  · intro h
    refine ⟨fun r => by rw [KeyedRows.mem_rows, KeyedRows.mem_rows, h.cache], fun walletId r => ?_⟩
    rw [getUnconfirmedForWallet, h.unconfirmed.mem_values, KeyedRows.mem_rows]
    simp
  · intro h
    refine ⟨KeyedRows.get?_congr h.cache, GroupIndex.mirrors_of_mem_values fun walletId r => ?_⟩
    have hvalues := h.unconfirmed walletId r
    rw [getUnconfirmedForWallet] at hvalues
    rw [hvalues, ← KeyedRows.mem_rows]
    simp

lemma get?_unconfirmedDict (unconfirmed : WalletTransactions σ) (walletId : ℕ) (k : Bytes32) :
    (unconfirmedDict unconfirmed walletId).get? k = unconfirmed.entry walletId k := by
  rw [unconfirmedDict, GroupIndex.entry]
  cases unconfirmed.get? walletId with
  | none => rfl
  | some transactions => rfl

/-- The unconfirmed transactions after `add_transaction_record`. -/
lemma entry_cacheUnconfirmed (unconfirmed : WalletTransactions σ) (r : TransactionRecord σ) (walletId : ℕ)
    (k : Bytes32) :
    (cacheUnconfirmed unconfirmed r).entry walletId k =
      if walletId = r.walletId ∧ k = r.name then (if r.confirmed then none else some r)
      else unconfirmed.entry walletId k := by
  rw [cacheUnconfirmed, GroupIndex.entry_set]
  by_cases hw : walletId = r.walletId
  · subst hw
    rw [if_pos rfl]
    cases hconfirmed : r.confirmed with
    | false =>
      simp only [Bool.false_eq_true, if_false]
      rw [KeyedRows.get?_set, get?_unconfirmedDict]
      simp
    | true =>
      simp only [if_true]
      split
      · rw [KeyedRows.get?_erase, get?_unconfirmedDict]
        simp
      · rename_i habsent
        rw [get?_unconfirmedDict] at habsent ⊢
        by_cases hk : k = r.name
        · subst hk
          simpa using habsent
        · rw [if_neg (fun hc => hk hc.2)]
  · rw [if_neg hw, if_neg (fun hc => hw hc.1)]

/-! ## Single methods -/

/-- **A rebuild** makes the caches equal to the table. -/
lemma consistent_create (table : TransactionRecords σ) : Consistent (create table) := by
  refine ⟨table.get?_foldl_set, GroupIndex.mirrors_rebuild (fun unconfirmed r walletId k => ?_) table⟩
  rw [GroupIndex.entry_set]
  by_cases hw : walletId = r.walletId
  · subst hw
    rw [if_pos rfl]
    cases hconfirmed : r.confirmed with
    | false =>
      simp only [Bool.false_eq_true, if_false]
      rw [KeyedRows.get?_set, get?_unconfirmedDict]
      simp
    | true =>
      simp only [if_true]
      rw [get?_unconfirmedDict]
      simp
  · rw [if_neg hw, if_neg (fun hc => hw hc.2.1)]

variable {t : WalletTransactionStore σ}

section

variable (h : Consistent t)

include h

/-- **A record is added**, and replaces at most a record of the same wallet. -/
lemma Consistent.addTransactionRecord {r : TransactionRecord σ}
    (hwallet : ∀ old ∈ t.table.rows, old.name = r.name → old.walletId = r.walletId) :
    Consistent (t.addTransactionRecord r) := by
  have hold : ∀ u, t.table.get? r.name = some u → (!u.confirmed) = true → u.walletId = r.walletId := by
    intro u hu _
    obtain ⟨hmem, hname⟩ := KeyedRows.get?_eq_some.mp hu
    exact hwallet u hmem hname
  refine ⟨fun k => ?_, h.unconfirmed.update hold (fun k => KeyedRows.get?_set t.table r k) fun walletId k => ?_⟩
  · rw [WalletTransactionStore.addTransactionRecord, KeyedRows.get?_set, KeyedRows.get?_set, h.cache]
  · rw [WalletTransactionStore.addTransactionRecord, entry_cacheUnconfirmed]
    cases r.confirmed <;> rfl

lemma Consistent.getTransactionRecord (txId : Bytes32) : t.getTransactionRecord txId = t.table.get? txId := by
  rw [WalletTransactionStore.getTransactionRecord, h.cache]
  cases t.table.get? txId with
  | none => rfl
  | some r => rfl

lemma Consistent.rewrite {txId : Bytes32} {current r : TransactionRecord σ}
    (hcurrent : t.table.get? txId = some current) (hname : r.name = current.name)
    (hwallet : r.walletId = current.walletId) : Consistent (t.addTransactionRecord r) := by
  refine h.addTransactionRecord fun old hold holdname => ?_
  rw [t.table.eq_of_key_eq hold (KeyedRows.get?_eq_some.mp hcurrent).1 (holdname.trans hname), hwallet]

/-- **A transaction is confirmed.** -/
lemma Consistent.setConfirmed (txId : Bytes32) (height : ℕ) : Consistent (t.setConfirmed txId height) := by
  rw [WalletTransactionStore.setConfirmed, h.getTransactionRecord]
  cases htable : t.table.get? txId with
  | none => exact h
  | some current =>
    simp only
    split
    · exact h
    · exact h.rewrite htable rfl rfl

/-- **A transaction was sent.** -/
lemma Consistent.incrementSent (txId : Bytes32) (peer : String) (sendStatus : ℕ) (errStr : Option String) :
    Consistent (t.incrementSent txId peer sendStatus errStr) := by
  rw [WalletTransactionStore.incrementSent, h.getTransactionRecord]
  cases htable : t.table.get? txId with
  | none => exact h
  | some current =>
    simp only
    split
    · exact h.rewrite htable rfl rfl
    · exact h

/-- **A transaction is deleted.** -/
lemma Consistent.deleteTransactionRecord (txId : Bytes32) : Consistent (t.deleteTransactionRecord txId) := by
  rw [WalletTransactionStore.deleteTransactionRecord]
  cases hcache : t.txRecordCache.get? txId with
  | none =>
    have hnone := KeyedRows.get?_erase_of_none ((h.cache txId).symm.trans hcache)
    exact ⟨fun k => (h.cache k).trans (hnone k).symm, h.unconfirmed.congr (fun _ _ => rfl) hnone⟩
  | some r =>
    refine ⟨fun k => ?_, h.unconfirmed.pop ((h.cache txId).symm.trans hcache)⟩
    rw [KeyedRows.get?_erase, KeyedRows.get?_erase, h.cache]

/-- **Records are deleted from the table**: the index is right exactly if they are all confirmed. -/
lemma mirrors_filter_iff (p : TransactionRecord σ → Bool) :
    t.unconfirmedForWallet.Mirrors (fun r => !r.confirmed) TransactionRecord.walletId (t.table.filter p).get? ↔
      ∀ r ∈ t.table.rows, p r = false → r.confirmed = true := by
  constructor
  · intro hafter r hr hp
    by_contra hconfirmed
    have hentry := (h.unconfirmed r.walletId r.name r).mpr ⟨KeyedRows.mem_rows.mp hr, by simpa using hconfirmed, rfl⟩
    have hget := ((hafter _ _ _).mp hentry).1
    rw [KeyedRows.get?_filter, Option.filter_eq_some_iff, hp] at hget
    cases hget.2
  · intro hkept walletId k r
    rw [h.unconfirmed walletId k r, KeyedRows.get?_filter, Option.filter_eq_some_iff]
    constructor
    · rintro ⟨hget, hlive, hwallet⟩
      refine ⟨⟨hget, ?_⟩, hlive, hwallet⟩
      by_contra hp
      have hconfirmed := hkept r (KeyedRows.get?_eq_some.mp hget).1 (by simpa using hp)
      simp [hconfirmed] at hlive
    · rintro ⟨⟨hget, -⟩, hlive, hwallet⟩
      exact ⟨hget, hlive, hwallet⟩

/-- **A rollback** keeps the caches equal to the table exactly if it deletes no unconfirmed records. -/
lemma consistent_rollback_iff (height : ℤ) :
    Consistent (t.rollbackToBlock height) ↔ KeepsUnconfirmed t (.rollbackToBlock height) := by
  have hcache : ∀ k, (t.rollbackToBlock height).txRecordCache.get? k = (t.rollbackToBlock height).table.get? k := by
    intro k
    rw [rollbackToBlock, KeyedRows.get?_foldl_erase, KeyedRows.get?_filter, KeyedRows.get?_filter, h.cache]
    cases t.table.get? k with
    | none => rfl
    | some r =>
      by_cases hconfirmed : height < r.confirmedAtHeight
      · simp [Option.filter, hconfirmed]
      · simp [Option.filter, hconfirmed]
  have hiff := mirrors_filter_iff h fun r => ¬ height < r.confirmedAtHeight
  constructor
  · intro hafter r hr hheight
    exact hiff.mp hafter.unconfirmed r hr (by simp [hheight])
  · intro hkept
    exact ⟨hcache, hiff.mpr fun r hr hp => hkept r hr (by simpa using hp)⟩

/-- **The unconfirmed transactions of a wallet are deleted**: the caches are right exactly if there are none. -/
lemma consistent_deleteUnconfirmed_iff (walletId : ℕ) :
    Consistent (t.deleteUnconfirmedTransactions walletId) ↔
      KeepsUnconfirmed t (.deleteUnconfirmedTransactions walletId) := by
  have hiff := mirrors_filter_iff h fun r => ¬ (r.confirmed = false ∧ r.walletId = walletId)
  constructor
  · intro hafter r hr hconfirmed hwallet
    have htrue := hiff.mp hafter.unconfirmed r hr (by simp [hconfirmed, hwallet])
    rw [hconfirmed] at htrue
    cases htrue
  · intro hkept
    have hall : ∀ r ∈ t.table.rows, ¬ (r.confirmed = false ∧ r.walletId = walletId) := fun r hr hc =>
      hkept r hr hc.1 hc.2
    refine ⟨fun k => ?_, hiff.mpr fun r hr hp => absurd (by simpa using hp) (hall r hr)⟩
    show t.txRecordCache.get? k = (t.table.filter _).get? k
    rw [KeyedRows.get?_filter, h.cache]
    cases htable : t.table.get? k with
    | none => rfl
    | some r =>
      have hr := hall r (KeyedRows.get?_eq_some.mp htable).1
      rw [Option.filter_some, decide_eq_true hr]
      rfl

end

/-- **One method keeps the caches equal to the table** exactly if it deletes no unconfirmed records in bulk. -/
theorem mirrorsTable_perform_iff (h : MirrorsTable t) {op : Op σ} (hwallet : KeepsWallet t op) :
    MirrorsTable (t.perform op) ↔ KeepsUnconfirmed t op := by
  rw [← consistent_iff]
  have h := consistent_iff.mpr h
  cases op with
  | create => exact ⟨fun _ => trivial, fun _ => consistent_create t.table⟩
  | addTransactionRecord r => exact ⟨fun _ => trivial, fun _ => h.addTransactionRecord hwallet⟩
  | setConfirmed txId height => exact ⟨fun _ => trivial, fun _ => h.setConfirmed txId height⟩
  | incrementSent txId peer sendStatus errStr =>
    exact ⟨fun _ => trivial, fun _ => h.incrementSent txId peer sendStatus errStr⟩
  | txReorged r => exact ⟨fun _ => trivial, fun _ => h.addTransactionRecord hwallet⟩
  | deleteTransactionRecord txId => exact ⟨fun _ => trivial, fun _ => h.deleteTransactionRecord txId⟩
  | rollbackToBlock height => exact consistent_rollback_iff h height
  | deleteUnconfirmedTransactions walletId => exact consistent_deleteUnconfirmed_iff h walletId

/-! ## Runs -/

/-- A method, as a step of a run. -/
def step (t : WalletTransactionStore σ) (op : Op σ) : Option (WalletTransactionStore σ) := some (t.perform op)

/-- **The caches mirror the table.** In every run from a start on in which records keep their wallets and no
unconfirmed record is deleted in bulk, the caches have what the table has. -/
theorem run_transactionsMirrored {table : TransactionRecords σ} {ops : List (Op σ)}
    (hwallet : Transition.Along step KeepsWallet (create table) ops)
    (hkept : Transition.Along step KeepsUnconfirmed (create table) ops)
    (h : Transition.run step (create table) ops = some t) : MirrorsTable t := by
  refine Transition.invariant_along (consistent_iff.mp (consistent_create table)) (fun t op u hop hinv hu => ?_)
    (hwallet.and hkept) h
  obtain rfl := Option.some.inj hu
  exact (mirrorsTable_perform_iff hinv hop.1).mpr hop.2

/-- A transaction of wallet 1. -/
def sampleTransaction (name : ℕ) (confirmedAtHeight : ℕ) (confirmed : Bool) : TransactionRecord Unit :=
  ⟨confirmedAtHeight, 0, Bytes32.zero, 10, 1, confirmed, 0, none, [], [], 1, [], none, 1, Bytes32.ofNat name, []⟩

/-- A transaction is sent and confirmed, another one is deleted, and a rollback deletes the first one. -/
def sendAndConfirm : List (Op Unit) :=
  [.addTransactionRecord (sampleTransaction 1 0 false), .incrementSent (Bytes32.ofNat 1) "peer" 1 none,
    .addTransactionRecord (sampleTransaction 2 0 false), .setConfirmed (Bytes32.ofNat 1) 7,
    .deleteTransactionRecord (Bytes32.ofNat 2), .rollbackToBlock 6, .txReorged (sampleTransaction 1 7 true)]

theorem run_transactionsMirrored_sendAndConfirm :
    ∃ t, Transition.run step (create (KeyedRows.empty : TransactionRecords Unit)) sendAndConfirm = some t ∧
      (t.getUnconfirmedForWallet 1).length = 1 ∧ MirrorsTable t := by
  have hwallet : Transition.Along step KeepsWallet (create (KeyedRows.empty : TransactionRecords Unit)) sendAndConfirm := by
    decide +kernel
  have hkept : Transition.Along step KeepsUnconfirmed (create (KeyedRows.empty : TransactionRecords Unit))
      sendAndConfirm := by
    decide +kernel
  exact ⟨_, rfl, by decide +kernel, run_transactionsMirrored hwallet hkept rfl⟩

/-- **Not in every run**: a rollback to height -1 deletes an unconfirmed record, and leaves it in the index. -/
theorem not_transactionsMirrored_rollback :
    ¬ ∀ (table : TransactionRecords Unit) (ops : List (Op Unit)) (t : WalletTransactionStore Unit),
      Transition.Along step KeepsWallet (create table) ops → Transition.run step (create table) ops = some t →
      MirrorsTable t := by
  intro h
  have hafter := h .empty [.addTransactionRecord (sampleTransaction 1 0 false), .rollbackToBlock (-1)] _
    (by decide +kernel) rfl
  have hvalues := (hafter.unconfirmed 1 (sampleTransaction 1 0 false)).mp (List.mem_singleton_self _)
  cases hvalues.1

end WalletTransactionStore

end Chives
