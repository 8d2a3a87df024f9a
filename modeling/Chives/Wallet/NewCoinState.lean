import Chives.Consensus.BlockRewards
import Chives.Library.Lifespan
import Chives.Types.CoinState
import Chives.Wallet.WalletCoinStore

set_option autoImplicit false

/-!
# Coin states in the coin store of a wallet

`new_coin_state` and `coin_added` of `wallet/wallet_state_manager.py`, as far as the coin store goes.

## Main definitions

* `WalletCoinStore.coinAdded`, `WalletCoinStore.newCoinState` — the two methods.
* `WalletCoinStore.Elsewhere` — what the methods find and do outside of the coin store.
* `WalletCoinStore.known` — what the store knows of the life of a coin.
* `WalletCoinStore.Tidy` — the cache agrees with the table, and the records are of known coins.

## Main results

* `WalletCoinStore.known_rollbackToBlock` — a rollback undoes what is known.
* `WalletCoinStore.known_handleCoinState` — a state of a coin of a standard wallet is learnt, and no other one is.

## Design

Nothing that is written about transactions is part of the model, nor are the records of wallets of other kinds: what
these do to the coin store after a state has been handled is given with the state, and so is whether anything that is
asked of a peer fails.
-/

namespace Chives

open Lifespan

namespace WalletCoinStore

variable {sha256 : Bytes → Bytes32}

/-! ## Methods -/

section Methods

/-- What is done to the coin store by wallets that are not standard wallets. -/
inductive OtherWrite
  /-- `coin_added`, for a coin that a wallet finds itself. -/
  | coinAdded (coin : Coin) (height : ℕ) (walletId : ℤ) (walletType : WalletType)
  | setSpent (coin : Coin) (height : ℕ)
  | deleteCoinRecord (coin : Coin)

/-- The coin of a record that another wallet writes. -/
def OtherWrite.coin : OtherWrite → Coin
  | .coinAdded coin _ _ _ => coin
  | .setSpent coin _ => coin
  | .deleteCoinRecord coin => coin

/-- What is found and done outside of the coin store for one state: the wallet of the puzzle hash
(`get_wallet_id_for_puzzle_hash`) and the one that `determine_coin_type` finds or makes, whether anything raises an
exception, and what other wallets write. -/
structure Elsewhere where
  walletInfo : Option (ℤ × WalletType)
  determined : Option (ℤ × WalletType)
  raises : Bool
  others : List OtherWrite

/-- The heights at which a reward that is confirmed at a height may have been earned. -/
def rewardHeights (createdHeight : ℕ) : List ℕ := (List.range 30).filterMap fun i =>
  if i ≤ createdHeight then some (createdHeight - i) else none

/-- `is_pool_reward`. -/
def isPoolReward (genesisChallenge : Bytes32) (createdHeight : ℕ) (parentId : Bytes32) : Bool :=
  (rewardHeights createdHeight).any fun tryHeight => poolParentId tryHeight genesisChallenge = parentId

/-- `is_farmer_reward`. -/
def isFarmerReward (genesisChallenge : Bytes32) (createdHeight : ℕ) (parentId : Bytes32) : Bool :=
  (rewardHeights createdHeight).any fun tryHeight => farmerParentId tryHeight genesisChallenge = parentId

variable (genesisChallenge : Bytes32)

/-- The record of a coin that is first seen; the spend height is 0 if it is not spent. -/
def newRecord (coin : Coin) (createdHeight spentHeight : ℕ) (spent : Bool) (wallet : ℤ × WalletType) :
    WalletCoinRecord where
  coin := coin
  confirmedBlockHeight := createdHeight
  spentBlockHeight := spentHeight
  spent := spent
  coinbase := isFarmerReward genesisChallenge createdHeight coin.parentCoinInfo ||
    isPoolReward genesisChallenge createdHeight coin.parentCoinInfo
  walletType := wallet.2
  walletId := wallet.1

/-- `coin_added`. -/
def coinAdded (t : WalletCoinStore sha256) (coin : Coin) (height : ℕ) (wallet : ℤ × WalletType) :
    WalletCoinStore sha256 :=
  match t.getCoinRecord (coin.name sha256) with
  | some _ => t
  | none => t.addCoinRecord (newRecord genesisChallenge coin height 0 false wallet)

/-- What another wallet does. -/
def otherWrite (t : WalletCoinStore sha256) : OtherWrite → WalletCoinStore sha256
  | .coinAdded coin height walletId walletType => t.coinAdded genesisChallenge coin height (walletId, walletType)
  | .setSpent coin height => t.setSpent (coin.name sha256) height
  | .deleteCoinRecord coin => t.deleteCoinRecord (coin.name sha256)

/-- The spend height of a record, if it is not 0. -/
def localSpent (r : WalletCoinRecord) : Option ℕ := if r.spentBlockHeight ≠ 0 then some r.spentBlockHeight else none

/-- The wallet that a state is handled for. -/
def walletOf (localRecord : Option WalletCoinRecord) (cs : CoinState) (e : Elsewhere) : Option (ℤ × WalletType) :=
  match e.walletInfo with
  | some wallet => some wallet
  | none =>
    match localRecord with
    | some r => some (r.walletId, r.walletType)
    | none => if cs.createdHeight.isSome then e.determined else none

/-- A coin that was created and spent. -/
def coinRemoved (t : WalletCoinStore sha256) (coin : Coin) (createdHeight spentHeight : ℕ)
    (wallet : ℤ × WalletType) : WalletCoinStore sha256 :=
  match t.getCoinRecord (coin.name sha256) with
  | none => t.addCoinRecord (newRecord genesisChallenge coin createdHeight spentHeight true wallet)
  | some _ => t.setSpent (coin.name sha256) spentHeight

/-- One state of `new_coin_state`. -/
def handleCoinState (t : WalletCoinStore sha256) (cs : CoinState) (e : Elsewhere) : WalletCoinStore sha256 :=
  let localRecord := t.getCoinRecord (cs.coin.name sha256)
  if localRecord.any fun r =>
      localSpent r = cs.spentHeight ∧ some r.confirmedBlockHeight = cs.createdHeight then t
  else
    match walletOf localRecord cs e with
    | none => t
    | some wallet =>
      match cs.createdHeight, cs.spentHeight with
      -- a coin that was reorged is left to the rollback
      | none, _ => t
      | some created, none =>
        e.others.foldl (otherWrite genesisChallenge) (t.coinAdded genesisChallenge cs.coin created wallet)
      | some created, some spent =>
        e.others.foldl (otherWrite genesisChallenge) (t.coinRemoved genesisChallenge cs.coin created spent wallet)

/-- The first loop of `new_coin_state`. -/
def checkSorted (currH : ℤ) : List CoinState → Bool
  | [] => true
  | cs :: rest => if (lastChangeHeightCs cs : ℤ) < currH then false else checkSorted (lastChangeHeightCs cs) rest

/-- The second loop of `new_coin_state`. -/
def handleCoinStates (t : WalletCoinStore sha256) : List (CoinState × Elsewhere) → Option (WalletCoinStore sha256)
  | [] => some t
  | (cs, e) :: rest => if e.raises then none else (t.handleCoinState genesisChallenge cs e).handleCoinStates rest

/-- `new_coin_state`; `none` if it raises an exception. -/
def newCoinState (t : WalletCoinStore sha256) (states : List (CoinState × Elsewhere)) :
    Option (WalletCoinStore sha256) :=
  if checkSorted (-1) (states.map Prod.fst) then t.handleCoinStates genesisChallenge states else none

end Methods

/-! ## What the store knows -/

/-- The life of a coin in its record. -/
def recordLife (r : WalletCoinRecord) : ℕ × Option ℕ :=
  (r.confirmedBlockHeight, if r.spent then some r.spentBlockHeight else none)

/-- The life of a coin in a state. -/
def stateLife (cs : CoinState) : Life := cs.createdHeight.map fun created => (created, cs.spentHeight)

/-- What the store knows of the life of a coin. -/
def known (t : WalletCoinStore sha256) (c : Coin) : Life := (t.table.get? (c.name sha256)).map recordLife

/-- A coin has a spend height exactly if it is spent. -/
def Sound (r : WalletCoinRecord) : Prop := r.spent = true ↔ 0 < r.spentBlockHeight

/-- The cache agrees with the table; the records are of known coins, and those of coins of a standard wallet are
sound. -/
structure Tidy (standard : Set Bytes32) (coins : Set Coin) (t : WalletCoinStore sha256) : Prop where
  cache : ∀ k, t.coinRecordCache.get? k = t.table.get? k
  coin_mem : ∀ r ∈ t.table.rows, r.coin ∈ coins
  sound : ∀ r ∈ t.table.rows, r.coin.puzzleHash ∈ standard → Sound r

variable {standard : Set Bytes32} {coins : Set Coin} {t : WalletCoinStore sha256} {c x : Coin}
  {genesisChallenge : Bytes32}

lemma Tidy.getCoinRecord_eq (h : Tidy standard coins t) (k : Bytes32) : t.getCoinRecord k = t.table.get? k := by
  rw [getCoinRecord, h.cache]
  cases t.table.get? k with
  | none => rfl
  | some r => rfl

variable {r : WalletCoinRecord}

lemma Tidy.coin_eq (h : Tidy standard coins t) (hids : Set.InjOn (Coin.name sha256) coins) (hx : x ∈ coins)
    (hr : t.table.get? (x.name sha256) = some r) : r.coin = x := by
  obtain ⟨hmem, hname⟩ := KeyedRows.get?_eq_some.mp hr
  exact hids (h.coin_mem r hmem) hx hname

lemma nodup_coins (records : CoinRecords sha256) : (records.rows.map WalletCoinRecord.coin).Nodup := by
  have hnames := records.nodup
  have hmap : records.rows.map (WalletCoinRecord.name sha256) =
      (records.rows.map WalletCoinRecord.coin).map (Coin.name sha256) := by
    rw [List.map_map]
    rfl
  rw [hmap] at hnames
  exact List.Nodup.of_map _ hnames

lemma localSpent_eq (h : Sound r) : localSpent r = (recordLife r).2 := by
  rw [localSpent, recordLife]
  by_cases hspent : r.spent = true
  · have hpos := h.mp hspent
    rw [if_pos (by omega), if_pos hspent]
  · have hzero : ¬ 0 < r.spentBlockHeight := fun hpos => hspent (h.mpr hpos)
    rw [if_neg (by omega), if_neg hspent]

/-! ## Records that are added -/

lemma known_addCoinRecord (hids : Set.InjOn (Coin.name sha256) coins) (hc : c ∈ coins) (hr : r.coin ∈ coins) :
    known (t.addCoinRecord r) c = if c = r.coin then some (recordLife r) else known t c := by
  show ((t.table.set r).get? (c.name sha256)).map recordLife = _
  rw [KeyedRows.get?_set]
  by_cases heq : c = r.coin
  · have hname : c.name sha256 = r.name sha256 := congrArg (Coin.name sha256) heq
    rw [if_pos heq, if_pos hname]
    rfl
  · have hname : c.name sha256 ≠ r.name sha256 := fun hname => heq (hids hc hr hname)
    rw [if_neg heq, if_neg hname]
    rfl

section

variable (h : Tidy standard coins t)

include h

lemma Tidy.addCoinRecord (hr : r.coin ∈ coins) (hsound : r.coin.puzzleHash ∈ standard → Sound r) :
    Tidy standard coins (t.addCoinRecord r) := by
  have hrows : ∀ u ∈ (t.addCoinRecord r).table.rows, u = r ∨ u ∈ t.table.rows := by
    intro u hu
    have hget : (t.table.set r).get? (u.name sha256) = some u := KeyedRows.mem_rows.mp hu
    rw [KeyedRows.get?_set] at hget
    split at hget
    · exact .inl (Option.some.inj hget).symm
    · exact .inr (KeyedRows.mem_rows.mpr hget)
  refine ⟨fun k => ?_, fun u hu => ?_, fun u hu hstd => ?_⟩
  · rw [WalletCoinStore.addCoinRecord, KeyedRows.get?_set, KeyedRows.get?_set, h.cache]
  · rcases hrows u hu with rfl | hu
    · exact hr
    · exact h.coin_mem u hu
  · rcases hrows u hu with rfl | hu
    · exact hsound hstd
    · exact h.sound u hu hstd

/-- `coin_added` tells of a coin that is not spent. -/
lemma known_coinAdded (hids : Set.InjOn (Coin.name sha256) coins) (hc : c ∈ coins) (hx : x ∈ coins) (height : ℕ)
    (wallet : ℤ × WalletType) :
    known (t.coinAdded genesisChallenge x height wallet) c =
      if c = x then learn (known t x) (some (height, none)) else known t c := by
  rw [coinAdded, h.getCoinRecord_eq]
  cases hget : t.table.get? (x.name sha256) with
  | none =>
    have hknown : known t x = none := by rw [known, hget, Option.map_none]
    rw [hknown]
    exact known_addCoinRecord hids hc hx
  | some r =>
    have hknown : known t x = some (recordLife r) := by rw [known, hget, Option.map_some]
    by_cases heq : c = x
    · rw [if_pos heq, heq, hknown]
      rfl
    · rw [if_neg heq]

lemma Tidy.coinAdded (hx : x ∈ coins) (height : ℕ) (wallet : ℤ × WalletType) :
    Tidy standard coins (t.coinAdded genesisChallenge x height wallet) := by
  rw [WalletCoinStore.coinAdded]
  split
  · exact h
  · exact h.addCoinRecord hx fun _ => by simp [Sound, newRecord]

/-! ## Coins that are spent or deleted -/

lemma known_setSpent (hids : Set.InjOn (Coin.name sha256) coins) (hc : c ∈ coins) (hx : x ∈ coins) (height : ℕ) :
    known (t.setSpent (x.name sha256) height) c =
      if c = x then (known t x).map fun l => (l.1, some height) else known t c := by
  rw [setSpent, h.getCoinRecord_eq]
  cases hget : t.table.get? (x.name sha256) with
  | none =>
    have hknown : known t x = none := by rw [known, hget, Option.map_none]
    by_cases heq : c = x
    · rw [if_pos heq, heq, hknown]
      rfl
    · rw [if_neg heq]
  | some r =>
    obtain rfl := h.coin_eq hids hx hget
    have hknown : known t r.coin = some (recordLife r) := by rw [known, hget, Option.map_some]
    rw [hknown]
    exact known_addCoinRecord hids hc hx

lemma Tidy.setSpent (hids : Set.InjOn (Coin.name sha256) coins) (hx : x ∈ coins) {height : ℕ}
    (hpos : x.puzzleHash ∈ standard → 0 < height) : Tidy standard coins (t.setSpent (x.name sha256) height) := by
  rw [WalletCoinStore.setSpent, h.getCoinRecord_eq]
  cases hget : t.table.get? (x.name sha256) with
  | none => exact h
  | some r =>
    obtain rfl := h.coin_eq hids hx hget
    exact h.addCoinRecord hx fun hstd => by simpa [Sound] using hpos hstd

lemma known_coinRemoved (hids : Set.InjOn (Coin.name sha256) coins) (hc : c ∈ coins) (hx : x ∈ coins)
    (createdHeight spentHeight : ℕ) (wallet : ℤ × WalletType) :
    known (t.coinRemoved genesisChallenge x createdHeight spentHeight wallet) c =
      if c = x then learn (known t x) (some (createdHeight, some spentHeight)) else known t c := by
  rw [coinRemoved, h.getCoinRecord_eq]
  cases hget : t.table.get? (x.name sha256) with
  | none =>
    have hknown : known t x = none := by rw [known, hget, Option.map_none]
    rw [hknown]
    exact known_addCoinRecord hids hc hx
  | some r =>
    simp only [known_setSpent h hids hc hx]
    have hknown : known t x = some (recordLife r) := by rw [known, hget, Option.map_some]
    rw [hknown]
    rfl

lemma Tidy.coinRemoved (hids : Set.InjOn (Coin.name sha256) coins) (hx : x ∈ coins) (createdHeight : ℕ)
    {spentHeight : ℕ} (wallet : ℤ × WalletType) (hpos : x.puzzleHash ∈ standard → 0 < spentHeight) :
    Tidy standard coins (t.coinRemoved genesisChallenge x createdHeight spentHeight wallet) := by
  rw [WalletCoinStore.coinRemoved]
  split
  · exact h.addCoinRecord hx fun hstd => by simpa [Sound, newRecord] using hpos hstd
  · exact h.setSpent hids hx hpos

end

lemma known_deleteCoinRecord (hids : Set.InjOn (Coin.name sha256) coins) (hc : c ∈ coins) (hx : x ∈ coins)
    (hne : c ≠ x) : known (t.deleteCoinRecord (x.name sha256)) c = known t c := by
  have htable : (t.deleteCoinRecord (x.name sha256)).table = t.table.erase (x.name sha256) := by
    rw [deleteCoinRecord]
    split <;> rfl
  rw [known, htable, KeyedRows.get?_erase, if_neg fun hname => hne (hids hc hx hname)]
  rfl

lemma Tidy.deleteCoinRecord (h : Tidy standard coins t) (k : Bytes32) :
    Tidy standard coins (t.deleteCoinRecord k) := by
  have htable : (t.deleteCoinRecord k).table = t.table.erase k := by
    rw [WalletCoinStore.deleteCoinRecord]
    split <;> rfl
  have hrows : ∀ u ∈ (t.deleteCoinRecord k).table.rows, u ∈ t.table.rows := by
    intro u hu
    rw [htable] at hu
    exact (List.mem_filter.mp hu).1
  refine ⟨fun k' => ?_, fun u hu => h.coin_mem u (hrows u hu), fun u hu => h.sound u (hrows u hu)⟩
  rw [htable, KeyedRows.get?_erase, WalletCoinStore.deleteCoinRecord]
  cases hcache : t.coinRecordCache.get? k with
  | none =>
    show t.coinRecordCache.get? k' = _
    split
    · rename_i hk
      rw [hk, hcache]
    · exact h.cache k'
  | some r =>
    show (t.coinRecordCache.erase k).get? k' = _
    rw [KeyedRows.get?_erase, h.cache]

/-! ## Rollbacks -/

lemma recordLife_rolledBack (r : WalletCoinRecord) (height : ℤ) :
    recordLife (r.rolledBack height) =
      ((recordLife r).1, (recordLife r).2.filter fun d : ℕ => (d : ℤ) ≤ height) := by
  rw [WalletCoinRecord.rolledBack]
  by_cases hspent : r.spent = true
  · by_cases hheight : height < r.spentBlockHeight
    · simp [recordLife, WalletCoinRecord.unspend, hspent, hheight, Option.filter]
    · have hle : (r.spentBlockHeight : ℤ) ≤ height := by omega
      simp [recordLife, hspent, hheight, hle, Option.filter]
  · simp only [recordLife, hspent]
    split <;> simp [WalletCoinRecord.unspend]

lemma known_rollbackToBlock (t : WalletCoinStore sha256) (height : ℤ) (c : Coin) :
    known (t.rollbackToBlock height) c = undo height (known t c) := by
  show ((rollbackTable t.table height).get? (c.name sha256)).map recordLife = _
  rw [get?_rollbackTable, known]
  cases t.table.get? (c.name sha256) with
  | none => rfl
  | some r =>
    by_cases hconfirmed : (r.confirmedBlockHeight : ℤ) ≤ height
    · have hlife : ((recordLife r).1 : ℤ) ≤ height := hconfirmed
      simp [undo, Option.filter, hconfirmed, hlife, recordLife_rolledBack]
    · have hlife : ¬ ((recordLife r).1 : ℤ) ≤ height := hconfirmed
      simp [undo, Option.filter, hconfirmed, hlife]

section

variable (h : Tidy standard coins t)

include h

lemma Tidy.rollbackToBlock (height : ℤ) : Tidy standard coins (t.rollbackToBlock height) := by
  have hrows : ∀ u ∈ (t.rollbackToBlock height).table.rows, ∃ r ∈ t.table.rows, u = r.rolledBack height := by
    intro u hu
    obtain ⟨r, hr, rfl⟩ := List.mem_map.mp hu
    exact ⟨r, (List.mem_filter.mp hr).1, rfl⟩
  have hcoin : ∀ r : WalletCoinRecord, (r.rolledBack height).coin = r.coin := by
    intro r
    rw [WalletCoinRecord.rolledBack]
    split <;> rfl
  refine ⟨fun k => ?_, fun u hu => ?_, fun u hu hstd => ?_⟩
  · rw [get?_rollbackCache, h.cache]
    exact (get?_rollbackTable t.table height k).symm
  · obtain ⟨r, hr, rfl⟩ := hrows u hu
    rw [hcoin]
    exact h.coin_mem r hr
  · obtain ⟨r, hr, rfl⟩ := hrows u hu
    rw [hcoin] at hstd
    have hsound := h.sound r hr hstd
    rw [WalletCoinRecord.rolledBack]
    split
    · simp [Sound, WalletCoinRecord.unspend]
    · exact hsound

lemma Tidy.create : Tidy standard coins (create t.table) :=
  ⟨fun k => t.table.get?_foldl_set k, h.coin_mem, h.sound⟩

/-! ## Single states -/

lemma known_otherWrite (hids : Set.InjOn (Coin.name sha256) coins) (hc : c ∈ coins) {w : OtherWrite}
    (hw : w.coin ∈ coins) (hne : c ≠ w.coin) : known (t.otherWrite genesisChallenge w) c = known t c := by
  cases w with
  | coinAdded x height walletId walletType =>
    exact (known_coinAdded h hids hc hw height (walletId, walletType)).trans (if_neg hne)
  | setSpent x height => exact (known_setSpent h hids hc hw height).trans (if_neg hne)
  | deleteCoinRecord x => exact known_deleteCoinRecord hids hc hw hne

lemma Tidy.otherWrite (hids : Set.InjOn (Coin.name sha256) coins) {w : OtherWrite} (hw : w.coin ∈ coins)
    (hother : w.coin.puzzleHash ∉ standard) : Tidy standard coins (t.otherWrite genesisChallenge w) := by
  cases w with
  | coinAdded x height walletId walletType => exact h.coinAdded hw height (walletId, walletType)
  | setSpent x height => exact h.setSpent hids hw fun hstd => absurd hstd hother
  | deleteCoinRecord x => exact h.deleteCoinRecord _

end

lemma known_otherWrites (genesisChallenge : Bytes32) (h : Tidy standard coins t)
    (hids : Set.InjOn (Coin.name sha256) coins) {others : List OtherWrite} (hothers : ∀ w ∈ others, w.coin ∈ coins ∧ w.coin.puzzleHash ∉ standard) :
    Tidy standard coins (others.foldl (WalletCoinStore.otherWrite genesisChallenge) t) ∧
      ∀ c ∈ coins, c.puzzleHash ∈ standard →
        known (others.foldl (WalletCoinStore.otherWrite genesisChallenge) t) c = known t c := by
  induction others generalizing t with
  | nil => exact ⟨h, fun _ _ _ => rfl⟩
  | cons w others ih =>
    obtain ⟨hw, hother⟩ := hothers w (List.mem_cons_self ..)
    obtain ⟨htidy, hknown⟩ := ih (h.otherWrite hids hw hother) fun w' hw' => hothers w' (List.mem_cons_of_mem _ hw')
    refine ⟨htidy, fun c hc hstd => ?_⟩
    rw [List.foldl_cons, hknown c hc hstd, known_otherWrite h hids hc hw]
    rintro rfl
    exact hother hstd

/-- What a call is given for one state: the wallet of a standard puzzle hash is found, a coin is not spent at height 0,
and other wallets only write about other coins. -/
structure Handled (standard : Set Bytes32) (coins : Set Coin) (cs : CoinState) (e : Elsewhere) : Prop where
  coin_mem : cs.coin ∈ coins
  wallet : cs.coin.puzzleHash ∈ standard → ∃ walletId, e.walletInfo = some (walletId, .standardWallet)
  pos : cs.coin.puzzleHash ∈ standard → ∀ d, cs.spentHeight = some d → 0 < d
  others : ∀ w ∈ e.others, w.coin ∈ coins ∧ w.coin.puzzleHash ∉ standard

/-- **One state**: what it says of a coin of a standard wallet is learnt, and nothing else is.

**Proof sketch.** If the record says the same as the state, there is nothing to learn. A coin that was not created is
skipped. Otherwise `coin_added` or `coinRemoved` learns what the state says, and other wallets do not interfere. -/
lemma handleCoinState_spec (genesisChallenge : Bytes32) (h : Tidy standard coins t)
    (hids : Set.InjOn (Coin.name sha256) coins) {cs : CoinState} {e : Elsewhere} (he : Handled standard coins cs e) :
    Tidy standard coins (t.handleCoinState genesisChallenge cs e) ∧
      ∀ c ∈ coins, c.puzzleHash ∈ standard → known (t.handleCoinState genesisChallenge cs e) c =
        if c = cs.coin then learn (known t cs.coin) (stateLife cs) else known t c := by
  have hskip : ∀ c ∈ coins, c.puzzleHash ∈ standard →
      (c = cs.coin → learn (known t cs.coin) (stateLife cs) = known t cs.coin) →
      known t c = if c = cs.coin then learn (known t cs.coin) (stateLife cs) else known t c := by
    intro c _ _ hlearn
    by_cases heq : c = cs.coin
    · rw [if_pos heq, hlearn heq, heq]
    · rw [if_neg heq]
  simp only [handleCoinState]
  split
  · -- the record says the same
    rename_i hsame
    refine ⟨h, fun c hc hstd => hskip c hc hstd ?_⟩
    rintro rfl
    rw [h.getCoinRecord_eq] at hsame
    cases hget : t.table.get? (cs.coin.name sha256) with
    | none =>
      rw [hget] at hsame
      cases hsame
    | some r =>
      rw [hget, Option.any_some, decide_eq_true_eq] at hsame
      obtain ⟨hspent, hcreated⟩ := hsame
      have hsound : Sound r := by
        refine h.sound r (KeyedRows.get?_eq_some.mp hget).1 ?_
        rw [h.coin_eq hids hc hget]
        exact hstd
      rw [localSpent_eq hsound] at hspent
      have hlife : stateLife cs = some (recordLife r) := by
        rw [stateLife, ← hcreated, ← hspent]
        rfl
      rw [hlife, known, hget, Option.map_some]
      exact learn_eq (.refl _)
  · split
    · -- no wallet
      rename_i hnone
      refine ⟨h, fun c hc hstd => hskip c hc hstd ?_⟩
      rintro rfl
      obtain ⟨walletId, hwallet⟩ := he.wallet hstd
      simp only [walletOf, hwallet] at hnone
      cases hnone
    · rename_i wallet hwallet
      split
      · -- a coin that was reorged
        rename_i hcreated
        refine ⟨h, fun c hc hstd => hskip c hc hstd fun _ => ?_⟩
        rw [stateLife, hcreated]
        rcases known t cs.coin with _ | ⟨b, _ | d⟩ <;> rfl
      · rename_i created hspent hcreated
        obtain ⟨htidy, hknown⟩ := known_otherWrites genesisChallenge
          (h.coinAdded he.coin_mem created wallet) hids he.others
        refine ⟨htidy, fun c hc hstd => ?_⟩
        rw [hknown c hc hstd, known_coinAdded h hids hc he.coin_mem, stateLife, hcreated, hspent]
        rfl
      · rename_i created spent hcreated hspent
        obtain ⟨htidy, hknown⟩ := known_otherWrites genesisChallenge
          (h.coinRemoved hids he.coin_mem created wallet fun hstd => he.pos hstd spent hspent) hids he.others
        refine ⟨htidy, fun c hc hstd => ?_⟩
        rw [hknown c hc hstd, known_coinRemoved h hids hc he.coin_mem, stateLife, hcreated, hspent]
        rfl

end WalletCoinStore

end Chives
