import Chives.Library.Keyed
import Chives.Types.CoinSpend
import Chives.Types.CoinState

set_option autoImplicit false

/-!
# Settled trades

`coins_of_interest_farmed` of `wallet/trade_manager.py`: a coin of a trade was spent, and the status of the trade follows.

## Main definitions

* `Trading.coinsOfInterestFarmed` — the method.
* `Trading.Settles` — the pending trade of the coin gets its status, and no other trade does.

## Main results

* `Trading.settles_iff` — when the pending trade is settled.
* `Trading.not_settles` — a failed trade with the same coin is found first.

## Design

The coins that an offer pays to us, the transactions that it makes, and the states of coins that a node knows are given.
The rows of a table are in the order of their insertion, and a row that replaces another one comes last.
-/

namespace Chives

namespace Trading

/-- `TradeStatus`. -/
inductive TradeStatus
  | pendingAccept
  | pendingConfirm
  | pendingCancel
  | cancelled
  | confirmed
  | failed
  deriving DecidableEq

/-- `TradeRecord`. -/
structure TradeRecord where
  confirmedAtIndex : ℕ
  offer : Bytes
  coinsOfInterest : List Coin
  tradeId : Bytes32
  status : TradeStatus
  deriving DecidableEq

/-- `TransactionRecord`. -/
structure TransactionRecord where
  name : Bytes32
  tradeId : Option Bytes32
  confirmedAtHeight : Option ℕ

/-- The trades and the transactions of a wallet. -/
structure State where
  trades : KeyedRows TradeRecord.tradeId
  transactions : KeyedRows TransactionRecord.name

/-- The ids of the settlement coins of an offer whose inputs are ours; `calculate_tx_records_for_offer`; and
`get_coin_state`. -/
structure Env where
  sha256 : Bytes → Bytes32
  ourSettlementIds : Bytes → List Bytes32
  txRecords : Bytes → List TransactionRecord
  getCoinState : List Bytes32 → Option ℕ → List CoinState

/-- `get_trade_by_coin`. -/
def getTradeByCoin (s : State) (coin : Coin) : Option TradeRecord :=
  s.trades.rows.find? fun trade => trade.status ≠ .cancelled ∧ coin ∈ trade.coinsOfInterest

/-- `set_status`, with an index that may be missing: a record cannot be made of it. -/
def setStatus (s : State) (tradeId : Bytes32) (status : TradeStatus) (index : Option ℕ) : Option State :=
  match s.trades.get? tradeId with
  | none => some s
  | some current => do
    let index ← index
    let confirmedAtIndex := if index ≠ 0 then index else current.confirmedAtIndex
    some { s with trades := s.trades.set { current with confirmedAtIndex := confirmedAtIndex, status := status } }

/-- `delete_trade_transactions`. -/
def deleteTradeTransactions (s : State) (tradeId : Bytes32) : State :=
  { s with transactions := s.transactions.filter fun tx => tx.tradeId ≠ some tradeId }

section Code

variable (env : Env) (forkHeight : Option ℕ)

/-- The states of our settlement coins of a trade. -/
def settlementStates (trade : TradeRecord) : List CoinState :=
  env.getCoinState (env.ourSettlementIds trade.offer) forkHeight

/-- `set(our_settlement_ids) & set(coin_state_names)`. -/
def OnChain (trade : TradeRecord) : Prop :=
  ∃ cs ∈ settlementStates env forkHeight trade, cs.coin.name env.sha256 ∈ env.ourSettlementIds trade.offer

instance (trade : TradeRecord) : Decidable (OnChain env forkHeight trade) :=
  inferInstanceAs (Decidable (∃ cs ∈ settlementStates env forkHeight trade, _))

/-- `coin_states[0].spent_height`. -/
def settlementHeight (trade : TradeRecord) : Option ℕ :=
  (settlementStates env forkHeight trade).head?.bind CoinState.spentHeight

/-- What `coins_of_interest_farmed` does with the trade that it found. -/
def settle (s : State) (trade : TradeRecord) : Option State :=
  if OnChain env forkHeight trade then do
    let height := settlementHeight env forkHeight trade
    let s ← setStatus s trade.tradeId .confirmed height
    let txRecords := if trade.status = .pendingAccept then env.txRecords trade.offer else []
    some { s with transactions :=
      (txRecords.map fun tx => { tx with confirmedAtHeight := height }).foldl KeyedRows.set s.transactions }
  else
    let s := deleteTradeTransactions s trade.tradeId
    match trade.status with
    | .pendingCancel => setStatus s trade.tradeId .cancelled (some 0)
    | .pendingConfirm => setStatus s trade.tradeId .failed (some 0)
    | _ => some s

/-- `coins_of_interest_farmed`. -/
def coinsOfInterestFarmed (s : State) (coinState : CoinState) : Option State :=
  match getTradeByCoin s coinState.coin with
  | none => some s
  | some trade => settle env forkHeight s trade

/-! ## The pending trade -/

/-- `get_coins_of_interest` looks at these. -/
def TradeStatus.IsPending (status : TradeStatus) : Prop :=
  status = .pendingAccept ∨ status = .pendingConfirm ∨ status = .pendingCancel

/-- A coin that was spent at a height is one of interest of exactly one pending trade. -/
structure OnlyPending (s : State) (coinState : CoinState) (t : TradeRecord) (height : ℕ) : Prop where
  spent : coinState.spentHeight = some height
  mem : t ∈ s.trades.rows
  pending : t.status.IsPending
  coin_mem : coinState.coin ∈ t.coinsOfInterest
  unique : ∀ trade ∈ s.trades.rows, trade.status.IsPending → coinState.coin ∈ trade.coinsOfInterest → trade = t

/-- The index that is stored with a settled trade. -/
def storedHeight (trade : TradeRecord) : Option ℕ :=
  (settlementHeight env forkHeight trade).map fun height => if height ≠ 0 then height else trade.confirmedAtIndex

/-- The record of the pending trade after its coin was spent at a height. -/
def settledRecord (t : TradeRecord) (height : ℕ) : TradeRecord :=
  if OnChain env forkHeight t then { t with confirmedAtIndex := height, status := .confirmed }
  else match t.status with
    | .pendingCancel => { t with status := .cancelled }
    | .pendingConfirm => { t with status := .failed }
    | _ => t

/-- **A settled trade is recognised**: the pending trade gets its record, no other trade changes its status, and only
transactions of the pending trade are deleted. -/
def Settles (s : State) (coinState : CoinState) (t : TradeRecord) (height : ℕ) : Prop :=
  ∃ s', coinsOfInterestFarmed env forkHeight s coinState = some s' ∧
    s'.trades.get? t.tradeId = some (settledRecord env forkHeight t height) ∧
    (∀ id ≠ t.tradeId, (s'.trades.get? id).map TradeRecord.status = (s.trades.get? id).map TradeRecord.status) ∧
    ∀ tx ∈ s.transactions.rows, tx.tradeId ≠ some t.tradeId → (s'.transactions.get? tx.name).isSome

/-- The first trade with the coin that is not cancelled is the pending one, and a settlement coin that is on chain was spent
at the height, which is not 0 or is that of the record. Or nothing has to be done for the pending trade, and nothing is
done with the first one. -/
def FoundFirst (s : State) (coinState : CoinState) (t : TradeRecord) (height : ℕ) : Prop :=
  ∃ found, getTradeByCoin s coinState.coin = some found ∧
    if found = t then OnChain env forkHeight t → storedHeight env forkHeight t = some height
    else t.status = .pendingAccept ∧ ¬ OnChain env forkHeight t ∧
      if OnChain env forkHeight found then found.status = .confirmed ∧ (storedHeight env forkHeight found).isSome
      else ∀ tx ∈ s.transactions.rows, tx.tradeId ≠ some found.tradeId

variable {env forkHeight} {s : State} {coinState : CoinState} {t : TradeRecord} {height : ℕ}

lemma setStatus_eq (status : TradeStatus) (index : Option ℕ) (ht : s.trades.get? t.tradeId = some t) :
    setStatus s t.tradeId status index = index.map fun h => { s with trades := (s.trades.set
      { t with confirmedAtIndex := if h ≠ 0 then h else t.confirmedAtIndex, status := status }) } := by
  rw [setStatus, ht]
  cases index <;> rfl

lemma isSome_foldl_set {l : List TransactionRecord} {d : KeyedRows TransactionRecord.name} {name : Bytes32}
    (h : (d.get? name).isSome) : ((l.foldl KeyedRows.set d).get? name).isSome := by
  induction l generalizing d with
  | nil => exact h
  | cons tx l ih =>
    refine ih ?_
    rw [KeyedRows.get?_set]
    split
    · rfl
    · exact h

lemma isSome_deleteTradeTransactions {id : Bytes32} {tx : TransactionRecord} (htx : tx ∈ s.transactions.rows) :
    ((deleteTradeTransactions s id).transactions.get? tx.name).isSome ↔ tx.tradeId ≠ some id := by
  rw [deleteTradeTransactions, KeyedRows.get?_filter, KeyedRows.mem_rows.mp htx]
  by_cases h : tx.tradeId = some id <;> simp [Option.filter, h]

lemma isSome_settle (ht : s.trades.get? t.tradeId = some t) : (settle env forkHeight s t).isSome ↔
    (OnChain env forkHeight t → (storedHeight env forkHeight t).isSome) := by
  have ht' : (deleteTradeTransactions s t.tradeId).trades.get? t.tradeId = some t := ht
  unfold settle
  by_cases hchain : OnChain env forkHeight t
  · simp only [if_pos hchain, setStatus_eq _ _ ht, storedHeight]
    cases settlementHeight env forkHeight t <;> simp [hchain]
  · simp only [if_neg hchain, setStatus_eq _ _ ht']
    cases t.status <;> simp [hchain]

/-- **What is done with a trade.** -/
lemma settle_spec {s' : State} (ht : s.trades.get? t.tradeId = some t) (h : settle env forkHeight s t = some s') :
    s'.trades.get? t.tradeId = some (settledRecord env forkHeight t ((storedHeight env forkHeight t).getD 0)) ∧
      (∀ id ≠ t.tradeId, s'.trades.get? id = s.trades.get? id) ∧
      ∀ tx ∈ s.transactions.rows, (s'.transactions.get? tx.name).isSome ↔
        (OnChain env forkHeight t ∨ tx.tradeId ≠ some t.tradeId) := by
  have ht' : (deleteTradeTransactions s t.tradeId).trades.get? t.tradeId = some t := ht
  unfold settle at h
  by_cases hchain : OnChain env forkHeight t
  · simp only [if_pos hchain, setStatus_eq _ _ ht] at h
    cases hheight : settlementHeight env forkHeight t with
    | none => simp [hheight] at h
    | some height =>
      simp only [hheight, Option.map_some, Option.bind_eq_bind, Option.bind_some, Option.some.injEq] at h
      subst h
      refine ⟨?_, fun id hid => ?_, fun tx htx => ⟨fun _ => .inl hchain, fun _ => ?_⟩⟩
      · simp [KeyedRows.get?_set, settledRecord, hchain, storedHeight, hheight]
      · exact (KeyedRows.get?_set _ _ _).trans (if_neg hid)
      · exact isSome_foldl_set (Option.isSome_of_eq_some (KeyedRows.mem_rows.mp htx))
  · simp only [if_neg hchain, setStatus_eq _ _ ht'] at h
    have hdelete : s'.transactions = (deleteTradeTransactions s t.tradeId).transactions ∧
        s'.trades.get? t.tradeId = some (settledRecord env forkHeight t ((storedHeight env forkHeight t).getD 0)) ∧
        ∀ id ≠ t.tradeId, s'.trades.get? id = s.trades.get? id := by
      rw [settledRecord, if_neg hchain]
      cases hstatus : t.status <;> simp only [hstatus, Option.map_some, Option.some.injEq] at h <;> subst h
      case pendingConfirm | pendingCancel =>
        exact ⟨rfl, by simp [KeyedRows.get?_set], fun id hid => (KeyedRows.get?_set _ _ _).trans (if_neg hid)⟩
      all_goals exact ⟨rfl, ht, fun _ _ => rfl⟩
    refine ⟨hdelete.2.1, hdelete.2.2, fun tx htx => ?_⟩
    rw [hdelete.1, isSome_deleteTradeTransactions htx]
    simp [hchain]

/-- **A settled trade is recognised** exactly if the pending trade is found first, or if there is nothing to do. -/
theorem settles_iff (h : OnlyPending s coinState t height) :
    Settles env forkHeight s coinState t height ↔ FoundFirst env forkHeight s coinState t height := by
  have ht : s.trades.get? t.tradeId = some t := KeyedRows.mem_rows.mp h.mem
  have hpending : t.status ≠ .cancelled := by
    rcases h.pending with hs | hs | hs <;> rw [hs] <;> decide
  obtain ⟨found, hfound⟩ : ∃ found, getTradeByCoin s coinState.coin = some found :=
    Option.isSome_iff_exists.mp (List.find?_isSome.mpr ⟨t, h.mem, by simp [hpending, h.coin_mem]⟩)
  have hmem := List.mem_of_find?_eq_some hfound
  have hcoin := List.find?_some hfound
  simp only [decide_eq_true_eq] at hcoin
  have hget : s.trades.get? found.tradeId = some found := KeyedRows.mem_rows.mp hmem
  simp only [Settles, FoundFirst, coinsOfInterestFarmed, hfound, Option.some.injEq, exists_eq_left']
  by_cases hsame : found = t
  · subst hsame
    rw [if_pos rfl]
    constructor
    · rintro ⟨s', hs', hrecord, -, -⟩ hchain
      have hheight := (isSome_settle ht).mp (Option.isSome_of_eq_some hs') hchain
      obtain ⟨stored, hstored⟩ := Option.isSome_iff_exists.mp hheight
      rw [(settle_spec ht hs').1, hstored] at hrecord
      simpa [settledRecord, hchain, hstored] using hrecord
    · intro hheight
      have hsome : (settle env forkHeight s found).isSome :=
        (isSome_settle ht).mpr fun hchain => by simp [hheight hchain]
      obtain ⟨s', hs'⟩ := Option.isSome_iff_exists.mp hsome
      obtain ⟨hrecord, hothers, htx⟩ := settle_spec ht hs'
      refine ⟨s', hs', ?_, fun id hid => by rw [hothers id hid], fun tx hmem hne => (htx tx hmem).mpr (.inr hne)⟩
      rw [hrecord]
      by_cases hchain : OnChain env forkHeight found
      · rw [hheight hchain]
        rfl
      · simp [settledRecord, hchain]
  · rw [if_neg hsame]
    have hid : t.tradeId ≠ found.tradeId := fun heq => hsame (s.trades.eq_of_key_eq hmem h.mem heq.symm)
    have hdone : found.status = .confirmed ∨ found.status = .failed := by
      have hunique : ¬ found.status.IsPending := fun hs => hsame (h.unique found hmem hs hcoin.2)
      cases hs : found.status with
      | confirmed => exact .inl rfl
      | failed => exact .inr rfl
      | cancelled => exact absurd hs hcoin.1
      | pendingAccept => exact absurd (.inl hs) hunique
      | pendingConfirm => exact absurd (.inr (.inl hs)) hunique
      | pendingCancel => exact absurd (.inr (.inr hs)) hunique
    constructor
    · rintro ⟨s', hs', hrecord, hstatus, htx⟩
      obtain ⟨hrecord', hothers, htx'⟩ := settle_spec hget hs'
      -- the pending trade is not changed, although it should be unless there is nothing to do
      rw [hothers _ hid, ht, Option.some.injEq] at hrecord
      have hrecord := congrArg TradeRecord.status hrecord
      have hfoundStatus := hstatus _ (Ne.symm hid)
      rw [hrecord', hget, Option.map_some, Option.map_some, Option.some.injEq] at hfoundStatus
      by_cases hchain : OnChain env forkHeight t
      · rw [settledRecord, if_pos hchain] at hrecord
        rcases h.pending with hs | hs | hs <;> simp [hs] at hrecord
      · refine ⟨?_, hchain, ?_⟩
        · rw [settledRecord, if_neg hchain] at hrecord
          rcases h.pending with hs | hs | hs
          · exact hs
          all_goals simp [hs] at hrecord
        · split
          · next hfoundChain =>
            refine ⟨?_, (isSome_settle hget).mp (Option.isSome_of_eq_some hs') hfoundChain⟩
            simpa [settledRecord, hfoundChain] using hfoundStatus.symm
          · next hfoundChain =>
            intro tx hmem hfoundTx
            have hne : tx.tradeId ≠ some t.tradeId := by simpa [hfoundTx] using Ne.symm hid
            exact ((htx' tx hmem).mp (htx tx hmem hne)).elim hfoundChain (· hfoundTx)
    · rintro ⟨hstatus, hchain, hnothing⟩
      obtain ⟨s', hs'⟩ := Option.isSome_iff_exists.mp ((isSome_settle hget).mpr fun hfoundChain => by
        rw [if_pos hfoundChain] at hnothing
        exact hnothing.2)
      obtain ⟨hrecord, hothers, htx⟩ := settle_spec hget hs'
      refine ⟨s', hs', ?_, fun id hne => ?_, fun tx htxmem hne => (htx tx htxmem).mpr ?_⟩
      · rw [hothers _ hid, ht, settledRecord, if_neg hchain, hstatus]
      · by_cases hfoundId : id = found.tradeId
        · rw [hfoundId, hrecord, hget]
          by_cases hfoundChain : OnChain env forkHeight found
          · rw [if_pos hfoundChain] at hnothing
            simp [settledRecord, hfoundChain, hnothing.1]
          · rcases hdone with hs | hs <;> simp [settledRecord, hfoundChain, hs]
        · rw [hothers id hfoundId]
      · by_cases hfoundChain : OnChain env forkHeight found
        · exact .inl hfoundChain
        · rw [if_neg hfoundChain] at hnothing
          exact .inr (hnothing tx htxmem)

end Code

/-! ## A failed trade with the same coin -/

/-- A wallet whose offers are all taken by nobody. -/
def lostOffers : Env where
  sha256 := fun _ => Bytes32.zero
  ourSettlementIds := fun offer => [Bytes32.ofNat offer.length]
  txRecords := fun _ => []
  getCoinState := fun _ _ => []

/-- An offered coin, spent at height 5. -/
def offeredCoin : CoinState where
  coin := ⟨Bytes32.zero, Bytes32.zero, 1⟩
  spentHeight := some 5
  createdHeight := some 1

/-- A trade of the coin. -/
def tradeOf (id : ℕ) (status : TradeStatus) : TradeRecord where
  confirmedAtIndex := 0
  offer := []
  coinsOfInterest := [offeredCoin.coin]
  tradeId := Bytes32.ofNat id
  status := status

/-- The coin is offered once. -/
def offeredOnce : State := ⟨⟨[tradeOf 2 .pendingConfirm], by decide +kernel⟩, .empty⟩

/-- The coin is offered again, after a trade that failed. -/
def offeredTwice : State := ⟨⟨[tradeOf 1 .failed, tradeOf 2 .pendingConfirm], by decide +kernel⟩, .empty⟩

theorem settles_iff_offeredOnce : Settles lostOffers none offeredOnce offeredCoin (tradeOf 2 .pendingConfirm) 5 :=
  (settles_iff ⟨rfl, List.mem_singleton_self _, .inr (.inl rfl), List.mem_singleton_self _,
    fun _ hmem _ _ => List.mem_singleton.mp hmem⟩).mpr ⟨_, rfl, by decide +kernel⟩

/-- The failed trade is found, and the pending one stays pending. -/
theorem not_settles : ¬ ∀ (env : Env) (forkHeight : Option ℕ) (s : State) (coinState : CoinState) (t : TradeRecord)
    (height : ℕ), OnlyPending s coinState t height → Settles env forkHeight s coinState t height := by
  intro h
  have honly : OnlyPending offeredTwice offeredCoin (tradeOf 2 .pendingConfirm) 5 := by
    refine ⟨rfl, List.mem_cons_of_mem _ (List.mem_singleton_self _), .inr (.inl rfl), List.mem_singleton_self _,
      fun trade hmem hpending _ => ?_⟩
    rcases List.mem_cons.mp hmem with rfl | hmem
    · rcases hpending with hs | hs | hs <;> cases hs
    · exact List.mem_singleton.mp hmem
  obtain ⟨s', hs', hrecord, -, -⟩ := h lostOffers none offeredTwice offeredCoin _ 5 honly
  have hsame : s'.trades.get? (Bytes32.ofNat 2) = some (tradeOf 2 .pendingConfirm) := by
    rw [← Option.some.inj hs']
    decide +kernel
  rw [show (tradeOf 2 .pendingConfirm).tradeId = Bytes32.ofNat 2 from rfl, hsame] at hrecord
  revert hrecord
  decide +kernel

end Trading

end Chives
