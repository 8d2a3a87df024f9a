import Chives.Types.Coin

set_option autoImplicit false

/-!
# What wallets are told of coins

`CoinState` of `protocols/wallet_protocol.py`, `coin_state` of `types/coin_record.py`, and `last_change_height_cs` of
`wallet/util/wallet_sync_utils.py`.

## Main definitions

* `CoinState` — where a coin was created and spent.
* `CoinRecord.coinState` — the state of a coin record.
* `lastChangeHeightCs` — the height by which wallets sort states.
-/

namespace Chives

/-- Where a coin was spent and created, if it was. -/
structure CoinState where
  coin : Coin
  spentHeight : Option ℕ
  createdHeight : Option ℕ
  deriving DecidableEq

/-- `CoinRecord.coin_state`. -/
def CoinRecord.coinState (r : CoinRecord) : CoinState where
  coin := r.coin
  spentHeight := if r.spent then some r.spentBlockIndex else none
  createdHeight := if r.confirmedBlockIndex = 0 ∧ r.timestamp = 0 then none else some r.confirmedBlockIndex

/-- `last_change_height_cs`. -/
def lastChangeHeightCs (cs : CoinState) : ℕ :=
  match cs.spentHeight with
  | some h => h
  | none => cs.createdHeight.getD 0

end Chives
