import Chives.Types.SizedBytes

set_option autoImplicit false

/-!
# Coins

`Coin` of `types/blockchain_format/coin.py` and `CoinRecord` of `types/coin_record.py`.

## Main definitions

* `Coin`, `CoinRecord` — the two classes.
-/

namespace Chives

/-- A coin. The amount is a `uint64`. -/
structure Coin where
  parentCoinInfo : Bytes32
  puzzleHash : Bytes32
  amount : ℕ
  deriving DecidableEq

/-- What is known of a coin: where it was created and where it was spent, 0 for never. -/
structure CoinRecord where
  coin : Coin
  confirmedBlockIndex : ℕ
  spentBlockIndex : ℕ
  coinbase : Bool
  timestamp : ℕ
  deriving DecidableEq

/-- `CoinRecord.spent`. -/
def CoinRecord.spent (r : CoinRecord) : Bool := 0 < r.spentBlockIndex

end Chives
