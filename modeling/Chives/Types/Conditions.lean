import Chives.Types.Block

set_option autoImplicit false

/-!
# Generators and their conditions

`Spend` and `SpendBundleConditions` (`types/spend_bundle_conditions.py`), `NPCResult`
(`consensus/cost_calculator.py`), `BlockGenerator` (`types/generator_types.py`), with
`tx_removals_and_additions` (`util/generator_tools.py`) and `pkm_pairs`
(`util/condition_tools.py`).

## Main definitions

* `SpendBundleConditions`, `NPCResult` — what running a generator gives.
* `txRemovalsAndAdditions` — the coins spent and created.
-/

namespace Chives

/-- `BlockGenerator`. -/
structure BlockGenerator where
  program : SerializedProgram
  generatorRefs : List SerializedProgram
  blockHeightList : List ℕ
  deriving DecidableEq

/-- `Spend`. -/
structure Spend where
  coinId : Bytes32
  puzzleHash : Bytes32
  heightRelative : Option ℕ
  secondsRelative : ℕ
  createCoin : List (Bytes32 × ℕ × Option Bytes)
  aggSigMe : List (Bytes × Bytes)
  deriving DecidableEq

/-- `SpendBundleConditions`. -/
structure SpendBundleConditions where
  spends : List Spend
  reserveFee : ℕ
  heightAbsolute : ℕ
  secondsAbsolute : ℕ
  aggSigUnsafe : List (Bytes × Bytes)
  cost : ℕ
  deriving DecidableEq

/-- `NPCResult`. -/
structure NPCResult where
  error : Option ℕ
  conds : Option SpendBundleConditions
  cost : ℕ
  deriving DecidableEq

/-- The coins that a spend creates. -/
def Spend.additions (spend : Spend) : List Coin :=
  spend.createCoin.map fun c => ⟨spend.coinId, c.1, c.2.1⟩

/-- `tx_removals_and_additions`. -/
def txRemovalsAndAdditions : Option SpendBundleConditions → List Bytes32 × List Coin
  | none => ([], [])
  | some conds => (conds.spends.map Spend.coinId, conds.spends.flatMap Spend.additions)

/-- `pkm_pairs`. -/
def pkmPairs (conds : SpendBundleConditions) (additionalData : Bytes) : List G1Element × List Bytes :=
  let pairs := conds.aggSigUnsafe ++ conds.spends.flatMap fun spend =>
    spend.aggSigMe.map fun p => (p.1, p.2 ++ spend.coinId.bytes ++ additionalData)
  (pairs.map Prod.fst, pairs.map Prod.snd)

end Chives
