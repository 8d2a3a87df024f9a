import Chives.Library.OrderedDict
import Chives.Library.StateRun
import Chives.Types.CoinSpend
import Chives.Types.Conditions

set_option autoImplicit false

/-!
# The mempool

`Mempool` of `full_node/mempool.py`, with `MempoolItem` of `types/mempool_item.py` and `SpendBundle` of
`types/spend_bundle.py`.

## Main definitions

* `MempoolItem`, `Mempool` — the classes.
* `Mempool.addToPool`, `Mempool.removeFromPool`, `Mempool.getMinFeeRate` — the methods.

## Design

The fee per cost of an item is a key from a linear order, given by the fee and the cost: the source divides
them as floating point numbers. A method that fails leaves the mempool as it is at that point.
-/

namespace Chives

open StateRun

/-- `SpendBundle`. -/
structure SpendBundle where
  coinSpends : List CoinSpend
  aggregatedSignature : G2Element
  deriving DecidableEq

/-- `SpendBundle.removals`. -/
def SpendBundle.removals (b : SpendBundle) : List Coin := b.coinSpends.map CoinSpend.coin

/-- `additions_for_npc`. -/
def additionsForNpc (npcResult : NPCResult) : List Coin :=
  match npcResult.conds with
  | none => []
  | some conds => conds.spends.flatMap Spend.additions

/-- `MempoolItem`. -/
structure MempoolItem where
  spendBundle : SpendBundle
  fee : ℕ
  npcResult : NPCResult
  cost : ℕ
  spendBundleName : Bytes32
  additions : List Coin
  removals : List Coin
  program : SerializedProgram
  deriving DecidableEq

/-- What the mempool takes from elsewhere: the names of coins, the fee per cost, the smallest fee per cost
that counts as one, the one of no fee, the generator of a bundle and the aggregation of signatures. -/
structure MempoolTools (K : Type) where
  coinName : Coin → Bytes32
  feePerCost : ℕ → ℕ → K
  nonzeroFeeMinimumFpc : K
  noFee : K
  simpleSolutionGenerator : SpendBundle → SerializedProgram
  aggregateSignatures : List G2Element → G2Element

section Mempool

variable {K : Type} [LinearOrder K] (T : MempoolTools K)

/-- `fee_per_cost`. -/
def MempoolItem.feePerCost (item : MempoolItem) : K := T.feePerCost item.fee item.cost

/-- The names of the coins that an item spends. -/
def MempoolItem.removalNames (item : MempoolItem) : List Bytes32 := item.removals.map T.coinName

/-- The names of the coins that an item creates. -/
def MempoolItem.additionNames (item : MempoolItem) : List Bytes32 := item.additions.map T.coinName

/-- `Mempool`. -/
structure Mempool (K : Type) [LinearOrder K] where
  spends : OrderedDict Bytes32 MempoolItem
  sortedSpends : SortedDict K (OrderedDict Bytes32 MempoolItem)
  additions : OrderedDict Bytes32 MempoolItem
  removals : OrderedDict Bytes32 MempoolItem
  maxSizeInCost : ℕ
  totalMempoolCost : ℤ

/-- `Mempool(max_size_in_cost)`. -/
def Mempool.new (maxSizeInCost : ℕ) : Mempool K where
  spends := .empty
  sortedSpends := .empty
  additions := .empty
  removals := .empty
  maxSizeInCost := maxSizeInCost
  totalMempoolCost := 0

/-- `del d[k]`. -/
def delKey {κ : Type} [DecidableEq κ] (k : κ) : EStateM PyError (OrderedDict κ MempoolItem) Unit :=
  fun d => match d.get? k with
    | some _ => .ok () (d.erase k)
    | none => .error .keyError d

namespace Mempool

/-- `at_full_capacity`. -/
def atFullCapacity (m : Mempool K) (cost : ℕ) : Bool :=
  decide (m.totalMempoolCost + cost > m.maxSizeInCost)

/-- The loops of `get_min_fee_rate` over the items, from the lowest fee per cost on. -/
def minFeeRateFrom (maxSizeInCost cost : ℕ) : List (K × MempoolItem) → ℤ → Except PyError K
  | [], _ => .error .valueError
  | (feePerCost, item) :: rest, currentCost =>
    if currentCost - item.cost + cost ≤ maxSizeInCost then .ok feePerCost
    else minFeeRateFrom maxSizeInCost cost rest (currentCost - item.cost)

/-- The items with their fee per cost, from the lowest one on. -/
def sortedItems (m : Mempool K) : List (K × MempoolItem) :=
  m.sortedSpends.entries.flatMap fun e => e.2.values.map fun item => (e.1, item)

/-- `get_min_fee_rate`. -/
def getMinFeeRate (m : Mempool K) (cost : ℕ) : Except PyError K :=
  if m.atFullCapacity cost then minFeeRateFrom m.maxSizeInCost cost m.sortedItems m.totalMempoolCost
  else .ok T.noFee

/-- `del self.sorted_spends[item.fee_per_cost][item.name]`, after which an empty dictionary is deleted. -/
def delSortedSpend (item : MempoolItem) :
    EStateM PyError (SortedDict K (OrderedDict Bytes32 MempoolItem)) Unit :=
  fun d => match d.get? (item.feePerCost T) with
    | none => .error .keyError d
    | some dic => match dic.get? item.spendBundleName with
      | none => .error .keyError d
      | some _ =>
        let dic := dic.erase item.spendBundleName
        .ok () (if dic.values.length = 0 then d.erase (item.feePerCost T)
          else d.set (item.feePerCost T) dic)

/-- `remove_from_pool`. -/
def removeFromPool (item : MempoolItem) : EStateM PyError (Mempool K) Unit := do
  zoom removals (fun d m => { m with removals := d }) id (forEach (item.removalNames T) delKey)
  zoom additions (fun d m => { m with additions := d }) id (forEach (item.additionNames T) delKey)
  zoom spends (fun d m => { m with spends := d }) id (delKey item.spendBundleName)
  zoom sortedSpends (fun d m => { m with sortedSpends := d }) id (delSortedSpend T item)
  modify fun m => { m with totalMempoolCost := m.totalMempoolCost - item.cost }
  ensure (fun m => m.totalMempoolCost ≥ 0) .assertionError

/-- The first item with the lowest fee per cost: `list(self.sorted_spends.peekitem(index=0)[1].values())[0]`. -/
def lowestItem (m : Mempool K) : Option MempoolItem :=
  m.sortedSpends.entries.head?.bind fun e => e.2.values.head?

/-- `while self.at_full_capacity(item.cost)`: the first item with the lowest fee per cost is removed. No more
rounds are needed than there are items. -/
def evict (cost : ℕ) : ℕ → EStateM PyError (Mempool K) Unit
  | 0, m => .error .divergence m
  | fuel + 1, m =>
    if m.atFullCapacity cost then
      match m.lowestItem with
      | none => .error .indexError m
      | some toRemove => (removeFromPool T toRemove >>= fun _ => evict cost fuel) m
    else .ok () m

/-- The item is entered in the dictionaries. -/
def insertItem (m : Mempool K) (item : MempoolItem) : Mempool K where
  spends := m.spends.set item.spendBundleName item
  sortedSpends := m.sortedSpends.set (item.feePerCost T)
    (((m.sortedSpends.get? (item.feePerCost T)).getD .empty).set item.spendBundleName item)
  additions := (item.additionNames T).foldl (fun d name => d.set name item) m.additions
  removals := (item.removalNames T).foldl (fun d name => d.set name item) m.removals
  maxSizeInCost := m.maxSizeInCost
  totalMempoolCost := m.totalMempoolCost + item.cost

/-- `add_to_pool`. -/
def addToPool (item : MempoolItem) : EStateM PyError (Mempool K) Unit := do
  let m ← get
  evict T item.cost (m.spends.values.length + 1)
  modify fun m => m.insertItem T item

end Mempool

end Mempool

end Chives
