import Chives.Library.OrderedDict
import Chives.Library.StableGroup
import Chives.Types.PyObject
import Chives.Util.Bech32m
import Chives.Wallet.PuzzleCompression

set_option autoImplicit false

/-!
# Offers

`wallet/trading/offer.py` and `wallet/payment.py`: an offer is a spend bundle, together with the payments that are
requested for it. It travels as a spend bundle, in which a spend of a coin that does not exist stands for the payments
of an asset.

## Main definitions

* `NotarizedPayment` — a payment, its condition, and the condition that is read.
* `OfferEnv` — what is taken from other packages and from the drivers of puzzles.
* `Offer.toSpendBundle`, `Offer.fromSpendBundle` — an offer as a bundle.
* `Offer.postInit` — the checks of the constructor.
* `Offer.toBytes`, `Offer.fromBytes`, `Offer.toBech32`, `Offer.fromBech32`.

## Design

The classes of exceptions matter for `TypeError`, which `try_offer_decompression` catches. An `EvalError` of the CLVM
stands as a `ValueError`, and `none` as a run that raises one. A text is the list of its characters.
-/

namespace Chives

open ExceptRun Streamed StableGroup

/-! ## Payments -/

/-- `Payment`. -/
structure Payment where
  puzzleHash : Bytes32
  amount : ℕ
  memos : PyObject

/-- `NotarizedPayment`. -/
structure NotarizedPayment extends Payment where
  nonce : Bytes32

namespace Payment

/-- `Payment.as_condition_args`. -/
def asConditionArgs (p : Payment) : List PyObject := [.bytes p.puzzleHash.bytes, .int p.amount, p.memos]

/-- `Payment.as_condition`. -/
def asCondition (p : Payment) : SExp := (PyObject.list (.int 51 :: p.asConditionArgs)).toProgram

/-- `Payment.name`. -/
def name (sha256 : Bytes → Bytes32) (p : Payment) : Bytes32 := p.asCondition.treeHash sha256

/-- `bytes(x)`. -/
def pyBytes (x : PyObject) : Except PyError Bytes :=
  match x.toBytes with
  | some b => .ok b
  | none => .error .typeError

/-- `Payment.from_condition`. -/
def fromCondition (condition : SExp) : Except PyError Payment :=
  match asPython condition with
  | .list (_ :: puzzleHash :: amount :: more) => do
    let puzzleHash ← pyBytes puzzleHash
    let puzzleHash ← Bytes32.new puzzleHash
    let amount ← pyBytes amount
    let amount ← uint64 (BigEndian.ofBytes amount)
    pure ⟨puzzleHash, amount, more.headD (.list [])⟩
  | _ => .error .valueError

end Payment

namespace NotarizedPayment

/-- `NotarizedPayment.from_condition_and_nonce`. -/
def fromConditionAndNonce (condition : SExp) (nonce : Bytes32) : Except PyError NotarizedPayment := do
  let p ← Payment.fromCondition (.pair (.atom (SExp.intToBytes 51)) condition)
  pure ⟨p, nonce⟩

/-- The payments by their nonces, as in `inner_solutions`. -/
def innerSolutions (payments : List NotarizedPayment) : PyObject :=
  .list ((groups NotarizedPayment.nonce payments).map fun g =>
    .tuple (.bytes g.1.bytes) (.list (g.2.map fun p => .list p.asConditionArgs)))

/-- `x.as_iter()`, of a list that has to have an end. -/
def asIter (s : SExp) : Except PyError (List SExp) :=
  match s.toList with
  | some l => .ok l
  | none => .error .valueError

/-- A part of a pair. -/
def evalPart (r : Eval SExp) : Except PyError SExp :=
  match r with
  | .ok s => .ok s
  | .error _ => .error .valueError

/-- The payments of a group. -/
def readGroup (paymentGroup : SExp) : Except PyError (List NotarizedPayment) := do
  let first ← evalPart paymentGroup.first
  let nonce ← Payment.pyBytes (asPython first)
  let nonce ← Bytes32.new nonce
  let rest ← evalPart paymentGroup.rest
  let paymentArgsList ← asIter rest
  paymentArgsList.mapM fun condition => fromConditionAndNonce condition nonce

/-- The payments of a solution. -/
def readPayments (solution : SExp) : Except PyError (List NotarizedPayment) := do
  let paymentGroups ← asIter solution
  let payments ← paymentGroups.mapM readGroup
  pure payments.flatten

end NotarizedPayment

/-! ## The environment -/

/-- What offers are made with. The functions of `wallet/outer_puzzles.py` are parameters, and so are the CLVM, BLS
signatures, and the puzzles. -/
structure OfferEnv (ι : Type) where
  sha256 : Bytes → Bytes32
  valid : BlockExternal → Bytes → Bool
  g2Identity : Bytes
  aggregateSignatures : List Bytes → Bytes
  runProgram : Bytes → Bytes → Except PyError (Option SExp)
  matchPuzzle : SExp → Except PyError (Option ι)
  createAssetId : ι → Except PyError (Option Bytes32)
  constructPuzzle : ι → SExp → Except PyError SExp
  getInnerPuzzle : ι → SExp → Except PyError (Option SExp)
  getInnerSolution : ι → SExp → Except PyError (Option SExp)
  offerMod : SExp
  mods : PuzzleMods
  zlib : Zlib

/-- `Offer`. -/
structure Offer (ι : Type) where
  requestedPayments : OrderedDict (Option Bytes32) (List NotarizedPayment)
  bundle : Streamed.SpendBundle
  driverDict : OrderedDict Bytes32 ι

variable {ι : Type}

namespace OfferEnv

variable (env : OfferEnv ι)

/-- `OFFER_HASH`. -/
def offerHash : Bytes32 := env.offerMod.treeHash env.sha256

/-- `program.run(args)`. -/
def run (program args : SExp) : Except PyError SExp := do
  let program ← Program.toBytes program
  let args ← Program.toBytes args
  let r ← env.runProgram program args
  match r with
  | some s => pure s
  | none => throw .valueError

end OfferEnv

/-! ## The conditions of a spend -/

/-- The values of `ConditionOpcode`. -/
def conditionOpcodes : List Bytes :=
  [[49], [50], [51], [52], [60], [61], [62], [63], [70], [71], [72], [73], [80], [81], [82], [83]]

/-- `parse_sexp_to_conditions`; `none` for an error that it returns, or that its caller catches. -/
def conditionsOfSexp : SExp → Except PyError (Option (List ConditionWithArgs))
  | .atom b => .ok (if b = [] then some [] else none)
  | .pair x l =>
    match x.asAtomList with
    | [] => .ok none
    | opcode :: vars =>
      if opcode ∈ conditionOpcodes then do
        let more ← conditionsOfSexp l
        pure (more.map fun conditions => ⟨opcode, vars⟩ :: conditions)
      else .error .valueError

/-- `CoinSpend.additions`. -/
def spendAdditions (env : OfferEnv ι) (cs : Streamed.CoinSpend) : Except PyError (List Coin) := do
  let r ← env.runProgram cs.puzzleReveal cs.solution
  match r with
  | none => pure []
  | some r => do
    let conditions ← conditionsOfSexp r
    match conditions with
    | none => pure []
    | some conditions => createdOutputsForConditions conditions (cs.coin.name env.sha256)

/-! ## The coins that are offered -/

/-- `get_tree_hash`, where a hash that occurs in the tree is taken for the hash of what it stands for. -/
def treeHashKnown (sha256 : Bytes → Bytes32) (known : Bytes32) : SExp → Bytes32
  | .atom b => if b = known.bytes then known else sha256 (SExp.atomMessage b)
  | .pair l r => sha256 (SExp.pairMessage (treeHashKnown sha256 known l).bytes (treeHashKnown sha256 known r).bytes)

namespace Offer

variable (env : OfferEnv ι)

/-- The additions with the amount of a condition. -/
def additionsWithAmount (additions : List Coin) (condition : SExp) : Except PyError (List Coin) :=
  if additions = [] then .ok []
  else do
    let amount ← NotarizedPayment.evalPart condition.third
    match amount with
    | .atom b => pure (additions.filter fun a => (a.amount : ℤ) = SExp.intFromBytes b)
    | .pair _ _ => throw .typeError

/-- The additions that pay a settlement, where several additions have the amount of a condition. -/
def additionsWithPuzzleHash (driver : ι) (additionsWAmount : List Coin) : Except PyError (List Coin) :=
  if additionsWAmount = [] then .ok []
  else do
    let puzzle ← env.constructPuzzle driver (.atom env.offerHash.bytes)
    pure (additionsWAmount.filter fun a => a.puzzleHash = treeHashKnown env.sha256 env.offerHash puzzle)

/-- What a condition of an inner puzzle adds to the offered coins. -/
def offeredByCondition (driver : ι) (additions : List Coin) (condition : SExp) : Except PyError (List Coin) := do
  let opcode ← NotarizedPayment.evalPart condition.first
  if opcode ≠ .atom (SExp.intToBytes 51) then pure []
  else do
    let puzzleHash ← NotarizedPayment.evalPart condition.second
    if puzzleHash ≠ .atom env.offerHash.bytes then pure []
    else do
      let additionsWAmount ← additionsWithAmount additions condition
      if additionsWAmount.length = 1 then pure additionsWAmount
      else do
        let additionsWAmountAndPuzhash ← additionsWithPuzzleHash env driver additionsWAmount
        pure (if additionsWAmountAndPuzhash.length = 1 then additionsWAmountAndPuzhash else [])

/-- The coins that a spend offers, with their asset. -/
def offeredBySpend (bundle : Streamed.SpendBundle) (parentSpend : Streamed.CoinSpend) :
    Except PyError (Option Bytes32 × List Coin) := do
  let parentPuzzle ← Program.fromBytes parentSpend.puzzleReveal
  let parentSolution ← Program.fromBytes parentSpend.solution
  let additions ← spendAdditions env parentSpend
  let additions := additions.filter fun a => a ∉ bundle.removals
  let puzzleDriver ← env.matchPuzzle parentPuzzle
  match puzzleDriver with
  | some driver => do
    let assetId ← env.createAssetId driver
    let innerPuzzle ← env.getInnerPuzzle driver parentPuzzle
    let innerSolution ← env.getInnerSolution driver parentSolution
    let innerPuzzle ← pySome innerPuzzle
    let innerSolution ← pySome innerSolution
    let conditions ← env.run innerPuzzle innerSolution
    let conditions ← NotarizedPayment.asIter conditions
    let coins ← conditions.mapM (offeredByCondition env driver additions)
    pure (assetId, coins.flatten)
  | none => pure (none, additions.filter fun a => a.puzzleHash = env.offerHash)

/-- `Offer.get_offered_coins`. -/
def getOfferedCoins (bundle : Streamed.SpendBundle) : Except PyError (OrderedDict (Option Bytes32) (List Coin)) := do
  let offered ← bundle.coinSpends.mapM (offeredBySpend env bundle)
  pure (offered.foldl (fun d e => if e.2 = [] then d else d.set e.1 ((d.get? e.1).getD [] ++ e.2)) .empty)

/-- `Offer.__post_init__`. -/
def postInit (o : Offer ι) : Except PyError Unit := do
  let offeredCoins ← getOfferedCoins env o.bundle
  if offeredCoins.entries = [] then throw .valueError
  else if o.requestedPayments.entries = [] then throw .valueError
  else if ¬∀ payments ∈ o.requestedPayments.values, (payments.map fun p => p.name env.sha256).Nodup then
    throw .valueError
  else if ¬∀ id ∈ o.requestedPayments.keys.filterMap fun k => k, id ∈ o.driverDict.keys then throw .valueError
  else pure ()

/-- The constructor. -/
def new (requestedPayments : OrderedDict (Option Bytes32) (List NotarizedPayment)) (bundle : Streamed.SpendBundle)
    (driverDict : OrderedDict Bytes32 ι) : Except PyError (Offer ι) := do
  postInit env ⟨requestedPayments, bundle, driverDict⟩
  pure ⟨requestedPayments, bundle, driverDict⟩

/-! ## Offers as bundles -/

/-- The puzzle to which an asset is paid. -/
def settlementPuzzle (driverDict : OrderedDict Bytes32 ι) : Option Bytes32 → Except PyError SExp
  | none => .ok env.offerMod
  | some assetId =>
    match driverDict.get? assetId with
    | some driver => env.constructPuzzle driver env.offerMod
    | none => .error .keyError

/-- The spend that stands for the payments of an asset. -/
def requestSpend (driverDict : OrderedDict Bytes32 ι) (assetId : Option Bytes32)
    (payments : List NotarizedPayment) : Except PyError Streamed.CoinSpend := do
  let puzzleReveal ← settlementPuzzle env driverDict assetId
  let puzzleBytes ← Program.toBytes puzzleReveal
  let solutionBytes ← Program.toBytes (NotarizedPayment.innerSolutions payments).toProgram
  pure ⟨⟨Bytes32.zero, puzzleReveal.treeHash env.sha256, 0⟩, puzzleBytes, solutionBytes⟩

/-- `Offer.to_spend_bundle`. -/
def toSpendBundle (o : Offer ι) : Except PyError Streamed.SpendBundle := do
  let additionalCoinSpends ← o.requestedPayments.entries.mapM fun e => requestSpend env o.driverDict e.1 e.2
  pure (Streamed.SpendBundle.aggregate env.aggregateSignatures [⟨additionalCoinSpends, env.g2Identity⟩, o.bundle])

/-- The variables of the loop of `from_spend_bundle`. -/
structure ReadState (ι : Type) where
  requestedPayments : OrderedDict (Option Bytes32) (List NotarizedPayment)
  driverDict : OrderedDict Bytes32 ι
  leftoverCoinSpends : List Streamed.CoinSpend

/-- The asset of a spend, with its driver. -/
def assetOfSpend (coinSpend : Streamed.CoinSpend) : Except PyError (Option (Bytes32 × ι)) := do
  let puzzle ← Program.fromBytes coinSpend.puzzleReveal
  let driver ← env.matchPuzzle puzzle
  match driver with
  | some driver => do
    let assetId ← env.createAssetId driver
    let assetId ← pySome assetId
    pure (some (assetId, driver))
  | none => pure none

/-- A round of the loop of `from_spend_bundle`. -/
def readSpend (s : ReadState ι) (coinSpend : Streamed.CoinSpend) : Except PyError (ReadState ι) := do
  let asset ← assetOfSpend env coinSpend
  let driverDict := match asset with
    | some (assetId, driver) => s.driverDict.set assetId driver
    | none => s.driverDict
  if coinSpend.coin.parentCoinInfo = Bytes32.zero then do
    let solution ← Program.fromBytes coinSpend.solution
    let notarizedPayments ← NotarizedPayment.readPayments solution
    pure ⟨s.requestedPayments.set (asset.map Prod.fst) notarizedPayments, driverDict, s.leftoverCoinSpends⟩
  else pure ⟨s.requestedPayments, driverDict, s.leftoverCoinSpends ++ [coinSpend]⟩

/-- `Offer.from_spend_bundle`. -/
def fromSpendBundle (bundle : Streamed.SpendBundle) : Except PyError (Offer ι) := do
  let s ← bundle.coinSpends.foldlM (readSpend env) ⟨.empty, .empty, []⟩
  new env s.requestedPayments ⟨s.leftoverCoinSpends, bundle.aggregatedSignature⟩ s.driverDict

/-- `Offer.name`. -/
def name (o : Offer ι) : Except PyError Bytes32 := do
  let bundle ← toSpendBundle env o
  bundle.name env.valid env.sha256

/-! ## Offers as bytes and as texts -/

/-- `bytes(offer)`. -/
def toBytes (o : Offer ι) : Except PyError Bytes := do
  let bundle ← toSpendBundle env o
  bundle.toBytes env.valid

/-- `Offer.from_bytes`. -/
def fromBytes (asBytes : Bytes) : Except PyError (Offer ι) := do
  let bundle ← Streamed.SpendBundle.fromBytes env.valid asBytes
  fromSpendBundle env bundle

/-- The bytes of the puzzle that a spend was curried from. -/
def modOfSpend (coinSpend : Streamed.CoinSpend) : Except PyError Bytes := do
  let puzzle ← Program.fromBytes coinSpend.puzzleReveal
  Program.toBytes puzzle.uncurry.1

/-- The version that `Offer.compress` takes. -/
def compressionVersion (bundle : Streamed.SpendBundle) : Option ℕ → Except PyError ℕ
  | some version => .ok version
  | none => do
    let mods ← bundle.coinSpends.mapM modOfSpend
    pure (max (lowestBestVersion env.mods mods) 2)

/-- `Offer.compress`. -/
def compress (o : Offer ι) (version : Option ℕ) : Except PyError Bytes := do
  let asSpendBundle ← toSpendBundle env o
  let version ← compressionVersion env asSpendBundle version
  let objectBytes ← asSpendBundle.toBytes env.valid
  compressObjectWithPuzzles env.mods env.zlib objectBytes version

/-- `Offer.from_compressed`. -/
def fromCompressed (compressedBytes : Bytes) : Except PyError (Offer ι) := do
  let asBytes ← decompressObjectWithPuzzles env.mods env.zlib compressedBytes
  fromBytes env asBytes

/-- `Offer.try_offer_decompression`. -/
def tryOfferDecompression (offerBytes : Bytes) : Except PyError (Offer ι) :=
  match fromCompressed env offerBytes with
  | .error .typeError => fromBytes env offerBytes
  | r => r

/-- The default prefix of the text of an offer. -/
def bech32Prefix : List Char := "offer".toList

/-- `Offer.to_bech32`. -/
def toBech32 (o : Offer ι) (compressionVersion : Option ℕ) : Except PyError (List Char) := do
  let offerBytes ← compress env o compressionVersion
  let data ← convertbits (offerBytes.map UInt8.toNat) 8 5 true
  bech32Encode bech32Prefix data

/-- `Offer.from_bech32`. -/
def fromBech32 (offerBech32 : List Char) : Except PyError (Offer ι) :=
  match bech32Decode offerBech32 offerBech32.length with
  | none => .error .valueError
  | some (_, data) => do
    let decoded ← convertbits data 5 8 false
    let decodedBytes ← bytesOfNumbers decoded
    tryOfferDecompression env decodedBytes

end Offer

end Chives
