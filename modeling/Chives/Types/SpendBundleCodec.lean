import Chives.Clvm.Serialize
import Chives.Types.CoinSpend

set_option autoImplicit false

/-!
# Spend bundles as bytes

`types/coin_spend.py` and `types/spend_bundle.py` as Streamable classes: the programs of a spend are kept as the bytes
that were read, as `SerializedProgram` does.

## Main definitions

* `Streamed.CoinSpend`, `Streamed.SpendBundle` — the classes, and `SpendBundle.aggregate`.
* `Streamed.SpendBundle.toBytes`, `Streamed.SpendBundle.fromBytes` — the Streamable methods.
* `Streamed.SpendBundle.Fits` — the fields have their types, and the list is short enough.

## Main results

* `Streamed.SpendBundle.fromBytes_toBytes` — a bundle is read back from its bytes.
* `Streamed.SpendBundle.length_of_toBytes` — how long the list of a bundle is that was written.

## Design

Elsewhere the puzzles are followed as programs, and `CoinSpend` has programs. Here the bytes matter.
-/

namespace Chives

namespace Streamed

open ExceptRun PrefixCodec

/-- `CoinSpend`, with its serialized programs. -/
structure CoinSpend where
  coin : Coin
  puzzleReveal : Bytes
  solution : Bytes
  deriving DecidableEq

/-- `SpendBundle`. -/
structure SpendBundle where
  coinSpends : List CoinSpend
  aggregatedSignature : Bytes
  deriving DecidableEq

/-- `SpendBundle.removals`. -/
def SpendBundle.removals (b : SpendBundle) : List Coin := b.coinSpends.map CoinSpend.coin

/-- `SpendBundle.aggregate`, where `aggregateSignatures` is `AugSchemeMPL.aggregate`. -/
def SpendBundle.aggregate (aggregateSignatures : List Bytes → Bytes) (spendBundles : List SpendBundle) :
    SpendBundle :=
  ⟨spendBundles.flatMap SpendBundle.coinSpends,
    aggregateSignatures (spendBundles.map SpendBundle.aggregatedSignature)⟩

/-! ## The classes -/

/-- `CoinSpend`, as it is declared. -/
def coinSpendType : ItemType BlockExternal :=
  .streamable "CoinSpend" [.item coinType, .item (.program .serializedProgram), .item (.program .serializedProgram)]

/-- The fields of `SpendBundle`. -/
def spendBundleFields : List (FieldType BlockExternal) :=
  [.item (.list (.item coinSpendType)), elementField .g2Element]

/-- The object with its fields. -/
def CoinSpend.obj (cs : CoinSpend) : PyValue Bytes :=
  .obj "CoinSpend" [cs.coin.obj, .ext cs.puzzleReveal, .ext cs.solution]

/-- The object with its fields. -/
def SpendBundle.obj (b : SpendBundle) : PyValue Bytes :=
  .obj "SpendBundle" [.list (b.coinSpends.map CoinSpend.obj), .ext b.aggregatedSignature]

/-- The coin of an object. -/
def coinOfObj : PyValue Bytes → Option Coin
  | .obj _ [.bytes parent, .bytes puzzleHash, .int amount] =>
    if h : parent.length = 32 ∧ puzzleHash.length = 32 then
      some ⟨⟨parent, h.1⟩, ⟨puzzleHash, h.2⟩, amount.toNat⟩
    else none
  | _ => none

/-- The spend of an object. -/
def CoinSpend.ofObj : PyValue Bytes → Option CoinSpend
  | .obj _ [coin, .ext puzzleReveal, .ext solution] =>
    (coinOfObj coin).map fun c => ⟨c, puzzleReveal, solution⟩
  | _ => none

/-- The bundle of an object. -/
def SpendBundle.ofObj : PyValue Bytes → Option SpendBundle
  | .obj _ [.list coinSpends, .ext aggregatedSignature] =>
    (coinSpends.mapM CoinSpend.ofObj).map fun l => ⟨l, aggregatedSignature⟩
  | _ => none

lemma coinOfObj_obj (c : Coin) : coinOfObj c.obj = some c := by
  rw [Coin.obj, Bytes32.obj, Bytes32.obj, coinOfObj,
    dif_pos ⟨c.parentCoinInfo.length_eq, c.puzzleHash.length_eq⟩]
  rfl

lemma CoinSpend.ofObj_obj (cs : CoinSpend) : CoinSpend.ofObj cs.obj = some cs := by
  rw [CoinSpend.obj, CoinSpend.ofObj, coinOfObj_obj]
  rfl

lemma SpendBundle.ofObj_obj (b : SpendBundle) : SpendBundle.ofObj b.obj = some b := by
  have hspends : (b.coinSpends.map CoinSpend.obj).mapM CoinSpend.ofObj = some b.coinSpends := by
    rw [ExceptRun.mapM_eq_some_iff, List.map_map]
    exact List.map_congr_left fun cs _ => cs.ofObj_obj
  rw [SpendBundle.obj, SpendBundle.ofObj, hspends]
  rfl

namespace SpendBundle

variable (valid : BlockExternal → Bytes → Bool)

/-- `bytes(bundle)`. -/
def toBytes (b : SpendBundle) : Except PyError Bytes :=
  Streamable.toBytes (clvmTypes valid).external "SpendBundle" spendBundleFields b.obj

/-- `SpendBundle.from_bytes`. -/
def fromBytes (blob : Bytes) : Except PyError SpendBundle := do
  let v ← Streamable.fromBytes (clvmTypes valid).external "SpendBundle" spendBundleFields blob
  match ofObj v with
  | some b => pure b
  | none => throw .typeError

/-- `SpendBundle.name`. -/
def name (sha256 : Bytes → Bytes32) (b : SpendBundle) : Except PyError Bytes32 := do
  let blob ← b.toBytes valid
  pure (sha256 blob)

end SpendBundle

/-! ## The round trip -/

/-- The fields of the spend have their types. -/
structure CoinSpend.Fits (cs : CoinSpend) : Prop where
  amount_lt : cs.coin.amount < 2 ^ 64
  puzzleReveal : ∃ x, Program.fromBytes cs.puzzleReveal = .ok x
  solution : ∃ x, Program.fromBytes cs.solution = .ok x

namespace SpendBundle

variable (valid : BlockExternal → Bytes → Bool)

/-- The fields of the bundle have their types, and its list is short enough. -/
structure Fits (b : SpendBundle) : Prop where
  length_lt : b.coinSpends.length < 2 ^ 32
  coinSpends : ∀ cs ∈ b.coinSpends, cs.Fits
  signature_length : b.aggregatedSignature.length = 96
  signature_valid : valid .g2Element b.aggregatedSignature = true

variable {valid}

lemma hasType_of_fits {cs : CoinSpend} (h : cs.Fits) :
    (coinSpendType).HasType (clvmTypes valid).external NoSurrogate cs.obj := by
  have hprogram : ∀ b : Bytes, (∃ x, Program.fromBytes b = .ok x) →
      (clvmTypes valid).external.isProgram .serializedProgram b := fun _ hx => hx
  simp only [coinSpendType, CoinSpend.obj, coinType, Coin.obj, Bytes32.obj, bytes32Field, intField,
    ItemType.HasType, FieldType.HaveTypes, FieldType.HasType]
  refine ⟨_, rfl, _, _, rfl, ⟨_, rfl, _, _, rfl, ⟨_, rfl, cs.coin.parentCoinInfo.length_eq⟩, _, _, rfl,
    ⟨_, rfl, cs.coin.puzzleHash.length_eq⟩, _, _, rfl, ⟨_, rfl, ?_⟩, rfl⟩, _, _, rfl,
    ⟨_, rfl, hprogram _ h.puzzleReveal⟩, _, _, rfl, ⟨_, rfl, hprogram _ h.solution⟩, rfl⟩
  have hlt := h.amount_lt
  simp only [SizedInt.InRange, SizedInt.MINIMUM, SizedInt.MAXIMUM_EXCLUSIVE, SizedInt.SIGNED, SizedInt.BITS]
  constructor
  · simp
  · simp only [Bool.false_eq_true, if_false]
    exact_mod_cast hlt

variable {b : SpendBundle}

lemma Fits.hasType (h : b.Fits valid) :
    (ItemType.streamable "SpendBundle" spendBundleFields).HasType (clvmTypes valid).external NoSurrogate b.obj := by
  simp only [spendBundleFields, SpendBundle.obj, elementField, ItemType.HasType, FieldType.HaveTypes,
    FieldType.HasType]
  refine ⟨_, rfl, _, _, rfl, ⟨_, rfl, by rw [List.length_map]; exact h.length_lt, ?_⟩, _, _, rfl,
    ⟨_, rfl, ⟨h.signature_length, h.signature_valid⟩⟩, rfl⟩
  intro v hv
  obtain ⟨cs, hcs, rfl⟩ := List.mem_map.mp hv
  exact hasType_of_fits (h.coinSpends cs hcs)

/-- **A bundle is read back from its bytes.** -/
theorem fromBytes_toBytes (h : b.Fits valid) : ∃ blob, b.toBytes valid = .ok blob ∧ fromBytes valid blob = .ok b := by
  have hlawful := Streamable.lawful_item (clvmTypes valid).external (.streamable "SpendBundle" spendBundleFields)
  have hback : (Streamable.toBytes (clvmTypes valid).external "SpendBundle" spendBundleFields b.obj >>=
      Streamable.fromBytes (clvmTypes valid).external "SpendBundle" spendBundleFields) = .ok b.obj :=
    hlawful.decWhole_encode .assertionError h.hasType
  obtain ⟨blob, hblob, hread⟩ := bind_eq_ok.mp hback
  refine ⟨blob, hblob, ?_⟩
  rw [fromBytes, hread, ok_bind, ofObj_obj]
  rfl

lemma exists_count_of_toBytes {blob : Bytes} (h : b.toBytes valid = .ok blob) :
    ∃ size rest, Streamable.writeUint32 b.coinSpends.length = .ok size ∧ blob = size ++ rest := by
  unfold toBytes Streamable.toBytes at h
  simp only [Streamable.streamItem, Streamable.dispatchStream, Streamable.typeTests, Bool.false_eq_true, if_false,
    if_true, obj, Streamable.classStream, spendBundleFields, Streamable.streamFields, encEach] at h
  obtain ⟨w, hw, h⟩ := bind_eq_ok.mp h
  obtain ⟨w', -, h⟩ := bind_eq_ok.mp h
  obtain rfl := Except.ok.inj h
  simp only [Streamable.streamField, Streamable.streamItem, Streamable.dispatchStream, Streamable.typeTests,
    Bool.false_eq_true, if_false, if_true, List.headD_cons, Streamable.streamList] at hw
  obtain ⟨size, hsize, hw⟩ := bind_eq_ok.mp hw
  obtain ⟨items, -, hw⟩ := bind_eq_ok.mp hw
  obtain rfl := Except.ok.inj hw
  rw [List.length_map] at hsize
  exact ⟨size, _, hsize, List.append_assoc ..⟩

theorem length_of_toBytes {blob : Bytes} (h : b.toBytes valid = .ok blob) : b.coinSpends.length < 2 ^ 32 := by
  obtain ⟨size, rest, hsize, -⟩ := exists_count_of_toBytes h
  unfold Streamable.writeUint32 at hsize
  split at hsize
  · assumption
  · cases hsize

end SpendBundle

end Streamed

end Chives
