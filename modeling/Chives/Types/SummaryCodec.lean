import Chives.Types.Block
import Chives.Util.Streamable

set_option autoImplicit false

/-!
# Sub-epoch summaries as bytes

`bytes(ses)` and `SubEpochSummary.from_bytes`, as the Streamable class with the fields of
`types/blockchain_format/sub_epoch_summary.py`.

## Main definitions

* `SubEpochSummary.toBytes`, `SubEpochSummary.fromBytes` — the two methods.

## Main results

* `SubEpochSummary.fromBytes_toBytes` — a summary whose numbers fit is read back.
-/

namespace Chives

open ExceptRun

namespace SubEpochSummary

/-- The fields of `SubEpochSummary`. -/
def fields : List (FieldType Empty) :=
  [.item (.sizedBytes 32), .item (.sizedBytes 32), .item (.int .uint8), .optional (.int .uint64),
    .optional (.int .uint64)]

/-- An optional number as the value of a field. -/
def optionValue : Option ℕ → PyValue Empty
  | some n => .int n
  | none => .none

/-- The object with its fields. -/
def obj (ses : SubEpochSummary) : PyValue Empty :=
  .obj "SubEpochSummary" [.bytes ses.prevSubepochSummaryHash.bytes, .bytes ses.rewardChainHash.bytes,
    .int ses.numBlocksOverflow, optionValue ses.newDifficulty, optionValue ses.newSubSlotIters]

/-- The number in an optional field. -/
def optionOf : PyValue Empty → Except PyError (Option ℕ)
  | .int n => .ok (some n.toNat)
  | .none => .ok none
  | _ => .error .typeError

/-- The summary with the given fields. -/
def ofObj : PyValue Empty → Except PyError SubEpochSummary
  | .obj _ [.bytes prev, .bytes rc, .int n, difficulty, iters] => do
    let prev ← Bytes32.new prev
    let rc ← Bytes32.new rc
    let difficulty ← optionOf difficulty
    let iters ← optionOf iters
    return ⟨prev, rc, n.toNat, difficulty, iters⟩
  | _ => .error .typeError

/-- `bytes(ses)`. -/
def toBytes (ses : SubEpochSummary) : Except PyError Bytes :=
  Streamable.toBytes Streamable.noExternalTypes "SubEpochSummary" fields ses.obj

/-- `SubEpochSummary.from_bytes(b)`. -/
def fromBytes (b : Bytes) : Except PyError SubEpochSummary := do
  ofObj (← Streamable.fromBytes Streamable.noExternalTypes "SubEpochSummary" fields b)

/-- The numbers of the summary fit in their types. -/
structure Fits (ses : SubEpochSummary) : Prop where
  numBlocksOverflow : ses.numBlocksOverflow < 2 ^ 8
  newDifficulty : ∀ n, ses.newDifficulty = some n → n < 2 ^ 64
  newSubSlotIters : ∀ n, ses.newSubSlotIters = some n → n < 2 ^ 64

variable {ses : SubEpochSummary}

lemma inRange_uint64 {n : ℕ} (h : n < 2 ^ 64) : SizedInt.InRange .uint64 (n : ℤ) := by
  rw [SizedInt.inRange_unsigned (c := .uint64) rfl]
  show 0 ≤ (n : ℤ) ∧ (n : ℤ) < 256 ^ 8
  omega

lemma hasType_optionValue {o : Option ℕ} (h : ∀ n, o = some n → n < 2 ^ 64) :
    FieldType.HasType Streamable.noExternalTypes NoSurrogate (.optional (.int .uint64))
      (optionValue o) := by
  simp only [FieldType.HasType, ItemType.HasType]
  cases o with
  | none => exact .inl rfl
  | some n => exact .inr ⟨_, rfl, inRange_uint64 (h n rfl)⟩

lemma Fits.hasType (h : ses.Fits) : ItemType.HasType Streamable.noExternalTypes NoSurrogate
    (.streamable "SubEpochSummary" fields) ses.obj := by
  have huint8 : SizedInt.InRange .uint8 (ses.numBlocksOverflow : ℤ) := by
    rw [SizedInt.inRange_unsigned (c := .uint8) rfl]
    show 0 ≤ (ses.numBlocksOverflow : ℤ) ∧ (ses.numBlocksOverflow : ℤ) < 256 ^ 1
    have := h.numBlocksOverflow
    omega
  have hdifficulty := hasType_optionValue h.newDifficulty
  have hiters := hasType_optionValue h.newSubSlotIters
  unfold ItemType.HasType
  refine ⟨_, rfl, ?_⟩
  unfold fields FieldType.HaveTypes
  refine ⟨_, _, rfl, ?_, ?_⟩
  · simp only [FieldType.HasType, ItemType.HasType]
    exact ⟨_, rfl, ses.prevSubepochSummaryHash.length_eq⟩
  simp only [FieldType.HaveTypes]
  refine ⟨_, _, rfl, ?_, _, _, rfl, ?_, _, _, rfl, hdifficulty, _, _, rfl, hiters, rfl⟩
  · simp only [FieldType.HasType, ItemType.HasType]
    exact ⟨_, rfl, ses.rewardChainHash.length_eq⟩
  · simp only [FieldType.HasType, ItemType.HasType]
    exact ⟨_, rfl, huint8⟩

lemma ofObj_obj (ses : SubEpochSummary) : ofObj ses.obj = .ok ses := by
  have hopt : ∀ o : Option ℕ, optionOf (optionValue o) = .ok o := by
    intro o
    cases o <;> simp [optionValue, optionOf]
  have hnew : ∀ x : Bytes32, Bytes32.new x.bytes = .ok x := by
    intro x
    simp [Bytes32.new, x.length_eq]
  obtain ⟨prev, rc, n, difficulty, iters⟩ := ses
  simp only [obj, ofObj, hnew, hopt, ok_bind, pure_eq, Int.toNat_natCast]

lemma Fits.fromBytes_toBytes (h : ses.Fits) : ∃ b, ses.toBytes = .ok b ∧ fromBytes b = .ok ses := by
  have htrip := (Streamable.lawful_item Streamable.noExternalTypes
    (.streamable "SubEpochSummary" fields)).decWhole_encode .assertionError h.hasType
  obtain ⟨b, hb, hback⟩ := bind_eq_ok.mp htrip
  refine ⟨b, hb, ?_⟩
  show (Streamable.fromBytes _ _ _ b >>= ofObj) = _
  rw [show Streamable.fromBytes _ _ _ b = _ from hback]
  exact ofObj_obj ses

end SubEpochSummary

end Chives
