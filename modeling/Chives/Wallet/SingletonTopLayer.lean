import Chives.Types.CoinSpend
import Chives.Wallet.CurryAndTreehash

set_option autoImplicit false

/-!
# The singleton puzzles

`singleton_launcher.clvm`, `singleton_top_layer.clvm` and `singleton_top_layer_v1_1.clvm` of `wallet/puzzles`,
with `singleton_truths.clib`. The top layer wraps an inner puzzle. It checks that the coin descends from the
launcher, and that the inner puzzle creates one coin of an odd amount, which it wraps again, or none with the
amount -113, which it strips.

## Main definitions

* `singletonTopLayer`, `V11.singletonTopLayer` — the two versions of the top layer.
* `singletonLauncher` — the launcher.
* `SingletonVersion.topLayer` — the top layer of a version.

## Main results

* `singletonTopLayer_eq_ok`, `V11.singletonTopLayer_eq_ok` — the top layer creates at most one coin
  of an odd amount, and asserts that the coin descends from the launcher.

## Design

`run` is the evaluation of the inner puzzle by the `clvm` package. The parameters of a program are the elements
of its solution, after those that are curried in; a missing one raises.
-/

namespace Chives

open SExp

section Truths

/-- `truth_data_to_truth_struct`. -/
def truthDataToTruthStruct (myId fullPuzhash innerpuzhash : Bytes32) (myAmount lineageProof struct : SExp) : SExp :=
  .pair (.pair (.atom myId.bytes) (.atom fullPuzhash.bytes))
    (.pair (.pair (.atom innerpuzhash.bytes) myAmount) (.pair lineageProof struct))

/-- `parent_info_for_lineage_proof` and `parent_info_for_eve_proof`. -/
def parentInfoForLineageProof (lineageProof : SExp) : Eval SExp := lineageProof.first

/-- `puzzle_hash_for_lineage_proof`. -/
def puzzleHashForLineageProof (lineageProof : SExp) : Eval SExp := lineageProof.second

/-- `amount_for_lineage_proof`. -/
def amountForLineageProof (lineageProof : SExp) : Eval SExp := lineageProof.third

/-- `amount_for_eve_proof`. -/
def amountForEveProof (lineageProof : SExp) : Eval SExp := lineageProof.second

/-- `is_not_eve_proof`. -/
def isNotEveProof (lineageProof : SExp) : Eval Bool := isTrue <$> (lineageProof.rest >>= rest)

/-- `mod_hash_for_singleton_struct`. -/
def modHashForSingletonStruct (struct : SExp) : Eval SExp := struct.first

/-- `launcher_id_for_singleton_struct`. -/
def launcherIdForSingletonStruct (struct : SExp) : Eval SExp := struct.second

/-- `launcher_puzzle_hash_for_singleton_struct`. -/
def launcherPuzzleHashForSingletonStruct (struct : SExp) : Eval SExp := struct.rest >>= rest

end Truths

section Code

variable (sha256 : Bytes → Bytes32) (run : SExp → SExp → Eval SExp)

/-- `calculate_full_puzzle_hash`. -/
def calculateFullPuzzleHash (struct innerPuzzleHash : SExp) : Eval Bytes32 := do
  let modHash ← modHashForSingletonStruct struct
  let modHash ← modHash.asAtom
  let innerPuzzleHash ← innerPuzzleHash.asAtom
  pure (puzzleHashOfCurriedFunction sha256 modHash [innerPuzzleHash, (struct.treeHash sha256).bytes])

/-! ## The first version -/

/-- `create_my_ID`. -/
def createMyId (struct : SExp) (fullPuzzleHash : Bytes32)
    (parentParent parentInnerPuzzleHash parentAmount myAmount : SExp) : Eval Bytes32 := do
  let parentParent ← parentParent.asAtom
  let parentPuzzleHash ← calculateFullPuzzleHash sha256 struct parentInnerPuzzleHash
  let parentAmount ← parentAmount.asAtom
  let myAmount ← myAmount.asAtom
  pure (sha256 ((sha256 (parentParent ++ parentPuzzleHash.bytes ++ parentAmount)).bytes ++
    fullPuzzleHash.bytes ++ myAmount))

/-- `strip_first_condition_if`. -/
def stripFirstConditionIf (boolean : Bool) (conditionList : SExp) : Eval SExp :=
  if boolean then conditionList.rest else pure conditionList

/-- `morph_condition`. -/
def morphCondition (condition struct : SExp) : Eval SExp := do
  let opcode ← condition.first
  let innerPuzzleHash ← condition.second
  let fullPuzzleHash ← calculateFullPuzzleHash sha256 struct innerPuzzleHash
  let amount ← condition.third
  pure (ofList [opcode, .atom fullPuzzleHash.bytes, amount])

/-- `created_coin_value_or_0`. -/
def createdCoinValueOr0 (condition : SExp) : Eval SExp := createCoinValue condition

/-- `odd_cons_m113`. -/
def oddConsM113 (outputAmount : SExp) : Eval (Bool × Bool) := do
  let lastBit ← outputAmount.logand (.atom [1])
  let isOdd ← lastBit.eqAtoms (.atom [1])
  let isM113 ← outputAmount.eqAtoms magicAmount
  pure (isOdd, isM113)

/-- `check_and_morph_conditions_for_singleton`, with its continuation `morph_next_condition`. -/
def checkAndMorphConditionsForSingleton (struct : SExp) : SExp → Bool → Eval SExp
  | .atom [], hasOddOutputBeenFound => if hasOddOutputBeenFound then pure nil else clvmRaise
  | .atom (_ :: _), _ => .error .firstOfNonCons
  | .pair condition conditions, hasOddOutputBeenFound => do
    let value ← createdCoinValueOr0 condition
    let (isOutputOdd, isOutputM113) ← oddConsM113 value
    clvmAssert (!(isOutputOdd && hasOddOutputBeenFound))
    let morphed ← (if isOutputOdd then morphCondition sha256 condition struct else pure condition)
    let rest ← checkAndMorphConditionsForSingleton struct conditions (isOutputOdd || hasOddOutputBeenFound)
    stripFirstConditionIf isOutputM113 (.pair morphed rest)

/-- `stager_three`. -/
def stagerThree (struct lineageProof : SExp) (myId fullPuzhash innerpuzhash : Bytes32)
    (myAmount innerPuzzle innerSolution : SExp) : Eval SExp := do
  let conditions ← run innerPuzzle
    (.pair (truthDataToTruthStruct myId fullPuzhash innerpuzhash myAmount lineageProof struct) innerSolution)
  let morphed ← checkAndMorphConditionsForSingleton sha256 struct conditions false
  pure (.pair (ofList [.atom ConditionOpcode.assertMyCoinId.value, .atom myId.bytes]) morphed)

/-- The id of the coin in `stager_two`, if the lineage proof is an eve proof. -/
def eveCoinId (struct lineageProof : SExp) (fullPuzhash : Bytes32) (myAmount : SExp) : Eval Bytes32 := do
  let parentInfo ← parentInfoForLineageProof lineageProof
  let parentInfo ← parentInfo.asAtom
  let launcherPuzzleHash ← launcherPuzzleHashForSingletonStruct struct
  let launcherPuzzleHash ← launcherPuzzleHash.asAtom
  let amount ← amountForEveProof lineageProof
  let amount ← amount.asAtom
  let launcherId ← launcherIdForSingletonStruct struct
  let launcherId ← launcherId.asAtom
  clvmAssert (launcherId = (sha256 (parentInfo ++ launcherPuzzleHash ++ amount)).bytes)
  let myAmount ← myAmount.asAtom
  pure (sha256 (launcherId ++ fullPuzhash.bytes ++ myAmount))

/-- The id of the coin in `stager_two`, if the lineage proof is that of a singleton. -/
def lineageCoinId (struct lineageProof : SExp) (fullPuzhash : Bytes32) (myAmount : SExp) : Eval Bytes32 := do
  let parentInfo ← parentInfoForLineageProof lineageProof
  let puzzleHash ← puzzleHashForLineageProof lineageProof
  let amount ← amountForLineageProof lineageProof
  createMyId sha256 struct fullPuzhash parentInfo puzzleHash amount myAmount

/-- `stager_two`. -/
def stagerTwo (struct lineageProof : SExp) (fullPuzhash innerpuzhash : Bytes32)
    (myAmount innerPuzzle innerSolution : SExp) : Eval SExp := do
  let notEve ← isNotEveProof lineageProof
  let myId ← (if notEve then lineageCoinId sha256 struct lineageProof fullPuzhash myAmount
    else eveCoinId sha256 struct lineageProof fullPuzhash myAmount)
  stagerThree sha256 run struct lineageProof myId fullPuzhash innerpuzhash myAmount innerPuzzle innerSolution

/-- `stager_one`. -/
def stagerOne (struct lineageProof : SExp) (myInnerpuzhash : Bytes32)
    (myAmount innerPuzzle innerSolution : SExp) : Eval SExp := do
  let fullPuzhash ← calculateFullPuzzleHash sha256 struct (.atom myInnerpuzhash.bytes)
  stagerTwo sha256 run struct lineageProof fullPuzhash myInnerpuzhash myAmount innerPuzzle innerSolution

/-- `singleton_top_layer.clvm`. -/
def singletonTopLayer (struct innerPuzzle solution : SExp) : Eval SExp := do
  let lineageProof ← solution.first
  let myAmount ← solution.second
  let innerSolution ← solution.third
  let lastBit ← myAmount.logand (.atom [1])
  clvmAssert lastBit.isTrue
  stagerOne sha256 run struct lineageProof (innerPuzzle.treeHash sha256) myAmount innerPuzzle innerSolution

/-! ## Version 1.1 -/

namespace V11

/-- `morph_condition`, which keeps what follows the puzzle hash. -/
def morphCondition (condition struct : SExp) : Eval SExp := do
  let opcode ← condition.first
  let innerPuzzleHash ← condition.second
  let fullPuzzleHash ← calculateFullPuzzleHash sha256 struct innerPuzzleHash
  let args ← condition.rest
  let rest ← args.rest
  pure (.pair opcode (.pair (.atom fullPuzzleHash.bytes) rest))

/-- The amount of a condition, and whether it is odd. -/
def isOddAmount (condition : SExp) : Eval Bool := do
  let amount ← condition.third
  let lastBit ← amount.logand (.atom [1])
  pure lastBit.isTrue

/-- `is_odd_create_coin`. -/
def isOddCreateCoin (condition : SExp) : Eval Bool := do
  let opcode ← condition.first
  let isCreateCoin ← opcode.eqAtoms (.atom ConditionOpcode.createCoin.value)
  (if isCreateCoin then isOddAmount condition else pure false)

/-- The condition of a coin with an odd amount in `check_and_morph_conditions_for_singleton`, before the
conditions that follow it: the melt condition is not prepended. -/
def prependMorphed (struct condition rest : SExp) : Eval SExp := do
  let amount ← condition.third
  let isM113 ← amount.eqAtoms magicAmount
  (if isM113 then pure rest else (fun morphed => .pair morphed rest) <$> morphCondition sha256 condition struct)

/-- `check_and_morph_conditions_for_singleton`. -/
def checkAndMorphConditionsForSingleton (struct : SExp) : SExp → Bool → Eval SExp
  | .atom [], hasOddOutputBeenFound => if hasOddOutputBeenFound then pure nil else clvmRaise
  | .atom (_ :: _), _ => .error .firstOfNonCons
  | .pair condition conditions, hasOddOutputBeenFound => do
    let isOdd ← isOddCreateCoin condition
    clvmAssert (!(isOdd && hasOddOutputBeenFound))
    let rest ← checkAndMorphConditionsForSingleton struct conditions (isOdd || hasOddOutputBeenFound)
    (if isOdd then prependMorphed sha256 struct condition rest else pure (.pair condition rest))

/-- `verify_lineage_proof`. -/
def verifyLineageProof (struct : SExp) (parentId : Bytes32) (isNotLauncher : Bool) : Eval SExp := do
  let launcherId ← launcherIdForSingletonStruct struct
  let isLauncher ← (SExp.atom parentId.bytes).eqAtoms launcherId
  clvmAssert (isNotLauncher || isLauncher)
  pure (ofList [.atom ConditionOpcode.assertMyParentId.value, .atom parentId.bytes])

/-- The puzzle hash of the parent in the main expression. -/
def parentPuzzleHash (struct lineageProof : SExp) (notEve : Bool) : Eval SExp :=
  if notEve then do
    let innerPuzzleHash ← puzzleHashForLineageProof lineageProof
    let fullPuzzleHash ← calculateFullPuzzleHash sha256 struct innerPuzzleHash
    pure (.atom fullPuzzleHash.bytes)
  else launcherPuzzleHashForSingletonStruct struct

/-- The amount of the parent in the main expression. -/
def parentAmount (lineageProof : SExp) (notEve : Bool) : Eval SExp :=
  if notEve then amountForLineageProof lineageProof else amountForEveProof lineageProof

/-- The condition about the parent in the main expression. -/
def parentCondition (struct lineageProof : SExp) : Eval SExp := do
  let notEve ← isNotEveProof lineageProof
  let parentInfo ← parentInfoForLineageProof lineageProof
  let puzzleHash ← parentPuzzleHash sha256 struct lineageProof notEve
  let amount ← parentAmount lineageProof notEve
  let parentId ← calculateCoinId sha256 parentInfo puzzleHash amount
  verifyLineageProof struct parentId notEve

/-- `singleton_top_layer_v1_1.clvm`. -/
def singletonTopLayer (struct innerPuzzle solution : SExp) : Eval SExp := do
  let lineageProof ← solution.first
  let myAmount ← solution.second
  let innerSolution ← solution.third
  let lastBit ← myAmount.logand (.atom [1])
  clvmAssert lastBit.isTrue
  let parent ← parentCondition sha256 struct lineageProof
  let conditions ← run innerPuzzle innerSolution
  let morphed ← checkAndMorphConditionsForSingleton sha256 struct conditions false
  pure (.pair (ofList [.atom ConditionOpcode.assertMyAmount.value, myAmount]) (.pair parent morphed))

end V11

/-! ## The launcher -/

/-- `singleton_launcher.clvm`. -/
def singletonLauncher (solution : SExp) : Eval SExp := do
  let singletonFullPuzzleHash ← solution.first
  let amount ← solution.second
  let keyValueList ← solution.third
  pure (ofList [ofList [.atom ConditionOpcode.createCoin.value, singletonFullPuzzleHash, amount],
    ofList [.atom ConditionOpcode.createCoinAnnouncement.value,
      .atom ((ofList [singletonFullPuzzleHash, amount, keyValueList]).treeHash sha256).bytes]])

/-- The versions of the top layer. -/
inductive SingletonVersion
  | v1
  | v1_1
  deriving DecidableEq

/-- The top layer of a version. -/
def SingletonVersion.topLayer : SingletonVersion → SExp → SExp → SExp → Eval SExp
  | v1 => singletonTopLayer sha256 run
  | v1_1 => V11.singletonTopLayer sha256 run

end Code

lemma singletonTopLayer_mono {sha256 : Bytes → Bytes32} {run run' : SExp → SExp → Eval SExp}
    (hrun : ∀ p s r, run p s = .ok r → run' p s = .ok r) {struct inner solution out : SExp}
    (h : singletonTopLayer sha256 run struct inner solution = .ok out) :
    singletonTopLayer sha256 run' struct inner solution = .ok out := by
  simp only [singletonTopLayer, stagerOne, stagerTwo, stagerThree, ExceptRun.bind_eq_ok] at h ⊢
  obtain ⟨proof, hproof, my, hmy, sol, hsol, bit, hbit, u, hu, full, hfull, eve, heve, myId, hid, conditions, hc,
    rest⟩ := h
  exact ⟨proof, hproof, my, hmy, sol, hsol, bit, hbit, u, hu, full, hfull, eve, heve, myId, hid, conditions,
    hrun _ _ _ hc, rest⟩

/-! ## At most one coin of an odd amount -/

/-- The number of coins of an odd amount that a list of conditions creates. -/
def oddCreated (conditions : List SExp) : ℕ :=
  (conditions.filterMap createdCoin).countP fun c => c.2 % 2 = 1

section OddCreated

variable {sha256 : Bytes → Bytes32} {run : SExp → SExp → Eval SExp} {struct c out : SExp}

lemma oddCreated_cons_le (c : SExp) (l : List SExp) : oddCreated (c :: l) ≤ oddCreated l + 1 := by
  rw [oddCreated, List.filterMap_cons]
  split
  · exact Nat.le_succ _
  · rw [List.countP_cons]
    exact Nat.add_le_add_left (by split <;> decide) _

lemma oddCreated_cons_of_even {l : List SExp} (h : ∀ p, createdCoin c = some p → p.2 % 2 ≠ 1) :
    oddCreated (c :: l) = oddCreated l := by
  rw [oddCreated, List.filterMap_cons]
  split
  · rfl
  · rename_i p hp
    rw [List.countP_cons_of_neg (by simpa using h p hp)]
    rfl

lemma oddCreated_cons_assert (opcode arg : Bytes) (l : List SExp) :
    oddCreated (ofList [.atom opcode, .atom arg] :: l) = oddCreated l := by
  rw [oddCreated, List.filterMap_cons_none rfl, oddCreated]

lemma oddCreated_step {rest out : List SExp} {isOdd found : Bool} (hnot : (!(isOdd && found)) = true)
    (hrest : oddCreated rest ≤ if isOdd || found then 0 else 1)
    (hout : out = rest ∨ ∃ c, out = c :: rest ∧ (isOdd = false → ∀ p, createdCoin c = some p → p.2 % 2 ≠ 1)) :
    oddCreated out ≤ if found then 0 else 1 := by
  cases isOdd with
  | true =>
    cases found with
    | true => cases hnot
    | false =>
      have h0 : oddCreated rest = 0 := Nat.le_zero.mp hrest
      rcases hout with rfl | ⟨c, rfl, -⟩
      · exact h0.le.trans (Nat.zero_le 1)
      · have h1 := oddCreated_cons_le c rest
        rwa [h0] at h1
  | false =>
    rcases hout with rfl | ⟨c, rfl, heven⟩
    · exact hrest
    · rwa [oddCreated_cons_of_even (heven rfl)]

lemma isOdd_of_oddConsM113 {value : SExp} {isOdd isM113 : Bool} (hv : createdCoinValueOr0 c = .ok value)
    (h : oddConsM113 value = .ok (isOdd, isM113)) {p : Bytes × ℤ} (hp : createdCoin c = some p) :
    isOdd = decide (p.2 % 2 = 1) := by
  obtain ⟨amount, rest, rfl, hamount⟩ := exists_of_createdCoin hp
  obtain rfl : SExp.atom amount = value := Except.ok.inj hv
  simp only [oddConsM113, ExceptRun.bind_eq_ok, logand_one, eqAtoms_atom_eq_ok, ExceptRun.pure_eq,
    Except.ok.injEq, Prod.mk.injEq] at h
  obtain ⟨r, ⟨b, hb, rfl⟩, o, ⟨a, ha, ho⟩, m, -, rfl, -⟩ := h
  obtain rfl := SExp.atom.inj hb
  have hone : SExp.ofInt 1 = .atom [1] := by decide
  rw [hamount, ← ho, decide_eq_decide]
  constructor
  · rintro rfl
    exact ofInt_injective (ha.trans hone.symm)
  · intro h1
    rw [h1, hone] at ha
    exact (SExp.atom.inj ha).symm

/-- **The first version lets at most one coin of an odd amount through**, and none after one was found.

**Proof sketch.** Induction on the conditions. A condition that creates a coin of an odd amount passes only if
none was found before, and then none is let through after it. -/
lemma oddCreated_checkAndMorph {conditions : SExp} {found : Bool}
    (h : checkAndMorphConditionsForSingleton sha256 struct conditions found = .ok out) :
    oddCreated out.asIter ≤ if found then 0 else 1 := by
  induction conditions generalizing found out with
  | atom b =>
    cases b with
    | nil =>
      cases found with
      | false => cases h
      | true =>
        obtain rfl : nil = out := Except.ok.inj h
        exact le_rfl
    | cons x b => cases h
  | pair c conditions _ ih =>
    simp only [checkAndMorphConditionsForSingleton, ExceptRun.bind_eq_ok, clvmAssert_eq_ok] at h
    obtain ⟨value, hv, ⟨isOdd, isM113⟩, hodd, -, hnot, morphed, hmorphed, rest, hrest, hstrip⟩ := h
    refine oddCreated_step hnot (ih hrest) ?_
    cases isM113 with
    | true => exact Or.inl (congrArg asIter (Except.ok.inj hstrip).symm)
    | false =>
      refine Or.inr ⟨morphed, congrArg asIter (Except.ok.inj hstrip).symm, ?_⟩
      rintro rfl p hp
      obtain rfl : c = morphed := Except.ok.inj hmorphed
      exact of_decide_eq_false (isOdd_of_oddConsM113 hv hodd hp).symm

namespace V11

lemma isOdd_of_isOddCreateCoin {isOdd : Bool} (h : isOddCreateCoin c = .ok isOdd) {p : Bytes × ℤ}
    (hp : createdCoin c = some p) : isOdd = decide (p.2 % 2 = 1) := by
  obtain ⟨amount, rest, rfl, hamount⟩ := exists_of_createdCoin hp
  have hodd : isOddAmount (.pair (.atom ConditionOpcode.createCoin.value)
      (.pair (.atom p.1) (.pair (.atom amount) rest))) = .ok isOdd := h
  simp only [isOddAmount, ExceptRun.bind_eq_ok, logand_one, ExceptRun.pure_eq, Except.ok.injEq] at hodd
  obtain ⟨a, ha, r, ⟨b, rfl, rfl⟩, rfl⟩ := hodd
  obtain rfl : amount = b := SExp.atom.inj (Except.ok.inj ha)
  rw [isTrue_parity, hamount]

/-- **Version 1.1 lets at most one coin of an odd amount through**, and none after one was found. -/
lemma oddCreated_checkAndMorph {conditions : SExp} {found : Bool}
    (h : checkAndMorphConditionsForSingleton sha256 struct conditions found = .ok out) :
    oddCreated out.asIter ≤ if found then 0 else 1 := by
  induction conditions generalizing found out with
  | atom b =>
    cases b with
    | nil =>
      cases found with
      | false => cases h
      | true =>
        obtain rfl : nil = out := Except.ok.inj h
        exact le_rfl
    | cons x b => cases h
  | pair c conditions _ ih =>
    simp only [checkAndMorphConditionsForSingleton, ExceptRun.bind_eq_ok, clvmAssert_eq_ok] at h
    obtain ⟨isOdd, hodd, -, hnot, rest, hrest, hout⟩ := h
    refine oddCreated_step hnot (ih hrest) ?_
    cases isOdd with
    | true =>
      simp only [prependMorphed, if_true, ExceptRun.bind_eq_ok] at hout
      obtain ⟨amount, -, isM113, -, hout⟩ := hout
      cases isM113 with
      | true => exact Or.inl (congrArg asIter (Except.ok.inj hout).symm)
      | false =>
        obtain ⟨morphed, -, rfl⟩ := ExceptRun.map_eq_ok.mp hout
        exact Or.inr ⟨morphed, rfl, fun h => by cases h⟩
    | false =>
      refine Or.inr ⟨c, congrArg asIter (Except.ok.inj hout).symm, fun _ p hp => ?_⟩
      exact of_decide_eq_false (isOdd_of_isOddCreateCoin hodd hp).symm

end V11

end OddCreated

/-! ## What a spend with the top layer asserts -/

/-- `SINGLETON_STRUCT`. -/
def singletonStruct (modHash launcherId launcherPuzzleHash : Bytes32) : SExp :=
  .pair (.atom modHash.bytes) (.pair (.atom launcherId.bytes) (.atom launcherPuzzleHash.bytes))

section Spec

variable (sha256 : Bytes → Bytes32) (modHash launcherId launcherPuzzleHash : Bytes32)

/-- The puzzle hash of the singleton with an inner puzzle of the given hash. -/
def fullPuzzleHash (innerPuzzleHash : Bytes) : Bytes32 :=
  puzzleHashOfCurriedFunction sha256 modHash.bytes
    [innerPuzzleHash, ((singletonStruct modHash launcherId launcherPuzzleHash).treeHash sha256).bytes]

/-- What is hashed for the id of the parent, by a lineage proof. -/
def parentMessage (parentInfo innerPuzzleHash amount : Bytes) : Bytes :=
  parentInfo ++ (fullPuzzleHash sha256 modHash launcherId launcherPuzzleHash innerPuzzleHash).bytes ++ amount

/-- The lineage proof of a singleton: the parent, the inner puzzle hash and the amount of its own parent. -/
def IsLineageProof (proof : SExp) (parentInfo innerPuzzleHash amount : Bytes) : Prop :=
  ∃ rest, proof = .pair (.atom parentInfo) (.pair (.atom innerPuzzleHash) (.pair (.atom amount) rest))

variable {sha256 modHash launcherId launcherPuzzleHash} {run : SExp → SExp → Eval SExp}
  {inner solution out : SExp}

lemma calculateFullPuzzleHash_eq_ok {x : SExp} {h : Bytes32}
    (hx : calculateFullPuzzleHash sha256 (singletonStruct modHash launcherId launcherPuzzleHash) x = .ok h) :
    ∃ b, x = .atom b ∧ h = fullPuzzleHash sha256 modHash launcherId launcherPuzzleHash b := by
  simp only [calculateFullPuzzleHash, modHashForSingletonStruct, ExceptRun.bind_eq_ok, asAtom_eq_ok,
    ExceptRun.pure_eq, Except.ok.injEq] at hx
  obtain ⟨m, hm, a, rfl, b, rfl, rfl⟩ := hx
  obtain rfl : modHash.bytes = a := SExp.atom.inj (Except.ok.inj hm)
  exact ⟨b, rfl, rfl⟩

lemma lineageCoinId_eq_ok {proof myAmount : SExp} {full myId : Bytes32}
    (h : lineageCoinId sha256 (singletonStruct modHash launcherId launcherPuzzleHash) proof full myAmount = .ok myId) :
    ∃ parentInfo iph amount my, IsLineageProof proof parentInfo iph amount ∧ myAmount = .atom my ∧
      myId = sha256 ((sha256 (parentMessage sha256 modHash launcherId launcherPuzzleHash
        parentInfo iph amount)).bytes ++ full.bytes ++ my) := by
  simp only [lineageCoinId, createMyId, parentInfoForLineageProof, puzzleHashForLineageProof,
    amountForLineageProof, ExceptRun.bind_eq_ok, asAtom_eq_ok, ExceptRun.pure_eq, Except.ok.injEq] at h
  obtain ⟨a, ha, b, hb, c, hc, p, rfl, ph, hph, amt, rfl, my, rfl, rfl⟩ := h
  obtain ⟨iph, rfl, rfl⟩ := calculateFullPuzzleHash_eq_ok hph
  obtain ⟨x, y, d, rfl⟩ := third_eq_ok.mp hc
  obtain rfl : x = .atom p := Except.ok.inj ha
  obtain rfl : y = .atom iph := Except.ok.inj hb
  exact ⟨p, iph, amt, my, ⟨d, rfl⟩, rfl, rfl⟩

lemma eveCoinId_eq_ok {proof myAmount : SExp} {full myId : Bytes32}
    (h : eveCoinId sha256 (singletonStruct modHash launcherId launcherPuzzleHash) proof full myAmount = .ok myId) :
    ∃ my, myAmount = .atom my ∧ myId = sha256 (launcherId.bytes ++ full.bytes ++ my) := by
  simp only [eveCoinId, launcherIdForSingletonStruct, ExceptRun.bind_eq_ok, asAtom_eq_ok,
    ExceptRun.pure_eq, Except.ok.injEq] at h
  obtain ⟨_, -, _, -, _, -, _, -, _, -, _, -, lid, hlid, l, rfl, -, -, my, rfl, rfl⟩ := h
  obtain rfl : launcherId.bytes = l := SExp.atom.inj (Except.ok.inj hlid)
  exact ⟨my, rfl, rfl⟩

/-- **What the first version asserts**: the id of the coin, computed from the launcher or from a lineage proof,
with an odd amount. -/
theorem singletonTopLayer_eq_ok
    (h : singletonTopLayer sha256 run (singletonStruct modHash launcherId launcherPuzzleHash) inner solution =
      .ok out) :
    ∃ proof my myId, solution.first = .ok proof ∧ solution.second = .ok (.atom my) ∧ intFromBytes my % 2 = 1 ∧
      oddCreated out.asIter ≤ 1 ∧
      ofList [.atom ConditionOpcode.assertMyCoinId.value, .atom (Bytes32.bytes myId)] ∈ out.asIter ∧
      ∃ parent : Bytes32, myId = sha256 (parent.bytes ++
        (fullPuzzleHash sha256 modHash launcherId launcherPuzzleHash (inner.treeHash sha256).bytes).bytes ++ my) ∧
      (parent = launcherId ∨ ∃ parentInfo iph amount, IsLineageProof proof parentInfo iph amount ∧
        parent = sha256 (parentMessage sha256 modHash launcherId launcherPuzzleHash parentInfo iph amount)) := by
  simp only [singletonTopLayer, stagerOne, stagerTwo, stagerThree, ExceptRun.bind_eq_ok, clvmAssert_eq_ok,
    logand_one, ExceptRun.pure_eq, Except.ok.injEq] at h
  obtain ⟨proof, hproof, myAmount, hmy, _, -, lastBit, ⟨my, rfl, rfl⟩, -, hodd, full, hfull, notEve, -, myId, hid,
    _, -, morphed, hmorphed, rfl⟩ := h
  obtain ⟨b, hb, rfl⟩ := calculateFullPuzzleHash_eq_ok hfull
  obtain rfl := SExp.atom.inj hb
  rw [isTrue_parity, decide_eq_true_eq] at hodd
  have hcount : oddCreated morphed.asIter ≤ 1 := oddCreated_checkAndMorph hmorphed
  refine ⟨proof, my, myId, hproof, hmy, hodd, ?_, List.mem_cons_self, ?_⟩
  · rw [asIter, oddCreated_cons_assert]
    exact hcount
  · cases notEve with
    | true =>
      obtain ⟨parentInfo, iph, amount, my', hpf, hmy', rfl⟩ := lineageCoinId_eq_ok hid
      obtain rfl := SExp.atom.inj hmy'
      exact ⟨_, rfl, Or.inr ⟨parentInfo, iph, amount, hpf, rfl⟩⟩
    | false =>
      obtain ⟨my', hmy', rfl⟩ := eveCoinId_eq_ok hid
      obtain rfl := SExp.atom.inj hmy'
      exact ⟨launcherId, rfl, Or.inl rfl⟩

namespace V11

/-- The parent that version 1.1 accepts. -/
lemma parentCondition_eq_ok {proof condition : SExp}
    (h : parentCondition sha256 (singletonStruct modHash launcherId launcherPuzzleHash) proof = .ok condition) :
    ∃ parent : Bytes32,
      condition = ofList [.atom ConditionOpcode.assertMyParentId.value, .atom parent.bytes] ∧
      (parent = launcherId ∨ ∃ parentInfo iph amount, IsLineageProof proof parentInfo iph amount ∧
        parent = sha256 (parentMessage sha256 modHash launcherId launcherPuzzleHash parentInfo iph amount)) := by
  simp only [parentCondition, verifyLineageProof, parentInfoForLineageProof, launcherIdForSingletonStruct,
    ExceptRun.bind_eq_ok, clvmAssert_eq_ok, ExceptRun.pure_eq, Except.ok.injEq] at h
  obtain ⟨notEve, -, info, hinfo, ph, hph, amt, hamt, parent, hparent, lid, hlid, isLauncher, heq, -, hassert,
    rfl⟩ := h
  refine ⟨parent, rfl, ?_⟩
  obtain ⟨p, phb, a, rfl, rfl, rfl, -, -, rfl⟩ := calculateCoinId_eq_ok hparent
  cases notEve with
  | true =>
    simp only [parentPuzzleHash, puzzleHashForLineageProof, if_true, ExceptRun.bind_eq_ok, ExceptRun.pure_eq,
      Except.ok.injEq] at hph
    obtain ⟨x, hx, full, hfull, hatom⟩ := hph
    obtain ⟨iph, rfl, rfl⟩ := calculateFullPuzzleHash_eq_ok hfull
    obtain rfl := SExp.atom.inj hatom
    obtain ⟨x, y, d, rfl⟩ := third_eq_ok.mp hamt
    obtain rfl : x = .atom p := Except.ok.inj hinfo
    obtain rfl : y = .atom iph := Except.ok.inj hx
    exact Or.inr ⟨p, iph, a, ⟨d, rfl⟩, rfl⟩
  | false =>
    obtain rfl : isLauncher = true := hassert
    obtain rfl : SExp.atom launcherId.bytes = lid := Except.ok.inj hlid
    obtain ⟨x, hx, hdec⟩ := eqAtoms_atom_eq_ok.mp heq
    obtain rfl := SExp.atom.inj hx
    exact Or.inl (Bytes32.ext (of_decide_eq_true hdec))

/-- **What version 1.1 asserts**: the amount of the coin, which is odd, and its parent. -/
theorem singletonTopLayer_eq_ok
    (h : singletonTopLayer sha256 run (singletonStruct modHash launcherId launcherPuzzleHash) inner solution =
      .ok out) :
    ∃ proof my, solution.first = .ok proof ∧ solution.second = .ok (.atom my) ∧ intFromBytes my % 2 = 1 ∧
      oddCreated out.asIter ≤ 1 ∧ ofList [.atom ConditionOpcode.assertMyAmount.value, .atom my] ∈ out.asIter ∧
      ∃ parent : Bytes32,
        ofList [.atom ConditionOpcode.assertMyParentId.value, .atom parent.bytes] ∈ out.asIter ∧
      (parent = launcherId ∨ ∃ parentInfo iph amount, IsLineageProof proof parentInfo iph amount ∧
        parent = sha256 (parentMessage sha256 modHash launcherId launcherPuzzleHash parentInfo iph amount)) := by
  simp only [singletonTopLayer, ExceptRun.bind_eq_ok, clvmAssert_eq_ok, logand_one, ExceptRun.pure_eq,
    Except.ok.injEq] at h
  obtain ⟨proof, hproof, myAmount, hmy, _, -, lastBit, ⟨my, rfl, rfl⟩, -, hodd, condition, hparent, _, -, morphed,
    hmorphed, rfl⟩ := h
  rw [isTrue_parity, decide_eq_true_eq] at hodd
  obtain ⟨parent, rfl, hcases⟩ := parentCondition_eq_ok hparent
  have hcount : oddCreated morphed.asIter ≤ 1 := oddCreated_checkAndMorph hmorphed
  refine ⟨proof, my, hproof, hmy, hodd, ?_, List.mem_cons_self, parent,
    List.mem_cons_of_mem _ List.mem_cons_self, hcases⟩
  rw [asIter, asIter, oddCreated_cons_assert, oddCreated_cons_assert]
  exact hcount

end V11

lemma singletonLauncher_eq_ok (h : singletonLauncher sha256 solution = .ok out) :
    (out.asIter.filterMap createdCoin).length ≤ 1 := by
  simp only [singletonLauncher, ExceptRun.bind_eq_ok, ExceptRun.pure_eq, Except.ok.injEq] at h
  obtain ⟨ph, -, amount, -, kv, -, rfl⟩ := h
  rw [asIter_ofList, List.filterMap_cons]
  split
  · exact Nat.zero_le 1
  · exact Nat.le_refl 1

end Spec

end Chives
