import Chives.Types.CoinSpend
import Chives.Wallet.CurryAndTreehash

set_option autoImplicit false

/-!
# The layers of an NFT

`nft_ownership_layer.clvm` and `nft_state_layer.clvm` of `wallet/puzzles`. Each layer runs its inner puzzle, passes
the conditions on, and wraps the coin of an odd amount again: the ownership layer with the owner and the transfer
program that the transfer program returns, the state layer with the metadata and the updater that an update returns.

## Main definitions

* `nftOwnershipLayer`, `nftStateLayer` — the layers.
* `oddCreateCoins` — the conditions that create a coin of an odd amount.
* `OwnershipWrapped`, `StateWrapped` — there is one such condition, and its coin is wrapped.

## Main results

* `nftOwnershipLayerPuzzleHash_eq_curry`, `nftStateLayerPuzzleHash_eq_curry` — the puzzle hashes that the
  layers compute are those of curried programs.
* `nftOwnershipLayer_wrapped_iff` — the ownership layer wraps the coins of amount 1 only, so all coins of an
  odd amount are wrapped if and only if the inner puzzle creates none of another one.
* `nftStateLayer_wrapped` — the state layer wraps them all.
* `nftLayers_wrapped_iff` — both layers.
* `NftSample.nftOwnershipLayer_not_wrapped` — a coin of amount 3 passes unwrapped.

## Design

`run` is the evaluation of puzzles by the `clvm` package. A round of a loop gives what it prepends to the conditions,
if anything, and the accumulators for the conditions that follow. The ownership layer calls `logand` with one
argument, which gives back the integer.
-/

namespace Chives

open SExp

/-! ## The ownership layer -/

/-- `logand` of one argument. -/
def SExp.logandSingle (s : SExp) : Eval SExp := do
  let a ← s.asInt
  pure (ofInt (Int.land (-1) a))

/-- `CREATE_PUZZLE_ANNOUNCEMENT`. -/
def createPuzzleAnnouncement : Bytes := [62]

/-- `NEW_OWNER_CONDITION`, which is -10. -/
def newOwnerCondition : Bytes := [246]

/-- `ANNOUNCEMENT_PREFIX`. -/
def announcementStart : Bytes := [0xad, 0x4c]

section Code

variable (sha256 : Bytes → Bytes32) (run : SExp → SExp → Eval SExp)

/-- `nft_ownership_layer_puzzle_hash`. -/
def nftOwnershipLayerPuzzleHash (modHash newOwner : Bytes) (transferProgram : SExp) (innerPuzzleHash : Bytes) :
    Bytes32 :=
  puzzleHashOfCurriedFunction sha256 modHash [innerPuzzleHash, (transferProgram.treeHash sha256).bytes,
    (sha256 (atomMessage newOwner)).bytes, (sha256 (atomMessage modHash)).bytes]

/-- `construct_end_conditions`. -/
def constructEndConditions (modHash transferProgram oddArgs tpOutput : SExp) : Eval SExp := do
  let newOwner ← tpOutput.first
  let newTp ← tpOutput.second
  let conditions ← tpOutput.third
  let innerPuzzleHash ← oddArgs.first
  let rest ← oddArgs.rest
  let modHash ← modHash.asAtom
  let newOwner ← newOwner.asAtom
  let innerPuzzleHash ← innerPuzzleHash.asAtom
  pure (.pair (.pair (.atom ConditionOpcode.createCoin.value)
    (.pair (.atom (nftOwnershipLayerPuzzleHash sha256 modHash newOwner
      (if newTp.isTrue then newTp else transferProgram) innerPuzzleHash).bytes) rest)) conditions)

/-- Whether a puzzle announcement of the inner puzzle looks like one of the layer. -/
def isLayerAnnouncement (condition : SExp) : Eval Bool := do
  let message ← condition.second
  let message ← message.asAtom
  pure (decide (message.length = 34) && decide (message.take 2 = announcementStart))

/-- What a condition that starts with an opcode other than `CREATE_COIN` does in `wrap_odd_create_coins` of the
ownership layer. -/
def ownershipRoundOther (transferProgram currentOwner allConditions condition opcode oddArgs tpOutput : SExp) :
    Eval (Option SExp × SExp × SExp) := do
  let isNewOwner ← opcode.eqAtoms (.atom newOwnerCondition)
  if isNewOwner then
    clvmAssert (!tpOutput.isTrue)
    let args ← condition.rest
    let output ← run transferProgram (ofList [currentOwner, allConditions, args])
    pure (some (ofList [.atom createPuzzleAnnouncement, .atom (announcementStart ++ (args.treeHash sha256).bytes)]),
      oddArgs, output)
  else
    let isAnnouncement ← opcode.eqAtoms (.atom createPuzzleAnnouncement)
    if isAnnouncement then
      let isLayer ← isLayerAnnouncement condition
      clvmAssert (!isLayer)
      pure (some condition, oddArgs, tpOutput)
    else pure (some condition, oddArgs, tpOutput)

/-- One round of `wrap_odd_create_coins` of the ownership layer. -/
def ownershipRound (transferProgram currentOwner allConditions condition oddArgs tpOutput : SExp) :
    Eval (Option SExp × SExp × SExp) := do
  let opcode ← condition.first
  let isCreateCoin ← opcode.eqAtoms (.atom ConditionOpcode.createCoin.value)
  if isCreateCoin then
    let amount ← condition.third
    let bits ← amount.logandSingle
    let isOdd ← bits.eqAtoms (.atom [1])
    if isOdd then
      clvmAssert (!oddArgs.isTrue)
      let args ← condition.rest
      pure (none, args, tpOutput)
    else pure (some condition, oddArgs, tpOutput)
  else ownershipRoundOther sha256 run transferProgram currentOwner allConditions condition opcode oddArgs tpOutput

/-- What is prepended, if anything. -/
def consOption (emitted : Option SExp) (conditions : SExp) : SExp :=
  match emitted with
  | none => conditions
  | some condition => .pair condition conditions

/-- `wrap_odd_create_coins` of the ownership layer. -/
def ownershipWrapOddCreateCoins (modHash transferProgram currentOwner allConditions : SExp) :
    SExp → SExp → SExp → Eval SExp
  | .atom [], oddArgs, tpOutput => do
    let output ← (if tpOutput.isTrue then pure tpOutput
      else run transferProgram (ofList [currentOwner, allConditions, nil]))
    constructEndConditions sha256 modHash transferProgram oddArgs output
  | .atom (_ :: _), _, _ => .error .firstOfNonCons
  | .pair condition conditions, oddArgs, tpOutput => do
    let (emitted, oddArgs, tpOutput) ←
      ownershipRound sha256 run transferProgram currentOwner allConditions condition oddArgs tpOutput
    consOption emitted <$> ownershipWrapOddCreateCoins modHash transferProgram currentOwner allConditions conditions
      oddArgs tpOutput

/-- `nft_ownership_layer.clvm`. -/
def nftOwnershipLayer (modHash currentOwner transferProgram innerPuzzle solution : SExp) : Eval SExp := do
  let innerSolution ← solution.first
  let conditions ← run innerPuzzle innerSolution
  ownershipWrapOddCreateCoins sha256 run modHash transferProgram currentOwner conditions conditions nil nil

/-! ## The state layer -/

/-- The opcode of an update, which is -24. -/
def updateCondition : Bytes := [232]

/-- `nft_state_layer_puzzle_hash`. -/
def nftStateLayerPuzzleHash (modHash : Bytes) (metadata : SExp) (updaterHash innerPuzzleHash : Bytes) : Bytes32 :=
  puzzleHashOfCurriedFunction sha256 modHash [innerPuzzleHash, (sha256 (atomMessage updaterHash)).bytes,
    (metadata.treeHash sha256).bytes, (sha256 (atomMessage modHash)).bytes]

/-- The metadata and the updater after an update condition. -/
def updatedMetadata (condition newMetadataInfo metadataSeen : SExp) : Eval SExp := do
  let updater ← condition.second
  let info ← newMetadataInfo.first
  let metadata ← info.first
  let updaterHash ← info.second
  let isCurrent ← (SExp.atom (updater.treeHash sha256).bytes).eqAtoms updaterHash
  clvmAssert (isCurrent && !metadataSeen.isTrue)
  let solution ← condition.third
  run updater (ofList [metadata, updaterHash, solution])

/-- One round of `wrap_odd_create_coins` of the state layer. -/
def stateRound (condition oddCoinParams newMetadataInfo metadataSeen : SExp) :
    Eval (Option SExp × SExp × SExp × SExp) := do
  let opcode ← condition.first
  let isCreateCoin ← opcode.eqAtoms (.atom ConditionOpcode.createCoin.value)
  if isCreateCoin then
    let amount ← condition.third
    let lastBit ← amount.logand (.atom [1])
    if lastBit.isTrue then
      clvmAssert (!oddCoinParams.isTrue)
      let params ← condition.rest
      pure (none, params, newMetadataInfo, metadataSeen)
    else pure (some condition, oddCoinParams, newMetadataInfo, metadataSeen)
  else
    let isUpdate ← opcode.eqAtoms (.atom updateCondition)
    if isUpdate then
      let info ← updatedMetadata sha256 run condition newMetadataInfo metadataSeen
      pure (none, oddCoinParams, info, .atom [1])
    else pure (some condition, oddCoinParams, newMetadataInfo, metadataSeen)

/-- The end of `wrap_odd_create_coins` of the state layer. -/
def stateEndConditions (modHash oddCoinParams newMetadataInfo : SExp) : Eval SExp := do
  let info ← newMetadataInfo.first
  let metadata ← info.first
  let updaterHash ← info.second
  let innerPuzzleHash ← oddCoinParams.first
  let rest ← oddCoinParams.rest
  let conditions ← newMetadataInfo.second
  let modHash ← modHash.asAtom
  let updaterHash ← updaterHash.asAtom
  let innerPuzzleHash ← innerPuzzleHash.asAtom
  pure (.pair (.pair (.atom ConditionOpcode.createCoin.value)
    (.pair (.atom (nftStateLayerPuzzleHash sha256 modHash metadata updaterHash innerPuzzleHash).bytes) rest))
    conditions)

/-- `wrap_odd_create_coins` of the state layer. -/
def stateWrapOddCreateCoins (modHash : SExp) : SExp → SExp → SExp → SExp → Eval SExp
  | .atom [], oddCoinParams, newMetadataInfo, _ => stateEndConditions sha256 modHash oddCoinParams newMetadataInfo
  | .atom (_ :: _), _, _, _ => .error .firstOfNonCons
  | .pair condition conditions, oddCoinParams, newMetadataInfo, metadataSeen => do
    let (emitted, oddCoinParams, newMetadataInfo, metadataSeen) ←
      stateRound sha256 run condition oddCoinParams newMetadataInfo metadataSeen
    consOption emitted <$> stateWrapOddCreateCoins modHash conditions oddCoinParams newMetadataInfo metadataSeen

/-- `nft_state_layer.clvm`. -/
def nftStateLayer (modHash metadata updaterHash innerPuzzle solution : SExp) : Eval SExp := do
  let innerSolution ← solution.first
  let conditions ← run innerPuzzle innerSolution
  stateWrapOddCreateCoins sha256 run modHash conditions nil (ofList [ofList [metadata, updaterHash], nil]) nil

end Code

/-! ## Coins of an odd amount -/

/-- The amount of a condition that creates a coin. -/
def createCoinAmount : SExp → Option ℤ
  | .pair (.atom opcode) (.pair _ (.pair (.atom amount) _)) =>
    if opcode = ConditionOpcode.createCoin.value then some (intFromBytes amount) else none
  | _ => none

/-- Whether a condition creates a coin of an odd amount. -/
def isOddCreateCoin (condition : SExp) : Bool := (createCoinAmount condition).any fun n => decide (n % 2 = 1)

/-- The conditions that create a coin of an odd amount. -/
def oddCreateCoins (conditions : List SExp) : List SExp := conditions.filter isOddCreateCoin

/-- No condition creates a coin. -/
def NoCreateCoin (conditions : SExp) : Prop :=
  ∀ c ∈ conditions.asIter, c.first ≠ .ok (.atom ConditionOpcode.createCoin.value)

instance (conditions : SExp) : Decidable (NoCreateCoin conditions) := inferInstanceAs (Decidable (∀ c ∈ _, _))

/-- The update conditions. -/
def updateConditions (conditions : List SExp) : List SExp :=
  conditions.filter fun c => decide (c.first = .ok (.atom updateCondition))

section Wrapped

variable (sha256 : Bytes → Bytes32) (run : SExp → SExp → Eval SExp)

/-- **The ownership layer has wrapped the coin of an odd amount**: its output has one, for the puzzle hash that the
inner puzzle asked for, with the owner and the transfer program that the transfer program returned, which was called
for the new owner or, if there is none, without arguments. -/
def OwnershipWrapped (modHash transferProgram currentOwner conditions output : SExp) : Prop :=
  ∃ (mod newOwner innerPuzzleHash : Bytes) (rest args tpOutput newTp : SExp),
    modHash = .atom mod ∧
    .pair (.atom ConditionOpcode.createCoin.value) (.pair (.atom innerPuzzleHash) rest) ∈ conditions.asIter ∧
    (.pair (.atom newOwnerCondition) args ∈ conditions.asIter ∨ (args = nil ∧
      ∀ args', .pair (.atom newOwnerCondition) args' ∈ conditions.asIter →
        run transferProgram (ofList [currentOwner, conditions, args']) = .ok nil)) ∧
    run transferProgram (ofList [currentOwner, conditions, args]) = .ok tpOutput ∧
    tpOutput.first = .ok (.atom newOwner) ∧ tpOutput.second = .ok newTp ∧
    oddCreateCoins output.asIter = [.pair (.atom ConditionOpcode.createCoin.value)
      (.pair (.atom (nftOwnershipLayerPuzzleHash sha256 mod newOwner
        (if newTp.isTrue then newTp else transferProgram) innerPuzzleHash).bytes) rest)]

/-- **The metadata of the state layer**: as they are curried in, without an update condition, or as the updater
returns them for the only one. -/
def MetadataUpdated (metadata updaterHash conditions info : SExp) : Prop :=
  (updateConditions conditions.asIter = [] ∧ info = ofList [ofList [metadata, updaterHash], nil]) ∨
    ∃ updater solution rest, updateConditions conditions.asIter =
        [.pair (.atom updateCondition) (.pair updater (.pair solution rest))] ∧
      updaterHash = .atom (updater.treeHash sha256).bytes ∧
      run updater (ofList [metadata, updaterHash, solution]) = .ok info

/-- **The state layer has wrapped the coin of an odd amount**: its output has one, for the puzzle hash that the inner
puzzle asked for, with the metadata and the updater after at most one update. -/
def StateWrapped (modHash metadata updaterHash conditions output : SExp) : Prop :=
  ∃ (mod newUpdaterHash innerPuzzleHash : Bytes) (rest info newMetadata : SExp),
    modHash = .atom mod ∧
    .pair (.atom ConditionOpcode.createCoin.value) (.pair (.atom innerPuzzleHash) rest) ∈ conditions.asIter ∧
    MetadataUpdated sha256 run metadata updaterHash conditions info ∧
    info.first >>= first = .ok newMetadata ∧ info.first >>= second = .ok (.atom newUpdaterHash) ∧
    oddCreateCoins output.asIter = [.pair (.atom ConditionOpcode.createCoin.value)
      (.pair (.atom (nftStateLayerPuzzleHash sha256 mod newMetadata newUpdaterHash innerPuzzleHash).bytes) rest)]

end Wrapped

/-! ## Currying -/

section Currying

variable {sha256 : Bytes → Bytes32}

/-- **The puzzle hash of the ownership layer** is that of the layer with its parameters curried in. -/
theorem nftOwnershipLayerPuzzleHash_eq_curry (mod transferProgram inner : SExp) (newOwner : Bytes) :
    nftOwnershipLayerPuzzleHash sha256 (mod.treeHash sha256).bytes newOwner transferProgram
        (inner.treeHash sha256).bytes =
      (curry mod [.atom (mod.treeHash sha256).bytes, .atom newOwner, transferProgram, inner]).treeHash sha256 := by
  rw [treeHash_curry]
  rfl

/-- **The puzzle hash of the state layer** is that of the layer with its parameters curried in. -/
theorem nftStateLayerPuzzleHash_eq_curry (mod metadata inner : SExp) (updaterHash : Bytes) :
    nftStateLayerPuzzleHash sha256 (mod.treeHash sha256).bytes metadata updaterHash (inner.treeHash sha256).bytes =
      (curry mod [.atom (mod.treeHash sha256).bytes, metadata, .atom updaterHash, inner]).treeHash sha256 := by
  rw [treeHash_curry]
  rfl

end Currying

/-! ## Conditions -/

section Conditions

variable {condition opcode : SExp}

lemma land_neg_one (n : ℤ) : Int.land (-1) n = n := by
  cases n with
  | ofNat m =>
    change ((Nat.ldiff m 0 : ℕ) : ℤ) = m
    simp [Nat.ldiff]
  | negSucc m =>
    change Int.negSucc (0 ||| m) = Int.negSucc m
    simp

lemma logandSingle_eq_ok {s r : SExp} :
    s.logandSingle = .ok r ↔ ∃ b, s = .atom b ∧ r = ofInt (intFromBytes b) := by
  simp only [SExp.logandSingle, ExceptRun.bind_eq_ok, asInt_eq_ok, ExceptRun.pure_eq, Except.ok.injEq, land_neg_one]
  constructor
  · rintro ⟨n, ⟨b, rfl, rfl⟩, rfl⟩
    exact ⟨b, rfl, rfl⟩
  · rintro ⟨b, rfl, rfl⟩
    exact ⟨_, ⟨b, rfl, rfl⟩, rfl⟩

lemma createCoinAmount_eq {amount : Bytes} (hfirst : condition.first = .ok (.atom ConditionOpcode.createCoin.value))
    (hthird : condition.third = .ok (.atom amount)) : createCoinAmount condition = some (intFromBytes amount) := by
  obtain ⟨a, b, d, rfl⟩ := third_eq_ok.mp hthird
  obtain rfl : a = .atom ConditionOpcode.createCoin.value := Except.ok.inj hfirst
  rw [createCoinAmount, if_pos rfl]

lemma createCoinAmount_of_ne (hfirst : condition.first ≠ .ok (.atom ConditionOpcode.createCoin.value)) :
    createCoinAmount condition = none := by
  unfold createCoinAmount
  split
  · rename_i opcode _ amount _
    refine if_neg fun heq => hfirst ?_
    rw [heq]
    rfl
  · rfl

lemma isOddCreateCoin_of_ne (hfirst : condition.first ≠ .ok (.atom ConditionOpcode.createCoin.value)) :
    isOddCreateCoin condition = false := by
  rw [isOddCreateCoin, createCoinAmount_of_ne hfirst]
  rfl

lemma NoCreateCoin.oddCreateCoins {conditions : SExp} (h : NoCreateCoin conditions) :
    oddCreateCoins conditions.asIter = [] := by
  refine List.filter_eq_nil_iff.mpr fun c hc => ?_
  rw [isOddCreateCoin_of_ne (h c hc)]
  exact Bool.false_ne_true

lemma asIter_consOption (emitted : Option SExp) (conditions : SExp) :
    (consOption emitted conditions).asIter = emitted.toList ++ conditions.asIter := by
  cases emitted <;> rfl

end Conditions

/-! ## One round of the ownership layer -/

section Ownership

variable {sha256 : Bytes → Bytes32} {run : SExp → SExp → Eval SExp}
  {modHash transferProgram currentOwner allConditions condition conditions oddArgs oddArgs' tpOutput tpOutput' : SExp}
  {emitted : Option SExp}

/-- **What a round of the ownership layer does**: a coin of amount 1 is kept for the end, a new owner is passed to the
transfer program and announced, and all else passes. -/
lemma ownershipRound_eq_ok
    (h : ownershipRound sha256 run transferProgram currentOwner allConditions condition oddArgs tpOutput =
      .ok (emitted, oddArgs', tpOutput')) :
    (createCoinAmount condition = some 1 ∧ condition = .pair (.atom ConditionOpcode.createCoin.value) oddArgs' ∧
      emitted = none ∧ tpOutput' = tpOutput) ∨
    (createCoinAmount condition ≠ some 1 ∧ condition.first ≠ .ok (.atom newOwnerCondition) ∧
      emitted = some condition ∧ oddArgs' = oddArgs ∧ tpOutput' = tpOutput) ∨
    (∃ args c, condition = .pair (.atom newOwnerCondition) args ∧ emitted = some c ∧ isOddCreateCoin c = false ∧
      oddArgs' = oddArgs ∧ tpOutput.isTrue = false ∧
      run transferProgram (ofList [currentOwner, allConditions, args]) = .ok tpOutput') := by
  have hne : ConditionOpcode.createCoin.value ≠ newOwnerCondition := by decide
  simp only [ownershipRound, ExceptRun.bind_eq_ok, eqAtoms_atom_eq_ok] at h
  obtain ⟨opcode, hopcode, isCreateCoin, ⟨op, rfl, rfl⟩, h⟩ := h
  obtain ⟨args, rfl⟩ := first_eq_ok.mp hopcode
  by_cases hcreate : op = ConditionOpcode.createCoin.value
  · subst hcreate
    simp only [decide_true, if_true, ExceptRun.bind_eq_ok, logandSingle_eq_ok, eqAtoms_atom_eq_ok] at h
    obtain ⟨amount, hamount, bits, ⟨b, rfl, rfl⟩, isOdd, ⟨a, ha, rfl⟩, h⟩ := h
    have hvalue := createCoinAmount_eq hopcode hamount
    have hone : SExp.ofInt 1 = .atom [1] := by decide
    by_cases hodd : a = [1]
    · subst hodd
      simp only [decide_true, if_true, ExceptRun.bind_eq_ok, clvmAssert_eq_ok, ExceptRun.pure_eq, Except.ok.injEq,
        Prod.mk.injEq] at h
      obtain ⟨-, -, rest, hrest, rfl, rfl, rfl⟩ := h
      obtain rfl : args = rest := Except.ok.inj hrest
      have hint : intFromBytes b = 1 := ofInt_injective (ha.trans hone.symm)
      exact .inl ⟨by rw [hvalue, hint], rfl, rfl, rfl⟩
    · simp only [hodd, decide_false, Bool.false_eq_true, if_false, ExceptRun.pure_eq, Except.ok.injEq,
        Prod.mk.injEq] at h
      obtain ⟨rfl, rfl, rfl⟩ := h
      refine .inr (.inl ⟨fun hsome => hodd ?_, fun hfirst => hne ?_, rfl, rfl, rfl⟩)
      · rw [hvalue] at hsome
        rw [Option.some.inj hsome, hone] at ha
        exact (SExp.atom.inj ha).symm
      · exact SExp.atom.inj (Except.ok.inj hfirst)
  · have hvalue : createCoinAmount (.pair (.atom op) args) ≠ some 1 := by
      have hfirst : (SExp.pair (.atom op) args).first ≠ .ok (.atom ConditionOpcode.createCoin.value) :=
        fun hfirst => hcreate (SExp.atom.inj (Except.ok.inj hfirst))
      rw [createCoinAmount_of_ne hfirst]
      exact (Option.some_ne_none 1).symm
    simp only [hcreate, decide_false, Bool.false_eq_true, if_false, ownershipRoundOther, ExceptRun.bind_eq_ok,
      eqAtoms_atom_eq_ok] at h
    obtain ⟨isNewOwner, ⟨op', hop', rfl⟩, h⟩ := h
    obtain rfl := SExp.atom.inj hop'
    by_cases hnew : op = newOwnerCondition
    · subst hnew
      simp only [decide_true, if_true, ExceptRun.bind_eq_ok, clvmAssert_eq_ok, ExceptRun.pure_eq, Except.ok.injEq,
        Prod.mk.injEq, Bool.not_eq_true'] at h
      obtain ⟨-, hfalse, rest, hrest, output, houtput, rfl, rfl, rfl⟩ := h
      obtain rfl : args = rest := Except.ok.inj hrest
      exact .inr (.inr ⟨args, _, rfl, rfl, rfl, rfl, hfalse, houtput⟩)
    · have hfirst : (SExp.pair (.atom op) args).first ≠ .ok (.atom newOwnerCondition) :=
        fun hfirst => hnew (SExp.atom.inj (Except.ok.inj hfirst))
      refine .inr (.inl ⟨hvalue, hfirst, ?_⟩)
      simp only [hnew, decide_false, Bool.false_eq_true, if_false, ExceptRun.bind_eq_ok] at h
      obtain ⟨isAnnouncement, -, h⟩ := h
      cases isAnnouncement with
      | true =>
        simp only [if_true, ExceptRun.bind_eq_ok, ExceptRun.pure_eq, Except.ok.injEq, Prod.mk.injEq] at h
        obtain ⟨isLayer, -, -, -, rfl, rfl, rfl⟩ := h
        exact ⟨rfl, rfl, rfl⟩
      | false =>
        simp only [Bool.false_eq_true, if_false, ExceptRun.pure_eq, Except.ok.injEq, Prod.mk.injEq] at h
        obtain ⟨rfl, rfl, rfl⟩ := h
        exact ⟨rfl, rfl, rfl⟩

/-- What the loop of the ownership layer has at its end. -/
structure OwnershipEnd (sha256 : Bytes → Bytes32) (run : SExp → SExp → Eval SExp)
    (modHash transferProgram currentOwner allConditions conditions oddArgs tpOutput out : SExp) where
  passed : List SExp
  oddEnd : SExp
  output : SExp
  tail : SExp
  end_eq : constructEndConditions sha256 modHash transferProgram oddEnd output = .ok tail
  out_eq : out.asIter = passed ++ tail.asIter
  passed_odd : oddCreateCoins passed =
    (oddCreateCoins conditions.asIter).filter fun c => decide (createCoinAmount c ≠ some 1)
  odd_mem : oddEnd = oddArgs ∨ (.pair (.atom ConditionOpcode.createCoin.value) oddEnd ∈ conditions.asIter ∧
    createCoinAmount (.pair (.atom ConditionOpcode.createCoin.value) oddEnd) = some 1)
  output_old : tpOutput.isTrue = true → output = tpOutput
  output_new : tpOutput.isTrue = false →
    (∃ args, .pair (.atom newOwnerCondition) args ∈ conditions.asIter ∧
      run transferProgram (ofList [currentOwner, allConditions, args]) = .ok output) ∨
    ((∀ args, .pair (.atom newOwnerCondition) args ∈ conditions.asIter →
      run transferProgram (ofList [currentOwner, allConditions, args]) = .ok nil) ∧
      run transferProgram (ofList [currentOwner, allConditions, nil]) = .ok output)

lemma eq_nil_of_isTrue {s : SExp} (h : s.isTrue = false) : s = nil := by
  simpa [SExp.isTrue] using h

/-- **The loop of the ownership layer.**

**Proof sketch.** Induction on the conditions. A coin of amount 1 is kept for the end, and every other condition that
creates a coin passes. The first output of the transfer program that is not nil stays to the end. -/
lemma ownershipWrapOddCreateCoins_eq_ok {out : SExp}
    (h : ownershipWrapOddCreateCoins sha256 run modHash transferProgram currentOwner allConditions conditions oddArgs
      tpOutput = .ok out) :
    Nonempty (OwnershipEnd sha256 run modHash transferProgram currentOwner allConditions conditions oddArgs tpOutput
      out) := by
  induction conditions generalizing oddArgs tpOutput out with
  | atom b =>
    cases b with
    | cons x b => cases h
    | nil =>
      simp only [ownershipWrapOddCreateCoins, ExceptRun.bind_eq_ok] at h
      obtain ⟨output, houtput, hend⟩ := h
      refine ⟨⟨[], oddArgs, output, out, hend, rfl, rfl, .inl rfl, fun htrue => ?_, fun hfalse => ?_⟩⟩
      · rw [if_pos htrue] at houtput
        exact (Except.ok.inj houtput).symm
      · rw [if_neg (by rw [hfalse]; exact Bool.false_ne_true)] at houtput
        exact .inr ⟨fun args hargs => (by cases hargs), houtput⟩
  | pair condition conditions _ ih =>
    simp only [ownershipWrapOddCreateCoins, ExceptRun.bind_eq_ok] at h
    obtain ⟨⟨emitted, oddArgs', tpOutput'⟩, hround, h⟩ := h
    obtain ⟨out', hout', rfl⟩ := ExceptRun.map_eq_ok.mp h
    obtain ⟨e⟩ : Nonempty (OwnershipEnd sha256 run modHash transferProgram currentOwner allConditions conditions
      oddArgs' tpOutput' out') := ih hout'
    have hmem : ∀ {c : SExp}, c ∈ conditions.asIter → c ∈ (SExp.pair condition conditions).asIter :=
      fun hc => List.mem_cons_of_mem _ hc
    have hout : (consOption emitted out').asIter = (emitted.toList ++ e.passed) ++ e.tail.asIter := by
      rw [asIter_consOption, e.out_eq, List.append_assoc]
    rcases ownershipRound_eq_ok hround with ⟨hone, hcondition, rfl, rfl⟩ | ⟨hne, hfirst, rfl, rfl, rfl⟩ |
      ⟨args, c, rfl, rfl, hc, rfl, hfalse, hrun⟩
    · refine ⟨⟨_, e.oddEnd, e.output, e.tail, e.end_eq, hout, ?_, .inr ?_, e.output_old, fun hfalse => ?_⟩⟩
      · rw [Option.toList_none, List.nil_append, e.passed_odd, asIter, oddCreateCoins, oddCreateCoins, List.filter_cons]
        split
        · rw [List.filter_cons_of_neg (by simp [hone])]
        · rfl
      · rcases e.odd_mem with hend | ⟨hend, hend'⟩
        · rw [hend, ← hcondition]
          exact ⟨List.mem_cons_self, hone⟩
        · exact ⟨hmem hend, hend'⟩
      · have hcond : ∀ args, SExp.pair (.atom newOwnerCondition) args ≠ condition := by
          intro args heq
          rw [hcondition] at heq
          injection heq with heq _
          exact absurd (SExp.atom.inj heq) (by decide)
        rcases e.output_new hfalse with ⟨args, hargs, hrun⟩ | ⟨hall, hnil⟩
        · exact .inl ⟨args, hmem hargs, hrun⟩
        refine .inr ⟨fun args hargs => ?_, hnil⟩
        rcases List.mem_cons.mp hargs with hargs | hargs
        · exact absurd hargs (hcond args)
        · exact hall args hargs
    · refine ⟨⟨_, e.oddEnd, e.output, e.tail, e.end_eq, hout, ?_, e.odd_mem.imp_right fun hend =>
        ⟨hmem hend.1, hend.2⟩, e.output_old, fun hfalse => ?_⟩⟩
      · rw [Option.toList_some, List.singleton_append, asIter, oddCreateCoins, oddCreateCoins, List.filter_cons,
          List.filter_cons]
        split
        · rw [List.filter_cons_of_pos (by simp [hne])]
          exact congrArg _ e.passed_odd
        · exact e.passed_odd
      · rcases e.output_new hfalse with ⟨args, hargs, hrun⟩ | ⟨hall, hnil⟩
        · exact .inl ⟨args, hmem hargs, hrun⟩
        refine .inr ⟨fun args hargs => ?_, hnil⟩
        rcases List.mem_cons.mp hargs with hargs | hargs
        · rw [← hargs] at hfirst
          exact absurd rfl hfirst
        · exact hall args hargs
    · have hnew : isOddCreateCoin (.pair (.atom newOwnerCondition) args) = false :=
        isOddCreateCoin_of_ne fun heq => absurd (SExp.atom.inj (Except.ok.inj heq)) (by decide)
      refine ⟨⟨_, e.oddEnd, e.output, e.tail, e.end_eq, hout, ?_, e.odd_mem.imp_right fun hend =>
        ⟨hmem hend.1, hend.2⟩, fun htrue => ?_, fun _ => ?_⟩⟩
      · rw [Option.toList_some, List.singleton_append, asIter, oddCreateCoins, oddCreateCoins,
          List.filter_cons_of_neg (by simp [hc]), List.filter_cons_of_neg (by simp [hnew])]
        exact e.passed_odd
      · rw [hfalse] at htrue
        cases htrue
      · cases htp : tpOutput'.isTrue with
        | true =>
          have houtput : e.output = tpOutput' := e.output_old htp
          rw [← houtput] at hrun
          exact .inl ⟨args, List.mem_cons_self, hrun⟩
        | false =>
          rcases e.output_new htp with ⟨args', hargs, hrun'⟩ | ⟨hall, hnil⟩
          · exact .inl ⟨args', hmem hargs, hrun'⟩
          refine .inr ⟨fun args' hargs => ?_, hnil⟩
          rcases List.mem_cons.mp hargs with hargs | hargs
          · injection hargs with _ hargs
            rw [hargs, hrun, eq_nil_of_isTrue htp]
          · exact hall args' hargs

lemma constructEndConditions_eq_ok {output tail : SExp}
    (h : constructEndConditions sha256 modHash transferProgram oddArgs output = .ok tail) :
    ∃ (mod newOwner innerPuzzleHash : Bytes) (newTp rest conditions : SExp), modHash = .atom mod ∧
      output.first = .ok (.atom newOwner) ∧ output.second = .ok newTp ∧ output.third = .ok conditions ∧
      oddArgs = .pair (.atom innerPuzzleHash) rest ∧
      tail = .pair (.pair (.atom ConditionOpcode.createCoin.value)
        (.pair (.atom (nftOwnershipLayerPuzzleHash sha256 mod newOwner
          (if newTp.isTrue then newTp else transferProgram) innerPuzzleHash).bytes) rest)) conditions := by
  simp only [constructEndConditions, ExceptRun.bind_eq_ok, asAtom_eq_ok, ExceptRun.pure_eq, Except.ok.injEq] at h
  obtain ⟨owner, howner, newTp, htp, conditions, hconditions, iph, hiph, rest, hrest, mod, rfl, newOwner, rfl,
    innerPuzzleHash, rfl, rfl⟩ := h
  obtain ⟨b, rfl⟩ := first_eq_ok.mp hiph
  obtain rfl : b = rest := Except.ok.inj hrest
  exact ⟨mod, newOwner, innerPuzzleHash, newTp, b, conditions, rfl, howner, htp, hconditions, rfl, rfl⟩

lemma createCoinAmount_congr (x y rest : SExp) :
    createCoinAmount (.pair (.atom ConditionOpcode.createCoin.value) (.pair x rest)) =
      createCoinAmount (.pair (.atom ConditionOpcode.createCoin.value) (.pair y rest)) := by
  cases rest with
  | atom b => rfl
  | pair amount rest => cases amount <;> rfl

/-- The inner puzzle creates no coin of an odd amount other than 1. -/
def OnlyOddOne (conditions : SExp) : Prop :=
  ∀ c ∈ conditions.asIter, ∀ n, createCoinAmount c = some n → n % 2 = 1 → n = 1

lemma onlyOddOne_iff : OnlyOddOne conditions ↔
    (oddCreateCoins conditions.asIter).filter (fun c => decide (createCoinAmount c ≠ some 1)) = [] := by
  rw [oddCreateCoins, List.filter_filter, List.filter_eq_nil_iff]
  refine forall₂_congr fun c _ => ?_
  cases hc : createCoinAmount c with
  | none => simp [isOddCreateCoin, hc]
  | some n =>
    simp only [isOddCreateCoin, hc, Option.some.injEq, Option.any_some, forall_eq']
    by_cases hodd : n % 2 = 1
    · by_cases hone : n = 1
      · simp [hone]
      · simp [hone, hodd]
    · simp [hodd]

/-- **The ownership layer** wraps all coins of an odd amount if and only if the inner puzzle creates none of an odd
amount other than 1. -/
theorem nftOwnershipLayer_wrapped_iff {innerPuzzle solution innerSolution out : SExp}
    (hsolution : solution.first = .ok innerSolution) (hinner : run innerPuzzle innerSolution = .ok conditions)
    (hquiet : ∀ args output, run transferProgram args = .ok output → ∀ cs, output.third = .ok cs → NoCreateCoin cs)
    (h : nftOwnershipLayer sha256 run modHash currentOwner transferProgram innerPuzzle solution = .ok out) :
    OwnershipWrapped sha256 run modHash transferProgram currentOwner conditions out ↔ OnlyOddOne conditions := by
  simp only [nftOwnershipLayer, hsolution, hinner, ExceptRun.ok_bind] at h
  obtain ⟨e⟩ := ownershipWrapOddCreateCoins_eq_ok h
  obtain ⟨mod, newOwner, iph, newTp, rest, cs, hmod, howner, htp, hcs, hodd, htail⟩ :=
    constructEndConditions_eq_ok e.end_eq
  obtain ⟨hmem, hone⟩ : .pair (.atom ConditionOpcode.createCoin.value) e.oddEnd ∈ conditions.asIter ∧
      createCoinAmount (.pair (.atom ConditionOpcode.createCoin.value) e.oddEnd) = some 1 := by
    rcases e.odd_mem with hnil | hmem
    · rw [hodd] at hnil
      cases hnil
    · exact hmem
  rw [hodd] at hmem hone
  obtain ⟨args, hargs, hrun⟩ : ∃ args, (.pair (.atom newOwnerCondition) args ∈ conditions.asIter ∨ (args = nil ∧
      ∀ args', .pair (.atom newOwnerCondition) args' ∈ conditions.asIter →
        run transferProgram (ofList [currentOwner, conditions, args']) = .ok nil)) ∧
      run transferProgram (ofList [currentOwner, conditions, args]) = .ok e.output := by
    rcases e.output_new rfl with ⟨args, hargs, hrun⟩ | ⟨hall, hrun⟩
    · exact ⟨args, .inl hargs, hrun⟩
    · exact ⟨nil, .inr ⟨rfl, hall⟩, hrun⟩
  -- the coins of an odd amount are those that passed, and the one that is wrapped at the end
  have hout : oddCreateCoins out.asIter =
      (oddCreateCoins conditions.asIter).filter (fun c => decide (createCoinAmount c ≠ some 1)) ++
        [.pair (.atom ConditionOpcode.createCoin.value) (.pair (.atom (nftOwnershipLayerPuzzleHash sha256 mod newOwner
          (if newTp.isTrue then newTp else transferProgram) iph).bytes) rest)] := by
    have hend := (hquiet _ _ hrun cs hcs).oddCreateCoins
    rw [← e.passed_odd, e.out_eq, htail, asIter, oddCreateCoins, oddCreateCoins, List.filter_append,
      List.filter_cons_of_pos]
    · rw [oddCreateCoins] at hend
      rw [hend]
    · rw [isOddCreateCoin, createCoinAmount_congr _ (.atom iph), hone]
      rfl
  rw [onlyOddOne_iff]
  constructor
  · rintro ⟨_, _, _, _, _, _, _, -, -, -, -, -, -, hone⟩
    rw [hout] at hone
    have hlength := congrArg List.length hone
    rw [List.length_append, List.length_singleton, List.length_singleton] at hlength
    exact List.length_eq_zero_iff.mp (by omega)
  · intro hnil
    rw [hnil, List.nil_append] at hout
    exact ⟨mod, newOwner, iph, rest, args, e.output, newTp, hmod, hmem, hargs, hrun, howner, htp, hout⟩

end Ownership

/-! ## One round of the state layer -/

section State

variable {sha256 : Bytes → Bytes32} {run : SExp → SExp → Eval SExp}
  {modHash metadata updaterHash condition conditions params params' info info' seen seen' : SExp}
  {emitted : Option SExp}

lemma updatedMetadata_eq_ok (h : updatedMetadata sha256 run condition info seen = .ok info') :
    seen.isTrue = false ∧ ∃ opcode updater solution rest metadata,
      condition = .pair opcode (.pair updater (.pair solution rest)) ∧ info.first >>= first = .ok metadata ∧
      info.first >>= second = .ok (.atom (updater.treeHash sha256).bytes) ∧
      run updater (ofList [metadata, .atom (updater.treeHash sha256).bytes, solution]) = .ok info' := by
  simp only [updatedMetadata, ExceptRun.bind_eq_ok, eqAtoms_eq_ok, clvmAssert_eq_ok, Bool.and_eq_true,
    Bool.not_eq_true'] at h
  obtain ⟨updater, hupdater, pair, hpair, metadata, hmetadata, hash, hhash, isCurrent, ⟨a, b, ha, rfl, rfl⟩, -,
    ⟨hcurrent, hseen⟩, solution, hsolution, hrun⟩ := h
  obtain ⟨opcode, x, rest, rfl⟩ := third_eq_ok.mp hsolution
  obtain rfl : x = updater := Except.ok.inj hupdater
  obtain rfl := SExp.atom.inj ha
  obtain rfl := of_decide_eq_true hcurrent
  refine ⟨hseen, opcode, x, solution, rest, metadata, rfl, ?_, ?_, hrun⟩
  · rw [hpair]
    exact hmetadata
  · rw [hpair]
    exact hhash

/-- **What a round of the state layer does**: a coin of an odd amount is kept for the end, an update is passed to the
updater, and all else passes. -/
lemma stateRound_eq_ok (h : stateRound sha256 run condition params info seen = .ok (emitted, params', info', seen')) :
    (isOddCreateCoin condition = true ∧ condition = .pair (.atom ConditionOpcode.createCoin.value) params' ∧
      emitted = none ∧ info' = info ∧ seen' = seen) ∨
    (isOddCreateCoin condition = false ∧ condition.first ≠ .ok (.atom updateCondition) ∧ emitted = some condition ∧
      params' = params ∧ info' = info ∧ seen' = seen) ∨
    (condition.first = .ok (.atom updateCondition) ∧ emitted = none ∧ params' = params ∧ seen' = .atom [1] ∧
      updatedMetadata sha256 run condition info seen = .ok info') := by
  have hne : ConditionOpcode.createCoin.value ≠ updateCondition := by decide
  simp only [stateRound, ExceptRun.bind_eq_ok, eqAtoms_atom_eq_ok] at h
  obtain ⟨opcode, hopcode, isCreateCoin, ⟨op, rfl, rfl⟩, h⟩ := h
  obtain ⟨args, rfl⟩ := first_eq_ok.mp hopcode
  by_cases hcreate : op = ConditionOpcode.createCoin.value
  · subst hcreate
    simp only [decide_true, if_true, ExceptRun.bind_eq_ok, logand_one] at h
    obtain ⟨amount, hamount, lastBit, ⟨b, rfl, rfl⟩, h⟩ := h
    have hodd : isOddCreateCoin (.pair (.atom ConditionOpcode.createCoin.value) args) =
        decide (intFromBytes b % 2 = 1) := by
      rw [isOddCreateCoin, createCoinAmount_eq hopcode hamount]
      rfl
    rw [isTrue_parity] at h
    by_cases hparity : intFromBytes b % 2 = 1
    · simp only [hparity, decide_true, if_true, ExceptRun.bind_eq_ok, clvmAssert_eq_ok, ExceptRun.pure_eq,
        Except.ok.injEq, Prod.mk.injEq] at h
      obtain ⟨-, -, rest, hrest, rfl, rfl, rfl, rfl⟩ := h
      obtain rfl : args = rest := Except.ok.inj hrest
      exact .inl ⟨by rw [hodd, decide_eq_true hparity], rfl, rfl, rfl, rfl⟩
    · simp only [hparity, decide_false, Bool.false_eq_true, if_false, ExceptRun.pure_eq, Except.ok.injEq,
        Prod.mk.injEq] at h
      obtain ⟨rfl, rfl, rfl, rfl⟩ := h
      refine .inr (.inl ⟨by rw [hodd, decide_eq_false hparity], fun hfirst => hne ?_, rfl, rfl, rfl, rfl⟩)
      exact SExp.atom.inj (Except.ok.inj hfirst)
  · have hfirst : (SExp.pair (.atom op) args).first ≠ .ok (.atom ConditionOpcode.createCoin.value) :=
      fun hfirst => hcreate (SExp.atom.inj (Except.ok.inj hfirst))
    simp only [hcreate, decide_false, Bool.false_eq_true, if_false, ExceptRun.bind_eq_ok, eqAtoms_atom_eq_ok] at h
    obtain ⟨isUpdate, ⟨op', hop', rfl⟩, h⟩ := h
    obtain rfl := SExp.atom.inj hop'
    by_cases hupdate : op = updateCondition
    · subst hupdate
      simp only [decide_true, if_true, ExceptRun.bind_eq_ok, ExceptRun.pure_eq, Except.ok.injEq, Prod.mk.injEq] at h
      obtain ⟨newInfo, hinfo, rfl, rfl, rfl, rfl⟩ := h
      exact .inr (.inr ⟨rfl, rfl, rfl, rfl, hinfo⟩)
    · simp only [hupdate, decide_false, Bool.false_eq_true, if_false, ExceptRun.pure_eq, Except.ok.injEq,
        Prod.mk.injEq] at h
      obtain ⟨rfl, rfl, rfl, rfl⟩ := h
      exact .inr (.inl ⟨isOddCreateCoin_of_ne hfirst,
        fun hfirst => hupdate (SExp.atom.inj (Except.ok.inj hfirst)), rfl, rfl, rfl, rfl⟩)

/-- What the loop of the state layer has at its end. -/
structure StateEnd (sha256 : Bytes → Bytes32) (run : SExp → SExp → Eval SExp)
    (modHash conditions params info seen out : SExp) where
  passed : List SExp
  oddEnd : SExp
  infoEnd : SExp
  tail : SExp
  end_eq : stateEndConditions sha256 modHash oddEnd infoEnd = .ok tail
  out_eq : out.asIter = passed ++ tail.asIter
  passed_odd : oddCreateCoins passed = []
  odd_mem : oddEnd = params ∨ (.pair (.atom ConditionOpcode.createCoin.value) oddEnd ∈ conditions.asIter ∧
    isOddCreateCoin (.pair (.atom ConditionOpcode.createCoin.value) oddEnd) = true)
  info_eq : (updateConditions conditions.asIter = [] ∧ infoEnd = info) ∨ (seen.isTrue = false ∧ ∃ condition,
    updateConditions conditions.asIter = [condition] ∧
    updatedMetadata sha256 run condition info seen = .ok infoEnd)

/-- **The loop of the state layer.** -/
lemma stateWrapOddCreateCoins_eq_ok {out : SExp}
    (h : stateWrapOddCreateCoins sha256 run modHash conditions params info seen = .ok out) :
    Nonempty (StateEnd sha256 run modHash conditions params info seen out) := by
  induction conditions generalizing params info seen out with
  | atom b =>
    cases b with
    | cons x b => cases h
    | nil => exact ⟨⟨[], params, info, out, h, rfl, rfl, .inl rfl, .inl ⟨rfl, rfl⟩⟩⟩
  | pair condition conditions _ ih =>
    simp only [stateWrapOddCreateCoins, ExceptRun.bind_eq_ok] at h
    obtain ⟨⟨emitted, params', info', seen'⟩, hround, h⟩ := h
    obtain ⟨out', hout', rfl⟩ := ExceptRun.map_eq_ok.mp h
    obtain ⟨e⟩ : Nonempty (StateEnd sha256 run modHash conditions params' info' seen' out') := ih hout'
    have hmem : ∀ {c : SExp}, c ∈ conditions.asIter → c ∈ (SExp.pair condition conditions).asIter :=
      fun hc => List.mem_cons_of_mem _ hc
    have hout : (consOption emitted out').asIter = (emitted.toList ++ e.passed) ++ e.tail.asIter := by
      rw [asIter_consOption, e.out_eq, List.append_assoc]
    have hupdates : ∀ {l : List SExp}, condition.first ≠ .ok (.atom updateCondition) →
        updateConditions (condition :: l) = updateConditions l := by
      intro l hfirst
      exact List.filter_cons_of_neg (by simpa using hfirst)
    rcases stateRound_eq_ok hround with ⟨hodd, hcondition, rfl, rfl, rfl⟩ | ⟨hodd, hfirst, rfl, rfl, rfl, rfl⟩ |
      ⟨hfirst, rfl, rfl, rfl, hinfo⟩
    · have hfirst : condition.first ≠ .ok (.atom updateCondition) := by
        rw [hcondition]
        exact fun heq => absurd (SExp.atom.inj (Except.ok.inj heq)) (by decide)
      refine ⟨⟨_, e.oddEnd, e.infoEnd, e.tail, e.end_eq, hout, e.passed_odd, .inr ?_, ?_⟩⟩
      · rcases e.odd_mem with hend | ⟨hend, hend'⟩
        · rw [hend, ← hcondition]
          exact ⟨List.mem_cons_self, hodd⟩
        · exact ⟨hmem hend, hend'⟩
      · rw [asIter, hupdates hfirst]
        exact e.info_eq
    · refine ⟨⟨_, e.oddEnd, e.infoEnd, e.tail, e.end_eq, hout, ?_, e.odd_mem.imp_right fun hend =>
        ⟨hmem hend.1, hend.2⟩, ?_⟩⟩
      · rw [Option.toList_some, List.singleton_append, oddCreateCoins, List.filter_cons_of_neg (by simp [hodd])]
        exact e.passed_odd
      · rw [asIter, hupdates hfirst]
        exact e.info_eq
    · refine ⟨⟨_, e.oddEnd, e.infoEnd, e.tail, e.end_eq, hout, e.passed_odd, e.odd_mem.imp_right
        fun hend => ⟨hmem hend.1, hend.2⟩, .inr ⟨(updatedMetadata_eq_ok hinfo).1, condition, ?_, ?_⟩⟩⟩
      · -- no further update passes
        rcases e.info_eq with ⟨hnone, -⟩ | ⟨hfalse, -⟩
        · rw [asIter, updateConditions, List.filter_cons_of_pos (by simpa using hfirst)]
          exact congrArg _ hnone
        · cases hfalse
      · rcases e.info_eq with ⟨-, hend⟩ | ⟨hfalse, -⟩
        · rw [hend]
          exact hinfo
        · cases hfalse

lemma stateEndConditions_eq_ok {tail : SExp} (h : stateEndConditions sha256 modHash params info = .ok tail) :
    ∃ (mod newUpdaterHash innerPuzzleHash : Bytes) (newMetadata rest cs : SExp), modHash = .atom mod ∧
      info.first >>= first = .ok newMetadata ∧ info.first >>= second = .ok (.atom newUpdaterHash) ∧
      info.second = .ok cs ∧ params = .pair (.atom innerPuzzleHash) rest ∧
      tail = .pair (.pair (.atom ConditionOpcode.createCoin.value)
        (.pair (.atom (nftStateLayerPuzzleHash sha256 mod newMetadata newUpdaterHash innerPuzzleHash).bytes) rest))
        cs := by
  simp only [stateEndConditions, ExceptRun.bind_eq_ok, asAtom_eq_ok, ExceptRun.pure_eq, Except.ok.injEq] at h
  obtain ⟨pair, hpair, newMetadata, hmetadata, hash, hhash, iph, hiph, rest, hrest, cs, hcs, mod, rfl, newHash, rfl,
    innerPuzzleHash, rfl, rfl⟩ := h
  obtain ⟨b, rfl⟩ := first_eq_ok.mp hiph
  obtain rfl : b = rest := Except.ok.inj hrest
  refine ⟨mod, newHash, innerPuzzleHash, newMetadata, b, cs, rfl, ?_, ?_, hcs, rfl, rfl⟩
  · rw [hpair]
    exact hmetadata
  · rw [hpair]
    exact hhash

/-- **The state layer** wraps all coins of an odd amount. -/
theorem nftStateLayer_wrapped {innerPuzzle solution innerSolution out : SExp}
    (hsolution : solution.first = .ok innerSolution) (hinner : run innerPuzzle innerSolution = .ok conditions)
    (hquiet : ∀ updater args output, updaterHash = .atom (updater.treeHash sha256).bytes →
      run updater args = .ok output → ∀ cs, output.second = .ok cs → NoCreateCoin cs)
    (h : nftStateLayer sha256 run modHash metadata updaterHash innerPuzzle solution = .ok out) :
    StateWrapped sha256 run modHash metadata updaterHash conditions out := by
  simp only [nftStateLayer, hsolution, hinner, ExceptRun.ok_bind] at h
  obtain ⟨e⟩ := stateWrapOddCreateCoins_eq_ok h
  obtain ⟨mod, newUpdaterHash, iph, newMetadata, rest, cs, hmod, hmetadata, hhash, hcs, hparams, htail⟩ :=
    stateEndConditions_eq_ok e.end_eq
  obtain ⟨hmem, hodd⟩ : .pair (.atom ConditionOpcode.createCoin.value) e.oddEnd ∈ conditions.asIter ∧
      isOddCreateCoin (.pair (.atom ConditionOpcode.createCoin.value) e.oddEnd) = true := by
    rcases e.odd_mem with hnil | hmem
    · rw [hparams] at hnil
      cases hnil
    · exact hmem
  rw [hparams] at hmem hodd
  have hupdated : MetadataUpdated sha256 run metadata updaterHash conditions e.infoEnd := by
    rcases e.info_eq with hnone | ⟨-, condition, hone, hinfo⟩
    · exact .inl hnone
    · obtain ⟨-, opcode, updater, solution, rest, metadata', rfl, hfirst, hsecond, hrun⟩ := updatedMetadata_eq_ok hinfo
      obtain rfl : metadata = metadata' := Except.ok.inj hfirst
      obtain rfl : updaterHash = .atom (updater.treeHash sha256).bytes := Except.ok.inj hsecond
      have hopcode : SExp.pair opcode (.pair updater (.pair solution rest)) ∈ updateConditions conditions.asIter := by
        rw [hone]
        exact List.mem_singleton_self _
      obtain rfl : opcode = .atom updateCondition :=
        Except.ok.inj (of_decide_eq_true (List.mem_filter.mp hopcode).2)
      exact .inr ⟨updater, solution, rest, hone, rfl, hrun⟩
  have hend : oddCreateCoins cs.asIter = [] := by
    rcases hupdated with ⟨-, hinitial⟩ | ⟨updater, solution, rest, -, hhash', hrun⟩
    · rw [hinitial] at hcs
      obtain rfl : nil = cs := Except.ok.inj hcs
      rfl
    · exact (hquiet updater _ _ hhash' hrun cs hcs).oddCreateCoins
  refine ⟨mod, newUpdaterHash, iph, rest, e.infoEnd, newMetadata, hmod, hmem, hupdated, hmetadata, hhash, ?_⟩
  rw [e.out_eq, htail, asIter, oddCreateCoins, List.filter_append, List.filter_cons_of_pos]
  · have hpassed := e.passed_odd
    rw [oddCreateCoins] at hpassed hend
    rw [hpassed, hend, List.nil_append]
  · rw [isOddCreateCoin, createCoinAmount_congr _ (.atom iph)]
    exact hodd

end State

/-! ## Both layers -/

/-- **The layers of an NFT.** Transfer programs and updaters that return no coins are assumed. The ownership layer
wraps all coins of an odd amount if and only if the inner puzzle creates none of an odd amount other than 1, and the
state layer wraps them in any case. -/
theorem nftLayers_wrapped_iff (sha256 : Bytes → Bytes32) (run : SExp → SExp → Eval SExp) :
    (∀ modHash currentOwner transferProgram innerPuzzle solution innerSolution conditions out,
      solution.first = .ok innerSolution → run innerPuzzle innerSolution = .ok conditions →
      (∀ args output, run transferProgram args = .ok output → ∀ cs, output.third = .ok cs → NoCreateCoin cs) →
      nftOwnershipLayer sha256 run modHash currentOwner transferProgram innerPuzzle solution = .ok out →
      (OwnershipWrapped sha256 run modHash transferProgram currentOwner conditions out ↔ OnlyOddOne conditions)) ∧
    ∀ modHash metadata updaterHash innerPuzzle solution innerSolution conditions out,
      solution.first = .ok innerSolution → run innerPuzzle innerSolution = .ok conditions →
      (∀ updater args output, updaterHash = .atom (updater.treeHash sha256).bytes →
        run updater args = .ok output → ∀ cs, output.second = .ok cs → NoCreateCoin cs) →
      nftStateLayer sha256 run modHash metadata updaterHash innerPuzzle solution = .ok out →
      StateWrapped sha256 run modHash metadata updaterHash conditions out := by
  constructor
  · intro modHash currentOwner transferProgram innerPuzzle solution innerSolution conditions out hsolution hinner
      hquiet h
    exact nftOwnershipLayer_wrapped_iff hsolution hinner hquiet h
  · intro modHash metadata updaterHash innerPuzzle solution innerSolution conditions out hsolution hinner hquiet h
    exact nftStateLayer_wrapped hsolution hinner hquiet h

namespace NftSample

/-- A program that returns a value. -/
def quoted (value : SExp) : SExp := .pair (.atom qKw) value

/-- Some hash. -/
def hash (n : UInt8) : SExp := .atom (List.replicate 32 n)

/-- A transfer program that sets the owner. -/
def transferProgram : SExp := quoted (ofList [hash 1, nil, nil])

/-- A metadata updater that keeps its own hash. -/
def updater : SExp := quoted (ofList [ofList [ofList [.atom [117]], hash 2], nil])

/-- An inner puzzle that creates a coin of amount 1 and updates the metadata. -/
def innerPuzzle : SExp := quoted (ofList [
  ofList [.atom ConditionOpcode.createCoin.value, hash 3, .atom [1]],
  ofList [.atom updateCondition, updater, nil]])

/-- An inner puzzle that creates a coin of amount 1 and one of amount 3. -/
def oddInnerPuzzle : SExp := quoted (ofList [
  ofList [.atom ConditionOpcode.createCoin.value, hash 3, .atom [1]],
  ofList [.atom ConditionOpcode.createCoin.value, hash 4, .atom [3]]])

/-- The evaluation of the programs of the sample. -/
def run (program _solution : SExp) : Eval SExp :=
  if program ∈ [transferProgram, updater, innerPuzzle, oddInnerPuzzle] then program.rest else .error .unknownProgram

lemma quiet_transferProgram (args output : SExp) (h : run transferProgram args = .ok output) (cs : SExp)
    (hcs : output.third = .ok cs) : NoCreateCoin cs := by
  have hrun : run transferProgram args = .ok (ofList [hash 1, nil, nil]) := by
    rw [run, if_pos (by simp)]
    rfl
  obtain rfl := Except.ok.inj (hrun.symm.trans h)
  obtain rfl : nil = cs := Except.ok.inj hcs
  exact fun c hc => (by cases hc)

lemma quiet_second (program args output : SExp) (h : run program args = .ok output) (cs : SExp)
    (hcs : output.second = .ok cs) : NoCreateCoin cs := by
  rw [run] at h
  split at h
  · rename_i hmem
    simp only [List.mem_cons, List.not_mem_nil, or_false] at hmem
    rcases hmem with rfl | rfl | rfl | rfl
    · obtain rfl := Except.ok.inj h
      obtain rfl := Except.ok.inj hcs
      decide
    · obtain rfl := Except.ok.inj h
      obtain rfl := Except.ok.inj hcs
      decide
    · obtain rfl := Except.ok.inj h
      obtain rfl := Except.ok.inj hcs
      decide
    · obtain rfl := Except.ok.inj h
      obtain rfl := Except.ok.inj hcs
      decide
  · cases h

/-- The conditions of the inner puzzle. -/
def conditions : SExp := ofList [
  ofList [.atom ConditionOpcode.createCoin.value, hash 3, .atom [1]],
  ofList [.atom updateCondition, updater, nil]]

/-- The hash of the updater. -/
def updaterHash : SExp := .atom (updater.treeHash sampleHash).bytes

theorem nftLayers_wrapped_iff_sample :
    (∃ out, nftOwnershipLayer sampleHash run (hash 5) nil transferProgram innerPuzzle (ofList [nil]) = .ok out ∧
      OnlyOddOne conditions ∧
      OwnershipWrapped sampleHash run (hash 5) transferProgram nil conditions out) ∧
    ∃ out, nftStateLayer sampleHash run (hash 6) nil updaterHash innerPuzzle (ofList [nil]) = .ok out ∧
      StateWrapped sampleHash run (hash 6) nil updaterHash conditions out := by
  have hinner : run innerPuzzle nil = .ok conditions := by decide +kernel
  have hownership : ((fun out => (oddCreateCoins out.asIter).length) <$>
      nftOwnershipLayer sampleHash run (hash 5) nil transferProgram innerPuzzle (ofList [nil])) = .ok 1 := by
    decide +kernel
  have hstate : ((fun out => (oddCreateCoins out.asIter).length) <$>
      nftStateLayer sampleHash run (hash 6) nil updaterHash innerPuzzle (ofList [nil])) = .ok 1 := by
    decide +kernel
  obtain ⟨out, hout, -⟩ := ExceptRun.map_eq_ok.mp hownership
  obtain ⟨out', hout', -⟩ := ExceptRun.map_eq_ok.mp hstate
  have honly : OnlyOddOne conditions := by
    rw [onlyOddOne_iff]
    decide +kernel
  refine ⟨⟨out, hout, honly, ?_⟩, out', hout', ?_⟩
  · exact ((nftLayers_wrapped_iff sampleHash run).1 _ _ _ _ _ nil conditions out rfl hinner
      quiet_transferProgram hout).mpr honly
  · exact (nftLayers_wrapped_iff sampleHash run).2 _ _ _ _ _ nil conditions out' rfl hinner
      (fun updater args output _ hrun cs hcs => quiet_second updater args output hrun cs hcs) hout'

/-- **The ownership layer lets a coin of amount 3 pass unwrapped.** -/
theorem nftOwnershipLayer_not_wrapped :
    ¬ ∀ (sha256 : Bytes → Bytes32) (run : SExp → SExp → Eval SExp)
      (modHash currentOwner transferProgram innerPuzzle solution innerSolution conditions out : SExp),
      solution.first = .ok innerSolution → run innerPuzzle innerSolution = .ok conditions →
      (∀ args output, run transferProgram args = .ok output → ∀ cs, output.third = .ok cs → NoCreateCoin cs) →
      nftOwnershipLayer sha256 run modHash currentOwner transferProgram innerPuzzle solution = .ok out →
      OwnershipWrapped sha256 run modHash transferProgram currentOwner conditions out := by
  intro h
  have hownership : ((fun out => (oddCreateCoins out.asIter).length) <$>
      nftOwnershipLayer sampleHash run (hash 5) nil transferProgram oddInnerPuzzle (ofList [nil])) = .ok 2 := by
    decide +kernel
  obtain ⟨out, hout, htwo⟩ := ExceptRun.map_eq_ok.mp hownership
  obtain ⟨conditions, hconditions⟩ : ∃ conditions, run oddInnerPuzzle nil = .ok conditions :=
    ⟨_, by rw [run, if_pos (by simp)]; rfl⟩
  obtain ⟨_, _, _, _, _, _, _, -, -, -, -, -, -, hone⟩ := h sampleHash run (hash 5) nil transferProgram oddInnerPuzzle
    (ofList [nil]) nil conditions out rfl hconditions quiet_transferProgram hout
  rw [hone] at htwo
  cases htwo

end NftSample

end Chives
