import Chives.Types.CoinSpend
import Chives.Wallet.CurryAndTreehash

set_option autoImplicit false

/-!
# The CAT puzzle

`cat_v2.clvm` of `wallet/puzzles`, with `cat_truths.clib`. Coins with this puzzle are spent in a ring: each one
announces its predecessor and the subtotal it was given, and asserts that its successor announces it and the
subtotal that results. The outputs are wrapped in the same puzzle. Where the coin does not descend from one with
the same puzzle, or the amounts are not to balance, a TAIL program must be run.

## Main definitions

* `catV2` — the puzzle.
* `findAndStripTailInfo` — the loop over the conditions of the inner puzzle.
* `CatData`, `CatData.Describes` — what a run of the puzzle computed.

## Main results

* `findAndStripTailInfo_spec` — what the loop lets through.
* `exists_describes` — what the puzzle returns, from what it computed.

## Design

`run` is the evaluation of the inner puzzle and of the TAIL program by the `clvm` package.
-/

namespace Chives

open SExp

section Code

variable (sha256 : Bytes → Bytes32) (run : SExp → SExp → Eval SExp)

/-- `RING_MORPH_BYTE`. -/
def ringMorphByte : UInt8 := 0xcb

/-- `merge_list`. -/
def mergeList : SExp → SExp → Eval SExp
  | .atom [], listB => pure listB
  | .atom (_ :: _), _ => .error .firstOfNonCons
  | .pair a listA, listB => .pair a <$> mergeList listA listB

/-- `cat_puzzle_hash`. -/
def catPuzzleHash (catModStruct innerPuzzleHash : SExp) : Eval Bytes32 := do
  let modHash ← catModStruct.first
  let modHash ← modHash.asAtom
  let innerPuzzleHash ← innerPuzzleHash.asAtom
  let tailProgramHash ← catModStruct.third
  let tailProgramHash ← tailProgramHash.asAtom
  let modHashHash ← catModStruct.second
  let modHashHash ← modHashHash.asAtom
  pure (puzzleHashOfCurriedFunction sha256 modHash
    [innerPuzzleHash, (sha256 (atomMessage tailProgramHash)).bytes, modHashHash])

/-- The message of an announcement in the ring. -/
def isRingMessage (message : Bytes) : Bool := message.length = 33 && message.take 1 = [ringMorphByte]

/-- An announcement of the inner puzzle in `morph_condition`. -/
def checkAnnouncement (condition : SExp) : Eval SExp := do
  let message ← condition.second
  let message ← message.asAtom
  clvmAssert (!isRingMessage message)
  pure condition

/-- A `CREATE_COIN` of the inner puzzle in `morph_condition`. -/
def wrapCreateCoin (condition catModStruct : SExp) : Eval SExp := do
  let innerPuzzleHash ← condition.second
  let puzzleHash ← catPuzzleHash sha256 catModStruct innerPuzzleHash
  let args ← condition.rest
  let rest ← args.rest
  pure (.pair (.atom ConditionOpcode.createCoin.value) (.pair (.atom puzzleHash.bytes) rest))

/-- The conditions other than `CREATE_COIN` in `morph_condition`. -/
def morphOther (condition opcode : SExp) : Eval SExp := do
  let isAnnouncement ← opcode.eqAtoms (.atom ConditionOpcode.createCoinAnnouncement.value)
  (if isAnnouncement then checkAnnouncement condition else pure condition)

/-- `morph_condition`. -/
def morphCatCondition (condition catModStruct : SExp) : Eval SExp := do
  let opcode ← condition.first
  let isCreateCoin ← opcode.eqAtoms (.atom ConditionOpcode.createCoin.value)
  (if isCreateCoin then wrapCreateCoin sha256 condition catModStruct else morphOther condition opcode)

/-- `coin_id_for_proof`. -/
def coinIdForProof (coin catModStruct : SExp) : Eval Bytes32 := do
  let parent ← coin.first
  let innerPuzzleHash ← coin.second
  let puzzleHash ← catPuzzleHash sha256 catModStruct innerPuzzleHash
  let amount ← coin.third
  calculateCoinId sha256 parent (.atom puzzleHash.bytes) amount

/-- `output_value_for_condition`. -/
def outputValueForCondition (condition : SExp) : Eval SExp := createCoinValue condition

/-- What `find_and_strip_tail_info` returns. -/
structure StrippedConditions where
  morphedConditions : SExp
  outputSum : ℤ
  tailRevealAndSolution : SExp
  deriving DecidableEq

/-- `cons_onto_first_and_add_to_second`. -/
def consOntoFirstAndAddToSecond (morphedCondition : SExp) (outputValue : ℤ) (struct : StrippedConditions) :
    StrippedConditions :=
  ⟨.pair morphedCondition struct.morphedConditions, outputValue + struct.outputSum, struct.tailRevealAndSolution⟩

/-- `find_and_strip_tail_info`. -/
def findAndStripTailInfo (catModStruct : SExp) : SExp → SExp → Eval StrippedConditions
  | .atom [], tailRevealAndSolution => pure ⟨nil, 0, tailRevealAndSolution⟩
  | .atom (_ :: _), _ => .error .firstOfNonCons
  | .pair condition innerConditions, tailRevealAndSolution => do
    let value ← outputValueForCondition condition
    let isMagic ← value.eqAtoms magicAmount
    (if isMagic then do
      let reveal ← condition.fourth
      let solution ← condition.fifth
      findAndStripTailInfo catModStruct innerConditions (.pair reveal solution)
    else do
      let morphed ← morphCatCondition sha256 condition catModStruct
      let value ← value.asInt
      let struct ← findAndStripTailInfo catModStruct innerConditions tailRevealAndSolution
      pure (consOntoFirstAndAddToSecond morphed value struct))

/-- What is announced: `(sha256tree (list coin_id subtotal))` after the byte of the ring. -/
def ringMessage (coinId subtotal : SExp) : Bytes :=
  ringMorphByte :: ((ofList [coinId, subtotal]).treeHash sha256).bytes

/-- `create_announcement_condition`. -/
def createAnnouncementCondition (prevCoinId prevSubtotal : SExp) : SExp :=
  ofList [.atom ConditionOpcode.createCoinAnnouncement.value, .atom (ringMessage sha256 prevCoinId prevSubtotal)]

/-- `create_assert_next_announcement_condition`, with `calculate_annoucement_id`. -/
def createAssertNextAnnouncementCondition (thisCoinId : Bytes32) (thisSubtotal : ℤ) (nextCoinId : Bytes32) : SExp :=
  ofList [.atom ConditionOpcode.assertCoinAnnouncement.value,
    .atom (sha256 (nextCoinId.bytes ++ ringMessage sha256 (.atom thisCoinId.bytes) (ofInt thisSubtotal))).bytes]

/-- `generate_final_output_conditions`. -/
def generateFinalOutputConditions (prevSubtotal : SExp) (thisSubtotal : ℤ) (morphedConditions prevCoinId : SExp)
    (thisCoinId nextCoinId : Bytes32) : SExp :=
  .pair (createAnnouncementCondition sha256 prevCoinId prevSubtotal)
    (.pair (createAssertNextAnnouncementCondition sha256 thisCoinId thisSubtotal nextCoinId) morphedConditions)

/-- `is_parent_cat`. -/
def isParentCat (catModStruct parentId lineageProof : SExp) : Eval Bool := do
  let id ← coinIdForProof sha256 lineageProof catModStruct
  parentId.eqAtoms (.atom id.bytes)

/-- The flag in `stager_two` that says whether the parent is a CAT. -/
def parentIsCat (catModStruct parentId lineageProof : SExp) : Eval Bool :=
  if lineageProof.isTrue then isParentCat sha256 catModStruct parentId lineageProof else pure false

/-- `cat_truth_data_to_truth_struct`. -/
def catTruthDataToTruthStruct (innerpuzhash : Bytes32) (catStruct : SExp) (myId : Bytes32) (thisCoinInfo : SExp) :
    SExp :=
  .pair (.pair (.atom innerpuzhash.bytes) catStruct) (.pair (.atom myId.bytes) thisCoinInfo)

/-- The arguments of the TAIL program. -/
def tailArguments (truths : SExp) (parentIsCat : Bool)
    (lineageProof extraDelta innerConditions tailSolution : SExp) : SExp :=
  ofList [truths, ofBool parentIsCat, lineageProof, extraDelta, innerConditions, tailSolution]

/-- The run of the TAIL program in `check_lineage_or_run_tail_program`. -/
def runTailProgram (tailProgramHash tailReveal arguments innerConditions : SExp) : Eval SExp := do
  let isTail ← (SExp.atom (tailReveal.treeHash sha256).bytes).eqAtoms tailProgramHash
  clvmAssert isTail
  let conditions ← run tailReveal arguments
  mergeList conditions innerConditions

/-- `check_lineage_or_run_tail_program`. -/
def checkLineageOrRunTailProgram (tailProgramHash tailRevealAndSolution : SExp) (parentIsCat : Bool)
    (lineageProof truths extraDelta innerConditions : SExp) : Eval SExp :=
  match tailRevealAndSolution with
  | .atom [] => do
    clvmAssert parentIsCat
    clvmAssert (!extraDelta.isTrue)
    pure innerConditions
  | .atom (_ :: _) => .error .firstOfNonCons
  | .pair tailReveal tailSolution =>
    runTailProgram sha256 run tailProgramHash tailReveal
      (tailArguments truths parentIsCat lineageProof extraDelta innerConditions tailSolution) innerConditions

/-- `stager_two`. -/
def catStagerTwo (truths catModStruct : SExp) (myId : Bytes32) (stripped : StrippedConditions)
    (lineageProof prevCoinId thisCoinInfo : SExp) (nextCoinId : Bytes32) (prevSubtotal extraDelta : SExp) :
    Eval SExp := do
  let parentId ← thisCoinInfo.first
  let isCat ← parentIsCat sha256 catModStruct parentId lineageProof
  let subtotal ← prevSubtotal.asInt
  let amount ← thisCoinInfo.third
  let amount ← amount.asInt
  let delta ← extraDelta.asInt
  let tailProgramHash ← catModStruct.third
  checkLineageOrRunTailProgram sha256 run tailProgramHash stripped.tailRevealAndSolution isCat lineageProof truths
    extraDelta (generateFinalOutputConditions sha256 prevSubtotal (subtotal + (amount - stripped.outputSum) + delta)
      stripped.morphedConditions prevCoinId myId nextCoinId)

/-- `stager`. -/
def catStager (catModStruct innerConditions lineageProof : SExp) (innerPuzzleHash myId : Bytes32)
    (prevCoinId thisCoinInfo nextCoinProof prevSubtotal extraDelta : SExp) : Eval SExp := do
  let stripped ← findAndStripTailInfo sha256 catModStruct innerConditions nil
  let nextCoinId ← coinIdForProof sha256 nextCoinProof catModStruct
  let conditions ← catStagerTwo sha256 run
    (catTruthDataToTruthStruct innerPuzzleHash catModStruct myId thisCoinInfo) catModStruct myId stripped
    lineageProof prevCoinId thisCoinInfo nextCoinId prevSubtotal extraDelta
  pure (.pair (ofList [.atom ConditionOpcode.assertMyCoinId.value, .atom myId.bytes]) conditions)

/-- The id of the coin in the main expression. -/
def thisCoinId (thisCoinInfo : SExp) : Eval Bytes32 := do
  let parent ← thisCoinInfo.first
  let puzzleHash ← thisCoinInfo.second
  let amount ← thisCoinInfo.third
  calculateCoinId sha256 parent puzzleHash amount

/-- `cat_v2.clvm`. -/
def catV2 (modHash tailProgramHash innerPuzzle solution : SExp) : Eval SExp := do
  let innerPuzzleSolution ← solution.first
  let lineageProof ← solution.second
  let prevCoinId ← solution.third
  let thisCoinInfo ← solution.fourth
  let nextCoinProof ← solution.fifth
  let prevSubtotal ← solution.sixth
  let extraDelta ← solution.seventh
  let modHashAtom ← modHash.asAtom
  let innerConditions ← run innerPuzzle innerPuzzleSolution
  let myId ← thisCoinId sha256 thisCoinInfo
  catStager sha256 run (ofList [modHash, .atom (sha256 (atomMessage modHashAtom)).bytes, tailProgramHash])
    innerConditions lineageProof (innerPuzzle.treeHash sha256) myId prevCoinId thisCoinInfo nextCoinProof
    prevSubtotal extraDelta

end Code

lemma catV2_mono {sha256 : Bytes → Bytes32} {run run' : SExp → SExp → Eval SExp}
    (hrun : ∀ p s r, run p s = .ok r → run' p s = .ok r) {modHash tailProgramHash inner solution out : SExp}
    (h : catV2 sha256 run modHash tailProgramHash inner solution = .ok out) :
    catV2 sha256 run' modHash tailProgramHash inner solution = .ok out := by
  have hcheck : ∀ {tph t : SExp} {b : Bool} {proof truths delta conditions r : SExp},
      checkLineageOrRunTailProgram sha256 run tph t b proof truths delta conditions = .ok r →
      checkLineageOrRunTailProgram sha256 run' tph t b proof truths delta conditions = .ok r := by
    intro tph t b proof truths delta conditions r hr
    match t with
    | .atom [] => exact hr
    | .atom (_ :: _) => cases hr
    | .pair reveal solution =>
      simp only [checkLineageOrRunTailProgram, runTailProgram, ExceptRun.bind_eq_ok] at hr ⊢
      obtain ⟨isTail, htail, u, hu, returned, hreturned, hmerge⟩ := hr
      exact ⟨isTail, htail, u, hu, returned, hrun _ _ _ hreturned, hmerge⟩
  simp only [catV2, catStager, catStagerTwo, ExceptRun.bind_eq_ok] at h ⊢
  obtain ⟨x1, h1, x2, h2, x3, h3, x4, h4, x5, h5, x6, h6, x7, h7, m, hm, conditions, hc, myId, hid, stripped,
    hstripped, next, hnext, returned, ⟨p, hp, isCat, hcat, n, hn, a, ha, b, hb, delta, hdelta, tph, htph, hrest⟩,
    hout⟩ := h
  exact ⟨x1, h1, x2, h2, x3, h3, x4, h4, x5, h5, x6, h6, x7, h7, m, hm, conditions, hrun _ _ _ hc, myId, hid,
    stripped, hstripped, next, hnext, returned,
    ⟨p, hp, isCat, hcat, n, hn, a, ha, b, hb, delta, hdelta, tph, htph, hcheck hrest⟩, hout⟩

/-! ## What the loop lets through -/

section Strip

variable {sha256 : Bytes → Bytes32} {run : SExp → SExp → Eval SExp} {modHash tailProgramHash : Bytes32}

/-- `cat_mod_struct`. -/
def catModStruct (sha256 : Bytes → Bytes32) (modHash tailProgramHash : Bytes32) : SExp :=
  ofList [.atom modHash.bytes, .atom (sha256 (atomMessage modHash.bytes)).bytes, .atom tailProgramHash.bytes]

/-- The hashes of the parameters of a CAT puzzle, from the last one on. -/
def catParameterHashes (sha256 : Bytes → Bytes32) (modHash tailProgramHash : Bytes32) (innerPuzzleHash : Bytes) :
    List Bytes :=
  [innerPuzzleHash, (sha256 (atomMessage tailProgramHash.bytes)).bytes, (sha256 (atomMessage modHash.bytes)).bytes]

/-- The puzzle hash of a CAT whose inner puzzle has the given hash. -/
def catHash (sha256 : Bytes → Bytes32) (modHash tailProgramHash : Bytes32) (innerPuzzleHash : Bytes) : Bytes32 :=
  puzzleHashOfCurriedFunction sha256 modHash.bytes
    (catParameterHashes sha256 modHash tailProgramHash innerPuzzleHash)

/-- The condition announces something in the ring. -/
def IsRingAnnouncement (c : SExp) : Prop :=
  ∃ message vars, c.asAtomList = ConditionOpcode.createCoinAnnouncement.value :: message :: vars ∧
    isRingMessage message = true

lemma catPuzzleHash_eq_ok {x : SExp} {h : Bytes32}
    (hx : catPuzzleHash sha256 (catModStruct sha256 modHash tailProgramHash) x = .ok h) :
    ∃ b, x = .atom b ∧ h = catHash sha256 modHash tailProgramHash b := by
  cases x with
  | atom b => exact ⟨b, rfl, (Except.ok.inj hx).symm⟩
  | pair l r => cases hx

/-- **One condition of the inner puzzle**: a `CREATE_COIN` creates a CAT of the amount that is counted, and
another condition counts nothing and announces nothing in the ring. -/
lemma morphCatCondition_spec {c c' value : SExp} {n : ℤ} (hv : outputValueForCondition c = .ok value)
    (hn : value.asInt = .ok n)
    (h : morphCatCondition sha256 c (catModStruct sha256 modHash tailProgramHash) = .ok c') :
    ((∃ iph, createdCoin c' = some ((catHash sha256 modHash tailProgramHash iph).bytes, n)) ∨
      (createdCoin c' = none ∧ n = 0)) ∧ ¬IsRingAnnouncement c' := by
  simp only [outputValueForCondition, createCoinValue, ExceptRun.bind_eq_ok] at hv
  simp only [morphCatCondition, ExceptRun.bind_eq_ok] at h
  obtain ⟨opcode, hop, isCreate, hcreate, hvalue⟩ := hv
  obtain ⟨opcode', hop', isCreate', hcreate', hmorph⟩ := h
  obtain rfl : opcode = opcode' := Except.ok.inj (hop.symm.trans hop')
  obtain rfl : isCreate = isCreate' := Except.ok.inj (hcreate.symm.trans hcreate')
  obtain ⟨op, rfl, hdec⟩ := eqAtoms_atom_eq_ok.mp hcreate
  obtain ⟨tail, rfl⟩ := first_eq_ok.mp hop
  cases isCreate with
  | true =>
    obtain ⟨b, rfl, rfl⟩ := asInt_eq_ok.mp hn
    obtain ⟨x, y, d, heq⟩ := third_eq_ok.mp hvalue
    cases heq
    simp only [wrapCreateCoin, if_true, ExceptRun.bind_eq_ok, ExceptRun.pure_eq, Except.ok.injEq] at hmorph
    obtain ⟨_, _, ph, hph, args, hargs, rest, hrest, rfl⟩ := hmorph
    obtain ⟨iph, -, rfl⟩ := catPuzzleHash_eq_ok hph
    obtain rfl : SExp.pair y (.pair (.atom b) d) = args := Except.ok.inj hargs
    obtain rfl : SExp.pair (.atom b) d = rest := Except.ok.inj hrest
    refine ⟨Or.inl ⟨iph, rfl⟩, ?_⟩
    rintro ⟨message, vars, heq, -⟩
    cases (List.cons.inj heq).1
  | false =>
    have hne : op ≠ ConditionOpcode.createCoin.value := of_decide_eq_false hdec
    obtain rfl : nil = value := Except.ok.inj hvalue
    obtain rfl : (0 : ℤ) = n := Except.ok.inj hn
    simp only [morphOther, Bool.false_eq_true, if_false, ExceptRun.bind_eq_ok] at hmorph
    obtain ⟨isAnn, hann, hmorph⟩ := hmorph
    obtain ⟨op', hop'', hannDec⟩ := eqAtoms_atom_eq_ok.mp hann
    obtain rfl := SExp.atom.inj hop''
    have hnone : createdCoin (.pair (.atom op) tail) = none := by
      rw [createdCoin]
      split
      · rename_i heq
        rw [if_neg]
        rwa [← (List.cons.inj heq).1]
      · rfl
    cases isAnn with
    | false =>
      obtain rfl := Except.ok.inj hmorph
      refine ⟨Or.inr ⟨hnone, rfl⟩, ?_⟩
      rintro ⟨message, vars, heq, -⟩
      exact of_decide_eq_false hannDec (List.cons.inj heq).1
    | true =>
      simp only [checkAnnouncement, if_true, ExceptRun.bind_eq_ok, asAtom_eq_ok, clvmAssert_eq_ok,
        ExceptRun.pure_eq, Except.ok.injEq] at hmorph
      obtain ⟨_, hsecond, message, rfl, -, hring, rfl⟩ := hmorph
      refine ⟨Or.inr ⟨hnone, rfl⟩, ?_⟩
      rintro ⟨message', vars, heq, hring'⟩
      obtain ⟨x, d, hlist⟩ := second_eq_ok.mp hsecond
      cases hlist
      obtain rfl : message = message' := (List.cons.inj (List.cons.inj heq).2).1
      rw [hring'] at hring
      cases hring

/-- What the loop lets through: coins that are CATs, of amounts that are summed up, and no announcement in the
ring. -/
structure StrippedConditions.Sound (sha256 : Bytes → Bytes32) (modHash tailProgramHash : Bytes32)
    (r : StrippedConditions) : Prop where
  sum : ((r.morphedConditions.asIter.filterMap createdCoin).map Prod.snd).sum = r.outputSum
  cat : ∀ p ∈ r.morphedConditions.asIter.filterMap createdCoin,
    ∃ iph, p.1 = (catHash sha256 modHash tailProgramHash iph).bytes
  quiet : ∀ c ∈ r.morphedConditions.asIter, ¬IsRingAnnouncement c

lemma StrippedConditions.Sound.cons {r : StrippedConditions} (hr : r.Sound sha256 modHash tailProgramHash)
    {c : SExp} {n : ℤ} (hc : (∃ iph, createdCoin c = some ((catHash sha256 modHash tailProgramHash iph).bytes, n)) ∨
      (createdCoin c = none ∧ n = 0)) (hquiet : ¬IsRingAnnouncement c) :
    (consOntoFirstAndAddToSecond c n r).Sound sha256 modHash tailProgramHash where
  sum := by
    rw [consOntoFirstAndAddToSecond, asIter]
    rcases hc with ⟨iph, hc⟩ | ⟨hc, rfl⟩
    · rw [List.filterMap_cons_some hc, List.map_cons, List.sum_cons, hr.sum]
    · rw [List.filterMap_cons_none hc, hr.sum, zero_add]
  cat := by
    rw [consOntoFirstAndAddToSecond, asIter]
    rcases hc with ⟨iph, hc⟩ | ⟨hc, rfl⟩
    · rw [List.filterMap_cons_some hc, List.forall_mem_cons]
      exact ⟨⟨iph, rfl⟩, hr.cat⟩
    · rw [List.filterMap_cons_none hc]
      exact hr.cat
  quiet := by
    rw [consOntoFirstAndAddToSecond, asIter, List.forall_mem_cons]
    exact ⟨hquiet, hr.quiet⟩

/-- **What the loop lets through**, by induction on the conditions of the inner puzzle. -/
theorem findAndStripTailInfo_spec {conditions tail : SExp} {r : StrippedConditions}
    (h : findAndStripTailInfo sha256 (catModStruct sha256 modHash tailProgramHash) conditions tail = .ok r) :
    r.Sound sha256 modHash tailProgramHash := by
  induction conditions generalizing tail r with
  | atom b =>
    cases b with
    | nil =>
      obtain rfl := Except.ok.inj h
      exact ⟨rfl, by simp [asIter, nil], by simp [asIter, nil]⟩
    | cons x b => cases h
  | pair c conditions _ ih =>
    simp only [findAndStripTailInfo, ExceptRun.bind_eq_ok] at h
    obtain ⟨value, hv, isMagic, -, h⟩ := h
    cases isMagic with
    | true =>
      simp only [if_true, ExceptRun.bind_eq_ok] at h
      obtain ⟨reveal, -, solution, -, h⟩ := h
      exact ih h
    | false =>
      simp only [Bool.false_eq_true, if_false, ExceptRun.bind_eq_ok, ExceptRun.pure_eq, Except.ok.injEq] at h
      obtain ⟨morphed, hm, n, hn, struct, hs, rfl⟩ := h
      obtain ⟨hc, hquiet⟩ := morphCatCondition_spec hv hn hm
      exact (ih hs).cons hc hquiet

end Strip

/-! ## What a run computed -/

/-- What a run of the puzzle computed: the coin, its neighbours in the ring, the conditions, and the TAIL program
with what it returned, where it was run. -/
structure CatData where
  innerPuzzle : SExp
  parent : Bytes
  puzzleHash : Bytes
  amount : Bytes
  prevCoinId : SExp
  prevSubtotal : SExp
  subtotal : ℤ
  nextParent : Bytes
  nextInnerPuzzleHash : Bytes
  nextAmount : Bytes
  lineageProof : SExp
  extraDelta : SExp
  delta : ℤ
  innerConditions : SExp
  stripped : StrippedConditions
  tail : Option (SExp × SExp)

namespace CatData

section Computed

variable (sha256 : Bytes → Bytes32) (modHash tailProgramHash : Bytes32) (d : CatData)

/-- What is hashed for the id of the coin. -/
def message : Bytes := d.parent ++ d.puzzleHash ++ d.amount

/-- What is hashed for the id of the next coin. -/
def nextMessage : Bytes :=
  d.nextParent ++ (catHash sha256 modHash tailProgramHash d.nextInnerPuzzleHash).bytes ++ d.nextAmount

/-- The subtotal that results. -/
def thisSubtotal : ℤ := d.subtotal + (intFromBytes d.amount - d.stripped.outputSum) + d.delta

/-- What the next coin has to announce. -/
def nextRingMessage : Bytes :=
  ringMessage sha256 (.atom (sha256 d.message).bytes) (ofInt d.thisSubtotal)

/-- The conditions that the TAIL program returned. -/
def tailConditions : List SExp := (d.tail.map fun t => t.2.asIter).getD []

/-- The conditions that the puzzle returns. -/
def output : List SExp :=
  ofList [.atom ConditionOpcode.assertMyCoinId.value, .atom (sha256 d.message).bytes] ::
    (d.tailConditions ++ createAnnouncementCondition sha256 d.prevCoinId d.prevSubtotal ::
      createAssertNextAnnouncementCondition sha256 (sha256 d.message) d.thisSubtotal
        (sha256 (d.nextMessage sha256 modHash tailProgramHash)) :: d.stripped.morphedConditions.asIter)

end Computed

/-- A coin as the solution has it: the parent, the puzzle hash or inner puzzle hash, and the amount. -/
def IsCoinProof (proof : SExp) (parent puzzleHash amount : Bytes) : Prop :=
  ∃ rest, proof = .pair (.atom parent) (.pair (.atom puzzleHash) (.pair (.atom amount) rest))

/-- A run of the puzzle computed `d`, and returned `out`. -/
structure Describes (sha256 : Bytes → Bytes32) (run : SExp → SExp → Eval SExp) (modHash tailProgramHash : Bytes32)
    (solution out : SExp) (d : CatData) : Prop where
  innerConditions_eq : (solution.first >>= run d.innerPuzzle) = .ok d.innerConditions
  lineageProof_eq : solution.second = .ok d.lineageProof
  prevCoinId_eq : solution.third = .ok d.prevCoinId
  coin_eq : ∃ x, solution.fourth = .ok x ∧ IsCoinProof x d.parent d.puzzleHash d.amount
  next_eq : ∃ x, solution.fifth = .ok x ∧ IsCoinProof x d.nextParent d.nextInnerPuzzleHash d.nextAmount
  prevSubtotal_eq : solution.sixth = .ok d.prevSubtotal
  subtotal_eq : d.prevSubtotal.asInt = .ok d.subtotal
  extraDelta_eq : solution.seventh = .ok d.extraDelta
  delta_eq : d.extraDelta.asInt = .ok d.delta
  parent_length : d.parent.length = 32
  puzzleHash_length : d.puzzleHash.length = 32
  nextParent_length : d.nextParent.length = 32
  stripped_eq : findAndStripTailInfo sha256 (catModStruct sha256 modHash tailProgramHash) d.innerConditions nil =
    .ok d.stripped
  out_eq : out.asIter = d.output sha256 modHash tailProgramHash
  tail_eq : d.tail = none ↔ d.stripped.tailRevealAndSolution = nil
  noTail : d.tail = none → d.extraDelta = nil ∧ ∃ parent iph amount,
    IsCoinProof d.lineageProof parent iph amount ∧ parent.length = 32 ∧
    d.parent = (sha256 (parent ++ (catHash sha256 modHash tailProgramHash iph).bytes ++ amount)).bytes
  someTail : ∀ reveal conditions, d.tail = some (reveal, conditions) →
    reveal.treeHash sha256 = tailProgramHash ∧ ∃ arguments, run reveal arguments = .ok conditions

end CatData

section Describes

variable {sha256 : Bytes → Bytes32} {run : SExp → SExp → Eval SExp} {modHash tailProgramHash : Bytes32}

lemma asIter_of_mergeList {a b l : SExp} (h : mergeList a b = .ok l) : l.asIter = a.asIter ++ b.asIter := by
  induction a generalizing l with
  | atom x =>
    cases x with
    | nil =>
      obtain rfl := Except.ok.inj h
      rfl
    | cons x xs => cases h
  | pair x a _ ih =>
    obtain ⟨l', hl', rfl⟩ := ExceptRun.map_eq_ok.mp h
    rw [asIter, ih hl', asIter, List.cons_append]

lemma coinIdForProof_eq_ok {coin : SExp} {id : Bytes32}
    (h : coinIdForProof sha256 coin (catModStruct sha256 modHash tailProgramHash) = .ok id) :
    ∃ parent iph amount, CatData.IsCoinProof coin parent iph amount ∧ parent.length = 32 ∧
      id = sha256 (parent ++ (catHash sha256 modHash tailProgramHash iph).bytes ++ amount) := by
  simp only [coinIdForProof, ExceptRun.bind_eq_ok] at h
  obtain ⟨p, hp, x, hx, ph, hph, a, ha, hid⟩ := h
  obtain ⟨iph, rfl, rfl⟩ := catPuzzleHash_eq_ok hph
  obtain ⟨parent, ph', amount, rfl, hph', rfl, hlength, -, rfl⟩ := calculateCoinId_eq_ok hid
  obtain rfl := SExp.atom.inj hph'
  obtain ⟨y, z, d, rfl⟩ := third_eq_ok.mp ha
  obtain rfl : y = .atom parent := Except.ok.inj hp
  obtain rfl : z = .atom iph := Except.ok.inj hx
  exact ⟨parent, iph, amount, ⟨d, rfl⟩, hlength, rfl⟩

lemma parentIsCat_eq_true {parentId proof : SExp}
    (h : parentIsCat sha256 (catModStruct sha256 modHash tailProgramHash) parentId proof = .ok true) :
    ∃ parent iph amount, CatData.IsCoinProof proof parent iph amount ∧ parent.length = 32 ∧
      parentId = .atom (sha256 (parent ++ (catHash sha256 modHash tailProgramHash iph).bytes ++ amount)).bytes := by
  rw [parentIsCat] at h
  split at h
  · simp only [isParentCat, ExceptRun.bind_eq_ok] at h
    obtain ⟨id, hid, heq⟩ := h
    obtain ⟨parent, iph, amount, hproof, hlength, rfl⟩ := coinIdForProof_eq_ok hid
    obtain ⟨a, rfl, hdec⟩ := eqAtoms_atom_eq_ok.mp heq
    exact ⟨parent, iph, amount, hproof, hlength, by rw [of_decide_eq_true hdec]⟩
  · cases h

/-- **The lineage is checked, or the TAIL program is run**, and its conditions come first. -/
lemma checkLineageOrRunTailProgram_eq_ok {tailRevealAndSolution proof truths extraDelta conditions out : SExp}
    {isCat : Bool} (h : checkLineageOrRunTailProgram sha256 run (.atom tailProgramHash.bytes) tailRevealAndSolution
      isCat proof truths extraDelta conditions = .ok out) :
    ∃ tail : Option (SExp × SExp),
      out.asIter = (tail.map fun t => t.2.asIter).getD [] ++ conditions.asIter ∧
      (tail = none ↔ tailRevealAndSolution = nil) ∧ (tail = none → extraDelta = nil ∧ isCat = true) ∧
      ∀ reveal returned, tail = some (reveal, returned) →
        reveal.treeHash sha256 = tailProgramHash ∧ ∃ arguments, run reveal arguments = .ok returned := by
  match tailRevealAndSolution with
  | .atom [] =>
    simp only [checkLineageOrRunTailProgram, ExceptRun.bind_eq_ok, clvmAssert_eq_ok, ExceptRun.pure_eq,
      Except.ok.injEq] at h
    obtain ⟨-, hcat, -, hdelta, rfl⟩ := h
    refine ⟨none, rfl, ⟨fun _ => rfl, fun _ => rfl⟩, fun _ => ⟨?_, hcat⟩, fun _ _ h => by cases h⟩
    simpa [SExp.isTrue] using hdelta
  | .atom (_ :: _) => cases h
  | .pair reveal solution =>
    simp only [checkLineageOrRunTailProgram, runTailProgram, ExceptRun.bind_eq_ok, clvmAssert_eq_ok] at h
    obtain ⟨isTail, heq, -, rfl, returned, hrun, hmerge⟩ := h
    obtain ⟨a, ha, hdec⟩ := eqAtoms_atom_eq_ok.mp heq
    refine ⟨some (reveal, returned), asIter_of_mergeList hmerge, ⟨(fun h => by cases h), (fun h => by cases h)⟩,
      (fun h => by cases h), ?_⟩
    intro reveal' returned' hsome
    cases hsome
    refine ⟨Bytes32.ext ?_, _, hrun⟩
    rw [SExp.atom.inj ha]
    exact of_decide_eq_true hdec

/-- **What the puzzle returns**, from what it computed. -/
theorem exists_describes {innerPuzzle solution out : SExp}
    (h : catV2 sha256 run (.atom modHash.bytes) (.atom tailProgramHash.bytes) innerPuzzle solution = .ok out) :
    ∃ d : CatData, d.innerPuzzle = innerPuzzle ∧ d.Describes sha256 run modHash tailProgramHash solution out := by
  simp only [catV2, catStager, catStagerTwo, thisCoinId, ExceptRun.bind_eq_ok, asAtom_eq_ok, ExceptRun.pure_eq,
    Except.ok.injEq] at h
  obtain ⟨innerSolution, hsol, proof, hproof, prevCoinId, hprev, info, hinfo, next, hnextInfo, prevSubtotal, hps,
    extraDelta, hextra, _, hmod, inner, hinner, myId, ⟨p, hp, ph, hph, a, ha, hid⟩, stripped, hstripped, nextId,
    hnext, conditions, ⟨p', hp', isCat, hcat, subtotal, hsubtotal, a', ha', n, hn, delta, hdelta, tph, htph, hcheck⟩,
    rfl⟩ := h
  obtain rfl := SExp.atom.inj hmod
  obtain rfl : p = p' := Except.ok.inj (hp.symm.trans hp')
  obtain rfl : a = a' := Except.ok.inj (ha.symm.trans ha')
  obtain rfl : SExp.atom tailProgramHash.bytes = tph := Except.ok.inj htph
  obtain ⟨parent, puzzleHash, amount, rfl, rfl, rfl, hlp, hlh, rfl⟩ := calculateCoinId_eq_ok hid
  obtain ⟨nextParent, nextInner, nextAmount, hnextProof, hnl, rfl⟩ := coinIdForProof_eq_ok hnext
  obtain ⟨b, hb, rfl⟩ := asInt_eq_ok.mp hn
  obtain rfl := SExp.atom.inj hb
  obtain ⟨tail, hout, htail, hnone, hsome⟩ := checkLineageOrRunTailProgram_eq_ok hcheck
  have hcoin : CatData.IsCoinProof info parent puzzleHash amount := by
    obtain ⟨x, y, d, rfl⟩ := third_eq_ok.mp ha
    obtain rfl : x = .atom parent := Except.ok.inj hp
    obtain rfl : y = .atom puzzleHash := Except.ok.inj hph
    exact ⟨d, rfl⟩
  refine ⟨⟨innerPuzzle, parent, puzzleHash, amount, prevCoinId, prevSubtotal, subtotal, nextParent, nextInner,
    nextAmount, proof, extraDelta, delta, inner, stripped, tail⟩, rfl, ExceptRun.bind_eq_ok.mpr ⟨_, hsol, hinner⟩, hproof, hprev,
    ⟨info, hinfo, hcoin⟩, ⟨next, hnextInfo, hnextProof⟩, hps, hsubtotal, hextra, hdelta, hlp, hlh, hnl, hstripped, ?_,
    htail, ?_, hsome⟩
  · rw [asIter, hout]
    rfl
  · intro hnoTail
    obtain ⟨hdeltaNil, rfl⟩ := hnone hnoTail
    refine ⟨hdeltaNil, ?_⟩
    obtain ⟨parent', iph, amount', hlineage, hlength, heq⟩ := parentIsCat_eq_true hcat
    exact ⟨parent', iph, amount', hlineage, hlength, SExp.atom.inj heq⟩

end Describes

end Chives
