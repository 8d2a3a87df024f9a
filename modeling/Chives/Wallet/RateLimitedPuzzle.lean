import Chives.Types.CoinSpend
import Chives.Wallet.CurryAndTreehash

set_option autoImplicit false

/-!
# The rate limited puzzle

`wallet/puzzles/rl.clvm`: a coin that can be spent in part, the longer it has been there the more of it, or be merged
with another coin, or be clawed back with a second key.

## Main definitions

* `RateLimited.rl` — the puzzle.
* `RateLimited.taken` — what a spend takes out of the coin, which the puzzle itself does not compute.

## Main results

* `RateLimited.rateLimitedPuzzle_eq_ok`, `RateLimited.aggregation_eq_ok` — the conditions of the two modes.
* `RateLimited.rl_eq_ok` — a spend that is not a clawback asserts the id of its coin and creates a coin of the
  same puzzle hash, with all that the spend does not take.
-/

namespace Chives

open SExp

namespace RateLimited

/-- `ASSERT_HEIGHT_RELATIVE`. -/
def assertHeightRelative : Bytes := [82]

/-- `AGG_SIG_UNSAFE`. -/
def aggSigUnsafe : Bytes := [49]

/-- `RATE_LIMITED_MODE`. -/
def rateLimitedMode : SExp := .atom [1]

/-- `CLAWBACK_MODE`. -/
def clawbackMode : SExp := .atom [3]

section Code

variable (sha256 : Bytes → Bytes32)

/-- `aggsig-solution-with-key`. -/
def aggsigSolutionWithKey (key solution : SExp) : SExp :=
  ofList [.atom aggSigUnsafe, key, .atom (solution.treeHash sha256).bytes]

/-- `(sha256 a b c)`. -/
def sha256Of (a b c : SExp) : Eval SExp := do
  let a ← a.asAtom
  let b ← b.asAtom
  let c ← c.asAtom
  pure (.atom (sha256 (a ++ b ++ c)).bytes)

/-- `create-lock`. -/
def createLock (consolidatingPrimaryInput consolidatingCoinPuzzleHash outgoingAmount : SExp) : Eval SExp := do
  let message ← sha256Of sha256 consolidatingPrimaryInput consolidatingCoinPuzzleHash outgoingAmount
  pure (ofList [.atom ConditionOpcode.createCoinAnnouncement.value, message])

/-- `generate-assert-id-condition`. -/
def generateAssertIdCondition (myParentId myPuzzlehash myAmount : SExp) : Eval SExp := do
  let id ← sha256Of sha256 myParentId myPuzzlehash myAmount
  pure (ofList [.atom ConditionOpcode.assertMyCoinId.value, id])

/-- `create-new-coin`. -/
def createNewCoin (outgoingPuzzleHash outgoingAmount : SExp) : SExp :=
  ofList [.atom ConditionOpcode.createCoin.value, outgoingPuzzleHash, outgoingAmount]

/-- `create-change`. -/
def createChange (myPuzzlehash myAmount outgoingAmount fee : SExp) : Eval SExp := do
  let myAmount ← myAmount.asInt
  let outgoingAmount ← outgoingAmount.asInt
  let fee ← fee.asInt
  pure (ofList [.atom ConditionOpcode.createCoin.value, myPuzzlehash, ofInt (myAmount - (outgoingAmount + fee))])

/-- `generate-block-age-condition`; the two products that are compared are integers in their shortest form. -/
def generateBlockAgeCondition (minBlockTime outgoingAmount rateAmount intervalTime : SExp) : Eval SExp := do
  let time ← minBlockTime.asInt
  let rate ← rateAmount.asInt
  let amount ← outgoingAmount.asInt
  let interval ← intervalTime.asInt
  clvmAssert (decide (time * rate > amount * interval) || decide (time * rate = amount * interval))
  pure (ofList [.atom assertHeightRelative, minBlockTime])

/-- The assertion that both modes start with: the parent has the same puzzle hash, or it is the origin. -/
def assertParent (originId parentParentId myPuzzlehash parentAmount parentId : SExp) : Eval Unit := do
  let id ← sha256Of sha256 parentParentId myPuzzlehash parentAmount
  let isSame ← id.eqAtoms parentId
  if isSame then pure () else do
    let isOrigin ← originId.eqAtoms parentId
    clvmAssert isOrigin

/-- `rate-limited-puzzle`. -/
def rateLimitedPuzzle (rateAmount intervalTime originId args : SExp) : Eval SExp := do
  let myParentId ← args.first
  let myPuzzlehash ← args.second
  let myAmount ← args.third
  let outgoingPuzzleHash ← args.fourth
  let outgoingAmount ← args.fifth
  let minBlockTime ← args.sixth
  let parentParentId ← args.seventh
  let parentAmount ← args.rest >>= seventh
  let fee ← args.rest >>= rest >>= seventh
  assertParent sha256 originId parentParentId myPuzzlehash parentAmount myParentId
  let age ← generateBlockAgeCondition minBlockTime outgoingAmount rateAmount intervalTime
  let change ← createChange myPuzzlehash myAmount outgoingAmount fee
  let assertId ← generateAssertIdCondition sha256 myParentId myPuzzlehash myAmount
  pure (ofList [age, change, assertId, createNewCoin outgoingPuzzleHash outgoingAmount])

/-- `aggregation`. -/
def aggregation (originId args : SExp) : Eval SExp := do
  let myPuzzleHash ← args.first
  let consolidatingPrimaryInput ← args.second
  let consolidatingCoinPuzzleHash ← args.third
  let outgoingAmount ← args.fourth
  let primaryInput ← args.fifth
  let incomingAmount ← args.sixth
  let parentAmount ← args.seventh
  let myParentParentId ← args.rest >>= seventh
  assertParent sha256 originId myParentParentId myPuzzleHash parentAmount primaryInput
  let assertId ← generateAssertIdCondition sha256 primaryInput myPuzzleHash incomingAmount
  let lock ← createLock sha256 consolidatingPrimaryInput consolidatingCoinPuzzleHash outgoingAmount
  let outgoing ← outgoingAmount.asInt
  let incoming ← incomingAmount.asInt
  pure (ofList [assertId, lock, createNewCoin myPuzzleHash (ofInt (outgoing + incoming))])

/-- `rl.clvm`. -/
def rl (pubkey rateAmount intervalTime originId clawbackPubkey solution : SExp) : Eval SExp := do
  let mode ← solution.first
  let args ← solution.rest
  let isClawback ← mode.eqAtoms clawbackMode
  if isClawback then pure (.pair (aggsigSolutionWithKey sha256 clawbackPubkey solution) args)
  else do
    let isRateLimited ← mode.eqAtoms rateLimitedMode
    let conditions ← (if isRateLimited then rateLimitedPuzzle sha256 rateAmount intervalTime originId args
      else aggregation sha256 originId args)
    pure (.pair (aggsigSolutionWithKey sha256 pubkey solution) conditions)

end Code

/-! ## What a spend takes -/

/-- The solution is one for the clawback mode. -/
def IsClawback (solution : SExp) : Prop := solution.first = .ok clawbackMode

instance (solution : SExp) : Decidable (IsClawback solution) := inferInstanceAs (Decidable (_ = _))

/-- What a spend that is not a clawback takes out of the coin: the payment, which the puzzle limits, and what it does
not limit, the fee or what is lost when the coin is merged. -/
def taken (solution : SExp) : Eval (ℤ × ℤ) := do
  let mode ← solution.first
  let args ← solution.rest
  let isRateLimited ← mode.eqAtoms rateLimitedMode
  if isRateLimited then do
    let payment ← args.fifth >>= asInt
    let fee ← args.rest >>= rest >>= seventh >>= asInt
    pure (payment, fee)
  else do
    let outgoingAmount ← args.fourth >>= asInt
    pure (0, -outgoingAmount)

/-- The fields that are hashed for the id of the coin: its parent, its puzzle hash and its amount. -/
def idFields (solution : SExp) : Eval (SExp × SExp × SExp) := do
  let mode ← solution.first
  let args ← solution.rest
  let isRateLimited ← mode.eqAtoms rateLimitedMode
  if isRateLimited then do
    let myParentId ← args.first
    let myPuzzlehash ← args.second
    let myAmount ← args.third
    pure (myParentId, myPuzzlehash, myAmount)
  else do
    let primaryInput ← args.fifth
    let myPuzzleHash ← args.first
    let incomingAmount ← args.sixth
    pure (primaryInput, myPuzzleHash, incomingAmount)

/-! ## What the puzzle returns -/

variable {sha256 : Bytes → Bytes32} {rateAmount intervalTime originId args solution out : SExp}

lemma sha256Of_eq_ok {a b c r : SExp} (h : sha256Of sha256 a b c = .ok r) : ∃ x y z, a = .atom x ∧ b = .atom y ∧
    c = .atom z ∧ r = .atom (sha256 (x ++ y ++ z)).bytes := by
  simp only [sha256Of, ExceptRun.bind_eq_ok, asAtom_eq_ok, ExceptRun.pure_eq, Except.ok.injEq] at h
  obtain ⟨x, rfl, y, rfl, z, rfl, rfl⟩ := h
  exact ⟨x, y, z, rfl, rfl, rfl, rfl⟩

/-- **The rate limited mode.** The payment is covered by a minimal age, which is asserted; the change is what is left
of the payment and the fee. -/
lemma rateLimitedPuzzle_eq_ok (h : rateLimitedPuzzle sha256 rateAmount intervalTime originId args = .ok out) :
    ∃ parent ph amount time rate payment interval fee, ∃ tail : List SExp,
      args.first = .ok (.atom parent) ∧ args.second = .ok (.atom ph) ∧ args.third = .ok (.atom amount) ∧
      (args.fifth >>= asInt) = .ok payment ∧ (args.rest >>= rest >>= seventh >>= asInt) = .ok fee ∧
      rateAmount.asInt = .ok rate ∧ intervalTime.asInt = .ok interval ∧
      payment * interval ≤ intFromBytes time * rate ∧
      out = ofList ([ofList [.atom assertHeightRelative, .atom time],
        ofList [.atom ConditionOpcode.createCoin.value, .atom ph, ofInt (intFromBytes amount - (payment + fee))],
        ofList [.atom ConditionOpcode.assertMyCoinId.value, .atom (sha256 (parent ++ ph ++ amount)).bytes]] ++
        tail) := by
  simp only [rateLimitedPuzzle, ExceptRun.bind_eq_ok, ExceptRun.pure_eq, Except.ok.injEq] at h
  obtain ⟨parent, hparent, ph, hph, amount, hamount, outPh, -, payment, hpayment, time, htime, ppi, -, pamount, -,
    fee, hfee, -, -, age, hage, change, hchange, assertId, hassert, rfl⟩ := h
  simp only [generateAssertIdCondition, ExceptRun.bind_eq_ok, ExceptRun.pure_eq, Except.ok.injEq] at hassert
  obtain ⟨id, hid, rfl⟩ := hassert
  obtain ⟨x, y, z, rfl, rfl, rfl, rfl⟩ := sha256Of_eq_ok hid
  simp only [generateBlockAgeCondition, ExceptRun.bind_eq_ok, clvmAssert_eq_ok, ExceptRun.pure_eq,
    Except.ok.injEq] at hage
  obtain ⟨m, hm, rate, hrate, n, hn, interval, hinterval, -, hle, rfl⟩ := hage
  obtain ⟨timeBytes, rfl, rfl⟩ := asInt_eq_ok.mp hm
  simp only [createChange, ExceptRun.bind_eq_ok, ExceptRun.pure_eq, Except.ok.injEq] at hchange
  obtain ⟨a, ha, n', hn', f, hf, rfl⟩ := hchange
  obtain rfl := Except.ok.inj (hn.symm.trans hn')
  obtain ⟨amountBytes, hz, rfl⟩ := asInt_eq_ok.mp ha
  obtain rfl := SExp.atom.inj hz
  refine ⟨x, y, z, timeBytes, rate, n, interval, f, [createNewCoin outPh payment], hparent, hph, hamount, ?_, ?_, hrate,
    hinterval, ?_, rfl⟩
  · exact ExceptRun.bind_eq_ok.mpr ⟨payment, hpayment, hn⟩
  · obtain ⟨u, hu, hseventh⟩ := hfee
    exact ExceptRun.bind_eq_ok.mpr ⟨fee, ExceptRun.bind_eq_ok.mpr ⟨u, ExceptRun.bind_eq_ok.mpr hu, hseventh⟩, hf⟩
  · simp only [Bool.or_eq_true, decide_eq_true_eq] at hle
    omega

/-- **The aggregation mode.** The amount is added to that of the coin. -/
lemma aggregation_eq_ok (h : aggregation sha256 originId args = .ok out) :
    ∃ parent ph amount outgoing, ∃ head : SExp,
      args.fifth = .ok (.atom parent) ∧ args.first = .ok (.atom ph) ∧ args.sixth = .ok (.atom amount) ∧
      (args.fourth >>= asInt) = .ok outgoing ∧
      out = ofList [ofList [.atom ConditionOpcode.assertMyCoinId.value, .atom (sha256 (parent ++ ph ++ amount)).bytes],
        head, ofList [.atom ConditionOpcode.createCoin.value, .atom ph, ofInt (outgoing + intFromBytes amount)]] := by
  simp only [aggregation, ExceptRun.bind_eq_ok, ExceptRun.pure_eq, Except.ok.injEq] at h
  obtain ⟨ph, hph, -, -, -, -, outgoing, houtgoing, parent, hparent, amount, hamount, -, -, -, -, -, -, assertId, hassert,
    head, -, n, hn, m, hm, rfl⟩ := h
  simp only [generateAssertIdCondition, ExceptRun.bind_eq_ok, ExceptRun.pure_eq, Except.ok.injEq] at hassert
  obtain ⟨id, hid, rfl⟩ := hassert
  obtain ⟨x, y, z, rfl, rfl, rfl, rfl⟩ := sha256Of_eq_ok hid
  obtain ⟨amountBytes, hz, rfl⟩ := asInt_eq_ok.mp hm
  obtain rfl := SExp.atom.inj hz
  exact ⟨x, y, z, n, head, hparent, hph, hamount, ExceptRun.bind_eq_ok.mpr ⟨outgoing, houtgoing, hn⟩, rfl⟩

lemma createdCoin_ofInt (ph : Bytes) (n : ℤ) :
    createdCoin (ofList [.atom ConditionOpcode.createCoin.value, .atom ph, ofInt n]) = some (ph, n) := by
  have hlist : (ofList [.atom ConditionOpcode.createCoin.value, .atom ph, ofInt n]).asAtomList =
      [ConditionOpcode.createCoin.value, ph, intToBytes n] := rfl
  simp only [createdCoin, hlist, if_true, intFromBytes_intToBytes]

/-- **A spend that is not a clawback** asserts the id of its coin, and creates a coin of the same puzzle hash with all
that it does not take. The payment is covered by a minimal age, or there is none. -/
theorem rl_eq_ok {pubkey clawbackPubkey : SExp} {rate interval : ℤ}
    (h : rl sha256 pubkey rateAmount intervalTime originId clawbackPubkey solution = .ok out)
    (hclawback : ¬ IsClawback solution) (hrate : rateAmount.asInt = .ok rate)
    (hinterval : intervalTime.asInt = .ok interval) :
    ∃ parent ph amount payment rest, idFields solution = .ok (.atom parent, .atom ph, .atom amount) ∧
      taken solution = .ok (payment, rest) ∧
      ofList [.atom ConditionOpcode.assertMyCoinId.value, .atom (sha256 (parent ++ ph ++ amount)).bytes] ∈ out.asIter ∧
      (∃ c ∈ out.asIter, createdCoin c = some (ph, intFromBytes amount - (payment + rest))) ∧
      (payment = 0 ∨ ∃ time, ofList [.atom assertHeightRelative, .atom time] ∈ out.asIter ∧
        payment * interval ≤ intFromBytes time * rate) := by
  simp only [rl, ExceptRun.bind_eq_ok] at h
  obtain ⟨mode, hmode, args, hargs, isClawback, hisClawback, h⟩ := h
  obtain ⟨modeBytes, rfl, rfl⟩ := eqAtoms_atom_eq_ok.mp hisClawback
  have hne : modeBytes ≠ [3] := by
    rintro rfl
    exact hclawback hmode
  rw [decide_eq_false hne, if_neg (by simp)] at h
  simp only [ExceptRun.bind_eq_ok, ExceptRun.pure_eq, Except.ok.injEq] at h
  obtain ⟨isRateLimited, hisRateLimited, conditions, hconditions, rfl⟩ := h
  simp only [idFields, taken, hmode, hargs, ExceptRun.ok_bind, hisRateLimited]
  cases isRateLimited with
  | true =>
    rw [if_pos rfl] at hconditions
    obtain ⟨parent, ph, amount, time, rate', payment, interval', fee, tail, hparent, hph, hamount, hpayment, hfee, hrate',
      hinterval', hle, rfl⟩ := rateLimitedPuzzle_eq_ok hconditions
    obtain rfl := Except.ok.inj (hrate.symm.trans hrate')
    obtain rfl := Except.ok.inj (hinterval.symm.trans hinterval')
    refine ⟨parent, ph, amount, payment, fee, ?_, ?_, ?_, ⟨_, ?_, createdCoin_ofInt ph _⟩, .inr ⟨time, ?_, hle⟩⟩
    · simp [hparent, hph, hamount, ExceptRun.ok_bind, ExceptRun.pure_eq]
    · rw [if_pos rfl, hpayment, ExceptRun.ok_bind, hfee]
      rfl
    all_goals
      rw [asIter, asIter_ofList]
      simp
  | false =>
    rw [if_neg (by simp)] at hconditions
    obtain ⟨parent, ph, amount, outgoing, head, hparent, hph, hamount, houtgoing, rfl⟩ := aggregation_eq_ok hconditions
    have hnew : createdCoin (ofList [.atom ConditionOpcode.createCoin.value, .atom ph,
        ofInt (outgoing + intFromBytes amount)]) = some (ph, intFromBytes amount - (0 + -outgoing)) := by
      rw [createdCoin_ofInt]
      congr 2
      omega
    refine ⟨parent, ph, amount, 0, -outgoing, ?_, ?_, ?_, ⟨_, ?_, hnew⟩, .inl rfl⟩
    · simp [hparent, hph, hamount, ExceptRun.ok_bind, ExceptRun.pure_eq]
    · rw [if_neg (by simp), houtgoing]
      rfl
    all_goals
      rw [asIter, asIter_ofList]
      simp

end RateLimited

end Chives
