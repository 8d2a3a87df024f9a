import Chives.Wallet.SingletonTopLayer

set_option autoImplicit false

/-!
# The recovery of a DID

`wallet/puzzles/did_innerpuz.clvm`: a DID can get a new inner puzzle if enough other DIDs of its recovery list approve
it, each with a message coin (`wallet/did_wallet/did_wallet_puzzles.py`). An identity without an approval is skipped by
a call that leaves out one argument, so that all the following ones are taken for others, and the last one is missing.

## Main definitions

* `DidInnerpuz.checkMessagesFromIdentities`, `DidInnerpuz.didInnerpuz` — the puzzle.
* `DidInnerpuz.messageCoin` — the coin that approves a recovery.
* `DidInnerpuz.Recovery` — a spend in recovery mode, with `DidInnerpuz.Recovery.conditions`.

## Main results

* `DidInnerpuz.Recovery.eval_eq_ok` — a recovery succeeds if all identities approve it, and they are enough.
* `DidInnerpuz.Recovery.acceptsSufficient_iff` — so it is right exactly if all approve, or too few do.
-/

namespace Chives

namespace DidInnerpuz

open SExp ExceptRun

/-- `AGG_SIG_UNSAFE`. -/
def aggSigUnsafe : SExp := .atom [49]

/-- `create_recovery_message_puzzle`, and `make_message_puzzle` of the puzzle. -/
def createRecoveryMessagePuzzle (recoveringCoinId newpuz pubkey : SExp) : SExp :=
  .pair (.atom [1]) (ofList [ofList [.atom ConditionOpcode.createCoinAnnouncement.value, recoveringCoinId],
    ofList [aggSigUnsafe, pubkey, newpuz]])

section Code

variable (sha256 : Bytes → Bytes32) (run : SExp → SExp → Eval SExp)

/-- `create_consume_message`. -/
def createConsumeMessage (coinId : Bytes32) (myId newInnerpuz pubkey : SExp) : Eval SExp := do
  let puzzleHash := (createRecoveryMessagePuzzle myId newInnerpuz pubkey).treeHash sha256
  let myId ← myId.asAtom
  pure (ofList [.atom ConditionOpcode.assertCoinAnnouncement.value,
    .atom (sha256 ((sha256 (coinId.bytes ++ puzzleHash.bytes)).bytes ++ myId)).bytes])

/-- `create_coin_ID_for_recovery`. -/
def createCoinIdForRecovery (singletonStruct launcherId parent innerpuzhash amount : SExp) : Eval Bytes32 := do
  let modHash ← singletonStruct.first
  let launcherPuzzleHash ← singletonStruct.rest >>= rest
  let puzzleHash ← calculateFullPuzzleHash sha256 (.pair modHash (.pair launcherId launcherPuzzleHash)) innerpuzhash
  let parent ← parent.asAtom
  let amount ← amount.asAtom
  pure (sha256 (parent ++ puzzleHash.bytes ++ amount))

/-- `check_messages_from_identities`, with its last parameter, if there is one. -/
def checkMessagesFromIdentities (singletonStruct : SExp) : (numVerificationsRequired identities myId newPuz
    parentInnerpuzhashAmounts pubkey : SExp) → (numVerifications : Option SExp) → Eval SExp
  | _, .atom [], _, _, _, _, none => clvmRaise
  | required, .atom [], _, newPuz, _, pubkey, some numVerifications => do
    let n ← numVerifications.asInt
    let k ← required.asInt
    if n > k - 1 then pure (ofList [ofList [aggSigUnsafe, pubkey, newPuz]]) else clvmRaise
  | _, .atom (_ :: _), _, _, infos, _, _ => do
    let _ ← infos.first
    .error .firstOfNonCons
  | _, .pair _ _, _, _, infos, _, none => do
    let _ ← infos.first
    clvmRaise
  | required, .pair identity identities, myId, newPuz, infos, pubkey, some numVerifications => do
    let info ← infos.first
    let infos ← infos.rest
    if info.isTrue then
      let parent ← info.first
      let innerpuzhash ← info.second
      let amount ← info.third
      let coinId ← createCoinIdForRecovery sha256 singletonStruct identity parent innerpuzhash amount
      let message ← createConsumeMessage sha256 coinId myId newPuz pubkey
      let n ← numVerifications.asInt
      let messages ← checkMessagesFromIdentities singletonStruct required identities myId newPuz infos pubkey
        (some (ofInt (n + 1)))
      pure (.pair message messages)
    else
      -- `num_verifications_required` is left out here, so that the identities take its place
      checkMessagesFromIdentities singletonStruct identities myId newPuz infos pubkey numVerifications none
  termination_by _ identities _ _ _ _ numVerifications => (numVerifications.isSome.toNat, sizeOf identities)

/-- The puzzle. -/
def didInnerpuz (innerPuzzle recoveryDidListHash numVerificationsRequired singletonStruct _metadata mode
    myAmountOrInnerSolution newInnerPuzhash parentInnerpuzhashAmounts pubkey recoveryListReveal myId : SExp) :
    Eval SExp :=
  if mode.isTrue then run innerPuzzle myAmountOrInnerSolution
  else do
    let hashed ← eqAtoms (.atom (recoveryListReveal.treeHash sha256).bytes) recoveryDidListHash
    let required ← numVerificationsRequired.asInt
    if hashed && required > 0 then
      let messages ← checkMessagesFromIdentities sha256 singletonStruct numVerificationsRequired recoveryListReveal
        myId newInnerPuzhash parentInnerpuzhashAmounts pubkey (some (ofInt 0))
      pure (.pair (ofList [.atom ConditionOpcode.assertMyAmount.value, myAmountOrInnerSolution])
        (.pair (ofList [.atom ConditionOpcode.createCoin.value, newInnerPuzhash, myAmountOrInnerSolution,
          ofList [newInnerPuzhash]])
          (.pair (ofList [.atom ConditionOpcode.assertMyCoinId.value, myId]) messages)))
    else clvmRaise

/-- The coin of `create_spend_for_message`. -/
def messageCoin (parentOfMessage : Bytes32) (recoveringCoin newpuz pubkey : SExp) : Coin :=
  ⟨parentOfMessage, (createRecoveryMessagePuzzle recoveringCoin newpuz pubkey).treeHash sha256, 0⟩

end Code

/-! ## Recoveries -/

/-- What is revealed of the coin of a DID that approves a recovery. -/
structure ParentInfo where
  parent : Bytes
  innerPuzzleHash : Bytes
  amount : Bytes

/-- An entry of the parent-information list. -/
def ParentInfo.toSExp : Option ParentInfo → SExp
  | none => nil
  | some info => ofList [.atom info.parent, .atom info.innerPuzzleHash, .atom info.amount]

/-- A spend in recovery mode: the curried parameters, each DID of the recovery list with what is revealed for it, and the
rest of the solution. -/
structure Recovery where
  modHash : Bytes32
  launcherId : Bytes32
  launcherPuzzleHash : Bytes32
  innerPuzzle : SExp
  metadata : SExp
  numVerificationsRequired : ℕ
  identities : List (Bytes32 × Option ParentInfo)
  myAmount : SExp
  newInnerPuzhash : SExp
  pubkey : SExp
  myId : Bytes

namespace Recovery

variable (sha256 : Bytes → Bytes32) (run : SExp → SExp → Eval SExp) (r : Recovery)

/-- The recovery list, and its part for some of the DIDs. -/
def didList (l : List (Bytes32 × Option ParentInfo)) : SExp := ofList (l.map fun e => .atom e.1.bytes)

/-- The parent-information list. -/
def infoList (l : List (Bytes32 × Option ParentInfo)) : SExp := ofList (l.map fun e => ParentInfo.toSExp e.2)

/-- The evaluation of the puzzle. -/
def eval : Eval SExp :=
  didInnerpuz sha256 run r.innerPuzzle (.atom ((didList r.identities).treeHash sha256).bytes)
    (ofInt r.numVerificationsRequired) (singletonStruct r.modHash r.launcherId r.launcherPuzzleHash) r.metadata nil
    r.myAmount r.newInnerPuzhash (infoList r.identities) r.pubkey (didList r.identities) (.atom r.myId)

/-- The id of the coin of a DID. -/
def didCoinId (did : Bytes32) (info : ParentInfo) : Bytes32 :=
  sha256 (info.parent ++ (fullPuzzleHash sha256 r.modHash did r.launcherPuzzleHash info.innerPuzzleHash).bytes ++
    info.amount)

/-- The assertion that the message coin of a DID announces the coin that is recovered. -/
def approval (did : Bytes32) (info : ParentInfo) : SExp :=
  ofList [.atom ConditionOpcode.assertCoinAnnouncement.value, .atom (sha256 (((messageCoin sha256
    (r.didCoinId sha256 did info) (.atom r.myId) r.newInnerPuzhash r.pubkey).name sha256).bytes ++ r.myId)).bytes]

/-- The approvals that some of the DIDs give. -/
def approvals (l : List (Bytes32 × Option ParentInfo)) : List SExp :=
  l.filterMap fun e => e.2.map (r.approval sha256 e.1)

/-- The conditions of a recovery. -/
def conditions : SExp :=
  ofList ([ofList [.atom ConditionOpcode.assertMyAmount.value, r.myAmount],
    ofList [.atom ConditionOpcode.createCoin.value, r.newInnerPuzhash, r.myAmount, ofList [r.newInnerPuzhash]],
    ofList [.atom ConditionOpcode.assertMyCoinId.value, .atom r.myId]] ++ r.approvals sha256 r.identities ++
    [ofList [aggSigUnsafe, r.pubkey, r.newInnerPuzhash]])

/-- The number of DIDs that approve. -/
def approvalCount : ℕ := r.identities.countP fun e => e.2.isSome

/-- **A recovery needs, and accepts, a sufficient set of approvals.** -/
def AcceptsSufficient : Prop :=
  ((∃ out, r.eval sha256 run = .ok out) ↔ r.numVerificationsRequired ≤ r.approvalCount) ∧
    ∀ out, r.eval sha256 run = .ok out → out = r.conditions sha256

variable {sha256 run r}

lemma checkMessages_none (struct required identities myId newPuz infos pubkey out : SExp) :
    checkMessagesFromIdentities sha256 struct required identities myId newPuz infos pubkey none ≠ .ok out := by
  intro h
  match identities with
  | .atom [] =>
    rw [checkMessagesFromIdentities] at h
    cases h
  | .atom (_ :: _) =>
    rw [checkMessagesFromIdentities] at h
    obtain ⟨_, -, h⟩ := bind_eq_ok.mp h
    cases h
  | .pair _ _ =>
    rw [checkMessagesFromIdentities] at h
    obtain ⟨_, -, h⟩ := bind_eq_ok.mp h
    cases h

lemma createConsumeMessage_eq (did : Bytes32) (info : ParentInfo) :
    createConsumeMessage sha256 (r.didCoinId sha256 did info) (.atom r.myId) r.newInnerPuzhash r.pubkey =
      .ok (r.approval sha256 did info) := by
  have hzero : intToBytes ((0 : ℕ) : ℤ) = [] := by decide +kernel
  rw [approval, Coin.name, Coin.message, messageCoin, hzero, List.append_nil]
  rfl

/-- **The messages are checked**: this succeeds if all of the DIDs approve, and they are enough with those before them. -/
lemma checkMessages_eq_ok {l : List (Bytes32 × Option ParentInfo)} {n : ℕ} {out : SExp} :
    checkMessagesFromIdentities sha256 (singletonStruct r.modHash r.launcherId r.launcherPuzzleHash)
      (ofInt r.numVerificationsRequired) (didList l) (.atom r.myId) r.newInnerPuzhash (infoList l) r.pubkey
      (some (ofInt n)) = .ok out ↔
    (∀ e ∈ l, e.2.isSome) ∧ r.numVerificationsRequired ≤ n + l.length ∧
      out = ofList (r.approvals sha256 l ++ [ofList [aggSigUnsafe, r.pubkey, r.newInnerPuzhash]]) := by
  induction l generalizing n out with
  | nil =>
    have hstart : checkMessagesFromIdentities sha256 (singletonStruct r.modHash r.launcherId r.launcherPuzzleHash)
        (ofInt r.numVerificationsRequired) (didList []) (.atom r.myId) r.newInnerPuzhash (infoList []) r.pubkey
        (some (ofInt n)) = if (n : ℤ) > r.numVerificationsRequired - 1
          then .ok (ofList [ofList [aggSigUnsafe, r.pubkey, r.newInnerPuzhash]]) else clvmRaise := by
      rw [didList, List.map_nil, ofList, nil, checkMessagesFromIdentities, asInt_ofInt, asInt_ofInt]
      rfl
    rw [hstart]
    by_cases hn : r.numVerificationsRequired ≤ n
    · rw [if_pos (by omega), Except.ok.injEq]
      exact ⟨fun h => ⟨fun e he => (by cases he), hn, h.symm⟩, fun h => h.2.2.symm⟩
    · rw [if_neg (by omega)]
      exact iff_of_false (fun h => (by cases h)) fun h => hn h.2.1
  | cons e l ih =>
    obtain ⟨did, entry⟩ := e
    have hdids : didList ((did, entry) :: l) = .pair (.atom did.bytes) (didList l) := rfl
    have hinfos : infoList ((did, entry) :: l) = .pair (ParentInfo.toSExp entry) (infoList l) := rfl
    rw [hdids, hinfos, checkMessagesFromIdentities]
    cases entry with
    | none =>
      refine iff_of_false (fun h => ?_) (fun h => ?_)
      · exact checkMessages_none _ _ _ _ _ _ _ _ h
      · exact Bool.false_ne_true (h.1 _ List.mem_cons_self)
    | some info =>
      have hcoin : createCoinIdForRecovery sha256 (singletonStruct r.modHash r.launcherId r.launcherPuzzleHash)
          (.atom did.bytes) (.atom info.parent) (.atom info.innerPuzzleHash) (.atom info.amount) =
          .ok (r.didCoinId sha256 did info) := rfl
      have hinfo : ParentInfo.toSExp (some info) = .pair (.atom info.parent) (.pair (.atom info.innerPuzzleHash)
        (.pair (.atom info.amount) nil)) := rfl
      have hnext : ((n : ℤ) + 1) = ((n + 1 : ℕ) : ℤ) := by push_cast; rfl
      simp only [hinfo, first, second, third, rest, ok_bind]
      rw [if_pos (by rfl)]
      simp only [ok_bind, hcoin, createConsumeMessage_eq, asInt_ofInt, hnext, bind_eq_ok, ih]
      have hcount : n + 1 + l.length = n + (l.length + 1) := by omega
      constructor
      · rintro ⟨_, ⟨hsome, hle, rfl⟩, hout⟩
        refine ⟨List.forall_mem_cons.mpr ⟨rfl, hsome⟩, hcount ▸ hle, (Except.ok.inj hout).symm⟩
      · rintro ⟨hsome, hle, rfl⟩
        exact ⟨_, ⟨(List.forall_mem_cons.mp hsome).2, hcount ▸ hle, rfl⟩, rfl⟩

/-- **When a recovery succeeds**: all DIDs approve, and they are enough. -/
theorem eval_eq_ok (hk : 0 < r.numVerificationsRequired) {out : SExp} : r.eval sha256 run = .ok out ↔
    (∀ e ∈ r.identities, e.2.isSome) ∧ r.numVerificationsRequired ≤ r.identities.length ∧
      out = r.conditions sha256 := by
  have hall : (decide ((r.numVerificationsRequired : ℤ) > 0)) = true := by
    rw [decide_eq_true_eq]
    omega
  have heq : eqAtoms (.atom ((didList r.identities).treeHash sha256).bytes)
      (.atom ((didList r.identities).treeHash sha256).bytes) = .ok true := by simp [eqAtoms_eq_ok]
  rw [eval, didInnerpuz, if_neg (by decide), heq, asInt_ofInt, ok_bind, ok_bind, hall, Bool.and_self, if_pos rfl,
    bind_eq_ok]
  have hcheck := @checkMessages_eq_ok sha256 r r.identities 0
  rw [Nat.cast_zero] at hcheck
  simp only [hcheck, Nat.zero_add]
  constructor
  · rintro ⟨_, ⟨hsome, hle, rfl⟩, hout⟩
    exact ⟨hsome, hle, (Except.ok.inj hout).symm⟩
  · rintro ⟨hsome, hle, rfl⟩
    exact ⟨_, ⟨hsome, hle, rfl⟩, rfl⟩

/-- **When a recovery accepts exactly the sufficient sets of approvals**: all DIDs of its list approve it, or fewer than it
needs.

**Proof sketch.** After a DID that does not approve, the function is called without its last argument, and raises whatever
it does with the others. -/
theorem acceptsSufficient_iff (hk : 0 < r.numVerificationsRequired) : r.AcceptsSufficient sha256 run ↔
    (∀ e ∈ r.identities, e.2.isSome) ∨ r.approvalCount < r.numVerificationsRequired := by
  have hcount : (∀ e ∈ r.identities, e.2.isSome) ↔ r.approvalCount = r.identities.length := by
    rw [approvalCount, List.countP_eq_length]
  have hle : r.approvalCount ≤ r.identities.length := List.countP_le_length
  have hsucceeds : (∃ out, r.eval sha256 run = .ok out) ↔
      r.approvalCount = r.identities.length ∧ r.numVerificationsRequired ≤ r.identities.length := by
    simp only [eval_eq_ok hk, hcount, exists_and_left, exists_eq, and_true]
  have hout : ∀ out, r.eval sha256 run = .ok out → out = r.conditions sha256 := fun out h =>
    ((eval_eq_ok hk).mp h).2.2
  rw [AcceptsSufficient, hsucceeds, hcount]
  constructor
  · rintro ⟨h, -⟩
    omega
  · intro h
    exact ⟨by omega, hout⟩

/-- Two DIDs, of which one has to approve. -/
def oneOfTwo (first second : Option ParentInfo) : Recovery where
  modHash := Bytes32.zero
  launcherId := Bytes32.zero
  launcherPuzzleHash := Bytes32.zero
  innerPuzzle := nil
  metadata := nil
  numVerificationsRequired := 1
  identities := [(Bytes32.zero, first), (Bytes32.zero, second)]
  myAmount := .atom [1]
  newInnerPuzhash := .atom Bytes32.zero.bytes
  pubkey := .atom []
  myId := Bytes32.zero.bytes

/-- Information about a coin. -/
def someInfo : ParentInfo := ⟨Bytes32.zero.bytes, Bytes32.zero.bytes, [1]⟩

theorem acceptsSufficient_iff_bothApprove :
    0 < 1 ∧ (oneOfTwo someInfo someInfo).AcceptsSufficient sampleHash fun _ _ => clvmRaise :=
  ⟨Nat.one_pos, (acceptsSufficient_iff Nat.one_pos).mpr (.inl (by simp [oneOfTwo]))⟩

/-- **Not every sufficient set is accepted**: one of two DIDs has to approve, and the second one does. -/
theorem not_acceptsSufficient : ¬ ∀ (sha256 : Bytes → Bytes32) (run : SExp → SExp → Eval SExp) (r : Recovery),
    0 < r.numVerificationsRequired → r.AcceptsSufficient sha256 run := by
  intro h
  have haccepts := h sampleHash (fun _ _ => clvmRaise) (oneOfTwo none someInfo) Nat.one_pos
  rcases (acceptsSufficient_iff Nat.one_pos).mp haccepts with hall | hfew
  · exact Bool.false_ne_true (hall (Bytes32.zero, none) List.mem_cons_self)
  · exact absurd hfew (by decide)

end Recovery

end DidInnerpuz

end Chives
