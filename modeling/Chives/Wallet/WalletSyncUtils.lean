import Chives.Consensus.BlockCreation
import Chives.Util.MerkleSetProofs

set_option autoImplicit false

/-!
# Validation of additions and removals

The part of `wallet/util/wallet_sync_utils.py` with which a wallet checks what an untrusted peer says about
the coins that a block creates and spends. The peer answers with coins and Merkle proofs, and the wallet has
the two roots from the header of the block.

## Main definitions

* `validateRemovals`, `requestAndValidateRemovals` — the check of spent coins.
* `validateAdditions`, `requestAndValidateAdditions` — the check of created coins.
* `RemovalTrue`, `AdditionShowable` — an entry of a response for which there is a proof.

## Main results

* `validated_removal_iff` — which lists of entries a peer can have validated without the coin that was
  asked for being spent.
* `validated_additions_iff` — which lists of entries a peer can have validated that are not the
  additions of the block.

## Design

SHA-256 cannot be injective, so the results are about a set of messages on which it does not collide, and
about responses whose proofs are checked with messages of this set only.
-/

namespace Chives

open ExceptRun MerkleSet

/-! ## Removals -/

section Removals

variable (H : Hashes)

/-- The answer to `request_removals`: nothing, a `RejectRemovalsRequest`, or the coins and proofs of a
`RespondRemovals`. -/
inductive RemovalsResponse
  | none
  | reject
  | respond (coins : List (Bytes32 × Option Coin)) (proofs : Option (List (Bytes32 × Bytes)))

/-- The checks of `validate_removals` on one coin and its proof. -/
def checkRemoval (root : Bytes32) (e : Bytes32 × Option Coin) (p : Bytes32 × Bytes) :
    Except Failure Bool :=
  if e.1 ≠ p.1 then .ok false
  else match e.2 with
    | none => confirmNotIncludedAlreadyHashed H.stdHash root e.1 p.2
    | some coin =>
      if e.1 ≠ H.coinName coin then .ok false
      else confirmIncludedAlreadyHashed H.stdHash root (H.coinName coin) p.2

/-- The loop of `validate_removals` over coins and proofs. -/
def removalsLoop (root : Bytes32) :
    List (Bytes32 × Option Coin) → List (Bytes32 × Bytes) → Except Failure Bool
  | [], _ => .ok true
  | _ :: _, [] => .error (.raised .indexError)
  | e :: coins, p :: proofs => do
    if (← checkRemoval H root e p) = false then return false else removalsLoop root coins proofs

/-- `validate_removals`. -/
def validateRemovals (coins : List (Bytes32 × Option Coin)) (proofs : Option (List (Bytes32 × Bytes)))
    (root : Bytes32) : Except Failure Bool :=
  match proofs with
  | none => do
    let removalsMerkleSet ← addAll H.stdHash (coins.filterMap fun e => e.2.map H.coinName)
    let removalsRoot ← getRoot H.stdHash removalsMerkleSet
    return decide (root = removalsRoot)
  | some proofs =>
    if coins.length ≠ proofs.length then .ok false else removalsLoop H root coins proofs

/-- `request_and_validate_removals`, with the response of the peer. The name of the coin is in the request,
and is not used after that. -/
def requestAndValidateRemovals (response : RemovalsResponse) (removalsRoot : Bytes32) :
    Except Failure Bool :=
  match response with
  | .none => .ok false
  | .reject => .ok false
  | .respond coins proofs => do
    let _ ← check (proofs.isSome = true)
    validateRemovals H coins proofs removalsRoot

end Removals

/-! ## Additions -/

section Additions

variable (H : Hashes) (computeMerkleSetRoot : List Bytes32 → Bytes32)

/-- The answer to `request_additions`: nothing, a `RejectAdditionsRequest`, or the coins and proofs of a
`RespondAdditions`. -/
inductive AdditionsResponse
  | none
  | reject
  | respond (coins : List (Bytes32 × List Coin)) (proofs : Option (List (Bytes32 × Bytes × Option Bytes)))

/-- `except AssertionError: return False`. -/
def falseOnAssertion (x : Except Failure Bool) : Except Failure Bool :=
  match x with
  | .error (.raised .assertionError) => .ok false
  | x => x

/-- The inclusion proof of a value, which the response may lack. -/
def includedByProof (root value : Bytes32) (proof : Option Bytes) : Except Failure Bool :=
  falseOnAssertion (match proof with
    | none => .error (.raised .assertionError)
    | some proof => confirmIncludedAlreadyHashed H.stdHash root value proof)

/-- The checks of `validate_additions` on one puzzle hash with its coins, and its proofs. -/
def checkAddition (root : Bytes32) (e : Bytes32 × List Coin) (p : Bytes32 × Bytes × Option Bytes) :
    Except Failure Bool := do
  let _ ← check (e.1 = p.1)
  if e.2.length = 0 then confirmNotIncludedAlreadyHashed H.stdHash root e.1 p.2.1
  else do
    if (← includedByProof H root (hashCoinIds H (e.2.map H.coinName)) p.2.2) = false then return false
    else includedByProof H root e.1 (some p.2.1)

/-- The loop of `validate_additions` over coins and proofs. -/
def additionsLoop (root : Bytes32) :
    List (Bytes32 × List Coin) → List (Bytes32 × Bytes × Option Bytes) → Except Failure Bool
  | [], _ => .ok true
  | _ :: _, [] => .error (.raised .indexError)
  | e :: coins, p :: proofs => do
    if (← checkAddition H root e p) = false then return false else additionsLoop root coins proofs

/-- The items of the Merkle set that a response without proofs describes. -/
def responseMerkleItems (coins : List (Bytes32 × List Coin)) : List Bytes32 :=
  coins.flatMap fun e => [e.1, hashCoinIds H (e.2.map H.coinName)]

/-- `validate_additions`. -/
def validateAdditions (coins : List (Bytes32 × List Coin))
    (proofs : Option (List (Bytes32 × Bytes × Option Bytes))) (root : Bytes32) : Except Failure Bool :=
  match proofs with
  | none => .ok (decide (root = computeMerkleSetRoot (responseMerkleItems H coins)))
  | some proofs => additionsLoop H root coins proofs

/-- `request_and_validate_additions`, with the response of the peer. The puzzle hash is in the request, and is
not used after that. -/
def requestAndValidateAdditions (response : AdditionsResponse) (additionsRoot : Bytes32) :
    Except Failure Bool :=
  match response with
  | .none => .ok false
  | .reject => .ok false
  | .respond coins proofs => validateAdditions H computeMerkleSetRoot coins proofs additionsRoot

end Additions

/-! ## Hashes that do not collide -/

section Hashes

variable {sha256 : Bytes → Bytes32} {M : Set Bytes} {values : List Bytes32} {root v : Bytes32} {proof : Bytes}

/-- SHA-256 does not collide on the messages, and does not give 32 zero bytes for one. -/
structure HashesApart (sha256 : Bytes → Bytes32) (M : Set Bytes) : Prop where
  injOn : Set.InjOn sha256 M
  ne_blank : ∀ m ∈ M, sha256 m ≠ BLANK

/-- A Merkle set with its root, which was built by hashing messages of the given set. -/
structure RootOf (sha256 : Bytes → Bytes32) (M : Set Bytes) (values : List Bytes32) (root : Bytes32) : Prop where
  root_eq : (addAll sha256 values >>= getRoot sha256) = .ok root
  hashed : ∀ m ∈ hashedFor sha256 values, m ∈ M

lemma HashesApart.collisionFree (h : HashesApart sha256 M) {msgs : List Bytes} (hmsgs : ∀ m ∈ msgs, m ∈ M) :
    CollisionFree sha256 msgs :=
  ⟨fun m hm m' hm' heq => h.injOn (hmsgs m hm) (hmsgs m' hm') heq, fun m hm => h.ne_blank m (hmsgs m hm)⟩

/-- **Proofs against a root.** A proof that is checked with messages of the set is accepted for right answers
only. -/
lemma RootOf.of_confirm (hroot : RootOf sha256 M values root) (hM : HashesApart sha256 M)
    (hproof : ∀ m ∈ proofMessages sha256 proof, m ∈ M) {expected : Bool}
    (h : confirm sha256 root v proof expected = .ok true) : expected = true ↔ v ∈ values := by
  obtain ⟨t, ht, htrie, hleaves⟩ := exists_addAll sha256 values
  have hget : getRoot sha256 t = .ok root := by
    have := hroot.root_eq
    rwa [ht, ok_bind] at this
  have hfree : CollisionFree sha256 (rootMessages t ++ proofMessages sha256 proof) := by
    refine hM.collisionFree fun m hm => ?_
    rcases List.mem_append.mp hm with hm | hm
    · exact hroot.hashed m (by rwa [hashedFor_eq ht])
    · exact hproof m hm
  rw [htrie.of_confirm hget hfree h, hleaves]

lemma RootOf.exists_confirm (hroot : RootOf sha256 M values root) (v : Bytes32) (expected : Bool)
    (hexpected : expected = true ↔ v ∈ values) :
    ∃ proof, (∀ m ∈ proofMessages sha256 proof, m ∈ M) ∧
      confirm sha256 root v proof expected = .ok true := by
  obtain ⟨t, ht, htrie, hleaves⟩ := exists_addAll sha256 values
  have hget : getRoot sha256 t = .ok root := by
    have := hroot.root_eq
    rwa [ht, ok_bind] at this
  obtain ⟨r, proof, hr⟩ := htrie.exists_isIncluded v
  have hanswer : r = true ↔ expected = true := by
    rw [hexpected, ← hleaves, htrie.built.isIncluded_iff (fun i w hi => by simp at hi) hr]
  refine ⟨proof, fun m hm => hroot.hashed m ?_, ?_⟩
  · rw [hashedFor_eq ht]
    exact htrie.proofMessages_sub hr m hm
  · rw [htrie.confirm_isIncluded hget hr, Bool.eq_iff_iff.mpr hanswer]
    simp

end Hashes

lemma exists_forall₂ {α β : Type} {R : α → β → Prop} {l : List α} :
    (∃ l', List.Forall₂ R l l') ↔ ∀ a ∈ l, ∃ b, R a b := by
  induction l with
  | nil => simp
  | cons a l ih =>
    constructor
    · rintro ⟨l', hl'⟩
      cases hl' with
      | @cons _ b _ l' hab hl' =>
        intro x hx
        rcases List.mem_cons.mp hx with rfl | hx
        · exact ⟨b, hab⟩
        · exact ih.mp ⟨l', hl'⟩ x hx
    · intro h
      obtain ⟨b, hb⟩ := h a List.mem_cons_self
      obtain ⟨l', hl'⟩ := ih.mpr fun x hx => h x (List.mem_cons_of_mem _ hx)
      exact ⟨b :: l', .cons hb hl'⟩

/-! ## What a peer can have validated: removals -/

section RemovalsValidated

variable {H : Hashes} {M : Set Bytes} {S : List Bytes32} {root : Bytes32}

/-- An entry that is true of a set of removals: a coin with this name that is in the set, or no coin for a
name that is not. -/
def RemovalTrue (H : Hashes) (S : List Bytes32) (e : Bytes32 × Option Coin) : Prop :=
  match e.2 with
  | none => e.1 ∉ S
  | some coin => e.1 = H.coinName coin ∧ e.1 ∈ S

lemma guard_loop_eq_true {x loop : Except Failure Bool} :
    (do if (← x) = false then return false else loop) = .ok true ↔ x = .ok true ∧ loop = .ok true := by
  cases x with
  | error e => simp
  | ok b => cases b <;> simp

lemma removalsLoop_eq_true {coins : List (Bytes32 × Option Coin)} {proofs : List (Bytes32 × Bytes)}
    (hlen : coins.length = proofs.length) :
    removalsLoop H root coins proofs = .ok true ↔
      List.Forall₂ (fun e p => checkRemoval H root e p = .ok true) coins proofs := by
  induction coins generalizing proofs with
  | nil =>
    cases proofs with
    | nil => simp [removalsLoop]
    | cons p proofs => cases hlen
  | cons e coins ih =>
    cases proofs with
    | nil => cases hlen
    | cons p proofs =>
      rw [List.forall₂_cons, ← ih (Nat.succ.inj hlen), removalsLoop]
      exact guard_loop_eq_true

variable {e : Bytes32 × Option Coin}

lemma checkRemoval_eq_true {p : Bytes32 × Bytes} :
    checkRemoval H root e p = .ok true ↔ e.1 = p.1 ∧ match e.2 with
      | none => confirm H.stdHash root e.1 p.2 false = .ok true
      | some coin => e.1 = H.coinName coin ∧ confirm H.stdHash root e.1 p.2 true = .ok true := by
  obtain ⟨name, coin⟩ := e
  unfold checkRemoval
  by_cases hname : name = p.1
  · rw [if_neg (not_not.mpr hname)]
    cases coin with
    | none => simp [hname, confirmNotIncludedAlreadyHashed]
    | some coin =>
      by_cases hcoin : name = H.coinName coin
      · simp [← hcoin, hname, confirmIncludedAlreadyHashed]
      · simp [hcoin]
  · simp [hname]

lemma removalTrue_of_check {p : Bytes32 × Bytes} (h : checkRemoval H root e p = .ok true)
    (hroot : RootOf H.stdHash M S root) (hM : HashesApart H.stdHash M)
    (hp : ∀ m ∈ proofMessages H.stdHash p.2, m ∈ M) : RemovalTrue H S e := by
  obtain ⟨name, coin⟩ := e
  obtain ⟨-, h⟩ := checkRemoval_eq_true.mp h
  cases coin with
  | none =>
    intro hmem
    exact absurd ((hroot.of_confirm hM hp h).mpr hmem) Bool.false_ne_true
  | some coin => exact ⟨h.1, (hroot.of_confirm hM hp h.2).mp rfl⟩

lemma RemovalTrue.exists_check (h : RemovalTrue H S e) (hroot : RootOf H.stdHash M S root) :
    ∃ p : Bytes32 × Bytes, checkRemoval H root e p = .ok true ∧
      ∀ m ∈ proofMessages H.stdHash p.2, m ∈ M := by
  obtain ⟨name, coin⟩ := e
  cases coin with
  | none =>
    have hnot : name ∉ S := h
    obtain ⟨proof, hproof, hconfirm⟩ := hroot.exists_confirm name false (by simpa using hnot)
    exact ⟨(name, proof), checkRemoval_eq_true.mpr ⟨rfl, hconfirm⟩, hproof⟩
  | some coin =>
    obtain ⟨proof, hproof, hconfirm⟩ := hroot.exists_confirm name true (by simpa using h.2)
    exact ⟨(name, proof), checkRemoval_eq_true.mpr ⟨rfl, h.1, hconfirm⟩, hproof⟩

/-- The proofs of a response are checked with messages of the set. -/
def RemovalProofsIn (H : Hashes) (M : Set Bytes) (proofs : Option (List (Bytes32 × Bytes))) : Prop :=
  ∀ l, proofs = some l → ∀ p ∈ l, ∀ m ∈ proofMessages H.stdHash p.2, m ∈ M

/-- Which entries a peer can have validated: exactly the true ones, whatever was asked. -/
lemma exists_validated_removals (hroot : RootOf H.stdHash M S root) (hM : HashesApart H.stdHash M)
    (coins : List (Bytes32 × Option Coin)) :
    (∃ proofs, RemovalProofsIn H M proofs ∧
      requestAndValidateRemovals H (.respond coins proofs) root = .ok true) ↔
        ∀ e ∈ coins, RemovalTrue H S e := by
  constructor
  · rintro ⟨proofs, hin, h⟩
    cases proofs with
    | none => cases h
    | some proofs =>
      have hloop : validateRemovals H coins (some proofs) root = .ok true := h
      rw [validateRemovals] at hloop
      by_cases hlen : coins.length = proofs.length
      · rw [if_neg (not_not.mpr hlen), removalsLoop_eq_true hlen] at hloop
        intro e he
        obtain ⟨i, hi⟩ := List.mem_iff_getElem?.mp he
        obtain ⟨hi', hget⟩ := List.getElem?_eq_some_iff.mp hi
        have hshown := (List.forall₂_iff_get.mp hloop).2 i hi' (by omega)
        rw [List.get_eq_getElem, List.get_eq_getElem, hget] at hshown
        exact removalTrue_of_check hshown hroot hM fun m hm =>
          hin proofs rfl _ (List.getElem_mem (by omega)) m hm
      · rw [if_pos hlen] at hloop
        cases hloop
  · intro h
    obtain ⟨proofs, hproofs⟩ := exists_forall₂.mpr fun e he => (h e he).exists_check hroot
    refine ⟨some proofs, ?_, ?_⟩
    · rintro l hl p hp m hm
      obtain rfl := Option.some.inj hl
      obtain ⟨i, hi, rfl⟩ := List.mem_iff_getElem.mp hp
      have hlen := hproofs.length_eq
      exact ((List.forall₂_iff_get.mp hproofs).2 i (by omega) hi).2 m hm
    · show validateRemovals H coins (some proofs) root = .ok true
      rw [validateRemovals, if_neg (not_not.mpr hproofs.length_eq), removalsLoop_eq_true hproofs.length_eq]
      exact hproofs.imp fun _ _ hp => hp.1

/-- **When a validated removal answers the question.** The coin that was asked for is spent, whatever the
proofs are, exactly if it is spent or the response has an entry that is not true. In particular, a response
that lists the coin itself is only validated if the coin is spent, but one that lists nothing, or other coins,
or that the coin was not spent, is validated as well. -/
theorem validated_removal_iff (hroot : RootOf H.stdHash M S root) (hM : HashesApart H.stdHash M)
    (coins : List (Bytes32 × Option Coin)) (coinName : Bytes32) :
    (∀ proofs, RemovalProofsIn H M proofs →
      requestAndValidateRemovals H (.respond coins proofs) root = .ok true → coinName ∈ S) ↔
        coinName ∈ S ∨ ∃ e ∈ coins, ¬RemovalTrue H S e := by
  have hshown := exists_validated_removals hroot hM coins
  constructor
  · intro h
    by_cases htrue : ∀ e ∈ coins, RemovalTrue H S e
    · obtain ⟨proofs, hin, hvalid⟩ := hshown.mpr htrue
      exact .inl (h proofs hin hvalid)
    · right
      simpa only [not_forall, exists_prop] using htrue
  · rintro (hmem | ⟨e, he, hfalse⟩) proofs hin hvalid
    · exact hmem
    · exact absurd (hshown.mp ⟨proofs, hin, hvalid⟩ e he) hfalse

/-! ### Samples -/

/-- Hashes for tests. -/
def syncHashes : Hashes where
  challengeBlockInfo _ := Bytes32.zero
  challengeChainSubSlot _ := Bytes32.zero
  infusedChallengeChainSubSlot _ := Bytes32.zero
  rewardChainSubSlot _ := Bytes32.zero
  subEpochSummary _ := Bytes32.zero
  rewardChainBlock _ := Bytes32.zero
  rewardChainBlockUnfinished _ := Bytes32.zero
  transactionsInfo _ := Bytes32.zero
  foliageTransactionBlock _ := Bytes32.zero
  foliageBlockData _ := Bytes32.zero
  foliage _ := Bytes32.zero
  vdfOutput _ := Bytes32.zero
  coinName c := testHash (c.parentCoinInfo.bytes ++ (c.puzzleHash.bytes ++ [UInt8.ofNat c.amount]))
  stdHash := testHash

/-- The root of the Merkle set of some values. -/
def rootFor (sha256 : Bytes → Bytes32) (values : List Bytes32) : Bytes32 :=
  match addAll sha256 values >>= getRoot sha256 with
  | .ok root => root
  | .error _ => BLANK

lemma rootFor_eq (sha256 : Bytes → Bytes32) (values : List Bytes32) :
    (addAll sha256 values >>= getRoot sha256) = .ok (rootFor sha256 values) := by
  obtain ⟨t, ht, htrie, -⟩ := exists_addAll sha256 values
  obtain ⟨root, hroot⟩ := htrie.exists_getRoot
  rw [rootFor, ht, ok_bind, hroot]

lemma rootOf_hashedFor (sha256 : Bytes → Bytes32) (values : List Bytes32) :
    RootOf sha256 {m | m ∈ hashedFor sha256 values} values (rootFor sha256 values) :=
  ⟨rootFor_eq sha256 values, fun _ hm => hm⟩

lemma hashesApart_twoValues : HashesApart testHash {m | m ∈ hashedFor testHash twoValues} := by
  have hfree : CollisionFree testHash (hashedFor testHash twoValues) := by decide +kernel
  exact ⟨fun m hm m' hm' heq => hfree.1 m hm m' hm' heq, hfree.2⟩

/-- No proofs are validated with a response that denies a spent coin. -/
theorem validated_removal_iff_twoValues :
    ¬∃ proofs, RemovalProofsIn syncHashes {m | m ∈ hashedFor testHash twoValues} proofs ∧
      requestAndValidateRemovals syncHashes (.respond [(valueOf 0x60, none)] proofs)
        (rootFor testHash twoValues) = .ok true := by
  rintro ⟨proofs, hin, hvalid⟩
  have hfalse : ¬RemovalTrue syncHashes twoValues (valueOf 0x60, none) :=
    not_not.mpr (show valueOf 0x60 ∈ twoValues by decide +kernel)
  have hmem := (validated_removal_iff (H := syncHashes) (rootOf_hashedFor testHash twoValues)
    hashesApart_twoValues [(valueOf 0x60, none)] (valueOf 0xc0)).mpr
      (.inr ⟨_, List.mem_singleton_self _, hfalse⟩) proofs hin hvalid
  exact absurd hmem (by decide +kernel)

/-- **A validated removal may answer another question.** The empty response is validated for every coin. -/
theorem not_validated_removal :
    ¬∀ (H : Hashes) (M : Set Bytes) (S : List Bytes32) (root coinName : Bytes32)
      (coins : List (Bytes32 × Option Coin)) (proofs : Option (List (Bytes32 × Bytes))),
      RootOf H.stdHash M S root → HashesApart H.stdHash M → RemovalProofsIn H M proofs →
        requestAndValidateRemovals H (.respond coins proofs) root = .ok true → coinName ∈ S := by
  intro h
  have hmem := h syncHashes {m | m ∈ hashedFor testHash twoValues} twoValues (rootFor testHash twoValues)
    (valueOf 0xc0) [] (some []) (rootOf_hashedFor testHash twoValues) hashesApart_twoValues
    (fun l hl p hp => by
      obtain rfl := Option.some.inj hl
      cases hp) rfl
  exact absurd hmem (by decide +kernel)

end RemovalsValidated

/-! ## What a peer can have validated: additions -/

section AdditionsValidated

variable {H : Hashes} {computeMerkleSetRoot : List Bytes32 → Bytes32} {M : Set Bytes} {A : List Coin}
  {root : Bytes32}

/-- An entry of a response that lists exactly the coins of the block with its puzzle hash. -/
def AdditionExact (A : List Coin) (e : Bytes32 × List Coin) : Prop :=
  e.2.Perm (A.filter fun c => decide (c.puzzleHash = e.1))

/-- An entry for which there are proofs: without coins, its puzzle hash is not in the Merkle set; with coins,
both its puzzle hash and the hash of the coins are, which need not belong together. -/
def AdditionShowable (H : Hashes) (A : List Coin) (e : Bytes32 × List Coin) : Prop :=
  if e.2 = [] then e.1 ∉ additionsMerkleItems H A
  else hashCoinIds H (e.2.map H.coinName) ∈ additionsMerkleItems H A ∧ e.1 ∈ additionsMerkleItems H A

/-- The proofs of a response, or the set that it describes without proofs, are checked with messages of the
set. Proofs after the last entry are not read. -/
def AdditionProofsIn (H : Hashes) (M : Set Bytes) (coins : List (Bytes32 × List Coin))
    (proofs : Option (List (Bytes32 × Bytes × Option Bytes))) : Prop :=
  match proofs with
  | none => ∀ m ∈ hashedFor H.stdHash (responseMerkleItems H coins), m ∈ M
  | some l => ∀ p ∈ l.take coins.length, (∀ m ∈ proofMessages H.stdHash p.2.1, m ∈ M) ∧
      ∀ q, p.2.2 = some q → ∀ m ∈ proofMessages H.stdHash q, m ∈ M

lemma additionsLoop_eq_true {coins : List (Bytes32 × List Coin)}
    {proofs : List (Bytes32 × Bytes × Option Bytes)} :
    additionsLoop H root coins proofs = .ok true ↔
      List.Forall₂ (fun e p => checkAddition H root e p = .ok true) coins (proofs.take coins.length) := by
  induction coins generalizing proofs with
  | nil => simp [additionsLoop]
  | cons e coins ih =>
    cases proofs with
    | nil => simp [additionsLoop]
    | cons p proofs =>
      rw [List.length_cons, List.take_succ_cons, List.forall₂_cons, ← ih, additionsLoop]
      exact guard_loop_eq_true

lemma includedByProof_eq_true {value : Bytes32} {proof : Option Bytes} :
    includedByProof H root value proof = .ok true ↔
      ∃ q, proof = some q ∧ confirm H.stdHash root value q true = .ok true := by
  cases proof with
  | none => simp [includedByProof, falseOnAssertion]
  | some q =>
    simp only [includedByProof, falseOnAssertion, confirmIncludedAlreadyHashed, Option.some.injEq,
      exists_eq_left']
    split
    · rename_i h
      simp [h]
    · rfl

variable {e : Bytes32 × List Coin}

lemma checkAddition_eq_true {p : Bytes32 × Bytes × Option Bytes} :
    checkAddition H root e p = .ok true ↔ e.1 = p.1 ∧
      if e.2 = [] then confirm H.stdHash root e.1 p.2.1 false = .ok true
      else (∃ q, p.2.2 = some q ∧
          confirm H.stdHash root (hashCoinIds H (e.2.map H.coinName)) q true = .ok true) ∧
        confirm H.stdHash root e.1 p.2.1 true = .ok true := by
  unfold checkAddition check
  by_cases hname : e.1 = p.1
  · rw [if_pos hname, ok_bind]
    by_cases hnil : e.2 = []
    · rw [if_pos (by rw [hnil]; rfl), if_pos hnil, and_iff_right hname]
      rfl
    · rw [if_neg (by simpa using hnil), if_neg hnil, guard_loop_eq_true, includedByProof_eq_true,
        includedByProof_eq_true, and_iff_right hname]
      simp
  · simp [hname]

lemma additionShowable_of_check {p : Bytes32 × Bytes × Option Bytes} (h : checkAddition H root e p = .ok true)
    (hroot : RootOf H.stdHash M (additionsMerkleItems H A) root) (hM : HashesApart H.stdHash M)
    (hp : ∀ m ∈ proofMessages H.stdHash p.2.1, m ∈ M)
    (hq : ∀ q, p.2.2 = some q → ∀ m ∈ proofMessages H.stdHash q, m ∈ M) : AdditionShowable H A e := by
  obtain ⟨-, h⟩ := checkAddition_eq_true.mp h
  unfold AdditionShowable
  by_cases hnil : e.2 = []
  · rw [if_pos hnil] at h ⊢
    intro hmem
    exact absurd ((hroot.of_confirm hM hp h).mpr hmem) Bool.false_ne_true
  · rw [if_neg hnil] at h ⊢
    obtain ⟨⟨q, hq', hlist⟩, hpuzzle⟩ := h
    exact ⟨(hroot.of_confirm hM (hq q hq') hlist).mp rfl, (hroot.of_confirm hM hp hpuzzle).mp rfl⟩

lemma AdditionShowable.exists_check (h : AdditionShowable H A e)
    (hroot : RootOf H.stdHash M (additionsMerkleItems H A) root) :
    ∃ p : Bytes32 × Bytes × Option Bytes, checkAddition H root e p = .ok true ∧
      (∀ m ∈ proofMessages H.stdHash p.2.1, m ∈ M) ∧
        ∀ q, p.2.2 = some q → ∀ m ∈ proofMessages H.stdHash q, m ∈ M := by
  unfold AdditionShowable at h
  by_cases hnil : e.2 = []
  · rw [if_pos hnil] at h
    obtain ⟨proof, hproof, hconfirm⟩ := hroot.exists_confirm e.1 false (by simpa using h)
    refine ⟨(e.1, proof, none), checkAddition_eq_true.mpr ⟨rfl, ?_⟩, hproof, nofun⟩
    rw [if_pos hnil]
    exact hconfirm
  · rw [if_neg hnil] at h
    obtain ⟨q, hq, hlist⟩ := hroot.exists_confirm _ true (by simpa using h.1)
    obtain ⟨proof, hproof, hpuzzle⟩ := hroot.exists_confirm e.1 true (by simpa using h.2)
    refine ⟨(e.1, proof, some q), checkAddition_eq_true.mpr ⟨rfl, ?_⟩, hproof, fun q' hq' => ?_⟩
    · rw [if_neg hnil]
      exact ⟨⟨q, rfl, hlist⟩, hpuzzle⟩
    · obtain rfl := Option.some.inj hq'
      exact hq

lemma hashedFor_congr (sha256 : Bytes → Bytes32) {xs ys : List Bytes32} (h : ∀ x, x ∈ xs ↔ x ∈ ys) :
    addAll sha256 xs = addAll sha256 ys := by
  obtain ⟨nx, hnx, htx, hleavesx⟩ := exists_addAll sha256 xs
  obtain ⟨ny, hny, hty, hleavesy⟩ := exists_addAll sha256 ys
  rw [hnx, hny, htx.eq_of_leaves hty fun a => by rw [hleavesx, hleavesy, h]]

lemma RootOf.mem_iff {sha256 : Bytes → Bytes32} {xs ys : List Bytes32} (hx : RootOf sha256 M xs root)
    (hy : RootOf sha256 M ys root) (hM : HashesApart sha256 M) (x : Bytes32) : x ∈ xs ↔ x ∈ ys := by
  obtain ⟨nx, hnx, hrootx⟩ := bind_eq_ok.mp hx.root_eq
  obtain ⟨ny, hny, hrooty⟩ := bind_eq_ok.mp hy.root_eq
  refine mem_iff_of_getRoot hnx hny hrootx hrooty (hM.collisionFree fun m hm => ?_) x
  rcases List.mem_append.mp hm with hm | hm
  · exact hy.hashed m (by rwa [hashedFor_eq hny])
  · exact hx.hashed m (by rwa [hashedFor_eq hnx])

/-- Which entries a peer can have validated: those that can be shown one by one, or that together describe
the Merkle set of the block, whatever was asked. -/
lemma exists_validated_additions
    (hcompute : ∀ items, (addAll H.stdHash items >>= getRoot H.stdHash) = .ok (computeMerkleSetRoot items))
    (hroot : RootOf H.stdHash M (additionsMerkleItems H A) root) (hM : HashesApart H.stdHash M)
    (coins : List (Bytes32 × List Coin)) :
    (∃ proofs, AdditionProofsIn H M coins proofs ∧
      requestAndValidateAdditions H computeMerkleSetRoot (.respond coins proofs) root = .ok true) ↔
        (∀ e ∈ coins, AdditionShowable H A e) ∨
          ∀ x, x ∈ additionsMerkleItems H A ↔ x ∈ responseMerkleItems H coins := by
  constructor
  · rintro ⟨proofs, hin, h⟩
    cases proofs with
    | none =>
      right
      have heq : root = computeMerkleSetRoot (responseMerkleItems H coins) :=
        of_decide_eq_true (Except.ok.inj h)
      exact hroot.mem_iff ⟨by rw [heq]; exact hcompute _, hin⟩ hM
    | some proofs =>
      left
      have hloop := additionsLoop_eq_true.mp (show additionsLoop H root coins proofs = .ok true from h)
      intro e he
      obtain ⟨i, hi⟩ := List.mem_iff_getElem?.mp he
      obtain ⟨hi', hget⟩ := List.getElem?_eq_some_iff.mp hi
      have hlen := hloop.length_eq
      have hshown := (List.forall₂_iff_get.mp hloop).2 i hi' (by omega)
      rw [List.get_eq_getElem, List.get_eq_getElem, hget] at hshown
      obtain ⟨hp, hq⟩ := hin _ (List.getElem_mem (show i < (proofs.take coins.length).length by omega))
      exact additionShowable_of_check hshown hroot hM hp hq
  · rintro (h | h)
    · obtain ⟨proofs, hproofs⟩ := exists_forall₂.mpr fun e he => (h e he).exists_check hroot
      have hlen := hproofs.length_eq
      have htake : proofs.take coins.length = proofs := List.take_of_length_le hlen.ge
      refine ⟨some proofs, ?_, ?_⟩
      · intro p hp
        rw [htake] at hp
        obtain ⟨i, hi, rfl⟩ := List.mem_iff_getElem.mp hp
        exact ((List.forall₂_iff_get.mp hproofs).2 i (by omega) hi).2
      · show additionsLoop H root coins proofs = .ok true
        rw [additionsLoop_eq_true, htake]
        exact hproofs.imp fun _ _ hp => hp.1
    · have hsame := hashedFor_congr H.stdHash h
      refine ⟨none, fun m hm => hroot.hashed m ?_, ?_⟩
      · rw [hashedFor, hsame]
        exact hm
      · have heq : root = computeMerkleSetRoot (responseMerkleItems H coins) := by
          have hresponse := hcompute (responseMerkleItems H coins)
          rw [← hsame, hroot.root_eq] at hresponse
          exact Except.ok.inj hresponse
        exact congrArg Except.ok (decide_eq_true heq)

/-- **When validated additions are those of the block.** Whatever the proofs are, the entries are the coins of
the block and one is for the puzzle hash that was asked for, exactly if they are, or if an entry cannot be
shown and the entries do not describe the Merkle set of the block. -/
theorem validated_additions_iff
    (hcompute : ∀ items, (addAll H.stdHash items >>= getRoot H.stdHash) = .ok (computeMerkleSetRoot items))
    (hroot : RootOf H.stdHash M (additionsMerkleItems H A) root) (hM : HashesApart H.stdHash M)
    (coins : List (Bytes32 × List Coin)) (puzzleHash : Bytes32) :
    (∀ proofs, AdditionProofsIn H M coins proofs →
      requestAndValidateAdditions H computeMerkleSetRoot (.respond coins proofs) root = .ok true →
        (∃ coinList, (puzzleHash, coinList) ∈ coins) ∧ ∀ e ∈ coins, AdditionExact A e) ↔
      ((∃ coinList, (puzzleHash, coinList) ∈ coins) ∧ ∀ e ∈ coins, AdditionExact A e) ∨
        ((∃ e ∈ coins, ¬AdditionShowable H A e) ∧
          ∃ x, ¬(x ∈ additionsMerkleItems H A ↔ x ∈ responseMerkleItems H coins)) := by
  have hshown := exists_validated_additions hcompute hroot hM coins
  constructor
  · intro h
    by_cases hex : ∃ proofs, AdditionProofsIn H M coins proofs ∧
        requestAndValidateAdditions H computeMerkleSetRoot (.respond coins proofs) root = .ok true
    · obtain ⟨proofs, hin, hvalid⟩ := hex
      exact .inl (h proofs hin hvalid)
    · right
      have hnot := mt hshown.mpr hex
      simpa only [not_or, not_forall, exists_prop] using hnot
  · rintro (hexact | ⟨⟨e, he, hnot⟩, x, hx⟩) proofs hin hvalid
    · exact hexact
    · rcases hshown.mp ⟨proofs, hin, hvalid⟩ with hall | hsame
      · exact absurd (hall e he) hnot
      · exact absurd (hsame x) hx

/-! ### Samples -/

/-- Two coins with different puzzle hashes. -/
def twoAdditions : List Coin := [⟨valueOf 1, valueOf 0x20, 1⟩, ⟨valueOf 1, valueOf 0xa0, 2⟩]

/-- The proof that a set gives for a value that it has. -/
def additionProof (v : Bytes32) : Bytes :=
  proofFor testHash (additionsMerkleItems syncHashes twoAdditions) v

/-- The coins of one puzzle hash, given out as those of the other one. -/
def swappedCoins : List (Bytes32 × List Coin) := [(valueOf 0x20, [⟨valueOf 1, valueOf 0xa0, 2⟩])]

/-- Their proofs. -/
def swappedProofs : List (Bytes32 × Bytes × Option Bytes) :=
  [(valueOf 0x20, additionProof (valueOf 0x20), some (additionProof
    (hashCoinIds syncHashes [syncHashes.coinName ⟨valueOf 1, valueOf 0xa0, 2⟩])))]

lemma hashesApart_twoAdditions :
    HashesApart testHash {m | m ∈ hashedFor testHash (additionsMerkleItems syncHashes twoAdditions)} := by
  have hfree : CollisionFree testHash
      (hashedFor testHash (additionsMerkleItems syncHashes twoAdditions)) := by decide +kernel
  exact ⟨fun m hm m' hm' heq => hfree.1 m hm m' hm' heq, hfree.2⟩

/-- The right entry for one of the two puzzle hashes. -/
theorem validated_additions_iff_twoAdditions :
    AdditionExact twoAdditions (valueOf 0x20, [⟨valueOf 1, valueOf 0x20, 1⟩]) ∧
    ∀ proofs, AdditionProofsIn syncHashes
        {m | m ∈ hashedFor testHash (additionsMerkleItems syncHashes twoAdditions)}
        [(valueOf 0x20, [⟨valueOf 1, valueOf 0x20, 1⟩])] proofs →
      requestAndValidateAdditions syncHashes (rootFor testHash)
        (.respond [(valueOf 0x20, [⟨valueOf 1, valueOf 0x20, 1⟩])] proofs)
        (rootFor testHash (additionsMerkleItems syncHashes twoAdditions)) = .ok true →
        (∃ coinList, (valueOf 0x20, coinList) ∈
            ([(valueOf 0x20, [⟨valueOf 1, valueOf 0x20, 1⟩])] : List (Bytes32 × List Coin))) ∧
          ∀ e ∈ ([(valueOf 0x20, [⟨valueOf 1, valueOf 0x20, 1⟩])] : List (Bytes32 × List Coin)),
            AdditionExact twoAdditions e := by
  have hexact : AdditionExact twoAdditions (valueOf 0x20, [⟨valueOf 1, valueOf 0x20, 1⟩]) := by
    unfold AdditionExact
    decide +kernel
  refine ⟨hexact, (validated_additions_iff (H := syncHashes) (rootFor_eq testHash)
    (rootOf_hashedFor testHash _) hashesApart_twoAdditions _ (valueOf 0x20)).mpr
      (.inl ⟨⟨_, List.mem_singleton_self _⟩, ?_⟩)⟩
  intro e he
  rw [List.mem_singleton.mp he]
  exact hexact

/-- **Validated additions may be other coins.** The coins of one puzzle hash are validated as those of another
one. -/
theorem not_validated_additions :
    ¬∀ (H : Hashes) (computeMerkleSetRoot : List Bytes32 → Bytes32) (M : Set Bytes) (A : List Coin)
      (root puzzleHash : Bytes32) (coins : List (Bytes32 × List Coin))
      (proofs : Option (List (Bytes32 × Bytes × Option Bytes))),
      (∀ items, (addAll H.stdHash items >>= getRoot H.stdHash) = .ok (computeMerkleSetRoot items)) →
      RootOf H.stdHash M (additionsMerkleItems H A) root → HashesApart H.stdHash M →
      AdditionProofsIn H M coins proofs →
      requestAndValidateAdditions H computeMerkleSetRoot (.respond coins proofs) root = .ok true →
        (∃ coinList, (puzzleHash, coinList) ∈ coins) ∧ ∀ e ∈ coins, AdditionExact A e := by
  intro h
  have hin : ∀ p ∈ swappedProofs.take swappedCoins.length,
      (∀ m ∈ proofMessages testHash p.2.1,
        m ∈ hashedFor testHash (additionsMerkleItems syncHashes twoAdditions)) ∧
      ∀ q ∈ p.2.2, ∀ m ∈ proofMessages testHash q,
        m ∈ hashedFor testHash (additionsMerkleItems syncHashes twoAdditions) := by decide +kernel
  have hexact := (h syncHashes (rootFor testHash)
    {m | m ∈ hashedFor testHash (additionsMerkleItems syncHashes twoAdditions)} twoAdditions
    (rootFor testHash (additionsMerkleItems syncHashes twoAdditions)) (valueOf 0x20) swappedCoins
    (some swappedProofs) (rootFor_eq testHash) (rootOf_hashedFor testHash _) hashesApart_twoAdditions hin
    (by decide +kernel)).2 _ (List.mem_singleton_self _)
  unfold AdditionExact at hexact
  exact absurd hexact (by decide +kernel)

end AdditionsValidated

end Chives
