import Chives.Consensus.BlockChallenge

set_option autoImplicit false

/-!
# The challenge of a block in a wallet

`get_block_challenge` of `wallet/util/wallet_sync_utils.py` is a copy of the function of the same name in
`consensus/get_block_challenge.py`. It walks back along full blocks and not along block records, and it returns
the genesis challenge as soon as the walk comes to the genesis block, whatever that carries.

## Main definitions

* `WalletSync.getBlockChallenge` — `get_block_challenge` of the wallet.
* `HoldsBlocks` — a dictionary with all ancestors of a block.
* `GenesisBundleSought` — the challenge of the block is the hash of a bundle of the genesis block.

## Main results

* `sameChallenge_iff` — wallet and node compute the same challenge except for such a block.
-/

namespace Chives

open ExceptRun BlockRecords

/-! ## The wallet's function -/

namespace WalletSync

variable (H : Hashes) (constants : ConsensusConstants) (allBlocks : Dict Bytes32 FullBlock)

/-- The loop of `get_block_challenge`, with the challenge hashes found so far, newest first. -/
def challengeFrom (challengesToLookFor : ℕ) :
    ℕ → Option FullBlock → List Bytes32 → Except PyError (Option Bytes32)
  | 0, _, _ => .error .divergence
  | fuel + 1, curr, found =>
    if challengesToLookFor ≤ found.length then (pyIndex found (challengesToLookFor - 1)).map some
    else match curr with
      | none => .ok none
      | some curr =>
        let found := found ++ (curr.finishedSubSlots.map fun s => H.challengeChainSubSlot s.challengeChain).reverse
        if curr.height = 0 then .ok (some constants.GENESIS_CHALLENGE)
        else challengeFrom challengesToLookFor fuel (allBlocks.lookup curr.prevHeaderHash) found

/-- `get_block_challenge` of the wallet. -/
def getBlockChallenge (headerBlock : FullBlock) (genesisBlock overflow skipOverflowLastSsValidation : Bool) :
    Except PyError (Option Bytes32) :=
  match headerBlock.finishedSubSlots.getLast? with
  | some slot =>
    if overflow then
      if skipOverflowLastSsValidation then .ok (some (H.challengeChainSubSlot slot.challengeChain))
      else .ok (some slot.challengeChain.challengeChainEndOfSlotVdf.challenge)
    else .ok (some (H.challengeChainSubSlot slot.challengeChain))
  | none =>
    if genesisBlock then .ok (some constants.GENESIS_CHALLENGE)
    else
      let challengesToLookFor := if overflow then (if skipOverflowLastSsValidation then 1 else 2) else 1
      if headerBlock.height = 0 then .ok (some constants.GENESIS_CHALLENGE)
      else match allBlocks.lookup headerBlock.prevHeaderHash with
        | none => .ok none
        | some curr =>
          challengeFrom H constants allBlocks challengesToLookFor (allBlocks.keys.length + 1) (some curr) []

end WalletSync

/-! ## Chains of full blocks -/

section Chains

variable {H : Hashes} {V : Verifiers} {constants : ConsensusConstants} {blocks : BlockRecords}
  {allBlocks : Dict Bytes32 FullBlock} {es : List Entry} {e : Entry} {n : ℕ}

/-- The parent pointers of full blocks. -/
def fullBlockLinks (H : Hashes) : ParentTree.Links Bytes32 FullBlock :=
  ⟨FullBlock.headerHash H, FullBlock.prevHeaderHash, FullBlock.height⟩

/-- The dictionary holds each ancestor of the last block of a chain, under the hash that the block after it
names. -/
def HoldsBlocks (allBlocks : Dict Bytes32 FullBlock) (es : List Entry) : Prop :=
  ∀ a p e b, es = a ++ p :: e :: b → allBlocks.lookup e.1.prevHeaderHash = some p.1

lemma HoldsBlocks.path (hall : HoldsBlocks allBlocks (es ++ [e])) (h : AcceptedChain H V constants (es ++ [e])) :
    ParentTree.Path (fullBlockLinks H) allBlocks.lookup e.1 ((es ++ [e]).map Prod.fst) := by
  induction es using List.reverseRecOn generalizing e with
  | nil => exact .root (h.follows.genesis rfl).1
  | append_singleton init p ih =>
    rw [List.map_append, List.map_singleton]
    have hparent : AcceptedChain H V constants (init ++ [p]) := h.of_append (by simp)
    have hheight : e.1.height = p.1.height + 1 := by
      rw [← hparent.follows.height_eq]
      exact (h.follows.parent p (by simp)).1
    refine .step (hall init p e [] (by simp)) hheight (ih (fun a q x b heq => ?_) hparent)
    exact hall a q x (b ++ [e]) (by rw [heq]; simp)

/-- The wallet's walk finds the hash among the bundles of the blocks above the genesis block, or returns the
genesis challenge.

**Proof sketch.** Induction along the chain from its end, as for the walk of the node. -/
lemma WalletSync.challengeFrom_eq {x : FullBlock}
    (hpath : ParentTree.Path (fullBlockLinks H) allBlocks.lookup x (es.map Prod.fst)) (hn : 0 < n) {fuel : ℕ}
    (hfuel : es.length ≤ fuel) (found : List Bytes32) :
    WalletSync.challengeFrom H constants allBlocks n fuel (some x) found =
      .ok (some ((found ++ (slotChallenges H es.tail).reverse)[n - 1]?.getD constants.GENESIS_CHALLENGE)) := by
  induction es using List.reverseRecOn generalizing x fuel found with
  | nil => exact absurd rfl (ParentTree.Path.ne_nil hpath)
  | append_singleton init e ih =>
    rw [List.map_append, List.map_singleton] at hpath
    obtain rfl : e.1 = x := by
      have hlast := ParentTree.Path.getLast?_eq hpath
      rw [List.getLast?_concat] at hlast
      exact Option.some.inj hlast
    obtain ⟨fuel, rfl⟩ : ∃ k, fuel = k + 1 := by
      rw [List.length_append, List.length_singleton] at hfuel
      exact ⟨fuel - 1, by omega⟩
    rw [WalletSync.challengeFrom]
    by_cases henough : n ≤ found.length
    · have hlt : n - 1 < found.length := by omega
      rw [if_pos henough, List.getElem?_append_left hlt, pyIndex, List.getElem?_eq_getElem hlt]
      rfl
    rw [if_neg henough]
    dsimp only
    by_cases hheight : e.1.height = 0
    · have hlen := ParentTree.Path.length_eq hpath
      rw [List.length_append, List.length_map, show (fullBlockLinks H).height e.1 = 0 from hheight] at hlen
      obtain rfl := List.length_eq_zero_iff.mp (show init.length = 0 by simpa using hlen)
      have hnone : found[n - 1]? = none := List.getElem?_eq_none_iff.mpr (by omega)
      rw [if_pos hheight]
      simp [slotChallenges, hnone]
    · obtain ⟨q, l', hq, -, hpathQ, hl⟩ := ParentTree.Path.parent hpath hheight
      obtain rfl := (List.append_inj' hl rfl).1
      have hq : allBlocks.lookup e.1.prevHeaderHash = some q := hq
      have hne : init ≠ [] := by
        rintro rfl
        exact absurd rfl (ParentTree.Path.ne_nil hpathQ)
      rw [if_neg hheight, hq, ih hpathQ (by simpa using hfuel), List.tail_append_of_ne_nil hne]
      simp [slotChallenges]

/-- The wallet's challenge of a block without bundles. -/
lemma WalletSync.getBlockChallenge_eq {overflow skip : Bool} {g : Entry}
    (h : AcceptedChain H V constants (g :: es ++ [e])) (hall : HoldsBlocks allBlocks (g :: es ++ [e]))
    (hslots : e.1.finishedSubSlots = []) :
    WalletSync.getBlockChallenge H constants allBlocks e.1 false overflow skip =
      .ok (some ((slotChallenges H es).reverse[(if overflow && !skip then 2 else 1) - 1]?.getD
        constants.GENESIS_CHALLENGE)) := by
  have hpath := hall.path h
  have hheight : e.1.height ≠ 0 := by
    rw [(h.follows.parent _ (List.getLast?_eq_some_getLast (List.cons_ne_nil g es))).1]
    exact Nat.succ_ne_zero _
  rw [List.map_append, List.map_singleton] at hpath
  obtain ⟨p, l', hp, -, hpathP, hl⟩ := ParentTree.Path.parent hpath hheight
  obtain rfl := (List.append_inj' hl rfl).1
  have hp : allBlocks.lookup e.1.prevHeaderHash = some p := hp
  have hfuel : (g :: es).length ≤ allBlocks.keys.length + 1 := by
    have hlen := ParentTree.Path.length_eq hpathP
    have hle := ParentTree.Path.height_le_length (show ∀ k x, allBlocks.lookup k = some x → k ∈ allBlocks.keys from
      fun k x hk => AList.mem_keys.mp (AList.lookup_isSome.mp (Option.isSome_of_eq_some hk))) hpathP
    rw [List.length_map] at hlen
    omega
  have hcount : (if overflow = true then if skip = true then 1 else 2 else 1) =
      if (overflow && !skip) = true then 2 else 1 := by
    cases overflow <;> cases skip <;> rfl
  rw [WalletSync.getBlockChallenge, hslots]
  simp only [List.getLast?_nil, Bool.false_eq_true, if_false]
  rw [if_neg hheight, hp, hcount]
  dsimp only
  rw [WalletSync.challengeFrom_eq hpathP (by split <;> omega) hfuel]
  simp

end Chains

/-! ## Wallet and node -/

section Same

variable (H : Hashes) (constants : ConsensusConstants) (blocks : BlockRecords)
  (allBlocks : Dict Bytes32 FullBlock) (es : List Entry) (e : Entry) (genesisBlock overflow skip : Bool)

/-- The wallet's function returns the same challenge for the block as the node's, if that returns one. -/
def SameChallenge : Prop :=
  ∀ challenge, getBlockChallenge H constants e.1.finishedSubSlots e.1.prevHeaderHash blocks genesisBlock
      overflow skip = .ok challenge →
    WalletSync.getBlockChallenge H constants allBlocks e.1 genesisBlock overflow skip = .ok (some challenge)

/-- The challenge of a block on top of `es` that carries no bundle and is not taken for a genesis block is the
hash of a bundle of the genesis block, which is not the genesis challenge: the blocks above the genesis block
carry fewer bundles than are counted back, which are two for an overflow block whose last bundle is not left
out, and one otherwise. -/
def GenesisBundleSought : Prop :=
  let challengesToLookFor := if overflow && !skip then 2 else 1
  e.1.finishedSubSlots = [] ∧ genesisBlock = false ∧ ∃ g rest hash, es = g :: rest ∧
    (slotChallenges H rest).length < challengesToLookFor ∧
    (slotChallenges H es).reverse[challengesToLookFor - 1]? = some hash ∧ hash ≠ constants.GENESIS_CHALLENGE

variable {H constants blocks allBlocks es e genesisBlock overflow skip} {V : Verifiers}

lemma sameChallenge_of_slots (hslots : e.1.finishedSubSlots ≠ []) :
    SameChallenge H constants blocks allBlocks e genesisBlock overflow skip := by
  intro challenge hok
  obtain ⟨slot, hslot⟩ : ∃ slot, e.1.finishedSubSlots.getLast? = some slot :=
    ⟨_, List.getLast?_eq_some_getLast hslots⟩
  rw [getBlockChallenge, hslot] at hok
  rw [WalletSync.getBlockChallenge, hslot]
  cases overflow <;> cases skip <;> exact congrArg (Except.map some) hok

/-- The hashes at the same place, where the genesis challenge stands for what the genesis block has. -/
lemma sameHash_iff {g : Entry} {rest : List Entry} {n : ℕ} (hn : 0 < n) :
    (∀ challenge, pyIndex ((if g.1.finishedSubSlots = [] then [constants.GENESIS_CHALLENGE]
        else slotChallenges H [g]) ++ slotChallenges H rest).reverse (n - 1) = .ok challenge →
      (Except.ok (some ((slotChallenges H rest).reverse[n - 1]?.getD constants.GENESIS_CHALLENGE)) :
        Except PyError (Option Bytes32)) = .ok (some challenge)) ↔
    ¬∃ g' rest' hash, g :: rest = g' :: rest' ∧ (slotChallenges H rest').length < n ∧
      (slotChallenges H (g :: rest)).reverse[n - 1]? = some hash ∧ hash ≠ constants.GENESIS_CHALLENGE := by
  simp only [pyIndex_eq_ok, List.reverse_append]
  by_cases hlater : n - 1 < (slotChallenges H rest).reverse.length
  · -- the blocks above the genesis block carry enough bundles
    refine iff_of_true (fun challenge hfound => ?_) ?_
    · rw [List.getElem?_append_left hlater] at hfound
      rw [hfound, Option.getD_some]
    · rintro ⟨g', rest', hash, heq, hfew, -⟩
      obtain ⟨rfl, rfl⟩ := List.cons.inj heq
      rw [List.length_reverse] at hlater
      omega
  have hnone : (slotChallenges H rest).reverse[n - 1]? = none :=
    List.getElem?_eq_none_iff.mpr (by omega)
  rw [hnone, Option.getD_none]
  by_cases hnil : g.1.finishedSubSlots = []
  · rw [if_pos hnil]
    refine iff_of_true (fun challenge hfound => ?_) ?_
    · rw [List.getElem?_append_right (by omega)] at hfound
      rw [List.mem_singleton.mp (List.mem_reverse.mp (List.mem_of_getElem? hfound))]
    · rintro ⟨g', rest', hash, -, -, hhash, -⟩
      rw [@slotChallenges_cons H rest g, show slotChallenges H [g] = [] by simp [slotChallenges, hnil], List.nil_append, hnone] at hhash
      cases hhash
  · rw [if_neg hnil, @slotChallenges_cons H rest g, List.reverse_append]
    constructor
    · rintro hsame ⟨g', rest', hash, -, -, hhash, hne⟩
      exact hne (Option.some.inj (Except.ok.inj (hsame hash hhash))).symm
    · intro hnot challenge hfound
      by_contra hne
      rw [List.length_reverse] at hlater
      exact hnot ⟨g, rest, challenge, rfl, by omega, hfound, fun heq => hne (by rw [heq])⟩

/-- **Wallet and node compute the same challenge** of a block of an accepted chain, with the same flags and for
every set of full blocks with all its ancestors, exactly if the challenge is not the hash of a bundle of the
genesis block.

**Proof sketch.** Both walks collect the hashes of the bundles above the genesis block. If there are enough, they
take the same one. If not, the wallet returns the genesis challenge, and the node goes on in the record of the
genesis block, which holds the genesis challenge or the hashes of its bundles. -/
theorem sameChallenge_iff (h : AcceptedChain H V constants (es ++ [e]))
    (hrecords : AncestorsPresent blocks e.2 ((es ++ [e]).map Prod.snd)) (hall : HoldsBlocks allBlocks (es ++ [e])) :
    SameChallenge H constants blocks allBlocks e genesisBlock overflow skip ↔
      ¬GenesisBundleSought H constants es e genesisBlock overflow skip := by
  by_cases hslots : e.1.finishedSubSlots = []
  swap
  · exact iff_of_true (sameChallenge_of_slots hslots) fun hsought => hslots hsought.1
  cases genesisBlock with
  | true =>
    refine iff_of_true (fun challenge hok => ?_) fun hsought => absurd hsought.2.1 (by simp)
    rw [getBlockChallenge, hslots] at hok
    rw [WalletSync.getBlockChallenge, hslots, ← Except.ok.inj hok]
    rfl
  | false =>
    cases es with
    | nil =>
      refine iff_of_true (fun challenge hok => ?_) ?_
      · have hnone := hrecords.genesis e.2 rfl
        rw [h.follows.prevHash_eq] at hnone
        rw [getBlockChallenge, hslots] at hok
        simp only [List.getLast?_nil, Bool.false_eq_true, if_false] at hok
        rw [challengeOnTop, blockRecord, hnone] at hok
        cases hok
      · rintro ⟨-, -, g, rest, hash, hnil, -⟩
        cases hnil
    | cons g rest =>
      have haccepted : AcceptedChain H V constants (g :: rest) := h.of_append (by simp)
      have hheight : e.2.height ≠ 0 := by
        rw [h.follows.height_eq, (h.follows.parent _ (List.getLast?_eq_some_getLast (List.cons_ne_nil g rest))).1]
        exact Nat.succ_ne_zero _
      have hpath := hrecords.chain
      rw [List.map_append, List.map_singleton] at hpath
      obtain ⟨p, l', hp, -, hpathP, hl⟩ := ParentTree.Path.parent hpath hheight
      obtain rfl := (List.append_inj' hl rfl).1
      have hp : blocks.get e.1.prevHeaderHash = some p := by
        rw [← h.follows.prevHash_eq]
        exact hp
      rw [SameChallenge, WalletSync.getBlockChallenge_eq h hall hslots, getBlockChallenge, hslots]
      simp only [List.getLast?_nil, Bool.false_eq_true, if_false]
      rw [challengeOnTop_eq hp hpathP haccepted.genesis_hashes (by split <;> omega),
        haccepted.recordedChallenges_eq, GenesisBundleSought]
      simp only [hslots, true_and]
      generalize hcount : (if (overflow && !skip) = true then 2 else 1) = n
      have hn : 0 < n := by
        rw [← hcount]
        split <;> omega
      exact sameHash_iff hn

end Same

/-! ## A block on top of an overflow genesis block -/

section OnOverflowGenesis

/-- A block at the first signage point of the second sub slot, on top of the overflow genesis block. -/
def secondBlock : FullBlock :=
  let empty := emptyBlock 1 (Bytes32.ofNat 1) (Bytes32.ofNat 2) 0
  { empty with
    rewardChainBlock := { empty.rewardChainBlock with
      totalIters := 134217728 + 6291457
      challengeChainIpVdf := ⟨Bytes32.zero, 6291457, defaultElement⟩
      rewardChainIpVdf := ⟨Bytes32.zero, 4194304, defaultElement⟩
      infusedChallengeChainIpVdf := some ⟨Bytes32.zero, 4194304, defaultElement⟩ }
    infusedChallengeChainIpProof := some sampleProof
    foliage := { empty.foliage with
      foliageBlockData := { empty.foliage.foliageBlockData with
        communityRewardPuzzleHash := communityPuzzleHash defaultConstants 1 } } }

/-- The record of the block. -/
def secondRecord : BlockRecord :=
  headerBlockToSubBlockRecord sampleBlockchainTools.H defaultConstants 1 secondBlock
    defaultConstants.SUB_SLOT_ITERS_STARTING false 14 0 none

/-- The two blocks. -/
def secondChain : List Entry := [(overflowGenesis, overflowGenesisRecord), (secondBlock, secondRecord)]

lemma get_overflowGenesisCache :
    overflowGenesisCache.get secondBlock.prevHeaderHash = some overflowGenesisRecord := by
  decide +kernel

lemma acceptedChain_second : AcceptedChain sampleBlockchainTools.H sampleBlockchainTools.V defaultConstants
    secondChain :=
  @AcceptedChain.extend _ _ _ (blockCache overflowGenesisCache) secondBlock overflowGenesisRecord secondRecord
    [(overflowGenesis, overflowGenesisRecord)] acceptedChain_overflowGenesis ancestorsPresent_overflowGenesis
    get_overflowGenesisCache (by decide)
    ⟨fun _ => [], [], [], true, defaultConstants.SUB_SLOT_ITERS_STARTING, defaultConstants.DIFFICULTY_STARTING, 0,
      1, by decide +kernel, by decide +kernel, by decide +kernel⟩

lemma ancestorsPresent_second :
    AncestorsPresent overflowGenesisCache secondRecord (secondChain.map Prod.snd) where
  chain := .step (p := overflowGenesisRecord) get_overflowGenesisCache rfl ancestorsPresent_overflowGenesis.chain
  genesis g hg := ancestorsPresent_overflowGenesis.genesis g (by rw [← hg]; rfl)

lemma holdsBlocks_second : HoldsBlocks (Dict.ofItems [(Bytes32.ofNat 1, overflowGenesis)]) secondChain := by
  intro a p e b heq
  have hlen := congrArg List.length heq
  rw [List.length_append, show secondChain.length = 2 from rfl, List.length_cons, List.length_cons] at hlen
  obtain rfl := List.length_eq_zero_iff.mp (show a.length = 0 by omega)
  obtain ⟨hp, hrest⟩ := List.cons.inj heq
  rw [← hp, ← (List.cons.inj hrest).1]
  rfl

/-- Wallet and node agree on the challenge of the block exactly if it is not that of a bundle of the genesis
block. -/
theorem sameChallenge_iff_second :
    SameChallenge sampleBlockchainTools.H defaultConstants overflowGenesisCache
        (Dict.ofItems [(Bytes32.ofNat 1, overflowGenesis)]) (secondBlock, secondRecord) false false false ↔
      ¬GenesisBundleSought sampleBlockchainTools.H defaultConstants [(overflowGenesis, overflowGenesisRecord)]
        (secondBlock, secondRecord) false false false :=
  sameChallenge_iff acceptedChain_second ancestorsPresent_second holdsBlocks_second

/-- Wallet and node do not agree on the challenge of the block: the node returns the hash of the bundle of the
genesis block, the wallet the genesis challenge. -/
theorem second_not_same :
    AcceptedChain sampleBlockchainTools.H sampleBlockchainTools.V defaultConstants secondChain ∧
      AncestorsPresent overflowGenesisCache secondRecord (secondChain.map Prod.snd) ∧
      HoldsBlocks (Dict.ofItems [(Bytes32.ofNat 1, overflowGenesis)]) secondChain ∧
      getBlockChallenge sampleBlockchainTools.H defaultConstants secondBlock.finishedSubSlots
        secondBlock.prevHeaderHash overflowGenesisCache false false false = .ok Bytes32.zero ∧
      WalletSync.getBlockChallenge sampleBlockchainTools.H defaultConstants
        (Dict.ofItems [(Bytes32.ofNat 1, overflowGenesis)]) secondBlock false false false =
          .ok (some defaultConstants.GENESIS_CHALLENGE) ∧
      ¬SameChallenge sampleBlockchainTools.H defaultConstants overflowGenesisCache
        (Dict.ofItems [(Bytes32.ofNat 1, overflowGenesis)]) (secondBlock, secondRecord) false false false := by
  have hnode : getBlockChallenge sampleBlockchainTools.H defaultConstants secondBlock.finishedSubSlots
      secondBlock.prevHeaderHash overflowGenesisCache false false false = .ok Bytes32.zero := by decide +kernel
  have hwallet : WalletSync.getBlockChallenge sampleBlockchainTools.H defaultConstants
      (Dict.ofItems [(Bytes32.ofNat 1, overflowGenesis)]) secondBlock false false false =
        .ok (some defaultConstants.GENESIS_CHALLENGE) := by decide +kernel
  refine ⟨acceptedChain_second, ancestorsPresent_second, holdsBlocks_second, hnode, hwallet, fun hsame => ?_⟩
  have hok := hsame Bytes32.zero hnode
  rw [hwallet] at hok
  revert hok
  decide +kernel

end OnOverflowGenesis

end Chives
