import Mathlib.Data.List.TakeWhile
import Chives.Consensus.BlockRecords
import Chives.Consensus.BlockRewards
import Chives.Util.Err

set_option autoImplicit false

/-!
# Reward claims

A transaction block pays the previous transaction block, with that block's fees, and the blocks
between it and the transaction block before. The coins are built twice: by `create_foliage`
(`consensus/block_creation.py`) when a block is farmed and by step 5 of `validate_block_body`
(`consensus/block_body_validation.py`) when it is checked.

## Main definitions

* `communityPuzzleHash` — the community puzzle hash in force at a height.
* `claimedRewards`, `expectedRewardCoins` — the two constructions.
* `checkRewardClaims` — the comparison made by the validator.
* `RecordChain`, `paidBlocks` — a chain of block records, and the blocks that the
  block on top of it pays.
* `Collides` — two of the three coins of a paid block are the same coin.

## Main results

* `claimedRewards_eq`, `expectedRewardCoins_eq` — both build the coins of the paid
  blocks.
* `reward_coins_distinct_iff` — the reward coins of a chain are distinct exactly when no
  paid transaction block collides.
* `reward_coins_collide` — a chain on which the farmer coin and the community coin of a
  block are the same coin.
-/

namespace Chives

open ExceptRun ParentTree

/-! ## The two constructions -/

/-- The puzzle hash that `create_foliage`, `validate_block_body` and
`validate_finished_header_block` each set for the community from the height on at which the reward
split changes. -/
def masterNodePuzzleHash : Bytes32 :=
  Bytes32.ofNat 0x715def9fe21c793076f4e5d13b18326822103f26e459ec76e8b4850f38bddb3c

/-- The community puzzle hash in force at the height of the block that pays. -/
def communityPuzzleHash (constants : ConsensusConstants) (height : ℕ) : Bytes32 :=
  if height > masterNodeHeight then masterNodePuzzleHash
  else constants.GENESIS_PRE_FARM_COMMUNITY_PUZZLE_HASH

/-- The pool, farmer and community coin of a paid block, given the farmer's amount. -/
def coinsOfBlock (constants : ConsensusConstants) (community : Bytes32) (b : BlockRecord)
    (farmerAmount : ℕ) : List Coin :=
  [createPoolCoin b.height b.poolPuzzleHash (calculatePoolReward b.height)
      constants.GENESIS_CHALLENGE,
    createFarmerCoin b.height b.farmerPuzzleHash farmerAmount constants.GENESIS_CHALLENGE,
    createCommunityCoin b.height community (calculateBaseCommunityReward b.height)
      constants.GENESIS_CHALLENGE]

/-- The coins of the blocks that are paid without fees. -/
def coinsOfBlocks (constants : ConsensusConstants) (community : Bytes32)
    (passed : List BlockRecord) : List Coin :=
  passed.flatMap fun b => coinsOfBlock constants community b (calculateBaseFarmerReward b.height)

/-- `reward_claims_incorporated` as `create_foliage` builds it at the given height, on top of
`prevBlock` and with the previous transaction block that `get_prev_transaction_block` found. -/
def claimedRewards (constants : ConsensusConstants) (blocks : BlockRecords)
    (prevBlock prevTransactionBlock : BlockRecord) (height : ℕ) : Except PyError (List Coin) :=
  if height > 0 then do
    let community := communityPuzzleHash constants height
    let curr ← blocks.walkBack BlockRecord.isTransactionBlock prevBlock
    match curr.fees with
    | none => throw .assertionError
    | some fees =>
      let farmerAmount ← uint64 (calculateBaseFarmerReward curr.height + fees)
      let first := coinsOfBlock constants community curr farmerAmount
      if curr.headerHash ≠ prevTransactionBlock.headerHash then throw .assertionError
      else if curr.height > 0 then
        let curr ← blocks.blockRecord curr.prevHash
        let (passed, _) ← blocks.visit BlockRecord.isTransactionBlock curr
        return first ++ coinsOfBlocks constants community passed
      else return first
  else return []

/-- The coins that step 5 of `validate_block_body` adds to `expected_reward_coins`, in order, for a
block at the given height that names its previous transaction block. -/
def expectedRewardCoins (constants : ConsensusConstants) (blocks : BlockRecords)
    (prevTransactionBlockHash : Bytes32) (height : ℕ) : Except PyError (List Coin) :=
  if height > 0 then do
    let community := communityPuzzleHash constants height
    let prevTransactionBlock ← blocks.blockRecord prevTransactionBlockHash
    match prevTransactionBlock.fees with
    | none => throw .assertionError
    | some fees =>
      let farmerAmount ←
        uint64 (calculateBaseFarmerReward prevTransactionBlock.height + fees)
      let first := coinsOfBlock constants community prevTransactionBlock farmerAmount
      if prevTransactionBlock.height > 0 then
        let curr ← blocks.blockRecord prevTransactionBlock.prevHash
        let (passed, _) ← blocks.visit BlockRecord.isTransactionBlock curr
        return first ++ coinsOfBlocks constants community passed
      else return first
  else return []

/-- The comparison at the end of step 5: as sets, and then by the number of claims and the size of
the set. -/
def checkRewardClaims (claims expected : List Coin) : Option Err :=
  if ¬(claims ⊆ expected ∧ expected ⊆ claims) then some .invalidRewardCoins
  else if claims.length ≠ expected.dedup.length then some .invalidRewardCoins
  else none

lemma checkRewardClaims_eq_none {claims expected : List Coin} :
    checkRewardClaims claims expected = none ↔ claims.Perm expected.dedup := by
  unfold checkRewardClaims
  constructor
  · intro h
    split_ifs at h with hsub hlen
    obtain ⟨h₁, h₂⟩ := hsub
    have hperm : expected.dedup.Subperm claims :=
      (List.nodup_dedup expected).subperm fun x hx => h₂ (List.mem_dedup.mp hx)
    exact (hperm.perm_of_length_le (not_not.mp hlen).le).symm
  · intro h
    rw [if_neg, if_neg]
    · exact not_not.mpr h.length_eq
    · refine not_not.mpr ⟨fun x hx => ?_, fun x hx => ?_⟩
      · exact List.mem_dedup.mp (h.mem_iff.mp hx)
      · exact h.mem_iff.mpr (List.mem_dedup.mpr hx)

/-! ## Chains and the blocks they pay -/

/-- A chain of block records in a dictionary, as `block_to_block_record` makes them: genesis is a
transaction block, and transaction blocks have fees that fit in `uint64`. -/
structure RecordChain (blocks : BlockRecords) (tip : BlockRecord) (chain : List BlockRecord) :
    Prop where
  path : blocks.Chain tip chain
  stored : ∀ r ∈ chain, blocks.get r.headerHash = some r
  genesis : ∀ g, chain[0]? = some g → g.isTransactionBlock = true
  fees : ∀ r ∈ chain, r.isTransactionBlock = true → ∃ f, r.fees = some f ∧ f < 2 ^ 64
  height_lt : ∀ r ∈ chain, r.height < 2 ^ 32

/-- The blocks that the transaction block on top of a chain pays: the last transaction block, and
the blocks between it and the one before. -/
def paidBlocks (chain : List BlockRecord) : List BlockRecord :=
  match chain.reverse.dropWhile fun r => !r.isTransactionBlock with
  | [] => []
  | t :: rest => t :: rest.takeWhile fun r => !r.isTransactionBlock

lemma head_of_dropWhile {α : Type} {p : α → Bool} {l rest : List α} {t : α}
    (h : l.dropWhile p = t :: rest) : p t = false := by
  have hne : l.dropWhile p ≠ [] := by
    rw [h]
    exact List.cons_ne_nil _ _
  have hhead := List.head_dropWhile_not p hne
  simpa [h] using hhead

lemma eq_append_of_dropWhile_reverse {α : Type} {p : α → Bool} {l rest : List α} {t : α}
    (h : l.dropWhile p = t :: rest) :
    l.reverse = rest.reverse ++ t :: (l.takeWhile p).reverse := by
  have hsplit := List.takeWhile_append_dropWhile (p := p) (l := l)
  rw [h] at hsplit
  have hrev := congrArg List.reverse hsplit
  simpa using hrev.symm

variable {i : ℕ}

lemma RecordChain.take {blocks : BlockRecords} {tip x : BlockRecord} {chain : List BlockRecord}
    (hc : RecordChain blocks tip chain) (hx : chain[i]? = some x) :
    RecordChain blocks x (chain.take (i + 1)) where
  path := (hc.path.getElem hx).2
  stored r hr := hc.stored r (List.mem_of_mem_take hr)
  genesis g hg := hc.genesis g (by rwa [List.getElem?_take_of_lt (Nat.succ_pos i)] at hg)
  fees r hr := hc.fees r (List.mem_of_mem_take hr)
  height_lt r hr := hc.height_lt r (List.mem_of_mem_take hr)

/-- The blocks a chain pays, with what comes before and after them. -/
lemma RecordChain.paidBlocks_eq {blocks : BlockRecords} {tip : BlockRecord}
    {chain : List BlockRecord} (hc : RecordChain blocks tip chain) :
    ∃ t mid a b, paidBlocks chain = t :: mid ∧ chain = a ++ t :: b ∧
      t.isTransactionBlock = true ∧ (∀ y ∈ b, y.isTransactionBlock = false) ∧
      (∀ y ∈ mid, y.isTransactionBlock = false) ∧
      ((t.height = 0 ∧ mid = []) ∨
        (t.height ≠ 0 ∧ ∃ a' t₀, a = a' ++ t₀ :: mid.reverse ∧ t₀.isTransactionBlock = true)) := by
  obtain ⟨g, tail, rfl⟩ : ∃ g tail, chain = g :: tail := by
    have := hc.path.length_eq
    exact List.exists_cons_of_length_pos (by omega)
  have hg := hc.genesis g rfl
  have hmem : ∀ {l : List BlockRecord}, g ∈ l →
      ∃ t rest, l.dropWhile (fun r => !r.isTransactionBlock) = t :: rest := by
    intro l hl
    have hne : l.dropWhile (fun r => !r.isTransactionBlock) ≠ [] := by
      intro hnil
      have := List.dropWhile_eq_nil_iff.mp hnil g hl
      simp [hg] at this
    obtain ⟨t, rest, h⟩ := List.exists_cons_of_ne_nil hne
    exact ⟨t, rest, h⟩
  obtain ⟨t, rest, hdrop⟩ := hmem (l := (g :: tail).reverse) (by simp)
  have heq := eq_append_of_dropWhile_reverse hdrop
  rw [List.reverse_reverse] at heq
  have htx : t.isTransactionBlock = true := by simpa using head_of_dropWhile hdrop
  have hb : ∀ y ∈ ((g :: tail).reverse.takeWhile fun r => !r.isTransactionBlock).reverse,
      y.isTransactionBlock = false := by
    intro y hy
    simpa using List.mem_takeWhile_imp (List.mem_reverse.mp hy)
  have hmid : ∀ y ∈ rest.takeWhile fun r => !r.isTransactionBlock,
      y.isTransactionBlock = false := by
    intro y hy
    simpa using List.mem_takeWhile_imp hy
  refine ⟨t, rest.takeWhile fun r => !r.isTransactionBlock, rest.reverse, _, ?_, heq, htx, hb,
    hmid, ?_⟩
  · rw [paidBlocks, hdrop]
  · have hheight : t.height = rest.length := by
      have hget : (g :: tail)[rest.length]? = some t := by
        rw [heq, List.getElem?_append_right (by simp), List.length_reverse, Nat.sub_self]
        rfl
      exact (hc.path.getElem hget).1
    cases rest with
    | nil => exact .inl ⟨by simpa using hheight, rfl⟩
    | cons r₀ rs =>
      refine .inr ⟨by simp [hheight], ?_⟩
      -- genesis is among the blocks before `t`
      have hgrest : g ∈ r₀ :: rs := by
        have h0 := congrArg List.head? heq
        cases hrev : (r₀ :: rs).reverse with
        | nil => simp at hrev
        | cons z zs =>
          rw [hrev] at h0
          have hz : g = z := by simpa using h0
          rw [← List.mem_reverse, hrev, hz]
          exact List.mem_cons_self
      obtain ⟨t₀, rest₀, hdrop₀⟩ := hmem hgrest
      refine ⟨rest₀.reverse, t₀, ?_, ?_⟩
      · exact eq_append_of_dropWhile_reverse hdrop₀
      · simpa using head_of_dropWhile hdrop₀

/-- The coins of the blocks a chain pays: the farmer of the first of them, a transaction block, also
gets its fees. -/
def coinsOfPaid (constants : ConsensusConstants) (community : Bytes32) :
    List BlockRecord → List Coin
  | [] => []
  | t :: mid => coinsOfBlock constants community t
      (calculateBaseFarmerReward t.height + t.fees.getD 0) ++ coinsOfBlocks constants community mid

section Chain

variable {constants : ConsensusConstants} {blocks : BlockRecords} {tip : BlockRecord} {chain : List BlockRecord}
  {t : BlockRecord} {mid b : List BlockRecord}

variable {height : ℕ} {r : BlockRecord}

section

variable (hc : RecordChain blocks tip chain)

include hc

lemma visit_parent_of_paid {a : List BlockRecord} (heq : chain = a ++ t :: b)
    (hmid : ∀ y ∈ mid, y.isTransactionBlock = false) {a' : List BlockRecord} {t₀ : BlockRecord}
    (ha : a = a' ++ t₀ :: mid.reverse) (ht₀ : t₀.isTransactionBlock = true) :
    ∃ p, blocks.get t.prevHash = some p ∧
      blocks.visit BlockRecord.isTransactionBlock p = .ok (mid, t₀) := by
  have hlen : a.length = (a'.length + mid.length) + 1 := by
    rw [ha]
    simp
    omega
  have hget : chain[a.length]? = some t := by
    rw [heq, List.getElem?_append_right le_rfl, Nat.sub_self]
    rfl
  rw [hlen] at hget
  obtain ⟨p, hp, hstored⟩ := hc.path.getElem?_succ hget
  refine ⟨p, hstored, ?_⟩
  have hpath := (hc.path.getElem hp).2
  have htake : chain.take (a'.length + mid.length + 1) = a' ++ t₀ :: mid.reverse := by
    rw [heq, ← hlen, List.take_left, ha]
  rw [htake] at hpath
  rw [BlockRecords.visit_eq_ok hpath rfl ht₀ fun y hy => hmid y (List.mem_reverse.mp hy),
    List.reverse_reverse]

/-- `create_foliage` on top of a chain: it builds the coins of the blocks the chain pays, unless the
farmer's amount does not fit or it was given another previous transaction block. -/
lemma claimedRewards_run (prevTransactionBlock : BlockRecord) (hh : 0 < height)
    (hpaid : paidBlocks chain = t :: mid) :
    claimedRewards constants blocks tip prevTransactionBlock height = (do
      let farmerAmount ← uint64 (calculateBaseFarmerReward t.height + t.fees.getD 0 : ℕ)
      if t.headerHash ≠ prevTransactionBlock.headerHash then throw .assertionError
      else return coinsOfBlock constants (communityPuzzleHash constants height) t farmerAmount ++
        coinsOfBlocks constants (communityPuzzleHash constants height) mid) := by
  obtain ⟨t', mid', a, b, hpaid', heq, htx, hb, hmid, hcase⟩ := hc.paidBlocks_eq
  obtain ⟨rfl, rfl⟩ := List.cons.inj (hpaid.symm.trans hpaid')
  obtain ⟨f, hf, -⟩ := hc.fees t (by rw [heq]; simp) htx
  rw [claimedRewards, if_pos hh]
  simp only [BlockRecords.walkBack_eq_ok hc.path heq htx hb, ok_bind, hf, Option.getD_some,
    Nat.cast_add]
  congr 1
  funext farmerAmount
  rcases hcase with ⟨h0, rfl⟩ | ⟨h0, a', t₀, ha, ht₀⟩
  · rw [if_neg (show ¬t.height > 0 by omega)]
    simp [coinsOfBlocks]
  · obtain ⟨p, hp, hvisit⟩ := visit_parent_of_paid hc heq hmid ha ht₀
    rw [if_pos (show t.height > 0 by omega), BlockRecords.blockRecord_eq_ok hp, ok_bind, hvisit]
    rfl

/-- Step 5 of `validate_block_body` on top of a chain expects the coins of the blocks the chain
pays, unless the farmer's amount does not fit. -/
lemma expectedRewardCoins_run (hh : 0 < height) (hpaid : paidBlocks chain = t :: mid) :
    expectedRewardCoins constants blocks t.headerHash height = (do
      let farmerAmount ← uint64 (calculateBaseFarmerReward t.height + t.fees.getD 0 : ℕ)
      return coinsOfBlock constants (communityPuzzleHash constants height) t farmerAmount ++
        coinsOfBlocks constants (communityPuzzleHash constants height) mid) := by
  obtain ⟨t', mid', a, b, hpaid', heq, htx, hb, hmid, hcase⟩ := hc.paidBlocks_eq
  obtain ⟨rfl, rfl⟩ := List.cons.inj (hpaid.symm.trans hpaid')
  have htmem : t ∈ chain := by rw [heq]; simp
  obtain ⟨f, hf, -⟩ := hc.fees t htmem htx
  rw [expectedRewardCoins, if_pos hh]
  simp only [BlockRecords.blockRecord_eq_ok (hc.stored t htmem), ok_bind, hf, Option.getD_some,
    Nat.cast_add]
  congr 1
  funext farmerAmount
  rcases hcase with ⟨h0, rfl⟩ | ⟨h0, a', t₀, ha, ht₀⟩
  · rw [if_neg (show ¬t.height > 0 by omega)]
    simp [coinsOfBlocks]
  · obtain ⟨p, hp, hvisit⟩ := visit_parent_of_paid hc heq hmid ha ht₀
    rw [if_pos (show t.height > 0 by omega), BlockRecords.blockRecord_eq_ok hp, ok_bind, hvisit]
    rfl

/-- The coins that `create_foliage` builds on top of a chain. -/
lemma claimedRewards_eq_ok {prevTransactionBlock : BlockRecord} (hh : 0 < height)
    (hpaid : paidBlocks chain = t :: mid) {coins : List Coin} :
    claimedRewards constants blocks tip prevTransactionBlock height = .ok coins ↔
      calculateBaseFarmerReward t.height + t.fees.getD 0 < 2 ^ 64 ∧
        t.headerHash = prevTransactionBlock.headerHash ∧
        coins = coinsOfPaid constants (communityPuzzleHash constants height) (paidBlocks chain) := by
  rw [claimedRewards_run hc _ hh hpaid, bind_eq_ok, hpaid]
  constructor
  · rintro ⟨amount, hamount, hrest⟩
    obtain ⟨hcast, hlt⟩ := uintN_eq_ok.mp hamount
    obtain rfl : calculateBaseFarmerReward t.height + t.fees.getD 0 = amount := by
      exact_mod_cast hcast
    obtain ⟨hhash, hcoins⟩ := guard_eq_ok.mp hrest
    exact ⟨hlt, not_not.mp hhash, (Except.ok.inj hcoins).symm⟩
  · rintro ⟨hlt, hhash, rfl⟩
    refine ⟨_, uintN_eq_ok.mpr ⟨rfl, hlt⟩, guard_eq_ok.mpr ⟨not_not.mpr hhash, rfl⟩⟩

/-- The coins that step 5 of `validate_block_body` expects on top of a chain. -/
lemma expectedRewardCoins_eq_ok (hh : 0 < height) (hpaid : paidBlocks chain = t :: mid) {coins : List Coin} :
    expectedRewardCoins constants blocks t.headerHash height = .ok coins ↔
      calculateBaseFarmerReward t.height + t.fees.getD 0 < 2 ^ 64 ∧
        coins = coinsOfPaid constants (communityPuzzleHash constants height) (paidBlocks chain) := by
  rw [expectedRewardCoins_run hc hh hpaid, bind_eq_ok, hpaid]
  constructor
  · rintro ⟨amount, hamount, hrest⟩
    obtain ⟨hcast, hlt⟩ := uintN_eq_ok.mp hamount
    obtain rfl : calculateBaseFarmerReward t.height + t.fees.getD 0 = amount := by
      exact_mod_cast hcast
    exact ⟨hlt, (Except.ok.inj hrest).symm⟩
  · rintro ⟨hlt, rfl⟩
    exact ⟨_, uintN_eq_ok.mpr ⟨rfl, hlt⟩, rfl⟩

/-! ### Heights of the paid blocks -/

lemma RecordChain.map_height : chain.map BlockRecord.height = List.range chain.length := by
  apply List.ext_getElem?
  intro i
  rw [List.getElem?_map]
  by_cases hi : i < chain.length
  · rw [List.getElem?_range hi, List.getElem?_eq_getElem hi, Option.map_some]
    rw [(hc.path.getElem (List.getElem?_eq_getElem hi)).1]
  · rw [List.getElem?_eq_none (by omega), List.getElem?_eq_none (by simp; omega)]
    rfl

lemma RecordChain.height_ne_zero (hr : r ∈ chain) (htx : r.isTransactionBlock = false) : r.height ≠ 0 := by
  intro h0
  have hget := hc.path.getElem?_height hr
  rw [h0] at hget
  rw [hc.genesis r hget] at htx
  cases htx

lemma RecordChain.mem_of_mem_paidBlocks (hr : r ∈ paidBlocks chain) : r ∈ chain := by
  obtain ⟨t, mid, a, b, hpaid, heq, -, -, -, hcase⟩ := hc.paidBlocks_eq
  rw [hpaid] at hr
  rw [heq]
  rcases List.mem_cons.mp hr with rfl | hr
  · simp
  · rcases hcase with ⟨-, rfl⟩ | ⟨-, a', t₀, rfl, -⟩
    · cases hr
    · simp [hr]

lemma RecordChain.nodup_height_paidBlocks : ((paidBlocks chain).map BlockRecord.height).Nodup := by
  obtain ⟨t, mid, a, b, hpaid, heq, -, -, -, hcase⟩ := hc.paidBlocks_eq
  rcases hcase with ⟨-, rfl⟩ | ⟨-, a', t₀, rfl, -⟩
  · rw [hpaid]
    exact List.nodup_singleton _
  · have hsub : (mid.reverse ++ [t]).Sublist chain := by
      rw [heq, List.append_assoc]
      refine List.Sublist.trans ?_ (List.sublist_append_right _ _)
      rw [List.cons_append]
      refine List.Sublist.cons _ (List.Sublist.append_left ?_ _)
      exact List.Sublist.cons_cons _ (List.nil_sublist _)
    have hnodup := (hsub.map BlockRecord.height).nodup (by
      rw [hc.map_height]
      exact List.nodup_range)
    rw [hpaid]
    have hrev : (mid.reverse ++ [t]).map BlockRecord.height =
        ((t :: mid).map BlockRecord.height).reverse := by simp
    rw [hrev, List.nodup_reverse] at hnodup
    exact hnodup

end

lemma index_le_of_isTransactionBlock {l a : List BlockRecord} {x y : BlockRecord} {k : ℕ} (heq : l = a ++ x :: b)
    (hb : ∀ z ∈ b, z.isTransactionBlock = false) (hy : l[k]? = some y) (hty : y.isTransactionBlock = true) :
    k ≤ a.length := by
  by_contra hlt
  rw [heq, List.getElem?_append_right (by omega)] at hy
  obtain ⟨n, hn⟩ : ∃ n, k - a.length = n + 1 := ⟨k - a.length - 1, by omega⟩
  rw [hn, List.getElem?_cons_succ] at hy
  rw [hb y (List.mem_of_getElem? hy)] at hty
  cases hty

/-- The block at height `i + 1`, a transaction block, pays no block that a transaction block at a
later height `j + 1` pays. -/
lemma RecordChain.paidBlocks_disjoint (hc : RecordChain blocks tip chain) {i j : ℕ} (hij : i < j)
    {bi pj : BlockRecord} (hbi : chain[i + 1]? = some bi) (htx : bi.isTransactionBlock = true)
    (hpj : chain[j]? = some pj) {r' : BlockRecord} (hr : r ∈ paidBlocks (chain.take (i + 1)))
    (hr' : r' ∈ paidBlocks (chain.take (j + 1))) : r.height < r'.height := by
  obtain ⟨pi, hpi, -⟩ := hc.path.getElem?_succ hbi
  obtain ⟨t, mid, a, b, hpaid, heq, htx₀, hb, hmid, hcase⟩ := (hc.take hpi).paidBlocks_eq
  obtain ⟨t', mid', a', b', hpaid', heq', htx', hb', hmid', hcase'⟩ := (hc.take hpj).paidBlocks_eq
  -- positions of the two last transaction blocks
  have ht : (chain.take (i + 1))[a.length]? = some t := by
    rw [heq, List.getElem?_append_right le_rfl, Nat.sub_self]
    rfl
  have hlt : a.length < i + 1 := by
    have := (List.getElem?_eq_some_iff.mp ht).1
    rw [List.length_take] at this
    omega
  have htheight : t.height = a.length := ((hc.take hpi).path.getElem ht).1
  have ht' : (chain.take (j + 1))[a'.length]? = some t' := by
    rw [heq', List.getElem?_append_right le_rfl, Nat.sub_self]
    rfl
  have htheight' : t'.height = a'.length := ((hc.take hpj).path.getElem ht').1
  have hbi' : (chain.take (j + 1))[i + 1]? = some bi := by
    rwa [List.getElem?_take_of_lt (by omega)]
  have hia' : i + 1 ≤ a'.length := index_le_of_isTransactionBlock heq' hb' hbi' htx
  -- the blocks paid first are not above `t`
  have hlow : r.height ≤ t.height := by
    rw [hpaid] at hr
    rcases List.mem_cons.mp hr with rfl | hr
    · exact le_rfl
    · rcases hcase with ⟨-, rfl⟩ | ⟨-, a₀, t₀, ha, -⟩
      · cases hr
      · obtain ⟨k, hk⟩ := List.mem_iff_getElem?.mp (List.mem_reverse.mpr hr)
        have hklt := (List.getElem?_eq_some_iff.mp hk).1
        have hget : (chain.take (i + 1))[a₀.length + (k + 1)]? = some r := by
          rw [heq, ha, List.append_assoc, List.getElem?_append_right (by omega),
            Nat.add_sub_cancel_left, List.cons_append, List.getElem?_cons_succ,
            List.getElem?_append_left hklt, hk]
        rw [((hc.take hpi).path.getElem hget).1, htheight, ha]
        simp only [List.length_append, List.length_cons]
        omega
  -- the blocks paid later are above `t`
  have hhigh : t.height < r'.height := by
    rw [hpaid'] at hr'
    rcases List.mem_cons.mp hr' with rfl | hr'
    · omega
    · rcases hcase' with ⟨-, rfl⟩ | ⟨-, a₀, t₀, ha, ht₀⟩
      · cases hr'
      · have htj : (a₀ ++ t₀ :: mid'.reverse)[a.length]? = some t := by
          rw [← ha]
          have : (chain.take (j + 1))[a.length]? = some t := by
            rw [List.getElem?_take_of_lt (by omega), ← ht, List.getElem?_take_of_lt (by omega)]
          rwa [heq', List.getElem?_append_left (by omega)] at this
        have hle := index_le_of_isTransactionBlock rfl
          (fun z hz => hmid' z (List.mem_reverse.mp hz)) htj htx₀
        obtain ⟨k, hk⟩ := List.mem_iff_getElem?.mp (List.mem_reverse.mpr hr')
        have hklt := (List.getElem?_eq_some_iff.mp hk).1
        have hget : (chain.take (j + 1))[a₀.length + (k + 1)]? = some r' := by
          rw [heq', ha, List.append_assoc, List.getElem?_append_right (by omega),
            Nat.add_sub_cancel_left, List.cons_append, List.getElem?_cons_succ,
            List.getElem?_append_left hklt, hk]
        rw [((hc.take hpj).path.getElem hget).1, htheight]
        omega
  omega

end Chain

/-! ## Collisions -/

/-- Two of the three coins of a paid transaction block are the same coin. The farmer coin and the
community coin have the same parent, so it is enough that puzzle hash and amount agree. The parent
of the pool coin has the other half of the genesis challenge. -/
def Collides (constants : ConsensusConstants) (community : Bytes32) (t : BlockRecord) : Prop :=
  let farmerAmount := calculateBaseFarmerReward t.height + t.fees.getD 0
  (t.farmerPuzzleHash = community ∧ farmerAmount = calculateBaseCommunityReward t.height) ∨
  (firstHalf constants.GENESIS_CHALLENGE = secondHalf constants.GENESIS_CHALLENGE ∧
    ((t.poolPuzzleHash = t.farmerPuzzleHash ∧ calculatePoolReward t.height = farmerAmount) ∨
      (t.poolPuzzleHash = community ∧ t.height = 0)))

variable {community : Bytes32} {farmerAmount : ℕ}

lemma nodup_coinsOfBlock_iff {constants : ConsensusConstants} {b : BlockRecord} (hb : b.height < 2 ^ 32) :
    (coinsOfBlock constants community b farmerAmount).Nodup ↔
      ¬((b.farmerPuzzleHash = community ∧
          farmerAmount = calculateBaseCommunityReward b.height) ∨
        (firstHalf constants.GENESIS_CHALLENGE = secondHalf constants.GENESIS_CHALLENGE ∧
          ((b.poolPuzzleHash = b.farmerPuzzleHash ∧ calculatePoolReward b.height = farmerAmount) ∨
            (b.poolPuzzleHash = community ∧ b.height = 0)))) := by
  have hlt : b.height < 256 ^ 16 := by omega
  simp only [coinsOfBlock, createPoolCoin, createFarmerCoin, createCommunityCoin, poolParentId,
    farmerParentId, communityParentId, List.nodup_cons, List.mem_cons, List.not_mem_nil, or_false,
    not_false_eq_true, List.nodup_nil, and_true, Coin.mk.injEq, parentId_inj hlt hlt,
    poolReward_eq_communityReward]
  tauto

lemma nodup_coinsOfBlock_of_pos {constants : ConsensusConstants} {b : BlockRecord} (hb : b.height < 2 ^ 32)
    (h0 : b.height ≠ 0) : (coinsOfBlock constants community b (calculateBaseFarmerReward b.height)).Nodup := by
  rw [nodup_coinsOfBlock_iff hb]
  have hamounts : calculateBaseFarmerReward b.height ≠ calculateBaseCommunityReward b.height ∧
      calculatePoolReward b.height ≠ calculateBaseFarmerReward b.height := by
    unfold calculateBaseFarmerReward calculateBaseCommunityReward calculatePoolReward mojoPerChives
    rcases stageEighths_cases b.height with ⟨-, h⟩ | ⟨-, h | h | h | h | h⟩
    · exact absurd h h0
    all_goals
      rw [h]
      split_ifs <;> omega
  rintro (⟨-, h⟩ | ⟨-, ⟨-, h⟩ | ⟨-, h⟩⟩)
  · exact hamounts.1 h
  · exact hamounts.2 h
  · exact h0 h

lemma height_of_mem_coinsOfBlock {constants : ConsensusConstants} {b : BlockRecord} {c : Coin}
    (hc : c ∈ coinsOfBlock constants community b farmerAmount) :
    c.parentCoinInfo.bytes.drop 16 = heightBytes b.height := by
  have hpool : (poolParentId b.height constants.GENESIS_CHALLENGE).bytes.drop 16 =
      heightBytes b.height := List.drop_left' (length_firstHalf _)
  have hfarmer : (farmerParentId b.height constants.GENESIS_CHALLENGE).bytes.drop 16 =
      heightBytes b.height := List.drop_left' (length_secondHalf _)
  simp only [coinsOfBlock, List.mem_cons, List.not_mem_nil, or_false] at hc
  rcases hc with rfl | rfl | rfl
  · exact hpool
  · exact hfarmer
  · exact hfarmer

lemma disjoint_coinsOfBlock {constants : ConsensusConstants} {community' : Bytes32} {b b' : BlockRecord}
    {farmerAmount' : ℕ} (hb : b.height < 2 ^ 32) (hb' : b'.height < 2 ^ 32) (hne : b.height ≠ b'.height) {c : Coin}
    (hc : c ∈ coinsOfBlock constants community b farmerAmount)
    (hc' : c ∈ coinsOfBlock constants community' b' farmerAmount') : False := by
  have heq := (height_of_mem_coinsOfBlock hc).symm.trans (height_of_mem_coinsOfBlock hc')
  have h₁ : b.height < 256 ^ 16 := by omega
  have h₂ : b'.height < 256 ^ 16 := by omega
  apply hne
  rw [← BigEndian.ofBytes_toBytes h₁, ← BigEndian.ofBytes_toBytes h₂]
  exact congrArg BigEndian.ofBytes heq

/-- The coins of the paid blocks are distinct unless the paid transaction block collides. -/
lemma RecordChain.nodup_coinsOfPaid_iff {constants : ConsensusConstants} {blocks : BlockRecords}
    {tip t : BlockRecord} {chain mid : List BlockRecord} (hc : RecordChain blocks tip chain)
    (hpaid : paidBlocks chain = t :: mid) (community : Bytes32) :
    (coinsOfPaid constants community (paidBlocks chain)).Nodup ↔
      ¬Collides constants community t := by
  have hlt : ∀ r ∈ paidBlocks chain, r.height < 2 ^ 32 :=
    fun r hr => hc.height_lt r (hc.mem_of_mem_paidBlocks hr)
  have hheights := hc.nodup_height_paidBlocks
  obtain ⟨t', mid', a, b, hpaid', -, -, -, hmid, -⟩ := hc.paidBlocks_eq
  obtain ⟨rfl, rfl⟩ := List.cons.inj (hpaid.symm.trans hpaid')
  have hmem : ∀ y ∈ mid, y ∈ chain := fun y hy =>
    hc.mem_of_mem_paidBlocks (by rw [hpaid]; exact List.mem_cons_of_mem _ hy)
  rw [hpaid] at hlt hheights ⊢
  rw [List.map_cons, List.nodup_cons] at hheights
  rw [Collides, ← nodup_coinsOfBlock_iff (hlt t List.mem_cons_self), coinsOfPaid,
    List.nodup_append]
  constructor
  · exact fun h => h.1
  · intro h
    refine ⟨h, ?_, ?_⟩
    · rw [coinsOfBlocks, List.nodup_flatMap]
      refine ⟨fun y hy => ?_, ?_⟩
      · exact nodup_coinsOfBlock_of_pos (hlt y (List.mem_cons_of_mem _ hy))
          (hc.height_ne_zero (hmem y hy) (hmid y hy))
      · refine (List.pairwise_map.mp hheights.2).imp_of_mem ?_
        intro y z hy hz hne c hcy hcz
        exact disjoint_coinsOfBlock (hlt y (List.mem_cons_of_mem _ hy))
          (hlt z (List.mem_cons_of_mem _ hz)) hne hcy hcz
    · intro c hcT c' hcM heq
      subst heq
      obtain ⟨y, hy, hcy⟩ := List.mem_flatMap.mp hcM
      refine disjoint_coinsOfBlock (hlt t List.mem_cons_self) (hlt y (List.mem_cons_of_mem _ hy))
        (fun hheight => hheights.1 ?_) hcT hcy
      rw [hheight]
      exact List.mem_map_of_mem hy

lemma mem_coinsOfPaid {constants : ConsensusConstants} {paid : List BlockRecord} {c : Coin}
    (hc : c ∈ coinsOfPaid constants community paid) :
    ∃ r ∈ paid, ∃ farmerAmount, c ∈ coinsOfBlock constants community r farmerAmount := by
  cases paid with
  | nil => cases hc
  | cons t mid =>
    rcases List.mem_append.mp hc with hc | hc
    · exact ⟨t, List.mem_cons_self, _, hc⟩
    · obtain ⟨y, hy, hcy⟩ := List.mem_flatMap.mp hc
      exact ⟨y, List.mem_cons_of_mem _ hy, _, hcy⟩

lemma length_coinsOfPaid (constants : ConsensusConstants) (community : Bytes32)
    (paid : List BlockRecord) :
    (coinsOfPaid constants community paid).length = 3 * paid.length := by
  cases paid with
  | nil => rfl
  | cons t mid =>
    have hmid : (coinsOfBlocks constants community mid).length = 3 * mid.length := by
      induction mid with
      | nil => rfl
      | cons y mid ih =>
        rw [coinsOfBlocks, List.flatMap_cons, List.length_append, ← coinsOfBlocks, ih]
        simp only [coinsOfBlock, List.length_cons, List.length_nil]
        omega
    rw [coinsOfPaid, List.length_append, hmid]
    simp only [coinsOfBlock, List.length_cons, List.length_nil]
    omega

/-! ## Reward coins of a chain -/

/-- `coins` are the reward coins that `create_foliage` or `validate_block_body` build for the
transaction block at height `i + 1` of a chain. -/
def BuildsRewards (constants : ConsensusConstants) (blocks : BlockRecords)
    (chain : List BlockRecord) (i : ℕ) (coins : List Coin) : Prop :=
  ∃ p b t, chain[i]? = some p ∧ chain[i + 1]? = some b ∧ b.isTransactionBlock = true ∧
    (paidBlocks (chain.take (i + 1))).head? = some t ∧
    ((∃ prevTransactionBlock,
        claimedRewards constants blocks p prevTransactionBlock (i + 1) = .ok coins) ∨
      expectedRewardCoins constants blocks t.headerHash (i + 1) = .ok coins)

lemma BuildsRewards.eq_coinsOfPaid {constants : ConsensusConstants} {blocks : BlockRecords} {tip : BlockRecord}
    {chain : List BlockRecord} {coins : List Coin} (h : BuildsRewards constants blocks chain i coins)
    (hc : RecordChain blocks tip chain) :
    ∃ p b t mid, chain[i]? = some p ∧ chain[i + 1]? = some b ∧ b.isTransactionBlock = true ∧
      paidBlocks (chain.take (i + 1)) = t :: mid ∧
      coins = coinsOfPaid constants (communityPuzzleHash constants (i + 1))
        (paidBlocks (chain.take (i + 1))) := by
  obtain ⟨p, b, t, hp, hb, htx, hhead, hrun⟩ := h
  have hc' := hc.take hp
  obtain ⟨t', mid, -, -, hpaid, -⟩ := hc'.paidBlocks_eq
  obtain rfl : t' = t := by simpa [hpaid] using hhead
  refine ⟨p, b, t', mid, hp, hb, htx, hpaid, ?_⟩
  rcases hrun with ⟨prevTransactionBlock, hrun⟩ | hrun
  · exact ((claimedRewards_eq_ok hc' (Nat.succ_pos i) hpaid).mp hrun).2.2
  · exact ((expectedRewardCoins_eq_ok hc' (Nat.succ_pos i) hpaid).mp hrun).2

/-- The reward coins of a chain are distinct: within a block, where there are three for each paid
block, and across blocks. -/
def RewardCoinsDistinct (constants : ConsensusConstants) (blocks : BlockRecords)
    (chain : List BlockRecord) : Prop :=
  (∀ i coins, BuildsRewards constants blocks chain i coins →
    coins.Nodup ∧ coins.length = 3 * (paidBlocks (chain.take (i + 1))).length) ∧
  (∀ i j coins coins', i ≠ j → BuildsRewards constants blocks chain i coins →
    BuildsRewards constants blocks chain j coins' → coins.Disjoint coins')

lemma rewardCoinsDistinct_of_not_collides {constants : ConsensusConstants} {blocks : BlockRecords}
    {tip : BlockRecord} {chain : List BlockRecord} (hc : RecordChain blocks tip chain)
    (hno : ∀ i b t, chain[i + 1]? = some b → b.isTransactionBlock = true →
      (paidBlocks (chain.take (i + 1))).head? = some t →
      ¬Collides constants (communityPuzzleHash constants (i + 1)) t) :
    RewardCoinsDistinct constants blocks chain := by
  constructor
  · intro i coins hbuild
    obtain ⟨p, b, t, mid, hp, hb, htx, hpaid, rfl⟩ := hbuild.eq_coinsOfPaid hc
    refine ⟨?_, length_coinsOfPaid _ _ _⟩
    rw [(hc.take hp).nodup_coinsOfPaid_iff hpaid]
    exact hno i b t hb htx (by rw [hpaid]; rfl)
  · have hlt : ∀ {i j coins coins'}, i < j → BuildsRewards constants blocks chain i coins →
        BuildsRewards constants blocks chain j coins' → ∀ c ∈ coins, c ∉ coins' := by
      intro i j coins coins' hij hi hj c hci hcj
      obtain ⟨p, b, t, mid, hp, hb, htx, hpaid, rfl⟩ := hi.eq_coinsOfPaid hc
      obtain ⟨p', b', t', mid', hp', hb', htx', hpaid', rfl⟩ := hj.eq_coinsOfPaid hc
      obtain ⟨r, hr, amount, hcr⟩ := mem_coinsOfPaid hci
      obtain ⟨r', hr', amount', hcr'⟩ := mem_coinsOfPaid hcj
      have hheight := hc.paidBlocks_disjoint hij hb htx hp' hr hr'
      exact disjoint_coinsOfBlock
        (hc.height_lt r (List.mem_of_mem_take ((hc.take hp).mem_of_mem_paidBlocks hr)))
        (hc.height_lt r' (List.mem_of_mem_take ((hc.take hp').mem_of_mem_paidBlocks hr')))
        hheight.ne hcr hcr'
    intro i j coins coins' hij hi hj c hci hcj
    rcases Nat.lt_or_gt_of_ne hij with h | h
    · exact hlt h hi hj c hci hcj
    · exact hlt h hj hi c hcj hci

/-- A transaction block that collides with what it is paid makes the coins built for it repeat. -/
lemma not_rewardCoinsDistinct_of_collides {constants : ConsensusConstants} {blocks : BlockRecords} {tip : BlockRecord}
    {chain : List BlockRecord} (hc : RecordChain blocks tip chain) {b t : BlockRecord} (hb : chain[i + 1]? = some b)
    (htx : b.isTransactionBlock = true) (hhead : (paidBlocks (chain.take (i + 1))).head? = some t)
    (hcol : Collides constants (communityPuzzleHash constants (i + 1)) t) :
    ¬RewardCoinsDistinct constants blocks chain := by
  intro hdist
  obtain ⟨p, hp, -⟩ := hc.path.getElem?_succ hb
  have hc' := hc.take hp
  obtain ⟨t', mid, a, b', hpaid, heq, htx', -⟩ := hc'.paidBlocks_eq
  obtain rfl : t' = t := by simpa [hpaid] using hhead
  have htmem : t' ∈ chain := List.mem_of_mem_take (hc'.mem_of_mem_paidBlocks (by
    rw [hpaid]
    exact List.mem_cons_self))
  obtain ⟨f, hf, hflt⟩ := hc.fees t' htmem htx'
  -- the colliding amounts are small, so the farmer's amount fits
  have hfits : calculateBaseFarmerReward t'.height + t'.fees.getD 0 < 2 ^ 64 := by
    have hcomm : calculateBaseCommunityReward t'.height < 2 ^ 64 ∧
        calculatePoolReward t'.height < 2 ^ 64 ∧
        (t'.height = 0 → calculateBaseFarmerReward t'.height = 0) := by
      unfold calculateBaseCommunityReward calculatePoolReward calculateBaseFarmerReward
        mojoPerChives
      rcases stageEighths_cases t'.height with ⟨h, h0⟩ | ⟨h0, h | h | h | h | h⟩
      · simp [h]
      all_goals
        rw [h]
        split_ifs <;> omega
    rcases hcol with ⟨-, h⟩ | ⟨-, ⟨-, h⟩ | ⟨-, h⟩⟩
    · rw [h]
      exact hcomm.1
    · rw [← h]
      exact hcomm.2.1
    · rw [hcomm.2.2 h, hf, Option.getD_some, Nat.zero_add]
      exact hflt
  have hbuild : BuildsRewards constants blocks chain i
      (coinsOfPaid constants (communityPuzzleHash constants (i + 1))
        (paidBlocks (chain.take (i + 1)))) :=
    ⟨p, b, t', hp, hb, htx, hhead,
      .inr ((expectedRewardCoins_eq_ok hc' (Nat.succ_pos i) hpaid).mpr ⟨hfits, rfl⟩)⟩
  exact (hc'.nodup_coinsOfPaid_iff hpaid _).mp (hdist.1 i _ hbuild).1 hcol

/-- **When reward coins are distinct.** On every chain of block records, the reward coins that
`create_foliage` and `validate_block_body` build are distinct, within a block and across blocks, if
and only if no transaction block pays a transaction block that collides at its height. -/
theorem reward_coins_distinct_iff (constants : ConsensusConstants) {blocks : BlockRecords}
    {tip : BlockRecord} {chain : List BlockRecord} (hc : RecordChain blocks tip chain) :
    RewardCoinsDistinct constants blocks chain ↔
      ∀ i b t, chain[i + 1]? = some b → b.isTransactionBlock = true →
        (paidBlocks (chain.take (i + 1))).head? = some t →
        ¬Collides constants (communityPuzzleHash constants (i + 1)) t := by
  constructor
  · intro hdist i b t hb htx hhead hcol
    exact not_rewardCoinsDistinct_of_collides hc hb htx hhead hcol hdist
  · exact rewardCoinsDistinct_of_not_collides hc

/-! ## A chain of transaction blocks -/

/-- The record at height `i` of a chain in which every block is a transaction block, with given
fees and farmer puzzle hashes. -/
def txRecord (fees : ℕ → ℕ) (farmer : ℕ → Bytes32) (i : ℕ) : BlockRecord where
  headerHash := Bytes32.ofNat (i + 1)
  prevHash := Bytes32.ofNat i
  height := i
  weight := 7 * (i + 1)
  totalIters := i + 1
  signagePointIndex := 0
  challengeVdfOutput := defaultElement
  infusedChallengeVdfOutput := none
  rewardInfusionNewChallenge := Bytes32.zero
  challengeBlockInfoHash := Bytes32.zero
  subSlotIters := 2 ^ 27
  poolPuzzleHash := Bytes32.zero
  farmerPuzzleHash := farmer i
  communityPuzzleHash := Bytes32.zero
  requiredIters := 1
  deficit := 0
  overflow := false
  prevTransactionBlockHeight := i - 1
  timestamp := some i
  prevTransactionBlockHash := some (Bytes32.ofNat i)
  fees := some (fees i)
  rewardClaimsIncorporated := some []
  finishedChallengeSlotHashes := none
  finishedInfusedChallengeSlotHashes := none
  finishedRewardSlotHashes := none
  subEpochSummaryIncluded := none

/-- A family of records with consecutive hashes is a chain of records up to every height. -/
lemma recordChain_range {f : ℕ → BlockRecord} (hhash : ∀ i, (f i).headerHash = Bytes32.ofNat (i + 1))
    (hprev : ∀ i, (f i).prevHash = Bytes32.ofNat i) (hheight : ∀ i, (f i).height = i)
    (hgenesis : (f 0).isTransactionBlock = true)
    (hfees : ∀ i, (f i).isTransactionBlock = true → ∃ x, (f i).fees = some x ∧ x < 2 ^ 64)
    {n : ℕ} (hn : n + 1 < 2 ^ 32) :
    RecordChain (BlockRecords.ofRecords ((List.range (n + 1)).map f)) (f n)
      ((List.range (n + 1)).map f) := by
  have hnodup : (((List.range (n + 1)).map f).map BlockRecord.headerHash).Nodup := by
    rw [List.map_map]
    refine List.Nodup.map_on (fun a ha b hb h => ?_) List.nodup_range
    rw [List.mem_range] at ha hb
    simp only [Function.comp_apply, hhash] at h
    have hab : a + 1 = b + 1 := Bytes32.ofNat_injOn (by omega) (by omega) h
    omega
  have hlinks : ∀ i, (f (i + 1)).prevHash = (f i).headerHash :=
    fun i => (hprev (i + 1)).trans (hhash i).symm
  refine ⟨?_, fun r hr => BlockRecords.get_ofRecords hnodup hr, ?_, ?_, ?_⟩
  · exact BlockRecords.chain_ofRecords hheight hlinks hnodup (Nat.le_succ n)
  · intro g hg
    rw [List.getElem?_map, List.getElem?_range (Nat.succ_pos n)] at hg
    obtain rfl := Option.some.inj hg
    exact hgenesis
  · intro r hr htx
    obtain ⟨i, -, rfl⟩ := List.mem_map.mp hr
    exact hfees i htx
  · intro r hr
    obtain ⟨i, hi, rfl⟩ := List.mem_map.mp hr
    rw [List.mem_range] at hi
    rw [hheight]
    omega

/-- The chain of transaction blocks up to height `n`. -/
lemma recordChain_txRecord (fees : ℕ → ℕ) (hfees : ∀ i, fees i < 2 ^ 64) (farmer : ℕ → Bytes32)
    {n : ℕ} (hn : n + 1 < 2 ^ 32) :
    RecordChain (BlockRecords.ofRecords ((List.range (n + 1)).map (txRecord fees farmer)))
      (txRecord fees farmer n) ((List.range (n + 1)).map (txRecord fees farmer)) := by
  have hsome : ∀ i, (txRecord fees farmer i).isTransactionBlock = true →
      ∃ x, (txRecord fees farmer i).fees = some x ∧ x < 2 ^ 64 :=
    fun i _ => ⟨fees i, rfl, hfees i⟩
  exact recordChain_range (f := txRecord fees farmer) (fun _ => rfl) (fun _ => rfl) (fun _ => rfl)
    rfl hsome hn

lemma head?_paidBlocks_concat {l : List BlockRecord} {t : BlockRecord}
    (ht : t.isTransactionBlock = true) : (paidBlocks (l ++ [t])).head? = some t := by
  rw [paidBlocks, List.reverse_append]
  simp [ht]

lemma head?_paidBlocks_txRecord {fees : ℕ → ℕ} {farmer : ℕ → Bytes32} {n : ℕ} (hi : i < n) :
    (paidBlocks (((List.range n).map (txRecord fees farmer)).take (i + 1))).head? =
      some (txRecord fees farmer i) := by
  rw [← List.map_take, List.take_range, min_eq_left (by omega), List.range_succ, List.map_append]
  exact head?_paidBlocks_concat rfl

/-- On two blocks without fees whose farmers are not the community, the reward coins are
distinct. -/
theorem reward_coins_distinct_sample : RewardCoinsDistinct defaultConstants
    (BlockRecords.ofRecords ((List.range 2).map (txRecord (fun _ => 0) fun _ => Bytes32.zero)))
    ((List.range 2).map (txRecord (fun _ => 0) fun _ => Bytes32.zero)) := by
  have hc := recordChain_txRecord (n := 1) (fun _ => 0) (fun _ => by norm_num)
    (fun _ => Bytes32.zero) (by norm_num)
  refine (reward_coins_distinct_iff defaultConstants hc).mpr ?_
  intro i b t hb _ hhead
  have hi : i + 1 < 2 := by simpa using (List.getElem?_eq_some_iff.mp hb).1
  rw [head?_paidBlocks_txRecord (by omega)] at hhead
  obtain rfl := Option.some.inj hhead
  obtain rfl : i = 0 := by omega
  have hfarmer : Bytes32.zero ≠ communityPuzzleHash defaultConstants 1 := by decide
  have hhalves : firstHalf defaultConstants.GENESIS_CHALLENGE ≠
      secondHalf defaultConstants.GENESIS_CHALLENGE := by decide
  rintro (⟨h, -⟩ | ⟨h, -⟩)
  · exact hfarmer h
  · exact hhalves h

/-- The fees of the counterexample: 98.75 chives at height 2600001, nothing elsewhere. -/
def collidingFees (i : ℕ) : ℕ := if i = 2600001 then 9875000000 else 0

/-- The farmers of the counterexample: the community at height 2600001. -/
def collidingFarmer (i : ℕ) : Bytes32 := if i = 2600001 then masterNodePuzzleHash else Bytes32.zero

/-- With the default constants, a block at height 2600001 whose farmer puzzle hash is that of the
community and whose fees are 98.75 chives is paid twice the same coin. -/
theorem reward_coins_collide : ¬RewardCoinsDistinct defaultConstants
    (BlockRecords.ofRecords ((List.range 2600003).map (txRecord collidingFees collidingFarmer)))
    ((List.range 2600003).map (txRecord collidingFees collidingFarmer)) := by
  have hc := recordChain_txRecord (n := 2600002) collidingFees
    (fun i => by unfold collidingFees; split <;> norm_num) collidingFarmer (by norm_num)
  refine not_rewardCoinsDistinct_of_collides hc (i := 2600001)
    (b := txRecord collidingFees collidingFarmer 2600002) ?_ rfl
    (head?_paidBlocks_txRecord (by norm_num)) ?_
  · rw [List.getElem?_map, List.getElem?_range (by norm_num)]
    rfl
  · left
    have hfees : collidingFees 2600001 = 9875000000 := if_pos rfl
    refine ⟨?_, ?_⟩
    · show collidingFarmer 2600001 = communityPuzzleHash defaultConstants 2600002
      rw [collidingFarmer, if_pos rfl, communityPuzzleHash, if_pos (by decide)]
    show calculateBaseFarmerReward 2600001 + collidingFees 2600001 =
      calculateBaseCommunityReward 2600001
    rw [hfees]
    decide

end Chives
