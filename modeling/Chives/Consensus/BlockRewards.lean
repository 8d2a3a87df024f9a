import Chives.Consensus.Constants
import Chives.Types.Coin
import Chives.Util.Ints

set_option autoImplicit false

/-!
# Block rewards and reward coins

`consensus/block_rewards.py` and `consensus/coinbase.py`: the amounts paid for a block at a height
to the pool, the farmer and the community, and the coins that carry them.

## Main definitions

* `calculatePoolReward`, `calculateBaseFarmerReward`,
  `calculateBaseCommunityReward` — the amounts.
* `createPoolCoin`, `createFarmerCoin`, `createCommunityCoin` — the coins.

## Main results

* `parentId_inj` — a parent id determines its half of the genesis challenge and the height.
* `poolReward_eq_communityReward` — the two amounts agree only for genesis.

## Design

The source multiplies floating-point numbers and truncates. All its products are exact in double
precision: they are the rationals below, with the factor of each three-year stage in eighths.
-/

namespace Chives

/-! ## Amounts -/

/-- `_mojo_per_chives`. -/
def mojoPerChives : ℕ := 100000000

/-- `_blocks_per_year`. -/
def blocksPerYear : ℕ := 1681920

/-- The height after which the reward split and the community puzzle hash change. -/
def masterNodeHeight : ℕ := 2600000

/-- The factor of the reward at a height, in eighths: `0`, `2`, `1`, `0.5`, `0.25` or `0.125`. -/
def stageEighths (height : ℕ) : ℕ :=
  if height = 0 then 0
  else if height < 3 * blocksPerYear then 16
  else if height < 6 * blocksPerYear then 8
  else if height < 9 * blocksPerYear then 4
  else if height < 12 * blocksPerYear then 2
  else 1

/-- `calculate_pool_reward`: `(7 / 8) * factor * 0.45 * 100` chives after the switch, with `0.9` up
to it. -/
def calculatePoolReward (height : ℕ) : ℕ :=
  if height > masterNodeHeight then 7 * 45 * mojoPerChives * stageEighths height / 64
  else 7 * 90 * mojoPerChives * stageEighths height / 64

/-- `calculate_base_farmer_reward`: `(1 / 8) * factor * 0.45 * 100` chives after the switch, with
`0.9` up to it. -/
def calculateBaseFarmerReward (height : ℕ) : ℕ :=
  if height > masterNodeHeight then 45 * mojoPerChives * stageEighths height / 64
  else 90 * mojoPerChives * stageEighths height / 64

/-- `calculate_base_community_reward`: `0.55 * factor * 100` chives after the switch, with `0.1` up
to it. -/
def calculateBaseCommunityReward (height : ℕ) : ℕ :=
  if height > masterNodeHeight then 55 * mojoPerChives * stageEighths height / 8
  else 10 * mojoPerChives * stageEighths height / 8

lemma stageEighths_cases (height : ℕ) : stageEighths height = 0 ∧ height = 0 ∨ height ≠ 0 ∧
    (stageEighths height = 16 ∨ stageEighths height = 8 ∨ stageEighths height = 4 ∨
      stageEighths height = 2 ∨ stageEighths height = 1) := by
  unfold stageEighths
  split_ifs <;> simp_all

lemma poolReward_eq_communityReward {height : ℕ} :
    calculatePoolReward height = calculateBaseCommunityReward height ↔ height = 0 := by
  unfold calculatePoolReward calculateBaseCommunityReward mojoPerChives
  rcases stageEighths_cases height with ⟨h, rfl⟩ | ⟨h0, h | h | h | h | h⟩
  · simp [h]
  all_goals
    rw [h]
    split_ifs <;> omega

lemma calculateBaseFarmerReward_lt (height : ℕ) : calculateBaseFarmerReward height < 2 ^ 64 := by
  unfold calculateBaseFarmerReward mojoPerChives
  rcases stageEighths_cases height with ⟨h, -⟩ | ⟨-, h | h | h | h | h⟩
  all_goals
    rw [h]
    split_ifs <;> omega

/-! ## Coins -/

/-- `block_height.to_bytes(16, "big")`. -/
def heightBytes (blockHeight : ℕ) : Bytes := BigEndian.toBytes 16 blockHeight

/-- A parent id: half of the genesis challenge and the height. -/
def parentId (half : Bytes) (hhalf : half.length = 16) (blockHeight : ℕ) : Bytes32 :=
  ⟨half ++ heightBytes blockHeight, by simp [heightBytes, hhalf]⟩

/-- `genesis_challenge[:16]`. -/
def firstHalf (genesisChallenge : Bytes32) : Bytes := genesisChallenge.bytes.take 16

/-- `genesis_challenge[16:]`. -/
def secondHalf (genesisChallenge : Bytes32) : Bytes := genesisChallenge.bytes.drop 16

lemma length_firstHalf (g : Bytes32) : (firstHalf g).length = 16 := by
  simp [firstHalf, g.length_eq]

lemma length_secondHalf (g : Bytes32) : (secondHalf g).length = 16 := by
  simp [secondHalf, g.length_eq]

/-- `pool_parent_id`. -/
def poolParentId (blockHeight : ℕ) (genesisChallenge : Bytes32) : Bytes32 :=
  parentId (firstHalf genesisChallenge) (length_firstHalf _) blockHeight

/-- `farmer_parent_id`. -/
def farmerParentId (blockHeight : ℕ) (genesisChallenge : Bytes32) : Bytes32 :=
  parentId (secondHalf genesisChallenge) (length_secondHalf _) blockHeight

/-- `community_parent_id`, which takes the same half of the genesis challenge as
`farmer_parent_id`. -/
def communityParentId (blockHeight : ℕ) (genesisChallenge : Bytes32) : Bytes32 :=
  parentId (secondHalf genesisChallenge) (length_secondHalf _) blockHeight

/-- `create_pool_coin`. -/
def createPoolCoin (blockHeight : ℕ) (puzzleHash : Bytes32) (reward : ℕ)
    (genesisChallenge : Bytes32) : Coin :=
  ⟨poolParentId blockHeight genesisChallenge, puzzleHash, reward⟩

/-- `create_farmer_coin`. -/
def createFarmerCoin (blockHeight : ℕ) (puzzleHash : Bytes32) (reward : ℕ)
    (genesisChallenge : Bytes32) : Coin :=
  ⟨farmerParentId blockHeight genesisChallenge, puzzleHash, reward⟩

/-- `create_community_coin`. -/
def createCommunityCoin (blockHeight : ℕ) (puzzleHash : Bytes32) (reward : ℕ)
    (genesisChallenge : Bytes32) : Coin :=
  ⟨communityParentId blockHeight genesisChallenge, puzzleHash, reward⟩

lemma parentId_inj {a b : Bytes} {ha : a.length = 16} {hb : b.length = 16} {h k : ℕ}
    (hh : h < 256 ^ 16) (hk : k < 256 ^ 16) :
    parentId a ha h = parentId b hb k ↔ a = b ∧ h = k := by
  constructor
  · intro he
    have hbytes : a ++ heightBytes h = b ++ heightBytes k := congrArg Bytes32.bytes he
    obtain ⟨hab, hhk⟩ := List.append_inj hbytes (ha.trans hb.symm)
    refine ⟨hab, ?_⟩
    rw [← BigEndian.ofBytes_toBytes hh, ← BigEndian.ofBytes_toBytes hk]
    exact congrArg BigEndian.ofBytes hhk
  · rintro ⟨rfl, rfl⟩
    rfl

end Chives
