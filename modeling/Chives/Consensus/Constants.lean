import Chives.Types.SizedBytes

set_option autoImplicit false

/-!
# Consensus constants

`ConsensusConstants` of `consensus/constants.py`, as far as the modelled functions read it, with
the values of `consensus/default_constants.py`.

## Main definitions

* `ConsensusConstants` — the class.
* `defaultConstants` — `DEFAULT_CONSTANTS`.
-/

namespace Chives

/-- The constants of a chain. -/
structure ConsensusConstants where
  SLOT_BLOCKS_TARGET : ℕ
  MIN_BLOCKS_PER_CHALLENGE_BLOCK : ℕ
  MAX_SUB_SLOT_BLOCKS : ℕ
  NUM_SPS_SUB_SLOT : ℕ
  SUB_SLOT_ITERS_STARTING : ℕ
  DIFFICULTY_CONSTANT_FACTOR : ℕ
  DIFFICULTY_STARTING : ℕ
  DIFFICULTY_CHANGE_MAX_FACTOR : ℕ
  SUB_EPOCH_BLOCKS : ℕ
  EPOCH_BLOCKS : ℕ
  SIGNIFICANT_BITS : ℕ
  NUMBER_ZERO_BITS_PLOT_FILTER : ℕ
  MIN_PLOT_SIZE : ℕ
  MAX_PLOT_SIZE : ℕ
  SUB_SLOT_TIME_TARGET : ℕ
  NUM_SP_INTERVALS_EXTRA : ℕ
  MAX_FUTURE_TIME : ℕ
  NUMBER_OF_TIMESTAMPS : ℕ
  GENESIS_CHALLENGE : Bytes32
  AGG_SIG_ME_ADDITIONAL_DATA : Bytes
  GENESIS_PRE_FARM_POOL_PUZZLE_HASH : Bytes32
  GENESIS_PRE_FARM_FARMER_PUZZLE_HASH : Bytes32
  GENESIS_PRE_FARM_COMMUNITY_PUZZLE_HASH : Bytes32
  MAX_VDF_WITNESS_SIZE : ℕ
  MAX_COIN_AMOUNT : ℕ
  MAX_BLOCK_COST_CLVM : ℕ
  MAX_GENERATOR_SIZE : ℕ
  MAX_GENERATOR_REF_LIST_SIZE : ℕ
  BLOCKS_CACHE_SIZE : ℕ

/-- `DEFAULT_CONSTANTS`. -/
def defaultConstants : ConsensusConstants where
  SLOT_BLOCKS_TARGET := 32
  MIN_BLOCKS_PER_CHALLENGE_BLOCK := 16
  MAX_SUB_SLOT_BLOCKS := 128
  NUM_SPS_SUB_SLOT := 64
  SUB_SLOT_ITERS_STARTING := 2 ^ 27
  DIFFICULTY_CONSTANT_FACTOR := 2 ^ 57
  DIFFICULTY_STARTING := 7
  DIFFICULTY_CHANGE_MAX_FACTOR := 3
  SUB_EPOCH_BLOCKS := 384
  EPOCH_BLOCKS := 4608
  SIGNIFICANT_BITS := 8
  NUMBER_ZERO_BITS_PLOT_FILTER := 9
  MIN_PLOT_SIZE := 29
  MAX_PLOT_SIZE := 31
  SUB_SLOT_TIME_TARGET := 600
  NUM_SP_INTERVALS_EXTRA := 3
  MAX_FUTURE_TIME := 5 * 60
  NUMBER_OF_TIMESTAMPS := 11
  GENESIS_CHALLENGE :=
    Bytes32.ofNat 0xe3b0c44298fc1c149afbf4c8996fb92427ae41e4649b934ca495991b7852b855
  AGG_SIG_ME_ADDITIONAL_DATA := (Bytes32.ofNat
    0x69cfa80789667c51428eaf2f2126e6be944462ee5b59b8128e90b9a650f865c1).bytes
  GENESIS_PRE_FARM_POOL_PUZZLE_HASH :=
    Bytes32.ofNat 0x6d13b5296e6e7e2307c79294053b2fc49899cdc0e105beb7d2d4fac875c94bd1
  GENESIS_PRE_FARM_FARMER_PUZZLE_HASH :=
    Bytes32.ofNat 0x8fc4ed983203c84ec9f15eedafc96cb8646825bc1049e05209005453285135a5
  GENESIS_PRE_FARM_COMMUNITY_PUZZLE_HASH :=
    Bytes32.ofNat 0x4e7d87c3752c0b4a1f25ec7ac5c10f347c39406e6753220043f28e5a450e0388
  MAX_VDF_WITNESS_SIZE := 64
  MAX_COIN_AMOUNT := 2 ^ 64 - 1
  MAX_BLOCK_COST_CLVM := 11000000000
  MAX_GENERATOR_SIZE := 1000000
  MAX_GENERATOR_REF_LIST_SIZE := 512
  BLOCKS_CACHE_SIZE := 4608 + 128 * 4

end Chives
