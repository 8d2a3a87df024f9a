import Chives.Consensus.PotIterations
import Chives.Consensus.RewardClaims

set_option autoImplicit false

/-!
# The deficit along a chain

`calculate_deficit` of `consensus/deficit.py` counts the blocks that a chain still owes before a
new challenge block: a challenge block has a deficit one below
`MIN_BLOCKS_PER_CHALLENGE_BLOCK`, the blocks after it count down to zero, and at zero only the end
of a sub slot starts a new count.

## Main definitions

* `DeficitRun` — the records of a chain whose deficits `calculate_deficit` computes.

## Main results

* `calculateDeficit_step` — the deficit of a block against that of the block before.
* `DeficitRun.deficit_le` — a deficit is at most `MIN_BLOCKS_PER_CHALLENGE_BLOCK`.
* `DeficitRun.countdown` — the count after a challenge block.
* `challenge_blocks_spaced` — challenge blocks are at least
  `MIN_BLOCKS_PER_CHALLENGE_BLOCK` heights apart and in different sub slots.
-/

namespace Chives

open ExceptRun

variable {constants : ConsensusConstants}

/-! ## One block -/

lemma calculateDeficit_zero {prevB : Option BlockRecord} {overflow : Bool} {finished d : ℕ}
    (h : calculateDeficit constants 0 prevB overflow finished = .ok d) :
    d + 1 = constants.MIN_BLOCKS_PER_CHALLENGE_BLOCK := by
  rw [calculateDeficit, if_pos rfl] at h
  have := (uintN_eq_ok.mp h).1
  omega

/-- The deficit of a block after `p`: it stays at the maximum as long as blocks overflow into one
sub slot, it stays at zero until a sub slot ends, and otherwise it counts down. -/
lemma calculateDeficit_step {p : BlockRecord} {height finished d : ℕ} {overflow : Bool}
    (hheight : height ≠ 0)
    (h : calculateDeficit constants height (some p) overflow finished = .ok d) :
    (p.deficit = constants.MIN_BLOCKS_PER_CHALLENGE_BLOCK ∧
        (finished = 0 ∧ d = p.deficit ∨ d + 1 = p.deficit)) ∨
      (p.deficit ≠ constants.MIN_BLOCKS_PER_CHALLENGE_BLOCK ∧ p.deficit = 0 ∧
        (finished = 0 ∧ d = 0 ∨ 0 < finished ∧
          (d = constants.MIN_BLOCKS_PER_CHALLENGE_BLOCK ∨
            d + 1 = constants.MIN_BLOCKS_PER_CHALLENGE_BLOCK))) ∨
      (p.deficit ≠ constants.MIN_BLOCKS_PER_CHALLENGE_BLOCK ∧ p.deficit ≠ 0 ∧
        d + 1 = p.deficit) := by
  rw [calculateDeficit, if_neg hheight, pySome, ok_bind] at h
  dsimp only at h
  split at h
  · rename_i hmax
    split at h
    · rename_i hover
      have := (uintN_eq_ok.mp h).1
      omega
    · have := (uintN_eq_ok.mp h).1
      omega
  · rename_i hmax
    split at h
    · rename_i hzero
      split at h
      · have := (uintN_eq_ok.mp h).1
        omega
      · split at h
        · have := (uintN_eq_ok.mp h).1
          omega
        · have := (uintN_eq_ok.mp h).1
          omega
    · have := (uintN_eq_ok.mp h).1
      omega

/-! ## A chain -/

/-- The records of the heights below `n` of a chain: each has the deficit that `calculate_deficit`
computes for it from the record before, whether it overflows, and the number of sub slots that
end between the two blocks. -/
structure DeficitRun (constants : ConsensusConstants) (n : ℕ) (record : ℕ → BlockRecord)
    (overflow : ℕ → Bool) (finished : ℕ → ℕ) : Prop where
  genesis : 0 < n →
    calculateDeficit constants 0 none (overflow 0) (finished 0) = .ok (record 0).deficit
  extend : ∀ i, i + 1 < n →
    calculateDeficit constants (i + 1) (some (record i)) (overflow (i + 1)) (finished (i + 1)) =
      .ok (record (i + 1)).deficit

namespace DeficitRun

variable {n : ℕ} {record : ℕ → BlockRecord} {overflow : ℕ → Bool} {finished : ℕ → ℕ}
variable (h : DeficitRun constants n record overflow finished)
include h

/-- A deficit is at most `MIN_BLOCKS_PER_CHALLENGE_BLOCK`. -/
lemma deficit_le : ∀ i < n, (record i).deficit ≤ constants.MIN_BLOCKS_PER_CHALLENGE_BLOCK := by
  intro i
  induction i with
  | zero =>
    intro hn
    have := calculateDeficit_zero (h.genesis hn)
    omega
  | succ i ih =>
    intro hi
    have := calculateDeficit_step (Nat.succ_ne_zero i) (h.extend i hi)
    omega

lemma min_blocks_pos (hn : 0 < n) : 0 < constants.MIN_BLOCKS_PER_CHALLENGE_BLOCK := by
  have := calculateDeficit_zero (h.genesis hn)
  omega

lemma countdown {i : ℕ} (hc : (record i).isChallengeBlock constants = true) :
    ∀ k, k < constants.MIN_BLOCKS_PER_CHALLENGE_BLOCK → i + k < n →
      (record (i + k)).deficit + k + 1 = constants.MIN_BLOCKS_PER_CHALLENGE_BLOCK := by
  intro k
  induction k with
  | zero =>
    intro _ _
    simpa [BlockRecord.isChallengeBlock] using hc
  | succ k ih =>
    intro hk hn
    have := calculateDeficit_step (Nat.succ_ne_zero (i + k)) (h.extend (i + k) hn)
    change (record (i + k + 1)).deficit + (k + 1) + 1 = _
    omega

lemma zero_of_not_finished {i : ℕ} (hzero : (record i).deficit = 0) :
    ∀ k, i + k < n → (∀ l, i < l → l ≤ i + k → finished l = 0) →
      (record (i + k)).deficit = 0 := by
  intro k
  induction k with
  | zero =>
    intro _ _
    exact hzero
  | succ k ih =>
    intro hn hfin
    have hprev := ih (by omega) fun l hl hle => hfin l hl (by omega)
    have hslot := hfin (i + k + 1) (by omega) (by omega)
    have := calculateDeficit_step (Nat.succ_ne_zero (i + k)) (h.extend (i + k) hn)
    change (record (i + k + 1)).deficit = 0
    omega

/-- A challenge block is at least `MIN_BLOCKS_PER_CHALLENGE_BLOCK` heights above an earlier one:
below that height the count started there is not over. -/
lemma spaced {i j : ℕ} (hij : i < j) (hj : j < n)
    (hi : (record i).isChallengeBlock constants = true)
    (hc : (record j).isChallengeBlock constants = true) :
    i + constants.MIN_BLOCKS_PER_CHALLENGE_BLOCK ≤ j := by
  by_contra hclose
  obtain ⟨k, rfl⟩ := Nat.exists_eq_add_of_le hij.le
  have hcount := h.countdown hi k (by omega) hj
  have hdeficit : (record (i + k)).deficit + 1 = constants.MIN_BLOCKS_PER_CHALLENGE_BLOCK := by
    simpa [BlockRecord.isChallengeBlock] using hc
  omega

lemma exists_finished {i j : ℕ} (hM : constants.MIN_BLOCKS_PER_CHALLENGE_BLOCK ≠ 1) (hij : i < j)
    (hj : j < n) (hi : (record i).isChallengeBlock constants = true)
    (hc : (record j).isChallengeBlock constants = true) :
    ∃ k, i < k ∧ k ≤ j ∧ 0 < finished k := by
  by_contra hnone
  have hfin : ∀ l, i < l → l ≤ j → finished l = 0 := fun l hl hle => by
    by_contra hpos
    exact hnone ⟨l, hl, hle, Nat.pos_of_ne_zero hpos⟩
  have hM0 := h.min_blocks_pos (by omega)
  have hspaced := h.spaced hij hj hi hc
  -- the count that starts at `i` is over at `z`
  obtain ⟨z, hz⟩ : ∃ z, z + 1 = i + constants.MIN_BLOCKS_PER_CHALLENGE_BLOCK :=
    ⟨i + constants.MIN_BLOCKS_PER_CHALLENGE_BLOCK - 1, by omega⟩
  have hcount := h.countdown hi (z - i) (by omega) (by omega)
  rw [show i + (z - i) = z by omega] at hcount
  obtain ⟨k, rfl⟩ := Nat.exists_eq_add_of_le (show z ≤ j by omega)
  have hzero := h.zero_of_not_finished (by omega) k hj fun l hl hle =>
    hfin l (by omega) hle
  have hdeficit : (record (z + k)).deficit + 1 = constants.MIN_BLOCKS_PER_CHALLENGE_BLOCK := by
    simpa [BlockRecord.isChallengeBlock] using hc
  omega

end DeficitRun

/-- **Challenge blocks are spaced.** Along a chain whose deficits `calculate_deficit` computes,
deficits are at most `MIN_BLOCKS_PER_CHALLENGE_BLOCK`, two challenge blocks are at least so many
heights apart, and a sub slot ends between them, unless that constant is one and every block with
deficit zero is a challenge block. -/
theorem challenge_blocks_spaced {n : ℕ} {record : ℕ → BlockRecord} {overflow : ℕ → Bool}
    {finished : ℕ → ℕ} (h : DeficitRun constants n record overflow finished) :
    (∀ i < n, (record i).deficit ≤ constants.MIN_BLOCKS_PER_CHALLENGE_BLOCK) ∧
      ∀ i j, i < j → j < n → (record i).isChallengeBlock constants = true →
        (record j).isChallengeBlock constants = true →
        i + constants.MIN_BLOCKS_PER_CHALLENGE_BLOCK ≤ j ∧
          (constants.MIN_BLOCKS_PER_CHALLENGE_BLOCK ≠ 1 →
            ∃ k, i < k ∧ k ≤ j ∧ 0 < finished k) :=
  ⟨h.deficit_le, fun _ _ hij hj hi hc =>
    ⟨h.spaced hij hj hi hc, fun hM => h.exists_finished hM hij hj hi hc⟩⟩

/-- The record at height `i` of a chain of which height 16 starts a second sub slot. -/
def countedRecord (i : ℕ) : BlockRecord :=
  { txRecord (fun _ => 0) (fun _ => Bytes32.zero) i with
    deficit := if i < 16 then 15 - i else 31 - i }

lemma deficitRun_countedRecord : DeficitRun defaultConstants 17 countedRecord (fun _ => false)
    (fun i => if i = 16 then 1 else 0) where
  genesis _ := by decide +kernel
  extend i hi := by
    have hall : ∀ i < 16, calculateDeficit defaultConstants (i + 1) (some (countedRecord i)) false
        (if i + 1 = 16 then 1 else 0) = .ok (countedRecord (i + 1)).deficit := by decide +kernel
    exact hall i (by omega)

/-- The genesis block and the block 16 above it are challenge blocks. -/
theorem challenge_blocks_spaced_two_slots :
    (∀ i < 17, (countedRecord i).deficit ≤ defaultConstants.MIN_BLOCKS_PER_CHALLENGE_BLOCK) ∧
      ∀ i j, i < j → j < 17 → (countedRecord i).isChallengeBlock defaultConstants = true →
        (countedRecord j).isChallengeBlock defaultConstants = true →
        i + defaultConstants.MIN_BLOCKS_PER_CHALLENGE_BLOCK ≤ j ∧
          (defaultConstants.MIN_BLOCKS_PER_CHALLENGE_BLOCK ≠ 1 →
            ∃ k, i < k ∧ k ≤ j ∧ 0 < if k = 16 then 1 else 0) :=
  challenge_blocks_spaced deficitRun_countedRecord

end Chives
