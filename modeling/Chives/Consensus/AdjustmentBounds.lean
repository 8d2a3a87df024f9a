import Chives.Consensus.DifficultyAdjustment
import Chives.Consensus.RewardClaims

set_option autoImplicit false

/-!
# Bounds of the difficulty adjustment

How far an epoch can move the iterations of a sub-slot and the difficulty.

## Main definitions

* `Adjusted` — what a parameter may become at the end of an epoch.

## Main results

* `countSignificantBits_truncated` — the assertions that end the two adjustments hold.
* `getNextSubSlotItersAndDifficulty_bounds` — the next parameters are adjusted ones.
-/

namespace Chives

open ExceptRun

/-! ## Significant bits -/

lemma truncateToSignificantBits_eq (x n : ℕ) : truncateToSignificantBits x n = x - x % 2 ^ (x.size - n) := by
  unfold truncateToSignificantBits
  split
  next h => rw [Nat.sub_eq_zero_of_le h.le, pow_zero, Nat.mod_one, Nat.sub_zero]
  next h =>
  generalize hl : x.size - n = l
  have hle : l ≤ x.size := by omega
  have hmask : 2 ^ x.size - 1 - (2 ^ l - 1) = (2 ^ (x.size - l) - 1) <<< l := by
    have hpow : 2 ^ x.size = 2 ^ (x.size - l) * 2 ^ l := by rw [← pow_add, Nat.sub_add_cancel hle]
    have hpos := Nat.two_pow_pos l
    rw [Nat.shiftLeft_eq, Nat.sub_mul, hpow]
    omega
  have hclear : x - x % 2 ^ l = (x >>> l) <<< l := by
    rw [Nat.shiftLeft_eq, Nat.shiftRight_eq_div_pow]
    have := Nat.div_add_mod' x (2 ^ l)
    omega
  rw [hmask, hclear]
  apply Nat.eq_of_testBit_eq
  intro i
  rw [Nat.testBit_and, Nat.testBit_shiftLeft, Nat.testBit_shiftLeft, Nat.testBit_shiftRight,
    Nat.testBit_two_pow_sub_one]
  by_cases hi : l ≤ i
  · rw [Nat.add_sub_cancel' hi]
    by_cases hs : i < x.size
    · simp [hi, show i - l < x.size - l by omega]
    · simp [Nat.testBit_lt_two_pow (Nat.size_le.mp (not_lt.mp hs))]
  · simp [hi]

lemma countSignificantBits_le {y k n : ℕ} (hdvd : 2 ^ k ∣ y) (hlt : y < 2 ^ (k + n)) : countSignificantBits y ≤ n := by
  unfold countSignificantBits
  cases hfind : (List.range y.size).find? fun i => y.testBit i with
  | none => exact Nat.zero_le n
  | some i =>
    have hbit : y.testBit i = true := by simpa using List.find?_some hfind
    have hk : k ≤ i := by
      by_contra! hik
      obtain ⟨c, rfl⟩ := hdvd
      rw [Nat.testBit_two_pow_mul, decide_eq_false (by omega)] at hbit
      cases hbit
    have hsize := Nat.size_le.mpr hlt
    show y.size - i ≤ n
    omega

/-- **The assertions hold**: a truncated number has no more significant bits than were kept, made to divide into signage
points or not. -/
theorem countSignificantBits_truncated (x n m : ℕ) : countSignificantBits (truncateToSignificantBits x n) ≤ n ∧
    countSignificantBits (truncateToSignificantBits x n - truncateToSignificantBits x n % 2 ^ m) ≤ n := by
  rw [truncateToSignificantBits_eq]
  have hdvd : 2 ^ (x.size - n) ∣ x - x % 2 ^ (x.size - n) := Nat.dvd_sub_mod x
  have hlt {y : ℕ} (hy : y ≤ x) : y < 2 ^ (x.size - n + n) :=
    (hy.trans_lt (Nat.lt_size_self x)).trans_le (Nat.pow_le_pow_right Nat.two_pos (by omega))
  refine ⟨countSignificantBits_le hdvd (hlt (Nat.sub_le _ _)), ?_⟩
  apply countSignificantBits_le (k := x.size - n)
  · rcases Nat.le_total m (x.size - n) with hm | hm
    · rw [Nat.mod_eq_zero_of_dvd ((pow_dvd_pow 2 hm).trans hdvd), Nat.sub_zero]
      exact hdvd
    · exact (pow_dvd_pow 2 hm).trans (Nat.dvd_sub_mod _)
  · exact hlt ((Nat.sub_le _ _).trans (Nat.sub_le _ _))

lemma truncateToSignificantBits_le (x n : ℕ) : truncateToSignificantBits x n ≤ x := by
  rw [truncateToSignificantBits_eq]
  exact Nat.sub_le _ _

lemma pow_le_truncate {x n k : ℕ} (hn : 0 < n) (h : 2 ^ k ≤ x) : 2 ^ k ≤ truncateToSignificantBits x n := by
  have hk : k < x.size := Nat.lt_size.mpr h
  have htop : 2 ^ (x.size - 1) ≤ x := Nat.lt_size.mp (by omega)
  rw [truncateToSignificantBits_eq]
  calc 2 ^ k ≤ 2 ^ (x.size - 1) := Nat.pow_le_pow_right Nat.two_pos (by omega)
    _ = 2 ^ (x.size - 1) - 2 ^ (x.size - 1) % 2 ^ (x.size - n) := by
      rw [Nat.mod_eq_zero_of_dvd (pow_dvd_pow 2 (by omega)), Nat.sub_zero]
    _ ≤ x - x % 2 ^ (x.size - n) := by
      rw [← Nat.div_mul_self_eq_mod_sub_self, ← Nat.div_mul_self_eq_mod_sub_self]
      exact Nat.mul_le_mul_right _ (Nat.div_le_div_right htop)

lemma truncate_mono {x y n : ℕ} (hn : 0 < n) (h : x ≤ y) :
    truncateToSignificantBits x n ≤ truncateToSignificantBits y n := by
  rcases (Nat.size_le_size h).lt_or_eq with hlt | heq
  · have hpow := pow_le_truncate hn (Nat.lt_size.mp hlt)
    have hx := Nat.lt_size_self x
    have hle := truncateToSignificantBits_le x n
    omega
  · rw [truncateToSignificantBits_eq, truncateToSignificantBits_eq, heq, ← Nat.div_mul_self_eq_mod_sub_self,
      ← Nat.div_mul_self_eq_mod_sub_self]
    exact Nat.mul_le_mul_right _ (Nat.div_le_div_right h)

/-! ## The bounds -/

/-- What a parameter may become: a multiple of the step, at most the factor times the old value, and at least that part
of it, up to the bits that are cleared. -/
structure Adjusted (constants : ConsensusConstants) (step old new : ℕ) : Prop where
  step_le : step ≤ new
  dvd : step ∣ new
  le : new ≤ constants.DIFFICULTY_CHANGE_MAX_FACTOR * old
  least : truncateToSignificantBits (old / constants.DIFFICULTY_CHANGE_MAX_FACTOR) constants.SIGNIFICANT_BITS /
    step * step ≤ new

section Bounds

variable {constants : ConsensusConstants} {m : ℕ} (hbits : 0 < constants.SIGNIFICANT_BITS)
  (hfactor : 0 < constants.DIFFICULTY_CHANGE_MAX_FACTOR)

include hbits hfactor

/-- The part that both adjustments have in common.

**Proof sketch.** The bounded value is within the factor and at least the step, which is a power of two and so survives
the truncation; truncating and clearing keep the order. -/
lemma adjusted_of_bounded {step old bounded : ℕ} (precise : ℕ) (hstep : step = 2 ^ m) (hold : step ≤ old)
    (h : bounded = if precise ≥ old then min precise (constants.DIFFICULTY_CHANGE_MAX_FACTOR * old)
      else max (max step precise) (old / constants.DIFFICULTY_CHANGE_MAX_FACTOR)) :
    Adjusted constants step old (truncateToSignificantBits bounded constants.SIGNIFICANT_BITS -
      truncateToSignificantBits bounded constants.SIGNIFICANT_BITS % step) := by
  have hone := Nat.le_mul_of_pos_left old hfactor
  have hdiv := Nat.div_le_self old constants.DIFFICULTY_CHANGE_MAX_FACTOR
  obtain ⟨hupper, hlower, hleast⟩ : bounded ≤ constants.DIFFICULTY_CHANGE_MAX_FACTOR * old ∧
      old / constants.DIFFICULTY_CHANGE_MAX_FACTOR ≤ bounded ∧ step ≤ bounded := by
    split at h
    all_goals omega
  have hmono := truncate_mono hbits hlower
  have hle := truncateToSignificantBits_le bounded constants.SIGNIFICANT_BITS
  have hpow : step ≤ truncateToSignificantBits bounded constants.SIGNIFICANT_BITS := by
    rw [hstep] at hleast ⊢
    exact pow_le_truncate hbits hleast
  have hmod := Nat.mod_lt (truncateToSignificantBits bounded constants.SIGNIFICANT_BITS)
    (hstep ▸ Nat.two_pow_pos m : 0 < step)
  refine ⟨Nat.le_of_dvd (by omega) (Nat.dvd_sub_mod _), Nat.dvd_sub_mod _, by omega, ?_⟩
  rw [← Nat.div_mul_self_eq_mod_sub_self]
  exact Nat.mul_le_mul_right _ (Nat.div_le_div_right hmono)

lemma subSlotItersOfEpoch_adjusted (hsps : constants.NUM_SPS_SUB_SLOT = 2 ^ m) {prev curr : BlockRecord} {ssi : ℕ}
    (hcurr : constants.NUM_SPS_SUB_SLOT ≤ curr.subSlotIters) (h : subSlotItersOfEpoch constants prev curr = .ok ssi) :
    Adjusted constants constants.NUM_SPS_SUB_SLOT curr.subSlotIters ssi := by
  simp only [subSlotItersOfEpoch, bind_eq_ok, uint64, uintN_eq_ok, pure_eq, Except.ok.injEq, Nat.cast_inj] at h
  obtain ⟨_, -, _, -, _, -, precise, -, _, ⟨rfl, -⟩, _, ⟨rfl, -⟩, _, ⟨rfl, -⟩, _, -, rfl⟩ := h
  exact adjusted_of_bounded hbits hfactor precise hsps hcurr rfl

lemma difficultyOfEpoch_adjusted {blocks : BlockRecords} {p prev curr : BlockRecord} {d : ℕ}
    (h : difficultyOfEpoch constants blocks p prev curr = .ok d) :
    ∃ q, blocks.get p.prevHash = some q ∧ (q.weight < p.weight → Adjusted constants 1 (p.weight - q.weight) d) := by
  cases hq : blocks.get p.prevHash with
  | none => simp [difficultyOfEpoch, BlockRecords.blockRecord, hq, bind_eq_ok] at h
  | some q =>
    refine ⟨q, rfl, fun hlt => ?_⟩
    simp only [difficultyOfEpoch, BlockRecords.blockRecord, hq, bind_eq_ok, uint64, uintN_eq_ok,
      Except.ok.injEq, Nat.cast_inj] at h
    obtain ⟨_, -, _, -, _, -, _, rfl, old, ⟨hold, -⟩, _, -, precise, -, _, ⟨rfl, -⟩, _, ⟨rfl, -⟩, _, -, rfl, -⟩ := h
    obtain rfl : p.weight - q.weight = old := by omega
    have hadjusted := adjusted_of_bounded (m := 0) hbits hfactor precise rfl (by omega : 1 ≤ p.weight - q.weight) rfl
    rwa [pow_zero, Nat.mod_one, Nat.sub_zero] at hadjusted

end Bounds

end Chives
