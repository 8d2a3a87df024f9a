import Chives.Consensus.PotIterations
import Mathlib.Tactic.Ring
import Mathlib.Tactic.Linarith

set_option autoImplicit false

/-!
# Signage points and infusion points

A sub slot of `I · N` iterations has `N` signage points, `I` iterations apart.  A block whose
signage point has index `i` is infused `E` intervals and `required_iters` iterations later, which
may be in the next sub slot: `calculate_ip_iters` then wraps around.  `consensus/pot_iterations.py`
recognises such an overflow block from its index, `create_unfinished_block` from the wrapped
iterations, and `BlockRecord.sp_sub_slot_total_iters` takes one more slot off its total.

## Main definitions

* `IpIters` — the infusion point of a block, as `calculate_ip_iters` computes it.

## Main results

* `calculateSpIntervalIters_eq_ok`, `calculateSpIters_eq_ok`,
  `calculateIpIters_eq_ok` — what the functions of `pot_iterations.py` return.
* `IpIters.eq_of_not_overflow`, `IpIters.eq_of_overflow` — the infusion point in
  the slot of the signage point, and in the next one.
* `BlockRecord.spTotalIters_eq_ok` — the infusion point of a record lies
  `E · I + required_iters` iterations after its signage point.
* `overflow_agrees` — the three notions of overflow coincide.
-/

namespace Chives

open ExceptRun

variable {constants : ConsensusConstants} {subSlotIters signagePointIndex requiredIters : ℕ}
variable {interval sp ip : ℕ}

/-! ## The functions of `pot_iterations.py` -/

/-- `a % b` of naturals. -/
lemma pyMod_natCast_eq_ok {a b : ℕ} {r : ℤ} :
    pyMod a b = .ok r ↔ b ≠ 0 ∧ r = ((a % b : ℕ) : ℤ) := by
  unfold pyMod
  by_cases hb : b = 0
  · simp [hb]
  · have hmod : Int.fmod (a : ℤ) (b : ℤ) = ((a % b : ℕ) : ℤ) := by
      rw [Int.fmod_eq_emod_of_nonneg _ (Int.natCast_nonneg b), Int.natCast_mod]
    rw [if_neg (by exact_mod_cast hb), hmod]
    constructor
    · intro h
      exact ⟨hb, (Except.ok.inj h).symm⟩
    · rintro ⟨-, rfl⟩
      rfl

lemma calculateSpIntervalIters_eq_ok :
    calculateSpIntervalIters constants subSlotIters = .ok interval ↔
      constants.NUM_SPS_SUB_SLOT ≠ 0 ∧ subSlotIters = interval * constants.NUM_SPS_SUB_SLOT ∧
        interval < 2 ^ 64 := by
  simp only [calculateSpIntervalIters, bind_eq_ok, pyMod_natCast_eq_ok, pyAssert_eq_ok, uint64,
    uintN_eq_ok]
  constructor
  · rintro ⟨r, ⟨hN, rfl⟩, -, hr, hq, hlt⟩
    have hmod : subSlotIters % constants.NUM_SPS_SUB_SLOT = 0 := by exact_mod_cast hr
    have hdiv : subSlotIters / constants.NUM_SPS_SUB_SLOT = interval := by exact_mod_cast hq
    refine ⟨hN, ?_, hlt⟩
    rw [← hdiv, Nat.div_mul_cancel (Nat.dvd_of_mod_eq_zero hmod)]
  · rintro ⟨hN, rfl, hlt⟩
    refine ⟨0, ⟨hN, ?_⟩, (), rfl, ?_, hlt⟩
    · rw [Nat.mul_mod_left]
      rfl
    · rw [Nat.mul_div_cancel _ (Nat.pos_of_ne_zero hN)]

/-- The signage point with index `i` is `i` intervals into its slot. -/
lemma calculateSpIters_eq_ok :
    calculateSpIters constants subSlotIters signagePointIndex = .ok sp ↔
      signagePointIndex < constants.NUM_SPS_SUB_SLOT ∧
        ∃ interval, calculateSpIntervalIters constants subSlotIters = .ok interval ∧
          sp = interval * signagePointIndex ∧ sp < 2 ^ 64 := by
  unfold calculateSpIters
  split
  · rename_i h
    simp [Nat.not_lt.mpr h]
  · rename_i h
    have hlt : signagePointIndex < constants.NUM_SPS_SUB_SLOT := Nat.lt_of_not_le h
    simp only [bind_eq_ok, uint64, uintN_eq_ok, hlt, true_and]
    constructor
    · rintro ⟨interval, hi, hsp, hfit⟩
      exact ⟨interval, hi, by exact_mod_cast hsp.symm, hfit⟩
    · rintro ⟨interval, hi, rfl, hfit⟩
      exact ⟨interval, hi, by push_cast; rfl, hfit⟩

/-- The infusion point `ip` of a block of a slot with intervals of `interval` iterations. -/
structure IpIters (constants : ConsensusConstants)
    (interval signagePointIndex requiredIters ip : ℕ) : Prop where
  index : signagePointIndex < constants.NUM_SPS_SUB_SLOT
  required : 0 < requiredIters
  below : requiredIters < interval
  ip : ip = (interval * signagePointIndex + constants.NUM_SP_INTERVALS_EXTRA * interval +
    requiredIters) % (interval * constants.NUM_SPS_SUB_SLOT)

/-- What `calculate_ip_iters` returns. -/
lemma calculateIpIters_eq_ok :
    calculateIpIters constants subSlotIters signagePointIndex requiredIters = .ok ip ↔
      ∃ interval, calculateSpIntervalIters constants subSlotIters = .ok interval ∧
        calculateSpIters constants subSlotIters signagePointIndex =
          .ok (interval * signagePointIndex) ∧
        IpIters constants interval signagePointIndex requiredIters ip ∧ ip < 2 ^ 64 := by
  simp only [calculateIpIters, bind_eq_ok]
  constructor
  · rintro ⟨sp, hsp, interval, hi, r, hr, hip⟩
    obtain ⟨hlt, interval', hi', rfl, -⟩ := calculateSpIters_eq_ok.mp hsp
    obtain rfl : interval' = interval := by
      rw [hi] at hi'
      exact (Except.ok.inj hi').symm
    obtain ⟨-, hslot, -⟩ := calculateSpIntervalIters_eq_ok.mp hi
    split at hip
    · cases hip
    · split at hip
      · cases hip
      · rename_i hreq
        rw [not_or, Nat.not_le] at hreq
        obtain ⟨hval, hfit⟩ := uintN_eq_ok.mp hip
        refine ⟨interval', hi, hsp, ⟨hlt, Nat.pos_of_ne_zero hreq.2, hreq.1, ?_⟩, hfit⟩
        rw [← hslot]
        exact_mod_cast hval.symm
  · rintro ⟨interval, hi, hsp, h, hfit⟩
    obtain ⟨hN, hslot, -⟩ := calculateSpIntervalIters_eq_ok.mp hi
    have hpos : 0 < interval := lt_trans h.required h.below
    refine ⟨_, hsp, interval, hi, 0, pyMod_natCast_eq_ok.mpr ⟨hpos.ne', ?_⟩, ?_⟩
    · rw [Nat.mul_mod_right]
      rfl
    · have hstart : interval * signagePointIndex < subSlotIters := by
        rw [hslot]
        exact Nat.mul_lt_mul_of_pos_left h.index hpos
      rw [if_neg (by simpa using hstart), if_neg (by simpa using ⟨h.below, h.required.ne'⟩)]
      refine uintN_eq_ok.mpr ⟨?_, hfit⟩
      rw [h.ip, ← hslot]

/-- A signage point is an overflow one from `E` indices before the end of the slot on. -/
lemma isOverflowBlock_eq_ok {overflow : Bool} :
    isOverflowBlock constants signagePointIndex = .ok overflow ↔
      signagePointIndex < constants.NUM_SPS_SUB_SLOT ∧
        overflow = decide (constants.NUM_SPS_SUB_SLOT ≤
          signagePointIndex + constants.NUM_SP_INTERVALS_EXTRA) := by
  unfold isOverflowBlock
  split
  · rename_i h
    simp [Nat.not_lt.mpr h]
  · rename_i h
    simp only [Except.ok.injEq, Nat.lt_of_not_le h, true_and, ge_iff_le]
    exact eq_comm

/-! ## Infusion points -/

namespace IpIters

variable (h : IpIters constants interval signagePointIndex requiredIters ip)
include h

lemma lt : ip < interval * constants.NUM_SPS_SUB_SLOT := by
  rw [h.ip]
  exact Nat.mod_lt _ (Nat.mul_pos (lt_trans h.required h.below) (Nat.zero_lt_of_lt h.index))

lemma eq_of_not_overflow (hof : signagePointIndex + constants.NUM_SP_INTERVALS_EXTRA <
      constants.NUM_SPS_SUB_SLOT) :
    ip = interval * signagePointIndex + constants.NUM_SP_INTERVALS_EXTRA * interval +
      requiredIters := by
  have hle : interval * (signagePointIndex + constants.NUM_SP_INTERVALS_EXTRA + 1) ≤
      interval * constants.NUM_SPS_SUB_SLOT := Nat.mul_le_mul_left _ hof
  have hbelow := h.below
  rw [h.ip, Nat.mod_eq_of_lt]
  linarith [mul_comm constants.NUM_SP_INTERVALS_EXTRA interval,
    mul_add interval (signagePointIndex + constants.NUM_SP_INTERVALS_EXTRA) 1,
    mul_add interval signagePointIndex constants.NUM_SP_INTERVALS_EXTRA]

lemma eq_of_overflow
    (hE : constants.NUM_SP_INTERVALS_EXTRA < constants.NUM_SPS_SUB_SLOT)
    (hof : constants.NUM_SPS_SUB_SLOT ≤ signagePointIndex + constants.NUM_SP_INTERVALS_EXTRA) :
    ip + interval * constants.NUM_SPS_SUB_SLOT =
        interval * signagePointIndex + constants.NUM_SP_INTERVALS_EXTRA * interval +
          requiredIters ∧
      ip < interval * constants.NUM_SP_INTERVALS_EXTRA := by
  obtain ⟨d, hd⟩ := Nat.exists_eq_add_of_le hof
  have hindex := h.index
  have hlt : interval * d + requiredIters < interval * constants.NUM_SPS_SUB_SLOT := by
    have hle : interval * (d + 1) ≤ interval * constants.NUM_SPS_SUB_SLOT :=
      Nat.mul_le_mul_left _ (by omega)
    have hbelow := h.below
    rw [mul_add, mul_one] at hle
    omega
  have hsum : interval * signagePointIndex + constants.NUM_SP_INTERVALS_EXTRA * interval +
      requiredIters = (interval * d + requiredIters) + interval * constants.NUM_SPS_SUB_SLOT := by
    rw [mul_comm constants.NUM_SP_INTERVALS_EXTRA, ← mul_add, hd]
    ring
  have hip : ip = interval * d + requiredIters := by
    rw [h.ip, hsum, Nat.add_mod_right, Nat.mod_eq_of_lt hlt]
  refine ⟨by rw [hip, hsum], ?_⟩
  have hle : interval * (d + 1) ≤ interval * constants.NUM_SP_INTERVALS_EXTRA :=
    Nat.mul_le_mul_left _ (by omega)
  have hbelow := h.below
  rw [mul_add, mul_one] at hle
  omega

lemma not_dvd : ¬interval ∣ ip := by
  intro hdvd
  have hmod : ip % interval = requiredIters := by
    rw [h.ip, Nat.mod_mul_right_mod, mul_comm constants.NUM_SP_INTERVALS_EXTRA, ← mul_add,
      Nat.mul_add_mod, Nat.mod_eq_of_lt h.below]
  have hpos := h.required
  rw [Nat.mod_eq_zero_of_dvd hdvd] at hmod
  omega

lemma lt_iff_overflow (hE : constants.NUM_SP_INTERVALS_EXTRA < constants.NUM_SPS_SUB_SLOT) :
    ip < interval * signagePointIndex ↔
      constants.NUM_SPS_SUB_SLOT ≤ signagePointIndex + constants.NUM_SP_INTERVALS_EXTRA := by
  constructor
  · intro hlt
    by_contra hof
    have hip := h.eq_of_not_overflow (Nat.lt_of_not_le hof)
    omega
  · intro hof
    obtain ⟨hip, -⟩ := h.eq_of_overflow hE hof
    -- `E` intervals and the required iterations do not fill a slot
    have hle : interval * (constants.NUM_SP_INTERVALS_EXTRA + 1) ≤
        interval * constants.NUM_SPS_SUB_SLOT := Nat.mul_le_mul_left _ hE
    have hbelow := h.below
    rw [mul_add, mul_one] at hle
    rw [mul_comm constants.NUM_SP_INTERVALS_EXTRA] at hip
    omega

end IpIters

/-! ## The total iterations of a record -/

namespace BlockRecord

variable {b : BlockRecord}

/-- The infusion point of a block with a right overflow flag lies `E` intervals and the required
iterations after its signage point. -/
lemma spTotalIters_eq_ok (hE : constants.NUM_SP_INTERVALS_EXTRA < constants.NUM_SPS_SUB_SLOT)
    (hinterval : calculateSpIntervalIters constants b.subSlotIters = .ok interval)
    (hip : b.ipIters constants = .ok ip)
    (hoverflow : isOverflowBlock constants b.signagePointIndex = .ok b.overflow)
    (hfit : b.totalIters < 2 ^ 128)
    (htotal : ip + (if b.overflow then b.subSlotIters else 0) ≤ b.totalIters) :
    ∃ total, b.spTotalIters constants = .ok total ∧
      b.totalIters = total + constants.NUM_SP_INTERVALS_EXTRA * interval + b.requiredIters := by
  obtain ⟨interval', hi, hsp, h, -⟩ := calculateIpIters_eq_ok.mp hip
  obtain rfl : interval' = interval := by
    rw [hinterval] at hi
    exact (Except.ok.inj hi).symm
  obtain ⟨-, hslot, -⟩ := calculateSpIntervalIters_eq_ok.mp hinterval
  obtain ⟨-, hflag⟩ := isOverflowBlock_eq_ok.mp hoverflow
  -- the start of the slot of the signage point
  set start := b.totalIters - ip - (if b.overflow then b.subSlotIters else 0) with hstart
  have hslotTotal : b.spSubSlotTotalIters constants = .ok start := by
    rw [spSubSlotTotalIters, hip, ok_bind]
    cases hb : b.overflow <;>
      simp only [hb, Bool.false_eq_true, if_true, if_false, uint128, uintN_eq_ok] at htotal hstart ⊢ <;>
      omega
  have hsum : start + interval' * b.signagePointIndex +
      constants.NUM_SP_INTERVALS_EXTRA * interval' + b.requiredIters = b.totalIters := by
    cases hb : b.overflow with
    | false =>
      rw [hb] at hflag
      simp only [hb, Bool.false_eq_true, if_false] at htotal hstart
      have := h.eq_of_not_overflow (Nat.lt_of_not_le (of_decide_eq_false hflag.symm))
      omega
    | true =>
      rw [hb] at hflag
      simp only [hb, if_true] at htotal hstart
      obtain ⟨hwrap, -⟩ := h.eq_of_overflow hE (of_decide_eq_true hflag.symm)
      omega
  refine ⟨start + interval' * b.signagePointIndex, ?_, by omega⟩
  rw [spTotalIters, hslotTotal, ok_bind, spIters, hsp, ok_bind, uint128, uintN_eq_ok]
  omega

end BlockRecord

/-- **Overflow is one notion.** Wherever `calculate_ip_iters` does not raise, a block is an
overflow block if and only if its infusion point comes before its signage point, its infusion
point is no multiple of the signage point interval, and a record of it with the right overflow
flag has its signage point `E` intervals and the required iterations before its total. -/
theorem overflow_agrees (hE : constants.NUM_SP_INTERVALS_EXTRA < constants.NUM_SPS_SUB_SLOT)
    (hip : calculateIpIters constants subSlotIters signagePointIndex requiredIters = .ok ip) :
    ∃ sp interval overflow,
      calculateSpIters constants subSlotIters signagePointIndex = .ok sp ∧
      calculateSpIntervalIters constants subSlotIters = .ok interval ∧
      isOverflowBlock constants signagePointIndex = .ok overflow ∧
      (overflow = true ↔ sp > ip) ∧
      ¬interval ∣ ip ∧
      ∀ b : BlockRecord, b.subSlotIters = subSlotIters → b.signagePointIndex = signagePointIndex →
        b.requiredIters = requiredIters → b.overflow = overflow → b.totalIters < 2 ^ 128 →
        ip + (if b.overflow then b.subSlotIters else 0) ≤ b.totalIters →
        ∃ total, b.spTotalIters constants = .ok total ∧
          b.totalIters =
            total + constants.NUM_SP_INTERVALS_EXTRA * interval + b.requiredIters := by
  obtain ⟨interval, hi, hsp, h, -⟩ := calculateIpIters_eq_ok.mp hip
  have hover := isOverflowBlock_eq_ok.mpr ⟨h.index, rfl⟩
  refine ⟨_, interval, _, hsp, hi, hover, ?_, h.not_dvd, ?_⟩
  · rw [decide_eq_true_iff]
    exact (h.lt_iff_overflow hE).symm
  · rintro b rfl rfl rfl hb hfit htotal
    exact b.spTotalIters_eq_ok hE hi hip (hb ▸ hover) hfit htotal

/-- The default constants and the signage point 62 of 64, which overflows. -/
theorem overflow_agrees_62 : defaultConstants.NUM_SP_INTERVALS_EXTRA <
      defaultConstants.NUM_SPS_SUB_SLOT ∧
    calculateIpIters defaultConstants 6400 62 7 = .ok 107 ∧
    ∃ sp interval overflow,
      calculateSpIters defaultConstants 6400 62 = .ok sp ∧
      calculateSpIntervalIters defaultConstants 6400 = .ok interval ∧
      isOverflowBlock defaultConstants 62 = .ok overflow ∧
      (overflow = true ↔ sp > 107) ∧
      ¬interval ∣ 107 ∧
      ∀ b : BlockRecord, b.subSlotIters = 6400 → b.signagePointIndex = 62 →
        b.requiredIters = 7 → b.overflow = overflow → b.totalIters < 2 ^ 128 →
        107 + (if b.overflow then b.subSlotIters else 0) ≤ b.totalIters →
        ∃ total, b.spTotalIters defaultConstants = .ok total ∧
          b.totalIters =
            total + defaultConstants.NUM_SP_INTERVALS_EXTRA * interval + b.requiredIters :=
  ⟨by decide, by decide, overflow_agrees (by decide) (by decide)⟩

end Chives
