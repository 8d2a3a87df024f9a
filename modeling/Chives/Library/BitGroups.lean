import Mathlib.Data.Nat.Bitwise
import Mathlib.Tactic

set_option autoImplicit false

/-!
# Groups of bits

Bit strings as the numbers of groups of a fixed width, the most significant bit of each group first.

## Main definitions

* `BitGroups.ofUint`, `BitGroups.uint` — a number as bits, and the number of some bits.
* `BitGroups.groups`, `BitGroups.join` — the numbers of the groups, and the bits of such numbers.

## Main results

* `BitGroups.uint_ofUint`, `BitGroups.ofUint_uint` — numbers of a width are its bit strings.
* `BitGroups.groups_join`, `BitGroups.join_groups` — the same for the groups of a bit string.
-/

namespace BitGroups

/-- A number as `w` bits. -/
def ofUint : ℕ → ℕ → List Bool
  | 0, _ => []
  | w + 1, v => ofUint w (v / 2) ++ [decide (v % 2 = 1)]

/-- The number that the bits stand for. -/
def uint (l : List Bool) : ℕ := l.foldl (fun v bit => 2 * v + bit.toNat) 0

@[simp] lemma length_ofUint (w v : ℕ) : (ofUint w v).length = w := by
  induction w generalizing v with
  | zero => rfl
  | succ w ih => simp [ofUint, ih]

lemma uint_concat (l : List Bool) (bit : Bool) : uint (l ++ [bit]) = 2 * uint l + bit.toNat := by
  simp [uint]

variable {w : ℕ} {l : List Bool}

lemma uint_ofUint {v : ℕ} (h : v < 2 ^ w) : uint (ofUint w v) = v := by
  induction w generalizing v with
  | zero =>
    have hzero : v = 0 := by simpa using h
    simp [ofUint, uint, hzero]
  | succ w ih =>
    have hhalf : v / 2 < 2 ^ w := by
      rw [pow_succ] at h
      omega
    rw [ofUint, uint_concat, ih hhalf]
    rcases Nat.mod_two_eq_zero_or_one v with hbit | hbit
    · simp only [hbit, zero_ne_one, decide_false, Bool.toNat_false]
      omega
    · simp only [hbit, decide_true, Bool.toNat_true]
      omega

lemma uint_lt_and_ofUint (l : List Bool) : uint l < 2 ^ l.length ∧ ofUint l.length (uint l) = l := by
  induction l using List.reverseRecOn with
  | nil => exact ⟨Nat.one_pos, rfl⟩
  | append_singleton l bit ih =>
    obtain ⟨hlt, hbits⟩ := ih
    rw [uint_concat, List.length_append, List.length_singleton, pow_succ, ofUint]
    have hbit := bit.toNat_le
    refine ⟨by omega, ?_⟩
    rw [show (2 * uint l + bit.toNat) / 2 = uint l by omega, hbits]
    cases bit <;> simp

lemma ofUint_uint (h : l.length = w) : ofUint w (uint l) = l := h ▸ (uint_lt_and_ofUint l).2

/-- The numbers of the groups of `w` bits. -/
def groups (w : ℕ) (l : List Bool) : List ℕ :=
  (List.range (l.length / w)).map fun i => uint ((l.drop (i * w)).take w)

/-- The bits of numbers of `w` bits. -/
def join (w : ℕ) (vs : List ℕ) : List Bool := vs.flatMap (ofUint w)

lemma length_join (w : ℕ) (vs : List ℕ) : (join w vs).length = vs.length * w := by
  simp [join, List.length_flatMap]

lemma lt_of_mem_groups {v : ℕ} (h : v ∈ groups w l) : v < 2 ^ w := by
  obtain ⟨i, -, rfl⟩ := List.mem_map.mp h
  refine (uint_lt_and_ofUint _).1.trans_le (Nat.pow_le_pow_right two_pos ?_)
  rw [List.length_take]
  omega

lemma groups_append {x : List Bool} (hw : 0 < w) (hx : x.length = w) (l : List Bool) :
    groups w (x ++ l) = uint x :: groups w l := by
  have hcount : (x ++ l).length / w = l.length / w + 1 := by
    rw [List.length_append, hx, Nat.add_comm, Nat.add_div_right _ hw]
  rw [groups, hcount, List.range_succ_eq_map, List.map_cons, List.map_map, groups]
  congr 1
  · rw [Nat.zero_mul, List.drop_zero, List.take_left' hx]
  · refine List.map_congr_left fun i _ => ?_
    rw [Function.comp_apply, Nat.succ_mul, Nat.add_comm, ← List.drop_drop, List.drop_left' hx]

lemma groups_join {vs : List ℕ} (hw : 0 < w) (h : ∀ v ∈ vs, v < 2 ^ w) : groups w (join w vs) = vs := by
  induction vs with
  | nil => simp [join, groups]
  | cons v vs ih =>
    rw [join, List.flatMap_cons, groups_append hw (length_ofUint w v), uint_ofUint (h v List.mem_cons_self)]
    exact congrArg (v :: ·) (ih fun u hu => h u (List.mem_cons_of_mem v hu))

lemma join_groups {n : ℕ} (hw : 0 < w) (h : l.length = n * w) : join w (groups w l) = l := by
  induction n generalizing l with
  | zero =>
    obtain rfl : l = [] := by simpa using h
    simp [join, groups]
  | succ n ih =>
    rw [Nat.succ_mul] at h
    have hfirst : (l.take w).length = w := by
      rw [List.length_take]
      omega
    have hrest : (l.drop w).length = n * w := by
      rw [List.length_drop]
      omega
    have hgroups := groups_append hw hfirst (l.drop w)
    rw [List.take_append_drop] at hgroups
    rw [hgroups, join, List.flatMap_cons, ofUint_uint hfirst]
    exact (congrArg (l.take w ++ ·) (ih hrest)).trans (List.take_append_drop w l)

end BitGroups
