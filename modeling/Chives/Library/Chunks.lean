import Mathlib.Data.List.Basic
import Mathlib.Tactic

set_option autoImplicit false

/-!
# Chunks of a list

Consecutive pieces of a list, all of the same length but the last.

## Main definitions

* `Chunks.chunksOf` — the pieces.

## Main results

* `Chunks.flatten_chunksOf` — the pieces make up the list.
* `Chunks.ne_nil_of_mem_chunksOf` — no piece is empty.
-/

namespace Chunks

variable {α : Type}

/-- `l[i : i + n] for i in range(0, len(l), n)`. -/
def chunksOf (n : ℕ) (l : List α) : List (List α) :=
  (List.range ((l.length + n - 1) / n)).map fun c => (l.drop (c * n)).take n

lemma flatten_range_take (n m : ℕ) (l : List α) :
    ((List.range m).map fun c => (l.drop (c * n)).take n).flatten = l.take (m * n) := by
  induction m with
  | zero => simp
  | succ m ih =>
    rw [List.range_succ, List.map_append, List.flatten_append, ih, Nat.succ_mul, List.take_add]
    simp

lemma flatten_chunksOf {n : ℕ} (hn : 0 < n) (l : List α) : (chunksOf n l).flatten = l := by
  rw [chunksOf, flatten_range_take]
  apply List.take_of_length_le
  have hdiv := Nat.div_add_mod (l.length + n - 1) n
  have hmod := Nat.mod_lt (l.length + n - 1) hn
  rw [mul_comm]
  omega

lemma ne_nil_of_mem_chunksOf {n : ℕ} (hn : 0 < n) {l chunk : List α} (h : chunk ∈ chunksOf n l) : chunk ≠ [] := by
  obtain ⟨i, hi, rfl⟩ := List.mem_map.mp h
  rw [List.mem_range, Nat.lt_div_iff_mul_lt hn] at hi
  apply List.ne_nil_of_length_pos
  rw [List.length_take, List.length_drop]
  omega

end Chunks
