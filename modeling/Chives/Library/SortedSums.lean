import Mathlib.Algebra.Order.BigOperators.Group.Finset
import Mathlib.Tactic

set_option autoImplicit false

/-!
# Sums of the largest and of the smallest elements

In a list of numbers in descending order the first elements have the greatest sum among as many elements, and
the last ones the smallest.

## Main results

* `SortedSums.sum_le_sum_take` — no more than `k` elements have a greater sum than the first `k`.
* `SortedSums.sum_drop_le_sum` — no `k` elements have a smaller sum than the last `k`.
* `SortedSums.sum_le_sum_of_card_le` — the same for finite sets.
* `SortedSums.exists_window` — `k` elements whose sum is too small, and which the first element completes.
-/

namespace SortedSums

variable {l l' : List ℕ} {k : ℕ}

section

variable (hl : l.Pairwise (· ≥ ·))

include hl

/-- A sublist of at most `k` elements has at most the sum of the first `k`.

**Proof sketch.** Induction on the list. If the first element is not in the sublist, it is at least as great as the one that
the sublist has last among the first `k`. -/
lemma sum_le_sum_take_of_sublist (h : l'.Sublist l) (hk : l'.length ≤ k) : l'.sum ≤ (l.take k).sum := by
  induction hl generalizing l' k with
  | nil => simp [List.sublist_nil.mp h]
  | @cons a l ha hl ih =>
    cases k with
    | zero => simp [List.length_eq_zero_iff.mp (Nat.le_zero.mp hk)]
    | succ k =>
      rw [List.take_succ_cons, List.sum_cons]
      cases l' with
      | nil => simp
      | cons b l' =>
        rw [List.sum_cons]
        have hlen : l'.length ≤ k := Nat.le_of_succ_le_succ hk
        have hb : b ≤ a := by
          rcases List.mem_cons.mp (h.subset List.mem_cons_self) with rfl | hmem
          · exact le_rfl
          · exact ha b hmem
        have hrest : l'.Sublist l := by
          cases h with
          | cons _ h => exact (List.sublist_cons_self b l').trans h
          | cons_cons _ h => exact h
        exact Nat.add_le_add hb (ih hrest hlen)

theorem sum_le_sum_take (h : l'.Subperm l) (hk : l'.length ≤ k) : l'.sum ≤ (l.take k).sum := by
  obtain ⟨m, hperm, hsub⟩ := h
  rw [← hperm.sum_eq]
  exact sum_le_sum_take_of_sublist hl hsub (hperm.length_eq.trans_le hk)

/-- A sublist of at least `k` elements has at least the sum of the last `k`. -/
lemma sum_drop_le_sum_of_sublist (h : l'.Sublist l) (hk : k ≤ l'.length) : (l.drop (l.length - k)).sum ≤ l'.sum := by
  induction h generalizing k with
  | slnil => simp
  | @cons l' l a h ih =>
    obtain ⟨-, hl⟩ := List.pairwise_cons.mp hl
    have hle : k ≤ l.length := hk.trans h.length_le
    rw [List.length_cons, Nat.succ_sub hle, List.drop_succ_cons]
    exact ih hl hk
  | @cons_cons l' l a h ih =>
    obtain ⟨ha, hl⟩ := List.pairwise_cons.mp hl
    rw [List.sum_cons]
    rcases Nat.lt_or_ge l'.length k with hlt | hle
    · -- all elements of the sublist are needed
      obtain rfl : k = l'.length + 1 := by
        rw [List.length_cons] at hk
        omega
      have hrest := ih hl le_rfl
      have hlen := h.length_le
      rcases Nat.lt_or_ge l'.length l.length with hshort | hfull
      · -- the element before the last ones is at most the first one
        obtain ⟨n, hn⟩ : ∃ n, l.length - l'.length = n + 1 := ⟨l.length - l'.length - 1, by omega⟩
        have hdrop : (a :: l).length - (l'.length + 1) = n + 1 := by
          rw [List.length_cons]
          omega
        have hlt : n < l.length := by omega
        rw [hdrop, List.drop_succ_cons, List.drop_eq_getElem_cons hlt, List.sum_cons, ← hn]
        exact Nat.add_le_add (ha _ (List.getElem_mem hlt)) hrest
      · have hdrop : (a :: l).length - (l'.length + 1) = 0 := by
          rw [List.length_cons]
          omega
        have hzero : l.length - l'.length = 0 := by omega
        rw [hzero, List.drop_zero] at hrest
        rw [hdrop, List.drop_zero, List.sum_cons]
        exact Nat.add_le_add_left hrest a
    · have hlen := h.length_le
      have hle' : k ≤ l.length := hle.trans hlen
      rw [List.length_cons, Nat.succ_sub hle', List.drop_succ_cons]
      exact (ih hl hle).trans (Nat.le_add_left _ _)

theorem sum_drop_le_sum (h : l'.Subperm l) (hk : k ≤ l'.length) : (l.drop (l.length - k)).sum ≤ l'.sum := by
  obtain ⟨m, hperm, hsub⟩ := h
  rw [← hperm.sum_eq]
  exact sum_drop_le_sum_of_sublist hl hsub (hk.trans_eq hperm.length_eq.symm)

end

/-- Where the first `k + 1` elements reach a bound that the last `k` do not reach, some `k` elements after the first one do not
reach it either, and reach it with the first one.

**Proof sketch.** The windows of `k` elements have descending sums. The first window after the head that does not reach the
bound is completed by the head: it is either the one after the head, or it reaches the bound with the element before it. -/
theorem exists_window {α : Type} {f : α → ℕ} {a : α} {l : List α} {b : ℕ} (ha : ∀ x ∈ l, f x ≤ f a) (hk : k ≤ l.length)
    (hlast : ((l.drop (l.length - k)).map f).sum < b) (hfirst : b ≤ f a + ((l.take k).map f).sum) :
    ∃ before window after, l = before ++ window ++ after ∧ window.length = k ∧ (window.map f).sum < b ∧
      b ≤ f a + (window.map f).sum := by
  induction l with
  | nil =>
    obtain rfl : k = 0 := Nat.le_zero.mp hk
    exact ⟨[], [], [], rfl, rfl, by simpa using hlast, by simpa using hfirst⟩
  | cons c l ih =>
    by_cases htake : (((c :: l).take k).map f).sum < b
    · exact ⟨[], (c :: l).take k, (c :: l).drop k, by simp, by simpa using hk, htake, hfirst⟩
    · have hlen : k ≤ l.length := by
        by_contra hlt
        obtain rfl : k = (c :: l).length := by
          rw [List.length_cons] at hk ⊢
          omega
        rw [Nat.sub_self, List.drop_zero] at hlast
        rw [List.take_length] at htake
        exact htake hlast
      have hdrop : ((l.drop (l.length - k)).map f).sum < b := by
        rwa [List.length_cons, Nat.succ_sub hlen, List.drop_succ_cons] at hlast
      have hnext : b ≤ f a + ((l.take k).map f).sum := by
        cases k with
        | zero =>
          simp only [List.take_zero, List.map_nil, List.sum_nil] at htake ⊢
          omega
        | succ k =>
          rw [List.take_succ_cons, List.map_cons, List.sum_cons] at htake
          have hc : f c ≤ f a := ha c List.mem_cons_self
          have hmono : ((l.take k).map f).sum ≤ ((l.take (k + 1)).map f).sum :=
            ((List.take_sublist_take_left (Nat.le_succ k)).map f).sum_le_sum fun _ _ => Nat.zero_le _
          omega
      obtain ⟨before, window, after, hsplit, hrest⟩ :=
        ih (fun x hx => ha x (List.mem_cons_of_mem c hx)) hlen hdrop hnext
      exact ⟨c :: before, window, after, by rw [hsplit]; rfl, hrest⟩

theorem sum_le_sum_of_card_le {α : Type} [DecidableEq α] {f : α → ℕ} {s t : Finset α} (hcard : s.card ≤ t.card)
    (h : ∀ x ∈ t \ s, ∀ y ∈ s \ t, f y ≤ f x) : ∑ x ∈ s, f x ≤ ∑ x ∈ t, f x := by
  have hsplit : ∀ a b : Finset α, ∑ x ∈ a, f x = ∑ x ∈ a \ b, f x + ∑ x ∈ a ∩ b, f x := fun a b => by
    rw [← Finset.sum_union (Finset.disjoint_sdiff_inter a b), Finset.sdiff_union_inter]
  have honly : ∑ x ∈ s \ t, f x ≤ ∑ x ∈ t \ s, f x := by
    rcases (s \ t).eq_empty_or_nonempty with hempty | hne
    · simp [hempty]
    · obtain ⟨y, hy, hmax⟩ := Finset.exists_max_image (s \ t) f hne
      have hcount : (s \ t).card ≤ (t \ s).card := Finset.card_sdiff_le_card_sdiff_iff.mpr hcard
      calc ∑ x ∈ s \ t, f x ≤ (s \ t).card • f y := Finset.sum_le_card_nsmul _ _ _ hmax
        _ ≤ (t \ s).card • f y := Nat.mul_le_mul_right _ hcount
        _ ≤ ∑ x ∈ t \ s, f x := Finset.card_nsmul_le_sum _ _ _ fun x hx => h x hx y hy
  rw [hsplit s t, hsplit t s, Finset.inter_comm t s]
  exact Nat.add_le_add_right honly _

end SortedSums
