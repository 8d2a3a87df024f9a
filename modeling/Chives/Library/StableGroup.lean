import Mathlib.Data.List.Perm.Basic
import Mathlib.Data.List.Nodup

set_option autoImplicit false

/-!
# Stable grouping

The elements of a list, grouped by a key: the groups come in the order in which their keys occur first, and a group
has its elements in their order.

## Main definitions

* `StableGroup.distinct` — a list without its repetitions, in the order of the first occurrences.
* `StableGroup.groups`, `StableGroup.grouped` — the groups, and their elements.

## Main results

* `StableGroup.filter_grouped`, `StableGroup.grouped_perm` — grouping changes no group, and permutes the list.
* `StableGroup.groups_grouped` — what is grouped has the same groups.
-/

namespace StableGroup

variable {α β κ : Type} [DecidableEq κ]

/-- The list without its repetitions; a value stays where it occurs first. -/
def distinct : List κ → List κ
  | [] => []
  | k :: l => k :: (distinct l).filter (· ≠ k)

/-- The groups, with their keys. -/
def groups (key : α → κ) (l : List α) : List (κ × List α) :=
  (distinct (l.map key)).map fun k => (k, l.filter (key · = k))

/-- The elements, group by group. -/
def grouped (key : α → κ) (l : List α) : List α := (groups key l).flatMap Prod.snd

@[simp] lemma mem_distinct {l : List κ} {k : κ} : k ∈ distinct l ↔ k ∈ l := by
  induction l with
  | nil => rfl
  | cons x l ih =>
    rw [distinct, List.mem_cons, List.mem_cons, List.mem_filter, ih, decide_eq_true_iff]
    constructor
    · rintro (h | ⟨h, -⟩)
      · exact Or.inl h
      · exact Or.inr h
    · rintro (h | h)
      · exact Or.inl h
      · by_cases hk : k = x
        · exact Or.inl hk
        · exact Or.inr ⟨h, hk⟩

lemma nodup_distinct (l : List κ) : (distinct l).Nodup := by
  induction l with
  | nil => exact List.nodup_nil
  | cons x l ih =>
    refine List.nodup_cons.mpr ⟨fun h => ?_, ih.filter _⟩
    exact (decide_eq_true_iff.mp (List.mem_filter.mp h).2) rfl

/-- The elements of the groups whose keys are given. -/
lemma filter_flatMap (key : α → κ) (l : List α) (k : κ) {ks : List κ} (h : ks.Nodup) :
    (ks.flatMap fun k' => l.filter (key · = k')).filter (key · = k) = if k ∈ ks then l.filter (key · = k) else [] := by
  induction ks with
  | nil => rfl
  | cons k' ks ih =>
    obtain ⟨hnot, hnodup⟩ := List.nodup_cons.mp h
    rw [List.flatMap_cons, List.filter_append, ih hnodup, List.filter_filter]
    by_cases hk : k = k'
    · subst hk
      rw [if_neg hnot, List.append_nil, if_pos List.mem_cons_self]
      simp
    · have hempty : (l.filter fun a => decide (key a = k) && decide (key a = k')) = [] := by
        rw [List.filter_eq_nil_iff]
        intro a _
        simp only [Bool.and_eq_true, decide_eq_true_eq, not_and]
        exact fun ha ha' => hk (ha.symm.trans ha')
      rw [hempty, List.nil_append]
      by_cases hmem : k ∈ ks
      · rw [if_pos hmem, if_pos (List.mem_cons_of_mem _ hmem)]
      · rw [if_neg hmem, if_neg]
        rintro hcons
        rcases List.mem_cons.mp hcons with h' | h'
        · exact hk h'
        · exact hmem h'

lemma grouped_eq (key : α → κ) (l : List α) :
    grouped key l = (distinct (l.map key)).flatMap fun k => l.filter (key · = k) := by
  rw [grouped, groups, List.flatMap_map]

/-- **Grouping keeps every group**, with its order. -/
theorem filter_grouped (key : α → κ) (l : List α) (k : κ) :
    (grouped key l).filter (key · = k) = l.filter (key · = k) := by
  rw [grouped_eq, filter_flatMap key l k (nodup_distinct _)]
  by_cases hk : k ∈ distinct (l.map key)
  · rw [if_pos hk]
  · rw [if_neg hk]
    symm
    rw [List.filter_eq_nil_iff]
    intro a ha hka
    rw [mem_distinct] at hk
    exact hk (decide_eq_true_iff.mp hka ▸ List.mem_map_of_mem ha)

/-- **Grouping permutes the list.** -/
theorem grouped_perm (key : α → κ) (l : List α) : (grouped key l).Perm l := by
  classical
  rw [List.perm_iff_count]
  intro a
  have hcount : ∀ l' : List α, l'.count a = (l'.filter (key · = key a)).count a := fun l' =>
    (List.count_filter (by simp)).symm
  rw [hcount, filter_grouped, ← hcount]

/-- The keys of the elements of nonempty groups. -/
lemma distinct_flatMap {ks : List κ} (hnodup : ks.Nodup) {f : κ → List κ} (hne : ∀ k ∈ ks, f k ≠ [])
    (hall : ∀ k ∈ ks, ∀ x ∈ f k, x = k) : distinct (ks.flatMap f) = ks := by
  induction ks with
  | nil => rfl
  | cons k ks ih =>
    obtain ⟨hnot, hnodup⟩ := List.nodup_cons.mp hnodup
    have hrest := ih hnodup (fun k' hk' => hne k' (List.mem_cons_of_mem _ hk'))
      (fun k' hk' => hall k' (List.mem_cons_of_mem _ hk'))
    -- the repetitions of a key before the other keys
    have hfirst : ∀ (n : ℕ) (l : List κ), k ∉ l → distinct (List.replicate (n + 1) k ++ l) = k :: distinct l := by
      intro n l hl
      have hfilter : (distinct l).filter (· ≠ k) = distinct l := by
        rw [List.filter_eq_self]
        intro x hx
        rw [mem_distinct] at hx
        exact decide_eq_true fun (heq : x = k) => hl (heq ▸ hx)
      induction n with
      | zero => rw [List.replicate_one, List.singleton_append, distinct, hfilter]
      | succ n ihn =>
        rw [List.replicate_succ, List.cons_append, distinct, ihn, List.filter_cons_of_neg (by simp), hfilter]
    have hrepl : f k = List.replicate (f k).length k :=
      List.eq_replicate_of_mem fun x hx => hall k List.mem_cons_self x hx
    obtain ⟨n, hn⟩ : ∃ n, (f k).length = n + 1 :=
      ⟨(f k).length - 1, by
        have := List.length_pos_iff.mpr (hne k List.mem_cons_self)
        omega⟩
    rw [hn] at hrepl
    have hnotMem : k ∉ ks.flatMap f := by
      intro h
      obtain ⟨k', hk', hx⟩ := List.mem_flatMap.mp h
      exact hnot (hall k' (List.mem_cons_of_mem _ hk') k hx ▸ hk')
    rw [List.flatMap_cons, hrepl, hfirst n _ hnotMem, hrest]

/-- **What is grouped has the same groups.** -/
theorem groups_grouped (key : α → κ) (l : List α) : groups key (grouped key l) = groups key l := by
  have hkeys : distinct ((grouped key l).map key) = distinct (l.map key) := by
    rw [grouped_eq, List.map_flatMap]
    refine distinct_flatMap (nodup_distinct _) (fun k hk => ?_) (fun k _ x hx => ?_)
    · rw [mem_distinct] at hk
      obtain ⟨a, ha, rfl⟩ := List.mem_map.mp hk
      exact List.ne_nil_of_mem (List.mem_map_of_mem (List.mem_filter.mpr ⟨ha, decide_eq_true rfl⟩))
    · obtain ⟨a, ha, rfl⟩ := List.mem_map.mp hx
      exact decide_eq_true_iff.mp (List.mem_filter.mp ha).2
  unfold groups
  rw [hkeys]
  exact List.map_congr_left fun k _ => by rw [filter_grouped]

lemma groups_map {key : α → κ} {key' : β → κ} {f : α → β} (hf : ∀ a, key' (f a) = key a) (l : List α) :
    groups key' (l.map f) = (groups key l).map fun g => (g.1, g.2.map f) := by
  have hkeys : (l.map f).map key' = l.map key := by
    rw [List.map_map]
    exact List.map_congr_left fun a _ => hf a
  rw [groups, hkeys, groups, List.map_map]
  refine List.map_congr_left fun k _ => ?_
  simp only [Function.comp_apply, List.filter_map, Prod.mk.injEq, true_and]
  congr 2
  funext a
  simp only [Function.comp_apply, hf]

lemma key_of_mem_groups {key : α → κ} {l : List α} {g : κ × List α} (hg : g ∈ groups key l) {a : α} (ha : a ∈ g.2) :
    key a = g.1 := by
  obtain ⟨k, -, rfl⟩ := List.mem_map.mp hg
  exact decide_eq_true_iff.mp (List.mem_filter.mp ha).2

lemma mem_of_mem_groups {key : α → κ} {l : List α} {g : κ × List α} (hg : g ∈ groups key l) {a : α} (ha : a ∈ g.2) :
    a ∈ l := by
  obtain ⟨k, -, rfl⟩ := List.mem_map.mp hg
  exact (List.mem_filter.mp ha).1

end StableGroup
