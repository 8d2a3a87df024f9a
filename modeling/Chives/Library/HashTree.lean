import Mathlib.Data.Finset.Basic

set_option autoImplicit false

/-!
# Trees of blocks

Blocks that are named by hashes: the hash of a block determines its parent and its height. A program that keeps only a
part of the blocks is compared with the tree of all.

## Main definitions

* `HashTree` — the parents and the heights.
* `HashTree.atHeight` — the ancestor of a block at a height.
* `HashTree.Below` — one block is an ancestor of the other one, or the same.
* `HashTree.CommonUpTo` — two blocks have the same ancestors up to a height.
* `HashTree.RootedAt` — some blocks descend from one of them, and with each block its parent is one of them.

## Main results

* `HashTree.atHeight_atHeight` — ancestors of ancestors.
* `HashTree.Below.trans` — an ancestor of an ancestor is an ancestor.
* `HashTree.RootedAt.atHeight_mem` — in a rooted set, a block has all its ancestors down to the root.
* `HashTree.RootedAt.cut` — what is left of a rooted set from a height on.
-/

/-- The parents and the heights of blocks. Blocks at height 0 have no parent. -/
structure HashTree (κ : Type) where
  parent : κ → κ
  height : κ → ℕ
  height_parent : ∀ x, height x ≠ 0 → height (parent x) + 1 = height x

namespace HashTree

variable {κ : Type} (T : HashTree κ)

/-- The ancestor of a block at a height. -/
def atHeight (x : κ) (h : ℕ) : κ := T.parent^[T.height x - h] x

/-- A block is an ancestor of another one, or the same. -/
def Below (a x : κ) : Prop := T.height a ≤ T.height x ∧ T.atHeight x (T.height a) = a

instance decidableBelow [DecidableEq κ] (a x : κ) : Decidable (T.Below a x) := inferInstanceAs (Decidable (_ ∧ _))

variable {T} {a b x y : κ} {h k : ℕ}

@[simp] lemma atHeight_self (x : κ) : T.atHeight x (T.height x) = x := by simp [atHeight]

lemma atHeight_of_lt (hlt : h < T.height x) : T.atHeight x h = T.atHeight (T.parent x) h := by
  have hparent := T.height_parent x (by omega)
  have hsub : T.height x - h = (T.height (T.parent x) - h) + 1 := by omega
  rw [atHeight, atHeight, hsub, Function.iterate_succ_apply]

lemma height_atHeight (hle : h ≤ T.height x) : T.height (T.atHeight x h) = h := by
  induction hn : T.height x - h generalizing x with
  | zero =>
    obtain rfl : h = T.height x := by omega
    rw [atHeight_self]
  | succ n ih =>
    have hparent := T.height_parent x (by omega)
    rw [atHeight_of_lt (by omega)]
    exact ih (by omega) (by omega)

lemma atHeight_atHeight (hhk : h ≤ k) (hk : k ≤ T.height x) : T.atHeight (T.atHeight x k) h = T.atHeight x h := by
  induction hn : T.height x - k generalizing x with
  | zero =>
    obtain rfl : k = T.height x := by omega
    rw [atHeight_self]
  | succ n ih =>
    have hparent := T.height_parent x (by omega)
    rw [atHeight_of_lt (show k < T.height x by omega), atHeight_of_lt (show h < T.height x by omega)]
    exact ih (by omega) (by omega)

lemma below_atHeight (hle : h ≤ T.height x) : T.Below (T.atHeight x h) x := by
  have hheight := height_atHeight hle
  exact ⟨by omega, by rw [hheight]⟩

namespace Below

@[refl] lemma refl (x : κ) : T.Below x x := ⟨le_rfl, atHeight_self x⟩

lemma trans (hab : T.Below a b) (hbx : T.Below b x) : T.Below a x := by
  refine ⟨hab.1.trans hbx.1, ?_⟩
  rw [← atHeight_atHeight hab.1 hbx.1, hbx.2, hab.2]

lemma of_parent (hx : T.height x ≠ 0) (ha : T.Below a (T.parent x)) : T.Below a x := by
  have hparent := T.height_parent x hx
  have hle := ha.1
  exact ⟨by omega, by rw [atHeight_of_lt (by omega), ha.2]⟩

lemma eq_or_parent (ha : T.Below a x) : a = x ∨ T.height x ≠ 0 ∧ T.Below a (T.parent x) := by
  rcases ha.1.eq_or_lt with heq | hlt
  · left
    rw [← ha.2, heq, atHeight_self]
  · right
    have hparent := T.height_parent x (by omega)
    exact ⟨by omega, by omega, by rw [← atHeight_of_lt hlt, ha.2]⟩

lemma eq_of_height (ha : T.Below a x) (hb : T.Below b x) (heq : T.height a = T.height b) : a = b := by
  rw [← ha.2, heq, hb.2]

end Below

/-! ## Common ancestors -/

variable (T) in
/-- Two blocks have the same ancestors up to a height. -/
def CommonUpTo (x y : κ) (f : ℤ) : Prop :=
  ∀ h : ℕ, (h : ℤ) ≤ f → h ≤ T.height x ∧ h ≤ T.height y ∧ T.atHeight x h = T.atHeight y h

namespace CommonUpTo

variable {f : ℤ}

lemma self (x : κ) : T.CommonUpTo x x (T.height x) := fun h hle => ⟨by omega, by omega, rfl⟩

lemma of_neg (hf : f < 0) : T.CommonUpTo x y f := fun h hle => by omega

lemma of_parent_right (hy : T.height y ≠ 0) (hc : T.CommonUpTo x (T.parent y) f) : T.CommonUpTo x y f := by
  intro h hle
  have hparent := T.height_parent y hy
  obtain ⟨hx, hlt, heq⟩ := hc h hle
  exact ⟨hx, by omega, by rw [atHeight_of_lt (show h < T.height y by omega), heq]⟩

lemma symm (hc : T.CommonUpTo x y f) : T.CommonUpTo y x f := by
  intro h hle
  obtain ⟨hx, hy, heq⟩ := hc h hle
  exact ⟨hy, hx, heq.symm⟩

lemma of_parent_left (hx : T.height x ≠ 0) (hc : T.CommonUpTo (T.parent x) y f) : T.CommonUpTo x y f :=
  (hc.symm.of_parent_right hx).symm

end CommonUpTo

/-! ## Rooted sets -/

variable (T) in
/-- Some blocks that descend from one of them, and have with each other block its parent. -/
structure RootedAt (K : Finset κ) (root : κ) : Prop where
  mem : root ∈ K
  below : ∀ x ∈ K, T.Below root x
  parent : ∀ x ∈ K, x ≠ root → T.parent x ∈ K

namespace RootedAt

variable {K : Finset κ} {root : κ}

lemma atHeight_mem (hK : T.RootedAt K root) (hx : x ∈ K) (hroot : T.height root ≤ h) (hle : h ≤ T.height x) :
    T.atHeight x h ∈ K := by
  induction hn : T.height x - h generalizing x with
  | zero =>
    obtain rfl : h = T.height x := by omega
    rwa [atHeight_self]
  | succ n ih =>
    have hparent := T.height_parent x (by omega)
    have hne : x ≠ root := by
      rintro rfl
      omega
    rw [atHeight_of_lt (by omega)]
    exact ih (hK.parent x hx hne) (by omega) (by omega)

variable [DecidableEq κ]

lemma insert (hK : T.RootedAt K root) (hheight : T.height x ≠ 0) (hparent : T.parent x ∈ K) :
    T.RootedAt (Insert.insert x K) root where
  mem := Finset.mem_insert_of_mem hK.mem
  below := fun y hy => by
    rcases Finset.mem_insert.mp hy with rfl | hy
    · exact .of_parent hheight (hK.below _ hparent)
    · exact hK.below y hy
  parent := fun y hy hne => by
    rcases Finset.mem_insert.mp hy with rfl | hy
    · exact Finset.mem_insert_of_mem hparent
    · exact Finset.mem_insert_of_mem (hK.parent y hy hne)

omit [DecidableEq κ] in
lemma singleton (x : κ) : T.RootedAt {x} x where
  mem := Finset.mem_singleton_self x
  below := fun y hy => by rw [Finset.mem_singleton.mp hy]
  parent := fun y hy hne => absurd (Finset.mem_singleton.mp hy) hne

omit [DecidableEq κ] in
/-- **A rooted set is cut** at a height that only one of its blocks has: the blocks from that height on are rooted. -/
lemma cut (hK : T.RootedAt K root) (hroot : T.height root ≤ h) (hx : x ∈ K) (hle : h ≤ T.height x)
    (hunique : ∀ a ∈ K, ∀ b ∈ K, T.height a = h → T.height b = h → a = b) :
    T.RootedAt (K.filter fun a => h ≤ T.height a) (T.atHeight x h) := by
  have hmem : T.atHeight x h ∈ K := hK.atHeight_mem hx hroot hle
  have hheight : T.height (T.atHeight x h) = h := height_atHeight hle
  refine ⟨Finset.mem_filter.mpr ⟨hmem, hheight.ge⟩, fun a ha => ?_, fun a ha hne => ?_⟩
  · obtain ⟨ha, hah⟩ := Finset.mem_filter.mp ha
    rw [hunique _ hmem _ (hK.atHeight_mem ha hroot hah) hheight (height_atHeight hah)]
    exact below_atHeight hah
  · obtain ⟨ha, hah⟩ := Finset.mem_filter.mp ha
    have hlt : h < T.height a := by
      refine lt_of_le_of_ne hah fun heq => hne ?_
      exact hunique a ha _ hmem heq.symm hheight
    have hparent := T.height_parent a (by omega)
    refine Finset.mem_filter.mpr ⟨hK.parent a ha fun heq => ?_, by omega⟩
    rw [heq] at hlt
    omega

end RootedAt

end HashTree
