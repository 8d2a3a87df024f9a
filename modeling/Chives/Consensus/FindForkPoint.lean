import Chives.Consensus.RewardClaims

set_option autoImplicit false

/-!
# The fork point of two chains

`find_fork_point_in_chain` of `consensus/find_fork_point.py`.

## Main definitions

* `findForkPointInChain` — the function.
* `forkHeight` — the height of the last common block of two chains, -1 if there is none.
* `BlockRecords.AncestorAt`, `BlockRecords.IsForkPoint` — the ancestors of a block by height, and the
  greatest height at which two blocks have the same one.

## Main results

* `findForkPointInChain_eq_ok` — the function finds the fork height.
* `findForkPointInChain_isForkPoint` — in a block tree it finds the fork point of every two blocks, in
  either order, and needs the records of their ancestors only.
-/

namespace Chives

open ParentTree ExceptRun

/-- The loop of `find_fork_point_in_chain`, with a bound on its rounds. -/
def forkPointFrom (blocks : BlockRecords) : ℕ → BlockRecord → BlockRecord → Except PyError ℤ
  | 0, _, _ => .error .divergence
  | fuel + 1, block1, block2 =>
    if block2.height > 0 ∨ block1.height > 0 then
      if block2.height > block1.height then do
        let block2 ← blocks.blockRecord block2.prevHash
        forkPointFrom blocks fuel block1 block2
      else if block1.height > block2.height then do
        let block1 ← blocks.blockRecord block1.prevHash
        forkPointFrom blocks fuel block1 block2
      else if block2.headerHash = block1.headerHash then .ok block2.height
      else do
        let block2 ← blocks.blockRecord block2.prevHash
        let block1 ← blocks.blockRecord block1.prevHash
        forkPointFrom blocks fuel block1 block2
    else if block2 ≠ block1 then .ok (-1)
    else .ok 0

/-- `find_fork_point_in_chain`. A loop with more rounds than there are pairs of records goes round in
circles. -/
def findForkPointInChain (blocks : BlockRecords) (block1 block2 : BlockRecord) : Except PyError ℤ :=
  forkPointFrom blocks ((blocks.fuel + 1) ^ 2) block1 block2

/-- The height of the last common block of two chains, listed from genesis on; -1 if they have
none. -/
def forkHeight {R : Type} [DecidableEq R] (l l' : List R) : ℤ := (commonPrefix l l').length - 1

variable {blocks : BlockRecords} {r r' : BlockRecord} {l l' : List BlockRecord}

/-- The loop finds the fork height of two chains.

**Proof sketch.** Induction on the rounds. A step back on the higher chain, or on both from two
different blocks of one height, drops blocks that are not common to the chains. At a block of one
height and hash the chains are the same. -/
lemma forkPointFrom_eq_ok {fuel : ℕ} (hl : blocks.Chain r l) (hl' : blocks.Chain r' l')
    (hinj : ∀ x ∈ l, ∀ y ∈ l', x.headerHash = y.headerHash → x = y)
    (hfuel : r.height + r'.height < fuel) :
    forkPointFrom blocks fuel r r' = .ok (forkHeight l l') := by
  induction fuel generalizing r r' l l' with
  | zero => omega
  | succ fuel ih =>
    unfold forkPointFrom
    have hlen := hl.length_eq
    have hlen' := hl'.length_eq
    by_cases hpos : r'.height > 0 ∨ r.height > 0
    · rw [if_pos hpos]
      rcases Nat.lt_trichotomy r.height r'.height with hlt | heq | hlt
      · obtain ⟨p, l₀, hp, hh, hl₀, rfl⟩ := Path.parent hl' (show r'.height ≠ 0 by omega)
        change blocks.get r'.prevHash = some p at hp
        change r'.height = p.height + 1 at hh
        have hlen₀ : l₀.length = p.height + 1 := Path.length_eq hl₀
        rw [if_pos hlt, BlockRecords.blockRecord_eq_ok hp, ok_bind,
          ih hl hl₀ (fun x hx y hy => hinj x hx y (List.mem_append_left _ hy)) (by omega),
          forkHeight, forkHeight, commonPrefix_append_right (by omega)]
      · rw [if_neg (by omega), if_neg (by omega)]
        by_cases hhash : r'.headerHash = r.headerHash
        · have hsame : r = r' := hinj r (Path.mem_self hl) r' (Path.mem_self hl') hhash.symm
          subst hsame
          obtain rfl := Path.unique hl hl'
          rw [if_pos hhash, forkHeight, commonPrefix_self, hlen]
          simp
        · obtain ⟨p, l₀, hp, hh, hl₀, rfl⟩ := Path.parent hl (show r.height ≠ 0 by omega)
          obtain ⟨p', l₀', hp', hh', hl₀', rfl⟩ := Path.parent hl' (show r'.height ≠ 0 by omega)
          change blocks.get r.prevHash = some p at hp
          change blocks.get r'.prevHash = some p' at hp'
          change r.height = p.height + 1 at hh
          change r'.height = p'.height + 1 at hh'
          have hlen₀ : l₀.length = p.height + 1 := Path.length_eq hl₀
          have hlen₀' : l₀'.length = p'.height + 1 := Path.length_eq hl₀'
          have hne : r ≠ r' := fun he => hhash (by rw [he])
          rw [if_neg hhash, BlockRecords.blockRecord_eq_ok hp', ok_bind,
            BlockRecords.blockRecord_eq_ok hp, ok_bind,
            ih hl₀ hl₀' (fun x hx y hy => hinj x (List.mem_append_left _ hx) y
              (List.mem_append_left _ hy)) (by omega),
            forkHeight, forkHeight, commonPrefix_concat (by omega) hne]
      · obtain ⟨p, l₀, hp, hh, hl₀, rfl⟩ := Path.parent hl (show r.height ≠ 0 by omega)
        change blocks.get r.prevHash = some p at hp
        change r.height = p.height + 1 at hh
        have hlen₀ : l₀.length = p.height + 1 := Path.length_eq hl₀
        rw [if_neg (by omega), if_pos hlt, BlockRecords.blockRecord_eq_ok hp, ok_bind,
          ih hl₀ hl' (fun x hx => hinj x (List.mem_append_left _ hx)) (by omega),
          forkHeight, forkHeight, commonPrefix_comm (l₀ ++ [r]),
          commonPrefix_append_right (by omega), commonPrefix_comm l']
    · rw [if_neg hpos]
      have h0 : r.height = 0 := by omega
      have h0' : r'.height = 0 := by omega
      obtain rfl := Path.unique hl (.root h0)
      obtain rfl := Path.unique hl' (.root h0')
      by_cases hne : r' ≠ r
      · rw [if_pos hne, forkHeight]
        simp [commonPrefix, hne.symm]
      · rw [if_neg hne, forkHeight]
        simp [commonPrefix, not_not.mp hne]

lemma findForkPointInChain_eq_ok (hl : blocks.Chain r l) (hl' : blocks.Chain r' l')
    (hinj : ∀ x ∈ l, ∀ y ∈ l', x.headerHash = y.headerHash → x = y) :
    findForkPointInChain blocks r r' = .ok (forkHeight l l') := by
  apply forkPointFrom_eq_ok hl hl' hinj
  have h := BlockRecords.height_lt_fuel hl
  have h' := BlockRecords.height_lt_fuel hl'
  have hsq : 2 * blocks.fuel ≤ (blocks.fuel + 1) ^ 2 := by nlinarith
  omega

lemma forkHeight_comm {R : Type} [DecidableEq R] (l l' : List R) :
    forkHeight l l' = forkHeight l' l := by
  rw [forkHeight, forkHeight, commonPrefix_comm]

/-! ## Fork points in a block tree -/

namespace BlockRecords

/-- `x` is the ancestor of `r` at height `h`, or `r` itself. -/
def AncestorAt (blocks : BlockRecords) (r : BlockRecord) (h : ℕ) (x : BlockRecord) : Prop :=
  ∃ l, blocks.Chain r l ∧ l[h]? = some x

/-- `f` is the greatest height at which the two blocks have the same ancestor, or -1 if they have none in
common. -/
def IsForkPoint (blocks : BlockRecords) (r r' : BlockRecord) (f : ℤ) : Prop :=
  -1 ≤ f ∧ ∀ h : ℕ, (h : ℤ) ≤ f ↔ ∃ x, blocks.AncestorAt r h x ∧ blocks.AncestorAt r' h x

lemma ancestorAt_iff {h : ℕ} {x : BlockRecord} (hl : blocks.Chain r l) :
    blocks.AncestorAt r h x ↔ l[h]? = some x := by
  constructor
  · rintro ⟨l₀, hl₀, hx⟩
    rwa [Path.unique hl hl₀]
  · intro hx
    exact ⟨l, hl, hx⟩

lemma isForkPoint_forkHeight (hl : blocks.Chain r l) (hl' : blocks.Chain r' l') :
    blocks.IsForkPoint r r' (forkHeight l l') := by
  refine ⟨by rw [forkHeight]; omega, fun h => ?_⟩
  have hcommon := Path.lt_length_commonPrefix (i := h) hl hl'
  simp only [ancestorAt_iff hl, ancestorAt_iff hl']
  rw [← hcommon, forkHeight]
  omega

end BlockRecords

/-- **`find_fork_point_in_chain` finds the fork point.** In every block tree and for every two of its
blocks, in either order, the function returns the greatest height at which they have the same ancestor or
-1, and it does so with every dictionary that has the records of their ancestors, whatever else is in it
or missing. -/
theorem findForkPointInChain_isForkPoint (htree : Rooted recordLinks blocks.get)
    (hr : blocks.get r.headerHash = some r) (hr' : blocks.get r'.headerHash = some r') :
    ∃ f, blocks.IsForkPoint r r' f ∧ findForkPointInChain blocks r r' = .ok f ∧
      findForkPointInChain blocks r' r = .ok f ∧
      ∀ known : BlockRecords, (∀ h x, blocks.AncestorAt r h x ∨ blocks.AncestorAt r' h x →
        known.get x.headerHash = blocks.get x.headerHash) →
        findForkPointInChain known r r' = .ok f := by
  obtain ⟨l, hl⟩ := htree.path hr
  obtain ⟨l', hl'⟩ := htree.path hr'
  have hstored := Path.stored_of_stored htree.hash_eq hl hr
  have hstored' := Path.stored_of_stored htree.hash_eq hl' hr'
  have hinj : ∀ x ∈ l, ∀ y ∈ l', x.headerHash = y.headerHash → x = y := fun x hx y hy he =>
    eq_of_stored (L := recordLinks) (hstored x hx) (hstored' y hy) he
  refine ⟨forkHeight l l', BlockRecords.isForkPoint_forkHeight hl hl',
    findForkPointInChain_eq_ok hl hl' hinj, ?_, fun known hknown => ?_⟩
  · rw [forkHeight_comm]
    exact findForkPointInChain_eq_ok hl' hl fun x hx y hy he => (hinj y hy x hx he.symm).symm
  · have hagree : ∀ x ∈ l, known.get (recordLinks.hash x) = some x := fun x hx => by
      obtain ⟨h, hx'⟩ := List.mem_iff_getElem?.mp hx
      exact (hknown h x (.inl ⟨l, hl, hx'⟩)).trans (hstored x hx)
    have hagree' : ∀ x ∈ l', known.get (recordLinks.hash x) = some x := fun x hx => by
      obtain ⟨h, hx'⟩ := List.mem_iff_getElem?.mp hx
      exact (hknown h x (.inr ⟨l', hl', hx'⟩)).trans (hstored' x hx)
    exact findForkPointInChain_eq_ok (Path.of_agree htree.hash_eq hl hagree)
      (Path.of_agree htree.hash_eq hl' hagree') hinj

/-- A genesis block with two children. -/
def twoChildren : List BlockRecord :=
  let record := txRecord (fun _ => 0) (fun _ => Bytes32.zero)
  [record 0, record 1, { record 1 with headerHash := Bytes32.ofNat 3 }]

/-- Two children of genesis have the fork point 0. -/
theorem findForkPointInChain_isForkPoint_twoChildren :
    ∃ f, (BlockRecords.ofRecords twoChildren).IsForkPoint twoChildren[1] twoChildren[2] f ∧
      findForkPointInChain (.ofRecords twoChildren) twoChildren[1] twoChildren[2] = .ok f ∧
      findForkPointInChain (.ofRecords twoChildren) twoChildren[2] twoChildren[1] = .ok f ∧
      ∀ known : BlockRecords, (∀ h x, (BlockRecords.ofRecords twoChildren).AncestorAt twoChildren[1] h x ∨
          (BlockRecords.ofRecords twoChildren).AncestorAt twoChildren[2] h x →
          known.get x.headerHash = (BlockRecords.ofRecords twoChildren).get x.headerHash) →
        findForkPointInChain known twoChildren[1] twoChildren[2] = .ok f := by
  have hnodup : (twoChildren.map BlockRecord.headerHash).Nodup := by decide +kernel
  have hstored : ∀ r ∈ twoChildren, (BlockRecords.ofRecords twoChildren).get r.headerHash = some r :=
    fun r hr => BlockRecords.get_ofRecords hnodup hr
  have hroot : Path recordLinks (BlockRecords.ofRecords twoChildren).get twoChildren[0] [twoChildren[0]] :=
    .root rfl
  refine findForkPointInChain_isForkPoint ⟨fun hr => (BlockRecords.mem_of_get_ofRecords hnodup hr).2, ?_⟩
    (hstored _ (by decide +kernel)) (hstored _ (by decide +kernel))
  intro h r hr
  have hmem := (BlockRecords.mem_of_get_ofRecords hnodup hr).1
  fin_cases hmem
  · exact ⟨_, hroot⟩
  · exact ⟨_, .step (hstored twoChildren[0] (by decide +kernel)) rfl hroot⟩
  · exact ⟨_, .step (hstored twoChildren[0] (by decide +kernel)) rfl hroot⟩

end Chives
