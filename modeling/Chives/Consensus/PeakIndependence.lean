import Chives.Consensus.DifficultyAdjustment
import Chives.Consensus.RewardClaims

set_option autoImplicit false

/-!
# The next difficulty does not depend on the peak

`_get_blocks_at_height` takes blocks of the main chain directly by height, and walks back to those of a
fork. The blocks that the epoch search asks for are all before the given block, so both ways give the same
ancestors, and the next parameters depend on the ancestors only.

## Main definitions

* `AncestorsPresent` — all ancestors of a block are in a cache.
* `PeakView` — what a node knows of a chain: its blocks, and the heights of its main chain.

## Main results

* `getBlocksAtHeight_eq` — both ways of fetching give the blocks of the chain.
* `getNextSubSlotItersAndDifficulty_congr` — nodes on different peaks agree.

## Design

A node may have a block on its main chain, or on a fork at any point before it, so it is only assumed that
the ancestors of a block of the main chain are on the main chain too.
-/

namespace Chives

open ExceptRun BlockRecords

/-- All ancestors of a block are in a cache, and there is nothing before genesis. -/
structure AncestorsPresent (blocks : BlockRecords) (r : BlockRecord) (l : List BlockRecord) : Prop where
  chain : blocks.Chain r l
  genesis : ∀ g, l.head? = some g → blocks.get g.prevHash = none

/-! ## Walks along the same chain -/

section Walks

variable {blocks blocks' : BlockRecords} {r x p : BlockRecord} {l : List BlockRecord}
  {stop : BlockRecord → Bool}

section

variable (h : AncestorsPresent blocks r l)

include h

lemma AncestorsPresent.of_mem (hx : x ∈ l) : AncestorsPresent blocks x (l.take (x.height + 1)) := by
  obtain ⟨-, hchain⟩ := h.chain.getElem (h.chain.getElem?_height hx)
  refine ⟨hchain, fun g hg => h.genesis g ?_⟩
  rwa [List.head?_take, if_neg (Nat.succ_ne_zero _)] at hg

lemma AncestorsPresent.parent (hr : r.height ≠ 0) :
    ∃ p ∈ l, blocks.get r.prevHash = some p ∧ p.height + 1 = r.height ∧ l[p.height]? = some p := by
  have hlast : l[r.height]? = some r := h.chain.getElem?_height (ParentTree.Path.mem_self h.chain)
  obtain ⟨n, hn⟩ := Nat.exists_eq_succ_of_ne_zero hr
  rw [hn] at hlast
  obtain ⟨p, hp, hget⟩ := h.chain.getElem?_succ hlast
  have hheight := (h.chain.getElem hp).1
  refine ⟨p, List.mem_of_getElem? hp, hget, by omega, ?_⟩
  rwa [hheight]

lemma AncestorsPresent.eq_singleton (hr : r.height = 0) : l = [r] := by
  have hlen := h.chain.length_eq
  obtain ⟨init, rfl⟩ := ParentTree.Path.exists_eq_concat h.chain
  rw [List.length_append, List.length_singleton, hr] at hlen
  rw [List.length_eq_zero_iff.mp (show init.length = 0 by omega)]
  rfl

lemma AncestorsPresent.parent_congr (h' : AncestorsPresent blocks' r l) (hr : r.height ≠ 0) :
    ∃ p ∈ l, blocks.get r.prevHash = some p ∧ blocks'.get r.prevHash = some p ∧
      p.height + 1 = r.height := by
  obtain ⟨p, hp, hget, hheight, hlp⟩ := h.parent hr
  obtain ⟨p', -, hget', hheight', hlp'⟩ := h'.parent hr
  rw [show p.height = p'.height by omega, hlp'] at hlp
  obtain rfl := Option.some.inj hlp
  exact ⟨p', hp, hget, hget', hheight⟩

lemma AncestorsPresent.blockRecord_congr (h' : AncestorsPresent blocks' r l) :
    blocks.blockRecord r.prevHash = blocks'.blockRecord r.prevHash ∧
      ∀ p, blocks.blockRecord r.prevHash = .ok p → p ∈ l := by
  by_cases hr : r.height = 0
  · have hl := h.eq_singleton hr
    have hget := h.genesis r (by rw [hl]; rfl)
    have hget' := h'.genesis r (by rw [hl]; rfl)
    unfold blockRecord
    rw [hget, hget']
    exact ⟨rfl, fun p hp => by cases hp⟩
  · obtain ⟨p, hp, hget, hget', -⟩ := h.parent_congr h' hr
    rw [blockRecord_eq_ok hget, blockRecord_eq_ok hget']
    refine ⟨rfl, fun q hq => ?_⟩
    rw [← Except.ok.inj hq]
    exact hp

end

lemma exists_last {α : Type} {l : List α} {stop : α → Bool} (h : ∃ x ∈ l, stop x = true) :
    ∃ a x b, l = a ++ x :: b ∧ stop x = true ∧ ∀ y ∈ b, stop y = false := by
  obtain ⟨x, hx, hstop⟩ := h
  -- the last block that passes the test is the first one from the end
  have hfind : (l.reverse.find? stop).isSome = true := by
    rw [List.find?_isSome]
    exact ⟨x, List.mem_reverse.mpr hx, hstop⟩
  obtain ⟨y, hy⟩ := Option.isSome_iff_exists.mp hfind
  obtain ⟨hystop, a, b, hab, hnone⟩ := List.find?_eq_some_iff_append.mp hy
  refine ⟨b.reverse, y, a.reverse, ?_, hystop, fun z hz => ?_⟩
  · rw [← List.reverse_reverse l, hab]
    simp
  · simpa using hnone z (List.mem_reverse.mp hz)

variable (h : AncestorsPresent blocks r l)

include h

lemma AncestorsPresent.visit_cases (stop : BlockRecord → Bool) :
    (∃ a x b, l = a ++ x :: b ∧ stop x = true ∧ (∀ y ∈ b, stop y = false) ∧
        blocks.visit stop r = .ok (b.reverse, x)) ∨
      ((∀ y ∈ l, stop y = false) ∧ blocks.visit stop r = .error .keyError) := by
  by_cases hex : ∃ x ∈ l, stop x = true
  · left
    obtain ⟨a, x, b, hl, hx, hb⟩ := exists_last hex
    exact ⟨a, x, b, hl, hx, hb, visit_eq_ok h.chain hl hx hb⟩
  · right
    push Not at hex
    have hfalse : ∀ y ∈ l, stop y = false := fun y hy => by simpa using hex y hy
    exact ⟨hfalse, ParentTree.visit_eq_missing h.chain h.genesis hfalse (height_lt_fuel h.chain)⟩

lemma AncestorsPresent.visit_congr (h' : AncestorsPresent blocks' r l) :
    blocks.visit stop r = blocks'.visit stop r := by
  rcases h.visit_cases stop with ⟨a, x, b, hl, hx, hb, heq⟩ | ⟨hnone, heq⟩
  · rw [heq, visit_eq_ok h'.chain hl hx hb]
  · rw [heq]
    exact (ParentTree.visit_eq_missing h'.chain h'.genesis hnone (height_lt_fuel h'.chain)).symm

lemma AncestorsPresent.walkBack_congr (h' : AncestorsPresent blocks' r l) :
    blocks.walkBack stop r = blocks'.walkBack stop r ∧
      ∀ x, blocks.walkBack stop r = .ok x → x ∈ l := by
  have hwalk : ∀ (blocks : BlockRecords),
      blocks.walkBack stop r = (blocks.visit stop r >>= fun v => .ok v.2) := fun _ => rfl
  constructor
  · rw [hwalk, hwalk, h.visit_congr h']
  · intro x hx
    rw [hwalk] at hx
    rcases h.visit_cases stop with ⟨a, y, b, hl, -, -, heq⟩ | ⟨-, heq⟩
    · rw [heq, ok_bind] at hx
      rw [← Except.ok.inj hx, hl]
      simp
    · rw [heq] at hx
      cases hx

end Walks

/-! ## Fetching blocks by height -/

/-- What a node knows of the chain of a block: all its blocks, and the main chain by height. The ancestors
of a block of the main chain are on the main chain. The main chain may go on after the block, or the block
may be on a fork. -/
structure PeakView (blocks : BlockchainInterface) (r : BlockRecord) (l : List BlockRecord) : Prop where
  ancestors : AncestorsPresent blocks.records r l
  mainChain : ∀ x ∈ l, blocks.heightToHash x.height = some x.headerHash → ∀ y ∈ l, y.height ≤ x.height →
    blocks.heightToHash y.height = some y.headerHash ∧ blocks.records.get y.headerHash = some y

section Fetch

variable {blocks blocks' : BlockchainInterface} {r x : BlockRecord} {l : List BlockRecord}
  {target n : ℕ}

lemma PeakView.of_mem (h : PeakView blocks r l) (hx : x ∈ l) :
    PeakView blocks x (l.take (x.height + 1)) :=
  ⟨h.ancestors.of_mem hx, fun y hy hmain z hz hle =>
    h.mainChain y (List.mem_of_mem_take hy) hmain z (List.mem_of_mem_take hz) hle⟩

/-- The blocks of a chain in a range of heights. -/
lemma filter_height_eq {records : BlockRecords} (h : records.Chain r l) (target n : ℕ) :
    l.filter (fun x => decide (target ≤ x.height) && decide (x.height < target + n)) =
      (l.drop target).take n := by
  have hheight : ∀ {i : ℕ} {x : BlockRecord}, l[i]? = some x → x.height = i := fun hx =>
    (h.getElem hx).1
  have hsplit : l = l.take target ++ ((l.drop target).take n ++ (l.drop target).drop n) := by
    rw [List.take_append_drop, List.take_append_drop]
  conv_lhs => rw [hsplit]
  rw [List.filter_append, List.filter_append]
  have hbefore : (l.take target).filter
      (fun x => decide (target ≤ x.height) && decide (x.height < target + n)) = [] := by
    rw [List.filter_eq_nil_iff]
    intro x hx
    obtain ⟨i, hi⟩ := List.mem_iff_getElem?.mp hx
    rw [List.getElem?_take] at hi
    split at hi
    · have := hheight hi
      simp only [Bool.and_eq_true, decide_eq_true_eq, not_and]
      omega
    · cases hi
  have hafter : ((l.drop target).drop n).filter
      (fun x => decide (target ≤ x.height) && decide (x.height < target + n)) = [] := by
    rw [List.filter_eq_nil_iff]
    intro x hx
    obtain ⟨i, hi⟩ := List.mem_iff_getElem?.mp hx
    rw [List.getElem?_drop, List.getElem?_drop] at hi
    have := hheight hi
    simp only [Bool.and_eq_true, decide_eq_true_eq, not_and]
    omega
  have hinside : ((l.drop target).take n).filter
      (fun x => decide (target ≤ x.height) && decide (x.height < target + n)) =
        (l.drop target).take n := by
    rw [List.filter_eq_self]
    intro x hx
    obtain ⟨i, hi⟩ := List.mem_iff_getElem?.mp hx
    rw [List.getElem?_take] at hi
    split at hi
    · rw [List.getElem?_drop] at hi
      have := hheight hi
      simp only [Bool.and_eq_true, decide_eq_true_eq]
      omega
    · cases hi
  rw [hbefore, hafter, hinside, List.nil_append, List.append_nil]

/-- The walk back to a height gives the blocks of the chain from there on. -/
lemma fetchSlowly (h : AncestorsPresent blocks.records r l)
    (hoff : blocks.heightToHash r.height ≠ some r.headerHash) :
    getBlocksAtHeight blocks r target n = .ok ((l.drop target).take n) := by
  unfold getBlocksAtHeight
  rw [if_neg hoff]
  rcases h.visit_cases (fun r => decide (r.height < target) || decide (r.height = 0)) with
    ⟨a, x, b, hl, hstop, -, heq⟩ | ⟨hnone, -⟩
  · rw [heq, ok_bind]
    have hbefore : a.filter (fun x => decide (target ≤ x.height) && decide (x.height < target + n)) = [] := by
      rw [List.filter_eq_nil_iff]
      intro y hy
      obtain ⟨i, hi⟩ := List.mem_iff_getElem?.mp hy
      have hlt : i < a.length := (List.getElem?_eq_some_iff.mp hi).1
      have hyheight := (h.chain.getElem (show l[i]? = some y by
        rw [hl, List.getElem?_append_left hlt, hi])).1
      have hxheight := (h.chain.getElem (show l[a.length]? = some x by simp [hl])).1
      simp only [Bool.or_eq_true, decide_eq_true_eq] at hstop
      simp only [Bool.and_eq_true, decide_eq_true_eq, not_and]
      omega
    simp only [pure_eq]
    rw [← filter_height_eq h.chain, ← List.filter_reverse, hl, List.filter_append, hbefore]
    simp
  · -- genesis passes the test
    have hg : l[0]? ≠ none := by
      rw [Ne, List.getElem?_eq_none_iff, h.chain.length_eq]
      omega
    obtain ⟨g, hg⟩ := Option.ne_none_iff_exists'.mp hg
    have := hnone g (List.mem_of_getElem? hg)
    simp [(h.chain.getElem hg).1] at this

lemma PeakView.fetchDirectly (h : PeakView blocks r l)
    (hon : blocks.heightToHash r.height = some r.headerHash) (hle : target + n ≤ r.height + 1) :
    getBlocksAtHeight blocks r target n = .ok ((l.drop target).take n) := by
  unfold getBlocksAtHeight
  rw [if_pos hon]
  have hlen := h.ancestors.chain.length_eq
  have hmain := h.mainChain r (ParentTree.Path.mem_self h.ancestors.chain) hon
  induction n generalizing target with
  | zero => rfl
  | succ n ih =>
    have hlt : target < l.length := by omega
    have hx : l[target]? = some l[target] := List.getElem?_eq_getElem hlt
    have hheight : l[target].height = target := (h.ancestors.chain.getElem hx).1
    obtain ⟨hhash, hget⟩ := hmain l[target] (List.getElem_mem hlt) (by omega)
    have hrecord : blocks.recordAtHeight target = .ok l[target] := by
      unfold BlockchainInterface.recordAtHeight
      rw [hheight] at hhash
      rw [hhash]
      exact blockRecord_eq_ok hget
    rw [List.range'_succ, List.mapM_cons, hrecord, ok_bind, ih (by omega), List.drop_eq_getElem_cons hlt]
    rfl

/-- **Both ways of fetching blocks give the blocks of the chain**, as long as they are not after the given
block. -/
theorem PeakView.getBlocksAtHeight_eq (h : PeakView blocks r l) (hle : target + n ≤ r.height + 1) :
    getBlocksAtHeight blocks r target n = .ok ((l.drop target).take n) := by
  by_cases hon : blocks.heightToHash r.height = some r.headerHash
  · exact h.fetchDirectly hon hle
  · exact fetchSlowly h.ancestors hon

end Fetch

/-! ## The transaction blocks that bound an epoch -/

section Epoch

variable {blocks blocks' : BlockRecords} {B B' : BlockchainInterface} {r x : BlockRecord}
  {l : List BlockRecord}

lemma AncestorsPresent.prevTransactionBlockOf_congr (h : AncestorsPresent blocks r l)
    (h' : AncestorsPresent blocks' r l) (hx : x ∈ l) :
    prevTransactionBlockOf blocks x = prevTransactionBlockOf blocks' x ∧
      ∀ t, prevTransactionBlockOf blocks x = .ok t → t ∈ l := by
  obtain ⟨hrecord, hmem⟩ := (h.of_mem hx).blockRecord_congr (h'.of_mem hx)
  unfold prevTransactionBlockOf
  rw [← hrecord]
  cases hp : blocks.blockRecord x.prevHash with
  | error e => exact ⟨rfl, fun t ht => by cases ht⟩
  | ok p =>
    have hpl : p ∈ l := List.mem_of_mem_take (hmem p hp)
    obtain ⟨hwalk, hmem'⟩ := (h.of_mem hpl).walkBack_congr (h'.of_mem hpl)
    exact ⟨hwalk, fun t ht => List.mem_of_mem_take (hmem' t ht)⟩

lemma AncestorsPresent.secondToLastTransactionBlock_congr (h : AncestorsPresent blocks r l)
    (h' : AncestorsPresent blocks' r l) (hx : x ∈ l) :
    secondToLastTransactionBlock blocks x = secondToLastTransactionBlock blocks' x := by
  obtain ⟨heq, hmem⟩ := h.prevTransactionBlockOf_congr h' hx
  unfold secondToLastTransactionBlock
  rw [← heq]
  split
  · rfl
  · cases ht : prevTransactionBlockOf blocks x with
    | error e => rfl
    | ok t => exact (h.prevTransactionBlockOf_congr h' (hmem t ht)).1

lemma mem_of_lastBeforeSummary {currB nextB b : BlockRecord} {fetched : List BlockRecord}
    (h : lastBeforeSummary currB nextB fetched = .ok b) : b = currB ∨ b = nextB ∨ b ∈ fetched := by
  induction fetched generalizing currB nextB with
  | nil =>
    unfold lastBeforeSummary at h
    split at h
    · exact .inl (Except.ok.inj h).symm
    · cases h
  | cons c fetched ih =>
    unfold lastBeforeSummary at h
    split at h
    · exact .inl (Except.ok.inj h).symm
    · rcases ih h with rfl | rfl | hb
      · exact .inr (.inl rfl)
      · exact .inr (.inr (List.mem_cons_self))
      · exact .inr (.inr (List.mem_cons_of_mem _ hb))

/-- **The block that an epoch is measured from does not depend on the peak**, where an epoch may end.

**Proof sketch.** The next block is among the first of an epoch, so the blocks around the start of the
epoch before are all before the given block, and are fetched from its chain. -/
theorem PeakView.getSecondToLast_congr (h : PeakView B r l) (h' : PeakView B' r l)
    (hheight : defaultConstants.SUB_EPOCH_BLOCKS ≤ r.height + 2)
    (hepoch : heightCanBeFirstInEpoch defaultConstants (r.height + 2) = true) :
    getSecondToLastTransactionBlockInPreviousEpoch defaultConstants B r =
      getSecondToLastTransactionBlockInPreviousEpoch defaultConstants B' r := by
  have hfirst : (r.height + 2 - (r.height + 2) % 384) % 4608 = 0 := of_decide_eq_true hepoch
  replace hheight : 384 ≤ r.height + 2 := hheight
  unfold getSecondToLastTransactionBlockInPreviousEpoch
  refine bind_congr_ok fun surpass hsurpass => bind_congr_ok fun prev hprev => ?_
  refine bind_congr_ok fun _ _ => bind_congr_ok fun _ _ => ?_
  have hsurpass : surpass =
      r.height + 2 * 128 + 16 + 5 - (r.height + 2 * 128 + 16 + 5) % 4608 := by
    have := (uintN_eq_ok.mp hsurpass).1
    exact_mod_cast this.symm
  have hprev : (surpass : ℤ) - 4608 = prev := (uintN_eq_ok.mp hprev).1
  have hbefore : prev + 274 ≤ r.height + 1 := by omega
  by_cases hzero : prev = 0
  · rw [if_pos hzero, if_pos hzero, h.getBlocksAtHeight_eq (by omega), h'.getBlocksAtHeight_eq (by omega)]
  rw [if_neg hzero, if_neg hzero]
  refine bind_congr_ok fun start hstart => ?_
  have hstart : (prev : ℤ) - 128 - 1 = start := (uintN_eq_ok.mp hstart).1
  have hrange : start + (3 * defaultConstants.MAX_SUB_SLOT_BLOCKS +
      defaultConstants.MIN_BLOCKS_PER_CHALLENGE_BLOCK + 3) ≤ r.height + 1 := by
    show start + (3 * 128 + 16 + 3) ≤ r.height + 1
    omega
  rw [h.getBlocksAtHeight_eq hrange, h'.getBlocksAtHeight_eq hrange, ok_bind, ok_bind]
  refine bind_congr_ok fun currB hcurr => bind_congr_ok fun _ _ => ?_
  refine bind_congr_ok fun nextB hnext => bind_congr_ok fun _ _ => bind_congr_ok fun last hlast => ?_
  have hindex : ∀ {n i : ℕ} {b : BlockRecord}, pyIndex ((l.drop start).take n) i = .ok b → b ∈ l := by
    intro n i b hb
    unfold pyIndex at hb
    split at hb
    · rename_i x hx
      rw [← Except.ok.inj hb]
      exact List.mem_of_mem_drop (List.mem_of_mem_take (List.mem_of_getElem? hx))
    · cases hb
  refine h.ancestors.secondToLastTransactionBlock_congr h'.ancestors ?_
  rcases mem_of_lastBeforeSummary hlast with rfl | rfl | hmem
  · exact hindex hcurr
  · exact hindex hnext
  · exact List.mem_of_mem_drop (List.mem_of_mem_take (List.mem_of_mem_drop hmem))

lemma AncestorsPresent.canFinish_congr (h : AncestorsPresent blocks r l) (h' : AncestorsPresent blocks' r l)
    (constants : ConsensusConstants) (deficit : ℕ) (included : Bool) :
    canFinishSubAndFullEpoch constants blocks r.height r.prevHash deficit included =
      canFinishSubAndFullEpoch constants blocks' r.height r.prevHash deficit included := by
  have hsummary : summaryInSubEpoch constants blocks r.height r.prevHash =
      summaryInSubEpoch constants blocks' r.height r.prevHash := by
    obtain ⟨hrecord, hmem⟩ := h.blockRecord_congr h'
    unfold summaryInSubEpoch
    rw [← hrecord]
    split
    · refine bind_congr_ok fun p hp => ?_
      have hpl := hmem p hp
      rw [((h.of_mem hpl).walkBack_congr (h'.of_mem hpl)).1]
    · rfl
  unfold canFinishSubAndFullEpoch
  rw [hsummary]

/-- What `can_finish_sub_and_full_epoch` returns: a sub-epoch may end after enough blocks, none of which in
the current sub-epoch includes a summary, and then an epoch may end if the next block is among the first of
an epoch. -/
lemma canFinish_cases {constants : ConsensusConstants} {height deficit : ℕ} {prevHash : Bytes32}
    {included canFinishSe canFinishEpoch : Bool}
    (h : canFinishSubAndFullEpoch constants blocks height prevHash deficit included =
      .ok (canFinishSe, canFinishEpoch)) :
    (canFinishSe = false ∧ canFinishEpoch = false) ∨
      (canFinishSe = true ∧ constants.SUB_EPOCH_BLOCKS ≤ height + 1 ∧ included = false ∧
        summaryInSubEpoch constants blocks height prevHash = .ok false ∧
        canFinishEpoch = heightCanBeFirstInEpoch constants (height + 1)) := by
  have hneither : ∀ {x : Bool × Bool}, (Except.ok (false, false) : Except PyError (Bool × Bool)) = .ok x →
      x.1 = false ∧ x.2 = false := by
    intro x hx
    rw [← Except.ok.inj hx]
    exact ⟨rfl, rfl⟩
  unfold canFinishSubAndFullEpoch at h
  split at h
  · exact .inl (hneither h)
  rename_i hlow
  split at h
  · exact .inl (hneither h)
  split at h
  · exact .inl (hneither h)
  rename_i hincluded
  obtain ⟨found, hfound, h⟩ := bind_eq_ok.mp h
  cases found with
  | true => exact .inl (hneither h)
  | false =>
    right
    obtain ⟨next, hnext, h⟩ := bind_eq_ok.mp h
    have hnext : ((height : ℤ) + 1) = next := (uintN_eq_ok.mp hnext).1
    obtain ⟨hse, hfirst⟩ := Prod.mk.inj (Except.ok.inj h)
    rw [show height + 1 = next by omega]
    exact ⟨hse.symm, by omega, by simpa using hincluded, hfound, hfirst.symm⟩

lemma PeakView.staysInEpoch_congr (h : PeakView B r l) (h' : PeakView B' r l) {p : BlockRecord}
    (hp : p ∈ l) (hheight : p.height + 1 = r.height) (deficit : ℕ) (included newSlot : Bool) :
    staysInEpoch defaultConstants B.records r.prevHash r.height deficit included newSlot false =
        staysInEpoch defaultConstants B'.records r.prevHash r.height deficit included newSlot false ∧
      (staysInEpoch defaultConstants B.records r.prevHash r.height deficit included newSlot false =
          .ok false →
        getSecondToLastTransactionBlockInPreviousEpoch defaultConstants B p =
          getSecondToLastTransactionBlockInPreviousEpoch defaultConstants B' p) := by
  unfold staysInEpoch
  rw [if_neg Bool.false_ne_true, if_neg Bool.false_ne_true]
  refine ⟨by rw [h.ancestors.canFinish_congr h'.ancestors], fun hstays => ?_⟩
  obtain ⟨⟨canFinishSe, canFinishEpoch⟩, hfinish, hstays⟩ := bind_eq_ok.mp hstays
  have hepoch : canFinishEpoch = true := by
    have := Except.ok.inj hstays
    simp only [Bool.or_eq_false_iff, Bool.not_eq_false'] at this
    exact this.2
  subst hepoch
  rcases canFinish_cases hfinish with ⟨-, hfalse⟩ | ⟨-, hlow, -, -, hfirst⟩
  · cases hfalse
  · rw [← hheight] at hlow hfirst
    exact (h.of_mem hp).getSecondToLast_congr (h'.of_mem hp) hlow hfirst.symm

end Epoch

/-! ## The next parameters -/

section Next

variable {B B' : BlockchainInterface} {r : BlockRecord} {l : List BlockRecord}

lemma PeakView.getNextSubSlotIters_congr (h : PeakView B r l) (h' : PeakView B' r l)
    (curr deficit : ℕ) (included newSlot : Bool) (spTotalIters : ℕ) :
    getNextSubSlotIters defaultConstants B r.prevHash r.height curr deficit included newSlot spTotalIters
        false =
      getNextSubSlotIters defaultConstants B' r.prevHash r.height curr deficit included newSlot
        spTotalIters false := by
  unfold getNextSubSlotIters
  refine bind_congr_ok fun next hnext => ?_
  have hnext : (r.height : ℤ) + 1 = next := (uintN_eq_ok.mp hnext).1
  by_cases hfirst : next < defaultConstants.EPOCH_BLOCKS
  · rw [if_pos hfirst, if_pos hfirst]
  rw [if_neg hfirst, if_neg hfirst]
  have hlow : 4608 ≤ next := Nat.not_lt.mp hfirst
  obtain ⟨p, hp, hget, hget', hheight⟩ := h.ancestors.parent_congr h'.ancestors (by omega)
  obtain ⟨hstays, hlast⟩ := h.staysInEpoch_congr h' hp hheight deficit included newSlot
  rw [hget, hget']
  simp only
  rw [← hstays]
  refine bind_congr_ok fun stays hs => ?_
  cases stays with
  | true => rw [if_pos rfl, if_pos rfl]
  | false =>
    rw [if_neg Bool.false_ne_true, if_neg Bool.false_ne_true, hlast hs]
    unfold lastBlockCurr
    rw [((h.of_mem hp).ancestors.walkBack_congr (h'.of_mem hp).ancestors).1]

lemma PeakView.getNextDifficulty_congr (h : PeakView B r l) (h' : PeakView B' r l)
    (curr deficit : ℕ) (included newSlot : Bool) (spTotalIters : ℕ) :
    getNextDifficulty defaultConstants B r.prevHash r.height curr deficit included newSlot spTotalIters
        false =
      getNextDifficulty defaultConstants B' r.prevHash r.height curr deficit included newSlot
        spTotalIters false := by
  unfold getNextDifficulty
  refine bind_congr_ok fun next hnext => ?_
  have hnext : (r.height : ℤ) + 1 = next := (uintN_eq_ok.mp hnext).1
  by_cases hfirst : next + 3 * defaultConstants.MAX_SUB_SLOT_BLOCKS < defaultConstants.EPOCH_BLOCKS
  · rw [if_pos hfirst, if_pos hfirst]
  rw [if_neg hfirst, if_neg hfirst]
  have hlow : 4608 ≤ next + 3 * 128 := Nat.not_lt.mp hfirst
  obtain ⟨p, hp, hget, hget', hheight⟩ := h.ancestors.parent_congr h'.ancestors (by omega)
  obtain ⟨hstays, hlast⟩ := h.staysInEpoch_congr h' hp hheight deficit included newSlot
  rw [hget, hget']
  simp only
  rw [← hstays]
  refine bind_congr_ok fun stays hs => ?_
  cases stays with
  | true => rw [if_pos rfl, if_pos rfl]
  | false =>
    rw [if_neg Bool.false_ne_true, if_neg Bool.false_ne_true, hlast hs]
    unfold lastBlockCurr difficultyOfEpoch
    rw [((h.of_mem hp).ancestors.walkBack_congr (h'.of_mem hp).ancestors).1,
      ((h.of_mem hp).ancestors.blockRecord_congr (h'.of_mem hp).ancestors).1]

/-- **The next difficulty and sub-slot iterations do not depend on the peak.** Nodes that have all
ancestors of a block get the same result, whether the block is on their main chain or on a fork. -/
theorem getNextSubSlotItersAndDifficulty_congr (h : PeakView B r l) (h' : PeakView B' r l)
    (isFirstInSubSlot : Bool) :
    getNextSubSlotItersAndDifficulty defaultConstants isFirstInSubSlot (some r) B =
      getNextSubSlotItersAndDifficulty defaultConstants isFirstInSubSlot (some r) B' := by
  have hdifficulty : prevDifficulty B.records r = prevDifficulty B'.records r := by
    unfold prevDifficulty
    rw [(h.ancestors.blockRecord_congr h'.ancestors).1]
  unfold getNextSubSlotItersAndDifficulty
  simp only
  rw [hdifficulty]
  refine bind_congr_ok fun difficulty _ => ?_
  split
  · rfl
  · refine bind_congr_ok fun spTotalIters _ => ?_
    rw [h.getNextDifficulty_congr h']
    refine bind_congr_ok fun nextDifficulty _ => ?_
    rw [h.getNextSubSlotIters_congr h']

/-- A chain of transaction blocks without fees, up to a height. -/
def freeChain (n : ℕ) : List BlockRecord :=
  (List.range (n + 1)).map (txRecord (fun _ => 0) fun _ => Bytes32.zero)

lemma ancestorsPresent_freeChain {n m : ℕ} (hnm : n ≤ m) (hm : m + 1 < 2 ^ 32) :
    AncestorsPresent (ofRecords (freeChain m)) (txRecord (fun _ => 0) (fun _ => Bytes32.zero) n)
      (freeChain n) := by
  have hchain := recordChain_txRecord (fun _ => 0) (fun _ => Nat.two_pow_pos 64) (fun _ => Bytes32.zero) hm
  have hnodup : ((freeChain m).map BlockRecord.headerHash).Nodup := by
    rw [freeChain, List.map_map]
    refine List.Nodup.map_on (fun a ha b hb h => ?_) List.nodup_range
    rw [List.mem_range] at ha hb
    have hab : a + 1 = b + 1 := Bytes32.ofNat_injOn (by omega) (by omega) h
    omega
  refine ⟨?_, fun g hg => ?_⟩
  · have hat : (freeChain m)[n]? = some (txRecord (fun _ => 0) (fun _ => Bytes32.zero) n) := by
      simp [freeChain, Nat.lt_succ_of_le hnm]
    have hprefix : (freeChain m).take (n + 1) = freeChain n := by
      rw [freeChain, ← List.map_take, List.take_range, min_eq_left (by omega)]
      rfl
    rw [← hprefix]
    exact (hchain.path.getElem hat).2
  · obtain rfl : txRecord (fun _ => 0) (fun _ => Bytes32.zero) 0 = g := by
      simpa [freeChain, List.range_succ_eq_map] using hg
    rw [Option.eq_none_iff_forall_ne_some]
    intro r hr
    obtain ⟨hmem, hhash⟩ := mem_of_get_ofRecords hnodup hr
    obtain ⟨i, hi, rfl⟩ := List.mem_map.mp hmem
    rw [List.mem_range] at hi
    have : i + 1 = 0 := Bytes32.ofNat_injOn (by omega) (by omega) hhash
    omega

lemma peakView_main {n m : ℕ} (hnm : n ≤ m) (hm : m + 1 < 2 ^ 32) :
    PeakView ⟨ofRecords (freeChain m), fun h => some (Bytes32.ofNat (h + 1))⟩
      (txRecord (fun _ => 0) (fun _ => Bytes32.zero) n) (freeChain n) := by
  have hchain := recordChain_txRecord (fun _ => 0) (fun _ => Nat.two_pow_pos 64) (fun _ => Bytes32.zero) hm
  refine ⟨ancestorsPresent_freeChain hnm hm, fun x _ _ y hy _ => ?_⟩
  obtain ⟨i, hi, rfl⟩ := List.mem_map.mp hy
  rw [List.mem_range] at hi
  exact ⟨rfl, hchain.stored _ (List.mem_map.mpr ⟨i, List.mem_range.mpr (by omega), rfl⟩)⟩

lemma peakView_fork {n m : ℕ} (hnm : n ≤ m) (hm : m + 1 < 2 ^ 32) :
    PeakView (blockCache (ofRecords (freeChain m)))
      (txRecord (fun _ => 0) (fun _ => Bytes32.zero) n) (freeChain n) :=
  ⟨ancestorsPresent_freeChain hnm hm, fun _ _ hmain => (nomatch hmain)⟩

/-- A block at the end of an epoch, for a node whose main chain goes on after it, and for a node that has
it on a fork. -/
theorem getNextSubSlotItersAndDifficulty_congr_freeChain :
    getNextSubSlotItersAndDifficulty defaultConstants true
        (some (txRecord (fun _ => 0) (fun _ => Bytes32.zero) 9215))
        ⟨ofRecords (freeChain 9300), fun h => some (Bytes32.ofNat (h + 1))⟩ =
      getNextSubSlotItersAndDifficulty defaultConstants true
        (some (txRecord (fun _ => 0) (fun _ => Bytes32.zero) 9215))
        (blockCache (ofRecords (freeChain 9215))) :=
  getNextSubSlotItersAndDifficulty_congr (peakView_main (by omega) (by omega))
    (peakView_fork (le_refl 9215) (by omega)) true

end Next

end Chives
