import Chives.Consensus.Deficit
import Chives.Consensus.SubEpochs

set_option autoImplicit false

/-!
# The overflow of a sub-epoch

`make_sub_epoch_summary` stores how many blocks the previous sub-epoch ran over, as a `uint8`. A sub-epoch
ends at the first new sub-slot at which the deficit is zero, and a sub-slot that starts with overflow blocks
keeps the deficit at its maximum for as many blocks as it holds. So the number of overflow blocks at the start
of a sub-slot decides whether the overflow fits in a byte.

## Main definitions

* `RuleChain` — a chain whose blocks obey the header rules for sub-slots, deficits and summaries.
* `slotBlocks` — the number of blocks in the last sub-slot of a chain.
* `OverflowsEarly` — every block with the maximal deficit is among the first 113 blocks of its
  sub-slot.

## Main results

* `HeaderChain.ruleChain` — chains of accepted blocks obey the rules.
* `RuleChain.overflow_fits` — the overflow fits in a byte if the overflow blocks come early.
* `overflow_not_fits` — a chain in which it does not fit.

## Design

The rules are stated with the functions of header validation, on a cache that holds the chain so far. The
proof follows three numbers along the chain: the height in the sub-epoch, the deficit, and the number of
blocks in the sub-slot.
-/

namespace Chives

open ExceptRun BlockRecords

/-! ## Chains that obey the rules -/

/-- The records of a chain whose blocks obey the header rules: the deficits are those of
`calculate_deficit`, no sub-slot holds too many blocks, and a block includes a summary exactly if it has a
finished sub-slot and `can_finish_sub_and_full_epoch` allows it. A block comes with the reward chain hashes
of its finished sub-slots. -/
inductive RuleChain (constants : ConsensusConstants) : List BlockRecord → Prop
  | genesis {r : BlockRecord} {n : ℕ} (hheight : r.height = 0) (hfirst : r.firstInSubSlot = true)
      (hdeficit : calculateDeficit constants r.height none r.overflow n = .ok r.deficit)
      (hses : r.subEpochSummaryIncluded = none) : RuleChain constants [r]
  | extend {blocks : BlockRecords} {p r : BlockRecord} {rs : List BlockRecord} {slots : List Bytes32}
      {difficulty subSlotIters : ℕ} {canFinishSe canFinishEpoch : Bool}
      (hrs : RuleChain constants rs) (hchain : blocks.Chain p rs)
      (hfirst : r.firstInSubSlot = decide (slots.length > 0))
      (hslots : slots ≠ [] → r.finishedRewardSlotHashes = some slots)
      (hdeficit : calculateDeficit constants r.height (some p) r.overflow slots.length = .ok r.deficit)
      (hblocks : checkNumBlocks constants blocks (decide (slots.length > 0)) (some p) = .ok ())
      (hepoch : heightAndEpoch constants blocks (some p) (decide (slots.length > 0)) difficulty
        subSlotIters = .ok (r.height, canFinishSe, canFinishEpoch))
      (hses : r.subEpochSummaryIncluded.isSome = canFinishSe) : RuleChain constants (rs ++ [r])

/-- The number of blocks in the last sub-slot of a chain. -/
def slotBlocks (rs : List BlockRecord) : ℕ :=
  (rs.reverse.takeWhile fun r => !r.firstInSubSlot).length + 1

/-- Every block with the maximal deficit is among the first 113 blocks of its sub-slot. -/
def OverflowsEarly (constants : ConsensusConstants) (rs : List BlockRecord) : Prop :=
  ∀ (l : List BlockRecord) (r : BlockRecord), l ++ [r] <+: rs →
    r.deficit = constants.MIN_BLOCKS_PER_CHALLENGE_BLOCK → slotBlocks (l ++ [r]) ≤ 113

/-! ## Accepted blocks obey the rules -/

variable {newSubSlot : Bool}

section Accepted

variable {H : Hashes} {V : Verifiers} {constants : ConsensusConstants} {blocks : BlockRecords} {p : BlockRecord}
  {canFinishSe canFinishEpoch : Bool}

lemma heightAndEpoch_height {difficulty subSlotIters height : ℕ}
    (h : heightAndEpoch constants blocks (some p) newSubSlot difficulty subSlotIters = .ok (height, canFinishSe, canFinishEpoch)) :
    height = p.height + 1 := by
  obtain ⟨n, hn, h⟩ := bind_eq_ok.mp h
  have hn : ((p.height : ℤ) + 1) = n := (uintN_eq_ok.mp hn).1
  have : n = height := by
    split at h
    · obtain ⟨_, -, h⟩ := bind_eq_ok.mp h
      exact (Prod.mk.inj (Except.ok.inj h)).1
    · exact (Prod.mk.inj (Except.ok.inj h)).1
  omega

variable {expectedDifficulty expectedSubSlotIters requiredIters : ℕ}

lemma checkNumBlocks_of_valid {hb : HeaderBlock} {checkFilter check : Bool} {now : ℕ}
    (h : validateFinishedHeaderBlock H V constants blocks hb checkFilter expectedDifficulty expectedSubSlotIters check now = .ok requiredIters) :
    checkNumBlocks constants blocks (decide (hb.finishedSubSlots.length > 0))
      (blocks.get hb.prevHeaderHash) = .ok () := by
  unfold validateFinishedHeaderBlock at h
  obtain ⟨iters, hunfinished, -⟩ := bind_eq_ok.mp h
  unfold validateUnfinishedHeaderBlock at hunfinished
  obtain ⟨_, -, hunfinished⟩ := bind_eq_ok.mp hunfinished
  obtain ⟨overflow, -, hunfinished⟩ := bind_eq_ok.mp hunfinished
  obtain ⟨⟨skipLast, n⟩, hslots, hunfinished⟩ := bind_eq_ok.mp hunfinished
  obtain ⟨rfl, rfl⟩ : skipLast = false ∧ n = hb.finishedSubSlots.length := by
    have := Except.ok.inj (raising_eq_ok.mp hslots)
    exact ⟨(Prod.mk.inj this).1.symm, (Prod.mk.inj this).2.symm⟩
  obtain ⟨_, -, hunfinished⟩ := bind_eq_ok.mp hunfinished
  obtain ⟨_, -, hunfinished⟩ := bind_eq_ok.mp hunfinished
  obtain ⟨challenge, hchallenge, -⟩ := bind_eq_ok.mp hunfinished
  unfold challengeOfBlock at hchallenge
  obtain ⟨⟨⟩, hblocks, -⟩ := bind_eq_ok.mp hchallenge
  exact hblocks

variable {block : FullBlock}

lemma includedSummary_isSome {prevB : Option BlockRecord} {ses : Option SubEpochSummary}
    (h : includedSummary H constants blocks block prevB = .ok ses) : ses.isSome = (foundSesHash block).isSome := by
  unfold includedSummary at h
  split at h
  · rename_i hash slot slots hfound hslots
    rw [hfound]
    obtain ⟨p, -, h⟩ := bind_eq_ok.mp h
    obtain ⟨q, -, h⟩ := bind_eq_ok.mp h
    obtain ⟨made, -, h⟩ := bind_eq_ok.mp h
    split at h
    · cases h
    · rw [← Except.ok.inj h]
      rfl
  · rename_i hnot
    rw [← Except.ok.inj h]
    cases hfound : foundSesHash block with
    | none => rfl
    | some hash =>
      cases hslots : block.finishedSubSlots with
      | nil => simp [foundSesHash, hslots] at hfound
      | cons slot slots => exact absurd hslots (hnot hash slot slots hfound)

/-- A block that passes header validation has a summary hash exactly if a sub-epoch may end. -/
lemma foundSesHash_isSome_of_valid {check : Bool} {height : ℕ}
    (hepoch : heightAndEpoch constants blocks (some p) (decide (block.finishedSubSlots.length > 0)) expectedDifficulty expectedSubSlotIters = .ok (height, canFinishSe, canFinishEpoch))
    (hchecked : checkFinishedSubSlots H V constants blocks (some p) (decide (block.finishedSubSlots.length > 0)) canFinishSe canFinishEpoch expectedDifficulty expectedSubSlotIters false check block.finishedSubSlots = .ok ()) :
    (foundSesHash block).isSome = canFinishSe := by
  cases hslots : block.finishedSubSlots with
  | nil =>
    rw [hslots] at hepoch
    obtain ⟨_, -, hepoch⟩ := bind_eq_ok.mp hepoch
    rw [if_neg (by simp)] at hepoch
    obtain ⟨-, hpair⟩ := Prod.mk.inj (Except.ok.inj hepoch)
    rw [← (Prod.mk.inj hpair).1]
    simp [foundSesHash, hslots]
  | cons slot slots =>
    rw [hslots] at hchecked
    unfold checkFinishedSubSlots at hchecked
    rw [if_neg (by simp)] at hchecked
    obtain ⟨out, hout, hsummary⟩ := bind_eq_ok.mp hchecked
    obtain ⟨hfirst, hrest, -⟩ := checkSlots_first hout
    rw [foundSesHash_cons hslots hrest, ← hfirst]
    cases hses : out with
    | some hash =>
      rw [hses] at hsummary
      rw [(checkSummary_some hsummary).2]
      rfl
    | none =>
      rw [hses] at hsummary
      cases hfinish : canFinishSe with
      | false => rfl
      | true => exact absurd (Or.inl hfinish) (rejectIf_eq_ok.mp hsummary)

/-- The reward chain hashes of the finished sub-slots of a block. -/
def rewardSlotHashes (H : Hashes) (block : FullBlock) : List Bytes32 :=
  block.finishedSubSlots.map fun s => H.rewardChainSubSlot s.rewardChain

lemma HeaderChain.eq_none_of_genesis {blocks : BlockchainInterface} {r : BlockRecord}
    (hprev : blocks.records.get block.prevHeaderHash = none) (h : HeaderAccepted H V constants blocks block r) :
    r.subEpochSummaryIncluded = none := by
  by_contra hne
  obtain ⟨ses, hses⟩ := Option.ne_none_iff_exists'.mp hne
  obtain ⟨p, hp, -⟩ := h.summary hses
  rw [hprev] at hp
  cases hp

lemma height_eq_zero_of_genesis {blocks : BlockchainInterface} {r : BlockRecord}
    (hprev : blocks.records.get block.prevHeaderHash = none)
    (h : blockToBlockRecord H constants blocks requiredIters block = .ok r) : block.height = 0 := by
  unfold blockToBlockRecord at h
  obtain ⟨_, hassert, -⟩ := bind_eq_ok.mp h
  by_contra hne
  have := pyAssert_eq_ok.mp hassert (Nat.pos_of_ne_zero hne)
  rw [hprev] at this
  cases this

/-- **Chains of accepted blocks obey the rules.** -/
theorem HeaderChain.ruleChain {rs : List BlockRecord} (h : HeaderChain H V constants rs) :
    RuleChain constants rs := by
  induction h with
  | @genesis blocks block r hprev h =>
    have hnone := eq_none_of_genesis hprev h
    obtain ⟨filter, additions, removals, checkFilter, difficulty, iters, now, required, hvalid, hrecord⟩ := h
    have hzero := height_eq_zero_of_genesis hprev hrecord
    obtain ⟨_, overflow, _, _, _, hdeficit, -, rfl⟩ := blockToBlockRecord_eq_ok hrecord
    rw [hprev] at hdeficit
    refine .genesis hzero ?_ hdeficit hnone
    show (finishedSlotHashes constants block _).isSome = true
    unfold finishedSlotHashes
    split
    · rfl
    · rfl
  | @extend blocks block p r rs hrs hchain hprev hheight h ih =>
    obtain ⟨hrheight, hparent⟩ := h.height
    obtain ⟨p', hp', hnext⟩ := hparent hheight
    obtain rfl : p' = p := by
      rw [hprev] at hp'
      exact (Option.some.inj hp').symm
    obtain ⟨filter, additions, removals, checkFilter, difficulty, iters, now, required, hvalid, hrecord⟩ := h
    obtain ⟨height, canFinishSe, canFinishEpoch, hepoch, hchecked, -⟩ :=
      validateFinishedHeaderBlock_eq_ok hvalid
    have hblocks := checkNumBlocks_of_valid hvalid
    obtain ⟨_, overflow, _, _, ses, hdeficit, hincluded, rfl⟩ := blockToBlockRecord_eq_ok hrecord
    change heightAndEpoch constants blocks.records (blocks.records.get block.prevHeaderHash)
      (decide (block.finishedSubSlots.length > 0)) difficulty iters = _ at hepoch
    change checkFinishedSubSlots H V constants blocks.records (blocks.records.get block.prevHeaderHash)
      (decide (block.finishedSubSlots.length > 0)) canFinishSe canFinishEpoch difficulty iters false true
      block.finishedSubSlots = _ at hchecked
    change checkNumBlocks constants blocks.records (decide (block.finishedSubSlots.length > 0))
      (blocks.records.get block.prevHeaderHash) = _ at hblocks
    rw [hprev] at hepoch hchecked hblocks hdeficit
    have hlength : (rewardSlotHashes H block).length = block.finishedSubSlots.length := by
      simp [rewardSlotHashes]
    have hsame : height = block.height := (heightAndEpoch_height hepoch).trans hnext.symm
    subst hsame
    refine @RuleChain.extend _ blocks.records p' _ rs (rewardSlotHashes H block) difficulty iters
      canFinishSe canFinishEpoch ih hchain ?_ ?_ ?_ ?_ ?_ ?_
    · rw [hlength]
      show (finishedSlotHashes constants block _).isSome = _
      unfold finishedSlotHashes
      by_cases hnil : block.finishedSubSlots = []
      · rw [if_neg (not_not.mpr hnil), if_neg hheight, hnil]
        rfl
      · rw [if_pos hnil]
        exact (decide_eq_true (List.length_pos_iff.mpr hnil)).symm
    · intro hne
      have hnil : block.finishedSubSlots ≠ [] := fun hnil => hne (by simp [rewardSlotHashes, hnil])
      show finishedSlotHashes constants block _ = _
      unfold finishedSlotHashes
      rw [if_pos hnil]
      rfl
    · rw [hlength]
      exact hdeficit
    · rw [hlength]
      exact hblocks
    · rw [hlength]
      exact hepoch
    · show ses.isSome = canFinishSe
      rw [includedSummary_isSome hincluded, foundSesHash_isSome_of_valid hepoch hchecked]

end Accepted

/-! ## One step of the three numbers -/

variable {height : ℕ}

lemma calculateDeficit_cases {p : BlockRecord} {n d : ℕ} {overflow : Bool} (hp : p.deficit ≤ 16)
    (hheight : height ≠ 0) (h : calculateDeficit defaultConstants height (some p) overflow n = .ok d) :
    (p.deficit = 16 ∧ (n = 0 ∧ d = 16 ∨ d = 15)) ∨
      (p.deficit = 0 ∧ (n = 0 ∧ d = 0 ∨ 0 < n ∧ 15 ≤ d ∧ d ≤ 16)) ∨
      (0 < p.deficit ∧ p.deficit < 16 ∧ d + 1 = p.deficit) := by
  have hstep := calculateDeficit_step hheight h
  rw [show defaultConstants.MIN_BLOCKS_PER_CHALLENGE_BLOCK = 16 from rfl] at hstep
  omega

/-- The bound on the height in the sub-epoch while no summary is included: `c` is the number of blocks in
the sub-slot, and a block with the maximal deficit is among the first `113 + slack` blocks of its sub-slot. -/
def PendingBound (slack height deficit c : ℕ) : Prop :=
  (deficit = 0 → height % 384 ≤ c + 126 + slack) ∧
    (0 < deficit → deficit < 16 → height % 384 + deficit ≤ 127 + slack) ∧
    (deficit = 16 → height % 384 + 2 ≤ c)

variable {deficit : ℕ}

lemma PendingBound.residue_le {slack c : ℕ} (h : PendingBound slack height deficit c) (hdeficit : deficit ≤ 16)
    (hc : c ≤ 128) : height % 384 ≤ 254 + slack := by
  obtain ⟨h0, h1, h2⟩ := h
  omega

lemma PendingBound.step {slack c n d c' : ℕ} (h : PendingBound slack height deficit c) (hslack : slack ≤ 15)
    (hdeficit : deficit ≤ 16) (hc : c ≤ 128)
    (hd : (deficit = 16 ∧ (n = 0 ∧ d = 16 ∨ d = 15)) ∨ (deficit = 0 ∧ (n = 0 ∧ d = 0 ∨ 0 < n ∧ 15 ≤ d ∧ d ≤ 16)) ∨ (0 < deficit ∧ deficit < 16 ∧ d + 1 = deficit))
    (hopen : ¬(0 < n ∧ deficit = 0)) (hc' : c' = if n = 0 then c + 1 else 1)
    (hearly : deficit = 16 → c ≤ 113 + slack) : PendingBound slack (height + 1) d c' := by
  have hle := h.residue_le hdeficit hc
  obtain ⟨h0, h1, h2⟩ := h
  have hmod : (height + 1) % 384 = height % 384 + 1 := by omega
  unfold PendingBound
  rw [hmod]
  split at hc' <;> omega

lemma PendingBound.start {slack n d c c' : ℕ} (hheight : height % 384 = 0) (hc : 1 ≤ c)
    (hd : (deficit = 16 ∧ (n = 0 ∧ d = 16 ∨ d = 15)) ∨ (deficit = 0 ∧ (n = 0 ∧ d = 0 ∨ 0 < n ∧ 15 ≤ d ∧ d ≤ 16)) ∨ (0 < deficit ∧ deficit < 16 ∧ d + 1 = deficit))
    (hopen : ¬(0 < n ∧ deficit = 0)) (hc' : c' = if n = 0 then c + 1 else 1) : PendingBound slack height d c' := by
  unfold PendingBound
  rw [hheight]
  split at hc' <;> omega

/-! ## The number of blocks in a sub-slot -/

@[simp]
lemma slotBlocks_append (rs : List BlockRecord) (r : BlockRecord) :
    slotBlocks (rs ++ [r]) = if r.firstInSubSlot then 1 else slotBlocks rs + 1 := by
  unfold slotBlocks
  rw [List.reverse_append]
  cases hfirst : r.firstInSubSlot with
  | true => simp [hfirst]
  | false => simp [hfirst]

lemma one_le_slotBlocks (rs : List BlockRecord) : 1 ≤ slotBlocks rs := Nat.le_add_left 1 _

lemma slotBlocks_eq {a b : List BlockRecord} {x : BlockRecord} (hx : x.firstInSubSlot = true)
    (hb : ∀ y ∈ b, y.firstInSubSlot = false) : slotBlocks (a ++ x :: b) = b.length + 1 := by
  unfold slotBlocks
  rw [List.reverse_append, List.reverse_cons, List.append_assoc,
    List.takeWhile_append_of_pos (fun y hy => by simp [hb y (List.mem_reverse.mp hy)])]
  simp [hx]

lemma checkNumBlocks_eq {constants : ConsensusConstants} {blocks : BlockRecords} {p : BlockRecord}
    {rs : List BlockRecord} (hchain : blocks.Chain p rs) (hfirst : ∃ r ∈ rs, r.firstInSubSlot = true) :
    checkNumBlocks constants blocks false (some p) =
      rejectIf (slotBlocks rs + 1 > constants.MAX_SUB_SLOT_BLOCKS) .tooManyBlocks := by
  obtain ⟨a, x, b, rfl, hx, hb⟩ := exists_last hfirst
  rw [slotBlocks_eq hx hb, show b.length + 1 + 1 = 2 + b.reverse.length by rw [List.length_reverse]; omega]
  simp only [checkNumBlocks, visit_eq_ok hchain rfl hx hb]
  rfl

lemma checkNumBlocks_eq_ok_iff {constants : ConsensusConstants} {blocks : BlockRecords}
    {p : BlockRecord} {rs : List BlockRecord} (hchain : blocks.Chain p rs)
    (hfirst : ∃ r ∈ rs, r.firstInSubSlot = true) :
    checkNumBlocks constants blocks false (some p) = .ok () ↔
      slotBlocks rs + 1 ≤ constants.MAX_SUB_SLOT_BLOCKS := by
  rw [checkNumBlocks_eq hchain hfirst, rejectIf_eq_ok]
  omega

lemma RuleChain.slotBlocks_le {constants : ConsensusConstants} {rs : List BlockRecord}
    (h : RuleChain constants rs) : (∃ r ∈ rs, r.firstInSubSlot = true) ∧
      slotBlocks rs ≤ max 1 constants.MAX_SUB_SLOT_BLOCKS := by
  induction h with
  | @genesis r n hheight hfirst hdeficit hses =>
    exact ⟨⟨r, List.mem_singleton.mpr rfl, hfirst⟩, by simp [slotBlocks, hfirst]⟩
  | @extend blocks p r rs slots difficulty iters se ep hrs hchain hfirst hslots hdeficit hblocks hepoch hses ih =>
    obtain ⟨⟨x, hx, hxfirst⟩, -⟩ := ih
    refine ⟨⟨x, List.mem_append_left _ hx, hxfirst⟩, ?_⟩
    rw [slotBlocks_append]
    split
    · exact le_max_left _ _
    · rename_i hnot
      rw [hfirst, Bool.not_eq_true] at hnot
      rw [hnot] at hblocks
      exact ((checkNumBlocks_eq_ok_iff hchain ⟨x, hx, hxfirst⟩).mp hblocks).trans (le_max_right _ _)

/-! ## The invariant -/

section Invariant

variable {slack : ℕ} {rs : List BlockRecord} {p r : BlockRecord} {blocks : BlockRecords}

/-- What holds of a chain that obeys the rules, with its last block. -/
structure OverflowInv (slack : ℕ) (rs : List BlockRecord) (p : BlockRecord) : Prop where
  first : ∃ r ∈ rs, r.firstInSubSlot = true
  deficit_le : p.deficit ≤ 16
  count_le : slotBlocks rs ≤ 128
  first_sub_epoch : ∀ r ∈ rs, r.height < 384 → r.subEpochSummaryIncluded = none
  overflow : ∀ r ∈ rs, r.subEpochSummaryIncluded.isSome = true → r.height % 384 ≤ 255 + slack
  hashes : ∀ r ∈ rs, r.subEpochSummaryIncluded.isSome = true →
    ∃ slots, r.finishedRewardSlotHashes = some slots ∧ slots ≠ []
  pending : 384 ≤ p.height →
    (∀ r ∈ rs, r.height / 384 = p.height / 384 → r.subEpochSummaryIncluded = none) →
    PendingBound slack p.height p.deficit (slotBlocks rs)
  earlier : ∀ k, 1 ≤ k → k < p.height / 384 →
    ∃ r ∈ rs, r.height / 384 = k ∧ r.subEpochSummaryIncluded.isSome = true

variable {difficulty subSlotIters : ℕ} {canFinishSe canFinishEpoch : Bool}

lemma summary_of_heightAndEpoch {height : ℕ} (hchain : blocks.Chain p rs)
    (h : heightAndEpoch defaultConstants blocks (some p) true difficulty subSlotIters = .ok (height, canFinishSe, canFinishEpoch))
    (hlow : 384 ≤ p.height + 1) (hdeficit : p.deficit = 0) (hses : p.subEpochSummaryIncluded = none)
    (hnone : ∀ r ∈ rs, r.height / 384 = (p.height + 1) / 384 → r.subEpochSummaryIncluded = none) :
    canFinishSe = true := by
  obtain ⟨_, -, h⟩ := bind_eq_ok.mp h
  rw [if_pos rfl] at h
  obtain ⟨⟨se, ep⟩, hfinish, h⟩ := bind_eq_ok.mp h
  obtain ⟨-, hpair⟩ := Prod.mk.inj (Except.ok.inj h)
  obtain ⟨rfl, rfl⟩ := Prod.mk.inj hpair
  unfold canFinishSubAndFullEpoch at hfinish
  rw [if_neg (show ¬p.height + 1 < defaultConstants.SUB_EPOCH_BLOCKS from Nat.not_lt.mpr hlow),
    if_neg (by omega), hses,
    if_neg (by simp)] at hfinish
  obtain ⟨found, hfound, hfinish⟩ := bind_eq_ok.mp hfinish
  cases found with
  | true =>
    obtain ⟨x, hx, -, hsame, hsome⟩ := (summaryInSubEpoch_eq_true_iff hchain hfound).mp rfl
    rw [hnone x hx hsame] at hsome
    cases hsome
  | false =>
    obtain ⟨_, -, hfinish⟩ := bind_eq_ok.mp hfinish
    exact (Prod.mk.inj (Except.ok.inj hfinish)).1.symm

lemma heightAndEpoch_true {height : ℕ}
    (h : heightAndEpoch defaultConstants blocks (some p) newSubSlot difficulty subSlotIters = .ok (height, true, canFinishEpoch)) :
    newSubSlot = true ∧ 384 ≤ p.height + 1 ∧ p.subEpochSummaryIncluded = none ∧
      summaryInSubEpoch defaultConstants blocks p.height p.prevHash = .ok false := by
  obtain ⟨_, -, h⟩ := bind_eq_ok.mp h
  cases newSubSlot with
  | false => exact nomatch (Prod.mk.inj (Prod.mk.inj (Except.ok.inj h)).2).1
  | true =>
    rw [if_pos rfl] at h
    obtain ⟨⟨se, ep⟩, hfinish, h⟩ := bind_eq_ok.mp h
    obtain ⟨rfl, rfl⟩ := Prod.mk.inj (Prod.mk.inj (Except.ok.inj h)).2
    rcases canFinish_cases hfinish with ⟨hfalse, -⟩ | ⟨-, hlow, hnone, hsub, -⟩
    · cases hfalse
    · exact ⟨rfl, hlow, by simpa using hnone, hsub⟩

lemma OverflowInv.genesis {n : ℕ} (hheight : r.height = 0) (hfirst : r.firstInSubSlot = true)
    (hdeficit : calculateDeficit defaultConstants r.height none r.overflow n = .ok r.deficit)
    (hses : r.subEpochSummaryIncluded = none) : OverflowInv slack [r] r where
  first := ⟨r, List.mem_singleton.mpr rfl, hfirst⟩
  deficit_le := by
    unfold calculateDeficit at hdeficit
    rw [if_pos hheight] at hdeficit
    have : ((16 : ℕ) : ℤ) - 1 = r.deficit := (uintN_eq_ok.mp hdeficit).1
    omega
  count_le := by
    have : slotBlocks [r] = 1 := by simp [slotBlocks, hfirst]
    omega
  first_sub_epoch := fun x hx _ => by rw [List.mem_singleton.mp hx, hses]
  overflow := fun x hx hsome => by
    rw [List.mem_singleton.mp hx, hses] at hsome
    cases hsome
  hashes := fun x hx hsome => by
    rw [List.mem_singleton.mp hx, hses] at hsome
    cases hsome
  pending := fun hle _ => absurd hle (by omega)
  earlier := fun k _ hk => absurd hk (by rw [hheight]; omega)

lemma OverflowInv.residue_le (h : OverflowInv slack rs p) (hlow : 384 ≤ p.height)
    (hnone : ∀ r ∈ rs, r.height / 384 = p.height / 384 → r.subEpochSummaryIncluded = none) :
    p.height % 384 ≤ 254 + slack :=
  (h.pending hlow hnone).residue_le h.deficit_le h.count_le

lemma OverflowInv.eq_none_of_last (hslack : slack ≤ 15) (h : OverflowInv slack rs p) (hp : p ∈ rs)
    (hlast : (p.height + 1) % 384 = 0) : p.subEpochSummaryIncluded = none := by
  by_contra hne
  have := h.overflow p hp (Option.isSome_iff_ne_none.mpr hne)
  omega

/-- The invariant is kept by a block, if the blocks of maximal deficit before it came early.

**Proof sketch.** A summary is included at most `255 + slack` blocks into a sub-epoch since `PendingBound` holds of the
parent. The bound holds of the block too if there is no summary yet: it is kept inside a sub-epoch, and
holds at its start, where every block before belongs to another sub-epoch. -/
lemma OverflowInv.extend {slots : List Bytes32} (hslack : slack ≤ 15) (h : OverflowInv slack rs p)
    (hchain : blocks.Chain p rs) (hfirst : r.firstInSubSlot = decide (slots.length > 0))
    (hslots : slots ≠ [] → r.finishedRewardSlotHashes = some slots)
    (hdeficit : calculateDeficit defaultConstants r.height (some p) r.overflow slots.length = .ok r.deficit)
    (hblocks : checkNumBlocks defaultConstants blocks (decide (slots.length > 0)) (some p) = .ok ())
    (hepoch : heightAndEpoch defaultConstants blocks (some p) (decide (slots.length > 0)) difficulty subSlotIters = .ok (r.height, canFinishSe, canFinishEpoch))
    (hses : r.subEpochSummaryIncluded.isSome = canFinishSe) (hearly : p.deficit = 16 → slotBlocks rs ≤ 113 + slack) :
    OverflowInv slack (rs ++ [r]) r := by
  have hheight := heightAndEpoch_height hepoch
  have hp : p ∈ rs := ParentTree.Path.mem_self hchain
  have hd := calculateDeficit_cases h.deficit_le (by omega) hdeficit
  have hcount : slotBlocks (rs ++ [r]) = if slots.length = 0 then slotBlocks rs + 1 else 1 := by
    rw [slotBlocks_append, hfirst]
    by_cases hn : slots.length = 0
    · simp [hn]
    · simp [hn, Nat.pos_of_ne_zero hn]
  -- where a summary is included
  have hsummary : r.subEpochSummaryIncluded.isSome = true →
      0 < slots.length ∧ 384 ≤ r.height ∧ r.height % 384 ≤ 255 + slack := by
    intro hsome
    rw [← hses, hsome] at hepoch
    obtain ⟨hnew, hlow, hnone, hsub⟩ := heightAndEpoch_true hepoch
    refine ⟨by simpa using hnew, by omega, ?_⟩
    by_cases hstart : (p.height + 1) % 384 = 0
    · rw [hheight]
      omega
    · have hdiv : (p.height + 1) / 384 = p.height / 384 := by omega
      have := h.residue_le (by omega) fun x hx hsame =>
        eq_none_of_summaryInSubEpoch hchain hnone hsub hx (hsame.trans hdiv.symm)
      omega
  refine ⟨?_, by omega, ?_, ?_, ?_, ?_, ?_, ?_⟩
  · obtain ⟨x, hx, hxfirst⟩ := h.first
    exact ⟨x, List.mem_append_left _ hx, hxfirst⟩
  · rw [hcount]
    split
    · rename_i hn
      rw [hn] at hblocks
      exact (checkNumBlocks_eq_ok_iff hchain h.first).mp hblocks
    · omega
  · intro x hx hlt
    rcases List.mem_append.mp hx with hx | hx
    · exact h.first_sub_epoch x hx hlt
    · rw [List.mem_singleton.mp hx] at hlt ⊢
      by_contra hne
      have := (hsummary (Option.isSome_iff_ne_none.mpr hne)).2.1
      omega
  · intro x hx hsome
    rcases List.mem_append.mp hx with hx | hx
    · exact h.overflow x hx hsome
    · rw [List.mem_singleton.mp hx] at hsome ⊢
      exact (hsummary hsome).2.2
  · intro x hx hsome
    rcases List.mem_append.mp hx with hx | hx
    · exact h.hashes x hx hsome
    · rw [List.mem_singleton.mp hx] at hsome ⊢
      have hne := List.length_pos_iff.mp (hsummary hsome).1
      exact ⟨slots, hslots hne, hne⟩
  · intro hlow hnone
    have hopen : ¬(0 < slots.length ∧ p.deficit = 0) := by
      rintro ⟨hn, hzero⟩
      rw [decide_eq_true hn] at hepoch
      have hrnone := hnone r (by simp) rfl
      have hpnone : p.subEpochSummaryIncluded = none := by
        by_cases hstart : (p.height + 1) % 384 = 0
        · exact h.eq_none_of_last hslack hp hstart
        · exact hnone p (List.mem_append_left _ hp) (by omega)
      have hfinish := summary_of_heightAndEpoch hchain hepoch (by omega) hzero hpnone
        fun x hx hsame => hnone x (List.mem_append_left _ hx) (by omega)
      rw [hfinish, hrnone] at hses
      cases hses
    by_cases hstart : r.height % 384 = 0
    · exact PendingBound.start hstart (one_le_slotBlocks rs) hd hopen hcount
    · have hpending := h.pending (by omega) fun x hx hsame =>
        hnone x (List.mem_append_left _ hx) (by omega)
      rw [hheight]
      exact hpending.step hslack h.deficit_le h.count_le hd hopen hcount hearly
  · intro k hk hlt
    by_cases hstart : r.height % 384 = 0 ∧ k = p.height / 384
    · -- the sub-epoch that ends with the parent has a summary, for else it would not have come so far
      by_contra hnot
      have hnone : ∀ x ∈ rs, x.height / 384 = p.height / 384 → x.subEpochSummaryIncluded = none := by
        intro x hx hsame
        by_contra hne
        exact hnot ⟨x, List.mem_append_left _ hx, by omega, Option.isSome_iff_ne_none.mpr hne⟩
      have := h.residue_le (by omega) hnone
      omega
    · obtain ⟨x, hx, hxk, hsome⟩ := h.earlier k hk (by omega)
      exact ⟨x, List.mem_append_left _ hx, hxk, hsome⟩

/-- **No sub-epoch passes without a summary**: the invariant holds along a chain whose overflow blocks come early,
and with a slack of 15 along every chain, since a sub-slot holds at most 128 blocks. -/
lemma RuleChain.overflowInv (hslack : slack ≤ 15) (h : RuleChain defaultConstants rs)
    (hearly : slack = 15 ∨ OverflowsEarly defaultConstants rs) :
    ∃ l p, rs = l ++ [p] ∧ OverflowInv slack rs p := by
  induction h with
  | @genesis r n hheight hfirst hdeficit hses =>
    exact ⟨[], r, rfl, .genesis hheight hfirst hdeficit hses⟩
  | @extend blocks p r rs slots difficulty iters se ep hrs hchain hfirst hslots hdeficit hblocks hepoch
      hses ih =>
    obtain ⟨l, p', rfl, hinv⟩ := ih (hearly.imp_right fun h l' x hl' => h l' x (hl'.trans (List.prefix_append _ _)))
    obtain rfl : p = p' := by
      have hlast := ParentTree.Path.getLast?_eq hchain
      rw [List.getLast?_concat] at hlast
      exact (Option.some.inj hlast).symm
    refine ⟨l ++ [p], r, rfl, hinv.extend hslack hchain hfirst hslots hdeficit hblocks hepoch hses fun hmax => ?_⟩
    have hcount := hinv.count_le
    rcases hearly with rfl | hearly
    · omega
    · have := hearly l p (List.prefix_append _ _) hmax
      omega

end Invariant

/-! ## The overflow fits in a byte -/

section Fits

variable {rs : List BlockRecord} {p : BlockRecord} {blocks : BlockRecords}

lemma OverflowInv.exists_summary (h : OverflowInv 0 rs p) (hlow : 639 ≤ p.height) :
    ∃ r ∈ rs, r.subEpochSummaryIncluded.isSome = true := by
  by_cases hearlier : 1 < p.height / 384
  · obtain ⟨r, hr, -, hsome⟩ := h.earlier 1 le_rfl hearlier
    exact ⟨r, hr, hsome⟩
  · by_contra hnot
    have := h.residue_le (by omega) fun x hx _ => by
      by_contra hne
      exact hnot ⟨x, hx, Option.isSome_iff_ne_none.mpr hne⟩
    omega

/-- The summary that the next block has to include can be made, if a sub-epoch may end. -/
lemma OverflowInv.expectedSummary_ok {H : Hashes} {difficulty subSlotIters height : ℕ}
    {canFinishEpoch : Bool} (h : OverflowInv 0 rs p) (hchain : blocks.Chain p rs)
    (hepoch : heightAndEpoch defaultConstants blocks (some p) true difficulty subSlotIters =
      .ok (height, true, canFinishEpoch)) :
    ∃ ses, expectedSummary H defaultConstants blocks p canFinishEpoch difficulty subSlotIters =
      .ok ses := by
  obtain ⟨-, hlow, hnone, -⟩ := heightAndEpoch_true hepoch
  -- the chain before the last block
  have hlast := hchain.getElem?_height (ParentTree.Path.mem_self hchain)
  obtain ⟨n, hn⟩ : ∃ n, p.height = n + 1 := ⟨p.height - 1, by omega⟩
  rw [hn] at hlast
  obtain ⟨q, hq, hget⟩ := hchain.getElem?_succ hlast
  obtain ⟨hqheight, hchain'⟩ := hchain.getElem hq
  unfold expectedSummary
  rw [blockRecord_eq_ok hget, ok_bind]
  unfold makeSubEpochSummary
  rw [(pyAssert_eq_ok (u := ())).mpr (show q.height + 2 = p.height + 1 by omega), ok_bind]
  by_cases hfirst : (p.height + 1 + defaultConstants.MAX_SUB_SLOT_BLOCKS) /
      defaultConstants.SUB_EPOCH_BLOCKS ≤ 1
  · rw [if_pos hfirst]
    exact ⟨_, rfl⟩
  rw [if_neg hfirst]
  change ¬(p.height + 1 + 128) / 384 ≤ 1 at hfirst
  obtain ⟨x, hx, hsome⟩ := h.exists_summary (by omega)
  have hxmem : x ∈ rs.take (n + 1) := by
    have hat := hchain.getElem?_height hx
    have hne : x.height ≠ n + 1 := by
      intro heq
      rw [heq, hlast] at hat
      rw [← Option.some.inj hat, hnone] at hsome
      cases hsome
    have hle := height_le hchain hx
    have hat' : (rs.take (n + 1))[x.height]? = some x := by
      rw [List.getElem?_take, if_pos (by omega)]
      exact hat
    exact List.mem_of_getElem? hat'
  obtain ⟨a, y, b, hl, hy, hb⟩ := @exists_last BlockRecord (rs.take (n + 1))
    (fun r => r.subEpochSummaryIncluded.isSome) ⟨x, hxmem, hsome⟩
  have hymem : y ∈ rs := List.mem_of_mem_take (show y ∈ rs.take (n + 1) by rw [hl]; simp)
  obtain ⟨ses, hses⟩ := Option.isSome_iff_exists.mp hy
  obtain ⟨slots, hslots, hne⟩ := h.hashes y hymem hy
  have hle := h.overflow y hymem hy
  have hbyte : uint8 ((y.height % defaultConstants.SUB_EPOCH_BLOCKS : ℕ) : ℤ) =
      .ok (y.height % defaultConstants.SUB_EPOCH_BLOCKS) :=
    uintN_eq_ok.mpr ⟨rfl, Nat.lt_succ_of_le hle⟩
  obtain ⟨last, hlast⟩ : ∃ last, pyLast slots = .ok last := by
    cases hgl : slots.getLast? with
    | none => exact absurd (List.getLast?_eq_none_iff.mp hgl) hne
    | some last => exact ⟨last, by simp [pyLast, hgl]⟩
  rw [walkBack_eq_ok hchain' hl hy hb, ok_bind, pySome_eq_ok.mpr hses, ok_bind,
    pySome_eq_ok.mpr hslots, ok_bind, hlast, ok_bind, hbyte, ok_bind]
  exact ⟨_, rfl⟩

/-- **The overflow of a sub-epoch fits in a byte**, along every chain that obeys the header rules and in which
the blocks of maximal deficit are among the first 113 blocks of their sub-slots: a block that includes a
summary is less than 256 blocks into its sub-epoch, so that `uint8` does not raise, and the summary that is
due after any such chain can be made.

**Proof sketch.** `OverflowInv` holds along the chain. -/
theorem RuleChain.overflow_fits (h : RuleChain defaultConstants rs)
    (hearly : OverflowsEarly defaultConstants rs) :
    (∀ r ∈ rs, r.subEpochSummaryIncluded.isSome = true →
      r.height % defaultConstants.SUB_EPOCH_BLOCKS < 256 ∧
        uint8 ((r.height % defaultConstants.SUB_EPOCH_BLOCKS : ℕ) : ℤ) =
          .ok (r.height % defaultConstants.SUB_EPOCH_BLOCKS)) ∧
    (∀ (H : Hashes) (blocks : BlockRecords) (p : BlockRecord) (difficulty subSlotIters height : ℕ)
      (canFinishEpoch : Bool), blocks.Chain p rs →
      heightAndEpoch defaultConstants blocks (some p) true difficulty subSlotIters =
        .ok (height, true, canFinishEpoch) →
      ∃ ses, expectedSummary H defaultConstants blocks p canFinishEpoch difficulty subSlotIters =
        .ok ses) := by
  obtain ⟨l, p, rfl, hinv⟩ := h.overflowInv (Nat.zero_le _) (.inr hearly)
  constructor
  · intro r hr hsome
    have hle := hinv.overflow r hr hsome
    have hlt : r.height % defaultConstants.SUB_EPOCH_BLOCKS < 256 := Nat.lt_succ_of_le hle
    exact ⟨hlt, uintN_eq_ok.mpr ⟨rfl, hlt⟩⟩
  · intro H blocks p' difficulty subSlotIters height canFinishEpoch hchain hepoch
    obtain rfl : p = p' := by
      have hlast := ParentTree.Path.getLast?_eq hchain
      rw [List.getLast?_concat] at hlast
      exact Option.some.inj hlast
    exact hinv.expectedSummary_ok hchain hepoch

end Fits

/-! ## A chain whose overflow does not fit -/

lemma summaryInSubEpoch_ok {constants : ConsensusConstants} {blocks : BlockRecords} {p : BlockRecord}
    {rs : List BlockRecord} (hchain : blocks.Chain p rs) (hlow : p.height ≠ 0) :
    ∃ found, summaryInSubEpoch constants blocks p.height p.prevHash = .ok found := by
  unfold summaryInSubEpoch
  by_cases hedge : (p.height + 1) % constants.SUB_EPOCH_BLOCKS > 1
  · rw [if_pos hedge]
    have hlast := hchain.getElem?_height (ParentTree.Path.mem_self hchain)
    obtain ⟨n, hn⟩ := Nat.exists_eq_succ_of_ne_zero hlow
    rw [hn] at hlast
    obtain ⟨q, hq, hget⟩ := hchain.getElem?_succ hlast
    have hchain' := (hchain.getElem hq).2
    -- the walk stops at genesis at the latest
    obtain ⟨g, hg⟩ : ∃ g, (rs.take (n + 1))[0]? = some g :=
      ⟨_, List.getElem?_eq_getElem (by rw [hchain'.length_eq]; omega)⟩
    have hgheight := (hchain'.getElem hg).1
    obtain ⟨a, y, b, hl, hy, hb⟩ := @exists_last BlockRecord (rs.take (n + 1))
      (fun r => decide (r.height % constants.SUB_EPOCH_BLOCKS = 0) || r.subEpochSummaryIncluded.isSome)
      ⟨g, List.mem_of_getElem? hg, by simp [hgheight]⟩
    rw [blockRecord_eq_ok hget, ok_bind, walkBack_eq_ok hchain' hl hy hb, ok_bind]
    exact ⟨_, rfl⟩
  · rw [if_neg hedge]
    exact ⟨false, rfl⟩

/-- The height at which the sub-slot of a block of the chain starts. -/
def lateSlotStart (i : ℕ) : ℕ :=
  if i < 128 then 0 else if i < 256 then 128 else if i < 384 then 256 else if i < 512 then 384
  else if i < 640 then 512 else if i < 767 then 640 else if i < 895 then 767 else if i < 910 then 895
  else if i < 1038 then 910 else 1038

/-- The deficit of a block of the chain. The sub-slot from height 767 on is full of overflow blocks. -/
def lateDeficit (i : ℕ) : ℕ :=
  if i < 767 then 15 - (i - lateSlotStart i) else if i < 895 then 16 else if i < 1038 then 15 - (i - 895)
  else 15

/-- The finished sub-slots of a block of the chain. -/
def lateSlots (i : ℕ) : List Bytes32 := if lateSlotStart i = i then [Bytes32.zero] else []

/-- The record at height `i` of a chain in which a sub-slot full of overflow blocks, a short one and another
full one delay the end of a sub-epoch. -/
def lateRecord (i : ℕ) : BlockRecord :=
  { txRecord (fun _ => 0) (fun _ => Bytes32.zero) i with
    deficit := lateDeficit i
    overflow := decide (767 ≤ i) && decide (i < 895)
    finishedChallengeSlotHashes := if lateSlotStart i = i then some [Bytes32.zero] else none
    finishedRewardSlotHashes := if lateSlotStart i = i then some [Bytes32.zero] else none
    subEpochSummaryIncluded :=
      if i = 384 ∨ i = 1038 then some ⟨Bytes32.zero, Bytes32.zero, 0, none, none⟩ else none }

/-- The records of the chain up to a height. -/
def lateChain (n : ℕ) : List BlockRecord := (List.range (n + 1)).map lateRecord

/-- A cache with all blocks of the chain. -/
def lateBlocks : BlockRecords := ofRecords (lateChain 1038)

lemma chain_lateBlocks {k : ℕ} (hk : k ≤ 1038) : lateBlocks.Chain (lateRecord k) (lateChain k) := by
  refine chain_ofRecords (fun i => rfl) (fun i => rfl) ?_ (by omega)
  rw [List.map_map]
  refine List.Nodup.map_on (fun a ha b hb h => ?_) List.nodup_range
  rw [List.mem_range] at ha hb
  have hab : a + 1 = b + 1 := Bytes32.ofNat_injOn (by omega) (by omega) h
  omega

lemma firstInSubSlot_lateRecord (i : ℕ) :
    (lateRecord i).firstInSubSlot = decide (lateSlotStart i = i) := by
  show (if lateSlotStart i = i then some [Bytes32.zero] else none).isSome = _
  split
  · rename_i h
    simp [h]
  · rename_i h
    simp [h]

lemma summary_lateRecord (i : ℕ) :
    (lateRecord i).subEpochSummaryIncluded.isSome = decide (i = 384 ∨ i = 1038) := by
  show (if i = 384 ∨ i = 1038 then some _ else none).isSome = _
  split
  · rename_i h
    simp [h]
  · rename_i h
    simp [h]

/-- What holds at each height: the next deficit is that of `calculate_deficit`; the start of a sub-slot does not change
inside the sub-slot, and the sub-slots are not too long; the heights after which a sub-slot ends; and the blocks of
maximal deficit come early up to height 879. -/
lemma lateChain_heights : ∀ i < 1038,
    calculateDeficit defaultConstants (i + 1) (some (lateRecord i)) (lateRecord (i + 1)).overflow
      (lateSlots (i + 1)).length = .ok (lateRecord (i + 1)).deficit ∧
    (lateSlotStart i ≤ i ∧ i + 1 - lateSlotStart (i + 1) < 128 ∧
      (lateSlotStart (i + 1) = i + 1 ∨ lateSlotStart (i + 1) = lateSlotStart i)) ∧
    (lateSlotStart (i + 1) = i + 1 → i ∈ [127, 255, 383, 511, 639, 766, 894, 909, 1037]) ∧
    (i < 880 → lateDeficit i = 16 → i - lateSlotStart i + 1 ≤ 113) := by
  decide +kernel

lemma lateChain_succ (i : ℕ) : lateChain (i + 1) = lateChain i ++ [lateRecord (i + 1)] := by
  rw [lateChain, List.range_succ, List.map_append]
  rfl

variable {i : ℕ}

lemma slotBlocks_lateChain (hi : i ≤ 1038) : slotBlocks (lateChain i) = i - lateSlotStart i + 1 := by
  induction i with
  | zero => rfl
  | succ i ih =>
    obtain ⟨hle, -, hnext⟩ := (lateChain_heights i (by omega)).2.1
    rw [lateChain_succ, slotBlocks_append, firstInSubSlot_lateRecord, ih (by omega)]
    simp only [decide_eq_true_eq]
    split <;> omega

lemma checkNumBlocks_lateRecord (hi : i < 1038) :
    checkNumBlocks defaultConstants lateBlocks (decide ((lateSlots (i + 1)).length > 0))
      (some (lateRecord i)) = .ok () := by
  obtain ⟨hle, hlt, hnext⟩ := (lateChain_heights i hi).2.1
  unfold lateSlots
  split
  · rfl
  · rename_i hstart
    refine (checkNumBlocks_eq_ok_iff (chain_lateBlocks hi.le) ?_).mpr ?_
    · exact ⟨lateRecord 0, List.mem_map.mpr ⟨0, List.mem_range.mpr (Nat.succ_pos i), rfl⟩, rfl⟩
    · rw [slotBlocks_lateChain hi.le]
      show i - lateSlotStart i + 1 + 1 ≤ 128
      omega

lemma summaryInSubEpoch_lateRecord (hi : i ≤ 1038) (hlow : i ≠ 0) :
    summaryInSubEpoch defaultConstants lateBlocks i (lateRecord i).prevHash =
      .ok (decide (384 < i ∧ (i + 1) / 384 = 1)) := by
  obtain ⟨found, hfound⟩ := @summaryInSubEpoch_ok defaultConstants _ _ _ (chain_lateBlocks hi) hlow
  have hiff := summaryInSubEpoch_eq_true_iff (chain_lateBlocks hi) hfound
  refine hfound.trans (congrArg Except.ok (Bool.eq_iff_iff.mpr (hiff.trans ?_)))
  rw [decide_eq_true_iff]
  constructor
  · rintro ⟨x, hx, hlt, hsame, hsome⟩
    obtain ⟨j, -, rfl⟩ := List.mem_map.mp hx
    rw [summary_lateRecord, decide_eq_true_iff] at hsome
    change j < i at hlt
    change j / 384 = (i + 1) / 384 at hsame
    omega
  · rintro ⟨hlt, hsame⟩
    exact ⟨lateRecord 384, List.mem_map.mpr ⟨384, List.mem_range.mpr (by omega), rfl⟩, hlt,
      hsame.symm, rfl⟩

lemma canFinish_lateRecord (hi : i < 1038) (hstart : lateSlotStart (i + 1) = i + 1) :
    ∃ canFinishEpoch, canFinishSubAndFullEpoch defaultConstants lateBlocks i (lateRecord i).prevHash
      (lateDeficit i) (lateRecord i).subEpochSummaryIncluded.isSome =
        .ok (decide (i + 1 = 384 ∨ i + 1 = 1038), canFinishEpoch) := by
  have hmem := (lateChain_heights i hi).2.2.1 hstart
  rw [summary_lateRecord]
  unfold canFinishSubAndFullEpoch
  by_cases hlow : i = 0
  · subst hlow
    exact ⟨false, rfl⟩
  rw [summaryInSubEpoch_lateRecord hi.le hlow, ok_bind]
  simp only [List.mem_cons, List.not_mem_nil, or_false] at hmem
  rcases hmem with rfl | rfl | rfl | rfl | rfl | rfl | rfl | rfl | rfl
  all_goals exact ⟨_, rfl⟩

/-- The chain obeys the rules. -/
lemma ruleChain_lateChain {k : ℕ} (hk : k ≤ 1038) : RuleChain defaultConstants (lateChain k) := by
  induction k with
  | zero =>
    exact @RuleChain.genesis defaultConstants (lateRecord 0) 1 rfl rfl rfl rfl
  | succ i ih =>
    have hheight : uint32 ((lateRecord i).height + 1) = .ok (i + 1) :=
      uintN_eq_ok.mpr ⟨rfl, by omega⟩
    have hepoch : ∃ canFinishEpoch, heightAndEpoch defaultConstants lateBlocks (some (lateRecord i))
        (decide ((lateSlots (i + 1)).length > 0)) 7 0 =
          .ok (i + 1, decide (i + 1 = 384 ∨ i + 1 = 1038), canFinishEpoch) := by
      simp only [heightAndEpoch, hheight, ok_bind]
      unfold lateSlots
      split
      · rename_i hstart
        obtain ⟨canFinishEpoch, hfinish⟩ := canFinish_lateRecord (by omega) hstart
        refine ⟨canFinishEpoch, ?_⟩
        change canFinishSubAndFullEpoch defaultConstants lateBlocks (lateRecord i).height
          (lateRecord i).prevHash (lateRecord i).deficit _ = _ at hfinish
        rw [if_pos (by rfl), hfinish]
        rfl
      · rename_i hstart
        refine ⟨false, ?_⟩
        have hnot : ¬(i + 1 = 384 ∨ i + 1 = 1038) := by
          rintro (h | h)
          · exact hstart (by rw [h]; rfl)
          · exact hstart (by rw [h]; rfl)
        rw [decide_eq_false hnot]
        rfl
    obtain ⟨canFinishEpoch, hepoch⟩ := hepoch
    rw [lateChain_succ]
    refine @RuleChain.extend defaultConstants lateBlocks (lateRecord i) (lateRecord (i + 1)) (lateChain i)
      (lateSlots (i + 1)) 7 0 _ canFinishEpoch (ih (by omega)) (chain_lateBlocks (by omega)) ?_ ?_
      (lateChain_heights i (by omega)).1 (checkNumBlocks_lateRecord (by omega)) hepoch
      (summary_lateRecord (i + 1))
    · rw [firstInSubSlot_lateRecord]
      unfold lateSlots
      split
      · rename_i hstart
        rw [decide_eq_true hstart]
        rfl
      · rename_i hstart
        rw [decide_eq_false hstart]
        rfl
    · intro hne
      show (if lateSlotStart (i + 1) = i + 1 then some [Bytes32.zero] else none) = _
      unfold lateSlots at hne ⊢
      split
      · rfl
      · rename_i hstart
        rw [if_neg hstart] at hne
        exact absurd rfl hne

/-- **The overflow of a sub-epoch need not fit in a byte.** In a chain that obeys the header rules, a summary is
included 270 blocks into a sub-epoch, and after it no summary can be made. -/
theorem overflow_not_fits :
    ∃ (rs : List BlockRecord) (r : BlockRecord) (blocks : BlockRecords),
      RuleChain defaultConstants rs ∧ blocks.Chain r rs ∧ r.subEpochSummaryIncluded.isSome = true ∧
      ¬r.height % defaultConstants.SUB_EPOCH_BLOCKS < 256 ∧
      ∀ (H : Hashes) (newDifficulty newSubSlotIters : Option ℕ),
        makeSubEpochSummary H defaultConstants blocks (r.height + 2) r newDifficulty newSubSlotIters =
          .error .valueError := by
  refine ⟨lateChain 1038, lateRecord 1038, lateBlocks, ruleChain_lateChain le_rfl, chain_lateBlocks le_rfl,
    rfl, by decide, fun H newDifficulty newSubSlotIters => ?_⟩
  unfold makeSubEpochSummary
  have hwalk : lateBlocks.walkBack (fun r => r.subEpochSummaryIncluded.isSome) (lateRecord 1038) =
      .ok (lateRecord 1038) :=
    walkBack_eq_ok (chain_lateBlocks le_rfl) (lateChain_succ 1037) rfl (fun y hy => by cases hy)
  have hbyte : uint8 (((lateRecord 1038).height % defaultConstants.SUB_EPOCH_BLOCKS : ℕ) : ℤ) =
      .error .valueError := by
    decide +kernel
  have hses : (lateRecord 1038).subEpochSummaryIncluded =
      some ⟨Bytes32.zero, Bytes32.zero, 0, none, none⟩ := rfl
  have hslots : (lateRecord 1038).finishedRewardSlotHashes = some [Bytes32.zero] := rfl
  rw [(pyAssert_eq_ok (u := ())).mpr rfl, ok_bind, if_neg (by decide), hwalk, ok_bind,
    pySome_eq_ok.mpr hses, ok_bind, pySome_eq_ok.mpr hslots, ok_bind,
    show pyLast [Bytes32.zero] = .ok Bytes32.zero from rfl, ok_bind, hbyte, error_bind]

lemma overflowsEarly_lateChain : OverflowsEarly defaultConstants (lateChain 879) := by
  intro l r hl hdeficit
  have htake := List.prefix_iff_eq_take.mp hl
  have hlen := hl.length_le
  rw [List.length_append, List.length_singleton] at htake hlen
  rw [lateChain, List.length_map, List.length_range] at hlen
  rw [lateChain, ← List.map_take, List.take_range, min_eq_left hlen] at htake
  have hchain : l ++ [r] = lateChain l.length := htake
  have hr : r = lateRecord l.length := by
    have hlast := congrArg List.getLast? hchain
    rw [lateChain, List.range_succ, List.map_append, List.map_singleton, List.getLast?_concat,
      List.getLast?_concat] at hlast
    exact Option.some.inj hlast
  rw [hr] at hdeficit
  rw [hchain, slotBlocks_lateChain (by omega)]
  exact (lateChain_heights l.length (by omega)).2.2.2 (by omega) hdeficit

/-- The part of the chain with 113 overflow blocks. -/
theorem RuleChain.overflow_fits_lateChain :
    (lateRecord 384).subEpochSummaryIncluded.isSome = true ∧ (lateRecord 879).deficit = 16 ∧
      (lateRecord 384).height % defaultConstants.SUB_EPOCH_BLOCKS < 256 := by
  have hses : (lateRecord 384).subEpochSummaryIncluded.isSome = true := rfl
  have hmem : lateRecord 384 ∈ lateChain 879 :=
    List.mem_map.mpr ⟨384, List.mem_range.mpr (by omega), rfl⟩
  exact ⟨hses, rfl, ((RuleChain.overflow_fits (ruleChain_lateChain (by omega))
    overflowsEarly_lateChain).1 _ hmem hses).1⟩

end Chives
