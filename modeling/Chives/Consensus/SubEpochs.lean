import Chives.Consensus.PeakIndependence
import Chives.Consensus.PeakSelection

set_option autoImplicit false

/-!
# One summary per sub-epoch

A block that includes a sub-epoch summary has passed `can_finish_sub_and_full_epoch` for its parent, which
looks for an earlier summary in the same sub-epoch. So along every chain of accepted headers there is at
most one summary in each sub-epoch, and none in the first.

## Main definitions

* `HeaderAccepted` — a block is accepted on top of the blocks in a cache, and has a given record.
* `HeaderChain` — the records of a chain of accepted blocks.

## Main results

* `HeaderAccepted.summary` — what holds of the parent of a block that includes a summary.
* `HeaderChain.summaries` — the summaries of a chain.

## Design

The cache may be a different one for each block, and may hold other blocks too. It is only asked that the
chain of the parent in it is the chain so far.
-/

namespace Chives

open ExceptRun BlockRecords

/-! ## Accepted blocks -/

section Accepted

variable (H : Hashes) (V : Verifiers) (constants : ConsensusConstants)

/-- The header of the block passes `validate_finished_header_block`, with the sub-epoch checks on, and
`block_to_block_record` gives the record. -/
def HeaderAccepted (blocks : BlockchainInterface) (block : FullBlock) (r : BlockRecord) : Prop :=
  ∃ (encodedFilter : List Bytes → Bytes) (additions : List Coin) (removals : List Bytes32)
    (checkFilter : Bool) (expectedDifficulty expectedSubSlotIters now requiredIters : ℕ),
    validateFinishedHeaderBlock H V constants blocks.records
      (getBlockHeader encodedFilter block additions removals) checkFilter expectedDifficulty
      expectedSubSlotIters true now = .ok requiredIters ∧
    blockToBlockRecord H constants blocks requiredIters block = .ok r

/-- The records of a chain of accepted blocks: a genesis block, and blocks each of which is accepted on top
of the one before. -/
inductive HeaderChain : List BlockRecord → Prop
  | genesis {blocks : BlockchainInterface} {block : FullBlock} {r : BlockRecord}
      (hprev : blocks.records.get block.prevHeaderHash = none)
      (h : HeaderAccepted H V constants blocks block r) : HeaderChain [r]
  | extend {blocks : BlockchainInterface} {block : FullBlock} {p r : BlockRecord} {rs : List BlockRecord}
      (hrs : HeaderChain rs) (hchain : blocks.records.Chain p rs)
      (hprev : blocks.records.get block.prevHeaderHash = some p) (hheight : block.height ≠ 0)
      (h : HeaderAccepted H V constants blocks block r) : HeaderChain (rs ++ [r])

end Accepted

/-! ## What validation checks of a summary -/

section Inversion

variable {H : Hashes} {V : Verifiers} {constants : ConsensusConstants} {blocks : BlockRecords}
  {prevB : Option BlockRecord} {canFinishSe canFinishEpoch skip : Bool} {expectedDifficulty expectedSubSlotIters : ℕ}
  {prevSlot : Option EndOfSubSlotBundle} {sesHash out : Option Bytes32} {slot : EndOfSubSlotBundle}

lemma checkSlotData_eq_ok
    (h : checkSlotData H canFinishEpoch expectedDifficulty expectedSubSlotIters prevSlot sesHash slot = .ok out) :
    (prevSlot.isSome = true → slot.challengeChain.subepochSummaryHash = none) ∧
      out = (if slot.challengeChain.subepochSummaryHash.isSome then
        slot.challengeChain.subepochSummaryHash else sesHash) ∧
      slot.challengeChain.newSubSlotIters =
        (if canFinishEpoch && slot.challengeChain.subepochSummaryHash.isSome then
          some expectedSubSlotIters else none) ∧
      slot.challengeChain.newDifficulty =
        (if canFinishEpoch && slot.challengeChain.subepochSummaryHash.isSome then
          some expectedDifficulty else none) := by
  unfold checkSlotData at h
  obtain ⟨_, -, h⟩ := bind_eq_ok.mp h
  obtain ⟨_, hfirst, h⟩ := bind_eq_ok.mp h
  obtain ⟨_, hiters, h⟩ := bind_eq_ok.mp h
  obtain ⟨_, hdifficulty, h⟩ := bind_eq_ok.mp h
  obtain ⟨_, -, h⟩ := bind_eq_ok.mp h
  refine ⟨fun hprev => ?_, (Except.ok.inj h).symm, not_not.mp (rejectIf_eq_ok.mp hiters),
    not_not.mp (rejectIf_eq_ok.mp hdifficulty)⟩
  by_contra hsome
  exact rejectIf_eq_ok.mp hfirst ⟨hprev, Option.isSome_iff_ne_none.mpr hsome⟩

lemma checkSlotData_of_checkSlot
    (h : checkSlot H V constants blocks prevB canFinishEpoch expectedDifficulty expectedSubSlotIters skip prevSlot sesHash slot = .ok out) :
    checkSlotData H canFinishEpoch expectedDifficulty expectedSubSlotIters prevSlot sesHash slot =
      .ok out := by
  unfold checkSlot at h
  obtain ⟨_, -, h⟩ := bind_eq_ok.mp h
  obtain ⟨_, -, h⟩ := bind_eq_ok.mp h
  obtain ⟨_, -, h⟩ := bind_eq_ok.mp h
  obtain ⟨out', hout, h⟩ := bind_eq_ok.mp h
  obtain ⟨_, -, h⟩ := bind_eq_ok.mp h
  obtain ⟨_, -, h⟩ := bind_eq_ok.mp h
  rwa [← Except.ok.inj h]

lemma checkSlots_rest {prevSlot : EndOfSubSlotBundle} {slots : List EndOfSubSlotBundle}
    (h : checkSlots H V constants blocks prevB canFinishEpoch expectedDifficulty expectedSubSlotIters skip (some prevSlot) sesHash slots = .ok out) :
    out = sesHash ∧ ∀ slot ∈ slots, slot.challengeChain.subepochSummaryHash = none := by
  induction slots generalizing prevSlot sesHash with
  | nil => exact ⟨(Except.ok.inj h).symm, fun slot hslot => by cases hslot⟩
  | cons slot slots ih =>
    unfold checkSlots at h
    obtain ⟨out', hout', h⟩ := bind_eq_ok.mp h
    obtain ⟨hnone, hout, -, -⟩ := checkSlotData_eq_ok (checkSlotData_of_checkSlot hout')
    have hnone := hnone rfl
    rw [hnone] at hout
    obtain ⟨hrest, hslots⟩ := ih h
    refine ⟨hrest.trans hout, fun s hs => ?_⟩
    rcases List.mem_cons.mp hs with rfl | hs
    · exact hnone
    · exact hslots s hs

lemma checkSlots_first {slots : List EndOfSubSlotBundle}
    (h : checkSlots H V constants blocks prevB canFinishEpoch expectedDifficulty expectedSubSlotIters skip none none (slot :: slots) = .ok out) :
    out = slot.challengeChain.subepochSummaryHash ∧
      (∀ s ∈ slots, s.challengeChain.subepochSummaryHash = none) ∧
      (slot.challengeChain.subepochSummaryHash.isSome = true →
        slot.challengeChain.newDifficulty.isSome = canFinishEpoch ∧
          slot.challengeChain.newSubSlotIters.isSome = canFinishEpoch) := by
  unfold checkSlots at h
  obtain ⟨out', hout', h⟩ := bind_eq_ok.mp h
  obtain ⟨-, hout, hiters, hdifficulty⟩ := checkSlotData_eq_ok (checkSlotData_of_checkSlot hout')
  obtain ⟨hrest, hslots⟩ := checkSlots_rest h
  refine ⟨?_, hslots, fun hsome => ?_⟩
  · rw [hrest, hout]
    cases slot.challengeChain.subepochSummaryHash with
    | none => rfl
    | some _ => rfl
  · rw [hiters, hdifficulty, hsome]
    cases canFinishEpoch with
    | true => exact ⟨rfl, rfl⟩
    | false => exact ⟨rfl, rfl⟩

variable {check : Bool}

lemma checkSummary_some {sesHash : Bytes32} {u : Unit}
    (h : checkSummary H constants blocks prevB canFinishSe canFinishEpoch expectedDifficulty expectedSubSlotIters check (some sesHash) = .ok u) :
    prevB.isSome = true ∧ canFinishSe = true := by
  unfold checkSummary at h
  cases prevB with
  | none => cases h
  | some p =>
    simp only at h
    split at h
    · cases h
    · rename_i hse
      exact ⟨rfl, by simpa using hse⟩

variable {checkFilter : Bool} {requiredIters : ℕ}

/-- The parts of `validate_finished_header_block` that concern the summary and the height. -/
lemma validateFinishedHeaderBlock_eq_ok {hb : HeaderBlock} {now : ℕ}
    (h : validateFinishedHeaderBlock H V constants blocks hb checkFilter expectedDifficulty expectedSubSlotIters check now = .ok requiredIters) :
    ∃ height canFinishSe canFinishEpoch,
      heightAndEpoch constants blocks (blocks.get hb.prevHeaderHash)
        (decide (hb.finishedSubSlots.length > 0)) expectedDifficulty expectedSubSlotIters =
          .ok (height, canFinishSe, canFinishEpoch) ∧
      checkFinishedSubSlots H V constants blocks (blocks.get hb.prevHeaderHash)
        (decide (hb.finishedSubSlots.length > 0)) canFinishSe canFinishEpoch expectedDifficulty
        expectedSubSlotIters false check hb.finishedSubSlots = .ok () ∧
      ∃ prevB, prevOfHeader blocks hb = .ok prevB ∧
        checkHeightAndWeight constants hb prevB expectedDifficulty = .ok () := by
  unfold validateFinishedHeaderBlock at h
  obtain ⟨iters, hunfinished, h⟩ := bind_eq_ok.mp h
  obtain ⟨prevB, hprev, h⟩ := bind_eq_ok.mp h
  obtain ⟨_, -, h⟩ := bind_eq_ok.mp h
  obtain ⟨⟨⟩, hheight, -⟩ := bind_eq_ok.mp h
  unfold validateUnfinishedHeaderBlock at hunfinished
  obtain ⟨_, -, hunfinished⟩ := bind_eq_ok.mp hunfinished
  obtain ⟨overflow, -, hunfinished⟩ := bind_eq_ok.mp hunfinished
  obtain ⟨⟨skipLast, n⟩, hslots, hunfinished⟩ := bind_eq_ok.mp hunfinished
  -- no sub-slot is skipped for a finished block
  obtain ⟨rfl, rfl⟩ : skipLast = false ∧ n = hb.finishedSubSlots.length := by
    have := Except.ok.inj (raising_eq_ok.mp hslots)
    exact ⟨(Prod.mk.inj this).1.symm, (Prod.mk.inj this).2.symm⟩
  obtain ⟨⟨height, canFinishSe, canFinishEpoch⟩, hepoch, hunfinished⟩ := bind_eq_ok.mp hunfinished
  obtain ⟨⟨⟩, hchecked, -⟩ := bind_eq_ok.mp hunfinished
  refine ⟨height, canFinishSe, canFinishEpoch, raising_eq_ok.mp hepoch, ?_, prevB,
    raising_eq_ok.mp hprev, hheight⟩
  rw [Bool.not_false, Bool.and_true] at hchecked
  exact hchecked

lemma heightAndWeight_of_valid {hb : HeaderBlock} {now : ℕ} (hne : hb.height ≠ 0)
    (h : validateFinishedHeaderBlock H V constants blocks hb checkFilter expectedDifficulty expectedSubSlotIters check now = .ok requiredIters) :
    ∃ p, blocks.get hb.prevHeaderHash = some p ∧ hb.height = p.height + 1 ∧
      hb.weight = p.weight + expectedDifficulty := by
  obtain ⟨_, _, _, -, -, prevB, hprevB, hchecked⟩ := validateFinishedHeaderBlock_eq_ok h
  unfold prevOfHeader at hprevB
  rw [if_neg hne] at hprevB
  obtain ⟨p, hp, rfl⟩ := map_eq_ok.mp hprevB
  unfold checkHeightAndWeight at hchecked
  obtain ⟨_, hheight, hchecked⟩ := bind_eq_ok.mp hchecked
  obtain ⟨_, hweight, -⟩ := bind_eq_ok.mp hchecked
  exact ⟨p, get_of_blockRecord hp, not_not.mp (rejectIf_eq_ok.mp hheight),
    not_not.mp (rejectIf_eq_ok.mp hweight)⟩

/-- The summary that a block includes, with the parameters of its first finished sub-slot unless it is
that of the first sub-epoch. -/
lemma includedSummary_eq_some {block : FullBlock} {ses : SubEpochSummary}
    (h : includedSummary H constants blocks block prevB = .ok (some ses)) :
    ∃ hash slot slots, foundSesHash block = some hash ∧ block.finishedSubSlots = slot :: slots ∧
      (((block.height + constants.MAX_SUB_SLOT_BLOCKS) / constants.SUB_EPOCH_BLOCKS ≤ 1 ∧
          ses.newDifficulty = none ∧ ses.newSubSlotIters = none) ∨
        (ses.newDifficulty = slot.challengeChain.newDifficulty ∧
          ses.newSubSlotIters = slot.challengeChain.newSubSlotIters)) := by
  unfold includedSummary at h
  split at h
  · rename_i hash slot slots hfound hcons
    refine ⟨hash, slot, slots, hfound, hcons, ?_⟩
    obtain ⟨p, -, h⟩ := bind_eq_ok.mp h
    obtain ⟨q, -, h⟩ := bind_eq_ok.mp h
    obtain ⟨made, hmade, h⟩ := bind_eq_ok.mp h
    have hsame : made = ses := by
      split at h
      · cases h
      · simpa using Except.ok.inj h
    subst hsame
    unfold makeSubEpochSummary at hmade
    obtain ⟨_, -, hmade⟩ := bind_eq_ok.mp hmade
    split at hmade
    · rename_i hfirst
      rw [← Except.ok.inj hmade]
      exact .inl ⟨hfirst, rfl, rfl⟩
    · obtain ⟨curr, -, hmade⟩ := bind_eq_ok.mp hmade
      obtain ⟨_, -, hmade⟩ := bind_eq_ok.mp hmade
      obtain ⟨_, -, hmade⟩ := bind_eq_ok.mp hmade
      obtain ⟨_, -, hmade⟩ := bind_eq_ok.mp hmade
      obtain ⟨_, -, hmade⟩ := bind_eq_ok.mp hmade
      rw [← Except.ok.inj hmade]
      exact .inr ⟨rfl, rfl⟩
  · cases h

end Inversion

/-! ## A block that includes a summary -/

section Step

variable {H : Hashes} {V : Verifiers} {constants : ConsensusConstants} {blocks : BlockchainInterface}
  {block : FullBlock} {p r : BlockRecord} {rs : List BlockRecord}

lemma foundSesHash_cons {slot : EndOfSubSlotBundle} {slots : List EndOfSubSlotBundle}
    (hslots : block.finishedSubSlots = slot :: slots)
    (hnone : ∀ s ∈ slots, s.challengeChain.subepochSummaryHash = none) :
    foundSesHash block = slot.challengeChain.subepochSummaryHash := by
  have hrest : slots.filterMap (fun s => s.challengeChain.subepochSummaryHash) = [] :=
    List.filterMap_eq_nil_iff.mpr hnone
  rw [foundSesHash, hslots, List.filterMap_cons, hrest]
  cases slot.challengeChain.subepochSummaryHash with
  | none => rfl
  | some x => rfl

lemma HeaderAccepted.height (h : HeaderAccepted H V constants blocks block r) :
    r.height = block.height ∧ (block.height ≠ 0 → ∃ p, blocks.records.get block.prevHeaderHash = some p ∧
      block.height = p.height + 1) := by
  obtain ⟨filter, additions, removals, checkFilter, difficulty, iters, now, required, hvalid, hrecord⟩ := h
  obtain ⟨_, _, _, _, _, -, -, rfl⟩ := blockToBlockRecord_eq_ok hrecord
  refine ⟨rfl, fun hne => ?_⟩
  obtain ⟨p, hp, hheight, -⟩ := heightAndWeight_of_valid
    (show (getBlockHeader filter block additions removals).height ≠ 0 from hne) hvalid
  exact ⟨p, hp, hheight⟩

/-- **What holds of a block that includes a summary**: it has a parent, after which a sub-epoch may end, and
it has new parameters exactly if an epoch may end there, unless it is that of the first sub-epoch. -/
theorem HeaderAccepted.summary (h : HeaderAccepted H V constants blocks block r) {ses : SubEpochSummary}
    (hses : r.subEpochSummaryIncluded = some ses) :
    ∃ p, blocks.records.get block.prevHeaderHash = some p ∧ constants.SUB_EPOCH_BLOCKS ≤ p.height + 1 ∧
      p.subEpochSummaryIncluded = none ∧
      summaryInSubEpoch constants blocks.records p.height p.prevHash = .ok false ∧
      (((block.height + constants.MAX_SUB_SLOT_BLOCKS) / constants.SUB_EPOCH_BLOCKS ≤ 1 ∧
          ses.newDifficulty = none ∧ ses.newSubSlotIters = none) ∨
        (ses.newDifficulty.isSome = heightCanBeFirstInEpoch constants (p.height + 1) ∧
          ses.newSubSlotIters.isSome = heightCanBeFirstInEpoch constants (p.height + 1))) := by
  obtain ⟨filter, additions, removals, checkFilter, difficulty, iters, now, required, hvalid, hrecord⟩ := h
  obtain ⟨_, _, _, _, ses', -, hincluded, rfl⟩ := blockToBlockRecord_eq_ok hrecord
  obtain rfl : ses' = some ses := hses
  obtain ⟨hash, slot, slots, hfound, hslots, hparams⟩ := includedSummary_eq_some hincluded
  obtain ⟨height, canFinishSe, canFinishEpoch, hepoch, hchecked, -⟩ :=
    validateFinishedHeaderBlock_eq_ok hvalid
  have hheader : (getBlockHeader filter block additions removals).finishedSubSlots = slot :: slots := hslots
  have hnew : decide ((getBlockHeader filter block additions removals).finishedSubSlots.length > 0) =
      true := by
    rw [hheader]
    simp
  rw [hnew] at hepoch hchecked
  unfold checkFinishedSubSlots at hchecked
  rw [if_neg (not_not.mpr rfl), hheader] at hchecked
  obtain ⟨out, hout, hsummary⟩ := bind_eq_ok.mp hchecked
  obtain ⟨hfirst, hrest, hnewParams⟩ := checkSlots_first hout
  have hhash := (foundSesHash_cons hslots hrest).symm.trans hfound
  rw [hfirst, hhash] at hsummary
  obtain ⟨hprev, hse⟩ := checkSummary_some hsummary
  obtain ⟨p, hp⟩ := Option.isSome_iff_exists.mp hprev
  rw [hp] at hepoch
  unfold heightAndEpoch at hepoch
  obtain ⟨_, -, hepoch⟩ := bind_eq_ok.mp hepoch
  rw [if_pos rfl] at hepoch
  obtain ⟨⟨se, ep⟩, hfinish, hepoch⟩ := bind_eq_ok.mp hepoch
  obtain ⟨-, hpair⟩ := Prod.mk.inj (Except.ok.inj hepoch)
  obtain ⟨rfl, rfl⟩ := Prod.mk.inj hpair
  rcases canFinish_cases hfinish with ⟨hfalse, -⟩ | ⟨-, hlow, hnone, hsub, hep⟩
  · rw [hfalse] at hse
    cases hse
  refine ⟨p, hp, hlow, by simpa using hnone, hsub, ?_⟩
  obtain ⟨hdifficulty, hiters⟩ := hnewParams (by rw [hhash]; rfl)
  rw [← hep]
  rcases hparams with hparams | ⟨hd, hi⟩
  · exact .inl hparams
  · rw [hd, hi]
    exact .inr ⟨hdifficulty, hiters⟩

variable {records : BlockRecords} {x : BlockRecord}

lemma mem_after {l a b : List BlockRecord} {y : BlockRecord} (hchain : records.Chain p l) (hl : l = a ++ y :: b)
    (hx : x ∈ l) (hlt : y.height < x.height) : x ∈ b := by
  have hy : a.length = y.height := ((hchain.getElem (show l[a.length]? = some y by simp [hl])).1).symm
  have hat := hchain.getElem?_height hx
  rw [hl, List.getElem?_append_right (by omega)] at hat
  obtain ⟨n, hn⟩ : ∃ n, x.height - a.length = n + 1 := ⟨x.height - a.length - 1, by omega⟩
  rw [hn, List.getElem?_cons_succ] at hat
  exact List.mem_of_getElem? hat

lemma height_le (hchain : records.Chain p rs) (hx : x ∈ rs) : x.height ≤ p.height := by
  obtain ⟨hlt, -⟩ := List.getElem?_eq_some_iff.mp (hchain.getElem?_height hx)
  rw [hchain.length_eq] at hlt
  omega

/-- **The search for an earlier summary** of a sub-epoch finds one exactly if a block before the given one,
of the sub-epoch that the next block is in, includes a summary.

**Proof sketch.** The walk stops at the last block that starts a sub-epoch or includes a summary. It stops
at the start of the current sub-epoch at the latest, so it stays in the sub-epoch and passes all blocks of
it that are after the one it stops at. -/
lemma summaryInSubEpoch_eq_true_iff {found : Bool} (hchain : records.Chain p rs)
    (h : summaryInSubEpoch constants records p.height p.prevHash = .ok found) :
    found = true ↔ ∃ x ∈ rs, x.height < p.height ∧
      x.height / constants.SUB_EPOCH_BLOCKS = (p.height + 1) / constants.SUB_EPOCH_BLOCKS ∧
      x.subEpochSummaryIncluded.isSome = true := by
  have hmod := Nat.div_add_mod (p.height + 1) constants.SUB_EPOCH_BLOCKS
  have hstartLe : ∀ {n : ℕ},
      n / constants.SUB_EPOCH_BLOCKS = (p.height + 1) / constants.SUB_EPOCH_BLOCKS →
      constants.SUB_EPOCH_BLOCKS * ((p.height + 1) / constants.SUB_EPOCH_BLOCKS) ≤ n := by
    intro n hn
    rw [← hn]
    exact Nat.mul_div_le n constants.SUB_EPOCH_BLOCKS
  unfold summaryInSubEpoch at h
  by_cases hedge : (p.height + 1) % constants.SUB_EPOCH_BLOCKS > 1
  · rw [if_pos hedge] at h
    obtain ⟨q, hq, h⟩ := bind_eq_ok.mp h
    obtain ⟨curr, hcurr, h⟩ := bind_eq_ok.mp h
    obtain rfl : curr.subEpochSummaryIncluded.isSome = found := Except.ok.inj h
    -- the chain before the block, in which the start of the sub-epoch is
    have hlast := hchain.getElem?_height (ParentTree.Path.mem_self hchain)
    have hmodle := Nat.mod_le (p.height + 1) constants.SUB_EPOCH_BLOCKS
    obtain ⟨n, hn⟩ : ∃ n, p.height = n + 1 := ⟨p.height - 1, by omega⟩
    rw [hn] at hlast
    obtain ⟨q', hq', hget⟩ := hchain.getElem?_succ hlast
    obtain rfl : q = q' := by
      rw [get_of_blockRecord hq] at hget
      exact Option.some.inj hget
    have hchain' := (hchain.getElem hq').2
    have hqheight := (hchain.getElem hq').1
    have hmem : ∀ y ∈ rs, y.height ≤ n → y ∈ rs.take (n + 1) := by
      intro y hy hyn
      have hat : (rs.take (n + 1))[y.height]? = some y := by
        rw [List.getElem?_take, if_pos (Nat.lt_succ_of_le hyn)]
        exact hchain.getElem?_height hy
      exact List.mem_of_getElem? hat
    have hstart : constants.SUB_EPOCH_BLOCKS * ((p.height + 1) / constants.SUB_EPOCH_BLOCKS) ≤ n := by
      omega
    obtain ⟨z, hz⟩ : ∃ z, rs[constants.SUB_EPOCH_BLOCKS *
        ((p.height + 1) / constants.SUB_EPOCH_BLOCKS)]? = some z :=
      ⟨_, List.getElem?_eq_getElem (by rw [hchain.length_eq]; omega)⟩
    have hzheight := (hchain.getElem hz).1
    have hzmem := hmem z (List.mem_of_getElem? hz) (by omega)
    have hzstop : (decide (z.height % constants.SUB_EPOCH_BLOCKS = 0) ||
        z.subEpochSummaryIncluded.isSome) = true := by
      simp [hzheight]
    obtain ⟨a, y, b, hl, hy, hb⟩ := @exists_last BlockRecord (rs.take (n + 1))
      (fun r => decide (r.height % constants.SUB_EPOCH_BLOCKS = 0) || r.subEpochSummaryIncluded.isSome)
      ⟨z, hzmem, hzstop⟩
    obtain rfl : curr = y :=
      Except.ok.inj (hcurr.symm.trans (walkBack_eq_ok hchain' hl hy hb))
    have hcurrmem : curr ∈ rs.take (n + 1) := by
      rw [hl]
      simp
    have hcurrle : curr.height ≤ q.height := height_le hchain' hcurrmem
    -- nothing after the block where the walk stops passes the test
    have hafter : ∀ w ∈ rs.take (n + 1), (decide (w.height % constants.SUB_EPOCH_BLOCKS = 0) ||
        w.subEpochSummaryIncluded.isSome) = true → w.height ≤ curr.height := by
      intro w hw hstop
      by_contra hlt
      rw [hb w (mem_after hchain' hl hw (Nat.not_le.mp hlt))] at hstop
      cases hstop
    have hzle := hafter z hzmem hzstop
    constructor
    · intro hsome
      refine ⟨curr, List.mem_of_mem_take hcurrmem, by omega, ?_, hsome⟩
      refine le_antisymm (Nat.div_le_div_right (by omega)) ?_
      rw [hzheight] at hzle
      by_cases hzero : constants.SUB_EPOCH_BLOCKS = 0
      · simp [hzero]
      · rw [Nat.le_div_iff_mul_le (Nat.pos_of_ne_zero hzero), Nat.mul_comm]
        exact hzle
    · rintro ⟨x, hx, hlt, hsame, hsome⟩
      have hxmem := hmem x hx (by omega)
      have hxle := hafter x hxmem (by simp [hsome])
      rcases Bool.or_eq_true_iff.mp hy with hcurrMod | hsome'
      · -- the walk stops at the start of the sub-epoch, which is not after the block
        have hcurrMod : curr.height % constants.SUB_EPOCH_BLOCKS = 0 := by simpa using hcurrMod
        have h1 : x.height / constants.SUB_EPOCH_BLOCKS ≤ curr.height / constants.SUB_EPOCH_BLOCKS :=
          Nat.div_le_div_right hxle
        have h2 : curr.height / constants.SUB_EPOCH_BLOCKS ≤
            (p.height + 1) / constants.SUB_EPOCH_BLOCKS := Nat.div_le_div_right (by omega)
        have h3 := Nat.div_add_mod curr.height constants.SUB_EPOCH_BLOCKS
        rw [le_antisymm h2 (hsame ▸ h1), hcurrMod] at h3
        have h4 := hstartLe hsame
        have hat := hchain'.getElem?_height hxmem
        rw [show x.height = curr.height by omega, hchain'.getElem?_height hcurrmem] at hat
        rw [Option.some.inj hat]
        exact hsome
      · exact hsome'
  · rw [if_neg hedge] at h
    obtain rfl := Except.ok.inj h
    constructor
    · intro hfalse
      cases hfalse
    · rintro ⟨x, -, hlt, hsame, -⟩
      have := hstartLe hsame
      omega

lemma eq_none_of_summaryInSubEpoch (hchain : records.Chain p rs) (hp : p.subEpochSummaryIncluded = none)
    (h : summaryInSubEpoch constants records p.height p.prevHash = .ok false) (hx : x ∈ rs)
    (hsame : x.height / constants.SUB_EPOCH_BLOCKS = (p.height + 1) / constants.SUB_EPOCH_BLOCKS) :
    x.subEpochSummaryIncluded = none := by
  rcases Nat.lt_or_eq_of_le (height_le hchain hx) with hlt | heq
  · by_contra hne
    have hsome := Option.isSome_iff_ne_none.mpr hne
    have := (summaryInSubEpoch_eq_true_iff hchain h).mpr ⟨x, hx, hlt, hsame, hsome⟩
    cases this
  · have hat := hchain.getElem?_height hx
    rw [heq, hchain.getElem?_height (ParentTree.Path.mem_self hchain)] at hat
    rw [← Option.some.inj hat, hp]

end Step

/-! ## The summaries of a chain -/

section Chain

variable {H : Hashes} {V : Verifiers} {constants : ConsensusConstants} {rs : List BlockRecord}

/-- What holds of the summaries of a chain: there is none in the first sub-epoch, at most one in any other,
and those with new parameters are in the sub-epochs that start an epoch. -/
structure SummariesOk (constants : ConsensusConstants) (rs : List BlockRecord) : Prop where
  first : ∀ r ∈ rs, r.height < constants.SUB_EPOCH_BLOCKS → r.subEpochSummaryIncluded = none
  unique : ∀ r ∈ rs, ∀ r' ∈ rs, r.subEpochSummaryIncluded.isSome = true →
    r'.subEpochSummaryIncluded.isSome = true →
    r.height / constants.SUB_EPOCH_BLOCKS = r'.height / constants.SUB_EPOCH_BLOCKS → r = r'
  params : ∀ r ∈ rs, ∀ ses, r.subEpochSummaryIncluded = some ses →
    ((r.height + constants.MAX_SUB_SLOT_BLOCKS) / constants.SUB_EPOCH_BLOCKS ≤ 1 ∧
        ses.newDifficulty = none ∧ ses.newSubSlotIters = none) ∨
      (ses.newDifficulty.isSome = heightCanBeFirstInEpoch constants r.height ∧
        ses.newSubSlotIters.isSome = heightCanBeFirstInEpoch constants r.height)

/-- A chain of accepted blocks keeps the rules for summaries, block by block. -/
lemma HeaderChain.summariesOk (h : HeaderChain H V constants rs) : SummariesOk constants rs := by
  induction h with
  | @genesis blocks block r hprev h =>
    have hnone : r.subEpochSummaryIncluded = none := by
      cases hses : r.subEpochSummaryIncluded with
      | none => rfl
      | some ses =>
        obtain ⟨p, hp, -⟩ := h.summary hses
        rw [hprev] at hp
        cases hp
    refine ⟨fun x hx _ => ?_, fun x hx x' _ hsome => ?_, fun x hx ses hses => ?_⟩
    · rw [List.mem_singleton.mp hx, hnone]
    · rw [List.mem_singleton.mp hx, hnone] at hsome
      cases hsome
    · rw [List.mem_singleton.mp hx, hnone] at hses
      cases hses
  | @extend blocks block p r rs hrs hchain hprev hheight h ih =>
    obtain ⟨hrheight, hparent⟩ := h.height
    obtain ⟨p', hp', hnext⟩ := hparent hheight
    obtain rfl : p' = p := by
      rw [hprev] at hp'
      exact (Option.some.inj hp').symm
    have hr : r.height = p'.height + 1 := hrheight.trans hnext
    have hsummary : ∀ {ses}, r.subEpochSummaryIncluded = some ses →
        constants.SUB_EPOCH_BLOCKS ≤ r.height ∧
        (∀ x ∈ rs, x.height / constants.SUB_EPOCH_BLOCKS = r.height / constants.SUB_EPOCH_BLOCKS →
          x.subEpochSummaryIncluded = none) ∧
        (((r.height + constants.MAX_SUB_SLOT_BLOCKS) / constants.SUB_EPOCH_BLOCKS ≤ 1 ∧
            ses.newDifficulty = none ∧ ses.newSubSlotIters = none) ∨
          (ses.newDifficulty.isSome = heightCanBeFirstInEpoch constants r.height ∧
            ses.newSubSlotIters.isSome = heightCanBeFirstInEpoch constants r.height)) := by
      intro ses hses
      obtain ⟨q, hq, hlow, hnone, hsub, hparams⟩ := h.summary hses
      obtain rfl : q = p' := by
        rw [hprev] at hq
        exact (Option.some.inj hq).symm
      rw [← hrheight] at hparams
      rw [hr]
      exact ⟨hlow, fun x hx => eq_none_of_summaryInSubEpoch hchain hnone hsub hx, hr ▸ hparams⟩
    refine ⟨fun x hx hlt => ?_, fun x hx x' hx' hsome hsome' hsame => ?_, fun x hx ses hses => ?_⟩
    · rcases List.mem_append.mp hx with hx | hx
      · exact ih.first x hx hlt
      · rw [List.mem_singleton.mp hx] at hlt ⊢
        by_contra hne
        obtain ⟨ses, hses⟩ := Option.ne_none_iff_exists'.mp hne
        have := (hsummary hses).1
        omega
    · rcases List.mem_append.mp hx with hx | hx
      · rcases List.mem_append.mp hx' with hx' | hx'
        · exact ih.unique x hx x' hx' hsome hsome' hsame
        · rw [List.mem_singleton.mp hx'] at hsome' hsame
          obtain ⟨ses, hses⟩ := Option.isSome_iff_exists.mp hsome'
          rw [(hsummary hses).2.1 x hx hsame] at hsome
          cases hsome
      · rw [List.mem_singleton.mp hx] at hsome hsame ⊢
        rcases List.mem_append.mp hx' with hx' | hx'
        · obtain ⟨ses, hses⟩ := Option.isSome_iff_exists.mp hsome
          rw [(hsummary hses).2.1 x' hx' hsame.symm] at hsome'
          cases hsome'
        · exact (List.mem_singleton.mp hx').symm
    · rcases List.mem_append.mp hx with hx | hx
      · exact ih.params x hx ses hses
      · rw [List.mem_singleton.mp hx] at hses ⊢
        exact (hsummary hses).2.2

/-- **One sub-epoch summary per sub-epoch.** Along every chain of accepted blocks, with the default
constants, no block of the first sub-epoch includes a summary, at most one block of each later sub-epoch
does, and an included summary has a new difficulty and new sub-slot iterations exactly if its sub-epoch
starts an epoch. -/
theorem HeaderChain.summaries (h : HeaderChain H V defaultConstants rs) :
    (∀ r ∈ rs, r.height < defaultConstants.SUB_EPOCH_BLOCKS → r.subEpochSummaryIncluded = none) ∧
    (∀ k ≥ 1, ∀ r ∈ rs, ∀ r' ∈ rs, r.subEpochSummaryIncluded.isSome = true →
      r'.subEpochSummaryIncluded.isSome = true →
      k * defaultConstants.SUB_EPOCH_BLOCKS ≤ r.height →
      r.height < (k + 1) * defaultConstants.SUB_EPOCH_BLOCKS →
      k * defaultConstants.SUB_EPOCH_BLOCKS ≤ r'.height →
      r'.height < (k + 1) * defaultConstants.SUB_EPOCH_BLOCKS → r = r') ∧
    (∀ k, ∀ r ∈ rs, ∀ ses, r.subEpochSummaryIncluded = some ses →
      k * defaultConstants.SUB_EPOCH_BLOCKS ≤ r.height →
      r.height < (k + 1) * defaultConstants.SUB_EPOCH_BLOCKS →
      (ses.newDifficulty.isSome = true ↔
          k * defaultConstants.SUB_EPOCH_BLOCKS % defaultConstants.EPOCH_BLOCKS = 0) ∧
        (ses.newSubSlotIters.isSome = true ↔
          k * defaultConstants.SUB_EPOCH_BLOCKS % defaultConstants.EPOCH_BLOCKS = 0)) := by
  have hok := h.summariesOk
  refine ⟨hok.first, fun k _ r hr r' hr' hsome hsome' h1 h2 h1' h2' => ?_,
    fun k r hr ses hses h1 h2 => ?_⟩
  · refine hok.unique r hr r' hr' hsome hsome' ?_
    show r.height / 384 = r'.height / 384
    change k * 384 ≤ r.height at h1
    change r.height < (k + 1) * 384 at h2
    change k * 384 ≤ r'.height at h1'
    change r'.height < (k + 1) * 384 at h2'
    omega
  · change k * 384 ≤ r.height at h1
    change r.height < (k + 1) * 384 at h2
    have hfirst : heightCanBeFirstInEpoch defaultConstants r.height = true ↔ k * 384 % 4608 = 0 := by
      rw [show r.height = r.height % 384 + k * 384 by omega]
      show decide ((r.height % 384 + k * 384 - (r.height % 384 + k * 384) % 384) % 4608 = 0) = true ↔ _
      rw [decide_eq_true_iff]
      omega
    have hlow : 384 ≤ r.height := by
      by_contra hlt
      rw [hok.first r hr (Nat.not_le.mp hlt)] at hses
      cases hses
    rcases hok.params r hr ses hses with ⟨hle, hd, hi⟩ | ⟨hd, hi⟩
    · -- the first sub-epoch that has a summary does not start an epoch
      change (r.height + 128) / 384 ≤ 1 at hle
      have hk : ¬k * 384 % 4608 = 0 := by omega
      rw [hd, hi]
      exact ⟨⟨fun h => (nomatch h), fun h => absurd h hk⟩, ⟨fun h => (nomatch h), fun h => absurd h hk⟩⟩
    · rw [hd, hi]
      exact ⟨hfirst, hfirst⟩

/-- The chain of the genesis block of the samples. -/
theorem HeaderChain.summaries_genesisBlock :
    ∃ r, HeaderChain sampleBlockchainTools.H sampleBlockchainTools.V defaultConstants [r] ∧
      r.subEpochSummaryIncluded = none := by
  obtain ⟨r, hr⟩ : ∃ r, blockToBlockRecord sampleBlockchainTools.H defaultConstants (blockCache ∅) 1
      genesisBlock = .ok r := by
    have hok : (blockToBlockRecord sampleBlockchainTools.H defaultConstants (blockCache ∅) 1
        genesisBlock).toBool = true := by decide +kernel
    cases hrecord : blockToBlockRecord sampleBlockchainTools.H defaultConstants (blockCache ∅) 1
        genesisBlock with
    | ok r => exact ⟨r, rfl⟩
    | error e =>
      rw [hrecord] at hok
      cases hok
  have hvalid : validateFinishedHeaderBlock sampleBlockchainTools.H sampleBlockchainTools.V
      defaultConstants ∅ (getBlockHeader (fun _ => []) genesisBlock [] []) true 7
      defaultConstants.SUB_SLOT_ITERS_STARTING true 0 = .ok 1 := by decide +kernel
  have hchain : HeaderChain sampleBlockchainTools.H sampleBlockchainTools.V defaultConstants [r] :=
    @HeaderChain.genesis _ _ _ (blockCache ∅) genesisBlock r rfl
      ⟨fun _ => [], [], [], true, 7, _, 0, 1, hvalid, hr⟩
  have hheight : r.height < defaultConstants.SUB_EPOCH_BLOCKS := by
    obtain ⟨_, _, _, _, _, -, -, rfl⟩ := blockToBlockRecord_eq_ok hr
    show genesisBlock.height < 384
    decide
  exact ⟨r, hchain, hchain.summaries.1 r (List.mem_singleton.mpr rfl) hheight⟩

end Chain

end Chives
