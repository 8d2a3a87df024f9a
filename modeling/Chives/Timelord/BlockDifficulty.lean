import Chives.Timelord.SubEpochEnd

set_option autoImplicit false

/-!
# The infusion point of a peak

A timelord computes the infusion point of a peak again, from the proof of space and the difficulty that the full node
sends with it. The full node takes that from `get_next_difficulty`, which is asked for the block after the peak. It is
the difficulty at which the peak was validated, since no sub slot ends in between.

## Main definitions

* `ProvedAt` — the required iterations of a proof of space at a difficulty.

## Main results

* `AcceptedChain.difficulty` — the difficulties at which the blocks of a chain are validated.
* `AcceptedChain.lastIp_eq` — the timelord finds the infusion point of the peak.
-/

namespace Chives

open ExceptRun BlockRecords

section Difficulty

variable (H : Hashes) (V : Verifiers) (constants : ConsensusConstants)

/-- The required iterations of a reward chain block are those of its proof of space at a difficulty. -/
def ProvedAt (rc : RewardChainBlock) (difficulty requiredIters : ℕ) : Prop :=
  ∃ quality,
    rc.proofOfSpace.verifyAndGetQualityString H V constants rc.posSsCcChallengeHash
      (ccSpHashOf H rc.challengeChainSpVdf rc.posSsCcChallengeHash) = some quality ∧
    calculateIterationsQuality H constants.DIFFICULTY_CONSTANT_FACTOR quality rc.proofOfSpace.size difficulty
      (ccSpHashOf H rc.challengeChainSpVdf rc.posSsCcChallengeHash) = .ok requiredIters

/-- The heights at which the difficulty is the one that the chain starts with. -/
def EarlyHeight (height : ℕ) : Prop :=
  height ≤ 2 ∨ height + 3 * constants.MAX_SUB_SLOT_BLOCKS < constants.EPOCH_BLOCKS

variable {H V constants} {blocks : BlockchainInterface} {block : FullBlock} {p r : BlockRecord} {es : List Entry}
  {e : Entry}

/-- What `iters_from_block` returns, for a proof of space with known required iterations. -/
lemma itersFromBlock_of_provedAt {rc : RewardChainBlock} {difficulty requiredIters subSlotIters spIters ip : ℕ}
    (hproved : ProvedAt H V constants rc difficulty requiredIters)
    (h : itersFromBlock H V constants rc subSlotIters difficulty = .ok (spIters, ip)) :
    calculateIpIters constants subSlotIters rc.signagePointIndex requiredIters = .ok ip := by
  obtain ⟨quality, hquality, hrequired⟩ := hproved
  unfold itersFromBlock at h
  obtain ⟨_, -, h⟩ := bind_eq_ok.mp h
  simp only [hquality, pySome, hrequired, ok_bind, bind_eq_ok] at h
  obtain ⟨sp, -, ip', hip, h⟩ := h
  obtain ⟨-, rfl⟩ := Prod.mk.inj (Except.ok.inj h)
  exact hip

/-- A block is accepted with the required iterations of its proof of space at the difficulty that its weight adds. -/
lemma BlockAccepted.provedAt (h : BlockAccepted H V constants blocks block r) :
    ∃ subSlotIters difficulty,
      getNextSubSlotItersAndDifficulty constants (decide (block.finishedSubSlots ≠ []))
        (blocks.records.get block.prevHeaderHash) blocks = .ok (subSlotIters, difficulty) ∧
      ProvedAt H V constants block.rewardChainBlock difficulty r.requiredIters ∧
      (block.height = 0 → r.weight = constants.DIFFICULTY_STARTING) ∧
      ∀ p, block.height ≠ 0 → blocks.records.get block.prevHeaderHash = some p →
        r.weight = p.weight + difficulty := by
  obtain ⟨filter, additions, removals, checkFilter, iters, difficulty, now, required, hnext, hvalid, hrecord⟩ := h
  obtain ⟨_, _, _, _, _, -, -, rfl⟩ := blockToBlockRecord_eq_ok hrecord
  refine ⟨iters, difficulty, hnext, ?_, fun hzero => ?_, fun p hne hprev => ?_⟩
  · obtain ⟨_, overflow, _, n, _, _, _, hreach, -⟩ :=
      reachesSpVdf_of_validate (validateUnfinished_of_finished hvalid)
    obtain ⟨_, _, _, challenge, -, -, -, hproof, -⟩ := hreach.checks
    unfold checkProofOfSpace at hproof
    obtain ⟨_, hsame, hproof⟩ := bind_eq_ok.mp hproof
    have hsame : challenge = block.rewardChainBlock.posSsCcChallengeHash := not_not.mp (rejectIf_eq_ok.mp hsame)
    subst hsame
    simp only at hproof
    split at hproof
    · cases hproof
    · rename_i quality hquality
      obtain ⟨_, -, hproof⟩ := bind_eq_ok.mp hproof
      obtain ⟨required', hrequired, hproof⟩ := bind_eq_ok.mp hproof
      obtain ⟨_, -, hproof⟩ := bind_eq_ok.mp hproof
      obtain ⟨_, -, hproof⟩ := bind_eq_ok.mp hproof
      obtain ⟨_, -, hproof⟩ := bind_eq_ok.mp hproof
      obtain ⟨_, -, hproof⟩ := bind_eq_ok.mp hproof
      obtain rfl : required' = required := Except.ok.inj hproof
      exact ⟨quality, hquality, raising_eq_ok.mp hrequired⟩
  · obtain ⟨_, _, _, -, -, prevB, hprevB, hchecked⟩ := validateFinishedHeaderBlock_eq_ok hvalid
    unfold prevOfHeader at hprevB
    rw [if_pos (show (getBlockHeader filter block additions removals).height = 0 from hzero)] at hprevB
    obtain rfl : none = prevB := Except.ok.inj hprevB
    obtain ⟨_, -, hchecked⟩ := bind_eq_ok.mp hchecked
    obtain ⟨_, hweight, -⟩ := bind_eq_ok.mp hchecked
    exact not_not.mp (rejectIf_eq_ok.mp hweight)
  · obtain ⟨p', hp', -, hweight⟩ := heightAndWeight_of_valid
      (show (getBlockHeader filter block additions removals).height ≠ 0 from hne) hvalid
    obtain rfl : p = p' := Option.some.inj (hprev.symm.trans hp')
    exact hweight

lemma difficulty_of_next {newSlot : Bool} {subSlotIters difficulty before : ℕ}
    (hnext : getNextSubSlotItersAndDifficulty constants newSlot (some p) blocks = .ok (subSlotIters, difficulty))
    (hbefore : prevDifficulty blocks.records p = .ok before)
    (hstays : newSlot = false ∨ p.height + 1 < constants.SUB_EPOCH_BLOCKS ∨
      p.height + 1 + 3 * constants.MAX_SUB_SLOT_BLOCKS < constants.EPOCH_BLOCKS) :
    difficulty = before ∨ p.height + 1 + 3 * constants.MAX_SUB_SLOT_BLOCKS < constants.EPOCH_BLOCKS ∧
      difficulty = constants.DIFFICULTY_STARTING := by
  obtain ⟨before', hbefore', ⟨-, hsame⟩ | ⟨hses, _, hdifficulty, -⟩⟩ := getNext_eq_ok hnext
  all_goals obtain rfl : before = before' := Except.ok.inj (hbefore.symm.trans hbefore')
  · exact .inl hsame
  · rcases getNextDifficulty_eq_ok hses hdifficulty with hearly | ⟨hlate, hsame⟩
    · exact .inr hearly
    · refine .inl (hsame ?_)
      rcases hstays with rfl | hlow | hearly
      · exact .inl rfl
      · exact .inr ⟨false, if_pos hlow⟩
      · omega

lemma prevDifficulty_eq {records : BlockRecords} {before difficulty : ℕ}
    (hchain : records.Chain e.2 ((es ++ [e]).map Prod.snd)) (h : prevDifficulty records e.2 = .ok before)
    (hroot : es = [] → e.2.weight = difficulty)
    (hparent : ∀ p, es.getLast? = some p → e.2.weight = p.2.weight + difficulty) : before = difficulty := by
  have hlength := hchain.length_eq
  rw [List.length_map, List.length_append, List.length_singleton] at hlength
  unfold prevDifficulty at h
  rcases List.eq_nil_or_concat es with rfl | ⟨init, q, rfl⟩
  · rw [if_neg (by simpa using hlength.symm)] at h
    have := (uintN_eq_ok.mp h).1
    have := hroot rfl
    omega
  · rw [List.concat_eq_append, List.length_append, List.length_singleton] at hlength
    rw [if_pos (show e.2.height ≠ 0 by omega)] at h
    obtain ⟨p, hp, h⟩ := bind_eq_ok.mp h
    have hlast : ((init.concat q ++ [e]).map Prod.snd)[init.length + 1]? = some e.2 := by simp
    obtain ⟨q', hq', hget⟩ := hchain.getElem?_succ hlast
    obtain rfl : q.2 = q' := by simpa using hq'
    obtain rfl : q.2 = p := Option.some.inj (hget.symm.trans (get_of_blockRecord hp))
    have := (uintN_eq_ok.mp h).1
    have := hparent q (by simp)
    omega

/-- **The difficulties of a chain**: each block has the required iterations of its proof of space at the difficulty
that its weight adds, and at early heights this is the difficulty that the chain starts with.

**Proof sketch.** Induction on the chain: the difficulty of a block is computed from that of its parent. -/
theorem AcceptedChain.difficulty (hsub : 2 < constants.SUB_EPOCH_BLOCKS)
    (h : AcceptedChain H V constants (es ++ [e])) :
    ∃ difficulty, ProvedAt H V constants e.1.rewardChainBlock difficulty e.2.requiredIters ∧
      (es = [] → e.2.weight = difficulty) ∧
      (∀ p, es.getLast? = some p → e.2.weight = p.2.weight + difficulty) ∧
      (EarlyHeight constants e.2.height → difficulty = constants.DIFFICULTY_STARTING) := by
  have hfollows := h.follows
  generalize hl : es ++ [e] = l at h
  induction h generalizing es e with
  | @genesis blocks block r hprev hnew =>
    obtain ⟨rfl, rfl⟩ : es = [] ∧ e = (block, r) := by
      have := List.append_inj' (show es ++ [e] = [] ++ [(block, r)] from hl) rfl
      exact ⟨this.1, by simpa using this.2⟩
    obtain ⟨_, difficulty, hnext, hproved, hweight, -⟩ := hnew.provedAt
    rw [hprev] at hnext
    obtain rfl : constants.DIFFICULTY_STARTING = difficulty := (Prod.mk.inj (Except.ok.inj hnext)).2
    exact ⟨_, hproved, fun _ => hweight (hfollows.genesis rfl).1, (fun p hp => by cases hp), fun _ => rfl⟩
  | @extend blocks block p r l hl' hchain hprev hheight hnew ih =>
    obtain ⟨rfl, he⟩ := List.append_inj' hl rfl
    obtain rfl : e = (block, r) := by simpa using he
    obtain ⟨init, q, rfl⟩ : ∃ init q, es = init ++ [q] := by
      rcases List.eq_nil_or_concat es with rfl | ⟨init, q, rfl⟩
      · exact absurd rfl hl'.ne_nil
      · exact ⟨init, q, List.concat_eq_append⟩
    obtain rfl : q.2 = p := by
      have := ParentTree.Path.getLast?_eq hchain.chain
      rw [List.map_append, List.map_singleton, List.getLast?_concat] at this
      exact Option.some.inj this
    obtain ⟨before, -, hroot, hparent, hearly⟩ := ih hl'.follows rfl
    obtain ⟨_, difficulty, hnext, hproved, -, hweight⟩ := hnew.provedAt
    rw [hprev] at hnext
    refine ⟨difficulty, hproved, (fun hnil => absurd hnil (by simp)), fun x hx => ?_, fun hlow => ?_⟩
    · rw [List.getLast?_concat] at hx
      rw [← Option.some.inj hx]
      exact hweight q.2 hheight hprev
    · have hnumber : r.height = q.2.height + 1 := by
        rw [hfollows.height_eq]
        exact (hfollows.parent q (List.getLast?_concat)).1
      obtain ⟨before', hbefore, -⟩ := bind_eq_ok.mp hnext
      obtain rfl := prevDifficulty_eq hchain.chain hbefore hroot hparent
      have hlow : r.height ≤ 2 ∨ r.height + 3 * constants.MAX_SUB_SLOT_BLOCKS < constants.EPOCH_BLOCKS := hlow
      rcases difficulty_of_next hnext hbefore (by omega) with rfl | ⟨-, hstarting⟩
      · exact hearly (show q.2.height ≤ 2 ∨ _ by omega)
      · exact hstarting

/-- **The timelord finds the infusion point of the peak.** -/
theorem AcceptedChain.lastIp_eq (hsub : 2 < constants.SUB_EPOCH_BLOCKS)
    (h : AcceptedChain H V constants (es ++ [e]))
    (hchain : blocks.records.Chain e.2 ((es ++ [e]).map Prod.snd))
    (hget : blocks.records.get e.2.headerHash = some e.2) {difficulty spIters ip : ℕ}
    (hnext : nextDifficultyAfter constants blocks e.2.headerHash false = .ok difficulty)
    (hiters : itersFromBlock H V constants e.1.rewardChainBlock e.2.subSlotIters difficulty = .ok (spIters, ip)) :
    e.2.ipIters constants = .ok ip := by
  obtain ⟨before, hproved, hroot, hparent, hearly⟩ := h.difficulty hsub
  have hsame : difficulty = before := by
    unfold nextDifficultyAfter at hnext
    obtain ⟨_, -, hnext⟩ := bind_eq_ok.mp hnext
    rw [blockRecord_eq_ok hget, ok_bind] at hnext
    split at hnext
    · rename_i hlow
      rw [hearly (.inl hlow)]
      exact (Except.ok.inj hnext).symm
    · obtain ⟨⟨iters, next⟩, hnext', hnext⟩ := bind_eq_ok.mp hnext
      obtain rfl : next = difficulty := Except.ok.inj hnext
      obtain ⟨before', hbefore, -⟩ := bind_eq_ok.mp hnext'
      obtain rfl := prevDifficulty_eq hchain hbefore hroot hparent
      rcases difficulty_of_next hnext' hbefore (.inl rfl) with hsame | ⟨hlow, hstarting⟩
      · exact hsame
      · rw [hearly (.inr (by omega))]
        exact hstarting
  obtain ⟨cache, hblock⟩ := h.last_accepted
  obtain ⟨-, -, -, -, hindex, -, -⟩ := hblock.fields
  rw [hsame] at hiters
  rw [BlockRecord.ipIters, hindex]
  exact itersFromBlock_of_provedAt hproved hiters

end Difficulty

end Chives
