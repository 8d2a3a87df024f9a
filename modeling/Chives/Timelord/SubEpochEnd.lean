import Chives.Consensus.BlockChallenge
import Chives.Timelord.TimelordState

set_option autoImplicit false

/-!
# When a timelord ends a sub-epoch

A timelord puts a sub-epoch summary into the next end of a sub slot if the peak it was sent says that a sub-epoch
has passed without a summary and the deficit is zero. The peak comes with a flag, for which the full node walks back
to the start of the sub-epoch, and the timelord sets the flag itself at the last height of a sub-epoch. Header
validation asks `can_finish_sub_and_full_epoch`. The two agree, since a sub-epoch that includes a summary includes it
long before its last height.

## Main results

* `passedSesHeight_iff` — what the flag of a peak says of the chain.
* `canFinish_iff` — what `can_finish_sub_and_full_epoch` says of the chain.
* `getNextSubEpochSummary_eq` — timelords and header validation agree.
-/

namespace Chives

open ExceptRun BlockRecords

section Flag

variable {blocks : BlockchainInterface} {r : BlockRecord} {l : List BlockRecord}

/-- **The flag of a peak**: it is not in the first sub-epoch, and no block of its sub-epoch so far includes a summary.

**Proof sketch.** The walk stops at the first block of the sub-epoch, and passes the other ones. -/
lemma passedSesHeight_iff {passed : Bool} (hchain : blocks.records.Chain r l)
    (h : passedSesHeight defaultConstants blocks r = .ok passed) :
    passed = true ↔ 384 ≤ r.height ∧
      ∀ x ∈ l, x.height / 384 = r.height / 384 → x.subEpochSummaryIncluded = none := by
  have hlt : 384 * (r.height / 384) < l.length := by
    rw [hchain.length_eq]
    omega
  obtain ⟨z, hz⟩ : ∃ z, l[384 * (r.height / 384)]? = some z := ⟨_, List.getElem?_eq_getElem hlt⟩
  have hzheight := (hchain.getElem hz).1
  have hsplit : l = l.take (384 * (r.height / 384)) ++ z :: l.drop (384 * (r.height / 384) + 1) := by
    rw [← (List.getElem?_eq_some_iff.mp hz).2, List.getElem_cons_drop, List.take_append_drop]
  -- the blocks after the first one of the sub-epoch
  have hafter : ∀ x ∈ l, x ∈ l.drop (384 * (r.height / 384) + 1) ↔ 384 * (r.height / 384) < x.height := by
    intro x hx
    have hat := hchain.getElem?_height hx
    constructor
    · intro hmem
      obtain ⟨i, hi, rfl⟩ := List.mem_drop_iff_getElem.mp hmem
      rw [(hchain.getElem (List.getElem?_eq_getElem _)).1]
      omega
    · intro hgt
      exact mem_after hchain hsplit hx (by omega)
  have hvisit : blocks.records.visit (fun r => decide (r.height % defaultConstants.SUB_EPOCH_BLOCKS = 0)) r =
      .ok ((l.drop (384 * (r.height / 384) + 1)).reverse, z) := by
    refine visit_eq_ok hchain hsplit ?_ fun y hy => ?_
    · rw [show defaultConstants.SUB_EPOCH_BLOCKS = 384 from rfl, hzheight]
      exact decide_eq_true (Nat.mul_mod_right 384 _)
    · have hmem := List.mem_of_mem_drop hy
      have hgt := (hafter y hmem).mp hy
      have hle := height_le hchain hmem
      rw [show defaultConstants.SUB_EPOCH_BLOCKS = 384 from rfl]
      exact decide_eq_false (by omega)
  unfold passedSesHeight at h
  rw [hvisit, ok_bind] at h
  rw [← Except.ok.inj h]
  have hzmem : z ∈ l := List.mem_of_getElem? hz
  simp only [Bool.and_eq_true, Bool.not_eq_true', Bool.or_eq_false_iff, decide_eq_false_iff_not,
    List.any_eq_false, List.mem_reverse, Bool.not_eq_true, Option.isSome_eq_false_iff, Option.isNone_iff_eq_none]
  constructor
  · rintro ⟨hrest, hznone, hzero⟩
    refine ⟨by omega, fun x hx hsame => ?_⟩
    rcases Nat.lt_or_ge (384 * (r.height / 384)) x.height with hgt | hle
    · exact hrest x ((hafter x hx).mpr hgt)
    · have hat := hchain.getElem?_height hx
      rw [show x.height = 384 * (r.height / 384) by omega, hz] at hat
      rw [← Option.some.inj hat, hznone]
  · rintro ⟨hlow, hnone⟩
    refine ⟨fun x hx => ?_, hnone z hzmem (by omega), by omega⟩
    have hmem := List.mem_of_mem_drop hx
    have hgt := (hafter x hmem).mp hx
    have hle := height_le hchain hmem
    exact hnone x hmem (by omega)

/-- **When a sub-epoch can finish**: the next block is not in the first sub-epoch, the deficit is zero, and no block
of the sub-epoch that the next block is in includes a summary, nor does the block itself. -/
lemma canFinish_iff {canFinishSe canFinishEpoch : Bool} (hchain : blocks.records.Chain r l)
    (h : canFinishSubAndFullEpoch defaultConstants blocks.records r.height r.prevHash r.deficit
      r.subEpochSummaryIncluded.isSome = .ok (canFinishSe, canFinishEpoch)) :
    canFinishSe = true ↔ 384 ≤ r.height + 1 ∧ r.deficit = 0 ∧ r.subEpochSummaryIncluded = none ∧
      ∀ x ∈ l, x.height / 384 = (r.height + 1) / 384 → x.subEpochSummaryIncluded = none := by
  unfold canFinishSubAndFullEpoch at h
  split at h
  · rename_i hlow
    obtain ⟨rfl, -⟩ := Prod.mk.inj (Except.ok.inj h)
    have hlow : r.height + 1 < 384 := hlow
    exact ⟨(fun hfalse => nomatch hfalse), fun hall => absurd hall.1 (by omega)⟩
  rename_i hlow
  split at h
  · rename_i hdeficit
    obtain ⟨rfl, -⟩ := Prod.mk.inj (Except.ok.inj h)
    exact ⟨(fun hfalse => nomatch hfalse), fun hall => absurd hall.2.1 (by omega)⟩
  rename_i hdeficit
  split at h
  · rename_i hsome
    obtain ⟨rfl, -⟩ := Prod.mk.inj (Except.ok.inj h)
    refine ⟨(fun hfalse => nomatch hfalse), fun hall => ?_⟩
    rw [hall.2.2.1] at hsome
    cases hsome
  rename_i hnone
  have hnone : r.subEpochSummaryIncluded = none := by simpa using hnone
  obtain ⟨found, hfound, h⟩ := bind_eq_ok.mp h
  cases found with
  | true =>
    obtain ⟨rfl, -⟩ := Prod.mk.inj (Except.ok.inj h)
    obtain ⟨x, hx, -, hsame, hsome⟩ := (summaryInSubEpoch_eq_true_iff hchain hfound).mp rfl
    refine ⟨(fun hfalse => nomatch hfalse), fun hall => ?_⟩
    rw [hall.2.2.2 x hx hsame] at hsome
    cases hsome
  | false =>
    obtain ⟨_, -, h⟩ := bind_eq_ok.mp h
    obtain ⟨rfl, -⟩ := Prod.mk.inj (Except.ok.inj h)
    exact ⟨fun _ => ⟨Nat.not_lt.mp hlow, by omega, hnone, fun x hx hsame =>
      eq_none_of_summaryInSubEpoch hchain hnone hfound hx hsame⟩, fun _ => rfl⟩

end Flag

/-! ## The summary of a peak -/

section Peak

variable {H : Hashes} {V : Verifiers} {constants : ConsensusConstants} {blocks : BlockchainInterface}
  {block : FullBlock} {r : BlockRecord}

lemma BlockAccepted.head_slot (h : BlockAccepted H V constants blocks block r)
    (hnone : r.subEpochSummaryIncluded = none) {slot : EndOfSubSlotBundle}
    (hslot : block.finishedSubSlots.head? = some slot) :
    slot.challengeChain.subepochSummaryHash = none ∧ slot.challengeChain.newDifficulty = none := by
  obtain ⟨slots, hslots⟩ := List.head?_eq_some_iff.mp hslot
  obtain ⟨filter, additions, removals, _, iters, difficulty, _, _, -, hvalid, hrecord⟩ := h
  obtain ⟨_, _, _, _, ses, -, hincluded, rfl⟩ := blockToBlockRecord_eq_ok hrecord
  obtain ⟨_, _, canFinishEpoch, -, hchecked, -⟩ := validateFinishedHeaderBlock_eq_ok hvalid
  have hheader : (getBlockHeader filter block additions removals).finishedSubSlots = slot :: slots := hslots
  unfold checkFinishedSubSlots at hchecked
  rw [hheader, if_neg (by simp)] at hchecked
  obtain ⟨out, hout, -⟩ := bind_eq_ok.mp hchecked
  obtain ⟨-, hrest, -⟩ := checkSlots_first hout
  have hhash : slot.challengeChain.subepochSummaryHash = none := by
    rw [← foundSesHash_cons hslots hrest, ← Option.not_isSome_iff_eq_none, ← includedSummary_isSome hincluded]
    rw [show ses = none from hnone]
    exact Bool.false_ne_true
  unfold checkSlots at hout
  obtain ⟨_, hout', -⟩ := bind_eq_ok.mp hout
  obtain ⟨-, -, -, hdifficulty⟩ := checkSlotData_eq_ok (checkSlotData_of_checkSlot hout')
  refine ⟨hhash, ?_⟩
  rw [hdifficulty, hhash, Option.isSome_none, Bool.and_false, if_neg Bool.false_ne_true]

lemma isSome_of_nextSubEpochSummary {cache : BlockchainInterface} {p : BlockRecord} {requiredIters : ℕ}
    {ses : Option SubEpochSummary} (hblock : BlockAccepted H V constants cache block r)
    (hnone : r.subEpochSummaryIncluded = none) (hprev : blocks.records.get block.prevHeaderHash = some p)
    (hheight : p.height ≠ 0) (h : nextSubEpochSummary H constants blocks requiredIters block true = .ok ses) :
    ses.isSome = true := by
  have hdata : (block.finishedSubSlots.head?.bind fun s => s.challengeChain.newDifficulty) = none ∧
      (block.finishedSubSlots.head?.bind fun s => s.challengeChain.subepochSummaryHash) = none := by
    cases hslots : block.finishedSubSlots.head? with
    | none => exact ⟨rfl, rfl⟩
    | some slot => exact (hblock.head_slot hnone hslots).symm
  unfold nextSubEpochSummary at h
  simp only [hprev, if_neg hheight, hdata.1, hdata.2, Option.isSome_none, Bool.false_eq_true, if_false,
    canFinishAfter, if_true, bind_eq_ok] at h
  obtain ⟨_, -, _, -, ⟨_, se, _⟩, ⟨_, -, hcan⟩, h⟩ := h
  obtain ⟨-, hse⟩ := Prod.mk.inj (Except.ok.inj hcan)
  obtain ⟨rfl, -⟩ := Prod.mk.inj hse
  simp only [Bool.not_true, Bool.false_eq_true, if_false, bind_eq_ok] at h
  obtain ⟨_, -, h⟩ := h
  split at h
  · obtain ⟨_, -, h⟩ := bind_eq_ok.mp h
    obtain ⟨_, -, h⟩ := bind_eq_ok.mp h
    rw [← Except.ok.inj h]
    rfl
  · obtain ⟨_, -, h⟩ := bind_eq_ok.mp h
    rw [← Except.ok.inj h]
    rfl

lemma sendPeakToTimelords_eq_ok {chainPeak : Option BlockRecord} {peak : NewPeakTimelord}
    (hget : blocks.records.get (block.headerHash H) = some r)
    (h : sendPeakToTimelords constants blocks H chainPeak block = .ok peak) :
    peak.rewardChainBlock = block.rewardChainBlock ∧ peak.deficit = r.deficit ∧ peak.subSlotIters = r.subSlotIters ∧
      nextDifficultyAfter constants blocks r.headerHash false = .ok peak.difficulty ∧
      nextSubEpochSummary H constants blocks r.requiredIters block true = .ok peak.subEpochSummary ∧
      getRecentRewardChallenges constants blocks chainPeak = .ok peak.previousRewardChallenges ∧
      passedSesHeight constants blocks r = .ok peak.passesSesHeightButNotYetIncluded := by
  simp only [sendPeakToTimelords, blockRecord_eq_ok hget, ok_bind, bind_eq_ok] at h
  obtain ⟨difficulty, hdifficulty, ses, hses, recentRc, hrecent, _, -, passed, hpassed, h⟩ := h
  rw [← Except.ok.inj h]
  exact ⟨rfl, rfl, rfl, hdifficulty, hses, hrecent, hpassed⟩

end Peak

/-! ## The timelord and header validation -/

section Agree

variable {H : Hashes} {V : Verifiers} {blocks : BlockchainInterface} {l : List (FullBlock × BlockRecord)}
  {block : FullBlock} {r : BlockRecord} {chainPeak : Option BlockRecord} {peak : NewPeakTimelord} {s s' : LastState}
  {difficulty subSlotIters height : ℕ} {canFinishSe canFinishEpoch : Bool} {constants : ConsensusConstants}

lemma AcceptedChain.headerChain (h : AcceptedChain H V constants l) : HeaderChain H V constants (l.map Prod.snd) := by
  induction h with
  | genesis hprev h => exact .genesis hprev h.headerAccepted
  | @extend cache block p r l hl hchain hprev hheight h ih =>
    rw [List.map_append]
    exact .extend ih hchain.chain hprev hheight h.headerAccepted

lemma AcceptedChain.last_accepted {es : List Entry} {e : Entry} (h : AcceptedChain H V constants (es ++ [e])) :
    ∃ cache, BlockAccepted H V constants cache e.1 e.2 := by
  generalize hl : es ++ [e] = l at h
  cases h with
  | @genesis cache block r _ hnew =>
    obtain ⟨-, hlast⟩ := List.append_inj' (show es ++ [e] = [] ++ [(block, r)] from hl) rfl
    rw [List.singleton_inj.mp hlast]
    exact ⟨cache, hnew⟩
  | @extend cache block _ r _ _ _ _ _ hnew =>
    rw [List.singleton_inj.mp (List.append_inj' hl rfl).2]
    exact ⟨cache, hnew⟩

lemma setState_peak_eq_ok (h : s.setState H V constants (.inl peak) = .ok s') :
    ∃ spIters lastIp, itersFromBlock H V constants peak.rewardChainBlock peak.subSlotIters peak.difficulty =
        .ok (spIters, lastIp) ∧
      s'.stateType = .peak peak ∧ s'.lastIp = lastIp ∧ s'.deficit = peak.deficit ∧
      s'.subEpochSummary = peak.subEpochSummary ∧ s'.totalIters = peak.rewardChainBlock.totalIters ∧
      s'.subSlotIters = peak.subSlotIters ∧ s'.newEpoch = false ∧
      s'.passedSesHeightButNotYetIncluded = (if (peak.rewardChainBlock.height + 1) % constants.SUB_EPOCH_BLOCKS = 0
        then true else peak.passesSesHeightButNotYetIncluded) ∧
      s'.rewardChallengeCache = (peak.previousRewardChallenges ++
        [(H.rewardChainBlock peak.rewardChainBlock, peak.rewardChainBlock.totalIters)]).drop
          (peak.previousRewardChallenges.length + 1 - 2 * constants.MAX_SUB_SLOT_BLOCKS) := by
  obtain ⟨next, hnext, h⟩ := bind_eq_ok.mp h
  obtain ⟨⟨spIters, lastIp⟩, hiters, hnext⟩ := bind_eq_ok.mp hnext
  rw [← Except.ok.inj h, ← Except.ok.inj hnext]
  refine ⟨spIters, lastIp, hiters, rfl, rfl, rfl, rfl, rfl, rfl, rfl, rfl, ?_⟩
  simp [LastState.addRewardChallenge, LastState.rewardChallenge]

/-- **Timelords and header validation agree on the end of a sub-epoch.** After any peak of an accepted chain, the
timelord puts the summary that came with the peak into the next end of a sub slot, and there is one, exactly if header
validation lets the sub-epoch finish at the first sub slot after the peak. -/
theorem getNextSubEpochSummary_eq (hchain : AcceptedChain H V defaultConstants (l ++ [(block, r)]))
    (hpresent : AncestorsPresent blocks.records r ((l ++ [(block, r)]).map Prod.snd))
    (hget : blocks.records.get (block.headerHash H) = some r)
    (hsend : sendPeakToTimelords defaultConstants blocks H chainPeak block = .ok peak)
    (hset : s.setState H V defaultConstants (.inl peak) = .ok s')
    (hepoch : heightAndEpoch defaultConstants blocks.records (some r) true difficulty subSlotIters =
      .ok (height, canFinishSe, canFinishEpoch)) :
    s'.getNextSubEpochSummary = (if canFinishSe then peak.subEpochSummary else none) ∧
      s'.getNextSubEpochSummary.isSome = canFinishSe ∧
      (canFinishSe = true ↔ s'.passedSesHeightButNotYetIncluded = true ∧ s'.deficit = 0) := by
  obtain ⟨hrc, hdeficit, -, -, hses, -, hpassed⟩ := sendPeakToTimelords_eq_ok hget hsend
  obtain ⟨_, _, -, hstate, -, hdeficit', hses', -, -, -, hpassed', -⟩ := setState_peak_eq_ok hset
  have hfollows := hchain.follows
  have hheight : peak.rewardChainBlock.height = r.height := by
    rw [hrc, hfollows.height_eq]
    rfl
  have hfinish := canFinish_iff hpresent.chain (heightAndEpoch_newSlot hepoch)
  obtain ⟨l', p', hlast, hinv⟩ := hchain.headerChain.ruleChain.overflowInv le_rfl (.inl rfl)
  obtain rfl : r = p' := by
    rw [List.map_append] at hlast
    exact (List.append_inj' hlast rfl).2 |> List.singleton_inj.mp
  -- the flag of the timelord
  have hflag : (canFinishSe = true ↔ s'.passedSesHeightButNotYetIncluded = true ∧ s'.deficit = 0) := by
    rw [hfinish, hpassed', hdeficit', hdeficit, hheight, show defaultConstants.SUB_EPOCH_BLOCKS = 384 from rfl]
    by_cases hend : (r.height + 1) % 384 = 0
    · rw [if_pos hend]
      refine ⟨fun hall => ⟨rfl, hall.2.1⟩, fun hall => ⟨by omega, hall.2, ?_, fun x hx hsame => ?_⟩⟩
      · by_contra hsome
        have := hinv.overflow r (ParentTree.Path.mem_self hpresent.chain) (Option.isSome_iff_ne_none.mpr hsome)
        omega
      · have := height_le hpresent.chain hx
        omega
    · rw [if_neg hend, passedSesHeight_iff hpresent.chain hpassed,
        show (r.height + 1) / 384 = r.height / 384 by omega]
      constructor
      · rintro ⟨hlow, hzero, -, hnone⟩
        exact ⟨⟨by omega, hnone⟩, hzero⟩
      · rintro ⟨⟨hlow, hnone⟩, hzero⟩
        exact ⟨by omega, hzero, hnone r (ParentTree.Path.mem_self hpresent.chain) rfl, hnone⟩
  have hnext : s'.getNextSubEpochSummary = (if canFinishSe then peak.subEpochSummary else none) := by
    simp only [LastState.getNextSubEpochSummary, hstate, hses', ← hflag]
  refine ⟨hnext, ?_, hflag⟩
  rw [hnext]
  cases canFinishSe with
  | false => rfl
  | true =>
    obtain ⟨hlow, -, hnone, -⟩ := hfinish.mp rfl
    obtain ⟨p, -, hprev, hparent, -⟩ := hpresent.parent (by omega)
    rw [hfollows.prevHash_eq] at hprev
    obtain ⟨cache, haccepted⟩ := hchain.last_accepted
    exact isSome_of_nextSubEpochSummary haccepted hnone hprev (by omega) hses

/-- The message for the overflow genesis block. -/
def overflowGenesisPeak : NewPeakTimelord where
  rewardChainBlock := overflowGenesis.rewardChainBlock
  difficulty := defaultConstants.DIFFICULTY_STARTING
  deficit := 15
  subSlotIters := defaultConstants.SUB_SLOT_ITERS_STARTING
  subEpochSummary := none
  previousRewardChallenges :=
    [(sampleBlockchainTools.H.rewardChainSubSlot emptyFirstSubSlot.rewardChain, 134217728)]
  lastChallengeSbOrEosTotalIters := 134217728 + 2097153
  passesSesHeightButNotYetIncluded := false

lemma sendPeakToTimelords_overflowGenesis : sendPeakToTimelords defaultConstants (blockCache overflowGenesisCache)
    sampleBlockchainTools.H (some overflowGenesisRecord) overflowGenesis = .ok overflowGenesisPeak := by
  decide +kernel

/-- After the genesis block no sub-epoch can finish, and the timelord has no summary to include. -/
theorem getNextSubEpochSummary_eq_overflowGenesis : ∃ s',
    (LastState.initial defaultConstants).setState sampleBlockchainTools.H sampleBlockchainTools.V defaultConstants
        (.inl overflowGenesisPeak) = .ok s' ∧
      s'.getNextSubEpochSummary = none ∧ s'.getNextSubEpochSummary.isSome = false ∧
      (false = true ↔ s'.passedSesHeightButNotYetIncluded = true ∧ s'.deficit = 0) := by
  cases hset : (LastState.initial defaultConstants).setState sampleBlockchainTools.H sampleBlockchainTools.V
      defaultConstants (.inl overflowGenesisPeak) with
  | error e =>
    have hok : ((LastState.initial defaultConstants).setState sampleBlockchainTools.H sampleBlockchainTools.V
      defaultConstants (.inl overflowGenesisPeak)).toOption.isSome = true := by decide +kernel
    rw [hset] at hok
    cases hok
  | ok s' =>
    have hepoch : heightAndEpoch defaultConstants (blockCache overflowGenesisCache).records
        (some overflowGenesisRecord) true 0 0 = .ok (1, false, false) := by decide +kernel
    exact ⟨s', rfl, getNextSubEpochSummary_eq (l := []) acceptedChain_overflowGenesis
      ancestorsPresent_overflowGenesis (by decide +kernel) sendPeakToTimelords_overflowGenesis hset hepoch⟩

end Agree

end Chives
