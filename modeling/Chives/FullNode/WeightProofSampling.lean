import Mathlib.Data.List.TakeWhile
import Chives.Library.OrderedDict
import Chives.Types.WeightProof
import Chives.Util.Ints

set_option autoImplicit false

/-!
# Sampled sub-epochs and their segments

The part of `full_node/weight_proof.py` that decides which sub-epochs of a weight proof have to be
covered by segments, whether they are, and which segments belong to which sub-epoch.

## Main definitions

* `RandomSource` — the pseudo-random numbers of a proof, and the floating point arithmetic
  that turns them into weights.
* `sampledSubEpochs`, `validateSubEpochSampling` — the sub-epochs to cover, and the
  check that they are covered.
* `mapSegmentsBySubEpoch` — the segments of each sub-epoch.
* `OwnGroup`, `InOrderAt` — a sub-epoch has a group of its own; the labels are in order
  around it.

## Main results

* `sampled_ownGroup_iff` — in a proof that passes the check, every sampled sub-epoch has its
  own group exactly when the labels are in order around it.

## Design

`_get_weights_for_sampling` draws floating point numbers and takes logarithms, so it is a parameter;
nothing is assumed of the weights it returns. A dictionary whose values are all `True` is the list
of its keys.
-/

namespace Chives

open ExceptRun

/-- `random.Random` and what is drawn from it: `_get_weights_for_sampling`, whose result is `None`
when every sub-epoch has to be sampled, and `choice(range(n))`. Both return the state after. -/
structure RandomSource where
  State : Type
  seed : Bytes32 → State
  weightsForSampling : State → ℕ → List HeaderBlock → Except PyError (Option (List ℕ) × State)
  choice : State → ℕ → ℕ × State

/-- `WeightProofHandler.MAX_SAMPLES`. -/
def maxSamples : ℕ := 20

/-! ## The check -/

/-- The loop of `_sample_sub_epoch`: whether the first weight after the start is before the end. -/
def weightBetween (startWeight endWeight : ℕ) : List ℕ → Bool
  | [] => false
  | weight :: rest =>
    if weight > endWeight then false
    else if startWeight < weight ∧ weight < endWeight then true
    else weightBetween startWeight endWeight rest

/-- `_sample_sub_epoch`. -/
def sampleSubEpoch (startWeight endWeight : ℕ) (weightToCheck : Option (List ℕ)) :
    Except PyError Bool :=
  match weightToCheck with
  | none => .ok true
  | some weights => do
    let last ← pyLast weights
    if last < startWeight then return false
    else do
      let first ← pyIndex weights 0
      if first > endWeight then return false
      else return weightBetween startWeight endWeight weights

/-- The loop that samples sub-epochs: the interval of each, the number of the first and the
sub-epochs sampled before it. -/
def sampleLoop (weightToCheck : Option (List ℕ)) :
    ℕ → List (ℕ × ℕ) → List ℕ → Except PyError (List ℕ)
  | _, [], sampled => .ok sampled
  | n, interval :: rest, sampled => do
    if ← sampleSubEpoch interval.1 interval.2 weightToCheck then
      if (sampled ++ [n]).length = maxSamples then return sampled ++ [n]
      else sampleLoop weightToCheck (n + 1) rest (sampled ++ [n])
    else sampleLoop weightToCheck (n + 1) rest sampled

/-- The sub-epochs that are selected, with the state of the random source after the selection. -/
def sampledSubEpochs (R : RandomSource) (rng : R.State) (subEpochWeightList : List ℕ)
    (wp : WeightProof) : Except PyError (List ℕ × R.State) := do
  let tip ← pyLast wp.recentChainData
  let (weightToCheck, rng) ← R.weightsForSampling rng tip.weight wp.recentChainData
  let sampled ← sampleLoop weightToCheck 0 (subEpochWeightList.zip subEpochWeightList.tail) []
  return (sampled, rng)

/-- The loop over the segments that strikes off the sub-epochs they cover; `curr` is the label of
the segment before. -/
def strikeOff : ℤ → List SubEpochChallengeSegment → List ℕ → List ℕ
  | _, [], sampled => sampled
  | curr, segment :: rest, sampled =>
    strikeOff segment.subEpochN rest
      (if curr < segment.subEpochN then sampled.filter (· ≠ segment.subEpochN) else sampled)

/-- `validate_sub_epoch_sampling`. -/
def validateSubEpochSampling (R : RandomSource) (rng : R.State) (subEpochWeightList : List ℕ)
    (wp : WeightProof) : Except PyError (Bool × R.State) := do
  let (sampled, rng) ← sampledSubEpochs R rng subEpochWeightList wp
  return (decide (strikeOff (-1) wp.subEpochSegments sampled = []), rng)

/-! ## The groups -/

/-- The loop of `map_segments_by_sub_epoch`; `curr` is the largest label so far. -/
def groupLoop : ℤ → OrderedDict ℤ (List SubEpochChallengeSegment) → List SubEpochChallengeSegment →
    Except PyError (OrderedDict ℤ (List SubEpochChallengeSegment))
  | _, groups, [] => .ok groups
  | curr, groups, segment :: rest =>
    if curr < segment.subEpochN then
      groupLoop segment.subEpochN (groups.set segment.subEpochN [segment]) rest
    else
      match groups.get? curr with
      | some group => groupLoop curr (groups.set curr (group ++ [segment])) rest
      | none => .error .keyError

/-- `map_segments_by_sub_epoch`. -/
def mapSegmentsBySubEpoch (segments : List SubEpochChallengeSegment) :
    Except PyError (OrderedDict ℤ (List SubEpochChallengeSegment)) :=
  groupLoop (-1) OrderedDict.empty segments

/-- The segments filed under a label that is larger than those before: the first segment that is not
labelled with a smaller number, if it has this label, and what follows it up to a larger one. -/
def groupOf (k : ℤ) (segments : List SubEpochChallengeSegment) :
    Option (List SubEpochChallengeSegment) :=
  match segments.dropWhile fun s => decide ((s.subEpochN : ℤ) < k) with
  | [] => none
  | s :: rest =>
    if (s.subEpochN : ℤ) = k then
      some (s :: rest.takeWhile fun s => decide ((s.subEpochN : ℤ) ≤ k))
    else none

/-- The loop leaves the groups before the current one alone, completes the current one, and makes
the later ones.

**Proof sketch.** Induction on the segments. One with a larger label closes the current group and
opens its own; any other is appended to the current group. -/
lemma groupLoop_eq_ok (segments : List SubEpochChallengeSegment) (curr : ℤ)
    (groups : OrderedDict ℤ (List SubEpochChallengeSegment))
    (group : List SubEpochChallengeSegment) (hcurr : groups.get? curr = some group)
    (hlater : ∀ k, curr < k → groups.get? k = none) :
    ∃ groups', groupLoop curr groups segments = .ok groups' ∧
      (∀ k, k < curr → groups'.get? k = groups.get? k) ∧
      groups'.get? curr =
        some (group ++ segments.takeWhile fun s => decide ((s.subEpochN : ℤ) ≤ curr)) ∧
      ∀ k, curr < k → groups'.get? k = groupOf k segments := by
  induction segments generalizing curr groups group with
  | nil =>
    refine ⟨groups, rfl, fun k _ => rfl, ?_, fun k hk => ?_⟩
    · rw [hcurr, List.takeWhile_nil, List.append_nil]
    · rw [hlater k hk]
      rfl
  | cons s rest ih =>
    by_cases hs : curr < s.subEpochN
    · -- the segment opens a group
      have hset : ∀ k, (groups.set s.subEpochN [s]).get? k =
          if k = s.subEpochN then some [s] else groups.get? k := fun k =>
        OrderedDict.get?_set groups _ _ k
      obtain ⟨groups', hrun, hbefore, hown, hafter⟩ := ih (s.subEpochN : ℤ)
        (groups.set s.subEpochN [s]) [s] (by rw [hset, if_pos rfl]) fun k hk => by
          rw [hset, if_neg (by omega)]
          exact hlater k (by omega)
      refine ⟨groups', ?_, fun k hk => ?_, ?_, fun k hk => ?_⟩
      · rw [groupLoop, if_pos hs, hrun]
      · rw [hbefore k (by omega), hset, if_neg (by omega)]
      · rw [hbefore curr hs, hset, if_neg (by omega), hcurr,
          List.takeWhile_cons_of_neg (by simpa using hs), List.append_nil]
      · rcases lt_trichotomy k s.subEpochN with hlt | rfl | hgt
        · rw [hbefore k hlt, hset, if_neg (by omega), hlater k hk, groupOf,
            List.dropWhile_cons_of_neg (by simp; omega)]
          exact (if_neg (by omega)).symm
        · rw [hown, groupOf, List.dropWhile_cons_of_neg (by simp)]
          exact (if_pos rfl).symm
        · rw [hafter k hgt, groupOf, groupOf, List.dropWhile_cons_of_pos (by simpa using hgt)]
    · -- the segment goes to the current group
      have hset : ∀ k, (groups.set curr (group ++ [s])).get? k =
          if k = curr then some (group ++ [s]) else groups.get? k := fun k =>
        OrderedDict.get?_set groups _ _ k
      obtain ⟨groups', hrun, hbefore, hown, hafter⟩ := ih curr (groups.set curr (group ++ [s]))
        (group ++ [s]) (by rw [hset, if_pos rfl]) fun k hk => by
          rw [hset, if_neg (by omega)]
          exact hlater k hk
      refine ⟨groups', ?_, fun k hk => ?_, ?_, fun k hk => ?_⟩
      · rw [groupLoop, if_neg hs, hcurr]
        exact hrun
      · rw [hbefore k hk, hset, if_neg (by omega)]
      · rw [hown, List.takeWhile_cons_of_pos (by simpa using hs), List.append_assoc]
        rfl
      · rw [hafter k hk, groupOf, groupOf, List.dropWhile_cons_of_pos (by simp; omega)]

lemma mapSegmentsBySubEpoch_eq_ok (segments : List SubEpochChallengeSegment) :
    ∃ groups, mapSegmentsBySubEpoch segments = .ok groups ∧
      ∀ k : ℕ, groups.get? k = groupOf k segments := by
  cases segments with
  | nil => exact ⟨OrderedDict.empty, rfl, fun k => rfl⟩
  | cons s rest =>
    have hset : ∀ k, ((OrderedDict.empty : OrderedDict ℤ _).set s.subEpochN [s]).get? k =
        if k = s.subEpochN then some [s] else none := fun k => OrderedDict.get?_set _ _ _ k
    obtain ⟨groups, hrun, hbefore, hown, hafter⟩ := groupLoop_eq_ok rest (s.subEpochN : ℤ)
      ((OrderedDict.empty : OrderedDict ℤ _).set s.subEpochN [s]) [s] (by rw [hset, if_pos rfl])
      fun k hk => by rw [hset, if_neg (by omega)]
    refine ⟨groups, ?_, fun k => ?_⟩
    · rw [mapSegmentsBySubEpoch, groupLoop, if_pos (by omega), hrun]
    · rcases lt_trichotomy (k : ℤ) s.subEpochN with hlt | heq | hgt
      · rw [hbefore k hlt, hset, if_neg (by omega), groupOf,
          List.dropWhile_cons_of_neg (by simp; omega)]
        exact (if_neg (by omega)).symm
      · rw [heq, hown, groupOf, List.dropWhile_cons_of_neg (by simp)]
        exact (if_pos rfl).symm
      · rw [hafter k hgt, groupOf, groupOf, List.dropWhile_cons_of_pos (by simpa using hgt)]

/-! ## Coverage -/

/-- The sub-epoch has a group of its own, to which only its segments belong: the loop of
`_validate_sub_epoch_segments` over the items checks them against the summary, the difficulty and
the iterations of this sub-epoch. -/
def OwnGroup (segments : List SubEpochChallengeSegment) (k : ℕ) : Prop :=
  ∃ groups group, mapSegmentsBySubEpoch segments = .ok groups ∧
    ((k : ℤ), group) ∈ groups.entries ∧ group ≠ [] ∧ ∀ s ∈ group, s.subEpochN = k

/-- The labels are in order around a sub-epoch: before its first segment there are smaller labels
only, and from there to the next larger label there is no other label. -/
def InOrderAt (segments : List SubEpochChallengeSegment) (k : ℕ) : Prop :=
  (∀ s ∈ segments.takeWhile (fun s => decide (s.subEpochN ≠ k)), s.subEpochN < k) ∧
    ∀ s ∈ (segments.dropWhile fun s => decide (s.subEpochN ≠ k)).takeWhile
      (fun s => decide (s.subEpochN ≤ k)), s.subEpochN = k

variable {segments : List SubEpochChallengeSegment} {k : ℕ}

lemma ownGroup_iff_groupOf :
    OwnGroup segments k ↔ ∃ group, groupOf k segments = some group ∧
      ∀ s ∈ group, s.subEpochN = k := by
  obtain ⟨groups, hrun, hget⟩ := mapSegmentsBySubEpoch_eq_ok segments
  constructor
  · rintro ⟨groups', group, hrun', hmem, -, hall⟩
    obtain rfl := Except.ok.inj (hrun.symm.trans hrun')
    exact ⟨group, by rw [← hget, OrderedDict.get?_eq_some.mpr hmem], hall⟩
  · rintro ⟨group, hgroup, hall⟩
    refine ⟨groups, group, hrun, OrderedDict.get?_eq_some.mp ((hget k).trans hgroup), ?_, hall⟩
    rintro rfl
    rw [groupOf] at hgroup
    split at hgroup
    · cases hgroup
    · split at hgroup
      · cases Option.some.inj hgroup
      · cases hgroup

/-- A sub-epoch has its own group exactly when it has segments and the labels are in order around
it.

**Proof sketch.** Induction on the segments: a smaller label changes nothing on either side, the
sub-epoch's own label starts its group, and a larger label leaves the sub-epoch without a group. -/
lemma ownGroup_iff : OwnGroup segments k ↔ (∃ s ∈ segments, s.subEpochN = k) ∧ InOrderAt segments k := by
  rw [ownGroup_iff_groupOf]
  induction segments with
  | nil => simp [groupOf]
  | cons s rest ih =>
    rcases lt_trichotomy s.subEpochN k with hlt | rfl | hgt
    · have hgroup : groupOf k (s :: rest) = groupOf k rest := by
        rw [groupOf, groupOf, List.dropWhile_cons_of_pos (by simpa using hlt)]
      have horder : InOrderAt (s :: rest) k ↔ InOrderAt rest k := by
        rw [InOrderAt, InOrderAt, List.takeWhile_cons_of_pos (by simp; omega),
          List.dropWhile_cons_of_pos (by simp; omega)]
        simp [hlt]
      have hmem : (∃ x ∈ s :: rest, x.subEpochN = k) ↔ ∃ x ∈ rest, x.subEpochN = k := by
        simp [hlt.ne]
      rw [hgroup, horder, hmem, ih]
    · have hgroup : groupOf s.subEpochN (s :: rest) =
          some (s :: rest.takeWhile fun x => decide (x.subEpochN ≤ s.subEpochN)) := by
        simp [groupOf]
      rw [hgroup, InOrderAt, List.takeWhile_cons_of_neg (by simp),
        List.dropWhile_cons_of_neg (by simp), List.takeWhile_cons_of_pos (by simp)]
      simp
    · have hgroup : groupOf k (s :: rest) = none := by
        rw [groupOf, List.dropWhile_cons_of_neg (by simp; omega)]
        exact if_neg (by omega)
      have horder : ¬InOrderAt (s :: rest) k := by
        intro h
        have hlt := h.1 s (by
          rw [List.takeWhile_cons_of_pos (by simp; omega)]
          exact List.mem_cons_self)
        omega
      simp [hgroup, horder]

variable {sampled : List ℕ}

lemma exists_segment_of_notMem_strikeOff {curr : ℤ} (hk : k ∈ sampled)
    (hstruck : k ∉ strikeOff curr segments sampled) : ∃ s ∈ segments, s.subEpochN = k := by
  induction segments generalizing curr sampled with
  | nil => exact absurd hk hstruck
  | cons s rest ih =>
    by_cases hs : s.subEpochN = k
    · exact ⟨s, List.mem_cons_self, hs⟩
    · have hkeep : k ∈ (if curr < s.subEpochN then sampled.filter (· ≠ s.subEpochN) else sampled) := by
        split
        · exact List.mem_filter.mpr ⟨hk, by simpa using Ne.symm hs⟩
        · exact hk
      obtain ⟨x, hx, hxk⟩ := ih hkeep hstruck
      exact ⟨x, List.mem_cons_of_mem _ hx, hxk⟩

lemma exists_segment_of_sampled {R : RandomSource} {rng rng₁ rng₂ : R.State} {subEpochWeightList : List ℕ}
    {wp : WeightProof} (hpass : validateSubEpochSampling R rng subEpochWeightList wp = .ok (true, rng₁))
    (hsampled : sampledSubEpochs R rng subEpochWeightList wp = .ok (sampled, rng₂)) (hk : k ∈ sampled) :
    ∃ s ∈ wp.subEpochSegments, s.subEpochN = k := by
  rw [validateSubEpochSampling, hsampled, ok_bind] at hpass
  have hempty : strikeOff (-1) wp.subEpochSegments sampled = [] :=
    of_decide_eq_true (Prod.mk.inj (Except.ok.inj hpass)).1
  have hstruck : k ∉ strikeOff (-1) wp.subEpochSegments sampled := by
    rw [hempty]
    exact List.not_mem_nil
  exact exists_segment_of_notMem_strikeOff hk hstruck

/-- **Coverage of the sampled sub-epochs.** In a proof that passes `validate_sub_epoch_sampling`,
every sub-epoch selected for sampling has its own non-empty group, of segments labelled with it,
exactly when the labels are in order around every selected sub-epoch: no larger label before its
first segment, and no other label from there to the next larger one. -/
theorem sampled_ownGroup_iff (R : RandomSource) (rng rng₁ rng₂ : R.State)
    (subEpochWeightList : List ℕ) (wp : WeightProof) (sampled : List ℕ)
    (hpass : validateSubEpochSampling R rng subEpochWeightList wp = .ok (true, rng₁))
    (hsampled : sampledSubEpochs R rng subEpochWeightList wp = .ok (sampled, rng₂)) :
    (∀ k ∈ sampled, OwnGroup wp.subEpochSegments k) ↔
      ∀ k ∈ sampled, InOrderAt wp.subEpochSegments k := by
  constructor
  · intro h k hk
    exact (ownGroup_iff.mp (h k hk)).2
  · intro h k hk
    exact ownGroup_iff.mpr ⟨exists_segment_of_sampled hpass hsampled hk, h k hk⟩

/-! ## Sample proofs -/

/-- A header of which the height, the weight and the finished sub-slots matter. -/
def plainHeader (height weight : ℕ) (slots : List EndOfSubSlotBundle) : HeaderBlock where
  finishedSubSlots := slots
  rewardChainBlock :=
    { weight := weight
      height := height
      totalIters := 0
      signagePointIndex := 0
      posSsCcChallengeHash := Bytes32.ofNat 0
      proofOfSpace := ⟨Bytes32.ofNat 0, none, none, [], 0, []⟩
      challengeChainSpVdf := none
      challengeChainSpSignature := []
      challengeChainIpVdf := ⟨Bytes32.ofNat 0, 0, []⟩
      rewardChainSpVdf := none
      rewardChainSpSignature := []
      rewardChainIpVdf := ⟨Bytes32.ofNat 0, 0, []⟩
      infusedChallengeChainIpVdf := none
      isTransactionBlock := false }
  challengeChainSpProof := none
  challengeChainIpProof := ⟨0, [], false⟩
  rewardChainSpProof := none
  rewardChainIpProof := ⟨0, [], false⟩
  infusedChallengeChainIpProof := none
  foliage :=
    { prevBlockHash := Bytes32.ofNat 0
      rewardBlockHash := Bytes32.ofNat 0
      foliageBlockData := ⟨Bytes32.ofNat 0, ⟨Bytes32.ofNat 0, 0⟩, none, Bytes32.ofNat 0,
        Bytes32.ofNat 0, Bytes32.ofNat 0⟩
      foliageBlockDataSignature := []
      foliageTransactionBlockHash := none
      foliageTransactionBlockSignature := none }
  foliageTransactionBlock := none
  transactionsFilter := []
  transactionsInfo := none

/-- The random source of a proof whose recent blocks carry more than half of the weight: the
adversary cannot catch up, and every sub-epoch is sampled. -/
def sampleAll : RandomSource where
  State := Unit
  seed := fun _ => ()
  weightsForSampling := fun _ _ _ => .ok (none, ())
  choice := fun _ _ => (0, ())

/-- A proof with one segment for each of the given labels. -/
def labelledProof (labels : List ℕ) : WeightProof where
  subEpochs := []
  subEpochSegments := labels.map fun n => ⟨n, [], none⟩
  recentChainData := [plainHeader 0 7 [], plainHeader 1600 11200 []]

/-- The weights at which the first four sub-epochs of a chain start. -/
def fourWeights : List ℕ := [7, 2695, 5383, 8071]

/-- The labels of the segments may go down and up again: the segment of sub-epoch 1 is struck off
the list, but it is filed under sub-epoch 2, and sub-epoch 1 has no group. -/
theorem not_sampled_ownGroup :
    ¬∀ (R : RandomSource) (rng rng₁ rng₂ : R.State) (subEpochWeightList : List ℕ) (wp : WeightProof)
      (sampled : List ℕ),
      validateSubEpochSampling R rng subEpochWeightList wp = .ok (true, rng₁) →
      sampledSubEpochs R rng subEpochWeightList wp = .ok (sampled, rng₂) →
      ∀ k ∈ sampled, OwnGroup wp.subEpochSegments k := by
  intro h
  have hown := h sampleAll () () () fourWeights (labelledProof [0, 2, 0, 1]) [0, 1, 2] rfl rfl 1
    (by decide)
  have horder := (ownGroup_iff.mp hown).2.1 ⟨2, [], none⟩ (by decide)
  exact absurd horder (by decide)

/-- A proof whose labels go up covers the sampled sub-epochs. -/
theorem sampled_ownGroup_iff_goingUp :
    validateSubEpochSampling sampleAll () fourWeights (labelledProof [0, 0, 1, 2, 2]) =
      .ok (true, ()) ∧
    ((∀ k ∈ [0, 1, 2], OwnGroup (labelledProof [0, 0, 1, 2, 2]).subEpochSegments k) ↔
      ∀ k ∈ [0, 1, 2], InOrderAt (labelledProof [0, 0, 1, 2, 2]).subEpochSegments k) :=
  ⟨rfl, sampled_ownGroup_iff sampleAll () () () fourWeights (labelledProof [0, 0, 1, 2, 2]) [0, 1, 2]
    rfl rfl⟩

end Chives
