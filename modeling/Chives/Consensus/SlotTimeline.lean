import Chives.Consensus.AcceptedChain
import Chives.Consensus.IterationArithmetic
import Chives.Consensus.SubEpochOverflow

set_option autoImplicit false

/-!
# The sub slots of a chain

Sub slots follow each other without a gap: the first one starts at total iterations 0, and each of
the bundles that a block carries ends a sub slot. A block lies in the sub slot that starts where its
last bundle, or the last one of an ancestor, ends. This is nowhere written down in the source, which
walks back along the records instead.

## Main definitions

* `slotEnds`, `slotEnd` — when the bundles of a chain end, and when the sub slot of its
  last block does.
* `Placed` — where steps 9 and 10 of header validation place a block after its parent.
* `Follows` — what holds of a block after the blocks before it.

## Main results

* `placed_of_checks` — a block that passes steps 9 and 10 is placed after its parent.
* `AcceptedChain.follows` — what holds of every block of a chain.
* `AcceptedChain.slotPart` — the blocks of one sub slot.
-/

namespace Chives

open ExceptRun BlockRecords

/-! ## The ends of sub slots -/

/-- Bundles with the total iterations at which they end: the first ends at `next`, and each of the
others `subSlotIters` later. -/
def endsFrom (next subSlotIters : ℕ) : List EndOfSubSlotBundle → List (ℕ × EndOfSubSlotBundle)
  | [] => []
  | slot :: slots => (next, slot) :: endsFrom (next + subSlotIters) subSlotIters slots

/-- When the sub slot of the last of some blocks ends, where the one before them ends at `next`. -/
def slotEndFrom (next : ℕ) : List Entry → ℕ
  | [] => next
  | e :: es => slotEndFrom (next + e.1.finishedSubSlots.length * e.2.subSlotIters) es

/-- When the bundles of some blocks end, where the sub slot before them ends at `next`. -/
def slotEndsFrom (next : ℕ) : List Entry → List (ℕ × EndOfSubSlotBundle)
  | [] => []
  | e :: es => endsFrom next e.2.subSlotIters e.1.finishedSubSlots ++
      slotEndsFrom (next + e.1.finishedSubSlots.length * e.2.subSlotIters) es

/-- When the sub slot of the last block of a chain ends. -/
def slotEnd (constants : ConsensusConstants) (es : List Entry) : ℕ :=
  slotEndFrom constants.SUB_SLOT_ITERS_STARTING es

/-- The bundles of a chain, oldest first, with the total iterations at which they end. -/
def slotEnds (constants : ConsensusConstants) (es : List Entry) : List (ℕ × EndOfSubSlotBundle) :=
  slotEndsFrom constants.SUB_SLOT_ITERS_STARTING es

section Ends

variable {constants : ConsensusConstants} {es es' : List Entry} {e : Entry}
  {slots slots' : List EndOfSubSlotBundle} {next subSlotIters : ℕ}

lemma endsFrom_append : endsFrom next subSlotIters (slots ++ slots') =
    endsFrom next subSlotIters slots ++
      endsFrom (next + slots.length * subSlotIters) subSlotIters slots' := by
  induction slots generalizing next with
  | nil => simp [endsFrom]
  | cons slot slots ih =>
    rw [List.cons_append, endsFrom, ih, endsFrom, List.cons_append, List.length_cons]
    congr 3
    ring

lemma slotEndsFrom_append : slotEndsFrom next (es ++ es') =
    slotEndsFrom next es ++ slotEndsFrom (slotEndFrom next es) es' := by
  induction es generalizing next with
  | nil => rfl
  | cons e es ih => rw [List.cons_append, slotEndsFrom, ih, slotEndsFrom, slotEndFrom, List.append_assoc]

lemma slotEndFrom_append : slotEndFrom next (es ++ es') = slotEndFrom (slotEndFrom next es) es' := by
  induction es generalizing next with
  | nil => rfl
  | cons e es ih => rw [List.cons_append, slotEndFrom, ih, slotEndFrom]

lemma slotEnd_concat : slotEnd constants (es ++ [e]) =
    slotEnd constants es + e.1.finishedSubSlots.length * e.2.subSlotIters :=
  slotEndFrom_append

lemma slotEnds_concat : slotEnds constants (es ++ [e]) =
    slotEnds constants es ++ endsFrom (slotEnd constants es) e.2.subSlotIters e.1.finishedSubSlots := by
  rw [slotEnds, slotEndsFrom_append]
  congr 1
  exact List.append_nil _

lemma le_slotEndFrom : next ≤ slotEndFrom next es := by
  induction es generalizing next with
  | nil => exact le_rfl
  | cons e es ih => exact le_trans (Nat.le_add_right _ _) ih

lemma slotEnd_le_append : slotEnd constants es ≤ slotEnd constants (es ++ es') := by
  rw [slotEnd, slotEnd, slotEndFrom_append]
  exact le_slotEndFrom

variable {x : ℕ × EndOfSubSlotBundle}

/-- Bundles end between `next` and the start of the sub slot after them. -/
lemma le_of_mem_endsFrom (hx : x ∈ endsFrom next subSlotIters slots) :
    next ≤ x.1 ∧ x.1 + subSlotIters ≤ next + slots.length * subSlotIters := by
  induction slots generalizing next with
  | nil => cases hx
  | cons slot slots ih =>
    rw [List.length_cons, Nat.succ_mul]
    rcases List.mem_cons.mp hx with rfl | hx
    · exact ⟨le_rfl, by omega⟩
    · have := ih hx
      omega

lemma le_of_mem_slotEndsFrom (hx : x ∈ slotEndsFrom next es) : next ≤ x.1 ∧ x.1 ≤ slotEndFrom next es := by
  induction es generalizing next with
  | nil => cases hx
  | cons e es ih =>
    rw [slotEndsFrom, List.mem_append] at hx
    rcases hx with hx | hx
    · have hends := le_of_mem_endsFrom hx
      have hle := @le_slotEndFrom es (next + e.1.finishedSubSlots.length * e.2.subSlotIters)
      rw [slotEndFrom]
      omega
    · have hends := ih hx
      rw [slotEndFrom]
      omega

end Ends

/-! ## Where a block is placed -/

/-- The place of a block in the sub slots after its parent: `n` sub slots end between the two, its
sub slot has `subSlotIters` iterations, its signage point is at `spTotalIters` and its infusion point
at `totalIters`. -/
structure Placed (constants : ConsensusConstants) (prevB : Option BlockRecord)
    (n subSlotIters interval signagePointIndex requiredIters ip spTotalIters totalIters : ℕ)
    (overflow : Bool) : Prop where
  interval_eq : calculateSpIntervalIters constants subSlotIters = .ok interval
  infusion : IpIters constants interval signagePointIndex requiredIters ip
  overflow_eq : overflow = decide (constants.NUM_SPS_SUB_SLOT ≤
    signagePointIndex + constants.NUM_SP_INTERVALS_EXTRA)
  genesis : prevB = none → subSlotIters = constants.SUB_SLOT_ITERS_STARTING ∧
    totalIters = n * subSlotIters + ip
  inSlot : ∀ p, prevB = some p → n = 0 → ∃ ipp, p.ipIters constants = .ok ipp ∧
    totalIters + ipp = p.totalIters + ip
  newSlot : ∀ p, prevB = some p → 0 < n → ∃ ipp, p.ipIters constants = .ok ipp ∧
    totalIters + ipp + subSlotIters = p.totalIters + p.subSlotIters + n * subSlotIters + ip
  same : ∀ p, prevB = some p → n = 0 ∨ overflow = true ∧ n = 1 → subSlotIters = p.subSlotIters
  sp : spTotalIters + ip + (if overflow then subSlotIters else 0) =
    totalIters + interval * signagePointIndex
  fits : totalIters < 2 ^ 128

variable {signagePointIndex : ℕ}

section Checks

variable {constants : ConsensusConstants} {blocks : BlockchainInterface} {prevB : Option BlockRecord}
  {p : BlockRecord} {n subSlotIters difficulty : ℕ}

/-- The start of the sub slot of a block. -/
lemma slotStartTotalIters_eq_ok {start : ℕ}
    (h : slotStartTotalIters constants prevB subSlotIters n = .ok start) :
    (prevB = none → start = n * subSlotIters) ∧
      (∀ p, prevB = some p → n = 0 → ∃ ipp, p.ipIters constants = .ok ipp ∧
        start + ipp = p.totalIters) ∧
      ∀ p, prevB = some p → 0 < n → ∃ ipp, p.ipIters constants = .ok ipp ∧
        start + ipp + subSlotIters = p.totalIters + p.subSlotIters + n * subSlotIters := by
  cases prevB with
  | none =>
    rw [slotStartTotalIters] at h
    have hstart := (uintN_eq_ok.mp h).1
    refine ⟨fun _ => ?_, fun q hq => absurd hq (by simp), fun q hq => absurd hq (by simp)⟩
    rw [mul_comm] at hstart
    exact_mod_cast hstart.symm
  | some p =>
    obtain ⟨ipp, hipp, h⟩ := bind_eq_ok.mp h
    refine ⟨fun hnone => absurd hnone (by simp), fun q hq hn => ?_, fun q hq hn => ?_⟩
    · obtain rfl := Option.some.inj hq
      rw [if_neg (by omega)] at h
      have hstart := (uintN_eq_ok.mp h).1
      exact ⟨ipp, hipp, by omega⟩
    · obtain rfl := Option.some.inj hq
      rw [if_pos hn] at h
      obtain ⟨first, hfirst, h⟩ := bind_eq_ok.mp h
      have hfirst := (uintN_eq_ok.mp hfirst).1
      have hstart := (uintN_eq_ok.mp h).1
      refine ⟨ipp, hipp, ?_⟩
      have hcast : ((n : ℤ) - 1) * subSlotIters = n * subSlotIters - subSlotIters := by ring
      rw [mul_comm, hcast] at hstart
      omega

variable {newSlot : Bool}

lemma getNext_eq_ok
    (h : getNextSubSlotItersAndDifficulty constants newSlot (some p) blocks = .ok (subSlotIters, difficulty)) :
    ∃ before, prevDifficulty blocks.records p = .ok before ∧ (subSlotIters = p.subSlotIters ∧ difficulty = before ∨
      p.subEpochSummaryIncluded.isSome = false ∧ ∃ spTotalIters,
        getNextDifficulty constants blocks p.prevHash p.height before p.deficit false newSlot spTotalIters false =
          .ok difficulty ∧
        getNextSubSlotIters constants blocks p.prevHash p.height p.subSlotIters p.deficit false newSlot spTotalIters
          false = .ok subSlotIters) := by
  obtain ⟨before, hbefore, h⟩ := bind_eq_ok.mp h
  refine ⟨before, hbefore, ?_⟩
  split at h
  · obtain ⟨rfl, rfl⟩ := Prod.mk.inj (Except.ok.inj h)
    exact .inl ⟨rfl, rfl⟩
  · rename_i hses
    obtain ⟨spTotalIters, -, h⟩ := bind_eq_ok.mp h
    obtain ⟨d, hd, h⟩ := bind_eq_ok.mp h
    obtain ⟨iters, hiters, h⟩ := bind_eq_ok.mp h
    obtain ⟨rfl, rfl⟩ := Prod.mk.inj (Except.ok.inj h)
    exact .inr ⟨by simpa using hses, spTotalIters, hd, hiters⟩

/-- No epoch ends after a block: no sub slot does, or none may end. -/
def EpochGoesOn (constants : ConsensusConstants) (blocks : BlockRecords) (p : BlockRecord) (newSlot : Bool) : Prop :=
  newSlot = false ∨ ∃ canFinishSe, canFinishSubAndFullEpoch constants blocks p.height p.prevHash p.deficit
    p.subEpochSummaryIncluded.isSome = .ok (canFinishSe, false)

lemma EpochGoesOn.staysInEpoch {stays : Bool} (h : EpochGoesOn constants blocks.records p newSlot)
    (hses : p.subEpochSummaryIncluded.isSome = false)
    (hstays : staysInEpoch constants blocks.records p.prevHash p.height p.deficit false newSlot false = .ok stays) :
    stays = true := by
  obtain ⟨⟨se, epoch⟩, hcan, hstays⟩ := bind_eq_ok.mp hstays
  rcases h with rfl | ⟨se', hcan'⟩
  · exact (Except.ok.inj hstays).symm
  · rw [hses, hcan] at hcan'
    obtain ⟨-, rfl⟩ := Prod.mk.inj (Except.ok.inj hcan')
    simpa using (Except.ok.inj hstays).symm

lemma getNextSubSlotIters_eq_ok {current spTotalIters : ℕ} (hses : p.subEpochSummaryIncluded.isSome = false)
    (h : getNextSubSlotIters constants blocks p.prevHash p.height current p.deficit false newSlot spTotalIters false =
      .ok subSlotIters) :
    p.height + 1 < constants.EPOCH_BLOCKS ∧ subSlotIters = constants.SUB_SLOT_ITERS_STARTING ∨
      constants.EPOCH_BLOCKS ≤ p.height + 1 ∧
        (EpochGoesOn constants blocks.records p newSlot → subSlotIters = current) := by
  obtain ⟨nextHeight, hheight, h⟩ := bind_eq_ok.mp h
  have hheight := (uintN_eq_ok.mp hheight).1
  split at h
  · exact .inl ⟨by omega, (Except.ok.inj h).symm⟩
  · refine .inr ⟨by omega, fun hgoes => ?_⟩
    split at h
    · cases h
    · obtain ⟨stays, hstays, h⟩ := bind_eq_ok.mp h
      rw [if_pos (hgoes.staysInEpoch hses hstays)] at h
      exact (Except.ok.inj h).symm

lemma getNextDifficulty_eq_ok {current spTotalIters : ℕ} (hses : p.subEpochSummaryIncluded.isSome = false)
    (h : getNextDifficulty constants blocks p.prevHash p.height current p.deficit false newSlot spTotalIters false =
      .ok difficulty) :
    p.height + 1 + 3 * constants.MAX_SUB_SLOT_BLOCKS < constants.EPOCH_BLOCKS ∧
        difficulty = constants.DIFFICULTY_STARTING ∨
      constants.EPOCH_BLOCKS ≤ p.height + 1 + 3 * constants.MAX_SUB_SLOT_BLOCKS ∧
        (EpochGoesOn constants blocks.records p newSlot → difficulty = current) := by
  obtain ⟨nextHeight, hheight, h⟩ := bind_eq_ok.mp h
  have hheight := (uintN_eq_ok.mp hheight).1
  split at h
  · exact .inl ⟨by omega, (Except.ok.inj h).symm⟩
  · refine .inr ⟨by omega, fun hgoes => ?_⟩
    split at h
    · cases h
    · obtain ⟨stays, hstays, h⟩ := bind_eq_ok.mp h
      rw [if_pos (hgoes.staysInEpoch hses hstays)] at h
      exact (Except.ok.inj h).symm

lemma subSlotIters_eq_of_next
    (hnext : getNextSubSlotItersAndDifficulty constants newSlot (some p) blocks = .ok (subSlotIters, difficulty))
    (hstarting : p.height < constants.EPOCH_BLOCKS → p.subSlotIters = constants.SUB_SLOT_ITERS_STARTING)
    (hstays : EpochGoesOn constants blocks.records p newSlot) : subSlotIters = p.subSlotIters := by
  obtain ⟨_, -, ⟨hsame, -⟩ | ⟨hses, _, -, hiters⟩⟩ := getNext_eq_ok hnext
  · exact hsame
  · rcases getNextSubSlotIters_eq_ok hses hiters with ⟨hlow, hsame⟩ | ⟨-, hsame⟩
    · rw [hsame, hstarting (by omega)]
    · exact hsame hstays

lemma subSlotIters_eq_starting
    (hnext : getNextSubSlotItersAndDifficulty constants newSlot (some p) blocks = .ok (subSlotIters, difficulty))
    (hstarting : p.height < constants.EPOCH_BLOCKS → p.subSlotIters = constants.SUB_SLOT_ITERS_STARTING)
    (hlow : p.height + 1 < constants.EPOCH_BLOCKS) : subSlotIters = constants.SUB_SLOT_ITERS_STARTING := by
  obtain ⟨_, -, ⟨hsame, -⟩ | ⟨hses, _, -, hiters⟩⟩ := getNext_eq_ok hnext
  · rw [hsame, hstarting (by omega)]
  · rcases getNextSubSlotIters_eq_ok hses hiters with ⟨-, hsame⟩ | ⟨hlate, -⟩
    · exact hsame
    · omega

variable {canFinishSe canFinishEpoch : Bool}

lemma heightAndEpoch_newSlot {height expected : ℕ}
    (h : heightAndEpoch constants blocks.records (some p) true difficulty expected = .ok (height, canFinishSe, canFinishEpoch)) :
    canFinishSubAndFullEpoch constants blocks.records p.height p.prevHash p.deficit
      p.subEpochSummaryIncluded.isSome = .ok (canFinishSe, canFinishEpoch) := by
  unfold heightAndEpoch at h
  obtain ⟨_, -, h⟩ := bind_eq_ok.mp h
  rw [if_pos rfl] at h
  obtain ⟨⟨se, epoch⟩, hcan, h⟩ := bind_eq_ok.mp h
  have hpair := (Prod.mk.inj (Except.ok.inj h)).2
  rw [hcan, hpair]

variable {overflow : Bool} {spIters spTotalIters : ℕ}

lemma checkTotalIters_eq_ok {hb : UnfinishedHeaderBlock} {ip : ℕ}
    (h : checkTotalIters constants hb prevB overflow canFinishEpoch n subSlotIters spIters ip = .ok spTotalIters) :
    ¬(overflow = true ∧ canFinishEpoch = true ∧ n < 2) ∧
      ∃ start, slotStartTotalIters constants prevB subSlotIters n = .ok start ∧
        hb.totalIters = start + ip ∧ hb.totalIters < 2 ^ 128 ∧
        spTotalIters + (if overflow then subSlotIters else 0) = start + spIters := by
  unfold checkTotalIters at h
  obtain ⟨_, -, h⟩ := bind_eq_ok.mp h
  obtain ⟨_, hepoch, h⟩ := bind_eq_ok.mp h
  obtain ⟨start, hstart, h⟩ := bind_eq_ok.mp h
  obtain ⟨total, htotal, h⟩ := bind_eq_ok.mp h
  obtain ⟨_, hsame, h⟩ := bind_eq_ok.mp h
  obtain ⟨htotal, hfits⟩ := uintN_eq_ok.mp (raising_eq_ok.mp htotal)
  have hsp := (uintN_eq_ok.mp (raising_eq_ok.mp h)).1
  have hsame : total = hb.rewardChainBlock.totalIters := not_not.mp (rejectIf_eq_ok.mp hsame)
  refine ⟨rejectIf_eq_ok.mp hepoch, start, raising_eq_ok.mp hstart, ?_, ?_, ?_⟩
  · rw [UnfinishedHeaderBlock.totalIters, ← hsame]
    exact_mod_cast htotal.symm
  · rw [UnfinishedHeaderBlock.totalIters, ← hsame]
    exact hfits
  · omega

/-- A block that passes steps 9 and 10 with the parameters of `get_next_sub_slot_iters_and_difficulty`
is placed after its parent. -/
lemma placed_of_checks {hb : UnfinishedHeaderBlock} {height ip requiredIters : ℕ}
    (hnext : getNextSubSlotItersAndDifficulty constants newSlot prevB blocks = .ok (subSlotIters, difficulty))
    (hnew : newSlot = true → 0 < n) (hoverflow : isOverflowBlock constants signagePointIndex = .ok overflow)
    (hepoch : heightAndEpoch constants blocks.records prevB (decide (n > 0)) difficulty subSlotIters = .ok (height, canFinishSe, canFinishEpoch))
    (hsp : calculateSpIters constants subSlotIters signagePointIndex = .ok spIters)
    (hip : calculateIpIters constants subSlotIters signagePointIndex requiredIters = .ok ip)
    (htotal : checkTotalIters constants hb prevB overflow canFinishEpoch n subSlotIters spIters ip = .ok spTotalIters)
    (hstarting : ∀ p, prevB = some p → p.height < constants.EPOCH_BLOCKS → p.subSlotIters = constants.SUB_SLOT_ITERS_STARTING) :
    ∃ interval, Placed constants prevB n subSlotIters interval signagePointIndex requiredIters ip
      spTotalIters hb.totalIters overflow := by
  obtain ⟨interval, hinterval, hsp', hinfusion, -⟩ := calculateIpIters_eq_ok.mp hip
  obtain ⟨-, hflag⟩ := isOverflowBlock_eq_ok.mp hoverflow
  obtain ⟨hrule, start, hstart, hsum, hfits, hspTotal⟩ := checkTotalIters_eq_ok htotal
  obtain ⟨hgenesis, hin, hout⟩ := slotStartTotalIters_eq_ok hstart
  obtain rfl : spIters = interval * signagePointIndex := by
    rw [hsp] at hsp'
    exact Except.ok.inj hsp'
  refine ⟨interval, hinterval, hinfusion, hflag, fun hnone => ?_, fun p hp hn => ?_,
    fun p hp hn => ?_, fun p hp hn => ?_, ?_, hfits⟩
  · subst hnone
    refine ⟨(Prod.mk.inj (Except.ok.inj hnext)).1.symm, ?_⟩
    rw [hsum, hgenesis rfl]
  · obtain ⟨ipp, hipp, heq⟩ := hin p hp hn
    exact ⟨ipp, hipp, by omega⟩
  · obtain ⟨ipp, hipp, heq⟩ := hout p hp hn
    exact ⟨ipp, hipp, by omega⟩
  · subst hp
    refine subSlotIters_eq_of_next hnext (hstarting p rfl) ?_
    cases newSlot with
    | false => exact .inl rfl
    | true =>
      -- a sub slot has ended, so that this is an overflow block, and no epoch may end
      right
      have hpos := hnew rfl
      rcases hn with rfl | ⟨hover, rfl⟩
      · omega
      · have hcan := heightAndEpoch_newSlot hepoch
        have hfalse : canFinishEpoch = false := by
          by_contra htrue
          exact hrule ⟨hover, by simpa using htrue, by omega⟩
        rw [hfalse] at hcan
        exact ⟨canFinishSe, hcan⟩
  · rw [hsum]
    omega

end Checks

/-! ## The checks before the signage point -/

section Reaches

variable (H : Hashes) (V : Verifiers) (constants : ConsensusConstants)

/-- Header validation of `hb` reaches `get_signage_point_vdf_info`: the steps before it pass, and it is
called with `slots`, `overflow`, `spTotalIters` and `spIters`. By then `n` sub slots are known to end
between the parent and the block, and the proof of space has `requiredIters`. -/
structure ReachesSpVdf (blocks : BlockRecords) (hb : UnfinishedHeaderBlock)
    (expectedDifficulty expectedSubSlotIters : ℕ)
    (skipOverflowLastSsValidation skipVdfIsValid checkSubEpochSummary skipLast overflow : Bool)
    (slots : List EndOfSubSlotBundle) (n requiredIters spIters ipIters spTotalIters : ℕ) : Prop where
  prevB : ¬((blocks.get hb.prevHeaderHash).isNone ∧ hb.prevHeaderHash ≠ constants.GENESIS_CHALLENGE)
  overflow_eq : isOverflowBlock constants hb.rewardChainBlock.signagePointIndex = .ok overflow
  finished : finishedSubSlotsSincePrev blocks hb overflow expectedSubSlotIters
    skipOverflowLastSsValidation = .ok (skipLast, n)
  checks : ∃ height canFinishSe canFinishEpoch challenge,
    heightAndEpoch constants blocks (blocks.get hb.prevHeaderHash) (decide (n > 0)) expectedDifficulty
      expectedSubSlotIters = .ok (height, canFinishSe, canFinishEpoch) ∧
    checkFinishedSubSlots H V constants blocks (blocks.get hb.prevHeaderHash)
      (decide (n > 0) && !skipLast) canFinishSe canFinishEpoch expectedDifficulty expectedSubSlotIters
      skipVdfIsValid checkSubEpochSummary hb.finishedSubSlots = .ok () ∧
    challengeOfBlock H constants blocks hb (blocks.get hb.prevHeaderHash) (decide (n > 0)) overflow
      skipLast = .ok challenge ∧
    checkProofOfSpace H V constants hb challenge expectedDifficulty expectedSubSlotIters =
      .ok requiredIters ∧
    checkTotalIters constants hb (blocks.get hb.prevHeaderHash) overflow canFinishEpoch n
      expectedSubSlotIters spIters ipIters = .ok spTotalIters
  sp : calculateSpIters constants expectedSubSlotIters hb.rewardChainBlock.signagePointIndex = .ok spIters
  ip : calculateIpIters constants expectedSubSlotIters hb.rewardChainBlock.signagePointIndex
    requiredIters = .ok ipIters
  slots_eq : slots = if overflow && skipLast then hb.finishedSubSlots ++ [dummySubSlot]
    else hb.finishedSubSlots

variable {H V constants} {blocks : BlockRecords} {hb : UnfinishedHeaderBlock}
  {expectedDifficulty expectedSubSlotIters : ℕ} {checkFilter : Bool}

/-- A header that is valid reaches `get_signage_point_vdf_info`, which does not raise. -/
lemma reachesSpVdf_of_validate {skip skipVdf check : Bool} {now requiredIters : ℕ}
    (h : validateUnfinishedHeaderBlock H V constants blocks hb checkFilter expectedDifficulty expectedSubSlotIters skip skipVdf check now = .ok requiredIters) :
    ∃ skipLast overflow slots n spIters ipIters spTotalIters,
      ReachesSpVdf H V constants blocks hb expectedDifficulty expectedSubSlotIters skip skipVdf check
        skipLast overflow slots n requiredIters spIters ipIters spTotalIters ∧
      ∃ info, getSignagePointVdfInfo H constants slots overflow (blocks.get hb.prevHeaderHash) blocks
        spTotalIters spIters = .ok info := by
  unfold validateUnfinishedHeaderBlock at h
  obtain ⟨_, hprev, h⟩ := bind_eq_ok.mp h
  obtain ⟨overflow, hoverflow, h⟩ := bind_eq_ok.mp h
  obtain ⟨⟨skipLast, n⟩, hfinished, h⟩ := bind_eq_ok.mp h
  obtain ⟨⟨height, canFinishSe, canFinishEpoch⟩, hepoch, h⟩ := bind_eq_ok.mp h
  obtain ⟨⟨⟩, hslots, h⟩ := bind_eq_ok.mp h
  obtain ⟨challenge, hchallenge, h⟩ := bind_eq_ok.mp h
  obtain ⟨required, hproof, h⟩ := bind_eq_ok.mp h
  obtain ⟨_, hrest, h⟩ := bind_eq_ok.mp h
  obtain rfl : required = requiredIters := Except.ok.inj h
  unfold checkSignagePointAndFoliage at hrest
  obtain ⟨spIters, hsp, hrest⟩ := bind_eq_ok.mp hrest
  obtain ⟨ipIters, hip, hrest⟩ := bind_eq_ok.mp hrest
  obtain ⟨spTotalIters, htotal, hrest⟩ := bind_eq_ok.mp hrest
  obtain ⟨info, hinfo, -⟩ := bind_eq_ok.mp hrest
  exact ⟨skipLast, overflow, _, n, spIters, ipIters, spTotalIters,
    ⟨rejectIf_eq_ok.mp hprev, raising_eq_ok.mp hoverflow, raising_eq_ok.mp hfinished,
      ⟨height, canFinishSe, canFinishEpoch, challenge, raising_eq_ok.mp hepoch, hslots, hchallenge,
        hproof, htotal⟩, raising_eq_ok.mp hsp, raising_eq_ok.mp hip, rfl⟩,
    info, raising_eq_ok.mp hinfo⟩

lemma validateUnfinished_of_finished {header : HeaderBlock} {check : Bool} {now requiredIters : ℕ}
    (h : validateFinishedHeaderBlock H V constants blocks header checkFilter expectedDifficulty expectedSubSlotIters check now = .ok requiredIters) :
    validateUnfinishedHeaderBlock H V constants blocks header.unfinished checkFilter expectedDifficulty
      expectedSubSlotIters false false check now = .ok requiredIters := by
  unfold validateFinishedHeaderBlock at h
  obtain ⟨required, hunfinished, h⟩ := bind_eq_ok.mp h
  obtain ⟨_, -, h⟩ := bind_eq_ok.mp h
  obtain ⟨_, -, h⟩ := bind_eq_ok.mp h
  obtain ⟨_, -, h⟩ := bind_eq_ok.mp h
  obtain ⟨⟨_, _, _⟩, -, h⟩ := bind_eq_ok.mp h
  obtain ⟨_, -, h⟩ := bind_eq_ok.mp h
  obtain ⟨_, -, h⟩ := bind_eq_ok.mp h
  obtain ⟨_, -, h⟩ := bind_eq_ok.mp h
  obtain ⟨_, -, h⟩ := bind_eq_ok.mp h
  obtain ⟨_, -, h⟩ := bind_eq_ok.mp h
  rw [hunfinished, Except.ok.inj h]

variable {skip skipVdf check skipLast overflow : Bool} {slots : List EndOfSubSlotBundle}
  {n requiredIters spIters ipIters spTotalIters : ℕ}

/-- The number of sub slots since the parent counts those that the block carries, and one more if the
last one is missing. -/
lemma ReachesSpVdf.finished_eq (h : ReachesSpVdf H V constants blocks hb expectedDifficulty
      expectedSubSlotIters skip skipVdf check skipLast overflow slots n requiredIters spIters ipIters
      spTotalIters) :
    n = slots.length ∧ (skip = false → skipLast = false) := by
  have hfinished := h.finished
  have hslots := h.slots_eq
  unfold finishedSubSlotsSincePrev at hfinished
  cases skip with
  | false =>
    obtain ⟨rfl, rfl⟩ := Prod.mk.inj (Except.ok.inj hfinished)
    rw [Bool.and_false, if_neg Bool.false_ne_true] at hslots
    rw [hslots]
    simp
  | true =>
    cases overflow with
    | false =>
      obtain ⟨rfl, rfl⟩ := Prod.mk.inj (Except.ok.inj hfinished)
      rw [Bool.false_and, if_neg Bool.false_ne_true] at hslots
      rw [hslots]
      simp
    | true =>
      rw [Bool.and_self, if_pos rfl] at hfinished
      obtain ⟨included, -, hfinished⟩ := bind_eq_ok.mp hfinished
      have hpair := Except.ok.inj hfinished
      cases included with
      | true =>
        obtain ⟨rfl, rfl⟩ := Prod.mk.inj hpair
        rw [Bool.and_false, if_neg Bool.false_ne_true] at hslots
        rw [hslots]
        simp
      | false =>
        obtain ⟨rfl, rfl⟩ := Prod.mk.inj hpair
        rw [Bool.and_true, if_pos rfl] at hslots
        rw [hslots]
        simp

/-- Where a block is placed that reaches `get_signage_point_vdf_info` with the parameters of
`get_next_sub_slot_iters_and_difficulty`. -/
lemma ReachesSpVdf.placed {chain : BlockchainInterface}
    (h : ReachesSpVdf H V constants chain.records hb expectedDifficulty expectedSubSlotIters skip skipVdf
      check skipLast overflow slots n requiredIters spIters ipIters spTotalIters)
    (hnext : getNextSubSlotItersAndDifficulty constants (decide (hb.finishedSubSlots ≠ []))
      (chain.records.get hb.prevHeaderHash) chain = .ok (expectedSubSlotIters, expectedDifficulty))
    (hstarting : ∀ p, chain.records.get hb.prevHeaderHash = some p →
      p.height < constants.EPOCH_BLOCKS → p.subSlotIters = constants.SUB_SLOT_ITERS_STARTING) :
    ∃ interval, Placed constants (chain.records.get hb.prevHeaderHash) n expectedSubSlotIters interval
      hb.rewardChainBlock.signagePointIndex requiredIters ipIters spTotalIters hb.totalIters
      overflow := by
  obtain ⟨height, canFinishSe, canFinishEpoch, challenge, hepoch, -, -, -, htotal⟩ := h.checks
  refine placed_of_checks hnext (fun hnew => ?_) h.overflow_eq hepoch h.sp h.ip htotal hstarting
  have hne : hb.finishedSubSlots ≠ [] := of_decide_eq_true hnew
  have hslots := h.slots_eq
  rw [h.finished_eq.1, List.length_pos_iff]
  split at hslots
  · rw [hslots]
    simp
  · rw [hslots]
    exact hne

end Reaches

/-! ## Chains -/

section Chain

variable {H : Hashes} {V : Verifiers} {constants : ConsensusConstants} {blocks : BlockchainInterface}
  {block : FullBlock} {p r : BlockRecord} {requiredIters : ℕ}

lemma blockToBlockRecord_params (h : blockToBlockRecord H constants blocks requiredIters block = .ok r) :
    (∃ difficulty, getNextSubSlotItersAndDifficulty constants (decide (block.finishedSubSlots ≠ []))
      (blocks.records.get block.prevHeaderHash) blocks = .ok (r.subSlotIters, difficulty)) ∧
      isOverflowBlock constants block.rewardChainBlock.signagePointIndex = .ok r.overflow ∧
      r.requiredIters = requiredIters := by
  simp only [blockToBlockRecord] at h
  obtain ⟨-, -, h⟩ := bind_eq_ok.mp h
  obtain ⟨⟨subSlotIters, difficulty⟩, hnext, h⟩ := bind_eq_ok.mp h
  obtain ⟨overflow, hoverflow, h⟩ := bind_eq_ok.mp h
  obtain ⟨_, -, h⟩ := bind_eq_ok.mp h
  obtain ⟨_, -, h⟩ := bind_eq_ok.mp h
  obtain ⟨_, -, h⟩ := bind_eq_ok.mp h
  rw [← Except.ok.inj h]
  exact ⟨⟨difficulty, hnext⟩, hoverflow, rfl⟩

namespace BlockAccepted

variable (h : BlockAccepted H V constants blocks block r)
include h

lemma fields : r.height = block.height ∧ r.prevHash = block.prevHeaderHash ∧
    r.headerHash = block.headerHash H ∧ r.totalIters = block.totalIters ∧
    r.signagePointIndex = block.rewardChainBlock.signagePointIndex ∧
    r.finishedChallengeSlotHashes =
      finishedSlotHashes constants block (fun s => H.challengeChainSubSlot s.challengeChain) ∧
    r.finishedRewardSlotHashes =
      finishedSlotHashes constants block fun s => H.rewardChainSubSlot s.rewardChain := by
  obtain ⟨_, _, _, _, _, _, _, _, -, -, hrecord⟩ := h
  obtain ⟨_, _, _, _, _, -, -, rfl⟩ := blockToBlockRecord_eq_ok hrecord
  exact ⟨rfl, rfl, rfl, rfl, rfl, rfl, rfl⟩

lemma firstInSubSlot : r.firstInSubSlot =
    (decide (block.finishedSubSlots ≠ []) || decide (block.height = 0)) := by
  obtain ⟨-, -, -, -, -, hhashes, -⟩ := h.fields
  rw [BlockRecord.firstInSubSlot, hhashes, finishedSlotHashes]
  by_cases hslots : block.finishedSubSlots = []
  · by_cases hheight : block.height = 0 <;> simp [hslots, hheight]
  · simp [hslots]

/-- Where a block is placed after its parent. -/
lemma placed (hstarting : ∀ p, blocks.records.get block.prevHeaderHash = some p →
      p.height < constants.EPOCH_BLOCKS → p.subSlotIters = constants.SUB_SLOT_ITERS_STARTING) :
    ∃ interval ip spTotalIters, Placed constants (blocks.records.get block.prevHeaderHash)
      block.finishedSubSlots.length r.subSlotIters interval r.signagePointIndex r.requiredIters ip
      spTotalIters r.totalIters r.overflow ∧ r.ipIters constants = .ok ip := by
  obtain ⟨-, -, -, htotalIters, hindex, -, -⟩ := h.fields
  obtain ⟨filter, additions, removals, checkFilter, iters, difficulty, now, required, hnext, hvalid,
    hrecord⟩ := h
  obtain ⟨⟨_, hnext'⟩, hoverflow, hrequired⟩ := blockToBlockRecord_params hrecord
  obtain rfl : iters = r.subSlotIters := by
    rw [hnext] at hnext'
    exact (Prod.mk.inj (Except.ok.inj hnext')).1
  obtain ⟨skipLast, overflow, slots, n, spIters, ipIters, spTotalIters, hreach, -⟩ :=
    reachesSpVdf_of_validate (validateUnfinished_of_finished hvalid)
  obtain rfl : overflow = r.overflow := by
    have := hreach.overflow_eq
    rw [show (getBlockHeader filter block additions removals).unfinished.rewardChainBlock.signagePointIndex
      = block.rewardChainBlock.signagePointIndex from rfl, hoverflow] at this
    exact (Except.ok.inj this).symm
  obtain rfl : n = block.finishedSubSlots.length := by
    have hslots := hreach.slots_eq
    rw [hreach.finished_eq.2 rfl, Bool.and_false, if_neg Bool.false_ne_true] at hslots
    rw [hreach.finished_eq.1, hslots]
    rfl
  obtain ⟨interval, hplaced⟩ := hreach.placed hnext hstarting
  refine ⟨interval, ipIters, spTotalIters, ?_, ?_⟩
  · rw [hindex, hrequired, htotalIters]
    exact hplaced
  · rw [BlockRecord.ipIters, hindex, hrequired]
    exact hreach.ip

lemma parent (hprev : blocks.records.get block.prevHeaderHash = some p) (hheight : block.height ≠ 0) :
    r.height = p.height + 1 ∧ (block.finishedSubSlots = [] → p.totalIters ≤ r.totalIters) := by
  obtain ⟨hrheight, -, -, htotalIters, -, -, -⟩ := h.fields
  obtain ⟨filter, additions, removals, checkFilter, iters, difficulty, now, required, -, hvalid, -⟩ := h
  unfold validateFinishedHeaderBlock at hvalid
  obtain ⟨_, -, hvalid⟩ := bind_eq_ok.mp hvalid
  obtain ⟨prevB, hprevB, hvalid⟩ := bind_eq_ok.mp hvalid
  obtain ⟨ipIters, -, hvalid⟩ := bind_eq_ok.mp hvalid
  obtain ⟨_, hcheck, hvalid⟩ := bind_eq_ok.mp hvalid
  obtain ⟨⟨_, _, _⟩, hstart, -⟩ := bind_eq_ok.mp hvalid
  obtain rfl : prevB = some p := by
    have hprevB := raising_eq_ok.mp hprevB
    unfold prevOfHeader at hprevB
    rw [if_neg (show ¬(getBlockHeader filter block additions removals).height = 0 from hheight)] at hprevB
    obtain ⟨q, hq, rfl⟩ := map_eq_ok.mp hprevB
    rw [← hprev]
    exact (get_of_blockRecord hq).symm
  unfold checkHeightAndWeight at hcheck
  obtain ⟨_, hnumber, -⟩ := bind_eq_ok.mp hcheck
  refine ⟨hrheight.trans (not_not.mp (rejectIf_eq_ok.mp hnumber)), fun hslots => ?_⟩
  have hstart := raising_eq_ok.mp hstart
  unfold ipVdfStart at hstart
  rw [show (getBlockHeader filter block additions removals).finishedSubSlots = [] from hslots] at hstart
  obtain ⟨gap, hgap, -⟩ := bind_eq_ok.mp hstart
  have hgap := (uintN_eq_ok.mp hgap).1
  rw [htotalIters]
  have : (getBlockHeader filter block additions removals).totalIters = block.totalIters := rfl
  omega

lemma starting (hstarting : ∀ p, blocks.records.get block.prevHeaderHash = some p →
      r.height = p.height + 1 ∧ (p.height < constants.EPOCH_BLOCKS →
        p.subSlotIters = constants.SUB_SLOT_ITERS_STARTING))
    (hlow : r.height < constants.EPOCH_BLOCKS) :
    r.subSlotIters = constants.SUB_SLOT_ITERS_STARTING := by
  obtain ⟨_, _, _, _, _, _, _, _, -, -, hrecord⟩ := h
  obtain ⟨⟨difficulty, hnext⟩, -, -⟩ := blockToBlockRecord_params hrecord
  cases hprev : blocks.records.get block.prevHeaderHash with
  | none =>
    rw [hprev] at hnext
    exact (Prod.mk.inj (Except.ok.inj hnext)).1.symm
  | some p =>
    rw [hprev] at hnext
    obtain ⟨hheight, hp⟩ := hstarting p hprev
    exact subSlotIters_eq_starting hnext hp (by omega)

end BlockAccepted

/-- The place of the last block of a chain in its sub slots: its infusion point is `ip` iterations after
the start of the last one. -/
structure Timed (constants : ConsensusConstants) (es : List Entry) (r : BlockRecord)
    (interval ip : ℕ) : Prop where
  interval_eq : calculateSpIntervalIters constants r.subSlotIters = .ok interval
  infusion : IpIters constants interval r.signagePointIndex r.requiredIters ip
  ipIters : r.ipIters constants = .ok ip
  overflow_eq : r.overflow = decide (constants.NUM_SPS_SUB_SLOT ≤
    r.signagePointIndex + constants.NUM_SP_INTERVALS_EXTRA)
  total : r.totalIters + r.subSlotIters = slotEnd constants es + ip
  le : r.subSlotIters ≤ slotEnd constants es
  fits : r.totalIters < 2 ^ 128
  sp : r.overflow = true →
    2 * r.subSlotIters ≤ slotEnd constants es + interval * r.signagePointIndex

/-- What holds of a block after the blocks `es` of its chain. -/
structure Follows (H : Hashes) (constants : ConsensusConstants) (es : List Entry) (e : Entry) : Prop where
  timed : ∃ interval ip, Timed constants (es ++ [e]) e.2 interval ip
  starting : e.2.height < constants.EPOCH_BLOCKS → e.2.subSlotIters = constants.SUB_SLOT_ITERS_STARTING
  height_eq : e.2.height = e.1.height
  prevHash_eq : e.2.prevHash = e.1.prevHeaderHash
  headerHash_eq : e.2.headerHash = e.1.headerHash H
  challengeHashes : e.2.finishedChallengeSlotHashes =
    finishedSlotHashes constants e.1 fun s => H.challengeChainSubSlot s.challengeChain
  rewardHashes : e.2.finishedRewardSlotHashes =
    finishedSlotHashes constants e.1 fun s => H.rewardChainSubSlot s.rewardChain
  first : e.2.firstInSubSlot = (decide (e.1.finishedSubSlots ≠ []) || decide (e.1.height = 0))
  genesis : es = [] → e.1.height = 0 ∧ e.2.subSlotIters = constants.SUB_SLOT_ITERS_STARTING
  parent : ∀ p, es.getLast? = some p → e.1.height = p.2.height + 1 ∧
    (e.1.finishedSubSlots = [] → e.2.subSlotIters = p.2.subSlotIters ∧ p.2.totalIters ≤ e.2.totalIters) ∧
    (e.2.overflow = true → e.1.finishedSubSlots.length = 1 → e.2.subSlotIters = p.2.subSlotIters)

variable {es es' : List Entry} {e : Entry} {ip interval : ℕ}

/-- A block that is placed after the last block of a chain has its place in the sub slots. -/
lemma timed_of_placed {spTotalIters : ℕ} {prevB : Option BlockRecord}
    (hplaced : Placed constants prevB e.1.finishedSubSlots.length e.2.subSlotIters interval e.2.signagePointIndex e.2.requiredIters ip spTotalIters e.2.totalIters e.2.overflow)
    (hip : e.2.ipIters constants = .ok ip) (hnone : prevB = none → es = [])
    (hsome : ∀ p, prevB = some p → ∃ interval ip, Timed constants es p interval ip) :
    Timed constants (es ++ [e]) e.2 interval ip := by
  -- the sub slot starts `ip` iterations before the block
  have hstart : e.2.totalIters + e.2.subSlotIters = slotEnd constants (es ++ [e]) + ip ∧
      e.2.subSlotIters ≤ slotEnd constants (es ++ [e]) := by
    rw [slotEnd_concat]
    cases hprev : prevB with
    | none =>
      obtain ⟨hiters, htotal⟩ := hplaced.genesis hprev
      have hend : slotEnd constants es = constants.SUB_SLOT_ITERS_STARTING := by
        rw [hnone hprev]
        rfl
      rw [hend, ← hiters]
      omega
    | some p =>
      obtain ⟨intervalP, ipP, htimed⟩ := hsome p hprev
      rcases Nat.eq_zero_or_pos e.1.finishedSubSlots.length with hn | hn
      · obtain ⟨ipp, hipp, htotal⟩ := hplaced.inSlot p hprev hn
        obtain rfl : ipp = ipP := by
          rw [htimed.ipIters] at hipp
          exact (Except.ok.inj hipp).symm
        have hsame := hplaced.same p hprev (.inl hn)
        have htotalP := htimed.total
        have hleP := htimed.le
        rw [hn]
        omega
      · obtain ⟨ipp, hipp, htotal⟩ := hplaced.newSlot p hprev hn
        obtain rfl : ipp = ipP := by
          rw [htimed.ipIters] at hipp
          exact (Except.ok.inj hipp).symm
        have htotalP := htimed.total
        have hle : 1 * e.2.subSlotIters ≤ e.1.finishedSubSlots.length * e.2.subSlotIters :=
          Nat.mul_le_mul_right _ hn
        omega
  refine ⟨hplaced.interval_eq, hplaced.infusion, hip, hplaced.overflow_eq, hstart.1, hstart.2,
    hplaced.fits, fun hover => ?_⟩
  have hsp := hplaced.sp
  rw [hover, if_pos rfl] at hsp
  omega

lemma AcceptedChain.ne_nil (h : AcceptedChain H V constants es) : es ≠ [] := by
  cases h with
  | genesis hprev hnew => simp
  | extend hes hchain hprev hheight hnew => simp

lemma AcceptedChain.of_append (h : AcceptedChain H V constants (es ++ es')) (hne : es ≠ []) :
    AcceptedChain H V constants es := by
  generalize hl : es ++ es' = l at h
  induction h generalizing es' with
  | genesis hprev hnew =>
    rcases List.append_eq_singleton_iff.mp hl with ⟨rfl, -⟩ | ⟨rfl, -⟩
    · exact absurd rfl hne
    · exact .genesis hprev hnew
  | @extend blocks block p r l hl' hchain hprev hheight hnew ih =>
    rcases List.eq_nil_or_concat es' with rfl | ⟨init, x, rfl⟩
    · rw [List.append_nil] at hl
      rw [hl]
      exact .extend hl' hchain hprev hheight hnew
    · rw [List.concat_eq_append, ← List.append_assoc] at hl
      exact ih (List.append_inj' hl rfl).1

/-- **What holds of every block of a chain** after the blocks before it.

**Proof sketch.** Induction on the chain: the parent of a block is the last block before it, whose
place in the sub slots gives that of the block. -/
theorem AcceptedChain.follows (h : AcceptedChain H V constants (es ++ [e])) : Follows H constants es e := by
  generalize hl : es ++ [e] = l at h
  induction h generalizing es e with
  | @genesis blocks block r hprev hnew =>
    obtain ⟨rfl, rfl⟩ : es = [] ∧ e = (block, r) := by
      have := List.append_inj' (show es ++ [e] = [] ++ [(block, r)] from hl) rfl
      exact ⟨this.1, by simpa using this.2⟩
    have hnone : ∀ q, blocks.records.get block.prevHeaderHash = some q → False := fun q hq => by
      rw [hprev] at hq
      cases hq
    obtain ⟨interval, ip, spTotalIters, hplaced, hip⟩ := hnew.placed fun q hq => (hnone q hq).elim
    obtain ⟨hheight, hprevHash, hheader, -, -, hchallenge, hreward⟩ := hnew.fields
    have hzero : block.height = 0 := by
      obtain ⟨_, _, _, _, _, _, _, _, -, -, hrecord⟩ := hnew
      exact height_eq_zero_of_genesis hprev hrecord
    exact ⟨⟨interval, ip, timed_of_placed hplaced hip (fun _ => rfl) fun q hq => (hnone q hq).elim⟩,
      hnew.starting fun q hq => (hnone q hq).elim, hheight, hprevHash, hheader, hchallenge, hreward,
      hnew.firstInSubSlot, fun _ => ⟨hzero, (hplaced.genesis hprev).1⟩, fun q hq => by cases hq⟩
  | @extend blocks block p r l hl' hchain hprev hheight hnew ih =>
    obtain ⟨rfl, he⟩ := List.append_inj' hl rfl
    obtain rfl : e = (block, r) := by simpa using he
    -- the last block before is the parent
    obtain ⟨init, q, rfl⟩ : ∃ init q, es = init ++ [q] := by
      rcases List.eq_nil_or_concat es with rfl | ⟨init, q, rfl⟩
      · exact absurd rfl hl'.ne_nil
      · exact ⟨init, q, List.concat_eq_append⟩
    have hlast : q.2 = p := by
      have := ParentTree.Path.getLast?_eq hchain.chain
      rw [List.map_append, List.map_singleton, List.getLast?_concat] at this
      exact Option.some.inj this
    have hq := ih rfl
    have hparent : ∀ x, blocks.records.get block.prevHeaderHash = some x → x = q.2 := fun x hx => by
      rw [hprev] at hx
      rw [hlast]
      exact (Option.some.inj hx).symm
    obtain ⟨hnumber, hle⟩ := hnew.parent hprev hheight
    obtain ⟨interval, ip, spTotalIters, hplaced, hip⟩ := hnew.placed fun x hx => by
      rw [hparent x hx]
      exact hq.starting
    obtain ⟨hrheight, hprevHash, hheader, -, -, hchallenge, hreward⟩ := hnew.fields
    refine ⟨⟨interval, ip, timed_of_placed hplaced hip (fun hnone => ?_) fun x hx => ?_⟩,
      hnew.starting fun x hx => ?_, hrheight, hprevHash, hheader, hchallenge, hreward,
      hnew.firstInSubSlot, fun hnil => absurd hnil (by simp), fun x hx => ?_⟩
    · rw [hprev] at hnone
      cases hnone
    · rw [hparent x hx]
      exact hq.timed
    · rw [hparent x hx]
      exact ⟨hlast ▸ hnumber, hq.starting⟩
    · obtain rfl : q = x := by
        rw [List.getLast?_concat] at hx
        exact Option.some.inj hx
      rw [hlast]
      refine ⟨hrheight ▸ hnumber, fun hslots => ⟨?_, hle hslots⟩, fun hover hone => ?_⟩
      · exact hplaced.same p hprev (.inl (List.length_eq_zero_iff.mpr hslots))
      · exact hplaced.same p hprev (.inr ⟨hover, hone⟩)

lemma AcceptedChain.head_follows (h : AcceptedChain H V constants (e :: es)) : Follows H constants [] e :=
  have hpart : AcceptedChain H V constants ([] ++ [e]) :=
    @AcceptedChain.of_append H V constants [e] es h (List.cons_ne_nil _ _)
  hpart.follows

lemma AcceptedChain.follows_of_mem (h : AcceptedChain H V constants es) (he : e ∈ es) :
    ∃ a b, es = a ++ e :: b ∧ Follows H constants a e := by
  obtain ⟨a, b, rfl⟩ := List.append_of_mem he
  refine ⟨a, b, rfl, ?_⟩
  have hpart : AcceptedChain H V constants (a ++ [e]) := by
    rw [show a ++ e :: b = (a ++ [e]) ++ b by simp] at h
    exact h.of_append (by simp)
  exact hpart.follows

lemma Timed.total_lt (h : Timed constants es r interval ip) : r.totalIters < slotEnd constants es := by
  have htotal := h.total
  have hlt := h.infusion.lt
  obtain ⟨-, hslot, -⟩ := calculateSpIntervalIters_eq_ok.mp h.interval_eq
  omega

lemma AcceptedChain.total_lt (h : AcceptedChain H V constants es) (he : e ∈ es) :
    e.2.totalIters < slotEnd constants es := by
  obtain ⟨a, b, rfl, hfollows⟩ := h.follows_of_mem he
  obtain ⟨interval, ip, htimed⟩ := hfollows.timed
  have hle := @slotEnd_le_append constants (a ++ [e]) b
  rw [List.append_assoc, List.singleton_append] at hle
  exact lt_of_lt_of_le htimed.total_lt hle

/-! ## The blocks of a sub slot -/

variable {a c : List Entry} {f x : Entry}

lemma AcceptedChain.exists_slotPart (h : AcceptedChain H V constants es) :
    ∃ a f c, es = a ++ f :: c ∧ f.2.firstInSubSlot = true ∧
      ∀ x ∈ c, (x.2.firstInSubSlot = false ∧ x.2.height ≠ 0) ∧ x.1.finishedSubSlots = [] := by
  obtain ⟨g, rest, rfl⟩ := List.exists_cons_of_ne_nil h.ne_nil
  have hgenesis : g.2.firstInSubSlot = true := by
    rw [h.head_follows.first, (h.head_follows.genesis rfl).1]
    simp
  obtain ⟨a, f, c, hes, hf, hc⟩ := @exists_last Entry (g :: rest) (fun x => x.2.firstInSubSlot)
    ⟨g, List.mem_cons_self, hgenesis⟩
  refine ⟨a, f, c, hes, hf, fun x hx => ?_⟩
  obtain ⟨_, _, _, hfollows⟩ := h.follows_of_mem (show x ∈ g :: rest by rw [hes]; simp [hx])
  have hfirst := hfollows.first
  rw [hc x hx] at hfirst
  have hnot : x.1.finishedSubSlots = [] ∧ x.1.height ≠ 0 := by simpa using hfirst.symm
  exact ⟨⟨hc x hx, hfollows.height_eq ▸ hnot.2⟩, hnot.1⟩

lemma slotEnd_append_of_nil (hc : ∀ x ∈ c, x.1.finishedSubSlots = []) :
    slotEnd constants (es ++ c) = slotEnd constants es ∧
      slotEnds constants (es ++ c) = slotEnds constants es := by
  induction c using List.reverseRecOn with
  | nil => simp
  | append_singleton c y ih =>
    obtain ⟨hend, hends⟩ := ih fun x hx => hc x (by simp [hx])
    have hy := hc y (by simp)
    rw [← List.append_assoc, slotEnd_concat, slotEnds_concat, hend, hends, hy]
    simp [endsFrom]

lemma slotEnds_eq_nil (hf : f.1.finishedSubSlots = []) (hc : ∀ x ∈ c, x.1.finishedSubSlots = []) :
    slotEnds constants (f :: c) = [] ∧ slotEnd constants (f :: c) = constants.SUB_SLOT_ITERS_STARTING := by
  obtain ⟨hend, hends⟩ := @slotEnd_append_of_nil constants [] (f :: c) fun x hx => by
    rcases List.mem_cons.mp hx with rfl | hx
    · exact hf
    · exact hc x hx
  exact ⟨hends, hend⟩

/-- The blocks of one sub slot have the same number of iterations for it, and lie between its start and
its end.

**Proof sketch.** Induction on the blocks after the first one: a block without bundles has the
parameters of its parent. -/
lemma AcceptedChain.slotPart (h : AcceptedChain H V constants (a ++ f :: c))
    (hc : ∀ x ∈ c, x.1.finishedSubSlots = []) : ∀ x ∈ f :: c,
      x.2.subSlotIters = f.2.subSlotIters ∧
        ∃ interval ip, Timed constants (a ++ [f]) x.2 interval ip := by
  induction c using List.reverseRecOn with
  | nil =>
    intro x hx
    rw [List.mem_singleton.mp hx]
    exact ⟨rfl, h.follows.timed⟩
  | append_singleton c y ih =>
    have hcons : a ++ f :: (c ++ [y]) = (a ++ f :: c) ++ [y] := by simp
    rw [hcons] at h
    have hpart := ih (h.of_append (by simp)) fun x hx => hc x (by simp [hx])
    intro x hx
    rw [← List.cons_append, List.mem_append, List.mem_singleton] at hx
    rcases hx with hx | rfl
    · exact hpart x hx
    · have hfollows := h.follows
      obtain ⟨q, hq⟩ : ∃ q, (f :: c).getLast? = some q :=
        ⟨_, List.getLast?_eq_some_getLast (List.cons_ne_nil f c)⟩
      have hlast : (a ++ f :: c).getLast? = some q := by
        rw [List.getLast?_append, hq]
        rfl
      obtain ⟨-, hsame, -⟩ := hfollows.parent q hlast
      refine ⟨(hsame (hc x (by simp))).1.trans (hpart q (List.mem_of_getLast? hq)).1, ?_⟩
      obtain ⟨interval, ip, htimed⟩ := hfollows.timed
      have hend : slotEnd constants (a ++ f :: c ++ [x]) = slotEnd constants (a ++ [f]) := by
        rw [← hcons, show a ++ f :: (c ++ [x]) = (a ++ [f]) ++ (c ++ [x]) by simp]
        exact (slotEnd_append_of_nil hc).1
      refine ⟨interval, ip, htimed.interval_eq, htimed.infusion, htimed.ipIters, htimed.overflow_eq,
        ?_, ?_, htimed.fits, ?_⟩
      · rw [← hend]
        exact htimed.total
      · rw [← hend]
        exact htimed.le
      · rw [← hend]
        exact htimed.sp

lemma Timed.overflow_of_le {ipp total : ℕ} (h : Timed constants es r interval ipp)
    (hinfusion : IpIters constants interval signagePointIndex requiredIters ip)
    (hover : constants.NUM_SPS_SUB_SLOT ≤ signagePointIndex + constants.NUM_SP_INTERVALS_EXTRA)
    (htotal : total + r.subSlotIters = slotEnd constants es + ip) (hle : r.totalIters ≤ total) :
    r.overflow = true := by
  rw [h.overflow_eq, decide_eq_true_iff]
  by_contra hnot
  obtain ⟨-, hbefore⟩ := hinfusion.eq_of_overflow (by omega) hover
  have hafter := h.infusion.eq_of_not_overflow (Nat.lt_of_not_le hnot)
  have htotalR := h.total
  rw [mul_comm constants.NUM_SP_INTERVALS_EXTRA] at hafter
  omega

/-- The overflow blocks of a sub slot come before its other blocks: before an overflow block there are
only overflow blocks. -/
lemma AcceptedChain.overflow_of_last
    (h : AcceptedChain H V constants (a ++ f :: c)) (hc : ∀ x ∈ c, x.1.finishedSubSlots = [])
    (hx : (f :: c).getLast? = some x) (hover : x.2.overflow = true) :
    ∀ y ∈ f :: c, y.2.overflow = true := by
  induction c using List.reverseRecOn generalizing x with
  | nil =>
    intro y hy
    obtain rfl : f = x := by simpa using hx
    rw [List.mem_singleton.mp hy]
    exact hover
  | append_singleton c z ih =>
    obtain rfl : z = x := by
      rw [← List.cons_append, List.getLast?_concat] at hx
      exact Option.some.inj hx
    have hslot := h.slotPart hc
    have hcons : a ++ f :: (c ++ [z]) = (a ++ f :: c) ++ [z] := by simp
    rw [hcons] at h
    obtain ⟨q, hq⟩ : ∃ q, (f :: c).getLast? = some q :=
      ⟨_, List.getLast?_eq_some_getLast (List.cons_ne_nil f c)⟩
    have hlast : (a ++ f :: c).getLast? = some q := by
      rw [List.getLast?_append, hq]
      rfl
    -- the parent is not infused later, and the infusion points of other blocks are later ones
    have hqover : q.2.overflow = true := by
      obtain ⟨-, hsame, -⟩ := h.follows.parent q hlast
      obtain ⟨hiters, hle⟩ := hsame (hc z (by simp))
      obtain ⟨hitersZ, intervalZ, ipZ, hz⟩ := hslot z (by simp)
      obtain ⟨hitersQ, intervalQ, ipQ, hqt⟩ := hslot q (by
        rw [← List.cons_append]
        exact List.mem_append_left _ (List.mem_of_getLast? hq))
      obtain rfl : intervalQ = intervalZ := by
        have hi := hqt.interval_eq
        rw [← hiters, hz.interval_eq] at hi
        exact (Except.ok.inj hi).symm
      have hzover := hz.overflow_eq
      rw [hover] at hzover
      have htotalZ := hz.total
      rw [hitersZ, ← hitersQ] at htotalZ
      exact hqt.overflow_of_le hz.infusion (of_decide_eq_true hzover.symm) htotalZ hle
    intro y hy
    rw [← List.cons_append, List.mem_append, List.mem_singleton] at hy
    rcases hy with hy | rfl
    · exact ih (h.of_append (by simp)) (fun x hx => hc x (by simp [hx])) hq hqover y hy
    · exact hover

lemma AcceptedChain.eq_nil_of_first (h : AcceptedChain H V constants (a ++ f :: c))
    (hf : f.2.firstInSubSlot = true) (hslots : f.1.finishedSubSlots = []) : a = [] := by
  rw [show a ++ f :: c = (a ++ [f]) ++ c by simp] at h
  have hfollows := (h.of_append (by simp)).follows
  have hheight : f.1.height = 0 := by
    have hfirst := hfollows.first
    rw [hf, hslots] at hfirst
    simpa using hfirst.symm
  by_contra hne
  obtain ⟨q, hq⟩ : ∃ q, a.getLast? = some q := ⟨_, List.getLast?_eq_some_getLast hne⟩
  have := (hfollows.parent q hq).1
  omega

lemma slotEnds_of_slotPart {init : List EndOfSubSlotBundle} {slot : EndOfSubSlotBundle}
    (hc : ∀ x ∈ c, x.1.finishedSubSlots = []) (hslots : f.1.finishedSubSlots = init ++ [slot]) :
    ∃ start, start + f.2.subSlotIters = slotEnd constants (a ++ f :: c) ∧
      start = slotEnd constants a + init.length * f.2.subSlotIters ∧
      slotEnds constants (a ++ f :: c) =
        slotEnds constants a ++ (endsFrom (slotEnd constants a) f.2.subSlotIters init ++ [(start, slot)]) := by
  obtain ⟨hend, hends⟩ := @slotEnd_append_of_nil constants (a ++ [f]) c hc
  rw [List.append_assoc, List.singleton_append] at hend hends
  refine ⟨slotEnd constants a + init.length * f.2.subSlotIters, ?_, rfl, ?_⟩
  · rw [hend, slotEnd_concat, hslots, List.length_append, List.length_singleton, Nat.add_mul]
    omega
  · rw [hends, slotEnds_concat, hslots, endsFrom_append]
    rfl

lemma AcceptedChain.ends_le (h : AcceptedChain H V constants (a ++ f :: c))
    (hf : f.2.firstInSubSlot = true) (hc : ∀ x ∈ c, x.1.finishedSubSlots = [])
    {x : ℕ × EndOfSubSlotBundle} (hx : x ∈ slotEnds constants (a ++ f :: c)) :
    x.1 + f.2.subSlotIters ≤ slotEnd constants (a ++ f :: c) := by
  rcases List.eq_nil_or_concat f.1.finishedSubSlots with hnil | ⟨init, slot, hslots⟩
  · obtain rfl := h.eq_nil_of_first hf hnil
    rw [List.nil_append, (slotEnds_eq_nil hnil hc).1] at hx
    cases hx
  · rw [List.concat_eq_append] at hslots
    obtain ⟨start, hstart, hsum, hends⟩ := @slotEnds_of_slotPart constants a c f init slot hc hslots
    rw [hends, List.mem_append, List.mem_append, List.mem_singleton] at hx
    rcases hx with hx | hx | rfl
    · have hle : x.1 ≤ slotEnd constants a := (le_of_mem_slotEndsFrom hx).2
      omega
    · have hle := (le_of_mem_endsFrom hx).2
      omega
    · exact hstart.le

end Chain

/-! ## The chain of the genesis block of the samples -/

/-- The record of the genesis block of the samples. -/
def genesisRecord : BlockRecord :=
  headerBlockToSubBlockRecord sampleBlockchainTools.H defaultConstants 1 genesisBlock
    defaultConstants.SUB_SLOT_ITERS_STARTING false 15 0 none

lemma acceptedChain_genesisBlock : AcceptedChain sampleBlockchainTools.H sampleBlockchainTools.V
    defaultConstants [(genesisBlock, genesisRecord)] :=
  @AcceptedChain.genesis _ _ _ (blockCache ∅) genesisBlock genesisRecord rfl
    ⟨fun _ => [], [], [], true, defaultConstants.SUB_SLOT_ITERS_STARTING,
      defaultConstants.DIFFICULTY_STARTING, 0, 1, rfl, by decide +kernel, by decide +kernel⟩

/-- A cache with the genesis block of the samples. -/
def genesisCache : BlockchainInterface := blockCache (ofRecords [genesisRecord])

lemma chain_genesisCache : genesisCache.records.Chain genesisRecord [genesisRecord] :=
  .root rfl

end Chives
