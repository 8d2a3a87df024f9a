import Chives.Consensus.SignagePointStart
import Chives.Consensus.SpAndIpSubSlots

set_option autoImplicit false

/-!
# The challenge of a block

The sub slots of a chain are numbered, and the challenge of each but the first is the hash of the bundle that
ended the one before. A block is infused in the sub slot after all bundles of its chain, and its signage point
lies in that sub slot, or in the one before for an overflow block. `get_block_challenge` looks for the hash of
the right bundle in the block and in the records of its ancestors. The record of a genesis block holds either
the genesis challenge or the hashes of its bundles, so that the genesis challenge is missing from the records
of a chain whose genesis block carries a bundle.

## Main definitions

* `slotChallenges`, `recordedChallenges` — the hashes of the bundles of a chain, and those that
  its records hold.
* `signagePointSubSlot`, `challengeOfSubSlot` — the sub slot of a signage point, and its
  challenge.
* `ReachesChallenge` — header validation calls `get_block_challenge`.

## Main results

* `challengeOnTop_eq` — the challenge of a block without bundles is read off the recorded hashes.
* `getBlockChallenge_exact_iff` — the function is right except for an overflow block in the sub slot of
  a genesis block with at most one bundle.
-/

namespace Chives

open ExceptRun BlockRecords

/-! ## The recorded challenges -/

section Recorded

variable {H : Hashes} {V : Verifiers} {constants : ConsensusConstants} {blocks : BlockRecords}
  {es : List Entry} {g : Entry} {p r : BlockRecord} {l : List BlockRecord} {n : ℕ}

variable (H) in
/-- The challenge chain hashes of the bundles of some blocks, oldest first. -/
def slotChallenges (es : List Entry) : List Bytes32 :=
  es.flatMap fun e => e.1.finishedSubSlots.map fun s => H.challengeChainSubSlot s.challengeChain

/-- The challenge chain hashes that some records hold, oldest first. -/
def recordedChallenges (l : List BlockRecord) : List Bytes32 :=
  l.flatMap fun r => r.finishedChallengeSlotHashes.getD []

lemma slotChallenges_cons : slotChallenges H (g :: es) = slotChallenges H [g] ++ slotChallenges H es := by
  rw [← List.singleton_append, slotChallenges, List.flatMap_append, ← slotChallenges, ← slotChallenges]

/-- The records of a chain hold the hashes of its bundles, and the genesis challenge if the genesis block
carries none. -/
lemma AcceptedChain.recordedChallenges_eq (h : AcceptedChain H V constants (g :: es)) :
    recordedChallenges ((g :: es).map Prod.snd) =
      (if g.1.finishedSubSlots = [] then [constants.GENESIS_CHALLENGE] else slotChallenges H [g]) ++
        slotChallenges H es := by
  have hgenesis : g.1.height = 0 := (h.head_follows.genesis rfl).1
  have hlater : ∀ e ∈ es, e.2.finishedChallengeSlotHashes.getD [] =
      e.1.finishedSubSlots.map fun s => H.challengeChainSubSlot s.challengeChain := by
    intro e he
    obtain ⟨a, b, rfl⟩ := List.append_of_mem he
    rw [show g :: (a ++ e :: b) = (g :: a ++ [e]) ++ b by simp] at h
    have hfollows := (h.of_append (by simp)).follows
    have hheight : e.1.height ≠ 0 := by
      rw [(hfollows.parent _ (List.getLast?_eq_some_getLast (by simp))).1]
      exact Nat.succ_ne_zero _
    rw [hfollows.challengeHashes, finishedSlotHashes, if_neg hheight]
    by_cases hnil : e.1.finishedSubSlots = []
    · rw [hnil]
      rfl
    · rw [if_pos hnil]
      rfl
  rw [recordedChallenges, List.map_cons, List.flatMap_cons]
  congr 1
  · rw [h.head_follows.challengeHashes, finishedSlotHashes, if_pos hgenesis]
    by_cases hnil : g.1.finishedSubSlots = []
    · rw [if_neg (not_not.mpr hnil), if_pos hnil]
      rfl
    · rw [if_pos hnil, if_neg hnil, slotChallenges, List.flatMap_singleton]
      rfl
  · rw [List.flatMap_map, slotChallenges]
    exact List.flatMap_congr hlater

/-- The walk of `get_block_challenge` along a chain collects the recorded hashes, newest first, and stops when
it has enough of them.

**Proof sketch.** Induction along the chain from its end. The genesis record holds a hash, so the assertion
at the end of the walk passes. -/
lemma challengeHashesFrom_eq (hpath : blocks.Chain r l)
    (hgenesis : ∀ g, l.head? = some g → g.finishedChallengeSlotHashes.getD [] ≠ []) {fuel : ℕ}
    (hfuel : l.length ≤ fuel) (found : List Bytes32) :
    ∃ more, challengeHashesFrom blocks n fuel r found = .ok (found ++ more) ∧
      more <+: (recordedChallenges l).reverse ∧
      (n ≤ (found ++ more).length ∨ more = (recordedChallenges l).reverse) := by
  induction l using List.reverseRecOn generalizing r fuel found with
  | nil => exact absurd rfl (ParentTree.Path.ne_nil hpath)
  | append_singleton init x ih =>
    obtain rfl : x = r := by
      have hlast := ParentTree.Path.getLast?_eq hpath
      rw [List.getLast?_concat] at hlast
      exact Option.some.inj hlast
    obtain ⟨fuel, rfl⟩ : ∃ k, fuel = k + 1 := by
      rw [List.length_append, List.length_singleton] at hfuel
      exact ⟨fuel - 1, by omega⟩
    have hrecorded : (recordedChallenges (init ++ [x])).reverse =
        (x.finishedChallengeSlotHashes.getD []).reverse ++ (recordedChallenges init).reverse := by
      simp [recordedChallenges]
    rw [challengeHashesFrom, hrecorded]
    by_cases hn : n ≤ found.length
    · rw [if_pos hn]
      exact ⟨[], by simp, List.nil_prefix, .inl (by simpa using hn)⟩
    rw [if_neg hn]
    by_cases hheight : x.height = 0
    · have hlen := hpath.length_eq
      rw [List.length_append, List.length_singleton, hheight] at hlen
      obtain rfl := List.length_eq_zero_iff.mp (show init.length = 0 by omega)
      rw [if_pos hheight, if_neg (hgenesis x rfl)]
      exact ⟨_, rfl, by simp [recordedChallenges], .inr (by simp [recordedChallenges])⟩
    · obtain ⟨q, l', hq, -, hpathQ, hl⟩ := ParentTree.Path.parent hpath hheight
      obtain rfl := (List.append_inj' hl rfl).1
      have hq : blocks.get x.prevHash = some q := hq
      rw [if_neg hheight, blockRecord_eq_ok hq, ok_bind]
      have hhead : ∀ g, init.head? = some g → g.finishedChallengeSlotHashes.getD [] ≠ [] := by
        intro g hg
        exact hgenesis g (by rw [List.head?_append, hg, Option.some_or])
      obtain ⟨more, hmore, hpre, henough⟩ := @ih _ hpathQ hhead fuel (by simpa using hfuel)
        (found ++ (x.finishedChallengeSlotHashes.getD []).reverse)
      refine ⟨(x.finishedChallengeSlotHashes.getD []).reverse ++ more, ?_, ?_, ?_⟩
      · rw [hmore, List.append_assoc]
      · exact (List.prefix_append_right_inj _).mpr hpre
      · rw [List.append_assoc] at henough
        exact henough.imp_right fun h => by rw [h]

lemma challengeOnTop_eq {hash : Bytes32} (hget : blocks.get hash = some p) (hpath : blocks.Chain p l)
    (hgenesis : ∀ g, l.head? = some g → g.finishedChallengeSlotHashes.getD [] ≠ []) (hn : 0 < n) :
    challengeOnTop blocks hash n = pyIndex (recordedChallenges l).reverse (n - 1) := by
  have hfuel : l.length ≤ blocks.fuel := by
    have hlt := height_lt_fuel hpath
    rw [Chain.length_eq hpath]
    omega
  obtain ⟨more, hmore, ⟨rest, hrest⟩, henough⟩ := challengeHashesFrom_eq (n := n) hpath hgenesis hfuel []
  rw [challengeOnTop, blockRecord_eq_ok hget, ok_bind, hmore, ok_bind, List.nil_append]
  rcases henough with henough | rfl
  · rw [List.nil_append] at henough
    rw [pyIndex, pyIndex, ← hrest, List.getElem?_append_left (by omega)]
  · rfl

lemma AcceptedChain.genesis_hashes (h : AcceptedChain H V constants es) :
    ∀ g, (es.map Prod.snd).head? = some g → g.finishedChallengeSlotHashes.getD [] ≠ [] := by
  intro r hr
  obtain ⟨g, rest, rfl⟩ := List.exists_cons_of_ne_nil h.ne_nil
  obtain rfl : g.2 = r := Option.some.inj hr
  rw [h.head_follows.challengeHashes, finishedSlotHashes, if_pos (h.head_follows.genesis rfl).1]
  by_cases hnil : g.1.finishedSubSlots = []
  · rw [if_neg (not_not.mpr hnil)]
    simp
  · rw [if_pos hnil]
    simpa using hnil

end Recorded

/-! ## The sub slot of the signage point -/

section Spec

/-- The number of the sub slot in which the signage point lies of a block that is infused after `ended`
bundles, or after one more if the last one is missing. The signage point of an overflow block is one sub slot
before its infusion point, and there is none before the first one. -/
def signagePointSubSlot (ended : ℕ) (overflow lastMissing : Bool) : Option ℕ :=
  let infused := if overflow && lastMissing then ended + 1 else ended
  if overflow then (if infused = 0 then none else some (infused - 1)) else some infused

/-- The challenge of a sub slot: the genesis challenge for the first one, and for each of the others the hash
of the bundle that ended the one before. -/
def challengeOfSubSlot (constants : ConsensusConstants) (hashes : List Bytes32) (subSlot : ℕ) :
    Option Bytes32 :=
  (constants.GENESIS_CHALLENGE :: hashes)[subSlot]?

variable (H : Hashes) (V : Verifiers) (constants : ConsensusConstants)

/-- Header validation of `hb` calls `get_block_challenge` with the two flags `overflow` and `skipLast`: the
steps before pass. -/
structure ReachesChallenge (blocks : BlockRecords) (hb : UnfinishedHeaderBlock)
    (expectedDifficulty expectedSubSlotIters : ℕ)
    (skipOverflowLastSsValidation skipVdfIsValid checkSubEpochSummary overflow skipLast : Bool) : Prop where
  prevB : ¬((blocks.get hb.prevHeaderHash).isNone ∧ hb.prevHeaderHash ≠ constants.GENESIS_CHALLENGE)
  overflow_eq : isOverflowBlock constants hb.rewardChainBlock.signagePointIndex = .ok overflow
  checks : ∃ n height canFinishSe canFinishEpoch,
    finishedSubSlotsSincePrev blocks hb overflow expectedSubSlotIters skipOverflowLastSsValidation =
      .ok (skipLast, n) ∧
    heightAndEpoch constants blocks (blocks.get hb.prevHeaderHash) (decide (n > 0)) expectedDifficulty
      expectedSubSlotIters = .ok (height, canFinishSe, canFinishEpoch) ∧
    checkFinishedSubSlots H V constants blocks (blocks.get hb.prevHeaderHash)
      (decide (n > 0) && !skipLast) canFinishSe canFinishEpoch expectedDifficulty expectedSubSlotIters
      skipVdfIsValid checkSubEpochSummary hb.finishedSubSlots = .ok () ∧
    checkNumBlocks constants blocks (decide (n > 0)) (blocks.get hb.prevHeaderHash) = .ok ()

/-- The call raises nothing and returns the challenge of the sub slot of the signage point. -/
def FindsChallenge (blocks : BlockRecords) (es : List Entry) (hb : UnfinishedHeaderBlock)
    (overflow skipLast : Bool) : Prop :=
  let hashes := slotChallenges H es ++
    hb.finishedSubSlots.map fun s => H.challengeChainSubSlot s.challengeChain
  ∃ challenge, getBlockChallenge H constants hb.finishedSubSlots hb.prevHeaderHash blocks
      (blocks.get hb.prevHeaderHash).isNone overflow skipLast = .ok challenge ∧
    ∀ subSlot, signagePointSubSlot hashes.length overflow skipLast = some subSlot →
      challengeOfSubSlot constants hashes subSlot = some challenge

/-- An overflow block without bundles on top of a chain with at most one bundle, which the genesis block
carries. -/
def InGenesisSubSlot (es : List Entry) (hb : UnfinishedHeaderBlock) (overflow skipLast : Bool) : Prop :=
  hb.finishedSubSlots = [] ∧ overflow = true ∧ skipLast = false ∧
    ∃ g rest, es = g :: rest ∧ g.1.finishedSubSlots.length ≤ 1 ∧ ∀ e ∈ rest, e.1.finishedSubSlots = []

end Spec

/-! ## The challenge of a block on top of a chain -/

section OnChain

variable {H : Hashes} {V : Verifiers} {constants : ConsensusConstants} {blocks : BlockRecords}
  {es : List Entry} {hb : UnfinishedHeaderBlock} {g : Entry} {p : BlockRecord}

lemma AcceptedChain.slotStartChallenge_eq (h : AcceptedChain H V constants es)
    (hpath : blocks.Chain p (es.map Prod.snd)) :
    slotStartChallenge H constants blocks (some p) none =
      .ok ((constants.GENESIS_CHALLENGE :: slotChallenges H es).getLast (by simp)) := by
  obtain ⟨a, f, c, rfl, hf, hc⟩ := h.exists_slotPart
  have hwalk : blocks.walkBack BlockRecord.firstInSubSlot p = .ok f.2 := by
    refine walkBack_eq_ok hpath (show _ = a.map Prod.snd ++ f.2 :: c.map Prod.snd by simp) hf fun y hy => ?_
    obtain ⟨x, hx, rfl⟩ := List.mem_map.mp hy
    exact (hc x hx).1.1
  have hnil : slotChallenges H c = [] := by
    rw [slotChallenges, List.flatMap_eq_nil_iff]
    intro x hx
    rw [(hc x hx).2, List.map_nil]
  have hsplit : slotChallenges H (a ++ f :: c) = slotChallenges H a ++
      f.1.finishedSubSlots.map fun s => H.challengeChainSubSlot s.challengeChain := by
    rw [slotChallenges, List.flatMap_append, List.flatMap_cons, ← slotChallenges, ← slotChallenges, hnil,
      List.append_nil]
  have hfollows : Follows H constants a f :=
    (show AcceptedChain H V constants (a ++ [f]) from
      (show AcceptedChain H V constants (a ++ [f] ++ c) by simpa using h).of_append (by simp)).follows
  rw [slotStartChallenge, hwalk, ok_bind, (hfollows.lastSlotHash_eq hf).1, slotHash]
  simp only [hsplit]
  rcases List.eq_nil_or_concat f.1.finishedSubSlots with hslots | ⟨init, slot, hslots⟩
  · obtain rfl := h.eq_nil_of_first hf hslots
    simp [hslots, slotChallenges]
  · rw [List.concat_eq_append] at hslots
    simp [hslots]

variable {skipVdf : Bool} {expectedDifficulty expectedSubSlotIters : ℕ}

lemma checkSlots_last {prevB : Option BlockRecord} {canFinishEpoch : Bool} {prevSlot : Option EndOfSubSlotBundle}
    {sesHash sesHash' : Option Bytes32} {init : List EndOfSubSlotBundle} {slot : EndOfSubSlotBundle}
    (h : checkSlots H V constants blocks prevB canFinishEpoch expectedDifficulty expectedSubSlotIters skipVdf prevSlot sesHash (init ++ [slot]) = .ok sesHash') :
    slotStartChallenge H constants blocks prevB (init.getLast?.or prevSlot) =
      .ok slot.challengeChain.challengeChainEndOfSlotVdf.challenge := by
  induction init generalizing prevSlot sesHash with
  | nil =>
    rw [List.nil_append, checkSlots] at h
    obtain ⟨_, hslot, -⟩ := bind_eq_ok.mp h
    unfold checkSlot at hslot
    obtain ⟨challenge, hchallenge, hslot⟩ := bind_eq_ok.mp hslot
    obtain ⟨_, hsame, -⟩ := bind_eq_ok.mp hslot
    rw [not_not.mp (rejectIf_eq_ok.mp hsame)]
    exact raising_eq_ok.mp hchallenge
  | cons first init ih =>
    rw [List.cons_append, checkSlots] at h
    obtain ⟨_, -, h⟩ := bind_eq_ok.mp h
    have hlast := ih h
    rw [List.getLast?_cons]
    cases hinit : init.getLast? with
    | none =>
      rw [hinit] at hlast
      exact hlast
    | some last =>
      rw [hinit] at hlast
      exact hlast

lemma challengeOfSubSlot_length {hashes : List Bytes32} :
    challengeOfSubSlot constants hashes hashes.length =
      some ((constants.GENESIS_CHALLENGE :: hashes).getLast (by simp)) := by
  rw [challengeOfSubSlot, ← List.getLast?_eq_some_getLast, List.getLast?_eq_getElem?, List.length_cons,
    Nat.add_sub_cancel]

lemma challengeOfSubSlot_append {hashes more : List Bytes32} {subSlot : ℕ} (h : subSlot ≤ hashes.length) :
    challengeOfSubSlot constants (hashes ++ more) subSlot = challengeOfSubSlot constants hashes subSlot := by
  rw [challengeOfSubSlot, challengeOfSubSlot, ← List.cons_append,
    List.getElem?_append_left (by simpa using Nat.lt_succ_of_le h)]

/-- The challenge of a block with bundles is right: the last bundle names the one before, or the end of the
chain. -/
lemma findsChallenge_of_slots {skip check overflow skipLast : Bool}
    (hreach : ReachesChallenge H V constants blocks hb expectedDifficulty expectedSubSlotIters skip skipVdf check overflow skipLast)
    (hchain : LastOf H V constants blocks (blocks.get hb.prevHeaderHash) es) {init : List EndOfSubSlotBundle}
    {slot : EndOfSubSlotBundle} (hslots : hb.finishedSubSlots = init ++ [slot]) :
    FindsChallenge H constants blocks es hb overflow skipLast := by
  set hashes := slotChallenges H es ++ init.map fun s => H.challengeChainSubSlot s.challengeChain with hhashes
  have hall : slotChallenges H es ++
      hb.finishedSubSlots.map (fun s => H.challengeChainSubSlot s.challengeChain) =
        hashes ++ [H.challengeChainSubSlot slot.challengeChain] := by
    rw [hslots, List.map_append, List.map_singleton, ← List.append_assoc]
  rw [FindsChallenge, getBlockChallenge, hslots, List.getLast?_concat, ← hslots]
  simp only [hall, List.length_append, List.length_singleton]
  cases hcase : overflow && !skipLast with
  | false =>
    -- the signage point lies after the last bundle
    refine ⟨_, if_neg Bool.false_ne_true, fun subSlot hsub => ?_⟩
    obtain rfl : hashes.length + 1 = subSlot := by
      cases overflow <;> cases skipLast <;> simp_all [signagePointSubSlot]
    have hlast := @challengeOfSubSlot_length constants (hashes ++ [H.challengeChainSubSlot slot.challengeChain])
    rw [List.length_append, List.length_singleton] at hlast
    rw [hlast]
    simp
  | true =>
    -- the signage point lies before the last bundle
    obtain ⟨rfl, hskip⟩ := Bool.and_eq_true_iff.mp hcase
    obtain rfl : skipLast = false := by simpa using hskip
    refine ⟨_, if_pos rfl, fun subSlot hsub => ?_⟩
    obtain rfl : hashes.length = subSlot := by simpa [signagePointSubSlot] using hsub
    obtain ⟨n, height, canFinishSe, canFinishEpoch, hfinished, -, hchecked, -⟩ := hreach.checks
    have hn : decide (n > 0) = true := by
      unfold finishedSubSlotsSincePrev at hfinished
      split at hfinished
      · obtain ⟨included, -, hfinished⟩ := bind_eq_ok.mp hfinished
        have hpair := Except.ok.inj hfinished
        split at hpair
        · rw [← (Prod.mk.inj hpair).2, hslots]
          simp
        · rw [← (Prod.mk.inj hpair).2]
          simp
      · rw [← (Prod.mk.inj (Except.ok.inj hfinished)).2, hslots]
        simp
    rw [checkFinishedSubSlots, hn, hslots] at hchecked
    obtain ⟨sesHash, hloop, -⟩ := bind_eq_ok.mp hchecked
    have hlast := checkSlots_last hloop
    rw [Option.or_none] at hlast
    rw [challengeOfSubSlot_append le_rfl, challengeOfSubSlot_length, hhashes]
    congr 1
    rcases List.eq_nil_or_concat init with rfl | ⟨init, last, rfl⟩
    · cases hprev : blocks.get hb.prevHeaderHash with
      | none =>
        rw [hprev] at hlast hchain
        obtain rfl : es = [] := hchain
        exact Except.ok.inj hlast
      | some p =>
        rw [hprev] at hlast hchain
        rw [List.getLast?_nil, hchain.1.slotStartChallenge_eq hchain.2] at hlast
        simpa using Except.ok.inj hlast
    · rw [List.concat_eq_append, List.getLast?_concat] at hlast
      simpa using Except.ok.inj hlast

lemma AcceptedChain.challengeOnTop_eq (h : AcceptedChain H V constants (g :: es))
    (hget : blocks.get hb.prevHeaderHash = some p) (hpath : blocks.Chain p ((g :: es).map Prod.snd)) {n : ℕ}
    (hn : 0 < n) :
    challengeOnTop blocks hb.prevHeaderHash n = pyIndex
      ((if g.1.finishedSubSlots = [] then constants.GENESIS_CHALLENGE :: slotChallenges H (g :: es)
        else slotChallenges H (g :: es)).reverse) (n - 1) := by
  rw [Chives.challengeOnTop_eq hget hpath h.genesis_hashes hn, h.recordedChallenges_eq,
    @slotChallenges_cons H es g]
  by_cases hnil : g.1.finishedSubSlots = []
  · rw [if_pos hnil, if_pos hnil, show slotChallenges H [g] = [] by simp [slotChallenges, hnil]]
    rfl
  · rw [if_neg hnil, if_neg hnil]

lemma pyIndex_reverse_zero {l : List Bytes32} (hl : l ≠ []) : pyIndex l.reverse 0 = .ok (l.getLast hl) := by
  rw [pyIndex, ← List.head?_eq_getElem?, List.head?_reverse, List.getLast?_eq_some_getLast hl]

lemma inGenesisSubSlot_iff (hslots : hb.finishedSubSlots = []) :
    InGenesisSubSlot (g :: es) hb true false ↔ (slotChallenges H (g :: es)).length ≤ 1 ∧
      (slotChallenges H (g :: es) = [] ∨ g.1.finishedSubSlots ≠ []) := by
  have hlen : (slotChallenges H (g :: es)).length =
      g.1.finishedSubSlots.length + (slotChallenges H es).length := by
    simp [slotChallenges]
  have hnil : slotChallenges H es = [] ↔ ∀ e ∈ es, e.1.finishedSubSlots = [] := by
    simp [slotChallenges, List.flatMap_eq_nil_iff]
  have hgenesis : InGenesisSubSlot (g :: es) hb true false ↔
      g.1.finishedSubSlots.length ≤ 1 ∧ slotChallenges H es = [] := by
    rw [hnil]
    constructor
    · rintro ⟨-, -, -, g', rest, heq, hone, hrest⟩
      obtain ⟨rfl, rfl⟩ := List.cons.inj heq
      exact ⟨hone, hrest⟩
    · rintro ⟨hone, hrest⟩
      exact ⟨hslots, rfl, rfl, g, es, rfl, hone, hrest⟩
  rw [hgenesis, ← List.length_eq_zero_iff, ← List.length_eq_zero_iff, ← List.length_pos_iff, hlen]
  omega

lemma AcceptedChain.lastChallenge_eq (h : AcceptedChain H V constants (g :: es))
    (hget : blocks.get hb.prevHeaderHash = some p) (hpath : blocks.Chain p ((g :: es).map Prod.snd)) :
    challengeOnTop blocks hb.prevHeaderHash 1 =
      .ok ((constants.GENESIS_CHALLENGE :: slotChallenges H (g :: es)).getLast (by simp)) := by
  rw [h.challengeOnTop_eq hget hpath Nat.one_pos]
  split
  · exact pyIndex_reverse_zero _
  · rename_i hcarried
    have hne : slotChallenges H (g :: es) ≠ [] := by simp [slotChallenges, hcarried]
    rw [pyIndex_reverse_zero hne, List.getLast_cons hne]

/-- Before the last bundle of a chain the challenge is right, except for the sub slot of the genesis block.

**Proof sketch.** The hash asked for is the last one of those before the last bundle. If there is none of
them, it is the genesis challenge, which is only recorded for a genesis block without bundles. -/
lemma AcceptedChain.secondChallenge_iff (h : AcceptedChain H V constants (g :: es))
    (hget : blocks.get hb.prevHeaderHash = some p) (hpath : blocks.Chain p ((g :: es).map Prod.snd))
    (hslots : hb.finishedSubSlots = []) :
    (∃ challenge, challengeOnTop blocks hb.prevHeaderHash 2 = .ok challenge ∧
      ∀ subSlot, signagePointSubSlot (slotChallenges H (g :: es)).length true false = some subSlot →
        challengeOfSubSlot constants (slotChallenges H (g :: es)) subSlot = some challenge) ↔
      ¬InGenesisSubSlot (g :: es) hb true false := by
  rw [h.challengeOnTop_eq hget hpath Nat.two_pos, inGenesisSubSlot_iff hslots]
  rcases List.eq_nil_or_concat (slotChallenges H (g :: es)) with hnil | ⟨init, last, hlast⟩
  · rw [hnil]
    refine iff_of_false ?_ (not_not.mpr ⟨by simp, .inl rfl⟩)
    rintro ⟨challenge, hok, -⟩
    split at hok <;> cases hok
  rw [List.concat_eq_append] at hlast
  have hsub : signagePointSubSlot (init ++ [last]).length true false = some init.length := by
    simp [signagePointSubSlot]
  rw [hlast, hsub]
  have hchallenge : challengeOfSubSlot constants (init ++ [last]) init.length =
      some ((constants.GENESIS_CHALLENGE :: init).getLast (by simp)) := by
    rw [challengeOfSubSlot_append le_rfl, challengeOfSubSlot_length]
  have hsecond : ∀ l : List Bytes32, pyIndex (l ++ [last]).reverse (2 - 1) = pyIndex l.reverse 0 := by
    intro l
    rw [List.reverse_append, List.reverse_singleton]
    rfl
  by_cases hcarried : g.1.finishedSubSlots = []
  · -- the records hold the genesis challenge
    rw [if_pos hcarried, ← List.cons_append, hsecond, pyIndex_reverse_zero (List.cons_ne_nil _ _)]
    refine iff_of_true ⟨_, rfl, fun subSlot hsub => ?_⟩ fun h => ?_
    · rw [← Option.some.inj hsub, hchallenge]
    · exact h.2.elim (by simp) fun h => h hcarried
  · rw [if_neg hcarried, hsecond]
    by_cases hinit : init = []
    · subst hinit
      refine iff_of_false ?_ (not_not.mpr ⟨by simp, .inr hcarried⟩)
      rintro ⟨challenge, hok, -⟩
      cases hok
    · rw [pyIndex_reverse_zero hinit]
      refine iff_of_true ⟨_, rfl, fun subSlot hsub => ?_⟩ fun h => hinit ?_
      · rw [← Option.some.inj hsub, hchallenge, List.getLast_cons hinit]
      · have hone := h.1
        rw [List.length_append, List.length_singleton] at hone
        exact List.length_eq_zero_iff.mp (by omega)

/-- **The challenge of a block is that of the sub slot of its signage point**, for every block that header
validation calls `get_block_challenge` for, on top of a chain of accepted blocks or at its start, exactly if it
is not an overflow block without bundles on top of a chain with at most one bundle, which the genesis block
carries.

**Proof sketch.** The last bundle of a block was checked to start from the hash of the bundle before it. For a
block without bundles the records hold the genesis challenge and the hashes of all bundles, or, if the genesis
block carries a bundle, only the hashes. The last of them is the last challenge in both cases. The second to
last one is missing if there is only one. -/
theorem getBlockChallenge_exact_iff {skip skipVdf check overflow skipLast : Bool}
    {expectedDifficulty expectedSubSlotIters : ℕ}
    (hreach : ReachesChallenge H V constants blocks hb expectedDifficulty expectedSubSlotIters skip skipVdf
      check overflow skipLast)
    (hchain : LastOf H V constants blocks (blocks.get hb.prevHeaderHash) es) :
    FindsChallenge H constants blocks es hb overflow skipLast ↔ ¬InGenesisSubSlot es hb overflow skipLast := by
  rcases List.eq_nil_or_concat hb.finishedSubSlots with hslots | ⟨init, slot, hslots⟩
  swap
  · rw [List.concat_eq_append] at hslots
    refine iff_of_true (findsChallenge_of_slots hreach hchain hslots) fun hgenesis => ?_
    have hnil := hgenesis.1
    rw [hslots] at hnil
    simp at hnil
  cases hprev : blocks.get hb.prevHeaderHash with
  | none =>
    rw [hprev] at hchain
    obtain rfl : es = [] := hchain
    refine iff_of_true ⟨constants.GENESIS_CHALLENGE, ?_, fun subSlot hsub => ?_⟩ ?_
    · rw [getBlockChallenge, hslots, hprev]
      rfl
    · obtain rfl : subSlot = 0 := by
        rw [hslots] at hsub
        cases overflow <;> cases skipLast <;> simp_all [signagePointSubSlot, slotChallenges]
      rfl
    · rintro ⟨-, -, -, g, rest, hnil, -⟩
      cases hnil
  | some p =>
    rw [hprev] at hchain
    obtain ⟨haccepted, hpath⟩ := hchain
    obtain ⟨g, rest, rfl⟩ := List.exists_cons_of_ne_nil haccepted.ne_nil
    rw [FindsChallenge, getBlockChallenge, hslots, hprev]
    simp only [List.getLast?_nil, Option.isNone_some, Bool.false_eq_true, if_false, List.map_nil,
      List.append_nil]
    cases hcase : overflow && !skipLast with
    | false =>
      refine iff_of_true ⟨_, by rw [if_neg Bool.false_ne_true, haccepted.lastChallenge_eq hprev hpath],
        fun subSlot hsub => ?_⟩ fun hgenesis => ?_
      · obtain rfl : (slotChallenges H (g :: rest)).length = subSlot := by
          cases overflow <;> cases skipLast <;> simp_all [signagePointSubSlot]
        exact challengeOfSubSlot_length
      · obtain ⟨-, rfl, rfl, -⟩ := hgenesis
        cases hcase
    | true =>
      obtain ⟨rfl, hskip⟩ := Bool.and_eq_true_iff.mp hcase
      obtain rfl : skipLast = false := by simpa using hskip
      rw [if_pos rfl]
      exact haccepted.secondChallenge_iff hprev hpath hslots

end OnChain

/-! ## A second overflow block after an overflow genesis block -/

section AfterOverflowGenesis

/-- The cache with the record of the overflow genesis block. -/
def overflowGenesisCache : BlockRecords := ofRecords [overflowGenesisRecord]

lemma ancestorsPresent_overflowGenesis :
    AncestorsPresent overflowGenesisCache overflowGenesisRecord [overflowGenesisRecord] where
  chain := .root rfl
  genesis g hg := by
    rw [← Option.some.inj hg]
    decide +kernel

/-- A header on top of the overflow genesis block, in the same sub slot and at the next signage point, which
is the last one of the first sub slot. -/
def secondOverflow : UnfinishedHeaderBlock :=
  let header := (getBlockHeader (fun _ => []) overflowGenesis [] []).unfinished
  { header with
    finishedSubSlots := []
    rewardChainBlock := { header.rewardChainBlock with
      totalIters := 134217728 + 4194305
      signagePointIndex := 63 }
    foliage := { header.foliage with prevBlockHash := Bytes32.ofNat 1 } }

lemma reachesChallenge_secondOverflow : ReachesChallenge sampleBlockchainTools.H sampleBlockchainTools.V
    defaultConstants overflowGenesisCache secondOverflow defaultConstants.DIFFICULTY_STARTING
    defaultConstants.SUB_SLOT_ITERS_STARTING false false true true false where
  prevB := by decide +kernel
  overflow_eq := by decide +kernel
  checks := ⟨0, 1, false, false, by decide +kernel, by decide +kernel, by decide +kernel, by decide +kernel⟩

lemma lastOf_secondOverflow : LastOf sampleBlockchainTools.H sampleBlockchainTools.V defaultConstants
    overflowGenesisCache (overflowGenesisCache.get secondOverflow.prevHeaderHash)
    [(overflowGenesis, overflowGenesisRecord)] := by
  have hprev : overflowGenesisCache.get secondOverflow.prevHeaderHash = some overflowGenesisRecord := by
    decide +kernel
  rw [hprev]
  exact ⟨acceptedChain_overflowGenesis, .root rfl⟩

/-- The challenge of the header is found exactly if it is not in the sub slot of the genesis block. -/
theorem getBlockChallenge_exact_iff_secondOverflow :
    FindsChallenge sampleBlockchainTools.H defaultConstants overflowGenesisCache
        [(overflowGenesis, overflowGenesisRecord)] secondOverflow true false ↔
      ¬InGenesisSubSlot [(overflowGenesis, overflowGenesisRecord)] secondOverflow true false :=
  getBlockChallenge_exact_iff reachesChallenge_secondOverflow lastOf_secondOverflow

/-- The challenge of the header is the genesis challenge, since its signage point lies in the first sub slot,
but no record holds it: the function raises an `IndexError`, with which validation ends. -/
theorem secondOverflow_not_found :
    ReachesChallenge sampleBlockchainTools.H sampleBlockchainTools.V defaultConstants overflowGenesisCache
        secondOverflow defaultConstants.DIFFICULTY_STARTING defaultConstants.SUB_SLOT_ITERS_STARTING false false
        true true false ∧
      LastOf sampleBlockchainTools.H sampleBlockchainTools.V defaultConstants overflowGenesisCache
        (overflowGenesisCache.get secondOverflow.prevHeaderHash) [(overflowGenesis, overflowGenesisRecord)] ∧
      signagePointSubSlot 1 true false = some 0 ∧
      validateUnfinishedHeaderBlock sampleBlockchainTools.H sampleBlockchainTools.V defaultConstants
        overflowGenesisCache secondOverflow true defaultConstants.DIFFICULTY_STARTING
        defaultConstants.SUB_SLOT_ITERS_STARTING false false true 0 = .error (.raised .indexError) ∧
      ¬FindsChallenge sampleBlockchainTools.H defaultConstants overflowGenesisCache
        [(overflowGenesis, overflowGenesisRecord)] secondOverflow true false := by
  refine ⟨reachesChallenge_secondOverflow, lastOf_secondOverflow, rfl, by decide +kernel, ?_⟩
  rintro ⟨challenge, hok, -⟩
  have hraised : getBlockChallenge sampleBlockchainTools.H defaultConstants secondOverflow.finishedSubSlots
      secondOverflow.prevHeaderHash overflowGenesisCache
      (overflowGenesisCache.get secondOverflow.prevHeaderHash).isNone true false = .error .indexError := by
    decide +kernel
  rw [hraised] at hok
  cases hok

end AfterOverflowGenesis

end Chives
