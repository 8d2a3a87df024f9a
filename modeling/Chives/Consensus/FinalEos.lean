import Chives.Consensus.SlotTimeline

set_option autoImplicit false

/-!
# The missing sub slot of an overflow block

An overflow block is made before the sub slot of its signage point has ended, and it may lack the bundle of
that sub slot. `final_eos_is_already_included` decides whether an ancestor carries the bundle by looking for an
overflow ancestor that is close. It is right because of where blocks can lie in a sub slot: overflow blocks
come first, and an overflow block of the sub slot before is more than half a sub slot away.

## Main definitions

* `ExtendsOverflow` — an unfinished overflow block whose total iterations follow the header rules.

## Main results

* `ExtendsOverflow.included` — `final_eos_is_already_included` for a block without bundles.
* `finalEos_exact` — the function is exact.
-/

namespace Chives

open ExceptRun BlockRecords

section FinalEos

variable (H : Hashes) (V : Verifiers) (constants : ConsensusConstants)

/-- An unfinished overflow block on a chain of accepted blocks: `n` sub slots end between the last block
and its infusion point, of which it carries all or all but the last, and its total iterations pass steps 9
and 10 of header validation. If no sub slot ends, the block is not infused before the last one. -/
structure ExtendsOverflow (blocks : BlockchainInterface) (es : List Entry) (p : BlockRecord)
    (hb : UnfinishedHeaderBlock) (n subSlotIters ipIters : ℕ) : Prop where
  chain : AcceptedChain H V constants es
  cache : blocks.records.Chain p (es.map Prod.snd)
  prev : blocks.records.get hb.prevHeaderHash = some p
  overflow : isOverflowBlock constants hb.rewardChainBlock.signagePointIndex = .ok true
  carried : n = hb.finishedSubSlots.length ∨ n = hb.finishedSubSlots.length + 1
  rules : ∃ difficulty height canFinishSe canFinishEpoch requiredIters spIters spTotalIters,
    getNextSubSlotItersAndDifficulty constants (decide (hb.finishedSubSlots ≠ [])) (some p) blocks =
      .ok (subSlotIters, difficulty) ∧
    heightAndEpoch constants blocks.records (some p) (decide (n > 0)) difficulty subSlotIters =
      .ok (height, canFinishSe, canFinishEpoch) ∧
    calculateSpIters constants subSlotIters hb.rewardChainBlock.signagePointIndex = .ok spIters ∧
    calculateIpIters constants subSlotIters hb.rewardChainBlock.signagePointIndex requiredIters =
      .ok ipIters ∧
    checkTotalIters constants hb (some p) true canFinishEpoch n subSlotIters spIters ipIters =
      .ok spTotalIters
  order : n = 0 → p.totalIters ≤ hb.totalIters

variable {H V constants} {blocks : BlockchainInterface} {es : List Entry} {p : BlockRecord}
  {hb : UnfinishedHeaderBlock} {n subSlotIters ipIters : ℕ}

lemma exists_tip (hcache : blocks.records.Chain p (es.map Prod.snd)) :
    ∃ init e, es = init ++ [e] ∧ e.2 = p := by
  have hlast := ParentTree.Path.getLast?_eq hcache
  rw [List.getLast?_map, Option.map_eq_some_iff] at hlast
  obtain ⟨e, he, rfl⟩ := hlast
  obtain ⟨init, hinit⟩ := List.getLast?_eq_some_iff.mp he
  exact ⟨init, e, hinit, rfl⟩

lemma ExtendsOverflow.placed (h : ExtendsOverflow H V constants blocks es p hb n subSlotIters ipIters) :
    ∃ interval requiredIters spTotalIters, Placed constants (some p) n subSlotIters interval
      hb.rewardChainBlock.signagePointIndex requiredIters ipIters spTotalIters hb.totalIters true := by
  obtain ⟨difficulty, height, canFinishSe, canFinishEpoch, requiredIters, spIters, spTotalIters, hnext,
    hepoch, hsp, hip, htotal⟩ := h.rules
  obtain ⟨init, e, hes, rfl⟩ := exists_tip h.cache
  have hfollows : Follows H constants init e := (hes ▸ h.chain).follows
  have hnew : decide (hb.finishedSubSlots ≠ []) = true → 0 < n := fun hnew => by
    have hpos : 0 < hb.finishedSubSlots.length := List.length_pos_iff.mpr (of_decide_eq_true hnew)
    have hcarried := h.carried
    omega
  obtain ⟨interval, hplaced⟩ := placed_of_checks hnext hnew h.overflow hepoch hsp hip htotal
    fun q hq => by
      rw [← Option.some.inj hq]
      exact hfollows.starting
  exact ⟨interval, requiredIters, spTotalIters, hplaced⟩

lemma mul_extra_le_half {interval : ℕ}
    (hN : 2 * constants.NUM_SP_INTERVALS_EXTRA ≤ constants.NUM_SPS_SUB_SLOT) :
    interval * constants.NUM_SP_INTERVALS_EXTRA ≤ interval * constants.NUM_SPS_SUB_SLOT / 2 ∧
      interval * constants.NUM_SPS_SUB_SLOT / 2 + interval * constants.NUM_SP_INTERVALS_EXTRA ≤
        interval * constants.NUM_SPS_SUB_SLOT := by
  have hle := Nat.mul_le_mul_left interval hN
  rw [show interval * (2 * constants.NUM_SP_INTERVALS_EXTRA) =
    2 * (interval * constants.NUM_SP_INTERVALS_EXTRA) by ring] at hle
  omega

/-- Without a sub slot between them, the last block is an overflow block and close.

**Proof sketch.** Both blocks lie in one sub slot, and the last block is not infused later than the new one,
whose infusion point is in the part for overflow blocks. -/
lemma ExtendsOverflow.close (h : ExtendsOverflow H V constants blocks es p hb n subSlotIters ipIters)
    (hN : 2 * constants.NUM_SP_INTERVALS_EXTRA ≤ constants.NUM_SPS_SUB_SLOT)
    (hE : constants.NUM_SP_INTERVALS_EXTRA < constants.NUM_SPS_SUB_SLOT) (hn : n = 0) :
    isCloseOverflow hb.totalIters subSlotIters p = true := by
  obtain ⟨interval, requiredIters, spTotalIters, hplaced⟩ := h.placed
  obtain ⟨init, e, hes, rfl⟩ := exists_tip h.cache
  have hfollows : Follows H constants init e := (hes ▸ h.chain).follows
  obtain ⟨intervalP, ipP, htimed⟩ := hfollows.timed
  have hsame := hplaced.same e.2 rfl (.inl hn)
  obtain rfl : intervalP = interval := by
    have hi := htimed.interval_eq
    rw [← hsame, hplaced.interval_eq] at hi
    exact (Except.ok.inj hi).symm
  obtain ⟨ipp, hipp, htotal⟩ := hplaced.inSlot e.2 rfl hn
  obtain rfl : ipp = ipP := by
    rw [htimed.ipIters] at hipp
    exact (Except.ok.inj hipp).symm
  have horder := h.order hn
  obtain ⟨-, hbefore⟩ := hplaced.infusion.eq_of_overflow hE (of_decide_eq_true hplaced.overflow_eq.symm)
  obtain ⟨-, hslot, -⟩ := calculateSpIntervalIters_eq_ok.mp hplaced.interval_eq
  obtain ⟨hhalf, -⟩ := @mul_extra_le_half constants intervalP hN
  have hover : e.2.overflow = true := by
    have htotalE := htimed.total
    exact htimed.overflow_of_le hplaced.infusion (of_decide_eq_true hplaced.overflow_eq.symm)
      (by omega) horder
  rw [isCloseOverflow, hover, Bool.true_and, decide_eq_true_iff, hslot]
  omega

/-- With a sub slot between them, no block of the last sub slot is an overflow block and close.

**Proof sketch.** An overflow block is infused near the start of its sub slot, and the new block after the
end of it: the rest of the sub slot, more than half of it, lies between them. -/
lemma ExtendsOverflow.not_close {a c : List Entry} {f x : Entry}
    (h : ExtendsOverflow H V constants blocks (a ++ f :: c) p hb n subSlotIters ipIters)
    (hN : 2 * constants.NUM_SP_INTERVALS_EXTRA ≤ constants.NUM_SPS_SUB_SLOT)
    (hE : constants.NUM_SP_INTERVALS_EXTRA < constants.NUM_SPS_SUB_SLOT) (hn : n = 1)
    (hc : ∀ x ∈ c, x.1.finishedSubSlots = []) (hx : x ∈ f :: c) :
    isCloseOverflow hb.totalIters subSlotIters x.2 = false := by
  obtain ⟨interval, requiredIters, spTotalIters, hplaced⟩ := h.placed
  obtain ⟨init, e, hes, rfl⟩ := exists_tip h.cache
  have hpart := h.chain.slotPart hc
  have he : e ∈ f :: c := by
    have hlast := congrArg List.getLast? hes
    rw [List.getLast?_append_cons, List.getLast?_concat] at hlast
    exact List.mem_of_getLast? hlast
  obtain ⟨hitersE, intervalE, ipE, htimedE⟩ := hpart e he
  obtain ⟨hitersX, intervalX, ipX, htimedX⟩ := hpart x hx
  have hsame := hplaced.same e.2 rfl (.inr ⟨rfl, hn⟩)
  obtain rfl : intervalX = interval := by
    have hi := htimedX.interval_eq
    rw [hitersX, ← hitersE, ← hsame, hplaced.interval_eq] at hi
    exact (Except.ok.inj hi).symm
  obtain ⟨ipp, hipp, htotal⟩ := hplaced.newSlot e.2 rfl (by omega)
  obtain rfl : ipp = ipE := by
    rw [htimedE.ipIters] at hipp
    exact (Except.ok.inj hipp).symm
  rw [isCloseOverflow]
  cases hover : x.2.overflow with
  | false => rfl
  | true =>
    have hflag := htimedX.overflow_eq
    rw [hover] at hflag
    obtain ⟨-, hbefore⟩ := htimedX.infusion.eq_of_overflow hE (of_decide_eq_true hflag.symm)
    obtain ⟨-, hslot, -⟩ := calculateSpIntervalIters_eq_ok.mp hplaced.interval_eq
    obtain ⟨-, hhalf⟩ := @mul_extra_le_half constants intervalX hN
    have htotalE := htimedE.total
    have htotalX := htimedX.total
    subst hn
    rw [Bool.true_and, decide_eq_false_iff_not, ← hslot] at *
    omega

lemma ExtendsOverflow.start (h : ExtendsOverflow H V constants blocks es p hb n subSlotIters ipIters) :
    (n = 0 → hb.totalIters + p.subSlotIters = slotEnd constants es + ipIters) ∧
      (0 < n → slotEnd constants es + ipIters ≤ hb.totalIters) := by
  obtain ⟨interval, requiredIters, spTotalIters, hplaced⟩ := h.placed
  obtain ⟨init, e, hes, rfl⟩ := exists_tip h.cache
  have hfollows : Follows H constants init e := (hes ▸ h.chain).follows
  obtain ⟨intervalP, ipP, htimed⟩ := hfollows.timed
  have htotalP := htimed.total
  rw [← hes] at htotalP
  refine ⟨fun hn => ?_, fun hn => ?_⟩
  · obtain ⟨ipp, hipp, htotal⟩ := hplaced.inSlot e.2 rfl hn
    obtain rfl : ipp = ipP := by
      rw [htimed.ipIters] at hipp
      exact (Except.ok.inj hipp).symm
    omega
  · obtain ⟨ipp, hipp, htotal⟩ := hplaced.newSlot e.2 rfl hn
    obtain rfl : ipp = ipP := by
      rw [htimed.ipIters] at hipp
      exact (Except.ok.inj hipp).symm
    have hle : 1 * subSlotIters ≤ n * subSlotIters := Nat.mul_le_mul_right _ hn
    omega

/-- The bundle that ends where the sub slot of the new block starts is in the chain exactly if no sub slot
ends between the last block and the new one.

**Proof sketch.** Otherwise the sub slot of the new block starts where the last one of the chain ends, or
later, and no bundle of the chain ends there. Without a sub slot in between it is the last one of the chain,
and the first block in that carries the bundle: it is no genesis block without bundles, for the first sub
slot has no overflow blocks. -/
lemma ExtendsOverflow.included_iff (h : ExtendsOverflow H V constants blocks es p hb n subSlotIters ipIters) :
    (∃ x ∈ slotEnds constants es, x.1 + ipIters = hb.totalIters) ↔ n = 0 := by
  obtain ⟨hin, hout⟩ := h.start
  obtain ⟨a, f, c, rfl, hf, hc⟩ := h.chain.exists_slotPart
  have hc' : ∀ x ∈ c, x.1.finishedSubSlots = [] := fun x hx => (hc x hx).2
  have hpart := h.chain.slotPart hc'
  obtain ⟨-, intervalF, ipF, htimedF⟩ := hpart f List.mem_cons_self
  have hpos : 0 < f.2.subSlotIters := by
    obtain ⟨-, hslot, -⟩ := calculateSpIntervalIters_eq_ok.mp htimedF.interval_eq
    rw [hslot]
    exact Nat.zero_lt_of_lt htimedF.infusion.lt
  have hsame : p.subSlotIters = f.2.subSlotIters := by
    obtain ⟨init, e, hes, rfl⟩ := exists_tip h.cache
    have hlast := congrArg List.getLast? hes
    rw [List.getLast?_append_cons, List.getLast?_concat] at hlast
    exact (hpart e (List.mem_of_getLast? hlast)).1
  constructor
  · rintro ⟨x, hx, heq⟩
    have hle := h.chain.ends_le hf hc' hx
    by_contra hn
    have := hout (Nat.pos_of_ne_zero hn)
    omega
  · intro hn
    have hstart := hin hn
    rcases List.eq_nil_or_concat f.1.finishedSubSlots with hnil | ⟨init, slot, hslots⟩
    · -- the first sub slot is too early for an overflow block
      exfalso
      obtain rfl := h.chain.eq_nil_of_first hf hnil
      obtain ⟨interval, requiredIters, spTotalIters, hplaced⟩ := h.placed
      have hiters : subSlotIters = p.subSlotIters := by
        obtain ⟨init, e, hes, rfl⟩ := exists_tip h.cache
        exact hplaced.same e.2 rfl (.inl hn)
      have hend : slotEnd constants ([] ++ f :: c) = f.2.subSlotIters := by
        rw [List.nil_append, (slotEnds_eq_nil hnil hc').2, (h.chain.head_follows.genesis rfl).2]
      obtain ⟨-, hslot, -⟩ := calculateSpIntervalIters_eq_ok.mp hplaced.interval_eq
      have hindex : interval * hb.rewardChainBlock.signagePointIndex <
          interval * constants.NUM_SPS_SUB_SLOT :=
        Nat.mul_lt_mul_of_pos_left hplaced.infusion.index
          (lt_trans hplaced.infusion.required hplaced.infusion.below)
      have hsp := hplaced.sp
      rw [if_pos rfl] at hsp
      omega
    · rw [List.concat_eq_append] at hslots
      obtain ⟨start, hsum, -, hends⟩ := @slotEnds_of_slotPart constants a c f init slot hc' hslots
      refine ⟨(start, slot), ?_, ?_⟩
      · rw [hends]
        simp
      · show start + ipIters = hb.totalIters
        omega

/-- **The search for the missing sub slot is exact.** For an unfinished overflow block on a chain of accepted
blocks with the default constants, `final_eos_is_already_included` returns true exactly if a block of the
chain carries the bundle that ends where the sub slot of the infusion point starts. -/
theorem finalEos_exact (h : ExtendsOverflow H V defaultConstants blocks es p hb n subSlotIters ipIters) :
    ∃ included, finalEosIsAlreadyIncluded hb.finishedSubSlots hb.prevHeaderHash hb.totalIters
        blocks.records subSlotIters = .ok included ∧
      (included = true ↔ ∃ x ∈ slotEnds defaultConstants es, x.1 + ipIters = hb.totalIters) := by
  rw [h.included_iff]
  have hN : 2 * defaultConstants.NUM_SP_INTERVALS_EXTRA ≤ defaultConstants.NUM_SPS_SUB_SLOT := by decide
  have hE : defaultConstants.NUM_SP_INTERVALS_EXTRA < defaultConstants.NUM_SPS_SUB_SLOT := by decide
  by_cases hslots : hb.finishedSubSlots = []
  · obtain ⟨a, f, c, rfl, hf, hc⟩ := h.chain.exists_slotPart
    have hc' : ∀ x ∈ c, x.1.finishedSubSlots = [] := fun x hx => (hc x hx).2
    -- the walk passes the blocks after the first one of the sub slot
    have hvisit : blocks.records.visit (fun r => r.firstInSubSlot || decide (r.height = 0)) p =
        .ok ((c.map Prod.snd).reverse, f.2) := by
      apply visit_eq_ok h.cache
      · rw [List.map_append, List.map_cons]
      · rw [hf, Bool.true_or]
      · intro r hr
        obtain ⟨x, hx, rfl⟩ := List.mem_map.mp hr
        obtain ⟨⟨hfirst, hheight⟩, -⟩ := hc x hx
        rw [hfirst, Bool.false_or, decide_eq_false_iff_not]
        exact hheight
    have hp : p ∈ (f :: c).map Prod.snd := by
      obtain ⟨init, e, hes, rfl⟩ := exists_tip h.cache
      have hlast := congrArg List.getLast? hes
      rw [List.getLast?_append_cons, List.getLast?_concat] at hlast
      exact List.mem_map_of_mem (List.mem_of_getLast? hlast)
    refine ⟨f.2.firstInSubSlot && (p :: (c.map Prod.snd).reverse).any (isCloseOverflow hb.totalIters
      subSlotIters), ?_, ?_⟩
    · rw [finalEosIsAlreadyIncluded, if_neg (not_not.mpr hslots), blockRecord_eq_ok h.prev, ok_bind,
        hvisit, ok_bind]
      rfl
    · rw [hf, Bool.true_and]
      constructor
      · intro hany
        by_contra hn
        have hone : n = 1 := by
          have hcarried := h.carried
          rw [hslots, List.length_nil] at hcarried
          omega
        obtain ⟨r, hr, hclose⟩ := List.any_eq_true.mp hany
        have hr : r ∈ (f :: c).map Prod.snd := by
          rcases List.mem_cons.mp hr with rfl | hr
          · exact hp
          · rw [List.map_cons]
            exact List.mem_cons_of_mem _ (List.mem_reverse.mp hr)
        obtain ⟨x, hx, rfl⟩ := List.mem_map.mp hr
        rw [h.not_close hN hE hone hc' hx] at hclose
        cases hclose
      · intro hn
        rw [List.any_cons, h.close hN hE hn, Bool.true_or]
  · refine ⟨false, ?_, ?_⟩
    · rw [finalEosIsAlreadyIncluded, if_pos hslots]
    · have hpos : 0 < hb.finishedSubSlots.length := List.length_pos_iff.mpr hslots
      have hcarried := h.carried
      simp
      omega

end FinalEos

/-- An overflow block after the genesis block of the samples that lacks the bundle of the first sub slot. -/
def firstOverflowBlock : UnfinishedHeaderBlock :=
  let header := (getBlockHeader (fun _ => []) genesisBlock [] []).unfinished
  { header with
    rewardChainBlock := { header.rewardChainBlock with
      signagePointIndex := 62
      challengeChainSpVdf := some ⟨Bytes32.zero, 130023424, defaultElement⟩
      totalIters := 134217728 + 2097153 }
    foliage := { header.foliage with prevBlockHash := Bytes32.ofNat 1 } }

lemma extendsOverflow_firstOverflowBlock : ExtendsOverflow sampleBlockchainTools.H sampleBlockchainTools.V
    defaultConstants genesisCache [(genesisBlock, genesisRecord)] genesisRecord firstOverflowBlock 1
    134217728 2097153 where
  chain := acceptedChain_genesisBlock
  cache := chain_genesisCache
  prev := by decide +kernel
  overflow := by decide +kernel
  carried := .inr rfl
  rules := ⟨7, 1, false, false, 1, 130023424, 130023424, by decide +kernel, by decide +kernel,
    by decide +kernel, by decide +kernel, by decide +kernel⟩
  order := fun h => absurd h (by decide)

/-- The bundle of the first sub slot is not included yet. -/
theorem finalEos_exact_firstOverflowBlock : ∃ included,
    finalEosIsAlreadyIncluded firstOverflowBlock.finishedSubSlots firstOverflowBlock.prevHeaderHash
      firstOverflowBlock.totalIters genesisCache.records 134217728 = .ok included ∧
    (included = true ↔ ∃ x ∈ slotEnds defaultConstants [(genesisBlock, genesisRecord)],
      x.1 + 2097153 = firstOverflowBlock.totalIters) :=
  finalEos_exact extendsOverflow_firstOverflowBlock

end Chives
