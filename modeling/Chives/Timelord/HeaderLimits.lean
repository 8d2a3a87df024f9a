import Chives.Timelord.RewardChallenges

set_option autoImplicit false

/-!
# Timelords and the limits on blocks

A timelord must not infuse a block that header validation would reject: no sub slot holds more than
`MAX_SUB_SLOT_BLOCKS` blocks, and there is no overflow block in the first sub slot of an epoch. The timelord counts the
entries of its cache and keeps a flag, while validation walks back along the records and asks whether the epoch may end.
Both agree after every run, and so do their total iterations at the end of a sub slot.

## Main definitions

* `SlotsFollow` — bundles that header validation accepts on top of a block.
* `TimelordRun` — the runs of a timelord that is given peaks of chains and the bundles that follow them.
* `ExceedsLimits` — a header that is rejected in step 4 or step 9.

## Main results

* `TimelordRun.inv` — the invariant of a run.
* `timelordRun_respects_limits` — timelords and header validation agree.

## Design

The peaks of a run may come in any order and from different chains, since a peak sets everything that is compared here.
-/

namespace Chives

open ExceptRun BlockRecords

/-! ## The bundles that follow a block -/

section Bundles

variable (H : Hashes) (V : Verifiers) (constants : ConsensusConstants)

/-- The bundles are the first ones of a list that header validation accepts on top of a block, with the parameters
that `get_next_sub_slot_iters_and_difficulty` gives. -/
def SlotsFollow (blocks : BlockchainInterface) (prevB : Option BlockRecord) (slots : List EndOfSubSlotBundle) : Prop :=
  ∃ (more : List EndOfSubSlotBundle) (skip : Bool) (subSlotIters difficulty height : ℕ)
    (canFinishSe canFinishEpoch : Bool),
    getNextSubSlotItersAndDifficulty constants true prevB blocks = .ok (subSlotIters, difficulty) ∧
    heightAndEpoch constants blocks.records prevB true difficulty subSlotIters =
      .ok (height, canFinishSe, canFinishEpoch) ∧
    checkFinishedSubSlots H V constants blocks.records prevB true canFinishSe canFinishEpoch difficulty subSlotIters
      skip true (slots ++ more) = .ok ()

variable {H V constants} {blocks : BlockchainInterface} {prevB : Option BlockRecord} {slots : List EndOfSubSlotBundle}
  {slot : EndOfSubSlotBundle} {subSlotIters difficulty height : ℕ} {canFinishSe canFinishEpoch : Bool}

lemma checkSlots_params {records : BlockRecords} {skip : Bool} {prevSlot : Option EndOfSubSlotBundle}
    {sesHash out : Option Bytes32}
    (h : checkSlots H V constants records prevB canFinishEpoch difficulty subSlotIters skip prevSlot sesHash slots =
      .ok out) : ∀ s ∈ slots,
      s.challengeChain.newSubSlotIters =
        (if canFinishEpoch && s.challengeChain.subepochSummaryHash.isSome then some subSlotIters else none) ∧
      s.challengeChain.newDifficulty =
        (if canFinishEpoch && s.challengeChain.subepochSummaryHash.isSome then some difficulty else none) := by
  induction slots generalizing prevSlot sesHash with
  | nil => simp
  | cons slot slots ih =>
    unfold checkSlots at h
    obtain ⟨next, hnext, h⟩ := bind_eq_ok.mp h
    obtain ⟨-, -, hiters, hdifficulty⟩ := checkSlotData_eq_ok (checkSlotData_of_checkSlot hnext)
    intro s hs
    rcases List.mem_cons.mp hs with rfl | hs
    · exact ⟨hiters, hdifficulty⟩
    · exact ih h s hs

/-- Only the first bundle after a block has new parameters, and it has them exactly if the epoch may end. -/
lemma SlotsFollow.params (h : SlotsFollow H V constants blocks prevB (slots ++ [slot]))
    (hnext : getNextSubSlotItersAndDifficulty constants true prevB blocks = .ok (subSlotIters, difficulty))
    (hepoch : heightAndEpoch constants blocks.records prevB true difficulty subSlotIters =
      .ok (height, canFinishSe, canFinishEpoch)) :
    slot.challengeChain.newSubSlotIters = (if canFinishEpoch = true ∧ slots = [] then some subSlotIters else none) ∧
      slot.challengeChain.newDifficulty = (if canFinishEpoch = true ∧ slots = [] then some difficulty else none) := by
  obtain ⟨more, skip, iters, d, _, _, _, hnext', hepoch', hchecked⟩ := h
  obtain ⟨rfl, rfl⟩ := Prod.mk.inj (Except.ok.inj (hnext.symm.trans hnext'))
  obtain ⟨rfl, hpair⟩ := Prod.mk.inj (Except.ok.inj (hepoch.symm.trans hepoch'))
  obtain ⟨rfl, rfl⟩ := Prod.mk.inj hpair
  unfold checkFinishedSubSlots at hchecked
  rw [if_neg (by simp)] at hchecked
  obtain ⟨out, hout, hsummary⟩ := bind_eq_ok.mp hchecked
  obtain ⟨hiters, hdifficulty⟩ := checkSlots_params hout slot (by simp)
  have hhash : canFinishEpoch = true → (slot.challengeChain.subepochSummaryHash.isSome = true ↔ slots = []) := by
    intro hep
    cases slots with
    | nil =>
      obtain ⟨rfl, -, -⟩ := checkSlots_first hout
      refine ⟨fun _ => rfl, fun _ => ?_⟩
      by_contra hnone
      rw [Option.not_isSome_iff_eq_none.mp hnone] at hsummary
      cases prevB with
      | none =>
        obtain ⟨_, -, hepoch⟩ := bind_eq_ok.mp hepoch
        obtain ⟨_, -, hepoch⟩ := bind_eq_ok.mp hepoch
        obtain ⟨-, hfalse⟩ := Prod.mk.inj (Prod.mk.inj (Except.ok.inj hepoch)).2
        rw [hep] at hfalse
        cases hfalse
      | some p => exact rejectIf_eq_ok.mp hsummary (.inr hep)
    | cons first rest =>
      obtain ⟨-, hrest, -⟩ := checkSlots_first hout
      rw [hrest slot (by simp)]
      simp
  cases canFinishEpoch with
  | false => simp [hiters, hdifficulty]
  | true =>
    rw [hiters, hdifficulty]
    simp only [Bool.true_and, hhash rfl, true_and, and_self]

end Bundles

/-! ## Runs -/

section Runs

variable (H : Hashes) (V : Verifiers) (constants : ConsensusConstants)

/-- The record of the last block of a chain. -/
def tipRecord (es : List Entry) : Option BlockRecord := es.getLast?.map Prod.snd

/-- A timelord has been given the last block of the chain `es`, by a full node with the cache `blocks`, and then the
bundles `slots` that follow it; or no block yet. -/
inductive TimelordRun : BlockchainInterface → List Entry → List EndOfSubSlotBundle → LastState → Prop
  | initial {blocks : BlockchainInterface} : TimelordRun blocks [] [] (LastState.initial constants)
  | peak {blocks blocks' : BlockchainInterface} {es es' : List Entry} {e : Entry} {slots : List EndOfSubSlotBundle}
      {s s' : LastState} {message : NewPeakTimelord} (hrun : TimelordRun blocks es slots s)
      (hchain : AcceptedChain H V constants (es' ++ [e]))
      (hpresent : AncestorsPresent blocks'.records e.2 ((es' ++ [e]).map Prod.snd))
      (hget : blocks'.records.get (e.1.headerHash H) = some e.2)
      (hsend : sendPeakToTimelords constants blocks' H (some e.2) e.1 = .ok message)
      (hset : s.setState H V constants (.inl message) = .ok s') : TimelordRun blocks' (es' ++ [e]) [] s'
  | slot {blocks : BlockchainInterface} {es : List Entry} {slots : List EndOfSubSlotBundle}
      {slot : EndOfSubSlotBundle} {s s' : LastState} (hrun : TimelordRun blocks es slots s)
      (hslot : SlotsFollow H V constants blocks (tipRecord es) (slots ++ [slot]))
      (hset : s.setState H V constants (.inr slot) = .ok s') : TimelordRun blocks es (slots ++ [slot]) s'

/-- A header is rejected for the number of blocks in its sub slot, or as an overflow block in the first sub slot of an
epoch. -/
def ExceedsLimits (blocks : BlockRecords) (hb : UnfinishedHeaderBlock) (prevB : Option BlockRecord)
    (overflow canFinishEpoch : Bool) (n subSlotIters spIters ipIters : ℕ) : Prop :=
  checkNumBlocks constants blocks (decide (n > 0)) prevB = .error (.invalid .tooManyBlocks) ∨
    checkTotalIters constants hb prevB overflow canFinishEpoch n subSlotIters spIters ipIters =
      .error (.invalid .noOverflowsInFirstSubSlotNewEpoch)

/-- What holds after a run. -/
structure TimelordInv (blocks : BlockchainInterface) (es : List Entry) (slots : List EndOfSubSlotBundle)
    (s : LastState) : Prop where
  present : ∀ e, es.getLast? = some e →
    AcceptedChain H V constants es ∧ AncestorsPresent blocks.records e.2 (es.map Prod.snd)
  atStart : es = [] → slots = [] → s.stateType = .firstSubSlot ∧ s.totalIters = 0 ∧
    s.subSlotIters = constants.SUB_SLOT_ITERS_STARTING ∧ s.newEpoch = false
  atPeak : ∀ e, es.getLast? = some e → slots = [] → (∃ message, s.stateType = .peak message) ∧
    e.2.ipIters constants = .ok s.lastIp ∧ s.totalIters = e.2.totalIters ∧ s.subSlotIters = e.2.subSlotIters ∧
    ∀ overflow, s.canInfuseBlock constants overflow = false ↔
      constants.MAX_SUB_SLOT_BLOCKS ≤ slotBlocks (es.map Prod.snd)
  atSlot : slots ≠ [] → (∃ slot, s.stateType = .endOfSubSlot slot) ∧
    ∃ difficulty height canFinishSe canFinishEpoch,
      getNextSubSlotItersAndDifficulty constants true (tipRecord es) blocks = .ok (s.subSlotIters, difficulty) ∧
      heightAndEpoch constants blocks.records (tipRecord es) true difficulty s.subSlotIters =
        .ok (height, canFinishSe, canFinishEpoch) ∧
      slotStartTotalIters constants (tipRecord es) s.subSlotIters slots.length = .ok s.totalIters ∧
      s.newEpoch = (canFinishEpoch && decide (slots.length = 1))

end Runs

/-! ## The steps of a run -/

section Steps

variable {H : Hashes} {V : Verifiers} {constants : ConsensusConstants} {blocks : BlockchainInterface}
  {es : List Entry} {e : Entry} {slots : List EndOfSubSlotBundle} {slot : EndOfSubSlotBundle} {s s' : LastState}
  {message : NewPeakTimelord}

/-- **The state after a peak**: the timelord is at the infusion point of the block, and can infuse a further one unless
the sub slot is full. -/
lemma setState_peak (hsub : 2 < constants.SUB_EPOCH_BLOCKS) (hchain : AcceptedChain H V constants (es ++ [e]))
    (hpresent : AncestorsPresent blocks.records e.2 ((es ++ [e]).map Prod.snd))
    (hget : blocks.records.get (e.1.headerHash H) = some e.2)
    (hsend : sendPeakToTimelords constants blocks H (some e.2) e.1 = .ok message)
    (hset : s.setState H V constants (.inl message) = .ok s') :
    (∃ message, s'.stateType = .peak message) ∧ e.2.ipIters constants = .ok s'.lastIp ∧
      s'.totalIters = e.2.totalIters ∧ s'.subSlotIters = e.2.subSlotIters ∧
      ∀ overflow, s'.canInfuseBlock constants overflow = false ↔
        constants.MAX_SUB_SLOT_BLOCKS ≤ slotBlocks ((es ++ [e]).map Prod.snd) := by
  obtain ⟨hrc, -, hiters, hdifficulty, -, hrecent, -⟩ := sendPeakToTimelords_eq_ok hget hsend
  obtain ⟨_, _, hlast, hstate, rfl, -, -, htotal, hiters', hepoch, -, hcache⟩ := setState_peak_eq_ok hset
  obtain ⟨cache, hblock⟩ := hchain.last_accepted
  obtain ⟨-, -, hhash, hblockTotal, -, -, -⟩ := hblock.fields
  have htotal' : s'.totalIters = e.2.totalIters := by
    rw [htotal, hrc, hblockTotal]
    rfl
  have hip : e.2.ipIters constants = .ok s'.lastIp := by
    rw [hrc, hiters] at hlast
    rw [← hhash] at hget
    exact hchain.lastIp_eq hsub hpresent.chain hget hdifficulty hlast
  refine ⟨⟨message, hstate⟩, hip, htotal', hiters'.trans hiters, fun overflow => ?_⟩
  -- the blocks of the last sub slot
  have hrule := hchain.headerChain.ruleChain.slotBlocks_le.2
  obtain ⟨a, f, c, hsplit, hf, hc⟩ := hchain.exists_slotPart
  rw [hsplit] at hchain hpresent hrule ⊢
  have hnot : ∀ x ∈ c.map Prod.snd, x.firstInSubSlot = false := fun x hx => by
    obtain ⟨y, hy, rfl⟩ := List.mem_map.mp hx
    exact (hc y hy).1.1
  obtain ⟨start, hbefore, hslot⟩ := hchain.slot_start hf fun x hx => (hc x hx).2
  obtain ⟨-, ip, hip', hstart⟩ := hslot e (by
    have hmem : e ∈ (a ++ f :: c).getLast? := by
      rw [← hsplit, List.getLast?_concat]
      rfl
    rw [List.getLast?_append_cons] at hmem
    exact List.mem_of_getLast? hmem)
  obtain rfl : ip = s'.lastIp := Except.ok.inj (hip'.symm.trans hip)
  rw [List.map_append, List.map_cons] at hpresent hrule ⊢
  rw [slotBlocks_eq hf hnot] at hrule ⊢
  have hcount := countP_rewardChallengeCache start (H.rewardChainBlock message.rewardChainBlock) hpresent hnot
    (fun x hx => by
      obtain ⟨y, hy, rfl⟩ := List.mem_map.mp hx
      exact hbefore y hy)
    (fun total htotal => by
      obtain ⟨-, ip, hip, hstart⟩ := hslot f List.mem_cons_self
      rw [BlockRecord.ipSubSlotTotalIters, hip, ok_bind] at htotal
      have := (uintN_eq_ok.mp htotal).1
      omega)
    (fun x hx => by
      rw [← List.map_cons] at hx
      obtain ⟨y, hy, rfl⟩ := List.mem_map.mp hx
      exact (hslot y hy).1) hrule hrecent
  have hstart' : ∀ x : Bytes32 × ℕ, decide ((x.2 : ℤ) > (s'.totalIters : ℤ) - s'.lastIp) = decide (start < x.2) := by
    intro x
    rw [decide_eq_decide, htotal']
    omega
  simp only [LastState.canInfuseBlock, hepoch, Bool.and_false, Bool.false_eq_true, if_false, hstate, hstart', hcache,
    Bool.not_eq_false', decide_eq_true_eq, ge_iff_le]
  rw [← htotal, htotal']
  exact hcount

/-- The next sub slot starts `subSlotIters` later. -/
lemma slotStartTotalIters_succ {prevB : Option BlockRecord} {subSlotIters n total next : ℕ} (hn : 0 < n)
    (h : slotStartTotalIters constants prevB subSlotIters n = .ok total)
    (hnext : uint128 ((total : ℤ) + subSlotIters) = .ok next) :
    slotStartTotalIters constants prevB subSlotIters (n + 1) = .ok next := by
  rw [uint128, uintN_eq_ok] at hnext
  obtain ⟨hnext, hfits⟩ := hnext
  unfold slotStartTotalIters at h ⊢
  cases prevB with
  | none =>
    simp only [uint128, uintN_eq_ok] at h ⊢
    refine ⟨?_, hfits⟩
    rw [← hnext, ← h.1]
    push_cast
    ring
  | some p =>
    obtain ⟨ip, hip, h⟩ := bind_eq_ok.mp h
    simp only [hip, ok_bind, if_pos hn, if_pos (Nat.succ_pos n)] at h ⊢
    obtain ⟨start, hstart, h⟩ := bind_eq_ok.mp h
    rw [hstart, ok_bind]
    rw [uint128, uintN_eq_ok] at h ⊢
    refine ⟨?_, hfits⟩
    rw [← hnext, ← h.1]
    push_cast
    ring

lemma setState_slot_eq_ok (h : s.setState H V constants (.inr slot) = .ok s') :
    s.slotEndTotalIters = .ok s'.totalIters ∧ s'.stateType = .endOfSubSlot slot ∧
      s'.newEpoch = slot.challengeChain.newDifficulty.isSome ∧
      (slot.challengeChain.newDifficulty = none → s'.subSlotIters = s.subSlotIters) ∧
      (slot.challengeChain.newDifficulty ≠ none → slot.challengeChain.newSubSlotIters = some s'.subSlotIters) := by
  obtain ⟨next, hnext, h⟩ := bind_eq_ok.mp h
  obtain ⟨total, htotal, hnext⟩ := bind_eq_ok.mp hnext
  obtain rfl := Except.ok.inj h
  simp only at hnext
  split at hnext
  · rename_i hnone
    obtain rfl := Except.ok.inj hnext
    exact ⟨htotal, rfl, by rw [hnone]; rfl, fun _ => rfl, fun hne => absurd hnone hne⟩
  · rename_i difficulty hsome
    obtain ⟨iters, hiters, hnext⟩ := bind_eq_ok.mp hnext
    obtain rfl := Except.ok.inj hnext
    refine ⟨htotal, rfl, by rw [hsome]; rfl, fun hnone => ?_, fun _ => pySome_eq_ok.mp hiters⟩
    rw [hsome] at hnone
    cases hnone

lemma heightAndEpoch_none {records : BlockRecords} {newSubSlot canFinishSe canFinishEpoch : Bool}
    {difficulty subSlotIters height : ℕ}
    (h : heightAndEpoch constants records none newSubSlot difficulty subSlotIters =
      .ok (height, canFinishSe, canFinishEpoch)) : canFinishEpoch = false := by
  obtain ⟨_, -, h⟩ := bind_eq_ok.mp h
  obtain ⟨_, -, h⟩ := bind_eq_ok.mp h
  exact (Prod.mk.inj (Prod.mk.inj (Except.ok.inj h)).2).2.symm

/-- **The invariant is kept by a bundle.**

**Proof sketch.** The first bundle after a block ends its sub slot, and may have new parameters. Each later one ends a
sub slot with the parameters of the first one, and starts no epoch. -/
lemma TimelordInv.addSlot (h : TimelordInv H V constants blocks es slots s)
    (hslot : SlotsFollow H V constants blocks (tipRecord es) (slots ++ [slot]))
    (hset : s.setState H V constants (.inr slot) = .ok s') :
    TimelordInv H V constants blocks es (slots ++ [slot]) s' := by
  have hne : slots ++ [slot] ≠ [] := by simp
  refine ⟨h.present, (fun _ hnil => absurd hnil hne), (fun _ _ hnil => absurd hnil hne), fun _ => ?_⟩
  obtain ⟨htotal, hstate, hnew, hsame, hchanged⟩ := setState_slot_eq_ok hset
  obtain ⟨_, _, subSlotIters, difficulty, height, canFinishSe, canFinishEpoch, hnext, hepoch, -⟩ := id hslot
  obtain ⟨hiters, hdifficulty⟩ := hslot.params hnext hepoch
  have hnewEpoch : s'.newEpoch = (canFinishEpoch && decide ((slots ++ [slot]).length = 1)) := by
    rw [hnew, hdifficulty, List.length_append, List.length_singleton]
    by_cases hnil : slots = []
    · cases canFinishEpoch <;> simp [hnil]
    · have := List.length_pos_iff.mpr hnil
      rw [if_neg (fun hall => hnil hall.2), decide_eq_false (by omega), Bool.and_false]
      rfl
  -- the length of the next sub slot, if that of the current one is known
  have hkeeps : (¬(canFinishEpoch = true ∧ slots = []) → s.subSlotIters = subSlotIters) →
      s'.subSlotIters = subSlotIters := by
    intro hold
    by_cases hends : canFinishEpoch = true ∧ slots = []
    · rw [if_pos hends] at hiters hdifficulty
      have hchanged := hchanged (by rw [hdifficulty]; simp)
      rw [hiters] at hchanged
      exact (Option.some.inj hchanged).symm
    · rw [if_neg hends] at hdifficulty
      rw [hsame hdifficulty, hold hends]
  refine ⟨⟨slot, hstate⟩, ?_⟩
  by_cases hnil : slots = []
  · subst hnil
    cases htip : es.getLast? with
    | none =>
      have hes := List.getLast?_eq_none_iff.mp htip
      have htip : tipRecord es = none := by
        rw [tipRecord, hes]
        rfl
      obtain ⟨hfirst, hzero, hstarting, -⟩ := h.atStart hes rfl
      rw [htip] at hnext hepoch ⊢
      have hbegin : subSlotIters = constants.SUB_SLOT_ITERS_STARTING := (Prod.mk.inj (Except.ok.inj hnext)).1.symm
      have hsub := hkeeps fun _ => hstarting.trans hbegin.symm
      rw [hsub]
      refine ⟨difficulty, height, canFinishSe, canFinishEpoch, hnext, hepoch, ?_, hnewEpoch⟩
      unfold LastState.slotEndTotalIters at htotal
      simp only [hfirst, hzero, hstarting, uint128, uintN_eq_ok] at htotal
      simp only [slotStartTotalIters, uint128, uintN_eq_ok, hbegin]
      refine ⟨?_, htotal.2⟩
      rw [← htotal.1]
      simp
    | some e =>
      obtain ⟨⟨message, hpeak⟩, hip, hpeakTotal, hpeakIters, -⟩ := h.atPeak e htip rfl
      have htip' : tipRecord es = some e.2 := by
        rw [tipRecord, htip]
        rfl
      obtain ⟨hchain, -⟩ := h.present e htip
      obtain ⟨init, rfl⟩ := List.getLast?_eq_some_iff.mp htip
      rw [htip'] at hnext hepoch ⊢
      have hsub := hkeeps fun hends => by
        rw [hpeakIters]
        refine (subSlotIters_eq_of_next hnext hchain.follows.starting (.inr ⟨canFinishSe, ?_⟩)).symm
        have hcan := heightAndEpoch_newSlot hepoch
        cases canFinishEpoch with
        | false => exact hcan
        | true => exact absurd ⟨rfl, rfl⟩ hends
      rw [hsub]
      refine ⟨difficulty, height, canFinishSe, canFinishEpoch, hnext, hepoch, ?_, hnewEpoch⟩
      unfold LastState.slotEndTotalIters at htotal
      simp only [hpeak, hpeakTotal, hpeakIters] at htotal
      unfold slotStartTotalIters
      have hstart : uint128 ((e.2.totalIters : ℤ) + e.2.subSlotIters - s.lastIp) = .ok s'.totalIters := by
        rw [show (e.2.totalIters : ℤ) + e.2.subSlotIters - s.lastIp =
          e.2.totalIters - s.lastIp + e.2.subSlotIters by ring]
        exact htotal
      simp only [hip, ok_bind, hstart, List.nil_append, List.length_singleton, gt_iff_lt, Nat.one_pos, if_true]
      rw [uint128, uintN_eq_ok] at hstart ⊢
      refine ⟨?_, hstart.2⟩
      simp
  · obtain ⟨⟨last, hlast⟩, difficulty', _, _, _, hnext', hepoch', hstart, -⟩ := h.atSlot hnil
    have hpair := Prod.mk.inj (Except.ok.inj (hnext.symm.trans hnext'))
    have hsub := hkeeps fun _ => hpair.1.symm
    rw [hsub]
    refine ⟨difficulty, height, canFinishSe, canFinishEpoch, hnext, hepoch, ?_, hnewEpoch⟩
    rw [List.length_append, List.length_singleton, hpair.1]
    unfold LastState.slotEndTotalIters at htotal
    rw [hlast] at htotal
    exact slotStartTotalIters_succ (List.length_pos_iff.mpr hnil) hstart htotal

/-- **The invariant holds after every run.** -/
theorem TimelordRun.inv (hsub : 2 < constants.SUB_EPOCH_BLOCKS) (h : TimelordRun H V constants blocks es slots s) :
    TimelordInv H V constants blocks es slots s := by
  induction h with
  | initial =>
    exact ⟨(fun e he => by cases he), fun _ _ => ⟨rfl, rfl, rfl, rfl⟩, (fun e he => by cases he),
      fun hne => absurd rfl hne⟩
  | peak hrun hchain hpresent hget hsend hset ih =>
    refine ⟨fun e he => ?_, (fun hnil => absurd hnil (by simp)), fun e he _ => ?_, fun hne => absurd rfl hne⟩
    · rw [List.getLast?_concat] at he
      obtain rfl := Option.some.inj he
      exact ⟨hchain, hpresent⟩
    · rw [List.getLast?_concat] at he
      obtain rfl := Option.some.inj he
      exact setState_peak hsub hchain hpresent hget hsend hset
  | slot hrun hslot hset ih => exact ih.addSlot hslot hset

/-! ## The limits -/

/-- Step 9 rejects exactly the overflow blocks in the first sub slot of an epoch. -/
lemma checkTotalIters_eq_noOverflows {hb : UnfinishedHeaderBlock} {prevB : Option BlockRecord}
    {overflow canFinishEpoch : Bool} {n subSlotIters spIters ipIters : ℕ}
    (hvdf : hb.rewardChainBlock.challengeChainSpVdf.isNone → overflow = false) :
    checkTotalIters constants hb prevB overflow canFinishEpoch n subSlotIters spIters ipIters =
        .error (.invalid .noOverflowsInFirstSubSlotNewEpoch) ↔
      overflow = true ∧ canFinishEpoch = true ∧ n < 2 := by
  have hraising : ∀ {α : Type} {x : Except PyError α} {e : Err}, raising x ≠ .error (.invalid e) := by
    intro α x e h
    cases x with
    | ok x => cases h
    | error x => cases h
  have hassert : raising (pyAssert (hb.rewardChainBlock.challengeChainSpVdf.isNone → overflow = false)) = .ok () :=
    raising_eq_ok.mpr (pyAssert_eq_ok.mpr hvdf)
  unfold checkTotalIters
  rw [hassert, ok_bind]
  by_cases hbad : overflow = true ∧ canFinishEpoch = true ∧ n < 2
  · rw [rejectIf, if_pos hbad]
    exact ⟨fun _ => hbad, fun _ => rfl⟩
  · refine ⟨fun h => ?_, fun h => absurd h hbad⟩
    rw [rejectIf, if_neg hbad, ok_bind] at h
    rcases bind_eq_error.mp h with h | ⟨_, -, h⟩
    · exact absurd h hraising
    rcases bind_eq_error.mp h with h | ⟨_, -, h⟩
    · exact absurd h hraising
    rcases bind_eq_error.mp h with h | ⟨_, -, h⟩
    · unfold rejectIf at h
      split at h
      · cases h
      · cases h
    · exact absurd h hraising

/-- **Timelords respect the limits of header validation.** After every run, the total iterations at the end of a sub
slot are those that validation assigns to it, and the timelord refuses to infuse a block exactly if validation rejects a
block there for the number of blocks in the sub slot, or as an overflow block in the first sub slot of an epoch. -/
theorem timelordRun_respects_limits (hsub : 2 < constants.SUB_EPOCH_BLOCKS)
    (hrun : TimelordRun H V constants blocks es slots s) :
    (slots ≠ [] → ∀ subSlotIters difficulty,
      getNextSubSlotItersAndDifficulty constants true (tipRecord es) blocks = .ok (subSlotIters, difficulty) →
      slotStartTotalIters constants (tipRecord es) subSlotIters slots.length = .ok s.totalIters) ∧
    ∀ (hb : UnfinishedHeaderBlock) (overflow canFinishSe canFinishEpoch : Bool)
      (subSlotIters difficulty height spIters ipIters : ℕ),
      getNextSubSlotItersAndDifficulty constants (decide (slots ≠ [])) (tipRecord es) blocks =
        .ok (subSlotIters, difficulty) →
      heightAndEpoch constants blocks.records (tipRecord es) (decide (slots.length > 0)) difficulty subSlotIters =
        .ok (height, canFinishSe, canFinishEpoch) →
      (hb.rewardChainBlock.challengeChainSpVdf.isNone → overflow = false) →
      (s.canInfuseBlock constants overflow = false ↔
        ExceedsLimits constants blocks.records hb (tipRecord es) overflow canFinishEpoch slots.length subSlotIters
          spIters ipIters) := by
  have hinv := hrun.inv hsub
  constructor
  · intro hne subSlotIters difficulty hnext
    obtain ⟨-, _, _, _, _, hnext', -, hstart, -⟩ := hinv.atSlot hne
    rw [(Prod.mk.inj (Except.ok.inj (hnext.symm.trans hnext'))).1]
    exact hstart
  · intro hb overflow canFinishSe canFinishEpoch subSlotIters difficulty height spIters ipIters hnext hepoch hvdf
    rw [ExceedsLimits, checkTotalIters_eq_noOverflows hvdf]
    by_cases hnil : slots = []
    · subst hnil
      -- no sub slot has ended, so step 9 rejects nothing
      have hstays : canFinishEpoch = false := by
        cases htip : tipRecord es with
        | none =>
          rw [htip] at hepoch
          exact heightAndEpoch_none hepoch
        | some p =>
          rw [htip] at hepoch
          obtain ⟨_, -, hepoch⟩ := bind_eq_ok.mp hepoch
          exact (Prod.mk.inj (Prod.mk.inj (Except.ok.inj hepoch)).2).2.symm
      rw [hstays]
      cases htip : es.getLast? with
      | none =>
        have hes := List.getLast?_eq_none_iff.mp htip
        obtain ⟨hfirst, -, -, hflag⟩ := hinv.atStart hes rfl
        simp [LastState.canInfuseBlock, hfirst, hflag, tipRecord, hes, checkNumBlocks]
      | some e =>
        obtain ⟨-, -, -, -, hcan⟩ := hinv.atPeak e htip rfl
        obtain ⟨hchain, hpresent⟩ := hinv.present e htip
        have htip' : tipRecord es = some e.2 := by
          rw [tipRecord, htip]
          rfl
        rw [hcan, htip', List.length_nil, decide_eq_false (lt_irrefl 0),
          checkNumBlocks_eq hpresent.chain hchain.headerChain.ruleChain.slotBlocks_le.1, rejectIf]
        by_cases hfull : slotBlocks (es.map Prod.snd) + 1 > constants.MAX_SUB_SLOT_BLOCKS
        · simp only [if_pos hfull, true_or, iff_true]
          omega
        · simp only [if_neg hfull, reduceCtorEq, Bool.false_eq_true, false_and, and_false, or_self, iff_false]
          omega
    · have hpos := List.length_pos_iff.mpr hnil
      obtain ⟨⟨slot, hstate⟩, _, _, _, _, hnext', hepoch', -, hflag⟩ := hinv.atSlot hnil
      rw [decide_eq_true hnil] at hnext
      rw [decide_eq_true hpos] at hepoch ⊢
      obtain ⟨rfl, rfl⟩ := Prod.mk.inj (Except.ok.inj (hnext.symm.trans hnext'))
      obtain ⟨-, hpair⟩ := Prod.mk.inj (Except.ok.inj (hepoch.symm.trans hepoch'))
      rw [← (Prod.mk.inj hpair).2] at hflag
      have hpass : checkNumBlocks constants blocks.records true (tipRecord es) = .ok () := by
        cases tipRecord es with
        | none => rfl
        | some p => rfl
      simp only [LastState.canInfuseBlock, hstate, hflag, hpass, reduceCtorEq, false_or]
      by_cases hbad : overflow = true ∧ canFinishEpoch = true ∧ slots.length < 2
      · obtain ⟨rfl, rfl, hlt⟩ := hbad
        rw [decide_eq_true (show slots.length = 1 by omega)]
        simp [hlt]
      · have hok : (overflow && (canFinishEpoch && decide (slots.length = 1))) = false := by
          rw [Bool.eq_false_iff]
          intro hall
          simp only [Bool.and_eq_true, decide_eq_true_eq] at hall
          exact hbad ⟨hall.1, hall.2.1, by omega⟩
        rw [hok, if_neg Bool.false_ne_true]
        simp only [Bool.true_eq_false, false_iff]
        exact hbad

lemma slotsFollow_emptyFirstSubSlot : SlotsFollow sampleBlockchainTools.H sampleBlockchainTools.V defaultConstants
    (blockCache ∅) (tipRecord []) ([] ++ [emptyFirstSubSlot]) :=
  ⟨[], false, defaultConstants.SUB_SLOT_ITERS_STARTING, defaultConstants.DIFFICULTY_STARTING, 0, false, false,
    by decide +kernel, by decide +kernel, by decide +kernel⟩

/-- A timelord that has made the first sub slot and is then given the overflow genesis block can infuse the second
overflow block, which steps 4 and 9 do not reject. -/
theorem timelordRun_respects_limits_overflowGenesis : ∃ s,
    TimelordRun sampleBlockchainTools.H sampleBlockchainTools.V defaultConstants (blockCache overflowGenesisCache)
        ([] ++ [(overflowGenesis, overflowGenesisRecord)]) [] s ∧
      (s.canInfuseBlock defaultConstants true = false ↔
        ExceedsLimits defaultConstants overflowGenesisCache secondOverflow
          (tipRecord ([] ++ [(overflowGenesis, overflowGenesisRecord)])) true false 0
          defaultConstants.SUB_SLOT_ITERS_STARTING 0 0) := by
  cases hslot : (LastState.initial defaultConstants).setState sampleBlockchainTools.H sampleBlockchainTools.V
      defaultConstants (.inr emptyFirstSubSlot) with
  | error e =>
    have hok : ((LastState.initial defaultConstants).setState sampleBlockchainTools.H sampleBlockchainTools.V
      defaultConstants (.inr emptyFirstSubSlot)).toOption.isSome = true := by decide +kernel
    rw [hslot] at hok
    cases hok
  | ok s =>
    have hok : (((LastState.initial defaultConstants).setState sampleBlockchainTools.H sampleBlockchainTools.V
        defaultConstants (.inr emptyFirstSubSlot)).bind fun s => s.setState sampleBlockchainTools.H
        sampleBlockchainTools.V defaultConstants (.inl overflowGenesisPeak)).toOption.isSome = true := by
      decide +kernel
    rw [hslot] at hok
    change (s.setState sampleBlockchainTools.H sampleBlockchainTools.V defaultConstants
      (.inl overflowGenesisPeak)).toOption.isSome = true at hok
    cases hpeak : s.setState sampleBlockchainTools.H sampleBlockchainTools.V defaultConstants
        (.inl overflowGenesisPeak) with
    | error e =>
      rw [hpeak] at hok
      cases hok
    | ok s' =>
      have hrun : TimelordRun sampleBlockchainTools.H sampleBlockchainTools.V defaultConstants
          (blockCache overflowGenesisCache) ([] ++ [(overflowGenesis, overflowGenesisRecord)]) [] s' :=
        .peak (.slot .initial slotsFollow_emptyFirstSubSlot hslot) acceptedChain_overflowGenesis
          ancestorsPresent_overflowGenesis (by decide +kernel) sendPeakToTimelords_overflowGenesis hpeak
      have hlimits := (timelordRun_respects_limits (by decide) hrun).2 secondOverflow true false false
        defaultConstants.SUB_SLOT_ITERS_STARTING defaultConstants.DIFFICULTY_STARTING 1 0 0 (by decide +kernel)
        (by decide +kernel) (by decide +kernel)
      exact ⟨s', hrun, hlimits⟩

end Steps

end Chives
