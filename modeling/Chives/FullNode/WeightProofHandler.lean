import Chives.FullNode.WeightProof

set_option autoImplicit false

/-!
# The two validators of weight proofs

`validate_recent_blocks`, `get_fork_point`, `validate_weight_proof_single_proc` and
`validate_weight_proof` of `full_node/weight_proof.py`. The first validator runs in one process; the
second hands the recent blocks and the VDFs of the segments to worker processes.

## Main definitions

* `validateRecentBlocks` — the recent blocks of a proof.
* `WeightProofHandler.validateWeightProofSingleProc`,
  `WeightProofHandler.validateWeightProof` — the validators.
* `WeightProofHandler.Agrees` — both return the same verdict, which is `False` if a segment is
  rejected or one of the VDFs is invalid.
* `WeightProofHandler.Decided` — the proof is turned down before its segments are looked at,
  or its segments are accepted and its VDFs do not matter for the verdict.

## Main results

* `WeightProofHandler.agrees_iff` — the validators agree exactly on such proofs.
-/

namespace Chives

open ExceptRun

/-! ## Recent blocks -/

section RecentBlocks

variable (H : Hashes) (V : Verifiers) (constants : ConsensusConstants)

/-- `_get_ses_idx`. -/
def getSesIdx (recentRewardChain : List HeaderBlock) : List ℕ :=
  recentRewardChain.zipIdx.flatMap fun (b, idx) =>
    (b.finishedSubSlots.filter fun slot => slot.challengeChain.subepochSummaryHash.isSome).map
      fun _ => idx

/-- `get_deficit`. -/
def getDeficit (currDeficit : ℕ) (prevBlock : Option BlockRecord) (overflow : Bool)
    (numFinishedSubSlots : ℕ) : Except PyError ℕ :=
  match prevBlock with
  | none =>
    if currDeficit ≥ 1 ∧ ¬(overflow = true ∧
      currDeficit = constants.MIN_BLOCKS_PER_CHALLENGE_BLOCK) then uint8 ((currDeficit : ℤ) - 1)
    else .ok currDeficit
  | some prev => do
    let height ← uint32 (prev.height + 1)
    calculateDeficit constants height (some prev) overflow numFinishedSubSlots

/-- `_validate_pospace_recent_chain`. -/
def validatePospaceRecentChain (block : HeaderBlock) (challenge : Bytes32) (diff : ℕ)
    (overflow : Bool) (prevChallenge : Bytes32) : Except PyError (Option ℕ) := do
  let rc := block.rewardChainBlock
  let ccSpHash := ccSpHashOf H rc.challengeChainSpVdf challenge
  match rc.proofOfSpace.verifyAndGetQualityString H V constants
    (if ¬overflow then challenge else prevChallenge) ccSpHash with
  | none => return none
  | some quality => do
    let iters ← calculateIterationsQuality H constants.DIFFICULTY_CONSTANT_FACTOR quality
      rc.proofOfSpace.size diff ccSpHash
    return some iters

/-- What `validate_recent_blocks` carries from block to block. -/
structure RecentState where
  subBlocks : BlockRecords
  sesIdx : ℤ
  ssi : ℕ
  diff : ℕ
  sesBlocks : ℕ
  subSlots : ℕ
  transactionBlocks : ℕ
  challenge : Bytes32
  prevChallenge : Option Bytes32
  prevBlockRecord : Option BlockRecord
  deficit : ℕ
  adjusted : Bool

/-- The loop over the finished sub-slots of a block; the flag is whether one had a summary hash. -/
def recentSlots (summaries : List SubEpochSummary) :
    RecentState → Bool → List EndOfSubSlotBundle → Except PyError (RecentState × Bool)
  | s, ses, [] => .ok (s, ses)
  | s, ses, slot :: slots => do
    let cc := slot.challengeChain
    let s := { s with
      prevChallenge := some cc.challengeChainEndOfSlotVdf.challenge
      challenge := H.challengeChainSubSlot cc
      deficit := slot.rewardChain.deficit
      ssi := cc.newSubSlotIters.getD s.ssi
      diff := cc.newDifficulty.getD s.diff }
    match cc.subepochSummaryHash with
    | none => recentSlots summaries s ses slots
    | some hash => do
      let summary ← pyItem summaries s.sesIdx
      let _ ← pyAssert (H.subEpochSummary summary = hash)
      recentSlots summaries { s with sesIdx := s.sesIdx + 1 } true slots

/-- The first block after the end of a slot sets the deficit of the block before it. -/
def adjustDeficit (s : RecentState) : Except PyError RecentState :=
  if s.adjusted then .ok s
  else
    match s.prevBlockRecord with
    | none => .error .typeError
    | some prev =>
      let prev := { prev with deficit := s.deficit % constants.MIN_BLOCKS_PER_CHALLENGE_BLOCK }
      .ok { s with
        prevBlockRecord := some prev
        subBlocks := s.subBlocks.set prev.headerHash prev
        adjusted := true }

/-- The required iterations of a block after the end of a slot, with the deficit in the state; `none`
if the block is invalid. -/
def recentIters (now tipHeight : ℕ) (block : HeaderBlock) (s : RecentState) (overflow : Bool)
    (prevChallenge : Bytes32) : Except PyError (Option ℕ × RecentState) := do
  let s ← adjustDeficit constants s
  let deficit ← getDeficit constants s.deficit s.prevBlockRecord overflow
    block.finishedSubSlots.length
  let s := { s with deficit := deficit }
  if s.subSlots > 2 ∧ s.transactionBlocks > 11 ∧ (tipHeight : ℤ) - block.height < 100 then
    match validateFinishedHeaderBlock H V constants s.subBlocks block false s.diff s.ssi
      (decide (s.sesBlocks > 2)) now with
    | .ok requiredIters => return (some requiredIters, s)
    | .error (.invalid _) => return (none, s)
    | .error (.raised e) => throw e
  else do
    let requiredIters ← validatePospaceRecentChain H V constants block s.challenge s.diff overflow
      prevChallenge
    return (requiredIters, s)

/-- One round of the loop of `validate_recent_blocks`; `none` if the block is invalid. -/
def recentBlock (now tipHeight : ℕ) (summaries : List SubEpochSummary) (s : RecentState)
    (block : HeaderBlock) : Except PyError (Option RecentState) := do
  let (s, ses) ← recentSlots H summaries s false block.finishedSubSlots
  let (requiredIters, overflow, s) ← (match s.prevChallenge with
    | none => .ok (some 0, false, s)
    | some prevChallenge => do
      let overflow ← isOverflowBlock constants block.rewardChainBlock.signagePointIndex
      let (requiredIters, s) ← recentIters H V constants now tipHeight block s overflow prevChallenge
      .ok (requiredIters, overflow, s))
  match requiredIters with
  | none => return none
  | some requiredIters => do
    let currBlockSes ← (if ses then (pyItem summaries (s.sesIdx - 1)).map some else .ok none)
    let record := headerBlockToSubBlockRecord H constants requiredIters block.asFullBlock s.ssi
      overflow s.deficit block.height currBlockSes
    return some { s with
      subBlocks := s.subBlocks.set record.headerHash record
      subSlots := if block.firstInSubSlot then s.subSlots + 1 else s.subSlots
      transactionBlocks := if block.isTransactionBlock then s.transactionBlocks + 1
        else s.transactionBlocks
      sesBlocks := if ses then s.sesBlocks + 1 else s.sesBlocks
      prevBlockRecord := some record }

/-- The loop of `validate_recent_blocks`. -/
def recentBlocksFrom (now tipHeight : ℕ) (summaries : List SubEpochSummary) :
    RecentState → List HeaderBlock → Except PyError (Option BlockRecords)
  | s, [] => .ok (some s.subBlocks)
  | s, block :: blocks => do
    match ← recentBlock H V constants now tipHeight summaries s block with
    | none => return none
    | some s => recentBlocksFrom now tipHeight summaries s blocks

/-- `validate_recent_blocks`: the records of the blocks, or `none` for `(False, [])`. -/
def validateRecentBlocks (now : ℕ) (recentChain : List HeaderBlock)
    (summaries : List SubEpochSummary) : Except PyError (Option BlockRecords) := do
  let sesIdx : ℤ := (summaries.length : ℤ) - (getSesIdx recentChain).length
  -- a negative bound of a slice counts from the end
  let before := summaries.take (if 0 ≤ sesIdx then sesIdx.toNat
    else (sesIdx + summaries.length).toNat)
  let first ← pyIndex recentChain 0
  let tip ← pyLast recentChain
  recentBlocksFrom H V constants now tip.height summaries
    { subBlocks := ∅
      sesIdx := sesIdx
      ssi := before.foldl (fun ssi ses => ses.newSubSlotIters.getD ssi)
        constants.SUB_SLOT_ITERS_STARTING
      diff := before.foldl (fun diff ses => ses.newDifficulty.getD diff)
        constants.DIFFICULTY_STARTING
      sesBlocks := 0
      subSlots := 0
      transactionBlocks := 0
      challenge := first.rewardChainBlock.posSsCcChallengeHash
      prevChallenge := none
      prevBlockRecord := none
      deficit := 0
      adjusted := false } recentChain

end RecentBlocks

/-! ## The validators -/

/-- `WeightProofHandler`, with what it uses of the rest of the node: the heights and the summaries of
the sub-epochs of the node's own chain, the time, and the order in which worker processes finish. -/
structure WeightProofHandler where
  hashes : Hashes
  verifiers : Verifiers
  constants : ConsensusConstants
  random : RandomSource
  localSummaries : List (ℕ × SubEpochSummary)
  now : ℕ
  numProcesses : ℕ
  asCompleted : List Bool → List Bool
  asCompleted_perm : ∀ results, (asCompleted results).Perm results

namespace WeightProofHandler

variable (h : WeightProofHandler) (wp : WeightProof)

/-- The loop of `get_fork_point`, with the index of the last summary that is the same. -/
def forkPointIndexFrom (received : List SubEpochSummary) :
    ℕ → ℕ → List (ℕ × SubEpochSummary) → Except PyError ℕ
  | _, forkPointIndex, [] => .ok forkPointIndex
  | idx, forkPointIndex, ses :: rest =>
    if idx + 1 = received.length then .ok forkPointIndex
    else do
      let summary ← pyIndex received idx
      if h.hashes.subEpochSummary ses.2 ≠ h.hashes.subEpochSummary summary then return forkPointIndex
      else forkPointIndexFrom received (idx + 1) idx rest

/-- `get_fork_point`. -/
def getForkPoint (received : List SubEpochSummary) : Except PyError ℕ := do
  let forkPointIndex ← h.forkPointIndexFrom received 0 0 h.localSummaries
  if forkPointIndex > 2 then do
    let ses ← pyIndex h.localSummaries (forkPointIndex - 2)
    return ses.1
  else return 0

/-- What both validators do first: the summaries, and the check that the sampled sub-epochs are
covered. `none` if they return `False` there. -/
def summariesAndSampling : Except PyError (Option (List SubEpochSummary × h.random.State)) := do
  let _ ← pyAssert (wp.subEpochs ≠ [])
  let _ ← pyLast wp.recentChainData
  match ← validateSubEpochSummaries h.hashes h.constants wp with
  | none => return none
  | some (summaries, subEpochWeightList) => do
    let ses ← pyItem summaries (-2)
    let rng := h.random.seed (h.hashes.subEpochSummary ses)
    let (covered, rng) ← validateSubEpochSampling h.random rng subEpochWeightList wp
    return if covered then some (summaries, rng) else none

/-- `_validate_sub_epoch_segments` for a proof with these summaries. -/
def segments (summaries : List SubEpochSummary) (rng : h.random.State) :
    Except PyError SegmentsResult :=
  validateSubEpochSegments h.hashes h.verifiers h.constants h.random rng wp.subEpochSegments summaries

/-- `_validate_recent_blocks` for a proof with these summaries. -/
def recentBlocks (summaries : List SubEpochSummary) : Except PyError Bool :=
  (validateRecentBlocks h.hashes h.verifiers h.constants h.now wp.recentChainData summaries).map
    Option.isSome

/-- `validate_weight_proof_single_proc`. -/
def validateWeightProofSingleProc : Except PyError (Bool × ℕ) := do
  match ← h.summariesAndSampling wp with
  | none => return (false, 0)
  | some (summaries, rng) => do
    let result ← h.segments wp summaries rng
    if ¬result.truthy then return (false, 0)
    else do
      let valid ← h.recentBlocks wp summaries
      if ¬valid then return (false, 0)
      else do
        let forkPoint ← h.getForkPoint summaries
        return (true, forkPoint)

/-- `validate_weight_proof`. The task for the recent blocks is started before the segments are
looked at, but only its result is used, at the end. -/
def validateWeightProof : Except PyError (Bool × ℕ × List SubEpochSummary) := do
  match ← h.summariesAndSampling wp with
  | none => return (false, 0, [])
  | some (summaries, rng) => do
    let result ← h.segments wp summaries rng
    let (segmentsValidated, vdfsToValidate) ← result.unpack
    if ¬segmentsValidated then return (false, 0, [])
    else do
      let batches := Chunks.chunksOf (max 1 h.numProcesses) vdfsToValidate
      let results := batches.map (validateVdfBatch h.verifiers h.constants)
      if ¬(h.asCompleted results).all id then return (false, 0, [])
      else do
        let valid ← h.recentBlocks wp summaries
        if ¬valid then return (false, 0, [])
        else do
          let forkPoint ← h.getForkPoint summaries
          return (true, forkPoint, summaries)

/-! ## Agreement -/

/-- A VDF that was collected from a segment is valid. -/
def VdfValid (vdf : DeferredVdf) : Prop :=
  vdf.1.isValid h.verifiers h.constants vdf.2.1 vdf.2.2 none = true

/-- The validators return the same verdict and fork point; and both return `False` if the segments
are rejected, or if one of the VDFs collected from them is invalid. -/
def Agrees : Prop :=
  (∃ valid forkPoint summaries, h.validateWeightProofSingleProc wp = .ok (valid, forkPoint) ∧
    h.validateWeightProof wp = .ok (valid, forkPoint, summaries)) ∧
  ∀ summaries rng result, h.summariesAndSampling wp = .ok (some (summaries, rng)) →
    h.segments wp summaries rng = .ok result →
    (result = .rejected ∨ ∃ vdfs, result = .accepted vdfs ∧ ∃ vdf ∈ vdfs, ¬h.VdfValid vdf) →
    h.validateWeightProofSingleProc wp = .ok (false, 0) ∧
      h.validateWeightProof wp = .ok (false, 0, [])

/-- The proof is turned down for its summaries or its sampling; or all its segments are accepted, the
recent blocks are found valid or invalid, and if the VDFs of the segments are not all valid then the
recent blocks are invalid. -/
def Decided : Prop :=
  h.summariesAndSampling wp = .ok none ∨
  ∃ summaries rng vdfs valid, h.summariesAndSampling wp = .ok (some (summaries, rng)) ∧
    h.segments wp summaries rng = .ok (.accepted vdfs) ∧ h.recentBlocks wp summaries = .ok valid ∧
    ((∀ vdf ∈ vdfs, h.VdfValid vdf) ∨ valid = false)

variable {h wp}

lemma all_asCompleted_iff {vdfs : List DeferredVdf} :
    (h.asCompleted ((Chunks.chunksOf (max 1 h.numProcesses) vdfs).map
      (validateVdfBatch h.verifiers h.constants))).all id = true ↔ ∀ vdf ∈ vdfs, h.VdfValid vdf := by
  have hflat := Chunks.flatten_chunksOf (show 0 < max 1 h.numProcesses by omega) vdfs
  rw [List.all_eq_true]
  constructor
  · intro hall vdf hvdf
    rw [← hflat] at hvdf
    obtain ⟨batch, hbatch, hmem⟩ := List.mem_flatten.mp hvdf
    have hvalid := hall _ ((h.asCompleted_perm _).mem_iff.mpr (List.mem_map_of_mem hbatch))
    exact List.all_eq_true.mp hvalid vdf hmem
  · intro hvalid result hresult
    obtain ⟨batch, hbatch, rfl⟩ := List.mem_map.mp ((h.asCompleted_perm _).mem_iff.mp hresult)
    refine List.all_eq_true.mpr fun vdf hmem => hvalid vdf ?_
    rw [← hflat]
    exact List.mem_flatten.mpr ⟨batch, hbatch, hmem⟩

lemma forkPointIndexFrom_eq_ok {received : List SubEpochSummary} (idx forkPointIndex : ℕ)
    (rest : List (ℕ × SubEpochSummary)) (hidx : idx < received.length) :
    ∃ n, h.forkPointIndexFrom received idx forkPointIndex rest = .ok n ∧
      (n = forkPointIndex ∨ n < idx + rest.length) := by
  induction rest generalizing idx forkPointIndex with
  | nil => exact ⟨forkPointIndex, rfl, .inl rfl⟩
  | cons ses rest ih =>
    rw [forkPointIndexFrom]
    by_cases hend : idx + 1 = received.length
    · exact ⟨forkPointIndex, if_pos hend, .inl rfl⟩
    · rw [if_neg hend, pyIndex, List.getElem?_eq_getElem hidx, ok_bind]
      by_cases hsame : h.hashes.subEpochSummary ses.2 = h.hashes.subEpochSummary received[idx]
      · obtain ⟨n, hn, hle⟩ := ih (idx + 1) idx (by omega)
        refine ⟨n, ?_, .inr ?_⟩
        · rw [if_neg (by simpa using hsame), hn]
        · rw [List.length_cons]
          omega
      · exact ⟨forkPointIndex, if_pos hsame, .inl rfl⟩

lemma getForkPoint_eq_ok {received : List SubEpochSummary} (hne : received ≠ []) :
    ∃ forkPoint, h.getForkPoint received = .ok forkPoint := by
  obtain ⟨n, hn, hle⟩ := forkPointIndexFrom_eq_ok (h := h) 0 0 h.localSummaries
    (List.length_pos_iff.mpr hne)
  rw [getForkPoint, hn, ok_bind]
  split
  · rw [pyIndex, List.getElem?_eq_getElem (by omega)]
    exact ⟨_, rfl⟩
  · exact ⟨0, rfl⟩

lemma ne_nil_of_summariesAndSampling {summaries : List SubEpochSummary} {rng : h.random.State}
    (hfirst : h.summariesAndSampling wp = .ok (some (summaries, rng))) : summaries ≠ [] := by
  rintro rfl
  rw [summariesAndSampling] at hfirst
  obtain ⟨-, -, hfirst⟩ := bind_eq_ok.mp hfirst
  obtain ⟨-, -, hfirst⟩ := bind_eq_ok.mp hfirst
  obtain ⟨found, -, hfirst⟩ := bind_eq_ok.mp hfirst
  cases found with
  | none => cases hfirst
  | some found =>
    obtain ⟨found, weights⟩ := found
    obtain ⟨ses, hses, hfirst⟩ := bind_eq_ok.mp hfirst
    obtain ⟨⟨covered, rng'⟩, -, hfirst⟩ := bind_eq_ok.mp hfirst
    cases covered with
    | false => cases hfirst
    | true =>
      obtain ⟨rfl, -⟩ := Prod.mk.inj (Option.some.inj (Except.ok.inj hfirst))
      cases hses

section Runs

variable {summaries : List SubEpochSummary} {rng : h.random.State}
  (hfirst : h.summariesAndSampling wp = .ok (some (summaries, rng)))

include hfirst

lemma single_eq : h.validateWeightProofSingleProc wp = (do
    let result ← h.segments wp summaries rng
    if ¬result.truthy then return (false, 0)
    else do
      let valid ← h.recentBlocks wp summaries
      if ¬valid then return (false, 0)
      else do
        let forkPoint ← h.getForkPoint summaries
        return (true, forkPoint)) := by
  rw [validateWeightProofSingleProc, hfirst, ok_bind]

lemma multi_of_rejected (hseg : h.segments wp summaries rng = .ok .rejected) :
    h.validateWeightProof wp = .error .typeError := by
  rw [validateWeightProof, hfirst, ok_bind]
  simp only [hseg, ok_bind, SegmentsResult.unpack, error_bind]

lemma multi_of_accepted {vdfs : List DeferredVdf}
    (hseg : h.segments wp summaries rng = .ok (.accepted vdfs)) :
    (¬(∀ vdf ∈ vdfs, h.VdfValid vdf) → h.validateWeightProof wp = .ok (false, 0, [])) ∧
    ((∀ vdf ∈ vdfs, h.VdfValid vdf) → h.validateWeightProof wp = (do
      let valid ← h.recentBlocks wp summaries
      if ¬valid then return (false, 0, [])
      else do
        let forkPoint ← h.getForkPoint summaries
        return (true, forkPoint, summaries))) := by
  rw [← all_asCompleted_iff]
  constructor
  · intro hall
    rw [validateWeightProof, hfirst, ok_bind]
    simp only [hseg, ok_bind, SegmentsResult.unpack, not_true_eq_false, if_false]
    rw [if_pos hall]
    rfl
  · intro hall
    rw [validateWeightProof, hfirst, ok_bind]
    simp only [hseg, ok_bind, SegmentsResult.unpack, not_true_eq_false, if_false]
    rw [if_neg (by simpa using hall)]

end Runs

/-- Validators that agree have decided on the proof in one of the two ways. -/
lemma Agrees.decided (hagrees : h.Agrees wp) : h.Decided wp := by
  obtain ⟨⟨valid, forkPoint, summaries', hsingle, hmulti⟩, hfalse⟩ := hagrees
  cases hfirst : h.summariesAndSampling wp with
  | error e =>
    rw [validateWeightProofSingleProc, hfirst, error_bind] at hsingle
    cases hsingle
  | ok found =>
    cases found with
    | none => exact .inl hfirst
    | some found =>
      obtain ⟨summaries, rng⟩ := found
      have hsingle' := hsingle
      rw [single_eq hfirst] at hsingle'
      obtain ⟨result, hseg, hrest⟩ := bind_eq_ok.mp hsingle'
      cases result with
      | rejected =>
        rw [multi_of_rejected hfirst hseg] at hmulti
        cases hmulti
      | accepted vdfs =>
        rw [if_neg (by simp [SegmentsResult.truthy])] at hrest
        obtain ⟨recent, hrecent, hrest⟩ := bind_eq_ok.mp hrest
        refine .inr ⟨summaries, rng, vdfs, recent, hfirst, hseg, hrecent, ?_⟩
        by_cases hall : ∀ vdf ∈ vdfs, h.VdfValid vdf
        · exact .inl hall
        · -- both return `False`, and the single process validator does not look at the VDFs
          have hinvalid : ∃ vdf ∈ vdfs, ¬h.VdfValid vdf := by simpa using hall
          obtain ⟨hsingle₂, -⟩ := hfalse summaries rng _ hfirst hseg (.inr ⟨vdfs, rfl, hinvalid⟩)
          obtain ⟨rfl, -⟩ := Prod.mk.inj (Except.ok.inj (hsingle.symm.trans hsingle₂))
          cases recent with
          | false => exact .inr rfl
          | true =>
            rw [if_neg (by simp)] at hrest
            obtain ⟨forkPoint', -, hrest⟩ := bind_eq_ok.mp hrest
            cases (Prod.mk.inj (Except.ok.inj hrest)).1

/-- On a proof that is decided, the validators agree. -/
lemma Decided.agrees (hdecided : h.Decided wp) : h.Agrees wp := by
  rcases hdecided with hfirst | ⟨summaries, rng, vdfs, valid, hfirst, hseg, hrecent, hvdfs⟩
  · have hsingle : h.validateWeightProofSingleProc wp = .ok (false, 0) := by
      rw [validateWeightProofSingleProc, hfirst]
      rfl
    have hmulti : h.validateWeightProof wp = .ok (false, 0, []) := by
      rw [validateWeightProof, hfirst]
      rfl
    exact ⟨⟨false, 0, [], hsingle, hmulti⟩, fun _ _ _ _ _ _ => ⟨hsingle, hmulti⟩⟩
  · have hsingle : h.validateWeightProofSingleProc wp =
        (do
          if ¬valid then return (false, 0)
          else do
            let forkPoint ← h.getForkPoint summaries
            return (true, forkPoint)) := by
      rw [single_eq hfirst, hseg, ok_bind, if_neg (by simp [SegmentsResult.truthy]), hrecent, ok_bind]
    cases valid with
    | false =>
      have hmulti : h.validateWeightProof wp = .ok (false, 0, []) := by
        by_cases hall : ∀ vdf ∈ vdfs, h.VdfValid vdf
        · rw [(multi_of_accepted hfirst hseg).2 hall, hrecent]
          rfl
        · exact (multi_of_accepted hfirst hseg).1 hall
      exact ⟨⟨false, 0, [], hsingle, hmulti⟩, fun _ _ _ _ _ _ => ⟨hsingle, hmulti⟩⟩
    | true =>
      have hall : ∀ vdf ∈ vdfs, h.VdfValid vdf := hvdfs.resolve_right (by simp)
      obtain ⟨forkPoint, hfork⟩ :=
        getForkPoint_eq_ok (h := h) (ne_nil_of_summariesAndSampling hfirst)
      have hmulti : h.validateWeightProof wp = .ok (true, forkPoint, summaries) := by
        rw [(multi_of_accepted hfirst hseg).2 hall, hrecent, ok_bind, if_neg (by simp), hfork]
        rfl
      have hsingle' : h.validateWeightProofSingleProc wp = .ok (true, forkPoint) := by
        rw [hsingle, if_neg (by simp), hfork]
        rfl
      refine ⟨⟨true, forkPoint, summaries, hsingle', hmulti⟩, fun s r result hs hr hbad => ?_⟩
      obtain ⟨rfl, rfl⟩ := Prod.mk.inj (Option.some.inj (Except.ok.inj (hfirst.symm.trans hs)))
      obtain rfl := Except.ok.inj (hseg.symm.trans hr)
      rcases hbad with hbad | ⟨vdfs', hacc, vdf, hmem, hinvalid⟩
      · cases hbad
      · obtain rfl := SegmentsResult.accepted.inj hacc
        exact absurd (hall vdf hmem) hinvalid

/-- **Agreement of the two validators.** They return the same verdict and fork point, and `False` on
rejected segments and invalid VDFs, exactly for the proofs that are turned down for their summaries
or their sampling, and those whose segments are accepted, whose recent blocks are decided, and whose
VDFs are valid unless the recent blocks are not. -/
theorem agrees_iff (h : WeightProofHandler) (wp : WeightProof) : h.Agrees wp ↔ h.Decided wp :=
  ⟨Agrees.decided, Decided.agrees⟩

/-! ## A sample proof -/

/-- Hashes that tell apart the summaries of the sample proof. -/
def sampleHashes : Hashes where
  challengeBlockInfo := fun _ => Bytes32.ofNat 1
  challengeChainSubSlot := fun _ => Bytes32.ofNat 2
  infusedChallengeChainSubSlot := fun _ => Bytes32.ofNat 3
  rewardChainSubSlot := fun _ => Bytes32.ofNat 4
  subEpochSummary := fun ses => if ses.prevSubepochSummaryHash = defaultConstants.GENESIS_CHALLENGE
    then Bytes32.ofNat 5 else Bytes32.ofNat 6
  rewardChainBlock := fun b => Bytes32.ofNat (7000 + b.height)
  rewardChainBlockUnfinished := fun _ => Bytes32.ofNat 8
  transactionsInfo := fun _ => Bytes32.ofNat 9
  foliageTransactionBlock := fun _ => Bytes32.ofNat 10
  foliageBlockData := fun _ => Bytes32.ofNat 11
  foliage := fun _ => Bytes32.ofNat 12
  vdfOutput := fun _ => Bytes32.ofNat 13
  coinName := fun _ => Bytes32.ofNat 14
  stdHash := fun _ => Bytes32.ofNat 15

/-- Verifiers that accept proofs of space, and no VDF. -/
def sampleVerifiers : Verifiers where
  validateProof := fun _ _ _ _ => some (Bytes32.ofNat 16)
  verifyVdf := fun _ _ _ _ _ => false
  verify := fun _ _ _ => true
  aggregateVerify := fun _ _ _ => true

/-- A node with four worker processes, which finish in the order in which they were started. -/
def sampleHandler : WeightProofHandler where
  hashes := sampleHashes
  verifiers := sampleVerifiers
  constants := defaultConstants
  random := sampleAll
  localSummaries := []
  now := 0
  numProcesses := 4
  asCompleted := fun results => results
  asCompleted_perm := fun results => List.Perm.refl results

/-- A proof of space for the sample hashes. -/
def samplePos : ProofOfSpace := ⟨Bytes32.ofNat 15, some [], none, [], 31, []⟩

/-- The slot that ends the first sub-epoch. -/
def summarySlot : EndOfSubSlotBundle where
  challengeChain := ⟨⟨Bytes32.ofNat 0, 2 ^ 27, defaultElement⟩, none, some (Bytes32.ofNat 6), none, none⟩
  infusedChallengeChain := none
  rewardChain := ⟨⟨Bytes32.ofNat 0, 2 ^ 27, defaultElement⟩, Bytes32.ofNat 2, none, 16⟩
  proofs := ⟨⟨0, [], false⟩, none, ⟨0, [], false⟩⟩

/-- A proof of a chain of 385 blocks, whose first summary has the given reward chain hash and whose
only segment has the given slots. -/
def twoSubEpochs (rewardChainHash : Bytes32) (slots : List SubSlotData) : WeightProof where
  subEpochs := [⟨rewardChainHash, 0, none, none⟩, ⟨Bytes32.ofNat 4, 0, none, none⟩]
  subEpochSegments := [⟨0, slots, none⟩]
  recentChainData := [plainHeader 0 7 [], plainHeader 383 2688 [],
    { plainHeader 384 2695 [summarySlot] with
      rewardChainBlock := { (plainHeader 384 2695 []).rewardChainBlock with
        proofOfSpace := samplePos } }]

/-- A block at the first signage point of a slot. -/
def challengeData : SubSlotData where
  proofOfSpace := some samplePos
  ccSignagePoint := none
  ccInfusionPoint := some ⟨0, [], true⟩
  iccInfusionPoint := none
  ccSpVdfInfo := none
  signagePointIndex := some 0
  ccSlotEnd := none
  iccSlotEnd := none
  ccSlotEndInfo := none
  iccSlotEndInfo := none
  ccIpVdfInfo := some ⟨Bytes32.ofNat 0, 1, defaultElement⟩
  iccIpVdfInfo := none
  totalIters := some 1

lemma verdicts_of_rejected :
    sampleHandler.validateWeightProofSingleProc (twoSubEpochs (Bytes32.ofNat 0) []) = .ok (false, 0) ∧
    sampleHandler.validateWeightProof (twoSubEpochs (Bytes32.ofNat 0) []) = .error .typeError := by
  constructor <;> rfl

lemma verdicts_of_invalid_vdf :
    sampleHandler.validateWeightProofSingleProc
      (twoSubEpochs defaultConstants.GENESIS_CHALLENGE [challengeData]) = .ok (true, 0) ∧
    sampleHandler.validateWeightProof
      (twoSubEpochs defaultConstants.GENESIS_CHALLENGE [challengeData]) = .ok (false, 0, []) := by
  constructor <;> rfl

/-- On neither of the two proofs do the validators agree. -/
theorem not_agrees :
    ¬sampleHandler.Agrees (twoSubEpochs (Bytes32.ofNat 0) []) ∧
    ¬sampleHandler.Agrees (twoSubEpochs defaultConstants.GENESIS_CHALLENGE [challengeData]) := by
  constructor
  · rintro ⟨⟨valid, forkPoint, summaries, -, hmulti⟩, -⟩
    rw [verdicts_of_rejected.2] at hmulti
    cases hmulti
  · rintro ⟨⟨valid, forkPoint, summaries, hsingle, hmulti⟩, -⟩
    rw [verdicts_of_invalid_vdf.1] at hsingle
    rw [verdicts_of_invalid_vdf.2] at hmulti
    obtain ⟨rfl, -⟩ := Prod.mk.inj (Except.ok.inj hsingle)
    cases (Prod.mk.inj (Except.ok.inj hmulti)).1

end WeightProofHandler

end Chives
