import Chives.Consensus.ReceiveBlock

set_option autoImplicit false

/-!
# The choice of the peak

The peak is a heaviest stored block, and the height map, the summaries and the flags of the database
describe its chain.

## Main definitions

* `Call.Validated` — a call whose block passed the validation of its header.
* `Blockchain.WeightInv` — weights go up along chains, and the peak has the largest.
* `DescribesPeak` — what the parts of a state say of the peak.

## Main results

* `Reachable.weightInv` — the weights in every reachable state.
* `peak_is_heaviest` — the peak and its chain in every reachable state, and how it changes.
-/

namespace Chives

open ExceptRun ParentTree BlockHeightMap

/-- `get_ses`. -/
def Blockchain.getSes (s : Blockchain) (height : ℕ) : Except PyError SubEpochSummary := do
  SubEpochSummary.fromBytes (← s.heightMap.getSes height)

/-- The header of the block was validated, with the record of its parent as the state has it. -/
def HeaderValid (T : BodyTools) (constants : ConsensusConstants) (s : Blockchain) (b : FullBlock) :
    Prop :=
  ∃ (blocks : BlockRecords) (additions : List Coin) (removals : List Bytes32) (checkFilter : Bool)
    (difficulty subSlotIters : ℕ) (checkSubEpochSummary : Bool) (now requiredIters : ℕ),
    validateFinishedHeaderBlock T.H T.V constants blocks
      (getBlockHeader T.encodedFilter b additions removals) checkFilter difficulty subSlotIters
      checkSubEpochSummary now = .ok requiredIters ∧
    ∀ p, blocks.get b.prevHeaderHash = some p → s.blockRecords.get b.prevHeaderHash = some p

/-- The new difficulties and slot lengths of a block are 64-bit numbers. -/
def SlotsFit (b : FullBlock) : Prop :=
  ∀ slot ∈ b.finishedSubSlots, (∀ n, slot.challengeChain.newDifficulty = some n → n < 2 ^ 64) ∧
    ∀ n, slot.challengeChain.newSubSlotIters = some n → n < 2 ^ 64

/-- What the caller of `receive_block` guarantees, with the validation of headers. -/
structure Call.Validated (T : BlockchainTools) (constants : ConsensusConstants) (s : Blockchain)
    (c : Call) : Prop extends Call.Meets T constants s c where
  header : c.preValidationResult.error = none → HeaderValid T.toBodyTools constants s c.block
  slots : SlotsFit c.block

/-! ## The rules for weights -/

section Header

variable {T : BodyTools} {constants : ConsensusConstants} {s : Blockchain} {b : FullBlock}

lemma rejectIf_eq_ok {bad : Prop} [Decidable bad] {e : Err} {u : Unit} :
    rejectIf bad e = .ok u ↔ ¬bad := by
  unfold rejectIf
  by_cases h : bad <;> simp [h]

lemma raising_eq_ok {α : Type} {x : Except PyError α} {a : α} : raising x = .ok a ↔ x = .ok a :=
  mapError_eq_ok

/-- The weight in a validated header: that of the parent and a difficulty, or the starting difficulty. -/
lemma HeaderValid.weight (h : HeaderValid T constants s b) :
    (b.height = 0 → b.weight = constants.DIFFICULTY_STARTING) ∧
      (b.height ≠ 0 → ∃ p, s.blockRecords.get b.prevHeaderHash = some p ∧ p.weight ≤ b.weight) := by
  obtain ⟨blocks, additions, removals, checkFilter, difficulty, subSlotIters, check, now, iters, h,
    hparent⟩ := h
  unfold validateFinishedHeaderBlock at h
  obtain ⟨_, -, h⟩ := bind_eq_ok.mp h
  obtain ⟨prevB, hprev, h⟩ := bind_eq_ok.mp h
  obtain ⟨_, -, h⟩ := bind_eq_ok.mp h
  obtain ⟨_, hweight, -⟩ := bind_eq_ok.mp h
  have hprev := raising_eq_ok.mp hprev
  unfold prevOfHeader at hprev
  constructor
  · intro h0
    rw [if_pos (show (getBlockHeader T.encodedFilter b additions removals).height = 0 from h0)] at hprev
    rw [← Except.ok.inj hprev] at hweight
    unfold checkHeightAndWeight at hweight
    obtain ⟨_, -, hweight⟩ := bind_eq_ok.mp hweight
    obtain ⟨_, hweight, -⟩ := bind_eq_ok.mp hweight
    exact not_not.mp (rejectIf_eq_ok.mp hweight)
  · intro h0
    rw [if_neg (show ¬(getBlockHeader T.encodedFilter b additions removals).height = 0 from h0)] at hprev
    obtain ⟨p, hp, rfl⟩ := map_eq_ok.mp hprev
    unfold checkHeightAndWeight at hweight
    obtain ⟨_, -, hweight⟩ := bind_eq_ok.mp hweight
    obtain ⟨_, hweight, -⟩ := bind_eq_ok.mp hweight
    have heq : b.weight = p.weight + difficulty := not_not.mp (rejectIf_eq_ok.mp hweight)
    refine ⟨p, hparent p ?_, by omega⟩
    exact BlockRecords.get_of_blockRecord hp

end Header

/-! ## The summaries of records -/

lemma fits_of_includedSummary {H : Hashes} {constants : ConsensusConstants} {blocks : BlockRecords}
    {b : FullBlock} {prev : Option BlockRecord} {ses : SubEpochSummary} (hslots : SlotsFit b)
    (h : includedSummary H constants blocks b prev = .ok (some ses)) : ses.Fits := by
  unfold includedSummary at h
  split at h
  · rename_i foundHash slot slots hfound hcons
    obtain ⟨hdifficulty, hiters⟩ := hslots slot (by rw [hcons]; exact List.mem_cons_self)
    obtain ⟨prevB, -, h⟩ := bind_eq_ok.mp h
    obtain ⟨prevPrev, -, h⟩ := bind_eq_ok.mp h
    obtain ⟨ses', hses', h⟩ := bind_eq_ok.mp h
    have hsame : ses' = ses := by
      split at h
      · cases h
      · simpa using Except.ok.inj h
    subst hsame
    unfold makeSubEpochSummary at hses'
    obtain ⟨_, -, hses'⟩ := bind_eq_ok.mp hses'
    split at hses'
    · rw [← Except.ok.inj hses']
      exact ⟨by norm_num, fun n hn => (by cases hn), fun n hn => (by cases hn)⟩
    · obtain ⟨curr, -, hses'⟩ := bind_eq_ok.mp hses'
      obtain ⟨ses₀, -, hses'⟩ := bind_eq_ok.mp hses'
      obtain ⟨hashes, -, hses'⟩ := bind_eq_ok.mp hses'
      obtain ⟨last, -, hses'⟩ := bind_eq_ok.mp hses'
      obtain ⟨overflowing, hover, hses'⟩ := bind_eq_ok.mp hses'
      rw [← Except.ok.inj hses']
      exact ⟨(uintN_eq_ok.mp hover).2, hdifficulty, hiters⟩
  · cases h

/-! ## The invariant -/

/-- Weights go up along chains, the peak has the largest one, and the numbers in stored summaries fit in
their types. -/
structure Blockchain.WeightInv (T : BlockchainTools) (constants : ConsensusConstants)
    (s : Blockchain) : Prop where
  genesis : ∀ {h e}, s.blockStore.entry h = some e → e.2.height = 0 →
    e.2.weight = constants.DIFFICULTY_STARTING
  parent : ∀ {h e p}, s.blockStore.entry h = some e → e.2.height ≠ 0 →
    s.blockStore.entry e.2.prevHash = some p → p.2.weight ≤ e.2.weight
  summary : ∀ {h e ses}, s.blockStore.entry h = some e →
    e.2.subEpochSummaryIncluded = some ses → ses.Fits
  peak : ∀ {tip P}, MainChain T constants s s.blockStore.entry tip P →
    ∀ {h e}, s.blockStore.entry h = some e → e.2.weight ≤ tip.2.weight

section Weights

variable {T : BlockchainTools} {constants : ConsensusConstants} {s s' : Blockchain} {e : Entry}
  {l : List Entry} {store : BlockStore}

lemma MadeOf.weight {H : Hashes} (h : MadeOf H constants e) : e.2.weight = e.1.weight := by
  obtain ⟨_, _, _, _, _, _, h, -⟩ := h
  rw [h]
  rfl

lemma Blockchain.WeightInv.starting_le (hw : s.WeightInv T constants)
    (hinv : s.Inv T constants) {h : Bytes32} {x : Entry} (hx : s.blockStore.entry h = some x) :
    constants.DIFFICULTY_STARTING ≤ x.2.weight := by
  obtain ⟨lx, hlx⟩ := hinv.view.rooted.path hx
  induction hlx generalizing h with
  | root h0 => exact (hw.genesis hx h0).ge
  | @step x p l hp hh _ ih =>
    change s.blockStore.entry x.2.prevHash = some p at hp
    change x.2.height = p.2.height + 1 at hh
    exact (ih hp).trans (hw.parent hx (by omega) hp)

lemma MainChain.tip_unique {m m' : Bytes32 → Option Entry} {tip tip' : Entry} {P P' : List Entry}
    (hm : MainChain T constants s m tip P) (hm' : MainChain T constants s m' tip' P') :
    tip.2 = tip'.2 := by
  have := hm.getPeak_eq.symm.trans hm'.getPeak_eq
  simpa using this

/-- What is known of the weight and the summary of a block that is added. -/
structure ValidRecord (constants : ConsensusConstants) (s : Blockchain) (e : Entry) : Prop where
  genesis : e.2.height = 0 → e.2.weight = constants.DIFFICULTY_STARTING
  parent : e.2.height ≠ 0 → ∀ p, s.blockStore.entry e.2.prevHash = some p → p.2.weight ≤ e.2.weight
  summary : ∀ ses, e.2.subEpochSummaryIncluded = some ses → ses.Fits

lemma validRecord_of_acceptBlock {c : Call} {rec : BlockRecord} (hinv : s.Inv T constants)
    (hc : c.Validated T constants s)
    (h : s.acceptBlock T constants c.block c.preValidationResult c.forkPointWithPeak =
      .ok (.inr rec)) : ValidRecord constants s (c.block, rec) := by
  obtain ⟨-, -, herror, -, requiredIters, -, hrec⟩ := Blockchain.acceptBlock_eq_inr h
  have hmade := Blockchain.madeOf_of_blockToBlockRecord hrec
  obtain ⟨hgenesis, hparent⟩ := (hc.header herror).weight
  refine ⟨?_, ?_, ?_⟩
  · rw [hmade.height, hmade.weight]
    exact hgenesis
  · rw [hmade.height, hmade.prevHash, hmade.weight]
    intro h0 p hp
    obtain ⟨p', hp', hle⟩ := hparent h0
    rw [hinv.view.cached hp] at hp'
    rwa [← Option.some.inj hp'] at hle
  · intro ses hses
    obtain ⟨_, _, _, _, ses', -, hincluded, heq⟩ := blockToBlockRecord_eq_ok hrec
    rw [heq] at hses
    obtain rfl : ses' = some ses := hses
    exact fits_of_includedSummary hc.slots hincluded

/-- Adding a block keeps the rules for weights. -/
lemma Added.weightInv (ha : Addition T constants s e l store) (hw : s.WeightInv T constants)
    (he : ValidRecord constants s e) (h : Added T constants s s' e l store) :
    s'.WeightInv T constants := by
  have hentry : ∀ h, s'.blockStore.entry h = store.entry h := by
    cases h with
    | orphan _ _ h => subst h; exact fun _ => rfl
    | first _ _ h => exact h.entry
    | heavier _ _ _ h => exact h.entry
  have hparent : ∀ {x : Entry} {p : Entry}, s.blockStore.entry x.2.headerHash = some x →
      x.2.height ≠ 0 → store.entry x.2.prevHash = some p → s.blockStore.entry x.2.prevHash = some p := by
    intro x p hx h0 hp
    obtain ⟨lx, hlx⟩ := ha.inv.view.rooted.path hx
    obtain ⟨p', _, hp', -⟩ := hlx.parent h0
    change s.blockStore.entry x.2.prevHash = some p' at hp'
    rw [ha.entry_mono hp'] at hp
    rw [hp', Option.some.inj hp]
  have hself : ∀ {p : Entry}, e.2.height ≠ 0 → store.entry e.2.prevHash = some p →
      s.blockStore.entry e.2.prevHash = some p := by
    intro p h0 hp
    obtain ⟨p', _, hp', -⟩ := ha.path_self.parent h0
    change s.blockStore.entry e.2.prevHash = some p' at hp'
    rw [ha.entry_mono hp'] at hp
    rw [hp', Option.some.inj hp]
  constructor
  · intro h x hx h0
    rw [hentry] at hx
    rcases ha.entry_cases hx with ⟨-, rfl⟩ | hx
    · exact he.genesis h0
    · exact hw.genesis hx h0
  · intro h x p hx h0 hp
    rw [hentry] at hx hp
    rcases ha.entry_cases hx with ⟨-, rfl⟩ | hx
    · exact he.parent h0 p (hself h0 hp)
    · have hhash : x.2.headerHash = h := ha.inv.view.rooted.hash_eq hx
      exact hw.parent hx h0 (hparent (by rw [hhash]; exact hx) h0 hp)
  · intro h x ses hx hses
    rw [hentry] at hx
    rcases ha.entry_cases hx with ⟨-, rfl⟩ | hx
    · exact he.summary ses hses
    · exact hw.summary hx hses
  · intro tip' P' hm' h' x hx
    rw [hentry] at hx
    cases h with
    | @orphan tip P hm hle h =>
      subst h
      rw [← (ha.mainChain_orphan hm).tip_unique hm']
      rcases ha.entry_cases hx with ⟨-, rfl⟩ | hx
      · rcases hle with h0 | hle
        · rw [he.genesis (by rw [ha.madeOf.height, h0])]
          exact hw.starting_le ha.inv hm.tip_mem
        · exact hle
      · exact hw.peak hm hx
    | first hs _ h =>
      rw [← h.mainChain.tip_unique hm']
      rcases ha.entry_cases hx with ⟨-, rfl⟩ | hx
      · exact le_rfl
      · rw [hs.entry_eq_none] at hx
        cases hx
    | heavier hm _ hlt h =>
      rw [← h.mainChain.tip_unique hm']
      rcases ha.entry_cases hx with ⟨-, rfl⟩ | hx
      · exact le_rfl
      · exact (hw.peak hm hx).trans hlt.le

theorem Reachable.weightInv (hcost : CostMonotone T.runGenerator)
    (h : Reachable T constants (fun s c => c.Validated T constants s) s) :
    s.WeightInv T constants := by
  induction h with
  | initial files =>
    have hentry : ∀ h, (Blockchain.initial files).blockStore.entry h = none := fun _ => rfl
    constructor
    all_goals
      intros
      simp_all
  | @receive s h c hc ih =>
    have hinv := Reachable.inv hcost (fun _ _ hc => hc.toMeets) h
    rcases Blockchain.receiveBlock_cases hcost hinv hc.toMeets with
      hsame | ⟨rec, l, store, haccept, ha, hadded⟩
    · rw [hsame]
      exact ih
    · exact hadded.weightInv ha ih (validRecord_of_acceptBlock hinv hc haccept)

end Weights

/-! ## The peak -/

/-- What the parts of a state say of the peak `tip` and its chain `P`: it is stored and no stored block
is heavier, the hashes by height are those of the chain, the summaries are those of its blocks, and the
flags of the database mark the chain and its tip. -/
structure DescribesPeak (version : DbVersion) (s : Blockchain) (tip : Entry) (P : List Entry) :
    Prop where
  stored : s.blockStore.entry tip.2.headerHash = some tip
  path : Path entryLinks s.blockStore.entry tip P
  heaviest : ∀ h e, s.blockStore.entry h = some e → e.2.weight ≤ tip.2.weight
  heightToHash : ∀ h, s.heightToHash h = P[h]?.map fun e => e.2.headerHash
  heights : ∀ h, (s.heightToHash h).isSome = true ↔ h ≤ tip.2.height
  sesSorted : s.heightMap.getSesHeights.Pairwise (· < ·)
  sesHeights : ∀ h, h ∈ s.heightMap.getSesHeights ↔
    ∃ e ses, P[h]? = some e ∧ e.2.subEpochSummaryIncluded = some ses
  ses : ∀ h e ses, P[h]? = some e → e.2.subEpochSummaryIncluded = some ses → s.getSes h = .ok ses
  currentPeak : version = .v2 → s.blockStore.currentPeak = some tip.2.headerHash
  inMainChain : version = .v2 → ∀ r ∈ s.blockStore.fullBlocks,
    r.inMainChain = true ↔ (r.block, r.blockRecord) ∈ P
  isPeak : version = .v1 → ∀ r ∈ s.blockStore.fullBlocks,
    r.isPeak = true ↔ r.headerHash = tip.2.headerHash

section Peak

variable {T : BlockchainTools} {constants : ConsensusConstants} {s : Blockchain} {tip : Entry}
  {P : List Entry}

lemma MainChain.sesAt_eq (hm : MainChain T constants s s.blockStore.entry tip P)
    (hw : s.WeightInv T constants) {h : ℕ} {e : Entry} (he : P[h]? = some e) :
    (e.2.subEpochSummaryIncluded = none ∧ sesAt (P.map blockRowOf) h = none) ∨
      ∃ ses b, e.2.subEpochSummaryIncluded = some ses ∧ sesAt (P.map blockRowOf) h = some b ∧
        SubEpochSummary.fromBytes b = .ok ses := by
  have hmem := hm.view.mem_of_path hm.path hm.tip_mem (List.mem_of_getElem? he)
  have hat : sesAt (P.map blockRowOf) h = (blockRowOf e).subEpochSummary := by
    rw [sesAt, List.getElem?_map, he]
    rfl
  rw [hat]
  cases hses : e.2.subEpochSummaryIncluded with
  | none => exact .inl ⟨rfl, blockRowOf_subEpochSummary hses⟩
  | some ses =>
    obtain ⟨b, hb, hback⟩ := (hw.summary hmem hses).fromBytes_toBytes
    refine .inr ⟨ses, b, rfl, ?_, hback⟩
    simp [blockRowOf, BlockStore.sesColumn, hses, hb, Except.map, Except.toOption]

/-- The parts of a state describe the main chain. -/
lemma MainChain.describesPeak (hm : MainChain T constants s s.blockStore.entry tip P)
    (hw : s.WeightInv T constants) : DescribesPeak T.dbVersion s tip P where
  stored := hm.tip_mem
  path := hm.path
  heaviest _ _ he := hw.peak hm he
  heightToHash := hm.heightToHash_eq
  heights h := by
    have hlen : P.length = tip.2.height + 1 := hm.path.length_eq
    rw [hm.heightToHash_eq, Option.isSome_map, isSome_getElem?]
    omega
  sesSorted := getSesHeights_sorted _
  sesHeights h := by
    rw [hm.describes.mem_getSesHeights]
    cases he : P[h]? with
    | none =>
      have hnone : sesAt (P.map blockRowOf) h = none := by
        rw [sesAt, List.getElem?_map, he]
        rfl
      simp [hnone]
    | some e =>
      rcases hm.sesAt_eq hw he with ⟨hses, hat⟩ | ⟨ses, b, hses, hat, -⟩
      · simp [hses, hat]
      · simp [hses, hat]
  ses h e ses he hses := by
    rcases hm.sesAt_eq hw he with ⟨hnone, -⟩ | ⟨ses', b, hses', hat, hback⟩
    · rw [hnone] at hses
      cases hses
    · have hget : s.heightMap.getSes h = .ok b := by
        unfold BlockHeightMap.getSes
        rw [hm.describes.subEpochSummaries, hat]
      obtain rfl := Option.some.inj (hses.symm.trans hses')
      show (s.heightMap.getSes h >>= SubEpochSummary.fromBytes) = _
      rw [hget, ok_bind, hback]
  currentPeak := hm.currentPeak
  inMainChain := hm.inMainChain
  isPeak := hm.isPeak

lemma Blockchain.IsEmpty.describesNothing (hs : s.IsEmpty) :
    (∀ h, s.heightToHash h = none) ∧ s.heightMap.getSesHeights = [] := by
  constructor
  · intro h
    have hnot : ¬s.heightMap.containsHeight h = true := by
      rw [hs.describes.containsHeight_iff]
      simp
    unfold heightToHash
    rw [if_neg hnot]
  · rw [List.eq_nil_iff_forall_not_mem]
    intro h hh
    obtain ⟨ses, hses⟩ := (hs.describes.mem_getSesHeights h).mp hh
    simp [sesAt] at hses

/-- **The peak.** In every state that calls of `receive_block` with validated headers reach: either no
block is stored and no part of the state knows of one, or the peak is a heaviest stored block and the
height map, the summaries and the flags of the database describe exactly its chain. Moreover, a further
call leaves the peak as it is or replaces it by a strictly heavier one, which is the received block. -/
theorem peak_is_heaviest (hcost : CostMonotone T.runGenerator)
    (h : Reachable T constants (fun s c => c.Validated T constants s) s) :
    ((s.getPeak = .ok none ∧ (∀ h, s.blockStore.entry h = none) ∧
        s.blockStore.currentPeak = none ∧ (∀ h, s.heightToHash h = none) ∧
        s.heightMap.getSesHeights = []) ∨
      ∃ tip P, s.getPeak = .ok (some tip.2) ∧ DescribesPeak T.dbVersion s tip P) ∧
    ∀ c : Call, c.Validated T constants s → ∀ p, s.getPeak = .ok (some p) →
      ∃ p', (s.receiveBlock T constants c.block c.preValidationResult
          c.forkPointWithPeak).1.getPeak = .ok (some p') ∧
        (p' = p ∨ (p.weight < p'.weight ∧ p'.headerHash = c.block.headerHash T.H)) := by
  have hinv := Reachable.inv hcost (fun _ _ hc => hc.toMeets) h
  have hw := Reachable.weightInv hcost h
  constructor
  · rcases hinv.peak with hs | ⟨tip, P, hm, -⟩
    · exact .inl ⟨hs.getPeak_eq, hs.entry_eq_none, hs.currentPeak, hs.describesNothing⟩
    · exact .inr ⟨tip, P, hm.getPeak_eq, hm.describesPeak hw⟩
  · intro c hc p hp
    rcases Blockchain.receiveBlock_cases hcost hinv hc.toMeets with
      hsame | ⟨rec, l, store, haccept, ha, hadded⟩
    · rw [hsame]
      exact ⟨p, hp, .inl rfl⟩
    · generalize (s.receiveBlock T constants c.block c.preValidationResult
        c.forkPointWithPeak).1 = s' at hadded
      cases hadded with
      | orphan hm _ hs' =>
        have hpeak := hm.getPeak_eq.symm.trans hp
        obtain rfl : _ = p := by simpa using hpeak
        subst hs'
        exact ⟨_, (ha.mainChain_orphan hm).getPeak_eq, .inl rfl⟩
      | first hs _ _ =>
        rw [hs.getPeak_eq] at hp
        simp at hp
      | heavier hm _ hlt hnew =>
        have hpeak := hm.getPeak_eq.symm.trans hp
        obtain rfl : _ = p := by simpa using hpeak
        exact ⟨rec, hnew.mainChain.getPeak_eq, .inr ⟨hlt, ha.madeOf.headerHash⟩⟩

end Peak

lemma headerValid_genesisBlock (s : Blockchain) :
    HeaderValid sampleBlockchainTools.toBodyTools defaultConstants s genesisBlock := by
  refine ⟨∅, [], [], true, 7, defaultConstants.SUB_SLOT_ITERS_STARTING, true, 0, 1, ?_, ?_⟩
  · decide +kernel
  · intro p hp
    cases hp

/-- After the genesis block was added, it is the peak. -/
theorem peak_is_heaviest_genesis : ∃ tip P, genesisState.getPeak = .ok (some tip.2) ∧
    DescribesPeak .v2 genesisState tip P := by
  have hslots : SlotsFit genesisCall.block := fun slot hslot => by cases hslot
  have hreach : Reachable sampleBlockchainTools defaultConstants
      (fun s c => c.Validated sampleBlockchainTools defaultConstants s) genesisState :=
    .receive (.initial ⟨none, none⟩) genesisCall
      ⟨genesisCall_meets, fun _ => headerValid_genesisBlock _, hslots⟩
  rcases (peak_is_heaviest (fun _ _ _ _ _ _ => rfl) hreach).1 with ⟨-, hnone, -⟩ | hpeak
  · have hsome : (genesisState.blockStore.entry (Bytes32.ofNat 1)).isSome = true := by
      decide +kernel
    rw [hnone] at hsome
    cases hsome
  · exact hpeak

end Chives
