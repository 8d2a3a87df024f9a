import Chives.Consensus.ChainCoins
import Chives.Consensus.DoubleSpend
import Chives.Consensus.SubEpochs

set_option autoImplicit false

/-!
# Validated blocks in a reachable state

What the validation of the header and of the body say together about a block that `receive_block` adds:
the block fits on the chain of its parent. Hence all stored blocks fit on their own chains.

## Main definitions

* `CacheOf` — a cache in which the blocks before a block can be found.
* `PreValidated` — the header of a block is valid on top of other blocks.
* `AllFit` — all stored blocks fit on their own chains.
* `Call.MeetsPreValidation` — what the caller of `receive_block` guarantees with pre-validation.

## Main results

* `fits_of_acceptBlock` — an accepted block fits on the chain of its parent.
* `Reachable.allFit` — all stored blocks fit on their own chains, in every reachable state.

## Design

A batch is pre-validated with a cache that may lack old blocks and may have other ones. It is only asked
that it has no other records for the ancestors of the block.
-/

namespace Chives

open ExceptRun LifeTable Table ParentTree

/-! ## The header -/

/-- A cache for the validation of a block on top of the blocks `l`: what it has under the hash of one of
them is its record, and there is no parent of genesis. -/
structure CacheOf (blocks : BlockRecords) (l : List Entry) (b : FullBlock) : Prop where
  agrees : ∀ x ∈ l, ∀ r, blocks.get x.2.headerHash = some r → r = x.2
  genesis : l = [] → blocks.get b.prevHeaderHash = none

/-- The header of a block passes `validate_finished_header_block` on top of the blocks `l`. -/
def PreValidated (T : BodyTools) (constants : ConsensusConstants) (l : List Entry) (b : FullBlock) : Prop :=
  ∃ (blocks : BlockRecords) (additions : List Coin) (removals : List Bytes32) (checkFilter : Bool)
    (difficulty subSlotIters now requiredIters : ℕ), CacheOf blocks l b ∧
    validateFinishedHeaderBlock T.H T.V constants blocks
      (getBlockHeader T.encodedFilter b additions removals) checkFilter difficulty subSlotIters true now =
        .ok requiredIters

/-- What the caller of `receive_block` guarantees: the contract of the call, that the header was found valid
if pre-validation reports no error, and that the fees are a `uint64`. -/
structure Call.MeetsPreValidation (T : BlockchainTools) (constants : ConsensusConstants) (s : Blockchain)
    (c : Call) : Prop extends c.Meets T constants s where
  header : c.preValidationResult.error = none → ∀ l, s.Ancestors c.block l →
    PreValidated T.toBodyTools constants l c.block
  fees : ∀ info, c.block.transactionsInfo = some info → info.fees < 2 ^ 64

section Header

variable {H : Hashes} {V : Verifiers} {constants : ConsensusConstants} {blocks : BlockRecords}
  {hb : HeaderBlock} {checkFilter check : Bool} {difficulty subSlotIters now requiredIters : ℕ}

/-- The checks of a valid header on its height, on whether it is a transaction block, and on its foliage
transaction block. -/
lemma validateFinishedHeaderBlock_foliage
    (h : validateFinishedHeaderBlock H V constants blocks hb checkFilter difficulty subSlotIters check now =
      .ok requiredIters) :
    (∃ newSubSlot canFinish, heightAndEpoch constants blocks (blocks.get hb.prevHeaderHash) newSubSlot
      difficulty subSlotIters = .ok canFinish) ∧
    (∃ spTotalIters, checkIsTransactionBlock blocks hb.unfinished (blocks.get hb.prevHeaderHash)
      spTotalIters = .ok ()) ∧
    checkFoliageTransactionBlock H constants blocks hb.unfinished (blocks.get hb.prevHeaderHash)
      checkFilter now = .ok () := by
  unfold validateFinishedHeaderBlock at h
  obtain ⟨iters, h, -⟩ := bind_eq_ok.mp h
  unfold validateUnfinishedHeaderBlock at h
  obtain ⟨_, -, h⟩ := bind_eq_ok.mp h
  obtain ⟨overflow, -, h⟩ := bind_eq_ok.mp h
  obtain ⟨⟨skipLast, n⟩, -, h⟩ := bind_eq_ok.mp h
  obtain ⟨canFinish, hepoch, h⟩ := bind_eq_ok.mp h
  obtain ⟨_, -, h⟩ := bind_eq_ok.mp h
  obtain ⟨challenge, -, h⟩ := bind_eq_ok.mp h
  obtain ⟨required, -, h⟩ := bind_eq_ok.mp h
  obtain ⟨⟨⟩, hrest, -⟩ := bind_eq_ok.mp h
  unfold checkSignagePointAndFoliage at hrest
  obtain ⟨spIters, -, hrest⟩ := bind_eq_ok.mp hrest
  obtain ⟨ipIters, -, hrest⟩ := bind_eq_ok.mp hrest
  obtain ⟨spTotalIters, -, hrest⟩ := bind_eq_ok.mp hrest
  obtain ⟨info, -, hrest⟩ := bind_eq_ok.mp hrest
  obtain ⟨rcSpHash, -, hrest⟩ := bind_eq_ok.mp hrest
  obtain ⟨_, -, hrest⟩ := bind_eq_ok.mp hrest
  obtain ⟨_, -, hrest⟩ := bind_eq_ok.mp hrest
  obtain ⟨_, -, hrest⟩ := bind_eq_ok.mp hrest
  obtain ⟨⟨⟩, htx, hrest⟩ := bind_eq_ok.mp hrest
  obtain ⟨_, -, hfoliage⟩ := bind_eq_ok.mp hrest
  exact ⟨⟨_, _, raising_eq_ok.mp hepoch⟩, ⟨spTotalIters, htx⟩, hfoliage⟩

variable {T : BodyTools} {l : List Entry} {b : FullBlock}

lemma PreValidated.genesis (h : PreValidated T constants [] b) :
    b.foliage.foliageTransactionBlockHash.isSome = true := by
  obtain ⟨blocks, additions, removals, checkFilter, difficulty, iters, now, required, hcache, hvalid⟩ := h
  obtain ⟨-, ⟨spTotalIters, htx⟩, -⟩ := validateFinishedHeaderBlock_foliage hvalid
  have hprev : blocks.get (getBlockHeader T.encodedFilter b additions removals).prevHeaderHash = none :=
    hcache.genesis rfl
  rw [hprev] at htx
  have hsome : ¬b.foliage.foliageTransactionBlockHash.isNone = true := rejectIf_eq_ok.mp htx
  cases hhash : b.foliage.foliageTransactionBlockHash with
  | none => simp [hhash] at hsome
  | some x => rfl

/-- What the header of a block says of its parent, the last block of a chain: the height of the block fits,
and a transaction block names the last transaction block of the chain. -/
lemma PreValidated.parent (h : PreValidated T constants l b) {m : BlockRecords} {p t : BlockRecord}
    {a rest : List BlockRecord} (hchain : m.Chain p (l.map Prod.snd))
    (hm : ∀ {k x}, m.get k = some x → x.headerHash = k) (hp : b.prevHeaderHash = p.headerHash)
    (hheight : b.height = p.height + 1) (hl : l.map Prod.snd = a ++ t :: rest)
    (ht : t.isTransactionBlock = true) (hrest : ∀ y ∈ rest, y.isTransactionBlock = false) :
    b.height < 2 ^ 32 ∧
      ∀ ftb, b.foliageTransactionBlock = some ftb → ftb.prevTransactionBlockHash = t.headerHash := by
  obtain ⟨blocks, additions, removals, checkFilter, difficulty, iters, now, required, hcache, hvalid⟩ := h
  have hagree : ∀ x ∈ l.map Prod.snd, ∀ r, blocks.get x.headerHash = some r → r = x := by
    intro x hx r hr
    obtain ⟨e, he, rfl⟩ := List.mem_map.mp hx
    exact hcache.agrees e he r hr
  have hpmem : p ∈ l.map Prod.snd := hchain.mem_self
  have hprev : blocks.get b.prevHeaderHash = some p := by
    obtain ⟨_, _, _, -, -, prevB, hprev, -⟩ := validateFinishedHeaderBlock_eq_ok hvalid
    unfold prevOfHeader at hprev
    have h0 : ¬(getBlockHeader T.encodedFilter b additions removals).height = 0 := by
      show ¬b.height = 0
      omega
    rw [if_neg h0] at hprev
    obtain ⟨p', hp', -⟩ := map_eq_ok.mp hprev
    have hget : blocks.get b.prevHeaderHash = some p' := BlockRecords.get_of_blockRecord hp'
    rw [hget, hagree p hpmem p' (by rw [← hp, hget])]
  obtain ⟨⟨newSubSlot, canFinish, hepoch⟩, -, hfoliage⟩ := validateFinishedHeaderBlock_foliage hvalid
  have hprev' : blocks.get (getBlockHeader T.encodedFilter b additions removals).prevHeaderHash = some p :=
    hprev
  rw [hprev'] at hepoch hfoliage
  constructor
  · unfold heightAndEpoch at hepoch
    obtain ⟨height, huint, -⟩ := bind_eq_ok.mp hepoch
    obtain ⟨hcast, hlt⟩ := uintN_eq_ok.mp huint
    have : (p.height : ℤ) + 1 = height := hcast
    omega
  · intro ftb hftb
    unfold checkFoliageTransactionBlock at hfoliage
    obtain ⟨_, -, hfoliage⟩ := bind_eq_ok.mp hfoliage
    obtain ⟨_, -, hfoliage⟩ := bind_eq_ok.mp hfoliage
    have hftb' : (getBlockHeader T.encodedFilter b additions removals).unfinished.foliageTransactionBlock =
        some ftb := hftb
    rw [hftb'] at hfoliage
    obtain ⟨_, -, hfoliage⟩ := bind_eq_ok.mp hfoliage
    obtain ⟨_, hhash, -⟩ := bind_eq_ok.mp hfoliage
    unfold checkPrevTransactionBlockHash at hhash
    obtain ⟨curr, hwalk, hhash⟩ := bind_eq_ok.mp hhash
    rw [not_not.mp (rejectIf_eq_ok.mp hhash)]
    have hcurr : curr = t := eq_of_walkBack hchain hm hagree hl ht hrest (raising_eq_ok.mp hwalk)
    rw [hcurr]

end Header

/-! ## The body -/

section Body

variable {T : BodyTools} {constants : ConsensusConstants} {ctx : BodyContext} {b : FullBlock}
  {height : ℕ} {npcResult : Option NPCResult} {forkPoint : Option ℤ} {validateSignature : Bool}
  {ftb : FoliageTransactionBlock} {info : TransactionsInfo}

/-- The checks of an accepted transaction block on its rewards, its outputs and its removals. -/
lemma validateTransactions_eq_ok
    (h : validateTransactions T constants ctx b ftb info height npcResult forkPoint validateSignature =
      .ok ()) :
    ∃ expected effects records,
      expectedRewardCoins constants ctx.blocks ftb.prevTransactionBlockHash height = .ok expected ∧
      info.rewardClaimsIncorporated.Perm expected.dedup ∧
      effectsOfNpc constants b npcResult = .ok effects ∧
      ((effects.additions ++ expected.dedup).map T.H.coinName).Nodup ∧
      removalCoinRecords T constants ctx b height ftb.timestamp forkPoint effects.removals
        (additionsDicOf T effects.additions expected.dedup) = .ok records := by
  unfold validateTransactions at h
  obtain ⟨_, -, h⟩ := bind_eq_ok.mp h
  obtain ⟨coinbase, hcoinbase, h⟩ := bind_eq_ok.mp h
  obtain ⟨prevHeight, -, h⟩ := bind_eq_ok.mp h
  obtain ⟨_, -, h⟩ := bind_eq_ok.mp h
  obtain ⟨effects, heffects, h⟩ := bind_eq_ok.mp h
  obtain ⟨_, houtputs, h⟩ := bind_eq_ok.mp h
  obtain ⟨records, hrecords, -⟩ := bind_eq_ok.mp h
  unfold checkRewardStep at hcoinbase
  obtain ⟨expected, hexpected, hcoinbase⟩ := bind_eq_ok.mp hcoinbase
  have hexpected := bodyRaising_eq_ok.mp hexpected
  have hclaims : checkRewardClaims info.rewardClaimsIncorporated expected = none ∧
      expected.dedup = coinbase := by
    split at hcoinbase
    · cases hcoinbase
    · rename_i hnone
      exact ⟨hnone, Except.ok.inj hcoinbase⟩
  obtain ⟨hnone, rfl⟩ := hclaims
  unfold checkOutputs at houtputs
  obtain ⟨_, -, houtputs⟩ := bind_eq_ok.mp houtputs
  obtain ⟨_, -, houtputs⟩ := bind_eq_ok.mp houtputs
  obtain ⟨_, -, houtputs⟩ := bind_eq_ok.mp houtputs
  obtain ⟨_, -, houtputs⟩ := bind_eq_ok.mp houtputs
  exact ⟨expected, effects, records, hexpected, checkRewardClaims_eq_none.mp hnone, heffects,
    not_not.mp (bodyRejectIf_eq_ok.mp houtputs), hrecords⟩

lemma nodup_of_removalCoinRecords {timestamp : ℕ} {removals : List Bytes32}
    {additionsDic : Dict Bytes32 Coin} {records : Dict Bytes32 CoinRecord}
    (h : removalCoinRecords T constants ctx b height timestamp forkPoint removals additionsDic =
      .ok records) : removals.Nodup := by
  unfold removalCoinRecords at h
  obtain ⟨_, htwice, -⟩ := bind_eq_ok.mp h
  exact not_not.mp (bodyRejectIf_eq_ok.mp htwice)

lemma getIncludedRewardCoins_perm {expected : List Coin} (hftb : b.foliageTransactionBlock = some ftb)
    (hinfo : b.transactionsInfo = some info)
    (hperm : info.rewardClaimsIncorporated.Perm expected.dedup) :
    b.getIncludedRewardCoins.Perm expected.dedup := by
  have hrewards : b.getIncludedRewardCoins = info.rewardClaimsIncorporated.dedup := by
    rw [FullBlock.getIncludedRewardCoins, if_pos (by simp [FullBlock.isTransactionBlock, hftb]), hinfo]
    rfl
  rw [hrewards, List.Nodup.dedup (hperm.nodup_iff.mpr (List.nodup_dedup _))]
  exact hperm

lemma map_coinName_rowsOfBlock {H : Hashes} {timestamp : ℕ} {rewards additions : List Coin} :
    (CoinTable.rowsOfBlock H height timestamp rewards additions).map CoinRow.coinName =
      (additions ++ rewards).map H.coinName := by
  simp only [CoinTable.rowsOfBlock, CoinTable.recordsOfBlock, List.map_append, List.map_map]
  rfl

lemma effectsOn_of_effectsOfNpc (hcost : CostMonotone T.runGenerator) {anc : List FullBlock}
    (hown : ∀ npc, npcResult = some npc → ∃ g i, ownGenerator anc b = some g ∧
      b.transactionsInfo = some i ∧
      npc = T.runGenerator g (min constants.MAX_BLOCK_COST_CLVM i.cost) b.height)
    {effects : BlockEffects} (h : effectsOfNpc constants b npcResult = .ok effects) :
    effectsOn T constants anc b = (effects.removals, effects.additions) := by
  rcases effectsOfNpc_eq_ok h with ⟨hgen, -, rfl⟩ | ⟨program, npc, conds, -, hnpc, herror, hconds, rfl⟩
  · have hnone : ownGenerator anc b = none := by simp [ownGenerator, hgen]
    rw [effectsOn, hnone]
    rfl
  · obtain ⟨g, i, hg, -, rfl⟩ := hown npc hnpc
    rw [effectsOn, hg, Option.bind_some,
      hcost g _ constants.MAX_BLOCK_COST_CLVM b.height (min_le_left _ _) herror, hconds]
    rfl

/-- The coins expected for the blocks that a chain pays are coins of these blocks, and if the genesis
challenge has different halves, then two of them are different. -/
lemma expected_of_paidBlocks {blocks : BlockRecords} {tip t : BlockRecord} {chain mid : List BlockRecord}
    {expected : List Coin} (hc : RecordChain blocks tip chain) (hh : 0 < height)
    (hpaid : paidBlocks chain = t :: mid)
    (h : expectedRewardCoins constants blocks t.headerHash height = .ok expected) :
    (∀ c ∈ expected, ∃ r ∈ paidBlocks chain, ∃ community amount,
      c ∈ coinsOfBlock constants community r amount) ∧
    (firstHalf constants.GENESIS_CHALLENGE ≠ secondHalf constants.GENESIS_CHALLENGE →
      2 ≤ expected.dedup.length) := by
  obtain ⟨-, rfl⟩ := (expectedRewardCoins_eq_ok hc hh hpaid).mp h
  constructor
  · intro c hc
    obtain ⟨r, hr, amount, hcr⟩ := mem_coinsOfPaid hc
    exact ⟨r, hr, _, amount, hcr⟩
  · intro hhalf
    have htmem : t ∈ chain := hc.mem_of_mem_paidBlocks (by rw [hpaid]; exact List.mem_cons_self)
    have hlt : t.height < 256 ^ 16 := by
      have := hc.height_lt t htmem
      omega
    set community := communityPuzzleHash constants height
    -- the coins of the pool and of the farmer have different parents
    have hpair : [createPoolCoin t.height t.poolPuzzleHash (calculatePoolReward t.height)
          constants.GENESIS_CHALLENGE,
        createFarmerCoin t.height t.farmerPuzzleHash
          (calculateBaseFarmerReward t.height + t.fees.getD 0) constants.GENESIS_CHALLENGE].Nodup := by
      rw [List.nodup_cons, List.mem_singleton]
      refine ⟨fun heq => ?_, List.nodup_singleton _⟩
      have hparent : poolParentId t.height constants.GENESIS_CHALLENGE =
          farmerParentId t.height constants.GENESIS_CHALLENGE := congrArg Coin.parentCoinInfo heq
      rw [poolParentId, farmerParentId, parentId_inj hlt hlt] at hparent
      exact hhalf hparent.1
    refine (hpair.subperm fun c hc => ?_).length_le
    rw [List.mem_dedup, hpaid, coinsOfPaid, coinsOfBlock]
    rcases List.mem_cons.mp hc with rfl | hc
    · simp
    · rw [List.mem_singleton.mp hc]
      simp

end Body

/-! ## Stored blocks -/

lemma MadeOf.isTransactionBlock_eq {H : Hashes} {constants : ConsensusConstants} {e : Entry}
    (h : MadeOf H constants e) : e.2.isTransactionBlock = e.1.isTransactionBlock := by
  obtain ⟨_, _, _, _, _, _, h, -⟩ := h
  rw [h]
  simp [BlockRecord.isTransactionBlock, FullBlock.isTransactionBlock, headerBlockToSubBlockRecord]

lemma MadeOf.fees_eq {H : Hashes} {constants : ConsensusConstants} {e : Entry}
    (h : MadeOf H constants e) : e.2.fees = e.1.transactionsInfo.map TransactionsInfo.fees := by
  obtain ⟨_, _, _, _, _, _, h, -⟩ := h
  rw [h]
  rfl

/-- All stored blocks fit on their own chains. -/
def AllFit (T : BodyTools) (constants : ConsensusConstants) (s : Blockchain) : Prop :=
  ∀ e l, s.blockStore.entry e.2.headerHash = some e →
    Path entryLinks s.blockStore.entry e (l ++ [e]) → Fits T constants l e

section Stored

variable {T : BlockchainTools} {constants : ConsensusConstants} {s : Blockchain} {e : Entry}
  {l : List Entry} {c : Call} {rec : BlockRecord}

lemma AllFit.fitChain (hall : AllFit T.toBodyTools constants s)
    (hv : View T.H constants s s.blockStore.entry) (he : s.blockStore.entry e.2.headerHash = some e)
    (hl : Path entryLinks s.blockStore.entry e l) :
    FitChain T.toBodyTools constants s.blockRecords l := by
  have hmem : ∀ x ∈ l, s.blockStore.entry x.2.headerHash = some x := fun x hx => hv.mem_of_path hl he hx
  refine ⟨fun a x b hL => ?_, fun tip htip => ?_, fun x hx => hv.cached (hmem x hx),
    fun x hx => (hv.madeOf (hmem x hx)).height, fun x hx => (hv.madeOf (hmem x hx)).isTransactionBlock_eq⟩
  · exact hall x a (hmem x (by rw [hL]; simp)) (hl.of_append hL)
  · obtain rfl : e = tip := Option.some.inj (hl.getLast?_eq.symm.trans htip)
    exact hv.chain_records hl

/-- **An accepted block fits on the chain of its parent.**

**Proof sketch.** The body was validated on the chain of the parent, whose coins are those that were looked
up; the transactions are those of the block's own generator. The previous transaction block is the last one
of the chain because the header says so. -/
theorem fits_of_acceptBlock (hcost : CostMonotone T.runGenerator)
    (hhalf : firstHalf constants.GENESIS_CHALLENGE ≠ secondHalf constants.GENESIS_CHALLENGE)
    (hs : Reachable T constants (Call.Meets T constants) s) (hall : AllFit T.toBodyTools constants s)
    (hc : c.MeetsPreValidation T constants s)
    (h : s.acceptBlock T constants c.block c.preValidationResult c.forkPointWithPeak = .ok (.inr rec))
    (hl : s.Ancestors c.block l) (hheight : c.block.height = l.length) :
    Fits T.toBodyTools constants l (c.block, rec) := by
  have hinv := hs.inv hcost fun _ _ h => h
  obtain ⟨-, -, herror, hbody, requiredIters, -, hrec⟩ := Blockchain.acceptBlock_eq_inr h
  obtain ⟨peak, hpeak, hbody⟩ := Blockchain.checkBody_eq_none hbody
  have hmade : MadeOf T.H constants (c.block, rec) := Blockchain.madeOf_of_blockToBlockRecord hrec
  have hheader := hc.header herror l hl
  have hfork : ∀ f, c.forkPointWithPeak = some f → ∀ P, s.PeakChain P → f = forkHeight P l :=
    fun f hf P hP => hc.fork f hf P l hP hl
  have hown : ∀ npc, c.preValidationResult.npcResult = some npc → ∃ g i,
      ownGenerator (l.map Prod.fst) c.block = some g ∧ c.block.transactionsInfo = some i ∧
      npc = T.runGenerator g (min constants.MAX_BLOCK_COST_CLVM i.cost) c.block.height :=
    fun npc hnpc => hc.npc npc hnpc l hl
  -- what the header says of the chain of the parent
  have hparent : l ≠ [] → c.block.height < 2 ^ 32 ∧ ∃ tip t mid,
      RecordChain s.blockRecords tip (l.map Prod.snd) ∧ paidBlocks (l.map Prod.snd) = t :: mid ∧
      ∀ ftb, c.block.foliageTransactionBlock = some ftb →
        ftb.prevTransactionBlockHash = t.headerHash := by
    intro hne
    rcases hl with ⟨-, rfl⟩ | ⟨h0, p, hp, hpath⟩
    · exact absurd rfl hne
    · have hhash : p.2.headerHash = c.block.prevHeaderHash := hinv.view.rooted.hash_eq hp
      have hpmem : s.blockStore.entry p.2.headerHash = some p := by
        rw [hhash]
        exact hp
      have hrc := (hall.fitChain hinv.view hpmem hpath).recordChain hpath.getLast?_eq
      obtain ⟨t, mid, a, b, hpaid, heq, htx, hb, -, -⟩ := hrc.paidBlocks_eq
      have hlen : l.length = p.2.height + 1 := hpath.length_eq
      obtain ⟨hlt, hprevTx⟩ := hheader.parent hrc.path
        (fun hk => by
          obtain ⟨b, hb⟩ := hinv.view.ofCached hk
          exact hinv.view.rooted.hash_eq hb)
        hhash.symm (by omega) heq htx hb
      exact ⟨hlt, p.2, t, mid, hrc, hpaid, hprevTx⟩
  have hgenesis : l = [] → c.block.foliageTransactionBlock.isSome = true := by
    rintro rfl
    have hsome := hheader.genesis
    rcases validateBlockBody_eq_ok hbody with ⟨hnone, -⟩ | ⟨ftb, info, hftb, -⟩
    · rw [hnone] at hsome
      cases hsome
    · rw [hftb]
      rfl
  have hlt : rec.height < 2 ^ 32 := by
    rw [show rec.height = c.block.height from hmade.height]
    by_cases hne : l = []
    · rw [hheight, hne]
      decide
    · exact (hparent hne).1
  have hrectx : rec.isTransactionBlock = c.block.foliageTransactionBlock.isSome :=
    hmade.isTransactionBlock_eq
  rcases validateBlockBody_eq_ok hbody with ⟨-, hno⟩ | ⟨ftb, info, hftb, hinfo, hval⟩
  · -- without a body there is nothing to check
    obtain ⟨hftb, -, -⟩ := checkNoBody_eq_ok hno
    have hrows : blockRows T.toBodyTools constants (l.map Prod.fst) c.block = [] := by
      simp [blockRows, hftb]
    have hspends : blockSpends T.toBodyTools constants (l.map Prod.fst) c.block = [] := by
      simp [blockSpends, hftb]
    have htx : c.block.isTransactionBlock = false := by simp [FullBlock.isTransactionBlock, hftb]
    have hrewards : c.block.getIncludedRewardCoins = [] := by
      simp [FullBlock.getIncludedRewardCoins, htx]
    refine ⟨fun hne => ?_, fun htrue => ?_, hlt, ?_, ?_, ?_, ?_, fun htrue => ?_⟩
    · exact hrectx.trans (hgenesis hne)
    · rw [hrectx, hftb] at htrue
      cases htrue
    · rw [hrows]
      exact List.nodup_nil
    · rw [hspends]
      exact List.nodup_nil
    · rw [hspends]
      intro _ _ k hk
      cases hk
    · rw [hrewards]
      intro k hk
      cases hk
    · rw [htx] at htrue
      cases htrue
  · obtain ⟨expected, effects, records, hexpected, hclaims, heffects, houtputs, hrecords⟩ :=
      validateTransactions_eq_ok hval
    have hon := effectsOn_of_effectsOfNpc hcost hown heffects
    have hperm := getIncludedRewardCoins_perm hftb hinfo hclaims
    have hnames : (blockRows T.toBodyTools constants (l.map Prod.fst) c.block).map CoinRow.coinName =
        (effects.additions ++ c.block.getIncludedRewardCoins).map T.H.coinName := by
      unfold blockRows
      simp only [hftb, hon]
      exact map_coinName_rowsOfBlock
    have hspends : blockSpends T.toBodyTools constants (l.map Prod.fst) c.block = effects.removals := by
      simp [blockSpends, hftb, hon]
    have hnamesPerm : ((effects.additions ++ c.block.getIncludedRewardCoins).map T.H.coinName).Perm
        ((effects.additions ++ expected.dedup).map T.H.coinName) :=
      (hperm.append_left _).map _
    have hiff := fun (coins : CoinTable)
        (hcoins : replay T.toBodyTools constants (l.map Prod.fst) = .ok coins) =>
      (exists_removalCoinRecords_iff hcost hinv hpeak hl hheight hfork hcoins).mp ⟨records, hrecords⟩
    refine ⟨fun hne => hrectx.trans (hgenesis hne), fun _ => ⟨info.fees, ?_, hc.fees info hinfo⟩, hlt,
      ?_, ?_, ?_, ?_, fun _ => ?_⟩
    · rw [show rec.fees = _ from hmade.fees_eq]
      simp [hinfo]
    · rw [hnames]
      exact hnamesPerm.nodup_iff.mpr houtputs
    · rw [hspends]
      exact nodup_of_removalCoinRecords hrecords
    · rw [hspends, hnames]
      intro coins hcoins k hk
      rcases (hiff coins hcoins).2 k hk with hnew | ⟨row, hrow, hname, hzero⟩
      · exact .inl (hnamesPerm.mem_iff.mpr hnew)
      · exact .inr ⟨row, hrow, hname, hzero⟩
    · intro x hx
      have hx : x ∈ expected := List.mem_dedup.mp (hperm.mem_iff.mp hx)
      by_cases hne : l = []
      · rw [expectedRewardCoins, if_neg (by rw [hheight, hne]; simp)] at hexpected
        rw [← Except.ok.inj hexpected] at hx
        cases hx
      · obtain ⟨-, tip, t, mid, hrc, hpaid, hprevTx⟩ := hparent hne
        rw [hprevTx ftb hftb] at hexpected
        exact (expected_of_paidBlocks hrc (by rw [hheight]; exact List.length_pos_iff.mpr hne) hpaid
          hexpected).1 x hx
    · show if l = [] then c.block.getIncludedRewardCoins.length = 0 else _
      rw [hperm.length_eq]
      by_cases hne : l = []
      · rw [expectedRewardCoins, if_neg (by rw [hheight, hne]; simp)] at hexpected
        rw [if_pos hne, ← Except.ok.inj hexpected]
        rfl
      · obtain ⟨-, tip, t, mid, hrc, hpaid, hprevTx⟩ := hparent hne
        rw [hprevTx ftb hftb] at hexpected
        rw [if_neg hne]
        exact (expected_of_paidBlocks hrc (by rw [hheight]; exact List.length_pos_iff.mpr hne) hpaid
          hexpected).2 hhalf

lemma Added.entry {s' : Blockchain} {store : BlockStore} (h : Added T constants s s' e l store)
    (k : Bytes32) : s'.blockStore.entry k = store.entry k := by
  cases h with
  | orphan _ _ h => rw [h]
  | first _ _ h => exact h.entry k
  | heavier _ _ _ h => exact h.entry k

lemma Addition.allFit {store : BlockStore} (ha : Addition T constants s e l store)
    (hall : AllFit T.toBodyTools constants s) (hfits : Fits T.toBodyTools constants l e) {x : Entry}
    {lx : List Entry} (hx : store.entry x.2.headerHash = some x)
    (hlx : Path entryLinks store.entry x (lx ++ [x])) : Fits T.toBodyTools constants lx x := by
  rcases ha.entry_cases hx with ⟨-, rfl⟩ | hold
  · have heq := hlx.unique (ha.path_self.mono fun _ _ => ha.entry_mono)
    rw [(List.append_inj' heq rfl).1]
    exact hfits
  · exact hall x lx hold (ha.path_old hold hlx)

lemma Reachable.mono {C C' : Blockchain → Call → Prop} (hC : ∀ s c, C s c → C' s c)
    (h : Reachable T constants C s) : Reachable T constants C' s := by
  induction h with
  | initial files => exact .initial files
  | receive _ c hc ih => exact .receive ih c (hC _ c hc)

/-- **All stored blocks fit**, in every reachable state. -/
theorem Reachable.allFit (hcost : CostMonotone T.runGenerator)
    (hhalf : firstHalf constants.GENESIS_CHALLENGE ≠ secondHalf constants.GENESIS_CHALLENGE)
    (hs : Reachable T constants (Call.MeetsPreValidation T constants) s) :
    AllFit T.toBodyTools constants s := by
  induction hs with
  | initial files =>
    intro e l he _
    cases he
  | @receive s hs c hc ih =>
    have hmeets : Reachable T constants (Call.Meets T constants) s := hs.mono fun _ _ h => h.toMeets
    have hinv := hmeets.inv hcost fun _ _ h => h
    rcases Blockchain.receiveBlock_cases hcost hinv hc.toMeets with hsame | ⟨rec, l, store, haccept, ha, hadded⟩
    · rw [hsame]
      exact ih
    · have hfits := fits_of_acceptBlock hcost hhalf hmeets ih hc haccept ha.ancestors ha.height
      intro x lx hx hlx
      rw [funext hadded.entry] at hx hlx
      exact ha.allFit ih hfits hx hlx

end Stored

end Chives
