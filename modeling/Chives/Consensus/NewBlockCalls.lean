import Chives.Consensus.SlotTimeline
import Chives.Consensus.ValidatedBlocks

set_option autoImplicit false

/-!
# The calls of `new_block`

`_reconsider_peak` applies the blocks of the new chain above the fork to the coin store, one call of
`new_block` for each transaction block. This module shows that none of these calls fails.

## Main definitions

* `CoinStoreCall`, `CoinStoreCall.Succeeds` — a call, and what is asked of it.
* `Blockchain.AppliesCall`, `Blockchain.ReconsiderCall` — the calls that are made.

## Main results

* `Addition.exists_reconsiderPeak` — `_reconsider_peak` returns.
* `new_block_calls_succeed` — every call that it makes succeeds.
-/

namespace Chives

open ExceptRun LifeTable Table ParentTree

/-! ## Calls -/

/-- A call of `new_block` of the coin store, with the table that it finds. -/
structure CoinStoreCall where
  table : CoinTable
  height : ℕ
  timestamp : ℕ
  includedRewardCoins : List Coin
  txAdditions : List Coin
  txRemovals : List Bytes32

namespace CoinStoreCall

variable (H : Hashes) (call : CoinStoreCall)

/-- What the call does. -/
def run : Except PyError CoinTable :=
  call.table.newBlock H call.height call.timestamp call.includedRewardCoins call.txAdditions call.txRemovals

/-- The rows that the call inserts. -/
def inserted : List CoinRow :=
  CoinTable.rowsOfBlock H call.height call.timestamp call.includedRewardCoins call.txAdditions

/-- The call succeeds: it returns, the names that it inserts are distinct and not in the table, and each
removal is the name of exactly one unspent row when `_set_spent` updates it. -/
structure Succeeds : Prop where
  returns : ∃ table', call.run H = .ok table'
  distinct : ((call.inserted H).map CoinRow.coinName).Nodup
  fresh : ∀ new ∈ call.inserted H, ∀ r ∈ call.table, r.coinName ≠ new.coinName
  removals_nodup : call.txRemovals.Nodup
  updates_one : ∀ k ∈ call.txRemovals, (call.table ++ call.inserted H).countP
    (fun r => r.coinName = k ∧ r.spentIndex = 0) = 1

variable {H call}

lemma Succeeds.of_run {table' : CoinTable} (h : call.run H = .ok table') : call.Succeeds H := by
  obtain ⟨-, hkeyed, hnodup, halive, -, -⟩ := CoinTable.newBlock_eq_ok h
  have hnames := hkeyed
  rw [Keyed, List.map_append, List.nodup_append] at hnames
  obtain ⟨-, hdistinct, hdisjoint⟩ := hnames
  refine ⟨⟨table', h⟩, hdistinct, fun new hnew r hr => ?_, hnodup, fun k hk => ?_⟩
  · exact hdisjoint _ (List.mem_map_of_mem hr) _ (List.mem_map_of_mem hnew)
  · exact countP_isAliveAt_eq_one hkeyed (halive k hk)

end CoinStoreCall

namespace Blockchain

variable (T : BlockchainTools) (constants : ConsensusConstants) (self : Blockchain)

/-- The calls of `new_block` that are made when blocks are applied in order: that for the first block, if it
is a transaction block, and those for the others if the first one could be applied. -/
inductive AppliesCall (newHash : Bytes32) (npcResult : Option NPCResult) :
    List (FullBlock × BlockRecord) → Applied → CoinStoreCall → Prop
  | here {block : FullBlock} {rec : BlockRecord} {rest : List (FullBlock × BlockRecord)} {acc : Applied}
      {txRemovals : List Bytes32} {txAdditions : List Coin} {npcRes : Option NPCResult}
      {ftb : FoliageTransactionBlock} (htx : block.isTransactionBlock = true)
      (hnpc : self.getTxRemovalsAndAdditions T constants block
        (if rec.headerHash = newHash then npcResult else none) = .ok (txRemovals, txAdditions, npcRes))
      (hftb : block.foliageTransactionBlock = some ftb) :
      AppliesCall newHash npcResult ((block, rec) :: rest) acc
        ⟨acc.coinStore, block.height, ftb.timestamp, block.getIncludedRewardCoins, txAdditions, txRemovals⟩
  | later {block : FullBlock} {rec : BlockRecord} {rest : List (FullBlock × BlockRecord)} {acc acc' : Applied}
      {call : CoinStoreCall}
      (hfirst : self.applyBlock T constants block
        (if rec.headerHash = newHash then npcResult else none) acc = .ok acc')
      (h : AppliesCall newHash npcResult rest acc' call) :
      AppliesCall newHash npcResult ((block, rec) :: rest) acc call

/-- The calls of `new_block` that `_reconsider_peak` makes: one for the first genesis block, or those of the
blocks that are applied to the coin store at the fork. -/
inductive ReconsiderCall (rec : BlockRecord) (genesis : Bool) (forkPointWithPeak : Option ℤ)
    (npcResult : Option NPCResult) : CoinStoreCall → Prop
  | genesis {block : FullBlock} {ftb : FoliageTransactionBlock} (hpeak : self.getPeak = .ok none)
      (hgenesis : genesis = true) (hblock : self.blockStore.getFullBlock rec.headerHash = some block)
      (hftb : block.foliageTransactionBlock = some ftb) :
      ReconsiderCall rec genesis forkPointWithPeak npcResult
        ⟨self.coinStore, block.height, ftb.timestamp, block.getIncludedRewardCoins,
          (txRemovalsAndAdditions (npcResult.bind NPCResult.conds)).2,
          (txRemovalsAndAdditions (npcResult.bind NPCResult.conds)).1⟩
  | heavier {peak : BlockRecord} {forkHeight : ℤ} {coins : CoinTable}
      {blocksToAdd : List (FullBlock × BlockRecord)} {call : CoinStoreCall}
      (hpeak : self.getPeak = .ok (some peak)) (hgenesis : genesis = false)
      (hweight : ¬rec.weight ≤ peak.weight)
      (hfork : self.forkHeightWithPeak rec peak forkPointWithPeak = .ok forkHeight)
      (hcoins : coins = if rec.prevHash ≠ peak.headerHash then
        (self.coinStore.rollbackToBlock T.H forkHeight).1 else self.coinStore)
      (hblocks : self.blocksToAddFrom forkHeight (storeFuel self.blockStore) rec.headerHash =
        .ok blocksToAdd)
      (h : self.AppliesCall T constants rec.headerHash npcResult blocksToAdd.reverse ⟨coins, [], []⟩ call) :
      ReconsiderCall rec genesis forkPointWithPeak npcResult call

end Blockchain

/-! ## Calls that return -/

section Returns

variable {T : BlockchainTools} {constants : ConsensusConstants} {s : Blockchain} {newHash : Bytes32}
  {npcResult : Option NPCResult} {xs : List (FullBlock × BlockRecord)} {acc acc' : Blockchain.Applied}
  {call : CoinStoreCall}

lemma Blockchain.AppliesCall.returns (hcall : s.AppliesCall T constants newHash npcResult xs acc call)
    (h : s.applyBlocks T constants newHash npcResult xs acc = .ok acc') :
    ∃ table', call.run T.H = .ok table' := by
  induction hcall with
  | here htx hnpc hftb =>
    simp only [Blockchain.applyBlocks] at h
    obtain ⟨acc₁, hacc₁, -⟩ := bind_eq_ok.mp h
    unfold Blockchain.applyBlock at hacc₁
    rw [if_pos htx, hnpc, ok_bind] at hacc₁
    simp only [hftb, pySome, ok_bind] at hacc₁
    obtain ⟨coins, hcoins, -⟩ := bind_eq_ok.mp hacc₁
    exact ⟨coins, hcoins⟩
  | later hfirst _ ih =>
    simp only [Blockchain.applyBlocks, hfirst, ok_bind] at h
    exact ih h

/-- If `_reconsider_peak` returns, then every call of `new_block` that it makes returns. -/
lemma Blockchain.ReconsiderCall.returns {rec : BlockRecord} {genesis : Bool} {forkPoint : Option ℤ}
    {out : Blockchain × List BlockRecord × Option StateChangeSummary}
    (hcall : s.ReconsiderCall T constants rec genesis forkPoint npcResult call)
    (h : s.reconsiderPeak T constants rec genesis forkPoint npcResult = .ok out) :
    ∃ table', call.run T.H = .ok table' := by
  unfold Blockchain.reconsiderPeak at h
  cases hcall with
  | genesis hpeak hgenesis hblock hftb =>
    rw [hpeak, hgenesis, ok_bind] at h
    simp only [Blockchain.setGenesis, hblock, pySome, ok_bind] at h
    obtain ⟨coins, hcoins, -⟩ := bind_eq_ok.mp h
    simp only [Blockchain.coinsOfGenesis, hftb] at hcoins
    exact ⟨coins, hcoins⟩
  | heavier hpeak hgenesis hweight hfork hcoins hblocks hcall =>
    rw [hpeak, hgenesis, ok_bind] at h
    simp only [if_neg hweight, Blockchain.setHeavierPeak, hfork, ok_bind, hblocks] at h
    obtain ⟨applied, happlied, -⟩ := bind_eq_ok.mp h
    subst hcoins
    suffices hrun : s.applyBlocks T constants rec.headerHash npcResult _ _ = .ok applied from
      hcall.returns hrun
    refine Eq.trans ?_ happlied
    congr 2
    split
    · rfl
    · rfl

end Returns

/-! ## Applying the blocks -/

section Apply

variable {T : BlockchainTools} {constants : ConsensusConstants} {s : Blockchain}

lemma exists_applyBlock {ancestors : List FullBlock} {b : FullBlock} {npcResult : Option NPCResult}
    {acc : Blockchain.Applied} {coins : CoinTable}
    (heff : b.isTransactionBlock = true → FindsEffects T constants s ancestors b npcResult)
    (h : replayBlock T.toBodyTools constants ancestors b acc.coinStore = .ok coins) :
    ∃ acc', s.applyBlock T constants b npcResult acc = .ok acc' ∧ acc'.coinStore = coins := by
  unfold Blockchain.applyBlock
  unfold replayBlock at h
  cases hftb : b.foliageTransactionBlock with
  | none =>
    have htx : b.isTransactionBlock = false := by simp [FullBlock.isTransactionBlock, hftb]
    rw [if_neg (by simp [htx])]
    rw [hftb] at h
    exact ⟨acc, rfl, Except.ok.inj h⟩
  | some ftb =>
    have htx : b.isTransactionBlock = true := by simp [FullBlock.isTransactionBlock, hftb]
    obtain ⟨npc, hnpc⟩ := heff htx
    simp only [hftb] at h
    rw [if_pos htx, hnpc, ok_bind]
    simp only [pySome, ok_bind, h]
    exact ⟨_, rfl, rfl⟩

lemma exists_applyBlocks (newHash : Bytes32) (npcResult : Option NPCResult) (acc : Blockchain.Applied)
    {anc xs : List Entry} {coins : CoinTable}
    (heff : ∀ l x l', xs = l ++ x :: l' → x.1.isTransactionBlock = true →
      FindsEffects T constants s ((anc ++ l).map Prod.fst) x.1
        (if x.2.headerHash = newHash then npcResult else none))
    (h : replayFrom T.toBodyTools constants (anc.map Prod.fst) (xs.map Prod.fst) acc.coinStore = .ok coins) :
    ∃ acc', s.applyBlocks T constants newHash npcResult xs acc = .ok acc' := by
  induction xs generalizing anc acc with
  | nil => exact ⟨acc, rfl⟩
  | cons x xs ih =>
    simp only [List.map_cons, replayFrom] at h
    obtain ⟨t, ht, hrest⟩ := bind_eq_ok.mp h
    obtain ⟨acc₁, hacc₁, rfl⟩ := exists_applyBlock (fun htx => by simpa using heff [] x xs rfl htx) ht
    have hrest' : replayFrom T.toBodyTools constants ((anc ++ [x]).map Prod.fst) (xs.map Prod.fst)
        acc₁.coinStore = .ok coins := by
      rw [List.map_append]
      exact hrest
    obtain ⟨acc', hacc'⟩ := ih acc₁ (fun l y l' hl htx => by
      simpa using heff (x :: l) y l' (by rw [hl]; rfl) htx) hrest'
    refine ⟨acc', ?_⟩
    simp only [Blockchain.applyBlocks, hacc₁, ok_bind, hacc']

end Apply

/-! ## The new peak -/

section Peak

variable {T : BlockchainTools} {constants : ConsensusConstants} {s : Blockchain} {e : Entry}
  {l : List Entry} {store : BlockStore} {forkPoint : Option ℤ} {npcResult : Option NPCResult}

lemma Addition.fitChain (ha : Addition T constants s e l store) (hall : AllFit T.toBodyTools constants s)
    (hfits : Fits T.toBodyTools constants l e) :
    FitChain T.toBodyTools constants (s.blockRecords.set e.2.headerHash e.2) (l ++ [e]) := by
  have hall' : AllFit T.toBodyTools constants
      { s with blockRecords := s.blockRecords.set e.2.headerHash e.2, blockStore := store } := by
    intro x lx hx hlx
    exact ha.allFit hall hfits hx hlx
  exact hall'.fitChain (ha.view_new rfl fun _ => rfl) ha.entry_self
    (ha.path_self.mono fun _ _ => ha.entry_mono)

/-- `_reconsider_peak` returns for a new block whose chain can be replayed.

**Proof sketch.** The chain can be replayed in two parts, up to the fork and from there. The coin store at the
fork is the table of the first part, and applying the blocks above it is replaying the second part. -/
lemma Addition.exists_reconsiderPeak (ha : Addition T constants s e l store)
    (hnpc : NpcMatches T.toBodyTools constants (l.map Prod.fst) e.1 npcResult)
    (hfork : ∀ f, forkPoint = some f → ∀ P, s.PeakChain P → f = forkHeight P l)
    {coins : CoinTable} (hcoins : replay T.toBodyTools constants ((l ++ [e]).map Prod.fst) = .ok coins) :
    ∃ out, ({ s with blockStore := store } : Blockchain).reconsiderPeak T constants e.2
      (decide (e.1.height = 0)) forkPoint npcResult = .ok out := by
  unfold Blockchain.reconsiderPeak
  rcases ha.inv.peak with hs | ⟨tip, P, hm, hreplay⟩
  · have h0 : e.1.height = 0 := by
      rcases ha.ancestors with ⟨h0, -⟩ | ⟨-, p, hp, -⟩
      · exact h0
      · rw [hs.entry_eq_none] at hp
        cases hp
    obtain rfl : l = [] := List.length_eq_zero_iff.mp (by rw [← ha.height, h0])
    have hget : ({ s with blockStore := store } : Blockchain).getPeak = .ok none := hs.getPeak_eq
    have hgenesis : ({ s with blockStore := store } : Blockchain).coinsOfGenesis T e.1 npcResult =
        .ok coins := by
      rw [coinsOfGenesis_eq hs.coinStore hnpc]
      exact hcoins
    rw [hget, ok_bind, decide_eq_true h0]
    simp only [Blockchain.setGenesis, BlockStore.getFullBlock_eq, ha.entry_self, Option.map_some, pySome,
      ok_bind, hgenesis]
    exact ⟨_, rfl⟩
  · rw [(ha.mainChain_old hm).getPeak_eq, ok_bind]
    by_cases h0 : e.1.height = 0
    · rw [decide_eq_true h0]
      exact ⟨_, rfl⟩
    · rw [decide_eq_false h0]
      by_cases hle : e.2.weight ≤ tip.2.weight
      · simp only [if_pos hle]
        exact ⟨_, rfl⟩
      · obtain ⟨c, a, b, rolled, hP, hl, hrolled, -, hrun⟩ := ha.setHeavierPeak_run hm h0
          (fun f hf => hfork f hf P ⟨tip, hm.getPeak_eq, hm.tip_mem, hm.path⟩) npcResult
        rw [hl, List.map_append] at hcoins
        obtain ⟨t, ht, hrest⟩ := exists_replay_of_append hcoins
        obtain rfl : t = rolled.1 :=
          Except.ok.inj (ht.symm.trans (replay_of_rolledBack hm hreplay hP hrolled))
        obtain ⟨applied, happlied⟩ := exists_applyBlocks (s := { s with blockStore := store })
          e.2.headerHash npcResult ⟨rolled.1, [], []⟩
          (fun l₁ x l₂ hb htx => (ha.findsNpc_above hm hnpc hl hb htx).findsEffects) hrest
        simp only [if_neg hle]
        rw [hrun, happlied, ok_bind]
        exact ⟨_, rfl⟩

/-- **Applying validated blocks never fails.** In every state that is reached by calls of `receive_block`
with pre-validated blocks, and for every block that is accepted there, `_reconsider_peak` returns, and every
call of `new_block` that it makes succeeds: for the new block and for every block above the fork that is
applied again. The ids of the coins that the chain of the new block creates are relied on, and the two halves
of the genesis challenge, of which the parents of reward coins are made, are different. -/
theorem new_block_calls_succeed (hcost : CostMonotone T.runGenerator)
    (hhalf : firstHalf constants.GENESIS_CHALLENGE ≠ secondHalf constants.GENESIS_CHALLENGE)
    (hs : Reachable T constants (Call.MeetsPreValidation T constants) s) {c : Call} {rec : BlockRecord}
    (hc : c.MeetsPreValidation T constants s)
    (haccept : s.acceptBlock T constants c.block c.preValidationResult c.forkPointWithPeak = .ok (.inr rec))
    (hstore : s.blockStore.addFullBlock (c.block.headerHash T.H) c.block rec = .ok store)
    (hids : ∀ l, s.Ancestors c.block l → SoundIds T.H constants.GENESIS_CHALLENGE
      (coinsOn T.toBodyTools constants (l ++ [(c.block, rec)]))) :
    (∃ out, ({ s with blockStore := store } : Blockchain).reconsiderPeak T constants rec
      (decide (c.block.height = 0)) c.forkPointWithPeak c.preValidationResult.npcResult = .ok out) ∧
    ∀ call, ({ s with blockStore := store } : Blockchain).ReconsiderCall T constants rec
      (decide (c.block.height = 0)) c.forkPointWithPeak c.preValidationResult.npcResult call →
        call.Succeeds T.H := by
  have hmeets : Reachable T constants (Call.Meets T constants) s := hs.mono fun _ _ h => h.toMeets
  have hinv := hmeets.inv hcost fun _ _ h => h
  have hall := hs.allFit hcost hhalf
  obtain ⟨l, hl, hheight⟩ := Blockchain.exists_ancestors hinv haccept
  obtain ⟨-, -, -, -, requiredIters, -, hrec⟩ := Blockchain.acceptBlock_eq_inr haccept
  have hhash : rec.headerHash = c.block.headerHash T.H :=
    (Blockchain.madeOf_of_blockToBlockRecord hrec).headerHash
  have ha : Addition T constants s (c.block, rec) l store :=
    Blockchain.addition_of_acceptBlock hinv hc.toMeets haccept hl hheight (by rw [hhash]; exact hstore)
  have hfits := fits_of_acceptBlock hcost hhalf hmeets hall hc haccept hl hheight
  have hchain := ha.fitChain hall hfits
  obtain ⟨coins, hcoins⟩ := hchain.exists_replay (hids l hl)
  obtain ⟨out, hout⟩ := ha.exists_reconsiderPeak
    (Blockchain.npcMatches_of_acceptBlock hcost hc.toMeets haccept hl)
    (fun f hf P hP => hc.fork f hf P l hP hl) hcoins
  refine ⟨⟨out, hout⟩, fun call hcall => ?_⟩
  obtain ⟨table', hrun⟩ := hcall.returns hout
  exact CoinStoreCall.Succeeds.of_run hrun

end Peak

/-! ## A block that claims the rewards of genesis -/

section Sample

/-- The tools of the samples, with the puzzle hash of a coin for its id. -/
def rewardTools : BlockchainTools :=
  { sampleBlockchainTools with H := { markedHashes with coinName := Coin.puzzleHash } }

/-- A transaction block on top of the genesis block of the samples, with the rewards for it. -/
def rewardBlock : FullBlock :=
  let challenge := defaultConstants.GENESIS_CHALLENGE
  let community := defaultConstants.GENESIS_PRE_FARM_COMMUNITY_PUZZLE_HASH
  let empty := emptyBlock 1 (Bytes32.ofNat 1) (Bytes32.ofNat 2) 4
  { empty with
    rewardChainBlock := { empty.rewardChainBlock with
      totalIters := 14680065
      posSsCcChallengeHash := challenge
      challengeChainSpVdf := some ⟨challenge, 8388608, defaultElement⟩
      rewardChainSpVdf := some ⟨Bytes32.zero, 2097151, defaultElement⟩
      challengeChainIpVdf := ⟨challenge, 14680065, defaultElement⟩
      rewardChainIpVdf := ⟨Bytes32.zero, 8388608, defaultElement⟩
      infusedChallengeChainIpVdf := some ⟨Bytes32.zero, 8388608, defaultElement⟩
      isTransactionBlock := true }
    challengeChainSpProof := some sampleProof
    rewardChainSpProof := some sampleProof
    infusedChallengeChainIpProof := some sampleProof
    foliage := { empty.foliage with
      foliageBlockData := { empty.foliage.foliageBlockData with communityRewardPuzzleHash := community }
      foliageTransactionBlockHash := some Bytes32.zero
      foliageTransactionBlockSignature := some [] }
    foliageTransactionBlock := some ⟨Bytes32.ofNat 1, 1, Bytes32.zero, Bytes32.zero, Bytes32.zero, Bytes32.zero⟩
    transactionsInfo := some ⟨Bytes32.zero, generatorRefsHash markedHashes [], [], 0, 0,
      coinsOfBlock defaultConstants community genesisRecord (calculateBaseFarmerReward 0)⟩ }

/-- The call that adds the block. -/
def rewardCall : Call := ⟨rewardBlock, ⟨none, some 1, none, true⟩, none⟩

/-- The state with the genesis block. -/
def rewardState : Blockchain :=
  ((Blockchain.initial ⟨none, none⟩).receiveBlock rewardTools defaultConstants genesisCall.block
    genesisCall.preValidationResult genesisCall.forkPointWithPeak).1

lemma genesisCall_meetsPreValidation {s : Blockchain} :
    genesisCall.MeetsPreValidation rewardTools defaultConstants s := by
  refine ⟨⟨nofun, fun npc hnpc l hl => ?_⟩, fun _ l hl => ?_, fun info hinfo => ?_⟩
  · obtain ⟨-, rfl⟩ : _ ∧ l = [] := hl.resolve_right fun h => h.1 rfl
    exact ⟨⟨[128], [], []⟩, _, rfl, rfl, (Option.some.inj hnpc).symm⟩
  · obtain ⟨-, rfl⟩ : _ ∧ l = [] := hl.resolve_right fun h => h.1 rfl
    exact ⟨∅, [], [], true, defaultConstants.DIFFICULTY_STARTING, defaultConstants.SUB_SLOT_ITERS_STARTING, 0,
      1, ⟨fun x hx => (by cases hx), fun _ => rfl⟩, by decide +kernel⟩
  · obtain rfl := Option.some.inj hinfo
    decide

lemma entry_rewardState : rewardState.blockStore.entry (Bytes32.ofNat 1) = some (genesisBlock, genesisRecord) := by
  decide +kernel

lemma eq_of_ancestors_rewardBlock {l : List Entry} (hl : rewardState.Ancestors rewardBlock l) :
    l = [(genesisBlock, genesisRecord)] := by
  rcases hl with ⟨h0, -⟩ | ⟨-, p, hp, hpath⟩
  · cases h0
  · have hp' : rewardState.blockStore.entry (Bytes32.ofNat 1) = some p := hp
    obtain rfl := Option.some.inj (entry_rewardState.symm.trans hp')
    exact hpath.unique (.root rfl)

lemma rewardCall_meetsPreValidation :
    rewardCall.MeetsPreValidation rewardTools defaultConstants rewardState := by
  refine ⟨⟨nofun, nofun⟩, fun _ l hl => ?_, fun info hinfo => ?_⟩
  · obtain rfl := eq_of_ancestors_rewardBlock hl
    refine ⟨BlockRecords.ofRecords [genesisRecord], [], [], true, 7, 2 ^ 27, 0, 1, ⟨fun x hx r hr => ?_, ?_⟩,
      by decide +kernel⟩
    · obtain rfl := List.mem_singleton.mp hx
      have hnodup : ([genesisRecord].map BlockRecord.headerHash).Nodup := List.nodup_singleton _
      exact List.mem_singleton.mp (BlockRecords.mem_of_get_ofRecords hnodup hr).1
    · intro hnil
      cases hnil
  · obtain rfl := Option.some.inj hinfo
    decide

/-- The ids of the rewards are sound. -/
lemma soundIds_rewardBlock (rec : BlockRecord) : SoundIds rewardTools.H defaultConstants.GENESIS_CHALLENGE
    (coinsOn rewardTools.toBodyTools defaultConstants
      ([(genesisBlock, genesisRecord)] ++ [(rewardBlock, rec)])) := by
  set rewards := coinsOfBlock defaultConstants defaultConstants.GENESIS_PRE_FARM_COMMUNITY_PUZZLE_HASH
    genesisRecord (calculateBaseFarmerReward 0) with hrewards
  have hmem : ∀ c ∈ coinsOn rewardTools.toBodyTools defaultConstants
      ([(genesisBlock, genesisRecord)] ++ [(rewardBlock, rec)]), c ∈ rewards := by
    have hall : ∀ r ∈ rowsFrom rewardTools.toBodyTools defaultConstants [] [genesisBlock, rewardBlock],
        r.coin ∈ rewards := by decide +kernel
    rintro c ⟨r, hr, rfl⟩
    exact hall r hr
  have hinj : ∀ c ∈ rewards, ∀ c' ∈ rewards, c.puzzleHash = c'.puzzleHash → c = c' := by decide +kernel
  have hrank : ∀ c ∈ rewards, c.parentCoinInfo ∈ rewards.map Coin.parentCoinInfo ∧
      c.puzzleHash ∉ rewards.map Coin.parentCoinInfo := by decide +kernel
  have hhalf : ∀ c ∈ rewards,
      c.puzzleHash.bytes.take 16 ≠ firstHalf defaultConstants.GENESIS_CHALLENGE ∧
      c.puzzleHash.bytes.take 16 ≠ secondHalf defaultConstants.GENESIS_CHALLENGE := by decide +kernel
  refine ⟨fun c hc c' hc' => hinj c (hmem c hc) c' (hmem c' hc'),
    ⟨fun k => if k ∈ rewards.map Coin.parentCoinInfo then 0 else 1, fun c hc => ?_⟩, fun c hc height _ => ?_⟩
  · obtain ⟨hparent, hname⟩ := hrank c (hmem c hc)
    show (if c.parentCoinInfo ∈ rewards.map Coin.parentCoinInfo then 0 else 1) <
      if c.puzzleHash ∈ rewards.map Coin.parentCoinInfo then 0 else 1
    rw [if_pos hparent, if_neg hname]
    exact Nat.zero_lt_one
  · obtain ⟨hfirst, hsecond⟩ := hhalf c (hmem c hc)
    constructor
    · intro heq
      apply hfirst
      rw [show c.puzzleHash = _ from heq]
      exact List.take_left' (length_firstHalf _)
    · intro heq
      apply hsecond
      rw [show c.puzzleHash = _ from heq]
      exact List.take_left' (length_secondHalf _)

lemma exists_acceptBlock_rewardBlock : ∃ rec store,
    rewardState.acceptBlock rewardTools defaultConstants rewardBlock rewardCall.preValidationResult none =
      .ok (.inr rec) ∧
    rewardState.blockStore.addFullBlock (rewardBlock.headerHash rewardTools.H) rewardBlock rec = .ok store := by
  have hboth : (match rewardState.acceptBlock rewardTools defaultConstants rewardBlock
      rewardCall.preValidationResult none with
    | .ok (.inr rec) =>
      (rewardState.blockStore.addFullBlock (rewardBlock.headerHash rewardTools.H) rewardBlock rec).isOk
    | _ => false) = true := by decide +kernel
  split at hboth
  · rename_i rec hrec
    cases hstore : rewardState.blockStore.addFullBlock (rewardBlock.headerHash rewardTools.H) rewardBlock rec with
    | error e =>
      rw [hstore] at hboth
      cases hboth
    | ok store => exact ⟨rec, store, hrec, hstore⟩
  · cases hboth

/-- The rewards of the genesis block are added to the coin store when the block that claims them becomes the
peak. -/
theorem new_block_calls_succeed_rewards : ∃ rec store,
    rewardState.acceptBlock rewardTools defaultConstants rewardBlock rewardCall.preValidationResult none =
      .ok (.inr rec) ∧
    (∃ out, ({ rewardState with blockStore := store } : Blockchain).reconsiderPeak rewardTools defaultConstants
      rec false none none = .ok out) ∧
    ∀ call, ({ rewardState with blockStore := store } : Blockchain).ReconsiderCall rewardTools defaultConstants
      rec false none none call → call.Succeeds rewardTools.H := by
  obtain ⟨rec, store, hrec, hstore⟩ := exists_acceptBlock_rewardBlock
  have hreach : Reachable rewardTools defaultConstants (Call.MeetsPreValidation rewardTools defaultConstants)
      rewardState :=
    .receive (.initial ⟨none, none⟩) genesisCall genesisCall_meetsPreValidation
  refine ⟨rec, store, hrec, new_block_calls_succeed (fun _ _ _ _ _ _ => rfl) (by decide) hreach
    rewardCall_meetsPreValidation hrec hstore fun l hl => ?_⟩
  rw [eq_of_ancestors_rewardBlock hl]
  exact soundIds_rewardBlock rec

end Sample

end Chives
