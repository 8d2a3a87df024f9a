import Chives.Consensus.DoubleSpend
import Chives.FullNode.MempoolNode

set_option autoImplicit false

/-!
# Blocks from the mempool

The bundle that `create_bundle_from_mempool` makes is checked again when the block is validated. Here the checks of
`validate_block_body` that depend on the coins are compared with those that the items have passed.

## Main definitions

* `Aggregates` — the conditions of a bundle that is put together from others.
* `NextBlock` — a block on the peak of the node.
* `BundleChecks` — steps 13 to 17, 20 and 21 of `validate_block_body`.

## Main results

* `NodeState.makesValidBlocks` — if bundles are added to the mempool only while the coin store has the coin
  set of the manager's peak, then the bundle of a block passes these steps.
-/

namespace Chives

open ExceptRun StateRun Table MempoolManager

/-! ## The items of a block -/

namespace MempoolManager

section Items

variable {K : Type} [LinearOrder K] {T : MempoolTools K} {constants : MempoolConstants}

variable (constants) in
lemma takeFitting_sublist (costSum feeSum : ℕ) (items : List MempoolItem) :
    (takeFitting constants costSum feeSum items).Sublist items := by
  induction items generalizing costSum feeSum with
  | nil => exact List.Sublist.slnil
  | cons item items ih =>
    unfold takeFitting
    split
    · exact (ih _ _).cons_cons item
    · exact List.nil_sublist _

variable (constants) in
lemma takeFitting_sums (costSum feeSum : ℕ) (items : List MempoolItem)
    (hcost : 2 * costSum ≤ constants.MAX_BLOCK_COST_CLVM) (hfee : feeSum ≤ constants.MAX_COIN_AMOUNT) :
    2 * (costSum + ((takeFitting constants costSum feeSum items).map MempoolItem.cost).sum) ≤
        constants.MAX_BLOCK_COST_CLVM ∧
      feeSum + ((takeFitting constants costSum feeSum items).map MempoolItem.fee).sum ≤
        constants.MAX_COIN_AMOUNT := by
  induction items generalizing costSum feeSum with
  | nil => exact ⟨by simpa [takeFitting] using hcost, by simpa [takeFitting] using hfee⟩
  | cons item items ih =>
    unfold takeFitting
    split
    · rename_i hfits
      obtain ⟨hcost', hfee'⟩ := ih (costSum + item.cost) (feeSum + item.fee) (by omega) (by omega)
      rw [List.map_cons, List.sum_cons, List.map_cons, List.sum_cons]
      exact ⟨by omega, by omega⟩
    · exact ⟨by simpa using hcost, by simpa using hfee⟩

/-- The items in the order of their fees are those of the mempool, each once. -/
lemma nodup_sortedSpends {m : Mempool K} (hm : m.Consistent T) :
    (m.sortedSpends.values.reverse.flatMap OrderedDict.values).Nodup ∧
      ∀ i ∈ m.sortedSpends.values.reverse.flatMap OrderedDict.values, i ∈ m.spends.values := by
  have hmem : ∀ e ∈ m.sortedSpends.entries, ∀ i ∈ e.2.values, i ∈ m.spends.values ∧ e.1 = i.feePerCost T := by
    rintro ⟨k, dic⟩ he i hi
    obtain ⟨n, hn⟩ := OrderedDict.mem_values.mp hi
    obtain ⟨hget, hkey⟩ := hm.sorted.mp ⟨dic, SortedDict.get?_eq_some.mpr he, hn⟩
    exact ⟨OrderedDict.mem_values.mpr ⟨n, hget⟩, hkey⟩
  have hperm : (m.sortedSpends.values.reverse.flatMap OrderedDict.values).Perm
      (m.sortedSpends.entries.flatMap fun e => e.2.values) := by
    refine (List.Perm.flatMap_right _ (List.reverse_perm _)).trans ?_
    unfold SortedDict.values
    rw [List.flatMap_map]
  refine ⟨hperm.nodup_iff.mpr ?_, fun i hi => ?_⟩
  · rw [List.nodup_flatMap]
    constructor
    · rintro ⟨k, dic⟩ he
      -- in one dictionary the names differ
      have hkeys : dic.values.map MempoolItem.spendBundleName = dic.keys := by
        unfold OrderedDict.values OrderedDict.keys
        rw [List.map_map]
        apply List.map_congr_left
        rintro ⟨n, i⟩ hi
        have hget := (hm.sorted.mp ⟨dic, SortedDict.get?_eq_some.mpr he, OrderedDict.get?_eq_some.mpr hi⟩).1
        exact (hm.name hget).symm
      refine List.Nodup.of_map MempoolItem.spendBundleName ?_
      rw [hkeys]
      exact dic.nodup
    · -- in different dictionaries the fees differ
      have hpair : m.sortedSpends.entries.Pairwise fun e e' => e.1 ≠ e'.1 :=
        List.pairwise_map.mp m.sortedSpends.nodup
      refine hpair.imp_of_mem fun {e e'} he he' hne => ?_
      rw [Function.onFun, List.disjoint_left]
      intro i hi hi'
      exact hne ((hmem e he i hi).2.trans (hmem e' he' i hi').2.symm)
  · obtain ⟨e, he, hi⟩ := List.mem_flatMap.mp (hperm.mem_iff.mp hi)
    exact (hmem e he i hi).1

variable {mgr : MempoolManager K}

lemma nodup_blockItems (hm : mgr.mempool.Consistent T) :
    (mgr.blockItems constants).Nodup ∧ ∀ i ∈ mgr.blockItems constants, i ∈ mgr.mempool.spends.values := by
  obtain ⟨hnodup, hmem⟩ := nodup_sortedSpends hm
  have hsub := takeFitting_sublist constants 0 0
    (mgr.mempool.sortedSpends.values.reverse.flatMap OrderedDict.values)
  exact ⟨hnodup.sublist hsub, fun i hi => hmem i (hsub.subset hi)⟩

end Items

end MempoolManager

/-! ## Conditions that are put together -/

/-- The conditions of a bundle that is put together from others: the spends of all of them, all their reserved
fees, and the latest of their locks. -/
structure Aggregates (conds : SpendBundleConditions) (parts : List SpendBundleConditions) : Prop where
  spends : conds.spends = parts.flatMap SpendBundleConditions.spends
  reserveFee : conds.reserveFee = (parts.map SpendBundleConditions.reserveFee).sum
  heightAbsolute : conds.heightAbsolute = (parts.map SpendBundleConditions.heightAbsolute).foldr max 0
  secondsAbsolute : conds.secondsAbsolute = (parts.map SpendBundleConditions.secondsAbsolute).foldr max 0

lemma foldr_max_le {l : List ℕ} {n : ℕ} (h : ∀ x ∈ l, x ≤ n) : l.foldr max 0 ≤ n := by
  induction l with
  | nil => exact Nat.zero_le n
  | cons x l ih =>
    exact max_le (h x List.mem_cons_self) (ih fun y hy => h y (List.mem_cons_of_mem _ hy))

section Batch

variable {K : Type} {T : MempoolTools K} {constants : MempoolConstants} {H : Hashes}
  {W : CoinWorld H} {table : CoinTable} {height timestamp : ℕ}

/-- Items that can be put together: each is valid, and no two of them spend the same coin. -/
structure Batch (T : MempoolTools K) (constants : MempoolConstants) (W : CoinWorld H) (table : CoinTable)
    (height timestamp : ℕ) (items : List MempoolItem) (parts : List SpendBundleConditions) : Prop where
  coinName_eq : T.coinName = H.coinName
  sound : W.Sound height table
  valid : List.Forall₂ (ItemValid T constants table height timestamp) items parts
  coins : ∀ i ∈ items, ∀ c ∈ i.additions, c ∈ W.coins
  disjoint : items.Pairwise fun i j => List.Disjoint (i.removalNames T) (j.removalNames T)

namespace Batch

variable {items : List MempoolItem} {parts : List SpendBundleConditions}
  (h : Batch T constants W table height timestamp items parts)

include h

lemma named : table.Named T.coinName := by
  rw [h.coinName_eq]
  exact h.sound.named

lemma map_coinId_eq : (parts.flatMap SpendBundleConditions.spends).map Spend.coinId =
    items.flatMap (MempoolItem.removalNames T) := by
  have hstore := h.named
  have hvalid := h.valid
  clear h
  induction hvalid with
  | nil => rfl
  | @cons i conds items parts hi _ ih =>
    rw [List.flatMap_cons, List.flatMap_cons, List.map_append, ih, hi.removalNames_eq hstore]

lemma flatMap_additions_eq : (parts.flatMap SpendBundleConditions.spends).flatMap Spend.additions =
    items.flatMap MempoolItem.additions := by
  have hvalid := h.valid
  clear h
  induction hvalid with
  | nil => rfl
  | @cons i conds items parts hi _ ih =>
    rw [List.flatMap_cons, List.flatMap_cons, List.flatMap_append, ih, hi.additions_eq,
      hi.npc.additionsForNpc_eq]

lemma nodup_removals : (items.flatMap (MempoolItem.removalNames T)).Nodup := by
  rw [List.nodup_flatMap]
  refine ⟨fun i hi => ?_, h.disjoint⟩
  obtain ⟨conds, -, hvalid⟩ := exists_mem_of_forall₂ h.valid hi
  rw [hvalid.removalNames_eq h.named]
  exact hvalid.npc.nodup_removals

lemma exists_item {spend : Spend} (hspend : spend ∈ parts.flatMap SpendBundleConditions.spends) :
    ∃ i ∈ items, ∃ conds, ItemValid T constants table height timestamp i conds ∧ spend ∈ conds.spends := by
  obtain ⟨conds, hconds, hspend⟩ := List.mem_flatMap.mp hspend
  obtain ⟨i, hi, hvalid⟩ := exists_mem_of_forall₂ (R := flip _) (List.Forall₂.flip h.valid) hconds
  exact ⟨i, hi, conds, hvalid, hspend⟩

lemma parent_mem {i : MempoolItem} (hi : i ∈ items) {c : Coin} (hc : c ∈ i.additions) :
    c.parentCoinInfo ∈ i.removalNames T ∧ c.parentCoinInfo ∉ W.rewardParents := by
  obtain ⟨conds, -, hvalid⟩ := exists_mem_of_forall₂ h.valid hi
  obtain ⟨spend, hspend, heq⟩ := hvalid.parent_mem hc
  rw [← heq]
  refine ⟨?_, hvalid.coinId_notMem h.coinName_eq h.sound (h.coins i hi) hspend⟩
  rw [hvalid.removalNames_eq h.named]
  exact List.mem_map_of_mem hspend

lemma not_created {c : Coin} (hc : c ∈ items.flatMap MempoolItem.additions) :
    find coinColumns.key table (H.coinName c) = none := by
  obtain ⟨i, hi, hc⟩ := List.mem_flatMap.mp hc
  obtain ⟨conds, -, hvalid⟩ := exists_mem_of_forall₂ h.valid hi
  exact hvalid.not_created h.coinName_eq h.sound (h.coins i hi) hc

/-- No coin is created twice.

**Proof sketch.** Coins of one item have different names. A coin of two items would have a parent that both of them
spend. -/
lemma nodup_additions : ((items.flatMap MempoolItem.additions).map H.coinName).Nodup := by
  rw [List.map_flatMap, List.nodup_flatMap]
  constructor
  · intro i hi
    obtain ⟨conds, -, hvalid⟩ := exists_mem_of_forall₂ h.valid hi
    rw [← h.coinName_eq, hvalid.additions_eq]
    exact hvalid.npc.nodup_additions
  · refine h.disjoint.imp_of_mem fun {i j} hi hj hdisjoint => ?_
    rw [Function.onFun, List.disjoint_left]
    intro n hn hn'
    obtain ⟨c, hc, rfl⟩ := List.mem_map.mp hn
    obtain ⟨c', hc', heq⟩ := List.mem_map.mp hn'
    obtain rfl := W.coinName_injOn (h.coins j hj c' hc') (h.coins i hi c hc) heq
    exact hdisjoint (h.parent_mem hi hc).1 (h.parent_mem hj hc').1

lemma sum_fees : (((items.flatMap MempoolItem.removals).map Coin.amount).sum : ℤ) -
    ((items.flatMap MempoolItem.additions).map Coin.amount).sum = ((items.map MempoolItem.fee).sum : ℕ) := by
  have hvalid := h.valid
  clear h
  induction hvalid with
  | nil => rfl
  | @cons i conds items parts hi _ ih =>
    have hfee := hi.fee_eq
    simp only [List.flatMap_cons, List.map_append, List.sum_append, List.map_cons, List.sum_cons]
    omega

lemma sum_reserveFee_le :
    (parts.map SpendBundleConditions.reserveFee).sum ≤ (items.map MempoolItem.fee).sum := by
  have hvalid := h.valid
  clear h
  induction hvalid with
  | nil => exact le_rfl
  | @cons i conds items parts hi _ ih =>
    rw [List.map_cons, List.map_cons, List.sum_cons, List.sum_cons]
    exact Nat.add_le_add hi.reserve ih

end Batch

/-! ## The next block -/

/-- A block on the peak of a node, with the reward coins that it includes: they are new, and not two of them are
the same. -/
structure NextBlock (W : CoinWorld H) (tip : TxBlock) (coinStore : CoinTable) (ctx : BodyContext)
    (block : FullBlock) (coinbase : List Coin) (forkPoint : Option ℤ) (peak : BlockRecord)
    (prev : FullBlock) : Prop where
  coinStore_eq : ctx.coinStore = coinStore
  peak_eq : ctx.peak = some peak
  prevRecord : ctx.blocks.blockRecord block.prevHeaderHash = .ok peak
  prevBlock : ctx.blockStore.getFullBlock block.prevHeaderHash = some prev
  prevHeight : prev.height = peak.height
  height : block.height = peak.height + 1
  tip_le : tip.record.height ≤ peak.height
  forkPoint_eq : ∀ f, forkPoint = some f → f = peak.height
  rewards : ∀ c ∈ coinbase, c ∈ W.coins ∧ c.parentCoinInfo ∈ W.rewardParents ∧
    find coinColumns.key coinStore (H.coinName c) = none
  nodup_rewards : (coinbase.map H.coinName).Nodup

/-- Steps 13 to 17, 20 and 21 of `validate_block_body`, for a block with the given result of its generator: no
coin is created twice, none is spent twice and every one that is spent exists, the fees cover what is reserved, the
puzzles are those of the coins and the time locks are open. -/
def BundleChecks (B : BodyTools) (constants : ConsensusConstants) (ctx : BodyContext) (block : FullBlock)
    (timestamp : ℕ) (forkPoint : Option ℤ) (coinbase : List Coin) (prevTransactionBlockHeight : ℕ)
    (npcResult : NPCResult) (conds : SpendBundleConditions) : Prop :=
  ((conds.spends.flatMap Spend.additions ++ coinbase).map B.H.coinName).Nodup ∧
    ∃ records, removalCoinRecords B constants ctx block block.height timestamp forkPoint
        (conds.spends.map Spend.coinId)
        (additionsDicOf B (conds.spends.flatMap Spend.additions) coinbase) = .ok records ∧
      0 ≤ feesOf records (conds.spends.flatMap Spend.additions) ∧
      (conds.reserveFee : ℤ) ≤ feesOf records (conds.spends.flatMap Spend.additions) ∧
      checkPuzzleHashes B (Dict.ofItems (conds.spends.map fun s => (s.coinId, s.puzzleHash)))
        (records.items.map Prod.snd) = .ok () ∧
      checkTimeLocks records (some npcResult) prevTransactionBlockHeight timestamp = .ok ()

namespace NextBlock

variable {tip : TxBlock} {ctx : BodyContext} {block prev : FullBlock} {coinbase : List Coin}
  {forkPoint : Option ℤ} {peak : BlockRecord}
  (h : NextBlock W tip table ctx block coinbase forkPoint peak prev)

include h

lemma forkHeightOf_eq : forkHeightOf ctx block block.height forkPoint = .ok (peak.height : ℤ) := by
  have hpos : block.height ≠ 0 := by
    rw [h.height]
    omega
  unfold forkHeightOf
  rw [h.peak_eq]
  simp only [if_neg hpos]
  cases hf : forkPoint with
  | some f => rw [h.forkPoint_eq f hf]
  | none =>
    simp only [h.prevRecord, ok_bind]
    unfold findForkPointInChain
    obtain ⟨n, hn⟩ : ∃ n, (ctx.blocks.fuel + 1) ^ 2 = n + 1 :=
      Nat.exists_eq_succ_of_ne_zero (by positivity)
    rw [hn]
    unfold forkPointFrom
    by_cases h0 : peak.height > 0
    · simp [h0]
    · have h0 : peak.height = 0 := by omega
      simp [h0]

lemma forkCoins_eq (B : BodyTools) (constants : ConsensusConstants) :
    forkCoins B constants ctx block block.height peak.height = .ok ⟨∅, []⟩ := by
  have hpos : block.height > 0 := by
    rw [h.height]
    omega
  have hnot : ¬((prev.height : ℤ) > peak.height) := by
    rw [h.prevHeight]
    omega
  have hback : blocksBack ctx.blockStore peak.height (storeFuel ctx.blockStore) prev = .ok [prev] := by
    unfold storeFuel blocksBack
    rw [if_neg fun hand => hnot hand.1]
  have hfrom : ∀ reorgBlocks, forkCoinsFrom B constants ctx peak.height reorgBlocks (storeFuel ctx.blockStore)
      prev ⟨∅, []⟩ = .ok ⟨∅, []⟩ := by
    intro reorgBlocks
    unfold storeFuel forkCoinsFrom
    rw [if_neg hnot]
  have hassert : ((peak.height : ℤ) ≠ -1 → (((Dict.ofItems ((([prev] : List FullBlock).tail).map
      fun b => (b.height, b))).keys.length : ℕ) : ℤ) = (block.height : ℤ) - peak.height - 1) := by
    intro _
    rw [h.height]
    push_cast
    show (0 : ℤ) = _
    ring
  unfold forkCoins
  rw [if_pos hpos, pySome_eq_ok.mpr h.prevBlock, ok_bind, hback, ok_bind]
  dsimp only
  rw [(pyAssert_eq_ok (u := ())).mpr hassert, ok_bind, hfrom]

end NextBlock

lemma checkPuzzleHashes_eq_ok {B : BodyTools} {dic : Dict Bytes32 Bytes32} {l : List CoinRecord} {u : Unit} :
    checkPuzzleHashes B dic l = .ok u ↔
      ∀ r ∈ l, dic.lookup (B.H.coinName r.coin) = some r.coin.puzzleHash := by
  induction l with
  | nil => exact ⟨nofun, fun _ => rfl⟩
  | cons r l ih =>
    rw [List.forall_mem_cons]
    unfold checkPuzzleHashes
    cases hdic : dic.lookup (B.H.coinName r.coin) with
    | none => simp
    | some puzzleHash =>
      simp only [bind_eq_ok, bodyRejectIf_eq_ok, ih, exists_const, not_not, Option.some.injEq]
      exact and_congr eq_comm Iff.rfl

namespace Batch

variable {B : BodyTools} {items : List MempoolItem} {parts : List SpendBundleConditions} {tip : TxBlock}
  {ctx : BodyContext} {block prev : FullBlock} {coinbase : List Coin} {forkPoint : Option ℤ}
  {peak : BlockRecord} {timestamp' : ℕ} {records : Dict Bytes32 CoinRecord}
  (h : Batch T constants W table tip.record.height timestamp items parts) (hB : B.H.coinName = H.coinName)
  (hnext : NextBlock W tip table ctx block coinbase forkPoint peak prev)

include h hB hnext

lemma outputs : ((items.flatMap MempoolItem.additions ++ coinbase).map B.H.coinName).Nodup ∧
    ∀ c ∈ items.flatMap MempoolItem.additions ++ coinbase, c ∈ W.coins ∧
      find coinColumns.key table (B.H.coinName c) = none := by
  rw [hB]
  constructor
  · rw [List.map_append, List.nodup_append]
    refine ⟨h.nodup_additions, hnext.nodup_rewards, fun n hn n' hn' heq => ?_⟩
    obtain ⟨c, hc, rfl⟩ := List.mem_map.mp hn
    obtain ⟨c', hc', rfl⟩ := List.mem_map.mp hn'
    obtain ⟨i, hi, hc⟩ := List.mem_flatMap.mp hc
    obtain ⟨hcoin, hreward, -⟩ := hnext.rewards c' hc'
    obtain rfl := W.coinName_injOn (h.coins i hi c hc) hcoin heq
    exact (h.parent_mem hi hc).2 hreward
  · intro c hc
    rcases List.mem_append.mp hc with hc | hc
    · obtain ⟨i, hi, hci⟩ := List.mem_flatMap.mp hc
      exact ⟨h.coins i hi c hci, h.not_created hc⟩
    · obtain ⟨hcoin, -, hnone⟩ := hnext.rewards c hc
      exact ⟨hcoin, hnone⟩

/-- A spend is valid in the block as it is in its item: no other item creates the coin. -/
lemma spendValid {spend : Spend} (hspend : spend ∈ parts.flatMap SpendBundleConditions.spends) :
    ∃ coin ∈ items.flatMap MempoolItem.removals, H.coinName coin = spend.coinId ∧
      SpendValid table tip.record.height timestamp
        (additionsDicOf B (items.flatMap MempoolItem.additions) coinbase) spend coin := by
  obtain ⟨i, hi, conds, hvalid, hspend⟩ := h.exists_item hspend
  obtain ⟨coin, hmem, hcoin, hname, hspend⟩ :=
    hvalid.exists_coin h.coinName_eq h.sound (h.coins i hi) hspend
  obtain ⟨-, hout⟩ := h.outputs hB hnext
  refine ⟨coin, List.mem_flatMap.mpr ⟨i, hi, hmem⟩, hname, hspend.puzzle, ?_⟩
  rcases hspend.source with ⟨hdict, hrel⟩ | ⟨hdict, row, hrow, hrest⟩
  · refine .inl ⟨?_, hrel⟩
    obtain ⟨hadd, -⟩ := hvalid.mem_additions hdict
    have hadd : coin ∈ items.flatMap MempoolItem.additions ++ coinbase :=
      List.mem_append_left _ (List.mem_flatMap.mpr ⟨i, hi, hadd⟩)
    cases hlookup : (additionsDicOf B (items.flatMap MempoolItem.additions) coinbase).lookup spend.coinId with
    | none =>
      have hnot := lookup_additionsDicOf_eq_none.mp hlookup
      rw [← hname, ← hB] at hnot
      exact absurd (List.mem_map_of_mem hadd) hnot
    | some coin' =>
      obtain ⟨c, hc, heq⟩ := List.mem_map.mp (Dict.mem_of_lookup_ofItems hlookup)
      obtain ⟨hc', rfl⟩ := Prod.mk.inj heq
      rw [hB] at hc'
      rw [W.coinName_injOn (hout c hc).1 hcoin (hc'.trans hname.symm)]
  · refine .inr ⟨?_, row, hrow, hrest⟩
    rw [lookup_additionsDicOf_eq_none]
    intro hin
    obtain ⟨c, hc, heq⟩ := List.mem_map.mp hin
    have hnone := (hout c hc).2
    rw [heq, hrow] at hnone
    cases hnone

section

variable (constants' : ConsensusConstants)

include constants'

lemma exists_records (timestamp' : ℕ) :
    ∃ records, removalCoinRecords B constants' ctx block block.height timestamp' forkPoint
      (items.flatMap (MempoolItem.removalNames T))
      (additionsDicOf B (items.flatMap MempoolItem.additions) coinbase) = .ok records := by
  rw [removalCoinRecords_eq h.nodup_removals hnext.forkHeightOf_eq (hnext.forkCoins_eq B constants'),
    hnext.coinStore_eq]
  have hnamed : ∀ r ∈ table, r.coinName = B.H.coinName r.coin := by
    rw [hB]
    exact h.sound.named
  refine (lookUpRemovals_iff h.sound.keyed hnamed h.nodup_removals).mpr fun k hk hdic => ?_
  rw [← h.map_coinId_eq] at hk
  obtain ⟨spend, hspend, rfl⟩ := List.mem_map.mp hk
  obtain ⟨coin, -, -, hvalid⟩ := h.spendValid hB hnext hspend
  rcases hvalid.source with ⟨hsome, -⟩ | ⟨-, row, hrow, -, hunspent, -⟩
  · rw [hdic] at hsome
    cases hsome
  · have hconfirmed := h.sound.confirmed row (mem_of_find hrow).1
    have htip := hnext.tip_le
    have hbefore : rowBeforeFork table peak.height spend.coinId = some row := by
      rw [rowBeforeFork, hrow, Option.filter_some, if_pos (by simp; omega)]
    refine ⟨List.not_mem_nil, ?_⟩
    rw [hbefore]
    exact .inl hunspent

/-- The record of a spend. -/
lemma lookup_records (htime : timestamp ≤ timestamp')
    (hrecords : removalCoinRecords B constants' ctx block block.height timestamp' forkPoint (items.flatMap (MempoolItem.removalNames T)) (additionsDicOf B (items.flatMap MempoolItem.additions) coinbase) = .ok records) :
    (∀ spend ∈ parts.flatMap SpendBundleConditions.spends, ∃ r, records.lookup spend.coinId = some r ∧
      r.coin ∈ items.flatMap MempoolItem.removals ∧ H.coinName r.coin = spend.coinId ∧
      spend.puzzleHash = r.coin.puzzleHash ∧ LocksOpen tip.record.height timestamp' r spend) ∧
    ∀ k r, records.lookup k = some r →
      ∃ spend ∈ parts.flatMap SpendBundleConditions.spends, spend.coinId = k := by
  rw [removalCoinRecords_eq h.nodup_removals hnext.forkHeightOf_eq (hnext.forkCoins_eq B constants'),
    hnext.coinStore_eq] at hrecords
  have hnamed : ∀ r ∈ table, r.coinName = B.H.coinName r.coin := by
    rw [hB]
    exact h.sound.named
  have hlookup := lookup_lookUpRemovals h.sound.keyed hnamed h.nodup_removals
    (fun k c hc => lookup_additionsDicOf hc) (fun k c hc => by cases hc) hrecords
  constructor
  · intro spend hspend
    obtain ⟨coin, hmem, hname, hvalid⟩ := h.spendValid hB hnext hspend
    have hk : spend.coinId ∈ items.flatMap (MempoolItem.removalNames T) := by
      rw [← h.map_coinId_eq]
      exact List.mem_map_of_mem hspend
    have horigin := hlookup spend.coinId
    rw [if_pos hk] at horigin
    rcases hvalid.source with ⟨hdic, hheight, hseconds⟩ | ⟨hdic, row, hrow, rfl, -, hlocks⟩
    · rw [hdic] at horigin
      obtain ⟨r, hr, heq⟩ := Option.map_eq_some_iff.mp horigin
      obtain ⟨hcoin, hrest⟩ := Prod.mk.inj heq
      obtain ⟨-, hts⟩ := Prod.mk.inj hrest
      refine ⟨r, hr, hcoin ▸ hmem, hcoin ▸ hname, hcoin ▸ hvalid.puzzle, ?_, ?_⟩
      · intro x hx
        rw [hheight] at hx
        cases hx
      · rw [hts, hseconds]
        exact le_rfl
    · have hconfirmed := h.sound.confirmed row (mem_of_find hrow).1
      have htip := hnext.tip_le
      have hbefore : rowBeforeFork table peak.height spend.coinId = some row := by
        rw [rowBeforeFork, hrow, Option.filter_some, if_pos (by simp; omega)]
      rw [hdic, originBeforeBlock, hbefore] at horigin
      obtain ⟨r, hr, heq⟩ := Option.map_eq_some_iff.mp horigin
      obtain ⟨hcoin, hrest⟩ := Prod.mk.inj heq
      obtain ⟨hconf, hts⟩ := Prod.mk.inj hrest
      refine ⟨r, hr, hcoin ▸ hmem, hcoin ▸ hname, hcoin ▸ hvalid.puzzle, fun x hx => ?_, ?_⟩
      · rw [hconf]
        exact hlocks.height x hx
      · rw [hts]
        exact hlocks.seconds.trans htime
  · intro k r hr
    have horigin := hlookup k
    rw [hr, ← h.map_coinId_eq] at horigin
    split at horigin
    · rename_i hk
      exact List.mem_map.mp hk
    · cases horigin

/-- The coins of the records are those that the items spend. -/
lemma perm_records (htime : timestamp ≤ timestamp')
    (hrecords : removalCoinRecords B constants' ctx block block.height timestamp' forkPoint (items.flatMap (MempoolItem.removalNames T)) (additionsDicOf B (items.flatMap MempoolItem.additions) coinbase) = .ok records) :
    (records.items.map fun e => e.2.coin).Perm (items.flatMap MempoolItem.removals) := by
  obtain ⟨hspends, hnames⟩ := h.lookup_records hB hnext constants' htime hrecords
  -- the record of a name is that of a coin with the name
  have hitem : ∀ e ∈ records.items, e.2.coin ∈ items.flatMap MempoolItem.removals ∧
      H.coinName e.2.coin = e.1 := by
    rintro ⟨k, r⟩ he
    have hlookup := Dict.mem_items_iff.mp he
    obtain ⟨spend, hspend, rfl⟩ := hnames k r hlookup
    obtain ⟨r', hr', hmem, hname, -⟩ := hspends spend hspend
    obtain rfl := Option.some.inj (hlookup.symm.trans hr')
    exact ⟨hmem, hname⟩
  have hremovals : (items.flatMap MempoolItem.removals).map H.coinName =
      items.flatMap (MempoolItem.removalNames T) := by
    rw [List.map_flatMap, ← h.coinName_eq]
    rfl
  have hnodup : ((items.flatMap MempoolItem.removals).map H.coinName).Nodup := by
    rw [hremovals]
    exact h.nodup_removals
  refine (List.perm_ext_iff_of_nodup ?_ hnodup.of_map).mpr fun c => ⟨fun hc => ?_, fun hc => ?_⟩
  · refine List.Nodup.of_map H.coinName ?_
    have hfst : records.items.map (H.coinName ∘ fun e => e.2.coin) = records.items.map Prod.fst :=
      List.map_congr_left fun e he => (hitem e he).2
    rw [List.map_map, hfst]
    exact records.nodup_items
  · obtain ⟨e, he, rfl⟩ := List.mem_map.mp hc
    exact (hitem e he).1
  · have hk : H.coinName c ∈ items.flatMap (MempoolItem.removalNames T) := by
      rw [← hremovals]
      exact List.mem_map_of_mem hc
    rw [← h.map_coinId_eq] at hk
    obtain ⟨spend, hspend, heq⟩ := List.mem_map.mp hk
    obtain ⟨r, hr, hmem, hname, -⟩ := hspends spend hspend
    obtain rfl := List.inj_on_of_nodup_map hnodup hmem hc (hname.trans heq)
    exact List.mem_map.mpr ⟨_, Dict.mem_items_iff.mpr hr, rfl⟩

/-- **Items that can be put together pass the checks of a block** on the peak. -/
theorem bundleChecks (htime : timestamp ≤ timestamp') {conds : SpendBundleConditions}
    (hconds : Aggregates conds parts) {npcResult : NPCResult} (hnpc : npcResult.conds = some conds) :
    BundleChecks B constants' ctx block timestamp' forkPoint coinbase tip.record.height npcResult conds := by
  unfold BundleChecks
  rw [hconds.spends, h.map_coinId_eq, h.flatMap_additions_eq]
  obtain ⟨records, hrecords⟩ := h.exists_records hB hnext constants' timestamp'
  obtain ⟨hspends, hnames⟩ := h.lookup_records hB hnext constants' htime hrecords
  have hperm := h.perm_records hB hnext constants' htime hrecords
  have hfees : feesOf records (items.flatMap MempoolItem.additions) =
      ((items.map MempoolItem.fee).sum : ℕ) := by
    rw [feesOf, ← h.sum_fees, ← (hperm.map Coin.amount).sum_eq, List.map_map]
    congr 1
    rw [Nat.cast_list_sum, List.map_map]
    rfl
  have hids : ((parts.flatMap SpendBundleConditions.spends).map Spend.coinId).Nodup := by
    rw [h.map_coinId_eq]
    exact h.nodup_removals
  refine ⟨(h.outputs hB hnext).1, records, hrecords, ?_, ?_, ?_, ?_⟩
  · rw [hfees]
    exact Int.natCast_nonneg _
  · rw [hfees, hconds.reserveFee]
    exact_mod_cast h.sum_reserveFee_le
  · refine checkPuzzleHashes_eq_ok.mpr fun r hr => ?_
    obtain ⟨⟨k, r'⟩, he, rfl⟩ := List.mem_map.mp hr
    have hlookup := Dict.mem_items_iff.mp he
    obtain ⟨spend, hspend, rfl⟩ := hnames k r' hlookup
    obtain ⟨r'', hr'', -, hname, hpuzzle, -⟩ := hspends spend hspend
    obtain rfl := Option.some.inj (hlookup.symm.trans hr'')
    rw [hB, hname, ← hpuzzle, Dict.lookup_ofItems_of_nodup (by rw [List.map_map]; exact hids)]
    exact List.mem_map.mpr ⟨spend, hspend, rfl⟩
  · unfold checkTimeLocks
    simp only [hnpc]
    rw [bodyRaising_eq_ok.mpr (pySome_eq_ok.mpr rfl), ok_bind]
    refine mempoolCheckTimeLocks_eq_ok.mpr ⟨?_, ?_, fun spend hspend => ?_⟩
    · rw [hconds.heightAbsolute]
      refine foldr_max_le fun x hx => ?_
      obtain ⟨part, hpart, rfl⟩ := List.mem_map.mp hx
      obtain ⟨i, -, hvalid⟩ := exists_mem_of_forall₂ (R := flip _) (List.Forall₂.flip h.valid) hpart
      exact hvalid.height
    · rw [hconds.secondsAbsolute]
      refine foldr_max_le fun x hx => ?_
      obtain ⟨part, hpart, rfl⟩ := List.mem_map.mp hx
      obtain ⟨i, -, hvalid⟩ := exists_mem_of_forall₂ (R := flip _) (List.Forall₂.flip h.valid) hpart
      exact hvalid.seconds.trans htime
    · rw [hconds.spends] at hspend
      obtain ⟨r, hr, -, -, -, hlocks⟩ := hspends spend hspend
      exact ⟨r, hr, hlocks⟩

end

end Batch

end Batch

/-! ## The bundle of a block -/

namespace NodeState

variable {K : Type} [LinearOrder K] {T : MempoolTools K} {constants : MempoolConstants} {H : Hashes}
  {W : CoinWorld H}

/-- The conditions of items. -/
def condsOfItems (items : List MempoolItem) : List SpendBundleConditions :=
  items.filterMap fun i => i.npcResult.conds

/-- If the coin store has the coin set of the manager's peak, a bundle that `create_bundle_from_mempool` returns
stays within the limits and passes the checks of every block on the peak with a later timestamp. -/
def MakesValidBlocks (B : BodyTools) (T : MempoolTools K) (constants : MempoolConstants) (W : CoinWorld H)
    (s : NodeState K) : Prop :=
  ∀ bundle additions removals, s.mgr.peak = some s.tip.record →
    s.mgr.createBundleFromMempool T constants s.tip.record.headerHash = some (bundle, additions, removals) →
    2 * ((s.mgr.blockItems constants).map MempoolItem.cost).sum ≤ constants.MAX_BLOCK_COST_CLVM ∧
      ((s.mgr.blockItems constants).map MempoolItem.fee).sum ≤ constants.MAX_COIN_AMOUNT ∧
      ∀ conds npcResult, Aggregates conds (condsOfItems (s.mgr.blockItems constants)) →
        npcResult.conds = some conds →
        ∀ ctx block coinbase forkPoint peak prev timestamp,
          NextBlock W s.tip s.coinStore ctx block coinbase forkPoint peak prev → s.tip.timestamp < timestamp →
          BundleChecks B constants.toConsensusConstants ctx block timestamp forkPoint coinbase
            s.tip.record.height npcResult conds

omit [LinearOrder K] in
lemma forall₂_condsOfItems {table : CoinTable} {height timestamp : ℕ} {items : List MempoolItem}
    (h : ∀ i ∈ items, ∃ conds, ItemValid T constants table height timestamp i conds) :
    List.Forall₂ (ItemValid T constants table height timestamp) items (condsOfItems items) := by
  induction items with
  | nil => exact .nil
  | cons i items ih =>
    obtain ⟨conds, hvalid⟩ := h i List.mem_cons_self
    rw [condsOfItems, List.filterMap_cons, hvalid.npc.conds_eq]
    exact .cons hvalid (ih fun j hj => h j (List.mem_cons_of_mem _ hj))

lemma Inv.batch {s : NodeState K} (hT : T.coinName = H.coinName) (hs : s.Inv T constants W)
    (hpeak : s.mgr.peak = some s.tip.record) :
    Batch T constants W s.coinStore s.tip.record.height s.tip.timestamp (s.mgr.blockItems constants)
      (condsOfItems (s.mgr.blockItems constants)) := by
  obtain ⟨b, table, hb, hat⟩ := hs.valid _ hpeak
  have heq : b.record = s.tip.record := Option.some.inj (hat.peak.symm.trans hpeak)
  obtain rfl := W.headerHash_injOn hb.mem hs.coinSet.mem (congrArg BlockRecord.headerHash heq)
  obtain rfl := hb.unique hs.coinSet
  obtain ⟨hnodup, hmem⟩ := nodup_blockItems hs.manager.pool.toConsistent
  refine ⟨hT, hb.sound, forall₂_condsOfItems fun i hi => hat.valid i (hmem i hi),
    fun i hi => (hs.manager.pool.items i (hmem i hi)).coins, ?_⟩
  refine hnodup.imp_of_mem fun {i j} hi hj hne => ?_
  rw [List.disjoint_left]
  intro c hci hcj
  have hc := hs.manager.pool.removals.mpr ⟨hmem i hi, hci⟩
  rw [hs.manager.pool.removals.mpr ⟨hmem j hj, hcj⟩] at hc
  exact hne (Option.some.inj hc).symm

/-- **The bundles that are taken from the mempool make valid blocks** in every state that a node reaches, if
bundles are added only while the coin store has the coin set of the manager's peak. -/
theorem makesValidBlocks {B : BodyTools} (hB : B.H.coinName = H.coinName) (hT : T.coinName = H.coinName)
    (hbuffer : 0 < constants.MEMPOOL_BLOCK_BUFFER) (s : NodeState K)
    (hs : Reachable T constants W AtPeak s) : s.MakesValidBlocks B T constants W := by
  intro bundle additions removals hpeak _
  have hbatch := (hs.inv hT hbuffer).batch hT hpeak
  obtain ⟨hcost, hfee⟩ := takeFitting_sums constants 0 0
    (s.mgr.mempool.sortedSpends.values.reverse.flatMap OrderedDict.values) (Nat.zero_le _) (Nat.zero_le _)
  rw [Nat.zero_add] at hcost hfee
  refine ⟨hcost, hfee, ?_⟩
  intro conds npcResult hconds hnpc ctx block coinbase forkPoint peak prev timestamp hnext htime
  exact hbatch.bundleChecks hB hnext _ htime.le hconds hnpc

/-! ## The block after a reorganisation -/

/-- Tools for which only the names of coins matter. -/
def amountBody : BodyTools := { sampleBlockchainTools.toBodyTools with H := amountHashes }

/-- The bundle with the payment makes valid blocks. -/
theorem makesValidBlocks_paidAtOld :
    (paidAtOld.mgr.createBundleFromMempool amountTools defaultMempoolConstants
      oldTx.record.headerHash).isSome = true ∧
      paidAtOld.MakesValidBlocks amountBody amountTools defaultMempoolConstants reorgWorld :=
  ⟨by decide +kernel, makesValidBlocks rfl rfl (by decide) paidAtOld reachable_paidAtOld⟩

/-- The node after the first chain won. -/
def backAgain : NodeState ℕ :=
  ⟨backTx, backCoins, after (MempoolManager.newPeak amountTools defaultMempoolConstants backCoins
    (some backTx.record) (some (payment 1002 800)) paidAtRival.mgr)⟩

lemma reachable_backAgain :
    Reachable amountTools defaultMempoolConstants reorgWorld (fun _ => True) backAgain := by
  refine .newPeak reachable_paidAtRival coinSetAt_backTx backTx.record (.inl rfl) _ fun npc hnpc => ?_
  rw [← Option.some.inj hnpc]
  exact List.Subset.refl _

/-- What the validation of the next block reads. -/
def backContext : BodyContext where
  blocks := BlockRecords.ofRecords [backTx.record]
  blockStore := ⟨[⟨⟨Bytes32.ofNat 5, Bytes32.ofNat 3, 3, none⟩, true, false,
    emptyBlock 3 (Bytes32.ofNat 3) (Bytes32.ofNat 5) 0, backTx.record⟩], none⟩
  coinStore := backCoins
  peak := some backTx.record
  getBlockGenerator _ := .ok none

lemma nextBlock_backContext : NextBlock reorgWorld backTx backCoins backContext
    (emptyBlock 4 (Bytes32.ofNat 5) (Bytes32.ofNat 7) 0) [] none backTx.record
    (emptyBlock 3 (Bytes32.ofNat 3) (Bytes32.ofNat 5) 0) where
  coinStore_eq := rfl
  peak_eq := rfl
  prevRecord := by decide +kernel
  prevBlock := by decide +kernel
  prevHeight := rfl
  height := rfl
  tip_le := le_rfl
  forkPoint_eq := nofun
  rewards := nofun
  nodup_rewards := List.nodup_nil

/-- The conditions of the payment. -/
def paymentConds (amount amount' : ℕ) : SpendBundleConditions :=
  ⟨[⟨Bytes32.ofNat amount, Bytes32.zero, none, 0, [(Bytes32.zero, amount', none)], []⟩], 0, 0, 0, [], 1⟩

/-- The bundle with the payment, whose coin is not on the chain, makes no valid block. -/
theorem not_makesValidBlocks : ¬∀ s : NodeState ℕ,
    Reachable amountTools defaultMempoolConstants reorgWorld (fun _ => True) s →
      s.MakesValidBlocks amountBody amountTools defaultMempoolConstants reorgWorld := by
  intro h
  have hvalid := h backAgain reachable_backAgain
  have hsample : (backAgain.mgr.createBundleFromMempool amountTools defaultMempoolConstants
      backTx.record.headerHash).isSome = true ∧ backAgain.mgr.peak = some backTx.record ∧
      condsOfItems (backAgain.mgr.blockItems defaultMempoolConstants) = [paymentConds 900 700] ∧
      (removalCoinRecords amountBody defaultMempoolConstants.toConsensusConstants backContext
        (emptyBlock 4 (Bytes32.ofNat 5) (Bytes32.ofNat 7) 0) 4 4 none [Bytes32.ofNat 900]
        (additionsDicOf amountBody [⟨Bytes32.ofNat 900, Bytes32.zero, 700⟩] [])).toBool = false := by
    decide +kernel
  obtain ⟨hcreate, hpeak, hparts, hnone⟩ := hsample
  obtain ⟨⟨bundle, additions, removals⟩, hcreate⟩ := Option.isSome_iff_exists.mp hcreate
  obtain ⟨-, -, hchecks⟩ := hvalid bundle additions removals hpeak hcreate
  rw [hparts] at hchecks
  obtain ⟨-, records, hrecords, -⟩ := hchecks (paymentConds 900 700) (payment 900 700) ⟨rfl, rfl, rfl, rfl⟩ rfl
    _ _ _ _ _ _ 4 nextBlock_backContext (by decide)
  have hsome : (removalCoinRecords amountBody defaultMempoolConstants.toConsensusConstants backContext
      (emptyBlock 4 (Bytes32.ofNat 5) (Bytes32.ofNat 7) 0) 4 4 none [Bytes32.ofNat 900]
      (additionsDicOf amountBody [⟨Bytes32.ofNat 900, Bytes32.zero, 700⟩] [])).toBool = true :=
    congrArg Except.toBool hrecords
  rw [hnone] at hsome
  cases hsome

end NodeState

end Chives
