import Chives.FullNode.MempoolValidity

set_option autoImplicit false

/-!
# The mempool along a chain

The coin set of a transaction block follows from that of the transaction block before it. An item that is valid
at a block stays valid at the next transaction block if that block spends none of its coins; otherwise it is
refused there.

## Main definitions

* `TxBlock`, `TxBlock.addTo` — a transaction block and what it does to the coin set.
* `CoinWorld` — the blocks and the coins that there are, and what their hashes are relied on for.
* `CoinWorld.CoinSetAt` — the coin set of a block.

## Main results

* `MempoolManager.ItemValid.extend` — an item of which the next block spends no coin stays valid.
* `MempoolManager.ItemValid.not_created` — a valid item creates coins that are not in the coin set.
* `MempoolManager.ItemValid.admission_of_mem_removals` — an item of which the next block spends a coin
  is refused.

## Design

A bundle may spend coins that it creates, and the coin store is not asked about these. That such a coin is
not in the coin set follows from its parents, of which the first one is in the coin store: this needs that no
coin is among its own ancestors, and that the parents of reward coins are not coins.
-/

namespace Chives

open ExceptRun Table LifeTable

/-! ## Transaction blocks -/

/-- A transaction block, as far as the coin set depends on it: its record, the result of its generator and the
reward coins that it includes. -/
structure TxBlock where
  record : BlockRecord
  npcResult : Option NPCResult
  rewards : List Coin

namespace TxBlock

/-- The names of the coins that the block spends. -/
def removals (b : TxBlock) : List Bytes32 := (txRemovalsAndAdditions (b.npcResult.bind NPCResult.conds)).1

/-- The coins that the transactions of the block create. -/
def additions (b : TxBlock) : List Coin := (txRemovalsAndAdditions (b.npcResult.bind NPCResult.conds)).2

/-- The timestamp, which every transaction block has. -/
def timestamp (b : TxBlock) : ℕ := b.record.timestamp.getD 0

/-- The coin set after the block. -/
def addTo (H : Hashes) (table : CoinTable) (b : TxBlock) : Except PyError CoinTable :=
  table.newBlock H b.record.height b.timestamp b.rewards b.additions b.removals

/-- The rows that the block adds. -/
def rows (H : Hashes) (b : TxBlock) : List CoinRow :=
  CoinTable.rowsOfBlock H b.record.height b.timestamp b.rewards b.additions

/-- The block is the next transaction block. -/
structure Follows (p b : TxBlock) : Prop where
  hash : b.record.prevTransactionBlockHash = some p.record.headerHash
  height : p.record.height < b.record.height
  timestamp : p.timestamp < b.timestamp

lemma parent_mem_removals {b : TxBlock} {c : Coin} (hc : c ∈ b.additions) : c.parentCoinInfo ∈ b.removals := by
  unfold additions at hc
  unfold removals
  cases hconds : b.npcResult.bind NPCResult.conds with
  | none =>
    rw [hconds] at hc
    cases hc
  | some conds =>
    rw [hconds] at hc
    obtain ⟨spend, hspend, hc⟩ := List.mem_flatMap.mp hc
    obtain ⟨x, -, rfl⟩ := List.mem_map.mp hc
    exact List.mem_map_of_mem hspend

variable {H : Hashes} {b : TxBlock} {table table' : CoinTable}

section

variable (h : b.addTo H table = .ok table')

include h

lemma addTo_eq_ok :
    Keyed coinColumns.key (table ++ b.rows H) ∧
      (∀ k ∈ b.removals, Alive coinColumns (table ++ b.rows H) k) ∧
      (b.removals ≠ [] → 0 < b.record.height) ∧
      table' = markDied coinColumns b.record.height b.removals (table ++ b.rows H) := by
  obtain ⟨-, hkeyed, -, halive, hpos, rfl⟩ := CoinTable.newBlock_eq_ok h
  exact ⟨hkeyed, halive, hpos, rfl⟩

lemma find_addTo (k : Bytes32) :
    find coinColumns.key table' k = ((find coinColumns.key table k).or
      (find coinColumns.key (b.rows H) k)).map fun r =>
        if k ∈ b.removals ∧ r.spentIndex = 0 then { r with spentIndex := b.record.height } else r := by
  obtain ⟨-, -, -, rfl⟩ := addTo_eq_ok h
  rw [find_markDied, find_append]
  rfl

variable {k : Bytes32} {r : CoinRow}

lemma find_addTo_of_notMem (hk : k ∉ b.removals) (hr : find coinColumns.key table k = some r) :
    find coinColumns.key table' k = some r := by
  rw [find_addTo h, hr]
  simp [hk]

lemma exists_find_addTo (hr : find coinColumns.key table k = some r) :
    ∃ r', find coinColumns.key table' k = some r' ∧ r'.coin = r.coin := by
  rw [find_addTo h, hr]
  refine ⟨_, rfl, ?_⟩
  dsimp only
  split
  · rfl
  · rfl

lemma find_addTo_of_spent (hspent : r.spentIndex ≠ 0) (hr : find coinColumns.key table k = some r) :
    find coinColumns.key table' k = some r := by
  rw [find_addTo h, hr]
  simp [hspent]

lemma find_addTo_of_mem (hk : k ∈ b.removals) : ∃ r, find coinColumns.key table' k = some r ∧ r.spentIndex ≠ 0 := by
  obtain ⟨hkeyed, halive, hpos, -⟩ := addTo_eq_ok h
  obtain ⟨r, hr, hkey, hdied⟩ := halive k hk
  have hfind := hkeyed.find_eq_some.mpr ⟨hr, hkey⟩
  rw [find_append] at hfind
  rw [find_addTo h, hfind, Option.map_some]
  refine ⟨_, rfl, ?_⟩
  rw [if_pos ⟨hk, hdied⟩]
  exact (hpos (List.ne_nil_of_mem hk)).ne'

end

end TxBlock

/-! ## The blocks and the coins -/

/-- The transaction blocks and the coins that there are. Their hashes are relied on for this: different blocks
and different coins have different ones, no coin is among its own ancestors, and the made-up parents of reward
coins and of the first block are not coins and blocks. -/
structure CoinWorld (H : Hashes) where
  blocks : Set TxBlock
  coins : Set Coin
  rewardParents : Set Bytes32
  rank : Bytes32 → ℕ
  headerHash_injOn : Set.InjOn (fun b => b.record.headerHash) blocks
  coinName_injOn : Set.InjOn H.coinName coins
  rank_lt : ∀ c ∈ coins, rank c.parentCoinInfo < rank (H.coinName c)
  notMem_rewardParents : ∀ c ∈ coins, H.coinName c ∉ rewardParents
  isTransactionBlock : ∀ b ∈ blocks, b.record.isTransactionBlock = true
  height_lt : ∀ b ∈ blocks, b.record.height + 1 < 2 ^ 32
  genesis_prev : ∀ b ∈ blocks, b.record.height = 0 → ∀ p ∈ blocks,
    b.record.prevTransactionBlockHash ≠ some p.record.headerHash
  additions : ∀ b ∈ blocks, ∀ c ∈ b.additions, c ∈ coins
  rewards : ∀ b ∈ blocks, ∀ c ∈ b.rewards, c ∈ coins ∧ c.parentCoinInfo ∈ rewardParents

namespace CoinWorld

variable {H : Hashes} {W : CoinWorld H} {p b : TxBlock} {table table' : CoinTable}

/-- The coin set of a block. -/
inductive CoinSetAt (W : CoinWorld H) : TxBlock → CoinTable → Prop
  | genesis {b : TxBlock} {table : CoinTable} (hb : b ∈ W.blocks) (hheight : b.record.height = 0)
      (htable : b.addTo H [] = .ok table) : CoinSetAt W b table
  | extend {p b : TxBlock} {table table' : CoinTable} (hp : CoinSetAt W p table) (hb : b ∈ W.blocks)
      (hpb : p.Follows b) (htable : b.addTo H table = .ok table') : CoinSetAt W b table'

lemma CoinSetAt.mem (h : W.CoinSetAt b table) : b ∈ W.blocks := by
  cases h with
  | genesis hb _ _ => exact hb
  | extend _ hb _ _ => exact hb

lemma CoinSetAt.timestamp_eq (h : W.CoinSetAt b table) : b.record.timestamp = some b.timestamp := by
  have htx := W.isTransactionBlock b h.mem
  obtain ⟨t, ht⟩ := Option.isSome_iff_exists.mp htx
  rw [TxBlock.timestamp, ht]
  rfl

lemma CoinSetAt.unique (h : W.CoinSetAt b table) (h' : W.CoinSetAt b table') : table = table' := by
  induction h generalizing table' with
  | genesis hb hheight htable =>
    cases h' with
    | genesis _ _ htable' => exact Except.ok.inj (htable.symm.trans htable')
    | extend hp _ hpb _ =>
      have := hpb.height
      omega
  | @extend p b t t' hp hb hpb htable ih =>
    cases h' with
    | genesis _ hheight _ =>
      have := hpb.height
      omega
    | @extend p' _ t₁ _ hp' _ hpb' htable' =>
      have heq : p.record.headerHash = p'.record.headerHash :=
        Option.some.inj (hpb.hash.symm.trans hpb'.hash)
      obtain rfl := W.headerHash_injOn hp.mem hp'.mem heq
      obtain rfl := ih hp'
      exact Except.ok.inj (htable.symm.trans htable')

lemma CoinSetAt.follows (h : W.CoinSetAt b table') (hp : W.CoinSetAt p table)
    (hprev : b.record.prevTransactionBlockHash = some p.record.headerHash) :
    p.Follows b ∧ b.addTo H table = .ok table' := by
  cases h with
  | genesis hb hheight _ => exact absurd hprev (W.genesis_prev b hb hheight p hp.mem)
  | @extend p' _ t _ hp' _ hpb htable =>
    have heq : p'.record.headerHash = p.record.headerHash := Option.some.inj (hpb.hash.symm.trans hprev)
    obtain rfl := W.headerHash_injOn hp'.mem hp.mem heq
    obtain rfl := hp'.unique hp
    exact ⟨hpb, htable⟩

/-- What holds of a coin set: a coin is there once, under its name, since a block up to this one, and the coin
that it comes from is spent. -/
structure Sound (W : CoinWorld H) (height : ℕ) (table : CoinTable) : Prop where
  keyed : Keyed coinColumns.key table
  named : table.Named H.coinName
  coins : ∀ r ∈ table, r.coin ∈ W.coins
  confirmed : ∀ r ∈ table, r.confirmedIndex ≤ height
  parents : ∀ r ∈ table, r.coin.parentCoinInfo ∈ W.rewardParents ∨
    ∃ r' ∈ table, r'.coinName = r.coin.parentCoinInfo ∧ r'.spentIndex ≠ 0

lemma sound_nil (height : ℕ) : W.Sound height [] :=
  ⟨List.nodup_nil, (fun _ hr => nomatch hr), (fun _ hr => nomatch hr), (fun _ hr => nomatch hr),
    fun _ hr => nomatch hr⟩

variable {height : ℕ}

/-- A block keeps the coin set sound. -/
lemma Sound.addTo (h : W.Sound height table) (hb : b ∈ W.blocks) (hheight : height ≤ b.record.height)
    (htable : b.addTo H table = .ok table') : W.Sound b.record.height table' := by
  obtain ⟨hkeyed, halive, hpos, rfl⟩ := TxBlock.addTo_eq_ok htable
  have hkeyed' : Keyed coinColumns.key (markDied coinColumns b.record.height b.removals
      (table ++ b.rows H)) := by
    rw [Keyed, map_key_markDied]
    exact hkeyed
  -- a row of the new table is that of the old one or of the block, up to the spent index
  have hmem : ∀ r ∈ markDied coinColumns b.record.height b.removals (table ++ b.rows H),
      ∃ r₀ ∈ table ++ b.rows H, r.coinName = r₀.coinName ∧ r.coin = r₀.coin ∧
        r.confirmedIndex = r₀.confirmedIndex := by
    intro r hr
    obtain ⟨r₀, hr₀, rfl⟩ := List.mem_map.mp hr
    refine ⟨r₀, hr₀, ?_⟩
    split
    · exact ⟨rfl, rfl, rfl⟩
    · exact ⟨rfl, rfl, rfl⟩
  refine ⟨hkeyed', fun r hr => ?_, fun r hr => ?_, fun r hr => ?_, fun r hr => ?_⟩
  · obtain ⟨r₀, hr₀, hname, hcoin, -⟩ := hmem r hr
    rw [hname, hcoin]
    rcases List.mem_append.mp hr₀ with hr₀ | hr₀
    · exact h.named r₀ hr₀
    · exact (CoinTable.mem_rowsOfBlock hr₀).2.2.2.1
  · obtain ⟨r₀, hr₀, -, hcoin, -⟩ := hmem r hr
    rw [hcoin]
    rcases List.mem_append.mp hr₀ with hr₀ | hr₀
    · exact h.coins r₀ hr₀
    · rcases (CoinTable.mem_rowsOfBlock hr₀).2.2.2.2 with hc | hc
      · exact W.additions b hb _ hc
      · exact (W.rewards b hb _ hc).1
  · obtain ⟨r₀, hr₀, -, -, hconfirmed⟩ := hmem r hr
    rw [hconfirmed]
    rcases List.mem_append.mp hr₀ with hr₀ | hr₀
    · exact (h.confirmed r₀ hr₀).trans hheight
    · exact (CoinTable.mem_rowsOfBlock hr₀).1.le
  · obtain ⟨r₀, hr₀, -, hcoin, -⟩ := hmem r hr
    rw [hcoin]
    -- a row that is found is one of the table
    have hfound : ∀ {k : Bytes32} {r : CoinRow}, find coinColumns.key
        (markDied coinColumns b.record.height b.removals (table ++ b.rows H)) k = some r →
        r.spentIndex ≠ 0 → ∃ r' ∈ markDied coinColumns b.record.height b.removals (table ++ b.rows H),
          r'.coinName = k ∧ r'.spentIndex ≠ 0 := by
      intro k r hr hspent
      obtain ⟨hr, hkey⟩ := mem_of_find hr
      exact ⟨r, hr, hkey, hspent⟩
    rcases List.mem_append.mp hr₀ with hr₀ | hr₀
    · rcases h.parents r₀ hr₀ with hreward | ⟨r', hr', hname, hspent⟩
      · exact .inl hreward
      · exact .inr (hfound (TxBlock.find_addTo_of_spent htable hspent
          (h.keyed.find_eq_some.mpr ⟨hr', hname⟩)) hspent)
    · rcases (CoinTable.mem_rowsOfBlock hr₀).2.2.2.2 with hc | hc
      · obtain ⟨r', hfind, hspent⟩ := TxBlock.find_addTo_of_mem htable (TxBlock.parent_mem_removals hc)
        exact .inr (hfound hfind hspent)
      · exact .inl (W.rewards b hb _ hc).2

lemma CoinSetAt.sound (h : W.CoinSetAt b table) : W.Sound b.record.height table := by
  induction h with
  | genesis hb hheight htable => exact (sound_nil 0).addTo hb (Nat.zero_le _) htable
  | extend _ hb hpb htable ih => exact ih.addTo hb hpb.height.le htable

lemma Sound.parent_spent (h : W.Sound height table) {c : Coin} (hc : c ∈ W.coins)
    (hparent : c.parentCoinInfo ∉ W.rewardParents) {r : CoinRow}
    (hr : find coinColumns.key table (H.coinName c) = some r) :
    ∃ r', find coinColumns.key table c.parentCoinInfo = some r' ∧ r'.spentIndex ≠ 0 := by
  obtain ⟨hr, hname⟩ := mem_of_find hr
  have hcoin : r.coin = c :=
    W.coinName_injOn (h.coins r hr) hc ((h.named r hr).symm.trans hname)
  rcases h.parents r hr with hreward | ⟨r', hr', hname', hspent⟩
  · rw [hcoin] at hreward
    exact absurd hreward hparent
  · rw [hcoin] at hname'
    exact ⟨r', h.keyed.find_eq_some.mpr ⟨hr', hname'⟩, hspent⟩

end CoinWorld

namespace MempoolManager

section Items

variable {K : Type} {T : MempoolTools K} {constants : MempoolConstants} {H : Hashes} {W : CoinWorld H}
  {p b : TxBlock} {table table' : CoinTable} {height timestamp : ℕ} {item : MempoolItem}
  {conds : SpendBundleConditions}

/-! ## Valid items along a chain -/

lemma NpcOk.additionsForNpc_eq {newSpend : SpendBundle} {npcResult : NPCResult}
    (h : NpcOk T constants newSpend npcResult conds) :
    additionsForNpc npcResult = conds.spends.flatMap Spend.additions := by
  rw [additionsForNpc, h.conds_eq]

namespace ItemValid

variable (h : ItemValid T constants table height timestamp item conds) (hT : T.coinName = H.coinName)
  (hsound : W.Sound height table) (hcoins : ∀ c ∈ item.additions, c ∈ W.coins)

include h

lemma parent_mem {c : Coin} (hc : c ∈ item.additions) :
    ∃ spend ∈ conds.spends, spend.coinId = c.parentCoinInfo := by
  rw [h.additions_eq, h.npc.additionsForNpc_eq] at hc
  obtain ⟨spend, hspend, hc⟩ := List.mem_flatMap.mp hc
  obtain ⟨x, -, rfl⟩ := List.mem_map.mp hc
  exact ⟨spend, hspend, rfl⟩

lemma mem_additions {k : Bytes32} {c : Coin} (hc : (additionsDictOf T item.npcResult).lookup k = some c) :
    c ∈ item.additions ∧ T.coinName c = k := by
  rw [h.additions_eq]
  exact mem_of_additionsDictOf hc

include hT hsound hcoins

variable {spend : Spend}

lemma exists_coin (hspend : spend ∈ conds.spends) :
    ∃ coin ∈ item.removals, coin ∈ W.coins ∧ H.coinName coin = spend.coinId ∧
      SpendValid table height timestamp (additionsDictOf T item.npcResult) spend coin := by
  obtain ⟨coin, hcoin, hvalid⟩ := exists_mem_of_forall₂ h.spends hspend
  refine ⟨coin, hcoin, ?_, ?_, hvalid⟩
  · rcases hvalid.source with ⟨hdict, -⟩ | ⟨-, row, hrow, rfl, -⟩
    · exact hcoins _ (h.mem_additions hdict).1
    · exact hsound.coins row (mem_of_find hrow).1
  · rcases hvalid.source with ⟨hdict, -⟩ | ⟨-, row, hrow, rfl, -⟩
    · rw [← hT]
      exact (h.mem_additions hdict).2
    · obtain ⟨hmem, hname⟩ := mem_of_find hrow
      exact (hsound.named row hmem).symm.trans hname

lemma coinId_notMem (hspend : spend ∈ conds.spends) : spend.coinId ∉ W.rewardParents := by
  obtain ⟨coin, -, hcoin, hname, -⟩ := h.exists_coin hT hsound hcoins hspend
  rw [← hname]
  exact W.notMem_rewardParents coin hcoin

/-- **A valid item creates coins that are not in the coin set.**

**Proof sketch.** By induction on the rank of the name. If the coin was there, its parent would be spent. The item
spends the parent, so it creates the parent itself, which then is not in the coin set. -/
theorem not_created {c : Coin} (hc : c ∈ item.additions) : find coinColumns.key table (H.coinName c) = none := by
  induction hrank : W.rank (H.coinName c) using Nat.strong_induction_on generalizing c with
  | _ n ih =>
    cases hfind : find coinColumns.key table (H.coinName c) with
    | none => rfl
    | some r =>
      exfalso
      obtain ⟨spend, hspend, hparent⟩ := h.parent_mem hc
      have hnot := h.coinId_notMem hT hsound hcoins hspend
      rw [hparent] at hnot
      obtain ⟨r', hr', hspent⟩ := hsound.parent_spent (hcoins c hc) hnot hfind
      obtain ⟨coin, -, hcoin, hname, hvalid⟩ := h.exists_coin hT hsound hcoins hspend
      rcases hvalid.source with ⟨hdict, -⟩ | ⟨-, row, hrow, -, hunspent, -⟩
      · obtain ⟨hmem, -⟩ := h.mem_additions hdict
        have hlt := W.rank_lt c (hcoins c hc)
        rw [← hparent, ← hname, hrank] at hlt
        have hnone := ih _ hlt hmem rfl
        rw [hname, hparent, hr'] at hnone
        cases hnone
      · rw [hparent, hr'] at hrow
        obtain rfl := Option.some.inj hrow
        exact hspent hunspent

omit hT hsound hcoins in
/-- **An item of which the next block spends no coin stays valid.** -/
theorem extend (htable : b.addTo H table = .ok table') (hheight : height ≤ b.record.height)
    (htimestamp : timestamp ≤ b.timestamp) (hfree : ∀ spend ∈ conds.spends, spend.coinId ∉ b.removals) :
    ItemValid T constants table' b.record.height b.timestamp item conds := by
  refine { h with spends := ?_, height := h.height.trans hheight, seconds := h.seconds.trans htimestamp }
  have hall := (List.forall₂_and_left conds.spends item.removals).mpr ⟨hfree, h.spends⟩
  refine hall.imp fun spend coin hspend => ⟨hspend.2.puzzle, ?_⟩
  rcases hspend.2.source with hdict | ⟨hdict, row, hrow, hcoin, hunspent, hlocks⟩
  · exact .inl hdict
  · exact .inr ⟨hdict, row, TxBlock.find_addTo_of_notMem htable hspend.1 hrow, hcoin, hunspent,
      hlocks.mono hheight htimestamp⟩

/-- If a coin of the item is spent in a later coin set, one is that the item does not create.

**Proof sketch.** By induction on the rank of the name. The parent of a coin that the item creates is spent as
well once the coin is in the coin set, and the item spends it. -/
lemma exists_spent {height' : ℕ} (hsound' : W.Sound height' table') (hspend : spend ∈ conds.spends) {r : CoinRow}
    (hr : find coinColumns.key table' spend.coinId = some r) (hspent : r.spentIndex ≠ 0) :
    ∃ spend ∈ conds.spends, (additionsDictOf T item.npcResult).lookup spend.coinId = none ∧
      ∃ r, find coinColumns.key table' spend.coinId = some r ∧ r.spentIndex ≠ 0 := by
  induction hrank : W.rank spend.coinId using Nat.strong_induction_on generalizing spend r with
  | _ n ih =>
    cases hdict : (additionsDictOf T item.npcResult).lookup spend.coinId with
    | none => exact ⟨spend, hspend, hdict, r, hr, hspent⟩
    | some c =>
      obtain ⟨hc, hname⟩ := h.mem_additions hdict
      rw [hT] at hname
      obtain ⟨parent, hparent, heq⟩ := h.parent_mem hc
      have hnot := h.coinId_notMem hT hsound hcoins hparent
      rw [heq] at hnot
      rw [← hname] at hr
      obtain ⟨r', hr', hspent'⟩ := hsound'.parent_spent (hcoins c hc) hnot hr
      have hlt := W.rank_lt c (hcoins c hc)
      rw [hname, hrank, ← heq] at hlt
      rw [← heq] at hr'
      exact ih _ hlt hparent hr' hspent' rfl

/-- **An item of which the next block spends a coin is refused** after it, where there is room for it. -/
theorem admission_of_mem_removals [LinearOrder K] (htable : b.addTo H table = .ok table') (hb : b ∈ W.blocks)
    (hheight : height ≤ b.record.height) (hspend : spend ∈ conds.spends) (hmem : spend.coinId ∈ b.removals)
    {mgr : MempoolManager K} (hpeak : mgr.peak = some b.record)
    (hfresh : mgr.mempool.spends.get? item.spendBundleName = none)
    (hroom : mgr.mempool.totalMempoolCost + item.cost ≤ mgr.mempool.maxSizeInCost) :
    admission T constants table' mgr item.spendBundle item.npcResult item.spendBundleName
      (some item.program) = .error (.failed Err.doubleSpend.value) := by
  obtain ⟨time, htime⟩ := Option.isSome_iff_exists.mp (W.isTransactionBlock b hb)
  obtain ⟨r, hr, hspent⟩ := TxBlock.find_addTo_of_mem htable hmem
  obtain ⟨spend', hspend', hdict', r', hr', hspent'⟩ :=
    h.exists_spent hT hsound hcoins (hsound.addTo hb hheight htable) hspend hr hspent
  -- every coin of the item has a record
  have hall : List.Forall₂ (fun spend coin => ∃ record, RecordFor table' b.record
      (additionsDictOf T item.npcResult) spend.coinId record ∧ record.coin = coin ∧ True)
      conds.spends item.removals := by
    refine h.spends.imp fun spend coin hvalid => ?_
    rcases hvalid.source with ⟨hdict, -⟩ | ⟨hdict, row, hrow, rfl, -⟩
    · exact ⟨_, .inl ⟨coin, time, hdict, htime, rfl⟩, rfl, trivial⟩
    · obtain ⟨row', hrow', hcoin⟩ := TxBlock.exists_find_addTo htable hrow
      refine ⟨row'.toRecord, .inr ⟨hdict, ?_⟩, hcoin, trivial⟩
      rw [getCoinRecord_eq, hrow']
      rfl
  obtain ⟨records, hrecords, hremovals, hnames⟩ := exists_records (W.height_lt b hb) hall
  refine h.admission_of_spent hpeak hfresh hroom hrecords hremovals ?_
  obtain ⟨e, he, hname, -⟩ := exists_mem_of_forall₂ hnames hspend'
  refine ⟨e, he, ?_⟩
  rcases (removalRecords_eq_ok hrecords).2 e he with ⟨coin, t, hdict, -⟩ | ⟨-, hrecord⟩
  · rw [hname, hdict'] at hdict
    cases hdict
  · rw [hname, getCoinRecord_eq, hr'] at hrecord
    rw [← Option.some.inj hrecord]
    exact decide_eq_true (Nat.pos_of_ne_zero hspent')

end ItemValid

end Items

end MempoolManager

end Chives
