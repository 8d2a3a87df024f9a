import Chives.Consensus.BlockchainStep

set_option autoImplicit false

/-!
# The new peak

`_reconsider_peak` on a state that satisfies the invariant: the chain of a block that is heavier than
the peak is applied from the fork on, and the coins are then those of that chain.

## Main definitions

* `NpcMatches` — the given result of a block's generator is that of running it on its own chain.

## Main results

* `Addition.forkHeightWithPeak_eq_ok` — the fork with the chain of the peak.
* `Addition.setHeavierPeak_eq_ok` — the coins, the flags and the records of a new peak.
* `Addition.setGenesis_eq_ok` — the same for the first genesis block.
-/

namespace Chives

open ExceptRun ParentTree BlockHeightMap

/-- The given result of a block's generator is that of running it on its own chain. Without a generator
there is no result. -/
def NpcMatches (T : BodyTools) (constants : ConsensusConstants) (ancestors : List FullBlock)
    (b : FullBlock) (npcResult : Option NPCResult) : Prop :=
  (b.transactionsGenerator = none ∧ (b.foliageTransactionBlock.isSome → npcResult = none)) ∨
    ∃ g, ownGenerator ancestors b = some g ∧
      npcResult = some (T.runGenerator g constants.MAX_BLOCK_COST_CLVM b.height)

/-- What a new peak changes: `c` is the part of the chain of the new block that is on the chain of the
peak before, and `b` is the rest. The coins are those of the new chain, its records above the fork are
returned, and the chain is marked in the database. -/
structure Adopted (T : BlockchainTools) (constants : ConsensusConstants) (store : BlockStore)
    (e : Entry) (l c b : List Entry) (self' : Blockchain) (records : List BlockRecord)
    (summary : Option StateChangeSummary) : Prop where
  eq : l ++ [e] = c ++ b
  records_eq : records = b.map Prod.snd
  summary_eq : ∃ change, summary = some change ∧
    change.forkHeight = ((c.length : ℤ) - 1).toNat
  blockStore : self'.blockStore = markChain T.dbVersion store ((c.length : ℤ) - 1)
    (b.map fun x => x.2.headerHash) e.2.headerHash
  coinStore : replay T.toBodyTools constants ((l ++ [e]).map Prod.fst) = .ok self'.coinStore

namespace Addition

variable {T : BlockchainTools} {constants : ConsensusConstants} {s : Blockchain} {e : Entry} {l : List Entry}
  {store : BlockStore} {tip : Entry} {P : List Entry} {forkPoint : Option ℤ} {npcResult : Option NPCResult}
  {x : Entry}

lemma findsNpc_old (ha : Addition T constants s e l store) (hm : MainChain T constants s s.blockStore.entry tip P)
    {lx : List Entry} (hx : s.blockStore.entry x.2.headerHash = some x)
    (hlx : Path entryLinks s.blockStore.entry x (lx ++ [x])) (htx : x.1.isTransactionBlock = true) :
    FindsNpc T constants { s with blockStore := store } (lx.map Prod.fst) x.1 none := by
  cases hgen : x.1.transactionsGenerator with
  | none => exact findsNpc_of_none hgen
  | some program =>
    obtain ⟨g, -, hown, -⟩ := (ha.inv.accepted hx hlx).generator program hgen
    refine findsNpc_of_npc htx hown ?_ rfl
    unfold Blockchain.npcResultOf
    rw [(ha.mainChain_old hm).getBlockGenerator_of_path hx hlx hown]
    rfl

lemma findsNpc_new (hnpc : NpcMatches T.toBodyTools constants (l.map Prod.fst) e.1 npcResult)
    (htx : e.1.isTransactionBlock = true) :
    FindsNpc T constants { s with blockStore := store } (l.map Prod.fst) e.1 npcResult := by
  rcases hnpc with ⟨hgen, -⟩ | ⟨g, hown, hnpc⟩
  · exact findsNpc_of_none hgen
  · refine findsNpc_of_npc htx hown ?_ rfl
    rw [hnpc]
    rfl

variable {c : List Entry}

section

variable (ha : Addition T constants s e l store)

include ha

lemma notMem_peakChain (hm : MainChain T constants s s.blockStore.entry tip P) (hx : x ∈ P) :
    x.2.headerHash ≠ e.2.headerHash := by
  intro heq
  have := hm.view.mem_of_path hm.path hm.tip_mem hx
  rw [heq, ha.new] at this
  cases this

lemma ancestors_eq_peakChain (hm : MainChain T constants s s.blockStore.entry tip P) (h0 : e.1.height ≠ 0)
    (hprev : e.2.prevHash = tip.2.headerHash) : l = P := by
  rcases ha.ancestors with ⟨h, -⟩ | ⟨-, p, hp, hl⟩
  · exact absurd h h0
  · rw [← ha.madeOf.prevHash, hprev, hm.tip_mem] at hp
    rw [← Option.some.inj hp] at hl
    exact hl.unique hm.path

/-- The fork between the new block and the chain of the peak, as it is found, given or read off. -/
lemma forkHeightWithPeak_eq_ok (hm : MainChain T constants s s.blockStore.entry tip P) (h0 : e.1.height ≠ 0)
    (hfork : ∀ f, forkPoint = some f → f = forkHeight P l) :
    ({ s with blockStore := store } : Blockchain).forkHeightWithPeak e.2 tip.2 forkPoint =
      .ok (forkHeight P (l ++ [e])) := by
  have hnot : e ∉ P := fun hmem => ha.notMem_peakChain hm hmem rfl
  unfold Blockchain.forkHeightWithPeak
  by_cases hprev : e.2.prevHash = tip.2.headerHash
  · rw [if_pos hprev, ha.ancestors_eq_peakChain hm h0 hprev, forkHeight]
    have hlen : P.length = tip.2.height + 1 := hm.path.length_eq
    have hcommon : commonPrefix P (P ++ [e]) = P := by
      rw [commonPrefix_concat_of_notMem hnot, commonPrefix_self]
    rw [hcommon, hlen]
    simp
  · rw [if_neg hprev]
    cases forkPoint with
    | some f =>
      show Except.ok f = _
      rw [hfork f rfl, forkHeight, forkHeight, commonPrefix_concat_of_notMem hnot]
    | none =>
      show findForkPointInChain s.blockRecords e.2 tip.2 = _
      rw [MainChain.findForkPoint_of_paths (T := T) ha.inv.view ha.path_self hm.path, forkHeight_comm]
      intro x hx y hy hxy
      have hymem := hm.view.mem_of_path hm.path hm.tip_mem hy
      rcases List.mem_append.mp hx with hx | hx
      · rcases ha.ancestors with ⟨-, rfl⟩ | ⟨-, p, hp, hl⟩
        · cases hx
        · have hpmem : s.blockStore.entry p.2.headerHash = some p := by
            rw [show p.2.headerHash = e.1.prevHeaderHash from ha.inv.view.rooted.hash_eq hp]
            exact hp
          exact eq_of_stored (L := entryLinks) (ha.inv.view.mem_of_path hl hpmem hx) hymem hxy
      · rw [List.mem_singleton.mp hx] at hxy
        exact absurd hxy.symm (ha.notMem_peakChain hm hy)

lemma height_lt_storeFuel (hm : MainChain T constants s s.blockStore.entry tip P) : e.2.height < storeFuel store := by
  have hfuel : storeFuel store = storeFuel s.blockStore + 1 := by
    obtain ⟨ses, -, rfl⟩ := ha.exists_sesColumn
    simp [storeFuel]
  rw [hfuel, ha.madeOf.height, ha.height]
  rcases ha.ancestors with ⟨-, rfl⟩ | ⟨-, p, hp, hl⟩
  · simp
  · have hpmem : s.blockStore.entry p.2.headerHash = some p := by
      rw [show p.2.headerHash = e.1.prevHeaderHash from ha.inv.view.rooted.hash_eq hp]
      exact hp
    have := hm.height_lt_storeFuel hl hpmem
    have hlen : l.length = p.2.height + 1 := hl.length_eq
    omega

lemma findsNpc_above (hm : MainChain T constants s s.blockStore.entry tip P)
    (hnpc : NpcMatches T.toBodyTools constants (l.map Prod.fst) e.1 npcResult) {b : List Entry}
    (heq : l ++ [e] = c ++ b) {l₁ l₂ : List Entry} (hb : b = l₁ ++ x :: l₂) (htx : x.1.isTransactionBlock = true) :
    FindsNpc T constants { s with blockStore := store } ((c ++ l₁).map Prod.fst) x.1
      (if x.2.headerHash = e.2.headerHash then npcResult else none) := by
  have hpath : Path entryLinks store.entry e (l ++ [e]) :=
    ha.path_self.mono fun _ _ => ha.entry_mono
  have hlx : Path entryLinks store.entry x ((c ++ l₁) ++ [x]) :=
    hpath.of_append (b := l₂) (by rw [heq, hb]; simp)
  have hmem : x ∈ l ++ [e] := by rw [heq, hb]; simp
  have hx : store.entry x.2.headerHash = some x :=
    hpath.stored_of_stored (fun hm => ha.tree.hash_eq hm) ha.entry_self x hmem
  rcases ha.entry_cases hx with ⟨-, rfl⟩ | hold
  · obtain rfl := (List.append_inj' (hlx.unique hpath) rfl).1
    rw [if_pos rfl]
    exact findsNpc_new hnpc htx
  · have hne : x.2.headerHash ≠ e.2.headerHash := by
      intro hhash
      rw [hhash, ha.new] at hold
      cases hold
    rw [if_neg hne]
    exact ha.findsNpc_old hm hold (ha.path_old hold hlx) htx

lemma replay_of_applyBlocks (hm : MainChain T constants s s.blockStore.entry tip P)
    (hnpc : NpcMatches T.toBodyTools constants (l.map Prod.fst) e.1 npcResult) {b : List Entry}
    (heq : l ++ [e] = c ++ b) {acc acc' : Blockchain.Applied}
    (hacc : replay T.toBodyTools constants (c.map Prod.fst) = .ok acc.coinStore)
    (h : ({ s with blockStore := store } : Blockchain).applyBlocks T constants e.2.headerHash npcResult b acc = .ok acc') :
    replay T.toBodyTools constants ((l ++ [e]).map Prod.fst) = .ok acc'.coinStore := by
  rw [heq, List.map_append, replay_append, hacc, ok_bind]
  refine applyBlocks_coinStore (fun l₁ x l₂ hb htx => ?_) h
  exact (ha.findsNpc_above hm hnpc heq hb htx).findsEffects

end

/-- The coin store at the fork between the chains `P` and `l ++ [e]`, which have `c` in common, and the
records that the rollback to it gives. Where the new block is a child of the peak, there is none. -/
def RolledBack (H : Hashes) (s : Blockchain) (P c : List Entry) (rolled : CoinTable × Dict Bytes32 CoinRecord) :
    Prop :=
  (c = P ∧ rolled = (s.coinStore, ∅)) ∨ rolled = s.coinStore.rollbackToBlock H ((c.length : ℤ) - 1)

lemma replay_of_rolledBack (hm : MainChain T constants s s.blockStore.entry tip P)
    (hreplay : replay T.toBodyTools constants (P.map Prod.fst) = .ok s.coinStore) {a : List Entry} (hP : P = c ++ a)
    {rolled : CoinTable × Dict Bytes32 CoinRecord} (h : RolledBack T.H s P c rolled) :
    replay T.toBodyTools constants (c.map Prod.fst) = .ok rolled.1 := by
  rcases h with ⟨rfl, rfl⟩ | rfl
  · exact hreplay
  · have hheights : HeightsFrom 0 (c.map Prod.fst ++ a.map Prod.fst) := by
      rw [← List.map_append, ← hP]
      exact hm.view.heightsFrom_zero hm.path hm.tip_mem
    rw [hP, List.map_append] at hreplay
    obtain ⟨t, ht, hroll⟩ := rollback_replay hreplay hheights
    rw [ht, ← hroll, List.length_map]
    rfl

variable {self' : Blockchain} {records : List BlockRecord} {summary : Option StateChangeSummary}

section

variable (ha : Addition T constants s e l store)

include ha

/-- `_reconsider_peak` for a block that is heavier than the peak, up to the application of the blocks: the
coin store is rolled back to the fork, the blocks above it are applied, and the chain is marked in the
database. -/
lemma setHeavierPeak_run (hm : MainChain T constants s s.blockStore.entry tip P) (h0 : e.1.height ≠ 0)
    (hfork : ∀ f, forkPoint = some f → f = forkHeight P l) (npcResult : Option NPCResult) :
    ∃ c a b rolled, P = c ++ a ∧ l ++ [e] = c ++ b ∧ RolledBack T.H s P c rolled ∧
      (c.length : ℤ) - 1 = forkHeight P (l ++ [e]) ∧
      ({ s with blockStore := store } : Blockchain).setHeavierPeak T constants e.2 tip.2 forkPoint
        npcResult =
        (({ s with blockStore := store } : Blockchain).applyBlocks T constants e.2.headerHash npcResult b
          ⟨rolled.1, [], []⟩ >>= fun applied => .ok ({ s with
            coinStore := applied.coinStore
            blockStore := markChain T.dbVersion store ((c.length : ℤ) - 1)
              (b.map fun x => x.2.headerHash) e.2.headerHash }, b.map Prod.snd,
          some ⟨e.2, ((c.length : ℤ) - 1).toNat, rolled.2.items.map Prod.snd, applied.npcResults,
            applied.rewardCoins⟩)) := by
  obtain ⟨a, b, hP, hl, -⟩ := exists_eq_commonPrefix_append P (l ++ [e])
  generalize hc : commonPrefix P (l ++ [e]) = c at hP hl
  have hforkHeight : forkHeight P (l ++ [e]) = (c.length : ℤ) - 1 := by rw [forkHeight, hc]
  have hrolled : ∀ rolled, rolled = (if e.2.prevHash ≠ tip.2.headerHash then
      s.coinStore.rollbackToBlock T.H ((c.length : ℤ) - 1) else (s.coinStore, ∅)) →
      RolledBack T.H s P c rolled := by
    rintro rolled rfl
    by_cases hprev : e.2.prevHash ≠ tip.2.headerHash
    · rw [if_pos hprev]
      exact .inr rfl
    · rw [if_neg hprev]
      have hnot : e ∉ P := fun hmem => ha.notMem_peakChain hm hmem rfl
      refine .inl ⟨?_, rfl⟩
      rw [← hc, ha.ancestors_eq_peakChain hm h0 (not_not.mp hprev),
        commonPrefix_concat_of_notMem hnot, commonPrefix_self]
  have hwalk : ({ s with blockStore := store } : Blockchain).blocksToAddFrom ((c.length : ℤ) - 1)
      (storeFuel store) e.2.headerHash = .ok b.reverse := by
    refine blocksToAddFrom_eq_ok (x := e) ha.tree ?_
      (ha.path_self.mono fun _ _ => ha.entry_mono) ha.entry_self hl ?_ (ha.height_lt_storeFuel hm)
    · intro h y hy
      rcases ha.entry_cases hy with ⟨-, rfl⟩ | hy
      · exact ha.madeOf.height
      · exact (ha.inv.view.madeOf hy).height
    · intro y hy
      have hyP : y ∈ P := by
        rw [hP]
        exact List.mem_append_left _ (List.mem_of_getLast? hy)
      rw [(ha.mainChain_old hm).heightToHash_eq]
      exact congrArg (Option.map fun e : Entry => e.2.headerHash) (hm.path.getElem?_height hyP)
  refine ⟨c, a, b, _, hP, hl, hrolled _ rfl, hforkHeight.symm, ?_⟩
  simp only [Blockchain.setHeavierPeak, ha.forkHeightWithPeak_eq_ok hm h0 hfork, ok_bind,
    hforkHeight, hwalk, List.reverse_reverse, markChain, List.map_map]
  rfl

/-- The steps of `_reconsider_peak` for a block that is heavier than the peak. -/
lemma setHeavierPeak_steps (hm : MainChain T constants s s.blockStore.entry tip P) (h0 : e.1.height ≠ 0)
    (hfork : ∀ f, forkPoint = some f → f = forkHeight P l)
    (h : ({ s with blockStore := store } : Blockchain).setHeavierPeak T constants e.2 tip.2 forkPoint npcResult = .ok (self', records, summary)) :
    ∃ c a b rolled applied, P = c ++ a ∧ l ++ [e] = c ++ b ∧ RolledBack T.H s P c rolled ∧
      (c.length : ℤ) - 1 = forkHeight P (l ++ [e]) ∧
      ({ s with blockStore := store } : Blockchain).applyBlocks T constants e.2.headerHash npcResult b
        ⟨rolled.1, [], []⟩ = .ok applied ∧
      self' = { s with
        coinStore := applied.coinStore
        blockStore := markChain T.dbVersion store ((c.length : ℤ) - 1)
          (b.map fun x => x.2.headerHash) e.2.headerHash } ∧
      records = b.map Prod.snd ∧
      summary = some ⟨e.2, ((c.length : ℤ) - 1).toNat, rolled.2.items.map Prod.snd, applied.npcResults,
        applied.rewardCoins⟩ := by
  obtain ⟨c, a, b, rolled, hP, hl, hrolled, hforkHeight, hrun⟩ := ha.setHeavierPeak_run hm h0 hfork _
  rw [hrun] at h
  obtain ⟨applied, happlied, h⟩ := bind_eq_ok.mp h
  obtain ⟨rfl, hrest⟩ := Prod.mk.inj (Except.ok.inj h)
  obtain ⟨rfl, rfl⟩ := Prod.mk.inj hrest
  exact ⟨c, a, b, rolled, applied, hP, hl, hrolled, hforkHeight, happlied, rfl, rfl, rfl⟩

/-- `_reconsider_peak` for a block that is heavier than the peak. -/
lemma setHeavierPeak_eq_ok (hm : MainChain T constants s s.blockStore.entry tip P) (h0 : e.1.height ≠ 0)
    (hreplay : replay T.toBodyTools constants (P.map Prod.fst) = .ok s.coinStore)
    (hnpc : NpcMatches T.toBodyTools constants (l.map Prod.fst) e.1 npcResult)
    (hfork : ∀ f, forkPoint = some f → f = forkHeight P l)
    (h : ({ s with blockStore := store } : Blockchain).setHeavierPeak T constants e.2 tip.2 forkPoint npcResult = .ok (self', records, summary)) :
    ∃ c a b, P = c ++ a ∧ Adopted T constants store e l c b self' records summary := by
  obtain ⟨c, a, b, rolled, applied, hP, hl, hrolled, -, happlied, rfl, rfl, rfl⟩ :=
    ha.setHeavierPeak_steps hm h0 hfork h
  refine ⟨c, a, b, hP, hl, rfl, ⟨_, rfl, rfl⟩, rfl, ?_⟩
  exact ha.replay_of_applyBlocks hm hnpc hl (replay_of_rolledBack hm hreplay hP hrolled) happlied

end

lemma coinsOfGenesis_eq (hempty : s.coinStore = [])
    (hnpc : NpcMatches T.toBodyTools constants [] e.1 npcResult) :
    ({ s with blockStore := store } : Blockchain).coinsOfGenesis T e.1 npcResult =
      replay T.toBodyTools constants [e.1] := by
  have hrun : replay T.toBodyTools constants [e.1] = replayBlock T.toBodyTools constants [] e.1 [] := by
    simp only [replay, replayFrom]
    cases replayBlock T.toBodyTools constants [] e.1 [] with
    | error _ => rfl
    | ok _ => rfl
  rw [hrun, replayBlock]
  simp only [Blockchain.coinsOfGenesis, hempty]
  cases hftb : e.1.foliageTransactionBlock with
  | none => rfl
  | some ftb =>
    have heffects : txRemovalsAndAdditions (npcResult.bind NPCResult.conds) =
        effectsOn T.toBodyTools constants [] e.1 := by
      rcases hnpc with ⟨hgen, hnone⟩ | ⟨g, hown, hnpc⟩
      · have hown : ownGenerator [] e.1 = none := by simp [ownGenerator, hgen]
        rw [hnone (by simp [hftb]), effectsOn, hown]
        rfl
      · rw [hnpc, effectsOn, hown]
        rfl
    simp only [heffects]

/-- `_reconsider_peak` for the first genesis block. -/
lemma setGenesis_eq_ok (ha : Addition T constants s e l store) (hs : s.IsEmpty) (h0 : e.1.height = 0)
    (hnpc : NpcMatches T.toBodyTools constants (l.map Prod.fst) e.1 npcResult)
    (h : ({ s with blockStore := store } : Blockchain).setGenesis T e.2 npcResult = .ok (self', records, summary)) :
    Adopted T constants store e l [] [e] self' records summary := by
  obtain rfl : l = [] := List.length_eq_zero_iff.mp (by rw [← ha.height, h0])
  simp only [Blockchain.setGenesis, BlockStore.getFullBlock_eq, ha.entry_self, Option.map_some,
    pySome, ok_bind] at h
  obtain ⟨coins, hcoins, h⟩ := bind_eq_ok.mp h
  obtain ⟨rfl, hrest⟩ := Prod.mk.inj (Except.ok.inj h)
  obtain ⟨rfl, rfl⟩ := Prod.mk.inj hrest
  rw [coinsOfGenesis_eq hs.coinStore hnpc] at hcoins
  refine ⟨rfl, rfl, ⟨_, rfl, rfl⟩, ?_, hcoins⟩
  -- no block is marked, so there is nothing to roll back
  have hroll : store.rollback T.dbVersion ((([] : List Entry).length : ℤ) - 1) = store := by
    obtain ⟨ses, -, rfl⟩ := ha.exists_sesColumn
    cases T.dbVersion <;> simp [BlockStore.rollback, hs.fullBlocks]
  rw [markChain, hroll]
  rfl

end Addition

end Chives
