import Chives.Consensus.ValidatedBlocks

set_option autoImplicit false

/-!
# Conservation of value

What the coins that are not spent are worth, together with all fees, is what was claimed as rewards.

## Main definitions

* `unspentTotal`, `feesPaid`, `rewardsPaid` — the amounts.
* `Conserves` — a block makes and destroys no value.

## Main results

* `unspentTotal_add_fees` — the balance of the chain of the peak, in every reachable state.
-/

namespace Chives

open ExceptRun ParentTree LifeTable Table

/-- What the unspent coins of a table are worth. -/
def unspentTotal (table : CoinTable) : ℕ := aliveSum coinColumns (fun r => r.coin.amount) table

/-- The fees of a block. -/
def feesPaid (b : FullBlock) : ℕ := (b.transactionsInfo.map TransactionsInfo.fees).getD 0

/-- What a block claims as rewards. -/
def rewardsPaid (b : FullBlock) : ℕ := (b.getIncludedRewardCoins.map Coin.amount).sum

/-- On top of its ancestors a block makes and destroys no value, apart from its rewards and fees. -/
def Conserves (T : BodyTools) (constants : ConsensusConstants) (ancestors : List FullBlock) (b : FullBlock) : Prop :=
  ∀ table table', replay T constants ancestors = .ok table → replayBlock T constants ancestors b table = .ok table' →
    unspentTotal table' + feesPaid b = unspentTotal table + rewardsPaid b

/-! ## One block -/

section Body

variable {T : BodyTools} {constants : ConsensusConstants} {ctx : BodyContext} {b : FullBlock} {height timestamp : ℕ}
  {npcResult : Option NPCResult} {forkPoint : Option ℤ} {validateSignature : Bool} {ftb : FoliageTransactionBlock}
  {info : TransactionsInfo}

lemma validateTransactions_fees (h : validateTransactions T constants ctx b ftb info height npcResult forkPoint
      validateSignature = .ok ()) :
    ∃ (expected : List Coin) (effects : BlockEffects) (records : Dict Bytes32 CoinRecord),
      info.rewardClaimsIncorporated.Perm expected.dedup ∧
      effectsOfNpc constants b npcResult = .ok effects ∧
      removalCoinRecords T constants ctx b height ftb.timestamp forkPoint effects.removals
        (additionsDicOf T effects.additions expected.dedup) = .ok records ∧
      (info.fees : ℤ) = feesOf records effects.additions := by
  obtain ⟨expected, effects, records, hexpected, hclaims, heffects, -, hrecords⟩ := validateTransactions_eq_ok h
  refine ⟨expected, effects, records, hclaims, heffects, hrecords, ?_⟩
  unfold validateTransactions at h
  obtain ⟨_, -, h⟩ := bind_eq_ok.mp h
  have hstep : checkRewardStep constants ctx.blocks ftb info height = .ok expected.dedup := by
    rw [checkRewardStep, hexpected, bodyRaising, Except.mapError, ok_bind, checkRewardClaims_eq_none.mpr hclaims]
    rfl
  rw [hstep, ok_bind] at h
  obtain ⟨_, -, h⟩ := bind_eq_ok.mp h
  obtain ⟨_, -, h⟩ := bind_eq_ok.mp h
  rw [heffects, ok_bind] at h
  obtain ⟨_, -, h⟩ := bind_eq_ok.mp h
  rw [hrecords, ok_bind] at h
  obtain ⟨_, -, h⟩ := bind_eq_ok.mp h
  obtain ⟨_, hfees, -⟩ := bind_eq_ok.mp h
  unfold checkFees at hfees
  obtain ⟨_, -, hfees⟩ := bind_eq_ok.mp hfees
  obtain ⟨_, -, hfees⟩ := bind_eq_ok.mp hfees
  obtain ⟨_, -, hfees⟩ := bind_eq_ok.mp hfees
  obtain ⟨_, -, hfees⟩ := bind_eq_ok.mp hfees
  exact not_not.mp (bodyRejectIf_eq_ok.mp hfees)

end Body

section Chain

variable {T : BlockchainTools} {constants : ConsensusConstants} {s : Blockchain} {l : List Entry} {c : Call}
  {rec : BlockRecord}

/-- **An accepted block conserves value.**

**Proof sketch.** The new rows are worth the additions and the rewards. Every removal is found where the check of the
body finds it, among the coins of the ancestors or of the block, so what it takes away is what the fees are computed
from. -/
lemma conserves_of_acceptBlock (hcost : CostMonotone T.runGenerator) (hinv : s.Inv T constants)
    (hc : c.Meets T constants s)
    (h : s.acceptBlock T constants c.block c.preValidationResult c.forkPointWithPeak = .ok (.inr rec))
    (hl : s.Ancestors c.block l) (hheight : c.block.height = l.length) :
    Conserves T.toBodyTools constants (l.map Prod.fst) c.block := by
  intro table table' htable htable'
  obtain ⟨-, -, -, hbody, -⟩ := Blockchain.acceptBlock_eq_inr h
  obtain ⟨peak, hpeak, hbody⟩ := Blockchain.checkBody_eq_none hbody
  rcases validateBlockBody_eq_ok hbody with ⟨-, hno⟩ | ⟨ftb, info, hftb, hinfo, hval⟩
  · obtain ⟨hftb, hinfo, -⟩ := checkNoBody_eq_ok hno
    simp only [replayBlock, hftb] at htable'
    obtain rfl := Except.ok.inj htable'
    simp [feesPaid, rewardsPaid, hinfo, getIncludedRewardCoins_of_none hftb]
  obtain ⟨expected, effects, records, hclaims, heffects, hrecords, hfees⟩ := validateTransactions_fees hval
  have hon := effectsOn_of_effectsOfNpc hcost (fun npc hnpc => hc.npc npc hnpc l hl) heffects
  have hperm := getIncludedRewardCoins_perm hftb hinfo hclaims
  simp only [replayBlock, hftb, hon] at htable'
  obtain ⟨-, hkeyed, hnodup, halive, hpos, rfl⟩ := CoinTable.newBlock_eq_ok htable'
  have hkilled := aliveSum_markDied (f := fun r => r.coin.amount) hkeyed hnodup halive fun hne => (hpos hne).ne'
  have hlookup := lookup_removalCoinRecords hcost hinv hpeak hl hheight
    (fun f hf P hP => hc.fork f hf P l hP hl) htable hrecords
  have hrows := map_key_rowsOfBlock T.H c.block.height ftb.timestamp c.block.getIncludedRewardCoins effects.additions
  set rows := CoinTable.rowsOfBlock T.H c.block.height ftb.timestamp c.block.getIncludedRewardCoins effects.additions
    with hrowsdef
  have hnew : aliveSum coinColumns (fun r => r.coin.amount) (table ++ rows) =
      unspentTotal table + ((effects.additions.map Coin.amount).sum + rewardsPaid c.block) := by
    simp [hrowsdef, aliveSum, unspentTotal, rewardsPaid, CoinTable.rowsOfBlock, CoinTable.recordsOfBlock, coinColumns,
      CoinRow.ofRecord, Function.comp_def]
  have hcoin : ∀ k ∈ effects.removals, (find coinColumns.key (table ++ rows) k).map (fun r => r.coin.amount) =
      (find Prod.fst records.items k).map fun e => e.2.coin.amount := by
    intro k hk
    obtain ⟨r, hr, hkey, -⟩ := halive k hk
    have hnames : k ∈ (effects.additions ++ expected.dedup).map T.H.coinName ↔ k ∈ rows.map coinColumns.key := by
      rw [hrows]
      exact ((hperm.append_left effects.additions).map T.H.coinName).mem_iff.symm
    -- the record that the check found is that of a row with this name
    obtain ⟨record, r', hrecord, hr', hkey', hcoin⟩ : ∃ record r', records.lookup k = some record ∧ r' ∈ table ++ rows ∧
        coinColumns.key r' = k ∧ record.coin = r'.coin := by
      have hfound := hlookup k
      rw [if_pos hk] at hfound
      cases hdic : (additionsDicOf T.toBodyTools effects.additions expected.dedup).lookup k with
      | some x =>
        rw [hdic] at hfound
        obtain ⟨record, hrecord, horigin⟩ := Option.map_eq_some_iff.mp hfound
        obtain ⟨y, hy, heq⟩ := List.mem_map.mp (Dict.mem_of_lookup_ofItems hdic)
        obtain ⟨hname, rfl⟩ := Prod.mk.inj heq
        have hy : y ∈ effects.additions ++ c.block.getIncludedRewardCoins := (hperm.append_left _).mem_iff.mpr hy
        obtain ⟨r', hr', hy⟩ : ∃ r' ∈ rows, r'.coin = y ∧ r'.coinName = T.H.coinName y := by
          simpa [hrowsdef, CoinTable.rowsOfBlock, CoinTable.recordsOfBlock, CoinRow.ofRecord, or_and_right,
            exists_or] using hy
        exact ⟨record, r', hrecord, List.mem_append_right _ hr', hy.2.trans hname,
          (congrArg Prod.fst horigin).trans hy.1.symm⟩
      | none =>
        rw [hdic, Option.map_none, Option.none_or] at hfound
        have hold : r ∈ table := (List.mem_append.mp hr).resolve_right fun hnew =>
          lookup_additionsDicOf_eq_none.mp hdic (hnames.mpr (hkey ▸ List.mem_map_of_mem hnew))
        have hfind : find coinColumns.key table k = some r :=
          (hkeyed.sublist (List.sublist_append_left _ _)).find_eq_some.mpr ⟨hold, hkey⟩
        rw [hfind] at hfound
        obtain ⟨record, hrecord, horigin⟩ := Option.map_eq_some_iff.mp hfound
        exact ⟨record, r, hrecord, hr, hkey, congrArg Prod.fst horigin⟩
    rw [hkeyed.find_eq_some.mpr ⟨hr', hkey'⟩]
    rw [Dict.lookup_eq_find?_items] at hrecord
    obtain ⟨e, he, rfl⟩ := Option.map_eq_some_iff.mp hrecord
    rw [show find Prod.fst records.items k = some e from he]
    exact congrArg (fun x : Coin => some x.amount) hcoin.symm
  have hitems : records.items.Perm (effects.removals.filterMap (find Prod.fst records.items)) := by
    have hall : records.items.filter (fun e => e.1 ∈ effects.removals) = records.items := by
      refine List.filter_eq_self.mpr fun e he => decide_eq_true (by_contra fun hne => ?_)
      have hfound := hlookup e.1
      rw [if_neg hne, Dict.mem_items_iff.mp he] at hfound
      cases hfound
    have hfilter := Keyed.filter_perm_filterMap_find (Dict.nodup_items records) hnodup
    rwa [hall] at hfilter
  rw [List.map_filterMap, List.filterMap_congr hcoin, ← List.map_filterMap,
    ← (hitems.map fun e => e.2.coin.amount).sum_eq, hnew] at hkilled
  have hcast : (records.items.map fun e => (e.2.coin.amount : ℤ)).sum =
      ((records.items.map fun e => e.2.coin.amount).sum : ℕ) := by
    rw [Nat.cast_list_sum, List.map_map]
    rfl
  rw [feesOf, hcast] at hfees
  rw [feesPaid, hinfo]
  show aliveSum coinColumns _ _ + info.fees = _
  omega

/-! ## Chains -/

lemma unspentTotal_replay {T : BodyTools} {table : CoinTable}
    (hall : ∀ a e b, l = a ++ e :: b → Conserves T constants (a.map Prod.fst) e.1)
    (h : replay T constants (l.map Prod.fst) = .ok table) :
    unspentTotal table + (l.map fun e => feesPaid e.1).sum = (l.map fun e => rewardsPaid e.1).sum := by
  induction l using List.reverseRecOn generalizing table with
  | nil =>
    obtain rfl : [] = table := Except.ok.inj h
    rfl
  | append_singleton l e ih =>
    rw [List.map_append] at h
    obtain ⟨t, ht, h⟩ := exists_replay_of_append h
    obtain ⟨t', ht', hlast⟩ := bind_eq_ok.mp h
    obtain rfl : t' = table := Except.ok.inj hlast
    have hold := ih (fun a x b hl => hall a x (b ++ [e]) (by simp [hl])) ht
    have hstep := hall l e [] rfl t t' ht ht'
    simp only [List.map_append, List.sum_append, List.map_cons, List.map_nil, List.sum_singleton]
    omega

lemma Reachable.conserves (hcost : CostMonotone T.runGenerator)
    (hs : Reachable T constants (Call.Meets T constants) s) :
    ∀ e l, s.blockStore.entry e.2.headerHash = some e → Path entryLinks s.blockStore.entry e (l ++ [e]) →
      Conserves T.toBodyTools constants (l.map Prod.fst) e.1 := by
  induction hs with
  | initial files =>
    intro e l he _
    cases he
  | @receive s hs c hc ih =>
    have hinv := hs.inv hcost fun _ _ h => h
    rcases Blockchain.receiveBlock_cases hcost hinv hc with hsame | ⟨rec, l, store, haccept, ha, hadded⟩
    · rwa [hsame]
    · intro x lx hx hlx
      rw [funext hadded.entry] at hx hlx
      rcases ha.entry_cases hx with ⟨-, rfl⟩ | hold
      · rw [(List.append_inj' (hlx.unique (ha.path_self.mono fun _ _ => ha.entry_mono)) rfl).1]
        exact conserves_of_acceptBlock hcost hinv hc haccept ha.ancestors ha.height
      · exact ih x lx hold (ha.path_old hold hlx)

/-- **Value is conserved.** In every state that calls of `receive_block` reach, with any forks and reorganisations, the
unspent coins and the fees of the blocks on the chain of the peak are together worth what these blocks claim as
rewards: no transaction makes or destroys value. -/
theorem unspentTotal_add_fees (hcost : CostMonotone T.runGenerator)
    (hs : Reachable T constants (Call.Meets T constants) s) :
    ∃ P, (s.PeakChain P ∨ s.getPeak = .ok none ∧ P = []) ∧
      unspentTotal s.coinStore + (P.map fun e => feesPaid e.1).sum = (P.map fun e => rewardsPaid e.1).sum := by
  have hinv := hs.inv hcost fun _ _ h => h
  rcases hinv.peak with hempty | ⟨tip, P, hm, hreplay⟩
  · refine ⟨[], .inr ⟨hempty.getPeak_eq, rfl⟩, ?_⟩
    rw [hempty.coinStore]
    rfl
  · refine ⟨P, .inl ⟨tip, hm.getPeak_eq, hm.tip_mem, hm.path⟩, unspentTotal_replay (fun a e b hP => ?_) hreplay⟩
    exact hs.conserves hcost e a (hm.view.mem_of_path hm.path hm.tip_mem (by rw [hP]; simp)) (hm.path.of_append hP)

end Chain

theorem unspentTotal_add_fees_genesis : ∃ P, (genesisState.PeakChain P ∨ genesisState.getPeak = .ok none ∧ P = []) ∧
    unspentTotal genesisState.coinStore + (P.map fun e => feesPaid e.1).sum = (P.map fun e => rewardsPaid e.1).sum :=
  unspentTotal_add_fees (fun _ _ _ _ _ _ => rfl) reachable_genesisState

end Chives
