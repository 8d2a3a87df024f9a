import Chives.FullNode.MempoolFollow

set_option autoImplicit false

/-!
# The mempool of a node

A node adds bundles and moves from one chain to another. The coin store always has the coin set of the last
transaction block of its chain. The manager does not follow a peak that is no transaction block, so that after a
reorganisation its own peak can be on another chain.

## Main definitions

* `NodeState`, `NodeState.Reachable` — a node, and the states that it reaches.
* `NodeState.AtPeak` — the coin store has the coin set of the manager's peak.
* `NodeState.FastPathAgrees` — the two branches of `new_peak` leave the same items.

## Main results

* `NodeState.Reachable.inv` — if bundles are added only while the coin store has the coin set of the
  manager's peak, then every item of the mempool is valid there.
* `NodeState.fastPath_agrees` — under the same condition, the two branches of `new_peak` agree.
-/

namespace Chives

open ExceptRun StateRun Table MempoolManager

/-- A node, as far as its mempool depends on it: the last transaction block of its chain, with the coin set, and
the manager. -/
structure NodeState (K : Type) [LinearOrder K] where
  tip : TxBlock
  coinStore : CoinTable
  mgr : MempoolManager K

section Manager

variable {K : Type} [LinearOrder K] {T : MempoolTools K} {constants : MempoolConstants} {H : Hashes} {W : CoinWorld H}
  {p b : TxBlock} {table table' : CoinTable} {mgr : MempoolManager K} {newSpend : SpendBundle} {npcResult : NPCResult}

namespace MempoolManager

/-! ## One bundle -/

/-- Adding a bundle leaves the peak, and the items afterwards were there before or are admitted now. -/
lemma after_addSpendbundle (hinj : Set.InjOn T.coinName W.coins) (hbuffer : 0 < constants.MEMPOOL_BLOCK_BUFFER)
    (hstore : table.Named T.coinName) (hinv : ManagerInv T constants W.coins mgr)
    (hcoins : ∀ c ∈ additionsForNpc npcResult, c ∈ W.coins) (spendName : Bytes32)
    (program : Option SerializedProgram) :
    (after (addSpendbundle T constants table newSpend npcResult spendName program mgr)).peak = mgr.peak ∧
      ∀ i ∈ (after (addSpendbundle T constants table newSpend npcResult spendName program
        mgr)).mempool.spends.values, i ∈ mgr.mempool.spends.values ∨
          ∃ peak conds records replaced, Admitted T constants table mgr newSpend npcResult spendName program
            peak conds records i replaced := by
  have hget : addSpendbundle T constants table newSpend npcResult spendName program mgr = _ :=
    bind_ok (get_apply mgr)
  rw [hget]
  cases hadm : admission T constants table mgr newSpend npcResult spendName program with
  | error stop =>
    cases stop with
    | raised e => exact ⟨rfl, fun i hi => .inl hi⟩
    | failed code => exact ⟨rfl, fun i hi => .inl hi⟩
    | already cost => exact ⟨rfl, fun i hi => .inl hi⟩
    | pending item code =>
      -- only the cache of pending bundles changes
      have hzoom : ∀ r : EStateM.Result PyError PendingTxCache Unit,
          PendingTxCache.add item mgr.potentialCache = r → ∃ c, after ((do
            zoom potentialCache (fun c self => { self with potentialCache := c }) .raised
              (PendingTxCache.add item)
            return (some item.cost, .pending, some code) :
              EStateM MempoolFailure (MempoolManager K)
                (Option ℕ × MempoolInclusionStatus × Option ℕ)) mgr) = { mgr with potentialCache := c } := by
        intro r hr
        cases r with
        | ok u c =>
          refine ⟨c, ?_⟩
          rw [bind_ok (zoom_ok potentialCache mgr hr _ _)]
          rfl
        | error e c =>
          refine ⟨c, ?_⟩
          have hzoom : zoom potentialCache (fun c self => { self with potentialCache := c })
              MempoolFailure.raised (PendingTxCache.add item) mgr =
                .error (.raised e) { mgr with potentialCache := c } := by
            rw [zoom, hr]
          rw [bind_error hzoom]
          rfl
      obtain ⟨c, hc⟩ := hzoom _ rfl
      simp only
      rw [hc]
      exact ⟨rfl, fun i hi => .inl hi⟩
  | ok result =>
    obtain ⟨item, replaced⟩ := result
    obtain ⟨peak, conds, records, hadmitted⟩ := admission_eq_ok.mp hadm
    obtain ⟨m, heq, -, -, -, hold⟩ := replaceItems_spec hinj hinv.pool
      (by rw [hinv.size]; exact maxCost_le hbuffer) hstore hcoins hadmitted
    simp only
    rw [bind_ok heq]
    refine ⟨rfl, fun i hi => ?_⟩
    rcases hold i hi with rfl | hi
    · exact .inr ⟨peak, conds, records, replaced, hadmitted⟩
    · exact .inl hi

/-- What holds after a method, whether it returns or raises. -/
def Preserves {α : Type} (I : MempoolManager K → Prop) (x : EStateM MempoolFailure (MempoolManager K) α) :
    Prop :=
  Triple I x (fun _ => I) fun _ => I

lemma preserves_of_after {α : Type} {I : MempoolManager K → Prop}
    {x : EStateM MempoolFailure (MempoolManager K) α} (h : ∀ s, I s → I (after (x s))) : Preserves I x := by
  intro s hs
  have := h s hs
  cases hx : x s with
  | ok a s' =>
    rw [hx] at this
    exact this
  | error e s' =>
    rw [hx] at this
    exact this

section Valid

variable (hT : T.coinName = H.coinName) (hbuffer : 0 < constants.MEMPOOL_BLOCK_BUFFER)
  (hb : W.CoinSetAt b table)

include hT hbuffer hb

lemma preserves_addSpendbundle (newSpend : SpendBundle) (hcoins : ∀ c ∈ additionsForNpc npcResult, c ∈ W.coins)
    (spendName : Bytes32) (program : Option SerializedProgram) :
    Preserves (AtBlock T constants W b table)
      (addSpendbundle T constants table newSpend npcResult spendName program) := by
  refine preserves_of_after fun s hs => ?_
  have hinj : Set.InjOn T.coinName W.coins := by
    rw [hT]
    exact W.coinName_injOn
  have hstore : table.Named T.coinName := by
    rw [hT]
    exact hb.sound.named
  obtain ⟨hpeak, hmem⟩ := after_addSpendbundle hinj hbuffer hstore hs.inv hcoins spendName program
  refine ⟨((keeps_addSpendbundle hinj hbuffer hstore hcoins spendName program).after_run hs.inv).1,
    hpeak.trans hs.peak, fun i hi => ?_⟩
  rcases hmem i hi with hi | ⟨peak, conds, records, replaced, hadmitted⟩
  · exact hs.valid i hi
  · obtain rfl := Option.some.inj (hadmitted.peak_eq.symm.trans hs.peak)
    exact ⟨conds, hadmitted.itemValid hs.inv.pool.toConsistent hb.timestamp_eq⟩

omit hT hbuffer hb in
lemma preserves_removeSeen (bundleHash : Bytes32) :
    Preserves (AtBlock T constants W b table) (removeSeen bundleHash) :=
  .modify fun _ hs => ⟨⟨hs.inv.pool, hs.inv.size, hs.inv.pending⟩, hs.peak, hs.valid⟩

lemma preserves_forEach_readdItem {items : List MempoolItem}
    (hcoins : ∀ i ∈ items, ∀ c ∈ additionsForNpc i.npcResult, c ∈ W.coins) :
    Preserves (AtBlock T constants W b table) (forEach items (readdItem T constants table)) := by
  refine Triple.forEach fun item hitem => ?_
  refine .bind (preserves_addSpendbundle hT hbuffer hb _ (hcoins item hitem) _ _) fun result => ?_
  split
  · exact preserves_removeSeen _
  · exact .pure fun s hs => hs

lemma preserves_retryPending {items : List MempoolItem}
    (hcoins : ∀ i ∈ items, ∀ c ∈ additionsForNpc i.npcResult, c ∈ W.coins) :
    Preserves (AtBlock T constants W b table) (retryPending T constants table items) := by
  induction items with
  | nil => exact .pure fun s hs => hs
  | cons item items ih =>
    refine .bind (preserves_addSpendbundle hT hbuffer hb _ (hcoins item List.mem_cons_self) _ _) fun _ => ?_
    exact .bind (ih fun i hi => hcoins i (List.mem_cons_of_mem _ hi)) fun _ => .pure fun s hs => hs

lemma preserves_readdItems :
    Triple (fun s => ManagerInv T constants W.coins s ∧ s.peak = some b.record)
      (readdItems T constants table) (fun _ => AtBlock T constants W b table)
      fun _ => AtBlock T constants W b table := by
  refine .bind (.get (Q := fun mgr s => (ManagerInv T constants W.coins s ∧ s.peak = some b.record) ∧
    ManagerInv T constants W.coins mgr) fun s hs => ⟨hs, hs.1⟩) fun mgr => .of_and fun hmgr => ?_
  refine .bind (.modify (Q := fun _ => AtBlock T constants W b table)
    fun s hs => ⟨⟨Mempool.poolInv_new _, rfl, hs.1.pending⟩, hs.2, fun i hi => nomatch hi⟩) fun _ => ?_
  refine preserves_forEach_readdItem hT hbuffer hb fun item hitem c hc => ?_
  have hok := hmgr.pool.items item hitem
  exact hok.coins c (by rw [hok.additions_eq]; exact hc)

variable {lastNpcResult : Option NPCResult}

/-- The mempool for a new peak, of which the last result of a generator covers the spends, has valid items. -/
lemma updateMempool_spec (hmgr : ManagerInv T constants W.coins mgr)
    (hvalid : ∀ P, mgr.peak = some P → ∃ p t, W.CoinSetAt p t ∧ AtBlock T constants W p t mgr)
    (hnpc : ∀ npc, lastNpcResult = some npc → b.removals ⊆ spentNames npc) :
    Triple (fun s => s = { mgr with peak := some b.record })
      (updateMempool T constants table (mgr.useOptimization b.record) lastNpcResult)
      (fun _ => AtBlock T constants W b table) fun _ => AtBlock T constants W b table := by
  have hslow : Triple (fun s => s = { mgr with peak := some b.record }) (readdItems T constants table)
      (fun _ => AtBlock T constants W b table) fun _ => AtBlock T constants W b table := by
    rintro s rfl
    exact preserves_readdItems hT hbuffer hb _ ⟨⟨hmgr.pool, hmgr.size, hmgr.pending⟩, rfl⟩
  cases hopt : mgr.useOptimization b.record with
  | false => exact hslow
  | true =>
    cases lastNpcResult with
    | none => exact hslow
    | some npc =>
      refine .of_run ?_
      rintro s rfl
      -- the new peak is the block after the old one
      obtain ⟨P, hP, hprev⟩ : ∃ P, mgr.peak = some P ∧
          b.record.prevTransactionBlockHash = some P.headerHash := by
        unfold useOptimization at hopt
        cases hpeak : mgr.peak with
        | none =>
          rw [hpeak] at hopt
          cases hopt
        | some P =>
          rw [hpeak] at hopt
          exact ⟨P, rfl, of_decide_eq_true hopt⟩
      obtain ⟨p, t, hp, hat⟩ := hvalid P hP
      obtain rfl : P = p.record := Option.some.inj (hP.symm.trans hat.peak)
      obtain ⟨hpb, htable⟩ := hb.follows hp hprev
      obtain ⟨s, heq, hinv, hpeak, hmem⟩ := @kickSpends_spec _ _ T constants W.coins
        { mgr with peak := some b.record } ⟨hmgr.pool, hmgr.size, hmgr.pending⟩ npc
      refine ⟨(), s, heq, hinv, hpeak, fun i hi => ?_⟩
      obtain ⟨hi, hfree⟩ := (hmem i).mp hi
      obtain ⟨conds, hitem⟩ := hat.valid i hi
      have hstore : t.Named T.coinName := by
        rw [hT]
        exact hp.sound.named
      refine ⟨conds, hitem.extend htable hpb.height.le hpb.timestamp.le fun spend hspend hspent => ?_⟩
      refine hfree _ (hnpc npc rfl hspent) ?_
      rw [hitem.removalNames_eq hstore]
      exact List.mem_map_of_mem hspend

/-- **Taking over a peak** gives valid items. -/
theorem followPeak_spec (hmgr : ManagerInv T constants W.coins mgr)
    (hvalid : ∀ P, mgr.peak = some P → ∃ p t, W.CoinSetAt p t ∧ AtBlock T constants W p t mgr)
    (hnpc : ∀ npc, lastNpcResult = some npc → b.removals ⊆ spentNames npc) :
    Triple (fun s => s = mgr) (followPeak T constants table b.record lastNpcResult)
      (fun _ => AtBlock T constants W b table) fun _ => AtBlock T constants W b table := by
  refine .bind (.get (Q := fun mgr' s => s = mgr ∧ mgr' = mgr) fun s hs => ⟨hs, hs⟩) fun mgr' =>
    .of_and fun hmgr' => ?_
  subst hmgr'
  refine .bind (.modify (Q := fun _ s => s = { mgr' with peak := some b.record })
    fun s hs => by rw [hs]) fun _ => ?_
  refine .bind (updateMempool_spec hT hbuffer hb hmgr hvalid hnpc) fun _ => ?_
  refine .bind (.get (Q := fun mgr s => AtBlock T constants W b table s ∧ AtBlock T constants W b table mgr)
    fun s hs => ⟨hs, hs⟩) fun mgr => .of_and fun hat => ?_
  refine .bind (.modify (Q := fun _ => AtBlock T constants W b table) fun s hs =>
    ⟨⟨hs.inv.pool, hs.inv.size, fun _ hi => nomatch hi⟩, hs.peak, hs.valid⟩) fun _ => ?_
  refine .bind (preserves_retryPending hT hbuffer hb hat.inv.pending) fun txs => ?_
  -- the fee rate that is logged changes nothing
  refine .bind (.zoom (Q := fun _ => AtBlock T constants W b table) ?_ ?_) fun _ => .pure fun s hs => hs
  · intro s u m hs hm
    have : m = s.mempool := by
      split at hm
      · cases hm
        rfl
      · cases hm
    subst this
    exact hs
  · intro s e m hs hm
    have : m = s.mempool := by
      split at hm
      · cases hm
      · cases hm
        rfl
    subst this
    exact hs

end Valid

end MempoolManager

/-! ## Runs of a node -/

namespace NodeState

/-- The coin store has the coin set of the manager's peak. -/
def AtPeak (s : NodeState K) : Prop := ∀ P, s.mgr.peak = some P → P = s.tip.record

/-- The states that a node reaches, if bundles are added in the allowed states only. The coin store has the coin
set of the last transaction block, which the manager is told about if it is the peak. The result of a generator
that comes with it is that of the last block with one, so that it covers the spends of the peak. -/
inductive Reachable (T : MempoolTools K) (constants : MempoolConstants) (W : CoinWorld H)
    (allowed : NodeState K → Prop) : NodeState K → Prop
  | start {tip : TxBlock} {coinStore : CoinTable} (htip : W.CoinSetAt tip coinStore) :
      Reachable T constants W allowed ⟨tip, coinStore, .new constants⟩
  | addSpendbundle {s : NodeState K} (hs : Reachable T constants W allowed s) (hallowed : allowed s)
      (newSpend : SpendBundle) (npcResult : NPCResult) (spendName : Bytes32)
      (program : Option SerializedProgram) (hcoins : ∀ c ∈ additionsForNpc npcResult, c ∈ W.coins) :
      Reachable T constants W allowed { s with mgr := after (MempoolManager.addSpendbundle T constants
        s.coinStore newSpend npcResult spendName program s.mgr) }
  | newPeak {s : NodeState K} (hs : Reachable T constants W allowed s) {tip : TxBlock}
      {coinStore : CoinTable} (htip : W.CoinSetAt tip coinStore) (peak : BlockRecord)
      (hpeak : peak = tip.record ∨ peak.isTransactionBlock = false) (lastNpcResult : Option NPCResult)
      (hnpc : ∀ npc, lastNpcResult = some npc → tip.removals ⊆ spentNames npc) :
      Reachable T constants W allowed ⟨tip, coinStore, after (MempoolManager.newPeak T constants coinStore
        (some peak) lastNpcResult s.mgr)⟩

/-- The invariant of a node: the items of the mempool are valid at the manager's peak. -/
structure Inv (T : MempoolTools K) (constants : MempoolConstants) (W : CoinWorld H) (s : NodeState K) :
    Prop where
  coinSet : W.CoinSetAt s.tip s.coinStore
  manager : ManagerInv T constants W.coins s.mgr
  empty : s.mgr.peak = none → s.mgr.mempool.spends.values = []
  valid : ∀ P, s.mgr.peak = some P → ∃ b table, W.CoinSetAt b table ∧ AtBlock T constants W b table s.mgr

lemma after_addSpendbundle_of_none (hpeak : mgr.peak = none) {spendName : Bytes32}
    {program : Option SerializedProgram} :
    after (MempoolManager.addSpendbundle T constants table newSpend npcResult spendName program mgr) = mgr := by
  rw [addSpendbundle_of_failed (show admission T constants table mgr newSpend npcResult spendName program =
    .error (.failed Err.mempoolNotInitialized.value) by rw [admission, hpeak])]
  rfl

/-- **The items of the mempool are valid at the manager's peak** in every state that a node reaches, if bundles are
added only while the coin store has the coin set of that peak. -/
theorem Reachable.inv (hT : T.coinName = H.coinName) (hbuffer : 0 < constants.MEMPOOL_BLOCK_BUFFER)
    {s : NodeState K} (hs : Reachable T constants W AtPeak s) : s.Inv T constants W := by
  induction hs with
  | start htip => exact ⟨htip, managerInv_new, fun _ => rfl, fun P hP => nomatch hP⟩
  | @addSpendbundle s _ hallowed newSpend npcResult spendName program hcoins ih =>
    cases hpeak : s.mgr.peak with
    | none =>
      rw [after_addSpendbundle_of_none hpeak]
      exact ih
    | some P =>
      obtain ⟨b, table, hb, hat⟩ := ih.valid P hpeak
      -- the block that the items are valid at is the tip
      have heq : b.record = s.tip.record :=
        (Option.some.inj (hat.peak.symm.trans hpeak)).trans (hallowed P hpeak)
      obtain rfl := W.headerHash_injOn hb.mem ih.coinSet.mem (congrArg BlockRecord.headerHash heq)
      obtain rfl := hb.unique ih.coinSet
      have hat' := (preserves_addSpendbundle hT hbuffer hb newSpend hcoins spendName program).after hat
      refine ⟨ih.coinSet, hat'.inv, fun hnone => ?_, fun P' hP' => ⟨_, _, ih.coinSet, hat'⟩⟩
      rw [hat'.peak] at hnone
      cases hnone
  | @newPeak s _ tip coinStore htip peak hpeak lastNpcResult hnpc ih =>
    have hrun : MempoolManager.newPeak T constants coinStore (some peak) lastNpcResult s.mgr = _ :=
      bind_ok (get_apply s.mgr)
    rw [hrun]
    simp only
    split
    · exact ⟨htip, ih.manager, ih.empty, ih.valid⟩
    · rename_i hcond
      push Not at hcond
      obtain rfl := hpeak.resolve_right hcond.1
      have hat := (followPeak_spec hT hbuffer htip ih.manager ih.valid hnpc).after rfl
      refine ⟨htip, hat.inv, fun hnone => ?_, fun P hP => ⟨tip, coinStore, htip, hat⟩⟩
      have hnone : (after (followPeak T constants coinStore tip.record lastNpcResult s.mgr)).peak = none := hnone
      rw [hat.peak] at hnone
      cases hnone

/-! ## The two branches -/

/-- The two branches of `new_peak` leave the same items, for every transaction block after the manager's peak. -/
def FastPathAgrees (T : MempoolTools K) (constants : MempoolConstants) (W : CoinWorld H) (s : NodeState K) :
    Prop :=
  ∀ P Q table npc, s.mgr.peak = some P → W.CoinSetAt Q table →
    Q.record.prevTransactionBlockHash = some P.headerHash → Q.npcResult = some npc →
    ∃ fast slow, updateMempool T constants table true (some npc) { s.mgr with peak := some Q.record } =
        .ok () fast ∧
      updateMempool T constants table false (some npc) { s.mgr with peak := some Q.record } = .ok () slow ∧
      ∀ i, i ∈ fast.mempool.spends.values ↔ i ∈ slow.mempool.spends.values

lemma removals_eq_spentNames {Q : TxBlock} {npc : NPCResult} (hnpc : Q.npcResult = some npc) :
    Q.removals = spentNames npc := by
  unfold TxBlock.removals spentNames
  rw [hnpc, Option.bind_some]
  cases npc.conds with
  | none => rfl
  | some conds => rfl

/-- **The two branches of `new_peak` leave the same items** in every state that a node reaches, if bundles are
added only while the coin store has the coin set of the manager's peak. -/
theorem fastPath_agrees (hT : T.coinName = H.coinName) (hbuffer : 0 < constants.MEMPOOL_BLOCK_BUFFER)
    (s : NodeState K) (hs : Reachable T constants W AtPeak s) : s.FastPathAgrees T constants W := by
  intro P Q table npc hP hQ hprev hnpc
  have hinv := hs.inv hT hbuffer
  obtain ⟨p, t, hp, hat⟩ := hinv.valid P hP
  obtain rfl : P = p.record := Option.some.inj (hP.symm.trans hat.peak)
  obtain ⟨hpb, htable⟩ := hQ.follows hp hprev
  have hmgr : ManagerInv T constants W.coins { s.mgr with peak := some Q.record } :=
    ⟨hinv.manager.pool, hinv.manager.size, hinv.manager.pending⟩
  obtain ⟨fast, hfast, -, -, hmem⟩ := kickSpends_spec hmgr npc
  obtain ⟨slow, hslow, -, -, hmem'⟩ := readdItems_spec hT hp hQ.mem hpb htable hmgr rfl hat.valid
  refine ⟨fast, slow, hfast, hslow, fun i => ?_⟩
  rw [hmem, hmem', removals_eq_spentNames hnpc]

end NodeState

end Manager

/-! ## A reorganisation -/

/-- Hashes of which only the names of coins matter: these are their amounts. -/
def amountHashes : Hashes := { sampleHashes with coinName := amountTools.coinName }

/-- A reward coin. -/
def rewardCoin (amount : ℕ) : Coin := ⟨Bytes32.ofNat (5000 + amount), Bytes32.zero, amount⟩

/-- A transaction block with a number and a height, after the block with another number, with the result of its
generator and the amounts of its rewards. -/
def numberedBlock (number height prev : ℕ) (npcResult : Option NPCResult) (rewards : List ℕ) : TxBlock :=
  ⟨{ txRecord (fun _ => 0) (fun _ => Bytes32.zero) height with
      headerHash := Bytes32.ofNat number, prevTransactionBlockHash := some (Bytes32.ofNat prev) },
    npcResult, rewards.map rewardCoin⟩

/-- The first two blocks. -/
def genesisTx : TxBlock := numberedBlock 1 0 0 none []

@[inherit_doc genesisTx]
def firstTx : TxBlock := numberedBlock 2 1 1 none [1001, 1002, 1003]

/-- The block after them that the node sees first. -/
def oldTx : TxBlock := numberedBlock 3 2 2 none [1004, 1005, 1006]

/-- Another block after them, which spends a coin. -/
def rivalTx : TxBlock := numberedBlock 4 2 2 (some (payment 1001 900)) [1004, 1005, 1006]

/-- The block with which the first chain wins. -/
def backTx : TxBlock := numberedBlock 5 3 3 (some (payment 1002 800)) [1007, 1008, 1009]

/-- The blocks. -/
def reorgBlocks : List TxBlock := [genesisTx, firstTx, oldTx, rivalTx, backTx]

/-- The coins of the blocks, and those of two payments: of the coin that the rival block creates, and of a reward. -/
def reorgCoins : List Coin :=
  [1001, 1002, 1003, 1004, 1005, 1006, 1007, 1008, 1009].map rewardCoin ++
    [⟨Bytes32.ofNat 1001, Bytes32.zero, 900⟩, ⟨Bytes32.ofNat 1002, Bytes32.zero, 800⟩,
      ⟨Bytes32.ofNat 900, Bytes32.zero, 700⟩, ⟨Bytes32.ofNat 1003, Bytes32.zero, 600⟩]

/-- The parents of rewards. -/
def reorgParents : List Bytes32 := reorgCoins.map fun c => Bytes32.ofNat (5000 + c.amount)

variable {c : Coin}

section

variable (hc : c ∈ reorgCoins)

include hc

lemma exists_parentNumber : ∃ n < 10000, c.parentCoinInfo = Bytes32.ofNat n ∧ c.amount < n ∧ c.amount < 5000 := by
  have hnumbers : reorgCoins = [(6001, 1001), (6002, 1002), (6003, 1003), (6004, 1004), (6005, 1005), (6006, 1006),
      (6007, 1007), (6008, 1008), (6009, 1009), (1001, 900), (1002, 800), (900, 700), (1003, 600)].map
        fun x => ⟨Bytes32.ofNat x.1, Bytes32.zero, x.2⟩ := rfl
  rw [hnumbers] at hc
  obtain ⟨x, hx, rfl⟩ := List.mem_map.mp hc
  have hsizes : ∀ x ∈ [(6001, 1001), (6002, 1002), (6003, 1003), (6004, 1004), (6005, 1005), (6006, 1006),
      (6007, 1007), (6008, 1008), (6009, 1009), (1001, 900), (1002, 800), (900, 700), (1003, 600)],
      x.1 < 10000 ∧ x.2 < x.1 ∧ x.2 < 5000 := by
    decide
  obtain ⟨hn, hlt, hsmall⟩ := hsizes x hx
  exact ⟨x.1, hn, rfl, hlt, hsmall⟩

lemma eq_of_coinName_eq {d : Coin} (hd : d ∈ reorgCoins) (h : amountHashes.coinName c = amountHashes.coinName d) :
    c = d := by
  obtain ⟨-, -, -, -, hsmall⟩ := exists_parentNumber hc
  obtain ⟨-, -, -, -, hsmall'⟩ := exists_parentNumber hd
  have hamount : c.amount = d.amount :=
    Bytes32.ofNat_injOn (lt_trans hsmall (by norm_num)) (lt_trans hsmall' (by norm_num)) h
  have hnodup : (reorgCoins.map Coin.amount).Nodup := by decide
  exact List.inj_on_of_nodup_map hnodup hc hd hamount

lemma rank_coinName_lt :
    10000 - BigEndian.ofBytes c.parentCoinInfo.bytes < 10000 - BigEndian.ofBytes (amountTools.coinName c).bytes := by
  obtain ⟨n, hn, hparent, hlt, -⟩ := exists_parentNumber hc
  have hvalue : BigEndian.ofBytes (Bytes32.ofNat n).bytes = n :=
    BigEndian.ofBytes_toBytes (lt_trans hn (by norm_num))
  have hname : BigEndian.ofBytes (amountTools.coinName c).bytes = c.amount :=
    BigEndian.ofBytes_toBytes (lt_trans (lt_trans hlt hn) (by norm_num))
  rw [hparent, hvalue, hname]
  omega

lemma coinName_notMem : amountHashes.coinName c ∉ reorgParents := by
  intro hmem
  obtain ⟨d, hd, hname⟩ := List.mem_map.mp hmem
  obtain ⟨-, -, -, -, hsmall⟩ := exists_parentNumber hc
  obtain ⟨-, -, -, -, hsmall'⟩ := exists_parentNumber hd
  have hamount : 5000 + d.amount = c.amount :=
    Bytes32.ofNat_injOn (lt_trans (Nat.add_lt_add_left hsmall' 5000) (by norm_num))
      (lt_trans hsmall (by norm_num)) hname
  omega

end

lemma reorgBlocks_coins : (reorgBlocks.map fun b => b.record.headerHash).Nodup ∧
    (∀ b ∈ reorgBlocks, b.record.height = 0 → ∀ p ∈ reorgBlocks,
      b.record.prevTransactionBlockHash ≠ some p.record.headerHash) ∧
    (∀ b ∈ reorgBlocks, ∀ c ∈ b.additions, c ∈ reorgCoins) ∧
    ∀ b ∈ reorgBlocks, ∀ c ∈ b.rewards, c ∈ reorgCoins ∧ c.parentCoinInfo ∈ reorgParents := by
  decide +kernel

/-- The blocks and the coins of the reorganisation. Coins have smaller amounts than their parents. -/
def reorgWorld : CoinWorld amountHashes where
  blocks := {b | b ∈ reorgBlocks}
  coins := {c | c ∈ reorgCoins}
  rewardParents := {n | n ∈ reorgParents}
  rank n := 10000 - BigEndian.ofBytes n.bytes
  headerHash_injOn := fun _ hb _ hb' h => List.inj_on_of_nodup_map reorgBlocks_coins.1 hb hb' h
  coinName_injOn := fun _ hc _ hd h => eq_of_coinName_eq hc hd h
  rank_lt := fun _ hc => rank_coinName_lt hc
  notMem_rewardParents := fun _ hc => coinName_notMem hc
  isTransactionBlock := by
    show ∀ b ∈ reorgBlocks, b.record.isTransactionBlock = true
    decide
  height_lt := by
    show ∀ b ∈ reorgBlocks, b.record.height + 1 < 2 ^ 32
    decide
  genesis_prev := reorgBlocks_coins.2.1
  additions := reorgBlocks_coins.2.2.1
  rewards := reorgBlocks_coins.2.2.2

/-- The coins after a block. -/
def coinsAfter (b : TxBlock) (table : CoinTable) : CoinTable :=
  match b.addTo amountHashes table with
  | .ok table' => table'
  | .error _ => []

lemma addTo_coinsAfter {b : TxBlock} {table : CoinTable} (h : (b.addTo amountHashes table).toBool = true) :
    b.addTo amountHashes table = .ok (coinsAfter b table) := by
  unfold coinsAfter
  cases hb : b.addTo amountHashes table with
  | ok t => rfl
  | error e =>
    rw [hb] at h
    cases h

lemma coinSetAt_coinsAfter {p b : TxBlock} {table : CoinTable} (hp : reorgWorld.CoinSetAt p table)
    (hb : b ∈ reorgBlocks) (hhash : b.record.prevTransactionBlockHash = some p.record.headerHash)
    (hheight : p.record.height < b.record.height) (htimestamp : p.timestamp < b.timestamp)
    (h : (b.addTo amountHashes table).toBool = true) : reorgWorld.CoinSetAt b (coinsAfter b table) :=
  .extend hp hb ⟨hhash, hheight, htimestamp⟩ (addTo_coinsAfter h)

/-- The coins after the first two blocks, after the block that the node sees first, after its rival, and at the
end. -/
def firstCoins : CoinTable := coinsAfter firstTx (coinsAfter genesisTx [])

@[inherit_doc firstCoins]
def oldCoins : CoinTable := coinsAfter oldTx firstCoins

@[inherit_doc firstCoins]
def rivalCoins : CoinTable := coinsAfter rivalTx firstCoins

@[inherit_doc firstCoins]
def backCoins : CoinTable := coinsAfter backTx oldCoins

lemma addTo_reorg : (genesisTx.addTo amountHashes []).toBool = true ∧
    (firstTx.addTo amountHashes (coinsAfter genesisTx [])).toBool = true ∧
    (oldTx.addTo amountHashes firstCoins).toBool = true ∧
    (rivalTx.addTo amountHashes firstCoins).toBool = true ∧
    (backTx.addTo amountHashes oldCoins).toBool = true := by
  decide +kernel

lemma coinSetAt_firstTx : reorgWorld.CoinSetAt firstTx firstCoins :=
  coinSetAt_coinsAfter (.genesis List.mem_cons_self rfl (addTo_coinsAfter addTo_reorg.1))
    (by simp [reorgBlocks]) rfl (by decide) (by decide) addTo_reorg.2.1

@[inherit_doc coinSetAt_firstTx]
lemma coinSetAt_oldTx : reorgWorld.CoinSetAt oldTx oldCoins :=
  coinSetAt_coinsAfter coinSetAt_firstTx (by simp [reorgBlocks]) rfl (by decide) (by decide)
    addTo_reorg.2.2.1

@[inherit_doc coinSetAt_firstTx]
lemma coinSetAt_rivalTx : reorgWorld.CoinSetAt rivalTx rivalCoins :=
  coinSetAt_coinsAfter coinSetAt_firstTx (by simp [reorgBlocks]) rfl (by decide) (by decide)
    addTo_reorg.2.2.2.1

@[inherit_doc coinSetAt_firstTx]
lemma coinSetAt_backTx : reorgWorld.CoinSetAt backTx backCoins :=
  coinSetAt_coinsAfter coinSetAt_oldTx (by simp [reorgBlocks]) rfl (by decide) (by decide)
    addTo_reorg.2.2.2.2

namespace NodeState

/-- The node after the block that it sees first. -/
def atOld : NodeState ℕ :=
  ⟨oldTx, oldCoins, after (MempoolManager.newPeak amountTools defaultMempoolConstants oldCoins
    (some oldTx.record) none (.new defaultMempoolConstants))⟩

lemma reachable_atOld (allowed : NodeState ℕ → Prop) :
    Reachable amountTools defaultMempoolConstants reorgWorld allowed atOld :=
  .newPeak (.start coinSetAt_firstTx) coinSetAt_oldTx oldTx.record (.inl rfl) none fun _ h => nomatch h

/-- A payment with a reward arrives. -/
def paidAtOld : NodeState ℕ :=
  { atOld with mgr := after (MempoolManager.addSpendbundle amountTools defaultMempoolConstants atOld.coinStore
    (paymentBundle 1003) (payment 1003 600) Bytes32.zero none atOld.mgr) }

lemma additions_payments : (∀ c ∈ additionsForNpc (payment 1003 600), c ∈ reorgCoins) ∧
    ∀ c ∈ additionsForNpc (payment 900 700), c ∈ reorgCoins := by
  decide +kernel

lemma peak_paidAtOld : atOld.mgr.peak = some oldTx.record ∧ paidAtOld.mgr.peak = some oldTx.record ∧
    paidAtOld.mgr.mempool.spends.values.length = 1 := by
  decide +kernel

lemma reachable_paidAtOld : Reachable amountTools defaultMempoolConstants reorgWorld AtPeak paidAtOld := by
  refine .addSpendbundle (reachable_atOld _) ?_ _ _ _ _ ?_
  · intro P hP
    exact Option.some.inj (hP.symm.trans peak_paidAtOld.1)
  · exact additions_payments.1

/-- The two branches agree about the payment. -/
theorem fastPath_agrees_paidAtOld : paidAtOld.mgr.mempool.spends.values.length = 1 ∧
    ∃ fast slow, updateMempool amountTools defaultMempoolConstants backCoins true (some (payment 1002 800))
        { paidAtOld.mgr with peak := some backTx.record } = .ok () fast ∧
      updateMempool amountTools defaultMempoolConstants backCoins false (some (payment 1002 800))
        { paidAtOld.mgr with peak := some backTx.record } = .ok () slow ∧
      ∀ i, i ∈ fast.mempool.spends.values ↔ i ∈ slow.mempool.spends.values :=
  ⟨peak_paidAtOld.2.2, fastPath_agrees rfl (by decide) paidAtOld reachable_paidAtOld oldTx.record backTx
    backCoins (payment 1002 800) peak_paidAtOld.2.1 coinSetAt_backTx rfl rfl⟩

/-- The peak after the rival block, which is no transaction block. -/
def rivalPeak : BlockRecord :=
  { txRecord (fun _ => 0) (fun _ => Bytes32.zero) 3 with
    headerHash := Bytes32.ofNat 6, prevHash := Bytes32.ofNat 4, timestamp := none,
    prevTransactionBlockHash := none }

/-- The node after it moved to the rival chain. -/
def atRival : NodeState ℕ :=
  ⟨rivalTx, rivalCoins, after (MempoolManager.newPeak amountTools defaultMempoolConstants rivalCoins
    (some rivalPeak) (some (payment 1001 900)) atOld.mgr)⟩

/-- A payment with the coin of the rival block arrives. -/
def paidAtRival : NodeState ℕ :=
  { atRival with mgr := after (MempoolManager.addSpendbundle amountTools defaultMempoolConstants
    atRival.coinStore (paymentBundle 900) (payment 900 700) Bytes32.zero none atRival.mgr) }

lemma reachable_paidAtRival :
    Reachable amountTools defaultMempoolConstants reorgWorld (fun _ => True) paidAtRival := by
  refine .addSpendbundle (.newPeak (reachable_atOld _) coinSetAt_rivalTx rivalPeak (.inr rfl) _ ?_) trivial
    _ _ _ _ ?_
  · intro npc hnpc
    rw [← Option.some.inj hnpc]
    exact List.Subset.refl _
  · exact additions_payments.2

/-- If the first chain wins after all, only one of the branches keeps the payment, whose coin is not on that
chain. -/
theorem fastPath_disagrees : ¬∀ s : NodeState ℕ,
    Reachable amountTools defaultMempoolConstants reorgWorld (fun _ => True) s →
      s.FastPathAgrees amountTools defaultMempoolConstants reorgWorld := by
  intro h
  -- the fast branch keeps one payment, the slow one none
  have hsample : paidAtRival.mgr.peak = some oldTx.record ∧
      (after (updateMempool amountTools defaultMempoolConstants backCoins true (some (payment 1002 800))
        { paidAtRival.mgr with peak := some backTx.record })).mempool.spends.values.length = 1 ∧
      (after (updateMempool amountTools defaultMempoolConstants backCoins false (some (payment 1002 800))
        { paidAtRival.mgr with peak := some backTx.record })).mempool.spends.values = [] := by
    decide +kernel
  obtain ⟨hpeak, hone, hnone⟩ := hsample
  obtain ⟨fast, slow, hfast, hslow, hmem⟩ := h paidAtRival reachable_paidAtRival oldTx.record backTx backCoins
    (payment 1002 800) hpeak coinSetAt_backTx rfl rfl
  rw [hfast] at hone
  rw [hslow] at hnone
  obtain ⟨i, hi⟩ := List.length_eq_one_iff.mp hone
  have hi : i ∈ fast.mempool.spends.values := by
    rw [show fast.mempool.spends.values = [i] from hi]
    exact List.mem_singleton_self i
  have hslow := (hmem i).mp hi
  rw [show slow.mempool.spends.values = [] from hnone] at hslow
  cases hslow

end NodeState

end Chives
