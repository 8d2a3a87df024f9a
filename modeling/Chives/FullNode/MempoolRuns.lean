import Chives.FullNode.MempoolAdmission

set_option autoImplicit false

/-!
# Runs of the mempool manager

Bundles arrive and the peak changes, in any order. Whatever the coin store holds at each of these moments, the
dictionaries of the mempool agree afterwards, also if the method raises, and the exception never comes from
inside the mempool.

## Main definitions

* `MempoolOp`, `MempoolOp.run` — the calls and what they do.
* `MempoolManager.ManagerInv` — the invariant of the manager.

## Main results

* `MempoolManager.managerInv_runOps` — the invariant along a run.
* `MempoolManager.mempool_consistent` — the dictionaries agree after every run.
-/

namespace Chives

open ExceptRun StateRun

/-! ## The cache of pending transactions -/

namespace PendingTxCache

lemma mem_shrink {fuel : ℕ} {c : PendingTxCache} {i : MempoolItem}
    (h : i ∈ (after (shrink fuel c)).txs.values) : i ∈ c.txs.values := by
  induction fuel generalizing c with
  | zero => exact h
  | succ fuel ih =>
    unfold shrink at h
    split at h
    · split at h
      · exact h
      · rename_i firstIn item hhead
        obtain ⟨n, hn⟩ := OrderedDict.mem_values.mp (ih h)
        rw [show ({ c with cacheCost := c.cacheCost - item.cost, txs := c.txs.erase firstIn } :
          PendingTxCache).txs = c.txs.erase firstIn from rfl, OrderedDict.get?_erase] at hn
        split at hn
        · cases hn
        · exact OrderedDict.mem_values.mpr ⟨n, hn⟩
    · exact h

lemma mem_add {c : PendingTxCache} {item i : MempoolItem} (h : i ∈ (after (add item c)).txs.values) :
    i = item ∨ i ∈ c.txs.values := by
  unfold add at h
  split at h
  · exact .inr h
  · obtain ⟨n, hn⟩ := OrderedDict.mem_values.mp (mem_shrink h)
    rw [show ({ c with txs := c.txs.set item.spendBundleName item, cacheCost := c.cacheCost + item.cost } :
      PendingTxCache).txs = c.txs.set item.spendBundleName item from rfl, OrderedDict.get?_set] at hn
    split at hn
    · exact .inl (Option.some.inj hn).symm
    · exact .inr (OrderedDict.mem_values.mpr ⟨n, hn⟩)

end PendingTxCache

namespace MempoolManager

section Manager

variable {K : Type} [LinearOrder K] {T : MempoolTools K} {constants : MempoolConstants} {coins : Set Coin}

/-! ## The invariant -/

/-- The invariant of the manager. The bundles that are pending create coins of the given set. -/
structure ManagerInv (T : MempoolTools K) (constants : MempoolConstants) (coins : Set Coin)
    (mgr : MempoolManager K) : Prop where
  pool : mgr.mempool.PoolInv T coins constants.maxCost
  size : mgr.mempool.maxSizeInCost = constants.mempoolMaxTotalCost
  pending : ∀ i ∈ mgr.potentialCache.txs.values, ∀ c ∈ additionsForNpc i.npcResult, c ∈ coins

/-- The exception does not come from inside the mempool. -/
def Safe (e : MempoolFailure) : Prop := ∀ e', e ≠ .poolRaised e'

/-- The invariant holds after a method raised, and it did not raise inside the mempool. -/
def RaisedOk (T : MempoolTools K) (constants : MempoolConstants) (coins : Set Coin) (e : MempoolFailure)
    (mgr : MempoolManager K) : Prop :=
  ManagerInv T constants coins mgr ∧ Safe e

/-- A method keeps the invariant. -/
def Keeps (T : MempoolTools K) (constants : MempoolConstants) (coins : Set Coin) {α : Type}
    (x : EStateM MempoolFailure (MempoolManager K) α) : Prop :=
  Triple (ManagerInv T constants coins) x (fun _ => ManagerInv T constants coins)
    (RaisedOk T constants coins)

lemma safe_raised (e : PyError) : Safe (.raised e) := nofun

lemma maxCost_le (hbuffer : 0 < constants.MEMPOOL_BLOCK_BUFFER) :
    constants.maxCost ≤ constants.mempoolMaxTotalCost :=
  (Nat.div_le_self _ _).trans (Nat.le_mul_of_pos_right _ hbuffer)

lemma managerInv_new : ManagerInv T constants coins (new constants : MempoolManager K) :=
  ⟨Mempool.poolInv_new _, rfl, nofun⟩

/-! ## Pending bundles -/

/-- Every item that is kept for later satisfies `P`. -/
def PendingOnly {α : Type} (P : MempoolItem → Prop) (x : Except AddStop α) : Prop :=
  ∀ item code, x = .error (.pending item code) → P item

namespace PendingOnly

variable {α β : Type} {P : MempoolItem → Prop}

lemma bind {x : Except AddStop α} {f : α → Except AddStop β} (hx : PendingOnly P x)
    (hf : ∀ a, x = .ok a → PendingOnly P (f a)) : PendingOnly P (x >>= f) := by
  intro item code h
  rcases bind_eq_error.mp h with h | ⟨a, ha, h⟩
  · exact hx item code h
  · exact hf a ha item code h

lemma ok (a : α) : PendingOnly P (.ok a) := nofun

lemma failed (code : ℕ) : PendingOnly P (.error (.failed code) : Except AddStop α) :=
  nofun

lemma raised (e : PyError) : PendingOnly P (.error (.raised e) : Except AddStop α) :=
  nofun

lemma stopRaising (x : Except PyError α) : PendingOnly P (stopRaising x) := by
  cases x with
  | ok a => exact ok a
  | error e => exact raised e

lemma failIf (bad : Prop) [Decidable bad] (err : Err) : PendingOnly P (failIf bad err) := by
  unfold Chives.failIf
  split
  · exact failed _
  · exact ok _

lemma removalRecords (coinStore : CoinTable) (peak : BlockRecord) (additionsDict : Dict Bytes32 Coin)
    (names : List Bytes32) : PendingOnly P (removalRecords coinStore peak additionsDict names) := by
  induction names with
  | nil => exact ok _
  | cons name names ih =>
    refine bind ?_ fun record _ => bind ih fun _ _ => ok _
    split
    · exact failed _
    · exact ok _
    · exact bind (stopRaising _) fun _ _ => bind (stopRaising _) fun _ _ => ok _

lemma checkSpendPuzzles (records : Dict Bytes32 CoinRecord) (spends : List Spend) :
    PendingOnly P (checkSpendPuzzles records spends) := by
  induction spends with
  | nil => exact ok _
  | cons spend spends ih =>
    unfold MempoolManager.checkSpendPuzzles
    split
    · exact raised _
    · exact bind (failIf _ _) fun _ _ => ih

lemma replacedItems {m : Mempool K} {item : MempoolItem} {records : List (Bytes32 × CoinRecord)}
    (hitem : P item) : PendingOnly P (replacedItems T m item records) := by
  unfold MempoolManager.replacedItems
  split
  · exact ok _
  · refine bind (stopRaising _) fun items _ => bind (stopRaising _) fun replaces _ => ?_
    cases replaces with
    | true => exact ok _
    | false =>
      intro i code h
      cases h
      exact hitem
  · exact failed _

lemma checkBundleLocks {peak : BlockRecord} {item : MempoolItem} {conds : SpendBundleConditions}
    {records : Dict Bytes32 CoinRecord} (hitem : P item) :
    PendingOnly P (checkBundleLocks peak item conds records) := by
  refine bind (stopRaising _) fun timestamp _ => ?_
  split
  · exact ok _
  · exact raised _
  · split
    · intro i code h
      cases h
      exact hitem
    · exact failed _

end PendingOnly

variable {newSpend : SpendBundle} {npcResult : NPCResult}

lemma pendingOnly_admission {coinStore : CoinTable} {mgr : MempoolManager K} {spendName : Bytes32}
    {program : Option SerializedProgram} :
    PendingOnly (fun i => i.npcResult = npcResult)
      (admission T constants coinStore mgr newSpend npcResult spendName program) := by
  unfold admission
  split
  · exact .failed _
  refine .bind ?_ fun conds _ => .bind ?_ fun _ _ => .bind (.removalRecords _ _ _ _) fun records _ =>
    .bind ?_ fun item hitem => ?_
  · exact .bind (.stopRaising _) fun _ _ => .bind (.failIf _ _) fun _ _ => .bind (.stopRaising _)
      fun _ _ => .bind (.failIf _ _) fun _ _ => .bind (.failIf _ _) fun _ _ => .bind (.failIf _ _)
      fun _ _ => .bind (.failIf _ _) fun _ _ => .ok _
  · split
    · exact fun _ _ h => by cases h
    · exact .ok _
  · exact .bind (.failIf _ _) fun _ _ => .bind (.stopRaising _) fun _ _ => .bind (.failIf _ _)
      fun _ _ => .bind (.failIf _ _) fun _ _ => .ok _
  · have hnpc : item.npcResult = npcResult := by
      obtain ⟨fees, -, -, -, -, rfl⟩ := makeItem_eq_ok.mp hitem
      rfl
    refine .bind ?_ fun _ _ => .bind (.replacedItems hnpc) fun _ _ =>
      .bind (.checkSpendPuzzles _ _) fun _ _ => .bind (.checkBundleLocks hnpc) fun _ _ => .ok _
    unfold checkFeeRate
    split
    · exact .bind (.failIf _ _) fun _ _ => .bind (.stopRaising _) fun _ _ => .failIf _ _
    · exact .ok _

/-! ## The methods -/

/-- Adding a bundle keeps the invariant. -/
theorem keeps_addSpendbundle (hinj : Set.InjOn T.coinName coins) (hbuffer : 0 < constants.MEMPOOL_BLOCK_BUFFER)
    {coinStore : CoinTable} (hstore : coinStore.Named T.coinName)
    (hcoins : ∀ c ∈ additionsForNpc npcResult, c ∈ coins) (spendName : Bytes32) (program : Option SerializedProgram) :
    Keeps T constants coins
      (addSpendbundle T constants coinStore newSpend npcResult spendName program) := by
  refine .bind (.get (Q := fun mgr s => ManagerInv T constants coins s ∧ s = mgr)
    fun s hs => ⟨hs, rfl⟩) fun mgr => ?_
  cases hadm : admission T constants coinStore mgr newSpend npcResult spendName program with
  | error stop =>
    cases stop with
    | raised e => exact .throw fun s hs => ⟨hs.1, safe_raised e⟩
    | failed code => exact .pure fun s hs => hs.1
    | already cost => exact .pure fun s hs => hs.1
    | pending item code =>
      have hnpc := pendingOnly_admission item code hadm
      -- what is in the cache afterwards
      have hkept : ∀ s, ManagerInv T constants coins s →
          ∀ i ∈ (after (PendingTxCache.add item s.potentialCache)).txs.values,
            ∀ c ∈ additionsForNpc i.npcResult, c ∈ coins := by
        intro s hs i hi
        rcases PendingTxCache.mem_add hi with rfl | hi
        · rw [hnpc]
          exact hcoins
        · exact hs.pending i hi
      refine .bind (.zoom (Q := fun _ => ManagerInv T constants coins) ?_ ?_) fun _ =>
        .pure fun s hs => hs
      · intro s u c hs hadd
        have hc := hkept s hs.1
        rw [hadd] at hc
        exact ⟨hs.1.pool, hs.1.size, hc⟩
      · intro s e c hs hadd
        have hc := hkept s hs.1
        rw [hadd] at hc
        exact ⟨⟨hs.1.pool, hs.1.size, hc⟩, safe_raised e⟩
  | ok result =>
    obtain ⟨item, replaced⟩ := result
    refine .bind (.of_run (Q := fun _ => ManagerInv T constants coins) ?_) fun _ => .pure fun s hs => hs
    rintro s ⟨hs, rfl⟩
    obtain ⟨peak, conds, records, hadmitted⟩ := admission_eq_ok.mp hadm
    obtain ⟨m, heq, hm, hsize, -⟩ := replaceItems_spec hinj hs.pool
      (by rw [hs.size]; exact maxCost_le hbuffer) hstore hcoins hadmitted
    exact ⟨(), _, heq, hm, hsize.trans hs.size, hs.pending⟩

lemma keeps_removeSeen (bundleHash : Bytes32) : Keeps T constants coins (removeSeen bundleHash) :=
  .modify fun _ hs => ⟨hs.pool, hs.size, hs.pending⟩

lemma keeps_kickSpent (spend : Spend) : Keeps T constants coins (kickSpent T spend) := by
  refine .bind (.get (Q := fun mgr s => ManagerInv T constants coins s ∧ s = mgr)
    fun s hs => ⟨hs, rfl⟩) fun mgr => ?_
  cases hget : mgr.mempool.removals.get? spend.coinId with
  | none => exact .pure fun s hs => hs.1
  | some item =>
    refine .bind (.of_run (Q := fun _ => ManagerInv T constants coins) ?_) fun _ => keeps_removeSeen _
    rintro s ⟨hs, rfl⟩
    obtain ⟨m, heq, hm, -, hsize⟩ := Mempool.removeFromPool_spec hs.pool (hs.pool.removals.mp hget).1
    exact ⟨(), _, zoom_ok mempool s heq _ _, hm, hsize.trans hs.size, hs.pending⟩

section Peak

variable (hinj : Set.InjOn T.coinName coins) (hbuffer : 0 < constants.MEMPOOL_BLOCK_BUFFER)
  {coinStore : CoinTable} (hstore : coinStore.Named T.coinName)

include hinj hbuffer hstore

lemma keeps_readdItem {item : MempoolItem} (hcoins : ∀ c ∈ additionsForNpc item.npcResult, c ∈ coins) :
    Keeps T constants coins (readdItem T constants coinStore item) := by
  refine .bind (keeps_addSpendbundle hinj hbuffer hstore hcoins _ _) fun result => ?_
  split
  · exact keeps_removeSeen _
  · exact .pure fun s hs => hs

lemma keeps_readdItems : Keeps T constants coins (readdItems T constants coinStore) := by
  refine .bind (.get (Q := fun mgr s => ManagerInv T constants coins s ∧ ManagerInv T constants coins mgr)
    fun s hs => ⟨hs, hs⟩) fun mgr => .of_and fun hmgr => ?_
  refine .bind (.modify (Q := fun _ => ManagerInv T constants coins)
    fun s hs => ⟨Mempool.poolInv_new _, rfl, hs.pending⟩) fun _ => .forEach fun item hitem => ?_
  refine keeps_readdItem hinj hbuffer hstore fun c hc => ?_
  have hok := hmgr.pool.items item hitem
  exact hok.coins c (by rw [hok.additions_eq]; exact hc)

lemma keeps_retryPending {items : List MempoolItem}
    (hitems : ∀ i ∈ items, ∀ c ∈ additionsForNpc i.npcResult, c ∈ coins) :
    Keeps T constants coins (retryPending T constants coinStore items) := by
  induction items with
  | nil => exact .pure fun s hs => hs
  | cons item items ih =>
    refine .bind (keeps_addSpendbundle hinj hbuffer hstore (hitems item List.mem_cons_self) _ _) fun _ => ?_
    exact .bind (ih fun i hi => hitems i (List.mem_cons_of_mem _ hi)) fun _ => .pure fun s hs => hs

lemma keeps_updateMempool (useOptimization : Bool) (lastNpcResult : Option NPCResult) :
    Keeps T constants coins (updateMempool T constants coinStore useOptimization lastNpcResult) := by
  unfold updateMempool
  split
  · exact .forEach fun spend _ => keeps_kickSpent spend
  · exact keeps_readdItems hinj hbuffer hstore

/-- Taking over a peak keeps the invariant. -/
lemma keeps_followPeak (newPeak : BlockRecord) (lastNpcResult : Option NPCResult) :
    Keeps T constants coins (followPeak T constants coinStore newPeak lastNpcResult) := by
  refine .bind (.get fun s hs => hs) fun mgr => ?_
  refine .bind (.modify (Q := fun _ => ManagerInv T constants coins)
    fun s hs => ⟨hs.pool, hs.size, hs.pending⟩) fun _ => ?_
  refine .bind (keeps_updateMempool hinj hbuffer hstore _ _) fun _ => ?_
  refine .bind (.get (Q := fun mgr s => ManagerInv T constants coins s ∧ ManagerInv T constants coins mgr)
    fun s hs => ⟨hs, hs⟩) fun mgr => .of_and fun hmgr => ?_
  refine .bind (.modify (Q := fun _ => ManagerInv T constants coins)
    fun s hs => ⟨hs.pool, hs.size, nofun⟩) fun _ => ?_
  refine .bind (keeps_retryPending hinj hbuffer hstore hmgr.pending) fun txs => ?_
  -- the fee rate that is logged changes nothing
  refine .bind (.zoom (Q := fun _ => ManagerInv T constants coins) ?_ ?_) fun _ => .pure fun s hs => hs
  · intro s u m hs hm
    have : m = s.mempool := by
      split at hm
      · cases hm
        rfl
      · cases hm
    subst this
    exact hs
  · intro s e m hs hm
    have : m = s.mempool := by
      split at hm
      · cases hm
      · cases hm
        rfl
    subst this
    exact ⟨hs, safe_raised e⟩

/-- **A new peak** keeps the invariant. -/
theorem keeps_newPeak (peak : Option BlockRecord) (lastNpcResult : Option NPCResult) :
    Keeps T constants coins (newPeak T constants coinStore peak lastNpcResult) := by
  refine .bind (.get fun s hs => hs) fun mgr => ?_
  cases peak with
  | none => exact .pure fun s hs => hs
  | some peak =>
    simp only
    split
    · exact .pure fun s hs => hs
    · exact keeps_followPeak hinj hbuffer hstore _ _

end Peak

end Manager

end MempoolManager

/-! ## Runs -/

/-- The calls that change the mempool, each with the coin store at that time. -/
inductive MempoolOp
  | addSpendbundle (coinStore : CoinTable) (newSpend : SpendBundle) (npcResult : NPCResult)
      (spendName : Bytes32) (program : Option SerializedProgram)
  | newPeak (coinStore : CoinTable) (peak : Option BlockRecord) (lastNpcResult : Option NPCResult)

namespace MempoolOp

variable {K : Type} [LinearOrder K]

/-- What a call does. -/
def run (T : MempoolTools K) (constants : MempoolConstants) :
    MempoolOp → EStateM MempoolFailure (MempoolManager K) Unit
  | .addSpendbundle coinStore newSpend npcResult spendName program => do
    let _ ← MempoolManager.addSpendbundle T constants coinStore newSpend npcResult spendName program
    return ()
  | .newPeak coinStore peak lastNpcResult => do
    let _ ← MempoolManager.newPeak T constants coinStore peak lastNpcResult
    return ()

/-- The rows of the coin store are filed under the names of their coins, and a bundle creates coins of the
given set. -/
def Ok (T : MempoolTools K) (coins : Set Coin) : MempoolOp → Prop
  | .addSpendbundle coinStore _ npcResult _ _ =>
    coinStore.Named T.coinName ∧ ∀ c ∈ additionsForNpc npcResult, c ∈ coins
  | .newPeak coinStore _ _ => coinStore.Named T.coinName

end MempoolOp

namespace MempoolManager

variable {K : Type} [LinearOrder K] {T : MempoolTools K} {constants : MempoolConstants} {coins : Set Coin}

/-- The state after a run of calls. A call that raises leaves the state in which it raised. -/
def runOps (T : MempoolTools K) (constants : MempoolConstants) (ops : List MempoolOp) : MempoolManager K :=
  ops.foldl (fun s op => after (op.run T constants s)) (new constants)

lemma keeps_run (hinj : Set.InjOn T.coinName coins) (hbuffer : 0 < constants.MEMPOOL_BLOCK_BUFFER)
    {op : MempoolOp} (hop : op.Ok T coins) : Keeps T constants coins (op.run T constants) := by
  cases op with
  | addSpendbundle coinStore newSpend npcResult spendName program =>
    exact .bind (keeps_addSpendbundle hinj hbuffer hop.1 hop.2 _ _) fun _ => .pure fun s hs => hs
  | newPeak coinStore peak lastNpcResult =>
    exact .bind (keeps_newPeak hinj hbuffer hop _ _) fun _ => .pure fun s hs => hs

lemma Keeps.after_run {α : Type} {x : EStateM MempoolFailure (MempoolManager K) α}
    (h : Keeps T constants coins x) {s : MempoolManager K} (hs : ManagerInv T constants coins s) :
    ManagerInv T constants coins (after (x s)) ∧ ∀ e, raised (x s) = some e → Safe e := by
  have hx := h s hs
  cases hrun : x s with
  | ok a s' =>
    rw [hrun] at hx
    exact ⟨hx, nofun⟩
  | error e s' =>
    rw [hrun] at hx
    refine ⟨hx.1, fun e' he' => ?_⟩
    rw [← Option.some.inj he']
    exact hx.2

theorem managerInv_runOps (hinj : Set.InjOn T.coinName coins)
    (hbuffer : 0 < constants.MEMPOOL_BLOCK_BUFFER) {ops : List MempoolOp} (hops : ∀ op ∈ ops, op.Ok T coins) :
    ManagerInv T constants coins (runOps T constants ops) := by
  unfold runOps
  have hrun : ∀ s : MempoolManager K, ManagerInv T constants coins s →
      ManagerInv T constants coins (ops.foldl (fun s op => after (op.run T constants s)) s) := by
    induction ops with
    | nil => exact fun s hs => hs
    | cons op ops ih =>
      intro s hs
      rw [List.foldl_cons]
      refine ih (fun op' hop' => hops op' (List.mem_cons_of_mem _ hop')) _ ?_
      exact ((keeps_run hinj hbuffer (hops op List.mem_cons_self)).after_run hs).1
  exact hrun _ managerInv_new

/-- **The dictionaries of the mempool agree after every run** of calls, whatever the bundles, the peaks and the
contents of the coin store: the items are the same in `spends` and in `sorted_spends`, each under its own fee
per cost and with no empty dictionary, `removals` and `additions` file the coins that the items spend and
create, no coin is spent by two items, the cost is the sum of the costs and within the limit; and no call
raises inside `remove_from_pool` or `add_to_pool`. -/
theorem mempool_consistent (hinj : Set.InjOn T.coinName coins)
    (hbuffer : 0 < constants.MEMPOOL_BLOCK_BUFFER) (ops : List MempoolOp)
    (hops : ∀ op ∈ ops, op.Ok T coins) :
    (runOps T constants ops).mempool.Consistent T ∧
      (runOps T constants ops).mempool.maxSizeInCost = constants.mempoolMaxTotalCost ∧
      (∀ i ∈ (runOps T constants ops).mempool.spends.values,
        ∀ j ∈ (runOps T constants ops).mempool.spends.values, ∀ c, c ∈ i.removalNames T →
          c ∈ j.removalNames T → i = j) ∧
      ∀ op : MempoolOp, op.Ok T coins → ∀ e,
        raised (op.run T constants (runOps T constants ops)) ≠ some (.poolRaised e) := by
  have hinv := managerInv_runOps hinj hbuffer hops
  refine ⟨hinv.pool.toConsistent, hinv.size, fun i hi j hj c hci hcj => ?_, fun op hop e he => ?_⟩
  · have h1 := hinv.pool.removals.mpr ⟨hi, hci⟩
    rw [hinv.pool.removals.mpr ⟨hj, hcj⟩] at h1
    exact (Option.some.inj h1).symm
  · exact ((keeps_run hinj hbuffer hop).after_run hinv).2 _ he e rfl

/-! ## A run with one bundle -/

/-- Coins are named after their amounts, and the fee per cost is rounded down. -/
def amountTools : MempoolTools ℕ where
  coinName c := Bytes32.ofNat c.amount
  feePerCost fee cost := fee / cost
  nonzeroFeeMinimumFpc := 5
  noFee := 0
  simpleSolutionGenerator _ := [0x80]
  aggregateSignatures _ := []

/-- A coin of the coin store. -/
def storedCoin (amount : ℕ) : CoinRow :=
  ⟨Bytes32.ofNat amount, 0, 0, false, ⟨Bytes32.zero, Bytes32.zero, amount⟩, 0⟩

/-- The result of running a bundle that spends the stored coin with one amount and creates a coin with
another one. -/
def payment (amount amount' : ℕ) : NPCResult :=
  ⟨none, some ⟨[⟨Bytes32.ofNat amount, Bytes32.zero, none, 0, [(Bytes32.zero, amount', none)], []⟩], 0, 0, 0,
    [], 1⟩, 1⟩

/-- The bundle of a payment. -/
def paymentBundle (amount : ℕ) : SpendBundle :=
  ⟨[⟨⟨Bytes32.zero, Bytes32.zero, amount⟩, .nil, .nil⟩], []⟩

/-- A peak, and a bundle that arrives afterwards. -/
def paymentOps : List MempoolOp :=
  [.newPeak [storedCoin 1000] (some (txRecord (fun _ => 0) (fun _ => Bytes32.zero) 1)) none,
    .addSpendbundle [storedCoin 1000] (paymentBundle 1000) (payment 1000 900) Bytes32.zero none]

/-- The run with one bundle: it is in the mempool, whose dictionaries agree. -/
theorem mempool_consistent_paymentOps :
    (runOps amountTools defaultMempoolConstants paymentOps).mempool.spends.values.length = 1 ∧
      (runOps amountTools defaultMempoolConstants paymentOps).mempool.Consistent amountTools := by
  refine ⟨by decide +kernel, (@mempool_consistent _ _ amountTools defaultMempoolConstants
    {⟨Bytes32.ofNat 1000, Bytes32.zero, 900⟩} (Set.injOn_singleton _ _) (by decide) paymentOps ?_).1⟩
  intro op hop
  simp only [paymentOps, List.mem_cons, List.not_mem_nil, or_false] at hop
  rcases hop with rfl | rfl
  · exact List.forall_mem_singleton.mpr rfl
  · refine ⟨List.forall_mem_singleton.mpr rfl, ?_⟩
    exact List.forall_mem_singleton.mpr rfl

end MempoolManager

end Chives
