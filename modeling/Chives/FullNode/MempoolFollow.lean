import Chives.FullNode.MempoolChain

set_option autoImplicit false

/-!
# The two branches of `new_peak`

What the two branches leave of a mempool whose items are all valid at the old peak: the one that only looks at
the spends of the new block, and the one that adds every item again.

## Main definitions

* `MempoolManager.AtBlock` — the items of the mempool are valid at the peak of the manager.
* `MempoolManager.FreeOf` — an item spends none of the given coins.

## Main results

* `MempoolManager.kickSpends_spec` — the first branch leaves the items that spend nothing of the block.
* `MempoolManager.readdItems_spec` — so does the second one.
-/

namespace Chives

open ExceptRun StateRun Table

namespace MempoolManager

section Manager

variable {K : Type} [LinearOrder K] {T : MempoolTools K} {constants : MempoolConstants} {coins : Set Coin}
  {mgr : MempoolManager K}

/-! ## The branch that only looks at the spends of the block -/

/-- The item spends none of the coins with the given names. -/
def FreeOf (T : MempoolTools K) (names : List Bytes32) (item : MempoolItem) : Prop :=
  ∀ n ∈ names, n ∉ item.removalNames T

/-- The coins that running a generator spends. -/
def spentNames (npcResult : NPCResult) : List Bytes32 :=
  ((npcResult.conds.map SpendBundleConditions.spends).getD []).map Spend.coinId

/-- A round leaves the items that do not spend the coin. -/
lemma kickSpent_spec (hinv : ManagerInv T constants coins mgr) (spend : Spend) :
    ∃ s, kickSpent T spend mgr = .ok () s ∧ ManagerInv T constants coins s ∧ s.peak = mgr.peak ∧
      ∀ i, i ∈ s.mempool.spends.values ↔
        i ∈ mgr.mempool.spends.values ∧ spend.coinId ∉ i.removalNames T := by
  cases hget : mgr.mempool.removals.get? spend.coinId with
  | none =>
    refine ⟨mgr, ?_, hinv, rfl, fun i => ⟨fun hi => ⟨hi, fun hmem => ?_⟩, And.left⟩⟩
    · refine (bind_ok (get_apply mgr)).trans ?_
      rw [hget]
      rfl
    · have := hinv.pool.removals.mpr ⟨hi, hmem⟩
      rw [hget] at this
      cases this
  | some item =>
    obtain ⟨hitem, hname⟩ := hinv.pool.removals.mp hget
    obtain ⟨m, heq, hm, hspends, hsize⟩ := Mempool.removeFromPool_spec hinv.pool hitem
    have hrun : inPool (Mempool.removeFromPool T item) mgr = .ok () { mgr with mempool := m } :=
      zoom_ok mempool mgr heq _ _
    refine ⟨{ mgr with mempool := m, seenBundleHashes := mgr.seenBundleHashes.erase item.spendBundleName },
      ?_, ⟨hm, hsize.trans hinv.size, hinv.pending⟩, rfl, fun i => ?_⟩
    · refine (bind_ok (get_apply mgr)).trans ?_
      rw [hget]
      exact bind_ok hrun
    · show i ∈ m.spends.values ↔ _
      -- the items that are left are the others
      have hleft : i ∈ m.spends.values ↔ i ∈ mgr.mempool.spends.values ∧ i ≠ item := by
        rw [hspends, OrderedDict.mem_values, OrderedDict.mem_values]
        constructor
        · rintro ⟨n, hn⟩
          rw [OrderedDict.get?_erase] at hn
          split at hn
          · cases hn
          · rename_i hne
            refine ⟨⟨n, hn⟩, fun heq => hne ?_⟩
            rw [hinv.pool.name hn, heq]
        · rintro ⟨⟨n, hn⟩, hne⟩
          refine ⟨n, ?_⟩
          rw [OrderedDict.get?_erase, if_neg, hn]
          intro heq
          rw [heq, hinv.pool.get?_of_mem hitem] at hn
          exact hne (Option.some.inj hn).symm
      rw [hleft]
      refine and_congr_right fun hi => not_congr ⟨fun heq => heq ▸ hname, fun hmem => ?_⟩
      have := hinv.pool.removals.mpr ⟨hi, hmem⟩
      rw [hget] at this
      exact (Option.some.inj this).symm

/-- **The items that the first branch leaves** are those that spend no coin of the block. -/
theorem kickSpends_spec (hinv : ManagerInv T constants coins mgr) (npcResult : NPCResult) :
    ∃ s, kickSpends T npcResult mgr = .ok () s ∧ ManagerInv T constants coins s ∧ s.peak = mgr.peak ∧
      ∀ i, i ∈ s.mempool.spends.values ↔
        i ∈ mgr.mempool.spends.values ∧ FreeOf T (spentNames npcResult) i := by
  unfold kickSpends spentNames
  generalize (npcResult.conds.map SpendBundleConditions.spends).getD [] = spends
  induction spends generalizing mgr with
  | nil => exact ⟨mgr, rfl, hinv, rfl, fun i => by simp [FreeOf]⟩
  | cons spend spends ih =>
    obtain ⟨s₁, heq₁, hinv₁, hpeak₁, hmem₁⟩ := kickSpent_spec hinv spend
    obtain ⟨s, heq, hinv', hpeak, hmem⟩ := ih hinv₁
    refine ⟨s, (forEach_cons heq₁).trans heq, hinv', hpeak.trans hpeak₁, fun i => ?_⟩
    rw [hmem, hmem₁, and_assoc, FreeOf, FreeOf, List.map_cons, List.forall_mem_cons]

/-! ## The branch that adds every item again -/

/-- The items of the mempool are valid at a block, which is the peak of the manager. -/
structure AtBlock (T : MempoolTools K) (constants : MempoolConstants) {H : Hashes} (W : CoinWorld H)
    (b : TxBlock) (table : CoinTable) (mgr : MempoolManager K) : Prop where
  inv : ManagerInv T constants W.coins mgr
  peak : mgr.peak = some b.record
  valid : ∀ i ∈ mgr.mempool.spends.values, ∃ conds,
    ItemValid T constants table b.record.height b.timestamp i conds

variable {H : Hashes} {W : CoinWorld H} {p b : TxBlock} {table table' : CoinTable}

omit [LinearOrder K] in
lemma ItemValid.removalNames_eq {item : MempoolItem} {conds : SpendBundleConditions} {height timestamp : ℕ}
    (h : ItemValid T constants table height timestamp item conds)
    (hstore : table.Named T.coinName) : item.removalNames T = conds.spends.map Spend.coinId := by
  have hall : List.Forall₂ (fun (spend : Spend) coin => spend.coinId = T.coinName coin) conds.spends
      item.removals := by
    refine h.spends.imp fun spend coin hvalid => ?_
    rcases hvalid.source with ⟨hdict, -⟩ | ⟨-, row, hrow, rfl, -⟩
    · exact (mem_of_additionsDictOf hdict).2.symm
    · obtain ⟨hmem, hname⟩ := mem_of_find hrow
      exact hname.symm.trans (hstore row hmem)
  have heq := List.forall₂_map_right_iff.mpr (List.forall₂_map_left_iff.mpr hall)
  rw [List.forall₂_eq_eq_eq] at heq
  exact heq.symm

variable {newSpend : SpendBundle} {npcResult : NPCResult} {spendName : Bytes32} {program : Option SerializedProgram}

lemma addSpendbundle_of_failed {code : ℕ}
    (h : admission T constants table mgr newSpend npcResult spendName program = .error (.failed code)) :
    addSpendbundle T constants table newSpend npcResult spendName program mgr =
      .ok (none, .failed, some code) mgr := by
  refine (bind_ok (get_apply mgr)).trans ?_
  rw [h]
  rfl

lemma addSpendbundle_of_room {item : MempoolItem}
    (h : admission T constants table mgr newSpend npcResult spendName program = .ok (item, []))
    (hroom : mgr.mempool.totalMempoolCost + item.cost ≤ mgr.mempool.maxSizeInCost) :
    addSpendbundle T constants table newSpend npcResult spendName program mgr =
      .ok (some item.cost, .success, none) { mgr with mempool := mgr.mempool.insertItem T item } := by
  have hadd : replaceItems T item [] mgr = .ok () { mgr with mempool := mgr.mempool.insertItem T item } := by
    refine (bind_ok (pure_apply () mgr)).trans ?_
    exact zoom_ok mempool mgr (Mempool.addToPool_of_room hroom) _ _
  refine (bind_ok (get_apply mgr)).trans ?_
  rw [h]
  exact (bind_ok hadd).trans rfl

lemma nodup_names {m : Mempool K} (hm : m.Consistent T) :
    (m.spends.values.map MempoolItem.spendBundleName).Nodup := by
  have hkeys : m.spends.values.map MempoolItem.spendBundleName = m.spends.keys := by
    unfold OrderedDict.values OrderedDict.keys
    rw [List.map_map]
    apply List.map_congr_left
    rintro ⟨n, i⟩ he
    exact (hm.name (OrderedDict.get?_eq_some.mpr he)).symm
  rw [hkeys]
  exact m.spends.nodup

lemma sum_map_le_of_subset {α : Type} (f : α → ℕ) {l l' : List α} (hl : l.Nodup) (hsub : l ⊆ l') :
    (l.map f).sum ≤ (l'.map f).sum := by
  obtain ⟨l₀, hperm, hsublist⟩ := List.subperm_of_subset hl hsub
  rw [← (hperm.map f).sum_eq]
  exact (hsublist.map f).sum_le_sum fun _ _ => Nat.zero_le _

section Rebuild

variable (hT : T.coinName = H.coinName) (hp : W.CoinSetAt p table) (hb : b ∈ W.blocks) (hpb : p.Follows b)
  (htable : b.addTo H table = .ok table') {old : Mempool K}
  (hold : old.PoolInv T W.coins constants.maxCost)
  (hsize : old.maxSizeInCost = constants.mempoolMaxTotalCost)
  (hvalid : ∀ i ∈ old.spends.values, ∃ conds, ItemValid T constants table p.record.height p.timestamp i conds)

include hT hp hb hpb htable hold hsize hvalid

/-- A round of the second branch: the item is added again, unless the block spends one of its coins. -/
lemma readdItem_spec {l₁ l₂ : List MempoolItem} {x : MempoolItem} (hl : old.spends.values = l₁ ++ x :: l₂)
    (hinv : ManagerInv T constants W.coins mgr) (hpeak : mgr.peak = some b.record)
    (hmem : ∀ i, i ∈ mgr.mempool.spends.values ↔ i ∈ l₁ ∧ FreeOf T b.removals i) :
    ∃ s, readdItem T constants table' x mgr = .ok () s ∧ ManagerInv T constants W.coins s ∧
      s.peak = mgr.peak ∧ ∀ i, i ∈ s.mempool.spends.values ↔ i ∈ l₁ ++ [x] ∧ FreeOf T b.removals i := by
  have hsound := hp.sound
  have hstore : table.Named T.coinName := by
    rw [hT]
    exact hsound.named
  have hx : x ∈ old.spends.values := by
    rw [hl]
    exact List.mem_append_right _ List.mem_cons_self
  have hsub : ∀ i ∈ mgr.mempool.spends.values, i ∈ old.spends.values := by
    intro i hi
    rw [hl]
    exact List.mem_append_left _ ((hmem i).mp hi).1
  have hnames := nodup_names hold.toConsistent
  rw [hl, List.map_append, List.map_cons] at hnames
  -- no item of the new mempool has the name of the item
  have hdiff : ∀ i ∈ mgr.mempool.spends.values, i.spendBundleName ≠ x.spendBundleName := by
    intro i hi heq
    refine (List.nodup_append.mp hnames).2.2 _ (List.mem_map_of_mem ((hmem i).mp hi).1) _ ?_ heq
    exact List.mem_cons_self
  have hfresh : mgr.mempool.spends.get? x.spendBundleName = none := by
    cases hget : mgr.mempool.spends.get? x.spendBundleName with
    | none => rfl
    | some i => exact absurd (hinv.pool.name hget).symm (hdiff i (OrderedDict.mem_values.mpr ⟨_, hget⟩))
  have hroom : mgr.mempool.totalMempoolCost + x.cost ≤ mgr.mempool.maxSizeInCost := by
    have hnodup : (x :: mgr.mempool.spends.values).Nodup :=
      List.nodup_cons.mpr ⟨fun hi => hdiff x hi rfl, (nodup_names hinv.pool.toConsistent).of_map⟩
    have hle := sum_map_le_of_subset MempoolItem.cost hnodup (List.cons_subset.mpr ⟨hx, hsub⟩)
    have hcost := hold.cost_le
    rw [hold.cost, hsize] at hcost
    rw [hinv.pool.cost, hinv.size]
    rw [List.map_cons, List.sum_cons] at hle
    omega
  obtain ⟨conds, hitem⟩ := hvalid x hx
  have hcoins := (hold.items x hx).coins
  have hremovals := hitem.removalNames_eq hstore
  by_cases hfree : FreeOf T b.removals x
  · -- the item is valid at the new block
    have hitem' : ItemValid T constants table' b.record.height b.timestamp x conds := by
      refine hitem.extend htable hpb.height.le hpb.timestamp.le fun spend hspend hspent => ?_
      refine hfree _ hspent ?_
      rw [hremovals]
      exact List.mem_map_of_mem hspend
    have htime : b.record.timestamp = some b.timestamp := by
      obtain ⟨t, ht⟩ := Option.isSome_iff_exists.mp (W.isTransactionBlock b hb)
      rw [TxBlock.timestamp, ht]
      rfl
    have hnone : ∀ c ∈ x.removalNames T, mgr.mempool.removals.get? c = none := by
      intro c hc
      cases hget : mgr.mempool.removals.get? c with
      | none => rfl
      | some i =>
        obtain ⟨hi, hci⟩ := hinv.pool.removals.mp hget
        have heq := hold.removals.mpr ⟨hsub i hi, hci⟩
        rw [hold.removals.mpr ⟨hx, hc⟩] at heq
        exact absurd (congrArg MempoolItem.spendBundleName (Option.some.inj heq).symm) (hdiff i hi)
    obtain ⟨records, hadmitted⟩ :=
      hitem'.admitted hpeak htime (W.height_lt b hb) hfresh hroom hnone
    have hadd := addSpendbundle_of_room (admission_eq_ok.mpr ⟨_, _, _, hadmitted⟩) hroom
    have hinj : Set.InjOn T.coinName W.coins := by
      rw [hT]
      exact W.coinName_injOn
    refine ⟨_, (bind_ok hadd).trans rfl, ⟨hinv.pool.insertItem hinj (hold.items x hx) hfresh hnone hroom,
      hinv.size, hinv.pending⟩, rfl, fun i => ?_⟩
    show i ∈ (mgr.mempool.spends.set x.spendBundleName x).values ↔ _
    rw [OrderedDict.mem_values, List.mem_append, List.mem_singleton, or_and_right, ← hmem,
      OrderedDict.mem_values]
    constructor
    · rintro ⟨n, hn⟩
      rw [OrderedDict.get?_set] at hn
      split at hn
      · obtain rfl := Option.some.inj hn
        exact .inr ⟨rfl, hfree⟩
      · exact .inl ⟨n, hn⟩
    · rintro (⟨n, hn⟩ | ⟨rfl, -⟩)
      · refine ⟨n, ?_⟩
        rw [OrderedDict.get?_set, if_neg, hn]
        rintro rfl
        rw [hfresh] at hn
        cases hn
      · exact ⟨i.spendBundleName, by rw [OrderedDict.get?_set, if_pos rfl]⟩
  · -- the block spends a coin of the item
    have hspent : ∃ spend ∈ conds.spends, spend.coinId ∈ b.removals := by
      unfold FreeOf at hfree
      push Not at hfree
      obtain ⟨n, hn, hmem⟩ := hfree
      rw [hremovals] at hmem
      obtain ⟨spend, hspend, rfl⟩ := List.mem_map.mp hmem
      exact ⟨spend, hspend, hn⟩
    obtain ⟨spend, hspend, hspent⟩ := hspent
    have hfail := addSpendbundle_of_failed (hitem.admission_of_mem_removals hT hsound hcoins htable hb
      hpb.height.le hspend hspent hpeak hfresh hroom)
    refine ⟨{ mgr with seenBundleHashes := mgr.seenBundleHashes.erase x.spendBundleName },
      (bind_ok hfail).trans rfl, ⟨hinv.pool, hinv.size, hinv.pending⟩, rfl, fun i => ?_⟩
    show i ∈ mgr.mempool.spends.values ↔ _
    rw [hmem, List.mem_append, List.mem_singleton, or_and_right]
    constructor
    · exact .inl
    · rintro (hi | ⟨rfl, hi⟩)
      · exact hi
      · exact absurd hi hfree

lemma forEach_readdItem_spec {l₁ l₂ : List MempoolItem} (hl : old.spends.values = l₁ ++ l₂)
    (hinv : ManagerInv T constants W.coins mgr) (hpeak : mgr.peak = some b.record)
    (hmem : ∀ i, i ∈ mgr.mempool.spends.values ↔ i ∈ l₁ ∧ FreeOf T b.removals i) :
    ∃ s, forEach l₂ (readdItem T constants table') mgr = .ok () s ∧ ManagerInv T constants W.coins s ∧
      s.peak = mgr.peak ∧
      ∀ i, i ∈ s.mempool.spends.values ↔ i ∈ old.spends.values ∧ FreeOf T b.removals i := by
  induction l₂ generalizing mgr l₁ with
  | nil =>
    rw [List.append_nil] at hl
    exact ⟨mgr, rfl, hinv, rfl, fun i => by rw [hmem, hl]⟩
  | cons x l₂ ih =>
    obtain ⟨s₁, heq₁, hinv₁, hpeak₁, hmem₁⟩ :=
      readdItem_spec hT hp hb hpb htable hold hsize hvalid hl hinv hpeak hmem
    obtain ⟨s, heq, hinv', hpeak', hmem'⟩ :=
      ih (by rw [hl, List.append_assoc, List.singleton_append]) hinv₁ (hpeak₁.trans hpeak) hmem₁
    exact ⟨s, (forEach_cons heq₁).trans heq, hinv', hpeak'.trans hpeak₁, hmem'⟩

end Rebuild

/-- **The items that the second branch leaves** are those that spend no coin of the block. -/
theorem readdItems_spec (hT : T.coinName = H.coinName) (hp : W.CoinSetAt p table) (hb : b ∈ W.blocks)
    (hpb : p.Follows b) (htable : b.addTo H table = .ok table') (hinv : ManagerInv T constants W.coins mgr)
    (hpeak : mgr.peak = some b.record)
    (hvalid : ∀ i ∈ mgr.mempool.spends.values, ∃ conds,
      ItemValid T constants table p.record.height p.timestamp i conds) :
    ∃ s, readdItems T constants table' mgr = .ok () s ∧ ManagerInv T constants W.coins s ∧
      s.peak = mgr.peak ∧
      ∀ i, i ∈ s.mempool.spends.values ↔ i ∈ mgr.mempool.spends.values ∧ FreeOf T b.removals i := by
  obtain ⟨s, heq, hinv', hpeak', hmem⟩ := @forEach_readdItem_spec _ _ T constants
    { mgr with mempool := .new constants.mempoolMaxTotalCost } H W p b table table' hT hp hb hpb htable
    mgr.mempool hinv.pool hinv.size hvalid [] mgr.mempool.spends.values rfl
    ⟨Mempool.poolInv_new _, rfl, hinv.pending⟩ hpeak fun i => ⟨(fun hi => nomatch hi), fun hi => nomatch hi.1⟩
  refine ⟨s, ?_, hinv', hpeak', hmem⟩
  refine (bind_ok (get_apply mgr)).trans ?_
  exact (bind_ok (modify_apply _ mgr)).trans heq

end Manager

end MempoolManager

end Chives
