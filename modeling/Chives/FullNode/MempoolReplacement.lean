import Chives.FullNode.MempoolRuns

set_option autoImplicit false

/-!
# Replacement and eviction

What `add_spendbundle` takes out of the mempool: items that conflict with the new one, and items that make room for it.

## Main definitions

* `Mempool.conflictingItems` — the items that spend a coin of another one.
* `Mempool.Replaced` — what is taken out for a new item pays less.

## Main results

* `Mempool.sum_above_rate` — above the smallest fee rate there is room for the new item.
* `Mempool.evict_rate` — eviction only takes items out that are not above such a rate.
* `MempoolManager.replaced_of_addSpendbundle` — a new item only replaces items that pay less; a call without success
  leaves the mempool as it is.

## Design

The rate is found before the conflicting items are removed. The items above it are those that may stay: this sum only gets
smaller when items are removed, in whatever order.
-/

namespace Chives

open StateRun

section Mempool

variable {K : Type} [LinearOrder K] {T : MempoolTools K} {m m' : Mempool K} {item : MempoolItem} {coins : Set Coin}
  {maxCost : ℕ}

namespace Mempool

/-! ## The items in their order -/

/-- The cost of an item above a rate. -/
def costAbove (T : MempoolTools K) (rate : K) (i : MempoolItem) : ℕ := if rate < i.feePerCost T then i.cost else 0

lemma nodup_values {d : OrderedDict Bytes32 MempoolItem} (h : ∀ n i, d.get? n = some i → n = i.spendBundleName) :
    d.values.Nodup := by
  have hkeys : d.values.map MempoolItem.spendBundleName = d.keys := by
    unfold OrderedDict.values OrderedDict.keys
    rw [List.map_map]
    apply List.map_congr_left
    rintro ⟨n, i⟩ he
    exact (h n i (OrderedDict.get?_eq_some.mpr he)).symm
  apply List.Nodup.of_map MempoolItem.spendBundleName
  rw [hkeys]
  exact d.nodup

lemma Consistent.nodup_spends (h : m.Consistent T) : m.spends.values.Nodup := nodup_values fun _ _ hn => h.name hn

variable {i : MempoolItem}

lemma Consistent.mem_sortedItems (h : m.Consistent T) {k : K} :
    (k, i) ∈ m.sortedItems ↔ i ∈ m.spends.values ∧ k = i.feePerCost T := by
  unfold sortedItems
  rw [List.mem_flatMap]
  constructor
  · rintro ⟨e, he, hmem⟩
    obtain ⟨j, hj, heq⟩ := List.mem_map.mp hmem
    obtain ⟨rfl, rfl⟩ := Prod.mk.inj heq
    obtain ⟨n, hn⟩ := OrderedDict.mem_values.mp hj
    obtain ⟨hget, hkey⟩ := h.sorted.mp ⟨e.2, SortedDict.get?_eq_some.mpr he, hn⟩
    exact ⟨OrderedDict.mem_values.mpr ⟨n, hget⟩, hkey⟩
  · rintro ⟨hi, rfl⟩
    obtain ⟨dic, hdic, hn⟩ := h.sorted.mpr ⟨h.get?_of_mem hi, rfl⟩
    refine ⟨_, SortedDict.get?_eq_some.mp hdic, ?_⟩
    exact List.mem_map_of_mem (OrderedDict.mem_values.mpr ⟨_, hn⟩)

lemma Consistent.nodup_sortedItems (h : m.Consistent T) : m.sortedItems.Nodup := by
  unfold sortedItems
  rw [List.nodup_flatMap]
  constructor
  · intro e he
    have hget := SortedDict.get?_eq_some.mpr he
    have hvalues : e.2.values.Nodup := nodup_values fun n i hn => h.name (h.sorted.mp ⟨e.2, hget, hn⟩).1
    exact hvalues.map fun i j hij => (Prod.mk.inj hij).2
  · have hkeys : m.sortedSpends.entries.Pairwise fun e e' => e.1 ≠ e'.1 := List.pairwise_map.mp m.sortedSpends.nodup
    refine hkeys.imp fun {e e'} hne x hx hx' => hne ?_
    obtain ⟨i, -, rfl⟩ := List.mem_map.mp hx
    obtain ⟨j, -, heq⟩ := List.mem_map.mp hx'
    exact (Prod.mk.inj heq).1.symm

lemma pairwise_sortedItems (m : Mempool K) : m.sortedItems.Pairwise fun a b => a.1 ≤ b.1 := by
  unfold sortedItems
  rw [List.pairwise_flatMap]
  constructor
  · intro e _
    rw [List.pairwise_map]
    exact List.pairwise_of_forall fun _ _ => le_rfl
  · refine (List.pairwise_map.mp m.sortedSpends.sorted).imp fun hlt x hx y hy => ?_
    obtain ⟨i, -, rfl⟩ := List.mem_map.mp hx
    obtain ⟨j, -, rfl⟩ := List.mem_map.mp hy
    exact hlt.le

lemma Consistent.sortedItems_perm (h : m.Consistent T) :
    m.sortedItems.Perm (m.spends.values.map fun i => (i.feePerCost T, i)) := by
  have hnodup : (m.spends.values.map fun i => (i.feePerCost T, i)).Nodup :=
    h.nodup_spends.map fun i j hij => (Prod.mk.inj hij).2
  refine (List.perm_ext_iff_of_nodup h.nodup_sortedItems hnodup).mpr fun e => ?_
  obtain ⟨k, i⟩ := e
  rw [h.mem_sortedItems, List.mem_map]
  constructor
  · rintro ⟨hi, rfl⟩
    exact ⟨i, hi, rfl⟩
  · rintro ⟨j, hj, heq⟩
    obtain ⟨rfl, rfl⟩ := Prod.mk.inj heq
    exact ⟨hj, rfl⟩

/-! ## The rate -/

variable {cost : ℕ} {rate : K}

/-- **The loop of `get_min_fee_rate`** stops at a rate above which there is room.

**Proof sketch.** Induction on the items. The items before the one at which the loop stops are not above its rate. -/
lemma minFeeRateFrom_spec {max : ℕ} {l : List (K × MempoolItem)} {current : ℤ}
    (hsorted : l.Pairwise fun a b => a.1 ≤ b.1) (h : minFeeRateFrom max cost l current = .ok rate) :
    (∃ e ∈ l, e.1 = rate) ∧
      (((l.map fun e => if rate < e.1 then e.2.cost else 0).sum : ℕ) : ℤ) +
        (current - ((l.map fun e => e.2.cost).sum : ℕ)) + cost ≤ max := by
  induction l generalizing current with
  | nil => cases h
  | cons e l ih =>
    obtain ⟨k, i⟩ := e
    obtain ⟨hle, hsorted⟩ := List.pairwise_cons.mp hsorted
    unfold minFeeRateFrom at h
    split at h
    next hroom =>
      obtain rfl : k = rate := Except.ok.inj h
      refine ⟨⟨_, List.mem_cons_self, rfl⟩, ?_⟩
      have hless : (l.map fun e => if k < e.1 then e.2.cost else 0).sum ≤ (l.map fun e => e.2.cost).sum := by
        refine List.sum_le_sum fun e _ => ?_
        split
        · exact le_rfl
        · exact Nat.zero_le _
      simp only [List.map_cons, List.sum_cons, lt_self_iff_false, if_false, Nat.cast_add, Nat.cast_zero]
      omega
    next =>
      obtain ⟨⟨e, he, hrate⟩, hsum⟩ := ih hsorted h
      refine ⟨⟨e, List.mem_cons_of_mem _ he, hrate⟩, ?_⟩
      have hnot : ¬ rate < k := not_lt.mpr (hrate ▸ hle e he)
      simp only [List.map_cons, List.sum_cons, if_neg hnot, Nat.cast_add, Nat.cast_zero]
      omega

/-- **Above the smallest fee rate there is room**: without the items that are not above it the new item fits. -/
lemma sum_above_rate (h : m.Consistent T) (hfull : m.atFullCapacity cost = true)
    (hrate : m.getMinFeeRate T cost = .ok rate) :
    (m.spends.values.map (costAbove T rate)).sum + cost ≤ m.maxSizeInCost := by
  rw [getMinFeeRate, if_pos hfull] at hrate
  have hspec := (minFeeRateFrom_spec m.pairwise_sortedItems hrate).2
  have hperm := h.sortedItems_perm
  have habove := (hperm.map fun e => if rate < e.1 then e.2.cost else 0).sum_eq
  have hall := (hperm.map fun e => e.2.cost).sum_eq
  rw [List.map_map] at habove hall
  have hcost := h.cost
  have habove' : (m.sortedItems.map fun e => if rate < e.1 then e.2.cost else 0).sum =
      (m.spends.values.map (costAbove T rate)).sum := habove
  have hall' : (m.sortedItems.map fun e => e.2.cost).sum = (m.spends.values.map MempoolItem.cost).sum := hall
  omega

/-! ## Eviction -/

/-- The first item has the lowest fee per cost. -/
lemma Consistent.lowestItem_le (h : m.Consistent T) (hlowest : m.lowestItem = some i) :
    i ∈ m.spends.values ∧ ∀ j ∈ m.spends.values, i.feePerCost T ≤ j.feePerCost T := by
  unfold Mempool.lowestItem at hlowest
  cases hentries : m.sortedSpends.entries with
  | nil =>
    rw [hentries] at hlowest
    cases hlowest
  | cons e entries =>
    rw [hentries] at hlowest
    have hhead : e.2.values.head? = some i := hlowest
    obtain ⟨rest, hvalues⟩ : ∃ rest, e.2.values = i :: rest := by
      cases hv : e.2.values with
      | nil =>
        rw [hv] at hhead
        cases hhead
      | cons j rest =>
        rw [hv] at hhead
        obtain rfl := Option.some.inj hhead
        exact ⟨rest, rfl⟩
    have hitems : m.sortedItems = (e.1, i) :: (rest.map (fun j => (e.1, j)) ++
        entries.flatMap fun e => e.2.values.map fun j => (e.1, j)) := by
      unfold sortedItems
      rw [hentries, List.flatMap_cons, hvalues]
      rfl
    have hsorted := m.pairwise_sortedItems
    have hmem : (e.1, i) ∈ m.sortedItems := by
      rw [hitems]
      exact List.mem_cons_self
    obtain ⟨hi, hkey⟩ := h.mem_sortedItems.mp hmem
    refine ⟨hi, fun j hj => ?_⟩
    have hj : (j.feePerCost T, j) ∈ m.sortedItems := h.mem_sortedItems.mpr ⟨hj, rfl⟩
    rw [hitems] at hsorted hj
    rw [← hkey]
    rcases List.mem_cons.mp hj with heq | hj
    · rw [(Prod.mk.inj heq).1]
    · exact (List.pairwise_cons.mp hsorted).1 _ hj

/-- **Eviction takes out no item above a rate** above which there is room.

**Proof sketch.** As long as the mempool is full, an item that is not above the rate is left, and so is the lowest one. -/
lemma evict_rate {fuel : ℕ} (h : m.PoolInv T coins maxCost)
    (hroom : (m.spends.values.map (costAbove T rate)).sum + cost ≤ m.maxSizeInCost)
    (hok : evict T cost fuel m = .ok () m') (hi : i ∈ m.spends.values) (hout : i ∉ m'.spends.values) :
    i.feePerCost T ≤ rate := by
  induction fuel generalizing m with
  | zero => cases hok
  | succ fuel ih =>
    unfold evict at hok
    cases hfull : m.atFullCapacity cost with
    | false =>
      rw [hfull] at hok
      cases hok
      exact absurd hi hout
    | true =>
      rw [hfull, if_pos rfl] at hok
      cases hlowest : m.lowestItem with
      | none =>
        rw [hlowest] at hok
        cases hok
      | some low =>
        obtain ⟨hlow, hle⟩ := h.toConsistent.lowestItem_le hlowest
        have hrate : low.feePerCost T ≤ rate := by
          by_contra habove
          have hall : m.spends.values.map (costAbove T rate) = m.spends.values.map MempoolItem.cost := by
            refine List.map_congr_left fun j hj => ?_
            rw [costAbove, if_pos ((not_le.mp habove).trans_le (hle j hj))]
          rw [hall] at hroom
          have htotal := h.cost
          simp only [atFullCapacity, decide_eq_true_eq] at hfull
          omega
        obtain ⟨m₁, heq, hm₁, hspends, hmax⟩ := removeFromPool_spec h hlow
        rw [hlowest] at hok
        dsimp only at hok
        rw [bind_ok heq] at hok
        by_cases hsame : i = low
        · rw [hsame]
          exact hrate
        · have hless := @OrderedDict.sum_erase _ _ _ m.spends low.spendBundleName low (costAbove T rate)
            (h.get?_of_mem hlow)
          rw [← hspends] at hless
          refine ih hm₁ (by omega) hok ?_
          rw [hspends, OrderedDict.mem_values]
          refine ⟨i.spendBundleName, ?_⟩
          rw [OrderedDict.get?_erase, if_neg, h.get?_of_mem hi]
          intro hname
          have hget := h.get?_of_mem hi
          rw [hname, h.get?_of_mem hlow] at hget
          exact hsame (Option.some.inj hget).symm

lemma exists_evict (hok : addToPool T item m = .ok () m') :
    ∃ m₁, evict T item.cost (m.spends.values.length + 1) m = .ok () m₁ ∧ m' = m₁.insertItem T item := by
  unfold addToPool at hok
  rw [bind_ok (get_apply m)] at hok
  cases hrun : evict T item.cost (m.spends.values.length + 1) m with
  | ok u m₁ =>
    rw [bind_ok hrun] at hok
    cases hok
    exact ⟨m₁, rfl, rfl⟩
  | error e m₁ =>
    rw [bind_error hrun] at hok
    cases hok

/-- **Adding an item to a mempool** takes others out only if it is full, and none above a rate above which there is room. -/
lemma addToPool_rate (h : m.PoolInv T coins maxCost) (hcost : item.cost ≤ m.maxSizeInCost)
    (hname : m.spends.get? item.spendBundleName = none) (hok : addToPool T item m = .ok () m')
    (hi : i ∈ m.spends.values) (hout : i ∉ m'.spends.values) : m.atFullCapacity item.cost = true ∧
      ∀ rate, (m.spends.values.map (costAbove T rate)).sum + item.cost ≤ m.maxSizeInCost → i.feePerCost T ≤ rate := by
  obtain ⟨m₁, hevict, rfl⟩ := exists_evict hok
  have hout₁ : i ∉ m₁.spends.values := by
    intro hin
    obtain ⟨n, hn⟩ := OrderedDict.mem_values.mp hin
    obtain ⟨m₂, heq, -, hsub, -⟩ := evict_spec h hcost (Nat.lt_succ_self m.spends.values.length)
    rw [hevict] at heq
    obtain rfl : m₁ = m₂ := by
      cases heq
      rfl
    refine hout (OrderedDict.mem_values.mpr ⟨n, ?_⟩)
    show (m₁.spends.set item.spendBundleName item).get? n = some i
    rw [OrderedDict.get?_set, if_neg, hn]
    rintro rfl
    rw [hsub _ i hn] at hname
    cases hname
  refine ⟨?_, fun rate hroom => evict_rate h hroom hevict hi hout₁⟩
  by_contra hroom
  unfold evict at hevict
  rw [if_neg hroom] at hevict
  cases hevict
  exact hout₁ hi

/-! ## What a new item replaces -/

/-- The items that spend a coin of another item. -/
def conflictingItems (T : MempoolTools K) (m : Mempool K) (item : MempoolItem) : List MempoolItem :=
  m.spends.values.filter fun i => ∃ c ∈ i.removalNames T, c ∈ item.removalNames T

/-- **What is taken out for a new item pays less.** The conflicting items are taken out; the new one spends all of their coins,
pays more per cost than they do together, and enough more in total. Other items are only taken out of a full
mempool, and pay less per cost each. -/
structure Replaced (T : MempoolTools K) (before after : Mempool K) (item : MempoolItem) : Prop where
  fresh : before.spends.get? item.spendBundleName = none
  mem : item ∈ after.spends.values
  other : ∀ i ∈ after.spends.values, i = item ∨ i ∈ before.spends.values
  conflicting : ∀ i ∈ conflictingItems T before item, i ∉ after.spends.values
  evicted : ∀ i ∈ before.spends.values, i ∉ after.spends.values → i ∈ conflictingItems T before item ∨
    before.atFullCapacity item.cost = true ∧ i.feePerCost T < item.feePerCost T
  spends : ∀ i ∈ conflictingItems T before item, ∀ c ∈ i.removals, T.coinName c ∈ item.removalNames T
  pays : conflictingItems T before item ≠ [] →
    T.feePerCost ((conflictingItems T before item).map MempoolItem.fee).sum
        ((conflictingItems T before item).map MempoolItem.cost).sum < item.feePerCost T ∧
      ((conflictingItems T before item).map MempoolItem.fee).sum + MempoolManager.getMinFeeIncrease ≤ item.fee

end Mempool

end Mempool

namespace MempoolManager

section Manager

variable {K : Type} [LinearOrder K] {T : MempoolTools K} {constants : MempoolConstants} {coinStore : CoinTable}
  {mgr : MempoolManager K} {newSpend : SpendBundle} {npcResult : NPCResult} {spendName : Bytes32}
  {program : Option SerializedProgram} {item : MempoolItem} {replaced : List MempoolItem} {coins : Set Coin}

/-! ## Conflicting items -/

lemma canReplace_eq_true {l : List MempoolItem} {names : List Bytes32} {fees : ℕ} {feesPerCost : K}
    (h : canReplace T l names fees feesPerCost = .ok true) :
    (∀ i ∈ l, ∀ c ∈ i.removals, T.coinName c ∈ names) ∧
      T.feePerCost (l.map MempoolItem.fee).sum (l.map MempoolItem.cost).sum < feesPerCost ∧
      (l.map MempoolItem.fee).sum + getMinFeeIncrease ≤ fees := by
  unfold canReplace at h
  dsimp only at h
  split at h
  · cases h
  next hspent =>
  split at h
  · cases h
  split at h
  · cases h
  next hrate =>
  refine ⟨fun i hi c hc => ?_, not_le.mp hrate, ?_⟩
  · by_contra hnot
    exact hspent ⟨i, hi, c, hc, hnot⟩
  · have htrue := of_decide_eq_true (Except.ok.inj h)
    omega

lemma replacedItems_pays {m : Mempool K} {records : List (Bytes32 × CoinRecord)}
    (h : replacedItems T m item records = .ok replaced) :
    replaced = [] ∨ canReplace T replaced (records.map Prod.fst) item.fee (item.feePerCost T) = .ok true := by
  unfold replacedItems at h
  split at h
  · exact .inl (Except.ok.inj h).symm
  · obtain ⟨items, -, h⟩ := ExceptRun.bind_eq_ok.mp h
    obtain ⟨replaces, hreplaces, h⟩ := ExceptRun.bind_eq_ok.mp h
    cases replaces with
    | false => cases h
    | true =>
      obtain rfl : items.values = replaced := Except.ok.inj h
      exact .inr (stopRaising_eq_ok.mp hreplaces)
  · cases h

lemma inPool_eq_ok {x : EStateM PyError (Mempool K) Unit} {s s' : MempoolManager K} (h : inPool x s = .ok () s') :
    ∃ m, x s.mempool = .ok () m ∧ s' = { s with mempool := m } := by
  unfold inPool zoom at h
  cases hrun : x s.mempool with
  | ok u m =>
    simp only [hrun] at h
    cases h
    exact ⟨m, rfl, rfl⟩
  | error e m =>
    simp only [hrun] at h
    cases h

lemma sum_le_of_subset {l l' : List MempoolItem} (hnodup : l.Nodup) (hsub : ∀ i ∈ l, i ∈ l') (f : MempoolItem → ℕ) :
    (l.map f).sum ≤ (l'.map f).sum := by
  obtain ⟨m, hperm, hsublist⟩ := hnodup.subperm hsub
  rw [← (hperm.map f).sum_eq]
  exact (hsublist.map f).sum_le_sum fun _ _ => Nat.zero_le _

namespace Admitted

variable {peak : BlockRecord} {conds : SpendBundleConditions} {records : List (Bytes32 × CoinRecord)}
  (h : Admitted T constants coinStore mgr newSpend npcResult spendName program peak conds records item replaced)

include h

lemma replaced_perm (hm : mgr.mempool.Consistent T) : replaced.Perm (mgr.mempool.conflictingItems T item) := by
  obtain ⟨-, hnames, -⟩ := replacedItems_eq_ok hm h.replaced_eq
  refine (List.perm_ext_iff_of_nodup hnames.of_map (hm.nodup_spends.filter _)).mpr fun i => ?_
  rw [h.mem_replaced hm, List.mem_filter, decide_eq_true_iff]
  simp only [hm.removals]
  constructor
  · rintro ⟨c, hc, hi, hci⟩
    exact ⟨hi, c, hci, hc⟩
  · rintro ⟨hi, c, hci, hc⟩
    exact ⟨c, hc, hi, hci⟩

lemma pays (hm : mgr.mempool.Consistent T) (hstore : coinStore.Named T.coinName) :
    (∀ i ∈ mgr.mempool.conflictingItems T item, ∀ c ∈ i.removals, T.coinName c ∈ item.removalNames T) ∧
      (mgr.mempool.conflictingItems T item ≠ [] →
        T.feePerCost ((mgr.mempool.conflictingItems T item).map MempoolItem.fee).sum
            ((mgr.mempool.conflictingItems T item).map MempoolItem.cost).sum < item.feePerCost T ∧
          ((mgr.mempool.conflictingItems T item).map MempoolItem.fee).sum + getMinFeeIncrease ≤ item.fee) := by
  have hperm := h.replaced_perm hm
  have hnames : item.removalNames T = records.map Prod.fst :=
    (h.removalNames_eq hstore).trans (removalRecords_eq_ok h.records_eq).1.symm
  rw [← (hperm.map MempoolItem.fee).sum_eq, ← (hperm.map MempoolItem.cost).sum_eq]
  rcases replacedItems_pays h.replaced_eq with rfl | hreplaces
  · have hnone : mgr.mempool.conflictingItems T item = [] := hperm.symm.eq_nil
    rw [hnone]
    exact ⟨nofun, fun hne => absurd rfl hne⟩
  · obtain ⟨hspent, hpays⟩ := canReplace_eq_true hreplaces
    rw [hnames]
    exact ⟨fun i hi => hspent i (hperm.mem_iff.mpr hi), fun _ => hpays⟩

lemma exists_rate (hfull : mgr.mempool.atFullCapacity item.cost = true) :
    ∃ rate, mgr.mempool.getMinFeeRate T item.cost = .ok rate ∧ rate < item.feePerCost T := by
  have hrate := h.feeRate
  rw [checkFeeRate, if_pos hfull] at hrate
  obtain ⟨-, -, hrate⟩ := ExceptRun.bind_eq_ok.mp hrate
  obtain ⟨rate, hmin, hrate⟩ := ExceptRun.bind_eq_ok.mp hrate
  exact ⟨rate, stopRaising_eq_ok.mp hmin, not_le.mp (failIf_eq_ok.mp hrate)⟩

/-- **The mempool after a bundle is admitted** has the new item for the items that it replaces. -/
theorem replaced_replaceItems (hinj : Set.InjOn T.coinName coins)
    (hm : mgr.mempool.PoolInv T coins constants.maxCost) (hsize : constants.maxCost ≤ mgr.mempool.maxSizeInCost)
    (hstore : coinStore.Named T.coinName) (hcoins : ∀ c ∈ additionsForNpc npcResult, c ∈ coins)
    {s : MempoolManager K} (hok : replaceItems T item replaced mgr = .ok () s) :
    Mempool.Replaced T mgr.mempool s.mempool item := by
  obtain ⟨m, heq, hm', -, hmem, hother⟩ := replaceItems_spec hinj hm hsize hstore hcoins h
  rw [heq] at hok
  obtain rfl : { mgr with mempool := m } = s := by
    cases hok
    rfl
  have hname : item.spendBundleName = spendName := by
    obtain ⟨fees, -, -, -, -, rfl⟩ := h.item_fields
    rfl
  have hfresh : mgr.mempool.spends.get? item.spendBundleName = none := hname ▸ h.fresh
  have hperm := h.replaced_perm hm.toConsistent
  obtain ⟨-, hnodup, -⟩ := replacedItems_eq_ok hm.toConsistent h.replaced_eq
  have hreplaced : ∀ i ∈ replaced, i ∈ mgr.mempool.spends.values := fun i hi =>
    (List.mem_filter.mp (hperm.mem_iff.mp hi)).1
  obtain ⟨m₁, heq₁, hm₁, hsize₁, hget⟩ := forEach_removeFromPool hm hreplaced hnodup
  obtain ⟨m₂, hadd, hm₂⟩ : ∃ m₂, Mempool.addToPool T item m₁ = .ok () m₂ ∧
      ({ mgr with mempool := m } : MempoolManager K) = { mgr with mempool := m₂ } := by
    refine inPool_eq_ok (s := { mgr with mempool := m₁ }) ?_
    rw [← heq, replaceItems, bind_ok heq₁]
  obtain rfl : m = m₂ := congrArg mempool hm₂
  -- the items that are left after the replacement
  have hleft : ∀ i, i ∈ m₁.spends.values ↔ i ∈ mgr.mempool.spends.values ∧ i ∉ replaced := by
    intro i
    rw [OrderedDict.mem_values, OrderedDict.mem_values]
    constructor
    · rintro ⟨n, hn⟩
      exact ⟨⟨n, ((hget n i).mp hn).1⟩, ((hget n i).mp hn).2⟩
    · rintro ⟨⟨n, hn⟩, hnot⟩
      exact ⟨n, (hget n i).mpr ⟨hn, hnot⟩⟩
  have hfewer : ∀ f : MempoolItem → ℕ, (m₁.spends.values.map f).sum ≤ (mgr.mempool.spends.values.map f).sum :=
    sum_le_of_subset hm₁.nodup_spends fun i hi => ((hleft i).mp hi).1
  have hfresh₁ : m₁.spends.get? item.spendBundleName = none := by
    cases hn : m₁.spends.get? item.spendBundleName with
    | none => rfl
    | some i =>
      rw [((hget _ i).mp hn).1] at hfresh
      cases hfresh
  have hcost := (h.ok hstore hcoins).cost_le
  obtain ⟨hspends, hpays⟩ := h.pays hm.toConsistent hstore
  refine ⟨hfresh, hmem, hother, fun i hi hin => ?_, fun i hi hout => ?_, hspends, hpays⟩
  · -- a conflicting item cannot stay beside the new one
    obtain ⟨hi, hconflict⟩ := List.mem_filter.mp hi
    obtain ⟨c, hci, hc⟩ := of_decide_eq_true hconflict
    have hsame := hm'.removals.mpr ⟨hin, hci⟩
    rw [hm'.removals.mpr ⟨hmem, hc⟩] at hsame
    obtain rfl := Option.some.inj hsame
    rw [hm.get?_of_mem hi] at hfresh
    cases hfresh
  · by_cases hrep : i ∈ replaced
    · exact .inl (hperm.mem_iff.mp hrep)
    · obtain ⟨hfull₁, hrate₁⟩ := Mempool.addToPool_rate hm₁ (by omega) hfresh₁ hadd ((hleft i).mpr ⟨hi, hrep⟩) hout
      have hfull : mgr.mempool.atFullCapacity item.cost = true := by
        have hless := hfewer MempoolItem.cost
        have htotal := hm.cost
        have htotal₁ := hm₁.cost
        simp only [Mempool.atFullCapacity, decide_eq_true_eq] at hfull₁ ⊢
        omega
      obtain ⟨rate, hrate, hlt⟩ := h.exists_rate hfull
      have hroom := Mempool.sum_above_rate hm.toConsistent hfull hrate
      have hless := hfewer (Mempool.costAbove T rate)
      exact .inr ⟨hfull, (hrate₁ rate (by omega)).trans_lt hlt⟩

end Admitted

/-! ## The method -/

lemma mempool_of_admission_eq_error {stop : AddStop}
    (h : admission T constants coinStore mgr newSpend npcResult spendName program = .error stop) :
    (after (addSpendbundle T constants coinStore newSpend npcResult spendName program mgr)).mempool = mgr.mempool := by
  unfold addSpendbundle
  rw [bind_ok (get_apply mgr), h]
  cases stop with
  | raised e => rfl
  | failed code => rfl
  | already cost => rfl
  | pending item code =>
    show (after ((zoom potentialCache (fun c (self : MempoolManager K) => { self with potentialCache := c })
      MempoolFailure.raised (PendingTxCache.add item) >>= fun _ =>
        pure (some item.cost, MempoolInclusionStatus.pending, some code)) mgr)).mempool = _
    cases hadd : PendingTxCache.add item mgr.potentialCache with
    | ok u c =>
      rw [bind_ok (zoom_ok potentialCache mgr hadd _ _)]
      rfl
    | error e c =>
      have hzoom : zoom potentialCache (fun c (self : MempoolManager K) => { self with potentialCache := c })
          MempoolFailure.raised (PendingTxCache.add item) mgr = .error (.raised e) { mgr with potentialCache := c } := by
        simp only [zoom, hadd]
      rw [bind_error hzoom]
      rfl

/-- **A new item only replaces items that pay less**, after every run of calls: a call of `add_spendbundle` that succeeds
leaves the mempool as it is (which it does for a bundle that is there already), or has a new item for this bundle, for
which conflicting items and items that make room were taken out as `Replaced` says; a call that does not
succeed leaves the mempool as it is. -/
theorem replaced_of_addSpendbundle (hinj : Set.InjOn T.coinName coins) (hbuffer : 0 < constants.MEMPOOL_BLOCK_BUFFER)
    (ops : List MempoolOp) (hops : ∀ op ∈ ops, op.Ok T coins) (coinStore : CoinTable)
    (hstore : coinStore.Named T.coinName) (newSpend : SpendBundle) (npcResult : NPCResult)
    (hcoins : ∀ c ∈ additionsForNpc npcResult, c ∈ coins) (spendName : Bytes32) (program : Option SerializedProgram) :
    (∀ cost err s, addSpendbundle T constants coinStore newSpend npcResult spendName program (runOps T constants ops) =
        .ok (cost, .success, err) s →
      s.mempool = (runOps T constants ops).mempool ∨ ∃ item, item.spendBundle = newSpend ∧
        item.spendBundleName = spendName ∧ Mempool.Replaced T (runOps T constants ops).mempool s.mempool item) ∧
    ((¬ ∃ cost err s, addSpendbundle T constants coinStore newSpend npcResult spendName program
        (runOps T constants ops) = .ok (cost, .success, err) s) →
      (after (addSpendbundle T constants coinStore newSpend npcResult spendName program
        (runOps T constants ops))).mempool = (runOps T constants ops).mempool) := by
  have hinv : ManagerInv T constants coins (runOps T constants ops) := managerInv_runOps hinj hbuffer hops
  generalize runOps T constants ops = mgr at hinv ⊢
  cases hadm : admission T constants coinStore mgr newSpend npcResult spendName program with
  | error stop =>
    have hsame := mempool_of_admission_eq_error hadm
    refine ⟨fun cost err s hok => .inl ?_, fun _ => hsame⟩
    rw [hok] at hsame
    exact hsame
  | ok result =>
    obtain ⟨item, replaced⟩ := result
    obtain ⟨peak, conds, records, hadmitted⟩ := admission_eq_ok.mp hadm
    have hsize : constants.maxCost ≤ mgr.mempool.maxSizeInCost := by
      rw [hinv.size]
      exact maxCost_le hbuffer
    obtain ⟨m, heq, -⟩ := replaceItems_spec hinj hinv.pool hsize hstore hcoins hadmitted
    have hrun : addSpendbundle T constants coinStore newSpend npcResult spendName program mgr =
        .ok (some item.cost, .success, none) { mgr with mempool := m } := by
      unfold addSpendbundle
      rw [bind_ok (get_apply mgr), hadm]
      exact bind_ok heq
    refine ⟨fun cost err s hok => .inr ⟨item, ?_, ?_, ?_⟩, fun hnot => absurd ⟨_, _, _, hrun⟩ hnot⟩
    · obtain ⟨fees, -, -, -, -, rfl⟩ := hadmitted.item_fields
      rfl
    · obtain ⟨fees, -, -, -, -, rfl⟩ := hadmitted.item_fields
      rfl
    · rw [hrun] at hok
      cases hok
      exact hadmitted.replaced_replaceItems hinj hinv.pool hsize hstore hcoins heq

end Manager

/-! ## A run with a replacement -/

/-- A coin store with one large coin. -/
def largeStore : CoinTable := [storedCoin 20000000]

/-- A peak, and a bundle that spends the large coin for a small fee. -/
def smallFeeOps : List MempoolOp :=
  [.newPeak largeStore (some (txRecord (fun _ => 0) (fun _ => Bytes32.zero) 1)) none,
    .addSpendbundle largeStore (paymentBundle 20000000) (payment 20000000 19999900) Bytes32.zero none]

/-- Another bundle that spends it, for a large fee. -/
def addLargeFee : EStateM.Result MempoolFailure (MempoolManager ℕ) (Option ℕ × MempoolInclusionStatus × Option ℕ) :=
  addSpendbundle amountTools defaultMempoolConstants largeStore (paymentBundle 20000000) (payment 20000000 900)
    (Bytes32.ofNat 1) none (runOps amountTools defaultMempoolConstants smallFeeOps)

/-- Whether a bundle was added. -/
def added : EStateM.Result MempoolFailure (MempoolManager ℕ) (Option ℕ × MempoolInclusionStatus × Option ℕ) → Bool
  | .ok (_, status, _) s => decide (status = .success) && (s.mempool.spends.get? (Bytes32.ofNat 1)).isSome
  | .error _ _ => false

/-- The bundle with the small fee is replaced. -/
theorem replaced_of_addSpendbundle_largeFee : ∃ item : MempoolItem, item.spendBundleName = Bytes32.ofNat 1 ∧
    Mempool.Replaced amountTools (runOps amountTools defaultMempoolConstants smallFeeOps).mempool
      (after addLargeFee).mempool item := by
  have hdec : added addLargeFee = true ∧
      (runOps amountTools defaultMempoolConstants smallFeeOps).mempool.spends.get? (Bytes32.ofNat 1) = none := by
    decide +kernel
  have hinj : Set.InjOn amountTools.coinName
      {c | c.parentCoinInfo = Bytes32.ofNat 20000000 ∧ c.puzzleHash = Bytes32.zero ∧ c.amount < 256 ^ 32} := by
    rintro ⟨p, h, a⟩ ⟨hp, hh, ha⟩ ⟨p', h', a'⟩ ⟨hp', hh', ha'⟩ heq
    obtain rfl : a = a' := Bytes32.ofNat_injOn ha ha' heq
    dsimp only at hp hh hp' hh'
    rw [hp, hh, hp', hh']
  have hcreated : ∀ amount < 256 ^ 32, ∀ c ∈ additionsForNpc (payment 20000000 amount),
      c ∈ {c : Coin | c.parentCoinInfo = Bytes32.ofNat 20000000 ∧ c.puzzleHash = Bytes32.zero ∧ c.amount < 256 ^ 32} := by
    intro amount hamount c hc
    obtain rfl : c = ⟨Bytes32.ofNat 20000000, Bytes32.zero, amount⟩ := List.mem_singleton.mp hc
    exact ⟨rfl, rfl, hamount⟩
  have hstore : largeStore.Named amountTools.coinName := List.forall_mem_singleton.mpr rfl
  have hops : ∀ op ∈ smallFeeOps, op.Ok amountTools
      {c | c.parentCoinInfo = Bytes32.ofNat 20000000 ∧ c.puzzleHash = Bytes32.zero ∧ c.amount < 256 ^ 32} := by
    intro op hop
    simp only [smallFeeOps, List.mem_cons, List.not_mem_nil, or_false] at hop
    rcases hop with rfl | rfl
    · exact hstore
    · exact ⟨hstore, hcreated 19999900 (by norm_num)⟩
  have hreplaced := (@replaced_of_addSpendbundle _ _ amountTools defaultMempoolConstants _ hinj (by decide) smallFeeOps hops largeStore hstore
    (paymentBundle 20000000) (payment 20000000 900) (hcreated 900 (by norm_num)) (Bytes32.ofNat 1) none).1
  obtain ⟨hadded, hbefore⟩ := hdec
  unfold addLargeFee at hadded ⊢
  generalize addSpendbundle amountTools defaultMempoolConstants largeStore (paymentBundle 20000000)
    (payment 20000000 900) (Bytes32.ofNat 1) none (runOps amountTools defaultMempoolConstants smallFeeOps) = result
    at hadded hreplaced ⊢
  cases result with
  | error e s => cases hadded
  | ok r s =>
    obtain ⟨cost, status, err⟩ := r
    obtain ⟨hstatus, hsome⟩ := Bool.and_eq_true_iff.mp hadded
    obtain rfl := of_decide_eq_true hstatus
    rcases hreplaced cost err s rfl with hsame | ⟨item, -, hname, hitem⟩
    · rw [hsame, hbefore] at hsome
      cases hsome
    · exact ⟨item, hname, hitem⟩

end MempoolManager

end Chives
