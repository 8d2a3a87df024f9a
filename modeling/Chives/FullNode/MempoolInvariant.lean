import Chives.FullNode.Mempool

set_option autoImplicit false

/-!
# The dictionaries of the mempool agree

The mempool files its items under their name, under their fee per cost, and under the coins they spend and
create. `PoolInv` says that these dictionaries agree. Both methods that change the mempool keep it, and do not
raise.

## Main definitions

* `Mempool.Consistent` — the dictionaries agree.
* `MempoolItem.Ok`, `Mempool.PoolInv` — what holds of the items too.

## Main results

* `Mempool.removeFromPool_spec`, `Mempool.addToPool_spec` — the methods keep the invariant.

## Design

Coins that items create are told apart by the coins they descend from: the parent of a created coin is spent
by the same item, and coins with the same name are the same, within a given set of coins.
-/

namespace Chives

open StateRun

section Mempool

variable {K : Type} [LinearOrder K] (T : MempoolTools K)

namespace Mempool

/-- The dictionaries of the mempool agree, and its cost is that of its items. -/
structure Consistent (m : Mempool K) : Prop where
  name : ∀ {n i}, m.spends.get? n = some i → n = i.spendBundleName
  sorted : ∀ {k n i}, (∃ dic, m.sortedSpends.get? k = some dic ∧ dic.get? n = some i) ↔
    m.spends.get? n = some i ∧ k = i.feePerCost T
  bucket : ∀ {k dic}, m.sortedSpends.get? k = some dic → dic.values ≠ []
  removals : ∀ {c i}, m.removals.get? c = some i ↔ i ∈ m.spends.values ∧ c ∈ i.removalNames T
  additions : ∀ {c i}, m.additions.get? c = some i ↔ i ∈ m.spends.values ∧ c ∈ i.additionNames T
  cost : m.totalMempoolCost = ((m.spends.values.map MempoolItem.cost).sum : ℕ)
  cost_le : m.totalMempoolCost ≤ m.maxSizeInCost

end Mempool

/-- What holds of an item of the mempool: it spends and creates no coin twice, the coins it creates come from
coins it spends and are among the given ones, and its cost is bounded. -/
structure MempoolItem.Ok (coins : Set Coin) (maxCost : ℕ) (i : MempoolItem) : Prop where
  nodup_removals : (i.removalNames T).Nodup
  nodup_additions : (i.additionNames T).Nodup
  parent : ∀ c ∈ i.additions, c.parentCoinInfo ∈ i.removalNames T
  coins : ∀ c ∈ i.additions, c ∈ coins
  additions_eq : i.additions = additionsForNpc i.npcResult
  cost_pos : 0 < i.cost
  cost_le : i.cost ≤ maxCost

/-- The invariant of the mempool. -/
structure Mempool.PoolInv (coins : Set Coin) (maxCost : ℕ) (m : Mempool K) : Prop
    extends Mempool.Consistent T m where
  items : ∀ i ∈ m.spends.values, i.Ok T coins maxCost

variable {T}

namespace Mempool

/-! ## Removal -/

lemma delKey_eq {κ : Type} [DecidableEq κ] {k : κ} {d : OrderedDict κ MempoolItem} {i : MempoolItem}
    (h : d.get? k = some i) : delKey k d = .ok () (d.erase k) := by
  rw [delKey, h]

lemma forEach_delKey_eq {κ : Type} [DecidableEq κ] {names : List κ} {d : OrderedDict κ MempoolItem}
    (hnodup : names.Nodup) (h : ∀ n ∈ names, ∃ i, d.get? n = some i) :
    forEach names delKey d = .ok () (names.foldl OrderedDict.erase d) := by
  induction names generalizing d with
  | nil => rfl
  | cons n names ih =>
    rw [List.nodup_cons] at hnodup
    obtain ⟨i, hi⟩ := h n List.mem_cons_self
    rw [forEach_cons (delKey_eq hi), List.foldl_cons]
    refine ih hnodup.2 fun n' hn' => ?_
    obtain ⟨i', hi'⟩ := h n' (List.mem_cons_of_mem _ hn')
    refine ⟨i', ?_⟩
    have hne : n' ≠ n := fun heq => hnodup.1 (heq ▸ hn')
    rw [OrderedDict.get?_erase, if_neg hne]
    exact hi'

/-- The mempool without an item. -/
def withoutItem (T : MempoolTools K) (m : Mempool K) (item : MempoolItem)
    (dic : OrderedDict Bytes32 MempoolItem) : Mempool K where
  spends := m.spends.erase item.spendBundleName
  sortedSpends := if (dic.erase item.spendBundleName).values.length = 0 then
      m.sortedSpends.erase (item.feePerCost T)
    else m.sortedSpends.set (item.feePerCost T) (dic.erase item.spendBundleName)
  additions := (item.additionNames T).foldl OrderedDict.erase m.additions
  removals := (item.removalNames T).foldl OrderedDict.erase m.removals
  maxSizeInCost := m.maxSizeInCost
  totalMempoolCost := m.totalMempoolCost - item.cost

variable {m : Mempool K} {item : MempoolItem} {coins : Set Coin} {maxCost : ℕ}

lemma Consistent.get?_of_mem (h : m.Consistent T) (hitem : item ∈ m.spends.values) :
    m.spends.get? item.spendBundleName = some item := by
  obtain ⟨n, hn⟩ := OrderedDict.mem_values.mp hitem
  rw [← h.name hn]
  exact hn

/-- Removing an item of the mempool does not raise. -/
lemma removeFromPool_eq (h : m.PoolInv T coins maxCost) (hitem : item ∈ m.spends.values) :
    ∃ dic, m.sortedSpends.get? (item.feePerCost T) = some dic ∧
      removeFromPool T item m = .ok () (m.withoutItem T item dic) := by
  have hget := h.get?_of_mem hitem
  have hok := h.items item hitem
  obtain ⟨dic, hdic, hdicItem⟩ := h.sorted.mpr ⟨hget, rfl⟩
  refine ⟨dic, hdic, ?_⟩
  have hremovals : forEach (item.removalNames T) delKey m.removals =
      .ok () ((item.removalNames T).foldl OrderedDict.erase m.removals) :=
    forEach_delKey_eq hok.nodup_removals fun n hn => ⟨item, h.removals.mpr ⟨hitem, hn⟩⟩
  have hadditions : forEach (item.additionNames T) delKey m.additions =
      .ok () ((item.additionNames T).foldl OrderedDict.erase m.additions) :=
    forEach_delKey_eq hok.nodup_additions fun n hn => ⟨item, h.additions.mpr ⟨hitem, hn⟩⟩
  have hcost : m.totalMempoolCost - item.cost ≥ 0 := by
    rw [h.cost]
    have := List.single_le_sum (fun _ _ => Nat.zero_le _) item.cost (List.mem_map_of_mem hitem)
    omega
  have hsorted : delSortedSpend T item m.sortedSpends = .ok () (m.withoutItem T item dic).sortedSpends := by
    simp only [delSortedSpend, hdic, hdicItem]
    rfl
  -- the four dictionaries one after another, then the cost
  let m' := m.withoutItem T item dic
  unfold removeFromPool
  refine (bind_ok (zoom_ok removals m hremovals _ _)).trans ?_
  refine (bind_ok (zoom_ok additions { m with removals := m'.removals } hadditions _ _)).trans ?_
  refine (bind_ok (zoom_ok spends { m with removals := m'.removals, additions := m'.additions }
    (delKey_eq hget) _ _)).trans ?_
  refine (bind_ok (zoom_ok sortedSpends { m' with sortedSpends := m.sortedSpends,
                                                  totalMempoolCost := m.totalMempoolCost }
    hsorted _ _)).trans ?_
  refine (bind_ok (modify_apply _ _)).trans ?_
  exact @ensure_ok _ _ m' (fun m => m.totalMempoolCost ≥ 0) _ hcost _

/-- The mempool without one of its items. -/
lemma Consistent.withoutItem (h : m.Consistent T) (hitem : item ∈ m.spends.values)
    {dic : OrderedDict Bytes32 MempoolItem} (hdic : m.sortedSpends.get? (item.feePerCost T) = some dic) :
    (m.withoutItem T item dic).Consistent T := by
  have hget := h.get?_of_mem hitem
  -- the items that are left
  have hspends : ∀ {n i}, (m.spends.erase item.spendBundleName).get? n = some i ↔
      n ≠ item.spendBundleName ∧ m.spends.get? n = some i := by
    intro n i
    rw [OrderedDict.get?_erase]
    by_cases hn : n = item.spendBundleName
    · simp [hn]
    · simp [hn]
  have hvalues : ∀ {i}, i ∈ (m.spends.erase item.spendBundleName).values ↔
      i ∈ m.spends.values ∧ i ≠ item := by
    intro i
    rw [OrderedDict.mem_values, OrderedDict.mem_values]
    constructor
    · rintro ⟨n, hn⟩
      obtain ⟨hne, hn⟩ := hspends.mp hn
      refine ⟨⟨n, hn⟩, fun heq => hne ?_⟩
      rw [h.name hn, heq]
    · rintro ⟨⟨n, hn⟩, hne⟩
      refine ⟨n, hspends.mpr ⟨fun heq => hne ?_, hn⟩⟩
      rw [heq, hget] at hn
      exact (Option.some.inj hn).symm
  have hsorted : ∀ k, (m.withoutItem T item dic).sortedSpends.get? k =
      if k = item.feePerCost T then
        if (dic.erase item.spendBundleName).values.length = 0 then none
        else some (dic.erase item.spendBundleName)
      else m.sortedSpends.get? k := by
    intro k
    show (if (dic.erase item.spendBundleName).values.length = 0 then
        m.sortedSpends.erase (item.feePerCost T)
      else m.sortedSpends.set (item.feePerCost T) (dic.erase item.spendBundleName)).get? k = _
    split
    · exact SortedDict.get?_erase _ _ _
    · exact SortedDict.get?_set _ _ _ _
  have hindex : ∀ {names : MempoolItem → List Bytes32} {d : OrderedDict Bytes32 MempoolItem},
      (∀ {c i}, d.get? c = some i ↔ i ∈ m.spends.values ∧ c ∈ names i) → ∀ {c i},
      ((names item).foldl OrderedDict.erase d).get? c = some i ↔
        i ∈ (m.spends.erase item.spendBundleName).values ∧ c ∈ names i := by
    intro names d hd c i
    rw [OrderedDict.get?_foldl_erase, hvalues]
    constructor
    · intro hc
      split at hc
      · cases hc
      · rename_i hnot
        obtain ⟨hi, hci⟩ := hd.mp hc
        exact ⟨⟨hi, fun heq => hnot (heq ▸ hci)⟩, hci⟩
    · rintro ⟨⟨hi, hne⟩, hci⟩
      have hc := hd.mpr ⟨hi, hci⟩
      rw [if_neg, hc]
      intro hmem
      rw [hd.mpr ⟨hitem, hmem⟩] at hc
      exact hne (Option.some.inj hc).symm
  refine ⟨fun hn => h.name (hspends.mp hn).2, ?_, ?_, hindex h.removals, hindex h.additions, ?_, ?_⟩
  · intro k n i
    rw [hsorted k]
    constructor
    · rintro ⟨dic', hdic', hi⟩
      split at hdic'
      · rename_i hk
        split at hdic'
        · cases hdic'
        · rw [← Option.some.inj hdic', OrderedDict.get?_erase] at hi
          split at hi
          · cases hi
          · rename_i hne
            obtain ⟨hspend, hrate⟩ := h.sorted.mp ⟨dic, hdic, hi⟩
            exact ⟨hspends.mpr ⟨hne, hspend⟩, hk.trans hrate⟩
      · rename_i hk
        obtain ⟨hspend, hrate⟩ := h.sorted.mp ⟨dic', hdic', hi⟩
        refine ⟨hspends.mpr ⟨fun heq => hk ?_, hspend⟩, hrate⟩
        rw [heq, hget] at hspend
        rw [hrate, ← Option.some.inj hspend]
    · rintro ⟨hspend, hrate⟩
      obtain ⟨hne, hspend⟩ := hspends.mp hspend
      obtain ⟨dic', hdic', hi⟩ := h.sorted.mpr ⟨hspend, hrate⟩
      by_cases hk : k = item.feePerCost T
      · rw [if_pos hk]
        obtain rfl : dic = dic' := by
          rw [hk, hdic] at hdic'
          exact Option.some.inj hdic'
        have hleft : (dic.erase item.spendBundleName).get? n = some i := by
          rw [OrderedDict.get?_erase, if_neg hne, hi]
        refine ⟨_, if_neg fun hlen => ?_, hleft⟩
        have hmem := OrderedDict.mem_values.mpr ⟨n, hleft⟩
        rw [List.length_eq_zero_iff.mp hlen] at hmem
        cases hmem
      · rw [if_neg hk]
        exact ⟨dic', hdic', hi⟩
  · intro k dic' hdic'
    rw [hsorted k] at hdic'
    split at hdic'
    · split at hdic'
      · cases hdic'
      · rename_i hlen
        rw [← Option.some.inj hdic']
        exact fun hnil => hlen (by rw [hnil]; rfl)
    · exact h.bucket hdic'
  · show m.totalMempoolCost - item.cost = _
    have hsum := @OrderedDict.sum_erase _ _ _ m.spends item.spendBundleName item MempoolItem.cost hget
    rw [h.cost, ← hsum]
    push_cast
    exact Int.add_sub_cancel _ _
  · show m.totalMempoolCost - item.cost ≤ m.maxSizeInCost
    have := h.cost_le
    omega

lemma PoolInv.withoutItem (h : m.PoolInv T coins maxCost) (hitem : item ∈ m.spends.values)
    {dic : OrderedDict Bytes32 MempoolItem} (hdic : m.sortedSpends.get? (item.feePerCost T) = some dic) :
    (m.withoutItem T item dic).PoolInv T coins maxCost := by
  refine ⟨h.toConsistent.withoutItem hitem hdic, fun i hi => h.items i ?_⟩
  obtain ⟨n, hn⟩ := OrderedDict.mem_values.mp hi
  rw [show (m.withoutItem T item dic).spends = m.spends.erase item.spendBundleName from rfl,
    OrderedDict.get?_erase] at hn
  split at hn
  · cases hn
  · exact OrderedDict.mem_values.mpr ⟨n, hn⟩

/-- **Removing an item of the mempool** does not raise, keeps the invariant and takes out just that item. -/
theorem removeFromPool_spec (h : m.PoolInv T coins maxCost) (hitem : item ∈ m.spends.values) :
    ∃ m', removeFromPool T item m = .ok () m' ∧ m'.PoolInv T coins maxCost ∧
      m'.spends = m.spends.erase item.spendBundleName ∧ m'.maxSizeInCost = m.maxSizeInCost := by
  obtain ⟨dic, hdic, heq⟩ := removeFromPool_eq h hitem
  exact ⟨m.withoutItem T item dic, heq, h.withoutItem hitem hdic, rfl, rfl⟩

/-! ## Insertion -/

/-- The mempool with a new item, whose coins no other item spends or creates. -/
lemma Consistent.insertItem (h : m.Consistent T) (hname : m.spends.get? item.spendBundleName = none)
    (hremovals : ∀ c ∈ item.removalNames T, m.removals.get? c = none)
    (hadditions : ∀ c ∈ item.additionNames T, m.additions.get? c = none)
    (hcost : m.totalMempoolCost + item.cost ≤ m.maxSizeInCost) : (m.insertItem T item).Consistent T := by
  have hspends : ∀ n, (m.insertItem T item).spends.get? n =
      if n = item.spendBundleName then some item else m.spends.get? n :=
    fun n => OrderedDict.get?_set _ _ _ _
  have hvalues : ∀ {i}, i ∈ (m.insertItem T item).spends.values ↔ i = item ∨ i ∈ m.spends.values := by
    intro i
    rw [OrderedDict.mem_values, OrderedDict.mem_values]
    constructor
    · rintro ⟨n, hn⟩
      rw [hspends] at hn
      split at hn
      · exact .inl (Option.some.inj hn).symm
      · exact .inr ⟨n, hn⟩
    · rintro (rfl | ⟨n, hn⟩)
      · exact ⟨i.spendBundleName, by rw [hspends, if_pos rfl]⟩
      · refine ⟨n, ?_⟩
        rw [hspends, if_neg, hn]
        intro heq
        rw [heq, hname] at hn
        cases hn
  have hindex : ∀ {names : MempoolItem → List Bytes32} {d : OrderedDict Bytes32 MempoolItem},
      (∀ {c i}, d.get? c = some i ↔ i ∈ m.spends.values ∧ c ∈ names i) →
      (∀ c ∈ names item, d.get? c = none) → ∀ {c i},
      ((names item).foldl (fun d n => d.set n item) d).get? c = some i ↔
        i ∈ (m.insertItem T item).spends.values ∧ c ∈ names i := by
    intro names d hd hnew c i
    rw [OrderedDict.get?_foldl_set, hvalues]
    constructor
    · intro hc
      split at hc
      · rename_i hmem
        obtain rfl := Option.some.inj hc
        exact ⟨.inl rfl, hmem⟩
      · obtain ⟨hi, hci⟩ := hd.mp hc
        exact ⟨.inr hi, hci⟩
    · rintro ⟨rfl | hi, hci⟩
      · rw [if_pos hci]
      · have hc := hd.mpr ⟨hi, hci⟩
        rw [if_neg, hc]
        intro hmem
        rw [hnew c hmem] at hc
        cases hc
  have hsorted : ∀ k, (m.insertItem T item).sortedSpends.get? k = if k = item.feePerCost T then
      some (((m.sortedSpends.get? (item.feePerCost T)).getD .empty).set item.spendBundleName item)
      else m.sortedSpends.get? k :=
    fun k => SortedDict.get?_set _ _ _ _
  -- the items that were filed under the same fee per cost
  have hold : ∀ {n i}, ((m.sortedSpends.get? (item.feePerCost T)).getD .empty).get? n = some i ↔
      m.spends.get? n = some i ∧ item.feePerCost T = i.feePerCost T := by
    intro n i
    rw [← h.sorted]
    cases hget : m.sortedSpends.get? (item.feePerCost T) with
    | none => simp
    | some dic => simp
  refine ⟨fun {n i} hn => ?_, ?_, ?_, hindex h.removals hremovals, hindex h.additions hadditions, ?_, ?_⟩
  · rw [hspends] at hn
    split at hn
    · rename_i heq
      rw [heq, Option.some.inj hn]
    · exact h.name hn
  · intro k n i
    rw [hsorted, hspends]
    by_cases hk : k = item.feePerCost T
    · rw [if_pos hk]
      have hset : (∃ dic, some (((m.sortedSpends.get? (item.feePerCost T)).getD .empty).set
            item.spendBundleName item) = some dic ∧ dic.get? n = some i) ↔
          (if n = item.spendBundleName then some item else
            ((m.sortedSpends.get? (item.feePerCost T)).getD .empty).get? n) = some i := by
        constructor
        · rintro ⟨dic, hdic, hi⟩
          rw [← Option.some.inj hdic, OrderedDict.get?_set] at hi
          exact hi
        · intro hi
          exact ⟨_, rfl, by rw [OrderedDict.get?_set]; exact hi⟩
      rw [hset]
      by_cases hn : n = item.spendBundleName
      · rw [if_pos hn, if_pos hn]
        constructor
        · intro hi
          exact ⟨hi, by rw [hk, Option.some.inj hi]⟩
        · exact And.left
      · rw [if_neg hn, if_neg hn, hold, hk]
    · rw [if_neg hk, h.sorted]
      by_cases hn : n = item.spendBundleName
      · rw [if_pos hn, hn, hname]
        constructor
        · rintro ⟨hi, -⟩
          cases hi
        · rintro ⟨hi, hrate⟩
          exact absurd (by rw [hrate, Option.some.inj hi]) hk
      · rw [if_neg hn]
  · intro k dic hdic
    rw [hsorted] at hdic
    split at hdic
    · rw [← Option.some.inj hdic]
      intro hnil
      have hnone := OrderedDict.values_eq_nil.mp hnil item.spendBundleName
      rw [OrderedDict.get?_set, if_pos rfl] at hnone
      cases hnone
    · exact h.bucket hdic
  · show m.totalMempoolCost + item.cost =
      ((((m.spends.set item.spendBundleName item).values).map MempoolItem.cost).sum : ℕ)
    rw [OrderedDict.sum_set hname, h.cost]
    push_cast
    rfl
  · exact hcost

/-- The mempool with a new item of which no other one spends a coin.

**Proof sketch.** A coin that the item and another one create has the same parent in both, by the names, and
both spend the parent. -/
lemma PoolInv.insertItem (hinj : Set.InjOn T.coinName coins) (h : m.PoolInv T coins maxCost)
    (hok : item.Ok T coins maxCost) (hname : m.spends.get? item.spendBundleName = none)
    (hremovals : ∀ c ∈ item.removalNames T, m.removals.get? c = none)
    (hcost : m.totalMempoolCost + item.cost ≤ m.maxSizeInCost) :
    (m.insertItem T item).PoolInv T coins maxCost := by
  have hadditions : ∀ c ∈ item.additionNames T, m.additions.get? c = none := by
    intro c hc
    cases hget : m.additions.get? c with
    | none => rfl
    | some i =>
      exfalso
      obtain ⟨hi, hci⟩ := h.additions.mp hget
      obtain ⟨a, ha, rfl⟩ := List.mem_map.mp hc
      obtain ⟨a', ha', heq⟩ := List.mem_map.mp hci
      obtain rfl : a' = a := hinj ((h.items i hi).coins a' ha') (hok.coins a ha) heq
      have hspent := h.removals.mpr ⟨hi, (h.items i hi).parent a' ha'⟩
      rw [hremovals _ (hok.parent a' ha)] at hspent
      cases hspent
  refine ⟨h.toConsistent.insertItem hname hremovals hadditions hcost, fun i hi => ?_⟩
  obtain ⟨n, hn⟩ := OrderedDict.mem_values.mp hi
  rw [show (m.insertItem T item).spends = m.spends.set item.spendBundleName item from rfl,
    OrderedDict.get?_set] at hn
  split at hn
  · rw [← Option.some.inj hn]
    exact hok
  · exact h.items i (OrderedDict.mem_values.mpr ⟨n, hn⟩)

/-! ## Eviction -/

lemma Consistent.lowestItem (h : m.Consistent T) :
    (∃ i, m.lowestItem = some i ∧ i ∈ m.spends.values) ∨ m.spends.values = [] := by
  cases hentries : m.sortedSpends.entries with
  | nil =>
    right
    refine OrderedDict.values_eq_nil.mpr fun n => ?_
    cases hn : m.spends.get? n with
    | none => rfl
    | some i =>
      obtain ⟨dic, hdic, -⟩ := h.sorted.mpr ⟨hn, rfl⟩
      have hmem := SortedDict.get?_eq_some.mp hdic
      rw [hentries] at hmem
      cases hmem
  | cons e entries =>
    left
    have hget : m.sortedSpends.get? e.1 = some e.2 := by
      rw [SortedDict.get?_eq_some, hentries]
      exact List.mem_cons_self
    cases hvalues : e.2.values with
    | nil => exact absurd hvalues (h.bucket hget)
    | cons i values =>
      obtain ⟨n, hn⟩ := OrderedDict.mem_values.mp (show i ∈ e.2.values by rw [hvalues]; simp)
      refine ⟨i, ?_, OrderedDict.mem_values.mpr ⟨n, (h.sorted.mp ⟨e.2, hget, hn⟩).1⟩⟩
      unfold Mempool.lowestItem
      rw [hentries]
      show e.2.values.head? = some i
      rw [hvalues]
      rfl

lemma length_values_erase {d : OrderedDict Bytes32 MempoolItem} {n : Bytes32} (h : d.get? n = some item) :
    (d.erase n).values.length + 1 = d.values.length := by
  have hsum := @OrderedDict.sum_erase _ _ _ d n item (fun _ => 1) h
  simpa using hsum

/-- **Eviction** makes room for an item, does not raise, and only takes items out. -/
lemma evict_spec {cost fuel : ℕ} (h : m.PoolInv T coins maxCost) (hcost : cost ≤ m.maxSizeInCost)
    (hfuel : m.spends.values.length < fuel) :
    ∃ m', evict T cost fuel m = .ok () m' ∧ m'.PoolInv T coins maxCost ∧
      (∀ n i, m'.spends.get? n = some i → m.spends.get? n = some i) ∧
      m'.maxSizeInCost = m.maxSizeInCost ∧ m'.totalMempoolCost + cost ≤ m'.maxSizeInCost := by
  induction fuel generalizing m with
  | zero => omega
  | succ fuel ih =>
    unfold evict
    cases hfull : m.atFullCapacity cost with
    | false =>
      refine ⟨m, by simp, h, fun _ _ hi => hi, rfl, ?_⟩
      simpa [atFullCapacity] using hfull
    | true =>
      rcases h.lowestItem with ⟨i, hlowest, hi⟩ | hnil
      · obtain ⟨m₁, heq, hm₁, hspends, hmax⟩ := removeFromPool_spec h hi
        have hlen := length_values_erase (h.get?_of_mem hi)
        rw [← hspends] at hlen
        obtain ⟨m', heq', hm', hsub, hmax', hfit⟩ := ih hm₁ (by omega) (by omega)
        refine ⟨m', ?_, hm', fun n j hj => ?_, hmax'.trans hmax, hfit⟩
        · simp only [if_pos, hlowest]
          rw [bind_ok heq, heq']
        · have hj := hsub n j hj
          rw [hspends, OrderedDict.get?_erase] at hj
          split at hj
          · cases hj
          · exact hj
      · -- an empty mempool has room
        exfalso
        have htotal := h.cost
        rw [hnil] at htotal
        simp only [atFullCapacity, decide_eq_true_eq] at hfull
        simp at htotal
        omega

/-- **Adding an item** of which no other one spends a coin keeps the invariant and does not raise. Afterwards
the item is in the mempool, with items that were there before. -/
theorem addToPool_spec (hinj : Set.InjOn T.coinName coins) (h : m.PoolInv T coins maxCost)
    (hmax : maxCost ≤ m.maxSizeInCost) (hok : item.Ok T coins maxCost)
    (hname : m.spends.get? item.spendBundleName = none)
    (hremovals : ∀ c ∈ item.removalNames T, m.removals.get? c = none) :
    ∃ m', addToPool T item m = .ok () m' ∧ m'.PoolInv T coins maxCost ∧
      m'.maxSizeInCost = m.maxSizeInCost ∧ m'.spends.get? item.spendBundleName = some item ∧
      ∀ n i, m'.spends.get? n = some i → i = item ∨ m.spends.get? n = some i := by
  obtain ⟨m₁, heq, hm₁, hsub, hsize, hfit⟩ :=
    @evict_spec _ _ T m coins maxCost item.cost (m.spends.values.length + 1) h
      (hok.cost_le.trans hmax) (Nat.lt_succ_self _)
  refine ⟨m₁.insertItem T item, ?_, hm₁.insertItem hinj hok ?_ ?_ hfit, hsize, ?_, fun n i hi => ?_⟩
  · unfold addToPool
    rw [bind_ok (get_apply m), bind_ok heq]
    rfl
  · cases hget : m₁.spends.get? item.spendBundleName with
    | none => rfl
    | some i =>
      rw [hsub _ i hget] at hname
      cases hname
  · intro c hc
    cases hget : m₁.removals.get? c with
    | none => rfl
    | some i =>
      obtain ⟨hi, hci⟩ := hm₁.removals.mp hget
      obtain ⟨n, hn⟩ := OrderedDict.mem_values.mp hi
      have hspent := h.removals.mpr ⟨OrderedDict.mem_values.mpr ⟨n, hsub n i hn⟩, hci⟩
      rw [hremovals c hc] at hspent
      cases hspent
  · show (m₁.spends.set item.spendBundleName item).get? _ = _
    rw [OrderedDict.get?_set, if_pos rfl]
  · have hi : (m₁.spends.set item.spendBundleName item).get? n = some i := hi
    rw [OrderedDict.get?_set] at hi
    split at hi
    · exact .inl (Option.some.inj hi).symm
    · exact .inr (hsub n i hi)

lemma addToPool_of_room (hroom : m.totalMempoolCost + item.cost ≤ m.maxSizeInCost) :
    addToPool T item m = .ok () (m.insertItem T item) := by
  have hfull : m.atFullCapacity item.cost = false := by
    simpa [atFullCapacity] using hroom
  have hevict : evict T item.cost (m.spends.values.length + 1) m = .ok () m := by
    unfold evict
    rw [hfull]
    rfl
  unfold addToPool
  rw [bind_ok (get_apply m), bind_ok hevict]
  rfl

lemma poolInv_new (maxSizeInCost : ℕ) : (Mempool.new maxSizeInCost : Mempool K).PoolInv T coins maxCost where
  name := fun hn => by cases hn
  sorted := by
    intro k n i
    constructor
    · rintro ⟨dic, hdic, -⟩
      cases hdic
    · rintro ⟨hn, -⟩
      cases hn
  bucket := fun hdic => by cases hdic
  removals := by
    intro c i
    constructor
    · intro hc
      cases hc
    · rintro ⟨hi, -⟩
      cases hi
  additions := by
    intro c i
    constructor
    · intro hc
      cases hc
    · rintro ⟨hi, -⟩
      cases hi
  cost := rfl
  cost_le := Int.natCast_nonneg _
  items := fun i hi => by cases hi

end Mempool

end Mempool

end Chives
