import Chives.FullNode.MempoolInvariant
import Chives.FullNode.MempoolManager

set_option autoImplicit false

/-!
# What the mempool admits

`add_spendbundle` runs many checks before it changes the mempool. `Admitted` lists what holds of a bundle that
passes them all.

## Main definitions

* `MempoolManager.Admitted` — a bundle passes the checks.

## Main results

* `MempoolManager.admission_eq_ok` — a bundle is admitted exactly if it passes the checks.
* `MempoolManager.Admitted.ok`, `MempoolManager.Admitted.mem_replaced` — the new item, and the
  items that it replaces.
* `MempoolManager.replaceItems_spec` — the mempool after a bundle is admitted.
-/

namespace Chives

open ExceptRun StateRun

lemma failIf_eq_ok {bad : Prop} [Decidable bad] {err : Err} {u : Unit} :
    failIf bad err = .ok u ↔ ¬bad := by
  unfold failIf
  by_cases h : bad
  · simp [h]
  · simp [h]

lemma stopRaising_eq_ok {α : Type} {x : Except PyError α} {a : α} : stopRaising x = .ok a ↔ x = .ok a :=
  mapError_eq_ok

namespace MempoolManager

section Manager

variable {K : Type} [LinearOrder K] {T : MempoolTools K} {constants : MempoolConstants}

/-! ## The records of the coins -/

/-- The record of a coin that a bundle spends: the bundle creates the coin, or the coin store has it. -/
def RecordFor (coinStore : CoinTable) (peak : BlockRecord) (additionsDict : Dict Bytes32 Coin)
    (name : Bytes32) (record : CoinRecord) : Prop :=
  (∃ coin timestamp, additionsDict.lookup name = some coin ∧ peak.timestamp = some timestamp ∧
      record = ⟨coin, peak.height + 1, 0, false, timestamp⟩) ∨
    (additionsDict.lookup name = none ∧ coinStore.getCoinRecord name = some record)

/-- The records that are found, one for each name. -/
lemma removalRecords_eq_ok {coinStore : CoinTable} {peak : BlockRecord} {additionsDict : Dict Bytes32 Coin}
    {names : List Bytes32} {records : List (Bytes32 × CoinRecord)}
    (h : removalRecords coinStore peak additionsDict names = .ok records) :
    records.map Prod.fst = names ∧
      ∀ e ∈ records, RecordFor coinStore peak additionsDict e.1 e.2 := by
  induction names generalizing records with
  | nil =>
    obtain rfl := Except.ok.inj h
    exact ⟨rfl, fun e he => by cases he⟩
  | cons name names ih =>
    unfold removalRecords at h
    obtain ⟨record, hrecord, h⟩ := bind_eq_ok.mp h
    obtain ⟨rest, hrest, h⟩ := bind_eq_ok.mp h
    obtain rfl := Except.ok.inj h
    obtain ⟨hnames, hrecords⟩ := ih hrest
    refine ⟨by rw [List.map_cons, hnames], fun e he => ?_⟩
    rcases List.mem_cons.mp he with rfl | he
    · split at hrecord
      · cases hrecord
      · rename_i hnone hsome
        obtain rfl := Except.ok.inj hrecord
        exact .inr ⟨hnone, hsome⟩
      · rename_i coin hcoin
        obtain ⟨timestamp, htime, hrecord⟩ := bind_eq_ok.mp hrecord
        obtain ⟨height, hheight, hrecord⟩ := bind_eq_ok.mp hrecord
        have hheight := (uintN_eq_ok.mp (stopRaising_eq_ok.mp hheight)).1
        obtain rfl : height = peak.height + 1 := by omega
        obtain rfl := Except.ok.inj hrecord
        exact .inl ⟨coin, timestamp, hcoin, pySome_eq_ok.mp (stopRaising_eq_ok.mp htime), rfl⟩
    · exact hrecords e he

/-- The coins that a bundle creates, by name. -/
def additionsDictOf (T : MempoolTools K) (npcResult : NPCResult) : Dict Bytes32 Coin :=
  Dict.ofItems ((additionsForNpc npcResult).map fun c => (T.coinName c, c))

omit [LinearOrder K] in
lemma mem_of_additionsDictOf {npcResult : NPCResult} {name : Bytes32} {coin : Coin}
    (h : (additionsDictOf T npcResult).lookup name = some coin) :
    coin ∈ additionsForNpc npcResult ∧ T.coinName coin = name := by
  obtain ⟨c, hc, heq⟩ := List.mem_map.mp (Dict.mem_of_lookup_ofItems h)
  obtain ⟨rfl, rfl⟩ := Prod.mk.inj heq
  exact ⟨hc, rfl⟩

omit [LinearOrder K] in
lemma RecordFor.coinName_eq {coinStore : CoinTable} {peak : BlockRecord} {npcResult : NPCResult}
    {name : Bytes32} {record : CoinRecord} (hstore : coinStore.Named T.coinName)
    (h : RecordFor coinStore peak (additionsDictOf T npcResult) name record) :
    T.coinName record.coin = name := by
  rcases h with ⟨coin, timestamp, hcoin, -, rfl⟩ | ⟨-, hrecord⟩
  · exact (mem_of_additionsDictOf hcoin).2
  · exact hstore.coinName_eq hrecord

/-! ## Conflicts -/

/-- What `check_removals` finds. -/
lemma checkRemovals_eq (m : Mempool K) (records : List CoinRecord) (conflicts : List Coin) :
    checkRemovals T m records conflicts =
      if ∃ r ∈ records, r.spent = true then (some .doubleSpend, [])
      else
        let all := conflicts ++ (records.map CoinRecord.coin).filter fun c =>
          (m.removals.get? (T.coinName c)).isSome
        if all.length > 0 then (some .mempoolConflict, all) else (none, []) := by
  induction records generalizing conflicts with
  | nil => simp [checkRemovals]
  | cons record records ih =>
    unfold checkRemovals
    by_cases hspent : record.spent = true
    · rw [if_pos hspent, if_pos ⟨record, List.mem_cons_self, hspent⟩]
    · rw [if_neg hspent, ih]
      have hiff : (∃ r ∈ record :: records, r.spent = true) ↔ ∃ r ∈ records, r.spent = true := by
        simp [hspent]
      simp only [hiff, List.map_cons]
      cases hget : (m.removals.get? (T.coinName record.coin)).isSome with
      | true => simp [hget]
      | false => simp [hget]

/-- The items that spend one of the coins. -/
lemma conflictingPoolItems_eq_ok {m : Mempool K} (hm : m.Consistent T) {coins : List Coin}
    {items items' : OrderedDict Bytes32 MempoolItem}
    (hitems : ∀ n i, items.get? n = some i → m.spends.get? n = some i)
    (h : conflictingPoolItems T m coins items = .ok items') :
    ∀ n i, items'.get? n = some i ↔ items.get? n = some i ∨
      (n = i.spendBundleName ∧ ∃ c ∈ coins, m.removals.get? (T.coinName c) = some i) := by
  induction coins generalizing items with
  | nil =>
    obtain rfl := Except.ok.inj h
    intro n i
    simp
  | cons coin coins ih =>
    unfold conflictingPoolItems at h
    cases hsb : m.removals.get? (T.coinName coin) with
    | none =>
      rw [hsb] at h
      cases h
    | some sb =>
      rw [hsb] at h
      have hget := hm.get?_of_mem (hm.removals.mp hsb).1
      have hset : ∀ n i, (items.set sb.spendBundleName sb).get? n = some i ↔
          items.get? n = some i ∨ (n = sb.spendBundleName ∧ i = sb) := by
        intro n i
        rw [OrderedDict.get?_set]
        by_cases hn : n = sb.spendBundleName
        · rw [if_pos hn]
          constructor
          · intro hi
            exact .inr ⟨hn, (Option.some.inj hi).symm⟩
          · rintro (hi | ⟨-, rfl⟩)
            · rw [← hget, ← hn]
              exact hitems n i hi
            · rfl
        · rw [if_neg hn]
          simp [hn]
      intro n i
      rw [ih (fun n i hi => ?_) h n i, hset]
      · constructor
        · rintro ((hi | ⟨rfl, rfl⟩) | ⟨hn, c, hc, hi⟩)
          · exact .inl hi
          · exact .inr ⟨rfl, coin, List.mem_cons_self, hsb⟩
          · exact .inr ⟨hn, c, List.mem_cons_of_mem _ hc, hi⟩
        · rintro (hi | ⟨hn, c, hc, hi⟩)
          · exact .inl (.inl hi)
          · rcases List.mem_cons.mp hc with rfl | hc
            · rw [hsb] at hi
              obtain rfl := Option.some.inj hi
              exact .inl (.inr ⟨hn, rfl⟩)
            · exact .inr ⟨hn, c, hc, hi⟩
      · rcases (hset n i).mp hi with hi | ⟨rfl, rfl⟩
        · exact hitems n i hi
        · exact hget

/-- The items that a new one replaces: those that spend one of its coins. None of its coins is spent. -/
lemma replacedItems_eq_ok {m : Mempool K} (hm : m.Consistent T) {item : MempoolItem}
    {records : List (Bytes32 × CoinRecord)} {replaced : List MempoolItem}
    (h : replacedItems T m item records = .ok replaced) :
    (∀ e ∈ records, e.2.spent = false) ∧ (replaced.map MempoolItem.spendBundleName).Nodup ∧
      ∀ i, i ∈ replaced ↔ ∃ e ∈ records, m.removals.get? (T.coinName e.2.coin) = some i := by
  unfold replacedItems at h
  rw [checkRemovals_eq] at h
  by_cases hspent : ∃ r ∈ records.map Prod.snd, r.spent = true
  · rw [if_pos hspent] at h
    cases h
  rw [if_neg hspent] at h
  have hunspent : ∀ e ∈ records, e.2.spent = false := by
    intro e he
    by_contra hne
    exact hspent ⟨e.2, List.mem_map_of_mem he, by simpa using hne⟩
  refine ⟨hunspent, ?_⟩
  rw [List.nil_append] at h
  by_cases hlen : (((records.map Prod.snd).map CoinRecord.coin).filter fun c =>
      (m.removals.get? (T.coinName c)).isSome).length > 0
  · simp only [if_pos hlen] at h
    obtain ⟨items, hitems, h⟩ := bind_eq_ok.mp h
    obtain ⟨replaces, -, h⟩ := bind_eq_ok.mp h
    have hspec := conflictingPoolItems_eq_ok hm (fun n i hi => by cases hi) (stopRaising_eq_ok.mp hitems)
    cases replaces with
    | false => cases h
    | true =>
      obtain rfl := Except.ok.inj h
      have hnone : ∀ n i, ¬(OrderedDict.empty : OrderedDict Bytes32 MempoolItem).get? n = some i := by
        intro n i hi
        cases hi
      constructor
      · have hkeys : items.values.map MempoolItem.spendBundleName = items.keys := by
          unfold OrderedDict.values OrderedDict.keys
          rw [List.map_map]
          apply List.map_congr_left
          rintro ⟨n, i⟩ he
          rcases (hspec n i).mp (OrderedDict.get?_eq_some.mpr he) with hi | ⟨hn, -⟩
          · exact absurd hi (hnone n i)
          · exact hn.symm
        rw [hkeys]
        exact items.nodup
      · intro i
        rw [OrderedDict.mem_values]
        constructor
        · rintro ⟨n, hn⟩
          rcases (hspec n i).mp hn with hi | ⟨-, c, hc, hi⟩
          · exact absurd hi (hnone n i)
          · obtain ⟨r, hr, rfl⟩ := List.mem_map.mp (List.mem_filter.mp hc).1
            obtain ⟨e, he, rfl⟩ := List.mem_map.mp hr
            exact ⟨e, he, hi⟩
        · rintro ⟨e, he, hi⟩
          refine ⟨i.spendBundleName, (hspec _ i).mpr (.inr ⟨rfl, e.2.coin, ?_, hi⟩)⟩
          refine List.mem_filter.mpr ⟨List.mem_map_of_mem (List.mem_map_of_mem he), ?_⟩
          rw [hi]
          rfl
  · simp only [if_neg hlen] at h
    obtain rfl := Except.ok.inj h
    refine ⟨List.nodup_nil, fun i => ⟨fun hi => (by cases hi), ?_⟩⟩
    rintro ⟨e, he, hi⟩
    have hmem : e.2.coin ∈ ((records.map Prod.snd).map CoinRecord.coin).filter fun c =>
        (m.removals.get? (T.coinName c)).isSome := by
      refine List.mem_filter.mpr ⟨List.mem_map_of_mem (List.mem_map_of_mem he), ?_⟩
      rw [hi]
      rfl
    exact absurd (List.length_pos_of_mem hmem) hlen

/-! ## The checks -/

/-- The result of running a bundle that passes the first checks. -/
structure NpcOk (T : MempoolTools K) (constants : MempoolConstants) (newSpend : SpendBundle)
    (npcResult : NPCResult) (conds : SpendBundleConditions) : Prop where
  error : npcResult.error = none
  cost_le : npcResult.cost ≤ constants.maxCost
  conds_eq : npcResult.conds = some conds
  spent : (∀ n ∈ conds.spends.map Spend.coinId, n ∈ newSpend.removals.map T.coinName) ∧
    ∀ n ∈ newSpend.removals.map T.coinName, n ∈ conds.spends.map Spend.coinId
  amounts : ∀ c ∈ additionsForNpc npcResult, c.amount ≤ constants.MAX_COIN_AMOUNT
  nodup_additions : ((additionsForNpc npcResult).map T.coinName).Nodup
  nodup_removals : (conds.spends.map Spend.coinId).Nodup

omit [LinearOrder K] in
/-- The first checks. -/
lemma checkNpcResult_eq_ok {newSpend : SpendBundle} {npcResult : NPCResult} {conds : SpendBundleConditions} :
    checkNpcResult T constants newSpend npcResult = .ok conds ↔
      NpcOk T constants newSpend npcResult conds := by
  unfold checkNpcResult
  constructor
  · intro h
    obtain ⟨_, herror, h⟩ := bind_eq_ok.mp h
    obtain ⟨_, hcost, h⟩ := bind_eq_ok.mp h
    obtain ⟨conds', hconds, h⟩ := bind_eq_ok.mp h
    obtain ⟨_, hspent, h⟩ := bind_eq_ok.mp h
    obtain ⟨_, hamounts, h⟩ := bind_eq_ok.mp h
    obtain ⟨_, hadditions, h⟩ := bind_eq_ok.mp h
    obtain ⟨_, hremovals, h⟩ := bind_eq_ok.mp h
    obtain rfl := Except.ok.inj h
    refine ⟨pyAssert_eq_ok.mp (stopRaising_eq_ok.mp herror), Nat.not_lt.mp (failIf_eq_ok.mp hcost),
      pySome_eq_ok.mp (stopRaising_eq_ok.mp hconds), not_not.mp (failIf_eq_ok.mp hspent), ?_,
      not_not.mp (failIf_eq_ok.mp hadditions), not_not.mp (failIf_eq_ok.mp hremovals)⟩
    intro c hc
    by_contra hlt
    exact failIf_eq_ok.mp hamounts ⟨c, hc, Nat.not_le.mp hlt⟩
  · intro h
    have hamounts : ¬∃ c ∈ additionsForNpc npcResult, c.amount > constants.MAX_COIN_AMOUNT := by
      rintro ⟨c, hc, hlt⟩
      exact Nat.not_le.mpr hlt (h.amounts c hc)
    rw [stopRaising_eq_ok.mpr ((pyAssert_eq_ok (u := ())).mpr h.error), ok_bind,
      (failIf_eq_ok (u := ())).mpr (Nat.not_lt.mpr h.cost_le), ok_bind,
      stopRaising_eq_ok.mpr (pySome_eq_ok.mpr h.conds_eq), ok_bind]
    simp only
    rw [(failIf_eq_ok (u := ())).mpr (not_not.mpr h.spent), ok_bind,
      (failIf_eq_ok (u := ())).mpr hamounts, ok_bind,
      (failIf_eq_ok (u := ())).mpr (not_not.mpr h.nodup_additions), ok_bind,
      (failIf_eq_ok (u := ())).mpr (not_not.mpr h.nodup_removals), ok_bind]
    rfl

/-- The fees that a bundle with the given records leaves. -/
def feesLeft (npcResult : NPCResult) (records : List (Bytes32 × CoinRecord)) : ℤ :=
  (((records.map fun e => e.2.coin).map Coin.amount).sum : ℤ) -
    ((additionsForNpc npcResult).map Coin.amount).sum

/-- The item of a bundle. -/
lemma makeItem_eq_ok {newSpend : SpendBundle} {npcResult : NPCResult} {spendName : Bytes32}
    {program : SerializedProgram} {reserveFee : ℕ} {records : List (Bytes32 × CoinRecord)}
    {item : MempoolItem} :
    makeItem newSpend npcResult spendName program reserveFee records = .ok item ↔
      ∃ fees : ℕ, feesLeft npcResult records = fees ∧ fees < 2 ^ 64 ∧ reserveFee ≤ fees ∧
        npcResult.cost ≠ 0 ∧ item = ⟨newSpend, fees, npcResult, npcResult.cost, spendName,
          additionsForNpc npcResult, records.map fun e => e.2.coin, program⟩ := by
  unfold makeItem feesLeft
  constructor
  · intro h
    obtain ⟨_, hminting, h⟩ := bind_eq_ok.mp h
    obtain ⟨fees, hfees, h⟩ := bind_eq_ok.mp h
    obtain ⟨_, hreserve, h⟩ := bind_eq_ok.mp h
    obtain ⟨_, hcost, h⟩ := bind_eq_ok.mp h
    obtain ⟨hfees, hlt⟩ := uintN_eq_ok.mp (stopRaising_eq_ok.mp hfees)
    exact ⟨fees, hfees, hlt, Nat.not_lt.mp (failIf_eq_ok.mp hreserve), failIf_eq_ok.mp hcost,
      (Except.ok.inj h).symm⟩
  · rintro ⟨fees, hfees, hlt, hreserve, hcost, rfl⟩
    have hminting : ¬((additionsForNpc npcResult).map Coin.amount).sum >
        ((records.map fun e => e.2.coin).map Coin.amount).sum := by
      omega
    have huint : uint64 ((((records.map fun e => e.2.coin).map Coin.amount).sum : ℤ) -
        ((additionsForNpc npcResult).map Coin.amount).sum) = .ok fees :=
      uintN_eq_ok.mpr ⟨hfees, hlt⟩
    dsimp only
    rw [(failIf_eq_ok (u := ())).mpr hminting, ok_bind, stopRaising_eq_ok.mpr huint, ok_bind,
      (failIf_eq_ok (u := ())).mpr (Nat.not_lt.mpr hreserve), ok_bind,
      (failIf_eq_ok (u := ())).mpr hcost, ok_bind]
    rfl

/-- A bundle passes the checks: the peak, the conditions and the records of the coins it spends, and what holds
of them. -/
structure Admitted (T : MempoolTools K) (constants : MempoolConstants) (coinStore : CoinTable)
    (mgr : MempoolManager K) (newSpend : SpendBundle) (npcResult : NPCResult) (spendName : Bytes32)
    (program : Option SerializedProgram) (peak : BlockRecord) (conds : SpendBundleConditions)
    (records : List (Bytes32 × CoinRecord)) (item : MempoolItem) (replaced : List MempoolItem) : Prop where
  peak_eq : mgr.peak = some peak
  npc : NpcOk T constants newSpend npcResult conds
  fresh : mgr.mempool.spends.get? spendName = none
  records_eq : removalRecords coinStore peak (additionsDictOf T npcResult)
    (conds.spends.map Spend.coinId) = .ok records
  item_eq : makeItem newSpend npcResult spendName (program.getD (T.simpleSolutionGenerator newSpend))
    conds.reserveFee records = .ok item
  feeRate : checkFeeRate T mgr.mempool item = .ok ()
  replaced_eq : replacedItems T mgr.mempool item records = .ok replaced
  puzzles : checkSpendPuzzles (Dict.ofItems records) conds.spends = .ok ()
  locks : checkBundleLocks peak item conds (Dict.ofItems records) = .ok ()

variable {coinStore : CoinTable} {mgr : MempoolManager K} {newSpend : SpendBundle} {npcResult : NPCResult}
  {spendName : Bytes32} {program : Option SerializedProgram} {peak : BlockRecord}
  {conds : SpendBundleConditions} {records : List (Bytes32 × CoinRecord)} {item : MempoolItem}
  {replaced : List MempoolItem} {coins : Set Coin}

/-- A bundle is admitted exactly if it passes the checks. -/
theorem admission_eq_ok :
    admission T constants coinStore mgr newSpend npcResult spendName program = .ok (item, replaced) ↔
      ∃ peak conds records, Admitted T constants coinStore mgr newSpend npcResult spendName program peak
        conds records item replaced := by
  unfold admission
  constructor
  · intro h
    split at h
    · cases h
    rename_i peak hpeak
    obtain ⟨conds, hconds, h⟩ := bind_eq_ok.mp h
    obtain ⟨_, hfresh, h⟩ := bind_eq_ok.mp h
    obtain ⟨records, hrecords, h⟩ := bind_eq_ok.mp h
    obtain ⟨item', hitem, h⟩ := bind_eq_ok.mp h
    obtain ⟨⟨⟩, hrate, h⟩ := bind_eq_ok.mp h
    obtain ⟨replaced', hreplaced, h⟩ := bind_eq_ok.mp h
    obtain ⟨⟨⟩, hpuzzles, h⟩ := bind_eq_ok.mp h
    obtain ⟨⟨⟩, hlocks, h⟩ := bind_eq_ok.mp h
    obtain ⟨rfl, rfl⟩ := Prod.mk.inj (Except.ok.inj h)
    refine ⟨peak, conds, records, hpeak, checkNpcResult_eq_ok.mp hconds, ?_, hrecords, hitem, hrate,
      hreplaced, hpuzzles, hlocks⟩
    cases hget : mgr.mempool.spends.get? spendName with
    | none => rfl
    | some i =>
      rw [hget] at hfresh
      cases hfresh
  · rintro ⟨peak, conds, records, h⟩
    have hrecords := h.records_eq
    unfold additionsDictOf at hrecords
    rw [h.peak_eq]
    simp only
    rw [checkNpcResult_eq_ok.mpr h.npc, ok_bind, h.fresh]
    simp only [Option.isSome_none, Bool.false_eq_true, if_false, pure_eq, ok_bind]
    rw [hrecords, ok_bind, h.item_eq, ok_bind, h.feeRate, ok_bind, h.replaced_eq, ok_bind, h.puzzles, ok_bind,
      h.locks, ok_bind]

namespace Admitted

variable (h : Admitted T constants coinStore mgr newSpend npcResult spendName program peak conds records
  item replaced)

include h

lemma item_fields : ∃ fees : ℕ, feesLeft npcResult records = fees ∧ fees < 2 ^ 64 ∧ conds.reserveFee ≤ fees ∧
    npcResult.cost ≠ 0 ∧ item = ⟨newSpend, fees, npcResult, npcResult.cost, spendName,
      additionsForNpc npcResult, records.map fun e => e.2.coin,
      program.getD (T.simpleSolutionGenerator newSpend)⟩ :=
  makeItem_eq_ok.mp h.item_eq

lemma removalNames_eq (hstore : coinStore.Named T.coinName) :
    item.removalNames T = conds.spends.map Spend.coinId := by
  obtain ⟨hnames, hrecords⟩ := removalRecords_eq_ok h.records_eq
  obtain ⟨fees, -, -, -, -, rfl⟩ := h.item_fields
  rw [← hnames]
  show (records.map fun e => e.2.coin).map T.coinName = records.map Prod.fst
  rw [List.map_map]
  apply List.map_congr_left
  intro e he
  exact (hrecords e he).coinName_eq hstore

theorem ok (hstore : coinStore.Named T.coinName) (hcoins : ∀ c ∈ additionsForNpc npcResult, c ∈ coins) :
    item.Ok T coins constants.maxCost := by
  have hnames := h.removalNames_eq hstore
  obtain ⟨fees, -, -, -, hcost, rfl⟩ := h.item_fields
  refine ⟨by rw [hnames]; exact h.npc.nodup_removals, h.npc.nodup_additions, ?_, hcoins, rfl,
    Nat.pos_of_ne_zero hcost, h.npc.cost_le⟩
  intro c hc
  rw [hnames]
  have hc : c ∈ additionsForNpc npcResult := hc
  rw [additionsForNpc, h.npc.conds_eq] at hc
  obtain ⟨spend, hspend, hc⟩ := List.mem_flatMap.mp hc
  obtain ⟨x, -, rfl⟩ := List.mem_map.mp hc
  exact List.mem_map_of_mem hspend

theorem mem_replaced (hm : mgr.mempool.Consistent T) {i : MempoolItem} :
    i ∈ replaced ↔ ∃ c ∈ item.removalNames T, mgr.mempool.removals.get? c = some i := by
  obtain ⟨-, -, hmem⟩ := replacedItems_eq_ok hm h.replaced_eq
  obtain ⟨fees, -, -, -, -, rfl⟩ := h.item_fields
  rw [hmem]
  show _ ↔ ∃ c ∈ (records.map fun e => e.2.coin).map T.coinName, _
  constructor
  · rintro ⟨e, he, hi⟩
    exact ⟨_, List.mem_map_of_mem (List.mem_map_of_mem he), hi⟩
  · rintro ⟨c, hc, hi⟩
    obtain ⟨coin, hcoin, rfl⟩ := List.mem_map.mp hc
    obtain ⟨e, he, rfl⟩ := List.mem_map.mp hcoin
    exact ⟨e, he, hi⟩

end Admitted

/-! ## Replacement -/

/-- Removing several items, which are in the mempool. -/
lemma forEach_removeFromPool {maxCost : ℕ} {l : List MempoolItem}
    (hm : mgr.mempool.PoolInv T coins maxCost) (hl : ∀ i ∈ l, i ∈ mgr.mempool.spends.values)
    (hnodup : (l.map MempoolItem.spendBundleName).Nodup) :
    ∃ m, forEach l (fun i => inPool (Mempool.removeFromPool T i)) mgr = .ok () { mgr with mempool := m } ∧
      m.PoolInv T coins maxCost ∧ m.maxSizeInCost = mgr.mempool.maxSizeInCost ∧
      ∀ n i, m.spends.get? n = some i ↔ mgr.mempool.spends.get? n = some i ∧ i ∉ l := by
  induction l generalizing mgr with
  | nil => exact ⟨mgr.mempool, rfl, hm, rfl, fun n i => by simp⟩
  | cons x l ih =>
    rw [List.map_cons, List.nodup_cons] at hnodup
    have hx := hl x List.mem_cons_self
    obtain ⟨m₁, heq, hm₁, hspends, hsize⟩ := Mempool.removeFromPool_spec hm hx
    have hget : ∀ n i, m₁.spends.get? n = some i ↔ mgr.mempool.spends.get? n = some i ∧ i ≠ x := by
      intro n i
      rw [hspends, OrderedDict.get?_erase]
      constructor
      · intro hi
        split at hi
        · cases hi
        · rename_i hne
          exact ⟨hi, fun heq => hne (by rw [hm.name hi, heq])⟩
      · rintro ⟨hi, hne⟩
        rw [if_neg, hi]
        intro hn
        rw [hn, hm.get?_of_mem hx] at hi
        exact hne (Option.some.inj hi).symm
    obtain ⟨m, heq', hm', hsize', hget'⟩ := @ih { mgr with mempool := m₁ } hm₁
      (fun i hi => by
        refine OrderedDict.mem_values.mpr ⟨i.spendBundleName, (hget _ i).mpr ⟨?_, ?_⟩⟩
        · exact hm.get?_of_mem (hl i (List.mem_cons_of_mem _ hi))
        · intro hix
          exact hnodup.1 (hix ▸ List.mem_map_of_mem hi))
      hnodup.2
    refine ⟨m, ?_, hm', hsize'.trans hsize, fun n i => ?_⟩
    · have hx : inPool (Mempool.removeFromPool T x) mgr = .ok () { mgr with mempool := m₁ } :=
        zoom_ok mempool mgr heq _ _
      exact (bind_ok hx).trans heq'
    · rw [hget' n i, hget n i, List.mem_cons]
      tauto

/-- **The mempool after a bundle is admitted**: the new item is in it, with items that were there before and
spend none of its coins. -/
theorem replaceItems_spec (hinj : Set.InjOn T.coinName coins)
    (hm : mgr.mempool.PoolInv T coins constants.maxCost)
    (hsize : constants.maxCost ≤ mgr.mempool.maxSizeInCost) (hstore : coinStore.Named T.coinName)
    (hcoins : ∀ c ∈ additionsForNpc npcResult, c ∈ coins)
    (h : Admitted T constants coinStore mgr newSpend npcResult spendName program peak conds records item
      replaced) :
    ∃ m, replaceItems T item replaced mgr = .ok () { mgr with mempool := m } ∧
      m.PoolInv T coins constants.maxCost ∧ m.maxSizeInCost = mgr.mempool.maxSizeInCost ∧
      item ∈ m.spends.values ∧ ∀ i ∈ m.spends.values, i = item ∨ i ∈ mgr.mempool.spends.values := by
  obtain ⟨-, hnodup, -⟩ := replacedItems_eq_ok hm.toConsistent h.replaced_eq
  have hreplaced : ∀ i ∈ replaced, i ∈ mgr.mempool.spends.values := by
    intro i hi
    obtain ⟨c, -, hc⟩ := (h.mem_replaced hm.toConsistent).mp hi
    exact (hm.removals.mp hc).1
  obtain ⟨m₁, heq, hm₁, hsize₁, hget⟩ := forEach_removeFromPool hm hreplaced hnodup
  have hname : item.spendBundleName = spendName := by
    obtain ⟨fees, -, -, -, -, rfl⟩ := h.item_fields
    rfl
  have hfresh : m₁.spends.get? item.spendBundleName = none := by
    cases hn : m₁.spends.get? item.spendBundleName with
    | none => rfl
    | some i =>
      have := ((hget _ i).mp hn).1
      rw [hname, h.fresh] at this
      cases this
  have hfree : ∀ c ∈ item.removalNames T, m₁.removals.get? c = none := by
    intro c hc
    cases hn : m₁.removals.get? c with
    | none => rfl
    | some i =>
      obtain ⟨hi, hci⟩ := hm₁.removals.mp hn
      obtain ⟨n, hn⟩ := OrderedDict.mem_values.mp hi
      obtain ⟨hold, hnot⟩ := (hget n i).mp hn
      have hspent := hm.removals.mpr ⟨OrderedDict.mem_values.mpr ⟨n, hold⟩, hci⟩
      exact absurd ((h.mem_replaced hm.toConsistent).mpr ⟨c, hc, hspent⟩) hnot
  obtain ⟨m, heq', hm', hsize', hin, hold⟩ := Mempool.addToPool_spec hinj hm₁ (by omega)
    (h.ok hstore hcoins) hfresh hfree
  refine ⟨m, ?_, hm', hsize'.trans hsize₁, OrderedDict.mem_values.mpr ⟨_, hin⟩, fun i hi => ?_⟩
  · unfold replaceItems
    rw [bind_ok heq]
    exact zoom_ok mempool { mgr with mempool := m₁ } heq' _ _
  · obtain ⟨n, hn⟩ := OrderedDict.mem_values.mp hi
    rcases hold n i hn with rfl | hn
    · exact .inl rfl
    · exact .inr (OrderedDict.mem_values.mpr ⟨n, ((hget n i).mp hn).1⟩)

end Manager

end MempoolManager

end Chives
