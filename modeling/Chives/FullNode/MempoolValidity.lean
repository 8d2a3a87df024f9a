import Chives.Consensus.BlockchainRuns
import Chives.FullNode.MempoolRuns

set_option autoImplicit false

/-!
# Valid items of the mempool

An item is valid for a coin set, a height and a time if every coin that it spends is unspent there or created
by the item itself, with the right puzzle and open time locks. A relative lock on a coin of the same bundle is
never open, except for one of no seconds.

## Main definitions

* `MempoolManager.SpendValid`, `MempoolManager.ItemValid` — a valid spend and a valid item.

## Main results

* `MempoolManager.Admitted.itemValid` — an item that is admitted is valid.
* `MempoolManager.ItemValid.admitted` — a valid item is admitted where there is room for it.
* `MempoolManager.ItemValid.admission_of_spent` — an item that spends a spent coin is refused.
-/

namespace Chives

open ExceptRun StateRun Table

/-! ## The checks -/

/-- The relative time locks of a spend are open, for a coin with the given record. -/
structure LocksOpen (height timestamp : ℕ) (record : CoinRecord) (spend : Spend) : Prop where
  height : ∀ h, spend.heightRelative = some h → record.confirmedBlockIndex + h ≤ height
  seconds : record.timestamp + spend.secondsRelative ≤ timestamp

lemma LocksOpen.mono {height height' timestamp timestamp' : ℕ} {record : CoinRecord} {spend : Spend}
    (h : LocksOpen height timestamp record spend) (hheight : height ≤ height')
    (htimestamp : timestamp ≤ timestamp') : LocksOpen height' timestamp' record spend :=
  ⟨fun x hx => (h.height x hx).trans hheight, h.seconds.trans htimestamp⟩

variable {spends : List Spend}

lemma checkRelativeLocks_eq_ok {records : Dict Bytes32 CoinRecord} {height timestamp : ℕ} {u : Unit} :
    checkRelativeLocks records height timestamp spends = .ok u ↔
      ∀ spend ∈ spends, ∃ record, records.lookup spend.coinId = some record ∧
        LocksOpen height timestamp record spend := by
  induction spends with
  | nil => exact ⟨(fun _ _ hs => nomatch hs), fun _ => rfl⟩
  | cons spend spends ih =>
    rw [List.forall_mem_cons]
    unfold checkRelativeLocks
    cases hrecord : records.lookup spend.coinId with
    | none => simp
    | some record =>
      simp only [bind_eq_ok, bodyRejectIf_eq_ok, ih, Option.some.injEq, exists_eq_left', exists_const]
      constructor
      · rintro ⟨hheight, hseconds, hrest⟩
        refine ⟨⟨fun h hh => ?_, Nat.not_lt.mp hseconds⟩, hrest⟩
        by_contra hlt
        exact hheight ⟨h, hh, Nat.not_le.mp hlt⟩
      · rintro ⟨hopen, hrest⟩
        refine ⟨?_, Nat.not_lt.mpr hopen.seconds, hrest⟩
        rintro ⟨h, hh, hlt⟩
        exact Nat.not_lt.mpr (hopen.height h hh) hlt

lemma mempoolCheckTimeLocks_eq_ok {records : Dict Bytes32 CoinRecord} {conds : SpendBundleConditions}
    {height timestamp : ℕ} {u : Unit} :
    mempoolCheckTimeLocks records conds height timestamp = .ok u ↔
      conds.heightAbsolute ≤ height ∧ conds.secondsAbsolute ≤ timestamp ∧
        ∀ spend ∈ conds.spends, ∃ record, records.lookup spend.coinId = some record ∧
          LocksOpen height timestamp record spend := by
  unfold mempoolCheckTimeLocks
  simp only [bind_eq_ok, bodyRejectIf_eq_ok, checkRelativeLocks_eq_ok, exists_const, Nat.not_lt]

lemma Dict.lookup_ofItems_of_nodup {κ ν : Type} [DecidableEq κ] {content : List (κ × ν)}
    (hnodup : (content.map Prod.fst).Nodup) {k : κ} {v : ν} :
    (Dict.ofItems content).lookup k = some v ↔ (k, v) ∈ content := by
  constructor
  · exact Dict.mem_of_lookup_ofItems
  · intro hmem
    cases hget : (Dict.ofItems content).lookup k with
    | none => exact absurd (List.mem_map_of_mem hmem) (Dict.lookup_ofItems_eq_none.mp hget)
    | some v' =>
      have heq := List.inj_on_of_nodup_map hnodup (Dict.mem_of_lookup_ofItems hget) hmem rfl
      rw [(Prod.mk.inj heq).2]

lemma exists_mem_of_forall₂ {α β : Type} {R : α → β → Prop} {l : List α} {l' : List β}
    (h : List.Forall₂ R l l') {a : α} (ha : a ∈ l) : ∃ b ∈ l', R a b := by
  induction h with
  | nil => cases ha
  | @cons a' b l l' hab _ ih =>
    rcases List.mem_cons.mp ha with rfl | ha
    · exact ⟨b, List.mem_cons_self, hab⟩
    · obtain ⟨b', hb', hab'⟩ := ih ha
      exact ⟨b', List.mem_cons_of_mem _ hb', hab'⟩

namespace MempoolManager

lemma checkSpendPuzzles_eq_ok {records : Dict Bytes32 CoinRecord} {u : Unit} :
    checkSpendPuzzles records spends = .ok u ↔
      ∀ spend ∈ spends, ∃ record, records.lookup spend.coinId = some record ∧
        spend.puzzleHash = record.coin.puzzleHash := by
  induction spends with
  | nil => exact ⟨(fun _ _ hs => nomatch hs), fun _ => rfl⟩
  | cons spend spends ih =>
    rw [List.forall_mem_cons]
    unfold checkSpendPuzzles
    cases hrecord : records.lookup spend.coinId with
    | none => simp
    | some record =>
      simp only [bind_eq_ok, failIf_eq_ok, ih, Option.some.injEq, exists_eq_left', exists_const, not_not]

lemma checkBundleLocks_eq_ok {peak : BlockRecord} {item : MempoolItem} {conds : SpendBundleConditions}
    {records : Dict Bytes32 CoinRecord} {timestamp : ℕ} (htime : peak.timestamp = some timestamp) {u : Unit} :
    checkBundleLocks peak item conds records = .ok u ↔
      mempoolCheckTimeLocks records conds peak.height timestamp = .ok u := by
  have hheight : chialispHeight peak = peak.height := by
    simp [chialispHeight, BlockRecord.isTransactionBlock, htime]
  unfold checkBundleLocks
  rw [htime, stopRaising_eq_ok.mpr (pySome_eq_ok.mpr rfl), ok_bind, hheight]
  cases hlocks : mempoolCheckTimeLocks records conds peak.height timestamp with
  | ok v => simp
  | error e =>
    cases e with
    | raised e => simp
    | invalid code =>
      simp only [reduceCtorEq, iff_false]
      split
      · exact fun h => by cases h
      · exact fun h => by cases h

section Manager

variable {K : Type} [LinearOrder K] {T : MempoolTools K} {constants : MempoolConstants}
  {coinStore : CoinTable} {peak : BlockRecord} {timestamp : ℕ} {additionsDict : Dict Bytes32 Coin}

/-! ## Valid spends -/

/-- A spend is valid for a coin set at a height and a time: the bundle creates the coin, and there is no
relative lock, or the coin is unspent and the relative locks are open. -/
structure SpendValid (coinStore : CoinTable) (height timestamp : ℕ) (additionsDict : Dict Bytes32 Coin)
    (spend : Spend) (coin : Coin) : Prop where
  puzzle : spend.puzzleHash = coin.puzzleHash
  source : (additionsDict.lookup spend.coinId = some coin ∧ spend.heightRelative = none ∧
      spend.secondsRelative = 0) ∨
    (additionsDict.lookup spend.coinId = none ∧ ∃ row, find coinColumns.key coinStore spend.coinId = some row ∧
      row.coin = coin ∧ row.spentIndex = 0 ∧ LocksOpen height timestamp row.toRecord spend)

/-- What the checks ask of the record of a coin. -/
structure RecordOk (height timestamp : ℕ) (spend : Spend) (record : CoinRecord) : Prop where
  unspent : record.spent = false
  puzzle : spend.puzzleHash = record.coin.puzzleHash
  locks : LocksOpen height timestamp record spend

lemma getCoinRecord_eq {name : Bytes32} :
    coinStore.getCoinRecord name = (find coinColumns.key coinStore name).map CoinRow.toRecord :=
  rfl

/-- A spend is valid exactly if the record of its coin passes the checks: a coin of the same bundle is dated
in the block after the peak, for which every lock by height is too early. -/
lemma spendValid_iff (htime : peak.timestamp = some timestamp) {spend : Spend} {coin : Coin} :
    SpendValid coinStore peak.height timestamp additionsDict spend coin ↔
      ∃ record, RecordFor coinStore peak additionsDict spend.coinId record ∧ record.coin = coin ∧
        RecordOk peak.height timestamp spend record := by
  constructor
  · rintro ⟨hpuzzle, ⟨hdict, hheight, hseconds⟩ | ⟨hdict, row, hrow, rfl, hunspent, hlocks⟩⟩
    · refine ⟨_, .inl ⟨coin, timestamp, hdict, htime, rfl⟩, rfl, rfl, hpuzzle, ?_, ?_⟩
      · intro h hh
        rw [hheight] at hh
        cases hh
      · exact Nat.le_of_eq (by rw [hseconds]; rfl)
    · refine ⟨row.toRecord, .inr ⟨hdict, ?_⟩, rfl, ?_, hpuzzle, hlocks⟩
      · rw [getCoinRecord_eq, hrow]
        rfl
      · simp [CoinRecord.spent, CoinRow.toRecord, hunspent]
  · rintro ⟨record, ⟨coin', timestamp', hdict, htime', rfl⟩ | ⟨hdict, hrow⟩, rfl, hok⟩
    · obtain rfl := Option.some.inj (htime.symm.trans htime')
      refine ⟨hok.puzzle, .inl ⟨hdict, ?_, ?_⟩⟩
      · cases hrel : spend.heightRelative with
        | none => rfl
        | some h =>
          have := hok.locks.height h hrel
          dsimp only at this
          omega
      · have := hok.locks.seconds
        dsimp only at this
        omega
    · rw [getCoinRecord_eq] at hrow
      obtain ⟨row, hfind, rfl⟩ := Option.map_eq_some_iff.mp hrow
      refine ⟨hok.puzzle, .inr ⟨hdict, row, hfind, rfl, ?_, hok.locks⟩⟩
      have := of_decide_eq_false hok.unspent
      exact Nat.eq_zero_of_not_pos this

lemma removalRecords_of_forall₂ (hheight : peak.height + 1 < 2 ^ 32) {names : List Bytes32} {records : List (Bytes32 × CoinRecord)}
    (h : List.Forall₂ (fun n e => e.1 = n ∧ RecordFor coinStore peak additionsDict n e.2) names records) :
    removalRecords coinStore peak additionsDict names = .ok records := by
  induction h with
  | nil => rfl
  | @cons name e names records hhead _ ih =>
    obtain ⟨n, record⟩ := e
    obtain ⟨rfl, hrecord⟩ := hhead
    unfold removalRecords
    rw [ih]
    rcases hrecord with ⟨coin, timestamp', hdict, htime', rfl⟩ | ⟨hdict, hrow⟩
    · have huint : uint32 ((peak.height : ℤ) + 1) = .ok (peak.height + 1) :=
        uintN_eq_ok.mpr ⟨by push_cast; rfl, hheight⟩
      simp only [hdict, htime']
      rw [stopRaising_eq_ok.mpr (pySome_eq_ok.mpr rfl), ok_bind]
      rw [stopRaising_eq_ok.mpr huint]
      rfl
    · rw [hdict, hrow]
      rfl

/-! ## Valid items -/

/-- An item is valid for a coin set at a height and a time. -/
structure ItemValid (T : MempoolTools K) (constants : MempoolConstants) (coinStore : CoinTable)
    (height timestamp : ℕ) (item : MempoolItem) (conds : SpendBundleConditions) : Prop where
  npc : NpcOk T constants item.spendBundle item.npcResult conds
  spends : List.Forall₂ (SpendValid coinStore height timestamp (additionsDictOf T item.npcResult))
    conds.spends item.removals
  fee_eq : ((item.removals.map Coin.amount).sum : ℤ) - (item.additions.map Coin.amount).sum = item.fee
  fee_lt : item.fee < 2 ^ 64
  reserve : conds.reserveFee ≤ item.fee
  cost_ne : item.cost ≠ 0
  cost_eq : item.cost = item.npcResult.cost
  additions_eq : item.additions = additionsForNpc item.npcResult
  height : conds.heightAbsolute ≤ height
  seconds : conds.secondsAbsolute ≤ timestamp

variable {mgr : MempoolManager K} {newSpend : SpendBundle} {npcResult : NPCResult} {spendName : Bytes32}
  {program : Option SerializedProgram} {conds : SpendBundleConditions}
  {records : List (Bytes32 × CoinRecord)} {item : MempoolItem} {replaced : List MempoolItem}

/-- **An item that is admitted is valid.** -/
theorem Admitted.itemValid (h : Admitted T constants coinStore mgr newSpend npcResult spendName program peak
    conds records item replaced) (hm : mgr.mempool.Consistent T) (htime : peak.timestamp = some timestamp) :
    ItemValid T constants coinStore peak.height timestamp item conds := by
  obtain ⟨hnames, hrecords⟩ := removalRecords_eq_ok h.records_eq
  have hunspent := (replacedItems_eq_ok hm h.replaced_eq).1
  have hlocks := mempoolCheckTimeLocks_eq_ok.mp ((checkBundleLocks_eq_ok htime).mp h.locks)
  have hpuzzles := checkSpendPuzzles_eq_ok.mp h.puzzles
  have hnodup : (records.map Prod.fst).Nodup := by
    rw [hnames]
    exact h.npc.nodup_removals
  have hspends : List.Forall₂ (fun spend e => SpendValid coinStore peak.height timestamp
      (additionsDictOf T npcResult) spend e.2.coin) conds.spends records := by
    have hall : List.Forall₂ (fun (spend : Spend) (e : Bytes32 × CoinRecord) => spend.coinId = e.1)
        conds.spends records := by
      have heq : List.Forall₂ (· = ·) (conds.spends.map Spend.coinId) (records.map Prod.fst) := by
        rw [hnames, List.forall₂_eq_eq_eq]
      exact List.forall₂_map_right_iff.mp (List.forall₂_map_left_iff.mp heq)
    obtain ⟨hlen, hzip⟩ := List.forall₂_iff_zip.mp hall
    refine List.forall₂_iff_zip.mpr ⟨hlen, fun {spend e} hmem => (spendValid_iff htime).mpr ?_⟩
    obtain ⟨hspend, he⟩ := List.of_mem_zip hmem
    have hname := hzip hmem
    have hlookup : (Dict.ofItems records).lookup spend.coinId = some e.2 :=
      (Dict.lookup_ofItems_of_nodup hnodup).mpr (by rw [hname]; exact he)
    obtain ⟨record, hrecord, hpuzzle⟩ := hpuzzles spend hspend
    obtain rfl := Option.some.inj (hlookup.symm.trans hrecord)
    obtain ⟨record, hrecord, hopen⟩ := hlocks.2.2 spend hspend
    obtain rfl := Option.some.inj (hlookup.symm.trans hrecord)
    refine ⟨e.2, ?_, rfl, hunspent e he, hpuzzle, hopen⟩
    rw [hname]
    exact hrecords e he
  obtain ⟨fees, hfees, hlt, hreserve, hcost, rfl⟩ := h.item_fields
  exact ⟨h.npc, List.forall₂_map_right_iff.mpr hspends, hfees, hlt, hreserve, hcost, rfl, rfl, hlocks.1,
    hlocks.2.1⟩

lemma exists_records {good : Spend → CoinRecord → Prop} (hheight : peak.height + 1 < 2 ^ 32) {removals : List Coin}
    (h : List.Forall₂ (fun spend coin => ∃ record, RecordFor coinStore peak additionsDict spend.coinId record ∧ record.coin = coin ∧ good spend record) spends removals) :
    ∃ records : List (Bytes32 × CoinRecord),
      removalRecords coinStore peak additionsDict (spends.map Spend.coinId) = .ok records ∧
        records.map (fun e => e.2.coin) = removals ∧
      List.Forall₂ (fun (spend : Spend) (e : Bytes32 × CoinRecord) => e.1 = spend.coinId ∧ good spend e.2)
        spends records := by
  have hbuild : ∃ records : List (Bytes32 × CoinRecord), records.map (fun e => e.2.coin) = removals ∧
      List.Forall₂ (fun (spend : Spend) (e : Bytes32 × CoinRecord) => e.1 = spend.coinId ∧
        RecordFor coinStore peak additionsDict spend.coinId e.2 ∧ good spend e.2) spends records := by
    induction h with
    | nil => exact ⟨[], rfl, .nil⟩
    | @cons spend coin spends removals hspend _ ih =>
      obtain ⟨records, hcoins, hrecords⟩ := ih
      obtain ⟨record, hfor, hcoin, hgood⟩ := hspend
      exact ⟨(spend.coinId, record) :: records, by rw [List.map_cons, hcoins, hcoin],
        .cons ⟨rfl, hfor, hgood⟩ hrecords⟩
  obtain ⟨records, hcoins, hrecords⟩ := hbuild
  refine ⟨records, removalRecords_of_forall₂ hheight ?_, hcoins, ?_⟩
  · exact List.forall₂_map_left_iff.mpr (hrecords.imp fun spend e he => ⟨he.1, he.2.1⟩)
  · exact hrecords.imp fun spend e he => ⟨he.1, he.2.2⟩

namespace ItemValid

variable {height : ℕ}

omit [LinearOrder K] in
lemma makeItem_eq (h : ItemValid T constants coinStore height timestamp item conds)
    (hcoins : records.map (fun e => e.2.coin) = item.removals) :
    makeItem item.spendBundle item.npcResult item.spendBundleName item.program conds.reserveFee records =
      .ok item := by
  refine makeItem_eq_ok.mpr ⟨item.fee, ?_, h.fee_lt, h.reserve, ?_, ?_⟩
  · rw [feesLeft, hcoins, ← h.additions_eq]
    exact h.fee_eq
  · rw [← h.cost_eq]
    exact h.cost_ne
  · rw [hcoins, ← h.cost_eq, ← h.additions_eq]

lemma checkFeeRate_of_room (hroom : mgr.mempool.totalMempoolCost + item.cost ≤ mgr.mempool.maxSizeInCost) :
    checkFeeRate T mgr.mempool item = .ok () := by
  have hfull : mgr.mempool.atFullCapacity item.cost = false := by
    simpa [Mempool.atFullCapacity] using hroom
  rw [checkFeeRate, hfull]
  rfl

lemma replacedItems_eq_nil {m : Mempool K} (hunspent : ∀ e ∈ records, e.2.spent = false)
    (hfree : ∀ e ∈ records, m.removals.get? (T.coinName e.2.coin) = none) :
    replacedItems T m item records = .ok [] := by
  have hspent : ¬∃ r ∈ records.map Prod.snd, r.spent = true := by
    rintro ⟨r, hr, hspent⟩
    obtain ⟨e, he, rfl⟩ := List.mem_map.mp hr
    rw [hunspent e he] at hspent
    cases hspent
  have hnil : ((records.map Prod.snd).map CoinRecord.coin).filter
      (fun c => (m.removals.get? (T.coinName c)).isSome) = [] := by
    rw [List.filter_eq_nil_iff]
    intro c hc
    obtain ⟨r, hr, rfl⟩ := List.mem_map.mp hc
    obtain ⟨e, he, rfl⟩ := List.mem_map.mp hr
    rw [hfree e he]
    exact Bool.false_ne_true
  unfold replacedItems
  rw [checkRemovals_eq, if_neg hspent]
  simp only [List.nil_append, hnil]
  rfl

/-- **A valid item is admitted** where there is room for it and no item spends its coins, and it replaces
nothing. -/
theorem admitted (h : ItemValid T constants coinStore peak.height timestamp item conds)
    (hpeak : mgr.peak = some peak) (htime : peak.timestamp = some timestamp)
    (hheight : peak.height + 1 < 2 ^ 32)
    (hfresh : mgr.mempool.spends.get? item.spendBundleName = none)
    (hroom : mgr.mempool.totalMempoolCost + item.cost ≤ mgr.mempool.maxSizeInCost)
    (hfree : ∀ c ∈ item.removalNames T, mgr.mempool.removals.get? c = none) :
    ∃ records, Admitted T constants coinStore mgr item.spendBundle item.npcResult item.spendBundleName
      (some item.program) peak conds records item [] := by
  obtain ⟨records, hrecords, hcoins, hall⟩ :=
    exists_records hheight (h.spends.imp fun spend coin => (spendValid_iff htime).mp)
  obtain ⟨hnames, -⟩ := removalRecords_eq_ok hrecords
  have hnodup : (records.map Prod.fst).Nodup := by
    rw [hnames]
    exact h.npc.nodup_removals
  have hlookup : ∀ spend ∈ conds.spends, ∃ record,
      (Dict.ofItems records).lookup spend.coinId = some record ∧
        RecordOk peak.height timestamp spend record := by
    intro spend hspend
    obtain ⟨e, he, hname, hok⟩ := exists_mem_of_forall₂ hall hspend
    exact ⟨e.2, (Dict.lookup_ofItems_of_nodup hnodup).mpr (by rw [← hname]; exact he), hok⟩
  have hunspent : ∀ e ∈ records, e.2.spent = false := by
    intro e he
    obtain ⟨spend, -, -, hok⟩ := exists_mem_of_forall₂ (R := flip _) (List.Forall₂.flip hall) he
    exact hok.unspent
  refine ⟨records, hpeak, h.npc, hfresh, hrecords, h.makeItem_eq hcoins, checkFeeRate_of_room hroom, ?_, ?_, ?_⟩
  · refine replacedItems_eq_nil hunspent fun e he => hfree _ ?_
    rw [MempoolItem.removalNames, ← hcoins, List.map_map]
    exact List.mem_map_of_mem he
  · exact checkSpendPuzzles_eq_ok.mpr fun spend hspend => by
      obtain ⟨record, hrecord, hok⟩ := hlookup spend hspend
      exact ⟨record, hrecord, hok.puzzle⟩
  · refine (checkBundleLocks_eq_ok htime).mpr (mempoolCheckTimeLocks_eq_ok.mpr ⟨h.height, h.seconds, ?_⟩)
    intro spend hspend
    obtain ⟨record, hrecord, hok⟩ := hlookup spend hspend
    exact ⟨record, hrecord, hok.locks⟩

theorem admission_of_spent (h : ItemValid T constants coinStore height timestamp item conds)
    {coinStore' : CoinTable} (hpeak : mgr.peak = some peak)
    (hfresh : mgr.mempool.spends.get? item.spendBundleName = none)
    (hroom : mgr.mempool.totalMempoolCost + item.cost ≤ mgr.mempool.maxSizeInCost)
    (hrecords : removalRecords coinStore' peak (additionsDictOf T item.npcResult)
      (conds.spends.map Spend.coinId) = .ok records)
    (hcoins : records.map (fun e => e.2.coin) = item.removals) (hspent : ∃ e ∈ records, e.2.spent = true) :
    admission T constants coinStore' mgr item.spendBundle item.npcResult item.spendBundleName
      (some item.program) = .error (.failed Err.doubleSpend.value) := by
  unfold additionsDictOf at hrecords
  have hreplaced : replacedItems T mgr.mempool item records = .error (.failed Err.doubleSpend.value) := by
    have hex : ∃ r ∈ records.map Prod.snd, r.spent = true := by
      obtain ⟨e, he, hspent⟩ := hspent
      exact ⟨e.2, List.mem_map_of_mem he, hspent⟩
    unfold replacedItems
    rw [checkRemovals_eq, if_pos hex]
  have hitem := h.makeItem_eq hcoins
  unfold admission
  rw [hpeak]
  simp only
  rw [checkNpcResult_eq_ok.mpr h.npc, ok_bind, hfresh]
  simp only [Option.isSome_none, Bool.false_eq_true, if_false, pure_eq, ok_bind]
  rw [hrecords, ok_bind, Option.getD_some, hitem, ok_bind, checkFeeRate_of_room hroom, ok_bind, hreplaced]
  rfl

end ItemValid

end Manager

end MempoolManager

end Chives
