import Chives.Consensus.ReceiveBlock

set_option autoImplicit false

/-!
# The check for double spends

Steps 14 and 15 of `validate_block_body` in reachable states. The coin store describes the chain of the
peak, not that of the block, so the check looks up what was confirmed up to the fork there and runs the
blocks of the fork for the rest. It accepts exactly the coins that are unspent on the block's own chain.

## Main definitions

* `Blockchain.bodyContext` — what the validation of bodies reads of a state.
* `ForkCoins.Describes` — the coins created and spent by the blocks of a fork.

## Main results

* `splitRemovals_eq`, `confirmedBeforeFork_eq`, `createdInFork_eq` — the loops of
  the check, as conditions.
* `exists_forkCoins` — the coins created and spent in the fork.
* `removalCoinRecords_iff` — the check is exact.
-/

namespace Chives

open ExceptRun ParentTree BlockHeightMap LifeTable Table

/-! ## The loops of the check -/

section Loops

variable {T : BodyTools} {additionsDic : Dict Bytes32 Coin} {removalsSinceFork : List Bytes32}
  {height timestamp : ℕ} {forkH : ℤ}

/-- The records of removals that the block itself creates. -/
def ephemeralItems (T : BodyTools) (additionsDic : Dict Bytes32 Coin) (height timestamp : ℕ)
    (removals : List Bytes32) : List (Bytes32 × CoinRecord) :=
  removals.filterMap fun rem => (additionsDic.lookup rem).map fun coin =>
    (T.H.coinName coin, ⟨coin, height, height, false, timestamp⟩)

lemma splitRemovals_eq (removals : List Bytes32) (records : Dict Bytes32 CoinRecord) :
    splitRemovals T additionsDic removalsSinceFork height timestamp removals records =
      if ∀ rem ∈ removals, additionsDic.lookup rem = none → rem ∉ removalsSinceFork then
        .ok ((ephemeralItems T additionsDic height timestamp removals).foldl
          (fun d e => Dict.set d e.1 e.2) records,
          removals.filter fun rem => additionsDic.lookup rem = none)
      else .error (.invalid Err.doubleSpendInFork.value) := by
  induction removals generalizing records with
  | nil => simp [splitRemovals, ephemeralItems]
  | cons rem removals ih =>
    unfold splitRemovals
    cases hdic : additionsDic.lookup rem with
    | some coin =>
      simp only
      rw [ih]
      simp [ephemeralItems, hdic]
    | none =>
      simp only
      rw [ih]
      by_cases hspent : rem ∈ removalsSinceFork
      · simp [bodyRejectIf, hspent, hdic]
      · simp only [bodyRejectIf, hspent, if_false, ok_bind]
        by_cases hall : ∀ rem ∈ removals, additionsDic.lookup rem = none → rem ∉ removalsSinceFork
        · rw [if_pos hall, if_pos (by simpa [hdic, hspent] using hall)]
          simp [ephemeralItems, hdic]
        · rw [if_neg hall, if_neg (by simpa [hdic, hspent] using hall)]
          rfl

/-- A record of the coin store that shows a spend up to the fork. -/
def SpentBeforeFork (forkH : ℤ) (r : CoinRecord) : Prop :=
  (r.confirmedBlockIndex : ℤ) ≤ forkH ∧ r.spent = true ∧ (r.spentBlockIndex : ℤ) ≤ forkH

instance (forkH : ℤ) : DecidablePred (SpentBeforeFork forkH) :=
  fun _ => inferInstanceAs (Decidable (_ ∧ _))

lemma confirmedBeforeFork_eq (rs : List CoinRecord) (records : Dict Bytes32 CoinRecord) :
    confirmedBeforeFork T forkH rs records =
      if ∀ r ∈ rs, ¬SpentBeforeFork forkH r then
        .ok (((rs.filter fun r => (r.confirmedBlockIndex : ℤ) ≤ forkH).map fun r =>
            (T.H.coinName r.coin, r)).foldl (fun d e => Dict.set d e.1 e.2) records,
          (rs.filter fun r => ¬(r.confirmedBlockIndex : ℤ) ≤ forkH).map fun r =>
            T.H.coinName r.coin)
      else .error (.invalid Err.doubleSpend.value) := by
  induction rs generalizing records with
  | nil => simp [confirmedBeforeFork]
  | cons r rs ih =>
    unfold confirmedBeforeFork
    by_cases hconf : (r.confirmedBlockIndex : ℤ) ≤ forkH
    · rw [if_pos hconf]
      by_cases hbad : r.spent = true ∧ (r.spentBlockIndex : ℤ) ≤ forkH
      · have hspent : SpentBeforeFork forkH r := ⟨hconf, hbad⟩
        rw [if_neg (fun hall => hall r List.mem_cons_self hspent), bodyRejectIf, if_pos hbad,
          error_bind]
      · have hspent : ¬SpentBeforeFork forkH r := fun h => hbad h.2
        rw [bodyRejectIf, if_neg hbad, ok_bind, ih]
        simp [hspent, hconf]
    · have hspent : ¬SpentBeforeFork forkH r := fun h => hconf h.1
      rw [if_neg hconf, ih]
      by_cases hall : ∀ r ∈ rs, ¬SpentBeforeFork forkH r
      · have hlt : forkH < (r.confirmedBlockIndex : ℤ) := not_le.mp hconf
        rw [if_pos hall, if_pos (by simpa [hspent] using hall), ok_bind]
        simp [hlt, hconf]
      · rw [if_neg hall, if_neg (by simpa [hspent] using hall), error_bind]

lemma createdInFork_eq (additions : Dict Bytes32 (Coin × ℕ × ℕ)) (names : List Bytes32)
    (records : Dict Bytes32 CoinRecord) :
    createdInFork T additions names records =
      if ∀ rem ∈ names, additions.lookup rem ≠ none then
        .ok ((names.filterMap fun rem => (additions.lookup rem).map fun c =>
          (T.H.coinName c.1, (⟨c.1, c.2.1, 0, false, c.2.2⟩ : CoinRecord))).foldl
            (fun d e => Dict.set d e.1 e.2) records)
      else .error (.invalid Err.unknownUnspent.value) := by
  induction names generalizing records with
  | nil => simp [createdInFork]
  | cons rem names ih =>
    unfold createdInFork
    cases hlookup : additions.lookup rem with
    | none => simp [hlookup]
    | some c =>
      obtain ⟨coin, h, t⟩ := c
      simp only
      rw [ih]
      simp [hlookup]

end Loops

/-! ## The coins of the fork -/

/-- What is known of a coin from its row: the coin, and the height and timestamp of the block that creates
it. -/
def CoinRow.origin (r : CoinRow) : Coin × ℕ × ℕ := (r.coin, r.confirmedIndex, r.timestamp)

/-- The accumulator of the loop over the blocks of a fork has the coins that `bs` create and spend. -/
structure ForkCoins.Describes (T : BodyTools) (constants : ConsensusConstants) (acc : ForkCoins)
    (ancestors bs : List FullBlock) : Prop where
  removals : ∀ k, k ∈ acc.removalsSinceFork ↔ k ∈ spendsFrom T constants ancestors bs
  additions : ∀ k, acc.additionsSinceFork.lookup k =
    (find coinColumns.key (rowsFrom T constants ancestors bs) k).map CoinRow.origin

/-- The coins that the transactions of a block create, on its own chain. -/
def blockAdditions (T : BodyTools) (constants : ConsensusConstants) (ancestors : List FullBlock)
    (b : FullBlock) : List Coin :=
  match b.foliageTransactionBlock with
  | none => []
  | some _ => (effectsOn T constants ancestors b).2

section Fork

variable {T : BodyTools} {constants : ConsensusConstants} {ctx : BodyContext}
  {ancestors bs : List FullBlock} {b curr : FullBlock}

lemma addRemovals_eq_ok {names acc : List Bytes32} (hnodup : names.Nodup)
    (hnew : ∀ k ∈ names, k ∉ acc) :
    ∃ acc', addRemovals acc names = .ok acc' ∧ ∀ k, k ∈ acc' ↔ k ∈ names ∨ k ∈ acc := by
  induction names generalizing acc with
  | nil => exact ⟨acc, rfl, by simp⟩
  | cons name names ih =>
    rw [List.nodup_cons] at hnodup
    obtain ⟨acc', hacc', hmem⟩ := @ih (name :: acc) hnodup.2 (by
      intro k hk hk'
      rcases List.mem_cons.mp hk' with rfl | hk'
      · exact hnodup.1 hk
      · exact hnew k (List.mem_cons_of_mem _ hk) hk')
    refine ⟨acc', ?_, fun k => ?_⟩
    · rw [addRemovals, pyAssert, if_pos (hnew name List.mem_cons_self), ok_bind, hacc']
    · rw [hmem, List.mem_cons, List.mem_cons]
      tauto

/-- Created coins that are new can be added. -/
lemma addAdditions_eq_ok {ftb : FoliageTransactionBlock}
    (hftb : curr.foliageTransactionBlock = some ftb) {coins : List Coin}
    {additions : Dict Bytes32 (Coin × ℕ × ℕ)} (hnodup : (coins.map T.H.coinName).Nodup)
    (hnew : ∀ c ∈ coins, additions.lookup (T.H.coinName c) = none) :
    ∃ additions', addAdditions T curr additions coins = .ok additions' ∧
      ∀ k, additions'.lookup k = ((coins.find? fun c => T.H.coinName c = k).map
        fun c => (c, curr.height, ftb.timestamp)).or (additions.lookup k) := by
  induction coins generalizing additions with
  | nil => exact ⟨additions, rfl, by simp⟩
  | cons c coins ih =>
    rw [List.map_cons, List.nodup_cons] at hnodup
    obtain ⟨additions', hadd, hlookup⟩ :=
      @ih (additions.set (T.H.coinName c) (c, curr.height, ftb.timestamp)) hnodup.2 (by
        intro c' hc'
        have hne : T.H.coinName c' ≠ T.H.coinName c := fun he =>
          hnodup.1 (he ▸ List.mem_map_of_mem hc')
        rw [Dict.lookup_set, if_neg hne]
        exact hnew c' (List.mem_cons_of_mem _ hc'))
    refine ⟨additions', ?_, fun k => ?_⟩
    · rw [addAdditions, pyAssert, if_pos (hnew c List.mem_cons_self), ok_bind, hftb, pySome, ok_bind,
        hadd]
    · rw [hlookup, Dict.lookup_set, List.find?_cons]
      by_cases hk : T.H.coinName c = k
      · have hnone : coins.find? (fun c => decide (T.H.coinName c = k)) = none := by
          rw [List.find?_eq_none]
          intro c' hc' hck
          exact hnodup.1 (List.mem_map.mpr ⟨c', hc', (of_decide_eq_true hck).trans hk.symm⟩)
        simp [hk, hnone]
      · simp [hk, Ne.symm hk]

lemma addAdditions_append (coins coins' : List Coin) (additions : Dict Bytes32 (Coin × ℕ × ℕ)) :
    addAdditions T curr additions (coins ++ coins') =
      (addAdditions T curr additions coins >>= fun d => addAdditions T curr d coins') := by
  induction coins generalizing additions with
  | nil => rfl
  | cons c coins ih =>
    simp only [List.cons_append, addAdditions]
    cases pyAssert (additions.lookup (T.H.coinName c) = none) with
    | error e => rfl
    | ok u =>
      simp only [ok_bind]
      cases pySome curr.foliageTransactionBlock with
      | error e => rfl
      | ok ftb =>
        simp only [ok_bind]
        exact ih _

lemma find_rowsOfBlock (H : Hashes) (height timestamp : ℕ) (rewards additions : List Coin)
    (k : Bytes32) :
    (find coinColumns.key (CoinTable.rowsOfBlock H height timestamp rewards additions) k).map
      CoinRow.origin = ((additions ++ rewards).find? fun c => H.coinName c = k).map
        fun c => (c, height, timestamp) := by
  rw [CoinTable.rowsOfBlock, CoinTable.recordsOfBlock, List.map_append, List.map_map, List.map_map,
    find, List.find?_append, List.find?_append, List.find?_map, List.find?_map]
  have hcomp : ∀ flag, ((fun r => decide (coinColumns.key r = k)) ∘ CoinRow.ofRecord H ∘
      fun c => (⟨c, height, 0, flag, timestamp⟩ : CoinRecord)) = fun c => decide (H.coinName c = k) :=
    fun _ => rfl
  rw [hcomp, hcomp]
  cases additions.find? fun c => decide (H.coinName c = k) with
  | some c => rfl
  | none => cases rewards.find? fun c => decide (H.coinName c = k) <;> rfl

lemma map_key_rowsOfBlock (H : Hashes) (height timestamp : ℕ) (rewards additions : List Coin) :
    (CoinTable.rowsOfBlock H height timestamp rewards additions).map coinColumns.key =
      (additions ++ rewards).map H.coinName := by
  simp [CoinTable.rowsOfBlock, CoinTable.recordsOfBlock, coinColumns, CoinRow.ofRecord, Function.comp_def]

lemma getIncludedRewardCoins_of_none (h : b.foliageTransactionBlock = none) :
    b.getIncludedRewardCoins = [] := by
  simp [FullBlock.getIncludedRewardCoins, FullBlock.isTransactionBlock, h]

/-- One round of the loop over the blocks of the fork. -/
lemma addForkBlock_eq_ok {acc : ForkCoins}
    (hacc : acc.Describes T constants (ancestors ++ [b]) bs)
    (heff : effectsOfForkBlock T constants ctx b =
      .ok (blockSpends T constants ancestors b, blockAdditions T constants ancestors b))
    (hkeyed : Keyed coinColumns.key (rowsFrom T constants ancestors (b :: bs)))
    (hnodup : (spendsFrom T constants ancestors (b :: bs)).Nodup) :
    ∃ acc', addForkBlock T constants ctx acc b = .ok acc' ∧
      acc'.Describes T constants ancestors (b :: bs) := by
  obtain ⟨hspends, -, hdisjoint⟩ := List.nodup_append.mp hnodup
  obtain ⟨removals, hremovals, hmem⟩ := @addRemovals_eq_ok _ acc.removalsSinceFork hspends
    (fun k hk hk' => hdisjoint k hk k ((hacc.removals k).mp hk') rfl)
  unfold addForkBlock
  simp only [heff, ok_bind, hremovals]
  have hremovals' : ∀ k, k ∈ removals ↔ k ∈ spendsFrom T constants ancestors (b :: bs) := by
    intro k
    rw [hmem, hacc.removals, spendsFrom, List.mem_append]
  cases hftb : b.foliageTransactionBlock with
  | none =>
    have hadditions : blockAdditions T constants ancestors b = [] := by simp [blockAdditions, hftb]
    have hrows : blockRows T constants ancestors b = [] := by simp [blockRows, hftb]
    refine ⟨⟨acc.additionsSinceFork, removals⟩, ?_, hremovals', fun k => ?_⟩
    · rw [hadditions, getIncludedRewardCoins_of_none hftb]
      rfl
    · rw [rowsFrom, hrows, List.nil_append]
      exact hacc.additions k
  | some ftb =>
    have hrows : blockRows T constants ancestors b = CoinTable.rowsOfBlock T.H b.height ftb.timestamp
        b.getIncludedRewardCoins (blockAdditions T constants ancestors b) := by
      simp [blockRows, blockAdditions, hftb]
    have hkeys := hkeyed
    rw [Keyed, rowsFrom, List.map_append, hrows, map_key_rowsOfBlock, List.nodup_append] at hkeys
    obtain ⟨hnames, -, hfresh⟩ := hkeys
    obtain ⟨additions, hadditions, hlookup⟩ := addAdditions_eq_ok (T := T) hftb hnames (by
      intro c hc
      rw [hacc.additions, Option.map_eq_none_iff, find_eq_none]
      intro r hr hrc
      exact hfresh _ (List.mem_map_of_mem hc) _ (List.mem_map_of_mem hr) hrc.symm)
    rw [addAdditions_append] at hadditions
    obtain ⟨d, hd, hadditions⟩ := bind_eq_ok.mp hadditions
    refine ⟨⟨additions, removals⟩, ?_, hremovals', fun k => ?_⟩
    · rw [hd, ok_bind, hadditions]
      rfl
    · rw [hlookup, hacc.additions, rowsFrom, find_append, hrows, ← find_rowsOfBlock]
      cases find coinColumns.key _ k <;> rfl

/-- The loop over the blocks of the fork: `c` is the part of the chain up to the fork, `b₁` are the blocks
above it that are still to come and `b₂` those that were passed.

**Proof sketch.** Induction on `b₁` from its end, which is the block that the loop is at. -/
lemma forkCoinsFrom_eq_ok {c b₁ b₂ : List FullBlock} {reorgBlocks : Dict ℕ FullBlock}
    (hheights : HeightsFrom 0 (c ++ (b₁ ++ b₂)))
    (heff : ∀ b₀ x b', b₁ = b₀ ++ x :: b' → effectsOfForkBlock T constants ctx x =
      .ok (blockSpends T constants (c ++ b₀) x, blockAdditions T constants (c ++ b₀) x))
    (hreorg : ∀ j, c.length ≤ j + 1 → j + 1 < (c ++ b₁).length →
      reorgBlocks.lookup j = (c ++ b₁)[j]?)
    (hkeyed : Keyed coinColumns.key (rowsFrom T constants c (b₁ ++ b₂)))
    (hnodup : (spendsFrom T constants c (b₁ ++ b₂)).Nodup) {acc : ForkCoins}
    (hacc : acc.Describes T constants (c ++ b₁) b₂) {fuel : ℕ}
    (hcurr : (c ++ b₁).getLast? = some curr) (hfuel : (c ++ b₁).length ≤ fuel) :
    ∃ acc', forkCoinsFrom T constants ctx ((c.length : ℤ) - 1) reorgBlocks fuel curr acc = .ok acc' ∧
      acc'.Describes T constants c (b₁ ++ b₂) := by
  induction b₁ using List.reverseRecOn generalizing b₂ acc fuel curr with
  | nil =>
    rw [List.append_nil] at hcurr hacc hfuel
    have hlast : (c)[c.length - 1]? = some curr := by rw [← List.getLast?_eq_getElem?, hcurr]
    obtain ⟨hlt, -⟩ := List.getElem?_eq_some_iff.mp hlast
    obtain ⟨fuel, rfl⟩ : ∃ n, fuel = n + 1 := ⟨fuel - 1, by omega⟩
    refine ⟨acc, ?_, hacc⟩
    have hheight := hheights (c.length - 1) curr (by rw [List.getElem?_append_left hlt, hlast])
    rw [forkCoinsFrom, if_neg (by omega)]
  | append_singleton b₀ x ih =>
    obtain rfl : x = curr := by simpa using hcurr
    obtain ⟨fuel, rfl⟩ : ∃ n, fuel = n + 1 := ⟨fuel - 1, by simp at hfuel; omega⟩
    have hassoc : b₀ ++ [x] ++ b₂ = b₀ ++ (x :: b₂) := by simp
    rw [hassoc] at hheights hkeyed hnodup ⊢
    have hheight : x.height = c.length + b₀.length := by
      have := hheights (c.length + b₀.length) x (by simp)
      omega
    rw [rowsFrom_append] at hkeyed
    rw [spendsFrom_append] at hnodup
    have hkeyed' : Keyed coinColumns.key (rowsFrom T constants (c ++ b₀) (x :: b₂)) :=
      hkeyed.sublist (List.sublist_append_right _ _)
    rw [← List.append_assoc] at hacc
    obtain ⟨acc₁, hadd, hacc₁⟩ := addForkBlock_eq_ok hacc (heff b₀ x [] rfl) hkeyed'
      (List.nodup_append.mp hnodup).2.1
    rw [forkCoinsFrom, if_pos (by omega), hadd, ok_bind]
    by_cases h0 : x.height = 0
    · obtain rfl := List.length_eq_zero_iff.mp (show c.length = 0 by omega)
      obtain rfl := List.length_eq_zero_iff.mp (show b₀.length = 0 by omega)
      exact ⟨acc₁, by rw [if_pos h0]; rfl, hacc₁⟩
    · rw [if_neg h0]
      have hlen : x.height - 1 < (c ++ b₀).length := by
        rw [List.length_append]
        omega
      have hprev : reorgBlocks.lookup (x.height - 1) = (c ++ b₀)[x.height - 1]? := by
        rw [hreorg _ (by omega) (by simp; omega), ← List.append_assoc,
          List.getElem?_append_left hlen]
      obtain ⟨prev, hget⟩ : ∃ prev, (c ++ b₀)[x.height - 1]? = some prev :=
        ⟨_, List.getElem?_eq_getElem hlen⟩
      rw [hprev, hget]
      apply ih hheights
      · intro b' y b'' hb'
        exact heff b' y (b'' ++ [x]) (by rw [hb']; simp)
      · intro j hj hj'
        rw [hreorg j hj (by rw [List.length_append] at hj' ⊢; simp; omega), ← List.append_assoc,
          List.getElem?_append_left (by omega)]
      · rw [rowsFrom_append]
        exact hkeyed
      · rw [spendsFrom_append]
        exact hnodup
      · exact hacc₁
      · rw [List.getLast?_eq_getElem?, ← hget, List.length_append]
        congr 1
        omega
      · rw [List.length_append] at hfuel ⊢
        simp at hfuel
        omega

end Fork

/-! ## The records of the removed coins -/

/-- What is known of a coin from its record. -/
def CoinRecord.origin (r : CoinRecord) : Coin × ℕ × ℕ := (r.coin, r.confirmedBlockIndex, r.timestamp)

/-- The lookups of the removed coins, once the fork is known. -/
def lookUpRemovals (T : BodyTools) (coinStore : CoinTable) (forkH : ℤ) (fork : ForkCoins)
    (height timestamp : ℕ) (removals : List Bytes32) (additionsDic : Dict Bytes32 Coin) :
    Except BodyFailure (Dict Bytes32 CoinRecord) := do
  let (records, removalsFromDb) ←
    splitRemovals T additionsDic fork.removalsSinceFork height timestamp removals ∅
  let unspentRecords := coinStore.getCoinRecords removalsFromDb
  let (records, lookInFork) ← confirmedBeforeFork T forkH unspentRecords records
  createdInFork T fork.additionsSinceFork (lookInFork ++ missingNames T unspentRecords removalsFromDb)
    records

/-- The row of a coin that was confirmed up to the fork. -/
def rowBeforeFork (coinStore : CoinTable) (forkH : ℤ) (k : Bytes32) : Option CoinRow :=
  (find coinColumns.key coinStore k).filter fun r => (r.confirmedIndex : ℤ) ≤ forkH

/-- A coin that the block does not create may be spent: the fork does not spend it, and it was either
confirmed up to the fork and not spent up to it, or it was created in the fork. -/
def Spendable (coinStore : CoinTable) (forkH : ℤ) (fork : ForkCoins) (k : Bytes32) : Prop :=
  k ∉ fork.removalsSinceFork ∧ match rowBeforeFork coinStore forkH k with
    | some r => r.spentIndex = 0 ∨ forkH < r.spentIndex
    | none => fork.additionsSinceFork.lookup k ≠ none

/-- Where a coin that the block does not create comes from. -/
def originBeforeBlock (coinStore : CoinTable) (forkH : ℤ) (fork : ForkCoins) (k : Bytes32) :
    Option (Coin × ℕ × ℕ) :=
  ((rowBeforeFork coinStore forkH k).map CoinRow.origin).or (fork.additionsSinceFork.lookup k)

section Records

variable {T : BodyTools} {coinStore : CoinTable} {forkH : ℤ} {fork : ForkCoins}
  {height timestamp : ℕ} {removals names : List Bytes32} {additionsDic : Dict Bytes32 Coin}

lemma mem_getCoinRecords (hkeyed : Keyed coinColumns.key coinStore) (hnodup : names.Nodup)
    {r : CoinRecord} : r ∈ coinStore.getCoinRecords names ↔
      ∃ k ∈ names, ∃ row, find coinColumns.key coinStore k = some row ∧ row.toRecord = r := by
  rw [(CoinTable.getCoinRecords_perm hkeyed hnodup).mem_iff, List.mem_map]
  constructor
  · rintro ⟨row, hrow, rfl⟩
    obtain ⟨k, hk, hfind⟩ := List.mem_filterMap.mp hrow
    exact ⟨k, hk, row, hfind, rfl⟩
  · rintro ⟨k, hk, row, hfind, rfl⟩
    exact ⟨row, List.mem_filterMap.mpr ⟨k, hk, hfind⟩, rfl⟩

lemma coinName_of_find (hnamed : ∀ r ∈ coinStore, r.coinName = T.H.coinName r.coin) {k : Bytes32}
    {row : CoinRow} (h : find coinColumns.key coinStore k = some row) :
    T.H.coinName row.toRecord.coin = k := by
  obtain ⟨hmem, hkey⟩ := mem_of_find h
  exact (hnamed row hmem).symm.trans hkey

/-- The names that are looked up in the fork: those of coins that were not confirmed up to it.

**Proof sketch.** A name that is not in the coin store is missing, also when the two lengths agree: then
every name was found. -/
lemma mem_lookInFork (hkeyed : Keyed coinColumns.key coinStore)
    (hnamed : ∀ r ∈ coinStore, r.coinName = T.H.coinName r.coin) (hnodup : names.Nodup) {k : Bytes32} :
    k ∈ (((coinStore.getCoinRecords names).filter fun r => ¬(r.confirmedBlockIndex : ℤ) ≤ forkH).map
        fun r => T.H.coinName r.coin) ++ missingNames T (coinStore.getCoinRecords names) names ↔
      k ∈ names ∧ rowBeforeFork coinStore forkH k = none := by
  have hfound : ∀ k, k ∈ (coinStore.getCoinRecords names).map (fun u => T.H.coinName u.coin) ↔
      k ∈ names ∧ find coinColumns.key coinStore k ≠ none := by
    intro k
    rw [List.mem_map]
    constructor
    · rintro ⟨r, hr, rfl⟩
      obtain ⟨k, hk, row, hfind, rfl⟩ := (mem_getCoinRecords hkeyed hnodup).mp hr
      rw [coinName_of_find hnamed hfind]
      exact ⟨hk, by simp [hfind]⟩
    · rintro ⟨hk, hne⟩
      obtain ⟨row, hfind⟩ := Option.ne_none_iff_exists'.mp hne
      exact ⟨row.toRecord, (mem_getCoinRecords hkeyed hnodup).mpr ⟨k, hk, row, hfind, rfl⟩,
        coinName_of_find hnamed hfind⟩
  have hmissing : k ∈ missingNames T (coinStore.getCoinRecords names) names ↔
      k ∈ names ∧ find coinColumns.key coinStore k = none := by
    unfold missingNames
    by_cases hlen : (coinStore.getCoinRecords names).length = names.length
    · rw [if_neg (not_not.mpr hlen)]
      have hperm := CoinTable.getCoinRecords_perm hkeyed hnodup
      rw [hperm.length_eq, List.length_map, List.length_filterMap_eq_countP] at hlen
      have hall := List.countP_eq_length.mp hlen
      refine ⟨fun h => (List.not_mem_nil h).elim, fun h => ?_⟩
      have := hall k h.1
      simp [h.2] at this
    · rw [if_pos hlen, List.mem_filter, decide_eq_true_iff, hfound]
      tauto
  rw [List.mem_append, hmissing, rowBeforeFork, Option.filter_eq_none_iff]
  constructor
  · rintro (h | ⟨hk, hnone⟩)
    · obtain ⟨r, hr, rfl⟩ := List.mem_map.mp h
      obtain ⟨hr, hconf⟩ := List.mem_filter.mp hr
      obtain ⟨k, hk, row, hfind, rfl⟩ := (mem_getCoinRecords hkeyed hnodup).mp hr
      rw [coinName_of_find hnamed hfind]
      refine ⟨hk, fun r hr => ?_⟩
      rw [hfind] at hr
      cases hr
      simpa [CoinRow.toRecord] using hconf
    · exact ⟨hk, fun r hr => by simp [hnone] at hr⟩
  · rintro ⟨hk, hconf⟩
    cases hfind : find coinColumns.key coinStore k with
    | none => exact .inr ⟨hk, rfl⟩
    | some row =>
      refine .inl (List.mem_map.mpr ⟨row.toRecord, List.mem_filter.mpr ⟨?_, ?_⟩,
        coinName_of_find hnamed hfind⟩)
      · exact (mem_getCoinRecords hkeyed hnodup).mpr ⟨k, hk, row, hfind, rfl⟩
      · simpa [CoinRow.toRecord] using hconf row hfind

lemma spent_toRecord {row : CoinRow} : row.toRecord.spent = true ↔ row.spentIndex ≠ 0 := by
  simp [CoinRecord.spent, CoinRow.toRecord, Nat.pos_iff_ne_zero]

/-- The lookups of the removed coins succeed exactly when every removed coin that the block does not
create may be spent. -/
lemma lookUpRemovals_iff (hkeyed : Keyed coinColumns.key coinStore)
    (hnamed : ∀ r ∈ coinStore, r.coinName = T.H.coinName r.coin) (hnodup : removals.Nodup) :
    (∃ records, lookUpRemovals T coinStore forkH fork height timestamp removals additionsDic =
        .ok records) ↔
      ∀ k ∈ removals, additionsDic.lookup k = none → Spendable coinStore forkH fork k := by
  have hnames : (removals.filter fun rem => additionsDic.lookup rem = none).Nodup := hnodup.filter _
  have hmem : ∀ k, k ∈ removals.filter (fun rem => additionsDic.lookup rem = none) ↔
      k ∈ removals ∧ additionsDic.lookup k = none := by
    intro k
    rw [List.mem_filter, decide_eq_true_iff]
  -- no record of the coin store shows a spend up to the fork
  have hspent : (∀ r ∈ coinStore.getCoinRecords (removals.filter fun rem => additionsDic.lookup rem =
      none), ¬SpentBeforeFork forkH r) ↔ ∀ k ∈ removals, additionsDic.lookup k = none →
        ∀ r, rowBeforeFork coinStore forkH k = some r → r.spentIndex = 0 ∨ forkH < r.spentIndex := by
    constructor
    · intro h k hk hdic r hr
      rw [rowBeforeFork, Option.filter_eq_some_iff] at hr
      have := h r.toRecord ((mem_getCoinRecords hkeyed hnames).mpr ⟨k, (hmem k).mpr ⟨hk, hdic⟩, r,
        hr.1, rfl⟩)
      by_contra hcon
      push Not at hcon
      exact this ⟨of_decide_eq_true hr.2, spent_toRecord.mpr hcon.1, hcon.2⟩
    · intro h r hr hbad
      obtain ⟨k, hk, row, hfind, rfl⟩ := (mem_getCoinRecords hkeyed hnames).mp hr
      obtain ⟨hk, hdic⟩ := (hmem k).mp hk
      have hconf : rowBeforeFork coinStore forkH k = some row := by
        rw [rowBeforeFork, Option.filter_eq_some_iff]
        exact ⟨hfind, decide_eq_true hbad.1⟩
      have hpos : row.spentIndex ≠ 0 := spent_toRecord.mp hbad.2.1
      have hle : (row.spentIndex : ℤ) ≤ forkH := hbad.2.2
      rcases h k hk hdic row hconf with h0 | hlt
      · exact hpos h0
      · omega
  unfold lookUpRemovals
  rw [splitRemovals_eq]
  by_cases hfork : ∀ rem ∈ removals, additionsDic.lookup rem = none → rem ∉ fork.removalsSinceFork
  swap
  · rw [if_neg hfork]
    refine ⟨fun ⟨_, h⟩ => (by cases h), fun h => absurd ?_ hfork⟩
    exact fun rem hrem hdic => (h rem hrem hdic).1
  rw [if_pos hfork]
  simp only [ok_bind]
  rw [confirmedBeforeFork_eq]
  by_cases hunspent : ∀ r ∈ coinStore.getCoinRecords (removals.filter fun rem =>
      additionsDic.lookup rem = none), ¬SpentBeforeFork forkH r
  swap
  · rw [if_neg hunspent]
    refine ⟨fun ⟨_, h⟩ => (by cases h), fun h => absurd ?_ hunspent⟩
    rw [hspent]
    intro k hk hdic r hr
    have := (h k hk hdic).2
    rwa [hr] at this
  rw [if_pos hunspent]
  simp only [ok_bind]
  rw [createdInFork_eq]
  have hcreated : (∀ rem ∈ ((coinStore.getCoinRecords (removals.filter fun rem =>
      additionsDic.lookup rem = none)).filter fun r => ¬(r.confirmedBlockIndex : ℤ) ≤ forkH).map
        (fun r => T.H.coinName r.coin) ++ missingNames T (coinStore.getCoinRecords
          (removals.filter fun rem => additionsDic.lookup rem = none))
            (removals.filter fun rem => additionsDic.lookup rem = none),
      fork.additionsSinceFork.lookup rem ≠ none) ↔
      ∀ k ∈ removals, additionsDic.lookup k = none → rowBeforeFork coinStore forkH k = none →
        fork.additionsSinceFork.lookup k ≠ none := by
    simp only [mem_lookInFork hkeyed hnamed hnames, hmem, and_imp]
  constructor
  · rintro ⟨records, h⟩ k hk hdic
    split at h
    · rename_i hall
      refine ⟨hfork k hk hdic, ?_⟩
      cases hrow : rowBeforeFork coinStore forkH k with
      | some r => exact hspent.mp hunspent k hk hdic r hrow
      | none => exact hcreated.mp hall k hk hdic hrow
    · cases h
  · intro h
    rw [if_pos (hcreated.mpr fun k hk hdic hrow => by simpa [hrow] using (h k hk hdic).2)]
    exact ⟨_, rfl⟩

variable {e : Bytes32 × CoinRecord}

lemma mem_ephemeralItems (hdic : ∀ k c, additionsDic.lookup k = some c → T.H.coinName c = k) :
    e ∈ ephemeralItems T additionsDic height timestamp removals ↔
      ∃ c, e.1 ∈ removals ∧ additionsDic.lookup e.1 = some c ∧
        e.2 = ⟨c, height, height, false, timestamp⟩ := by
  rw [ephemeralItems, List.mem_filterMap]
  constructor
  · rintro ⟨rem, hrem, he⟩
    obtain ⟨c, hc, rfl⟩ := Option.map_eq_some_iff.mp he
    rw [hdic rem c hc]
    exact ⟨c, hrem, hc, rfl⟩
  · rintro ⟨c, hrem, hc, he⟩
    refine ⟨e.1, hrem, Option.map_eq_some_iff.mpr ⟨c, hc, ?_⟩⟩
    rw [hdic _ _ hc, ← he]

lemma mem_confirmedItems (hkeyed : Keyed coinColumns.key coinStore)
    (hnamed : ∀ r ∈ coinStore, r.coinName = T.H.coinName r.coin) (hnodup : names.Nodup) :
    e ∈ ((coinStore.getCoinRecords names).filter fun r => (r.confirmedBlockIndex : ℤ) ≤ forkH).map
        (fun r => (T.H.coinName r.coin, r)) ↔
      ∃ row, e.1 ∈ names ∧ rowBeforeFork coinStore forkH e.1 = some row ∧ e.2 = row.toRecord := by
  rw [List.mem_map]
  constructor
  · rintro ⟨r, hr, rfl⟩
    obtain ⟨hr, hconf⟩ := List.mem_filter.mp hr
    obtain ⟨k, hk, row, hfind, rfl⟩ := (mem_getCoinRecords hkeyed hnodup).mp hr
    rw [coinName_of_find hnamed hfind]
    exact ⟨row, hk, by rw [rowBeforeFork, Option.filter_eq_some_iff]; exact ⟨hfind, hconf⟩, rfl⟩
  · rintro ⟨row, hk, hrow, he⟩
    rw [rowBeforeFork, Option.filter_eq_some_iff] at hrow
    refine ⟨row.toRecord, List.mem_filter.mpr
      ⟨(mem_getCoinRecords hkeyed hnodup).mpr ⟨e.1, hk, row, hrow.1, rfl⟩, hrow.2⟩, ?_⟩
    rw [coinName_of_find hnamed hrow.1, ← he]

lemma mem_forkItems (hfork : ∀ k c, fork.additionsSinceFork.lookup k = some c → T.H.coinName c.1 = k) :
    e ∈ names.filterMap (fun rem => (fork.additionsSinceFork.lookup rem).map fun c =>
        (T.H.coinName c.1, (⟨c.1, c.2.1, 0, false, c.2.2⟩ : CoinRecord))) ↔
      ∃ c, e.1 ∈ names ∧ fork.additionsSinceFork.lookup e.1 = some c ∧
        e.2 = ⟨c.1, c.2.1, 0, false, c.2.2⟩ := by
  rw [List.mem_filterMap]
  constructor
  · rintro ⟨rem, hrem, he⟩
    obtain ⟨c, hc, rfl⟩ := Option.map_eq_some_iff.mp he
    rw [hfork rem c hc]
    exact ⟨c, hrem, hc, rfl⟩
  · rintro ⟨c, hrem, hc, he⟩
    refine ⟨e.1, hrem, Option.map_eq_some_iff.mpr ⟨c, hc, ?_⟩⟩
    rw [hfork _ _ hc, ← he]

/-- The records that are found: of a coin that the block creates, and of other coins with the origin that
is found for them.

**Proof sketch.** All three loops assign records under the names of their coins, the origin in every one
of them is determined by the name, and every removal gets a record in one of them. -/
lemma lookup_lookUpRemovals (hkeyed : Keyed coinColumns.key coinStore)
    (hnamed : ∀ r ∈ coinStore, r.coinName = T.H.coinName r.coin) (hnodup : removals.Nodup)
    (hdic : ∀ k c, additionsDic.lookup k = some c → T.H.coinName c = k)
    (hfork : ∀ k c, fork.additionsSinceFork.lookup k = some c → T.H.coinName c.1 = k)
    {records : Dict Bytes32 CoinRecord}
    (h : lookUpRemovals T coinStore forkH fork height timestamp removals additionsDic = .ok records)
    (k : Bytes32) :
    (records.lookup k).map CoinRecord.origin = if k ∈ removals then
      ((additionsDic.lookup k).map fun c => (c, height, timestamp)).or
        (originBeforeBlock coinStore forkH fork k) else none := by
  set names := removals.filter fun rem => additionsDic.lookup rem = none with hnamesdef
  have hnames : names.Nodup := hnodup.filter _
  have hmem : ∀ k, k ∈ names ↔ k ∈ removals ∧ additionsDic.lookup k = none := by
    intro k
    rw [List.mem_filter, decide_eq_true_iff]
  unfold lookUpRemovals at h
  rw [splitRemovals_eq] at h
  split at h
  swap
  · cases h
  simp only [ok_bind] at h
  rw [confirmedBeforeFork_eq] at h
  split at h
  swap
  · cases h
  simp only [ok_bind] at h
  rw [createdInFork_eq] at h
  split at h
  swap
  · cases h
  rename_i hcreated
  rw [← Except.ok.inj h, ← List.foldl_append, ← List.foldl_append, Dict.map_lookup_foldl_set
    (F := fun k => ((additionsDic.lookup k).map fun c => (c, height, timestamp)).or
      (originBeforeBlock coinStore forkH fork k))]
  · rw [AList.lookup_empty, Option.map_none]
    congr 1
    rw [eq_iff_iff, List.mem_map]
    constructor
    · rintro ⟨e, he, rfl⟩
      rcases List.mem_append.mp he with he | he
      · obtain ⟨c, hk, -⟩ := (mem_ephemeralItems hdic).mp he
        exact hk
      rcases List.mem_append.mp he with he | he
      · obtain ⟨row, hk, -⟩ := (mem_confirmedItems hkeyed hnamed hnames).mp he
        exact ((hmem _).mp hk).1
      · obtain ⟨c, hk, -⟩ := (mem_forkItems hfork).mp he
        exact ((hmem _).mp ((mem_lookInFork hkeyed hnamed hnames).mp hk).1).1
    · intro hk
      cases hlookup : additionsDic.lookup k with
      | some c =>
        exact ⟨(k, ⟨c, height, height, false, timestamp⟩), List.mem_append_left _
          ((mem_ephemeralItems hdic).mpr ⟨c, hk, hlookup, rfl⟩), rfl⟩
      | none =>
        have hk' : k ∈ names := (hmem k).mpr ⟨hk, hlookup⟩
        cases hrow : rowBeforeFork coinStore forkH k with
        | some row =>
          exact ⟨(k, row.toRecord), List.mem_append_right _ (List.mem_append_left _
            ((mem_confirmedItems hkeyed hnamed hnames).mpr ⟨row, hk', hrow, rfl⟩)), rfl⟩
        | none =>
          have hlook := (mem_lookInFork hkeyed hnamed hnames).mpr ⟨hk', hrow⟩
          obtain ⟨c, hc⟩ := Option.ne_none_iff_exists'.mp (hcreated k hlook)
          exact ⟨(k, ⟨c.1, c.2.1, 0, false, c.2.2⟩), List.mem_append_right _ (List.mem_append_right _
            ((mem_forkItems hfork).mpr ⟨c, hlook, hc, rfl⟩)), rfl⟩
  · intro e he
    rcases List.mem_append.mp he with he | he
    · obtain ⟨c, -, hc, hr⟩ := (mem_ephemeralItems hdic).mp he
      rw [hc, hr]
      rfl
    rcases List.mem_append.mp he with he | he
    · obtain ⟨row, hk, hrow, hr⟩ := (mem_confirmedItems hkeyed hnamed hnames).mp he
      rw [((hmem _).mp hk).2, originBeforeBlock, hrow, hr]
      rfl
    · obtain ⟨c, hk, hc, hr⟩ := (mem_forkItems hfork).mp he
      obtain ⟨hk, hrow⟩ := (mem_lookInFork hkeyed hnamed hnames).mp hk
      rw [((hmem _).mp hk).2, originBeforeBlock, hrow, hc, hr]
      rfl

end Records

/-! ## The fork in a reachable state -/

/-- What the validation of bodies reads of a state. -/
def Blockchain.bodyContext (s : Blockchain) (version : DbVersion) (peak : Option BlockRecord) :
    BodyContext :=
  ⟨s.blockRecords, s.blockStore, s.coinStore, peak, fun b => s.getBlockGenerator version b ∅⟩

section State

variable {T : BlockchainTools} {constants : ConsensusConstants} {s : Blockchain} {tip p : Entry}
  {P l c a bb : List Entry} {b : FullBlock} {peak : Option BlockRecord}

/-- The transactions of a stored block, by running its generator again. -/
lemma effectsOfForkBlock_eq_ok (hcost : CostMonotone T.runGenerator) (hinv : s.Inv T constants)
    (hm : MainChain T constants s s.blockStore.entry tip P) {x : Entry} {lx : List Entry}
    (hx : s.blockStore.entry x.2.headerHash = some x)
    (hlx : Path entryLinks s.blockStore.entry x (lx ++ [x])) :
    effectsOfForkBlock T.toBodyTools constants (s.bodyContext T.dbVersion peak) x.1 =
      .ok (blockSpends T.toBodyTools constants (lx.map Prod.fst) x.1,
        blockAdditions T.toBodyTools constants (lx.map Prod.fst) x.1) := by
  have haccepted := hinv.accepted hx hlx
  unfold effectsOfForkBlock
  cases hgen : x.1.transactionsGenerator with
  | none =>
    have hown : ownGenerator (lx.map Prod.fst) x.1 = none := by simp [ownGenerator, hgen]
    have heff : effectsOn T.toBodyTools constants (lx.map Prod.fst) x.1 = ([], []) := by
      rw [effectsOn, hown]
      rfl
    unfold blockSpends blockAdditions
    rw [heff]
    cases x.1.foliageTransactionBlock <;> rfl
  | some program =>
    obtain ⟨g, info, hown, hinfo, herror⟩ := haccepted.generator program hgen
    have hftb : x.1.foliageTransactionBlock ≠ none := by
      intro hnone
      rw [haccepted.noBody hnone] at hgen
      cases hgen
    obtain ⟨ftb, hftb⟩ := Option.ne_none_iff_exists'.mp hftb
    have hget : (s.bodyContext T.dbVersion peak).getBlockGenerator x.1 = .ok (some g) :=
      hm.getBlockGenerator_of_path hx hlx hown
    have hrun := hcost g _ constants.MAX_BLOCK_COST_CLVM x.1.height (min_le_left _ _) herror
    simp only [hget, ok_bind, pySome, hinfo, blockSpends, blockAdditions, hftb, effectsOn, hown,
      Option.bind_some, hrun]
    rfl

/-- The coins that the blocks of a fork create and spend: `c` is the part of the chain of the parent up to
the fork and `bb` the part above. -/
lemma exists_forkCoins (hcost : CostMonotone T.runGenerator) (hinv : s.Inv T constants)
    (hm : MainChain T constants s s.blockStore.entry tip P) (h0 : b.height ≠ 0)
    (hp : s.blockStore.entry b.prevHeaderHash = some p)
    (hl : Path entryLinks s.blockStore.entry p l) (hheight : b.height = l.length) (heq : l = c ++ bb)
    (hkeyed : Keyed coinColumns.key
      (rowsFrom T.toBodyTools constants (c.map Prod.fst) (bb.map Prod.fst)))
    (hnodup : (spendsFrom T.toBodyTools constants (c.map Prod.fst) (bb.map Prod.fst)).Nodup) :
    ∃ fork, forkCoins T.toBodyTools constants (s.bodyContext T.dbVersion peak) b b.height
        ((c.length : ℤ) - 1) = .ok fork ∧
      fork.Describes T.toBodyTools constants (c.map Prod.fst) (bb.map Prod.fst) := by
  have hpmem : s.blockStore.entry p.2.headerHash = some p := by
    rw [show p.2.headerHash = b.prevHeaderHash from hinv.view.rooted.hash_eq hp]
    exact hp
  have hlen : l.length = p.2.height + 1 := hl.length_eq
  have hclen : c.length + bb.length = l.length := by rw [heq, List.length_append]
  have hfuel := hm.height_lt_storeFuel hl hpmem
  obtain ⟨l₀, hl₀⟩ := hl.exists_eq_concat
  have hlen₀ : l₀.length = p.2.height := by
    rw [hl₀, List.length_append, List.length_singleton] at hlen
    omega
  set k := min p.2.height (((c.length : ℤ) - 1).toNat) with hk
  -- the blocks before the parent, down to the fork
  have hback : blocksBack s.blockStore ((c.length : ℤ) - 1) (storeFuel s.blockStore) p.1 =
      .ok (p.1 :: ((l₀.drop k).map Prod.fst).reverse) := by
    rw [hm.view.blocksBack_eq_ok hl hpmem _ hfuel, ← hk, hl₀,
      List.drop_append_of_le_length (by omega)]
    simp
  have hall : HeightsFrom 0 (l.map Prod.fst) := hm.view.heightsFrom_zero hl hpmem
  have hheights : HeightsFrom k ((l₀.drop k).map Prod.fst) := by
    intro i x hx
    rw [List.getElem?_map, List.getElem?_drop] at hx
    obtain ⟨y, hy, rfl⟩ := Option.map_eq_some_iff.mp hx
    have hlt := (List.getElem?_eq_some_iff.mp hy).1
    have := hall (k + i) y.1 (by
      rw [List.getElem?_map, hl₀, List.getElem?_append_left hlt, hy]
      rfl)
    omega
  have hreorg : ∀ j, k ≤ j → j < l₀.length →
      (Dict.ofItems ((((l₀.drop k).map Prod.fst).reverse).map fun b => (b.height, b))).lookup j =
        (l.map Prod.fst)[j]? := by
    intro j hj hj'
    rw [hheights.lookup_ofItems, if_pos hj, List.getElem?_map, List.getElem?_map, List.getElem?_drop,
      hl₀, List.getElem?_append_left hj', show k + (j - k) = j by omega]
  have hcount : (Dict.ofItems ((((l₀.drop k).map Prod.fst).reverse).map
      fun b => (b.height, b))).keys.length = l₀.length - k := by
    unfold Dict.ofItems
    rw [Dict.length_keys_foldl_set]
    · simp [AList.keys, List.keys]
    · rw [List.map_map]
      show (List.map FullBlock.height _).Nodup
      rw [List.map_reverse, List.nodup_reverse, hheights.map_height]
      exact List.nodup_range'
    · intro e _
      exact AList.notMem_empty _
  have hmap : l.map Prod.fst = c.map Prod.fst ++ bb.map Prod.fst := by rw [heq, List.map_append]
  have hloop : ∃ fork, forkCoinsFrom T.toBodyTools constants (s.bodyContext T.dbVersion peak)
      (((c.map Prod.fst).length : ℤ) - 1)
      (Dict.ofItems ((((l₀.drop k).map Prod.fst).reverse).map fun b => (b.height, b)))
      (storeFuel s.blockStore) p.1 ⟨∅, []⟩ = .ok fork ∧
      fork.Describes T.toBodyTools constants (c.map Prod.fst) (bb.map Prod.fst ++ []) := by
    apply forkCoinsFrom_eq_ok
    · rw [List.append_nil, ← hmap]
      exact hall
    · intro b₀ x b' hb
      obtain ⟨e₀, e', rfl, rfl, he'⟩ := List.map_eq_append_iff.mp hb
      obtain ⟨y, e'', rfl, rfl, rfl⟩ := List.map_eq_cons_iff.mp he'
      rw [← List.map_append]
      have hy : l = (c ++ e₀) ++ y :: e'' := by rw [heq, List.append_assoc]
      exact effectsOfForkBlock_eq_ok hcost hinv hm
        (hm.view.mem_of_path hl hpmem (by rw [hy]; simp)) (hl.of_append hy)
    · intro j hj hj'
      rw [← hmap] at hj' ⊢
      rw [List.length_map] at hj hj'
      apply hreorg <;> omega
    · rwa [List.append_nil]
    · rwa [List.append_nil]
    · exact ⟨fun k => by simp [spendsFrom], fun k => by simp [rowsFrom, find]⟩
    · rw [← hmap, hl₀]
      simp
    · rw [← hmap, List.length_map]
      omega
  obtain ⟨fork, hfork, hdescribes⟩ := hloop
  rw [List.append_nil] at hdescribes
  rw [List.length_map] at hfork
  refine ⟨fork, ?_, hdescribes⟩
  have hget : (s.bodyContext T.dbVersion peak).blockStore.getFullBlock b.prevHeaderHash = some p.1 := by
    show s.blockStore.getFullBlock b.prevHeaderHash = some p.1
    rw [BlockStore.getFullBlock_eq, hp]
    rfl
  unfold forkCoins
  rw [if_pos (Nat.pos_of_ne_zero h0), hget, pySome, ok_bind]
  show (blocksBack s.blockStore _ (storeFuel s.blockStore) p.1 >>= _) = _
  rw [hback, ok_bind]
  refine bind_eq_ok.mpr ⟨(), pyAssert_eq_ok.mpr fun hne => ?_, hfork⟩
  rw [List.tail_cons, hcount]
  omega

end State

/-! ## Exactness -/

/-- What the check knows of the fork: the coin store at the fork, and what the blocks of the fork did to
it until the coins are those of the chain of the block's parent. -/
structure ForkView (T : BodyTools) (coinStore coins : CoinTable) (forkH : ℤ) (fork : ForkCoins)
    (rows : List CoinRow) (spends : List Bytes32) : Prop where
  keyed : Keyed coinColumns.key coinStore
  named : ∀ r ∈ coinStore, r.coinName = T.H.coinName r.coin
  grows : Grows coinColumns (rollback coinColumns forkH coinStore) coins rows spends
  created : ∀ r ∈ rows, r.spentIndex = 0 ∧ r.coinName = T.H.coinName r.coin
  removals : ∀ k, k ∈ fork.removalsSinceFork ↔ k ∈ spends
  additions : ∀ k, fork.additionsSinceFork.lookup k =
    (find coinColumns.key rows k).map CoinRow.origin

namespace ForkView

variable {T : BodyTools} {coinStore coins : CoinTable} {forkH : ℤ} {fork : ForkCoins}
  {rows : List CoinRow} {spends : List Bytes32} {k : Bytes32}

lemma find_rollback_eq (h : ForkView T coinStore coins forkH fork rows spends) (k : Bytes32) :
    find coinColumns.key (rollback coinColumns forkH coinStore) k =
      (rowBeforeFork coinStore forkH k).map (revive coinColumns forkH) := by
  rw [find_rollback h.keyed, rowBeforeFork]
  congr 2
  funext r
  exact decide_eq_decide.mpr not_lt

lemma coinName_of_lookup (h : ForkView T coinStore coins forkH fork rows spends) {c : Coin × ℕ × ℕ}
    (hc : fork.additionsSinceFork.lookup k = some c) : T.H.coinName c.1 = k := by
  rw [h.additions] at hc
  obtain ⟨r, hr, rfl⟩ := Option.map_eq_some_iff.mp hc
  obtain ⟨hmem, hkey⟩ := mem_of_find hr
  exact (h.created r hmem).2.symm.trans hkey

lemma origin_revive (r : CoinRow) : (revive coinColumns forkH r).origin = r.origin := by
  unfold revive
  split <;> rfl

/-- A coin that the block does not create may be spent exactly when it is unspent on the chain of the
block's parent.

**Proof sketch.** A coin that the fork spends is dead in that chain. Any other coin is there what it was
at the fork, or what the fork created. -/
lemma spendable_iff (h : ForkView T coinStore coins forkH fork rows spends) :
    Spendable coinStore forkH fork k ↔ Alive coinColumns coins k := by
  have halive : Alive coinColumns coins k ↔ ∃ r, find coinColumns.key coins k = some r ∧
      r.spentIndex = 0 := by
    constructor
    · rintro ⟨r, hr, hkey, hdied⟩
      exact ⟨r, h.grows.keyed_after.find_eq_some.mpr ⟨hr, hkey⟩, hdied⟩
    · rintro ⟨r, hr, hdied⟩
      obtain ⟨hmem, hkey⟩ := mem_of_find hr
      exact ⟨r, hmem, hkey, hdied⟩
  rw [Spendable, h.removals, halive]
  by_cases hspent : k ∈ spends
  · obtain ⟨r, hr, hdied⟩ := h.grows.dead k hspent
    simp only [hspent, not_true_eq_false, false_and, false_iff]
    rintro ⟨r', hr', hzero⟩
    rw [hr] at hr'
    cases hr'
    exact hdied hzero
  · have hfind := h.grows.kept k hspent
    rw [h.find_rollback_eq] at hfind
    simp only [hspent, not_false_eq_true, true_and]
    cases hrow : rowBeforeFork coinStore forkH k with
    | some r =>
      rw [hrow, Option.map_some, Option.some_or] at hfind
      simp only [hfind, Option.some.injEq, exists_eq_left']
      unfold revive
      by_cases hlt : forkH < r.spentIndex
      · simp [coinColumns, hlt]
      · simp [coinColumns, hlt]
    | none =>
      rw [hrow, Option.map_none, Option.none_or] at hfind
      simp only [h.additions, hfind]
      cases hnew : find coinColumns.key rows k with
      | none => simp
      | some r => simp [(h.created r (mem_of_find hnew).1).1]

lemma originBeforeBlock_eq (h : ForkView T coinStore coins forkH fork rows spends)
    (hk : Spendable coinStore forkH fork k) :
    originBeforeBlock coinStore forkH fork k = (find coinColumns.key coins k).map CoinRow.origin := by
  have hspent : k ∉ spends := fun hmem => hk.1 ((h.removals k).mpr hmem)
  rw [originBeforeBlock, h.additions, h.grows.kept k hspent, h.find_rollback_eq]
  cases rowBeforeFork coinStore forkH k with
  | none => rfl
  | some r =>
    simp only [Option.map_some, Option.some_or, origin_revive]

lemma genesis (hkeyed : Keyed coinColumns.key coinStore)
    (hnamed : ∀ r ∈ coinStore, r.coinName = T.H.coinName r.coin) :
    ForkView T coinStore [] (-1) ⟨∅, []⟩ [] [] := by
  have hroll : rollback coinColumns (-1) coinStore = [] := by
    have happend : rollback coinColumns (-1) ([] ++ coinStore) = rollback coinColumns (-1) [] :=
      rollback_append fun r _ => by
        omega
    rwa [List.nil_append] at happend
  refine ⟨hkeyed, hnamed, ?_, by simp, by simp, fun k => by simp [find]⟩
  rw [hroll]
  exact Grows.refl List.nodup_nil

end ForkView

section Exact

variable {T : BlockchainTools} {constants : ConsensusConstants} {s : Blockchain} {peak : Option BlockRecord}
  {b : FullBlock} {l : List Entry} {forkPoint : Option ℤ} {coins : CoinTable} {additions coinbase : List Coin}
  {removals : List Bytes32} {timestamp : ℕ} {records : Dict Bytes32 CoinRecord} {B : BodyTools}

lemma lookup_additionsDicOf {k : Bytes32} {c : Coin} (h : (additionsDicOf B additions coinbase).lookup k = some c) :
    B.H.coinName c = k := by
  obtain ⟨c', -, heq⟩ := List.mem_map.mp (Dict.mem_of_lookup_ofItems h)
  obtain ⟨hname, rfl⟩ := Prod.mk.inj heq
  exact hname

lemma lookup_additionsDicOf_eq_none {k : Bytes32} :
    (additionsDicOf B additions coinbase).lookup k = none ↔
      k ∉ (additions ++ coinbase).map B.H.coinName := by
  rw [additionsDicOf, Dict.lookup_ofItems_eq_none, List.map_map]
  rfl

/-- The fork between the chain of the peak and a block on a stored block, in a reachable state.

**Proof sketch.** Without blocks or for a genesis block the fork is below every block. Otherwise the chains
of the peak and of the parent split at their longest common prefix; the coin store rolled back to it is the
table of that prefix, and replaying the rest of the parent's chain gives the coins of that chain. -/
lemma exists_forkView (hcost : CostMonotone T.runGenerator) (hinv : s.Inv T constants)
    (hpeak : s.getPeak = .ok peak) (hl : s.Ancestors b l) (hheight : b.height = l.length)
    (hfork : ∀ f, forkPoint = some f → ∀ P, s.PeakChain P → f = forkHeight P l)
    (hcoins : replay T.toBodyTools constants (l.map Prod.fst) = .ok coins) :
    ∃ forkH fork rows spends,
      forkHeightOf (s.bodyContext T.dbVersion peak) b b.height forkPoint = .ok forkH ∧
      forkCoins T.toBodyTools constants (s.bodyContext T.dbVersion peak) b b.height forkH = .ok fork ∧
      ForkView T.toBodyTools s.coinStore coins forkH fork rows spends := by
  rcases hinv.peak with hs | ⟨tip, P, hm, hreplay⟩
  · obtain rfl : none = peak := Except.ok.inj (hs.getPeak_eq.symm.trans hpeak)
    rcases hl with ⟨h0, rfl⟩ | ⟨-, p, hp, -⟩
    · obtain rfl : [] = coins := Except.ok.inj hcoins
      refine ⟨-1, ⟨∅, []⟩, [], [], rfl, by simp [forkCoins, h0], ?_⟩
      rw [hs.coinStore]
      exact ForkView.genesis List.nodup_nil (by simp)
    · rw [hs.entry_eq_none] at hp
      cases hp
  obtain rfl : some tip.2 = peak := Except.ok.inj (hm.getPeak_eq.symm.trans hpeak)
  have hkeyed := keyed_replay hreplay
  have hnamed : ∀ r ∈ s.coinStore, r.coinName = T.H.coinName r.coin :=
    named_replayFrom (by simp) hreplay
  rcases hl with ⟨h0, rfl⟩ | ⟨h0, p, hp, hl⟩
  · obtain rfl : [] = coins := Except.ok.inj hcoins
    refine ⟨-1, ⟨∅, []⟩, [], [], ?_, by simp [forkCoins, h0], ForkView.genesis hkeyed hnamed⟩
    simp [forkHeightOf, Blockchain.bodyContext, h0]
  have hpmem : s.blockStore.entry p.2.headerHash = some p := by
    rw [show p.2.headerHash = b.prevHeaderHash from hinv.view.rooted.hash_eq hp]
    exact hp
  obtain ⟨a, bb, hP, hbb, -⟩ := exists_eq_commonPrefix_append P l
  set c := commonPrefix P l with hc
  have hforkH : forkHeightOf (s.bodyContext T.dbVersion (some tip.2)) b b.height forkPoint =
      .ok ((c.length : ℤ) - 1) := by
    unfold forkHeightOf
    simp only [Blockchain.bodyContext, if_neg h0]
    cases hgiven : forkPoint with
    | some f =>
      rw [hfork f hgiven P ⟨tip, hm.getPeak_eq, hm.tip_mem, hm.path⟩]
      rfl
    | none =>
      simp only [BlockRecords.blockRecord_eq_ok (hm.view.cached hp), ok_bind]
      exact hm.findForkPoint_eq hl hpmem
  have hheights : HeightsFrom 0 (c.map Prod.fst ++ a.map Prod.fst) := by
    rw [← List.map_append, ← hP]
    exact hm.view.heightsFrom_zero hm.path hm.tip_mem
  rw [hP, List.map_append] at hreplay
  obtain ⟨t, ht, hroll⟩ := rollback_replay hreplay hheights
  rw [List.length_map] at hroll
  rw [hbb, List.map_append] at hcoins
  obtain ⟨t', ht', hrest⟩ := exists_replay_of_append hcoins
  obtain rfl : t = t' := Except.ok.inj (ht.symm.trans ht')
  have hgrows := grows_replayFrom (keyed_replay ht) hrest
  obtain ⟨fork, hforkCoins, hdescribes⟩ := exists_forkCoins hcost hinv hm h0 hp hl
    hheight hbb (hgrows.keyed.sublist (List.sublist_append_right _ _)) hgrows.nodup
  refine ⟨_, fork, _, _, hforkH, hforkCoins, hkeyed, hnamed, ?_, fun r hr => mem_rowsFrom hr,
    hdescribes.removals, hdescribes.additions⟩
  rw [hroll]
  exact hgrows

lemma removalCoinRecords_eq {ctx : BodyContext} {forkH : ℤ} {fork : ForkCoins} (hnodup : removals.Nodup)
    (hforkH : forkHeightOf ctx b b.height forkPoint = .ok forkH)
    (hfork : forkCoins B constants ctx b b.height forkH = .ok fork) (dic : Dict Bytes32 Coin) :
    removalCoinRecords B constants ctx b b.height timestamp forkPoint removals dic =
      lookUpRemovals B ctx.coinStore forkH fork b.height timestamp removals dic := by
  unfold removalCoinRecords
  rw [bodyRejectIf, if_neg (not_not.mpr hnodup), ok_bind, hforkH]
  simp only [bodyRaising, Except.mapError, ok_bind, hfork]
  rfl

lemma lookup_removalCoinRecords (hcost : CostMonotone T.runGenerator) (hinv : s.Inv T constants)
    (hpeak : s.getPeak = .ok peak) (hl : s.Ancestors b l) (hheight : b.height = l.length)
    (hfork : ∀ f, forkPoint = some f → ∀ P, s.PeakChain P → f = forkHeight P l)
    (hcoins : replay T.toBodyTools constants (l.map Prod.fst) = .ok coins)
    (h : removalCoinRecords T.toBodyTools constants (s.bodyContext T.dbVersion peak) b b.height
      timestamp forkPoint removals (additionsDicOf T.toBodyTools additions coinbase) = .ok records)
    (k : Bytes32) :
    (records.lookup k).map CoinRecord.origin = if k ∈ removals then
      (((additionsDicOf T.toBodyTools additions coinbase).lookup k).map
        fun c => (c, b.height, timestamp)).or
          ((find coinColumns.key coins k).map CoinRow.origin) else none := by
  obtain ⟨forkH, fork, rows, spends, hforkH, hforkCoins, hview⟩ :=
    exists_forkView hcost hinv hpeak hl hheight hfork hcoins
  have hnodup : removals.Nodup := by
    unfold removalCoinRecords at h
    obtain ⟨_, htwice, -⟩ := bind_eq_ok.mp h
    exact not_not.mp (bodyRejectIf_eq_ok.mp htwice)
  rw [removalCoinRecords_eq hnodup hforkH hforkCoins] at h
  rw [lookup_lookUpRemovals hview.keyed hview.named hnodup (fun _ _ => lookup_additionsDicOf)
    (fun _ _ => hview.coinName_of_lookup) h]
  split
  · rename_i hk
    cases hdic : (additionsDicOf T.toBodyTools additions coinbase).lookup k with
    | some c => rfl
    | none =>
      have hspendable := (lookUpRemovals_iff hview.keyed hview.named hnodup).mp ⟨records, h⟩ k hk hdic
      rw [hview.originBeforeBlock_eq hspendable]
  · rfl

lemma exists_removalCoinRecords_iff (hcost : CostMonotone T.runGenerator)
    (hinv : s.Inv T constants) (hpeak : s.getPeak = .ok peak)
    (hl : s.Ancestors b l) (hheight : b.height = l.length)
    (hfork : ∀ f, forkPoint = some f → ∀ P, s.PeakChain P → f = forkHeight P l)
    (hcoins : replay T.toBodyTools constants (l.map Prod.fst) = .ok coins) :
    (∃ records, removalCoinRecords T.toBodyTools constants (s.bodyContext T.dbVersion peak) b b.height
        timestamp forkPoint removals (additionsDicOf T.toBodyTools additions coinbase) = .ok records) ↔
      removals.Nodup ∧ ∀ k ∈ removals, k ∈ (additions ++ coinbase).map T.H.coinName ∨
        ∃ row ∈ coins, row.coinName = k ∧ row.spentIndex = 0 := by
  by_cases hnodup : removals.Nodup
  swap
  · refine ⟨fun ⟨records, h⟩ => ?_, fun h => absurd h.1 hnodup⟩
    unfold removalCoinRecords at h
    rw [bodyRejectIf, if_pos hnodup] at h
    cases h
  obtain ⟨forkH, fork, rows, spends, hforkH, hforkCoins, hview⟩ :=
    exists_forkView hcost hinv hpeak hl hheight hfork hcoins
  rw [removalCoinRecords_eq hnodup hforkH hforkCoins]
  show (∃ records, lookUpRemovals _ s.coinStore _ _ _ _ _ _ = _) ↔ _
  rw [lookUpRemovals_iff hview.keyed hview.named hnodup]
  constructor
  · refine fun h => ⟨hnodup, fun k hk => ?_⟩
    by_cases hnew : k ∈ (additions ++ coinbase).map T.H.coinName
    · exact .inl hnew
    · exact .inr (hview.spendable_iff.mp (h k hk (lookup_additionsDicOf_eq_none.mpr hnew)))
  · intro h k hk hdic
    refine hview.spendable_iff.mpr ((h.2 k hk).resolve_left ?_)
    exact lookup_additionsDicOf_eq_none.mp hdic

/-- Steps 14 and 15 of `validate_block_body` are exact, in every state that is reached by calls of
`receive_block` and for a block on any stored block: the removals are accepted exactly when they are
distinct and each of them is created by the block or unspent on the chain of the block's parent. The record
of a coin that the block does not create has the coin, the height and the timestamp that it has on that
chain. -/
theorem removalCoinRecords_iff (hcost : CostMonotone T.runGenerator)
    (hs : Reachable T constants (Call.Meets T constants) s) (hpeak : s.getPeak = .ok peak)
    (hl : s.Ancestors b l) (hheight : b.height = l.length)
    (hfork : ∀ f, forkPoint = some f → ∀ P, s.PeakChain P → f = forkHeight P l)
    (hcoins : replay T.toBodyTools constants (l.map Prod.fst) = .ok coins) :
    ((∃ records, removalCoinRecords T.toBodyTools constants (s.bodyContext T.dbVersion peak) b b.height
        timestamp forkPoint removals (additionsDicOf T.toBodyTools additions coinbase) = .ok records) ↔
      removals.Nodup ∧ ∀ k ∈ removals, k ∈ (additions ++ coinbase).map T.H.coinName ∨
        ∃ row ∈ coins, row.coinName = k ∧ row.spentIndex = 0) ∧
    ∀ records, removalCoinRecords T.toBodyTools constants (s.bodyContext T.dbVersion peak) b b.height
        timestamp forkPoint removals (additionsDicOf T.toBodyTools additions coinbase) = .ok records →
      ∀ k record, records.lookup k = some record → k ∉ (additions ++ coinbase).map T.H.coinName →
        ∃ row ∈ coins, row.coinName = k ∧ record.coin = row.coin ∧
          record.confirmedBlockIndex = row.confirmedIndex ∧ record.timestamp = row.timestamp := by
  have hinv := hs.inv hcost fun _ _ h => h
  refine ⟨exists_removalCoinRecords_iff hcost hinv hpeak hl hheight hfork hcoins,
    fun records h k record hk hnew => ?_⟩
  have hlookup := lookup_removalCoinRecords hcost hinv hpeak hl hheight hfork hcoins h k
  rw [hk, lookup_additionsDicOf_eq_none.mpr hnew] at hlookup
  split at hlookup
  swap
  · cases hlookup
  obtain ⟨row, hrow, horigin⟩ := Option.map_eq_some_iff.mp hlookup.symm
  obtain ⟨hmem, hkey⟩ := mem_of_find hrow
  obtain ⟨hcoin, hrest⟩ := Prod.mk.inj horigin
  obtain ⟨hconf, htime⟩ := Prod.mk.inj hrest
  exact ⟨row, hmem, hkey, hcoin.symm, hconf.symm, htime.symm⟩

end Exact

/-- A coin that a block on top of the genesis block creates. -/
def sampleCoin : Coin := ⟨Bytes32.ofNat 7, Bytes32.ofNat 8, 5⟩

/-- A block on top of the genesis block may spend the coin that it creates, and no other. -/
theorem removalCoinRecords_iff_genesis : ∃ peak, genesisState.getPeak = .ok peak ∧
    ∀ removals, (∃ records, removalCoinRecords sampleBlockchainTools.toBodyTools defaultConstants
      (genesisState.bodyContext .v2 peak) (emptyBlock 1 (Bytes32.ofNat 1) (Bytes32.ofNat 2) 0) 1 20 none
        removals (additionsDicOf sampleBlockchainTools.toBodyTools [sampleCoin] []) = .ok records) ↔
      removals = [] ∨ removals = [sampleBlockchainTools.H.coinName sampleCoin] := by
  have hreach := reachable_genesisState
  have hinv := hreach.inv (fun _ _ _ _ _ _ => rfl) fun _ _ h => h
  obtain ⟨p, hp, hblock, hheight⟩ : ∃ p, genesisState.blockStore.entry (Bytes32.ofNat 1) = some p ∧
      p.1 = genesisBlock ∧ p.2.height = 0 := by
    have hfields : (genesisState.blockStore.entry (Bytes32.ofNat 1)).map
        (fun p => (p.1, p.2.height)) = some (genesisBlock, 0) := by
      decide +kernel
    obtain ⟨p, hp, heq⟩ := Option.map_eq_some_iff.mp hfields
    obtain ⟨h1, h2⟩ := Prod.mk.inj heq
    exact ⟨p, hp, h1, h2⟩
  have hcoins : replay sampleBlockchainTools.toBodyTools defaultConstants ([p].map Prod.fst) =
      .ok [] := by
    rw [List.map_cons, List.map_nil, hblock]
    decide +kernel
  have hpeak : ∃ peak, genesisState.getPeak = .ok peak := by
    rcases hinv.peak with hs | ⟨tip, P, hm, -⟩
    · exact ⟨none, hs.getPeak_eq⟩
    · exact ⟨some tip.2, hm.getPeak_eq⟩
  obtain ⟨peak, hpeak⟩ := hpeak
  refine ⟨peak, hpeak, fun removals => ?_⟩
  refine Iff.trans (And.left (removalCoinRecords_iff (l := [p]) (fun _ _ _ _ _ _ => rfl) hreach
    hpeak (.inr ⟨by decide, p, hp, .root hheight⟩) rfl nofun hcoins)) ?_
  constructor
  · rintro ⟨hnodup, hall⟩
    have hname : ∀ k ∈ removals, k = sampleBlockchainTools.H.coinName sampleCoin := by
      intro k hk
      simpa using hall k hk
    match removals, hnodup, hname with
    | [], _, _ => exact .inl rfl
    | [k], _, hname => exact .inr (by rw [hname k List.mem_cons_self])
    | k :: k' :: rest, hnodup, hname =>
      have heq : k = k' := (hname k (by simp)).trans (hname k' (by simp)).symm
      simp [heq] at hnodup
  · rintro (rfl | rfl)
    · exact ⟨List.nodup_nil, by simp⟩
    · exact ⟨List.nodup_singleton _, by simp⟩

end Chives
