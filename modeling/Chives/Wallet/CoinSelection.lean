import Chives.Library.SortedSums
import Chives.Wallet.WalletCoinStore

set_option autoImplicit false

/-!
# Selection of coins

`select_coins` of `wallet/coin_selection.py`: which coins of a wallet pay an amount.

## Main definitions

* `CoinSelection.selectCoins` — the selection, with the functions that it calls under the names of the
  source.
* `CoinSelection.Complete` — the selection fails only where it has to.
* `CoinSelection.DustTotal` — the coins have exactly the amount together, and there are many of them.

## Main results

* `CoinSelection.complete_iff` — when the selection is complete.

## Design

A Python set is a `Finset`. The random bits are a function of the round and of the position of a coin: in a round each coin of
the first pass is asked about once, so that every sequence of answers is such a function.
-/

namespace Chives

namespace CoinSelection

/-! ## The knapsack algorithm -/

/-- The variables of a round of `knapsack_coin_algorithm`. -/
structure Trial where
  selectedCoins : Finset Coin
  selectedCoinsSum : ℕ
  targetReached : Bool
  bestSetSum : ℕ
  bestSetOfCoins : Option (Finset Coin)

/-- A coin is added. The algorithm may return. -/
def addCoin (target : ℕ) (t : Trial) (coin : Coin) : Except (Finset Coin) Trial :=
  let sum := t.selectedCoinsSum + coin.amount
  let selected := insert coin t.selectedCoins
  if sum = target then .error selected
  else if target < sum then
    if sum < t.bestSetSum then .ok ⟨selected.erase coin, sum - coin.amount, true, sum, some selected⟩
    else .ok { t with selectedCoins := selected, selectedCoinsSum := sum, targetReached := true }
  else .ok { t with selectedCoins := selected, selectedCoinsSum := sum }

/-- A pass over the coins, which tries those that are picked. It ends at a coin that is one too many. -/
def pass (target maxNumCoins : ℕ) (pick : ℕ → Coin → Trial → Bool) :
    ℕ → List Coin → Trial → Except (Finset Coin) Trial
  | _, [], t => .ok t
  | j, coin :: coins, t =>
    if pick j coin t then
      if maxNumCoins < t.selectedCoins.card then .ok t
      else do
        let t ← addCoin target t coin
        pass target maxNumCoins pick (j + 1) coins t
    else pass target maxNumCoins pick (j + 1) coins t

/-- A round. The first pass picks coins at random, and the second one those that are not selected. -/
def round (target maxNumCoins : ℕ) (bits : ℕ → Bool) (coins : List Coin) (best : ℕ × Option (Finset Coin)) :
    Except (Finset Coin) (ℕ × Option (Finset Coin)) := do
  let t ← pass target maxNumCoins (fun j _ _ => bits j) 0 coins ⟨∅, 0, false, best.1, best.2⟩
  let t ← if t.targetReached then pure t
    else pass target maxNumCoins (fun _ coin t => coin ∉ t.selectedCoins) 0 coins t
  pure (t.bestSetSum, t.bestSetOfCoins)

/-- Some rounds. -/
def rounds (target maxNumCoins : ℕ) (bits : ℕ → ℕ → Bool) (coins : List Coin) :
    List ℕ → ℕ × Option (Finset Coin) → Except (Finset Coin) (ℕ × Option (Finset Coin))
  | [], best => .ok best
  | i :: is, best => do
    let best ← round target maxNumCoins (bits i) coins best
    rounds target maxNumCoins bits coins is best

/-- `knapsack_coin_algorithm`. -/
def knapsackCoinAlgorithm (bits : ℕ → ℕ → Bool) (smallerCoins : List Coin) (target maxCoinAmount maxNumCoins : ℕ) :
    Option (Finset Coin) :=
  match rounds target maxNumCoins bits smallerCoins (List.range 1000) (maxCoinAmount, none) with
  | .error selected => some selected
  | .ok best => best.2

/-! ## The other strategies -/

/-- `check_for_exact_match`. -/
def checkForExactMatch (coinList : List Coin) (target : ℕ) : Option Coin := coinList.find? fun c => c.amount = target

/-- `select_smallest_coin_over_target`. -/
def selectSmallestCoinOverTarget (target : ℕ) (sortedCoinList : List Coin) : Except PyError (Option Coin) := do
  let first ← pyIndex sortedCoinList 0
  if first.amount < target then pure none
  else
    match sortedCoinList.reverse.find? fun c => target ≤ c.amount with
    | some coin => pure (some coin)
    | none => throw .assertionError

/-- The loop of `sum_largest_coins`. -/
def sumLargestFrom (target : ℕ) : ℕ → Finset Coin → List Coin → Option (Finset Coin)
  | _, _, [] => none
  | total, selected, coin :: coins =>
    if target ≤ total + coin.amount then some (insert coin selected)
    else sumLargestFrom target (total + coin.amount) (insert coin selected) coins

/-- `sum_largest_coins`. -/
def sumLargestCoins (target : ℕ) (sortedCoins : List Coin) : Option (Finset Coin) :=
  sumLargestFrom target 0 ∅ sortedCoins

/-! ## The selection -/

/-- The arguments of `select_coins`. -/
structure Request where
  spendableAmount : ℕ
  maxCoinAmount : ℕ
  spendableCoins : List WalletCoinRecord
  unconfirmedRemovals : OrderedDict Bytes32 Coin
  amount : ℕ
  exclude : Option (List Coin)
  minCoinAmount : Option ℕ

/-- `max_num_coins`. -/
def maxNumCoins : ℕ := 500

/-- The total amount of coins. -/
def total (coins : List Coin) : ℕ := (coins.map Coin.amount).sum

/-- `l.sort(reverse=True, key=lambda r: r.amount)`, which keeps the order of coins with the same amount. -/
def sortByAmount (coins : List Coin) : List Coin := coins.mergeSort fun a b => b.amount ≤ a.amount

/-- The smallest coin over the target, or what stands for it. -/
def greaterCoin (target : ℕ) (sortedCoins : List Coin) : Except PyError (Finset Coin) := do
  let coin ← selectSmallestCoinOverTarget target sortedCoins
  match coin with
  | some coin => pure {coin}
  | none => throw .valueError

/-- The strategies of `select_coins` after the check for an exact match. -/
def selectSeveral (bits : ℕ → ℕ → Bool) (amount maxCoinAmount : ℕ) (sortedCoins : List Coin) :
    Except PyError (Finset Coin) :=
  let smallerCoins := sortedCoins.filter fun c => c.amount < amount
  if total smallerCoins = amount ∧ smallerCoins.length < maxNumCoins then pure smallerCoins.toFinset
  else if total smallerCoins < amount then do
    let smallest ← selectSmallestCoinOverTarget amount sortedCoins
    let coin ← pySome smallest
    pure {coin}
  else if amount < total smallerCoins then
    match knapsackCoinAlgorithm bits smallerCoins amount maxCoinAmount maxNumCoins with
    | some selected => pure selected
    | none =>
      match sumLargestCoins amount smallerCoins with
      | some selected => if maxNumCoins < selected.card then greaterCoin amount sortedCoins else pure selected
      | none => greaterCoin amount sortedCoins
  else greaterCoin amount sortedCoins

section Selection

variable (sha256 : Bytes → Bytes32) (bits : ℕ → ℕ → Bool)

/-- `valid_spendable_coins`, before they are sorted. -/
def Request.validSpendableCoins (r : Request) : List Coin :=
  (r.spendableCoins.map WalletCoinRecord.coin).filter fun coin =>
    coin.name sha256 ∉ r.unconfirmedRemovals.keys ∧ coin ∉ r.exclude.getD [] ∧ ¬ coin.amount < r.minCoinAmount.getD 0

/-- `select_coins`. -/
def selectCoins (r : Request) : Except PyError (Finset Coin) :=
  if r.spendableAmount < r.amount then throw .valueError
  else if total (r.validSpendableCoins sha256) < r.amount then throw .valueError
  else do
    let sortedCoins := sortByAmount (r.validSpendableCoins sha256)
    let target ← uint64 r.amount
    match checkForExactMatch sortedCoins target with
    | some coin => pure {coin}
    | none => selectSeveral bits r.amount r.maxCoinAmount sortedCoins

/-- The coin is one of the records, and neither excluded, nor removed, nor too small. -/
def Request.Eligible (r : Request) (coin : Coin) : Prop :=
  (∃ record ∈ r.spendableCoins, record.coin = coin) ∧ coin ∉ r.exclude.getD [] ∧
    coin.name sha256 ∉ r.unconfirmedRemovals.keys ∧ r.minCoinAmount.getD 0 ≤ coin.amount

/-- **Completeness** for a request: where the amount is spendable, the selection raises `ValueError` only if no set of at most
`max_num_coins` eligible coins has the amount, and no assertion fails, whatever the random bits are. -/
def Complete (r : Request) : Prop :=
  r.amount ≤ r.spendableAmount → ∀ bits,
    (selectCoins sha256 bits r = .error .valueError → ∀ s : Finset Coin, (∀ c ∈ s, r.Eligible sha256 c) →
      s.card ≤ maxNumCoins → ∑ c ∈ s, c.amount < r.amount) ∧
    selectCoins sha256 bits r ≠ .error .assertionError

end Selection

/-- The total of the `max_num_coins` largest coins. -/
def largestTotal (coins : List Coin) : ℕ := total ((sortByAmount coins.dedup).take maxNumCoins)

/-- Many coins have exactly an amount together, each of them has less, and not too many have anything at all. -/
structure DustTotal (coins : List Coin) (amount : ℕ) : Prop where
  lt : ∀ c ∈ coins, c.amount < amount
  total_eq : total coins = amount
  le_length : maxNumCoins ≤ coins.length
  nodup : (coins.filter fun c => 0 < c.amount).Nodup
  length_le : (coins.filter fun c => 0 < c.amount).length ≤ maxNumCoins

/-! ## Sorted coins -/

section Sorted

variable {coins sorted : List Coin} {amount target : ℕ}

/-- Coins in descending order. -/
def Descending (coins : List Coin) : Prop := coins.Pairwise fun a b => b.amount ≤ a.amount

lemma sortByAmount_perm (coins : List Coin) : (sortByAmount coins).Perm coins := List.mergeSort_perm _ _

@[simp]
lemma mem_sortByAmount {c : Coin} : c ∈ sortByAmount coins ↔ c ∈ coins := (sortByAmount_perm coins).mem_iff

lemma descending_sortByAmount (coins : List Coin) : Descending (sortByAmount coins) := by
  have h := @List.pairwise_mergeSort Coin (fun a b => decide (b.amount ≤ a.amount))
    (fun a b c hab hbc => by
      simp only [decide_eq_true_eq] at hab hbc ⊢
      omega)
    (fun a b => by
      simp only [Bool.or_eq_true, decide_eq_true_eq]
      omega) coins
  exact h.imp fun hle => of_decide_eq_true hle

@[simp]
lemma total_nil : total [] = 0 := rfl

@[simp]
lemma total_cons (c : Coin) (coins : List Coin) : total (c :: coins) = c.amount + total coins := by simp [total]

@[simp]
lemma total_append (coins coins' : List Coin) : total (coins ++ coins') = total coins + total coins' := by
  simp [total]

lemma total_perm {coins' : List Coin} (h : coins.Perm coins') : total coins = total coins' :=
  (h.map Coin.amount).sum_eq

lemma sum_toFinset_le (coins : List Coin) : ∑ c ∈ coins.toFinset, c.amount ≤ total coins := by
  induction coins with
  | nil => simp
  | cons c coins ih =>
    rw [List.toFinset_cons, total_cons]
    by_cases hc : c ∈ coins.toFinset
    · rw [Finset.insert_eq_self.mpr hc]
      omega
    · rw [Finset.sum_insert hc]
      omega

lemma sum_toFinset (h : coins.Nodup) : ∑ c ∈ coins.toFinset, c.amount = total coins := by
  rw [List.sum_toFinset _ h, total]

lemma total_toList (s : Finset Coin) : total s.toList = ∑ c ∈ s, c.amount := Finset.sum_map_toList s Coin.amount

lemma total_filter_add (coins : List Coin) (p : Coin → Bool) :
    total (coins.filter p) + total (coins.filter fun c => !p c) = total coins := by
  induction coins with
  | nil => rfl
  | cons c coins ih =>
    cases hp : p c with
    | true => simp [hp, ← ih, Nat.add_assoc]
    | false => simp [hp, ← ih, Nat.add_left_comm]

lemma total_filter_le (coins : List Coin) (p : Coin → Bool) : total (coins.filter p) ≤ total coins := by
  have h := total_filter_add coins p
  omega

lemma total_filter_pos (coins : List Coin) : total (coins.filter fun c => 0 < c.amount) = total coins := by
  induction coins with
  | nil => rfl
  | cons c coins ih =>
    by_cases hc : 0 < c.amount
    · simp [hc, ih]
    · have hzero : c.amount = 0 := by omega
      simp [hzero, ih]

/-- **Coins over the target** are found. -/
lemma selectSmallest_eq_some (hsorted : Descending sorted) (h : ∃ c ∈ sorted, target ≤ c.amount) :
    ∃ c ∈ sorted, target ≤ c.amount ∧ selectSmallestCoinOverTarget target sorted = .ok (some c) := by
  obtain ⟨c, hc, hle⟩ := h
  cases sorted with
  | nil => cases hc
  | cons first rest =>
    have hfirst : ¬ first.amount < target := by
      rcases List.mem_cons.mp hc with rfl | hmem
      · omega
      · have hge := (List.pairwise_cons.mp hsorted).1 c hmem
        omega
    cases hfind : (first :: rest).reverse.find? fun c => target ≤ c.amount with
    | none =>
      have hnone := List.find?_eq_none.mp hfind c (List.mem_reverse.mpr hc)
      exact absurd (decide_eq_true hle) hnone
    | some coin =>
      refine ⟨coin, List.mem_reverse.mp (List.mem_of_find?_eq_some hfind), ?_, ?_⟩
      · have htrue := List.find?_some hfind
        exact of_decide_eq_true htrue
      · show (if first.amount < target then pure none else _) = _
        rw [if_neg hfirst, hfind]
        rfl

lemma selectSmallest_eq_none (hne : sorted ≠ []) (h : ∀ c ∈ sorted, c.amount < target) :
    selectSmallestCoinOverTarget target sorted = .ok none := by
  cases sorted with
  | nil => exact absurd rfl hne
  | cons first rest =>
    show (if first.amount < target then pure none else _) = _
    rw [if_pos (h first List.mem_cons_self)]
    rfl

lemma greaterCoin_cases (target : ℕ) (hsorted : Descending sorted) (hne : sorted ≠ []) :
    (∃ c ∈ sorted, target ≤ c.amount ∧ greaterCoin target sorted = .ok {c}) ∨
      ((∀ c ∈ sorted, c.amount < target) ∧ greaterCoin target sorted = .error .valueError) := by
  unfold greaterCoin
  by_cases h : ∃ c ∈ sorted, target ≤ c.amount
  · obtain ⟨c, hc, hle, hsome⟩ := selectSmallest_eq_some hsorted h
    rw [hsome]
    exact .inl ⟨c, hc, hle, rfl⟩
  · have hlt : ∀ c ∈ sorted, c.amount < target := fun c hc => by
      by_contra hle
      exact h ⟨c, hc, by omega⟩
    rw [selectSmallest_eq_none hne hlt]
    exact .inr ⟨hlt, rfl⟩

/-- The loop of `sum_largest_coins` ends with a first part of the coins. -/
lemma sumLargestFrom_cases (target : ℕ) (coins : List Coin) (sum : ℕ) (selected : Finset Coin) (hsum : sum < target) :
    (∃ before c after, coins = before ++ c :: after ∧ sum + total before < target ∧
      target ≤ sum + total before + c.amount ∧
      sumLargestFrom target sum selected coins = some (insert c (before.toFinset ∪ selected))) ∨
    (sum + total coins < target ∧ sumLargestFrom target sum selected coins = none) := by
  induction coins generalizing sum selected with
  | nil => exact .inr ⟨by simpa using hsum, rfl⟩
  | cons c coins ih =>
    unfold sumLargestFrom
    by_cases hle : target ≤ sum + c.amount
    · rw [if_pos hle]
      exact .inl ⟨[], c, coins, rfl, by simpa using hsum, by simpa using hle, by simp⟩
    · rw [if_neg hle]
      rcases ih (sum + c.amount) (insert c selected) (by omega) with ⟨before, d, after, hsplit, hlt, hge, hsome⟩ | ⟨hlt, hnone⟩
      · refine .inl ⟨c :: before, d, after, by rw [hsplit]; rfl, ?_, ?_, ?_⟩
        · rw [total_cons]
          omega
        · rw [total_cons]
          omega
        · rw [hsome, List.toFinset_cons, Finset.insert_union, Finset.union_insert]
      · refine .inr ⟨?_, hnone⟩
        rw [total_cons]
        omega

lemma exists_sumLargestCoins (hpos : 0 < target) (h : target ≤ total coins) :
    ∃ before c after, coins = before ++ c :: after ∧ total before < target ∧ target ≤ total before + c.amount ∧
      sumLargestCoins target coins = some (insert c before.toFinset) := by
  rcases sumLargestFrom_cases target coins 0 ∅ hpos with ⟨before, c, after, hsplit, hlt, hge, hsome⟩ | ⟨hlt, -⟩
  · refine ⟨before, c, after, hsplit, by omega, by omega, ?_⟩
    rw [sumLargestCoins, hsome, Finset.union_empty]
  · omega

lemma Descending.amounts (h : Descending coins) : (coins.map Coin.amount).Pairwise (· ≥ ·) :=
  List.pairwise_map.mpr h

/-- A set of at most as many coins as there are in the first part of sorted coins has at most their total.

**Proof sketch.** Coins that are only in the set are not in the first part, so that they have at most the amount of each coin of
the first part, and there are at least as many coins that are only in the first part. -/
lemma sum_le_total_before {before after : List Coin} (hsorted : Descending (before ++ after)) {s : Finset Coin}
    (hs : ∀ c ∈ s, c ∈ before ++ after) (hcard : s.card ≤ before.toFinset.card) :
    ∑ c ∈ s, c.amount ≤ total before := by
  refine le_trans ?_ (sum_toFinset_le before)
  have hless : ∀ x ∈ before.toFinset \ s, ∀ y ∈ s \ before.toFinset, y.amount ≤ x.amount := by
    intro x hx y hy
    rw [Finset.mem_sdiff, List.mem_toFinset] at hx hy
    have hy' : y ∈ after := (List.mem_append.mp (hs y hy.1)).resolve_left hy.2
    exact (List.pairwise_append.mp hsorted).2.2 x hx.1 y hy'
  exact SortedSums.sum_le_sum_of_card_le hcard hless

end Sorted

/-! ## Failures -/

section Failures

variable {sorted : List Coin} {amount : ℕ}

/-- **What the strategies may end with**: with a set; or, where each coin has less than the amount, with a `ValueError`
because the coins have exactly the amount and are many, or because no set of at most `max_num_coins` coins has it. -/
lemma selectSeveral_cases (bits : ℕ → ℕ → Bool) (maxCoinAmount : ℕ) (hsorted : Descending sorted) (hle : amount ≤ total sorted) :
    (∃ s, selectSeveral bits amount maxCoinAmount sorted = .ok s) ∨
    ((∀ c ∈ sorted, c.amount < amount) ∧ selectSeveral bits amount maxCoinAmount sorted = .error .valueError ∧
      (total sorted = amount ∧ maxNumCoins ≤ sorted.length ∨
        ∀ s : Finset Coin, (∀ c ∈ s, c ∈ sorted) → s.card ≤ maxNumCoins → ∑ c ∈ s, c.amount < amount)) := by
  unfold selectSeveral
  dsimp only
  by_cases hexact : total (sorted.filter fun c => c.amount < amount) = amount ∧
      (sorted.filter fun c => c.amount < amount).length < maxNumCoins
  · rw [if_pos hexact]
    exact .inl ⟨_, rfl⟩
  rw [if_neg hexact]
  by_cases hless : total (sorted.filter fun c => c.amount < amount) < amount
  · -- the smaller coins are not enough, so that there is a greater one
    rw [if_pos hless]
    have hgreater : ∃ c ∈ sorted, amount ≤ c.amount := by
      by_contra hnone
      have hall : sorted.filter (fun c => c.amount < amount) = sorted := by
        refine List.filter_eq_self.mpr fun c hc => decide_eq_true ?_
        by_contra hc'
        exact hnone ⟨c, hc, by omega⟩
      rw [hall] at hless
      omega
    obtain ⟨c, -, -, hsome⟩ := selectSmallest_eq_some hsorted hgreater
    rw [hsome]
    exact .inl ⟨{c}, rfl⟩
  rw [if_neg hless]
  have hne : sorted.filter (fun c => c.amount < amount) ≠ [] → sorted ≠ [] := by
    rintro h rfl
    exact h rfl
  have hsmaller : (∀ c ∈ sorted, c.amount < amount) → sorted.filter (fun c => c.amount < amount) = sorted :=
    fun h => List.filter_eq_self.mpr fun c hc => decide_eq_true (h c hc)
  by_cases hmore : amount < total (sorted.filter fun c => c.amount < amount)
  · rw [if_pos hmore]
    have hnonempty : sorted.filter (fun c => c.amount < amount) ≠ [] := fun hnil => by
      rw [hnil] at hmore
      exact Nat.not_lt_zero _ hmore
    cases knapsackCoinAlgorithm bits (sorted.filter fun c => c.amount < amount) amount maxCoinAmount maxNumCoins with
    | some selected => exact .inl ⟨selected, rfl⟩
    | none =>
      have hpos : 0 < amount := by
        obtain ⟨c, hc⟩ := List.exists_mem_of_ne_nil _ hnonempty
        have hlt := of_decide_eq_true (List.mem_filter.mp hc).2
        omega
      obtain ⟨before, c, after, hsplit, hlt, -, hsome⟩ := exists_sumLargestCoins hpos hmore.le
      dsimp only
      rw [hsome]
      dsimp only
      by_cases hcard : maxNumCoins < (insert c before.toFinset).card
      · rw [if_pos hcard]
        rcases greaterCoin_cases amount hsorted (hne hnonempty) with ⟨d, -, -, hok⟩ | ⟨hall, herror⟩
        · exact .inl ⟨{d}, hok⟩
        · refine .inr ⟨hall, herror, .inr fun s hs hscard => ?_⟩
          rw [hsmaller hall] at hsplit
          have hbefore : s.card ≤ before.toFinset.card := by
            have hinsert := Finset.card_insert_le c before.toFinset
            omega
          have hsum := sum_le_total_before (hsplit ▸ hsorted) (fun d hd => hsplit ▸ hs d hd) hbefore
          omega
      · rw [if_neg hcard]
        exact .inl ⟨_, rfl⟩
  · rw [if_neg hmore]
    have htotal : total (sorted.filter fun c => c.amount < amount) = amount := by omega
    have hlength : maxNumCoins ≤ (sorted.filter fun c => c.amount < amount).length := by
      by_contra hlt
      exact hexact ⟨htotal, by omega⟩
    have hnonempty : sorted.filter (fun c => c.amount < amount) ≠ [] := fun hnil => by
      rw [hnil] at hlength
      exact absurd hlength (by decide)
    rcases greaterCoin_cases amount hsorted (hne hnonempty) with ⟨d, -, -, hok⟩ | ⟨hall, herror⟩
    · exact .inl ⟨{d}, hok⟩
    · rw [hsmaller hall] at htotal hlength
      exact .inr ⟨hall, herror, .inl ⟨htotal, hlength⟩⟩

lemma selectSeveral_eq_error (bits : ℕ → ℕ → Bool) (maxCoinAmount : ℕ) (hsorted : Descending sorted)
    (hlt : ∀ c ∈ sorted, c.amount < amount) (htotal : total sorted = amount) (hlength : maxNumCoins ≤ sorted.length) :
    selectSeveral bits amount maxCoinAmount sorted = .error .valueError := by
  have hall : sorted.filter (fun c => c.amount < amount) = sorted :=
    List.filter_eq_self.mpr fun c hc => decide_eq_true (hlt c hc)
  have hne : sorted ≠ [] := fun hnil => by
    rw [hnil] at hlength
    exact absurd hlength (by decide)
  unfold selectSeveral
  dsimp only
  rw [hall, if_neg (by omega), if_neg (by omega), if_neg (by omega)]
  rcases greaterCoin_cases amount hsorted hne with ⟨c, hc, hge, -⟩ | ⟨-, herror⟩
  · have hc' := hlt c hc
    omega
  · exact herror

end Failures

/-! ## Sets of eligible coins -/

section Sets

variable {coins : List Coin} {amount : ℕ}

/-- No set of at most `max_num_coins` coins has more than the largest ones. -/
lemma sum_le_largestTotal {s : Finset Coin} (hs : ∀ c ∈ s, c ∈ coins) (hcard : s.card ≤ maxNumCoins) :
    ∑ c ∈ s, c.amount ≤ largestTotal coins := by
  have hsub : s.toList.Subperm (sortByAmount coins.dedup) :=
    s.nodup_toList.subperm fun c hc => mem_sortByAmount.mpr (List.mem_dedup.mpr (hs c (Finset.mem_toList.mp hc)))
  obtain ⟨m, hperm, hsublist⟩ := hsub
  have h := SortedSums.sum_le_sum_take (k := maxNumCoins) (descending_sortByAmount coins.dedup).amounts
    ⟨m.map Coin.amount, hperm.map Coin.amount, hsublist.map Coin.amount⟩
    (by rw [List.length_map, Finset.length_toList]; exact hcard)
  rw [← total_toList, largestTotal, total, total, List.map_take]
  exact h

lemma exists_largest (coins : List Coin) : ∃ s : Finset Coin, (∀ c ∈ s, c ∈ coins) ∧ s.card ≤ maxNumCoins ∧
    ∑ c ∈ s, c.amount = largestTotal coins := by
  have hnodup : ((sortByAmount coins.dedup).take maxNumCoins).Nodup :=
    ((sortByAmount_perm _).nodup_iff.mpr coins.nodup_dedup).take
  refine ⟨((sortByAmount coins.dedup).take maxNumCoins).toFinset, fun c hc => ?_, ?_, sum_toFinset hnodup⟩
  · have hmem := List.mem_of_mem_take (List.mem_toFinset.mp hc)
    exact List.mem_dedup.mp (mem_sortByAmount.mp hmem)
  · exact (List.toFinset_card_le _).trans (List.length_take_le _ _)

lemma forall_sum_lt_iff : (∀ s : Finset Coin, (∀ c ∈ s, c ∈ coins) → s.card ≤ maxNumCoins → ∑ c ∈ s, c.amount < amount) ↔
    largestTotal coins < amount := by
  constructor
  · intro h
    obtain ⟨s, hs, hcard, hsum⟩ := exists_largest coins
    rw [← hsum]
    exact h s hs hcard
  · exact fun h s hs hcard => (sum_le_largestTotal hs hcard).trans_lt h

lemma largestTotal_le (coins : List Coin) : largestTotal coins ≤ total coins := by
  obtain ⟨s, hs, -, hsum⟩ := exists_largest coins
  rw [← hsum]
  refine le_trans (Finset.sum_le_sum_of_subset fun c hc => List.mem_toFinset.mpr (hs c hc)) (sum_toFinset_le coins)

lemma perm_of_total_le {l' l : List Coin} (h : l'.Subperm l) (hpos : ∀ c ∈ l, 0 < c.amount) (hle : total l ≤ total l') :
    l.Perm l' := by
  obtain ⟨m, hperm, hsub⟩ := h
  obtain ⟨rest, hrest⟩ := hsub.exists_perm_append
  have hsum := total_perm hrest
  rw [total_append, total_perm hperm] at hsum
  cases rest with
  | nil =>
    rw [List.append_nil] at hrest
    exact hrest.trans hperm
  | cons c rest =>
    have hc := hpos c (hrest.mem_iff.mpr (List.mem_append_right _ List.mem_cons_self))
    rw [total_cons] at hsum
    omega

/-- Many small coins that have exactly the amount: a set of at most `max_num_coins` of them has it exactly if not too many have
anything.

**Proof sketch.** A set with the whole total contains every coin that has anything, so that these are distinct and at most as
many. -/
lemma dustTotal_iff (hlt : ∀ c ∈ coins, c.amount < amount) (htotal : total coins = amount)
    (hlength : maxNumCoins ≤ coins.length) : DustTotal coins amount ↔ amount ≤ largestTotal coins := by
  constructor
  · intro h
    have hmem : ∀ c ∈ (coins.filter fun c => 0 < c.amount).toFinset, c ∈ coins := fun c hc =>
      (List.mem_filter.mp (List.mem_toFinset.mp hc)).1
    have hsum := sum_le_largestTotal hmem ((List.toFinset_card_le _).trans h.length_le)
    rwa [sum_toFinset h.nodup, total_filter_pos, htotal] at hsum
  · intro h
    obtain ⟨s, hs, hcard, hsum⟩ := exists_largest coins
    have hsub : (s.filter fun c => 0 < c.amount).toList.Subperm (coins.filter fun c => 0 < c.amount) := by
      refine (Finset.nodup_toList _).subperm fun c hc => ?_
      rw [Finset.mem_toList, Finset.mem_filter] at hc
      exact List.mem_filter.mpr ⟨hs c hc.1, decide_eq_true hc.2⟩
    have hpart : ∑ c ∈ s.filter (fun c => 0 < c.amount), c.amount = ∑ c ∈ s, c.amount := by
      refine Finset.sum_filter_of_ne fun c _ hne => ?_
      omega
    have hperm := perm_of_total_le hsub (fun c hc => of_decide_eq_true (List.mem_filter.mp hc).2) (by
      rw [total_filter_pos, total_toList, hpart, hsum, htotal]
      exact h)
    refine ⟨hlt, htotal, hlength, hperm.nodup_iff.mpr (Finset.nodup_toList _), ?_⟩
    rw [hperm.length_eq, Finset.length_toList]
    exact (Finset.card_filter_le _ _).trans hcard

end Sets

/-! ## Completeness -/

section Completeness

variable {sha256 : Bytes → Bytes32} {bits : ℕ → ℕ → Bool} {r : Request} {c : Coin}

lemma mem_validSpendableCoins : c ∈ r.validSpendableCoins sha256 ↔ r.Eligible sha256 c := by
  unfold Request.validSpendableCoins Request.Eligible
  rw [List.mem_filter, List.mem_map, decide_eq_true_iff, Nat.not_lt]
  tauto

lemma checkForExactMatch_eq_some {coins : List Coin} {target : ℕ} (h : checkForExactMatch coins target = some c) :
    c ∈ coins ∧ c.amount = target := by
  have htrue := List.find?_some h
  exact ⟨List.mem_of_find?_eq_some h, of_decide_eq_true htrue⟩

/-- **What the selection may end with**: with a set, or with a `ValueError` because the amount is not spendable, because the
coins do not have it, because it has more than 64 bits, or as in `selectSeveral_cases`. -/
lemma selectCoins_cases (sha256 : Bytes → Bytes32) (bits : ℕ → ℕ → Bool) (r : Request) :
    (∃ s, selectCoins sha256 bits r = .ok s ∧ r.amount < 2 ^ 64 ∧
      ((∃ c ∈ s, c ∈ r.validSpendableCoins sha256 ∧ r.amount ≤ c.amount) ∨
        selectSeveral bits r.amount r.maxCoinAmount (sortByAmount (r.validSpendableCoins sha256)) = .ok s)) ∨
    (selectCoins sha256 bits r = .error .valueError ∧
      (r.spendableAmount < r.amount ∨ total (r.validSpendableCoins sha256) < r.amount ∨ 2 ^ 64 ≤ r.amount ∨
        (∀ c ∈ r.validSpendableCoins sha256, c.amount < r.amount) ∧
          (total (r.validSpendableCoins sha256) = r.amount ∧
              maxNumCoins ≤ (r.validSpendableCoins sha256).length ∨
            largestTotal (r.validSpendableCoins sha256) < r.amount))) := by
  unfold selectCoins
  by_cases hspendable : r.spendableAmount < r.amount
  · rw [if_pos hspendable]
    exact .inr ⟨rfl, .inl hspendable⟩
  rw [if_neg hspendable]
  by_cases htotal : total (r.validSpendableCoins sha256) < r.amount
  · rw [if_pos htotal]
    exact .inr ⟨rfl, .inr (.inl htotal)⟩
  rw [if_neg htotal]
  by_cases hbig : r.amount < 2 ^ 64
  swap
  · have herror : uint64 r.amount = .error .valueError := by
      unfold uint64 uintN
      rw [if_neg]
      rintro ⟨-, hlt⟩
      exact hbig (by exact_mod_cast hlt)
    rw [herror]
    exact .inr ⟨rfl, .inr (.inr (.inl (by omega)))⟩
  have hok : uint64 r.amount = .ok r.amount := uintN_eq_ok.mpr ⟨rfl, hbig⟩
  rw [hok]
  dsimp only
  rw [ExceptRun.ok_bind]
  cases hmatch : checkForExactMatch (sortByAmount (r.validSpendableCoins sha256)) r.amount with
  | some coin =>
    obtain ⟨hmem, hamount⟩ := checkForExactMatch_eq_some hmatch
    exact .inl ⟨{coin}, rfl, hbig, .inl ⟨coin, Finset.mem_singleton_self _, mem_sortByAmount.mp hmem, hamount.ge⟩⟩
  | none =>
    have hsorted := descending_sortByAmount (r.validSpendableCoins sha256)
    have hsum : total (sortByAmount (r.validSpendableCoins sha256)) = total (r.validSpendableCoins sha256) :=
      total_perm (sortByAmount_perm _)
    have hle : r.amount ≤ total (sortByAmount (r.validSpendableCoins sha256)) := by
      rw [hsum]
      omega
    rcases selectSeveral_cases bits r.maxCoinAmount hsorted hle with
      ⟨s, hs⟩ | ⟨hall, herror, hwhy⟩
    · exact .inl ⟨s, hs, hbig, .inr hs⟩
    · refine .inr ⟨herror, .inr (.inr (.inr ⟨fun c hc => hall c (mem_sortByAmount.mpr hc), ?_⟩))⟩
      rcases hwhy with ⟨hexact, hlength⟩ | hnone
      · rw [hsum] at hexact
        rw [(sortByAmount_perm _).length_eq] at hlength
        exact .inl ⟨hexact, hlength⟩
      · exact .inr (forall_sum_lt_iff.mp fun s hs => hnone s fun c hc => mem_sortByAmount.mpr (hs c hc))

lemma forall_eligible_sum_lt_iff : (∀ s : Finset Coin, (∀ c ∈ s, r.Eligible sha256 c) → s.card ≤ maxNumCoins →
    ∑ c ∈ s, c.amount < r.amount) ↔ largestTotal (r.validSpendableCoins sha256) < r.amount := by
  rw [← forall_sum_lt_iff]
  simp only [mem_validSpendableCoins]

lemma not_complete_of_dustTotal (hspendable : r.amount ≤ r.spendableAmount)
    (hdust : DustTotal (r.validSpendableCoins sha256) r.amount) : ¬ Complete sha256 r := by
  intro h
  obtain ⟨h, -⟩ := h hspendable fun _ _ => false
  have hge := (dustTotal_iff hdust.lt hdust.total_eq hdust.le_length).mp hdust
  rcases selectCoins_cases sha256 (fun _ _ => false) r with ⟨s, hs, -, hwhy⟩ | ⟨herror, -⟩
  · rcases hwhy with ⟨c, -, hc, hc'⟩ | hseveral
    · have hlt := hdust.lt c hc
      omega
    · rw [selectSeveral_eq_error _ _ (descending_sortByAmount _) (fun c hc => hdust.lt c (mem_sortByAmount.mp hc))
        ((total_perm (sortByAmount_perm _)).trans hdust.total_eq)
        ((sortByAmount_perm _).length_eq.symm ▸ hdust.le_length)] at hseveral
      cases hseveral
  · have hlt := forall_eligible_sum_lt_iff.mp (h herror)
    omega

/-- **Exactly when the selection is complete**: the amount has at most 64 bits, or the largest coins do not have it; and it is
not the total of many small coins of which not too many have anything.

**Proof sketch.** By the cases of `selectCoins_cases`: an amount that is too long is refused although coins may have it; of the
other failures only the one about many small coins happens although a set of coins may have the amount. -/
theorem complete_iff (sha256 : Bytes → Bytes32) (r : Request) : Complete sha256 r ↔
    (r.amount ≤ r.spendableAmount →
      (r.amount < 2 ^ 64 ∨ largestTotal (r.validSpendableCoins sha256) < r.amount) ∧
        ¬ DustTotal (r.validSpendableCoins sha256) r.amount) := by
  have hle := largestTotal_le (r.validSpendableCoins sha256)
  constructor
  · intro h hspendable
    refine ⟨?_, fun hdust => not_complete_of_dustTotal hspendable hdust h⟩
    obtain ⟨h, -⟩ := h hspendable fun _ _ => false
    rcases selectCoins_cases sha256 (fun _ _ => false) r with ⟨s, -, hbig, -⟩ | ⟨herror, -⟩
    · exact .inl hbig
    · exact .inr (forall_eligible_sum_lt_iff.mp (h herror))
  · intro h hspendable bits
    obtain ⟨hbig, hdust⟩ := h hspendable
    rcases selectCoins_cases sha256 bits r with ⟨s, hs, -⟩ | ⟨herror, hwhy⟩
    · rw [hs]
      exact ⟨nofun, nofun⟩
    · rw [herror]
      refine ⟨fun _ => forall_eligible_sum_lt_iff.mpr ?_, nofun⟩
      rcases hwhy with hmore | htotal | htoobig | ⟨hlt, ⟨hexact, hlength⟩ | hlargest⟩
      · omega
      · omega
      · omega
      · by_contra hge
        exact hdust ((dustTotal_iff hlt hexact hlength).mpr (by omega))
      · exact hlargest

/-- A coin of a given number and amount. -/
def sampleCoin (amount n : ℕ) : Coin := ⟨Bytes32.ofNat n, Bytes32.zero, amount⟩

/-- A request for some amount of coins of 1. -/
def unitRequest (count amount : ℕ) : Request where
  spendableAmount := count
  maxCoinAmount := 2 ^ 64 - 1
  spendableCoins := (List.range count).map fun n => ⟨sampleCoin 1 n, 1, 0, false, false, .standardWallet, 1⟩
  unconfirmedRemovals := .empty
  amount := amount
  exclude := none
  minCoinAmount := none

lemma validSpendableCoins_unitRequest (sha256 : Bytes → Bytes32) (count amount : ℕ) :
    (unitRequest count amount).validSpendableCoins sha256 = (List.range count).map (sampleCoin 1) := by
  unfold Request.validSpendableCoins unitRequest
  rw [List.map_map, List.filter_eq_self.mpr]
  · rfl
  · intro c _
    simp [OrderedDict.empty, OrderedDict.keys]

lemma nodup_units {count : ℕ} (hcount : count ≤ 1000) : ((List.range count).map (sampleCoin 1)).Nodup := by
  refine List.Nodup.map_on (fun a ha b hb h => ?_) List.nodup_range
  rw [List.mem_range] at ha hb
  simp only [sampleCoin, Coin.mk.injEq, and_true] at h
  exact Bytes32.ofNat_injOn (by omega) (by omega) h

lemma total_units (count : ℕ) : total ((List.range count).map (sampleCoin 1)) = count := by
  induction count with
  | zero => rfl
  | succ count ih =>
    rw [List.range_succ, List.map_append, total_append, ih]
    rfl

/-- **Five hundred coins of 1 do not pay 500**: `max_num_coins` coins are refused where they have exactly the amount. -/
theorem not_complete : ¬ ∀ (sha256 : Bytes → Bytes32) (r : Request), Complete sha256 r := by
  intro h
  refine @not_complete_of_dustTotal (fun _ => Bytes32.zero) _ (le_refl 500) ?_ (h _ (unitRequest 500 500))
  rw [validSpendableCoins_unitRequest]
  have hlength : ((List.range 500).map (sampleCoin 1)).length = 500 := by rw [List.length_map, List.length_range]
  refine ⟨fun c hc => ?_, total_units 500, hlength.ge, (nodup_units (by norm_num)).filter _,
    (List.length_filter_le _ _).trans hlength.le⟩
  obtain ⟨n, -, rfl⟩ := List.mem_map.mp hc
  show 1 < 500
  norm_num

end Completeness

end CoinSelection

end Chives
