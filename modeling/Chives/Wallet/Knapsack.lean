import Chives.Wallet.CoinSelection

set_option autoImplicit false

/-!
# The coins that the knapsack algorithm selects

What `knapsack_coin_algorithm` may return, over all random bits. It compares the number of coins with the limit before
it adds a coin, so that it may return one coin more than the limit.

## Main definitions

* `CoinSelection.Overfills` — a pass completes a set with one coin more than the limit.
* `CoinSelection.Overfillable` — coins of the first pass can be chosen so that one of the passes does.
* `CoinSelection.Request.KnapsackUsed` — the knapsack algorithm is used.
* `CoinSelection.Sound` — what the selection returns are eligible coins with the amount, not too many.

## Main results

* `CoinSelection.exists_knapsack_card_iff` — which coins can be selected one too many.
* `CoinSelection.overfillable_iff` — the same by the largest and the smallest coins, for a large bound.
* `CoinSelection.sound_iff` — when the selection is sound.
-/

namespace Chives

namespace CoinSelection

/-! ## Passes without picking -/

section Passes

variable {target limit : ℕ}

/-- A pass that tries every coin. -/
def tryAll (target limit : ℕ) : List Coin → Trial → Except (Finset Coin) Trial
  | [], t => .ok t
  | coin :: coins, t =>
    if limit < t.selectedCoins.card then .ok t
    else do
      let t ← addCoin target t coin
      tryAll target limit coins t

/-- The coins that some bits choose. -/
def chosen : (ℕ → Bool) → List Coin → List Coin
  | _, [] => []
  | bits, coin :: coins =>
    if bits 0 then coin :: chosen (fun j => bits (j + 1)) coins else chosen (fun j => bits (j + 1)) coins

variable {bits : ℕ → Bool} {coins : List Coin} {coin : Coin} {t t' : Trial} {s : Finset Coin}

lemma chosen_cons_of_true (h : bits 0 = true) :
    chosen bits (coin :: coins) = coin :: chosen (fun j => bits (j + 1)) coins := by simp [chosen, h]

lemma chosen_cons_of_false (h : bits 0 = false) : chosen bits (coin :: coins) = chosen (fun j => bits (j + 1)) coins := by
  simp [chosen, h]

lemma tryAll_cons (h : t.selectedCoins.card ≤ limit) :
    tryAll target limit (coin :: coins) t = addCoin target t coin >>= tryAll target limit coins := by
  rw [tryAll, if_neg (by omega)]

lemma tryAll_of_lt (h : limit < t.selectedCoins.card) : tryAll target limit coins t = .ok t := by
  cases coins with
  | nil => rfl
  | cons coin coins => rw [tryAll, if_pos h]

lemma pass_first (target limit : ℕ) (bits : ℕ → Bool) (coins : List Coin) (t : Trial) (j : ℕ) :
    pass target limit (fun j _ _ => bits j) j coins t =
      tryAll target limit (chosen (fun i => bits (j + i)) coins) t := by
  induction coins generalizing t j with
  | nil => rfl
  | cons coin coins ih =>
    have hshift : (fun i => bits (j + (i + 1))) = fun i => bits (j + 1 + i) := by
      funext i
      congr 1
      omega
    rw [pass]
    cases hbit : bits j with
    | false =>
      rw [chosen_cons_of_false (by simpa using hbit), hshift, ← ih t (j + 1)]
      simp
    | true =>
      rw [chosen_cons_of_true (by simpa using hbit), hshift, if_pos rfl, tryAll]
      simp only [ih]

lemma chosen_sublist (bits : ℕ → Bool) (coins : List Coin) : (chosen bits coins).Sublist coins := by
  induction coins generalizing bits with
  | nil => exact List.Sublist.refl _
  | cons coin coins ih =>
    cases h : bits 0 with
    | false =>
      rw [chosen_cons_of_false h]
      exact (ih _).cons coin
    | true =>
      rw [chosen_cons_of_true h]
      exact (ih _).cons_cons coin

lemma exists_chosen {first : List Coin} (h : first.Sublist coins) : ∃ bits, chosen bits coins = first := by
  induction h with
  | slnil => exact ⟨fun _ => false, rfl⟩
  | cons coin _ ih =>
    obtain ⟨bits, rfl⟩ := ih
    exact ⟨fun j => Nat.casesOn j false bits, chosen_cons_of_false rfl⟩
  | cons_cons coin _ ih =>
    obtain ⟨bits, rfl⟩ := ih
    exact ⟨fun j => Nat.casesOn j true bits, chosen_cons_of_true rfl⟩

/-! ## One coin -/

lemma addCoin_of_eq (h : t.selectedCoinsSum + coin.amount = target) :
    addCoin target t coin = .error (insert coin t.selectedCoins) := by
  unfold addCoin
  rw [if_pos h]

lemma addCoin_of_better (hnew : coin ∉ t.selectedCoins) (hgt : target < t.selectedCoinsSum + coin.amount)
    (hbest : t.selectedCoinsSum + coin.amount < t.bestSetSum) : addCoin target t coin =
      .ok ⟨t.selectedCoins, t.selectedCoinsSum, true, t.selectedCoinsSum + coin.amount,
        some (insert coin t.selectedCoins)⟩ := by
  unfold addCoin
  rw [if_neg (by omega), if_pos hgt, if_pos hbest, Finset.erase_insert hnew, Nat.add_sub_cancel]

lemma addCoin_of_worse (hgt : target < t.selectedCoinsSum + coin.amount)
    (hbest : t.bestSetSum ≤ t.selectedCoinsSum + coin.amount) : addCoin target t coin =
      .ok ⟨insert coin t.selectedCoins, t.selectedCoinsSum + coin.amount, true, t.bestSetSum, t.bestSetOfCoins⟩ := by
  unfold addCoin
  rw [if_neg (by omega), if_pos hgt, if_neg (by omega)]

lemma addCoin_of_lt (hlt : t.selectedCoinsSum + coin.amount < target) : addCoin target t coin =
      .ok ⟨insert coin t.selectedCoins, t.selectedCoinsSum + coin.amount, t.targetReached, t.bestSetSum,
        t.bestSetOfCoins⟩ := by
  unfold addCoin
  rw [if_neg (by omega), if_neg (by omega)]

lemma mem_of_addCoin (h : addCoin target t coin = .ok t') {d : Coin} (hd : d ≠ coin) :
    d ∈ t'.selectedCoins ↔ d ∈ t.selectedCoins := by
  unfold addCoin at h
  dsimp only at h
  split at h
  · cases h
  · split at h
    · split at h
      all_goals
        cases h
        simp [hd]
    · cases h
      simp [hd]

lemma pass_second (target limit : ℕ) (hnodup : coins.Nodup) (t : Trial) (j : ℕ) :
    pass target limit (fun _ coin t => coin ∉ t.selectedCoins) j coins t =
      tryAll target limit (coins.filter fun coin => coin ∉ t.selectedCoins) t := by
  induction coins generalizing t j with
  | nil => rfl
  | cons coin coins ih =>
    obtain ⟨hnot, hnodup⟩ := List.nodup_cons.mp hnodup
    rw [pass]
    by_cases hmem : coin ∈ t.selectedCoins
    · rw [if_neg (by simpa using hmem), List.filter_cons_of_neg (by simpa using hmem)]
      exact ih hnodup t (j + 1)
    · rw [if_pos (by simpa using hmem), List.filter_cons_of_pos (by simpa using hmem), tryAll]
      refine if_congr Iff.rfl rfl ?_
      cases hadd : addCoin target t coin with
      | error s => rfl
      | ok t' =>
        have hsame : coins.filter (fun c => c ∉ t'.selectedCoins) = coins.filter fun c => c ∉ t.selectedCoins := by
          refine List.filter_congr fun c hc => ?_
          have hiff := mem_of_addCoin hadd (fun heq => hnot (heq ▸ hc))
          simp only [hiff]
        rw [ExceptRun.ok_bind, ExceptRun.ok_bind, ih hnodup t' (j + 1), hsame]

/-! ## What a pass gives -/

/-- A pass ends with some property, or the algorithm returns a set with some property. -/
def Gives {α : Type} (P : α → Prop) (Q : Finset Coin → Prop) : Except (Finset Coin) α → Prop
  | .ok a => P a
  | .error s => Q s

lemma Gives.bind {α β : Type} {P : α → Prop} {P' : β → Prop} {Q : Finset Coin → Prop} {x : Except (Finset Coin) α}
    {f : α → Except (Finset Coin) β} (hx : Gives P Q x) (hf : ∀ a, P a → Gives P' Q (f a)) : Gives P' Q (x >>= f) := by
  cases x with
  | error s => exact hx
  | ok a => exact hf a hx

lemma Gives.imp {α : Type} {P P' : α → Prop} {Q Q' : Finset Coin → Prop} {x : Except (Finset Coin) α} (hx : Gives P Q x)
    (hP : ∀ a, P a → P' a) (hQ : ∀ s, Q s → Q' s) : Gives P' Q' x := by
  cases x with
  | error s => exact hQ s hx
  | ok a => exact hP a hx

/-- **One coin**: what it gives in each of the four cases. -/
lemma addCoin_gives {P : Trial → Prop} {Q : Finset Coin → Prop} (hnew : coin ∉ t.selectedCoins)
    (hlt : t.selectedCoinsSum + coin.amount < target →
      P { t with selectedCoins := insert coin t.selectedCoins, selectedCoinsSum := t.selectedCoinsSum + coin.amount })
    (heq : t.selectedCoinsSum + coin.amount = target → Q (insert coin t.selectedCoins))
    (hbetter : target < t.selectedCoinsSum + coin.amount → t.selectedCoinsSum + coin.amount < t.bestSetSum →
      P ⟨t.selectedCoins, t.selectedCoinsSum, true, t.selectedCoinsSum + coin.amount,
        some (insert coin t.selectedCoins)⟩)
    (hworse : target < t.selectedCoinsSum + coin.amount → t.bestSetSum ≤ t.selectedCoinsSum + coin.amount →
      P ⟨insert coin t.selectedCoins, t.selectedCoinsSum + coin.amount, true, t.bestSetSum, t.bestSetOfCoins⟩) :
    Gives P Q (addCoin target t coin) := by
  rcases Nat.lt_trichotomy (t.selectedCoinsSum + coin.amount) target with h | h | h
  · rw [addCoin_of_lt h]
    exact hlt h
  · rw [addCoin_of_eq h]
    exact heq h
  · rcases Nat.lt_or_ge (t.selectedCoinsSum + coin.amount) t.bestSetSum with hbest | hbest
    · rw [addCoin_of_better hnew h hbest]
      exact hbetter h hbest
    · rw [addCoin_of_worse h hbest]
      exact hworse h hbest

/-- The coins are distinct and not selected. -/
def Fresh (tried : List Coin) (t : Trial) : Prop := tried.Nodup ∧ ∀ c ∈ tried, c ∉ t.selectedCoins

lemma Fresh.addCoin (h : Fresh (coin :: coins) t) (target : ℕ) :
    Gives (Fresh coins) (fun _ => True) (addCoin target t coin) := by
  obtain ⟨hnot, hnodup⟩ := List.nodup_cons.mp h.1
  have hnew := h.2 coin List.mem_cons_self
  have hkept : ∀ c ∈ coins, c ∉ t.selectedCoins := fun c hc => h.2 c (List.mem_cons_of_mem coin hc)
  have hinsert : ∀ c ∈ coins, c ∉ insert coin t.selectedCoins := by
    intro c hc hmem
    rcases Finset.mem_insert.mp hmem with rfl | hmem
    · exact hnot hc
    · exact hkept c hc hmem
  exact addCoin_gives hnew (fun _ => ⟨hnodup, hinsert⟩) (fun _ => trivial) (fun _ _ => ⟨hnodup, hkept⟩)
    fun _ _ => ⟨hnodup, hinsert⟩

variable {tried : List Coin}

/-- **The rule of a pass** over coins that are not selected: a property of the coins that are left and of the variables, kept by
each coin, that gives the result where no coin is left or too many are selected. -/
lemma tryAll_gives {P : List Coin → Trial → Prop} {R : Trial → Prop} {Q : Finset Coin → Prop} (hfresh : Fresh tried t)
    (h : P tried t) (hend : ∀ tried u, P tried u → tried = [] ∨ limit < u.selectedCoins.card → R u)
    (hstep : ∀ coin tried u, coin ∉ u.selectedCoins → u.selectedCoins.card ≤ limit → P (coin :: tried) u →
      Gives (P tried) Q (addCoin target u coin)) : Gives R Q (tryAll target limit tried t) := by
  induction tried generalizing t with
  | nil => exact hend [] t h (.inl rfl)
  | cons coin tried ih =>
    rcases Nat.lt_or_ge limit t.selectedCoins.card with hlt | hle
    · rw [tryAll_of_lt hlt]
      exact hend _ t h (.inr hlt)
    · rw [tryAll_cons hle]
      have hnext := hstep coin tried t (hfresh.2 coin List.mem_cons_self) hle h
      have hleft := hfresh.addCoin target
      cases hok : addCoin target t coin with
      | error s =>
        rw [hok] at hnext
        exact hnext
      | ok u =>
        rw [hok] at hnext hleft
        exact ih hleft hnext

/-- The set is some of the coins and reaches the target. -/
def Reaches (target : ℕ) (coins : List Coin) (s : Finset Coin) : Prop := (∀ c ∈ s, c ∈ coins) ∧ target ≤ ∑ c ∈ s, c.amount

/-- The variables describe some of the coins. -/
structure Trial.Describes (t : Trial) (target : ℕ) (coins : List Coin) : Prop where
  mem : ∀ c ∈ t.selectedCoins, c ∈ coins
  sum_eq : t.selectedCoinsSum = ∑ c ∈ t.selectedCoins, c.amount
  best : ∀ s, t.bestSetOfCoins = some s → Reaches target coins s

lemma Trial.Describes.addCoin (h : t.Describes target coins) (hmem : coin ∈ coins) (hnew : coin ∉ t.selectedCoins) :
    Gives (fun t => t.Describes target coins) (Reaches target coins) (addCoin target t coin) := by
  have hinsert : ∀ c ∈ insert coin t.selectedCoins, c ∈ coins := by
    intro c hc
    rcases Finset.mem_insert.mp hc with rfl | hc
    · exact hmem
    · exact h.mem c hc
  have hsum : t.selectedCoinsSum + coin.amount = ∑ c ∈ insert coin t.selectedCoins, c.amount := by
    rw [Finset.sum_insert hnew, h.sum_eq, Nat.add_comm]
  refine addCoin_gives hnew (fun _ => ⟨hinsert, hsum, h.best⟩) (fun heq => ⟨hinsert, (heq.symm.trans hsum).le⟩)
    (fun hgt _ => ⟨h.mem, h.sum_eq, fun s hs => ?_⟩) fun _ _ => ⟨hinsert, hsum, h.best⟩
  cases hs
  exact ⟨hinsert, by omega⟩

/-- **A pass keeps the description**, and what it returns or records reaches the target. -/
lemma Trial.Describes.tryAll (h : t.Describes target coins) (hmem : ∀ c ∈ tried, c ∈ coins) (hfresh : Fresh tried t) :
    Gives (fun t => t.Describes target coins) (Reaches target coins) (tryAll target limit tried t) := by
  refine tryAll_gives (P := fun tried t => (∀ c ∈ tried, c ∈ coins) ∧ t.Describes target coins) hfresh ⟨hmem, h⟩
    (fun _ _ h _ => h.2) fun coin tried u hnew _ h => ?_
  obtain ⟨hmem, h⟩ := h
  exact (h.addCoin (hmem coin List.mem_cons_self) hnew).imp
    (fun _ hu => ⟨fun c hc => hmem c (List.mem_cons_of_mem coin hc), hu⟩) fun _ => id

/-! ## The number of coins -/

/-- The coins that are tried complete a set with one coin more than the limit, from some sum, best sum and number of coins
on. -/
def Overfills (target limit : ℕ) : ℕ → ℕ → ℕ → List Coin → Prop
  | _, _, _, [] => False
  | sum, best, count, coin :: coins =>
    if sum + coin.amount < target then count < limit ∧ Overfills target limit (sum + coin.amount) best (count + 1) coins
    else if count = limit then sum + coin.amount = target ∨ sum + coin.amount < best
    else count < limit ∧ target < sum + coin.amount ∧ sum + coin.amount < best ∧
      Overfills target limit sum (sum + coin.amount) count coins

lemma Overfills.count_le {sum best count : ℕ} (h : Overfills target limit sum best count tried) :
    tried ≠ [] ∧ count ≤ limit := by
  cases tried with
  | nil => exact h.elim
  | cons coin tried =>
    refine ⟨List.cons_ne_nil _ _, ?_⟩
    unfold Overfills at h
    split at h
    · omega
    · split at h
      · omega
      · omega

/-- The best set is not too large. -/
def Trial.Limited (t : Trial) (limit : ℕ) : Prop := ∀ s, t.bestSetOfCoins = some s → s.card ≤ limit

/-- The best set has one coin more than the limit. -/
def Trial.Overfull (t : Trial) (limit : ℕ) : Prop := ∃ s, t.bestSetOfCoins = some s ∧ s.card = limit + 1

section

variable (hfresh : Fresh tried t)

include hfresh

/-- **A pass that completes a set with too many coins** returns or records it.

**Proof sketch.** Once it is recorded, at most one coin more is selected, and another set that is recorded or returned is as
large. -/
lemma tryAll_of_overfills (h : Overfills target limit t.selectedCoinsSum t.bestSetSum t.selectedCoins.card tried) :
    Gives (fun u => u.targetReached = true ∧ u.Overfull limit) (fun s => s.card = limit + 1)
      (tryAll target limit tried t) := by
  refine tryAll_gives (P := fun tried u =>
    Overfills target limit u.selectedCoinsSum u.bestSetSum u.selectedCoins.card tried ∨
      limit ≤ u.selectedCoins.card ∧ u.targetReached = true ∧ u.Overfull limit) hfresh (.inl h) ?_ ?_
  · rintro tried u (h | ⟨-, h⟩) hend
    · have hcount := h.count_le
      exact hend.elim (fun hnil => absurd hnil hcount.1) fun hlt => by omega
    · exact h
  · rintro coin tried u hnew hle (h | ⟨hge, hreached, hfull⟩)
    all_goals have hinsert := Finset.card_insert_of_notMem hnew
    · unfold Overfills at h
      refine addCoin_gives hnew (fun hlt => ?_) (fun heq => ?_) (fun hgt hbest => ?_) fun hgt hbest => ?_
      · rw [if_pos hlt] at h
        exact .inl (by rw [hinsert]; exact h.2)
      · rw [if_neg (by omega)] at h
        split at h
        · exact hinsert.trans (by omega)
        · omega
      · rw [if_neg (by omega)] at h
        split at h
        next hcount => exact .inr ⟨hcount.ge, rfl, _, rfl, hinsert.trans (by omega)⟩
        next => exact .inl h.2.2.2
      · rw [if_neg (by omega)] at h
        split at h
        · omega
        · omega
    · have hcard : (insert coin u.selectedCoins).card = limit + 1 := by omega
      exact addCoin_gives hnew (fun _ => .inr ⟨by rw [hcard]; omega, hreached, hfull⟩) (fun _ => hcard)
        (fun _ _ => .inr ⟨hge, rfl, _, rfl, hcard⟩) fun _ _ => .inr ⟨by rw [hcard]; omega, rfl, hfull⟩

/-- **Any other pass** returns and records sets that are not too large.

**Proof sketch.** The sum is below the target, or above it and the best sum, so that nothing is found any more. -/
lemma tryAll_of_not_overfills (hsum : t.selectedCoinsSum < target) (hlimited : t.Limited limit)
    (h : ¬ Overfills target limit t.selectedCoinsSum t.bestSetSum t.selectedCoins.card tried) :
    Gives (fun u => u.Limited limit ∧ u.bestSetSum ≤ t.bestSetSum) (fun s => s.card ≤ limit)
      (tryAll target limit tried t) := by
  refine tryAll_gives (P := fun tried u => (u.Limited limit ∧ u.bestSetSum ≤ t.bestSetSum) ∧
    (u.selectedCoinsSum < target ∧
        (¬ Overfills target limit u.selectedCoinsSum u.bestSetSum u.selectedCoins.card tried ∨
          limit < u.selectedCoins.card) ∨ target < u.selectedCoinsSum ∧ u.bestSetSum ≤ u.selectedCoinsSum))
    hfresh ⟨⟨hlimited, le_rfl⟩, .inl ⟨hsum, .inl h⟩⟩ (fun _ _ h _ => h.1) ?_
  rintro coin tried u hnew hle ⟨hu, ⟨hsum, h⟩ | ⟨hgt, hbest⟩⟩
  · have h := h.resolve_right (by omega)
    have hinsert := Finset.card_insert_of_notMem hnew
    unfold Overfills at h
    refine addCoin_gives hnew (fun hlt => ⟨hu, .inl ⟨hlt, ?_⟩⟩) (fun heq => ?_)
      (fun hgt hbest => ⟨⟨fun s hs => ?_, hbest.le.trans hu.2⟩, .inl ⟨hsum, .inl fun hrest => ?_⟩⟩)
      fun hgt hbest => ⟨hu, .inr ⟨hgt, hbest⟩⟩
    · rw [if_pos hlt] at h
      rcases Nat.lt_or_eq_of_le hle with hcount | hcount
      · exact .inl (by rw [hinsert]; exact fun hrest => h ⟨hcount, hrest⟩)
      · exact .inr (by rw [hinsert]; omega)
    · rw [if_neg (by omega)] at h
      have hcount : u.selectedCoins.card ≠ limit := fun hcount => h (by rw [if_pos hcount]; exact .inl heq)
      omega
    all_goals
      rw [if_neg (by omega)] at h
      have hcount : u.selectedCoins.card ≠ limit := fun hcount => h (by rw [if_pos hcount]; exact .inr hbest)
    · cases hs
      omega
    · rw [if_neg hcount] at h
      exact h ⟨by omega, hgt, hbest, hrest⟩
  · rw [addCoin_of_worse (by omega) (by omega)]
    exact ⟨hu, .inr ⟨by dsimp only; omega, by dsimp only; omega⟩⟩

/-! ## Passes and the target -/

lemma tryAll_found (hok : tryAll target limit tried t = .ok t') :
    t'.bestSetSum ≤ t.bestSetSum ∧ (t.targetReached = true → t'.targetReached = true) := by
  have h := @tryAll_gives target limit t tried
    (fun _ u => u.bestSetSum ≤ t.bestSetSum ∧ (t.targetReached = true → u.targetReached = true)) _ (fun _ => True) hfresh
    ⟨le_rfl, id⟩ (fun _ _ h _ => h) fun _ _ _ hnew _ h => addCoin_gives hnew (fun _ => h) (fun _ => trivial)
      (fun _ hbest => ⟨hbest.le.trans h.1, fun _ => rfl⟩) fun _ _ => ⟨h.1, fun _ => rfl⟩
  rwa [hok] at h

/-- **A pass that does not reach the target** selects every coin that is tried, or too many coins. -/
lemma tryAll_unreached (hsum : t.selectedCoinsSum < target) :
    Gives (fun u => u.targetReached = false → u.selectedCoinsSum < target ∧ u.bestSetSum = t.bestSetSum ∧
        (limit < u.selectedCoins.card ∨ u.selectedCoins = t.selectedCoins ∪ tried.toFinset ∧
          u.selectedCoinsSum = t.selectedCoinsSum + total tried))
      (fun _ => True) (tryAll target limit tried t) := by
  refine tryAll_gives (P := fun left u => u.targetReached = false → u.selectedCoinsSum < target ∧
    u.bestSetSum = t.bestSetSum ∧ u.selectedCoins ∪ left.toFinset = t.selectedCoins ∪ tried.toFinset ∧
      u.selectedCoinsSum + total left = t.selectedCoinsSum + total tried) hfresh (fun _ => ⟨hsum, rfl, rfl, rfl⟩)
    (fun left u h hend hreached => ?_) fun coin left u hnew _ h => addCoin_gives hnew (fun hlt hreached => ?_)
      (fun _ => trivial) nofun nofun
  · obtain ⟨hsum, hbest, hselected, htotal⟩ := h hreached
    refine ⟨hsum, hbest, hend.symm.imp_right ?_⟩
    rintro rfl
    exact ⟨by simpa using hselected, by simpa using htotal⟩
  · obtain ⟨-, hbest, hselected, htotal⟩ := h hreached
    refine ⟨hlt, hbest, ?_, ?_⟩
    · rw [← hselected, List.toFinset_cons, Finset.insert_union, Finset.union_insert]
    · rw [← htotal, total_cons, Nat.add_assoc]

end

lemma tryAll_below (hsum : t.selectedCoinsSum + total tried < target)
    (hcard : t.selectedCoins.card + tried.length ≤ limit + 1) : tryAll target limit tried t =
      .ok { t with
        selectedCoins := t.selectedCoins ∪ tried.toFinset
        selectedCoinsSum := t.selectedCoinsSum + total tried } := by
  induction tried generalizing t with
  | nil => simp [tryAll]
  | cons coin tried ih =>
    have hinsert := Finset.card_insert_le coin t.selectedCoins
    rw [total_cons] at hsum
    rw [List.length_cons] at hcard
    rw [tryAll_cons (by omega), addCoin_of_lt (by omega), ExceptRun.ok_bind, ih]
    · simp [Nat.add_assoc]
    · dsimp only
      omega
    · dsimp only
      omega

/-- **The same pass again**, with a best sum that is not greater than what the pass found, finds nothing.

**Proof sketch.** Both runs have the same coins selected until the first one records its first set. Then the second one goes on
with more than the target. -/
lemma tryAll_again {u : Trial} {best : ℕ} (found : Option (Finset Coin)) (hfresh : Fresh tried t)
    (hsum : t.selectedCoinsSum < target) (hok : tryAll target limit tried t = .ok u) (hbest : best ≤ u.bestSetSum) :
    Gives (fun v => v.bestSetSum = best ∧ v.bestSetOfCoins = found ∧ v.targetReached = u.targetReached ∧
        (u.targetReached = false → v.selectedCoins = u.selectedCoins ∧ v.selectedCoinsSum = u.selectedCoinsSum))
      (fun _ => False) (tryAll target limit tried { t with bestSetSum := best, bestSetOfCoins := found }) := by
  refine tryAll_gives (P := fun tried v => v.bestSetSum = best ∧ v.bestSetOfCoins = found ∧
    ((∃ t, Fresh tried t ∧ tryAll target limit tried t = .ok u ∧ v.selectedCoinsSum < target ∧
        v.selectedCoins = t.selectedCoins ∧ v.selectedCoinsSum = t.selectedCoinsSum ∧
        v.targetReached = t.targetReached) ∨
      target < v.selectedCoinsSum ∧ best ≤ v.selectedCoinsSum ∧ v.targetReached = true ∧ u.targetReached = true))
    (by exact hfresh) ⟨rfl, rfl, .inl ⟨t, hfresh, hok, hsum, rfl, rfl, rfl⟩⟩ ?_ ?_
  · rintro tried v ⟨hb, hfound, ⟨t, -, hok, -, hselected, hsum, hreached⟩ | ⟨-, -, hv, hu⟩⟩ hend
    · have hut : t = u := by
        rcases hend with rfl | hlt
        · exact Except.ok.inj hok
        · rw [hselected] at hlt
          exact Except.ok.inj ((tryAll_of_lt hlt).symm.trans hok)
      subst hut
      exact ⟨hb, hfound, hreached, fun _ => ⟨hselected, hsum⟩⟩
    · exact ⟨hb, hfound, hv.trans hu.symm, fun hnot => by simp [hu] at hnot⟩
  · rintro coin tried ⟨selected, sum, reached, b, f⟩ hnew hle ⟨hb, hf, h⟩
    dsimp only at hnew hle hb hf h ⊢
    subst hb hf
    rcases h with ⟨t, hfresh, hok, hsum, rfl, rfl, rfl⟩ | ⟨hgt, hsum, hreached, hu⟩
    · rw [tryAll_cons hle] at hok
      have hleft := hfresh.addCoin target
      rcases Nat.lt_trichotomy (t.selectedCoinsSum + coin.amount) target with hlt | heq | hgt
      · rw [addCoin_of_lt hlt] at hok hleft
        rw [addCoin_of_lt (by exact hlt)]
        exact ⟨rfl, rfl, .inl ⟨_, hleft, hok, hlt, rfl, rfl, rfl⟩⟩
      · rw [addCoin_of_eq heq] at hok
        cases hok
      · have hu : u.targetReached = true ∧ b ≤ t.selectedCoinsSum + coin.amount := by
          rcases Nat.lt_or_ge (t.selectedCoinsSum + coin.amount) t.bestSetSum with hbetter | hworse
          · rw [addCoin_of_better hnew hgt hbetter] at hok hleft
            have hless := tryAll_found hleft hok
            exact ⟨hless.2 rfl, hbest.trans hless.1⟩
          · rw [addCoin_of_worse hgt hworse] at hok hleft
            have hless := tryAll_found hleft hok
            exact ⟨hless.2 rfl, hbest.trans (hless.1.trans hworse)⟩
        rw [addCoin_of_worse (by exact hgt) (by exact hu.2)]
        exact ⟨rfl, rfl, .inr ⟨hgt, hu.2, rfl, hu.1⟩⟩
    · rw [addCoin_of_worse (by dsimp only; omega) (by dsimp only; omega)]
      exact ⟨rfl, rfl, .inr ⟨by dsimp only; omega, by dsimp only; omega, rfl, hu⟩⟩

/-! ## Rounds -/

/-- The second pass of a round. -/
def secondPass (target limit : ℕ) (coins : List Coin) (t : Trial) : Except (Finset Coin) Trial :=
  if t.targetReached then .ok t else tryAll target limit (coins.filter fun coin => coin ∉ t.selectedCoins) t

lemma round_eq (target limit : ℕ) (bits : ℕ → Bool) (hnodup : coins.Nodup) (best : ℕ × Option (Finset Coin)) :
    round target limit bits coins best = (do
      let t ← tryAll target limit (chosen bits coins) ⟨∅, 0, false, best.1, best.2⟩
      let t ← secondPass target limit coins t
      pure (t.bestSetSum, t.bestSetOfCoins)) := by
  unfold round secondPass
  rw [pass_first]
  simp only [Nat.zero_add, pass_second target limit hnodup]
  refine ExceptRun.bind_congr_ok fun t _ => ?_
  cases t.targetReached <;> rfl

lemma fresh_chosen (hnodup : coins.Nodup) (bits : ℕ → Bool) (best : ℕ × Option (Finset Coin)) :
    Fresh (chosen bits coins) ⟨∅, 0, false, best.1, best.2⟩ :=
  ⟨hnodup.sublist (chosen_sublist bits coins), fun c _ => Finset.notMem_empty c⟩

lemma fresh_rest (hnodup : coins.Nodup) (t : Trial) : Fresh (coins.filter fun coin => coin ∉ t.selectedCoins) t :=
  ⟨hnodup.filter _, fun _ hc => of_decide_eq_true (List.mem_filter.mp hc).2⟩

/-- **A round** returns or records sets of the coins that reach the target. -/
lemma round_reaches (target limit : ℕ) (bits : ℕ → Bool) (hnodup : coins.Nodup) {best : ℕ × Option (Finset Coin)}
    (hbest : ∀ s, best.2 = some s → Reaches target coins s) :
    Gives (fun best => ∀ s, best.2 = some s → Reaches target coins s) (Reaches target coins)
      (round target limit bits coins best) := by
  rw [round_eq target limit bits hnodup]
  have hstart : Trial.Describes ⟨∅, 0, false, best.1, best.2⟩ target coins :=
    ⟨fun c hc => absurd hc (Finset.notMem_empty c), Finset.sum_empty.symm, hbest⟩
  have hchosen : ∀ c ∈ chosen bits coins, c ∈ coins := (chosen_sublist bits coins).subset
  refine (hstart.tryAll hchosen (fresh_chosen hnodup bits best)).bind fun t ht => ?_
  refine Gives.bind (P := fun t => t.Describes target coins) ?_ fun t ht => ht.best
  unfold secondPass
  split
  · exact ht
  · exact ht.tryAll (fun c hc => List.mem_of_mem_filter hc) (fresh_rest hnodup t)

/-- Coins of the first pass can be chosen so that one of the passes completes a set with one coin more than the limit. -/
def Overfillable (target limit best : ℕ) (coins : List Coin) : Prop :=
  ∃ first, first.Sublist coins ∧ (Overfills target limit 0 best 0 first ∨
    total first < target ∧
      Overfills target limit (total first) best first.length (coins.filter fun coin => coin ∉ first))

lemma Overfills.mono {sum best best' count : ℕ} (hle : best ≤ best')
    (h : Overfills target limit sum best count tried) : Overfills target limit sum best' count tried := by
  induction tried generalizing sum count with
  | nil => exact h
  | cons coin tried ih =>
    unfold Overfills at h ⊢
    split at h
    next hlt =>
      rw [if_pos hlt]
      exact ⟨h.1, ih h.2⟩
    next hge =>
      rw [if_neg hge]
      split at h
      next hcount =>
        rw [if_pos hcount]
        exact h.imp_right fun hless => hless.trans_le hle
      next hcount =>
        rw [if_neg hcount]
        exact ⟨h.1, h.2.1, h.2.2.1.trans_le hle, h.2.2.2⟩

lemma Overfillable.mono {best best' : ℕ} (hle : best ≤ best') (h : Overfillable target limit best coins) :
    Overfillable target limit best' coins := by
  obtain ⟨first, hsub, h | ⟨hlt, h⟩⟩ := h
  · exact ⟨first, hsub, .inl (h.mono hle)⟩
  · exact ⟨first, hsub, .inr ⟨hlt, h.mono hle⟩⟩

/-- **A round without a way to overfill** returns and records sets that are not too large. -/
lemma round_limited (bits : ℕ → Bool) (hnodup : coins.Nodup) (hpos : 0 < target) {best : ℕ × Option (Finset Coin)}
    (hbest : ∀ s, best.2 = some s → s.card ≤ limit) (h : ¬ Overfillable target limit best.1 coins) :
    Gives (fun best' => (∀ s, best'.2 = some s → s.card ≤ limit) ∧ best'.1 ≤ best.1) (fun s => s.card ≤ limit)
      (round target limit bits coins best) := by
  rw [round_eq target limit bits hnodup]
  have hsub := chosen_sublist bits coins
  have hfresh := fresh_chosen hnodup bits best
  have hfirst := @tryAll_of_not_overfills target limit ⟨∅, 0, false, best.1, best.2⟩ _ hfresh hpos hbest
    fun hover => h ⟨_, hsub, .inl (by simpa using hover)⟩
  have hunreached := @tryAll_unreached target limit ⟨∅, 0, false, best.1, best.2⟩ _ hfresh hpos
  cases hok : tryAll target limit (chosen bits coins) ⟨∅, 0, false, best.1, best.2⟩ with
  | error s =>
    rw [hok] at hfirst
    exact hfirst
  | ok t =>
    rw [hok] at hfirst hunreached
    obtain ⟨hlimited, hle⟩ := hfirst
    rw [ExceptRun.ok_bind]
    refine Gives.bind (P := fun u => u.Limited limit ∧ u.bestSetSum ≤ best.1) ?_ fun u hu => by exact hu
    unfold secondPass
    cases hreached : t.targetReached with
    | true => exact ⟨hlimited, hle⟩
    | false =>
      obtain ⟨hsum, hsame, hmany | ⟨hselected, htotal⟩⟩ := hunreached hreached
      · rw [if_neg (by simp), tryAll_of_lt hmany]
        exact ⟨hlimited, hle⟩
      · rw [if_neg (by simp)]
        have hset : t.selectedCoins = (chosen bits coins).toFinset := by simpa using hselected
        have hcard : t.selectedCoins.card = (chosen bits coins).length := by
          rw [hset, List.toFinset_card_of_nodup hfresh.1]
        have htotal : t.selectedCoinsSum = total (chosen bits coins) := by simpa using htotal
        have hrest : coins.filter (fun coin => coin ∉ t.selectedCoins) =
            coins.filter fun coin => coin ∉ chosen bits coins := by simp only [hset, List.mem_toFinset]
        refine (tryAll_of_not_overfills (fresh_rest hnodup t) hsum hlimited fun hover => h ⟨_, hsub, .inr ⟨?_, ?_⟩⟩).imp
          (fun u hu => ⟨hu.1, hu.2.trans hle⟩) fun _ => id
        · rwa [← htotal]
        · rwa [← htotal, ← hcard, ← hrest, ← show t.bestSetSum = best.1 from hsame]

/-- **A round that overfills** returns or records a set with one coin more than the limit. -/
lemma round_of_overfillable (hnodup : coins.Nodup) {best : ℕ × Option (Finset Coin)}
    (h : Overfillable target limit best.1 coins) : ∃ bits,
      Gives (fun best => ∃ s, best.2 = some s ∧ s.card = limit + 1) (fun s => s.card = limit + 1)
        (round target limit bits coins best) := by
  obtain ⟨first, hsub, h⟩ := h
  obtain ⟨bits, hbits⟩ := exists_chosen hsub
  refine ⟨bits, ?_⟩
  rw [round_eq target limit bits hnodup]
  have hfresh := fresh_chosen hnodup bits best
  rw [hbits] at hfresh ⊢
  rcases h with hover | ⟨hlt, hover⟩
  · refine (tryAll_of_overfills hfresh (by simpa using hover)).bind fun t ht => ?_
    rw [secondPass, if_pos ht.1]
    exact ht.2
  · have hcount : first.length ≤ limit := by
      by_contra hmany
      revert hover
      cases coins.filter fun coin => coin ∉ first with
      | nil => exact id
      | cons coin rest =>
        unfold Overfills
        split
        · omega
        · split
          · omega
          · omega
    rw [tryAll_below (by simpa using hlt) (by simpa using by omega), ExceptRun.ok_bind, secondPass, if_neg (by simp)]
    refine (tryAll_of_overfills (fresh_rest hnodup _) ?_).bind fun t ht => ht.2
    simpa [List.toFinset_card_of_nodup hfresh.1] using hover

/-- **The same round again** finds nothing. -/
lemma round_again (bits : ℕ → Bool) (hnodup : coins.Nodup) (hpos : 0 < target) {best best' : ℕ × Option (Finset Coin)}
    (h : round target limit bits coins best = .ok best') : round target limit bits coins best' = .ok best' := by
  rw [round_eq target limit bits hnodup] at h ⊢
  obtain ⟨t, ht, h⟩ := ExceptRun.bind_eq_ok.mp h
  obtain ⟨u, hu, h⟩ := ExceptRun.bind_eq_ok.mp h
  cases h
  have hfresh := fresh_chosen hnodup bits best
  have hunreached := @tryAll_unreached target limit ⟨∅, 0, false, best.1, best.2⟩ _ hfresh hpos
  rw [ht] at hunreached
  have hle : u.bestSetSum ≤ t.bestSetSum := by
    unfold secondPass at hu
    split at hu
    · cases hu
      exact le_rfl
    · exact (tryAll_found (fresh_rest hnodup t) hu).1
  have hagain := tryAll_again u.bestSetOfCoins hfresh hpos ht hle
  cases hv : tryAll target limit (chosen bits coins) ⟨∅, 0, false, u.bestSetSum, u.bestSetOfCoins⟩ with
  | error s =>
    rw [hv] at hagain
    exact hagain.elim
  | ok v =>
    rw [hv] at hagain
    obtain ⟨hbest, hfound, hreached, hselected⟩ := hagain
    rw [ExceptRun.ok_bind]
    unfold secondPass at hu ⊢
    cases htarget : t.targetReached with
    | true =>
      rw [if_pos (hreached.trans htarget), ExceptRun.ok_bind, hbest, hfound]
      rfl
    | false =>
      rw [if_neg (by simp [htarget])] at hu
      rw [if_neg (by simp [hreached, htarget])]
      obtain ⟨hsame, hsum⟩ := hselected htarget
      have hvt : v = { t with bestSetSum := u.bestSetSum, bestSetOfCoins := u.bestSetOfCoins } := by
        cases v
        dsimp only at hbest hfound hreached hsame hsum
        rw [hbest, hfound, hreached, hsame, hsum]
      have hrest := tryAll_again u.bestSetOfCoins (fresh_rest hnodup t) (hunreached htarget).1 hu le_rfl
      rw [hvt]
      revert hrest
      cases tryAll target limit _ { t with bestSetSum := u.bestSetSum, bestSetOfCoins := u.bestSetOfCoins } with
      | error s => exact False.elim
      | ok w =>
        rintro ⟨hbest, hfound, -⟩
        rw [ExceptRun.ok_bind, hbest, hfound]
        rfl

lemma rounds_gives {P : ℕ × Option (Finset Coin) → Prop} {Q : Finset Coin → Prop} {bits : ℕ → ℕ → Bool}
    (hround : ∀ i best, P best → Gives P Q (round target limit (bits i) coins best)) (is : List ℕ)
    {best : ℕ × Option (Finset Coin)} (hbest : P best) : Gives P Q (rounds target limit bits coins is best) := by
  induction is generalizing best with
  | nil => exact hbest
  | cons i is ih => exact (hround i best hbest).bind fun _ => ih

lemma knapsack_gives {P : ℕ × Option (Finset Coin) → Prop} {Q : Finset Coin → Prop} {bits : ℕ → ℕ → Bool} {best : ℕ}
    (hround : ∀ i best, P best → Gives P Q (round target limit (bits i) coins best)) (hbest : P (best, none))
    (hPQ : ∀ b, P b → ∀ s, b.2 = some s → Q s) {s : Finset Coin}
    (hs : knapsackCoinAlgorithm bits coins target best limit = some s) : Q s := by
  unfold knapsackCoinAlgorithm at hs
  generalize List.range 1000 = is at hs
  have h := rounds_gives hround is hbest
  split at hs
  next selected herror =>
    cases hs
    rwa [herror] at h
  next best' hok =>
    rw [hok] at h
    exact hPQ best' h s hs

/-- **What the algorithm returns** are some of the coins that reach the target. -/
theorem knapsack_reaches {bits : ℕ → ℕ → Bool} {best : ℕ} (hnodup : coins.Nodup) {s : Finset Coin}
    (hs : knapsackCoinAlgorithm bits coins target best limit = some s) : Reaches target coins s :=
  knapsack_gives (fun i _ hbest => round_reaches target limit (bits i) hnodup hbest) nofun
    (fun _ hb s hs => hb s hs) hs

/-- **Exactly which coins can be selected one too many** by the algorithm.

**Proof sketch.** If no round can overfill with the first best sum, none can later. If one can, its bits are used in each round:
the rounds after the first one find nothing. -/
theorem exists_knapsack_card_iff {best : ℕ} (hnodup : coins.Nodup) (hpos : 0 < target) :
    (∃ bits s, knapsackCoinAlgorithm bits coins target best limit = some s ∧ limit < s.card) ↔
      Overfillable target limit best coins := by
  constructor
  · rintro ⟨bits, s, hs, hcard⟩
    by_contra h
    have hle : s.card ≤ limit := knapsack_gives
      (P := fun b => (∀ s, b.2 = some s → s.card ≤ limit) ∧ b.1 ≤ best) (Q := fun s => s.card ≤ limit)
      (fun i b hb => (round_limited (bits i) hnodup hpos hb.1 fun hover => h (hover.mono hb.2)).imp
        (fun b' hb' => ⟨hb'.1, hb'.2.trans hb.2⟩) fun _ => id)
      ⟨nofun, le_rfl⟩ (fun b hb s hs => hb.1 s hs) hs
    omega
  · intro h
    obtain ⟨bits, hfirst⟩ := @round_of_overfillable target limit coins hnodup (best, none) h
    obtain ⟨is, hrange⟩ : ∃ is, List.range 1000 = 0 :: is := ⟨_, List.range_succ_eq_map⟩
    refine ⟨fun _ => bits, ?_⟩
    unfold knapsackCoinAlgorithm
    rw [hrange, rounds]
    cases hround : round target limit bits coins (best, none) with
    | error s =>
      rw [hround] at hfirst
      have hcard : s.card = limit + 1 := hfirst
      exact ⟨s, rfl, by omega⟩
    | ok best' =>
      rw [hround] at hfirst
      obtain ⟨s, hs, hcard⟩ := hfirst
      have hagain := round_again bits hnodup hpos hround
      have hrest : ∀ is, rounds target limit (fun _ => bits) coins is best' = .ok best' := by
        intro is
        induction is with
        | nil => rfl
        | cons i is ih => rw [rounds, hagain, ExceptRun.ok_bind, ih]
      rw [ExceptRun.ok_bind, hrest is]
      exact ⟨s, hs, by omega⟩

/-! ## Large best sums -/

lemma Overfills.exists_sublist {sum best count : ℕ} (hsum : sum < target)
    (h : Overfills target limit sum best count tried) : ∃ filling last, (filling ++ [last]).Sublist tried ∧
      count + filling.length = limit ∧ sum + total filling < target ∧ target ≤ sum + total filling + last.amount := by
  induction tried generalizing sum best count with
  | nil => exact h.elim
  | cons coin tried ih =>
    unfold Overfills at h
    split at h
    next hlt =>
      obtain ⟨filling, last, hsub, hlength, hless, hge⟩ := ih hlt h.2
      refine ⟨coin :: filling, last, hsub.cons_cons coin, ?_, ?_, ?_⟩
      · rw [List.length_cons]
        omega
      · rw [total_cons]
        omega
      · rw [total_cons]
        omega
    next hge =>
      split at h
      next hcount =>
        exact ⟨[], coin, by simp, by simpa using hcount, by simpa using hsum, by simpa using hge⟩
      next =>
        obtain ⟨filling, last, hsub, hrest⟩ := ih hsum h.2.2.2
        exact ⟨filling, last, hsub.cons coin, hrest⟩

lemma Overfillable.exists_subperm {best : ℕ} (hpos : 0 < target) (hnodup : coins.Nodup)
    (h : Overfillable target limit best coins) : ∃ filling last, (filling ++ [last]).Subperm coins ∧
      filling.length = limit ∧ total filling < target ∧ target ≤ total filling + last.amount := by
  obtain ⟨first, hfirst, h | ⟨hlt, h⟩⟩ := h
  · obtain ⟨filling, last, hsub, hlength, hless, hge⟩ := h.exists_sublist hpos
    exact ⟨filling, last, (hsub.trans hfirst).subperm, by omega, by omega, by omega⟩
  · obtain ⟨filling, last, hsub, hlength, hless, hge⟩ := h.exists_sublist hlt
    refine ⟨first ++ filling, last, ?_, ?_, ?_, ?_⟩
    · have hrest : (coins.filter fun coin => coin ∉ first).Nodup := hnodup.filter _
      rw [List.append_assoc]
      apply List.Nodup.subperm
      · refine (hnodup.sublist hfirst).append (hrest.sublist hsub) fun c hc hc' => ?_
        exact of_decide_eq_true (List.mem_filter.mp (hsub.subset hc')).2 hc
      · intro c hc
        rcases List.mem_append.mp hc with hc | hc
        · exact hfirst.subset hc
        · exact List.mem_of_mem_filter (hsub.subset hc)
    · rw [List.length_append]
      omega
    · rw [total_append]
      omega
    · rw [total_append]
      omega

lemma subperm_amounts (h : tried.Subperm coins) : (tried.map Coin.amount).Subperm (coins.map Coin.amount) := by
  obtain ⟨m, hperm, hsub⟩ := h
  exact ⟨m.map Coin.amount, hperm.map Coin.amount, hsub.map Coin.amount⟩

/-- **Which coins can be selected one too many** where no set of them is as large as the first best sum: the smallest coins
that fill the limit do not reach the target, and the largest ones with one coin more do.

**Proof sketch.** From the largest coin and the window of coins that it completes: the window is chosen in the first pass, and the
second one begins with the largest coin. -/
lemma overfillable_iff {best : ℕ} (hpos : 0 < target) (hnodup : coins.Nodup) (hsorted : Descending coins)
    (hbest : total coins < best) : Overfillable target limit best coins ↔
      limit < coins.length ∧ total (coins.drop (coins.length - limit)) < target ∧
        target ≤ total (coins.take (limit + 1)) := by
  constructor
  · intro h
    obtain ⟨filling, last, hsub, hlength, hless, hge⟩ := h.exists_subperm hpos hnodup
    have hcount := hsub.length_le
    rw [List.length_append, hlength, List.length_singleton] at hcount
    have hfilling : filling.Subperm coins := (List.sublist_append_left filling [last]).subperm.trans hsub
    have hlast := SortedSums.sum_drop_le_sum (k := limit) hsorted.amounts (subperm_amounts hfilling) (by simp [hlength])
    have hfirst := SortedSums.sum_le_sum_take (k := limit + 1) hsorted.amounts (subperm_amounts hsub) (by simp [hlength])
    rw [List.length_map, ← List.map_drop] at hlast
    rw [← List.map_take] at hfirst
    have htotal : total (filling ++ [last]) = total filling + last.amount := by simp
    refine ⟨by omega, lt_of_le_of_lt hlast hless, ?_⟩
    calc target ≤ total filling + last.amount := hge
      _ = total (filling ++ [last]) := htotal.symm
      _ ≤ total (coins.take (limit + 1)) := hfirst
  · rintro ⟨hcount, hlast, hfirst⟩
    cases coins with
    | nil => simp at hcount
    | cons coin rest =>
      rw [List.length_cons] at hcount hlast
      have hle : limit ≤ rest.length := by omega
      rw [Nat.succ_sub hle, List.drop_succ_cons] at hlast
      rw [List.take_succ_cons, total_cons] at hfirst
      obtain ⟨before, window, after, hsplit, hlength, hless, hge⟩ :=
        SortedSums.exists_window (List.pairwise_cons.mp hsorted).1 hle hlast hfirst
      have hsub : window.Sublist rest := by
        rw [hsplit, List.append_assoc]
        exact (List.sublist_append_left window after).trans (List.sublist_append_right before _)
      have hnot : coin ∉ window := fun hmem => (List.nodup_cons.mp hnodup).1 (hsub.subset hmem)
      have hmore : total window + coin.amount ≤ total (coin :: rest) := by
        have hle := (hsub.map Coin.amount).sum_le_sum fun _ _ => Nat.zero_le _
        rw [total_cons, Nat.add_comm]
        exact Nat.add_le_add_left hle _
      refine ⟨window, hsub.cons coin, .inr ⟨hless, ?_⟩⟩
      rw [List.filter_cons_of_pos (by simpa using hnot)]
      have hge : target ≤ coin.amount + total window := hge
      unfold Overfills
      rw [if_neg (by omega), if_pos hlength]
      exact .inr (by omega)

end Passes

/-! ## Soundness -/

section Soundness

variable {sha256 : Bytes → Bytes32} {bits : ℕ → ℕ → Bool} {sorted : List Coin} {amount target : ℕ} {r : Request}
  {s : Finset Coin}

lemma reaches_singleton {c : Coin} (hc : c ∈ sorted) (hle : target ≤ c.amount) : Reaches target sorted {c} := by
  refine ⟨fun d hd => ?_, ?_⟩
  · rw [Finset.mem_singleton] at hd
    rwa [hd]
  · rwa [Finset.sum_singleton]

lemma selectSmallest_eq_ok {c : Coin} (h : selectSmallestCoinOverTarget target sorted = .ok (some c)) :
    c ∈ sorted ∧ target ≤ c.amount := by
  cases sorted with
  | nil => cases h
  | cons first rest =>
    change (if first.amount < target then pure none else _ : Except PyError (Option Coin)) = .ok (some c) at h
    split at h
    · cases h
    · split at h
      next coin hfind =>
        cases h
        have htrue := List.find?_some hfind
        exact ⟨List.mem_reverse.mp (List.mem_of_find?_eq_some hfind), of_decide_eq_true htrue⟩
      next => cases h

lemma greaterCoin_eq_ok (h : greaterCoin target sorted = .ok s) : ∃ c ∈ sorted, target ≤ c.amount ∧ s = {c} := by
  unfold greaterCoin at h
  obtain ⟨_ | coin, hcoin, h⟩ := ExceptRun.bind_eq_ok.mp h
  · cases h
  · cases h
    obtain ⟨hmem, hle⟩ := selectSmallest_eq_ok hcoin
    exact ⟨coin, hmem, hle, rfl⟩

/-- The coins that are smaller than an amount. -/
def smallerThan (amount : ℕ) (coins : List Coin) : List Coin := coins.filter fun c => c.amount < amount

lemma reaches_of_smallerThan (h : Reaches target (smallerThan amount sorted) s) : Reaches target sorted s :=
  ⟨fun c hc => List.mem_of_mem_filter (h.1 c hc), h.2⟩

lemma sumLargestCoins_reaches (hpos : 0 < target) (hnodup : sorted.Nodup) (hle : target ≤ total sorted)
    (h : sumLargestCoins target sorted = some s) : Reaches target sorted s := by
  obtain ⟨before, c, after, hsplit, -, hge, hsome⟩ := exists_sumLargestCoins hpos hle
  have hselected : insert c before.toFinset = s := Option.some.inj (hsome.symm.trans h)
  have hset : s = (before ++ [c]).toFinset := by
    rw [← hselected]
    ext d
    simp
  have hsub : (before ++ [c]).Sublist sorted := by
    rw [hsplit]
    exact List.Sublist.append_left (by simp) before
  refine ⟨fun d hd => ?_, ?_⟩
  · rw [hset, List.mem_toFinset] at hd
    exact hsub.subset hd
  · rw [hset, sum_toFinset (hnodup.sublist hsub)]
    simpa using hge

/-- **What the strategies select** reaches the amount, and only the knapsack algorithm selects too many coins. -/
lemma selectSeveral_eq_ok {maxCoinAmount : ℕ} (hnodup : sorted.Nodup)
    (h : selectSeveral bits amount maxCoinAmount sorted = .ok s) : Reaches amount sorted s ∧
      (s.card ≤ maxNumCoins ∨ amount < total (smallerThan amount sorted) ∧
        knapsackCoinAlgorithm bits (smallerThan amount sorted) amount maxCoinAmount maxNumCoins = some s) := by
  have hsmaller : (smallerThan amount sorted).Nodup := hnodup.filter _
  have hgreater : greaterCoin amount sorted = .ok s → Reaches amount sorted s ∧ s.card ≤ maxNumCoins := by
    intro h
    obtain ⟨c, hc, hle, rfl⟩ := greaterCoin_eq_ok h
    exact ⟨reaches_singleton hc hle, by simp [maxNumCoins]⟩
  unfold selectSeveral at h
  have hfold : sorted.filter (fun c => c.amount < amount) = smallerThan amount sorted := rfl
  dsimp only at h
  rw [hfold] at h
  split at h
  next hexact =>
    cases h
    refine ⟨reaches_of_smallerThan ⟨fun c hc => List.mem_toFinset.mp hc, ?_⟩, .inl ?_⟩
    · exact ((sum_toFinset hsmaller).trans hexact.1).ge
    · exact (List.toFinset_card_le _).trans hexact.2.le
  next =>
    split at h
    next =>
      obtain ⟨_ | coin, hcoin, h⟩ := ExceptRun.bind_eq_ok.mp h
      · cases h
      · cases h
        obtain ⟨hmem, hle⟩ := selectSmallest_eq_ok hcoin
        exact ⟨reaches_singleton hmem hle, .inl (by simp [maxNumCoins])⟩
    next =>
      split at h
      next hmore =>
        split at h
        next selected hknapsack =>
          cases h
          exact ⟨reaches_of_smallerThan (knapsack_reaches hsmaller hknapsack), .inr ⟨hmore, hknapsack⟩⟩
        next =>
          split at h
          next selected hlargest =>
            split at h
            next => exact (hgreater h).imp_right .inl
            next hcard =>
              cases h
              refine ⟨?_, .inl (Nat.not_lt.mp hcard)⟩
              have hpos : 0 < amount := by
                by_contra hzero
                simp [smallerThan, show amount = 0 by omega] at hmore
              exact reaches_of_smallerThan (sumLargestCoins_reaches hpos hsmaller hmore.le hlargest)
          next => exact (hgreater h).imp_right .inl
      next => exact (hgreater h).imp_right .inl

variable (sha256)

/-- **Soundness** for a request: what the selection returns are eligible coins that have the amount together, and at most
`max_num_coins` of them, whatever the random bits are. -/
def Sound (r : Request) : Prop :=
  ∀ bits s, selectCoins sha256 bits r = .ok s →
    (∀ c ∈ s, r.Eligible sha256 c) ∧ r.amount ≤ ∑ c ∈ s, c.amount ∧ s.card ≤ maxNumCoins

/-- The `smaller_coins` of `select_coins`: the eligible coins that are smaller than the amount, the largest one first. -/
def Request.smallerCoins (r : Request) : List Coin :=
  smallerThan r.amount (sortByAmount (r.validSpendableCoins sha256))

/-- The knapsack algorithm is used: no coin has exactly the amount, and the smaller coins have more. -/
structure Request.KnapsackUsed (r : Request) : Prop where
  spendable : r.amount ≤ r.spendableAmount
  lt : r.amount < 2 ^ 64
  ne : ∀ c ∈ r.validSpendableCoins sha256, c.amount ≠ r.amount
  more : r.amount < total (r.smallerCoins sha256)

variable {sha256}

lemma selectCoins_of_knapsackUsed (h : r.KnapsackUsed sha256)
    (hknapsack : knapsackCoinAlgorithm bits (r.smallerCoins sha256) r.amount r.maxCoinAmount maxNumCoins = some s) :
    selectCoins sha256 bits r = .ok s := by
  have hmore := h.more
  have htotal : total (r.smallerCoins sha256) ≤ total (r.validSpendableCoins sha256) := by
    rw [← total_perm (sortByAmount_perm (r.validSpendableCoins sha256))]
    exact total_filter_le _ _
  have hmatch : checkForExactMatch (sortByAmount (r.validSpendableCoins sha256)) r.amount = none := by
    refine List.find?_eq_none.mpr fun c hc => ?_
    rw [decide_eq_true_eq]
    exact h.ne c (mem_sortByAmount.mp hc)
  unfold selectCoins
  have hamount : uint64 r.amount = .ok r.amount := uintN_eq_ok.mpr ⟨rfl, h.lt⟩
  rw [if_neg (Nat.not_lt.mpr h.spendable), if_neg (by omega), hamount]
  rw [ExceptRun.ok_bind, hmatch]
  have hfold : (sortByAmount (r.validSpendableCoins sha256)).filter (fun c => c.amount < r.amount) =
      r.smallerCoins sha256 := rfl
  unfold selectSeveral
  rw [hfold, if_neg (by omega), if_neg (by omega), if_pos hmore, hknapsack]
  rfl

/-- **What the selection returns** are eligible coins that have the amount; there are too many only from the knapsack
algorithm. -/
lemma selectCoins_eq_ok (hnodup : (r.spendableCoins.map WalletCoinRecord.coin).Nodup)
    (h : selectCoins sha256 bits r = .ok s) : Reaches r.amount (r.validSpendableCoins sha256) s ∧
      (s.card ≤ maxNumCoins ∨ r.KnapsackUsed sha256 ∧
        knapsackCoinAlgorithm bits (r.smallerCoins sha256) r.amount r.maxCoinAmount maxNumCoins = some s) := by
  unfold selectCoins at h
  split at h
  · cases h
  next hspendable =>
  split at h
  · cases h
  next =>
  obtain ⟨amount, hamount, h⟩ := ExceptRun.bind_eq_ok.mp h
  obtain ⟨hnat, hlt⟩ := uintN_eq_ok.mp hamount
  obtain rfl : r.amount = amount := by exact_mod_cast hnat
  split at h
  next coin hmatch =>
    cases h
    obtain ⟨hmem, heq⟩ := checkForExactMatch_eq_some hmatch
    exact ⟨reaches_singleton (mem_sortByAmount.mp hmem) heq.ge, .inl (by simp [maxNumCoins])⟩
  next hmatch =>
    have hsorted : (sortByAmount (r.validSpendableCoins sha256)).Nodup :=
      (sortByAmount_perm _).nodup_iff.mpr (hnodup.filter _)
    obtain ⟨⟨hmem, hle⟩, hcard⟩ := selectSeveral_eq_ok hsorted h
    refine ⟨⟨fun c hc => mem_sortByAmount.mp (hmem c hc), hle⟩, hcard.imp_right fun ⟨hmore, hknapsack⟩ => ?_⟩
    refine ⟨⟨by omega, hlt, fun c hc heq => ?_, hmore⟩, hknapsack⟩
    have hnone := List.find?_eq_none.mp hmatch c (mem_sortByAmount.mpr hc)
    exact hnone (decide_eq_true heq)

/-- **Exactly when the selection is sound**, for distinct coins: the knapsack algorithm is not used, or it cannot complete a set
of one coin more than `max_num_coins`. Where the smaller coins have less than `max_coin_amount` together, it can exactly if
their smallest `max_num_coins` coins have less than the amount, and one coin more of the largest ones has it. -/
theorem sound_iff (sha256 : Bytes → Bytes32) (r : Request)
    (hnodup : (r.spendableCoins.map WalletCoinRecord.coin).Nodup) :
    (Sound sha256 r ↔ ¬ (r.KnapsackUsed sha256 ∧
      Overfillable r.amount maxNumCoins r.maxCoinAmount (r.smallerCoins sha256))) ∧
    (total (r.smallerCoins sha256) < r.maxCoinAmount →
      (Overfillable r.amount maxNumCoins r.maxCoinAmount (r.smallerCoins sha256) ↔
        maxNumCoins < (r.smallerCoins sha256).length ∧
          total ((r.smallerCoins sha256).drop ((r.smallerCoins sha256).length - maxNumCoins)) < r.amount ∧
          r.amount ≤ total ((r.smallerCoins sha256).take (maxNumCoins + 1)))) := by
  have hsmaller : (r.smallerCoins sha256).Nodup :=
    ((sortByAmount_perm _).nodup_iff.mpr (hnodup.filter _)).filter _
  have hpos : r.KnapsackUsed sha256 → 0 < r.amount := fun h => by
    by_contra hzero
    have hmore := h.more
    simp [Request.smallerCoins, smallerThan, show r.amount = 0 by omega] at hmore
  refine ⟨⟨fun h => ?_, fun h bits s hs => ?_⟩, fun hbest => ?_⟩
  · rintro ⟨hused, hover⟩
    obtain ⟨bits, s, hs, hcard⟩ := (exists_knapsack_card_iff hsmaller (hpos hused)).mpr hover
    have hle := (h bits s (selectCoins_of_knapsackUsed hused hs)).2.2
    omega
  · obtain ⟨⟨hmem, hle⟩, hcard⟩ := selectCoins_eq_ok hnodup hs
    refine ⟨fun c hc => mem_validSpendableCoins.mp (hmem c hc), hle, ?_⟩
    rcases hcard with hcard | ⟨hused, hknapsack⟩
    · exact hcard
    · by_contra hmany
      exact h ⟨hused, (exists_knapsack_card_iff hsmaller (hpos hused)).mp ⟨bits, s, hknapsack, by omega⟩⟩
  · rcases Nat.eq_zero_or_pos r.amount with hzero | hpos
    · have hempty : r.smallerCoins sha256 = [] := by simp [Request.smallerCoins, smallerThan, hzero]
      simp [hempty, Overfillable, Overfills]
    · exact overfillable_iff hpos hsmaller ((descending_sortByAmount _).sublist List.filter_sublist) hbest

lemma total_of_units (h : ∀ c ∈ sorted, c.amount = 1) : total sorted = sorted.length := by
  induction sorted with
  | nil => rfl
  | cons c sorted ih =>
    rw [total_cons, List.length_cons, h c List.mem_cons_self, ih fun d hd => h d (List.mem_cons_of_mem c hd)]
    omega

lemma smallerCoins_unitRequest (sha256 : Bytes → Bytes32) {count amount : ℕ} (hamount : 1 < amount) :
    ((unitRequest count amount).smallerCoins sha256).length = count ∧
      ∀ c ∈ (unitRequest count amount).smallerCoins sha256, c.amount = 1 := by
  have hunit : ∀ c ∈ sortByAmount ((List.range count).map (sampleCoin 1)), c.amount = 1 := by
    intro c hc
    obtain ⟨n, -, rfl⟩ := List.mem_map.mp (mem_sortByAmount.mp hc)
    rfl
  have hall : (unitRequest count amount).smallerCoins sha256 = sortByAmount ((List.range count).map (sampleCoin 1)) := by
    unfold Request.smallerCoins smallerThan
    rw [validSpendableCoins_unitRequest, List.filter_eq_self]
    intro c hc
    rw [hunit c hc]
    exact decide_eq_true hamount
  rw [hall]
  exact ⟨by rw [(sortByAmount_perm _).length_eq]; simp, hunit⟩

lemma nodup_unitRequest {count : ℕ} (amount : ℕ) (hcount : count ≤ 1000) :
    ((unitRequest count amount).spendableCoins.map WalletCoinRecord.coin).Nodup := by
  unfold unitRequest
  rw [List.map_map]
  exact nodup_units hcount

/-- Three coins of 1 for an amount of 2. -/
theorem sound_iff_threeUnits : Sound (fun _ => Bytes32.zero) (unitRequest 3 2) := by
  obtain ⟨hlength, hunit⟩ := @smallerCoins_unitRequest (fun _ => Bytes32.zero) 3 2 (by norm_num)
  have hiff := sound_iff (fun _ => Bytes32.zero) (unitRequest 3 2) (nodup_unitRequest 2 (by norm_num))
  refine hiff.1.mpr ?_
  rintro ⟨-, hover⟩
  have hmax : (unitRequest 3 2).maxCoinAmount = 2 ^ 64 - 1 := rfl
  have hmany := ((hiff.2 (by rw [total_of_units hunit, hlength, hmax]; norm_num)).mp hover).1
  rw [hlength] at hmany
  exact absurd hmany (by decide)

/-- **501 coins are selected** for an amount of 501 from 502 coins of 1. -/
theorem not_sound : ¬ ∀ (sha256 : Bytes → Bytes32) (r : Request),
    (r.spendableCoins.map WalletCoinRecord.coin).Nodup → Sound sha256 r := by
  intro h
  have hnodup := nodup_unitRequest 501 (show 502 ≤ 1000 by norm_num)
  obtain ⟨hlength, hunit⟩ := @smallerCoins_unitRequest (fun _ => Bytes32.zero) 502 501 (by norm_num)
  have hsmaller : ((unitRequest 502 501).smallerCoins fun _ => Bytes32.zero).Nodup :=
    ((sortByAmount_perm _).nodup_iff.mpr (hnodup.filter _)).filter _
  have hsorted : Descending ((unitRequest 502 501).smallerCoins fun _ => Bytes32.zero) :=
    (descending_sortByAmount _).sublist List.filter_sublist
  have hover : Overfillable 501 maxNumCoins (2 ^ 64 - 1) ((unitRequest 502 501).smallerCoins fun _ => Bytes32.zero) := by
    refine (overfillable_iff (by norm_num) hsmaller hsorted ?_).mpr ⟨?_, ?_, ?_⟩
    · rw [total_of_units hunit, hlength]
      norm_num
    · rw [hlength]
      decide
    · rw [total_of_units fun c hc => hunit c (List.mem_of_mem_drop hc), List.length_drop, hlength]
      decide
    · rw [total_of_units fun c hc => hunit c (List.mem_of_mem_take hc), List.length_take, hlength]
      decide
  have hused : (unitRequest 502 501).KnapsackUsed fun _ => Bytes32.zero := by
    refine ⟨by decide, by decide, fun c hc => ?_, ?_⟩
    · rw [validSpendableCoins_unitRequest] at hc
      obtain ⟨n, -, rfl⟩ := List.mem_map.mp hc
      show 1 ≠ 501
      norm_num
    · rw [total_of_units hunit, hlength]
      show 501 < 502
      norm_num
  obtain ⟨bits, s, hs, hcard⟩ := (exists_knapsack_card_iff hsmaller (by norm_num)).mpr hover
  have hle := (h _ _ hnodup bits s (selectCoins_of_knapsackUsed hused hs)).2.2
  omega

end Soundness

end CoinSelection

end Chives
