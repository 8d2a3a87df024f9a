import Chives.Library.ExceptRun
import Chives.Library.OrderedDict
import Chives.Masternode.MasternodeManager

set_option autoImplicit false

/-!
# Rewards of masternodes

`masternode_rewards_send` of `masternode/masternode_manager.py`: the masternodes that are online share 8640 units a day.
Each has a weight, and what an address is paid follows from the weights.

## Main definitions

* `Masternode.masternodeRewardsSend` — the payments of a day.
* `Masternode.SharesStakes` — payments in proportion to the weights.

## Main results

* `Masternode.sharesStakes_iff` — when the payments are in proportion.
* `Masternode.not_sharesStakes` — an address with two masternodes is paid for one of them only.

## Design

The weights of an address overwrite one another in the dictionary, while all of them count in the sum. Decimal factors
are exact; weights and payments are rounded down as in the source. A payment is listed with the address it is for, under
which the source saves its amount.
-/

namespace Chives

namespace Masternode

/-- What is read of an entry of `get_all_masternodes`. -/
structure Staking where
  receivedAddress : String
  stakingAmount : ℕ
  stakingPeriod : String

/-- An element of `primaries`, and the address that it is for. -/
structure Payment where
  receivedAddress : String
  puzzleHash : Bytes32
  amount : ℕ
  deriving DecidableEq

/-- `int` of a text, and `decode_puzzle_hash`; `none` for a text that they do not accept. -/
structure Parsers where
  int : String → Option ℤ
  decodePuzzleHash : String → Option Bytes32

/-- `mojo_per_unit`. -/
def mojoPerUnit : ℕ := 100000000

/-- `StakingAmountAddition`, in hundredths. -/
def stakingAmountAddition : ℕ → Option ℕ
  | 100000 => some 100
  | 300000 => some 110
  | 500000 => some 121
  | 1000000 => some 133
  | _ => none

/-- `AddressToStakingAmountAddition[ReceivedAddress]`, as it is computed for a masternode. -/
def weight (stakingAmount : ℕ) (stakingPeriod : ℤ) : Option ℕ :=
  (stakingAmountAddition stakingAmount).map fun addition =>
    if stakingPeriod = 2 then stakingAmount * addition * 11 / 1000 else stakingAmount * addition / 100

section Rewards

variable (parsers : Parsers) (online : List String)

/-- A masternode in the loop over `nfts`, with `AddressToStakingAmountAddition` and
`AddressToStakingAmountAdditionSum`. -/
def addMasternode (acc : OrderedDict String ℕ × ℕ) (nft : Staking) : Option (OrderedDict String ℕ × ℕ) :=
  if nft.receivedAddress ∈ online then do
    let stakingPeriod ← parsers.int nft.stakingPeriod
    if stakingPeriod > 0 then
      let amountAddition ← weight (nft.stakingAmount / mojoPerUnit) stakingPeriod
      some (acc.1.set nft.receivedAddress amountAddition, acc.2 + amountAddition)
    else some acc
  else some acc

/-- The payment of an address. -/
def payment (sum : ℕ) (entry : String × ℕ) : Option Payment := do
  let shouldToBeSendAmount := 8640 * entry.2 * 100 / sum
  let puzzleHash ← parsers.decodePuzzleHash entry.1
  some ⟨entry.1, puzzleHash, shouldToBeSendAmount * mojoPerUnit / 100⟩

/-- `masternode_rewards_send`: its payments, unless it raises an exception before they are sent. -/
def masternodeRewardsSend (nfts : List Staking) : Option (List Payment) := do
  let (additions, sum) ← nfts.foldlM (addMasternode parsers online) (.empty, 0)
  if sum > 0 then additions.entries.mapM (payment parsers sum) else some []

/-! ## Shares -/

/-- The address and the weight of a masternode that counts. -/
def countedAs (nft : Staking) : Option (String × ℕ) :=
  if nft.receivedAddress ∈ online then
    ((parsers.int nft.stakingPeriod).filter (· > 0)).bind fun stakingPeriod =>
      (weight (nft.stakingAmount / mojoPerUnit) stakingPeriod).map (nft.receivedAddress, ·)
  else none

/-- The addresses and weights of the masternodes that count. -/
def counted (nfts : List Staking) : List (String × ℕ) := nfts.filterMap (countedAs parsers online)

variable (l : List (String × ℕ))

/-- The sum of all weights. -/
def totalWeight : ℕ := (l.map Prod.snd).sum

/-- The sum of the weights of an address. -/
def weightOf (address : String) : ℕ := totalWeight (l.filter fun e => e.1 = address)

/-- The last weight of an address. -/
def lastWeight (address : String) : ℕ := (Assoc.lookup l.reverse address).getD 0

/-- A share of 8640 units, in hundredths. -/
def share (weight : ℕ) : ℕ := 864000 * weight / totalWeight l

/-- **Payments in proportion to the stakes**: one for each address that counts, of its share, and all of them make up
8640 units but for less than a hundredth each. -/
def SharesStakes (nfts : List Staking) : Prop :=
  ∃ payments, masternodeRewardsSend parsers online nfts = some payments ∧
    (payments.map Payment.receivedAddress).Nodup ∧
    (∀ address, address ∈ payments.map Payment.receivedAddress ↔
      address ∈ (counted parsers online nfts).map Prod.fst) ∧
    (∀ p ∈ payments, parsers.decodePuzzleHash p.receivedAddress = some p.puzzleHash ∧
      p.amount = share (counted parsers online nfts) (weightOf (counted parsers online nfts) p.receivedAddress) *
        (mojoPerUnit / 100)) ∧
    (payments.map Payment.amount).sum ≤ 8640 * mojoPerUnit ∧
    (counted parsers online nfts ≠ [] →
      8640 * mojoPerUnit < (payments.map Payment.amount).sum + payments.length * (mojoPerUnit / 100))

/-- The staking periods of the masternodes that are online are numbers; and the addresses that count can be decoded, and
have the same share by their last masternode as by all. -/
structure Separate (nfts : List Staking) : Prop where
  periods : ∀ nft ∈ nfts, nft.receivedAddress ∈ online → (parsers.int nft.stakingPeriod).isSome
  addresses : ∀ address ∈ (counted parsers online nfts).map Prod.fst, (parsers.decodePuzzleHash address).isSome ∧
    share (counted parsers online nfts) (lastWeight (counted parsers online nfts) address) =
      share (counted parsers online nfts) (weightOf (counted parsers online nfts) address)

variable {parsers online} {nfts : List Staking}

lemma foldlM_addMasternode (hallowed : ∀ nft ∈ nfts, nft.stakingAmount / mojoPerUnit ∈ allowStakingAmount)
    (acc acc' : OrderedDict String ℕ × ℕ) : nfts.foldlM (addMasternode parsers online) acc = some acc' ↔
      (∀ nft ∈ nfts, nft.receivedAddress ∈ online → (parsers.int nft.stakingPeriod).isSome) ∧
        (counted parsers online nfts).foldl (fun acc e => (acc.1.set e.1 e.2, acc.2 + e.2)) acc = acc' := by
  induction nfts generalizing acc with
  | nil => simp [counted]
  | cons nft nfts ih =>
    rw [List.forall_mem_cons] at hallowed
    obtain ⟨w, hw⟩ : ∃ w, stakingAmountAddition (nft.stakingAmount / mojoPerUnit) = some w := by
      have hmem := hallowed.1
      simp only [allowStakingAmount, List.mem_cons, List.not_mem_nil, or_false] at hmem
      rcases hmem with h | h | h | h <;> exact ⟨_, by rw [h]; rfl⟩
    rw [List.foldlM_cons, Option.bind_eq_bind, addMasternode, List.forall_mem_cons, counted, List.filterMap_cons,
      countedAs]
    by_cases honline : nft.receivedAddress ∈ online
    · cases hperiod : parsers.int nft.stakingPeriod with
      | none => simp [honline]
      | some period =>
        by_cases hpos : period > 0
        · simp [honline, hpos, weight, hw, ih hallowed.2, counted, Option.filter]
        · simp [honline, hpos, ih hallowed.2, counted, Option.filter]
    · simp [honline, ih hallowed.2, counted]

/-- `AddressToStakingAmountAddition` after the loop. -/
def additions : OrderedDict String ℕ := l.foldl (fun d e => d.set e.1 e.2) .empty

lemma get?_additions (address : String) : (additions l).get? address = Assoc.lookup l.reverse address := by
  have hfold : ∀ d : OrderedDict String ℕ, (l.foldl (fun d e => d.set e.1 e.2) d).get? address =
      (Assoc.lookup l.reverse address).or (d.get? address) := by
    induction l with
    | nil => exact fun d => rfl
    | cons e l ih =>
      intro d
      rw [List.foldl_cons, ih, OrderedDict.get?_set, List.reverse_cons, Assoc.lookup_append, Assoc.lookup_cons]
      by_cases he : address = e.1
      · rw [if_pos he, if_pos he.symm, Option.or_assoc, Option.some_or]
      · rw [if_neg he, if_neg (Ne.symm he), Option.or_assoc, Assoc.lookup_nil, Option.none_or]
  rw [additions, hfold, OrderedDict.get?_empty, Option.or_none]

lemma foldl_add (acc : OrderedDict String ℕ × ℕ) :
    l.foldl (fun acc e => (acc.1.set e.1 e.2, acc.2 + e.2)) acc =
      (l.foldl (fun d e => d.set e.1 e.2) acc.1, acc.2 + totalWeight l) := by
  induction l generalizing acc with
  | nil => rfl
  | cons e l ih =>
    rw [List.foldl_cons, ih, totalWeight, totalWeight, List.map_cons, List.sum_cons, Nat.add_assoc]
    rfl

lemma sum_weightOf {addresses : List String} (hnodup : addresses.Nodup) (h : ∀ e ∈ l, e.1 ∈ addresses) :
    (addresses.map (weightOf l)).sum = totalWeight l := by
  induction l with
  | nil =>
    have hzero : weightOf [] = fun _ => 0 := rfl
    simp [hzero, totalWeight]
  | cons e l ih =>
    rw [List.forall_mem_cons] at h
    have hcons : ∀ a, weightOf (e :: l) a = (if a = e.1 then e.2 else 0) + weightOf l a := by
      intro a
      by_cases ha : a = e.1
      · simp [weightOf, totalWeight, ha]
      · simp [weightOf, totalWeight, ha, Ne.symm ha]
    rw [List.map_congr_left fun a _ => hcons a, List.sum_map_add, ih h.2,
      List.sum_map_eq_nsmul_single e.1 _ fun a ha _ => if_neg ha, List.count_eq_one_of_mem hnodup h.1, one_smul,
      if_pos rfl]
    simp [totalWeight]

lemma sum_rounded (xs : List ℕ) (n : ℕ) {W : ℕ} (hW : 0 < W) :
    (xs.map fun x => n * x / W).sum * W ≤ n * xs.sum ∧
      n * xs.sum + xs.length ≤ ((xs.map fun x => n * x / W).sum + xs.length) * W := by
  induction xs with
  | nil => simp
  | cons x xs ih =>
    have hle := Nat.div_mul_le_self (n * x) W
    have hlt := Nat.lt_div_mul_add (a := n * x) hW
    simp only [List.map_cons, List.sum_cons, List.length_cons]
    constructor <;> nlinarith [ih.1, ih.2]

lemma weight_pos {amount w : ℕ} {period : ℤ} (h : weight amount period = some w) : 0 < w := by
  obtain ⟨addition, haddition, rfl⟩ := Option.map_eq_some_iff.mp h
  unfold stakingAmountAddition at haddition
  split at haddition <;> cases haddition <;> split <;> decide

lemma totalWeight_pos (h : counted parsers online nfts ≠ []) : 0 < totalWeight (counted parsers online nfts) := by
  obtain ⟨e, he⟩ := List.exists_mem_of_ne_nil _ h
  have hle := List.single_le_sum (fun _ _ => Nat.zero_le _) _ (List.mem_map_of_mem (f := Prod.snd) he)
  obtain ⟨nft, -, he⟩ := List.mem_filterMap.mp he
  rw [countedAs] at he
  split at he
  · obtain ⟨period, -, he⟩ := Option.bind_eq_some_iff.mp he
    obtain ⟨w, hw, rfl⟩ := Option.map_eq_some_iff.mp he
    exact (weight_pos hw).trans_le hle
  · cases he

lemma mem_additions {address : String} :
    address ∈ (additions l).entries.map Prod.fst ↔ address ∈ l.map Prod.fst := by
  rw [← not_iff_not, ← Assoc.lookup_eq_none, ← OrderedDict.get?, get?_additions, Assoc.lookup_eq_none,
    List.map_reverse, List.mem_reverse]

/-- The payments of the dictionary: the last weight of an address decides. -/
lemma payments_spec {payments : List Payment}
    (h : (additions l).entries.mapM (payment parsers (totalWeight l)) = some payments) :
    payments.map Payment.receivedAddress = (additions l).entries.map Prod.fst ∧
      ∀ p ∈ payments, parsers.decodePuzzleHash p.receivedAddress = some p.puzzleHash ∧
        p.amount = share l (lastWeight l p.receivedAddress) * (mojoPerUnit / 100) := by
  have hmap := ExceptRun.mapM_eq_some_iff.mp h
  have hpayment : ∀ {e p}, payment parsers (totalWeight l) e = some p → p.receivedAddress = e.1 ∧
      parsers.decodePuzzleHash e.1 = some p.puzzleHash ∧ p.amount = share l e.2 * (mojoPerUnit / 100) := by
    intro e p hp
    obtain ⟨puzzleHash, hdecode, hp⟩ := Option.bind_eq_some_iff.mp hp
    cases hp
    refine ⟨rfl, hdecode, ?_⟩
    rw [share, Nat.mul_right_comm]
    exact Nat.mul_div_assoc _ (by decide)
  constructor
  · apply List.map_injective_iff.mpr (Option.some_injective _)
    have haddresses := congrArg (List.map (Option.map Payment.receivedAddress)) hmap
    rw [List.map_map, List.map_map] at haddresses ⊢
    refine haddresses.symm.trans (List.map_congr_left fun e he => ?_)
    obtain ⟨p, hp⟩ := ExceptRun.mapM_eq_some_mem h he
    rw [Function.comp_apply, hp, Option.map_some, (hpayment hp).1]
    rfl
  · intro p hp
    have hmem := List.mem_map_of_mem (f := some) hp
    rw [← hmap] at hmem
    obtain ⟨e, he, hep⟩ := List.mem_map.mp hmem
    obtain ⟨haddress, hdecode, hamount⟩ := hpayment hep
    have hlast : (additions l).get? e.1 = some e.2 := OrderedDict.get?_eq_some.mpr he
    rw [get?_additions] at hlast
    rw [haddress, lastWeight, hlast]
    exact ⟨hdecode, hamount⟩

/-- Payments in proportion make up the whole but for less than a hundredth each. -/
lemma sum_amounts {payments : List Payment} (hnodup : (payments.map Payment.receivedAddress).Nodup)
    (hmem : ∀ e ∈ l, e.1 ∈ payments.map Payment.receivedAddress)
    (hproportion : ∀ p ∈ payments, p.amount = share l (weightOf l p.receivedAddress) * (mojoPerUnit / 100)) :
    (payments.map Payment.amount).sum ≤ 8640 * mojoPerUnit ∧ (l ≠ [] → 0 < totalWeight l →
      8640 * mojoPerUnit < (payments.map Payment.amount).sum + payments.length * (mojoPerUnit / 100)) := by
  set weights := (payments.map Payment.receivedAddress).map (weightOf l) with hweights
  have hsum : weights.sum = totalWeight l := sum_weightOf l hnodup hmem
  have htotal : (payments.map Payment.amount).sum =
      (weights.map fun x => 864000 * x / totalWeight l).sum * (mojoPerUnit / 100) := by
    rw [List.map_congr_left hproportion, List.sum_map_mul_right, hweights, List.map_map, List.map_map]
    rfl
  have hlength : weights.length = payments.length := by simp [hweights]
  rw [htotal, show mojoPerUnit = 100000000 from rfl]
  constructor
  · rcases Nat.eq_zero_or_pos (totalWeight l) with hzero | hpos
    · simp [hzero]
    · have hle := (sum_rounded weights 864000 hpos).1
      rw [hsum] at hle
      have hshares := Nat.le_of_mul_le_mul_right hle hpos
      omega
  · intro hne hpos
    have hge := (sum_rounded weights 864000 hpos).2
    obtain ⟨e, he⟩ := List.exists_mem_of_ne_nil _ hne
    have hlen := List.length_pos_of_mem (hmem e he)
    rw [List.length_map] at hlen
    rw [hsum, hlength] at hge
    have hlt : 864000 < (weights.map fun x => 864000 * x / totalWeight l).sum + payments.length := by
      by_contra! hsmall
      have hmul := Nat.mul_le_mul_right (totalWeight l) hsmall
      omega
    omega

variable (hallowed : ∀ nft ∈ nfts, nft.stakingAmount / mojoPerUnit ∈ allowStakingAmount)

include hallowed

/-- What `masternode_rewards_send` computes. -/
lemma masternodeRewardsSend_eq (payments : List Payment) : masternodeRewardsSend parsers online nfts = some payments ↔
    (∀ nft ∈ nfts, nft.receivedAddress ∈ online → (parsers.int nft.stakingPeriod).isSome) ∧
      (additions (counted parsers online nfts)).entries.mapM
        (payment parsers (totalWeight (counted parsers online nfts))) = some payments := by
  have hloop := @foldlM_addMasternode parsers online _ hallowed (.empty, 0)
  simp only [foldl_add, Nat.zero_add] at hloop
  have hguard : (if totalWeight (counted parsers online nfts) > 0 then
      (additions (counted parsers online nfts)).entries.mapM
        (payment parsers (totalWeight (counted parsers online nfts))) else some []) =
      (additions (counted parsers online nfts)).entries.mapM
        (payment parsers (totalWeight (counted parsers online nfts))) := by
    by_cases hnone : counted parsers online nfts = []
    · rw [hnone]
      rfl
    · rw [if_pos (totalWeight_pos hnone)]
  rw [masternodeRewardsSend, Option.bind_eq_bind, Option.bind_eq_some_iff]
  constructor
  · rintro ⟨_, hacc, hpayments⟩
    obtain ⟨hparse, rfl⟩ := (hloop _).mp hacc
    exact ⟨hparse, hguard.symm.trans hpayments⟩
  · rintro ⟨hparse, hpayments⟩
    exact ⟨_, (hloop _).mpr ⟨hparse, rfl⟩, hguard.trans hpayments⟩

end Rewards

/-! ## Two masternodes of one address -/

/-- The functions, as they are on what is read here. -/
def rewardParsers : Parsers where
  int := fun s => if s = "1" then some 1 else none
  decodePuzzleHash := fun s => if s = Sample.address then some Sample.puzzleHash else none

/-- Two masternodes with the same address, each of 100000 units. -/
def twoStakings : List Staking := List.replicate 2 ⟨Sample.address, 100000 * mojoPerUnit, "1"⟩

end Masternode

end Chives
