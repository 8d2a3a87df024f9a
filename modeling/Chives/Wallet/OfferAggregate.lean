import Chives.Wallet.OfferRoundTrip
import Chives.Wallet.PuzzleDrivers

set_option autoImplicit false

/-!
# Aggregation of offers

`Offer.aggregate` joins offers one after the other. Offers with a common input are refused, and so are those with
different drivers for an asset. But the drivers are compared by the keys of the one that was there first, so that it
depends on the order whether two drivers are the same; the later one stays.

## Main definitions

* `Offer.aggregate` — the method.
* `Offer.OrderFree` — the result does not depend on the order, and offers whose drivers differ are refused.
* `Offer.DisjointInputs`, `Offer.DriversChain`, `Offer.Constructible` — what the method checks.

## Main results

* `Offer.aggregate_cases` — offers are aggregated exactly if they pass the three checks.
* `Offer.orderFree_iff` — when the order does not matter.
* `Offer.not_orderFree` — two offers that are aggregated although their drivers differ.

## Design

The comparison of drivers is a parameter until the main result, which is about `PuzzleInfo`. The method extends the
lists of payments of its arguments in place; this is not modelled, so the results are about one call.
-/

namespace Chives

open ExceptRun Streamed

namespace Offer

variable {ι : Type}

/-! ## The method -/

section Aggregate

variable (env : OfferEnv ι) (eq : ι → ι → Bool)

/-- The variables of the loop of `aggregate`. -/
structure AggregateState (ι : Type) where
  totalRequestedPayments : OrderedDict (Option Bytes32) (List NotarizedPayment)
  totalBundle : Streamed.SpendBundle
  totalDriverDict : OrderedDict Bytes32 ι

/-- The variables before the loop. -/
def aggregateInit : AggregateState ι := ⟨.empty, ⟨[], env.g2Identity⟩, .empty⟩

/-- A round of the loop of `aggregate`. -/
def aggregateStep (s : AggregateState ι) (offer : Offer ι) : Except PyError (AggregateState ι) :=
  if ∃ c ∈ offer.bundle.removals, c ∈ s.totalBundle.removals then .error .valueError
  else if offer.driverDict.entries.any fun e => (s.totalDriverDict.get? e.1).any fun d => !eq d e.2 then
    .error .valueError
  else .ok
    { totalRequestedPayments := offer.requestedPayments.entries.foldl
        (fun d e => d.set e.1 ((d.get? e.1).getD [] ++ e.2)) s.totalRequestedPayments
      totalBundle := Streamed.SpendBundle.aggregate env.aggregateSignatures [s.totalBundle, offer.bundle]
      totalDriverDict := offer.driverDict.entries.foldl (fun d e => d.set e.1 e.2) s.totalDriverDict }

/-- `Offer.aggregate`. -/
def aggregate (offers : List (Offer ι)) : Except PyError (Offer ι) := do
  let s ← offers.foldlM (aggregateStep env eq) (aggregateInit env)
  new env s.totalRequestedPayments s.totalBundle s.totalDriverDict

end Aggregate

/-! ## What is checked -/

section Checks

variable (env : OfferEnv ι) (eq : ι → ι → Bool) (offers : List (Offer ι))

/-- All coin spends. -/
def unionSpends : List Streamed.CoinSpend := offers.flatMap fun o => o.bundle.coinSpends

/-- All payments of an asset. -/
def unionPayments (assetId : Option Bytes32) : List NotarizedPayment :=
  offers.flatMap fun o => (o.requestedPayments.get? assetId).getD []

/-- The drivers of an asset, in the order of the offers. -/
def driversOf (assetId : Bytes32) : List ι := offers.filterMap fun o => o.driverDict.get? assetId

/-- No two offers spend the same coin. -/
def DisjointInputs : Prop := offers.Pairwise fun a b => ∀ c ∈ b.bundle.removals, c ∉ a.bundle.removals

/-- The driver of an asset is equal to the next one. -/
def DriversChain : Prop := ∀ assetId, (driversOf offers assetId).IsChain fun d d' => eq d d' = true

/-- The constructor accepts the union: a coin is offered that is not spent, and the payments of an asset have different
names. -/
structure Constructible : Prop where
  offered : ∃ cs ∈ unionSpends offers, ∃ r, offeredBySpend env ⟨unionSpends offers, []⟩ cs = .ok r ∧ r.2 ≠ []
  names : ∀ assetId, ((unionPayments offers assetId).map fun p => p.name env.sha256).Nodup

/-- Two offers have different drivers for an asset. -/
def DriversDiffer : Prop := ∃ a ∈ offers, ∃ b ∈ offers, ∃ assetId d d', a.driverDict.get? assetId = some d ∧
  b.driverDict.get? assetId = some d' ∧ d ≠ d'

/-- Two offers with the same spends, payments and drivers. -/
structure SameUnion (o o' : Offer ι) : Prop where
  coinSpends : ∀ cs, cs ∈ o.bundle.coinSpends ↔ cs ∈ o'.bundle.coinSpends
  requested : ∀ assetId, assetId ∈ o.requestedPayments.keys ↔ assetId ∈ o'.requestedPayments.keys
  payments : ∀ assetId, ((o.requestedPayments.get? assetId).getD []).Perm ((o'.requestedPayments.get? assetId).getD [])
  driver : ∀ assetId, o.driverDict.get? assetId = o'.driverDict.get? assetId

/-- Both calls raise a `ValueError`, or return offers that are the same. -/
def Agree : Except PyError (Offer ι) → Except PyError (Offer ι) → Prop
  | .ok o, .ok o' => SameUnion o o'
  | .error e, .error e' => e = .valueError ∧ e' = .valueError
  | _, _ => False

/-- The order of the offers does not matter, and offers whose drivers differ are refused. -/
structure OrderFree : Prop where
  perm : ∀ offers' : List (Offer ι), offers'.Perm offers → Agree (aggregate env eq offers) (aggregate env eq offers')
  differ : DriversDiffer offers → aggregate env eq offers = .error .valueError

end Checks

/-! ## The loop -/

variable {s : AggregateState ι}

section Loop

variable {env : OfferEnv ι} {eq : ι → ι → Bool} {offers : List (Offer ι)}

/-- What the variables of the loop are, after some offers. -/
structure Represents (s : AggregateState ι) (offers : List (Offer ι)) : Prop where
  coinSpends : s.totalBundle.coinSpends = unionSpends offers
  requested : ∀ assetId, assetId ∈ s.totalRequestedPayments.keys ↔ ∃ o ∈ offers, assetId ∈ o.requestedPayments.keys
  payments : ∀ assetId, (s.totalRequestedPayments.get? assetId).getD [] = unionPayments offers assetId
  driver : ∀ assetId, s.totalDriverDict.get? assetId = (driversOf offers assetId).getLast?

lemma represents_init (env : OfferEnv ι) : Represents (aggregateInit env) [] where
  coinSpends := rfl
  requested assetId := by simp [aggregateInit, OrderedDict.keys, OrderedDict.empty]
  payments _ := rfl
  driver _ := rfl

lemma driversOf_concat (offers : List (Offer ι)) (o : Offer ι) (assetId : Bytes32) :
    driversOf (offers ++ [o]) assetId = driversOf offers assetId ++ (o.driverDict.get? assetId).toList := by
  rw [driversOf, driversOf, List.filterMap_append]
  cases h : o.driverDict.get? assetId <;> simp [h]

/-- The variables after a round. -/
lemma Represents.step (h : Represents s offers) (o : Offer ι) :
    Represents
      { totalRequestedPayments := o.requestedPayments.entries.foldl
          (fun d e => d.set e.1 ((d.get? e.1).getD [] ++ e.2)) s.totalRequestedPayments
        totalBundle := Streamed.SpendBundle.aggregate env.aggregateSignatures [s.totalBundle, o.bundle]
        totalDriverDict := o.driverDict.entries.foldl (fun d e => d.set e.1 e.2) s.totalDriverDict }
      (offers ++ [o]) := by
  have hpayments : ∀ assetId, (o.requestedPayments.entries.foldl
      (fun d e => d.set e.1 ((d.get? e.1).getD [] ++ e.2)) s.totalRequestedPayments).get? assetId =
        (o.requestedPayments.get? assetId).elim (s.totalRequestedPayments.get? assetId) fun ps =>
          some ((s.totalRequestedPayments.get? assetId).getD [] ++ ps) :=
    OrderedDict.get?_foldl_combine (fun old new => old.getD [] ++ new) o.requestedPayments.nodup s.totalRequestedPayments
  have hdrivers : ∀ assetId, (o.driverDict.entries.foldl (fun d e => d.set e.1 e.2) s.totalDriverDict).get? assetId =
      (o.driverDict.get? assetId).elim (s.totalDriverDict.get? assetId) some :=
    OrderedDict.get?_foldl_combine (fun _ new => new) o.driverDict.nodup s.totalDriverDict
  refine ⟨?_, fun assetId => ?_, fun assetId => ?_, fun assetId => ?_⟩
  · simp [Streamed.SpendBundle.aggregate, unionSpends, h.coinSpends]
  · have hkeys := h.requested assetId
    rw [mem_keys_iff] at hkeys ⊢
    rw [hpayments]
    simp only [List.mem_append, List.mem_singleton, or_and_right, exists_or, exists_eq_left]
    cases hget : o.requestedPayments.get? assetId with
    | some ps => simp [mem_keys_iff, hget]
    | none => simpa [mem_keys_iff, hget] using hkeys
  · have hunion : unionPayments (offers ++ [o]) assetId =
        unionPayments offers assetId ++ (o.requestedPayments.get? assetId).getD [] := by simp [unionPayments]
    rw [hpayments, hunion, ← h.payments]
    cases o.requestedPayments.get? assetId <;> simp
  · rw [hdrivers, driversOf_concat, h.driver]
    cases o.driverDict.get? assetId <;> simp

/-- **The loop.** It ends exactly if no two offers spend the same coin and every driver is equal to the next one.
Otherwise a `ValueError` is raised. -/
lemma foldlM_aggregateStep (env : OfferEnv ι) (eq : ι → ι → Bool) (offers : List (Offer ι)) :
    (DisjointInputs offers ∧ DriversChain eq offers ∧
      ∃ s, offers.foldlM (aggregateStep env eq) (aggregateInit env) = .ok s ∧ Represents s offers) ∨
    (¬(DisjointInputs offers ∧ DriversChain eq offers) ∧
      offers.foldlM (aggregateStep env eq) (aggregateInit env) = .error .valueError) := by
  induction offers using List.reverseRecOn with
  | nil => exact .inl ⟨List.Pairwise.nil, fun _ => List.IsChain.nil, _, rfl, represents_init env⟩
  | append_singleton offers o ih =>
    have hdisjoint : DisjointInputs (offers ++ [o]) ↔ DisjointInputs offers ∧
        ∀ a ∈ offers, ∀ c ∈ o.bundle.removals, c ∉ a.bundle.removals := by
      simp [DisjointInputs, List.pairwise_append]
    have hchain : DriversChain eq (offers ++ [o]) ↔ DriversChain eq offers ∧ ∀ assetId,
        ∀ d ∈ (driversOf offers assetId).getLast?, ∀ d' ∈ o.driverDict.get? assetId, eq d d' = true := by
      unfold DriversChain
      rw [← forall_and]
      apply forall_congr'
      intro assetId
      rw [driversOf_concat, List.isChain_append]
      cases o.driverDict.get? assetId <;> simp
    rw [List.foldlM_append]
    rcases ih with ⟨hd, hc, s, hs, hrep⟩ | ⟨hnot, hs⟩
    · rw [hs, ok_bind]
      have hremovals : ∀ c, c ∈ s.totalBundle.removals ↔ ∃ a ∈ offers, c ∈ a.bundle.removals := by
        intro c
        simp [Streamed.SpendBundle.removals, hrep.coinSpends, unionSpends]
        tauto
      rw [hdisjoint, hchain]
      simp only [List.foldlM_cons, List.foldlM_nil, aggregateStep]
      split
      · rename_i hoverlap
        obtain ⟨c, hc', hmem⟩ := hoverlap
        obtain ⟨a, ha, hca⟩ := (hremovals c).mp hmem
        exact .inr ⟨fun h => h.1.2 a ha c hc' hca, rfl⟩
      · rename_i hoverlap
        split
        · rename_i hdiffer
          obtain ⟨e, he, hd'⟩ := List.any_eq_true.mp hdiffer
          obtain ⟨d, hget, hne⟩ := Option.any_eq_true .. |>.mp hd'
          refine .inr ⟨fun h => ?_, rfl⟩
          have heq := h.2.2 e.1 d (by rw [← hrep.driver]; exact hget) e.2 (OrderedDict.get?_eq_some.mpr he)
          simp [heq] at hne
        · rename_i hdiffer
          refine .inl ⟨⟨hd, fun a ha c hc' hca => hoverlap ⟨c, hc', (hremovals c).mpr ⟨a, ha, hca⟩⟩⟩,
            ⟨hc, fun assetId d hlast d' hd' => ?_⟩, _, rfl, hrep.step o⟩
          by_contra hne
          apply hdiffer
          refine List.any_eq_true.mpr ⟨(assetId, d'), OrderedDict.get?_eq_some.mp hd', ?_⟩
          rw [hrep.driver, Option.mem_def.mp hlast]
          simpa using hne
    · rw [hs]
      refine .inr ⟨fun h => hnot ⟨(hdisjoint.mp h.1).1, (hchain.mp h.2).1⟩, rfl⟩

end Loop

/-! ## The constructor -/

section Constructor

variable {env : OfferEnv ι} {eq : ι → ι → Bool} {offers : List (Offer ι)} {additions : List Coin} {condition : SExp}

lemma additionsWithAmount_filter (q : Coin → Bool) {r : List Coin}
    (h : additionsWithAmount additions condition = .ok r) :
    additionsWithAmount (additions.filter q) condition = .ok (r.filter q) := by
  unfold additionsWithAmount at h ⊢
  by_cases hnil : additions.filter q = []
  · rw [if_pos hnil]
    by_cases hadditions : additions = []
    · rw [if_pos hadditions] at h
      obtain rfl := Except.ok.inj h
      rfl
    · rw [if_neg hadditions] at h
      obtain ⟨amount, -, h⟩ := bind_eq_ok.mp h
      cases amount with
      | pair x y => cases h
      | atom b =>
        obtain rfl := Except.ok.inj h
        rw [List.filter_comm, hnil, List.filter_nil]
  · have hadditions : additions ≠ [] := fun h => hnil (by rw [h]; rfl)
    rw [if_neg hadditions] at h
    rw [if_neg hnil]
    obtain ⟨amount, hamount, h⟩ := bind_eq_ok.mp h
    rw [hamount, ok_bind]
    cases amount with
    | pair x y => cases h
    | atom b =>
      obtain rfl := Except.ok.inj h
      simp [List.filter_filter, Bool.and_comm]

/-- A condition that can be read can be read with fewer additions. -/
lemma exists_offeredByCondition_filter (q : Coin → Bool) {driver : ι} {r : List Coin}
    (h : offeredByCondition env driver additions condition = .ok r) :
    ∃ r', offeredByCondition env driver (additions.filter q) condition = .ok r' := by
  unfold offeredByCondition at h ⊢
  obtain ⟨opcode, hopcode, h⟩ := bind_eq_ok.mp h
  rw [hopcode, ok_bind]
  by_cases hcreate : opcode ≠ .atom (SExp.intToBytes 51)
  · exact ⟨[], if_pos hcreate⟩
  rw [if_neg hcreate] at h ⊢
  obtain ⟨puzzleHash, hpuzzleHash, h⟩ := bind_eq_ok.mp h
  rw [hpuzzleHash, ok_bind]
  by_cases hoffer : puzzleHash ≠ .atom env.offerHash.bytes
  · exact ⟨[], if_pos hoffer⟩
  rw [if_neg hoffer] at h ⊢
  obtain ⟨found, hfound, h⟩ := bind_eq_ok.mp h
  rw [additionsWithAmount_filter q hfound, ok_bind]
  by_cases hone : (found.filter q).length = 1
  · exact ⟨_, if_pos hone⟩
  rw [if_neg hone]
  by_cases hnil : found.filter q = []
  · rw [additionsWithPuzzleHash, if_pos hnil, ok_bind]
    exact ⟨_, rfl⟩
  · -- several additions have the amount, so the settlement puzzle has been constructed
    have hlen : found.length ≠ 1 := by
      intro hlen
      have hle := List.length_filter_le q found
      have hpos := List.length_pos_iff.mpr hnil
      omega
    have hfoundNil : found ≠ [] := fun h => hnil (by rw [h]; rfl)
    rw [if_neg hlen] at h
    obtain ⟨paid, hpaid, -⟩ := bind_eq_ok.mp h
    rw [additionsWithPuzzleHash, if_neg hfoundNil] at hpaid
    obtain ⟨puzzle, hpuzzle, -⟩ := bind_eq_ok.mp hpaid
    rw [additionsWithPuzzleHash, if_neg hnil, hpuzzle, ok_bind]
    exact ⟨_, rfl⟩

variable {b : Streamed.SpendBundle}

lemma offeredBySpend_congr {b' : Streamed.SpendBundle} (h : ∀ c, c ∈ b.removals ↔ c ∈ b'.removals)
    (cs : Streamed.CoinSpend) : offeredBySpend env b cs = offeredBySpend env b' cs := by
  unfold offeredBySpend
  simp only [h]

/-- A spend that can be read can be read when more coins are spent. -/
lemma exists_offeredBySpend_of_subset {b' : Streamed.SpendBundle} (h : ∀ c ∈ b.removals, c ∈ b'.removals)
    {cs : Streamed.CoinSpend} {r : Option Bytes32 × List Coin} (hr : offeredBySpend env b cs = .ok r) :
    ∃ r', offeredBySpend env b' cs = .ok r' := by
  have hfilter : ∀ additions : List Coin, additions.filter (fun a => a ∉ b'.removals) =
      (additions.filter fun a => a ∉ b.removals).filter fun a => a ∉ b'.removals := by
    intro additions
    rw [List.filter_filter]
    apply List.filter_congr
    intro a _
    by_cases ha : a ∈ b'.removals
    · simp [ha]
    · have : a ∉ b.removals := fun hb => ha (h a hb)
      simp [ha, this]
  unfold offeredBySpend at hr ⊢
  obtain ⟨puzzle, hpuzzle, hr⟩ := bind_eq_ok.mp hr
  obtain ⟨solution, hsolution, hr⟩ := bind_eq_ok.mp hr
  obtain ⟨additions, hadditions, hr⟩ := bind_eq_ok.mp hr
  obtain ⟨driver, hdriver, hr⟩ := bind_eq_ok.mp hr
  rw [hpuzzle, ok_bind, hsolution, ok_bind, hadditions, ok_bind, hdriver, ok_bind]
  cases driver with
  | none => exact ⟨_, rfl⟩
  | some driver =>
    dsimp only at hr ⊢
    obtain ⟨assetId, hassetId, hr⟩ := bind_eq_ok.mp hr
    obtain ⟨innerPuzzle, hinnerPuzzle, hr⟩ := bind_eq_ok.mp hr
    obtain ⟨innerSolution, hinnerSolution, hr⟩ := bind_eq_ok.mp hr
    obtain ⟨innerPuzzle', hinnerPuzzle', hr⟩ := bind_eq_ok.mp hr
    obtain ⟨innerSolution', hinnerSolution', hr⟩ := bind_eq_ok.mp hr
    obtain ⟨conditions, hconditions, hr⟩ := bind_eq_ok.mp hr
    obtain ⟨elements, helements, hr⟩ := bind_eq_ok.mp hr
    obtain ⟨coins, hcoins, -⟩ := bind_eq_ok.mp hr
    obtain ⟨coins', hcoins', -⟩ := exists_mapM_eq_ok fun condition hcondition => by
      obtain ⟨r, hr⟩ := exists_of_mapM_eq_ok hcoins hcondition
      exact exists_offeredByCondition_filter (fun a => decide (a ∉ b'.removals)) hr
    rw [hassetId, ok_bind, hinnerPuzzle, ok_bind, hinnerSolution, ok_bind, hinnerPuzzle', ok_bind, hinnerSolution',
      ok_bind, hconditions, ok_bind, helements, ok_bind, hfilter, hcoins', ok_bind]
    exact ⟨_, rfl⟩

lemma entries_foldl_ne_nil (l : List (Option Bytes32 × List Coin)) (d : OrderedDict (Option Bytes32) (List Coin)) :
    (l.foldl (fun d e => if e.2 = [] then d else d.set e.1 ((d.get? e.1).getD [] ++ e.2)) d).entries ≠ [] ↔
      d.entries ≠ [] ∨ ∃ e ∈ l, e.2 ≠ [] := by
  induction l generalizing d with
  | nil => simp
  | cons e l ih =>
    rw [List.foldl_cons, ih, List.exists_mem_cons_iff]
    by_cases he : e.2 = []
    · rw [if_pos he]
      simp [he]
    · rw [if_neg he]
      have hset : ∀ v, (d.set e.1 v).entries ≠ [] := by
        intro v hnil
        have hget : (d.set e.1 v).get? e.1 = some v := by rw [OrderedDict.get?_set, if_pos rfl]
        have hmem := OrderedDict.get?_eq_some.mp hget
        rw [hnil] at hmem
        cases hmem
      simp [he, hset]

variable {offered : OrderedDict (Option Bytes32) (List Coin)}

lemma entries_getOfferedCoins (h : getOfferedCoins env b = .ok offered) :
    offered.entries ≠ [] ↔ ∃ cs ∈ b.coinSpends, ∃ r, offeredBySpend env b cs = .ok r ∧ r.2 ≠ [] := by
  obtain ⟨l, hl, h⟩ := bind_eq_ok.mp h
  obtain rfl := Except.ok.inj h
  rw [entries_foldl_ne_nil]
  constructor
  · rintro (hempty | ⟨e, he, hne⟩)
    · exact absurd rfl hempty
    · obtain ⟨cs, hcs, hcs'⟩ := mem_of_mapM_eq_ok hl he
      exact ⟨cs, hcs, e, hcs', hne⟩
  · rintro ⟨cs, hcs, r, hr, hne⟩
    right
    exact ⟨r, mem_mapM_of_mem hl hcs hr, hne⟩

lemma exists_getOfferedCoins_union (h : ∀ o ∈ offers, o.postInit env = .ok ())
    (hb : b.coinSpends = unionSpends offers) : ∃ offered, getOfferedCoins env b = .ok offered := by
  have hspend : ∀ cs ∈ b.coinSpends, ∃ r, offeredBySpend env b cs = .ok r := by
    intro cs hcs
    rw [hb] at hcs
    obtain ⟨o, ho, hmem⟩ := List.mem_flatMap.mp hcs
    obtain ⟨offered, hoffered, -⟩ := postInit_eq_ok.mp (h o ho)
    obtain ⟨l, hl, -⟩ := bind_eq_ok.mp hoffered
    obtain ⟨r, hr⟩ := exists_of_mapM_eq_ok hl hmem
    refine exists_offeredBySpend_of_subset (fun c hc => ?_) hr
    obtain ⟨cs', hcs', rfl⟩ := List.mem_map.mp hc
    exact List.mem_map_of_mem (by rw [hb]; exact List.mem_flatMap.mpr ⟨o, ho, hcs'⟩)
  obtain ⟨l, hl, -⟩ := exists_mapM_eq_ok hspend
  exact ⟨_, by rw [getOfferedCoins, hl, ok_bind]; rfl⟩

lemma postInit_cases {o : Offer ι} (h : getOfferedCoins env o.bundle = .ok offered) :
    o.postInit env = .ok () ∨ o.postInit env = .error .valueError := by
  unfold postInit
  rw [h, ok_bind]
  split_ifs <;> simp

/-- **The constructor, of a union.** -/
lemma postInit_union (h : ∀ o ∈ offers, o.postInit env = .ok ()) (hs : Represents s offers) :
    postInit env ⟨s.totalRequestedPayments, s.totalBundle, s.totalDriverDict⟩ = .ok () ↔ Constructible env offers := by
  have hremovals : ∀ c, c ∈ s.totalBundle.removals ↔
      c ∈ (⟨unionSpends offers, []⟩ : Streamed.SpendBundle).removals := by
    intro c
    rw [Streamed.SpendBundle.removals, hs.coinSpends]
    rfl
  obtain ⟨offered, hoffered⟩ := exists_getOfferedCoins_union h hs.coinSpends
  have hentries : offered.entries ≠ [] ↔
      ∃ cs ∈ unionSpends offers, ∃ r, offeredBySpend env ⟨unionSpends offers, []⟩ cs = .ok r ∧ r.2 ≠ [] := by
    rw [entries_getOfferedCoins hoffered, hs.coinSpends]
    simp only [offeredBySpend_congr hremovals]
  rw [postInit_eq_ok]
  constructor
  · rintro ⟨offered', hoffered', hne, -, hnames, -⟩
    obtain rfl : offered = offered' := Except.ok.inj (hoffered.symm.trans hoffered')
    refine ⟨hentries.mp hne, fun assetId => ?_⟩
    rw [← hs.payments]
    cases hget : s.totalRequestedPayments.get? assetId with
    | none => exact List.nodup_nil
    | some ps => exact hnames ps (OrderedDict.mem_values.mpr ⟨assetId, hget⟩)
  · rintro ⟨hne, hnames⟩
    refine ⟨offered, hoffered, hentries.mpr hne, ?_, ?_, ?_⟩
    · -- an offer requests something
      obtain ⟨cs, hcs, -⟩ := hne
      obtain ⟨o, ho, -⟩ := List.mem_flatMap.mp hcs
      obtain ⟨-, -, -, hrequested, -⟩ := postInit_eq_ok.mp (h o ho)
      obtain ⟨e, he⟩ := List.exists_mem_of_ne_nil _ hrequested
      intro hnil
      have hkey := (hs.requested e.1).mpr ⟨o, ho, List.mem_map_of_mem he⟩
      rw [OrderedDict.keys, hnil] at hkey
      cases hkey
    · intro ps hps
      obtain ⟨assetId, hget⟩ := OrderedDict.mem_values.mp hps
      have hall := hnames assetId
      rwa [← hs.payments, hget] at hall
    · intro id hid
      obtain ⟨k, hk, rfl⟩ := List.mem_filterMap.mp hid
      obtain ⟨o, ho, hko⟩ := (hs.requested _).mp hk
      obtain ⟨-, -, -, -, -, hknown⟩ := postInit_eq_ok.mp (h o ho)
      obtain ⟨d, hd⟩ := mem_keys_iff.mp (hknown id (List.mem_filterMap.mpr ⟨some id, hko, rfl⟩))
      have hmem : d ∈ driversOf offers id := List.mem_filterMap.mpr ⟨o, ho, hd⟩
      have hsome : (driversOf offers id).getLast?.isSome := by
        rw [List.getLast?_isSome]
        exact List.ne_nil_of_mem hmem
      obtain ⟨d', hd'⟩ := Option.isSome_iff_exists.mp hsome
      exact mem_keys_iff.mpr ⟨d', by rw [hs.driver, hd']⟩

/-- **When offers are aggregated**: no two of them spend the same coin, every driver is equal to the next one, and the
constructor accepts the union. Otherwise a `ValueError` is raised. -/
theorem aggregate_cases (h : ∀ o ∈ offers, o.postInit env = .ok ()) :
    (DisjointInputs offers ∧ DriversChain eq offers ∧ Constructible env offers ∧ ∃ s, Represents s offers ∧
      aggregate env eq offers = .ok ⟨s.totalRequestedPayments, s.totalBundle, s.totalDriverDict⟩) ∨
    (¬(DisjointInputs offers ∧ DriversChain eq offers ∧ Constructible env offers) ∧
      aggregate env eq offers = .error .valueError) := by
  unfold aggregate
  rcases foldlM_aggregateStep env eq offers with ⟨hd, hc, s, hs, hrep⟩ | ⟨hnot, hs⟩
  · obtain ⟨offered, hoffered⟩ := exists_getOfferedCoins_union h hrep.coinSpends
    have hinit := postInit_union h hrep
    rw [hs, ok_bind, new]
    rcases postInit_cases (o := ⟨s.totalRequestedPayments, s.totalBundle, s.totalDriverDict⟩) hoffered with hok | herror
    · rw [hok, ok_bind]
      exact .inl ⟨hd, hc, hinit.mp hok, s, hrep, rfl⟩
    · rw [herror]
      refine .inr ⟨fun hall => ?_, rfl⟩
      rw [hinit.mpr hall.2.2] at herror
      cases herror
  · rw [hs]
    exact .inr ⟨fun hall => hnot ⟨hall.1, hall.2.1⟩, rfl⟩

end Constructor

/-! ## The order -/

section Order

variable {env : OfferEnv ι} {eq : ι → ι → Bool} {offers offers' : List (Offer ι)}

lemma eq_of_perm_of_forall_eq {α : Type} {l l' : List α} (h : l'.Perm l) (heq : ∀ a ∈ l, ∀ b ∈ l, a = b) : l' = l := by
  cases l with
  | nil => exact h.eq_nil
  | cons a l =>
    have hl : a :: l = List.replicate (a :: l).length a := List.eq_replicate_of_mem fun b hb => heq b hb a (by simp)
    have hl' : l' = List.replicate l'.length a :=
      List.eq_replicate_of_mem fun b hb => heq b (h.mem_iff.mp hb) a (by simp)
    rw [hl', hl, h.length_eq]

section

variable (h : offers'.Perm offers)

include h

lemma unionSpends_perm : (unionSpends offers').Perm (unionSpends offers) := h.flatMap_right _

lemma unionPayments_perm (assetId : Option Bytes32) :
    (unionPayments offers' assetId).Perm (unionPayments offers assetId) := h.flatMap_right _

lemma disjointInputs_perm : DisjointInputs offers' ↔ DisjointInputs offers := by
  refine h.pairwise_iff fun hab c hc hb => ?_
  exact hab c hb hc

lemma Constructible.perm (hc : Constructible env offers') : Constructible env offers := by
  have hspends := unionSpends_perm h
  have hremovals : ∀ c, c ∈ (⟨unionSpends offers', []⟩ : Streamed.SpendBundle).removals ↔
      c ∈ (⟨unionSpends offers, []⟩ : Streamed.SpendBundle).removals := fun c => (hspends.map _).mem_iff
  obtain ⟨cs, hcs, r, hr, hne⟩ := hc.offered
  refine ⟨⟨cs, hspends.mem_iff.mp hcs, r, ?_, hne⟩, fun assetId => ?_⟩
  · rw [← offeredBySpend_congr hremovals, hr]
  · exact (((unionPayments_perm h assetId).map _).nodup_iff).mp (hc.names assetId)

lemma driversOf_eq_of_perm (hsame : ¬DriversDiffer offers) (assetId : Bytes32) :
    driversOf offers' assetId = driversOf offers assetId := by
  refine eq_of_perm_of_forall_eq (h.filterMap _) fun d hd d' hd' => ?_
  obtain ⟨a, ha, had⟩ := List.mem_filterMap.mp hd
  obtain ⟨b, hb, hbd'⟩ := List.mem_filterMap.mp hd'
  by_contra hne
  exact hsame ⟨a, ha, b, hb, assetId, d, d', had, hbd', hne⟩

lemma sameUnion_of_represents (hsame : ¬DriversDiffer offers) {s' : AggregateState ι} (hs : Represents s offers)
    (hs' : Represents s' offers') :
    SameUnion (⟨s.totalRequestedPayments, s.totalBundle, s.totalDriverDict⟩ : Offer ι)
      ⟨s'.totalRequestedPayments, s'.totalBundle, s'.totalDriverDict⟩ where
  coinSpends cs := by
    rw [hs.coinSpends, hs'.coinSpends]
    exact (unionSpends_perm h).mem_iff.symm
  requested assetId := by
    rw [hs.requested, hs'.requested]
    simp only [h.mem_iff]
  payments assetId := by
    rw [hs.payments, hs'.payments]
    exact (unionPayments_perm h assetId).symm
  driver assetId := by rw [hs.driver, hs'.driver, driversOf_eq_of_perm h hsame]

end

/-- **When the order does not matter**, for any comparison of drivers: no two offers have different drivers for an asset,
or all orders are refused. -/
lemma orderFree_iff_of_eq (h : ∀ o ∈ offers, o.postInit env = .ok ()) :
    OrderFree env eq offers ↔ ¬DriversDiffer offers ∨ ¬DisjointInputs offers ∨ ¬Constructible env offers ∨
      ∀ offers' : List (Offer ι), offers'.Perm offers → ¬DriversChain eq offers' := by
  have hconstructed : ∀ offers' : List (Offer ι), offers'.Perm offers → ∀ o ∈ offers', o.postInit env = .ok () :=
    fun offers' hperm o ho => h o (hperm.mem_iff.mp ho)
  constructor
  · intro hfree
    by_contra hnot
    simp only [not_or, not_forall, not_not] at hnot
    obtain ⟨hdiffer, hd, hc, offers', hperm, hchain⟩ := hnot
    have hagree := hfree.perm offers' hperm
    rw [hfree.differ hdiffer] at hagree
    rcases @aggregate_cases _ env eq _ (hconstructed offers' hperm) with ⟨-, -, -, s, -, hok⟩ | ⟨hrefused, -⟩
    · rw [hok] at hagree
      exact hagree
    · exact hrefused ⟨(disjointInputs_perm hperm).mpr hd, hchain, hc.perm hperm.symm⟩
  · intro hcond
    by_cases hdiffer : DriversDiffer offers
    · have herror : ∀ offers' : List (Offer ι), offers'.Perm offers → aggregate env eq offers' = .error .valueError := by
        intro offers' hperm
        rcases @aggregate_cases _ env eq _ (hconstructed offers' hperm) with ⟨hd, hchain, hc, -⟩ | ⟨-, herror⟩
        · rcases hcond with hsame | hoverlap | hrefused | hunchained
          · exact absurd hdiffer hsame
          · exact absurd ((disjointInputs_perm hperm).mp hd) hoverlap
          · exact absurd (hc.perm hperm) hrefused
          · exact absurd hchain (hunchained offers' hperm)
        · exact herror
      refine ⟨fun offers' hperm => ?_, fun _ => herror offers (List.Perm.refl _)⟩
      rw [herror offers (List.Perm.refl _), herror offers' hperm]
      exact ⟨rfl, rfl⟩
    · refine ⟨fun offers' hperm => ?_, fun hd => absurd hd hdiffer⟩
      have hchains : DriversChain eq offers' ↔ DriversChain eq offers := by
        unfold DriversChain
        simp only [driversOf_eq_of_perm hperm hdiffer]
      rcases @aggregate_cases _ env eq _ h with ⟨hd, hc, hcons, s, hs, hok⟩ | ⟨hnot, herror⟩
      · rcases @aggregate_cases _ env eq _ (hconstructed offers' hperm) with ⟨-, -, -, s', hs', hok'⟩ | ⟨hnot', -⟩
        · rw [hok, hok']
          exact sameUnion_of_represents hperm hdiffer hs hs'
        · exact absurd ⟨(disjointInputs_perm hperm).mpr hd, hchains.mpr hc, hcons.perm hperm.symm⟩ hnot'
      · rcases @aggregate_cases _ env eq _ (hconstructed offers' hperm) with ⟨hd', hc', hcons', -⟩ | ⟨-, herror'⟩
        · exact absurd ⟨(disjointInputs_perm hperm).mp hd', hchains.mp hc', hcons'.perm hperm⟩ hnot
        · rw [herror, herror']
          exact ⟨rfl, rfl⟩

end Order

/-- **When the order of the offers does not matter**, and offers whose drivers differ are refused: no two offers have
different drivers for an asset; or two offers spend the same coin; or the constructor refuses the union; or in every
order some driver of an asset is not equal to the next one, in the sense of the comparison.

**Proof sketch.** Whether two offers spend the same coin, and what the constructor looks at, does not depend on the
order. If no drivers differ, the list of the drivers of an asset is the same in every order. If some do, all orders have
to be refused. -/
theorem orderFree_iff (T : ClvmTools) {env : OfferEnv PuzzleInfo} {offers : List (Offer PuzzleInfo)}
    (h : ∀ o ∈ offers, o.postInit env = .ok ()) :
    OrderFree env (PuzzleInfo.eq T) offers ↔ ¬DriversDiffer offers ∨ ¬DisjointInputs offers ∨
      ¬Constructible env offers ∨
      ∀ offers' : List (Offer PuzzleInfo), offers'.Perm offers → ¬DriversChain (PuzzleInfo.eq T) offers' :=
  orderFree_iff_of_eq h

end Offer

/-! ## Samples -/

namespace AggregateSample

open OfferSample

/-- The texts of the samples, as they are assembled. -/
def tools : ClvmTools where
  assemble s :=
    if s = "CAT" then .ok (.atom [67, 65, 84])
    else if s = "metadata" then .ok (.atom [109, 101, 116, 97, 100, 97, 116, 97])
    else if s = "0x11" then .ok (.atom [0x11])
    else .error .valueError
  disassemble _ := "()"
  typeForAtom b := if b.length > 2 then .quotes else .int

/-- No puzzle of the samples has a driver. -/
def env : OfferEnv PuzzleInfo where
  sha256 := sampleHash
  valid _ _ := true
  g2Identity := identity
  aggregateSignatures := aggregate
  runProgram := runQuote
  matchPuzzle _ := .ok none
  createAssetId _ := .ok none
  constructPuzzle _ puzzle := .ok puzzle
  getInnerPuzzle _ puzzle := .ok (some puzzle)
  getInnerSolution _ solution := .ok (some solution)
  offerMod := offerMod
  mods := ⟨[], [], settlementPayments, [], [], [], [], [], []⟩
  zlib := ⟨fun blob _ => blob, fun blob _ => .ok blob⟩

/-- A driver of a CAT. -/
def catInfo : PuzzleInfo := ⟨[("tail", .text "0x11"), ("type", .text "CAT")], by simp⟩

/-- A driver of a CAT with an inner layer. -/
def layeredInfo : PuzzleInfo :=
  ⟨[("also", .dict [("type", .text "metadata")]), ("tail", .text "0x11"), ("type", .text "CAT")], by simp⟩

/-- An offer with a spend of its own, and a driver. -/
def offerWith (n : ℕ) (driver : PuzzleInfo) : Offer PuzzleInfo where
  requestedPayments := OrderedDict.empty.set none [payment n [[7]] n]
  bundle := ⟨[⟨⟨Bytes32.ofNat n, payingPuzzle.treeHash sampleHash, 1000⟩, bytesOf payingPuzzle, [0x80]⟩], identity⟩
  driverDict := OrderedDict.empty.set (Bytes32.ofNat 17) driver

-- the comparison is not symmetric
example : catInfo.eq tools layeredInfo = true ∧ layeredInfo.eq tools catInfo = false := by decide +kernel

/-- The second offer has the driver of one layer, too. -/
def sameDrivers : List (Offer PuzzleInfo) := [offerWith 1 catInfo, offerWith 2 catInfo]

/-- The second offer has the driver of two layers. -/
def otherDrivers : List (Offer PuzzleInfo) := [offerWith 1 catInfo, offerWith 2 layeredInfo]

/-- A call returns. -/
def returns {α : Type} (r : Except PyError α) : Bool :=
  match r with
  | .ok _ => true
  | .error _ => false

lemma eq_ok_of_returns {r : Except PyError Unit} (h : returns r = true) : r = .ok () := by
  cases r with
  | ok _ => rfl
  | error _ => cases h

lemma postInit_sameDrivers : ∀ o ∈ sameDrivers, o.postInit env = .ok () := by
  have h : sameDrivers.all (fun o => returns (o.postInit env)) = true := by
    rw [sameDrivers, offerWith, offerWith, payingPuzzle, OfferEnv.offerHash, OfferSample.env, env, sampleHash_eq]
    decide +kernel
  exact fun o ho => eq_ok_of_returns (List.all_eq_true.mp h o ho)

lemma postInit_otherDrivers : ∀ o ∈ otherDrivers, o.postInit env = .ok () := by
  have h : otherDrivers.all (fun o => returns (o.postInit env)) = true := by
    rw [otherDrivers, offerWith, offerWith, payingPuzzle, OfferEnv.offerHash, OfferSample.env, env, sampleHash_eq]
    decide +kernel
  exact fun o ho => eq_ok_of_returns (List.all_eq_true.mp h o ho)

lemma returns_aggregate_otherDrivers : returns (Offer.aggregate env (PuzzleInfo.eq tools) otherDrivers) = true := by
  rw [otherDrivers, offerWith, offerWith, payingPuzzle, OfferEnv.offerHash, OfferSample.env, env, sampleHash_eq]
  decide +kernel

end AggregateSample

namespace Offer

open AggregateSample

/-- Two offers with the same driver for an asset. -/
theorem orderFree_iff_sameDrivers : OrderFree AggregateSample.env (PuzzleInfo.eq tools) sameDrivers := by
  refine (orderFree_iff tools postInit_sameDrivers).mpr (.inl ?_)
  rintro ⟨a, ha, b, hb, assetId, d, d', had, hbd', hne⟩
  simp only [sameDrivers, offerWith, List.mem_cons, List.not_mem_nil, or_false] at ha hb
  have hget : ∀ o : Offer PuzzleInfo, o.driverDict = OrderedDict.empty.set (Bytes32.ofNat 17) catInfo →
      ∀ e, o.driverDict.get? assetId = some e → e = catInfo := by
    intro o ho e he
    rw [ho, OrderedDict.get?_set, OrderedDict.get?_empty] at he
    split at he
    · exact (Option.some.inj he).symm
    · cases he
  have hd : d = catInfo := hget a (by rcases ha with rfl | rfl <;> rfl) d had
  have hd' : d' = catInfo := hget b (by rcases hb with rfl | rfl <;> rfl) d' hbd'
  exact hne (hd.trans hd'.symm)

/-- **Two offers that are aggregated although their drivers differ.** The keys of the first driver are keys of the second
one, so that they are equal in this order. -/
theorem not_orderFree : ¬∀ (T : ClvmTools) (env : OfferEnv PuzzleInfo) (offers : List (Offer PuzzleInfo)),
    (∀ o ∈ offers, o.postInit env = .ok ()) → OrderFree env (PuzzleInfo.eq T) offers := by
  intro h
  have hfree := h tools AggregateSample.env otherDrivers postInit_otherDrivers
  have hdiffer : DriversDiffer otherDrivers :=
    ⟨offerWith 1 catInfo, by simp [otherDrivers], offerWith 2 layeredInfo, by simp [otherDrivers], Bytes32.ofNat 17,
      catInfo, layeredInfo, by simp [offerWith, OrderedDict.get?_set], by simp [offerWith, OrderedDict.get?_set],
      by simp [catInfo, layeredInfo]⟩
  have hreturns := returns_aggregate_otherDrivers
  rw [hfree.differ hdiffer] at hreturns
  cases hreturns

end Offer

end Chives
