import Chives.Consensus.MainChain

set_option autoImplicit false

/-!
# The coins along a chain of validated blocks

`validate_block_body` checks that what a block spends is there, and that its own coins have different
names. It does not look for the coins that the block creates. This module shows that they are new all the
same, so that a chain of validated blocks can be replayed from genesis on.

## Main definitions

* `SoundIds` — what the ids of a set of coins are relied on for.
* `Fits` — what is known of a validated block on its own chain.
* `FitChain` — a chain of such blocks.

## Main results

* `FitChain.fresh` — the coins that a block creates are not in the table of its ancestors.
* `FitChain.exists_replay` — a chain of validated blocks can be replayed.

## Design

A coin comes from the coin that is spent to create it, or is a reward. If a coin were created twice, then
the coin that it comes from would be spent twice, unless that one was created twice too, by the same two
blocks; and the ancestry of a coin ends. Rewards are different since they pay for different blocks.
-/

namespace Chives

open ExceptRun LifeTable Table

/-- What coin ids are relied on for, among the given coins: different coins have different ids, no coin
is among its own ancestors, and the made-up parents of reward coins are not ids of coins. -/
structure SoundIds (H : Hashes) (genesisChallenge : Bytes32) (coins : Set Coin) : Prop where
  injOn : Set.InjOn H.coinName coins
  acyclic : ∃ rank : Bytes32 → ℕ, ∀ c ∈ coins, rank c.parentCoinInfo < rank (H.coinName c)
  notReward : ∀ c ∈ coins, ∀ height, height < 2 ^ 32 →
    H.coinName c ≠ poolParentId height genesisChallenge ∧
      H.coinName c ≠ farmerParentId height genesisChallenge

lemma SoundIds.mono {H : Hashes} {genesisChallenge : Bytes32} {coins coins' : Set Coin}
    (h : SoundIds H genesisChallenge coins') (hsub : coins ⊆ coins') :
    SoundIds H genesisChallenge coins := by
  obtain ⟨rank, hrank⟩ := h.acyclic
  exact ⟨h.injOn.mono hsub, ⟨rank, fun c hc => hrank c (hsub hc)⟩, fun c hc => h.notReward c (hsub hc)⟩

section Fits

variable (T : BodyTools) (constants : ConsensusConstants)

/-- What is known of a validated block `e` on top of the blocks `l`: genesis is a transaction block, the
numbers fit, the coins that the block creates have different names, the coins that it spends are there and
are spent once, and its rewards pay for the blocks since the last transaction block. -/
structure Fits (l : List Entry) (e : Entry) : Prop where
  genesis : l = [] → e.2.isTransactionBlock = true
  fees : e.2.isTransactionBlock = true → ∃ f, e.2.fees = some f ∧ f < 2 ^ 64
  height_lt : e.2.height < 2 ^ 32
  created_nodup : ((blockRows T constants (l.map Prod.fst) e.1).map CoinRow.coinName).Nodup
  spends_nodup : (blockSpends T constants (l.map Prod.fst) e.1).Nodup
  spends : ∀ coins, replay T constants (l.map Prod.fst) = .ok coins →
    ∀ k ∈ blockSpends T constants (l.map Prod.fst) e.1,
      k ∈ (blockRows T constants (l.map Prod.fst) e.1).map CoinRow.coinName ∨ Alive coinColumns coins k
  rewards : ∀ c ∈ e.1.getIncludedRewardCoins, ∃ r ∈ paidBlocks (l.map Prod.snd), ∃ community amount,
    c ∈ coinsOfBlock constants community r amount
  rewards_length : e.1.isTransactionBlock = true →
    if l = [] then e.1.getIncludedRewardCoins.length = 0 else e.1.getIncludedRewardCoins.length ≥ 2

/-- A chain of validated blocks with their records. -/
structure FitChain (blocks : BlockRecords) (L : List Entry) : Prop where
  fits : ∀ a e b, L = a ++ e :: b → Fits T constants a e
  chain : ∀ tip, L.getLast? = some tip → blocks.Chain tip.2 (L.map Prod.snd)
  stored : ∀ e ∈ L, blocks.get e.2.headerHash = some e.2
  height_eq : ∀ e ∈ L, e.2.height = e.1.height
  isTransactionBlock_eq : ∀ e ∈ L, e.2.isTransactionBlock = e.1.isTransactionBlock

/-- The coins that a chain creates. -/
def coinsOn (L : List Entry) : Set Coin :=
  {c | ∃ r ∈ rowsFrom T constants [] (L.map Prod.fst), r.coin = c}

end Fits

/-! ## Where coins come from -/

section Origins

variable {T : BodyTools} {constants : ConsensusConstants} {ancestors : List FullBlock} {b : FullBlock}
  {L a rest : List Entry} {e : Entry} {r : CoinRow} {k : Bytes32}

lemma origin_of_mem_blockRows (hr : r ∈ blockRows T constants ancestors b) :
    r.coin.parentCoinInfo ∈ blockSpends T constants ancestors b ∨ r.coin ∈ b.getIncludedRewardCoins := by
  unfold blockRows at hr
  unfold blockSpends
  cases hftb : b.foliageTransactionBlock with
  | none => simp [hftb] at hr
  | some ftb =>
    simp only [hftb] at hr
    obtain ⟨-, -, -, -, hc | hc⟩ := CoinTable.mem_rowsOfBlock hr
    · left
      unfold effectsOn at hc ⊢
      generalize (ownGenerator ancestors b).bind (fun g =>
        (T.runGenerator g constants.MAX_BLOCK_COST_CLVM b.height).conds) = conds at hc ⊢
      cases conds with
      | none => cases hc
      | some conds =>
        obtain ⟨spend, hspend, hc⟩ := List.mem_flatMap.mp hc
        obtain ⟨x, -, hx⟩ := List.mem_map.mp hc
        rw [← hx]
        exact List.mem_map_of_mem hspend
    · exact .inr hc

lemma mem_rowsFrom_iff : r ∈ rowsFrom T constants ancestors (L.map Prod.fst) ↔
    ∃ a e rest, L = a ++ e :: rest ∧ r ∈ blockRows T constants (ancestors ++ a.map Prod.fst) e.1 := by
  induction L generalizing ancestors with
  | nil => simp [rowsFrom]
  | cons x L ih =>
    rw [List.map_cons, rowsFrom, List.mem_append, ih]
    constructor
    · rintro (hr | ⟨a, e, rest, rfl, hr⟩)
      · exact ⟨[], x, L, rfl, by simpa using hr⟩
      · exact ⟨x :: a, e, rest, rfl, by simpa using hr⟩
    · rintro ⟨a, e, rest, heq, hr⟩
      cases a with
      | nil =>
        obtain ⟨rfl, rfl⟩ := List.cons.inj heq
        exact .inl (by simpa using hr)
      | cons y a =>
        obtain ⟨rfl, rfl⟩ := List.cons.inj heq
        exact .inr ⟨a, e, rest, rfl, by simpa using hr⟩

lemma mem_spendsFrom (hL : L = a ++ e :: rest)
    (hk : k ∈ blockSpends T constants (ancestors ++ a.map Prod.fst) e.1) :
    k ∈ spendsFrom T constants ancestors (L.map Prod.fst) := by
  rw [hL, List.map_append, spendsFrom_append, List.map_cons, spendsFrom]
  exact List.mem_append_right _ (List.mem_append_left _ hk)

lemma grows_replay {bs : List FullBlock} {coins : CoinTable} (ht : replay T constants bs = .ok coins) :
    Grows coinColumns [] coins (rowsFrom T constants [] bs) (spendsFrom T constants [] bs) := by
  have hnil : Keyed coinColumns.key ([] : CoinTable) := List.nodup_nil
  exact grows_replayFrom hnil ht

lemma exists_created {coins : CoinTable} (ht : replay T constants (L.map Prod.fst) = .ok coins)
    (hr : r ∈ coins) : ∃ a e rest r₀, L = a ++ e :: rest ∧ r₀ ∈ blockRows T constants (a.map Prod.fst) e.1 ∧
      r₀.coinName = r.coinName := by
  have hgrows := grows_replay ht
  have hkey : r.coinName ∈ coins.map coinColumns.key := List.mem_map_of_mem hr
  rw [hgrows.map_key, List.nil_append] at hkey
  obtain ⟨r₀, hr₀, hname⟩ := List.mem_map.mp hkey
  obtain ⟨a, e, rest, hL, hr₀⟩ := mem_rowsFrom_iff.mp hr₀
  exact ⟨a, e, rest, r₀, hL, by simpa using hr₀, hname⟩

lemma spent_of_mem_spendsFrom {coins : CoinTable} (ht : replay T constants (L.map Prod.fst) = .ok coins)
    (hk : k ∈ spendsFrom T constants [] (L.map Prod.fst)) :
    (∃ r ∈ coins, r.coinName = k) ∧ ¬Alive coinColumns coins k := by
  have hgrows := grows_replay ht
  obtain ⟨r, hr, hdied⟩ := hgrows.dead k hk
  obtain ⟨hmem, hkey⟩ := mem_of_find hr
  refine ⟨⟨r, hmem, hkey⟩, ?_⟩
  rintro ⟨r', hr', hkey', halive⟩
  have hsame : r = r' := (keyed_replay ht).eq_of_key_eq hmem hr' (hkey.trans hkey'.symm)
  rw [hsame] at hdied
  exact hdied halive

end Origins

/-! ## Rewards -/

lemma parent_of_mem_coinsOfBlock {constants : ConsensusConstants} {community : Bytes32} {r : BlockRecord}
    {amount : ℕ} {c : Coin} (hc : c ∈ coinsOfBlock constants community r amount) :
    c.parentCoinInfo = poolParentId r.height constants.GENESIS_CHALLENGE ∨
      c.parentCoinInfo = farmerParentId r.height constants.GENESIS_CHALLENGE := by
  simp only [coinsOfBlock, List.mem_cons, List.not_mem_nil, or_false] at hc
  rcases hc with rfl | rfl | rfl
  · exact .inl rfl
  · exact .inr rfl
  · exact .inr rfl

namespace FitChain

variable {T : BodyTools} {constants : ConsensusConstants} {blocks : BlockRecords} {l L a rest : List Entry}
  {e x tip : Entry} {c r : CoinRow} {coins : CoinTable}

lemma of_append (h : FitChain T constants blocks (L ++ rest)) : FitChain T constants blocks L := by
  refine ⟨fun a e b hL => ?_, fun tip htip => ?_, fun e he => ?_, fun e he => ?_, fun e he => ?_⟩
  · exact h.fits a e (b ++ rest) (by rw [hL]; simp)
  · obtain ⟨init, rfl⟩ : ∃ init, L = init ++ [tip] := List.getLast?_eq_some_iff.mp htip
    cases hlast : (init ++ [tip] ++ rest).getLast? with
    | none => simp at hlast
    | some last =>
      have hpath := h.chain last hlast
      have hsplit : (init ++ [tip] ++ rest).map Prod.snd =
          init.map Prod.snd ++ tip.2 :: rest.map Prod.snd := by simp
      rw [List.map_append]
      exact ParentTree.Path.of_append hpath hsplit
  · exact h.stored e (List.mem_append_left _ he)
  · exact h.height_eq e (List.mem_append_left _ he)
  · exact h.isTransactionBlock_eq e (List.mem_append_left _ he)

lemma recordChain (h : FitChain T constants blocks L) (htip : L.getLast? = some tip) :
    RecordChain blocks tip.2 (L.map Prod.snd) := by
  have hmem : ∀ r ∈ L.map Prod.snd, ∃ a e b, L = a ++ e :: b ∧ e.2 = r := by
    intro r hr
    obtain ⟨e, he, rfl⟩ := List.mem_map.mp hr
    obtain ⟨a, b, hL⟩ := List.append_of_mem he
    exact ⟨a, e, b, hL, rfl⟩
  refine ⟨h.chain tip htip, fun r hr => ?_, fun g hg => ?_, fun r hr htx => ?_, fun r hr => ?_⟩
  · obtain ⟨e, he, rfl⟩ := List.mem_map.mp hr
    exact h.stored e he
  · cases L with
    | nil => cases hg
    | cons x L =>
      obtain rfl : x.2 = g := by simpa using hg
      exact (h.fits [] x L rfl).genesis rfl
  · obtain ⟨a, e, b, hL, rfl⟩ := hmem r hr
    exact (h.fits a e b hL).fees htx
  · obtain ⟨a, e, b, hL, rfl⟩ := hmem r hr
    exact (h.fits a e b hL).height_lt

lemma exists_coinsOn (ht : replay T constants (l.map Prod.fst) = .ok coins) (hr : r ∈ coins) :
    ∃ c ∈ coinsOn T constants (l ++ [e]), T.H.coinName c = r.coinName := by
  obtain ⟨a, x, rest, r₀, hl, hr₀, hname⟩ := exists_created ht hr
  refine ⟨r₀.coin, ⟨r₀, ?_, rfl⟩, (mem_blockRows hr₀).2.2.1.symm.trans hname⟩
  exact mem_rowsFrom_iff.mpr ⟨a, x, rest ++ [e], by rw [hl]; simp, by simpa using hr₀⟩

lemma mem_coinsOn (hc : c ∈ blockRows T constants (l.map Prod.fst) e.1) :
    c.coin ∈ coinsOn T constants (l ++ [e]) :=
  ⟨c, mem_rowsFrom_iff.mpr ⟨l, e, [], rfl, by simpa using hc⟩, rfl⟩

lemma not_spent_of_reward (hids : SoundIds T.H constants.GENESIS_CHALLENGE (coinsOn T constants (l ++ [e])))
    (h : FitChain T constants blocks L) (hL : L = a ++ x :: rest) {c : Coin}
    (hc : c ∈ x.1.getIncludedRewardCoins) :
    ∀ c' ∈ coinsOn T constants (l ++ [e]), T.H.coinName c' ≠ c.parentCoinInfo := by
  intro c' hc'
  obtain ⟨r, hr, community, amount, hcr⟩ := (h.fits a x rest hL).rewards c hc
  have hlt : r.height < 2 ^ 32 := by
    have ha : FitChain T constants blocks a := by
      rw [hL] at h
      exact h.of_append
    cases hlast : a.getLast? with
    | none =>
      obtain rfl := List.getLast?_eq_none_iff.mp hlast
      cases hr
    | some tip =>
      have hrc := ha.recordChain hlast
      exact hrc.height_lt r (hrc.mem_of_mem_paidBlocks hr)
  obtain ⟨hpool, hfarmer⟩ := hids.notReward c' hc' r.height hlt
  rcases parent_of_mem_coinsOfBlock hcr with hparent | hparent
  · rw [hparent]
    exact hpool
  · rw [hparent]
    exact hfarmer

section

variable (h : FitChain T constants blocks (l ++ [e]))

include h

/-- Two blocks of a chain have no reward in common. -/
lemma rewards_disjoint (hl : l = a ++ x :: rest) {c : Coin} (hx : c ∈ x.1.getIncludedRewardCoins)
    (he : c ∈ e.1.getIncludedRewardCoins) : False := by
  obtain ⟨r, hr, community, amount, hcr⟩ :=
    (h.fits a x (rest ++ [e]) (by rw [hl]; simp)).rewards c hx
  obtain ⟨r', hr', community', amount', hcr'⟩ := (h.fits l e [] rfl).rewards c he
  have ha : a ≠ [] := by
    rintro rfl
    cases hr
  obtain ⟨i, hi⟩ : ∃ i, a.length = i + 1 := ⟨a.length - 1, by
    have := List.length_pos_iff.mpr ha
    omega⟩
  obtain ⟨j, hj⟩ : ∃ j, l.length = j + 1 := ⟨l.length - 1, by
    have : 0 < l.length := by rw [hl]; simp
    omega⟩
  have hchain : ∃ tip, l.getLast? = some tip := by
    cases hlast : l.getLast? with
    | none => simp [List.getLast?_eq_none_iff.mp hlast] at hj
    | some tip => exact ⟨tip, rfl⟩
  obtain ⟨tip, htip⟩ := hchain
  have hrc := h.of_append.recordChain htip
  have htx : x.2.isTransactionBlock = true := by
    rw [h.isTransactionBlock_eq x (by rw [hl]; simp)]
    by_contra hno
    simp [FullBlock.getIncludedRewardCoins, hno] at hx
  have hget : (l.map Prod.snd)[i + 1]? = some x.2 := by
    rw [hl, List.map_append, List.getElem?_append_right (by simp [hi])]
    simp [hi]
  have htake : (l.map Prod.snd).take (i + 1) = a.map Prod.snd := by
    rw [hl, List.map_append, List.take_left' (by simp [hi])]
  have htake' : (l.map Prod.snd).take (j + 1) = l.map Prod.snd :=
    List.take_of_length_le (by simp [hj])
  obtain ⟨y, hy⟩ : ∃ y, (l.map Prod.snd)[j]? = some y := ⟨_, List.getElem?_eq_getElem (by simp [hj])⟩
  have hij : i < j := by
    have := congrArg List.length hl
    rw [List.length_append, List.length_cons] at this
    omega
  have hlt := hrc.paidBlocks_disjoint hij hget htx hy (by rwa [htake]) (by rwa [htake'])
  have hmem : r ∈ l.map Prod.snd := by
    have hsub := (hrc.take (List.getElem?_eq_getElem (show i < (l.map Prod.snd).length by
      simp [hj]; omega))).mem_of_mem_paidBlocks (r := r) (by rwa [htake])
    exact List.mem_of_mem_take hsub
  exact disjoint_coinsOfBlock (hrc.height_lt r hmem)
    (hrc.height_lt r' (hrc.mem_of_mem_paidBlocks hr')) hlt.ne hcr hcr'

/-! ## New coins -/

/-- **The coins that a validated block creates are new.** Their names are not in the table of the block's
ancestors.

**Proof sketch.** By induction on the rank of the name. Suppose that a block `x` before `e` created the
coin too. If the coin is no reward, then both blocks spend its parent. The coins of the ancestors have it
spent, so `e` creates it as well; and a coin of that name is in the table, against the induction
hypothesis. The parent of a reward is spent by no block, and rewards of different blocks are different. -/
theorem fresh (hids : SoundIds T.H constants.GENESIS_CHALLENGE (coinsOn T constants (l ++ [e])))
    (ht : replay T constants (l.map Prod.fst) = .ok coins) (hc : c ∈ blockRows T constants (l.map Prod.fst) e.1)
    (hr : r ∈ coins) : r.coinName ≠ c.coinName := by
  obtain ⟨rank, hrank⟩ := hids.acyclic
  have hfits := h.fits l e [] rfl
  -- a removal of the block is the name of a coin of the chain
  have hremoval : ∀ k ∈ blockSpends T constants (l.map Prod.fst) e.1,
      ∃ c' ∈ coinsOn T constants (l ++ [e]), T.H.coinName c' = k := by
    intro k hk
    rcases hfits.spends coins ht k hk with hnew | ⟨r', hr', hname, -⟩
    · obtain ⟨c', hc', rfl⟩ := List.mem_map.mp hnew
      exact ⟨c'.coin, mem_coinsOn hc', (mem_blockRows hc').2.2.1.symm⟩
    · obtain ⟨c', hc', hname'⟩ := exists_coinsOn (e := e) ht hr'
      exact ⟨c', hc', hname'.trans hname⟩
  induction hn : rank c.coinName using Nat.strong_induction_on generalizing c r with
  | _ n ih =>
    intro hname
    obtain ⟨a, x, rest, r₀, hl, hr₀, hname₀⟩ := exists_created ht hr
    have hcname : c.coinName = T.H.coinName c.coin := (mem_blockRows hc).2.2.1
    have hr₀name : r₀.coinName = T.H.coinName r₀.coin := (mem_blockRows hr₀).2.2.1
    have hr₀mem : r₀.coin ∈ coinsOn T constants (l ++ [e]) :=
      ⟨r₀, mem_rowsFrom_iff.mpr ⟨a, x, rest ++ [e], by rw [hl]; simp, by simpa using hr₀⟩, rfl⟩
    have hcoin : r₀.coin = c.coin := by
      apply hids.injOn hr₀mem (mem_coinsOn hc)
      rw [← hr₀name, ← hcname, hname₀, hname]
    have hl' : l ++ [e] = a ++ x :: (rest ++ [e]) := by
      rw [hl]
      simp
    rcases origin_of_mem_blockRows hc with hspend | hreward
    · rcases origin_of_mem_blockRows hr₀ with hspend₀ | hreward₀
      · rw [hcoin] at hspend₀
        obtain ⟨⟨r₁, hr₁, hname₁⟩, hdead⟩ := spent_of_mem_spendsFrom ht
          (mem_spendsFrom hl (by simpa using hspend₀))
        rcases hfits.spends coins ht _ hspend with hnew | halive
        · obtain ⟨c₁, hc₁, hname₂⟩ := List.mem_map.mp hnew
          have hlt : rank c₁.coinName < n := by
            rw [← hn, hname₂, hcname]
            exact hrank _ (mem_coinsOn hc)
          exact ih _ hlt hc₁ hr₁ rfl (hname₁.trans hname₂.symm)
        · exact hdead halive
      · rw [hcoin] at hreward₀
        obtain ⟨c', hc', hname'⟩ := hremoval _ hspend
        exact not_spent_of_reward hids h hl' hreward₀ c' hc' hname'
    · rcases origin_of_mem_blockRows hr₀ with hspend₀ | hreward₀
      · rw [hcoin] at hspend₀
        obtain ⟨⟨r₁, hr₁, hname₁⟩, -⟩ := spent_of_mem_spendsFrom ht
          (mem_spendsFrom hl (by simpa using hspend₀))
        obtain ⟨c', hc', hname'⟩ := exists_coinsOn (e := e) ht hr₁
        exact not_spent_of_reward hids h rfl hreward c' hc' (hname'.trans hname₁)
      · rw [hcoin] at hreward₀
        exact rewards_disjoint h hl hreward₀ hreward

lemma keyed_append (hids : SoundIds T.H constants.GENESIS_CHALLENGE (coinsOn T constants (l ++ [e])))
    (ht : replay T constants (l.map Prod.fst) = .ok coins) :
    Keyed coinColumns.key (coins ++ blockRows T constants (l.map Prod.fst) e.1) := by
  unfold Keyed
  rw [List.map_append]
  refine List.nodup_append.mpr ⟨keyed_replay ht, (h.fits l e [] rfl).created_nodup, ?_⟩
  intro k hk k' hk' hkk'
  obtain ⟨r, hr, rfl⟩ := List.mem_map.mp hk
  obtain ⟨c, hc, rfl⟩ := List.mem_map.mp hk'
  exact h.fresh hids ht hc hr hkk'

end

/-- A genesis block spends nothing.

**Proof sketch.** There are no coins before it, so it could only spend its own, each of which comes from
another one that it spends. -/
lemma spends_genesis (h : FitChain T constants blocks [e])
    (hids : SoundIds T.H constants.GENESIS_CHALLENGE (coinsOn T constants [e])) :
    blockSpends T constants [] e.1 = [] := by
  obtain ⟨rank, hrank⟩ := hids.acyclic
  have hfits := h.fits [] e [] rfl
  rw [List.eq_nil_iff_forall_not_mem]
  intro k hk
  induction hn : rank k using Nat.strong_induction_on generalizing k with
  | _ n ih =>
    rcases hfits.spends [] rfl k hk with hnew | ⟨r, hr, -⟩
    · obtain ⟨c, hc, hname⟩ := List.mem_map.mp hnew
      rcases origin_of_mem_blockRows hc with hspend | hreward
      · refine ih _ ?_ _ hspend rfl
        rw [← hn, ← hname, (mem_blockRows hc).2.2.1]
        exact hrank _ (mem_coinsOn (l := []) hc)
      · obtain ⟨r, hr, -⟩ := hfits.rewards _ hreward
        cases hr
    · cases hr

/-- A validated block can be applied to the table of its ancestors. -/
lemma exists_replayBlock (h : FitChain T constants blocks (l ++ [e]))
    (hids : SoundIds T.H constants.GENESIS_CHALLENGE (coinsOn T constants (l ++ [e])))
    (ht : replay T constants (l.map Prod.fst) = .ok coins) :
    ∃ coins', replayBlock T constants (l.map Prod.fst) e.1 coins = .ok coins' := by
  have hfits := h.fits l e [] rfl
  have hkeyed := h.keyed_append hids ht
  have hheight : e.1.height = l.length := by
    have hpath := h.chain e (by simp)
    have hlen := hpath.length_eq
    rw [List.length_map, List.length_append, List.length_singleton] at hlen
    rw [← h.height_eq e (by simp)]
    omega
  have halive : ∀ k ∈ blockSpends T constants (l.map Prod.fst) e.1,
      Alive coinColumns (coins ++ blockRows T constants (l.map Prod.fst) e.1) k := by
    intro k hk
    rcases hfits.spends coins ht k hk with hnew | ⟨r, hr, hrk⟩
    · obtain ⟨c, hc, hname⟩ := List.mem_map.mp hnew
      exact ⟨c, List.mem_append_right _ hc, hname, (mem_blockRows hc).2.1⟩
    · exact ⟨r, List.mem_append_left _ hr, hrk⟩
  have hpos : blockSpends T constants (l.map Prod.fst) e.1 ≠ [] → 0 < e.1.height := by
    intro hne
    rw [hheight]
    refine List.length_pos_iff.mpr fun hnil => hne ?_
    subst hnil
    exact h.spends_genesis hids
  have hrewards := hfits.rewards_length
  have hnodup := hfits.spends_nodup
  unfold blockRows at hkeyed halive
  unfold blockSpends at halive hpos hnodup
  unfold replayBlock
  cases hftb : e.1.foliageTransactionBlock with
  | none => exact ⟨coins, rfl⟩
  | some ftb =>
    simp only [hftb] at hkeyed halive hpos hnodup
    refine CoinTable.exists_newBlock ?_ hkeyed hnodup halive hpos
    have hlength := hrewards (by simp [FullBlock.isTransactionBlock, hftb])
    rw [hheight]
    by_cases hnil : l = []
    · rw [if_pos hnil] at hlength
      rw [if_pos (by rw [hnil]; rfl)]
      exact hlength
    · rw [if_neg hnil] at hlength
      rw [if_neg fun h0 => hnil (List.length_eq_zero_iff.mp h0)]
      exact hlength

/-- **A chain of validated blocks can be replayed.** -/
theorem exists_replay (h : FitChain T constants blocks L)
    (hids : SoundIds T.H constants.GENESIS_CHALLENGE (coinsOn T constants L)) :
    ∃ coins, replay T constants (L.map Prod.fst) = .ok coins := by
  induction L using List.reverseRecOn with
  | nil => exact ⟨[], rfl⟩
  | append_singleton l e ih =>
    have hsub : coinsOn T constants l ⊆ coinsOn T constants (l ++ [e]) := by
      rintro c ⟨r, hr, rfl⟩
      refine ⟨r, ?_, rfl⟩
      rw [List.map_append, rowsFrom_append]
      exact List.mem_append_left _ hr
    obtain ⟨coins, ht⟩ := ih h.of_append (hids.mono hsub)
    obtain ⟨coins', ht'⟩ := h.exists_replayBlock hids ht
    refine ⟨coins', ?_⟩
    rw [List.map_append, replay_append, ht, ok_bind, List.map_cons, List.map_nil, replayFrom, ht', ok_bind]
    rfl

end FitChain

end Chives
