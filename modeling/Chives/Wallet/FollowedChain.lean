import Chives.Wallet.NewCoinState

set_option autoImplicit false

/-!
# A wallet that follows a chain

A chain grows and is reorganised, and a wallet beside it rolls its coin store back and is told of the coins.

## Main definitions

* `FollowedChain`, `FollowedChain.step` — the chain and the wallet, and what may happen.
* `FollowedChain.Truthful` — what the wallet is told is, or was, so on the chain.
* `HoldsChainCoins` — the records are those of the coins of the chain.

## Main results

* `FollowedChain.Inv.step` — what the wallet knows, after the rollbacks that are still to come, is right, and up
  to date for the coins that it need not be told of.
* `FollowedChain.run_holdsChainCoins` — in every run, the wallet has the coins of the chain as soon as it has
  been told of those that were created or spent.

## Design

A coin is due when a block creates or spends it, and until a call of `new_coin_state` has told the wallet of its state
at that time. A block that is dropped makes nothing due, since the rollback does what is needed. A call that raises an
exception is rolled back in the database, and the store is made anew from it.
-/

namespace Chives

open Lifespan WalletCoinStore

variable {sha256 : Bytes → Bytes32}

/-! ## What may happen -/

/-- The state of a coin on a chain. -/
def stateOn (chain : List (Block Coin)) (c : Coin) : CoinState where
  coin := c
  spentHeight := (life chain c).bind Prod.snd
  createdHeight := (life chain c).map Prod.fst

variable (sha256) in
/-- A chain, and the coin store of a wallet; `rollbacks` are the fork heights of reorgs that the wallet has not rolled
back yet, and `due` are the coins that it is to be told of. -/
structure FollowedChain where
  chain : List (Block Coin)
  store : WalletCoinStore sha256
  rollbacks : List ℤ
  due : List Coin

namespace FollowedChain

variable (sha256) in
/-- No blocks and no records. -/
def initial : FollowedChain sha256 := ⟨[], create .empty, [], []⟩

/-- What may happen. -/
inductive Event
  | block (b : Block Coin)
  /-- The blocks above the fork are dropped. -/
  | reorg (forkHeight : ℤ)
  /-- `reorg_rollback` for the next reorg. -/
  | reorgRollback
  | newCoinState (states : List (CoinState × Elsewhere))

/-- What happens next. Nothing is spent in the first block, since the spend height 0 means that a coin is not spent.
The wallet rolls back every reorg before it is told of coins. -/
def step (genesisChallenge : Bytes32) (w : FollowedChain sha256) : Event → Option (FollowedChain sha256)
  | .block b =>
    if w.chain = [] ∧ b.died ≠ [] then none
    else some { w with chain := w.chain ++ [b], due := w.due ++ b.born ++ b.died }
  | .reorg forkHeight =>
    if -1 ≤ forkHeight then
      some { w with chain := w.chain.take (forkHeight + 1).toNat, rollbacks := w.rollbacks ++ [forkHeight] }
    else none
  | .reorgRollback =>
    match w.rollbacks with
    | [] => none
    | forkHeight :: rollbacks =>
      some { w with store := w.store.rollbackToBlock forkHeight, rollbacks := rollbacks }
  | .newCoinState states =>
    if w.rollbacks = [] then
      match w.store.newCoinState genesisChallenge states with
      | some store =>
        some { w with
          store := store, due := w.due.filter fun c => ∀ i ∈ states, i.1 ≠ stateOn w.chain c }
      | none => some { w with store := create w.store.table }
    else none

/-- A state that is given to `new_coin_state`: that of a coin of a standard wallet is the one it has on the chain, or
that it had at an earlier height of it. The wallet of its puzzle hash is found, and other wallets only write about
other coins. -/
structure Truthful (standard : Set Bytes32) (coins : Set Coin) (chain : List (Block Coin)) (cs : CoinState)
    (e : Elsewhere) : Prop where
  coin_mem : cs.coin ∈ coins
  state : cs.coin.puzzleHash ∈ standard → ∃ n, cs = stateOn (chain.take n) cs.coin
  wallet : cs.coin.puzzleHash ∈ standard → ∃ walletId, e.walletInfo = some (walletId, .standardWallet)
  others : ∀ w ∈ e.others, w.coin ∈ coins ∧ w.coin.puzzleHash ∉ standard

/-- What the wallet is told is true, and all coins are among the given ones. -/
def Meets (standard : Set Bytes32) (coins : Set Coin) (w : FollowedChain sha256) : Event → Prop
  | .block b => ∀ c, c ∈ b.born ∨ c ∈ b.died → c ∈ coins
  | .newCoinState states => ∀ i ∈ states, Truthful standard coins w.chain i.1 i.2
  | _ => True

section Decide

variable {standard : Set Bytes32} {coins : Set Coin} [DecidablePred fun puzzleHash => puzzleHash ∈ standard]
  [DecidablePred fun c => c ∈ coins]

lemma exists_take_iff {chain : List (Block Coin)} {cs : CoinState} :
    (∃ n, cs = stateOn (chain.take n) cs.coin) ↔
      ∃ n ∈ List.range (chain.length + 1), cs = stateOn (chain.take n) cs.coin := by
  constructor
  · rintro ⟨n, hn⟩
    refine ⟨min n chain.length, List.mem_range.mpr (by omega), ?_⟩
    rwa [← List.take_eq_take_min]
  · rintro ⟨n, -, hn⟩
    exact ⟨n, hn⟩

instance decidableTruthful (chain : List (Block Coin)) (cs : CoinState) (e : Elsewhere) :
    Decidable (Truthful standard coins chain cs e) :=
  have : Decidable (∃ n, cs = stateOn (chain.take n) cs.coin) := decidable_of_iff' _ exists_take_iff
  have : Decidable (∃ walletId, e.walletInfo = some (walletId, .standardWallet)) :=
    decidable_of_iff (e.walletInfo.map Prod.snd = some .standardWallet) <| by
      simp [Option.map_eq_some_iff]
  decidable_of_iff ((cs.coin ∈ coins ∧
      (cs.coin.puzzleHash ∈ standard → ∃ n, cs = stateOn (chain.take n) cs.coin)) ∧
      (cs.coin.puzzleHash ∈ standard → ∃ walletId, e.walletInfo = some (walletId, .standardWallet)) ∧
      ∀ w ∈ e.others, w.coin ∈ coins ∧ w.coin.puzzleHash ∉ standard)
    ⟨fun h => ⟨h.1.1, h.1.2, h.2.1, h.2.2⟩, fun h => ⟨⟨h.coin_mem, h.state⟩, h.wallet, h.others⟩⟩

instance decidableMeets (w : FollowedChain sha256) : (e : Event) → Decidable (Meets standard coins w e)
  | .block b => decidable_of_iff (∀ c ∈ b.born ++ b.died, c ∈ coins) <| by
    simp only [Meets, List.mem_append]
  | .reorg _ => inferInstanceAs (Decidable True)
  | .reorgRollback => inferInstanceAs (Decidable True)
  | .newCoinState states => inferInstanceAs (Decidable (∀ i ∈ states, Truthful standard coins w.chain i.1 i.2))

end Decide

end FollowedChain

/-- The records of coins with the given puzzle hashes are those of the coins that exist on the chain, with the heights
at which they are created and spent there, 0 if they are not spent. -/
structure HoldsChainCoins (standard : Set Bytes32) (chain : List (Block Coin)) (records : List WalletCoinRecord) :
    Prop where
  heights : ∀ r ∈ records, r.coin.puzzleHash ∈ standard → bornAt chain r.coin = some r.confirmedBlockHeight ∧
    r.spentBlockHeight = (diedAt chain r.coin).getD 0 ∧ r.spent = (diedAt chain r.coin).isSome
  exist : ∀ c, c.puzzleHash ∈ standard → (bornAt chain c).isSome = true → ∃ r ∈ records, r.coin = c
  distinct : (records.map WalletCoinRecord.coin).Nodup

namespace FollowedChain

/-! ## The invariant -/

lemma stateLife_stateOn (chain : List (Block Coin)) (c : Coin) : stateLife (stateOn chain c) = life chain c := by
  rw [stateLife, stateOn]
  cases life chain c with
  | none => rfl
  | some x => rfl

variable {chain : List (Block Coin)}

lemma pos_of_diedAt (hgenesis : ∀ b, chain.head? = some b → b.died = []) {c : Coin} {d : ℕ}
    (hd : diedAt chain c = some d) : 0 < d := by
  cases chain with
  | nil => cases hd
  | cons b chain =>
    have hdied := hgenesis b rfl
    rw [diedAt, List.findIdx?_cons, hdied] at hd
    simp only [List.not_mem_nil, decide_false, Bool.false_eq_true, if_false] at hd
    obtain ⟨j, -, rfl⟩ := Option.map_eq_some_iff.mp hd
    exact Nat.succ_pos j

variable {genesisChallenge : Bytes32} {standard : Set Bytes32} {coins : Set Coin} {w u : FollowedChain sha256}

/-- What the wallet knows is right, after the rollbacks that are still to come, and up to date for coins that are not
due. -/
structure Inv (standard : Set Bytes32) (coins : Set Coin) (w : FollowedChain sha256) : Prop where
  tidy : Tidy standard coins w.store
  chain_mem : ∀ b ∈ w.chain, ∀ c, c ∈ b.born ∨ c ∈ b.died → c ∈ coins
  genesis : ∀ b, w.chain.head? = some b → b.died = []
  follows : ∀ c ∈ coins, c.puzzleHash ∈ standard → Lifespan.Follows w.chain w.rollbacks c (c ∈ w.due) (known w.store c)

lemma Truthful.handled {cs : CoinState} {e : Elsewhere} (h : Truthful standard coins chain cs e)
    (hgenesis : ∀ b, chain.head? = some b → b.died = []) :
    Handled standard coins cs e where
  coin_mem := h.coin_mem
  wallet := h.wallet
  pos := by
    intro hstd d hd
    obtain ⟨n, hn⟩ := h.state hstd
    rw [hn, stateOn] at hd
    obtain ⟨x, hx, hspent⟩ := Option.bind_eq_some_iff.mp hd
    obtain ⟨b, -, rfl⟩ := Option.map_eq_some_iff.mp hx
    exact pos_of_diedAt hgenesis (diedAt_of_take hspent)
  others := h.others

/-- **A call of `new_coin_state`**: after it, the coins whose present state is among the states are not due any more.

**Proof sketch.** Induction on the states; each of them is a report of the life of its coin. -/
lemma handleCoinStates_spec (hids : Set.InjOn (Coin.name sha256) coins)
    (hgenesis : ∀ b, chain.head? = some b → b.died = []) {states : List (CoinState × Elsewhere)}
    (hstates : ∀ i ∈ states, Truthful standard coins chain i.1 i.2) {due : Coin → Prop}
    {t t' : WalletCoinStore sha256} (htidy : Tidy standard coins t)
    (hfollows : ∀ c ∈ coins, c.puzzleHash ∈ standard → Lifespan.Follows chain [] c (due c) (known t c))
    (h : t.handleCoinStates genesisChallenge states = some t') :
    Tidy standard coins t' ∧ ∀ c ∈ coins, c.puzzleHash ∈ standard →
      Lifespan.Follows chain [] c (due c ∧ ∀ i ∈ states, i.1 ≠ stateOn chain c) (known t' c) := by
  induction states generalizing t due with
  | nil =>
    obtain rfl := Option.some.inj h
    exact ⟨htidy, fun c hc hstd => (hfollows c hc hstd).mono fun hdue => ⟨hdue, fun i hi => by cases hi⟩⟩
  | cons i states ih =>
    obtain ⟨cs, e⟩ := i
    rw [handleCoinStates] at h
    split at h
    · cases h
    have htrue := hstates _ (List.mem_cons_self ..)
    obtain ⟨htidy', hknown⟩ := handleCoinState_spec genesisChallenge htidy hids
      (htrue.handled hgenesis)
    have hfollows' : ∀ c ∈ coins, c.puzzleHash ∈ standard →
        Lifespan.Follows chain [] c (due c ∧ cs ≠ stateOn chain c) (known (t.handleCoinState genesisChallenge cs e) c) := by
      intro c hc hstd
      rw [hknown c hc hstd]
      by_cases heq : c = cs.coin
      · obtain rfl := heq
        rw [if_pos rfl]
        obtain ⟨n, hn⟩ := htrue.state hstd
        have hlife : stateLife cs = life (chain.take n) cs.coin := by
          rw [← stateLife_stateOn, ← hn]
        have hbefore : Before (stateLife cs) (life chain cs.coin) := by
          rw [hlife]
          exact before_life_take chain n cs.coin
        refine ((hfollows _ hc hstd).report hbefore).mono fun hdue => ⟨hdue.1, fun hcurrent => hdue.2 ?_⟩
        rw [hcurrent, stateLife_stateOn]
        rfl
      · rw [if_neg heq]
        refine (hfollows c hc hstd).mono fun hdue => ⟨hdue, ?_⟩
        rintro rfl
        exact heq rfl
    obtain ⟨htidy'', hrest⟩ := ih (fun i hi => hstates i (List.mem_cons_of_mem _ hi)) htidy' hfollows' h
    refine ⟨htidy'', fun c hc hstd => (hrest c hc hstd).mono fun hdue => ⟨hdue.1.1, fun i hi => ?_⟩⟩
    rcases List.mem_cons.mp hi with rfl | hi
    · exact hdue.1.2
    · exact hdue.2 i hi

/-- **What may happen keeps the knowledge right.** -/
lemma Inv.step (hids : Set.InjOn (Coin.name sha256) coins) (h : Inv standard coins w) {e : Event}
    (he : Meets standard coins w e) (hu : w.step genesisChallenge e = some u) : Inv standard coins u := by
  cases e with
  | block b =>
    simp only [FollowedChain.step] at hu
    split at hu
    · cases hu
    rename_i hfirst
    obtain rfl := Option.some.inj hu
    refine ⟨h.tidy, fun b' hb' c hc => ?_, fun b' hb' => ?_, fun c hc hstd => ?_⟩
    · rcases List.mem_append.mp hb' with hb' | hb'
      · exact h.chain_mem b' hb' c hc
      · obtain rfl := List.mem_singleton.mp hb'
        exact he c hc
    · cases hchain : w.chain with
      | nil =>
        simp only [hchain, List.nil_append, List.head?_cons, Option.some.injEq] at hb'
        rw [hchain] at hfirst
        subst hb'
        simpa using hfirst
      | cons b₀ rest =>
        rw [hchain] at hb'
        exact h.genesis b' (by rw [hchain]; exact hb')
    · refine (h.follows c hc hstd).block (fun hdue => ?_) (fun hborn => ?_) fun hdied => ?_
      · simp [hdue]
      · simp [hborn]
      · simp [hdied]
  | reorg forkHeight =>
    simp only [FollowedChain.step] at hu
    split at hu
    swap
    · cases hu
    rename_i hfork
    obtain rfl := Option.some.inj hu
    refine ⟨h.tidy, fun b hb => h.chain_mem b (List.mem_of_mem_take hb), fun b hb => ?_, fun c hc hstd => ?_⟩
    · refine h.genesis b ?_
      rw [List.head?_take] at hb
      split at hb
      · cases hb
      · exact hb
    · have hreorg := (h.follows c hc hstd).reorg (forkHeight + 1).toNat
      rwa [show ((forkHeight + 1).toNat : ℤ) - 1 = forkHeight by omega] at hreorg
  | reorgRollback =>
    simp only [FollowedChain.step] at hu
    split at hu
    · cases hu
    rename_i forkHeight rollbacks hrollbacks
    obtain rfl := Option.some.inj hu
    refine ⟨h.tidy.rollbackToBlock forkHeight, h.chain_mem, h.genesis, fun c hc hstd => ?_⟩
    have hfollows := h.follows c hc hstd
    rw [hrollbacks] at hfollows
    show Lifespan.Follows w.chain rollbacks c (c ∈ w.due) (known (w.store.rollbackToBlock forkHeight) c)
    rw [known_rollbackToBlock]
    exact hfollows.rollback
  | newCoinState states =>
    simp only [FollowedChain.step] at hu
    split at hu
    swap
    · cases hu
    rename_i hrollbacks
    split at hu
    · rename_i t ht
      obtain rfl := Option.some.inj hu
      have hhandle : w.store.handleCoinStates genesisChallenge states = some t := by
        rw [WalletCoinStore.newCoinState] at ht
        split at ht
        · exact ht
        · cases ht
      have hfollows := h.follows
      rw [hrollbacks] at hfollows
      obtain ⟨htidy, hknown⟩ := handleCoinStates_spec hids h.genesis he h.tidy hfollows hhandle
      refine ⟨htidy, h.chain_mem, h.genesis, fun c hc hstd => ?_⟩
      show Lifespan.Follows w.chain w.rollbacks c _ (known t c)
      rw [hrollbacks]
      exact (hknown c hc hstd).mono fun hdue => List.mem_filter.mpr ⟨hdue.1, by simpa using hdue.2⟩
    · obtain rfl := Option.some.inj hu
      exact ⟨h.tidy.create, h.chain_mem, h.genesis, h.follows⟩

/-! ## Runs -/

lemma inv_initial : Inv standard coins (initial sha256) where
  tidy := ⟨fun _ => rfl, (fun r hr => by cases hr), (fun r hr => by cases hr)⟩
  chain_mem := by
    intro b hb
    cases hb
  genesis := by
    intro b hb
    cases hb
  follows := fun _ _ _ => ⟨.refl none, fun _ => rfl⟩

/-- A wallet that knows all there is to know holds the coins of the chain. -/
lemma Inv.holdsChainCoins (hids : Set.InjOn (Coin.name sha256) coins) (h : Inv standard coins w)
    (hrollbacks : w.rollbacks = []) (hdue : ∀ c ∈ w.due, c.puzzleHash ∉ standard) :
    HoldsChainCoins standard w.chain w.store.table.rows := by
  have hcurrent : ∀ c ∈ coins, c.puzzleHash ∈ standard → known w.store c = life w.chain c := by
    intro c hc hstd
    have hfollows := h.follows c hc hstd
    rw [hrollbacks] at hfollows
    exact hfollows.current fun hmem => hdue c hmem hstd
  refine ⟨fun r hr hstd => ?_, fun c hstd hborn => ?_, nodup_coins w.store.table⟩
  · have hlife := hcurrent r.coin (h.tidy.coin_mem r hr) hstd
    have hget : w.store.table.get? (r.coin.name sha256) = some r := KeyedRows.mem_rows.mp hr
    rw [known, hget, Option.map_some, eq_comm] at hlife
    obtain ⟨b, hb, heq⟩ := Option.map_eq_some_iff.mp hlife
    obtain ⟨hconfirmed, hspent⟩ := Prod.mk.inj heq
    have hsound := h.tidy.sound r hr hstd
    refine ⟨by rw [hb, hconfirmed], ?_⟩
    rw [hspent]
    by_cases hs : r.spent = true
    · rw [if_pos hs]
      exact ⟨rfl, hs⟩
    · rw [if_neg hs]
      have hzero : ¬ 0 < r.spentBlockHeight := fun hpos => hs (hsound.mpr hpos)
      exact ⟨Nat.eq_zero_of_not_pos hzero, by simpa using hs⟩
  · -- the coin is created in a block of the chain
    obtain ⟨b, hb⟩ := Option.isSome_iff_exists.mp hborn
    obtain ⟨hlt, hmem, -⟩ := List.findIdx?_eq_some_iff_getElem.mp hb
    have hc : c ∈ coins := h.chain_mem w.chain[b] (List.getElem_mem hlt) c (.inl (by simpa using hmem))
    have hlife := hcurrent c hc hstd
    rw [life, hb, Option.map_some] at hlife
    obtain ⟨r, hr, -⟩ := Option.map_eq_some_iff.mp hlife
    exact ⟨r, (KeyedRows.get?_eq_some.mp hr).1, h.tidy.coin_eq hids hc hr⟩

/-- **The wallet's coins are the chain's coins.** In every run of a chain and a wallet from the start on, in which what
the wallet is told is true, the table and the cache of the coin store hold the coins of the chain with the puzzle
hashes of standard wallets, as soon as every reorg has been rolled back and the wallet has been told of every such coin
that a block created or spent. -/
theorem run_holdsChainCoins (hids : Set.InjOn (Coin.name sha256) coins) {events : List Event}
    (hmeets : Transition.Along (step genesisChallenge) (Meets standard coins) (initial sha256) events)
    (h : Transition.run (step genesisChallenge) (initial sha256) events = some w)
    (hrollbacks : w.rollbacks = []) (hdue : ∀ c ∈ w.due, c.puzzleHash ∉ standard) :
    HoldsChainCoins standard w.chain w.store.table.rows ∧
      HoldsChainCoins standard w.chain w.store.coinRecordCache.rows := by
  have hinv : Inv standard coins w :=
    Transition.invariant_along inv_initial (fun _ _ _ he hinv hu => hinv.step hids he hu) hmeets h
  have htable := hinv.holdsChainCoins hids hrollbacks hdue
  have hmem : ∀ r, r ∈ w.store.coinRecordCache.rows ↔ r ∈ w.store.table.rows := fun r => by
    rw [KeyedRows.mem_rows, KeyedRows.mem_rows, hinv.tidy.cache]
  refine ⟨htable, fun r hr => htable.heights r ((hmem r).mp hr), fun c hstd hborn => ?_, nodup_coins _⟩
  obtain ⟨r, hr, hcoin⟩ := htable.exist c hstd hborn
  exact ⟨r, (hmem r).mpr hr, hcoin⟩

/-! ## A coin that is spent again -/

/-- A coin of a puzzle hash. -/
def walletCoin (amount : ℕ) : Coin := ⟨Bytes32.zero, Bytes32.ofNat 7, amount⟩

/-- The standard wallet is found, and nothing else happens. -/
def foundWallet : Elsewhere := ⟨some (1, .standardWallet), none, false, []⟩

/-- The coins of amounts 1 and 300 have different names. -/
def lengthHash (message : Bytes) : Bytes32 := Bytes32.ofNat message.length

/-- A coin is created and spent, which creates another one, and after a reorg the first one is not spent. -/
def spentAndReorged : List Event :=
  [.block ⟨[], []⟩, .block ⟨[walletCoin 1], []⟩, .block ⟨[walletCoin 300], [walletCoin 1]⟩,
    .newCoinState [(⟨walletCoin 1, some 2, some 1⟩, foundWallet), (⟨walletCoin 300, none, some 2⟩, foundWallet)],
    .reorg 1, .block ⟨[], []⟩, .reorgRollback, .block ⟨[walletCoin 300], []⟩,
    .newCoinState [(⟨walletCoin 1, none, some 1⟩, foundWallet), (⟨walletCoin 300, none, some 3⟩, foundWallet)]]

/-- The puzzle hash of the wallet. -/
def walletPuzzleHashes : Set Bytes32 := {puzzleHash | puzzleHash = Bytes32.ofNat 7}

/-- The two coins. -/
def walletCoins : Set Coin := {c | c = walletCoin 1 ∨ c = walletCoin 300}

instance : DecidablePred fun puzzleHash => puzzleHash ∈ walletPuzzleHashes :=
  fun puzzleHash => inferInstanceAs (Decidable (puzzleHash = Bytes32.ofNat 7))

instance : DecidablePred fun c => c ∈ walletCoins :=
  fun c => inferInstanceAs (Decidable (c = walletCoin 1 ∨ c = walletCoin 300))

/-- The wallet ends with the coins of the last chain. -/
theorem run_holdsChainCoins_spentAndReorged : ∃ w,
    Transition.run (step Bytes32.zero) (initial lengthHash) spentAndReorged = some w ∧
      w.store.table.rows.map (fun r => (r.coin, r.confirmedBlockHeight, r.spentBlockHeight)) =
        [(walletCoin 1, 1, 0), (walletCoin 300, 3, 0)] ∧
      HoldsChainCoins walletPuzzleHashes w.chain w.store.table.rows := by
  have hids : Set.InjOn (Coin.name lengthHash) walletCoins := by
    have hne : (walletCoin 1).name lengthHash ≠ (walletCoin 300).name lengthHash := by decide +kernel
    rintro c (rfl | rfl) d (rfl | rfl) hname
    · rfl
    · exact absurd hname hne
    · exact absurd hname.symm hne
    · rfl
  have hmeets : Transition.Along (step Bytes32.zero) (Meets walletPuzzleHashes walletCoins) (initial lengthHash)
      spentAndReorged := by
    decide +kernel
  have hsome : (Transition.run (step Bytes32.zero) (initial lengthHash) spentAndReorged).any (fun w =>
      w.store.table.rows.map (fun r => (r.coin, r.confirmedBlockHeight, r.spentBlockHeight)) =
        [(walletCoin 1, 1, 0), (walletCoin 300, 3, 0)] ∧ w.rollbacks = [] ∧ w.due = []) = true := by
    decide +kernel
  cases hrun : Transition.run (step Bytes32.zero) (initial lengthHash) spentAndReorged with
  | none =>
    rw [hrun] at hsome
    cases hsome
  | some w =>
    rw [hrun, Option.any_some, decide_eq_true_eq] at hsome
    obtain ⟨hrows, hrollbacks, hdue⟩ := hsome
    refine ⟨w, rfl, hrows, (run_holdsChainCoins hids hmeets hrun hrollbacks ?_).1⟩
    rw [hdue]
    intro c hc
    cases hc

end FollowedChain

end Chives
