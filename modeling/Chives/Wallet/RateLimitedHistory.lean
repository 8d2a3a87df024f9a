import Mathlib.Algebra.Order.BigOperators.Group.List
import Mathlib.Algebra.Order.Field.Basic
import Mathlib.Tactic.Linarith
import Chives.Library.Transition
import Chives.Wallet.RateLimitedPuzzle

set_option autoImplicit false

/-!
# Histories of rate limited coins

Bundles of spends are put into blocks, and some of them spend coins with the rate limited puzzle. A coin of this puzzle
leaves a coin of this puzzle, so that there is a line of them, and what is lost along the line is limited.

## Main definitions

* `CoinChain`, `CoinChain.step` — the coins of a chain, and the blocks that change them.
* `CoinChain.descendants` — the coins that descend from a coin.
* `RateLimitedPuzzle` — the compiled puzzle and what it is curried with.
* `RateLimitedPuzzle.KeepsRate` — no coin is drained faster than its rate.
* `RateLimitedPuzzle.WithinRate` — a spend takes no more than the rate allows, with what the puzzle does not
  limit.

## Main results

* `RateLimitedPuzzle.exists_change` — what a spend leaves.
* `RateLimitedPuzzle.run_keepsRate` — the rate is kept in every run whose spends meet the condition.
* `RateLimitedPuzzle.not_keepsRate_fee` — a fee drains a coin at once.

## Design

The spends of a bundle are in an order in which coins are created before they are spent. Of the conditions about the
chain, only the one about relative heights is part of the model; bounds hold all the more under the others. Rewards are
coins without a parent.
-/

namespace Chives

open SExp

/-! ## Chains of bundles -/

section Chain

variable (sha256 : Bytes → Bytes32) (run : SExp → SExp → Eval SExp)

/-- The coins that were ever confirmed and those that are not spent, each with the height at which it was confirmed, and
all spends so far. -/
structure CoinChain where
  height : ℕ
  confirmed : List (Coin × ℕ)
  unspent : List (Coin × ℕ)
  spends : List (ValidSpend sha256 run)

variable {sha256 run}

/-- The minimal ages that a spend asserts. -/
def ValidSpend.relativeHeights (s : ValidSpend sha256 run) : List ℤ :=
  s.conditions.filterMap fun cvp =>
    if cvp.opcode = RateLimited.assertHeightRelative then cvp.vars.head?.map intFromBytes else none

namespace CoinChain

variable (sha256 run) in
/-- No coins. -/
def initial : CoinChain sha256 run := ⟨0, [], [], []⟩

/-- The entry of a coin that is not spent. -/
def entry (chain : CoinChain sha256 run) (c : Coin) : Option (Coin × ℕ) := chain.unspent.find? fun e => e.1 = c

/-- One spend. -/
def spendCoin (chain : CoinChain sha256 run) (s : ValidSpend sha256 run) : Option (CoinChain sha256 run) :=
  match chain.entry s.coin with
  | none => none
  | some e =>
    if ∀ m ∈ s.relativeHeights, (e.2 : ℤ) + m ≤ chain.height then
      some { chain with
        confirmed := chain.confirmed ++ s.additions.map fun c => (c, chain.height)
        unspent := chain.unspent.erase e ++ s.additions.map fun c => (c, chain.height)
        spends := chain.spends ++ [s] }
    else none

/-- What is put into a block. -/
inductive Event (sha256 : Bytes → Bytes32) (run : SExp → SExp → Eval SExp)
  | reward (c : Coin) (height : ℕ)
  | bundle (spends : List (ValidSpend sha256 run)) (height : ℕ)

/-- A reward is confirmed, or the spends of a bundle, which create no coin twice and no more than they remove. -/
def step (chain : CoinChain sha256 run) : Event sha256 run → Option (CoinChain sha256 run)
  | .reward c height =>
    if chain.height ≤ height then
      some { chain with
        height := height
        confirmed := chain.confirmed ++ [(c, height)]
        unspent := chain.unspent ++ [(c, height)] }
    else none
  | .bundle spends height =>
    if chain.height ≤ height ∧ (spends.flatMap fun s => s.additions).Nodup ∧
        ((spends.flatMap fun s => s.additions).map Coin.amount).sum ≤ (spends.map fun s => s.coin.amount).sum then
      Transition.run spendCoin { chain with height := height } spends
    else none

/-- The coins that descend from a coin, with itself. -/
def descendants (spends : List (ValidSpend sha256 run)) (c : Coin) : List Coin :=
  spends.foldl (fun family s => if s.coin ∈ family then family ++ s.additions else family) [c]

lemma descendants_append_singleton (spends : List (ValidSpend sha256 run)) (s : ValidSpend sha256 run) (c : Coin) :
    descendants (spends ++ [s]) c =
      if s.coin ∈ descendants spends c then descendants spends c ++ s.additions else descendants spends c := by
  rw [descendants, List.foldl_append]
  rfl

lemma mem_descendants_append {spends : List (ValidSpend sha256 run)} {c d : Coin} (h : d ∈ descendants spends c)
    (s : ValidSpend sha256 run) : d ∈ descendants (spends ++ [s]) c := by
  rw [descendants_append_singleton]
  split
  · exact List.mem_append_left _ h
  · exact h

lemma self_mem_descendants (spends : List (ValidSpend sha256 run)) (c : Coin) : c ∈ descendants spends c := by
  induction spends using List.reverseRecOn with
  | nil => exact List.mem_singleton_self c
  | append_singleton spends s ih => exact mem_descendants_append ih s

end CoinChain

end Chain

/-! ## The puzzle -/

section Puzzle

variable (sha256 : Bytes → Bytes32) (run : SExp → SExp → Eval SExp)

/-- The compiled puzzle and what it is curried with (`rl_puzzle_for_pk`): a run that returns is as the source says. -/
structure RateLimitedPuzzle where
  mod : SExp
  pubkey : SExp
  rateAmount : ℕ
  intervalTime : ℕ
  originId : SExp
  clawbackPubkey : SExp
  rateAmount_pos : 1 ≤ rateAmount
  intervalTime_pos : 1 ≤ intervalTime
  run_mod : ∀ pubkey rateAmount intervalTime originId clawbackPubkey solution out,
    run (curry mod [pubkey, rateAmount, intervalTime, originId, clawbackPubkey]) solution = .ok out →
      RateLimited.rl sha256 pubkey rateAmount intervalTime originId clawbackPubkey solution = .ok out

variable {sha256 run}

namespace RateLimitedPuzzle

/-- What is assumed of a spend of a coin of the puzzle: what is hashed for it is in `M`, the fields that are hashed for
the id of the coin have the proper widths, and it is not a clawback. -/
structure Ordinary (M : Set Bytes) (s : ValidSpend sha256 run) : Prop where
  coin : s.coin.message ∈ M
  puzzle : s.puzzleReveal.HashedIn sha256 M
  fields : ∀ parent ph amount, RateLimited.idFields s.solution = .ok (.atom parent, .atom ph, .atom amount) →
    parent ++ ph ++ amount ∈ M ∧ parent.length = 32 ∧ ph.length = 32
  not_clawback : ¬ RateLimited.IsClawback s.solution

variable (P : RateLimitedPuzzle sha256 run)

/-- The curried puzzle. -/
def puzzle : SExp :=
  curry P.mod [P.pubkey, ofInt P.rateAmount, ofInt P.intervalTime, P.originId, P.clawbackPubkey]

/-- Its puzzle hash. -/
def hash : Bytes32 := P.puzzle.treeHash sha256

/-- All spends of coins of this puzzle in a bundle are ordinary. -/
def OrdinaryEvent (M : Set Bytes) : CoinChain.Event sha256 run → Prop
  | .reward _ _ => True
  | .bundle spends _ => ∀ s ∈ spends, s.coin.puzzleHash = P.hash → Ordinary M s

/-- A spend with a fee, or one that merges the coin with a loss, takes no more from the coin than the rate allows for
its age. -/
def WithinRate (chain : CoinChain sha256 run) (s : ValidSpend sha256 run) : Prop :=
  s.coin.puzzleHash = P.hash → ∀ e payment rest, chain.entry s.coin = some e →
    RateLimited.taken s.solution = .ok (payment, rest) → 0 < rest →
      (payment + rest) * P.intervalTime ≤ P.rateAmount * ((chain.height : ℤ) - e.2)

/-- All spends of a bundle are within the rate. -/
def WithinRateEvent (chain : CoinChain sha256 run) : CoinChain.Event sha256 run → Prop
  | .reward _ _ => True
  | .bundle spends height => Transition.Along CoinChain.spendCoin P.WithinRate { chain with height := height } spends

/-- The unspent amount of this puzzle that descends from a coin. -/
def remaining (chain : CoinChain sha256 run) (c : Coin) : ℕ :=
  (((chain.unspent.map Prod.fst).filter fun d =>
    d.puzzleHash = P.hash ∧ d ∈ CoinChain.descendants chain.spends c).map Coin.amount).sum

/-- **No coin is drained faster than its rate**, up to any later height without further spends. -/
def KeepsRate (chain : CoinChain sha256 run) : Prop :=
  ∀ e ∈ chain.confirmed, e.1.puzzleHash = P.hash → ∀ h : ℕ, chain.height ≤ h →
    (e.1.amount : ℚ) - P.rateAmount * ((h : ℚ) - e.2) / P.intervalTime ≤ P.remaining chain e.1

variable {P} {M : Set Bytes} {chain chain' : CoinChain sha256 run} {s : ValidSpend sha256 run}

/-! ## Single spends -/

/-- **What a spend leaves**: a coin of the same puzzle with all that it does not take. A payment is covered by an age
that is asserted. -/
lemma exists_change (hM : Set.InjOn sha256 M) (hpuzzle : P.puzzle.HashedIn sha256 M) (hs : Ordinary M s)
    (hhash : s.coin.puzzleHash = P.hash) : ∃ payment rest, RateLimited.taken s.solution = .ok (payment, rest) ∧
      (∃ c ∈ s.additions, c.puzzleHash = P.hash ∧ (c.amount : ℤ) = s.coin.amount - (payment + rest)) ∧
      (payment = 0 ∨ ∃ m ∈ s.relativeHeights, payment * P.intervalTime ≤ m * P.rateAmount) := by
  have hreveal : s.puzzleReveal = P.puzzle :=
    treeHash_inj hM hs.puzzle hpuzzle (s.puzzleReveal_treeHash.trans hhash)
  have hrun := s.run_eq
  rw [hreveal] at hrun
  obtain ⟨parent, ph, amount, payment, rest, hfields, htaken, hassert, ⟨c, hc, hcreated⟩, hage⟩ :=
    RateLimited.rl_eq_ok (P.run_mod _ _ _ _ _ _ _ hrun) hs.not_clawback (asInt_ofInt _) (asInt_ofInt _)
  obtain ⟨hmem, hparent, hph⟩ := hs.fields parent ph amount hfields
  -- the id that is asserted is that of the coin
  have hid : sha256 s.coin.message = sha256 (parent ++ ph ++ amount) := by
    have hcond := s.holds _ (s.mem_conditions hassert rfl)
    exact (Bytes32.ext (Option.some.inj (hcond.coinId rfl))).symm
  obtain ⟨-, hcoinPh, hcoinAmount⟩ := Coin.message_eq hparent hph (hM hs.coin hmem hid)
  have hamount : intFromBytes amount = s.coin.amount := by
    rw [← hcoinAmount, intFromBytes_intToBytes]
  refine ⟨payment, rest, htaken, ?_, ?_⟩
  · have hadded : (ph, intFromBytes amount - (payment + rest)) ∈
        s.additions.map fun c => (c.puzzleHash.bytes, (c.amount : ℤ)) := by
      rw [s.map_additions]
      exact List.mem_filterMap.mpr ⟨c, hc, hcreated⟩
    obtain ⟨d, hd, heq⟩ := List.mem_map.mp hadded
    obtain ⟨hdPh, hdAmount⟩ := Prod.mk.inj heq
    refine ⟨d, hd, ?_, by rw [hdAmount, hamount]⟩
    rw [← hhash]
    exact Bytes32.ext (hdPh.trans hcoinPh.symm)
  · rcases hage with hzero | ⟨time, htime, hle⟩
    · exact .inl hzero
    · exact .inr ⟨_, List.mem_filterMap.mpr ⟨_, s.mem_conditions htime rfl, rfl⟩, hle⟩

/-- A coin of this puzzle that is not spent and descends from another one, with what may have been lost since that was
confirmed. -/
def Heir (P : RateLimitedPuzzle sha256 run) (chain : CoinChain sha256 run) (e f : Coin × ℕ) : Prop :=
  f ∈ chain.unspent ∧ f.1.puzzleHash = P.hash ∧ f.1 ∈ CoinChain.descendants chain.spends e.1 ∧ f.2 ≤ chain.height ∧
    (e.1.amount : ℤ) * P.intervalTime ≤ f.1.amount * P.intervalTime + P.rateAmount * ((f.2 : ℤ) - e.2)

/-- Every coin of this puzzle has an heir. -/
def Inv (P : RateLimitedPuzzle sha256 run) (chain : CoinChain sha256 run) : Prop :=
  ∀ e ∈ chain.confirmed, e.1.puzzleHash = P.hash → ∃ f, P.Heir chain e f

lemma taken_le {payment rest age : ℤ} (hage : 0 ≤ age)
    (hpayment : payment = 0 ∨ ∃ m ≤ age, payment * P.intervalTime ≤ m * P.rateAmount)
    (hrest : 0 < rest → (payment + rest) * P.intervalTime ≤ P.rateAmount * age) :
    (payment + rest) * P.intervalTime ≤ P.rateAmount * age := by
  by_cases hpos : 0 < rest
  · exact hrest hpos
  · have hrate : (0 : ℤ) ≤ P.rateAmount := Int.natCast_nonneg _
    have hinterval : (0 : ℤ) ≤ P.intervalTime := Int.natCast_nonneg _
    have hloss : rest * P.intervalTime ≤ 0 := mul_nonpos_of_nonpos_of_nonneg (not_lt.mp hpos) hinterval
    rcases hpayment with rfl | ⟨m, hm, hle⟩
    · have hallowed := mul_nonneg hrate hage
      linarith
    · have hallowed : m * P.rateAmount ≤ age * P.rateAmount := mul_le_mul_of_nonneg_right hm hrate
      linarith

/-- **One spend**: if the heir of a coin is spent, its change is the next heir. -/
lemma Inv.spendCoin (hM : Set.InjOn sha256 M) (hpuzzle : P.puzzle.HashedIn sha256 M)
    (hs : s.coin.puzzleHash = P.hash → Ordinary M s) (hwithin : P.WithinRate chain s) (h : P.Inv chain)
    (hu : chain.spendCoin s = some chain') : P.Inv chain' := by
  rw [CoinChain.spendCoin] at hu
  split at hu
  · cases hu
  rename_i spent hentry
  split at hu
  swap
  · cases hu
  rename_i hheights
  obtain rfl := Option.some.inj hu
  have hcoin : spent.1 = s.coin := by simpa using List.find?_some hentry
  intro e he hhash
  rcases List.mem_append.mp he with he | he
  · obtain ⟨f, hmem, hfhash, hfamily, hfheight, hlost⟩ := h e he hhash
    by_cases hf : f = spent
    · subst hf
      rw [hcoin] at hfhash hfamily hlost
      obtain ⟨payment, rest, htaken, ⟨c, hc, hchash, hcamount⟩, hpayment⟩ :=
        exists_change hM hpuzzle (hs hfhash) hfhash
      have hbound : (payment + rest) * P.intervalTime ≤ P.rateAmount * ((chain.height : ℤ) - f.2) := by
        refine taken_le (by omega) ?_ fun hpos => hwithin hfhash f payment rest hentry htaken hpos
        refine hpayment.imp_right fun ⟨m, hm, hle⟩ => ⟨m, ?_, hle⟩
        have hm' := hheights m hm
        omega
      refine ⟨(c, chain.height), List.mem_append_right _ (List.mem_map_of_mem hc), hchash, ?_, le_refl _, ?_⟩
      · show c ∈ CoinChain.descendants (chain.spends ++ [s]) e.1
        rw [CoinChain.descendants_append_singleton, if_pos hfamily]
        exact List.mem_append_right _ hc
      · show (e.1.amount : ℤ) * P.intervalTime ≤ c.amount * P.intervalTime + P.rateAmount * ((chain.height : ℤ) - e.2)
        rw [hcamount]
        linarith
    · refine ⟨f, List.mem_append_left _ ((List.mem_erase_of_ne hf).mpr hmem), hfhash, ?_, hfheight, hlost⟩
      exact CoinChain.mem_descendants_append hfamily s
  · obtain ⟨c, hc, rfl⟩ := List.mem_map.mp he
    refine ⟨(c, chain.height), List.mem_append_right _ he, hhash, CoinChain.self_mem_descendants _ _, le_refl _, ?_⟩
    show (c.amount : ℤ) * P.intervalTime ≤ c.amount * P.intervalTime + P.rateAmount * ((chain.height : ℤ) - chain.height)
    linarith

lemma Inv.later (h : P.Inv chain) {height : ℕ} (hle : chain.height ≤ height) :
    P.Inv { chain with height := height } := by
  intro e he hhash
  obtain ⟨f, hmem, hfhash, hfamily, hfheight, hlost⟩ := h e he hhash
  exact ⟨f, hmem, hfhash, hfamily, hfheight.trans hle, hlost⟩

lemma Inv.spendCoins (hM : Set.InjOn sha256 M) (hpuzzle : P.puzzle.HashedIn sha256 M)
    {spends : List (ValidSpend sha256 run)} (hs : ∀ s ∈ spends, s.coin.puzzleHash = P.hash → Ordinary M s)
    (hwithin : Transition.Along CoinChain.spendCoin P.WithinRate chain spends) (h : P.Inv chain)
    (hu : Transition.run CoinChain.spendCoin chain spends = some chain') : P.Inv chain' := by
  induction spends generalizing chain with
  | nil =>
    obtain rfl := Option.some.inj hu
    exact h
  | cons s spends ih =>
    obtain ⟨next, hnext, hrest⟩ := Option.bind_eq_some_iff.mp hu
    exact ih (fun s' hs' => hs s' (List.mem_cons_of_mem _ hs')) (hwithin.2 next hnext)
      (h.spendCoin hM hpuzzle (hs s (List.mem_cons_self ..)) hwithin.1 hnext) hrest

/-! ## Runs -/

/-- **One step** keeps an heir for every coin. -/
lemma Inv.step (hM : Set.InjOn sha256 M) (hpuzzle : P.puzzle.HashedIn sha256 M) {e : CoinChain.Event sha256 run}
    (he : P.OrdinaryEvent M e) (hwithin : P.WithinRateEvent chain e) (h : P.Inv chain)
    (hu : chain.step e = some chain') : P.Inv chain' := by
  cases e with
  | reward c height =>
    rw [CoinChain.step] at hu
    split at hu
    swap
    · cases hu
    rename_i hle
    obtain rfl := Option.some.inj hu
    intro e he hhash
    rcases List.mem_append.mp he with he | he
    · obtain ⟨f, hmem, hrest⟩ := h.later hle e he hhash
      exact ⟨f, List.mem_append_left _ hmem, hrest⟩
    · obtain rfl := List.mem_singleton.mp he
      refine ⟨(c, height), List.mem_append_right _ he, hhash, CoinChain.self_mem_descendants _ _, le_refl _, ?_⟩
      linarith
  | bundle spends height =>
    rw [CoinChain.step] at hu
    split at hu
    · rename_i hvalid
      exact (h.later hvalid.1).spendCoins hM hpuzzle he hwithin hu
    · cases hu

lemma Inv.keepsRate (h : P.Inv chain) : P.KeepsRate chain := by
  intro e he hhash height hheight
  obtain ⟨f, hmem, hfhash, hfamily, hfheight, hlost⟩ := h e he hhash
  have hremaining : f.1.amount ≤ P.remaining chain e.1 := by
    refine List.le_sum_of_mem (List.mem_map_of_mem (List.mem_filter.mpr ⟨List.mem_map_of_mem hmem, ?_⟩))
    exact decide_eq_true ⟨hfhash, hfamily⟩
  have hinterval : (0 : ℚ) < P.intervalTime := by exact_mod_cast P.intervalTime_pos
  have hrate : (0 : ℚ) ≤ P.rateAmount := Nat.cast_nonneg _
  have hlost' : (e.1.amount : ℚ) * P.intervalTime ≤
      f.1.amount * P.intervalTime + P.rateAmount * ((f.2 : ℚ) - e.2) := by exact_mod_cast hlost
  have hremaining' : (f.1.amount : ℚ) ≤ P.remaining chain e.1 := by exact_mod_cast hremaining
  have hage : (f.2 : ℚ) ≤ height := by exact_mod_cast hfheight.trans hheight
  have hallowed : (P.rateAmount : ℚ) * ((f.2 : ℚ) - e.2) ≤ P.rateAmount * ((height : ℚ) - e.2) :=
    mul_le_mul_of_nonneg_left (by linarith) hrate
  rw [sub_le_iff_le_add, ← sub_le_iff_le_add', le_div_iff₀ hinterval]
  have hscaled : (f.1.amount : ℚ) * P.intervalTime ≤ P.remaining chain e.1 * P.intervalTime :=
    mul_le_mul_of_nonneg_right hremaining' hinterval.le
  linarith

/-- **Rate limited coins are not drained faster than their rate**, in every run of blocks from the start on in which no
coin of the puzzle is clawed back, and every spend of one with a fee, or with a loss when coins are merged, takes no
more than the rate allows for the age of the coin. -/
theorem run_keepsRate (hM : Set.InjOn sha256 M) (hpuzzle : P.puzzle.HashedIn sha256 M)
    {events : List (CoinChain.Event sha256 run)} (hordinary : ∀ e ∈ events, P.OrdinaryEvent M e)
    (hwithin : Transition.Along CoinChain.step P.WithinRateEvent (CoinChain.initial sha256 run) events)
    (h : Transition.run CoinChain.step (CoinChain.initial sha256 run) events = some chain) : P.KeepsRate chain := by
  have hinv : P.Inv chain :=
    Transition.invariant_along (P := fun t e => P.OrdinaryEvent M e ∧ P.WithinRateEvent t e) nofun
      (fun _ _ _ he hinv hu => hinv.step hM hpuzzle he.1 he.2 hu) ((Transition.along_of_forall hordinary _).and hwithin) h
  exact hinv.keepsRate

end RateLimitedPuzzle

end Puzzle

/-! ## A payment and a fee

A coin of amount 100 with rate 1 in each block. The stand-in for the compiled puzzle is an atom that `run` knows. -/

namespace RateLimitedSample

/-- The stand-in for the compiled puzzle. -/
def mod : SExp := .atom [78]

/-- How programs run. -/
def run (program solution : SExp) : Eval SExp :=
  match program with
  | .pair _ (.pair _ (.pair (.pair _ (.pair (.pair _ a) (.pair (.pair _ (.pair (.pair _ b) (.pair (.pair _
      (.pair (.pair _ c) (.pair (.pair _ (.pair (.pair _ d) (.pair (.pair _ (.pair (.pair _ e) _)) _))) _))) _))) _)))
      _)) =>
    if program = curry mod [a, b, c, d, e] then RateLimited.rl sampleHash a b c d e solution
    else .error .unknownProgram
  | _ => .error .unknownProgram

lemma length_origin : (List.replicate 32 (255 : UInt8)).length = 32 := rfl

/-- The origin. -/
def origin : Bytes32 := ⟨List.replicate 32 255, length_origin⟩

/-- The puzzle. -/
def puzzle : RateLimitedPuzzle sampleHash run where
  mod := mod
  pubkey := .atom [1]
  rateAmount := 1
  intervalTime := 1
  originId := .atom origin.bytes
  clawbackPubkey := .atom [2]
  rateAmount_pos := le_refl 1
  intervalTime_pos := le_refl 1
  run_mod := by
    intro a b c d e solution out h
    have hrun : run (curry mod [a, b, c, d, e]) solution =
        if curry mod [a, b, c, d, e] = curry mod [a, b, c, d, e] then RateLimited.rl sampleHash a b c d e solution
        else .error .unknownProgram := rfl
    rw [hrun, if_pos rfl] at h
    exact h

/-- A coin of the puzzle. -/
def coin : Coin := ⟨origin, puzzle.hash, 100⟩

/-- A solution for the rate limited mode. -/
def solution (outgoingAmount minBlockTime fee : Bytes) : SExp :=
  ofList [.atom [1], .atom origin.bytes, .atom puzzle.hash.bytes, .atom [100], .atom Bytes32.zero.bytes,
    .atom outgoingAmount, .atom minBlockTime, nil, nil, .atom fee]

/-- What the puzzle returns. -/
def output (solution : SExp) (minBlockTime change outgoingAmount : Bytes) : SExp :=
  .pair (RateLimited.aggsigSolutionWithKey sampleHash (.atom [1]) solution)
    (ofList [ofList [.atom [82], .atom minBlockTime], ofList [.atom [51], .atom puzzle.hash.bytes, .atom change],
      ofList [.atom [70], .atom (coin.name sampleHash).bytes],
      ofList [.atom [51], .atom Bytes32.zero.bytes, .atom outgoingAmount]])

/-- Its conditions. -/
def conditions (solution : SExp) (minBlockTime change outgoingAmount : Bytes) : List ConditionWithArgs :=
  [⟨[49], [[1], (solution.treeHash sampleHash).bytes]⟩, ⟨[82], [minBlockTime]⟩, ⟨[51], [puzzle.hash.bytes, change]⟩,
    ⟨[70], [(coin.name sampleHash).bytes]⟩, ⟨[51], [Bytes32.zero.bytes, outgoingAmount]⟩]

lemma holdsFor (solution : SExp) (minBlockTime change outgoingAmount : Bytes) :
    ∀ cvp ∈ conditions solution minBlockTime change outgoingAmount, cvp.HoldsFor sampleHash coin := by
  intro cvp hc
  simp only [conditions, List.mem_cons, List.not_mem_nil, or_false] at hc
  rcases hc with rfl | rfl | rfl | rfl | rfl
  · exact ⟨fun h => (by cases h), fun h => (by cases h), fun h => (by cases h)⟩
  · exact ⟨fun h => (by cases h), fun h => (by cases h), fun h => (by cases h)⟩
  · exact ⟨fun h => (by cases h), fun h => (by cases h), fun h => (by cases h)⟩
  · exact ⟨fun _ => rfl, fun h => (by cases h), fun h => (by cases h)⟩
  · exact ⟨fun h => (by cases h), fun h => (by cases h), fun h => (by cases h)⟩

/-- A payment of 1, after one block. -/
def pay : ValidSpend sampleHash run where
  coin := coin
  puzzleReveal := puzzle.puzzle
  solution := solution [1] [1] []
  output := output (solution [1] [1] []) [1] [99] [1]
  conditions := conditions (solution [1] [1] []) [1] [99] [1]
  additions := [⟨coin.name sampleHash, puzzle.hash, 99⟩, ⟨coin.name sampleHash, Bytes32.zero, 1⟩]
  puzzleReveal_treeHash := rfl
  run_eq := by decide +kernel
  conditions_eq := rfl
  additions_eq := createdOutputs_eq (l := [(puzzle.hash, [99], 99), (Bytes32.zero, [1], 1)]) rfl (by decide)
  holds := holdsFor _ _ _ _

/-- A fee of 100, at once. -/
def drain : ValidSpend sampleHash run where
  coin := coin
  puzzleReveal := puzzle.puzzle
  solution := solution [] [] [100]
  output := output (solution [] [] [100]) [] [] []
  conditions := conditions (solution [] [] [100]) [] [] []
  additions := [⟨coin.name sampleHash, puzzle.hash, 0⟩, ⟨coin.name sampleHash, Bytes32.zero, 0⟩]
  puzzleReveal_treeHash := rfl
  run_eq := by decide +kernel
  conditions_eq := rfl
  additions_eq := createdOutputs_eq (l := [(puzzle.hash, [], 0), (Bytes32.zero, [], 0)]) rfl (by decide)
  holds := holdsFor _ _ _ _

/-- What is hashed. -/
def messages : List Bytes := coin.message :: treeMessages sampleHash puzzle.puzzle

lemma injOn_messages : Set.InjOn sampleHash {m | m ∈ messages} := by
  have hinj : ∀ m ∈ messages, ∀ m' ∈ messages, sampleCode m = sampleCode m' → m = m' := by
    simp only [messages, coin, RateLimitedPuzzle.hash, RateLimitedPuzzle.puzzle, puzzle]
    rw [sampleHash_eq, sampleCode_eq]
    decide +kernel
  exact sampleHash_injOn hinj

lemma hashedIn_puzzle : puzzle.puzzle.HashedIn sampleHash {m | m ∈ messages} :=
  hashedIn_of_treeMessages fun _ hm => List.mem_cons_of_mem _ hm

lemma ordinary {s : ValidSpend sampleHash run} (hcoin : s.coin = coin) (hreveal : s.puzzleReveal = puzzle.puzzle)
    {outgoingAmount minBlockTime fee : Bytes} (hsolution : s.solution = solution outgoingAmount minBlockTime fee) :
    RateLimitedPuzzle.Ordinary {m | m ∈ messages} s where
  coin := by
    rw [hcoin]
    exact List.mem_cons_self ..
  puzzle := by
    rw [hreveal]
    exact hashedIn_puzzle
  fields := by
    intro parent ph amount hfields
    rw [hsolution] at hfields
    have hsame : Except.ok (SExp.atom origin.bytes, SExp.atom puzzle.hash.bytes, SExp.atom [100]) =
        (Except.ok (.atom parent, .atom ph, .atom amount) : Eval (SExp × SExp × SExp)) := hfields
    simp only [Except.ok.injEq, Prod.mk.injEq, SExp.atom.injEq] at hsame
    obtain ⟨rfl, rfl, rfl⟩ := hsame
    exact ⟨List.mem_cons_self .., origin.length_eq, puzzle.hash.length_eq⟩
  not_clawback := by
    rw [hsolution]
    intro h
    have hmode : (Except.ok (SExp.atom [1]) : Eval SExp) = .ok RateLimited.clawbackMode := h
    cases hmode

/-- The coin is confirmed, and then it is spent. -/
def events (s : ValidSpend sampleHash run) : List (CoinChain.Event sampleHash run) := [.reward coin 0, .bundle [s] 1]

/-- The run with a spend. -/
def after (s : ValidSpend sampleHash run) : Option (CoinChain sampleHash run) :=
  Transition.run CoinChain.step (CoinChain.initial sampleHash run) (events s)

lemma ordinary_events {s : ValidSpend sampleHash run} (hs : RateLimitedPuzzle.Ordinary {m | m ∈ messages} s) :
    ∀ e ∈ events s, puzzle.OrdinaryEvent {m | m ∈ messages} e := by
  intro e he
  simp only [events, List.mem_cons, List.not_mem_nil, or_false] at he
  rcases he with rfl | rfl
  · trivial
  · intro s' hs' _
    rwa [List.mem_singleton.mp hs']

/-- After the payment, at least 99 remain. -/
theorem run_keepsRate_pay : ∃ chain, after pay = some chain ∧ (99 : ℚ) ≤ puzzle.remaining chain coin := by
  have hrun : (after pay).any (fun chain => chain.height = 1 ∧ (coin, 0) ∈ chain.confirmed) = true := by
    decide +kernel
  obtain ⟨chain, hchain, hfields⟩ := (Option.any_eq_true _ _).mp hrun
  rw [decide_eq_true_eq] at hfields
  have hwithin : Transition.Along CoinChain.step puzzle.WithinRateEvent (CoinChain.initial sampleHash run)
      (events pay) := by
    refine ⟨trivial, fun t ht => ⟨⟨?_, fun _ _ => trivial⟩, fun _ _ => trivial⟩⟩
    intro _ e payment rest _ htaken hpos
    have hsame : Except.ok ((1 : ℤ), (0 : ℤ)) = (Except.ok (payment, rest) : Eval (ℤ × ℤ)) := htaken
    simp only [Except.ok.injEq, Prod.mk.injEq] at hsame
    omega
  have hkeeps := RateLimitedPuzzle.run_keepsRate injOn_messages hashedIn_puzzle
    (ordinary_events (ordinary rfl rfl rfl)) hwithin hchain
  have hcoin := hkeeps (coin, 0) hfields.2 rfl 1 (le_of_eq hfields.1)
  refine ⟨chain, hchain, le_trans (le_of_eq ?_) hcoin⟩
  norm_num [coin, puzzle]

/-- **A fee drains a coin at once**, since the puzzle only limits the payment. -/
theorem not_keepsRate_fee : ¬ ∀ (sha256 : Bytes → Bytes32) (run : SExp → SExp → Eval SExp)
    (P : RateLimitedPuzzle sha256 run) (M : Set Bytes) (events : List (CoinChain.Event sha256 run))
    (chain : CoinChain sha256 run), Set.InjOn sha256 M → P.puzzle.HashedIn sha256 M →
      (∀ e ∈ events, P.OrdinaryEvent M e) →
      Transition.run CoinChain.step (CoinChain.initial sha256 run) events = some chain → P.KeepsRate chain := by
  intro h
  have hrun : (after drain).any (fun chain => chain.height = 1 ∧ (coin, 0) ∈ chain.confirmed ∧
      puzzle.remaining chain coin = 0) = true := by
    decide +kernel
  obtain ⟨chain, hchain, hfields⟩ := (Option.any_eq_true _ _).mp hrun
  rw [decide_eq_true_eq] at hfields
  have hkeeps := h sampleHash run puzzle {m | m ∈ messages} (events drain) chain injOn_messages hashedIn_puzzle
    (ordinary_events (ordinary rfl rfl rfl)) hchain
  have hcoin := hkeeps (coin, 0) hfields.2.1 rfl 1 (le_of_eq hfields.1)
  rw [hfields.2.2] at hcoin
  norm_num [coin, puzzle] at hcoin

end RateLimitedSample

end Chives
