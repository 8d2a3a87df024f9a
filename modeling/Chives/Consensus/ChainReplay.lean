import Chives.Consensus.Blockchain

set_option autoImplicit false

/-!
# Replaying a chain

What a chain of blocks means, apart from any state of a node: the generator of a block with the
generators it refers to taken from its own ancestors, the coins that the block spends and creates,
and the coin table that results from applying the blocks from genesis on.

## Main definitions

* `ownGenerator`, `effectsOn` — the generator of a block on its own chain, and what it
  spends and creates.
* `replay` — the coin table of a chain.
* `HeightsFrom` — blocks of consecutive heights.

## Main results

* `replayFrom_append` — a chain can be replayed in two parts.
* `grows_replayFrom` — what blocks create and spend.
* `rollback_replay` — rolling the table of a chain back to a height gives the table of the
  chain up to that height.
* `HeightsFrom.lookup_ofItems` — blocks of consecutive heights in a dictionary by height.
-/

namespace Chives

open ExceptRun LifeTable Table

/-- The generator of a block with the generators that it refers to by height, among its own
ancestors; `none` if it has no generator or refers to a block without one. -/
def ownGenerator (ancestors : List FullBlock) (b : FullBlock) : Option BlockGenerator :=
  match b.transactionsGenerator with
  | none => none
  | some program =>
    (b.transactionsGeneratorRefList.mapM fun h => ancestors[h]?.bind
      FullBlock.transactionsGenerator).map fun refs => ⟨program, refs, []⟩

section Replay

variable (T : BodyTools) (constants : ConsensusConstants)

/-- The coins that a block spends, by name, and those that it creates, on its own chain. -/
def effectsOn (ancestors : List FullBlock) (b : FullBlock) : List Bytes32 × List Coin :=
  txRemovalsAndAdditions ((ownGenerator ancestors b).bind fun g =>
    (T.runGenerator g constants.MAX_BLOCK_COST_CLVM b.height).conds)

/-- Apply a block to the coin table of its ancestors. Blocks that are not transaction blocks do not
change the table. -/
def replayBlock (ancestors : List FullBlock) (b : FullBlock) (table : CoinTable) :
    Except PyError CoinTable :=
  match b.foliageTransactionBlock with
  | none => .ok table
  | some ftb => table.newBlock T.H b.height ftb.timestamp b.getIncludedRewardCoins
      (effectsOn T constants ancestors b).2 (effectsOn T constants ancestors b).1

/-- Apply blocks, one on top of the other, to the coin table of their ancestors. -/
def replayFrom : List FullBlock → List FullBlock → CoinTable → Except PyError CoinTable
  | _, [], table => .ok table
  | ancestors, b :: bs, table => do
    let table ← replayBlock T constants ancestors b table
    replayFrom (ancestors ++ [b]) bs table

/-- The coin table of a chain, listed from genesis on. -/
def replay (chain : List FullBlock) : Except PyError CoinTable :=
  replayFrom T constants [] chain []

variable {T constants} {ancestors bs bs' : List FullBlock} {b : FullBlock}
  {table table' : CoinTable}

lemma replayFrom_append : replayFrom T constants ancestors (bs ++ bs') table =
    (replayFrom T constants ancestors bs table >>=
      replayFrom T constants (ancestors ++ bs) bs') := by
  induction bs generalizing ancestors table with
  | nil => simp [replayFrom]
  | cons b bs ih =>
    simp only [List.cons_append, replayFrom]
    cases replayBlock T constants ancestors b table with
    | error e => rfl
    | ok t =>
      simp only [ok_bind, ih, List.append_assoc]
      rfl

lemma replay_append : replay T constants (bs ++ bs') =
    (replay T constants bs >>= replayFrom T constants bs bs') := by
  rw [replay, replayFrom_append, List.nil_append, replay]

lemma exists_replay_of_append (h : replay T constants (bs ++ bs') = .ok table) :
    ∃ t, replay T constants bs = .ok t ∧ replayFrom T constants bs bs' t = .ok table := by
  rw [replay_append] at h
  exact bind_eq_ok.mp h

/-! ## What a chain creates and spends -/

/-- The rows that a block adds, on its own chain. -/
def blockRows (T : BodyTools) (constants : ConsensusConstants) (ancestors : List FullBlock)
    (b : FullBlock) : List CoinRow :=
  match b.foliageTransactionBlock with
  | none => []
  | some ftb => CoinTable.rowsOfBlock T.H b.height ftb.timestamp b.getIncludedRewardCoins
      (effectsOn T constants ancestors b).2

/-- The names of the coins that a block spends, on its own chain. -/
def blockSpends (T : BodyTools) (constants : ConsensusConstants) (ancestors : List FullBlock)
    (b : FullBlock) : List Bytes32 :=
  match b.foliageTransactionBlock with
  | none => []
  | some _ => (effectsOn T constants ancestors b).1

/-- The rows that blocks add, one on top of the other. -/
def rowsFrom (T : BodyTools) (constants : ConsensusConstants) :
    List FullBlock → List FullBlock → List CoinRow
  | _, [] => []
  | ancestors, b :: bs =>
    blockRows T constants ancestors b ++ rowsFrom T constants (ancestors ++ [b]) bs

/-- The names of the coins that blocks spend, one on top of the other. -/
def spendsFrom (T : BodyTools) (constants : ConsensusConstants) :
    List FullBlock → List FullBlock → List Bytes32
  | _, [] => []
  | ancestors, b :: bs =>
    blockSpends T constants ancestors b ++ spendsFrom T constants (ancestors ++ [b]) bs

lemma rowsFrom_append : rowsFrom T constants ancestors (bs ++ bs') =
    rowsFrom T constants ancestors bs ++ rowsFrom T constants (ancestors ++ bs) bs' := by
  induction bs generalizing ancestors with
  | nil => simp [rowsFrom]
  | cons b bs ih => simp [rowsFrom, ih]

lemma spendsFrom_append : spendsFrom T constants ancestors (bs ++ bs') =
    spendsFrom T constants ancestors bs ++ spendsFrom T constants (ancestors ++ bs) bs' := by
  induction bs generalizing ancestors with
  | nil => simp [spendsFrom]
  | cons b bs ih => simp [spendsFrom, ih]

lemma mem_blockRows {r : CoinRow} (hr : r ∈ blockRows T constants ancestors b) :
    r.confirmedIndex = b.height ∧ r.spentIndex = 0 ∧ r.coinName = T.H.coinName r.coin ∧
      ∃ ftb, b.foliageTransactionBlock = some ftb ∧ r.timestamp = ftb.timestamp := by
  unfold blockRows at hr
  cases hftb : b.foliageTransactionBlock with
  | none => simp [hftb] at hr
  | some ftb =>
    simp only [hftb] at hr
    obtain ⟨hconf, hspent, htime, hname, -⟩ := CoinTable.mem_rowsOfBlock hr
    exact ⟨hconf, hspent, hname, ftb, rfl, htime⟩

lemma mem_rowsFrom {r : CoinRow} (hr : r ∈ rowsFrom T constants ancestors bs) :
    r.spentIndex = 0 ∧ r.coinName = T.H.coinName r.coin := by
  induction bs generalizing ancestors with
  | nil => cases hr
  | cons b bs ih =>
    rcases List.mem_append.mp hr with hr | hr
    · obtain ⟨-, hspent, hname, -⟩ := mem_blockRows hr
      exact ⟨hspent, hname⟩
    · exact ih hr

lemma grows_replayBlock (hk : Keyed coinColumns.key table)
    (h : replayBlock T constants ancestors b table = .ok table') :
    Grows coinColumns table table' (blockRows T constants ancestors b)
      (blockSpends T constants ancestors b) := by
  unfold replayBlock at h
  unfold blockRows blockSpends
  cases hftb : b.foliageTransactionBlock with
  | none =>
    simp only [hftb] at h
    rw [← Except.ok.inj h]
    exact Grows.refl hk
  | some ftb =>
    simp only [hftb] at h
    obtain ⟨-, hkeyed, hnodup, halive, hpos, rfl⟩ := CoinTable.newBlock_eq_ok h
    exact Grows.of_markDied hkeyed hnodup halive fun hne => (hpos hne).ne'

lemma grows_replayFrom (hk : Keyed coinColumns.key table)
    (h : replayFrom T constants ancestors bs table = .ok table') :
    Grows coinColumns table table' (rowsFrom T constants ancestors bs)
      (spendsFrom T constants ancestors bs) := by
  induction bs generalizing ancestors table with
  | nil =>
    simp only [replayFrom] at h
    rw [← Except.ok.inj h]
    exact Grows.refl hk
  | cons b bs ih =>
    simp only [replayFrom] at h
    obtain ⟨t, ht, h⟩ := bind_eq_ok.mp h
    have hfirst := grows_replayBlock hk ht
    exact hfirst.trans (ih hfirst.keyed_after h)

lemma keyed_replay (h : replay T constants bs = .ok table) : Keyed coinColumns.key table := by
  have hnil : Keyed coinColumns.key ([] : CoinTable) := List.nodup_nil
  exact (grows_replayFrom hnil h).keyed_after

lemma named_replayBlock (hn : ∀ r ∈ table, r.coinName = T.H.coinName r.coin)
    (h : replayBlock T constants ancestors b table = .ok table') :
    ∀ r ∈ table', r.coinName = T.H.coinName r.coin := by
  unfold replayBlock at h
  cases hftb : b.foliageTransactionBlock with
  | none =>
    simp only [hftb] at h
    rwa [← Except.ok.inj h]
  | some ftb =>
    simp only [hftb] at h
    obtain ⟨-, -, -, -, -, rfl⟩ := CoinTable.newBlock_eq_ok h
    intro r hr
    obtain ⟨r₀, hr₀, rfl⟩ := List.mem_map.mp hr
    have hname : r₀.coinName = T.H.coinName r₀.coin := by
      rcases List.mem_append.mp hr₀ with hr₀ | hr₀
      · exact hn r₀ hr₀
      · exact (CoinTable.mem_rowsOfBlock hr₀).2.2.2.1
    split
    · exact hname
    · exact hname

lemma named_replayFrom (hn : ∀ r ∈ table, r.coinName = T.H.coinName r.coin)
    (h : replayFrom T constants ancestors bs table = .ok table') :
    ∀ r ∈ table', r.coinName = T.H.coinName r.coin := by
  induction bs generalizing ancestors table with
  | nil =>
    simp only [replayFrom] at h
    rwa [← Except.ok.inj h]
  | cons b bs ih =>
    simp only [replayFrom] at h
    obtain ⟨t, ht, h⟩ := bind_eq_ok.mp h
    exact ih (named_replayBlock hn ht) h

/-! ## Going back -/

lemma rollback_replayBlock {h : ℤ} (hb : replayBlock T constants ancestors b table = .ok table')
    (hh : h < b.height) :
    rollback coinColumns h table' = rollback coinColumns h table := by
  unfold replayBlock at hb
  cases hftb : b.foliageTransactionBlock with
  | none =>
    simp only [hftb] at hb
    rw [← Except.ok.inj hb]
  | some ftb =>
    simp only [hftb] at hb
    exact CoinTable.rollback_newBlock hb hh

lemma rollback_replayFrom {h : ℤ} (hbs : replayFrom T constants ancestors bs table = .ok table')
    (hh : ∀ b ∈ bs, h < b.height) :
    rollback coinColumns h table' = rollback coinColumns h table := by
  induction bs generalizing ancestors table with
  | nil =>
    simp only [replayFrom] at hbs
    rw [← Except.ok.inj hbs]
  | cons b bs ih =>
    simp only [replayFrom] at hbs
    obtain ⟨t, ht, hbs⟩ := bind_eq_ok.mp hbs
    rw [ih hbs fun b' hb' => hh b' (List.mem_cons_of_mem _ hb'),
      rollback_replayBlock ht (hh b List.mem_cons_self)]

/-- Every coin in the table was created, and spent if it is, below a height. -/
def Below (n : ℕ) (table : CoinTable) : Prop :=
  ∀ r ∈ table, r.confirmedIndex < n ∧ r.spentIndex < n

lemma below_replayBlock {n : ℕ} (hb : replayBlock T constants ancestors b table = .ok table')
    (htable : Below n table) (hn : b.height = n) : Below (n + 1) table' := by
  unfold replayBlock at hb
  cases hftb : b.foliageTransactionBlock with
  | none =>
    simp only [hftb] at hb
    rw [← Except.ok.inj hb]
    intro r hr
    have := htable r hr
    omega
  | some ftb =>
    simp only [hftb] at hb
    obtain ⟨-, -, -, -, -, rfl⟩ := CoinTable.newBlock_eq_ok hb
    intro r hr
    obtain ⟨r₀, hr₀, rfl⟩ := List.mem_map.mp hr
    have hr₀' : r₀.confirmedIndex < n + 1 ∧ r₀.spentIndex < n + 1 := by
      rcases List.mem_append.mp hr₀ with hr₀ | hr₀
      · have := htable r₀ hr₀
        omega
      · obtain ⟨hconf, hspent, -⟩ := CoinTable.mem_rowsOfBlock hr₀
        omega
    split
    · exact ⟨hr₀'.1, by show b.height < n + 1; omega⟩
    · exact hr₀'

/-- The blocks have the heights from `n` on, in order. -/
def HeightsFrom (n : ℕ) (bs : List FullBlock) : Prop :=
  ∀ i b, bs[i]? = some b → b.height = n + i

lemma HeightsFrom.tail {n : ℕ} (h : HeightsFrom n (b :: bs)) :
    b.height = n ∧ HeightsFrom (n + 1) bs := by
  refine ⟨h 0 b rfl, fun i b' hb' => ?_⟩
  have := h (i + 1) b' (by simpa using hb')
  omega

lemma below_replayFrom {n : ℕ} (hbs : replayFrom T constants ancestors bs table = .ok table')
    (htable : Below n table) (hn : HeightsFrom n bs) : Below (n + bs.length) table' := by
  induction bs generalizing ancestors table n with
  | nil =>
    simp only [replayFrom] at hbs
    rw [← Except.ok.inj hbs]
    exact htable
  | cons b bs ih =>
    simp only [replayFrom] at hbs
    obtain ⟨t, ht, hbs⟩ := bind_eq_ok.mp hbs
    obtain ⟨hb, hn⟩ := hn.tail
    have := ih hbs (below_replayBlock ht htable hb) hn
    rw [List.length_cons, show n + (bs.length + 1) = n + 1 + bs.length by omega]
    exact this

lemma below_replay (h : replay T constants bs = .ok table) (hn : HeightsFrom 0 bs) :
    Below bs.length table := by
  have := below_replayFrom (n := 0) h (fun r hr => by cases hr) hn
  rwa [Nat.zero_add] at this

lemma rollback_of_below {n : ℕ} (h : Below n table) : rollback coinColumns ((n : ℤ) - 1) table = table := by
  apply rollback_eq_self
  intro r hr
  obtain ⟨hconf, hspent⟩ := h r hr
  constructor
  · show (r.confirmedIndex : ℤ) ≤ n - 1
    omega
  · show (r.spentIndex : ℤ) ≤ n - 1
    omega

lemma rollback_replay (h : replay T constants (bs ++ bs') = .ok table)
    (hn : HeightsFrom 0 (bs ++ bs')) :
    ∃ t, replay T constants bs = .ok t ∧ rollback coinColumns ((bs.length : ℤ) - 1) table = t := by
  obtain ⟨t, ht, hbs'⟩ := exists_replay_of_append h
  have hprefix : HeightsFrom 0 bs := by
    intro i b hb
    apply hn i b
    obtain ⟨hlt, -⟩ := List.getElem?_eq_some_iff.mp hb
    rw [List.getElem?_append_left hlt, hb]
  refine ⟨t, ht, ?_⟩
  rw [rollback_replayFrom hbs', rollback_of_below (below_replay ht hprefix)]
  intro b hb
  obtain ⟨i, hi⟩ := List.mem_iff_getElem?.mp hb
  have := hn (bs.length + i) b (by
    rw [List.getElem?_append_right (by omega), Nat.add_sub_cancel_left, hi])
  omega

end Replay

/-! ## Blocks by height -/

section ByHeight

variable {L : List FullBlock} {n : ℕ}

lemma HeightsFrom.map_height (h : HeightsFrom n L) :
    L.map FullBlock.height = List.range' n L.length := by
  apply List.ext_getElem?
  intro i
  rw [List.getElem?_map]
  cases hb : L[i]? with
  | none => rw [List.getElem?_eq_none (by simpa using List.getElem?_eq_none_iff.mp hb)]; rfl
  | some b =>
    obtain ⟨hlt, -⟩ := List.getElem?_eq_some_iff.mp hb
    rw [List.getElem?_range' hlt, Option.map_some, h i b hb, Nat.one_mul]

/-- Blocks of consecutive heights, last first, in a dictionary by height. -/
lemma HeightsFrom.lookup_ofItems (hL : HeightsFrom n L) (h : ℕ) :
    (Dict.ofItems (L.reverse.map fun b => (b.height, b))).lookup h =
      if n ≤ h then L[h - n]? else none := by
  have hkeyed : Table.Keyed FullBlock.height L.reverse := by
    unfold Table.Keyed
    rw [List.map_reverse, List.nodup_reverse, hL.map_height]
    exact List.nodup_range'
  have hlookup : (Dict.ofItems (L.reverse.map fun b => (b.height, b))).lookup h =
      Table.find FullBlock.height L.reverse h := by
    rw [Dict.ofItems, Dict.lookup_foldl_set _ _ (by
      rw [List.map_map]
      exact hkeyed), AList.lookup_empty, Option.or_none, List.find?_map, Option.map_map]
    exact Option.map_id'
  rw [hlookup]
  apply Option.ext
  intro b
  rw [hkeyed.find_eq_some, List.mem_reverse]
  constructor
  · rintro ⟨hb, rfl⟩
    obtain ⟨i, hi⟩ := List.mem_iff_getElem?.mp hb
    have hheight := hL i b hi
    rw [if_pos (by omega), show b.height - n = i by omega, hi]
  · intro hb
    split at hb
    · rename_i hle
      refine ⟨List.mem_of_getElem? hb, ?_⟩
      rw [hL _ b hb]
      omega
    · cases hb

lemma HeightsFrom.append {L' : List FullBlock} (h : HeightsFrom n L)
    (h' : HeightsFrom (n + L.length) L') : HeightsFrom n (L ++ L') := by
  intro i b hb
  by_cases hlt : i < L.length
  · rw [List.getElem?_append_left hlt] at hb
    exact h i b hb
  · rw [List.getElem?_append_right (by omega)] at hb
    have := h' _ b hb
    omega

lemma HeightsFrom.drop (h : HeightsFrom n L) (k : ℕ) : HeightsFrom (n + k) (L.drop k) := by
  intro i b hb
  rw [List.getElem?_drop] at hb
  have := h _ b hb
  omega

end ByHeight

end Chives
