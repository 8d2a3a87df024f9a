import Chives.Consensus.BlockchainRuns

set_option autoImplicit false

/-!
# The steps of adding a block

What the steps of `receive_block` do on a state that satisfies `Blockchain.Inv`: the block is
stored, the chain of a heavier block is applied to the coins and marked in the database, and the memory
follows.

## Main results

* `Addition.tree` — the tree of blocks with the new one.
* `blocksToAddFrom_eq_ok` — the walk back from the new peak collects the blocks above the fork.
* `applyBlocks_coinStore` — applying these blocks is replaying them on their own chain.
* `updateHeights_describes` — the height map follows.
-/

namespace Chives

open ExceptRun ParentTree BlockHeightMap

/-! ## Storing the block -/

/-- A block with its record that is being added to a state: it is new, its parent is known, it was
accepted on its own chain, and `store` is the block store with it. -/
structure Addition (T : BlockchainTools) (constants : ConsensusConstants) (s : Blockchain) (e : Entry)
    (l : List Entry) (store : BlockStore) : Prop where
  inv : s.Inv T constants
  madeOf : MadeOf T.H constants e
  new : s.blockStore.entry e.2.headerHash = none
  ancestors : s.Ancestors e.1 l
  height : e.1.height = l.length
  accepted : Accepted T.toBodyTools constants (l.map Prod.fst) e.1
  added : s.blockStore.addFullBlock e.2.headerHash e.1 e.2 = .ok store

namespace Addition

variable {T : BlockchainTools} {constants : ConsensusConstants} {s : Blockchain} {e : Entry}
  {l : List Entry} {store : BlockStore}

section

variable (ha : Addition T constants s e l store)

include ha

lemma entry_eq (h : Bytes32) : store.entry h = if h = e.2.headerHash then some e else s.blockStore.entry h :=
  BlockStore.entry_addFullBlock ha.added ha.new h

variable {x : Entry}

lemma entry_mono {h : Bytes32} (hx : s.blockStore.entry h = some x) : store.entry h = some x := by
  rw [ha.entry_eq, if_neg, hx]
  rintro rfl
  rw [ha.new] at hx
  cases hx

lemma entry_self : store.entry e.2.headerHash = some e := by
  rw [ha.entry_eq, if_pos rfl]

lemma entry_cases {h : Bytes32} (hx : store.entry h = some x) :
    (h = e.2.headerHash ∧ x = e) ∨ s.blockStore.entry h = some x := by
  rw [ha.entry_eq] at hx
  split at hx
  · rename_i hh
    exact .inl ⟨hh, (Option.some.inj hx).symm⟩
  · exact .inr hx

lemma path_self : Path entryLinks s.blockStore.entry e (l ++ [e]) := by
  rcases ha.ancestors with ⟨h0, rfl⟩ | ⟨-, p, hp, hl⟩
  · exact .root (by show e.2.height = 0; rw [ha.madeOf.height, h0])
  · refine .step (p := p) ?_ ?_ hl
    · show s.blockStore.entry e.2.prevHash = some p
      rw [ha.madeOf.prevHash, hp]
    · show e.2.height = p.2.height + 1
      rw [ha.madeOf.height, ha.height]
      exact hl.length_eq

lemma tree : Rooted entryLinks store.entry where
  hash_eq := by
    intro h x hx
    rcases ha.entry_cases hx with ⟨rfl, rfl⟩ | hx
    · rfl
    · exact ha.inv.view.rooted.hash_eq hx
  path := by
    intro h x hx
    rcases ha.entry_cases hx with ⟨-, rfl⟩ | hx
    · exact ⟨_, ha.path_self.mono fun _ _ => ha.entry_mono⟩
    · obtain ⟨lx, hlx⟩ := ha.inv.view.rooted.path hx
      exact ⟨lx, hlx.mono fun _ _ => ha.entry_mono⟩

lemma exists_sesColumn :
    ∃ ses, BlockStore.sesColumn e.2 = .ok ses ∧ store = { s.blockStore with
      fullBlocks := s.blockStore.fullBlocks ++
        [⟨⟨e.2.headerHash, e.1.prevHeaderHash, e.1.height, ses⟩, false, false, e.1, e.2⟩] } :=
  BlockStore.addFullBlock_eq_ok ha.added ha.new

lemma mem_fullBlocks {r : FullBlockRow} (hr : r ∈ store.fullBlocks) : r ∈ s.blockStore.fullBlocks ∨
      (r.toBlockRow = blockRowOf e ∧ r.inMainChain = false ∧ r.isPeak = false ∧
        (r.block, r.blockRecord) = e) := by
  obtain ⟨ses, hses, rfl⟩ := ha.exists_sesColumn
  rcases List.mem_append.mp hr with hr | hr
  · exact .inl hr
  · rw [List.mem_singleton] at hr
    subst hr
    refine .inr ⟨?_, rfl, rfl, rfl⟩
    show BlockRow.mk e.2.headerHash e.1.prevHeaderHash e.1.height ses = _
    rw [blockRowOf, hses, ha.madeOf.prevHash, ha.madeOf.height]
    rfl

lemma keyed (hk : s.blockStore.Keyed) : store.Keyed := by
  obtain ⟨ses, -, rfl⟩ := ha.exists_sesColumn
  show ((s.blockStore.fullBlocks ++ [_]).map BlockStore.hashOf).Nodup
  rw [List.map_append, List.nodup_append]
  refine ⟨hk, List.nodup_singleton _, ?_⟩
  intro h hh h' hh' heq
  obtain ⟨r, hr, rfl⟩ := List.mem_map.mp hh
  rw [List.map_singleton, List.mem_singleton] at hh'
  have hnone := ha.new
  unfold BlockStore.entry BlockStore.row at hnone
  rw [Option.map_eq_none_iff, Table.find_eq_none] at hnone
  exact hnone r hr (heq.trans hh')

lemma view_old :
    View T.H constants { s with blockStore := store } s.blockStore.entry where
  stored hx := ha.entry_mono hx
  cached hx := ha.inv.view.cached hx
  rooted := ha.inv.view.rooted
  madeOf hx := ha.inv.view.madeOf hx
  sesColumn hx := ha.inv.view.sesColumn hx
  ofCached hr := ha.inv.view.ofCached hr

/-- The main chain in the state whose database has the new block. -/
lemma mainChain_old {tip : Entry} {P : List Entry} (hm : MainChain T constants s s.blockStore.entry tip P) :
    MainChain T constants { s with blockStore := store } s.blockStore.entry tip P where
  view := ha.view_old
  path := hm.path
  tip_mem := hm.tip_mem
  peakHeight := hm.peakHeight
  describes := hm.describes
  keyed := ha.keyed hm.keyed
  rows r hr := by
    rcases ha.mem_fullBlocks hr with hr | ⟨hrow, -, -, heq⟩
    · exact hm.rows r hr
    · rw [hrow, heq]
  inMainChain hv2 r hr := by
    rcases ha.mem_fullBlocks hr with hr | ⟨-, hflag, -, heq⟩
    · exact hm.inMainChain hv2 r hr
    · rw [hflag, heq]
      refine iff_of_false (by simp) fun hmem => ?_
      have := hm.view.mem_of_path hm.path hm.tip_mem hmem
      rw [ha.new] at this
      cases this
  currentPeak hv2 := by
    obtain ⟨ses, -, rfl⟩ := ha.exists_sesColumn
    exact hm.currentPeak hv2
  isPeak hv1 r hr := by
    rcases ha.mem_fullBlocks hr with hr | ⟨hrow, -, hflag, -⟩
    · exact hm.isPeak hv1 r hr
    · rw [hflag, show r.headerHash = e.2.headerHash from congrArg BlockRow.headerHash hrow]
      refine iff_of_false (by simp) fun heq => ?_
      have := hm.tip_mem
      rw [← heq, ha.new] at this
      cases this

/-- The tree with the new block, in a state whose memory and database both have it. -/
lemma view_new {s' : Blockchain} (hrecords : s'.blockRecords = s.blockRecords.set e.2.headerHash e.2)
    (hentry : ∀ h, s'.blockStore.entry h = store.entry h) : View T.H constants s' s'.blockStore.entry := by
  have hget : ∀ h, s'.blockRecords.get h =
      if h = e.2.headerHash then some e.2 else s.blockRecords.get h := by
    intro h
    rw [hrecords]
    exact Dict.lookup_set _ _ _ _
  have hentry' : s'.blockStore.entry = store.entry := funext hentry
  rw [hentry']
  constructor
  · intro h x hx
    rwa [hentry]
  · intro h x hx
    rw [hget]
    rcases ha.entry_cases hx with ⟨rfl, rfl⟩ | hx
    · rw [if_pos rfl]
    · rw [if_neg, ha.inv.view.cached hx]
      rintro rfl
      rw [ha.new] at hx
      cases hx
  · exact ha.tree
  · intro h x hx
    rcases ha.entry_cases hx with ⟨-, rfl⟩ | hx
    · exact ha.madeOf
    · exact ha.inv.view.madeOf hx
  · intro h x hx
    rcases ha.entry_cases hx with ⟨-, rfl⟩ | hx
    · obtain ⟨ses, hses, -⟩ := ha.exists_sesColumn
      exact ⟨ses, hses⟩
    · exact ha.inv.view.sesColumn hx
  · intro h r hr
    rw [hget] at hr
    split at hr
    · rename_i hh
      obtain rfl := Option.some.inj hr
      exact ⟨e.1, by rw [hh]; exact ha.entry_self⟩
    · obtain ⟨b, hb⟩ := ha.inv.view.ofCached hr
      exact ⟨b, ha.entry_mono hb⟩

lemma accepted_new {lx : List Entry} (hx : store.entry x.2.headerHash = some x)
    (hlx : Path entryLinks store.entry x (lx ++ [x])) : Accepted T.toBodyTools constants (lx.map Prod.fst) x.1 := by
  rcases ha.entry_cases hx with ⟨-, rfl⟩ | hx
  · have heq := hlx.unique (ha.path_self.mono fun _ _ => ha.entry_mono)
    rw [(List.append_inj' heq rfl).1]
    exact ha.accepted
  · obtain ⟨l₀, hl₀⟩ := ha.inv.view.rooted.path hx
    have heq := hlx.unique (hl₀.mono fun _ _ => ha.entry_mono)
    rw [← heq] at hl₀
    exact ha.inv.accepted hx hl₀

lemma path_old {lx : List Entry} (hx : s.blockStore.entry x.2.headerHash = some x)
    (hlx : Path entryLinks store.entry x lx) : Path entryLinks s.blockStore.entry x lx := by
  obtain ⟨l₀, hl₀⟩ := ha.inv.view.rooted.path hx
  rwa [hlx.unique (hl₀.mono fun _ _ => ha.entry_mono)]

end

end Addition

/-! ## The walk back to the fork -/

/-- The walk back from a block collects the blocks of its chain above a block of the main chain: `c` is
the part of the chain below the fork, `b` the part above. -/
lemma blocksToAddFrom_eq_ok {s : Blockchain} {x : Entry} {lx c b : List Entry}
    (htree : Rooted entryLinks s.blockStore.entry)
    (hmade : ∀ {h y}, s.blockStore.entry h = some y → y.2.height = y.1.height)
    (hlx : Path entryLinks s.blockStore.entry x lx)
    (hx : s.blockStore.entry x.2.headerHash = some x) (heq : lx = c ++ b)
    (hfork : ∀ y, c.getLast? = some y → s.heightToHash y.2.height = some y.2.headerHash)
    {fuel : ℕ} (hfuel : x.2.height < fuel) :
    s.blocksToAddFrom ((c.length : ℤ) - 1) fuel x.2.headerHash = .ok b.reverse := by
  induction hlx generalizing b fuel with
  | @root x h0 =>
    change x.2.height = 0 at h0
    obtain ⟨fuel, rfl⟩ : ∃ n, fuel = n + 1 := ⟨fuel - 1, by omega⟩
    unfold Blockchain.blocksToAddFrom
    cases c with
    | nil =>
      rw [List.nil_append] at heq
      have hblock : x.1.height = 0 := by rw [← hmade hx, h0]
      rw [if_pos (.inl (by simp))]
      simp only [BlockStore.getFullBlock_eq, BlockStore.getBlockRecord_eq, hx, Option.map_some,
        pySome, ok_bind, hblock, if_true, ← heq]
      rfl
    | cons y c =>
      have hlen := congrArg List.length heq
      simp only [List.length_cons, List.length_append, List.length_nil] at hlen
      obtain rfl := List.length_eq_zero_iff.mp (show c.length = 0 by omega)
      obtain rfl := List.length_eq_zero_iff.mp (show b.length = 0 by omega)
      obtain rfl : x = y := by simpa using heq
      have hhash := hfork x rfl
      rw [h0] at hhash
      rw [if_neg]
      · rfl
      · simp [hhash]
  | @step x p l hp hh hl ih =>
    change x.2.height = p.2.height + 1 at hh
    change s.blockStore.entry x.2.prevHash = some p at hp
    have hpx : s.blockStore.entry p.2.headerHash = some p := by
      rw [show p.2.headerHash = x.2.prevHash from htree.hash_eq hp]
      exact hp
    obtain ⟨fuel, rfl⟩ : ∃ n, fuel = n + 1 := ⟨fuel - 1, by omega⟩
    have hlen : l.length = p.2.height + 1 := Path.length_eq hl
    unfold Blockchain.blocksToAddFrom
    rcases List.eq_nil_or_concat b with rfl | ⟨b₀, y, rfl⟩
    · -- the block is the fork itself
      rw [List.append_nil] at heq
      have hhash := hfork x (by rw [← heq]; simp)
      rw [if_neg]
      · rfl
      · rw [← heq]
        have hindex : (((l ++ [x]).length : ℤ) - 1).toNat = x.2.height := by
          rw [List.length_append, List.length_singleton]
          omega
        rw [hindex, hhash]
        simp
    · have heq' : l ++ [x] = (c ++ b₀) ++ [y] := by rw [heq]; simp
      obtain ⟨hl', hxy⟩ := List.append_inj' heq' rfl
      obtain rfl : x = y := by simpa using hxy
      have hne : ¬(s.heightToHash ((c.length : ℤ) - 1).toNat = some x.2.headerHash ∧ c ≠ []) := by
        rintro ⟨hhash, hc⟩
        obtain ⟨y, hy⟩ := Option.isSome_iff_exists.mp (List.getLast?_isSome.mpr hc)
        have hmem : y ∈ l := by
          rw [hl']
          exact List.mem_append_left _ (List.mem_of_getLast? hy)
        have hyc : (c)[c.length - 1]? = some y := by rw [← List.getLast?_eq_getElem?, hy]
        have hyl : l[c.length - 1]? = some y := by
          rw [hl', List.getElem?_append_left, hyc]
          have := List.length_pos_iff.mpr hc
          omega
        have hyh : y.2.height = c.length - 1 := (hl.getElem hyl).1
        have hidx : ((c.length : ℤ) - 1).toNat = y.2.height := by omega
        rw [hidx, hfork y hy] at hhash
        have hymem := hl.stored_of_stored (fun hm => htree.hash_eq hm) hpx y hmem
        have hxy : y = x := eq_of_stored (L := entryLinks) hymem hx (Option.some.inj hhash)
        have hlt : c.length ≤ l.length := by rw [hl', List.length_append]; omega
        rw [hxy] at hyh
        omega
      rw [if_pos]
      · have hblock : x.1.height ≠ 0 := by
          rw [← hmade hx]
          omega
        simp only [BlockStore.getFullBlock_eq, BlockStore.getBlockRecord_eq, hx, Option.map_some,
          pySome, ok_bind, if_neg hblock]
        have hprev : p.2.headerHash = x.2.prevHash := htree.hash_eq hp
        rw [← hprev, ih hpx hl' (by omega), ok_bind]
        simp
      · by_cases hc : c = []
        · left
          simp [hc]
        · right
          exact fun hhash => hne ⟨hhash, hc⟩

/-! ## Applying the blocks -/

section Apply

variable {T : BlockchainTools} {constants : ConsensusConstants} {s : Blockchain}

/-- The transactions of a block as they are looked up are those of the block on its own chain. -/
def FindsEffects (T : BlockchainTools) (constants : ConsensusConstants) (s : Blockchain)
    (ancestors : List FullBlock) (b : FullBlock) (npcResult : Option NPCResult) : Prop :=
  ∃ npc, s.getTxRemovalsAndAdditions T constants b npcResult =
    .ok ((effectsOn T.toBodyTools constants ancestors b).1,
      (effectsOn T.toBodyTools constants ancestors b).2, npc)

/-- The result of a block's generator, on its own chain. There is none without a generator. -/
def npcOn (T : BodyTools) (constants : ConsensusConstants) (ancestors : List FullBlock) (b : FullBlock) :
    Option NPCResult :=
  (ownGenerator ancestors b).map fun g => T.runGenerator g constants.MAX_BLOCK_COST_CLVM b.height

/-- The transactions of a block as they are looked up, and the result of its generator with them, are
those of the block on its own chain. -/
def FindsNpc (T : BlockchainTools) (constants : ConsensusConstants) (s : Blockchain)
    (ancestors : List FullBlock) (b : FullBlock) (npcResult : Option NPCResult) : Prop :=
  s.getTxRemovalsAndAdditions T constants b npcResult =
    .ok ((effectsOn T.toBodyTools constants ancestors b).1,
      (effectsOn T.toBodyTools constants ancestors b).2, npcOn T.toBodyTools constants ancestors b)

variable {ancestors : List FullBlock} {b : FullBlock} {npcResult : Option NPCResult}

lemma FindsNpc.findsEffects (h : FindsNpc T constants s ancestors b npcResult) :
    FindsEffects T constants s ancestors b npcResult :=
  ⟨_, h⟩

lemma findsNpc_of_none (hb : b.transactionsGenerator = none) : FindsNpc T constants s ancestors b npcResult := by
  have hown : ownGenerator ancestors b = none := by simp [ownGenerator, hb]
  unfold FindsNpc Blockchain.getTxRemovalsAndAdditions
  rw [if_pos (.inr (by simp [hb])), effectsOn, npcOn, hown]
  rfl

lemma findsNpc_of_npc {g : BlockGenerator} {npc : NPCResult} (htx : b.isTransactionBlock = true)
    (hown : ownGenerator ancestors b = some g) (hnpc : s.npcResultOf T constants b npcResult = .ok npc)
    (hrun : T.runGenerator g constants.MAX_BLOCK_COST_CLVM b.height = npc) :
    FindsNpc T constants s ancestors b npcResult := by
  have hgen : b.transactionsGenerator ≠ none := by
    intro hnone
    simp [ownGenerator, hnone] at hown
  unfold FindsNpc Blockchain.getTxRemovalsAndAdditions
  rw [if_neg (by simp [htx, hgen]), hnpc, ok_bind, effectsOn, npcOn, hown, Option.bind_some,
    Option.map_some, hrun]
  rfl

lemma applyBlock_coinStore {acc acc' : Blockchain.Applied}
    (heff : b.isTransactionBlock = true → FindsEffects T constants s ancestors b npcResult)
    (h : s.applyBlock T constants b npcResult acc = .ok acc') :
    replayBlock T.toBodyTools constants ancestors b acc.coinStore = .ok acc'.coinStore := by
  unfold Blockchain.applyBlock at h
  unfold replayBlock
  cases hftb : b.foliageTransactionBlock with
  | none =>
    have htx : b.isTransactionBlock = false := by simp [FullBlock.isTransactionBlock, hftb]
    rw [if_neg (by simp [htx])] at h
    rw [← Except.ok.inj h]
  | some ftb =>
    have htx : b.isTransactionBlock = true := by simp [FullBlock.isTransactionBlock, hftb]
    obtain ⟨npc, hnpc⟩ := heff htx
    rw [if_pos htx, hnpc, ok_bind] at h
    simp only [hftb, pySome, ok_bind] at h
    obtain ⟨coins, hcoins, h⟩ := bind_eq_ok.mp h
    rw [← Except.ok.inj h]
    exact hcoins

lemma applyBlocks_coinStore {newHash : Bytes32} {anc xs : List Entry} {acc acc' : Blockchain.Applied}
    (heff : ∀ l x l', xs = l ++ x :: l' → x.1.isTransactionBlock = true → FindsEffects T constants s ((anc ++ l).map Prod.fst) x.1 (if x.2.headerHash = newHash then npcResult else none))
    (h : s.applyBlocks T constants newHash npcResult xs acc = .ok acc') :
    replayFrom T.toBodyTools constants (anc.map Prod.fst) (xs.map Prod.fst) acc.coinStore =
      .ok acc'.coinStore := by
  induction xs generalizing anc acc with
  | nil =>
    simp only [Blockchain.applyBlocks] at h
    rw [← Except.ok.inj h]
    rfl
  | cons x xs ih =>
    simp only [Blockchain.applyBlocks] at h
    obtain ⟨acc₁, hacc₁, h⟩ := bind_eq_ok.mp h
    have hfirst : replayBlock T.toBodyTools constants (anc.map Prod.fst) x.1 acc.coinStore =
        .ok acc₁.coinStore :=
      applyBlock_coinStore (fun htx => by simpa using heff [] x xs rfl htx) hacc₁
    have hrest : replayFrom T.toBodyTools constants ((anc ++ [x]).map Prod.fst) (xs.map Prod.fst)
        acc₁.coinStore = .ok acc'.coinStore := by
      apply ih _ h
      intro l y l' hl htx
      simpa using heff (x :: l) y l' (by rw [hl]; rfl) htx
    simp only [List.map_cons, replayFrom, hfirst, ok_bind]
    rw [List.map_append] at hrest
    exact hrest

end Apply

/-! ## The flags of the database -/

section Flags

variable {T : BlockchainTools} {store : BlockStore} {r : FullBlockRow}

lemma entry_of_mem_fullBlocks (hk : store.Keyed) (hr : r ∈ store.fullBlocks) :
    store.entry r.headerHash = some (r.block, r.blockRecord) := by
  unfold BlockStore.entry BlockStore.row
  have hfind : Table.find BlockStore.hashOf store.fullBlocks r.headerHash = some r :=
    (show Table.Keyed BlockStore.hashOf store.fullBlocks from hk).find_eq_some.mpr ⟨hr, rfl⟩
  rw [hfind]
  rfl

/-- The block store with a chain marked from a fork height on, and its peak set. -/
def markChain (version : DbVersion) (store : BlockStore) (forkH : ℤ) (hashes : List Bytes32)
    (peak : Bytes32) : BlockStore :=
  ((store.rollback version forkH).setInChain version hashes).setPeak version peak

lemma entry_markChain (version : DbVersion) (forkH : ℤ) (hashes : List Bytes32) (peak h : Bytes32) :
    (markChain version store forkH hashes peak).entry h = store.entry h := by
  simp [markChain]

variable {version : DbVersion}

lemma mem_markChain {forkH : ℤ} {hashes : List Bytes32} {peak : Bytes32}
    (hr : r ∈ (markChain version store forkH hashes peak).fullBlocks) :
    ∃ r₀ ∈ store.fullBlocks, r.toBlockRow = r₀.toBlockRow ∧ r.block = r₀.block ∧
      r.blockRecord = r₀.blockRecord ∧
      (version = .v2 → (r.inMainChain = true ↔
        r₀.headerHash ∈ hashes ∨ (¬forkH < r₀.height ∧ r₀.inMainChain = true))) ∧
      (version = .v1 → (r.isPeak = true ↔ r₀.headerHash = peak)) := by
  cases version with
  | v1 =>
    obtain ⟨r₀, hr₀, rfl⟩ := List.mem_map.mp hr
    refine ⟨r₀, hr₀, rfl, rfl, rfl, fun h => ?_, fun _ => ?_⟩
    · cases h
    · exact decide_eq_true_iff
  | v2 =>
    obtain ⟨r₁, hr₁, rfl⟩ := List.mem_map.mp hr
    obtain ⟨r₀, hr₀, rfl⟩ := List.mem_map.mp hr₁
    refine ⟨r₀, hr₀, ?_, ?_, ?_, fun _ => ?_, fun h => by cases h⟩
    · split <;> split <;> rfl
    · split <;> split <;> rfl
    · split <;> split <;> rfl
    · by_cases hfork : forkH < (r₀.height : ℤ)
      · by_cases hmem : r₀.headerHash ∈ hashes <;> simp [hfork, hmem]
      · by_cases hmem : r₀.headerHash ∈ hashes <;> simp [hfork, hmem]

lemma keyed_markChain (hk : store.Keyed) (forkH : ℤ) (hashes : List Bytes32) (peak : Bytes32) :
    (markChain version store forkH hashes peak).Keyed := by
  have hmap : (markChain version store forkH hashes peak).fullBlocks.map BlockStore.hashOf =
      store.fullBlocks.map BlockStore.hashOf := by
    cases version with
    | v1 =>
      show (store.fullBlocks.map _).map _ = _
      rw [List.map_map]
      rfl
    | v2 =>
      show ((store.fullBlocks.map _).map _).map _ = _
      rw [List.map_map, List.map_map]
      apply List.map_congr_left
      intro r _
      simp only [Function.comp]
      split <;> split <;> rfl
  show ((markChain version store forkH hashes peak).fullBlocks.map BlockStore.hashOf).Nodup
  rw [hmap]
  exact hk

/-- The flags after a chain was marked: of the chain before, `c` is left, and `b` is new. -/
lemma inMainChain_markChain {c a b : List Entry} (hk : store.Keyed)
    (hrows : ∀ r ∈ store.fullBlocks, r.toBlockRow = blockRowOf (r.block, r.blockRecord))
    (hpos : ∀ (i : ℕ) (x : Entry), (c ++ a)[i]? = some x → x.2.height = i)
    (hflags : ∀ r ∈ store.fullBlocks, r.inMainChain = true ↔ (r.block, r.blockRecord) ∈ c ++ a)
    (hb : ∀ x ∈ b, store.entry x.2.headerHash = some x) {peak : Bytes32}
    (hr : r ∈ (markChain .v2 store ((c.length : ℤ) - 1) (b.map fun x => x.2.headerHash) peak).fullBlocks) :
    r.inMainChain = true ↔ (r.block, r.blockRecord) ∈ c ++ b := by
  obtain ⟨r₀, hr₀, -, hblock, hrec, hflag, -⟩ := mem_markChain hr
  rw [hflag rfl, hblock, hrec]
  have hrow := hrows r₀ hr₀
  have hheight : r₀.height = r₀.blockRecord.height := congrArg BlockRow.height hrow
  have hhash : r₀.headerHash = r₀.blockRecord.headerHash := congrArg BlockRow.headerHash hrow
  have hentry := entry_of_mem_fullBlocks hk hr₀
  constructor
  · rintro (hmem | ⟨hle, hold⟩)
    · obtain ⟨x, hx, hxr⟩ := List.mem_map.mp hmem
      have hstored := hb x hx
      rw [hxr, hentry] at hstored
      rw [Option.some.inj hstored]
      exact List.mem_append_right _ hx
    · -- a block of the chain before that is not above the fork
      have hmem := (hflags r₀ hr₀).mp hold
      obtain ⟨i, hget⟩ := List.mem_iff_getElem?.mp hmem
      have hi : r₀.blockRecord.height = i := hpos i _ hget
      rw [List.getElem?_append_left (by omega)] at hget
      exact List.mem_append_left _ (List.mem_of_getElem? hget)
  · intro hmem
    rcases List.mem_append.mp hmem with hmem | hmem
    · right
      obtain ⟨i, hi⟩ := List.mem_iff_getElem?.mp hmem
      have hlt := (List.getElem?_eq_some_iff.mp hi).1
      have hpi : (c ++ a)[i]? = some (r₀.block, r₀.blockRecord) := by
        rw [List.getElem?_append_left hlt, hi]
      have hih : r₀.blockRecord.height = i := hpos i _ hpi
      exact ⟨by omega, (hflags r₀ hr₀).mpr (List.mem_append_left _ hmem)⟩
    · left
      rw [hhash]
      exact List.mem_map.mpr ⟨_, hmem, rfl⟩

end Flags

/-! ## The height map -/

section Heights

variable {map : BlockHeightMap} {c b : List Entry}

lemma sesColumn_bind_updateHeight {x : Entry} (hses : ∃ ses, BlockStore.sesColumn x.2 = .ok ses)
    {map' : BlockHeightMap}
    (hup : map.updateHeight (blockRowOf x).height (blockRowOf x).headerHash
      (blockRowOf x).subEpochSummary = .ok map') :
    (BlockStore.sesColumn x.2 >>= map.updateHeight x.2.height x.2.headerHash) = .ok map' := by
  obtain ⟨ses, hses⟩ := hses
  rw [hses, ok_bind]
  rw [blockRowOf, hses] at hup
  exact hup

lemma updateHeights_describes (hd : Describes (c.map blockRowOf) map)
    (hheight : ∀ i x, b[i]? = some x → x.2.height = c.length + i)
    (hses : ∀ x ∈ b, ∃ ses, BlockStore.sesColumn x.2 = .ok ses) :
    ∃ map', Blockchain.updateHeights map (b.map Prod.snd) = (map', none) ∧
      Describes ((c ++ b).map blockRowOf) map' ∧ map'.dirty = map.dirty := by
  induction b generalizing c map with
  | nil => exact ⟨map, rfl, by simpa using hd, rfl⟩
  | cons x b ih =>
    have hx : (blockRowOf x).height = (c.map blockRowOf).length := by
      rw [List.length_map]
      exact hheight 0 x rfl
    obtain ⟨map₁, hup, hd₁⟩ := hd.updateHeight hx
    have hround := sesColumn_bind_updateHeight (hses x List.mem_cons_self) hup
    have hd₁' : Describes ((c ++ [x]).map blockRowOf) map₁ := by simpa using hd₁
    obtain ⟨map', hrest, hd', hdirty⟩ := ih hd₁'
      (fun i y hy => by
        have := hheight (i + 1) y (by simpa using hy)
        rw [List.length_append, List.length_singleton]
        omega)
      (fun y hy => hses y (List.mem_cons_of_mem _ hy))
    refine ⟨map', ?_, by simpa using hd', ?_⟩
    · rw [List.map_cons, Blockchain.updateHeights, hround]
      exact hrest
    · rw [hdirty, dirty_updateHeight hup]

lemma updateHeights_replaceGenesis {g : Entry} (hd : Describes [blockRowOf g] map)
    (hg : (blockRowOf g).subEpochSummary = none) (hb : b ≠ [])
    (hheight : ∀ (i : ℕ) (x : Entry), b[i]? = some x → x.2.height = i)
    (hses : ∀ x ∈ b, ∃ ses, BlockStore.sesColumn x.2 = .ok ses) :
    ∃ map', Blockchain.updateHeights map (b.map Prod.snd) = (map', none) ∧
      Describes (b.map blockRowOf) map' ∧ map'.dirty = map.dirty := by
  cases b with
  | nil => exact absurd rfl hb
  | cons x b =>
    have hx : (blockRowOf x).height = 0 := hheight 0 x rfl
    obtain ⟨map₁, hup, hd₁⟩ := hd.replaceGenesis hg hx
    have hround := sesColumn_bind_updateHeight (hses x List.mem_cons_self) hup
    obtain ⟨map', hrest, hd', hdirty⟩ := updateHeights_describes (c := [x]) (b := b) hd₁
      (fun i y hy => by
        have := hheight (i + 1) y (by simpa using hy)
        rw [List.length_singleton]
        omega)
      (fun y hy => hses y (List.mem_cons_of_mem _ hy))
    refine ⟨map', ?_, hd', ?_⟩
    · rw [List.map_cons, Blockchain.updateHeights, hround]
      exact hrest
    · rw [hdirty, dirty_updateHeight hup]

end Heights

end Chives