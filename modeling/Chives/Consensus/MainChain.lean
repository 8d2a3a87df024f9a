import Chives.Consensus.ChainReplay

set_option autoImplicit false

/-!
# The main chain of a blockchain

What the parts of a `Blockchain` say about the tree of stored blocks and about the chain of the peak,
and what the lookups then give: the hashes by height, the peak, the fork with another chain, and the
generators that a block refers to.

## Main definitions

* `Entry` — a stored block with its record.
* `View` — the blocks that are both stored and in the cache of records, as a tree.
* `MainChain` — the height map, the peak and the flags of the database describe a chain of that
  tree.

## Main results

* `MainChain.heightToHash_eq`, `MainChain.getPeak_eq` — the lookups by height.
* `MainChain.findForkPoint_eq` — the fork of a chain with the main chain.
* `MainChain.getBlockGenerator_eq_ok` — `get_block_generator` takes the generators that a block
  refers to from the block's own ancestors.

## Design

While a block is being added, the database already has it and the memory does not. The lookups are
therefore proved for any tree of blocks that both have.
-/

namespace Chives

open ExceptRun ParentTree BlockHeightMap

/-- A stored block with its record. -/
abbrev Entry := FullBlock × BlockRecord

/-- The parent pointers of stored blocks. -/
def entryLinks : Links Bytes32 Entry :=
  ⟨fun e => e.2.headerHash, fun e => e.2.prevHash, fun e => e.2.height⟩

/-- The record was made of the block. Genesis blocks include no sub-epoch summary. -/
def MadeOf (H : Hashes) (constants : ConsensusConstants) (e : Entry) : Prop :=
  ∃ requiredIters subSlotIters overflow deficit prevTransactionBlockHeight ses,
    e.2 = headerBlockToSubBlockRecord H constants requiredIters e.1 subSlotIters overflow deficit
      prevTransactionBlockHeight ses ∧ (e.1.height = 0 → ses = none)

section MadeOf

variable {H : Hashes} {constants : ConsensusConstants} {e : Entry}

variable (h : MadeOf H constants e)

include h

lemma MadeOf.headerHash : e.2.headerHash = e.1.headerHash H := by
  obtain ⟨_, _, _, _, _, _, h, -⟩ := h
  rw [h]
  rfl

lemma MadeOf.prevHash : e.2.prevHash = e.1.prevHeaderHash := by
  obtain ⟨_, _, _, _, _, _, h, -⟩ := h
  rw [h]
  rfl

lemma MadeOf.height : e.2.height = e.1.height := by
  obtain ⟨_, _, _, _, _, _, h, -⟩ := h
  rw [h]
  rfl

lemma MadeOf.genesis (h0 : e.2.height = 0) : e.2.subEpochSummaryIncluded = none := by
  rw [h.height] at h0
  obtain ⟨_, _, _, _, _, _, h, hses⟩ := h
  rw [h]
  exact hses h0

end MadeOf

/-- The row of a stored block, as the height map reads it. -/
def blockRowOf (e : Entry) : BlockRow :=
  ⟨e.2.headerHash, e.2.prevHash, e.2.height, (BlockStore.sesColumn e.2).toOption.join⟩

/-- The blocks of `m` are stored, their records are in the cache, and they form a tree. -/
structure View (H : Hashes) (constants : ConsensusConstants) (s : Blockchain)
    (m : Bytes32 → Option Entry) : Prop where
  stored : ∀ {h e}, m h = some e → s.blockStore.entry h = some e
  cached : ∀ {h e}, m h = some e → s.blockRecords.get h = some e.2
  rooted : Rooted entryLinks m
  madeOf : ∀ {h e}, m h = some e → MadeOf H constants e
  sesColumn : ∀ {h e}, m h = some e → ∃ ses, BlockStore.sesColumn e.2 = .ok ses
  ofCached : ∀ {h r}, s.blockRecords.get h = some r → ∃ b, m h = some (b, r)

/-- The peak, the height map and the flags of the database describe the chain `P` of the block `tip`
of the tree `m`. -/
structure MainChain (T : BlockchainTools) (constants : ConsensusConstants) (s : Blockchain)
    (m : Bytes32 → Option Entry) (tip : Entry) (P : List Entry) : Prop where
  view : View T.H constants s m
  path : Path entryLinks m tip P
  tip_mem : m tip.2.headerHash = some tip
  peakHeight : s.peakHeight = some tip.2.height
  describes : Describes (P.map blockRowOf) s.heightMap
  keyed : s.blockStore.Keyed
  rows : ∀ r ∈ s.blockStore.fullBlocks, r.toBlockRow = blockRowOf (r.block, r.blockRecord)
  inMainChain : T.dbVersion = .v2 → ∀ r ∈ s.blockStore.fullBlocks,
    r.inMainChain = true ↔ (r.block, r.blockRecord) ∈ P
  currentPeak : T.dbVersion = .v2 → s.blockStore.currentPeak = some tip.2.headerHash
  isPeak : T.dbVersion = .v1 → ∀ r ∈ s.blockStore.fullBlocks,
    r.isPeak = true ↔ r.headerHash = tip.2.headerHash

namespace View

variable {H : Hashes} {constants : ConsensusConstants} {s : Blockchain} {m : Bytes32 → Option Entry}
  {e : Entry} {l : List Entry}

section

variable (hv : View H constants s m)

include hv

variable (hl : Path entryLinks m e l)

include hl

lemma chain_records : s.blockRecords.Chain e.2 (l.map Prod.snd) := by
  induction hl with
  | root h => exact .root h
  | step hp hh _ ih =>
    rw [List.map_append]
    exact .step (hv.cached hp) hh ih

lemma mem_of_path (he : m e.2.headerHash = some e) {x : Entry} (hx : x ∈ l) : m x.2.headerHash = some x :=
  hl.stored_of_stored (fun hm => hv.rooted.hash_eq hm) he x hx

/-- The walk back from a stored block to the fork height or genesis. -/
lemma blocksBack_eq_ok (he : m e.2.headerHash = some e) (forkH : ℤ) {fuel : ℕ} (hfuel : e.2.height < fuel) :
    blocksBack s.blockStore forkH fuel e.1 =
      .ok ((l.drop (min e.2.height forkH.toNat)).map Prod.fst).reverse := by
  induction hl generalizing fuel with
  | @root e h0 =>
    change e.2.height = 0 at h0
    obtain ⟨fuel, rfl⟩ : ∃ n, fuel = n + 1 := ⟨fuel - 1, by omega⟩
    have hheight : e.1.height = 0 := by rw [← (hv.madeOf he).height, h0]
    rw [blocksBack, if_neg (by omega), h0, Nat.zero_min]
    rfl
  | @step e p l hp hh hl ih =>
    change e.2.height = p.2.height + 1 at hh
    change m e.2.prevHash = some p at hp
    obtain ⟨fuel, rfl⟩ : ∃ n, fuel = n + 1 := ⟨fuel - 1, by omega⟩
    have hheight : e.1.height = p.2.height + 1 := by rw [← (hv.madeOf he).height, hh]
    have hlen : l.length = p.2.height + 1 := Path.length_eq hl
    have hpmem : m p.2.headerHash = some p := by
      rw [show p.2.headerHash = e.2.prevHash from hv.rooted.hash_eq hp]
      exact hp
    rw [blocksBack]
    by_cases hfork : (e.1.height : ℤ) > forkH
    · have hget : s.blockStore.getFullBlock e.1.prevHeaderHash = some p.1 := by
        rw [BlockStore.getFullBlock_eq, ← (hv.madeOf he).prevHash, hv.stored hp]
        rfl
      have hmin : min e.2.height forkH.toNat = min p.2.height forkH.toNat := by omega
      have hdrop : (l ++ [e]).drop (min p.2.height forkH.toNat) =
          l.drop (min p.2.height forkH.toNat) ++ [e] :=
        List.drop_append_of_le_length (by omega)
      rw [if_pos ⟨hfork, by omega⟩, hget, pySome, ok_bind, ih hpmem (by omega), ok_bind, hmin, hdrop]
      simp
    · have hmin : min e.2.height forkH.toNat = l.length := by omega
      rw [if_neg (fun hc => hfork hc.1), hmin, List.drop_left]
      rfl

lemma heightsFrom_zero (he : m e.2.headerHash = some e) : HeightsFrom 0 (l.map Prod.fst) := by
  intro i b hb
  rw [List.getElem?_map] at hb
  obtain ⟨y, hy, rfl⟩ := Option.map_eq_some_iff.mp hb
  have hyi : y.2.height = i := (hl.getElem hy).1
  rw [← (hv.madeOf (hv.mem_of_path hl he (List.mem_of_getElem? hy))).height, hyi, Nat.zero_add]

lemma lookup_byHeight (he : m e.2.headerHash = some e) (k h : ℕ) :
    (Dict.ofItems ((((l.drop k).map Prod.fst).reverse).map fun b => (b.height, b))).lookup h =
      if k ≤ h then l[h]?.map Prod.fst else none := by
  have hheights := (hv.heightsFrom_zero hl he).drop k
  rw [List.map_drop, hheights.lookup_ofItems, Nat.zero_add]
  split
  · rename_i hk
    rw [List.getElem?_drop, List.getElem?_map, show k + (h - k) = h by omega]
  · rfl

end

end View

namespace MainChain

variable {T : BlockchainTools} {constants : ConsensusConstants} {s : Blockchain}
  {m : Bytes32 → Option Entry} {tip : Entry} {P : List Entry}

section

variable (hm : MainChain T constants s m tip P)

include hm

lemma heightToHash_eq (h : ℕ) : s.heightToHash h = P[h]?.map fun e => e.2.headerHash := by
  unfold Blockchain.heightToHash
  cases he : P[h]? with
  | none =>
    have hlen : ¬h < (P.map blockRowOf).length := by
      rw [List.length_map]
      exact not_lt.mpr (List.getElem?_eq_none_iff.mp he)
    rw [if_neg (fun hc => hlen ((hm.describes.containsHeight_iff h).mp hc))]
    rfl
  | some e =>
    have hrow : (P.map blockRowOf)[h]? = some (blockRowOf e) := by rw [List.getElem?_map, he]; rfl
    obtain ⟨hlt, -⟩ := List.getElem?_eq_some_iff.mp hrow
    rw [if_pos ((hm.describes.containsHeight_iff h).mpr hlt), hm.describes.getHash_eq hrow]
    rfl

lemma getElem?_tip : P[tip.2.height]? = some tip :=
  hm.path.getElem?_height hm.path.mem_self

lemma getPeak_eq : s.getPeak = .ok (some tip.2) := by
  unfold Blockchain.getPeak
  simp only [hm.peakHeight]
  unfold Blockchain.heightToBlockRecord
  rw [hm.heightToHash_eq, hm.getElem?_tip]
  simp only [Option.map_some]
  rw [BlockRecords.blockRecord_eq_ok (hm.view.cached hm.tip_mem)]
  rfl

end

variable {l : List Entry}

lemma forkHeight_map_snd {l' : List Entry} (hinj : ∀ x ∈ l, ∀ y ∈ l', x.2.headerHash = y.2.headerHash → x = y) :
    forkHeight (l.map Prod.snd) (l'.map Prod.snd) = forkHeight l l' := by
  have hprefix : ∀ {l l' : List Entry}, (∀ x ∈ l, ∀ y ∈ l', x.2.headerHash = y.2.headerHash → x = y) →
      commonPrefix (l.map Prod.snd) (l'.map Prod.snd) = (commonPrefix l l').map Prod.snd := by
    intro l l' hinj
    induction l generalizing l' with
    | nil => simp [commonPrefix]
    | cons x l ih =>
      cases l' with
      | nil => simp [commonPrefix]
      | cons y l' =>
        have hrest := ih fun a ha b hb => hinj a (List.mem_cons_of_mem _ ha) b
          (List.mem_cons_of_mem _ hb)
        by_cases hxy : x = y
        · subst hxy
          simp [commonPrefix, hrest]
        · have hne : x.2 ≠ y.2 := fun he =>
            hxy (hinj x List.mem_cons_self y List.mem_cons_self (by rw [he]))
          simp [commonPrefix, hxy, hne]
  rw [forkHeight, forkHeight, hprefix hinj, List.length_map]

variable {e : Entry}

/-- `find_fork_point_in_chain` finds the fork of two chains of the tree whose blocks are determined by
their hashes. The last blocks of the chains need not be stored. -/
lemma findForkPoint_of_paths (hv : View T.H constants s m) {e' : Entry} {l' : List Entry} (hl : Path entryLinks m e l)
    (hl' : Path entryLinks m e' l') (hinj : ∀ x ∈ l, ∀ y ∈ l', x.2.headerHash = y.2.headerHash → x = y) :
    findForkPointInChain s.blockRecords e.2 e'.2 = .ok (forkHeight l l') := by
  rw [findForkPointInChain_eq_ok (hv.chain_records hl) (hv.chain_records hl'),
    forkHeight_map_snd hinj]
  intro x hx y hy hxy
  obtain ⟨x', hx', rfl⟩ := List.mem_map.mp hx
  obtain ⟨y', hy', rfl⟩ := List.mem_map.mp hy
  rw [hinj x' hx' y' hy' hxy]

lemma findForkPoint_eq (hm : MainChain T constants s m tip P) (hl : Path entryLinks m e l)
    (he : m e.2.headerHash = some e) : findForkPointInChain s.blockRecords tip.2 e.2 = .ok (forkHeight P l) := by
  apply findForkPoint_of_paths hm.view hm.path hl
  intro x hx y hy hxy
  exact eq_of_stored (L := entryLinks) (hm.view.mem_of_path hm.path hm.tip_mem hx)
    (hm.view.mem_of_path hl he hy) hxy

variable {h : ℕ}

lemma getElem?_of_lt_forkHeight (hh : (h : ℤ) ≤ forkHeight P l) : P[h]? = l[h]? := by
  obtain ⟨a, b, ha, hb, -⟩ := exists_eq_commonPrefix_append P l
  have hlt : h < (commonPrefix P l).length := by
    rw [forkHeight] at hh
    omega
  calc P[h]? = (commonPrefix P l)[h]? :=
        (congrArg (·[h]?) ha).trans (List.getElem?_append_left hlt)
    _ = l[h]? := ((congrArg (·[h]?) hb).trans (List.getElem?_append_left hlt)).symm

/-! ## Generators -/

/-- The generator of a block at a height of a chain. -/
def generatorAt (l : List Entry) (h : ℕ) : Option SerializedProgram :=
  l[h]?.bind fun e => e.1.transactionsGenerator

variable {b : FullBlock} {g : BlockGenerator}

lemma ownGenerator_eq_some (h : ownGenerator (l.map Prod.fst) b = some g) :
    ∃ program refs, b.transactionsGenerator = some program ∧ g = ⟨program, refs, []⟩ ∧
      b.transactionsGeneratorRefList.mapM (generatorAt l) = some refs := by
  unfold ownGenerator at h
  cases hprogram : b.transactionsGenerator with
  | none => simp [hprogram] at h
  | some program =>
    simp only [hprogram, Option.map_eq_some_iff] at h
    obtain ⟨refs, hrefs, rfl⟩ := h
    refine ⟨program, refs, rfl, rfl, ?_⟩
    rw [← hrefs]
    congr 1
    funext k
    rw [generatorAt, List.getElem?_map]
    cases l[k]? <;> rfl

section

variable (hm : MainChain T constants s m tip P)

include hm

lemma getGenerator_eq (he : P[h]? = some e) :
    s.blockStore.getGenerator e.2.headerHash = e.1.transactionsGenerator := by
  have hmem := hm.view.mem_of_path hm.path hm.tip_mem (List.mem_of_getElem? he)
  rw [BlockStore.getGenerator_eq, hm.view.stored hmem]
  rfl

lemma generatorAtHeight_eq_ok {g : SerializedProgram} (hg : generatorAt P h = some g) :
    s.generatorAtHeight h = .ok g := by
  unfold generatorAt at hg
  obtain ⟨e, he, hg⟩ := Option.bind_eq_some_iff.mp hg
  unfold Blockchain.generatorAtHeight
  rw [hm.heightToHash_eq, he]
  simp only [Option.map_some, pySome, ok_bind]
  rw [hm.getGenerator_eq he, hg]
  rfl

lemma nodup_height_rows (hv2 : T.dbVersion = .v2) (refs : List ℕ) : ((s.blockStore.fullBlocks.filter fun r =>
      r.inMainChain ∧ r.height ∈ refs).map fun r => r.height).Nodup := by
  have hkeyed : Table.Keyed BlockStore.hashOf (s.blockStore.fullBlocks.filter fun r =>
      r.inMainChain ∧ r.height ∈ refs) := Table.Keyed.sublist hm.keyed List.filter_sublist
  refine (List.Nodup.of_map _ hkeyed).map_on ?_
  intro r hr r' hr' hheight
  obtain ⟨hmem, hflag⟩ := List.mem_filter.mp hr
  obtain ⟨hmem', hflag'⟩ := List.mem_filter.mp hr'
  have hP := (hm.inMainChain hv2 r hmem).mp (of_decide_eq_true hflag).1
  have hP' := (hm.inMainChain hv2 r' hmem').mp (of_decide_eq_true hflag').1
  have hrow := hm.rows r hmem
  have hrow' := hm.rows r' hmem'
  have h₁ := hm.path.getElem?_height hP
  have h₂ := hm.path.getElem?_height hP'
  have hh : r.blockRecord.height = r'.blockRecord.height := by
    have e₁ : r.height = r.blockRecord.height := congrArg BlockRow.height hrow
    have e₂ : r'.height = r'.blockRecord.height := congrArg BlockRow.height hrow'
    rw [← e₁, ← e₂, hheight]
  have hsame : (r.block, r.blockRecord) = (r'.block, r'.blockRecord) :=
    Option.some.inj (h₁.symm.trans ((congrArg (P[·]?) hh).trans h₂))
  apply hkeyed.eq_of_key_eq hr hr'
  show r.headerHash = r'.headerHash
  have e₁ : r.headerHash = r.blockRecord.headerHash := congrArg BlockRow.headerHash hrow
  have e₂ : r'.headerHash = r'.blockRecord.headerHash := congrArg BlockRow.headerHash hrow'
  rw [e₁, e₂, (Prod.mk.inj hsame).2]

end

lemma foldlM_generators {rows : List FullBlockRow}
    (h : ∀ r ∈ rows, ∃ g, r.block.transactionsGenerator = some g) (d : Dict ℕ SerializedProgram) :
    rows.foldlM BlockStore.addGenerator d =
    .ok ((rows.map fun r => (r.height, r.block.transactionsGenerator.getD [])).foldl
      (fun d e => Dict.set d e.1 e.2) d) := by
  induction rows generalizing d with
  | nil => rfl
  | cons r rows ih =>
    obtain ⟨g, hg⟩ := h r List.mem_cons_self
    rw [List.foldlM_cons, List.map_cons, List.foldl_cons, BlockStore.addGenerator, hg]
    exact ih (fun r' hr' => h r' (List.mem_cons_of_mem _ hr')) _

variable {gs : List SerializedProgram} {p : Entry}

section

variable (hm : MainChain T constants s m tip P)

include hm

lemma exists_row (hv2 : T.dbVersion = .v2) (he : P[h]? = some e) :
    ∃ r ∈ s.blockStore.fullBlocks, r.inMainChain = true ∧ r.height = h ∧
      (r.block, r.blockRecord) = e := by
  have hmem := hm.view.mem_of_path hm.path hm.tip_mem (List.mem_of_getElem? he)
  have hentry := hm.view.stored hmem
  unfold BlockStore.entry at hentry
  obtain ⟨r, hr, hre⟩ := Option.map_eq_some_iff.mp hentry
  obtain ⟨hr, -⟩ := Table.mem_of_find hr
  refine ⟨r, hr, ?_, ?_, hre⟩
  · rw [hm.inMainChain hv2 r hr, hre]
    exact List.mem_of_getElem? he
  · have e₁ : r.height = r.blockRecord.height := congrArg BlockRow.height (hm.rows r hr)
    have e₂ : r.blockRecord = e.2 := by rw [← hre]
    rw [e₁, e₂]
    exact (hm.path.getElem he).1

/-- `get_generators_at` gives the generators of the main chain. -/
lemma getGeneratorsAt_eq_ok (hv2 : T.dbVersion = .v2) {refs : List ℕ} (h : refs.mapM (generatorAt P) = some gs)
    (hsome : ∀ k ∈ refs, ∃ g, generatorAt P k = some g) : s.blockStore.getGeneratorsAt refs = .ok gs := by
  have hrow : ∀ r ∈ s.blockStore.fullBlocks.filter (fun r => r.inMainChain ∧ r.height ∈ refs),
      r.block.transactionsGenerator = generatorAt P r.height := by
    intro r hr
    obtain ⟨hmem, hflag⟩ := List.mem_filter.mp hr
    have hP := (hm.inMainChain hv2 r hmem).mp (of_decide_eq_true hflag).1
    have e₁ : r.height = r.blockRecord.height := congrArg BlockRow.height (hm.rows r hmem)
    have hget := hm.path.getElem?_height hP
    rw [generatorAt, e₁]
    exact (congrArg (Option.bind · fun e : Entry => e.1.transactionsGenerator) hget).symm
  have hgen : ∀ r ∈ s.blockStore.fullBlocks.filter (fun r => r.inMainChain ∧ r.height ∈ refs),
      ∃ g, r.block.transactionsGenerator = some g := by
    intro r hr
    rw [hrow r hr]
    exact hsome _ (of_decide_eq_true (List.mem_filter.mp hr).2).2
  unfold BlockStore.getGeneratorsAt BlockStore.mainChainGenerators
  rw [foldlM_generators hgen, ok_bind]
  apply mapM_eq_ok_of_mapM_eq_some h
  intro k hk g hg
  obtain ⟨e, he, heg⟩ := Option.bind_eq_some_iff.mp hg
  obtain ⟨r, hr, hflag, hheight, hre⟩ := hm.exists_row hv2 he
  have hmem : r ∈ s.blockStore.fullBlocks.filter (fun r => r.inMainChain ∧ r.height ∈ refs) :=
    List.mem_filter.mpr ⟨hr, decide_eq_true ⟨hflag, hheight ▸ hk⟩⟩
  have hkeys := hm.nodup_height_rows hv2 refs
  rw [Dict.lookup_foldl_set _ _ (by rwa [List.map_map])]
  have hfind : (s.blockStore.fullBlocks.filter fun r => r.inMainChain ∧ r.height ∈ refs).find?
      (fun r => r.height = k) = some r :=
    (show Table.Keyed (fun r : FullBlockRow => r.height) _ from hkeys).find_eq_some.mpr
      ⟨hmem, hheight⟩
  rw [List.find?_map]
  have hcomp : ((fun e : ℕ × SerializedProgram => decide (e.1 = k)) ∘
      fun r : FullBlockRow => (r.height, r.block.transactionsGenerator.getD [])) =
      fun r => decide (r.height = k) := rfl
  have hgr : r.block.transactionsGenerator = some g := by
    rw [hrow r hmem, hheight, hg]
  rw [hcomp, hfind]
  simp [hgr]

lemma eq_take_of_heightToHash (hl : Path entryLinks m e l) (he : m e.2.headerHash = some e)
    (hhash : s.heightToHash e.2.height = some e.2.headerHash) : l = P.take (e.2.height + 1) := by
  rw [hm.heightToHash_eq] at hhash
  obtain ⟨x, hx, hxe⟩ := Option.map_eq_some_iff.mp hhash
  have hxmem := hm.view.mem_of_path hm.path hm.tip_mem (List.mem_of_getElem? hx)
  obtain rfl : x = e := eq_of_stored (L := entryLinks) hxmem he hxe
  have htake := take_eq_of_getElem? hm.path hl hx (hl.getElem?_height hl.mem_self)
  rw [htake, List.take_of_length_le]
  exact (Path.length_eq hl).le

lemma height_lt_storeFuel (hl : Path entryLinks m e l) (he : m e.2.headerHash = some e) :
    e.2.height < storeFuel s.blockStore := by
  have hnodup : (l.map fun x => x.2.headerHash).Nodup := by
    refine List.Nodup.map_on ?_ ?_
    · intro x hx y hy hxy
      exact eq_of_stored (L := entryLinks) (hm.view.mem_of_path hl he hx)
        (hm.view.mem_of_path hl he hy) hxy
    · apply List.Nodup.of_map Prod.fst
      apply List.Nodup.of_map FullBlock.height
      rw [(hm.view.heightsFrom_zero hl he).map_height]
      exact List.nodup_range'
  have hsub : (l.map fun x => x.2.headerHash) ⊆ s.blockStore.fullBlocks.map BlockStore.hashOf := by
    intro h hh
    obtain ⟨x, hx, rfl⟩ := List.mem_map.mp hh
    have hentry := hm.view.stored (hm.view.mem_of_path hl he hx)
    obtain ⟨r, hr, -⟩ := Option.map_eq_some_iff.mp hentry
    obtain ⟨hr, hkey⟩ := Table.mem_of_find hr
    exact List.mem_map.mpr ⟨r, hr, hkey⟩
  have hle := (hnodup.subperm hsub).length_le
  have hlen : l.length = e.2.height + 1 := Path.length_eq hl
  rw [List.length_map, List.length_map] at hle
  unfold storeFuel
  omega

lemma generatorInReorg_eq_ok (hl : Path entryLinks m p l) (hp : m p.2.headerHash = some p) {g : SerializedProgram}
    (hg : generatorAt l h = some g) :
    s.generatorInReorg (Dict.ofItems ((((l.drop (min p.2.height (forkHeight P l).toNat)).map
      Prod.fst).reverse).map fun b => (b.height, b))) ∅ h = .ok g := by
  obtain ⟨e, he, heg⟩ := Option.bind_eq_some_iff.mp hg
  have hlt : h < l.length := (List.getElem?_eq_some_iff.mp he).1
  have hlen : l.length = p.2.height + 1 := Path.length_eq hl
  unfold Blockchain.generatorInReorg
  rw [hm.view.lookup_byHeight hl hp]
  by_cases hk : min p.2.height (forkHeight P l).toNat ≤ h
  · rw [if_pos hk, he]
    simp only [Option.map_some, Blockchain.generatorOf, heg]
  · -- below the fork the block's chain is the main chain
    have hPe : P[h]? = some e := by
      rw [getElem?_of_lt_forkHeight (l := l) (by omega), he]
    rw [if_neg hk, AList.lookup_empty, hm.heightToHash_eq, hPe]
    simp only [Option.map_some]
    rw [hm.getGenerator_eq hPe, heg]

lemma generatorsOnMainChain_eq_ok {refs : List ℕ} {n : ℕ} (hgs : refs.mapM (generatorAt (P.take n)) = some gs) :
    s.generatorsOnMainChain T.dbVersion refs = .ok gs := by
  have hP : ∀ k g, generatorAt (P.take n) k = some g → generatorAt P k = some g := by
    intro k g hk
    obtain ⟨e, he, heg⟩ := Option.bind_eq_some_iff.mp hk
    rw [List.getElem?_take] at he
    split at he
    · rw [generatorAt, he]
      exact heg
    · cases he
  have hmap : refs.mapM (generatorAt P) = some gs := by
    rw [mapM_eq_some_iff, ← mapM_eq_some_iff.mp hgs]
    apply List.map_congr_left
    intro k hk
    obtain ⟨g, hg⟩ := mapM_eq_some_mem hgs hk
    rw [hg, hP k g hg]
  unfold Blockchain.generatorsOnMainChain
  cases hversion : T.dbVersion with
  | v1 => exact mapM_eq_ok_of_mapM_eq_some hmap fun k _ g hk => hm.generatorAtHeight_eq_ok hk
  | v2 => exact hm.getGeneratorsAt_eq_ok hversion hmap fun k hk => mapM_eq_some_mem hmap hk

lemma storedReorgChain_eq_ok {h : Bytes32} (hp : m h = some p) (hl : Path entryLinks m p l) :
    s.storedReorgChain h =
      .ok ((l.drop (min p.2.height (forkHeight P l).toNat)).map Prod.fst).reverse := by
  have hpmem : m p.2.headerHash = some p := by
    rw [show p.2.headerHash = h from hm.view.rooted.hash_eq hp]
    exact hp
  unfold Blockchain.storedReorgChain
  rw [hm.getPeak_eq, ok_bind, hm.view.cached hp]
  simp only [BlockStore.getBlockRecord_eq, BlockStore.getFullBlock_eq, hm.view.stored hp,
    Option.map_some, pySome, ok_bind, hm.findForkPoint_eq hl hpmem]
  exact hm.view.blocksBack_eq_ok hl hpmem _ (hm.height_lt_storeFuel hl hpmem)

/-- The generators that a block refers to, when its parent is in a fork: `l` is the chain of the
parent. -/
lemma generatorsInReorg_eq_ok (hp : m b.prevHeaderHash = some p) (hl : Path entryLinks m p l)
    (hgs : b.transactionsGeneratorRefList.mapM (generatorAt l) = some gs) : s.generatorsInReorg b ∅ = .ok gs := by
  have hpmem : m p.2.headerHash = some p := by
    rw [show p.2.headerHash = b.prevHeaderHash from hm.view.rooted.hash_eq hp]
    exact hp
  have hadditional : Blockchain.additionalChain ∅ ((∅ : Dict Bytes32 FullBlock).keys.length + 1) b =
      .ok ([], b.prevHeaderHash) := by
    simp [Blockchain.additionalChain]
  unfold Blockchain.generatorsInReorg
  rw [hadditional, ok_bind]
  simp only [hm.storedReorgChain_eq_ok hp hl, ok_bind, List.nil_append, List.map_nil]
  exact mapM_eq_ok_of_mapM_eq_some hgs fun k _ g hk => hm.generatorInReorg_eq_ok hl hpmem hk

/-- The generators that a block refers to are looked up among its own ancestors: `l` is the chain of
the parent.

**Proof sketch.** If the parent is on the main chain, its chain is the main chain up to the parent, and
the generators are looked up there. If not, the blocks down to the fork are collected from the
database, and below the fork the two chains agree. -/
lemma referencedGenerators_eq_ok (hp : m b.prevHeaderHash = some p) (hl : Path entryLinks m p l)
    (hgs : b.transactionsGeneratorRefList.mapM (generatorAt l) = some gs) :
    s.referencedGenerators T.dbVersion b ∅ = .ok gs := by
  have hhash : p.2.headerHash = b.prevHeaderHash := hm.view.rooted.hash_eq hp
  have hon : s.prevOnMainChain b = decide (s.heightToHash p.2.height = some p.2.headerHash) := by
    simp only [Blockchain.prevOnMainChain, hm.view.cached hp, hhash]
  unfold Blockchain.referencedGenerators
  rw [hon]
  by_cases hmain : s.heightToHash p.2.height = some p.2.headerHash
  · have heq := hm.eq_take_of_heightToHash hl (by rw [hhash]; exact hp) hmain
    rw [decide_eq_true hmain, if_pos rfl]
    rw [heq] at hgs
    exact hm.generatorsOnMainChain_eq_ok hgs
  · rw [decide_eq_false hmain]
    exact hm.generatorsInReorg_eq_ok hp hl hgs

end

/-- `get_block_generator` of a block that refers to no other block. -/
lemma getBlockGenerator_of_nil (hg : ownGenerator [] b = some g) (version : DbVersion) :
    s.getBlockGenerator version b ∅ = .ok (some g) := by
  obtain ⟨program, refs, hprogram, rfl, hrefs⟩ := ownGenerator_eq_some (l := []) hg
  have hnil : b.transactionsGeneratorRefList = [] := by
    rw [List.eq_nil_iff_forall_not_mem]
    intro k hk
    obtain ⟨g, hg⟩ := mapM_eq_some_mem hrefs hk
    simp [generatorAt] at hg
  unfold Blockchain.getBlockGenerator
  simp only [hprogram]
  rw [hnil, List.mapM_nil] at hrefs
  rw [if_pos hnil, ← Option.some.inj hrefs]

/-- `get_block_generator` takes the generators that a block refers to from the block's own ancestors:
`l` is the chain of the parent. -/
lemma getBlockGenerator_eq_ok (hm : MainChain T constants s m tip P) (hp : m b.prevHeaderHash = some p)
    (hl : Path entryLinks m p l) (hg : ownGenerator (l.map Prod.fst) b = some g) :
    s.getBlockGenerator T.dbVersion b ∅ = .ok (some g) := by
  obtain ⟨program, refs, hprogram, rfl, hrefs⟩ := ownGenerator_eq_some hg
  have hlength : refs.length = b.transactionsGeneratorRefList.length := by
    have := congrArg List.length (mapM_eq_some_iff.mp hrefs)
    simpa using this.symm
  unfold Blockchain.getBlockGenerator
  simp only [hprogram]
  by_cases hnil : b.transactionsGeneratorRefList = []
  · rw [if_pos hnil]
    rw [hnil, List.mapM_nil] at hrefs
    rw [← Option.some.inj hrefs]
  · rw [if_neg hnil, hm.referencedGenerators_eq_ok hp hl hrefs, ok_bind, pyAssert, if_pos hlength]
    rfl

lemma getBlockGenerator_of_path (hm : MainChain T constants s m tip P) {x : Entry} {lx : List Entry}
    (hx : m x.2.headerHash = some x) (hlx : Path entryLinks m x (lx ++ [x]))
    (hg : ownGenerator (lx.map Prod.fst) x.1 = some g) : s.getBlockGenerator T.dbVersion x.1 ∅ = .ok (some g) := by
  by_cases h0 : x.2.height = 0
  · have hnil : lx = [] := by
      have := hlx.unique (.root h0)
      simpa using this
    subst hnil
    exact getBlockGenerator_of_nil hg _
  · obtain ⟨p, l₀, hp, -, hl₀, heq⟩ := hlx.parent h0
    obtain rfl := (List.append_inj' heq rfl).1
    change m x.2.prevHash = some p at hp
    rw [(hm.view.madeOf hx).prevHash] at hp
    exact hm.getBlockGenerator_eq_ok hp hl₀ hg

end MainChain

end Chives
