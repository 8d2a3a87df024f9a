import Chives.Consensus.ReceiveBlock

set_option autoImplicit false

/-!
# Generator references

`get_block_generator` with blocks that the caller supplies: the generators that a block refers to by
height are those of the block's own ancestors, whether these are on the main chain, in a fork or among
the supplied blocks.

## Main definitions

* `OwnAncestors` — the ancestors of a block among the stored and the supplied blocks.
* `AdditionalBlocks` — what is known of the supplied blocks.
* `generatorIn` — the generator of the block at a height of a chain.

## Main results

* `generatorsInReorg_eq`, `generatorsOnMainChain_eq` — the two ways of the lookup.
* `getBlockGenerator_own_chain` — the generators of reachable states.
-/

namespace Chives

open ExceptRun ParentTree BlockHeightMap

/-- The ancestors of a block, from genesis on: its parent is stored, or it is among the additional
blocks and has ancestors itself. -/
inductive OwnAncestors (s : Blockchain) (additional : Dict Bytes32 FullBlock) :
    FullBlock → List FullBlock → Prop
  | genesis {b : FullBlock} (h0 : b.height = 0) : OwnAncestors s additional b []
  | stored {b : FullBlock} {p : Entry} {l : List Entry}
      (hp : s.blockStore.entry b.prevHeaderHash = some p) (hh : b.height = p.2.height + 1)
      (hl : Path entryLinks s.blockStore.entry p l) : OwnAncestors s additional b (l.map Prod.fst)
  | supplied {b p : FullBlock} {l : List FullBlock}
      (hp : additional.lookup b.prevHeaderHash = some p) (hh : b.height = p.height + 1)
      (hl : OwnAncestors s additional p l) : OwnAncestors s additional b (l ++ [p])

/-- The block itself or one of the additional blocks. -/
def Supplied (additional : Dict Bytes32 FullBlock) (b curr : FullBlock) : Prop :=
  curr = b ∨ ∃ h, additional.lookup h = some curr

/-- What is known of the additional blocks and the block: heights go up by one from parent to child,
and what is stored under the hash of an additional block has its parent, height and generator. -/
structure AdditionalBlocks (s : Blockchain) (additional : Dict Bytes32 FullBlock) (b : FullBlock) :
    Prop where
  height : ∀ curr p, Supplied additional b curr →
    additional.lookup curr.prevHeaderHash = some p → curr.height = p.height + 1
  height_stored : ∀ curr e, Supplied additional b curr →
    s.blockStore.entry curr.prevHeaderHash = some e → curr.height = e.2.height + 1
  same : ∀ h p e, additional.lookup h = some p → s.blockStore.entry h = some e →
    p.prevHeaderHash = e.1.prevHeaderHash ∧ p.height = e.1.height ∧
      p.transactionsGenerator = e.1.transactionsGenerator

/-- The generator of the block at a height of a chain. -/
def generatorIn (l : List FullBlock) (h : ℕ) : Option SerializedProgram :=
  l[h]?.bind FullBlock.transactionsGenerator

/-- The generator at a height, or the exception for a block without one. -/
def generatorRef (l : List FullBlock) (h : ℕ) : Except PyError SerializedProgram :=
  match generatorIn l h with
  | some generator => .ok generator
  | none => .error .valueError

/-! ## The additional blocks -/

section Additional

variable {T : BlockchainTools} {constants : ConsensusConstants} {s : Blockchain}
  {additional : Dict Bytes32 FullBlock} {b curr : FullBlock} {l : List FullBlock}

lemma OwnAncestors.length_eq (h : OwnAncestors s additional b l) : l.length = b.height := by
  induction h with
  | genesis h0 => rw [h0]; rfl
  | stored _ hh hl => rw [List.length_map, hh, hl.length_eq]; rfl
  | supplied _ hh _ ih => rw [List.length_append, ih, hh]; rfl

section

variable (hv : View T.H constants s s.blockStore.entry)

include hv

lemma OwnAncestors.heightsFrom (h : OwnAncestors s additional b l) : HeightsFrom 0 l := by
  induction h with
  | genesis _ => intro i b hb; simp at hb
  | @stored b p l hp _ hl =>
    apply hv.heightsFrom_zero hl
    rw [show p.2.headerHash = b.prevHeaderHash from hv.rooted.hash_eq hp]
    exact hp
  | @supplied b p l _ _ hl ih =>
    refine ih.append fun i b' hb' => ?_
    have hi : i = 0 := by
      have := (List.getElem?_eq_some_iff.mp hb').1
      simp only [List.length_singleton] at this
      omega
    subst hi
    obtain rfl : p = b' := by simpa using hb'
    rw [hl.length_eq]
    omega

lemma OwnAncestors.of_lookup (ha : AdditionalBlocks s additional b) (hcurr : Supplied additional b curr)
    (h : OwnAncestors s additional curr l) {q : FullBlock} (hq : additional.lookup curr.prevHeaderHash = some q) :
    ∃ l₀ a, l = l₀ ++ [a] ∧ a.transactionsGenerator = q.transactionsGenerator ∧
      OwnAncestors s additional q l₀ := by
  cases h with
  | genesis h0 =>
    have := ha.height curr q hcurr hq
    omega
  | @supplied _ p l hp _ hl =>
    obtain rfl := Option.some.inj (hp.symm.trans hq)
    exact ⟨l, p, rfl, rfl, hl⟩
  | @stored _ p l hp _ hl =>
    -- the parent is stored too, with the same parent, height and generator
    obtain ⟨hprev, hheight, hgen⟩ := ha.same _ q p hq hp
    have hmade := hv.madeOf hp
    by_cases h0 : p.2.height = 0
    · obtain rfl := hl.unique (.root h0)
      refine ⟨[], p.1, rfl, hgen.symm, .genesis ?_⟩
      rw [hheight, ← hmade.height, h0]
    · obtain ⟨p', l₀, hp', hh', hl₀, rfl⟩ := hl.parent h0
      change s.blockStore.entry p.2.prevHash = some p' at hp'
      change p.2.height = p'.2.height + 1 at hh'
      refine ⟨l₀.map Prod.fst, p.1, by simp, hgen.symm, .stored (p := p') ?_ ?_ hl₀⟩
      · rw [hprev, ← hmade.prevHash, hp']
      · rw [hheight, ← hmade.height, hh']

lemma OwnAncestors.generators_unique (ha : AdditionalBlocks s additional b) (hcurr : Supplied additional b curr)
    (h : OwnAncestors s additional curr l) {l' : List FullBlock} (h' : OwnAncestors s additional curr l') :
    l.map FullBlock.transactionsGenerator = l'.map FullBlock.transactionsGenerator := by
  induction hn : l.length generalizing curr l l' with
  | zero =>
    have hlen' : l'.length = 0 := by rw [h'.length_eq, ← h.length_eq, hn]
    rw [List.length_eq_zero_iff.mp hn, List.length_eq_zero_iff.mp hlen']
  | succ n ih =>
    cases hq : additional.lookup curr.prevHeaderHash with
    | some q =>
      obtain ⟨l₀, a, rfl, hgen, hl₀⟩ := h.of_lookup hv ha hcurr hq
      obtain ⟨l₀', a', rfl, hgen', hl₀'⟩ := h'.of_lookup hv ha hcurr hq
      rw [List.map_append, List.map_append, ih (.inr ⟨_, hq⟩) hl₀ hl₀' (by simpa using hn),
        List.map_singleton, List.map_singleton, hgen, hgen']
    | none =>
      have hpos : curr.height ≠ 0 := by
        rw [← h.length_eq]
        omega
      cases h with
      | genesis h0 => exact absurd h0 hpos
      | supplied hp _ _ => rw [hp] at hq; cases hq
      | stored hp _ hl =>
        cases h' with
        | genesis h0 => exact absurd h0 hpos
        | supplied hp _ _ => rw [hp] at hq; cases hq
        | stored hp' _ hl' =>
          obtain rfl := Option.some.inj (hp.symm.trans hp')
          rw [hl.unique hl']

end

/-- The result of the walk through the additional blocks: `ads` are the blocks passed, last first, and
`c` is the block from which the walk leaves the additional blocks. -/
structure Walked (s : Blockchain) (additional : Dict Bytes32 FullBlock) (b curr : FullBlock)
    (l : List FullBlock) (ads : List FullBlock) (c : FullBlock) (l₀ l₁ : List FullBlock) : Prop where
  eq : l = l₀ ++ l₁
  supplied : Supplied additional b c
  ancestors : OwnAncestors s additional c l₀
  lookup : additional.lookup c.prevHeaderHash = none
  keys : ∃ ks : List Bytes32, ks.map (fun k => additional.lookup k) = ads.map some
  heights : HeightsFrom l₀.length ads.reverse
  generators : ads.reverse.map FullBlock.transactionsGenerator =
    l₁.map FullBlock.transactionsGenerator
  walk : ∀ fuel, ads.length < fuel →
    Blockchain.additionalChain additional fuel curr = .ok (ads, c.prevHeaderHash)

lemma walked_of_lookup_eq_none (hcurr : Supplied additional b curr)
    (h : OwnAncestors s additional curr l)
    (hnone : additional.lookup curr.prevHeaderHash = none) :
    Walked s additional b curr l [] curr l [] := by
  refine ⟨(List.append_nil l).symm, hcurr, h, hnone, ⟨[], rfl⟩, ?_, rfl, ?_⟩
  · intro i b' hb'
    simp at hb'
  · intro fuel hfuel
    obtain ⟨fuel, rfl⟩ : ∃ n, fuel = n + 1 := ⟨fuel - 1, by simp at hfuel; omega⟩
    simp [Blockchain.additionalChain, hnone]

/-- The walk through the additional blocks ends.

**Proof sketch.** Induction on the number of ancestors. Each round takes one ancestor off, and asserts
that the heights go up by one. -/
lemma exists_walked (hv : View T.H constants s s.blockStore.entry)
    (ha : AdditionalBlocks s additional b) (hcurr : Supplied additional b curr)
    (h : OwnAncestors s additional curr l) :
    ∃ ads c l₀ l₁, Walked s additional b curr l ads c l₀ l₁ := by
  induction hn : l.length generalizing curr l with
  | zero =>
    refine ⟨[], curr, l, [], walked_of_lookup_eq_none hcurr h ?_⟩
    cases hq : additional.lookup curr.prevHeaderHash with
    | none => rfl
    | some q =>
      obtain ⟨l₀, a, rfl, -⟩ := h.of_lookup hv ha hcurr hq
      simp at hn
  | succ n ih =>
    cases hq : additional.lookup curr.prevHeaderHash with
    | none => exact ⟨[], curr, l, [], walked_of_lookup_eq_none hcurr h hq⟩
    | some q =>
      obtain ⟨l', a, rfl, hgen, hl'⟩ := h.of_lookup hv ha hcurr hq
      obtain ⟨ads, c, l₀, l₁, hw⟩ := ih (.inr ⟨_, hq⟩) hl' (by simpa using hn)
      have hlen : ads.length = l₁.length := by
        have := congrArg List.length hw.generators
        simpa using this
      obtain ⟨ks, hks⟩ := hw.keys
      refine ⟨q :: ads, c, l₀, l₁ ++ [a], ?_, hw.supplied, hw.ancestors, hw.lookup,
        ⟨curr.prevHeaderHash :: ks, by rw [List.map_cons, hq, hks, List.map_cons]⟩, ?_, ?_, ?_⟩
      · rw [hw.eq, List.append_assoc]
      · rw [List.reverse_cons]
        refine hw.heights.append fun i b' hb' => ?_
        have hi : i = 0 := by
          have := (List.getElem?_eq_some_iff.mp hb').1
          simp only [List.length_singleton] at this
          omega
        subst hi
        obtain rfl : q = b' := by simpa using hb'
        rw [← hl'.length_eq, hw.eq, List.length_append, List.length_reverse]
        omega
      · rw [List.reverse_cons, List.map_append, List.map_append, hw.generators, List.map_singleton,
          List.map_singleton, hgen]
      · intro fuel hfuel
        rw [List.length_cons] at hfuel
        obtain ⟨fuel, rfl⟩ : ∃ n, fuel = n + 1 := ⟨fuel - 1, by omega⟩
        have hheight := ha.height curr q hcurr hq
        simp only [Blockchain.additionalChain, hq]
        rw [pyAssert, if_pos hheight, ok_bind, hw.walk fuel (by omega), ok_bind]
        rfl

lemma Walked.length_le {ads l₀ l₁ : List FullBlock} {c : FullBlock}
    (hw : Walked s additional b curr l ads c l₀ l₁) : ads.length ≤ additional.keys.length := by
  obtain ⟨ks, hks⟩ := hw.keys
  have hnodup : ads.Nodup := by
    rw [← List.nodup_reverse]
    apply List.Nodup.of_map FullBlock.height
    rw [hw.heights.map_height]
    exact List.nodup_range'
  have hks' : ks.Nodup := by
    apply List.Nodup.of_map fun k => additional.lookup k
    rw [hks]
    exact hnodup.map (Option.some_injective _)
  have hsub : ks ⊆ additional.keys := by
    intro k hk
    have hmem : AList.lookup k additional ∈ ads.map some := by
      rw [← hks]
      exact List.mem_map_of_mem hk
    obtain ⟨a, -, ha⟩ := List.mem_map.mp hmem
    rw [← AList.mem_keys, Dict.mem_iff_lookup, ← ha]
    simp
  have hlen : ks.length = ads.length := by
    have := congrArg List.length hks
    simpa using this
  rw [← hlen]
  exact (hks'.subperm hsub).length_le

end Additional

/-! ## The lookup -/

section Lookup

variable {T : BlockchainTools} {constants : ConsensusConstants} {s : Blockchain}
  {additional : Dict Bytes32 FullBlock} {b : FullBlock} {l : List FullBlock}

lemma Blockchain.Inv.exists_getPeak (hinv : s.Inv T constants) : ∃ peak, s.getPeak = .ok peak := by
  rcases hinv.peak with hs | ⟨tip, P, hm, -⟩
  · exact ⟨none, hs.getPeak_eq⟩
  · exact ⟨some tip.2, hm.getPeak_eq⟩

/-- Where the walk leaves the additional blocks, the stored ancestors from a height `k` on are collected,
and the ancestors below `k` are on the main chain. -/
lemma exists_storedReorgChain (hinv : s.Inv T constants) (ha : AdditionalBlocks s additional b)
    {c : FullBlock} (hc : Supplied additional b c) (h : OwnAncestors s additional c l)
    (hnone : additional.lookup c.prevHeaderHash = none) :
    ∃ k, k ≤ l.length ∧ s.storedReorgChain c.prevHeaderHash = .ok (l.drop k).reverse ∧
      ∀ i < k, ∃ hash, s.heightToHash i = some hash ∧
        s.blockStore.getGenerator hash = generatorIn l i := by
  cases h with
  | genesis h0 =>
    refine ⟨0, le_rfl, ?_, fun i hi => by omega⟩
    have hentry : s.blockRecords.get c.prevHeaderHash = none := by
      cases hget : s.blockRecords.get c.prevHeaderHash with
      | none => rfl
      | some r =>
        obtain ⟨b', hb'⟩ := hinv.view.ofCached hget
        have := ha.height_stored c _ hc hb'
        omega
    obtain ⟨peak, hpeak⟩ := hinv.exists_getPeak
    unfold Blockchain.storedReorgChain
    rw [hpeak, ok_bind, hentry]
    rfl
  | supplied hp _ _ =>
    rw [hp] at hnone
    cases hnone
  | @stored _ p l hp hh hl =>
    rcases hinv.peak with hs | ⟨tip, P, hm, -⟩
    · rw [hs.entry_eq_none] at hp
      cases hp
    · have hlen : l.length = p.2.height + 1 := hl.length_eq
      refine ⟨min p.2.height (forkHeight P l).toNat, ?_, ?_, ?_⟩
      · rw [List.length_map]
        omega
      · rw [hm.storedReorgChain_eq_ok hp hl, List.map_drop]
      · intro i hi
        have hPl : P[i]? = l[i]? := MainChain.getElem?_of_lt_forkHeight (by omega)
        obtain ⟨e, he⟩ : ∃ e, l[i]? = some e := ⟨_, List.getElem?_eq_getElem (by omega)⟩
        refine ⟨e.2.headerHash, ?_, ?_⟩
        · rw [hm.heightToHash_eq, hPl, he]
          rfl
        · rw [hm.getGenerator_eq (hPl.trans he), generatorIn, List.getElem?_map, he]
          rfl

/-- The lookup of the generator at a height on the chain of a block in a fork. -/
lemma generatorInReorg_eq {ads stored : List FullBlock} {k n h : ℕ}
    (hstored : HeightsFrom k stored) (hn : n = k + stored.length) (hads : HeightsFrom n ads)
    (hgen : (stored ++ ads).map FullBlock.transactionsGenerator =
      (l.drop k).map FullBlock.transactionsGenerator)
    (hbelow : ∀ i < k, ∃ hash, s.heightToHash i = some hash ∧
      s.blockStore.getGenerator hash = generatorIn l i) (hh : h < l.length) :
    s.generatorInReorg
      (Dict.ofItems ((ads.reverse ++ stored.reverse).map fun b => (b.height, b)))
      (Dict.ofItems (ads.reverse.map fun b => (b.height, b))) h = generatorRef l h := by
  subst hn
  unfold Blockchain.generatorInReorg generatorRef
  rw [← List.reverse_append, (hstored.append hads).lookup_ofItems, hads.lookup_ofItems]
  by_cases hk : k ≤ h
  · have hlen := congrArg List.length hgen
    rw [List.length_map, List.length_map, List.length_drop] at hlen
    obtain ⟨b, hb⟩ : ∃ b, (stored ++ ads)[h - k]? = some b :=
      ⟨_, List.getElem?_eq_getElem (by omega)⟩
    have hgenb : generatorIn l h = b.transactionsGenerator := by
      have := congrArg (·[h - k]?) hgen
      simp only [List.getElem?_map, hb, List.getElem?_drop, Option.map_some,
        show k + (h - k) = h by omega] at this
      rw [generatorIn]
      obtain ⟨a, ha, hab⟩ := Option.map_eq_some_iff.mp this.symm
      rw [ha, Option.bind_some, hab]
    rw [if_pos hk, hb, hgenb]
    cases hb' : b.transactionsGenerator <;> simp [Blockchain.generatorOf, hb']
  · obtain ⟨hash, hhash, hget⟩ := hbelow h (by omega)
    rw [if_neg hk, if_neg (by omega), hhash]
    cases hgen' : generatorIn l h <;> simp [hget, hgen']

lemma generatorsInReorg_eq (hinv : s.Inv T constants) (ha : AdditionalBlocks s additional b)
    (h : OwnAncestors s additional b l)
    (hrefs : ∀ k ∈ b.transactionsGeneratorRefList, k < b.height) :
    s.generatorsInReorg b additional = b.transactionsGeneratorRefList.mapM (generatorRef l) := by
  obtain ⟨ads, c, l₀, l₁, hw⟩ := exists_walked hinv.view ha (.inl rfl) h
  obtain ⟨k, hk, hstored, hbelow⟩ :=
    exists_storedReorgChain hinv ha hw.supplied hw.ancestors hw.lookup
  have hwalk := hw.walk (additional.keys.length + 1) (Nat.lt_succ_of_le hw.length_le)
  unfold Blockchain.generatorsInReorg
  rw [hwalk, ok_bind]
  simp only [hstored, ok_bind]
  apply mapM_congr_of_mem
  intro i hi
  have hheights : HeightsFrom k (l₀.drop k) := by
    have := (hw.ancestors.heightsFrom hinv.view).drop k
    rwa [Nat.zero_add] at this
  have hgens : (l₀.drop k ++ ads.reverse).map FullBlock.transactionsGenerator =
      (l.drop k).map FullBlock.transactionsGenerator := by
    rw [hw.eq, List.drop_append_of_le_length hk, List.map_append, List.map_append, hw.generators]
  have := generatorInReorg_eq (s := s) (h := i) hheights
    (by rw [List.length_drop]; omega) hw.heights hgens ?_ ?_
  · rwa [List.reverse_reverse] at this
  · intro j hj
    obtain ⟨hash, hhash, hget⟩ := hbelow j hj
    refine ⟨hash, hhash, ?_⟩
    rw [hget, generatorIn, generatorIn, hw.eq, List.getElem?_append_left (by omega)]
  · rw [h.length_eq]
    exact hrefs i hi

lemma mapM_generatorRef {refs : List ℕ} :
    (∀ gs, refs.mapM (generatorIn l) = some gs → refs.mapM (generatorRef l) = .ok gs) ∧
      ((∃ h ∈ refs, generatorIn l h = none) →
        refs.mapM (generatorRef l) = .error .valueError) := by
  constructor
  · intro gs hgs
    apply mapM_eq_ok_of_mapM_eq_some hgs
    intro h _ g hg
    rw [generatorRef, hg]
  · induction refs with
    | nil => simp
    | cons h refs ih =>
      rintro ⟨i, hi, hnone⟩
      rw [List.mapM_cons]
      cases hg : generatorIn l h with
      | none =>
        rw [generatorRef, hg]
        rfl
      | some g =>
        have hmem : i ∈ refs := by
          rcases List.mem_cons.mp hi with rfl | hmem
          · rw [hg] at hnone
            cases hnone
          · exact hmem
        rw [generatorRef, hg]
        simp only [ok_bind, ih ⟨i, hmem, hnone⟩, error_bind]

lemma foldlM_addGenerator_eq_error {rows : List FullBlockRow} {r : FullBlockRow} (hr : r ∈ rows)
    (hnone : r.block.transactionsGenerator = none) (d : Dict ℕ SerializedProgram) :
    rows.foldlM BlockStore.addGenerator d = .error .valueError := by
  induction rows generalizing d with
  | nil => cases hr
  | cons r' rows ih =>
    rw [List.foldlM_cons]
    cases hg : r'.block.transactionsGenerator with
    | none => simp [BlockStore.addGenerator, hg]
    | some g =>
      have hmem : r ∈ rows := by
        rcases List.mem_cons.mp hr with rfl | hmem
        · rw [hg] at hnone
          cases hnone
        · exact hmem
      simp only [BlockStore.addGenerator, hg, ok_bind]
      exact ih hmem _

/-- The generators that a block refers to, as they are looked up by height for a block whose parent is on
the main chain. -/
lemma generatorsOnMainChain_eq {tip : Entry} {P : List Entry}
    (hm : MainChain T constants s s.blockStore.entry tip P) (hv2 : T.dbVersion = .v2) {n : ℕ}
    {refs : List ℕ} (hrefs : ∀ k ∈ refs, k < n) (hn : n ≤ P.length) :
    s.generatorsOnMainChain .v2 refs =
      refs.mapM (generatorRef ((P.take n).map Prod.fst)) := by
  have hin : ∀ k ∈ refs, generatorIn ((P.take n).map Prod.fst) k = MainChain.generatorAt P k := by
    intro k hk
    have hlt := hrefs k hk
    rw [generatorIn, MainChain.generatorAt, List.getElem?_map, List.getElem?_take, if_pos hlt]
    cases P[k]? <;> rfl
  show s.blockStore.getGeneratorsAt refs = _
  by_cases hall : ∃ h ∈ refs, generatorIn ((P.take n).map Prod.fst) h = none
  · rw [mapM_generatorRef.2 hall]
    obtain ⟨h, hh, hnone⟩ := hall
    rw [hin h hh, MainChain.generatorAt] at hnone
    have hlt := hrefs h hh
    obtain ⟨e, he⟩ : ∃ e, P[h]? = some e := ⟨_, List.getElem?_eq_getElem (by omega)⟩
    rw [he, Option.bind_some] at hnone
    obtain ⟨r, hr, hflag, hheight, hre⟩ := hm.exists_row hv2 he
    unfold BlockStore.getGeneratorsAt BlockStore.mainChainGenerators
    rw [foldlM_addGenerator_eq_error (r := r), error_bind]
    · exact List.mem_filter.mpr ⟨hr, decide_eq_true ⟨hflag, hheight ▸ hh⟩⟩
    · rw [show r.block = e.1 by rw [← hre], hnone]
  · push Not at hall
    have hsome : ∀ k ∈ refs, ∃ g, MainChain.generatorAt P k = some g := by
      intro k hk
      rw [← hin k hk]
      exact Option.ne_none_iff_exists'.mp (hall k hk)
    obtain ⟨gs, hgs⟩ : ∃ gs, refs.mapM (MainChain.generatorAt P) = some gs := by
      refine ⟨refs.map fun k => (MainChain.generatorAt P k).getD [], mapM_eq_some_iff.mpr ?_⟩
      rw [List.map_map]
      apply List.map_congr_left
      intro k hk
      obtain ⟨g, hg⟩ := hsome k hk
      simp [hg]
    rw [hm.getGeneratorsAt_eq_ok hv2 hgs hsome]
    refine (mapM_generatorRef.1 gs ?_).symm
    rw [mapM_eq_some_iff, ← mapM_eq_some_iff.mp hgs]
    exact List.map_congr_left hin

lemma generatorRef_congr {l l' : List FullBlock}
    (h : l.map FullBlock.transactionsGenerator = l'.map FullBlock.transactionsGenerator) :
    generatorRef l = generatorRef l' := by
  funext k
  have hk : generatorIn l k = generatorIn l' k := by
    have := congrArg (·[k]?) h
    simp only [List.getElem?_map] at this
    rw [generatorIn, generatorIn]
    cases hl : l[k]? <;> cases hl' : l'[k]? <;> simp_all
  rw [generatorRef, generatorRef, hk]

lemma exists_take_of_prevOnMainChain (hinv : s.Inv T constants)
    (ha : AdditionalBlocks s additional b) (h : OwnAncestors s additional b l)
    (hmain : s.prevOnMainChain b = true) :
    ∃ tip P, MainChain T constants s s.blockStore.entry tip P ∧ b.height ≤ P.length ∧
      l.map FullBlock.transactionsGenerator =
        ((P.take b.height).map Prod.fst).map FullBlock.transactionsGenerator := by
  unfold Blockchain.prevOnMainChain at hmain
  cases hget : s.blockRecords.get b.prevHeaderHash with
  | none => simp [hget] at hmain
  | some prev =>
    simp only [hget, decide_eq_true_eq] at hmain
    obtain ⟨b', hp⟩ := hinv.view.ofCached hget
    obtain ⟨lp, hlp⟩ := hinv.view.rooted.path hp
    rcases hinv.peak with hs | ⟨tip, P, hm, -⟩
    · rw [hs.entry_eq_none] at hp
      cases hp
    · have hheight : b.height = prev.height + 1 := ha.height_stored b _ (.inl rfl) hp
      have hhash : prev.headerHash = b.prevHeaderHash := hinv.view.rooted.hash_eq hp
      have htake : lp = P.take (prev.height + 1) :=
        hm.eq_take_of_heightToHash hlp (by rw [hhash]; exact hp) (by rw [hhash]; exact hmain)
      refine ⟨tip, P, hm, ?_, ?_⟩
      · have hlen : lp.length = prev.height + 1 := hlp.length_eq
        rw [htake, List.length_take] at hlen
        omega
      · rw [hheight, ← htake]
        exact h.generators_unique hinv.view ha (.inl rfl) (.stored hp hheight hlp)

lemma referencedGenerators_eq (hinv : s.Inv T constants) (hv2 : T.dbVersion = .v2)
    (ha : AdditionalBlocks s additional b) (h : OwnAncestors s additional b l)
    (hrefs : ∀ k ∈ b.transactionsGeneratorRefList, k < b.height) :
    s.referencedGenerators .v2 b additional =
      b.transactionsGeneratorRefList.mapM (generatorRef l) ∧
    (s.prevOnMainChain b = true →
      s.generatorsOnMainChain .v2 b.transactionsGeneratorRefList =
        s.generatorsInReorg b additional) := by
  have hreorg := generatorsInReorg_eq hinv ha h hrefs
  have hfast : s.prevOnMainChain b = true →
      s.generatorsOnMainChain .v2 b.transactionsGeneratorRefList =
        b.transactionsGeneratorRefList.mapM (generatorRef l) := by
    intro hmain
    obtain ⟨tip, P, hm, hlen, hgens⟩ := exists_take_of_prevOnMainChain hinv ha h hmain
    rw [generatorsOnMainChain_eq hm hv2 hrefs hlen, generatorRef_congr hgens]
  refine ⟨?_, fun hmain => (hfast hmain).trans hreorg.symm⟩
  unfold Blockchain.referencedGenerators
  split
  · rename_i hmain
    exact hfast hmain
  · exact hreorg

/-- **Generator references resolve on the block's own chain.** In every reachable state with a database of
version 2, for a block with a generator whose references are to heights below its own, and for its
ancestors `l` among the stored and the supplied blocks: if all ancestors that it refers to have a
generator, these are returned in the order of the references; if one has none, `ValueError` is raised;
and where the parent is on the main chain, the lookup by height and the lookup for a fork agree. -/
theorem getBlockGenerator_own_chain (hcost : CostMonotone T.runGenerator)
    (hreach : Reachable T constants (fun s c => c.Meets T constants s) s) (hv2 : T.dbVersion = .v2)
    (ha : AdditionalBlocks s additional b) (h : OwnAncestors s additional b l)
    {program : SerializedProgram} (hprogram : b.transactionsGenerator = some program)
    (hrefs : ∀ k ∈ b.transactionsGeneratorRefList, k < b.height) :
    (∀ gs, b.transactionsGeneratorRefList.mapM (generatorIn l) = some gs →
      s.getBlockGenerator T.dbVersion b additional = .ok (some ⟨program, gs, []⟩)) ∧
    ((∃ k ∈ b.transactionsGeneratorRefList, generatorIn l k = none) →
      s.getBlockGenerator T.dbVersion b additional = .error .valueError) ∧
    (s.prevOnMainChain b = true →
      s.generatorsOnMainChain T.dbVersion b.transactionsGeneratorRefList =
        s.generatorsInReorg b additional) := by
  have hinv := Reachable.inv hcost (fun _ _ hc => hc) hreach
  obtain ⟨hlookup, hsame⟩ := referencedGenerators_eq hinv hv2 ha h hrefs
  rw [hv2]
  refine ⟨?_, ?_, hsame⟩
  · intro gs hgs
    unfold Blockchain.getBlockGenerator
    simp only [hprogram]
    by_cases hnil : b.transactionsGeneratorRefList = []
    · rw [hnil, List.mapM_nil] at hgs
      rw [if_pos hnil, ← Option.some.inj hgs]
    · have hlen : gs.length = b.transactionsGeneratorRefList.length := by
        have := congrArg List.length (mapM_eq_some_iff.mp hgs)
        simpa using this.symm
      rw [if_neg hnil, hlookup, mapM_generatorRef.1 gs hgs, ok_bind, pyAssert, if_pos hlen]
      rfl
  · intro hnone
    have hne : b.transactionsGeneratorRefList ≠ [] := by
      rintro hnil
      obtain ⟨k, hk, -⟩ := hnone
      rw [hnil] at hk
      cases hk
    unfold Blockchain.getBlockGenerator
    simp only [hprogram]
    rw [if_neg hne, hlookup, mapM_generatorRef.2 hnone, error_bind]

end Lookup

/-- A block on top of the genesis block that refers to its generator. -/
def referringBlock : FullBlock :=
  { emptyBlock 1 (Bytes32.ofNat 1) (Bytes32.ofNat 2) 0 with
    transactionsGenerator := some [1]
    transactionsGeneratorRefList := [0] }

/-- The reference of the block on top of the genesis block is resolved. -/
theorem getBlockGenerator_own_chain_genesis :
    genesisState.getBlockGenerator .v2 referringBlock ∅ = .ok (some ⟨[1], [[128]], []⟩) := by
  obtain ⟨p, hp, hheight, hgen⟩ : ∃ p, genesisState.blockStore.entry referringBlock.prevHeaderHash =
      some p ∧ p.2.height = 0 ∧ p.1.transactionsGenerator = some [128] := by
    have hsome : (genesisState.blockStore.entry referringBlock.prevHeaderHash).isSome = true := by
      decide +kernel
    obtain ⟨p, hp⟩ := Option.isSome_iff_exists.mp hsome
    have hfields : (genesisState.blockStore.entry referringBlock.prevHeaderHash).map
        (fun p => (p.2.height, p.1.transactionsGenerator)) = some (0, some [128]) := by
      decide +kernel
    rw [hp] at hfields
    obtain ⟨h1, h2⟩ := Prod.mk.inj (Option.some.inj hfields)
    exact ⟨p, hp, h1, h2⟩
  have ha : AdditionalBlocks genesisState ∅ referringBlock := by
    constructor
    · intro curr q _ hq
      cases hq
    · intro curr e hcurr he
      rcases hcurr with rfl | ⟨h, hcurr⟩
      · obtain rfl := Option.some.inj (hp.symm.trans he)
        rw [hheight]
        rfl
      · cases hcurr
    · intro h q e hq
      cases hq
  have hl : OwnAncestors genesisState ∅ referringBlock [p.1] :=
    .stored (l := [p]) hp (by rw [hheight]; rfl) (.root hheight)
  have hown := getBlockGenerator_own_chain (T := sampleBlockchainTools)
    (fun _ _ _ _ _ _ => rfl) reachable_genesisState rfl ha hl rfl
    (by decide)
  apply hown.1
  show [0].mapM (generatorIn [p.1]) = some [[128]]
  rw [mapM_eq_some_iff]
  simp [generatorIn, hgen]

end Chives
