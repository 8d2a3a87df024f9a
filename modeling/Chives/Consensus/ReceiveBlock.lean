import Chives.Consensus.PreValidationCache
import Chives.Consensus.ReconsiderPeak

set_option autoImplicit false

/-!
# Receiving a block keeps the invariant

The memory after a block was added, and the invariant of `Blockchain.Inv` in every state that
calls of `receive_block` reach.

## Main definitions

* `OldChain` — what the state and its database say of the chain of the peak before a block is
  added; it may be empty.

## Main results

* `Addition.updateMemory_adopted` — the memory and the database describe the chain of the new
  peak.
* `Blockchain.Inv.receiveBlock` — a call keeps the invariant.
* `Reachable.inv` — the invariant holds in every reachable state.
* `coinStore_agree` — nodes with the same peak have the same coins.
-/

namespace Chives

open ExceptRun ParentTree BlockHeightMap

/-- The height map and the flags of the database describe the chain `P`, which is empty if there is no
peak. -/
structure OldChain (T : BlockchainTools) (map : BlockHeightMap) (store : BlockStore) (P : List Entry) :
    Prop where
  describes : Describes (P.map blockRowOf) map
  height : ∀ (i : ℕ) (x : Entry), P[i]? = some x → x.2.height = i
  genesis : ∀ g, P.head? = some g → (blockRowOf g).subEpochSummary = none
  keyed : store.Keyed
  rows : ∀ r ∈ store.fullBlocks, r.toBlockRow = blockRowOf (r.block, r.blockRecord)
  inMainChain : T.dbVersion = .v2 → ∀ r ∈ store.fullBlocks,
    r.inMainChain = true ↔ (r.block, r.blockRecord) ∈ P

lemma blockRowOf_subEpochSummary {e : Entry} (h : e.2.subEpochSummaryIncluded = none) :
    (blockRowOf e).subEpochSummary = none := by
  simp [blockRowOf, BlockStore.sesColumn, h, Except.toOption]

namespace OldChain

variable {T : BlockchainTools} {map : BlockHeightMap} {store : BlockStore} {P c a b : List Entry}

/-- The height map after a rollback to the fork and the loop over the new records.

**Proof sketch.** If the fork is not below genesis, the rollback leaves the common part and the records
follow on top of it. If it is, a genesis block is left, which has no summary, and its hash is
overwritten by that of the new genesis block. -/
lemma updateHeights_eq (ho : OldChain T map store P) (hP : P = c ++ a) (hb : b ≠ [])
    (hheight : ∀ (i : ℕ) (x : Entry), b[i]? = some x → x.2.height = c.length + i)
    (hses : ∀ x ∈ b, ∃ ses, BlockStore.sesColumn x.2 = .ok ses) :
    ∃ map', Blockchain.updateHeights (map.rollback (((c.length : ℤ) - 1).toNat : ℤ))
        (b.map Prod.snd) = (map', none) ∧
      Describes ((c ++ b).map blockRowOf) map' ∧ map'.dirty = map.dirty := by
  have hroll : Describes ((P.map blockRowOf).take ((((c.length : ℤ) - 1).toNat : ℤ) + 1).toNat)
      (map.rollback (((c.length : ℤ) - 1).toNat : ℤ)) := ho.describes.rollback (by omega)
  have hdirty : (map.rollback (((c.length : ℤ) - 1).toNat : ℤ)).dirty = map.dirty := rfl
  rw [← hdirty]
  by_cases hc : c = []
  · subst hc
    rw [List.nil_append] at hP ⊢
    simp only [List.length_nil, Nat.zero_add] at hheight
    cases P with
    | nil => exact updateHeights_describes (c := []) hroll (fun i x hx => by simpa using hheight i x hx) hses
    | cons g P => exact updateHeights_replaceGenesis hroll (ho.genesis g rfl) hb hheight hses
  · have hlen := List.length_pos_iff.mpr hc
    have htake : (P.map blockRowOf).take ((((c.length : ℤ) - 1).toNat : ℤ) + 1).toNat =
        c.map blockRowOf := by
      have hn : ((((c.length : ℤ) - 1).toNat : ℤ) + 1).toNat = (c.map blockRowOf).length := by
        rw [List.length_map]
        omega
      rw [hn, hP, List.map_append, List.take_left]
    rw [htake] at hroll
    exact updateHeights_describes hroll hheight hses

end OldChain

/-- The state after a block became the peak. -/
structure NewPeak (T : BlockchainTools) (constants : ConsensusConstants) (s s' : Blockchain)
    (e : Entry) (l : List Entry) (store : BlockStore) : Prop where
  blockRecords : s'.blockRecords = s.blockRecords.set e.2.headerHash e.2
  entry : ∀ h, s'.blockStore.entry h = store.entry h
  dirty : s'.heightMap.dirty = 0
  mainChain : MainChain T constants s' s'.blockStore.entry e (l ++ [e])
  coinStore : replay T.toBodyTools constants ((l ++ [e]).map Prod.fst) = .ok s'.coinStore

namespace Addition

variable {T : BlockchainTools} {constants : ConsensusConstants} {s : Blockchain} {e : Entry}
  {l : List Entry} {store : BlockStore} {tip : Entry} {P c a b : List Entry}

section

variable (ha : Addition T constants s e l store)

include ha

lemma oldChain (hm : MainChain T constants s s.blockStore.entry tip P) : OldChain T s.heightMap store P where
  describes := hm.describes
  height i x hx := (hm.path.getElem hx).1
  genesis g hg := by
    have hmem := hm.view.mem_of_path hm.path hm.tip_mem (List.mem_of_mem_head? hg)
    have h0 : g.2.height = 0 := (hm.path.getElem (i := 0) (by rw [← List.head?_eq_getElem?, hg])).1
    exact blockRowOf_subEpochSummary ((hm.view.madeOf hmem).genesis h0)
  keyed := ha.keyed hm.keyed
  rows := (ha.mainChain_old hm).rows
  inMainChain := (ha.mainChain_old hm).inMainChain

lemma oldChain_nil (hs : s.IsEmpty) :
    OldChain T s.heightMap store [] where
  describes := hs.describes
  height i x hx := by simp at hx
  genesis g hg := by simp at hg
  keyed := ha.keyed (by
    show (s.blockStore.fullBlocks.map BlockStore.hashOf).Nodup
    rw [hs.fullBlocks]
    exact List.nodup_nil)
  rows r hr := by
    rcases ha.mem_fullBlocks hr with hr | ⟨hrow, -, -, heq⟩
    · rw [hs.fullBlocks] at hr
      cases hr
    · rw [hrow, heq]
  inMainChain _ r hr := by
    rcases ha.mem_fullBlocks hr with hr | ⟨-, hflag, -, -⟩
    · rw [hs.fullBlocks] at hr
      cases hr
    · simp [hflag]

variable {records : List BlockRecord} {summary : Option StateChangeSummary}

/-- The flags of the database describe the chain of the new peak. -/
lemma mainChain_of_adopted (ho : OldChain T s.heightMap store P) (hP : P = c ++ a) {self' s' : Blockchain}
    (hadopted : Adopted T constants store e l c b self' records summary)
    (hrecords : s'.blockRecords = s.blockRecords.set e.2.headerHash e.2) (hstore : s'.blockStore = self'.blockStore)
    (hpeak : s'.peakHeight = some e.2.height) (hdescribes : Describes ((l ++ [e]).map blockRowOf) s'.heightMap) :
    MainChain T constants s' s'.blockStore.entry e (l ++ [e]) := by
  have hmark := hstore.trans hadopted.blockStore
  have hentry : ∀ h, s'.blockStore.entry h = store.entry h := by
    intro h
    rw [hmark, entry_markChain]
  have hpath : Path entryLinks store.entry e (l ++ [e]) :=
    ha.path_self.mono fun _ _ => ha.entry_mono
  have hb : ∀ x ∈ b, store.entry x.2.headerHash = some x := by
    intro x hx
    refine hpath.stored_of_stored (fun hm => ha.tree.hash_eq hm) ha.entry_self x ?_
    rw [hadopted.eq]
    exact List.mem_append_right _ hx
  constructor
  · exact ha.view_new hrecords hentry
  · rw [funext hentry]
    exact hpath
  · rw [hentry, ha.entry_self]
  · exact hpeak
  · exact hdescribes
  · rw [hmark]
    exact keyed_markChain ho.keyed _ _ _
  · intro r hr
    rw [hmark] at hr
    obtain ⟨r₀, hr₀, hrow, hblock, hrec, -⟩ := mem_markChain hr
    rw [hrow, hblock, hrec]
    exact ho.rows r₀ hr₀
  · intro hv2 r hr
    rw [hmark, hv2] at hr
    rw [hadopted.eq]
    have hflags := ho.inMainChain hv2
    have hpos := ho.height
    rw [hP] at hflags hpos
    exact inMainChain_markChain ho.keyed ho.rows hpos hflags hb hr
  · intro hv2
    rw [hmark, hv2]
    rfl
  · intro hv1 r hr
    rw [hmark] at hr
    obtain ⟨r₀, -, hrow, -, -, -, hflag⟩ := mem_markChain hr
    rw [hflag hv1, show r.headerHash = r₀.headerHash from congrArg BlockRow.headerHash hrow]

lemma exists_sesColumn_of_entry {x : Entry} (hx : store.entry x.2.headerHash = some x) :
    ∃ ses, BlockStore.sesColumn x.2 = .ok ses := by
  rcases ha.entry_cases hx with ⟨-, rfl⟩ | hx
  · obtain ⟨ses, hses, -⟩ := ha.exists_sesColumn
    exact ⟨ses, hses⟩
  · exact ha.inv.view.sesColumn hx

/-- The memory follows the database to the new peak. -/
lemma updateMemory_adopted (ho : OldChain T s.heightMap store P) (hP : P = c ++ a) (hnot : e ∉ P) {self' : Blockchain}
    (hadopted : Adopted T constants store e l c b self' records summary) :
    ∃ s' change, s.updateMemory self' e.2 records summary = (s', .ok (.newPeak change)) ∧
      NewPeak T constants s s' e l store := by
  have hpath : Path entryLinks store.entry e (l ++ [e]) :=
    ha.path_self.mono fun _ _ => ha.entry_mono
  have hb : b ≠ [] := by
    rintro rfl
    have hlast : c.getLast? = some e := by
      rw [← List.append_nil c, ← hadopted.eq]
      simp
    apply hnot
    rw [hP]
    exact List.mem_append_left _ (List.mem_of_getLast? hlast)
  have hheight : ∀ (i : ℕ) (x : Entry), b[i]? = some x → x.2.height = c.length + i := by
    intro i x hx
    apply (hpath.getElem (i := c.length + i) ?_).1
    rw [hadopted.eq, List.getElem?_append_right (by omega), Nat.add_sub_cancel_left, hx]
  have hses : ∀ x ∈ b, ∃ ses, BlockStore.sesColumn x.2 = .ok ses := by
    intro x hx
    apply ha.exists_sesColumn_of_entry
    refine hpath.stored_of_stored (fun hm => ha.tree.hash_eq hm) ha.entry_self x ?_
    rw [hadopted.eq]
    exact List.mem_append_right _ hx
  obtain ⟨map', hup, hdescribes, hdirty⟩ := ho.updateHeights_eq hP hb hheight hses
  obtain ⟨change, hsummary, hfork⟩ := hadopted.summary_eq
  have hflush : map'.maybeFlush s.files = .ok (map', s.files) := by
    unfold maybeFlush
    rw [if_pos (by rw [hdirty, ha.inv.dirty]; omega)]
    rfl
  rw [← hfork, ← hadopted.records_eq] at hup
  rw [← hadopted.eq] at hdescribes
  refine ⟨⟨s.blockRecords.set e.2.headerHash e.2, map', some e.2.height, self'.coinStore,
    self'.blockStore, s.files⟩, change, ?_, ?_⟩
  · subst hsummary
    unfold Blockchain.updateMemory
    simp only [hup, hflush]
    rfl
  · refine ⟨rfl, fun h => ?_, ?_, ?_, hadopted.coinStore⟩
    · rw [hadopted.blockStore, entry_markChain]
    · rw [hdirty, ha.inv.dirty]
    · exact ha.mainChain_of_adopted ho hP hadopted rfl rfl rfl hdescribes

lemma updateMemory_orphan :
    s.updateMemory { s with blockStore := store } e.2 [] none =
      ({ s with blockRecords := s.blockRecords.set e.2.headerHash e.2, blockStore := store },
        .ok .addedAsOrphan) := by
  have hflush : s.heightMap.maybeFlush s.files = .ok (s.heightMap, s.files) := by
    unfold maybeFlush
    rw [if_pos (by rw [ha.inv.dirty]; omega)]
    rfl
  unfold Blockchain.updateMemory
  simp only [Blockchain.updateHeights, hflush]
  rfl

end

end Addition

/-! ## What a call does -/

/-- What adding a block does: it is not the peak, it is the first block, or it is heavier than the
peak before. -/
inductive Added (T : BlockchainTools) (constants : ConsensusConstants) (s s' : Blockchain) (e : Entry)
    (l : List Entry) (store : BlockStore) : Prop
  | orphan {tip : Entry} {P : List Entry} (hm : MainChain T constants s s.blockStore.entry tip P)
      (hle : e.1.height = 0 ∨ e.2.weight ≤ tip.2.weight)
      (h : s' = { s with
        blockRecords := s.blockRecords.set e.2.headerHash e.2, blockStore := store })
  | first (hs : s.IsEmpty) (h0 : e.1.height = 0) (h : NewPeak T constants s s' e l store)
  | heavier {tip : Entry} {P : List Entry} (hm : MainChain T constants s s.blockStore.entry tip P)
      (h0 : e.1.height ≠ 0) (hlt : tip.2.weight < e.2.weight)
      (h : NewPeak T constants s s' e l store)

namespace Blockchain

variable {T : BlockchainTools} {constants : ConsensusConstants} {s : Blockchain}

lemma IsEmpty.getPeak_eq (hs : s.IsEmpty) : s.getPeak = .ok none := by
  unfold getPeak
  rw [hs.peakHeight]

lemma IsEmpty.entry_eq_none (hs : s.IsEmpty) (h : Bytes32) :
    s.blockStore.entry h = none := by
  unfold BlockStore.entry BlockStore.row
  rw [hs.fullBlocks]
  rfl

variable {l : List Entry}

/-- What `_reconsider_peak` and the changes of memory do with an accepted block. -/
lemma storeBlock_cases {e : Entry} {npcResult : Option NPCResult} {forkPoint : Option ℤ}
    (ha : ∀ store, s.blockStore.addFullBlock e.2.headerHash e.1 e.2 = .ok store → Addition T constants s e l store)
    (hnpc : NpcMatches T.toBodyTools constants (l.map Prod.fst) e.1 npcResult)
    (hfork : ∀ f, forkPoint = some f → ∀ P, s.PeakChain P → f = forkHeight P l)
    (hhash : e.2.headerHash = e.1.headerHash T.H) :
    (s.storeBlock T constants e.1 e.2 npcResult forkPoint).1 = s ∨ ∃ store,
      Addition T constants s e l store ∧
      Added T constants s (s.storeBlock T constants e.1 e.2 npcResult forkPoint).1 e l store := by
  unfold storeBlock
  rw [← hhash]
  cases hadd : s.blockStore.addFullBlock e.2.headerHash e.1 e.2 with
  | error err => exact .inl rfl
  | ok store =>
    have ha := ha store hadd
    rw [ok_bind]
    cases hpeak : ({ s with blockStore := store } : Blockchain).reconsiderPeak T constants e.2
        (decide (e.1.height = 0)) forkPoint npcResult with
    | error err => exact .inl rfl
    | ok out =>
      right
      refine ⟨store, ha, ?_⟩
      obtain ⟨self', records, summary⟩ := out
      show Added T constants s (s.updateMemory self' e.2 records summary).1 e l store
      simp only [reconsiderPeak] at hpeak
      rcases ha.inv.peak with hs | ⟨tip, P, hm, hreplay⟩
      · have hget : ({ s with blockStore := store } : Blockchain).getPeak = .ok none := hs.getPeak_eq
        rw [hget, ok_bind] at hpeak
        by_cases h0 : e.1.height = 0
        · rw [decide_eq_true h0] at hpeak
          obtain ⟨s', change, hmem, hnew⟩ := ha.updateMemory_adopted (ha.oldChain_nil hs)
            (List.nil_append []).symm (by simp) (ha.setGenesis_eq_ok hs h0 hnpc hpeak)
          rw [hmem]
          exact .first hs h0 hnew
        · rw [decide_eq_false h0] at hpeak
          cases hpeak
      · rw [(ha.mainChain_old hm).getPeak_eq, ok_bind] at hpeak
        have hchain : s.PeakChain P := ⟨tip, hm.getPeak_eq, hm.tip_mem, hm.path⟩
        by_cases h0 : e.1.height = 0
        · rw [decide_eq_true h0] at hpeak
          obtain ⟨rfl, hrest⟩ := Prod.mk.inj (Except.ok.inj hpeak)
          obtain ⟨rfl, rfl⟩ := Prod.mk.inj hrest
          rw [ha.updateMemory_orphan]
          exact .orphan hm (.inl h0) rfl
        · rw [decide_eq_false h0] at hpeak
          by_cases hle : e.2.weight ≤ tip.2.weight
          · simp only [if_pos hle] at hpeak
            obtain ⟨rfl, hrest⟩ := Prod.mk.inj (Except.ok.inj hpeak)
            obtain ⟨rfl, rfl⟩ := Prod.mk.inj hrest
            rw [ha.updateMemory_orphan]
            exact .orphan hm (.inr hle) rfl
          · simp only [if_neg hle] at hpeak
            obtain ⟨c, a, b, hP, hadopted⟩ := ha.setHeavierPeak_eq_ok hm h0 hreplay hnpc
              (fun f hf => hfork f hf P hchain) hpeak
            obtain ⟨s', change, hmem, hnew⟩ := ha.updateMemory_adopted (ha.oldChain hm) hP
              (fun hmem => ha.notMem_peakChain hm hmem rfl) hadopted
            rw [hmem]
            exact .heavier hm h0 (not_le.mp hle) hnew

lemma includedSummary_genesis {H : Hashes} {blocks : BlockRecords} {b : FullBlock}
    {prev : Option BlockRecord} {ses : Option SubEpochSummary} (h0 : b.height = 0)
    (h : includedSummary H constants blocks b prev = .ok ses) : ses = none := by
  unfold includedSummary at h
  split at h
  · obtain ⟨prevB, -, h⟩ := bind_eq_ok.mp h
    obtain ⟨prevPrev, -, h⟩ := bind_eq_ok.mp h
    obtain ⟨ses', hses', -⟩ := bind_eq_ok.mp h
    unfold makeSubEpochSummary at hses'
    obtain ⟨_, hassert, -⟩ := bind_eq_ok.mp hses'
    have := pyAssert_eq_ok.mp hassert
    omega
  · exact (Except.ok.inj h).symm

lemma madeOf_of_blockToBlockRecord {blocks : BlockchainInterface} {requiredIters : ℕ} {b : FullBlock}
    {rec : BlockRecord}
    (h : blockToBlockRecord T.H constants blocks requiredIters b = .ok rec) :
    MadeOf T.H constants (b, rec) := by
  obtain ⟨subSlotIters, overflow, deficit, prevHeight, ses, -, hses, hrec⟩ :=
    blockToBlockRecord_eq_ok h
  exact ⟨requiredIters, subSlotIters, overflow, deficit, prevHeight, ses, hrec,
    fun h0 => includedSummary_genesis h0 hses⟩

variable {c : Call} {rec : BlockRecord}

lemma exists_ancestors (hinv : s.Inv T constants)
    (h : s.acceptBlock T constants c.block c.preValidationResult c.forkPointWithPeak =
      .ok (.inr rec)) : ∃ l, s.Ancestors c.block l ∧ c.block.height = l.length := by
  obtain ⟨-, hprev, -⟩ := acceptBlock_eq_inr h
  by_cases h0 : c.block.height = 0
  · exact ⟨[], .inl ⟨h0, rfl⟩, h0⟩
  · obtain ⟨p, hp, hheight⟩ := hprev h0
    obtain ⟨b, hb⟩ := hinv.view.ofCached hp
    obtain ⟨l, hl⟩ := hinv.view.rooted.path hb
    have hlen : l.length = p.height + 1 := hl.length_eq
    exact ⟨l, .inr ⟨h0, (b, p), hb, hl⟩, by omega⟩

lemma exists_ownGenerator (hc : c.Meets T constants s)
    (h : s.acceptBlock T constants c.block c.preValidationResult c.forkPointWithPeak = .ok (.inr rec))
    (hl : s.Ancestors c.block l) :
    (c.block.transactionsGenerator = none ∧
      (c.block.foliageTransactionBlock.isSome → c.preValidationResult.npcResult = none)) ∨
    ∃ g info, ownGenerator (l.map Prod.fst) c.block = some g ∧
      c.block.transactionsInfo = some info ∧
      c.preValidationResult.npcResult = some
        (T.runGenerator g (min constants.MAX_BLOCK_COST_CLVM info.cost) c.block.height) ∧
      (T.runGenerator g (min constants.MAX_BLOCK_COST_CLVM info.cost) c.block.height).error =
        none := by
  obtain ⟨-, -, -, hbody, -⟩ := acceptBlock_eq_inr h
  obtain ⟨peak, -, hbody⟩ := checkBody_eq_none hbody
  rcases validateBlockBody_generator hbody with hnone | ⟨program, npc, -, hnpc, herror, -⟩
  · exact .inl hnone
  · obtain ⟨g, info, hown, hinfo, rfl⟩ := hc.npc npc hnpc l hl
    exact .inr ⟨g, info, hown, hinfo, hnpc, herror⟩

lemma addition_of_acceptBlock (hinv : s.Inv T constants) (hc : c.Meets T constants s)
    (h : s.acceptBlock T constants c.block c.preValidationResult c.forkPointWithPeak = .ok (.inr rec))
    (hl : s.Ancestors c.block l) (hheight : c.block.height = l.length) {store : BlockStore}
    (hadd : s.blockStore.addFullBlock rec.headerHash c.block rec = .ok store) :
    Addition T constants s (c.block, rec) l store := by
  obtain ⟨hnew, -, -, -, requiredIters, -, hrec⟩ := acceptBlock_eq_inr h
  have hmade := madeOf_of_blockToBlockRecord hrec
  refine ⟨hinv, hmade, ?_, hl, hheight, ⟨fun program hprogram => ?_, fun hnone => ?_⟩, hadd⟩
  · rw [← hmade.headerHash] at hnew
    cases hentry : s.blockStore.entry rec.headerHash with
    | none => rfl
    | some x =>
      rw [hinv.view.cached hentry] at hnew
      cases hnew
  · rcases exists_ownGenerator hc h hl with ⟨hnone, -⟩ | ⟨g, info, hown, hinfo, -, herror⟩
    · rw [hprogram] at hnone
      cases hnone
    · exact ⟨g, info, hown, hinfo, herror⟩
  · obtain ⟨-, -, -, hbody, -⟩ := acceptBlock_eq_inr h
    obtain ⟨peak, -, hbody⟩ := checkBody_eq_none hbody
    rcases validateBlockBody_generator hbody with ⟨hgen, -⟩ | ⟨_, _, -, -, -, hsome⟩
    · exact hgen
    · rw [hnone] at hsome
      cases hsome

lemma npcMatches_of_acceptBlock (hcost : CostMonotone T.runGenerator) (hc : c.Meets T constants s)
    (h : s.acceptBlock T constants c.block c.preValidationResult c.forkPointWithPeak = .ok (.inr rec))
    (hl : s.Ancestors c.block l) :
    NpcMatches T.toBodyTools constants (l.map Prod.fst) c.block c.preValidationResult.npcResult := by
  rcases exists_ownGenerator hc h hl with hnone | ⟨g, info, hown, -, hnpc, herror⟩
  · exact .inl hnone
  · refine .inr ⟨g, hown, ?_⟩
    rw [hnpc, hcost g _ constants.MAX_BLOCK_COST_CLVM c.block.height (min_le_left _ _) herror]

/-- What a call of `receive_block` does: nothing, or an accepted block is added. -/
lemma receiveBlock_cases (hcost : CostMonotone T.runGenerator) (hinv : s.Inv T constants)
    (hc : c.Meets T constants s) :
    (s.receiveBlock T constants c.block c.preValidationResult c.forkPointWithPeak).1 = s ∨
    ∃ rec l store,
      s.acceptBlock T constants c.block c.preValidationResult c.forkPointWithPeak =
        .ok (.inr rec) ∧
      Addition T constants s (c.block, rec) l store ∧
      Added T constants s
        (s.receiveBlock T constants c.block c.preValidationResult c.forkPointWithPeak).1
        (c.block, rec) l store := by
  unfold receiveBlock
  cases haccept : s.acceptBlock T constants c.block c.preValidationResult c.forkPointWithPeak with
  | error err => exact .inl rfl
  | ok out =>
    cases out with
    | inl result => exact .inl rfl
    | inr rec =>
      obtain ⟨l, hl, hheight⟩ := exists_ancestors hinv haccept
      obtain ⟨-, -, -, -, requiredIters, -, hrec⟩ := acceptBlock_eq_inr haccept
      rcases storeBlock_cases (e := (c.block, rec))
        (fun store hadd => addition_of_acceptBlock hinv hc haccept hl hheight hadd)
        (npcMatches_of_acceptBlock hcost hc haccept hl)
        (fun f hf P hP => hc.fork f hf P l hP hl)
        (madeOf_of_blockToBlockRecord hrec).headerHash with hsame | ⟨store, ha, hadded⟩
      · exact .inl hsame
      · exact .inr ⟨rec, l, store, rfl, ha, hadded⟩

end Blockchain

/-! ## The invariant -/

section Invariant

variable {T : BlockchainTools} {constants : ConsensusConstants} {s s' : Blockchain} {e : Entry} {l : List Entry}
  {store : BlockStore} {P : List Entry}

lemma MainChain.not_isEmpty {m : Bytes32 → Option Entry} {tip : Entry} (hm : MainChain T constants s m tip P) :
    ¬s.IsEmpty := by
  intro hs
  have hpeak := hm.peakHeight
  rw [hs.peakHeight] at hpeak
  cases hpeak

lemma Addition.mainChain_orphan (ha : Addition T constants s e l store) {tip : Entry}
    (hm : MainChain T constants s s.blockStore.entry tip P) :
    MainChain T constants
      { s with blockRecords := s.blockRecords.set e.2.headerHash e.2, blockStore := store }
      store.entry tip P := by
  have hold := ha.mainChain_old hm
  exact ⟨ha.view_new rfl fun _ => rfl, hm.path.mono fun _ _ => ha.entry_mono,
    ha.entry_mono hm.tip_mem, hm.peakHeight, hm.describes, hold.keyed, hold.rows, hold.inMainChain,
    hold.currentPeak, hold.isPeak⟩

lemma Added.inv (ha : Addition T constants s e l store)
    (h : Added T constants s s' e l store) : s'.Inv T constants := by
  have hnew : NewPeak T constants s s' e l store → s'.Inv T constants := by
    intro h
    refine ⟨h.mainChain.view, fun hx hlx => ?_, h.dirty, .inr ⟨e, l ++ [e], h.mainChain, h.coinStore⟩⟩
    rw [funext h.entry] at hx hlx
    exact ha.accepted_new hx hlx
  cases h with
  | first _ _ h => exact hnew h
  | heavier _ _ _ h => exact hnew h
  | orphan hm _ h =>
    subst h
    refine ⟨ha.view_new rfl fun _ => rfl, fun hx hlx => ha.accepted_new hx hlx, ha.inv.dirty, .inr ?_⟩
    rcases ha.inv.peak with hs | ⟨tip, P, hm, hreplay⟩
    · exact absurd hs hm.not_isEmpty
    · exact ⟨tip, P, ha.mainChain_orphan hm, hreplay⟩

theorem Blockchain.Inv.receiveBlock (hcost : CostMonotone T.runGenerator) (hinv : s.Inv T constants)
    {c : Call} (hc : c.Meets T constants s) :
    (s.receiveBlock T constants c.block c.preValidationResult c.forkPointWithPeak).1.Inv T
      constants := by
  rcases Blockchain.receiveBlock_cases hcost hinv hc with hsame | ⟨rec, l, store, -, ha, hadded⟩
  · rw [hsame]
    exact hinv
  · exact hadded.inv ha

lemma Blockchain.inv_initial (files : CacheFiles) :
    (Blockchain.initial files).Inv T constants := by
  have hentry : ∀ h, (Blockchain.initial files).blockStore.entry h = none := fun _ => rfl
  have hget : ∀ h, (Blockchain.initial files).blockRecords.get h = none := fun _ => rfl
  refine ⟨⟨?_, ?_, ⟨?_, ?_⟩, ?_, ?_, ?_⟩, ?_, rfl, .inl ⟨rfl, rfl, rfl, rfl, rfl, ⟨rfl, fun h => rfl⟩⟩⟩
  all_goals
    intros
    simp_all

theorem Reachable.inv (hcost : CostMonotone T.runGenerator) {C : Blockchain → Call → Prop}
    (hC : ∀ s c, C s c → c.Meets T constants s) (h : Reachable T constants C s) :
    s.Inv T constants := by
  induction h with
  | initial files => exact Blockchain.inv_initial files
  | receive _ c hc ih => exact ih.receiveBlock hcost (hC _ c hc)

/-- **The coins are those of the chain of the peak.** In every state that calls of `receive_block`
reach from an empty database, either there is no peak and no coin, or replaying the chain of the peak
from genesis gives the coin table. -/
theorem coinStore_eq_replay (hcost : CostMonotone T.runGenerator)
    (h : Reachable T constants (fun s c => c.Meets T constants s) s) :
    (s.getPeak = .ok none ∧ s.coinStore = []) ∨ ∃ P, s.PeakChain P ∧
      replay T.toBodyTools constants (P.map Prod.fst) = .ok s.coinStore := by
  have hinv := Reachable.inv hcost (fun _ _ hc => hc) h
  rcases hinv.peak with hs | ⟨tip, P, hm, hreplay⟩
  · exact .inl ⟨hs.getPeak_eq, hs.coinStore⟩
  · exact .inr ⟨P, ⟨tip, hm.getPeak_eq, hm.tip_mem, hm.path⟩, hreplay⟩

/-- Entries of one block, possibly with different records. -/
def SameBlock (H : Hashes) (constants : ConsensusConstants) (x y : Entry) : Prop :=
  x.1 = y.1 ∧ MadeOf H constants x ∧ MadeOf H constants y

/-- **Nodes agree.** Two nodes that reached their states by whatever calls, with other orphans and other reorganisations
on the way, have the same coins and the same block at every height as soon as their peaks have the same hash, provided
that no header hash stands for two blocks.

**Proof sketch.** The chains of the two peaks run in parallel, so they consist of the same blocks, and replaying these
gives either coin table. -/
theorem coinStore_agree (hcost : CostMonotone T.runGenerator)
    (h : Reachable T constants (fun s c => c.Meets T constants s) s)
    (h' : Reachable T constants (fun s c => c.Meets T constants s) s')
    (hsame : ∀ {k e e'}, s.blockStore.entry k = some e → s'.blockStore.entry k = some e' → e.1 = e'.1)
    {peak peak' : BlockRecord} (hpeak : s.getPeak = .ok (some peak)) (hpeak' : s'.getPeak = .ok (some peak'))
    (hhash : peak.headerHash = peak'.headerHash) :
    s.coinStore = s'.coinStore ∧ ∀ i, s.heightToHash i = s'.heightToHash i := by
  have hchain {s : Blockchain} {peak : BlockRecord} (h : Reachable T constants (fun s c => c.Meets T constants s) s)
      (hpeak : s.getPeak = .ok (some peak)) : ∃ tip P, tip.2 = peak ∧ MainChain T constants s s.blockStore.entry tip P ∧
      replay T.toBodyTools constants (P.map Prod.fst) = .ok s.coinStore := by
    rcases (Reachable.inv hcost (fun _ _ hc => hc) h).peak with hs | ⟨tip, P, hm, hreplay⟩
    · rw [hs.getPeak_eq] at hpeak
      cases hpeak
    · exact ⟨tip, P, Option.some.inj (Except.ok.inj (hm.getPeak_eq.symm.trans hpeak)), hm, hreplay⟩
  obtain ⟨tip, P, rfl, hm, hreplay⟩ := hchain h hpeak
  obtain ⟨tip', P', rfl, hm', hreplay'⟩ := hchain h' hpeak'
  have hlinks {x y : Entry} (hxy : SameBlock T.H constants x y) :
      x.2.prevHash = y.2.prevHash ∧ x.2.height = y.2.height := by
    obtain ⟨heq, hx, hy⟩ := hxy
    rw [hx.prevHash, hy.prevHash, hx.height, hy.height, heq]
    exact ⟨rfl, rfl⟩
  have hstored {k : Bytes32} {x y : Entry} (hx : s.blockStore.entry k = some x) (hy : s'.blockStore.entry k = some y) :
      SameBlock T.H constants x y := ⟨hsame hx hy, hm.view.madeOf hx, hm'.view.madeOf hy⟩
  have hall := hm.path.forall₂ hlinks hstored hm'.path (hstored hm.tip_mem (hhash ▸ hm'.tip_mem))
  have hblocks : P.map Prod.fst = P'.map Prod.fst := by
    rw [← List.forall₂_eq_eq_eq, List.forall₂_map_left_iff, List.forall₂_map_right_iff]
    exact hall.imp fun _ _ hxy => hxy.1
  refine ⟨?_, fun i => ?_⟩
  · rw [hblocks] at hreplay
    exact Except.ok.inj (hreplay.symm.trans hreplay')
  · have hhashes : P.map (fun e => e.2.headerHash) = P'.map (fun e => e.2.headerHash) := by
      rw [← List.forall₂_eq_eq_eq, List.forall₂_map_left_iff, List.forall₂_map_right_iff]
      exact hall.imp fun _ _ ⟨heq, hx, hy⟩ => by rw [hx.headerHash, hy.headerHash, heq]
    rw [hm.heightToHash_eq, hm'.heightToHash_eq, ← List.getElem?_map, hhashes, List.getElem?_map]

end Invariant

/-! ## A sample run -/

/-- The result of a generator that spends nothing. -/
def nothingSpent : NPCResult := ⟨none, some ⟨[], 0, 0, 0, [], 0⟩, 0⟩

/-- Tools for which every proof and every signature is valid and every generator spends nothing. -/
def sampleBlockchainTools : BlockchainTools where
  H := markedHashes
  V := acceptingTools.V
  runGenerator _ _ _ := nothingSpent
  encodedFilter _ := []
  computeMerkleSetRoot _ := Bytes32.zero
  dbVersion := .v2

/-- A genesis block with a valid header that is a transaction block with a generator. -/
def genesisBlock : FullBlock :=
  let challenge := defaultConstants.GENESIS_CHALLENGE
  let empty := emptyBlock 0 challenge (Bytes32.ofNat 1) 0
  { empty with
    rewardChainBlock := { empty.rewardChainBlock with
      posSsCcChallengeHash := challenge
      challengeChainIpVdf := ⟨challenge, 6291457, defaultElement⟩
      rewardChainIpVdf := ⟨challenge, 6291457, defaultElement⟩
      isTransactionBlock := true }
    foliage := ⟨challenge, Bytes32.zero, ⟨Bytes32.zero,
      ⟨defaultConstants.GENESIS_PRE_FARM_POOL_PUZZLE_HASH, 0⟩, none,
      defaultConstants.GENESIS_PRE_FARM_FARMER_PUZZLE_HASH, Bytes32.zero, Bytes32.ofNat 1⟩, [],
      some Bytes32.zero, some []⟩
    foliageTransactionBlock := some ⟨challenge, 0, Bytes32.zero, Bytes32.zero, Bytes32.zero,
      Bytes32.zero⟩
    transactionsInfo := some ⟨Bytes32.zero, generatorRefsHash markedHashes [], [], 0, 0, []⟩
    transactionsGenerator := some [128] }

/-- The call that adds the genesis block. -/
def genesisCall : Call := ⟨genesisBlock, ⟨none, some 1, some nothingSpent, true⟩, none⟩

/-- The state after the genesis block was added. -/
def genesisState : Blockchain :=
  ((Blockchain.initial ⟨none, none⟩).receiveBlock sampleBlockchainTools defaultConstants
    genesisCall.block genesisCall.preValidationResult genesisCall.forkPointWithPeak).1

lemma genesisCall_meets {s : Blockchain} :
    genesisCall.Meets sampleBlockchainTools defaultConstants s := by
  constructor
  · intro f hf
    cases hf
  · intro npc hnpc l hl
    obtain ⟨-, rfl⟩ : _ ∧ l = [] := hl.resolve_right fun h => h.1 rfl
    exact ⟨⟨[128], [], []⟩, _, rfl, rfl, (Option.some.inj hnpc).symm⟩

lemma reachable_genesisState : Reachable sampleBlockchainTools defaultConstants
    (fun s c => c.Meets sampleBlockchainTools defaultConstants s) genesisState :=
  .receive (.initial ⟨none, none⟩) genesisCall genesisCall_meets

/-- The coins after the genesis block was added are those of its chain. -/
theorem coinStore_eq_replay_genesis : ∃ P, genesisState.PeakChain P ∧
    replay sampleBlockchainTools.toBodyTools defaultConstants (P.map Prod.fst) =
      .ok genesisState.coinStore := by
  rcases coinStore_eq_replay (fun _ _ _ _ _ _ => rfl) reachable_genesisState with ⟨hpeak, -⟩ | hchain
  · have hheight : genesisState.peakHeight = some 0 := by decide +kernel
    unfold Blockchain.getPeak at hpeak
    rw [hheight] at hpeak
    cases hrec : genesisState.heightToBlockRecord 0 with
    | error e => simp [hrec, Except.map] at hpeak
    | ok r => simp [hrec, Except.map] at hpeak
  · exact hchain

theorem coinStore_agree_genesis : ∃ s', s' = (genesisState.receiveBlock sampleBlockchainTools defaultConstants
      genesisCall.block genesisCall.preValidationResult genesisCall.forkPointWithPeak).1 ∧
    genesisState.coinStore = s'.coinStore ∧ ∀ i, genesisState.heightToHash i = s'.heightToHash i := by
  have hsome : genesisState.getPeak.toOption.join.isSome = true ∧
      (genesisState.rejectedEarly sampleBlockchainTools genesisCall.block
        genesisCall.preValidationResult).isSome = true := by
    decide +kernel
  have htwice : (genesisState.receiveBlock sampleBlockchainTools defaultConstants genesisCall.block
      genesisCall.preValidationResult genesisCall.forkPointWithPeak).1 = genesisState := by
    obtain ⟨result, hresult⟩ := Option.isSome_iff_exists.mp hsome.2
    rw [Blockchain.receiveBlock, Blockchain.acceptBlock, hresult]
  cases hpeak : genesisState.getPeak with
  | error e => simp [hpeak, Except.toOption] at hsome
  | ok peak =>
    cases peak with
    | none => simp [hpeak, Except.toOption] at hsome
    | some peak =>
      exact ⟨_, rfl, coinStore_agree (fun _ _ _ _ _ _ => rfl) reachable_genesisState
        (.receive reachable_genesisState genesisCall genesisCall_meets)
        (fun h h' => congrArg Prod.fst (Option.some.inj (h.symm.trans (htwice ▸ h')))) hpeak (htwice ▸ hpeak) rfl⟩

end Chives
