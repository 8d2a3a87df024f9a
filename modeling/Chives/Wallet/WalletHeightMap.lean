import Chives.Consensus.SubEpochs
import Chives.Library.HashTree
import Chives.Library.Transition
import Chives.Wallet.WalletBlockchain

set_option autoImplicit false

/-!
# The height map of the wallet

The height map of `WalletBlockchain` has the hashes of the peak's chain, when new blocks and weight proofs connect to
what is there.

## Main definitions

* `WalletBlockchain.Event`, `WalletBlockchain.perform` — the methods that change the state.
* `WalletBlockchain.DescribesPeak` — the entries of the height map are ancestors of the peak.
* `WalletBlockchain.NoMissingKey` — a block is received without a missing key in the rollback or the search for
  the fork.
* `WalletBlockchain.Connected` — a block or a weight proof connects to what is there.

## Main results

* `WalletBlockchain.exists_forkHeight` — the fork of two cached blocks.
* `WalletBlockchain.Inv.perform` — the invariant is kept by connected steps.
* `WalletBlockchain.run_describesPeak` — the height map describes the peak's chain in every run of them.
* `WalletBlockchain.not_describesPeak_lowerProof` — not so after a heavier weight proof of a lower peak.

## Design

A tree of all blocks gives the parents and the heights of hashes; blocks with the same hash have the same parent and the
same height. The blocks in the cache form a part of the tree with one root, which the invariant says.
-/

namespace Chives

open ExceptRun

namespace WalletBlockchain

/-- The keys of a cache. -/
def keySet (blocks : BlockRecords) : Finset Bytes32 := blocks.keys.toFinset

/-- The hashes of the blocks in the cache. -/
def hashes (t : WalletBlockchain) : Finset Bytes32 := keySet t.blockRecords

lemma mem_keySet {blocks : BlockRecords} {x : Bytes32} : x ∈ keySet blocks ↔ ∃ r, blocks.get x = some r := by
  rw [keySet, List.mem_toFinset, ← AList.mem_keys, Dict.mem_iff_lookup, Option.ne_none_iff_exists']
  rfl

lemma card_keySet (blocks : BlockRecords) : (keySet blocks).card = blocks.keys.length :=
  List.toFinset_card_of_nodup blocks.keys_nodup

section Tree

variable (H : Hashes) (T : HashTree Bytes32)

/-- A header is that of a block of the tree. -/
structure HeaderIn (hb : HeaderBlock) : Prop where
  parent : T.parent (hb.headerHash H) = hb.prevHeaderHash
  height : T.height (hb.headerHash H) = hb.height

/-- A record is that of a block of the tree. -/
structure RecordIn (r : BlockRecord) : Prop where
  parent : T.parent r.headerHash = r.prevHash
  height : T.height r.headerHash = r.height

/-- The records of a cache are filed under their hashes, and are those of blocks of the tree. -/
def Linked (blocks : BlockRecords) : Prop := ∀ x r, blocks.get x = some r → r.headerHash = x ∧ RecordIn T r

/-- A block of the tree that is in the cache. -/
structure Stored (blocks : BlockRecords) (b : ChainBlock) : Prop where
  mem : b.headerHash H ∈ keySet blocks
  parent : T.parent (b.headerHash H) = b.prevHash
  height : T.height (b.headerHash H) = b.height

end Tree

/-! ## The fork point -/

section Fork

variable {H : Hashes} {T : HashTree Bytes32} {blocks : BlockRecords} {root : Bytes32} {b b1 b2 : ChainBlock}

lemma Linked.stored (hlinked : Linked T blocks) {x : Bytes32} {r : BlockRecord} (hr : blocks.get x = some r) :
    Stored H T blocks (.record r) where
  mem := mem_keySet.mpr ⟨r, by rw [ChainBlock.headerHash, (hlinked x r hr).1, hr]⟩
  parent := (hlinked x r hr).2.parent
  height := (hlinked x r hr).2.height

lemma Stored.exists_prevBlock (hlinked : Linked T blocks) (hroot : T.RootedAt (keySet blocks) root)
    (hb : Stored H T blocks b) (hne : b.headerHash H ≠ root) :
    ∃ p, prevBlock blocks b = .ok (.record p) ∧ Stored H T blocks (.record p) ∧
      p.headerHash = T.parent (b.headerHash H) := by
  obtain ⟨p, hp⟩ := mem_keySet.mp (hroot.parent _ hb.mem hne)
  refine ⟨p, ?_, hlinked.stored hp, (hlinked _ p hp).1⟩
  rw [prevBlock, ← hb.parent, BlockRecords.blockRecord_eq_ok hp]
  rfl

/-- **The loop finds a fork** of two cached blocks: they have common ancestors up to it, and it is not below the root.

**Proof sketch.** Induction on the rounds. A block above the other one, or at the same height with another hash, is not
the root, so that its previous block is in the cache. -/
lemma exists_forkPointFrom {fuel : ℕ} (hlinked : Linked T blocks) (hroot : T.RootedAt (keySet blocks) root)
    (h1 : Stored H T blocks b1) (h2 : Stored H T blocks b2) (hfuel : b1.height + b2.height < fuel) :
    ∃ f, forkPointFrom H blocks fuel b1 b2 = .ok f ∧ T.CommonUpTo (b1.headerHash H) (b2.headerHash H) f ∧
      ((T.height root : ℤ) ≤ f ∨ f = -1 ∧ T.height root = 0) := by
  induction fuel generalizing b1 b2 with
  | zero => omega
  | succ fuel ih =>
    have hroot1 := (hroot.below _ h1.mem).1
    have hroot2 := (hroot.below _ h2.mem).1
    have hheight1 := h1.height
    have hheight2 := h2.height
    -- one step back
    have hback : ∀ {b : ChainBlock}, Stored H T blocks b → b.headerHash H ≠ root → b.height ≠ 0 →
        ∃ p, prevBlock blocks b = .ok (.record p) ∧ Stored H T blocks (.record p) ∧
          p.headerHash = T.parent (b.headerHash H) ∧ p.height + 1 = b.height := by
      intro b hb hne hpos
      obtain ⟨p, hprev, hp, hhash⟩ := hb.exists_prevBlock hlinked hroot hne
      refine ⟨p, hprev, hp, hhash, ?_⟩
      have hparent := T.height_parent (b.headerHash H) (by rw [hb.height]; exact hpos)
      have hpheight : T.height p.headerHash = p.height := hp.height
      rw [← hhash, hpheight, hb.height] at hparent
      exact hparent
    rw [forkPointFrom]
    by_cases hpos : b2.height > 0 ∨ b1.height > 0
    · rw [if_pos hpos]
      by_cases hlt : b2.height > b1.height
      · rw [if_pos hlt]
        obtain ⟨p, hprev, hp, hhash, hph⟩ := hback h2 (by rintro heq; rw [heq] at hheight2; omega) (by omega)
        obtain ⟨f, hf, hcommon, hlow⟩ := ih h1 hp (by show b1.height + p.height < fuel; omega)
        refine ⟨f, by rw [hprev, ok_bind, hf], ?_, hlow⟩
        have hcommon : T.CommonUpTo (b1.headerHash H) p.headerHash f := hcommon
        rw [hhash] at hcommon
        exact hcommon.of_parent_right (by omega)
      · rw [if_neg hlt]
        by_cases hgt : b1.height > b2.height
        · rw [if_pos hgt]
          obtain ⟨p, hprev, hp, hhash, hph⟩ := hback h1 (by rintro heq; rw [heq] at hheight1; omega) (by omega)
          obtain ⟨f, hf, hcommon, hlow⟩ := ih hp h2 (by show p.height + b2.height < fuel; omega)
          refine ⟨f, by rw [hprev, ok_bind, hf], ?_, hlow⟩
          have hcommon : T.CommonUpTo p.headerHash (b2.headerHash H) f := hcommon
          rw [hhash] at hcommon
          exact hcommon.of_parent_left (by omega)
        · rw [if_neg hgt]
          by_cases hhash : b2.headerHash H = b1.headerHash H
          · rw [if_pos hhash]
            refine ⟨b2.height, rfl, ?_, .inl (by omega)⟩
            rw [hhash, ← h2.height, hhash]
            exact .self _
          · rw [if_neg hhash]
            -- the root is the only block at its height
            have hne : ∀ {b b' : ChainBlock}, Stored H T blocks b → Stored H T blocks b' → b.height = b'.height →
                b'.headerHash H ≠ b.headerHash H → b.headerHash H ≠ root := by
              intro b b' hb hb' heq hne hbroot
              have hbelow := hroot.below _ hb'.mem
              refine hne (hbelow.eq_of_height (.refl _) ?_ |>.symm.trans hbroot.symm)
              rw [← hbroot, hb.height, hb'.height, heq]
            obtain ⟨p2, hprev2, hp2, hhash2, hph2⟩ := hback h2 (hne h2 h1 (by omega) (Ne.symm hhash)) (by omega)
            obtain ⟨p1, hprev1, hp1, hhash1, hph1⟩ := hback h1 (hne h1 h2 (by omega) hhash) (by omega)
            obtain ⟨f, hf, hcommon, hlow⟩ := ih hp1 hp2 (by show p1.height + p2.height < fuel; omega)
            refine ⟨f, by rw [hprev2, ok_bind, hprev1, ok_bind, hf], ?_, hlow⟩
            have hcommon : T.CommonUpTo p1.headerHash p2.headerHash f := hcommon
            rw [hhash1, hhash2] at hcommon
            exact (hcommon.of_parent_left (by omega)).of_parent_right (by omega)
    · rw [if_neg hpos]
      by_cases hne : b2 ≠ b1
      · rw [if_pos hne]
        exact ⟨-1, rfl, .of_neg (by omega), .inr ⟨rfl, by omega⟩⟩
      · rw [if_neg hne]
        obtain rfl := not_not.mp hne
        refine ⟨0, rfl, ?_, .inl (by omega)⟩
        have hself := HashTree.CommonUpTo.self (T := T) (b2.headerHash H)
        rwa [hheight2, show (b2.height : ℤ) = 0 by omega] at hself

/-- **The fork height** of a cached block and the cached peak. -/
lemma exists_forkHeight {t : WalletBlockchain} {r : BlockRecord} {peak : HeaderBlock}
    (hlinked : Linked T t.blockRecords) (hroot : T.RootedAt (keySet t.blockRecords) root)
    (hr : Stored H T t.blockRecords (.record r)) (hpeak : Stored H T t.blockRecords (.header peak))
    (hpos : r.height ≠ 0) :
    ∃ f, t.forkHeight H r peak = .ok f ∧ T.CommonUpTo r.headerHash (peak.headerHash H) f ∧
      ((T.height root : ℤ) ≤ f ∨ f = -1 ∧ T.height root = 0) := by
  rw [forkHeight]
  have hparent : T.parent r.headerHash = r.prevHash := hr.parent
  have hheight : T.height r.headerHash = r.height := hr.height
  have hpeakHeight : T.height (peak.headerHash H) = peak.height := hpeak.height
  split
  · rename_i hprev
    refine ⟨peak.height, rfl, ?_, .inl ?_⟩
    · rw [← hprev, ← hparent] at hpeakHeight ⊢
      rw [← hpeakHeight]
      exact HashTree.CommonUpTo.of_parent_left (by omega) (.self _)
    · have hbelow := (hroot.below _ hpeak.mem).1
      have hbelow : T.height root ≤ T.height (peak.headerHash H) := hbelow
      omega
  · exact exists_forkPointFrom hlinked hroot hr hpeak (by omega)

end Fork

/-! ## The new heights -/

lemma deleteHeights_eq {heights : List ℕ} (hnodup : heights.Nodup) (heightToHash : ℕ → Option Bytes32)
    (hmem : ∀ h ∈ heights, (heightToHash h).isSome = true) :
    deleteHeights heightToHash heights = (fun h => if h ∈ heights then none else heightToHash h, .ok ()) := by
  induction heights generalizing heightToHash with
  | nil => simp [deleteHeights]
  | cons k heights ih =>
    obtain ⟨hk, hnodup⟩ := List.nodup_cons.mp hnodup
    rw [deleteHeights, if_pos (hmem k List.mem_cons_self), ih hnodup]
    · congr 1
      funext h
      by_cases hh : h = k
      · simp [hh]
      · simp [hh]
    · intro h hh
      have hne : h ≠ k := by
        rintro rfl
        exact hk hh
      rw [Function.update_of_ne hne]
      exact hmem h (List.mem_cons_of_mem _ hh)

/-- **The rollback**, when the heights above the fork are there. -/
lemma rollbackToHeight_eq {heightToHash : ℕ → Option Bytes32} {peak : HeaderBlock} {fork : ℤ}
    (hmem : ∀ h : ℕ, fork < h → h ≤ peak.height → heightToHash h ≠ none) :
    rollbackToHeight heightToHash peak fork =
      (fun h : ℕ => if fork < h ∧ h ≤ peak.height then none else heightToHash h, .ok ()) := by
  rw [rollbackToHeight, deleteHeights_eq (List.nodup_range.filter _)]
  · congr 1
    funext h
    have hiff : h ∈ (List.range (peak.height + 1)).filter (fun h : ℕ => fork < (h : ℤ)) ↔ fork < h ∧ h ≤ peak.height := by
      simp only [List.mem_filter, List.mem_range, decide_eq_true_eq]
      omega
    simp only [hiff]
  · intro h hh
    simp only [List.mem_filter, List.mem_range, decide_eq_true_eq] at hh
    exact Option.isSome_iff_ne_none.mpr (hmem h hh.2 (by omega))

section NewHeights

variable {T : HashTree Bytes32} {blocks : BlockRecords} {root : Bytes32}

/-- **The new heights**: above the fork, the map has the chain of the new block.

**Proof sketch.** Induction on the rounds. A block above the fork is not the root, so that its previous block is in the
cache; at height 0 the loop ends. -/
lemma exists_setHeights {fuel : ℕ} {fork : ℤ} {r : BlockRecord} (hlinked : Linked T blocks)
    (hroot : T.RootedAt (keySet blocks) root) (hr : blocks.get r.headerHash = some r)
    (hfork : (T.height root : ℤ) ≤ fork ∨ fork = -1 ∧ T.height root = 0) (hfuel : r.height < fuel)
    (heightToHash : ℕ → Option Bytes32) (latestTimestamp : ℕ) :
    ∃ latest, setHeights blocks fork fuel r heightToHash latestTimestamp =
      (fun h : ℕ => if fork < h ∧ h ≤ r.height then some (T.atHeight r.headerHash h) else heightToHash h, latest,
        .ok ()) := by
  induction fuel generalizing r heightToHash latestTimestamp with
  | zero => omega
  | succ fuel ih =>
    have hheight := (hlinked _ r hr).2.height
    rw [setHeights]
    by_cases hlt : fork < r.height
    swap
    · rw [if_neg hlt]
      refine ⟨latestTimestamp, ?_⟩
      congr 1
      funext h
      rw [if_neg (by omega)]
    rw [if_pos hlt]
    by_cases hzero : r.height = 0
    · rw [if_pos hzero]
      refine ⟨max latestTimestamp (r.timestamp.getD 0), ?_⟩
      congr 1
      funext h
      rw [Function.update_apply]
      by_cases hh : h = r.height
      · rw [if_pos hh, if_pos (by omega), hh, ← hheight, HashTree.atHeight_self]
      · rw [if_neg hh, if_neg (by omega)]
    · rw [if_neg hzero]
      have hne : r.headerHash ≠ root := by
        intro heq
        rw [heq] at hheight
        omega
      obtain ⟨p, hp⟩ := mem_keySet.mp (hroot.parent _ (mem_keySet.mpr ⟨r, hr⟩) hne)
      have hphash := (hlinked _ p hp).1
      have hpheight := (hlinked _ p hp).2.height
      have hparent := T.height_parent r.headerHash (by omega)
      rw [← (hlinked _ r hr).2.parent, BlockRecords.blockRecord_eq_ok hp]
      dsimp only
      rw [hphash] at hpheight
      obtain ⟨latest, hset⟩ := ih (r := p) (by rw [hphash, hp]) (by omega)
        (Function.update heightToHash r.height (some r.headerHash)) (max latestTimestamp (r.timestamp.getD 0))
      refine ⟨latest, hset.trans ?_⟩
      congr 1
      funext h
      rw [hphash, Function.update_apply]
      by_cases hbelow : fork < h ∧ h ≤ p.height
      · rw [if_pos hbelow, if_pos (by omega), HashTree.atHeight_of_lt (show h < T.height r.headerHash by omega)]
      · rw [if_neg hbelow]
        by_cases hh : h = r.height
        · rw [if_pos hh, if_pos (by omega), hh, ← hheight, HashTree.atHeight_self]
        · rw [if_neg hh, if_neg (by omega)]

end NewHeights

/-! ## Runs of methods -/

/-- A call of a method that changes the state. -/
inductive Event
  | receiveBlock (hb : HeaderBlock) (now : ℕ)
  | newWeightProof (tip : HeaderBlock) (records : List BlockRecord)
  | setFinishedSyncUpTo (height : ℤ) (inTransaction inRollback : Bool)
  | cleanBlockRecords

section Runs

variable (H : Hashes) (V : Verifiers) (constants : ConsensusConstants) (T : HashTree Bytes32)

/-- The state after a call. -/
def perform (t : WalletBlockchain) : Event → WalletBlockchain
  | .receiveBlock hb now => (t.receiveBlock H V constants hb now).1
  | .newWeightProof tip records => (t.newWeightProof constants tip records).1
  | .setFinishedSyncUpTo height inTransaction inRollback =>
    t.setFinishedSyncUpTo constants height inTransaction inRollback
  | .cleanBlockRecords => t.cleanBlockRecords constants

/-- The blocks of a call are blocks of the tree, and difficulties in them fit in their type. -/
def Event.InTree : Event → Prop
  | .receiveBlock hb _ => HeaderIn H T hb ∧
    ∀ slot ∈ hb.finishedSubSlots, ∀ d ∈ slot.challengeChain.newDifficulty, d < 2 ^ 64
  | .newWeightProof tip records => HeaderIn H T tip ∧ ∀ r ∈ records, RecordIn T r
  | .setFinishedSyncUpTo _ _ _ => True
  | .cleanBlockRecords => True

/-- The entries of the height map are not above the peak, and each is the hash of the peak's ancestor at its height. -/
def DescribesPeak (t : WalletBlockchain) : Prop :=
  ∀ h x, t.heightToHash h = some x → ∃ peak, t.peak = some peak ∧ h ≤ peak.height ∧
    T.Below x (peak.headerHash H) ∧ T.height x = h

/-- No exception in `find_fork_point_in_chain` or `_rollback_to_height`. -/
def NoMissingKey (outcome : Except Failure ReceiveResult) : Prop :=
  ∀ e, outcome ≠ .error (.findForkPoint e) ∧ outcome ≠ .error (.rollback e)

/-- What `clean_block_records` leaves of some blocks is still one tree with the peak: it removes nothing, or only one
block is at the height limit, and the peak is not below it. -/
def KeepsTree (K : Finset Bytes32) (limit peakHeight : ℕ) : Prop :=
  K.card < cacheSize constants ∨
    limit ≤ peakHeight ∧ ∀ a ∈ K, ∀ b ∈ K, T.height a = limit → T.height b = limit → a = b

/-- A record is that of the next block of a chain. -/
structure Follows (r s : BlockRecord) : Prop where
  prevHash : s.prevHash = r.headerHash
  height : s.height = r.height + 1
  weight_le : r.weight ≤ s.weight
  weight_lt : s.weight < r.weight + 2 ^ 64

/-- The hashes of some records. -/
def recordHashes (records : List BlockRecord) : Finset Bytes32 := (records.map BlockRecord.headerHash).toFinset

/-- A weight proof connects to what is there. -/
structure ProofConnected (t : WalletBlockchain) (tip : HeaderBlock) (records : List BlockRecord) : Prop where
  /-- The records are those of a chain that ends with the tip. -/
  chain : records.IsChain Follows
  last : ∀ last ∈ records.getLast?, last.headerHash = tip.headerHash H
  /-- No entry of the height map is above the tip. -/
  top : ∀ h x, t.heightToHash h = some x → h ≤ tip.height
  /-- Below the records there is no entry, or the first record continues the chain there. -/
  bottom : ∀ first ∈ records.head?, (∀ h < first.height, t.heightToHash h = none) ∨
    (first.height ≠ 0 ∧ t.heightToHash (first.height - 1) = some first.prevHash)
  /-- The blocks in the cache and those of the proof are one tree, also when the cache is cleaned. -/
  rooted : ∃ root, T.RootedAt (t.hashes ∪ recordHashes records) root
  kept : KeepsTree constants T (t.hashes ∪ recordHashes records) (t.heightLimit constants) tip.height

/-- The records of a weight proof are those of a chain that ends with its tip. -/
def Event.OfChain : Event → Prop
  | .newWeightProof tip records => records.IsChain Follows ∧ ∀ last ∈ records.getLast?,
    last.headerHash = tip.headerHash H
  | .receiveBlock _ _ => True
  | .setFinishedSyncUpTo _ _ _ => True
  | .cleanBlockRecords => True

/-- What a call needs: a new block of height 0 comes first, a weight proof connects to what is there, and cleaning the
cache leaves one tree. -/
def Connected (t : WalletBlockchain) : Event → Prop
  | .receiveBlock hb _ => hb.headerHash H ∉ t.hashes → (hb.height = 0 → t.peak = none) ∧
    ∀ peak ∈ t.peak, peak.weight < hb.weight →
      KeepsTree constants T (insert (hb.headerHash H) t.hashes) (t.heightLimit constants) hb.height
  | .newWeightProof tip records => (∀ peak ∈ t.peak, peak.weight < tip.weight) →
    ProofConnected H constants T t tip records
  | .setFinishedSyncUpTo height inTransaction inRollback =>
    inTransaction = false → (inRollback = true ∧ 0 ≤ height) ∨ (t.finishedSyncUpTo : ℤ) < height →
      ∀ peak ∈ t.peak, KeepsTree constants T t.hashes (height.toNat - cacheSize constants) peak.height
  | .cleanBlockRecords => ∀ peak ∈ t.peak, KeepsTree constants T t.hashes (t.heightLimit constants) peak.height

/-- The invariant: the height map has entries of the peak's chain only, and the blocks in the cache are a tree that has
the peak and whose heights are in the map. -/
structure Inv (t : WalletBlockchain) : Prop where
  linked : Linked T t.blockRecords
  peak : ∀ peak ∈ t.peak, HeaderIn H T peak
  entries : ∀ h x, t.heightToHash h = some x → ∃ peak ∈ t.peak, h ≤ peak.height ∧
    x = T.atHeight (peak.headerHash H) h
  rooted : t.hashes.Nonempty → ∃ peak ∈ t.peak, peak.headerHash H ∈ t.hashes ∧ ∃ root, T.RootedAt t.hashes root ∧
    ∀ h, T.height root ≤ h → h ≤ peak.height → t.heightToHash h ≠ none
  difficulty : ∀ d ∈ t.difficulty, d < 2 ^ 64

end Runs

variable {H : Hashes} {V : Verifiers} {constants : ConsensusConstants} {T : HashTree Bytes32} {t : WalletBlockchain}

/-- **The map describes the peak's chain**, by the invariant. -/
lemma Inv.describesPeak (h : Inv H T t) : DescribesPeak H T t := by
  intro k x hx
  obtain ⟨peak, hpeak, hle, rfl⟩ := h.entries k x hx
  rw [← (h.peak peak hpeak).height] at hle
  refine ⟨peak, hpeak, ?_, HashTree.below_atHeight hle, HashTree.height_atHeight hle⟩
  rwa [(h.peak peak hpeak).height] at hle

/-! ## The cache -/

lemma get_addBlockRecord (t : WalletBlockchain) (r : BlockRecord) (x : Bytes32) :
    (t.addBlockRecord r).blockRecords.get x = if x = r.headerHash then some r else t.blockRecords.get x :=
  Dict.lookup_set _ _ _ _

lemma hashes_addBlockRecord (t : WalletBlockchain) (r : BlockRecord) :
    (t.addBlockRecord r).hashes = insert r.headerHash t.hashes := by
  ext x
  rw [hashes, mem_keySet, get_addBlockRecord, Finset.mem_insert, hashes, mem_keySet]
  by_cases hx : x = r.headerHash
  · simp [hx]
  · simp [hx]

lemma Linked.addBlockRecord (hlinked : Linked T t.blockRecords) {r : BlockRecord} (hr : RecordIn T r) :
    Linked T (t.addBlockRecord r).blockRecords := by
  intro x r' hr'
  rw [get_addBlockRecord] at hr'
  split at hr'
  · rename_i hx
    obtain rfl := Option.some.inj hr'
    exact ⟨hx.symm, hr⟩
  · exact hlinked x r' hr'

lemma get_cleanBlockRecords (constants : ConsensusConstants) (t : WalletBlockchain) (x : Bytes32) :
    (t.cleanBlockRecords constants).blockRecords.get x =
      if t.hashes.card < cacheSize constants then t.blockRecords.get x
      else (t.blockRecords.get x).filter fun r => t.heightLimit constants ≤ r.height := by
  rw [hashes, card_keySet, cleanBlockRecords]
  split
  · rfl
  · show AList.lookup x (List.foldl _ _ _) = _
    rw [Dict.lookup_foldl_erase, BlockRecords.get]
    have hiff : x ∈ t.toRemove constants ↔ ∃ r, t.blockRecords.lookup x = some r ∧ r.height < t.heightLimit constants := by
      simp only [toRemove, List.mem_map, List.mem_filter, decide_eq_true_eq, Prod.exists]
      constructor
      · rintro ⟨k, r, ⟨hmem, hlt⟩, rfl⟩
        exact ⟨r, Dict.mem_items_iff.mp hmem, hlt⟩
      · rintro ⟨r, hr, hlt⟩
        exact ⟨x, r, ⟨Dict.mem_items_iff.mpr hr, hlt⟩, rfl⟩
    simp only [hiff]
    cases hx : t.blockRecords.lookup x with
    | none => simp
    | some r =>
      by_cases hlt : r.height < t.heightLimit constants
      · simp [Option.filter, hlt]
      · simp [Option.filter, hlt, not_lt.mp hlt]

lemma cleanBlockRecords_eq (constants : ConsensusConstants) (t : WalletBlockchain) :
    t.cleanBlockRecords constants = { t with blockRecords := (t.cleanBlockRecords constants).blockRecords } := by
  rw [cleanBlockRecords]
  split <;> rfl

/-- **The cache is cleaned.** -/
lemma Inv.cleanBlockRecords (h : Inv H T t)
    (hkeeps : ∀ peak ∈ t.peak, KeepsTree constants T t.hashes (t.heightLimit constants) peak.height) :
    Inv H T (t.cleanBlockRecords constants) := by
  have hget := get_cleanBlockRecords constants t
  rw [cleanBlockRecords_eq]
  by_cases hcard : t.hashes.card < cacheSize constants
  · have hsame : (t.cleanBlockRecords constants).blockRecords = t.blockRecords := by
      rw [WalletBlockchain.cleanBlockRecords, if_pos (by rwa [← card_keySet])]
    rw [hsame]
    exact h
  -- what is left are the blocks from the limit on
  have hhashes : keySet (t.cleanBlockRecords constants).blockRecords =
      t.hashes.filter fun x => t.heightLimit constants ≤ T.height x := by
    ext x
    rw [mem_keySet, hget, if_neg hcard, Finset.mem_filter, hashes, mem_keySet]
    constructor
    · rintro ⟨r, hr⟩
      obtain ⟨hr, hle⟩ := Option.filter_eq_some_iff.mp hr
      obtain ⟨rfl, hin⟩ := h.linked x r hr
      exact ⟨⟨r, hr⟩, by rw [hin.height]; exact of_decide_eq_true hle⟩
    · rintro ⟨⟨r, hr⟩, hle⟩
      obtain ⟨rfl, hin⟩ := h.linked x r hr
      exact ⟨r, Option.filter_eq_some_iff.mpr ⟨hr, decide_eq_true (by rw [← hin.height]; exact hle)⟩⟩
  refine ⟨fun x r hr => ?_, h.peak, h.entries, fun hne => ?_, h.difficulty⟩
  · have hr : (t.cleanBlockRecords constants).blockRecords.get x = some r := hr
    rw [hget, if_neg hcard] at hr
    exact h.linked x r (Option.filter_eq_some_iff.mp hr).1
  · have hne : (keySet (t.cleanBlockRecords constants).blockRecords).Nonempty := hne
    rw [hhashes] at hne
    obtain ⟨peak, hpeak, hmem, root, hroot, hcover⟩ := h.rooted (hne.mono (Finset.filter_subset _ _))
    obtain ⟨hlimit, hunique⟩ := (hkeeps peak hpeak).resolve_left hcard
    have hheight := (h.peak peak hpeak).height
    refine ⟨peak, hpeak, ?_, ?_⟩
    · show _ ∈ keySet (t.cleanBlockRecords constants).blockRecords
      rw [hhashes]
      exact Finset.mem_filter.mpr ⟨hmem, by omega⟩
    · show ∃ root, T.RootedAt (keySet (t.cleanBlockRecords constants).blockRecords) root ∧ _
      rw [hhashes]
      by_cases hlow : T.height root ≤ t.heightLimit constants
      · refine ⟨_, hroot.cut hlow hmem (by omega) hunique, fun k hk => hcover k ?_⟩
        rw [HashTree.height_atHeight (by omega)] at hk
        omega
      · refine ⟨root, ?_, hcover⟩
        rw [Finset.filter_true_of_mem fun x hx => ?_]
        · exact hroot
        · have hbelow := (hroot.below x hx).1
          omega

/-! ## Blocks -/

variable {hb : HeaderBlock} {r : BlockRecord} {now : ℕ}

/-- A record with the hash, the parent, the height and the weight of a header. -/
structure RecordOf (H : Hashes) (hb : HeaderBlock) (r : BlockRecord) : Prop where
  headerHash : r.headerHash = hb.headerHash H
  prevHash : r.prevHash = hb.prevHeaderHash
  height : r.height = hb.height
  weight : r.weight = hb.weight

lemma RecordOf.recordIn (hr : RecordOf H hb r) (hb' : HeaderIn H T hb) : RecordIn T r :=
  ⟨by rw [hr.headerHash, hb'.parent, hr.prevHash], by rw [hr.headerHash, hb'.height, hr.height]⟩

/-- **A header that passes**: its record, and the difficulty that its weight adds. -/
lemma checkedRecord_eq_ok (h : t.checkedRecord H V constants hb now = .ok (.ok r)) :
    RecordOf H hb r ∧ ∃ subSlotIters difficulty, t.expectedIters hb = .ok (subSlotIters, difficulty) ∧
      ∀ p, hb.height ≠ 0 → t.blockRecords.get hb.prevHeaderHash = some p → hb.weight = p.weight + difficulty := by
  rw [checkedRecord] at h
  obtain ⟨⟨subSlotIters, difficulty⟩, hiters, h⟩ := bind_eq_ok.mp h
  dsimp only at h
  split at h
  · cases Except.ok.inj h
  · cases h
  · rename_i requiredIters hvalid
    split at h
    · cases h
    · rename_i r' hrecord
      obtain rfl := Except.ok.inj (Except.ok.inj h)
      refine ⟨?_, subSlotIters, difficulty, hiters, fun p hne hp => ?_⟩
      · simp only [headerToBlockRecord] at hrecord
        obtain ⟨-, -, hrecord⟩ := bind_eq_ok.mp hrecord
        obtain ⟨overflow, -, hrecord⟩ := bind_eq_ok.mp hrecord
        obtain ⟨deficit, -, hrecord⟩ := bind_eq_ok.mp hrecord
        obtain ⟨ses, -, hrecord⟩ := bind_eq_ok.mp hrecord
        obtain ⟨height, -, hrecord⟩ := bind_eq_ok.mp hrecord
        rw [← Except.ok.inj hrecord]
        exact ⟨rfl, rfl, rfl, rfl⟩
      · obtain ⟨q, hq, -, hweight⟩ := heightAndWeight_of_valid hne hvalid
        obtain rfl := Option.some.inj (hq.symm.trans hp)
        exact hweight

lemma expectedIters_lt {subSlotIters difficulty : ℕ} (h : t.expectedIters hb = .ok (subSlotIters, difficulty))
    (hdifficulty : ∀ d ∈ t.difficulty, d < 2 ^ 64)
    (hslots : ∀ slot ∈ hb.finishedSubSlots, ∀ d ∈ slot.challengeChain.newDifficulty, d < 2 ^ 64) :
    difficulty < 2 ^ 64 := by
  rw [expectedIters] at h
  split at h
  · split at h
    · rename_i d hd
      obtain ⟨slot, hslot, hd⟩ := Option.bind_eq_some_iff.mp hd
      obtain ⟨-, rfl⟩ := Prod.mk.inj (Except.ok.inj h)
      exact hslots slot (List.mem_of_head? hslot) d hd
    · cases h
  · split at h
    · rename_i s d hs hd
      obtain ⟨-, rfl⟩ := Prod.mk.inj (Except.ok.inj h)
      exact hdifficulty d hd
    · cases h

/-- **A block is added to the cache**, whose previous block is there. -/
lemma Inv.addBlockRecord (h : Inv H T t) (hr : RecordIn T r) (hpos : r.height ≠ 0) (hprev : r.prevHash ∈ t.hashes) :
    Inv H T (t.addBlockRecord r) where
  linked := h.linked.addBlockRecord hr
  peak := h.peak
  entries := h.entries
  rooted := fun _ => by
    obtain ⟨peak, hpeak, hmem, root, hroot, hcover⟩ := h.rooted ⟨_, hprev⟩
    rw [hashes_addBlockRecord]
    refine ⟨peak, hpeak, Finset.mem_insert_of_mem hmem, root, ?_, hcover⟩
    exact hroot.insert (by rw [hr.height]; exact hpos) (by rw [hr.parent]; exact hprev)
  difficulty := h.difficulty

/-- **The peak is changed** to a block in the cache without an exception.

**Proof sketch.** The fork is not below the root of the cache, so that the heights above it are in the map, and the
blocks above it in the cache. Up to the fork the entries are ancestors of the old peak and so of the new one. -/
lemma Inv.updatePeak (h : Inv H T t) {peak : HeaderBlock} (hpeak : t.peak = some peak) (hb' : HeaderIn H T hb)
    (hr : RecordOf H hb r) (hmem : t.blockRecords.get r.headerHash = some r) (hpos : r.height ≠ 0)
    {difficulty : ℕ} (hdifficulty : t.difficultyOf r = .ok difficulty)
    (hkeeps : KeepsTree constants T t.hashes (t.heightLimit constants) hb.height) :
    ∃ u, t.updatePeak H constants hb r peak = (u, .ok .newPeak) ∧ Inv H T u := by
  have hkey : r.headerHash ∈ t.hashes := mem_keySet.mpr ⟨r, hmem⟩
  obtain ⟨peak', hpeak', hpeakMem, root, hroot, hcover⟩ := h.rooted ⟨_, hkey⟩
  obtain rfl : peak' = peak := Option.some.inj (hpeak'.symm.trans hpeak)
  have hpeakIn := h.peak peak' hpeak'
  have hrIn := hr.recordIn hb'
  obtain ⟨f, hf, hcommon, hlow⟩ := exists_forkHeight h.linked hroot (h.linked.stored hmem)
    ⟨hpeakMem, hpeakIn.parent, hpeakIn.height⟩ hpos
  -- the fork is not above the blocks
  have hup : ∀ k : ℕ, (k : ℤ) ≤ f → k ≤ r.height ∧ k ≤ peak'.height := by
    intro k hk
    obtain ⟨h1, h2, -⟩ := hcommon k hk
    rw [hrIn.height] at h1
    rw [hpeakIn.height] at h2
    exact ⟨h1, h2⟩
  have hrollback := @rollbackToHeight_eq t.heightToHash peak' f fun k hk hle => hcover k (by omega) hle
  have hfuel : r.height < t.blockRecords.fuel + r.height := by
    rw [BlockRecords.fuel]
    omega
  obtain ⟨latest, hset⟩ := exists_setHeights h.linked hroot hmem hlow hfuel
    (fun h : ℕ => if f < h ∧ h ≤ peak'.height then none else t.heightToHash h) t.latestTimestamp
  rw [WalletBlockchain.updatePeak, hf]
  dsimp only
  rw [hrollback]
  dsimp only
  rw [hset]
  dsimp only
  rw [hdifficulty]
  refine ⟨_, rfl, Inv.cleanBlockRecords ⟨h.linked, ?_, ?_, ?_, ?_⟩ ?_⟩
  · rintro _ ⟨⟩
    exact hb'
  · intro k x hx
    refine ⟨hb, rfl, ?_⟩
    have hx : (if f < k ∧ k ≤ r.height then some (T.atHeight r.headerHash k)
      else if f < k ∧ k ≤ peak'.height then none else t.heightToHash k) = some x := hx
    split at hx
    · rename_i hk
      rw [← hr.height, ← hr.headerHash]
      exact ⟨hk.2, (Option.some.inj hx).symm⟩
    · split at hx
      · cases hx
      · obtain ⟨peak'', hpeak'', hle, rfl⟩ := h.entries k x hx
        obtain rfl : peak'' = peak' := Option.some.inj (hpeak''.symm.trans hpeak)
        obtain ⟨h1, -, heq⟩ := hcommon k (by omega)
        rw [hrIn.height] at h1
        rw [← hr.height, ← hr.headerHash, heq]
        exact ⟨h1, rfl⟩
  · intro _
    refine ⟨hb, rfl, by rw [← hr.headerHash]; exact hkey, root, hroot, fun k hk hle => ?_⟩
    show (if f < k ∧ k ≤ r.height then some (T.atHeight r.headerHash k)
      else if f < k ∧ k ≤ peak'.height then none else t.heightToHash k) ≠ none
    rw [← hr.height] at hle
    by_cases hfk : f < k
    · rw [if_pos ⟨hfk, hle⟩]
      exact Option.some_ne_none _
    · rw [if_neg (fun hc => hfk hc.1), if_neg (fun hc => hfk hc.1)]
      exact hcover k hk (hup k (by omega)).2
  · rintro d ⟨⟩
    obtain ⟨_, -, hfits⟩ := bind_eq_ok.mp hdifficulty
    exact (uintN_eq_ok.mp hfits).2
  · rintro _ ⟨⟩
    exact hkeeps

lemma containsBlock_iff {x : Bytes32} : t.containsBlock x = true ↔ x ∈ t.hashes := by
  rw [containsBlock, hashes, mem_keySet, Option.isSome_iff_exists]

lemma checkedRecord_error {e : Failure} (h : t.checkedRecord H V constants hb now = .error e) :
    NoMissingKey (.error e) := by
  have hiters : ∀ {e : Failure}, t.expectedIters hb = .error e → NoMissingKey (.error e) := by
    intro e he
    rw [expectedIters] at he
    split at he
    · split at he
      · cases he
      · obtain rfl := Except.error.inj he
        exact fun _ => ⟨fun hf => (by cases hf), fun hf => (by cases hf)⟩
    · split at he
      · cases he
      · obtain rfl := Except.error.inj he
        exact fun _ => ⟨fun hf => (by cases hf), fun hf => (by cases hf)⟩
  rw [checkedRecord] at h
  rcases bind_eq_error.mp h with h | ⟨⟨subSlotIters, difficulty⟩, -, h⟩
  · exact hiters h
  · dsimp only at h
    split at h
    · cases h
    · obtain rfl := Except.error.inj h
      exact fun _ => ⟨fun hf => (by cases hf), fun hf => (by cases hf)⟩
    · split at h
      · obtain rfl := Except.error.inj h
        exact fun _ => ⟨fun hf => (by cases hf), fun hf => (by cases hf)⟩
      · cases h

lemma noMissingKey_ok (result : ReceiveResult) : NoMissingKey (.ok result) :=
  fun _ => ⟨fun hf => (by cases hf), fun hf => (by cases hf)⟩

lemma Inv.hashes_eq_empty (h : Inv H T t) (hpeak : t.peak = none) : t.hashes = ∅ := by
  by_contra hne
  obtain ⟨peak, hsome, -⟩ := h.rooted (Finset.nonempty_iff_ne_empty.mpr hne)
  rw [hpeak] at hsome
  cases hsome

/-- **The first block** becomes the peak. -/
lemma Inv.addFirst (h : Inv H T t) (hpeak : t.peak = none) (hb' : HeaderIn H T hb) (hr : RecordOf H hb r)
    (hzero : hb.height = 0) : Inv H T (t.addChecked H constants hb r).1 := by
  have hempty := h.hashes_eq_empty hpeak
  have hrIn := hr.recordIn hb'
  have hmap : ∀ k x, t.heightToHash k ≠ some x := by
    intro k x hx
    obtain ⟨peak, hsome, -⟩ := h.entries k x hx
    rw [hpeak] at hsome
    cases hsome
  rw [addChecked, hpeak]
  refine ⟨h.linked.addBlockRecord hrIn, ?_, fun k x hx => ⟨hb, rfl, ?_⟩, fun _ => ⟨hb, rfl, ?_, hb.headerHash H, ?_⟩,
    h.difficulty⟩
  · rintro _ ⟨⟩
    exact hb'
  · have hx : Function.update t.heightToHash r.height (some r.headerHash) k = some x := hx
    rw [Function.update_apply] at hx
    split at hx
    · rename_i hk
      rw [← Option.some.inj hx, hk, hr.height, ← hb'.height, HashTree.atHeight_self]
      exact ⟨le_rfl, hr.headerHash⟩
    · exact absurd hx (hmap k x)
  · show _ ∈ (t.addBlockRecord r).hashes
    rw [hashes_addBlockRecord, ← hr.headerHash]
    exact Finset.mem_insert_self _ _
  · show T.RootedAt (t.addBlockRecord r).hashes _ ∧ _
    rw [hashes_addBlockRecord, hempty, hr.headerHash]
    refine ⟨.singleton _, fun k _ hle => ?_⟩
    show Function.update t.heightToHash r.height (some (hb.headerHash H)) k ≠ none
    rw [show k = r.height by rw [hr.height]; omega, Function.update_self]
    exact Option.some_ne_none _

/-- **A block is received.** -/
lemma Inv.receiveBlock (h : Inv H T t) (hin : Event.InTree H T (.receiveBlock hb now))
    (hconnected : Connected H constants T t (.receiveBlock hb now)) :
    Inv H T (t.receiveBlock H V constants hb now).1 ∧ NoMissingKey (t.receiveBlock H V constants hb now).2 := by
  obtain ⟨hb', hslots⟩ := hin
  rw [WalletBlockchain.receiveBlock]
  split
  · exact ⟨h, noMissingKey_ok _⟩
  rename_i hnew
  rw [containsBlock_iff] at hnew
  obtain ⟨hfirst, hkeeps⟩ := hconnected hnew
  split
  · exact ⟨h, noMissingKey_ok _⟩
  rename_i hprev
  rw [containsBlock_iff] at hprev
  split
  · rename_i e he
    exact ⟨h, checkedRecord_error he⟩
  · exact ⟨h, noMissingKey_ok _⟩
  rename_i r hchecked
  obtain ⟨hr, subSlotIters, difficulty, hiters, hweight⟩ := checkedRecord_eq_ok hchecked
  have hrIn := hr.recordIn hb'
  cases hpeak : t.peak with
  | none =>
    have hzero : hb.height = 0 := by
      by_contra hpos
      rw [h.hashes_eq_empty hpeak] at hprev
      exact hprev ⟨Finset.notMem_empty _, by omega⟩
    refine ⟨h.addFirst hpeak hb' hr hzero, ?_⟩
    rw [addChecked, hpeak]
    exact noMissingKey_ok _
  | some peak =>
    have hpos : hb.height ≠ 0 := by
      intro hzero
      rw [hfirst hzero] at hpeak
      cases hpeak
    have hprevMem : r.prevHash ∈ t.hashes := by
      rw [hr.prevHash]
      by_contra hnot
      exact hprev ⟨hnot, by omega⟩
    have hadded := h.addBlockRecord hrIn (by rw [hr.height]; exact hpos) hprevMem
    rw [addChecked, hpeak]
    dsimp only
    split
    swap
    · exact ⟨hadded, noMissingKey_ok _⟩
    rename_i hheavier
    -- the difficulty is the one that the block was validated with
    obtain ⟨p, hp⟩ := mem_keySet.mp hprevMem
    have hpos' : T.height r.headerHash ≠ 0 := by
      rw [hrIn.height, hr.height]
      exact hpos
    have hne : r.prevHash ≠ r.headerHash := by
      intro heq
      have hparent := T.height_parent r.headerHash hpos'
      rw [hrIn.parent, heq] at hparent
      omega
    have hdifficulty : (t.addBlockRecord r).difficultyOf r = .ok difficulty := by
      have hsum := hweight p hpos (by rw [← hr.prevHash, hp])
      rw [difficultyOf, BlockRecords.blockRecord_eq_ok (by rw [get_addBlockRecord, if_neg hne, hp]), ok_bind]
      refine uintN_eq_ok.mpr ⟨?_, expectedIters_lt hiters h.difficulty hslots⟩
      rw [hr.weight, hsum]
      push_cast
      ring
    obtain ⟨u, hu, hinv⟩ := @Inv.updatePeak H constants T (t.addBlockRecord r) hb r hadded peak hpeak hb' hr
      (by rw [get_addBlockRecord, if_pos rfl]) (by rw [hr.height]; exact hpos) difficulty hdifficulty (by
        rw [hashes_addBlockRecord, hr.headerHash]
        exact hkeeps peak hpeak (by rwa [← hr.weight]))
    rw [hu]
    exact ⟨hinv, noMissingKey_ok _⟩

/-! ## Weight proofs -/

variable {tip : HeaderBlock} {records : List BlockRecord}

lemma below_of_isChain {last : BlockRecord} (hchain : records.IsChain Follows) (hin : ∀ r ∈ records, RecordIn T r)
    (hlast : records.getLast? = some last) : ∀ r ∈ records, T.Below r.headerHash last.headerHash := by
  induction records with
  | nil => simp
  | cons first rest ih =>
    intro r hr
    cases rest with
    | nil =>
      obtain rfl : first = last := Option.some.inj hlast
      rw [List.mem_singleton.mp hr]
    | cons second rest =>
      obtain ⟨hfollows, hchain⟩ := List.isChain_cons_cons.mp hchain
      have hrest := ih hchain (fun r hr => hin r (List.mem_cons_of_mem _ hr)) (by rwa [List.getLast?_cons_cons] at hlast)
      rcases List.mem_cons.mp hr with rfl | hr
      · have hsecond := hin second (by simp)
        refine HashTree.Below.trans ?_ (hrest second List.mem_cons_self)
        refine .of_parent (by rw [hsecond.height, hfollows.height]; omega) ?_
        rw [hsecond.parent, hfollows.prevHash]
      · exact hrest r hr

lemma height_le_of_isChain {first : BlockRecord} (hchain : records.IsChain Follows)
    (hfirst : records.head? = some first) : ∀ r ∈ records, first.height ≤ r.height := by
  induction records generalizing first with
  | nil => simp
  | cons r rest ih =>
    obtain rfl := Option.some.inj hfirst
    intro s hs
    rcases List.mem_cons.mp hs with rfl | hs
    · exact le_rfl
    · cases rest with
      | nil => cases hs
      | cons second rest =>
        obtain ⟨hfollows, hchain⟩ := List.isChain_cons_cons.mp hchain
        have hle := ih hchain rfl s hs
        have hheight := hfollows.height
        omega

lemma linked_foldl_addRecord (hlinked : Linked T t.blockRecords) (hin : ∀ r ∈ records, RecordIn T r) :
    Linked T (records.foldl addRecord t).blockRecords := by
  induction records generalizing t with
  | nil => exact hlinked
  | cons r rest ih =>
    have hadded : Linked T (addRecord t r).blockRecords := hlinked.addBlockRecord (hin r List.mem_cons_self)
    exact ih hadded fun r hr => hin r (List.mem_cons_of_mem _ hr)

lemma hashes_foldl_addRecord (t : WalletBlockchain) (records : List BlockRecord) :
    (records.foldl addRecord t).hashes = t.hashes ∪ recordHashes records := by
  induction records generalizing t with
  | nil => simp [recordHashes]
  | cons r rest ih =>
    have hadded : (addRecord t r).hashes = insert r.headerHash t.hashes := hashes_addBlockRecord t r
    rw [List.foldl_cons, ih, hadded, recordHashes, recordHashes, List.map_cons, List.toFinset_cons,
      Finset.insert_union, Finset.union_insert]

lemma finishedSyncUpTo_foldl_addRecord (t : WalletBlockchain) (records : List BlockRecord) :
    (records.foldl addRecord t).finishedSyncUpTo = t.finishedSyncUpTo := by
  induction records generalizing t with
  | nil => rfl
  | cons r rest ih => exact ih (addRecord t r)

/-- **The heights of a proof** are those of the chain of its last block. -/
lemma heightToHash_foldl_addRecord {last : BlockRecord} (hchain : records.IsChain Follows)
    (hin : ∀ r ∈ records, RecordIn T r) (hlast : records.getLast? = some last) {first : BlockRecord}
    (hfirst : records.head? = some first) (k : ℕ) :
    (records.foldl addRecord t).heightToHash k =
      if first.height ≤ k ∧ k ≤ last.height then some (T.atHeight last.headerHash k) else t.heightToHash k := by
  induction records generalizing t first with
  | nil => cases hfirst
  | cons r rest ih =>
    obtain rfl := Option.some.inj hfirst
    have hbelow := below_of_isChain hchain hin hlast r List.mem_cons_self
    have hr := hin r List.mem_cons_self
    have hlastIn := hin last (List.mem_of_getLast? hlast)
    have hself : T.atHeight last.headerHash r.height = r.headerHash := by rw [← hr.height, hbelow.2]
    have hle : r.height ≤ last.height := by
      have hle := hbelow.1
      rwa [hr.height, hlastIn.height] at hle
    cases rest with
    | nil =>
      obtain rfl : r = last := Option.some.inj hlast
      show Function.update t.heightToHash r.height (some r.headerHash) k = _
      rw [Function.update_apply]
      by_cases hk : k = r.height
      · rw [if_pos hk, if_pos (by omega), hk, hself]
      · rw [if_neg hk, if_neg (by omega)]
    | cons second rest =>
      obtain ⟨hfollows, hchain⟩ := List.isChain_cons_cons.mp hchain
      rw [List.foldl_cons, ih hchain (fun r hr => hin r (List.mem_cons_of_mem _ hr))
        (by rwa [List.getLast?_cons_cons] at hlast) rfl, hfollows.height]
      show (if _ then _ else Function.update t.heightToHash r.height (some r.headerHash) k) = _
      rw [Function.update_apply]
      by_cases hk : k = r.height
      · rw [if_neg (by omega), if_pos hk, if_pos (by omega), hk, hself]
      · by_cases hrange : r.height + 1 ≤ k ∧ k ≤ last.height
        · rw [if_pos hrange, if_pos (by omega)]
        · rw [if_neg hrange, if_neg hk, if_neg (by omega)]

/-- **The invariant after the records of a proof were added**, with its tip as the peak.

**Proof sketch.** From the first record on, the map has the chain of the tip. Below it the map has nothing, or the block
before the first record is one of the old chain. A root below the first record is in the old cache, so that the heights
from it on were in the map. -/
lemma Inv.addRecords (h : Inv H T t) (htip : HeaderIn H T tip) (hin : ∀ r ∈ records, RecordIn T r)
    (hconnected : ProofConnected H constants T t tip records) (hne : records ≠ []) {u : WalletBlockchain}
    (hpeak : u.peak = some tip) (hmap : u.heightToHash = (records.foldl addRecord t).heightToHash)
    (hrecords : u.blockRecords = (records.foldl addRecord t).blockRecords)
    (hdifficulty : ∀ d ∈ u.difficulty, d < 2 ^ 64) : Inv H T u := by
  obtain ⟨last, hlast⟩ := Option.isSome_iff_exists.mp (List.getLast?_isSome.mpr hne)
  obtain ⟨first, hfirst⟩ := Option.ne_none_iff_exists'.mp (mt List.head?_eq_none_iff.mp hne)
  have hlastHash := hconnected.last last hlast
  have hlastIn := hin last (List.mem_of_getLast? hlast)
  have hfirstIn := hin first (List.mem_of_head? hfirst)
  have hbelow := below_of_isChain hconnected.chain hin hlast
  have htipHeight : last.height = tip.height := by rw [← hlastIn.height, hlastHash, htip.height]
  have hheights := fun k => heightToHash_foldl_addRecord (t := t) hconnected.chain hin hlast hfirst k
  have hfirstBelow := hbelow first (List.mem_of_head? hfirst)
  rw [hlastHash] at hfirstBelow
  -- a block of the old chain below the first record
  have hold : first.height ≠ 0 → t.heightToHash (first.height - 1) = some first.prevHash → ∃ peak ∈ t.peak,
      first.height - 1 ≤ peak.height ∧ first.prevHash = T.atHeight (peak.headerHash H) (first.height - 1) :=
    fun _ hentry => h.entries _ _ hentry
  refine ⟨?_, ?_, fun k x hx => ⟨tip, hpeak, ?_⟩, fun _ => ⟨tip, hpeak, ?_, ?_⟩, hdifficulty⟩
  · rw [hrecords]
    exact linked_foldl_addRecord h.linked hin
  · intro peak hsome
    rw [hpeak] at hsome
    obtain rfl := Option.some.inj hsome
    exact htip
  · rw [hmap, hheights] at hx
    split at hx
    · rename_i hk
      rw [← hlastHash, ← htipHeight]
      exact ⟨hk.2, (Option.some.inj hx).symm⟩
    · rename_i hk
      have hle := hconnected.top k x hx
      refine ⟨hle, ?_⟩
      have hlt : k < first.height := by omega
      rcases hconnected.bottom first hfirst with hnone | ⟨hpos, hentry⟩
      · rw [hnone k hlt] at hx
        cases hx
      · obtain ⟨peak, hsome, hprevLe, hprev⟩ := hold hpos hentry
        obtain ⟨peak', hsome', -, rfl⟩ := h.entries k x hx
        obtain rfl : peak' = peak := Option.some.inj (hsome'.symm.trans hsome)
        have hpeakHeight := (h.peak peak' hsome).height
        calc T.atHeight (peak'.headerHash H) k
            = T.atHeight first.prevHash k := by rw [hprev, HashTree.atHeight_atHeight (by omega) (by omega)]
          _ = T.atHeight first.headerHash k := by
              rw [← hfirstIn.parent, ← HashTree.atHeight_of_lt (by rw [hfirstIn.height]; exact hlt)]
          _ = T.atHeight (tip.headerHash H) k := by
              rw [← hfirstBelow.2, HashTree.atHeight_atHeight (by rw [hfirstIn.height]; omega) hfirstBelow.1]
  · show _ ∈ keySet u.blockRecords
    rw [hrecords]
    show _ ∈ (records.foldl addRecord t).hashes
    rw [hashes_foldl_addRecord, ← hlastHash]
    exact Finset.mem_union_right _ (List.mem_toFinset.mpr (List.mem_map_of_mem (List.mem_of_getLast? hlast)))
  · obtain ⟨root, hroot⟩ := hconnected.rooted
    refine ⟨root, ?_, fun k hk hle => ?_⟩
    · rw [hashes, hrecords]
      show T.RootedAt (records.foldl addRecord t).hashes root
      rw [hashes_foldl_addRecord]
      exact hroot
    · rw [hmap, hheights]
      split
      · exact Option.some_ne_none _
      · rename_i hrange
        have hlt : k < first.height := by omega
        -- the root is in the old cache
        have hrootMem : root ∈ t.hashes := by
          refine (Finset.mem_union.mp hroot.mem).resolve_right fun hmem => ?_
          obtain ⟨r, hr, rfl⟩ := List.mem_map.mp (List.mem_toFinset.mp hmem)
          have hge := height_le_of_isChain hconnected.chain hfirst r hr
          rw [(hin r hr).height] at hk
          omega
        obtain ⟨peak, hsome, hpeakMem, oldRoot, holdRoot, hcover⟩ := h.rooted ⟨root, hrootMem⟩
        have hlow := (holdRoot.below root hrootMem).1
        have hpeakHeight := (h.peak peak hsome).height
        refine hcover k (by omega) ?_
        rcases hconnected.bottom first hfirst with hnone | ⟨hpos, hentry⟩
        · have hroot := (holdRoot.below _ hpeakMem).1
          exact absurd (hnone _ (by omega)) (hcover (T.height oldRoot) le_rfl (by omega))
        · obtain ⟨peak', hsome', hprevLe, -⟩ := hold hpos hentry
          obtain rfl : peak' = peak := Option.some.inj (hsome'.symm.trans hsome)
          omega

/-- **A weight proof.** -/
lemma Inv.newWeightProof (h : Inv H T t) (hin : Event.InTree H T (.newWeightProof tip records))
    (hconnected : Connected H constants T t (.newWeightProof tip records)) :
    Inv H T (t.newWeightProof constants tip records).1 := by
  obtain ⟨htip, hin⟩ := hin
  rw [WalletBlockchain.newWeightProof]
  split
  · exact h
  rename_i hheavier
  have hproof : ProofConnected H constants T t tip records :=
    hconnected fun peak hpeak => lt_of_not_ge fun hle => hheavier ⟨peak, hpeak, hle⟩
  split
  swap
  · exact h
  rename_i last beforeLast rest hreverse
  have heq : records = rest.reverse ++ beforeLast :: [last] := by
    rw [← List.reverse_reverse records, hreverse]
    simp
  have hfollows : Follows beforeLast last := by
    have hchain := hproof.chain
    rw [heq] at hchain
    exact (List.isChain_append_cons_cons.mp hchain).2.1
  have hfits : uint64 ((last.weight : ℤ) - beforeLast.weight) = .ok (last.weight - beforeLast.weight) := by
    have hle := hfollows.weight_le
    have hlt := hfollows.weight_lt
    exact uintN_eq_ok.mpr ⟨by omega, by omega⟩
  rw [hfits]
  have hne : records ≠ [] := by
    rw [heq]
    simp
  refine Inv.cleanBlockRecords (h.addRecords htip hin hproof hne rfl rfl rfl ?_) ?_
  · rintro d ⟨⟩
    exact (uintN_eq_ok.mp hfits).2
  · rintro _ ⟨⟩
    have hkept := hproof.kept
    rw [← hashes_foldl_addRecord, heightLimit, ← finishedSyncUpTo_foldl_addRecord t records] at hkept
    exact hkept

/-- **The invariant is kept** by connected calls. -/
lemma Inv.perform {e : Event} (h : Inv H T t) (hin : e.InTree H T) (hconnected : Connected H constants T t e) :
    Inv H T (t.perform H V constants e) := by
  cases e with
  | receiveBlock hb now => exact (h.receiveBlock hin hconnected).1
  | newWeightProof tip records => exact h.newWeightProof hin hconnected
  | setFinishedSyncUpTo height inTransaction inRollback =>
    have hset : ∀ height : ℕ, Inv H T { t with finishedSyncUpTo := height } :=
      fun height => ⟨h.linked, h.peak, h.entries, h.rooted, h.difficulty⟩
    rw [WalletBlockchain.perform, setFinishedSyncUpTo]
    split
    · rename_i hchanged
      split
      · exact hset _
      · rename_i htransaction
        exact (hset _).cleanBlockRecords (hconnected (Bool.eq_false_iff.mpr htransaction) hchanged)
    · exact h
  | cleanBlockRecords => exact h.cleanBlockRecords hconnected

lemma inv_created {peak : Option HeaderBlock} {subSlotIters difficulty : Option ℕ} (finishedSyncUpTo : ℕ)
    (hpeak : ∀ p ∈ peak, HeaderIn H T p) (hdifficulty : ∀ d ∈ difficulty, d < 2 ^ 64) :
    Inv H T (created peak subSlotIters difficulty finishedSyncUpTo) where
  linked := fun x r hr => by cases hr
  peak := hpeak
  entries := fun h x hx => by cases hx
  rooted := fun hne => by
    obtain ⟨x, hx⟩ := hne
    obtain ⟨r, hr⟩ := mem_keySet.mp hx
    cases hr
  difficulty := hdifficulty

/-- **The height map describes the peak's chain.** In every run of the methods in which new blocks and weight proofs
connect to what is there, the entries of the height map are hashes of ancestors of the peak at their heights, and no
block is received with a missing key in the search for the fork or in the rollback. -/
theorem run_describesPeak (H : Hashes) (V : Verifiers) (constants : ConsensusConstants) (T : HashTree Bytes32)
    {peak : Option HeaderBlock} {subSlotIters difficulty : Option ℕ} {finishedSyncUpTo : ℕ} {events : List Event}
    (hpeak : ∀ p ∈ peak, HeaderIn H T p) (hdifficulty : ∀ d ∈ difficulty, d < 2 ^ 64)
    (hconnected : Transition.Along (fun t e => some (perform H V constants t e))
      (fun t e => e.InTree H T ∧ Connected H constants T t e)
      (created peak subSlotIters difficulty finishedSyncUpTo) events)
    (h : Transition.run (fun t e => some (perform H V constants t e))
      (created peak subSlotIters difficulty finishedSyncUpTo) events = some t) :
    DescribesPeak H T t ∧ ∀ hb now, Event.InTree H T (.receiveBlock hb now) →
      Connected H constants T t (.receiveBlock hb now) → NoMissingKey (t.receiveBlock H V constants hb now).2 := by
  have hinv : Inv H T t := by
    refine @Transition.invariant_along _ _ _ _ (Inv H T) _ (inv_created finishedSyncUpTo hpeak hdifficulty) ?_ _
      hconnected _ h
    rintro t e u ⟨hin, hconnected⟩ hinv hu
    obtain rfl := Option.some.inj hu
    exact hinv.perform hin hconnected
  exact ⟨hinv.describesPeak, fun hb now hin hconnected => (hinv.receiveBlock hin hconnected).2⟩

/-! ## Two branches -/

/-- The number that a hash stands for. -/
def hashNumber (x : Bytes32) : ℕ := BigEndian.ofBytes x.bytes

lemma hashNumber_ofNat {n : ℕ} (h : n < 256 ^ 32) : hashNumber (.ofNat n) = n := BigEndian.ofBytes_toBytes h

/-- Two branches from genesis, which has the number 1: the odd numbers and the even ones. -/
def twoBranches : HashTree Bytes32 where
  parent := fun x => if hashNumber x = 1 then defaultConstants.GENESIS_CHALLENGE
    else if hashNumber x = 2 then .ofNat 1 else .ofNat (hashNumber x - 2)
  height := fun x => hashNumber x / 2
  height_parent := fun x hx => by
    have hlt : hashNumber x < 256 ^ 32 := by
      have hlt := BigEndian.ofBytes_lt x.bytes
      rwa [x.length_eq] at hlt
    rw [if_neg (by omega)]
    by_cases htwo : hashNumber x = 2
    · rw [if_pos htwo, hashNumber_ofNat (by norm_num), htwo]
    · rw [if_neg htwo, hashNumber_ofNat (by omega)]
      omega

/-- The header of the genesis block. -/
def genesisHeader : HeaderBlock where
  finishedSubSlots := genesisBlock.finishedSubSlots
  rewardChainBlock := genesisBlock.rewardChainBlock
  challengeChainSpProof := genesisBlock.challengeChainSpProof
  challengeChainIpProof := genesisBlock.challengeChainIpProof
  rewardChainSpProof := genesisBlock.rewardChainSpProof
  rewardChainIpProof := genesisBlock.rewardChainIpProof
  infusedChallengeChainIpProof := genesisBlock.infusedChallengeChainIpProof
  foliage := genesisBlock.foliage
  foliageTransactionBlock := genesisBlock.foliageTransactionBlock
  transactionsFilter := []
  transactionsInfo := genesisBlock.transactionsInfo

/-- A valid header in the first sub-slot, which has no transactions. -/
def branchHeader (height weight prev hash : ℕ) : HeaderBlock :=
  let challenge := defaultConstants.GENESIS_CHALLENGE
  let interval := defaultConstants.SUB_SLOT_ITERS_STARTING / defaultConstants.NUM_SPS_SUB_SLOT
  let spVdf : VDFInfo := ⟨challenge, height * interval, defaultElement⟩
  let ipVdf : VDFInfo := ⟨challenge, (height + 3) * interval + 1, defaultElement⟩
  let infusionVdf : VDFInfo := ⟨Bytes32.zero, interval, defaultElement⟩
  let proof : VDFProof := ⟨0, [], false⟩
  { finishedSubSlots := []
    rewardChainBlock := ⟨weight, height, (height + 3) * interval + 1, height, challenge,
      ⟨Bytes32.zero, none, some Bytes32.zero, [], 29, []⟩, some spVdf, [], ipVdf, some spVdf, [], infusionVdf,
      some infusionVdf, false⟩
    challengeChainSpProof := some proof
    challengeChainIpProof := proof
    rewardChainSpProof := some proof
    rewardChainIpProof := proof
    infusedChallengeChainIpProof := some proof
    foliage := ⟨.ofNat prev, Bytes32.zero, ⟨Bytes32.zero, ⟨Bytes32.zero, 0⟩, none, Bytes32.zero,
      communityPuzzleHash defaultConstants height, .ofNat hash⟩, [], none, none⟩
    foliageTransactionBlock := none
    transactionsFilter := []
    transactionsInfo := none }

/-- The next header of a branch, after the genesis block for the first ones. -/
def nextHeader (hash : ℕ) : HeaderBlock :=
  branchHeader (hash / 2) (7 * (hash / 2 + 1)) (if hash = 2 then 1 else hash - 2) hash

/-- The wallet at first. -/
def emptyWallet : WalletBlockchain := created none (some defaultConstants.SUB_SLOT_ITERS_STARTING)
  (some defaultConstants.DIFFICULTY_STARTING) 0

/-- Genesis and a block of each branch, and a second one of the even branch, which becomes the peak. -/
def otherBranch : List Event :=
  [.receiveBlock genesisHeader 0, .receiveBlock (nextHeader 3) 0, .receiveBlock (nextHeader 2) 0,
    .receiveBlock (nextHeader 4) 0]

lemma connected_of_card {H : Hashes} {constants : ConsensusConstants} {T : HashTree Bytes32} {t : WalletBlockchain}
    {hb : HeaderBlock} (now : ℕ) (hcard : t.hashes.card + 1 < cacheSize constants)
    (hfirst : hb.height = 0 → t.peak = none) : Connected H constants T t (.receiveBlock hb now) := by
  refine fun _ => ⟨hfirst, fun peak _ _ => .inl ?_⟩
  have hle := Finset.card_insert_le (hb.headerHash H) t.hashes
  omega

lemma headerIn_genesisHeader : HeaderIn markedHashes twoBranches genesisHeader :=
  ⟨by decide +kernel, by decide +kernel⟩

lemma headerIn_branchHeader (weight : ℕ) {hash : ℕ} (hpos : 1 < hash) (hhash : hash < 256 ^ 32) :
    HeaderIn markedHashes twoBranches
      (branchHeader (hash / 2) weight (if hash = 2 then 1 else hash - 2) hash) := by
  have hnumber : hashNumber (.ofNat hash) = hash := hashNumber_ofNat hhash
  have hself : (branchHeader (hash / 2) weight (if hash = 2 then 1 else hash - 2) hash).headerHash markedHashes =
      .ofNat hash := rfl
  have hprev : (branchHeader (hash / 2) weight (if hash = 2 then 1 else hash - 2) hash).prevHeaderHash =
      .ofNat (if hash = 2 then 1 else hash - 2) := rfl
  have hheight : (branchHeader (hash / 2) weight (if hash = 2 then 1 else hash - 2) hash).height = hash / 2 := rfl
  constructor
  · rw [hself, hprev, twoBranches]
    dsimp only
    rw [hnumber, if_neg (by omega)]
    split <;> rfl
  · rw [hself, hheight]
    show hashNumber (.ofNat hash) / 2 = hash / 2
    rw [hnumber]

lemma inTree_nextHeader {hash : ℕ} (hpos : 1 < hash) (hhash : hash < 256 ^ 32) :
    Event.InTree markedHashes twoBranches (.receiveBlock (nextHeader hash) 0) :=
  ⟨headerIn_branchHeader _ hpos hhash, fun slot hslot => by cases hslot⟩

/-- The wallet at the end of the run. -/
def otherBranchWallet : WalletBlockchain :=
  otherBranch.foldl (perform markedHashes acceptingTools.V defaultConstants) emptyWallet

lemma along_otherBranch : Transition.Along
    (fun t e => some (perform markedHashes acceptingTools.V defaultConstants t e))
    (fun t e => e.InTree markedHashes twoBranches ∧ Connected markedHashes defaultConstants twoBranches t e)
    emptyWallet otherBranch := by
  have hcard : ∀ k < 4, ((otherBranch.take k).foldl (perform markedHashes acceptingTools.V defaultConstants)
      emptyWallet).hashes.card + 1 < cacheSize defaultConstants := by
    decide +kernel
  refine ⟨⟨⟨headerIn_genesisHeader, fun slot hslot => by cases hslot⟩,
    connected_of_card 0 (hcard 0 (by decide)) fun _ => rfl⟩, ?_⟩
  rintro _ ⟨⟩
  refine ⟨⟨inTree_nextHeader (by decide) (by norm_num), connected_of_card 0 (hcard 1 (by decide))
    fun h => absurd h (by decide)⟩, ?_⟩
  rintro _ ⟨⟩
  refine ⟨⟨inTree_nextHeader (by decide) (by norm_num), connected_of_card 0 (hcard 2 (by decide))
    fun h => absurd h (by decide)⟩, ?_⟩
  rintro _ ⟨⟩
  refine ⟨⟨inTree_nextHeader (by decide) (by norm_num), connected_of_card 0 (hcard 3 (by decide))
    fun h => absurd h (by decide)⟩, ?_⟩
  rintro _ ⟨⟩
  trivial

theorem run_describesPeak_otherBranch : otherBranchWallet.heightToHash 1 = some (.ofNat 2) ∧
    DescribesPeak markedHashes twoBranches otherBranchWallet := by
  have hpeak : ∀ p ∈ (none : Option HeaderBlock), HeaderIn markedHashes twoBranches p := fun p hp => by cases hp
  have hdifficulty : ∀ d ∈ some defaultConstants.DIFFICULTY_STARTING, d < 2 ^ 64 := by decide
  have hrun : Transition.run (fun t e => some (perform markedHashes acceptingTools.V defaultConstants t e))
      emptyWallet otherBranch = some otherBranchWallet := rfl
  exact ⟨by decide +kernel, (run_describesPeak markedHashes acceptingTools.V defaultConstants twoBranches hpeak
    hdifficulty along_otherBranch hrun).1⟩

/-- A header of a branch with a given weight. -/
def heavyHeader (hash weight : ℕ) : HeaderBlock :=
  branchHeader (hash / 2) weight (if hash = 2 then 1 else hash - 2) hash

/-- The record of such a header. -/
def heavyRecord (hash weight : ℕ) : BlockRecord :=
  headerBlockToSubBlockRecord markedHashes defaultConstants 1 (heavyHeader hash weight).asFullBlock
    defaultConstants.SUB_SLOT_ITERS_STARTING false 0 0 none

/-- A weight proof of the odd branch, and a heavier one of the even branch, whose peak is lower. -/
def lowerProof : List Event :=
  [.newWeightProof (heavyHeader 7 28) [heavyRecord 3 14, heavyRecord 5 21, heavyRecord 7 28],
    .newWeightProof (heavyHeader 4 40) [heavyRecord 2 30, heavyRecord 4 40]]

lemma recordIn_heavyRecord (weight : ℕ) {hash : ℕ} (hpos : 1 < hash) (hhash : hash < 256 ^ 32) :
    RecordIn twoBranches (heavyRecord hash weight) := by
  have hrecord : RecordOf markedHashes (heavyHeader hash weight) (heavyRecord hash weight) := ⟨rfl, rfl, rfl, rfl⟩
  exact hrecord.recordIn (headerIn_branchHeader weight hpos hhash)

lemma follows_heavyRecord {hash weight next : ℕ} (hpos : 1 < hash) (hle : weight ≤ next)
    (hlt : next < weight + 2 ^ 64) : Follows (heavyRecord hash weight) (heavyRecord (hash + 2) next) where
  prevHash := by
    show Bytes32.ofNat (if hash + 2 = 2 then 1 else hash + 2 - 2) = .ofNat hash
    rw [if_neg (by omega), Nat.add_sub_cancel]
  height := by
    show (hash + 2) / 2 = hash / 2 + 1
    omega
  weight_le := hle
  weight_lt := hlt

lemma inTree_lowerProof : ∀ e ∈ lowerProof, e.InTree markedHashes twoBranches ∧ e.OfChain markedHashes := by
  intro e he
  rw [lowerProof, List.mem_cons, List.mem_singleton] at he
  rcases he with rfl | rfl
  · refine ⟨⟨headerIn_branchHeader 28 (by decide) (by norm_num), ?_⟩, ?_, ?_⟩
    · intro r hr
      simp only [List.mem_cons, List.not_mem_nil, or_false] at hr
      rcases hr with rfl | rfl | rfl
      · exact recordIn_heavyRecord 14 (by decide) (by norm_num)
      · exact recordIn_heavyRecord 21 (by decide) (by norm_num)
      · exact recordIn_heavyRecord 28 (by decide) (by norm_num)
    · refine List.isChain_cons_cons.mpr ⟨follows_heavyRecord (by decide) (by decide) (by decide), ?_⟩
      exact List.isChain_cons_cons.mpr ⟨follows_heavyRecord (by decide) (by decide) (by decide),
        List.isChain_singleton _⟩
    · rintro _ ⟨⟩
      rfl
  · refine ⟨⟨headerIn_branchHeader 40 (by decide) (by norm_num), ?_⟩, ?_, ?_⟩
    · intro r hr
      simp only [List.mem_cons, List.not_mem_nil, or_false] at hr
      rcases hr with rfl | rfl
      · exact recordIn_heavyRecord 30 (by decide) (by norm_num)
      · exact recordIn_heavyRecord 40 (by decide) (by norm_num)
    · exact List.isChain_cons_cons.mpr ⟨follows_heavyRecord (by decide) (by decide) (by decide),
        List.isChain_singleton _⟩
    · rintro _ ⟨⟩
      rfl

/-- **Not every run**: the height map keeps an entry above the peak of a heavier, lower proof. -/
theorem not_describesPeak_lowerProof :
    ¬ ∀ (H : Hashes) (V : Verifiers) (constants : ConsensusConstants) (T : HashTree Bytes32) (events : List Event)
      (t : WalletBlockchain), (∀ e ∈ events, e.InTree H T ∧ e.OfChain H) →
      Transition.run (fun t e => some (perform H V constants t e))
        (created none (some constants.SUB_SLOT_ITERS_STARTING) (some constants.DIFFICULTY_STARTING) 0) events =
        some t → DescribesPeak H T t := by
  intro h
  have hdescribes := h markedHashes acceptingTools.V defaultConstants twoBranches lowerProof _ inTree_lowerProof rfl
  have hsample : (lowerProof.foldl (perform markedHashes acceptingTools.V defaultConstants) emptyWallet).heightToHash
      3 = some (.ofNat 7) ∧
      (lowerProof.foldl (perform markedHashes acceptingTools.V defaultConstants) emptyWallet).peak.map
        HeaderBlock.height = some 2 := by
    decide +kernel
  obtain ⟨hentry, hpeak⟩ := hsample
  obtain ⟨peak, hsome, hle, -⟩ := hdescribes 3 _ hentry
  have hsome : (lowerProof.foldl (perform markedHashes acceptingTools.V defaultConstants) emptyWallet).peak =
      some peak := hsome
  rw [hsome] at hpeak
  have hheight : peak.height = 2 := Option.some.inj hpeak
  omega

end WalletBlockchain

end Chives
