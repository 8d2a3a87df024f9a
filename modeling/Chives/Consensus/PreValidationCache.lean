import Chives.Consensus.MultiprocessValidation

set_option autoImplicit false

/-!
# The cache after pre-validation

`pre_validate_blocks_multiprocessing` adds the records of the batch to the shared cache one by one
and removes them at the end. This module says which records are left.

## Main definitions

* `SameRecords` — two caches with the same records.
* `ExtendedBy` — a cache with records of some further blocks.
* `LeavesRecords` — the pass stops at a block without removing the records it added.

## Main results

* `prePass_extendedBy` — what the pass adds.
* `cache_restored_iff` — the cache is left as it was exactly when the pass leaves no records.
* `cache_keeps_record` — a batch that leaves a record behind.
-/

namespace Chives

open ExceptRun

/-- Two caches have the same records. -/
def SameRecords (a b : BlockRecords) : Prop := ∀ h, a.get h = b.get h

/-- `cache` has the records of `before`, and a record for each of the hashes. -/
structure ExtendedBy (before : BlockRecords) (hashes : List Bytes32) (cache : BlockRecords) :
    Prop where
  old : ∀ h, before.get h ≠ none → cache.get h = before.get h
  new : ∀ h, before.get h = none → (cache.get h ≠ none ↔ h ∈ hashes)

lemma get_set (blocks : BlockRecords) (k : Bytes32) (r : BlockRecord) (h : Bytes32) :
    BlockRecords.get (blocks.set k r) h = if h = k then some r else blocks.get h :=
  Dict.lookup_set blocks k r h

lemma get_erase (blocks : BlockRecords) (k h : Bytes32) :
    BlockRecords.get (blocks.erase k) h = if h = k then none else blocks.get h :=
  Dict.lookup_erase_eq blocks k h

namespace ExtendedBy

variable {before cache : BlockRecords} {hashes : List Bytes32}

lemma refl (before : BlockRecords) : ExtendedBy before [] before where
  old _ _ := rfl
  new h hh := by simp [hh]

section

variable (hext : ExtendedBy before hashes cache)

include hext

lemma set (r : BlockRecord) :
    ExtendedBy before (hashes ++ [r.headerHash])
      (if (cache.get r.headerHash).isNone then cache.set r.headerHash r else cache) := by
  by_cases hnone : (cache.get r.headerHash).isNone
  · rw [if_pos hnone]
    rw [Option.isNone_iff_eq_none] at hnone
    refine ⟨?_, ?_⟩
    · intro h hh
      have hne : h ≠ r.headerHash := by
        rintro rfl
        rw [← hext.old _ hh, hnone] at hh
        exact hh rfl
      rw [get_set, if_neg hne, hext.old h hh]
    · intro h hh
      rw [get_set, List.mem_append, List.mem_singleton]
      by_cases he : h = r.headerHash
      · simp [he]
      · simp [he, hext.new h hh]
  · rw [if_neg hnone]
    rw [Option.isNone_iff_eq_none] at hnone
    refine ⟨hext.old, ?_⟩
    intro h hh
    rw [List.mem_append, List.mem_singleton, hext.new h hh]
    constructor
    · exact Or.inl
    · rintro (hmem | rfl)
      · exact hmem
      · exact (hext.new _ hh).mp hnone

lemma sameRecords (hall : ∀ h ∈ hashes, before.get h ≠ none) : SameRecords cache before := by
  intro h
  by_cases hh : before.get h = none
  · rw [hh]
    by_contra hne
    exact hall h ((hext.new h hh).mp hne) hh
  · exact hext.old h hh

lemma not_sameRecords {h : Bytes32} (hmem : h ∈ hashes) (hh : before.get h = none) : ¬SameRecords cache before := by
  intro hsame
  have hne := (hext.new h hh).mpr hmem
  rw [hsame h] at hne
  exact hne hh

end

end ExtendedBy

/-! ## The pass -/

section Pass

variable {T : PreValidationTools} {constants : ConsensusConstants}
  {heightToHash : ℕ → Option Bytes32} {wpSummaries : Option (List SubEpochSummary)}
  {s s' : PrePassState} {block : FullBlock} {blocks : List FullBlock}

lemma recordOfBatchBlock_headerHash {r : BlockRecord} {difficulty subSlotIters : ℕ}
    (h : recordOfBatchBlock T constants heightToHash wpSummaries s block =
      .ok (r, difficulty, subSlotIters)) : r.headerHash = block.headerHash T.H := by
  simp only [recordOfBatchBlock] at h
  obtain ⟨prevB, -, h⟩ := bind_eq_ok.mp h
  obtain ⟨⟨ssi, diff⟩, -, h⟩ := bind_eq_ok.mp h
  obtain ⟨⟨challenge, ccSpHash⟩, -, h⟩ := bind_eq_ok.mp h
  split at h
  · cases h
  · obtain ⟨requiredIters, -, h⟩ := bind_eq_ok.mp h
    obtain ⟨r', hrec, h⟩ := bind_eq_ok.mp h
    obtain ⟨ok, -, h⟩ := bind_eq_ok.mp h
    split at h
    · obtain ⟨rfl, -⟩ := Prod.mk.inj (Except.ok.inj h)
      obtain ⟨-, -, -, -, -, -, -, rfl⟩ := blockToBlockRecord_eq_ok (mapError_eq_ok.mp hrec)
      rfl
    · cases h

variable {before : BlockRecords} {hashes : List Bytes32}

lemma prePassStep_extendedBy (h : prePassStep T constants heightToHash wpSummaries s block = .ok s')
    (hext : ExtendedBy before hashes s.cache) : ExtendedBy before (hashes ++ [block.headerHash T.H]) s'.cache := by
  simp only [prePassStep] at h
  obtain ⟨⟨r, difficulty, subSlotIters⟩, hrec, h⟩ := bind_eq_ok.mp h
  obtain rfl := Except.ok.inj h
  rw [← recordOfBatchBlock_headerHash hrec]
  exact hext.set r

lemma prePass_extendedBy (h : prePass T constants heightToHash wpSummaries s blocks = (s', none))
    (hext : ExtendedBy before hashes s.cache) :
    ExtendedBy before (hashes ++ blocks.map (FullBlock.headerHash T.H)) s'.cache := by
  induction blocks generalizing s hashes with
  | nil =>
    obtain rfl := (Prod.mk.inj h).1
    simpa using hext
  | cons block blocks ih =>
    rw [prePass] at h
    split at h
    · rename_i s₁ hstep
      have hext₁ := prePassStep_extendedBy hstep hext
      have := ih h hext₁
      rwa [List.append_assoc, List.singleton_append] at this
    · cases (Prod.mk.inj h).2

/-- The pass stops at a block when it gets through the blocks before and its round for the block
fails. -/
lemma prePass_eq_stop {stop : PrePassStop} :
    prePass T constants heightToHash wpSummaries s blocks = (s', some stop) ↔
      ∃ k b, blocks[k]? = some b ∧
        prePass T constants heightToHash wpSummaries s (blocks.take k) = (s', none) ∧
        prePassStep T constants heightToHash wpSummaries s' b = .error stop := by
  induction blocks generalizing s with
  | nil => simp [prePass]
  | cons block blocks ih =>
    rw [prePass]
    split
    · rename_i s₁ hstep
      rw [ih]
      constructor
      · rintro ⟨k, b, hb, hrun, hstop⟩
        refine ⟨k + 1, b, hb, ?_, hstop⟩
        rw [List.take_succ_cons, prePass, hstep]
        exact hrun
      · rintro ⟨k, b, hb, hrun, hstop⟩
        cases k with
        | zero =>
          obtain rfl : block = b := by simpa using hb
          obtain rfl := (Prod.mk.inj hrun).1
          rw [hstep] at hstop
          cases hstop
        | succ k =>
          rw [List.take_succ_cons, prePass, hstep] at hrun
          exact ⟨k, b, hb, hrun, hstop⟩
    · rename_i stop' hstep
      constructor
      · intro h
        obtain ⟨rfl, hstop⟩ := Prod.mk.inj h
        obtain rfl := Option.some.inj hstop
        exact ⟨0, block, rfl, rfl, hstep⟩
      · rintro ⟨k, b, hb, hrun, hstop⟩
        cases k with
        | zero =>
          obtain rfl : block = b := by simpa using hb
          obtain rfl := (Prod.mk.inj hrun).1
          obtain rfl := Except.error.inj (hstep.symm.trans hstop)
          rfl
        | succ k =>
          rw [List.take_succ_cons, prePass, hstep] at hrun
          cases (Prod.mk.inj hrun).2

end Pass

/-! ## Removing the records -/

section Remove

variable {H : Hashes} {before cache : BlockRecords}

/-- What `removeAdded` leaves. -/
lemma get_removeAdded (blocks : List FullBlock) (h : Bytes32) :
    (removeAdded H before cache blocks).get h =
      if before.get h = none ∧ h ∈ blocks.map (FullBlock.headerHash H) then none
      else cache.get h := by
  induction blocks generalizing cache with
  | nil => simp [removeAdded]
  | cons b blocks ih =>
    have hstep : removeAdded H before cache (b :: blocks) =
        removeAdded H before (if (before.get (b.headerHash H)).isNone then
          cache.erase (b.headerHash H) else cache) blocks := rfl
    rw [hstep, ih]
    simp only [List.map_cons, List.mem_cons]
    by_cases hb : before.get (b.headerHash H) = none
    · rw [if_pos (Option.isNone_iff_eq_none.mpr hb), get_erase]
      by_cases he : h = b.headerHash H
      · simp [he, hb]
      · simp [he]
    · rw [if_neg (fun hn => hb (Option.isNone_iff_eq_none.mp hn))]
      by_cases he : h = b.headerHash H
      · simp [he, hb]
      · simp [he]

variable {blocks : List FullBlock}

/-- After `removeAdded` the cache is as before. -/
lemma sameRecords_removeAdded {hashes : List Bytes32} (hext : ExtendedBy before hashes cache)
    (hsub : hashes ⊆ blocks.map (FullBlock.headerHash H)) :
    SameRecords (removeAdded H before cache blocks) before := by
  intro h
  rw [get_removeAdded]
  by_cases hh : before.get h = none
  · split
    · exact hh.symm
    · rename_i hcond
      have hnone : cache.get h = none := by
        by_contra hne
        exact hcond ⟨hh, hsub ((hext.new h hh).mp hne)⟩
      exact hnone.trans hh.symm
  · rw [if_neg fun hcond => hh hcond.1, hext.old h hh]

/-- With distinct hashes that are all in the cache, `removeAll` removes what `removeAdded` does, and
does not raise. -/
lemma removeAll_eq (hnodup : (blocks.map (FullBlock.headerHash H)).Nodup)
    (hall : ∀ b ∈ blocks, cache.get (b.headerHash H) ≠ none) :
    removeAll H before cache blocks = (removeAdded H before cache blocks, .ok ()) := by
  induction blocks generalizing cache with
  | nil => rfl
  | cons b blocks ih =>
    rw [List.map_cons, List.nodup_cons] at hnodup
    have hb := hall b List.mem_cons_self
    have hrest : ∀ b' ∈ blocks, cache.get (b'.headerHash H) ≠ none :=
      fun b' hb' => hall b' (List.mem_cons_of_mem b hb')
    rw [removeAll]
    by_cases hnone : (before.get (b.headerHash H)).isNone
    · rw [if_pos hnone, if_neg (fun hn => hb (Option.isNone_iff_eq_none.mp hn)), ih hnodup.2]
      · simp only [removeAdded, List.foldl_cons, hnone, if_true]
      · intro b' hb'
        rw [get_erase, if_neg]
        · exact hrest b' hb'
        · rintro he
          exact hnodup.1 (he ▸ List.mem_map_of_mem hb')
    · rw [if_neg hnone, ih hnodup.2 hrest]
      simp only [removeAdded, List.foldl_cons, hnone, if_false, Bool.false_eq_true]

end Remove

/-! ## The call -/

section Call

variable {T : PreValidationTools} {constants : ConsensusConstants}
  {heightToHash : ℕ → Option Bytes32} {wpSummaries : Option (List SubEpochSummary)}
  {cache : BlockRecords} {blocks : List FullBlock} {checkFilter : Bool}
  {npcResults : ℕ → Option NPCResult} {batchSize : ℕ} {validateSignatures : Bool}

/-- The pass over the batch stops at a block, and not with an invalid proof of space, after it added
the record of an earlier block. -/
def LeavesRecords (T : PreValidationTools) (constants : ConsensusConstants)
    (heightToHash : ℕ → Option Bytes32) (wpSummaries : Option (List SubEpochSummary))
    (cache : BlockRecords) (blocks : List FullBlock) : Prop :=
  ∃ first recent compressed, blocks.head? = some first ∧
    windowOfBatch constants cache first = .ok (some (recent, compressed)) ∧
    ∃ k b s stop, blocks[k]? = some b ∧
      prePass T constants heightToHash wpSummaries ⟨cache, recent, compressed, none, []⟩
        (blocks.take k) = (s, none) ∧
      prePassStep T constants heightToHash wpSummaries s b = .error stop ∧
      stop ≠ .invalidPospace ∧
      ∃ earlier ∈ blocks.take k, cache.get (earlier.headerHash T.H) = none

variable {s : PrePassState}

lemma extendedBy_of_stop {s' : PrePassState} {stop : PrePassStop}
    (h : prePass T constants heightToHash wpSummaries s blocks = (s', some stop)) :
    ∃ k b, blocks[k]? = some b ∧
      prePass T constants heightToHash wpSummaries s (blocks.take k) = (s', none) ∧
      prePassStep T constants heightToHash wpSummaries s' b = .error stop ∧
      ExtendedBy s.cache ((blocks.take k).map (FullBlock.headerHash T.H)) s'.cache := by
  obtain ⟨k, b, hb, hrun, hstop⟩ := prePass_eq_stop.mp h
  exact ⟨k, b, hb, hrun, hstop, prePass_extendedBy hrun (ExtendedBy.refl s.cache)⟩

variable {first : FullBlock} {compressed : BlockRecords}

section

variable (hfirst : blocks.head? = some first)

include hfirst

lemma sameRecords_of_stop {recent : BlockRecords} {stop : PrePassStop}
    (hwindow : windowOfBatch constants cache first = .ok (some (recent, compressed)))
    (h : prePass T constants heightToHash wpSummaries ⟨cache, recent, compressed, none, []⟩ blocks = (s, some stop))
    (hne : stop ≠ .invalidPospace) :
    SameRecords s.cache cache ↔
      ¬LeavesRecords T constants heightToHash wpSummaries cache blocks := by
  obtain ⟨k, b, hb, hrun, hstop, hext⟩ := extendedBy_of_stop h
  constructor
  · rintro hsame ⟨first', recent', compressed', hfirst', hwindow', k', b', s', stop', hb', hrun',
      hstop', -, earlier, hearlier, hnone⟩
    obtain rfl := Option.some.inj (hfirst.symm.trans hfirst')
    obtain ⟨rfl, rfl⟩ := Prod.mk.inj (Option.some.inj (Except.ok.inj (hwindow.symm.trans hwindow')))
    have heq := h.symm.trans (prePass_eq_stop.mpr ⟨k', b', hb', hrun', hstop'⟩)
    obtain rfl := (Prod.mk.inj heq).1
    have hext' := prePass_extendedBy hrun' (ExtendedBy.refl cache)
    exact hext'.not_sameRecords (List.mem_map_of_mem hearlier) hnone hsame
  · intro hno
    apply hext.sameRecords
    intro hash hmem hnone
    obtain ⟨earlier, hearlier, rfl⟩ := List.mem_map.mp hmem
    exact hno ⟨first, recent, compressed, hfirst, hwindow, k, b, s, stop, hb, hrun, hstop, hne,
      earlier, hearlier, hnone⟩

lemma not_leavesRecords {recent : BlockRecords} {stop : Option PrePassStop}
    (hwindow : windowOfBatch constants cache first = .ok (some (recent, compressed)))
    (h : prePass T constants heightToHash wpSummaries ⟨cache, recent, compressed, none, []⟩ blocks = (s, stop))
    (hstop : stop = none ∨ stop = some .invalidPospace) :
    ¬LeavesRecords T constants heightToHash wpSummaries cache blocks := by
  rintro ⟨first', recent', compressed', hfirst', hwindow', k', b', s', stop', hb', hrun', hstop', hne,
    -⟩
  obtain rfl := Option.some.inj (hfirst.symm.trans hfirst')
  obtain ⟨rfl, rfl⟩ := Prod.mk.inj (Option.some.inj (Except.ok.inj (hwindow.symm.trans hwindow')))
  have heq := h.symm.trans (prePass_eq_stop.mpr ⟨k', b', hb', hrun', hstop'⟩)
  obtain ⟨-, rfl⟩ := Prod.mk.inj heq
  rcases hstop with hnone | hsome
  · cases hnone
  · exact hne (Option.some.inj hsome)

lemma not_leavesRecords_of_window (hwindow : ∀ w, windowOfBatch constants cache first ≠ .ok (some w)) :
    ¬LeavesRecords T constants heightToHash wpSummaries cache blocks := by
  rintro ⟨first', recent, compressed, hfirst', hwindow', -⟩
  obtain rfl := Option.some.inj (hfirst.symm.trans hfirst')
  exact hwindow _ hwindow'

end

/-- **When pre-validation restores the cache.** For every cache and every batch of blocks with
different hashes, however the call ends, the cache holds the same records after the call as before
if and only if the pass over the batch does not stop, other than with an invalid proof of space,
after it added a record. -/
theorem cache_restored_iff (hnodup : (blocks.map (FullBlock.headerHash T.H)).Nodup) :
    SameRecords (preValidateBlocksMultiprocessing T constants heightToHash cache blocks checkFilter
      npcResults batchSize wpSummaries validateSignatures).1 cache ↔
    ¬LeavesRecords T constants heightToHash wpSummaries cache blocks := by
  cases blocks with
  | nil =>
    refine iff_of_true (fun _ => rfl) ?_
    rintro ⟨first, -, -, hfirst, -⟩
    cases hfirst
  | cons first rest =>
    simp only [preValidateBlocksMultiprocessing]
    have hfirst : (first :: rest).head? = some first := rfl
    split
    · rename_i e hwindow
      refine iff_of_true (fun _ => rfl) (not_leavesRecords_of_window hfirst ?_)
      simp [hwindow]
    · rename_i hwindow
      refine iff_of_true (fun _ => rfl) (not_leavesRecords_of_window hfirst ?_)
      simp [hwindow]
    · rename_i recent compressed hwindow
      split
      · rename_i s e hpass
        exact sameRecords_of_stop hfirst hwindow hpass (by simp)
      · rename_i s hpass
        exact sameRecords_of_stop hfirst hwindow hpass (by simp)
      · rename_i s hpass
        refine iff_of_true ?_ (not_leavesRecords hfirst hwindow hpass (.inr rfl))
        obtain ⟨k, b, -, -, -, hext⟩ := extendedBy_of_stop hpass
        apply sameRecords_removeAdded hext
        exact List.map_subset _ (List.take_subset k _)
      · rename_i s hpass
        have hext := prePass_extendedBy hpass (ExtendedBy.refl cache)
        rw [List.nil_append] at hext
        have hall : ∀ b ∈ first :: rest, s.cache.get (b.headerHash T.H) ≠ none := by
          intro b hb
          by_cases hnone : cache.get (b.headerHash T.H) = none
          · exact (hext.new _ hnone).mpr (List.mem_map_of_mem hb)
          · have hold : s.cache.get (b.headerHash T.H) = cache.get (b.headerHash T.H) :=
              hext.old _ hnone
            rw [hold]
            exact hnone
        rw [removeAll_eq hnodup hall]
        exact iff_of_true (sameRecords_removeAdded hext (List.Subset.refl _))
          (not_leavesRecords hfirst hwindow hpass (.inl rfl))

end Call

/-! ## Samples -/

/-- A hash for the samples. -/
def zeroHash {α : Type} (_ : α) : Bytes32 := Bytes32.zero

/-- Hash functions for the samples: a block is known by its extension data. -/
def markedHashes : Hashes where
  challengeBlockInfo := zeroHash
  challengeChainSubSlot := zeroHash
  infusedChallengeChainSubSlot := zeroHash
  rewardChainSubSlot := zeroHash
  subEpochSummary := zeroHash
  rewardChainBlock := zeroHash
  rewardChainBlockUnfinished := zeroHash
  transactionsInfo := zeroHash
  foliageTransactionBlock := zeroHash
  foliageBlockData := zeroHash
  foliage f := f.foliageBlockData.extensionData
  vdfOutput := zeroHash
  coinName := zeroHash
  stdHash := zeroHash

/-- Tools for which every proof and every signature is valid. -/
def acceptingTools : PreValidationTools where
  H := markedHashes
  V := ⟨fun _ _ _ _ => some Bytes32.zero, fun _ _ _ _ _ => true, fun _ _ _ => true,
    fun _ _ _ => true⟩
  runGenerator _ _ _ := ⟨none, none, 0⟩
  encodedFilter _ := []
  getBlockGenerator _ _ := .ok none
  now := 0

/-- A block without transactions, with the given hash and signage point index. -/
def emptyBlock (height : ℕ) (prev hash : Bytes32) (signagePointIndex : ℕ) : FullBlock where
  finishedSubSlots := []
  rewardChainBlock :=
    ⟨7 * (height + 1), height, 6291457 * (height + 1), signagePointIndex, Bytes32.zero,
      ⟨Bytes32.zero, none, some Bytes32.zero, [], 29, []⟩, none, [],
      ⟨Bytes32.zero, 1, defaultElement⟩, none, [], ⟨Bytes32.zero, 1, defaultElement⟩, none, false⟩
  challengeChainSpProof := none
  challengeChainIpProof := ⟨0, [], false⟩
  rewardChainSpProof := none
  rewardChainIpProof := ⟨0, [], false⟩
  infusedChallengeChainIpProof := none
  foliage := ⟨prev, Bytes32.zero, ⟨Bytes32.zero, ⟨Bytes32.zero, 0⟩, none, Bytes32.zero,
    Bytes32.zero, hash⟩, [], none, none⟩
  foliageTransactionBlock := none
  transactionsInfo := none
  transactionsGenerator := none
  transactionsGeneratorRefList := []

/-- A genesis block and a child of it, whose signage point index is too high. -/
def badIndexBatch : List FullBlock :=
  [emptyBlock 0 defaultConstants.GENESIS_CHALLENGE (Bytes32.ofNat 1) 0,
    emptyBlock 1 (Bytes32.ofNat 1) (Bytes32.ofNat 2) 64]

/-- Pre-validation of the genesis block alone restores the empty cache. -/
theorem cache_restored_genesis :
    SameRecords (preValidateBlocksMultiprocessing acceptingTools defaultConstants (fun _ => none) ∅
      (badIndexBatch.take 1) true (fun _ => none) 4 none true).1 ∅ := by
  refine (cache_restored_iff (by decide)).mpr ?_
  rintro ⟨first, recent, compressed, -, -, k, b, s, stop, hb, -, -, -, earlier, hearlier, -⟩
  have hk : k < 1 := (List.getElem?_eq_some_iff.mp hb).1
  obtain rfl : k = 0 := by omega
  cases hearlier

/-- The second block makes the call raise, and the record of the first one stays in the cache. -/
theorem cache_keeps_record :
    (preValidateBlocksMultiprocessing acceptingTools defaultConstants (fun _ => none) ∅
      badIndexBatch true (fun _ => none) 4 none true).2 = .error .valueError ∧
    ¬SameRecords (preValidateBlocksMultiprocessing acceptingTools defaultConstants (fun _ => none) ∅
      badIndexBatch true (fun _ => none) 4 none true).1 ∅ := by
  constructor
  · decide +kernel
  · intro hsame
    have hleft : ((preValidateBlocksMultiprocessing acceptingTools defaultConstants (fun _ => none) ∅
        badIndexBatch true (fun _ => none) 4 none true).1.get (Bytes32.ofNat 1)).isSome = true := by
      decide +kernel
    rw [hsame] at hleft
    cases hleft

end Chives
