import Chives.Consensus.MainChain

set_option autoImplicit false

/-!
# Runs of a blockchain

The calls of `receive_block`, what their callers guarantee, the states that can be reached by them
from an empty database, and the invariant of these states.

## Main definitions

* `Call`, `Call.Meets` — a call, and what is guaranteed of it.
* `Reachable` — the states reached by calls.
* `Accepted` — what is known of a stored block on its own chain.
* `Blockchain.Inv` — the invariant.

## Main results

* `Blockchain.acceptBlock_eq_inr` — what is known of a block that is about to be stored.
-/

namespace Chives

open ExceptRun ParentTree BlockHeightMap

/-- A call of `receive_block`. -/
structure Call where
  block : FullBlock
  preValidationResult : PreValidationResult
  forkPointWithPeak : Option ℤ

/-- A run of a generator that ends without an error within a cost ends in the same way within any
larger cost. -/
def CostMonotone (runGenerator : BlockGenerator → ℕ → ℕ → NPCResult) : Prop :=
  ∀ g cost cost' height, cost ≤ cost' → (runGenerator g cost height).error = none →
    runGenerator g cost' height = runGenerator g cost height

/-- `l` is the chain of the parent of a block; genesis blocks have no parent. -/
def Blockchain.Ancestors (s : Blockchain) (b : FullBlock) (l : List Entry) : Prop :=
  (b.height = 0 ∧ l = []) ∨ (b.height ≠ 0 ∧ ∃ p, s.blockStore.entry b.prevHeaderHash = some p ∧
    Path entryLinks s.blockStore.entry p l)

/-- `P` is the chain of the peak. -/
def Blockchain.PeakChain (s : Blockchain) (P : List Entry) : Prop :=
  ∃ tip, s.getPeak = .ok (some tip.2) ∧ s.blockStore.entry tip.2.headerHash = some tip ∧
    Path entryLinks s.blockStore.entry tip P

/-- What the caller of `receive_block` guarantees: a fork point that is given is the height of the
fork between the chain of the peak and the block, and the given result of the generator is that of
running the block's generator on its own chain. -/
structure Call.Meets (T : BlockchainTools) (constants : ConsensusConstants) (s : Blockchain)
    (c : Call) : Prop where
  fork : ∀ f, c.forkPointWithPeak = some f → ∀ P l, s.PeakChain P → s.Ancestors c.block l →
    f = forkHeight P l
  npc : ∀ npc, c.preValidationResult.npcResult = some npc → ∀ l, s.Ancestors c.block l →
    ∃ g info, ownGenerator (l.map Prod.fst) c.block = some g ∧
      c.block.transactionsInfo = some info ∧
      npc = T.runGenerator g (min constants.MAX_BLOCK_COST_CLVM info.cost) c.block.height

/-- The states that are reached from an empty database by calls of `receive_block` that satisfy a
condition. -/
inductive Reachable (T : BlockchainTools) (constants : ConsensusConstants)
    (C : Blockchain → Call → Prop) : Blockchain → Prop
  | initial (files : CacheFiles) : Reachable T constants C (Blockchain.initial files)
  | receive {s : Blockchain} (h : Reachable T constants C s) (c : Call) (hc : C s c) :
      Reachable T constants C
        (s.receiveBlock T constants c.block c.preValidationResult c.forkPointWithPeak).1

/-- What is known of a stored block on its own chain: if it has a generator, then it is a transaction
block, the generators that it refers to are there, and running it within the cost in the block gives no
error. -/
structure Accepted (T : BodyTools) (constants : ConsensusConstants) (ancestors : List FullBlock)
    (b : FullBlock) : Prop where
  generator : ∀ program, b.transactionsGenerator = some program → ∃ g info,
    ownGenerator ancestors b = some g ∧ b.transactionsInfo = some info ∧
    (T.runGenerator g (min constants.MAX_BLOCK_COST_CLVM info.cost) b.height).error = none
  noBody : b.foliageTransactionBlock = none → b.transactionsGenerator = none

/-- A state without any block. -/
structure Blockchain.IsEmpty (s : Blockchain) : Prop where
  blockRecords : s.blockRecords = ∅
  fullBlocks : s.blockStore.fullBlocks = []
  currentPeak : s.blockStore.currentPeak = none
  peakHeight : s.peakHeight = none
  coinStore : s.coinStore = []
  describes : Describes [] s.heightMap

/-- The invariant: stored blocks form a tree that the cache of records knows, they were accepted on
their own chains, and the peak with its chain and its coins is described by all parts of the state. -/
structure Blockchain.Inv (T : BlockchainTools) (constants : ConsensusConstants) (s : Blockchain) :
    Prop where
  view : View T.H constants s s.blockStore.entry
  accepted : ∀ {e l}, s.blockStore.entry e.2.headerHash = some e →
    Path entryLinks s.blockStore.entry e (l ++ [e]) →
    Accepted T.toBodyTools constants (l.map Prod.fst) e.1
  dirty : s.heightMap.dirty = 0
  peak : s.IsEmpty ∨ ∃ tip P, MainChain T constants s s.blockStore.entry tip P ∧
    replay T.toBodyTools constants (P.map Prod.fst) = .ok s.coinStore

namespace Blockchain

variable {T : BlockchainTools} {constants : ConsensusConstants} {s : Blockchain} {b : FullBlock}
  {pre : PreValidationResult} {forkPoint : Option ℤ} {rec : BlockRecord}

lemma rejectedEarly_eq_none (h : s.rejectedEarly T b pre = none) :
    s.blockRecords.get (b.headerHash T.H) = none ∧
      (b.height ≠ 0 → ∃ p, s.blockRecords.get b.prevHeaderHash = some p ∧ p.height + 1 = b.height) ∧
      pre.error = none := by
  unfold rejectedEarly at h
  simp only [decide_eq_true_eq] at h
  split at h
  · cases h
  · rename_i hnew
    split at h
    · cases h
    · rename_i hprev
      split at h
      · cases h
      · rename_i hheight
        refine ⟨by simpa using hnew, fun h0 => ?_, by simpa using h⟩
        by_contra hnot
        push_neg at hnot
        exact hheight ⟨h0, hnot⟩

lemma checkBody_eq_none (h : s.checkBody T constants b pre forkPoint = .ok none) :
    ∃ peak, s.getPeak = .ok peak ∧ validateBlockBody T.toBodyTools constants
      ⟨s.blockRecords, s.blockStore, s.coinStore, peak,
        fun b => s.getBlockGenerator T.dbVersion b ∅⟩ b b.height pre.npcResult forkPoint
        (!pre.validatedSignature) = .ok () := by
  simp only [checkBody] at h
  obtain ⟨peak, hpeak, h⟩ := bind_eq_ok.mp h
  refine ⟨peak, hpeak, ?_⟩
  split at h
  · rename_i hok
    exact hok
  · cases h
  · cases h

lemma acceptBlock_eq_inr (h : s.acceptBlock T constants b pre forkPoint = .ok (.inr rec)) :
    s.blockRecords.get (b.headerHash T.H) = none ∧
      (b.height ≠ 0 → ∃ p, s.blockRecords.get b.prevHeaderHash = some p ∧ p.height + 1 = b.height) ∧
      pre.error = none ∧ s.checkBody T constants b pre forkPoint = .ok none ∧
      ∃ requiredIters, pre.requiredIters = some requiredIters ∧
        blockToBlockRecord T.H constants s.interface requiredIters b = .ok rec := by
  unfold acceptBlock at h
  cases hearly : s.rejectedEarly T b pre with
  | some result => simp [hearly] at h
  | none =>
    simp only [hearly] at h
    obtain ⟨requiredIters, hiters, h⟩ := bind_eq_ok.mp h
    obtain ⟨code, hcode, h⟩ := bind_eq_ok.mp h
    cases code with
    | some code => cases h
    | none =>
      obtain ⟨rec', hrec, h⟩ := bind_eq_ok.mp h
      obtain rfl : rec' = rec := by simpa using Except.ok.inj h
      obtain ⟨hnew, hprev, herror⟩ := rejectedEarly_eq_none hearly
      exact ⟨hnew, hprev, herror, hcode, requiredIters, pySome_eq_ok.mp hiters, hrec⟩

end Blockchain

/-! ## Accepted bodies -/

section Body

variable {T : BodyTools} {constants : ConsensusConstants} {ctx : BodyContext} {b : FullBlock}
  {height : ℕ} {npcResult : Option NPCResult} {forkPoint : Option ℤ} {validateSignature : Bool}

lemma bodyRejectIf_eq_ok {bad : Prop} [Decidable bad] {e : Err} {u : Unit} :
    bodyRejectIf bad e = .ok u ↔ ¬bad := by
  unfold bodyRejectIf
  by_cases h : bad <;> simp [h]

lemma bodyRaising_eq_ok {α : Type} {x : Except PyError α} {a : α} :
    bodyRaising x = .ok a ↔ x = .ok a :=
  mapError_eq_ok

lemma validateBlockBody_eq_ok
    (h : validateBlockBody T constants ctx b height npcResult forkPoint validateSignature = .ok ()) :
    (b.foliage.foliageTransactionBlockHash = none ∧ checkNoBody ctx.blocks b = .ok ()) ∨
      ∃ ftb info, b.foliageTransactionBlock = some ftb ∧ b.transactionsInfo = some info ∧
        validateTransactions T constants ctx b ftb info height npcResult forkPoint
          validateSignature = .ok () := by
  unfold validateBlockBody at h
  obtain ⟨-, -, h⟩ := bind_eq_ok.mp h
  split at h
  · rename_i hnone
    exact .inl ⟨Option.isNone_iff_eq_none.mp hnone, h⟩
  · split at h
    · rename_i ftb info hftb hinfo
      exact .inr ⟨ftb, info, hftb, hinfo, h⟩
    · cases h

lemma checkNoBody_eq_ok {blocks : BlockRecords} (h : checkNoBody blocks b = .ok ()) :
    b.foliageTransactionBlock = none ∧ b.transactionsInfo = none ∧ b.transactionsGenerator = none := by
  unfold checkNoBody at h
  obtain ⟨_, hdata, -⟩ := bind_eq_ok.mp h
  have := bodyRejectIf_eq_ok.mp hdata
  simpa [not_or] using this

lemma effectsOfNpc_eq_ok {effects : BlockEffects}
    (h : effectsOfNpc constants b npcResult = .ok effects) :
    (b.transactionsGenerator = none ∧ npcResult = none ∧ effects = ⟨[], [], ∅, 0⟩) ∨
      ∃ program npc conds, b.transactionsGenerator = some program ∧ npcResult = some npc ∧
        npc.error = none ∧ npc.conds = some conds ∧
        effects = ⟨conds.spends.map Spend.coinId, conds.spends.flatMap Spend.additions,
          Dict.ofItems (conds.spends.map fun s => (s.coinId, s.puzzleHash)), npc.cost⟩ := by
  unfold effectsOfNpc at h
  split at h
  · rename_i hgen
    exact .inl ⟨hgen, rfl, (Except.ok.inj h).symm⟩
  · cases h
  · cases h
  · rename_i program npc hgen
    obtain ⟨-, -, h⟩ := bind_eq_ok.mp h
    cases herror : npc.error with
    | some e => simp [herror] at h
    | none =>
      simp only [herror] at h
      obtain ⟨conds, hconds, h⟩ := bind_eq_ok.mp h
      exact .inr ⟨program, npc, conds, hgen, rfl, herror,
        pySome_eq_ok.mp (bodyRaising_eq_ok.mp hconds), (Except.ok.inj h).symm⟩

lemma validateTransactions_effects {ftb : FoliageTransactionBlock} {info : TransactionsInfo}
    (h : validateTransactions T constants ctx b ftb info height npcResult forkPoint
      validateSignature = .ok ()) : ∃ effects, effectsOfNpc constants b npcResult = .ok effects := by
  unfold validateTransactions at h
  obtain ⟨-, -, h⟩ := bind_eq_ok.mp h
  obtain ⟨_, -, h⟩ := bind_eq_ok.mp h
  obtain ⟨_, -, h⟩ := bind_eq_ok.mp h
  obtain ⟨-, -, h⟩ := bind_eq_ok.mp h
  obtain ⟨effects, heffects, -⟩ := bind_eq_ok.mp h
  exact ⟨effects, heffects⟩

lemma validateBlockBody_generator
    (h : validateBlockBody T constants ctx b height npcResult forkPoint validateSignature = .ok ()) :
    (b.transactionsGenerator = none ∧ (b.foliageTransactionBlock.isSome → npcResult = none)) ∨
      ∃ program npc, b.transactionsGenerator = some program ∧ npcResult = some npc ∧
        npc.error = none ∧ b.foliageTransactionBlock.isSome := by
  rcases validateBlockBody_eq_ok h with ⟨-, hno⟩ | ⟨ftb, info, hftb, -, hval⟩
  · obtain ⟨hftb, -, hgen⟩ := checkNoBody_eq_ok hno
    exact .inl ⟨hgen, by simp [hftb]⟩
  · obtain ⟨effects, heffects⟩ := validateTransactions_effects hval
    rcases effectsOfNpc_eq_ok heffects with ⟨hgen, hnpc, -⟩ | ⟨program, npc, -, hgen, hnpc, herror, -⟩
    · exact .inl ⟨hgen, fun _ => hnpc⟩
    · exact .inr ⟨program, npc, hgen, hnpc, herror, by simp [hftb]⟩

end Body

end Chives
