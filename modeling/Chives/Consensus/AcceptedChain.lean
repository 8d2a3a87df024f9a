import Chives.Consensus.SubEpochs

set_option autoImplicit false

/-!
# Chains of accepted blocks

Header validation is called with a difficulty and a number of iterations for the sub slot, which
`get_next_sub_slot_iters_and_difficulty` computes from the ancestors of the block. The chains here are those
whose blocks were accepted with these parameters.

## Main definitions

* `BlockAccepted`, `AcceptedChain` — blocks accepted with the parameters that
  `get_next_sub_slot_iters_and_difficulty` gives.

## Main results

* `BlockAccepted.headerAccepted` — acceptance with these parameters is acceptance of the header.
-/

namespace Chives

open ExceptRun BlockRecords

section Accepted

variable (H : Hashes) (V : Verifiers) (constants : ConsensusConstants)

/-- The header of the block passes `validate_finished_header_block` with the parameters of
`get_next_sub_slot_iters_and_difficulty`, and `block_to_block_record` gives the record. -/
def BlockAccepted (blocks : BlockchainInterface) (block : FullBlock) (r : BlockRecord) : Prop :=
  ∃ (encodedFilter : List Bytes → Bytes) (additions : List Coin) (removals : List Bytes32)
    (checkFilter : Bool) (subSlotIters difficulty now requiredIters : ℕ),
    getNextSubSlotItersAndDifficulty constants (decide (block.finishedSubSlots ≠ []))
      (blocks.records.get block.prevHeaderHash) blocks = .ok (subSlotIters, difficulty) ∧
    validateFinishedHeaderBlock H V constants blocks.records
      (getBlockHeader encodedFilter block additions removals) checkFilter difficulty subSlotIters true now =
        .ok requiredIters ∧
    blockToBlockRecord H constants blocks requiredIters block = .ok r

/-- A chain of accepted blocks with their records: a genesis block, and blocks each of which is accepted on
top of the one before. The cache may be a different one for each block. -/
inductive AcceptedChain : List (FullBlock × BlockRecord) → Prop
  | genesis {blocks : BlockchainInterface} {block : FullBlock} {r : BlockRecord}
      (hprev : blocks.records.get block.prevHeaderHash = none)
      (h : BlockAccepted H V constants blocks block r) : AcceptedChain [(block, r)]
  | extend {blocks : BlockchainInterface} {block : FullBlock} {p r : BlockRecord}
      {l : List (FullBlock × BlockRecord)} (hl : AcceptedChain l)
      (hchain : AncestorsPresent blocks.records p (l.map Prod.snd))
      (hprev : blocks.records.get block.prevHeaderHash = some p) (hheight : block.height ≠ 0)
      (h : BlockAccepted H V constants blocks block r) : AcceptedChain (l ++ [(block, r)])

variable {H V constants}

lemma BlockAccepted.headerAccepted {blocks : BlockchainInterface} {block : FullBlock} {r : BlockRecord}
    (h : BlockAccepted H V constants blocks block r) : HeaderAccepted H V constants blocks block r := by
  obtain ⟨filter, additions, removals, checkFilter, iters, difficulty, now, required, -, hvalid, hrecord⟩ := h
  exact ⟨filter, additions, removals, checkFilter, difficulty, iters, now, required, hvalid, hrecord⟩

end Accepted

end Chives
