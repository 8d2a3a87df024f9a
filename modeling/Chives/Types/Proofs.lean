import Chives.Types.Block
import Chives.Consensus.Constants

set_option autoImplicit false

/-!
# Proofs of space and time

`ProofOfSpace.verify_and_get_quality_string` (`types/blockchain_format/proof_of_space.py`) and
`VDFProof.is_valid` (`types/blockchain_format/vdf.py`).

## Main definitions

* `Verifiers` — the checks made by other packages: plots, VDFs and BLS signatures.
* `ProofOfSpace.verifyAndGetQualityString`, `VDFProof.isValid` — the methods.
-/

namespace Chives

/-- The verifiers of other packages: `chiapos`, `chiavdf` and `blspy`. -/
structure Verifiers where
  validateProof : Bytes32 → ℕ → Bytes32 → Bytes → Option Bytes32
  verifyVdf : Bytes32 → ClassgroupElement → Bytes → ℕ → ℕ → Bool
  verify : G1Element → Bytes → G2Element → Bool
  aggregateVerify : List G1Element → List Bytes → G2Element → Bool

namespace ProofOfSpace

/-- `get_plot_id`, for a plot with a pool key or a pool contract. -/
def plotId (H : Hashes) (pos : ProofOfSpace) : Bytes32 :=
  match pos.poolPublicKey, pos.poolContractPuzzleHash with
  | some poolPublicKey, _ => H.stdHash (poolPublicKey ++ pos.plotPublicKey)
  | none, some contract => H.stdHash (contract.bytes ++ pos.plotPublicKey)
  | none, none => H.stdHash pos.plotPublicKey

/-- `calculate_plot_filter_input`. -/
def plotFilterInput (H : Hashes) (plotId challengeHash signagePoint : Bytes32) : Bytes32 :=
  H.stdHash (plotId.bytes ++ challengeHash.bytes ++ signagePoint.bytes)

/-- `passes_plot_filter`: the hash starts with enough zero bits. -/
def passesPlotFilter (H : Hashes) (constants : ConsensusConstants)
    (plotId challengeHash signagePoint : Bytes32) : Bool :=
  decide (BigEndian.ofBytes (plotFilterInput H plotId challengeHash signagePoint).bytes <
    2 ^ (256 - constants.NUMBER_ZERO_BITS_PLOT_FILTER))

/-- `verify_and_get_quality_string`. -/
def verifyAndGetQualityString (H : Hashes) (V : Verifiers) (constants : ConsensusConstants)
    (pos : ProofOfSpace) (originalChallengeHash signagePoint : Bytes32) : Option Bytes32 :=
  if pos.poolPublicKey.isNone ∧ pos.poolContractPuzzleHash.isNone then none
  else if pos.poolPublicKey.isSome ∧ pos.poolContractPuzzleHash.isSome then none
  else if pos.size < constants.MIN_PLOT_SIZE then none
  else if pos.size > constants.MAX_PLOT_SIZE then none
  else
    let plotId := pos.plotId H
    let newChallenge := H.stdHash (plotFilterInput H plotId originalChallengeHash signagePoint).bytes
    if newChallenge ≠ pos.challenge then none
    else if ¬passesPlotFilter H constants plotId originalChallengeHash signagePoint then none
    else V.validateProof plotId pos.size pos.challenge pos.proof

end ProofOfSpace

/-- `is_valid`. -/
def VDFProof.isValid (V : Verifiers) (constants : ConsensusConstants) (proof : VDFProof)
    (inputEl : ClassgroupElement) (info : VDFInfo) (targetVdfInfo : Option VDFInfo) : Bool :=
  if targetVdfInfo.isSome ∧ targetVdfInfo ≠ some info then false
  else if proof.witnessType + 1 > constants.MAX_VDF_WITNESS_SIZE then false
  else V.verifyVdf info.challenge inputEl (info.output ++ proof.witness) info.numberOfIterations
    proof.witnessType

end Chives
