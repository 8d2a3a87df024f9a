set_option autoImplicit false

/-!
# Validation errors

`Err` of `util/errors.py`, as far as block validation and the mempool return it.

## Main definitions

* `Err` — the error codes.
* `Err.value` — their numbers.
-/

namespace Chives

/-- The error codes, in the order of their values. -/
inductive Err
  | unknown
  | duplicateOutput
  | doubleSpend
  | unknownUnspent
  | badAggregateSignature
  | wrongPuzzleHash
  | assertHeightRelativeFailed
  | assertHeightAbsoluteFailed
  | assertSecondsAbsoluteFailed
  | coinAmountExceedsMaximum
  | invalidFeeLowFee
  | mempoolConflict
  | mintingCoin
  | blockCostExceedsMax
  | badAdditionRoot
  | badRemovalRoot
  | invalidPlotSignature
  | timestampTooFarInPast
  | timestampTooFarInFuture
  | invalidTransactionsFilterHash
  | invalidPospace
  | invalidHeight
  | invalidBlockFeeAmount
  | invalidWeight
  | invalidTotalIters
  | invalidTransactionsGeneratorHash
  | invalidPoolTarget
  | reserveFeeConditionFailed
  | notBlockButHasData
  | isTransactionBlockButNoData
  | invalidPrevBlockHash
  | invalidTransactionsInfoHash
  | invalidFoliageBlockHash
  | invalidRewardCoins
  | invalidBlockCost
  | invalidPrevChallengeSlotHash
  | invalidSubEpochSummaryHash
  | invalidCcEosVdf
  | invalidRcEosVdf
  | invalidChallengeSlotHashRc
  | invalidDeficit
  | invalidSubEpochSummary
  | invalidNewDifficulty
  | invalidNewSubSlotIters
  | invalidCcSpVdf
  | invalidRcSpVdf
  | invalidCcSignature
  | invalidRcSignature
  | invalidIsTransactionBlock
  | invalidUrsbHash
  | oldPoolTarget
  | invalidPoolSignature
  | invalidFoliageBlockPresence
  | invalidCcIpVdf
  | invalidRcIpVdf
  | invalidRewardBlockHash
  | noOverflowsInFirstSubSlotNewEpoch
  | mempoolNotInitialized
  | shouldNotHaveIcc
  | invalidIccVdf
  | invalidIccHashCc
  | invalidIccHashRc
  | invalidIccEosVdf
  | invalidSpIndex
  | tooManyBlocks
  | invalidCcChallenge
  | invalidPrefarm
  | assertSecondsRelativeFailed
  | invalidRequiredIters
  | tooManyGeneratorRefs
  | generatorRuntimeError
  | invalidTransactionsGeneratorRefsRoot
  | futureGeneratorRefs
  | generatorRefHasNoGenerator
  | doubleSpendInFork
  | invalidFeeTooCloseToZero
  | coinAmountNegative
  | invalidSpendBundle
  | failedGettingGeneratorMultiprocessing
  | invalidCommunity
  deriving DecidableEq, Repr

/-- The number of an error code. -/
def Err.value : Err → Nat
  | .unknown => 1
  | .duplicateOutput => 4
  | .doubleSpend => 5
  | .unknownUnspent => 6
  | .badAggregateSignature => 7
  | .wrongPuzzleHash => 8
  | .assertHeightRelativeFailed => 13
  | .assertHeightAbsoluteFailed => 14
  | .assertSecondsAbsoluteFailed => 15
  | .coinAmountExceedsMaximum => 16
  | .invalidFeeLowFee => 18
  | .mempoolConflict => 19
  | .mintingCoin => 20
  | .blockCostExceedsMax => 23
  | .badAdditionRoot => 24
  | .badRemovalRoot => 25
  | .invalidPlotSignature => 28
  | .timestampTooFarInPast => 29
  | .timestampTooFarInFuture => 30
  | .invalidTransactionsFilterHash => 31
  | .invalidPospace => 33
  | .invalidHeight => 34
  | .invalidBlockFeeAmount => 37
  | .invalidWeight => 38
  | .invalidTotalIters => 39
  | .invalidTransactionsGeneratorHash => 44
  | .invalidPoolTarget => 45
  | .reserveFeeConditionFailed => 48
  | .notBlockButHasData => 49
  | .isTransactionBlockButNoData => 50
  | .invalidPrevBlockHash => 51
  | .invalidTransactionsInfoHash => 52
  | .invalidFoliageBlockHash => 53
  | .invalidRewardCoins => 54
  | .invalidBlockCost => 55
  | .invalidPrevChallengeSlotHash => 57
  | .invalidSubEpochSummaryHash => 58
  | .invalidCcEosVdf => 65
  | .invalidRcEosVdf => 66
  | .invalidChallengeSlotHashRc => 67
  | .invalidDeficit => 69
  | .invalidSubEpochSummary => 70
  | .invalidNewDifficulty => 74
  | .invalidNewSubSlotIters => 75
  | .invalidCcSpVdf => 76
  | .invalidRcSpVdf => 77
  | .invalidCcSignature => 78
  | .invalidRcSignature => 79
  | .invalidIsTransactionBlock => 83
  | .invalidUrsbHash => 84
  | .oldPoolTarget => 85
  | .invalidPoolSignature => 86
  | .invalidFoliageBlockPresence => 87
  | .invalidCcIpVdf => 88
  | .invalidRcIpVdf => 89
  | .invalidRewardBlockHash => 91
  | .noOverflowsInFirstSubSlotNewEpoch => 93
  | .mempoolNotInitialized => 94
  | .shouldNotHaveIcc => 95
  | .invalidIccVdf => 97
  | .invalidIccHashCc => 98
  | .invalidIccHashRc => 99
  | .invalidIccEosVdf => 100
  | .invalidSpIndex => 101
  | .tooManyBlocks => 102
  | .invalidCcChallenge => 103
  | .invalidPrefarm => 104
  | .assertSecondsRelativeFailed => 105
  | .invalidRequiredIters => 112
  | .tooManyGeneratorRefs => 113
  | .generatorRuntimeError => 117
  | .invalidTransactionsGeneratorRefsRoot => 119
  | .futureGeneratorRefs => 120
  | .generatorRefHasNoGenerator => 121
  | .doubleSpendInFork => 122
  | .invalidFeeTooCloseToZero => 123
  | .coinAmountNegative => 124
  | .invalidSpendBundle => 126
  | .failedGettingGeneratorMultiprocessing => 127
  | .invalidCommunity => 999

end Chives
