import Mathlib.Data.Rat.Floor
import Chives.Util.StructStream

set_option autoImplicit false

/-!
# Rate limits

`server/rate_limits.py` with the enumeration of `protocols/protocol_message_types.py`: a connection counts the messages
of each type and their bytes, and starts again with each window of time. A limiter for incoming messages counts every
message, one for outgoing messages those that it lets through.

## Main definitions

* `ProtocolMessageTypes`, `RateLimits.rateLimitsTx`, `RateLimits.rateLimitsOther` — the types of
  messages and their limits.
* `RateLimiter`, `RateLimiter.processMsgAndCheck` — the class and its method.
* `RateLimits.Within` — messages keep the limits.

## Main results

* `RateLimiter.within_passed` — what is let through in a window keeps the limits.
* `RateLimiter.passed_eq_of_within` — a limiter that only sees messages within the limits lets them through.
* `RateLimiter.limits_hold` — the limits hold over every window, and the two ends agree.

## Design

Times and the proportion of a limit are rational numbers, where the source has floating point numbers.
-/

namespace Chives

/-! ## The tables -/

/-- `ProtocolMessageTypes`. -/
inductive ProtocolMessageTypes
  | handshake | harvesterHandshake | newProofOfSpace | requestSignatures | respondSignatures | newSignagePoint
  | declareProofOfSpace | requestSignedValues | signedValues | farmingInfo | newPeakTimelord
  | newUnfinishedBlockTimelord | newInfusionPointVdf | newSignagePointVdf | newEndOfSubSlotVdf
  | requestCompactProofOfTime | respondCompactProofOfTime | newPeak | newTransaction | requestTransaction
  | respondTransaction | requestProofOfWeight | respondProofOfWeight | requestBlock | respondBlock | rejectBlock
  | requestBlocks | respondBlocks | rejectBlocks | newUnfinishedBlock | requestUnfinishedBlock
  | respondUnfinishedBlock | newSignagePointOrEndOfSubSlot | requestSignagePointOrEndOfSubSlot | respondSignagePoint
  | respondEndOfSubSlot | requestMempoolTransactions | requestCompactVdf | respondCompactVdf | newCompactVdf
  | requestPeers | respondPeers | requestPuzzleSolution | respondPuzzleSolution | rejectPuzzleSolution
  | sendTransaction | transactionAck | newPeakWallet | requestBlockHeader | respondBlockHeader | rejectHeaderRequest
  | requestRemovals | respondRemovals | rejectRemovalsRequest | requestAdditions | respondAdditions
  | rejectAdditionsRequest | requestHeaderBlocks | rejectHeaderBlocks | respondHeaderBlocks | requestPeersIntroducer
  | respondPeersIntroducer | farmNewBlock | newSignagePointHarvester | requestPlots | respondPlots | plotSyncStart
  | plotSyncLoaded | plotSyncRemoved | plotSyncInvalid | plotSyncKeysMissing | plotSyncDuplicates | plotSyncDone
  | plotSyncResponse | coinStateUpdate | registerInterestInPuzzleHash | respondToPhUpdate | registerInterestInCoin
  | respondToCoinUpdate | requestChildren | respondChildren | requestSesHashes | respondSesHashes
  deriving DecidableEq, Repr

namespace ProtocolMessageTypes

/-- The number of a type. -/
def value : ProtocolMessageTypes → ℕ
  | .handshake => 1
  | .harvesterHandshake => 3
  | .newProofOfSpace => 5
  | .requestSignatures => 6
  | .respondSignatures => 7
  | .newSignagePoint => 8
  | .declareProofOfSpace => 9
  | .requestSignedValues => 10
  | .signedValues => 11
  | .farmingInfo => 12
  | .newPeakTimelord => 13
  | .newUnfinishedBlockTimelord => 14
  | .newInfusionPointVdf => 15
  | .newSignagePointVdf => 16
  | .newEndOfSubSlotVdf => 17
  | .requestCompactProofOfTime => 18
  | .respondCompactProofOfTime => 19
  | .newPeak => 20
  | .newTransaction => 21
  | .requestTransaction => 22
  | .respondTransaction => 23
  | .requestProofOfWeight => 24
  | .respondProofOfWeight => 25
  | .requestBlock => 26
  | .respondBlock => 27
  | .rejectBlock => 28
  | .requestBlocks => 29
  | .respondBlocks => 30
  | .rejectBlocks => 31
  | .newUnfinishedBlock => 32
  | .requestUnfinishedBlock => 33
  | .respondUnfinishedBlock => 34
  | .newSignagePointOrEndOfSubSlot => 35
  | .requestSignagePointOrEndOfSubSlot => 36
  | .respondSignagePoint => 37
  | .respondEndOfSubSlot => 38
  | .requestMempoolTransactions => 39
  | .requestCompactVdf => 40
  | .respondCompactVdf => 41
  | .newCompactVdf => 42
  | .requestPeers => 43
  | .respondPeers => 44
  | .requestPuzzleSolution => 45
  | .respondPuzzleSolution => 46
  | .rejectPuzzleSolution => 47
  | .sendTransaction => 48
  | .transactionAck => 49
  | .newPeakWallet => 50
  | .requestBlockHeader => 51
  | .respondBlockHeader => 52
  | .rejectHeaderRequest => 53
  | .requestRemovals => 54
  | .respondRemovals => 55
  | .rejectRemovalsRequest => 56
  | .requestAdditions => 57
  | .respondAdditions => 58
  | .rejectAdditionsRequest => 59
  | .requestHeaderBlocks => 60
  | .rejectHeaderBlocks => 61
  | .respondHeaderBlocks => 62
  | .requestPeersIntroducer => 63
  | .respondPeersIntroducer => 64
  | .farmNewBlock => 65
  | .newSignagePointHarvester => 66
  | .requestPlots => 67
  | .respondPlots => 68
  | .plotSyncStart => 78
  | .plotSyncLoaded => 79
  | .plotSyncRemoved => 80
  | .plotSyncInvalid => 81
  | .plotSyncKeysMissing => 82
  | .plotSyncDuplicates => 83
  | .plotSyncDone => 84
  | .plotSyncResponse => 85
  | .coinStateUpdate => 69
  | .registerInterestInPuzzleHash => 70
  | .respondToPhUpdate => 71
  | .registerInterestInCoin => 72
  | .respondToCoinUpdate => 73
  | .requestChildren => 74
  | .respondChildren => 75
  | .requestSesHashes => 76
  | .respondSesHashes => 77

/-- The types in the order of the source. -/
def all : List ProtocolMessageTypes :=
  [.handshake, .harvesterHandshake, .newProofOfSpace, .requestSignatures, .respondSignatures, .newSignagePoint,
  .declareProofOfSpace, .requestSignedValues, .signedValues, .farmingInfo, .newPeakTimelord,
  .newUnfinishedBlockTimelord, .newInfusionPointVdf, .newSignagePointVdf, .newEndOfSubSlotVdf,
  .requestCompactProofOfTime, .respondCompactProofOfTime, .newPeak, .newTransaction, .requestTransaction,
  .respondTransaction, .requestProofOfWeight, .respondProofOfWeight, .requestBlock, .respondBlock, .rejectBlock,
  .requestBlocks, .respondBlocks, .rejectBlocks, .newUnfinishedBlock, .requestUnfinishedBlock,
  .respondUnfinishedBlock, .newSignagePointOrEndOfSubSlot, .requestSignagePointOrEndOfSubSlot, .respondSignagePoint,
  .respondEndOfSubSlot, .requestMempoolTransactions, .requestCompactVdf, .respondCompactVdf, .newCompactVdf,
  .requestPeers, .respondPeers, .requestPuzzleSolution, .respondPuzzleSolution, .rejectPuzzleSolution,
  .sendTransaction, .transactionAck, .newPeakWallet, .requestBlockHeader, .respondBlockHeader, .rejectHeaderRequest,
  .requestRemovals, .respondRemovals, .rejectRemovalsRequest, .requestAdditions, .respondAdditions,
  .rejectAdditionsRequest, .requestHeaderBlocks, .rejectHeaderBlocks, .respondHeaderBlocks, .requestPeersIntroducer,
  .respondPeersIntroducer, .farmNewBlock, .newSignagePointHarvester, .requestPlots, .respondPlots, .plotSyncStart,
  .plotSyncLoaded, .plotSyncRemoved, .plotSyncInvalid, .plotSyncKeysMissing, .plotSyncDuplicates, .plotSyncDone,
  .plotSyncResponse, .coinStateUpdate, .registerInterestInPuzzleHash, .respondToPhUpdate, .registerInterestInCoin,
  .respondToCoinUpdate, .requestChildren, .respondChildren, .requestSesHashes, .respondSesHashes]

/-- `ProtocolMessageTypes(n)`, which raises for a number without a type. -/
def ofValue (n : ℕ) : Option ProtocolMessageTypes := all.find? fun t => t.value = n

end ProtocolMessageTypes

namespace RateLimits

/-- `RLSettings`. -/
structure RLSettings where
  frequency : ℕ
  maxSize : ℕ
  maxTotalSize : Option ℕ

/-- `DEFAULT_SETTINGS`. -/
def DEFAULT_SETTINGS : RLSettings := ⟨100, 1024 * 1024, some (100 * 1024 * 1024)⟩

/-- `NON_TX_FREQ`. -/
def NON_TX_FREQ : ℕ := 1000

/-- `NON_TX_MAX_TOTAL_SIZE`. -/
def NON_TX_MAX_TOTAL_SIZE : ℕ := 100 * 1024 * 1024

/-- `rate_limits_tx`. -/
def rateLimitsTx : ProtocolMessageTypes → Option RLSettings
  | .newTransaction => some ⟨5000, 100, some (5000 * 100)⟩
  | .requestTransaction => some ⟨5000, 100, some (5000 * 100)⟩
  | .respondTransaction => some ⟨5000, 1 * 1024 * 1024, some (20 * 1024 * 1024)⟩
  | .sendTransaction => some ⟨5000, 1024 * 1024, none⟩
  | .transactionAck => some ⟨5000, 2048, none⟩
  | _ => none

/-- `rate_limits_other`. -/
def rateLimitsOther : ProtocolMessageTypes → Option RLSettings
  | .handshake => some ⟨5, 10 * 1024, some (5 * 10 * 1024)⟩
  | .harvesterHandshake => some ⟨5, 1024 * 1024, none⟩
  | .newSignagePointHarvester => some ⟨100, 1024, none⟩
  | .newProofOfSpace => some ⟨100, 2048, none⟩
  | .requestSignatures => some ⟨100, 2048, none⟩
  | .respondSignatures => some ⟨100, 2048, none⟩
  | .newSignagePoint => some ⟨200, 2048, none⟩
  | .declareProofOfSpace => some ⟨100, 10 * 1024, none⟩
  | .requestSignedValues => some ⟨100, 512, none⟩
  | .farmingInfo => some ⟨100, 1024, none⟩
  | .signedValues => some ⟨100, 1024, none⟩
  | .newPeakTimelord => some ⟨100, 20 * 1024, none⟩
  | .newUnfinishedBlockTimelord => some ⟨100, 10 * 1024, none⟩
  | .newSignagePointVdf => some ⟨100, 100 * 1024, none⟩
  | .newInfusionPointVdf => some ⟨100, 100 * 1024, none⟩
  | .newEndOfSubSlotVdf => some ⟨100, 100 * 1024, none⟩
  | .requestCompactProofOfTime => some ⟨100, 10 * 1024, none⟩
  | .respondCompactProofOfTime => some ⟨100, 100 * 1024, none⟩
  | .newPeak => some ⟨200, 512, none⟩
  | .requestProofOfWeight => some ⟨5, 100, none⟩
  | .respondProofOfWeight => some ⟨5, 50 * 1024 * 1024, some (100 * 1024 * 1024)⟩
  | .requestBlock => some ⟨200, 100, none⟩
  | .rejectBlock => some ⟨200, 100, none⟩
  | .requestBlocks => some ⟨500, 100, none⟩
  | .respondBlocks => some ⟨100, 50 * 1024 * 1024, some (5 * 50 * 1024 * 1024)⟩
  | .rejectBlocks => some ⟨100, 100, none⟩
  | .respondBlock => some ⟨200, 2 * 1024 * 1024, some (10 * 2 * 1024 * 1024)⟩
  | .newUnfinishedBlock => some ⟨200, 100, none⟩
  | .requestUnfinishedBlock => some ⟨200, 100, none⟩
  | .respondUnfinishedBlock => some ⟨200, 2 * 1024 * 1024, some (10 * 2 * 1024 * 1024)⟩
  | .newSignagePointOrEndOfSubSlot => some ⟨200, 200, none⟩
  | .requestSignagePointOrEndOfSubSlot => some ⟨200, 200, none⟩
  | .respondSignagePoint => some ⟨200, 50 * 1024, none⟩
  | .respondEndOfSubSlot => some ⟨100, 50 * 1024, none⟩
  | .requestMempoolTransactions => some ⟨5, 1024 * 1024, none⟩
  | .requestCompactVdf => some ⟨200, 1024, none⟩
  | .respondCompactVdf => some ⟨200, 100 * 1024, none⟩
  | .newCompactVdf => some ⟨100, 1024, none⟩
  | .requestPeers => some ⟨10, 100, none⟩
  | .respondPeers => some ⟨10, 1 * 1024 * 1024, none⟩
  | .requestPuzzleSolution => some ⟨1000, 100, none⟩
  | .respondPuzzleSolution => some ⟨1000, 1024 * 1024, none⟩
  | .rejectPuzzleSolution => some ⟨1000, 100, none⟩
  | .newPeakWallet => some ⟨200, 300, none⟩
  | .requestBlockHeader => some ⟨500, 100, none⟩
  | .respondBlockHeader => some ⟨500, 500 * 1024, none⟩
  | .rejectHeaderRequest => some ⟨500, 100, none⟩
  | .requestRemovals => some ⟨500, 50 * 1024, some (10 * 1024 * 1024)⟩
  | .respondRemovals => some ⟨500, 1024 * 1024, some (10 * 1024 * 1024)⟩
  | .rejectRemovalsRequest => some ⟨500, 100, none⟩
  | .requestAdditions => some ⟨500, 1024 * 1024, some (10 * 1024 * 1024)⟩
  | .respondAdditions => some ⟨500, 1024 * 1024, some (10 * 1024 * 1024)⟩
  | .rejectAdditionsRequest => some ⟨500, 100, none⟩
  | .requestHeaderBlocks => some ⟨500, 100, none⟩
  | .rejectHeaderBlocks => some ⟨100, 100, none⟩
  | .respondHeaderBlocks => some ⟨500, 2 * 1024 * 1024, some (100 * 1024 * 1024)⟩
  | .requestPeersIntroducer => some ⟨100, 100, none⟩
  | .respondPeersIntroducer => some ⟨100, 1024 * 1024, none⟩
  | .farmNewBlock => some ⟨200, 200, none⟩
  | .requestPlots => some ⟨10, 10 * 1024 * 1024, none⟩
  | .respondPlots => some ⟨10, 100 * 1024 * 1024, none⟩
  | .plotSyncStart => some ⟨1000, 100 * 1024 * 1024, none⟩
  | .plotSyncLoaded => some ⟨1000, 100 * 1024 * 1024, none⟩
  | .plotSyncRemoved => some ⟨1000, 100 * 1024 * 1024, none⟩
  | .plotSyncInvalid => some ⟨1000, 100 * 1024 * 1024, none⟩
  | .plotSyncKeysMissing => some ⟨1000, 100 * 1024 * 1024, none⟩
  | .plotSyncDuplicates => some ⟨1000, 100 * 1024 * 1024, none⟩
  | .plotSyncDone => some ⟨1000, 100 * 1024 * 1024, none⟩
  | .plotSyncResponse => some ⟨3000, 100 * 1024 * 1024, none⟩
  | .coinStateUpdate => some ⟨1000, 100 * 1024 * 1024, none⟩
  | .registerInterestInPuzzleHash => some ⟨1000, 100 * 1024 * 1024, none⟩
  | .respondToPhUpdate => some ⟨1000, 100 * 1024 * 1024, none⟩
  | .registerInterestInCoin => some ⟨1000, 100 * 1024 * 1024, none⟩
  | .respondToCoinUpdate => some ⟨1000, 100 * 1024 * 1024, none⟩
  | .requestSesHashes => some ⟨2000, 1 * 1024 * 1024, none⟩
  | .respondSesHashes => some ⟨2000, 1 * 1024 * 1024, none⟩
  | .requestChildren => some ⟨2000, 1024 * 1024, none⟩
  | .respondChildren => some ⟨2000, 1 * 1024 * 1024, none⟩
  | _ => none

/-- The limits of a type: `limits = DEFAULT_SETTINGS` and what replaces it. -/
def limitsOf (messageType : ProtocolMessageTypes) : RLSettings :=
  match rateLimitsTx messageType with
  | some limits => limits
  | none => (rateLimitsOther messageType).getD DEFAULT_SETTINGS

/-- A type has a part in the limits of all types that are not about transactions. -/
def isNonTx (messageType : ProtocolMessageTypes) : Bool :=
  (rateLimitsTx messageType).isNone && (rateLimitsOther messageType).isSome

/-- `limits.max_total_size`, or what stands for it. -/
def RLSettings.totalSize (limits : RLSettings) : ℕ :=
  limits.maxTotalSize.getD (limits.frequency * limits.maxSize)

/-- `Message`. -/
structure Message where
  type : ℕ
  data : Bytes

/-- The counters of a limiter. -/
structure Counters where
  messageCounts : ProtocolMessageTypes → ℕ
  messageCumulativeSizes : ProtocolMessageTypes → ℕ
  nonTxMessageCounts : ℕ
  nonTxCumulativeSize : ℕ

namespace Counters

/-- The counters of a new window. -/
def zero : Counters := ⟨fun _ => 0, fun _ => 0, 0, 0⟩

/-- The counters with a message of some type and size. -/
def count (c : Counters) (messageType : ProtocolMessageTypes) (size : ℕ) : Counters where
  messageCounts := Function.update c.messageCounts messageType (c.messageCounts messageType + 1)
  messageCumulativeSizes :=
    Function.update c.messageCumulativeSizes messageType (c.messageCumulativeSizes messageType + size)
  nonTxMessageCounts := if isNonTx messageType then c.nonTxMessageCounts + 1 else c.nonTxMessageCounts
  nonTxCumulativeSize := if isNonTx messageType then c.nonTxCumulativeSize + size else c.nonTxCumulativeSize

/-- The checks of a message of some type and size, on the counters with it. -/
def allows (c : Counters) (proportionOfLimit : ℚ) (messageType : ProtocolMessageTypes) (size : ℕ) : Bool :=
  if isNonTx messageType ∧ (NON_TX_FREQ : ℚ) * proportionOfLimit < c.nonTxMessageCounts then false
  else if isNonTx messageType ∧ (NON_TX_MAX_TOTAL_SIZE : ℚ) * proportionOfLimit < c.nonTxCumulativeSize then false
  else if ((limitsOf messageType).frequency : ℚ) * proportionOfLimit < c.messageCounts messageType then false
  else if (limitsOf messageType).maxSize < size then false
  else if ((limitsOf messageType).totalSize : ℚ) * proportionOfLimit < c.messageCumulativeSizes messageType then false
  else true

end Counters

end RateLimits

open RateLimits

/-- `RateLimiter`. -/
structure RateLimiter where
  incoming : Bool
  resetSeconds : ℕ
  currentMinute : ℤ
  counters : Counters
  percentageOfLimit : ℕ

namespace RateLimiter

/-- The window of a time: `time // self.reset_seconds`. -/
def window (resetSeconds : ℕ) (time : ℚ) : ℤ := ⌊time / resetSeconds⌋

/-- `RateLimiter(incoming, reset_seconds, percentage_of_limit)` at a time. -/
def new (incoming : Bool) (resetSeconds percentageOfLimit : ℕ) (time : ℚ) : RateLimiter :=
  ⟨incoming, resetSeconds, window resetSeconds time, .zero, percentageOfLimit⟩

/-- `proportion_of_limit`. -/
def proportionOfLimit (s : RateLimiter) : ℚ := s.percentageOfLimit / 100

/-- The counters start again in a new window. -/
def startWindow (s : RateLimiter) (currentMinute : ℤ) : RateLimiter :=
  if currentMinute ≠ s.currentMinute then { s with currentMinute, counters := .zero } else s

/-- `process_msg_and_check` at a time. The counters are committed for every incoming message, and for an outgoing one
that is let through. -/
def processMsgAndCheck (s : RateLimiter) (time : ℚ) (message : Message) : Bool × RateLimiter :=
  let s := s.startWindow (window s.resetSeconds time)
  match ProtocolMessageTypes.ofValue message.type with
  | none => (true, s)
  | some messageType =>
    let new := s.counters.count messageType message.data.length
    let ret := new.allows s.proportionOfLimit messageType message.data.length
    (ret, if s.incoming || ret then { s with counters := new } else s)

/-- The messages that are let through, of those that are processed at their times. -/
def passed : RateLimiter → List (ℚ × Message) → List Message
  | _, [] => []
  | s, (time, message) :: messages =>
    let (ret, s) := s.processMsgAndCheck time message
    if ret then message :: passed s messages else passed s messages

end RateLimiter

/-! ## The limits -/

namespace RateLimits

/-- The type and the size of a message of a known type. -/
def known (message : Message) : Option (ProtocolMessageTypes × ℕ) :=
  (ProtocolMessageTypes.ofValue message.type).map fun t => (t, message.data.length)

/-- How many of some messages there are. -/
def countOf (p : ProtocolMessageTypes → Bool) (l : List (ProtocolMessageTypes × ℕ)) : ℕ := l.countP fun e => p e.1

/-- How many bytes some messages have together. -/
def bytesOf (p : ProtocolMessageTypes → Bool) (l : List (ProtocolMessageTypes × ℕ)) : ℕ :=
  ((l.filter fun e => p e.1).map Prod.snd).sum

/-- Messages keep the limits, with a proportion of them. -/
structure Within (proportionOfLimit : ℚ) (l : List (ProtocolMessageTypes × ℕ)) : Prop where
  frequency : ∀ t, (countOf (· = t) l : ℚ) ≤ (limitsOf t).frequency * proportionOfLimit
  size : ∀ e ∈ l, e.2 ≤ (limitsOf e.1).maxSize
  totalSize : ∀ t, (bytesOf (· = t) l : ℚ) ≤ (limitsOf t).totalSize * proportionOfLimit
  nonTxFrequency : (countOf isNonTx l : ℚ) ≤ NON_TX_FREQ * proportionOfLimit
  nonTxTotalSize : (bytesOf isNonTx l : ℚ) ≤ NON_TX_MAX_TOTAL_SIZE * proportionOfLimit

/-- Counters have at least the messages of a list. -/
structure Covers (c : Counters) (l : List (ProtocolMessageTypes × ℕ)) : Prop where
  counts : ∀ t, countOf (· = t) l ≤ c.messageCounts t
  sizes : ∀ t, bytesOf (· = t) l ≤ c.messageCumulativeSizes t
  nonTxCounts : countOf isNonTx l ≤ c.nonTxMessageCounts
  nonTxSizes : bytesOf isNonTx l ≤ c.nonTxCumulativeSize

/-- The counters of a list of messages. -/
def tally (l : List (ProtocolMessageTypes × ℕ)) : Counters where
  messageCounts t := countOf (· = t) l
  messageCumulativeSizes t := bytesOf (· = t) l
  nonTxMessageCounts := countOf isNonTx l
  nonTxCumulativeSize := bytesOf isNonTx l

variable {l l' : List (ProtocolMessageTypes × ℕ)} {c : Counters} {t : ProtocolMessageTypes} {size : ℕ} {p q : ℚ}

@[simp]
lemma countOf_append_singleton (f : ProtocolMessageTypes → Bool) (t : ProtocolMessageTypes) (size : ℕ) :
    countOf f (l ++ [(t, size)]) = countOf f l + if f t then 1 else 0 := by
  simp [countOf, List.countP_cons]

@[simp]
lemma bytesOf_append_singleton (f : ProtocolMessageTypes → Bool) (t : ProtocolMessageTypes) (size : ℕ) :
    bytesOf f (l ++ [(t, size)]) = bytesOf f l + if f t then size else 0 := by
  cases h : f t <;> simp [bytesOf, h]

lemma within_nil (hp : 0 ≤ p) : Within p [] := by
  constructor <;> simp [countOf, bytesOf] <;> intros <;> positivity

lemma covers_nil (c : Counters) : Covers c [] := by
  constructor <;> simp [countOf, bytesOf]

lemma tally_append (t : ProtocolMessageTypes) (size : ℕ) : tally (l ++ [(t, size)]) = (tally l).count t size := by
  unfold tally Counters.count
  congr 1
  · funext t'
    by_cases h : t = t'
    · subst h
      simp
    · simp [h, Function.update_of_ne (Ne.symm h)]
  · funext t'
    by_cases h : t = t'
    · subst h
      simp
    · simp [h, Function.update_of_ne (Ne.symm h)]
  · simp
    split <;> rfl
  · simp
    split <;> rfl

lemma allows_iff : c.allows p t size = true ↔
    (isNonTx t = true → (c.nonTxMessageCounts : ℚ) ≤ NON_TX_FREQ * p ∧
      (c.nonTxCumulativeSize : ℚ) ≤ NON_TX_MAX_TOTAL_SIZE * p) ∧
    (c.messageCounts t : ℚ) ≤ (limitsOf t).frequency * p ∧ size ≤ (limitsOf t).maxSize ∧
    (c.messageCumulativeSizes t : ℚ) ≤ (limitsOf t).totalSize * p := by
  unfold Counters.allows
  split_ifs <;> simp_all

lemma Covers.count (h : Covers c l) (t : ProtocolMessageTypes) (size : ℕ) :
    Covers (c.count t size) (l ++ [(t, size)]) := by
  constructor
  · intro t'
    have := h.counts t'
    by_cases ht : t = t'
    · subst ht
      simpa [Counters.count] using this
    · simpa [Counters.count, ht, Function.update_of_ne (Ne.symm ht)] using this
  · intro t'
    have := h.sizes t'
    by_cases ht : t = t'
    · subst ht
      simpa [Counters.count] using this
    · simpa [Counters.count, ht, Function.update_of_ne (Ne.symm ht)] using this
  · have := h.nonTxCounts
    by_cases ht : isNonTx t <;> simpa [Counters.count, ht] using this
  · have := h.nonTxSizes
    by_cases ht : isNonTx t <;> simpa [Counters.count, ht] using this

lemma Covers.mono (h : Covers c l) (t : ProtocolMessageTypes) (size : ℕ) : Covers (c.count t size) l := by
  have hcount := h.count t size
  constructor
  · intro t'
    have := hcount.counts t'
    simp only [countOf_append_singleton] at this
    omega
  · intro t'
    have := hcount.sizes t'
    simp only [bytesOf_append_singleton] at this
    omega
  · have := hcount.nonTxCounts
    simp only [countOf_append_singleton] at this
    omega
  · have := hcount.nonTxSizes
    simp only [bytesOf_append_singleton] at this
    omega

/-- **A message that is let through keeps the limits**, if the counters cover those before it. -/
lemma Within.append (h : Within p l) (hc : Covers c l) (hallows : (c.count t size).allows p t size = true) :
    Within p (l ++ [(t, size)]) := by
  obtain ⟨hnonTx, hcount, hsize, htotal⟩ := allows_iff.mp hallows
  have hcover := hc.count t size
  constructor
  · intro t'
    by_cases ht : t = t'
    · subst ht
      exact le_trans (by exact_mod_cast hcover.counts t) hcount
    · simpa [ht] using h.frequency t'
  · intro e he
    rcases List.mem_append.mp he with he | he
    · exact h.size e he
    · rw [List.mem_singleton.mp he]
      exact hsize
  · intro t'
    by_cases ht : t = t'
    · subst ht
      exact le_trans (by exact_mod_cast hcover.sizes t) htotal
    · simpa [ht] using h.totalSize t'
  · by_cases ht : isNonTx t = true
    · exact le_trans (by exact_mod_cast hcover.nonTxCounts) (hnonTx ht).1
    · simpa [ht] using h.nonTxFrequency
  · by_cases ht : isNonTx t = true
    · exact le_trans (by exact_mod_cast hcover.nonTxSizes) (hnonTx ht).2
    · simpa [ht] using h.nonTxTotalSize

lemma Within.left (h : Within p (l ++ l')) : Within p l := by
  have hcount : ∀ f, (countOf f l : ℚ) ≤ countOf f (l ++ l') := by
    intro f
    simp [countOf]
  have hsize : ∀ f, (bytesOf f l : ℚ) ≤ bytesOf f (l ++ l') := by
    intro f
    exact_mod_cast (by simp [bytesOf] : bytesOf f l ≤ bytesOf f (l ++ l'))
  constructor
  · intro t
    exact (hcount _).trans (h.frequency t)
  · intro e he
    exact h.size e (List.mem_append_left l' he)
  · intro t
    exact (hsize _).trans (h.totalSize t)
  · exact (hcount _).trans h.nonTxFrequency
  · exact (hsize _).trans h.nonTxTotalSize

lemma Within.mono (h : Within p l) (hpq : p ≤ q) : Within q l := by
  have hscale : ∀ n : ℕ, (n : ℚ) * p ≤ n * q := fun n => mul_le_mul_of_nonneg_left hpq (Nat.cast_nonneg n)
  constructor
  · intro t
    exact (h.frequency t).trans (hscale _)
  · exact h.size
  · intro t
    exact (h.totalSize t).trans (hscale _)
  · exact h.nonTxFrequency.trans (hscale _)
  · exact h.nonTxTotalSize.trans (hscale _)

lemma Within.allows (h : Within p (l ++ [(t, size)])) : ((tally l).count t size).allows p t size = true := by
  rw [← tally_append, allows_iff]
  exact ⟨fun _ => ⟨h.nonTxFrequency, h.nonTxTotalSize⟩, h.frequency t, h.size (t, size) (by simp), h.totalSize t⟩

end RateLimits

/-! ## The limiter -/

namespace RateLimiter

variable {s : RateLimiter} {messages : List (ℚ × Message)} {w : ℤ}

lemma processMsgAndCheck_eq {time : ℚ} (htime : window s.resetSeconds time = s.currentMinute) (message : Message) :
    s.processMsgAndCheck time message =
      match ProtocolMessageTypes.ofValue message.type with
      | none => (true, s)
      | some messageType =>
        let new := s.counters.count messageType message.data.length
        let ret := new.allows s.proportionOfLimit messageType message.data.length
        (ret, if s.incoming || ret then { s with counters := new } else s) := by
  unfold processMsgAndCheck startWindow
  rw [if_neg (not_not.mpr htime)]

lemma passed_startWindow (h : ∀ e ∈ messages, window s.resetSeconds e.1 = w) :
    passed (s.startWindow w) messages = passed s messages := by
  cases messages with
  | nil => rfl
  | cons e messages =>
    obtain ⟨time, message⟩ := e
    have htime : window s.resetSeconds time = w := h _ List.mem_cons_self
    have hreset : (s.startWindow w).resetSeconds = s.resetSeconds := by
      unfold startWindow
      split <;> rfl
    have htwice : (s.startWindow w).startWindow w = s.startWindow w := by
      unfold startWindow
      split_ifs <;> simp_all
    have hprocess : (s.startWindow w).processMsgAndCheck time message = s.processMsgAndCheck time message := by
      unfold processMsgAndCheck
      rw [hreset, htime, htwice]
    rw [passed, passed, hprocess]

/-- What is let through keeps the limits, together with what the counters cover.

**Proof sketch.** Induction on the messages. A message that is let through is counted, and one that is not may be; the
counters always cover what was let through. -/
lemma within_append_passed {p : ℚ} (hp : s.proportionOfLimit = p)
    (hmessages : ∀ e ∈ messages, window s.resetSeconds e.1 = s.currentMinute)
    {l : List (ProtocolMessageTypes × ℕ)} (hcovers : Covers s.counters l) (hl : Within p l) :
    Within p (l ++ (passed s messages).filterMap known) := by
  induction messages generalizing s l with
  | nil => simpa [passed] using hl
  | cons e messages ih =>
    obtain ⟨time, message⟩ := e
    have htime : window s.resetSeconds time = s.currentMinute := hmessages _ List.mem_cons_self
    have hrest : ∀ e ∈ messages, window s.resetSeconds e.1 = s.currentMinute := fun e he =>
      hmessages e (List.mem_cons_of_mem _ he)
    rw [passed, processMsgAndCheck_eq htime]
    cases htype : ProtocolMessageTypes.ofValue message.type with
    | none =>
      have hknown : known message = none := by simp [known, htype]
      simpa [hknown] using ih hp hrest hcovers hl
    | some t =>
      have hknown : known message = some (t, message.data.length) := by simp [known, htype]
      dsimp only
      rw [hp]
      cases hret : (s.counters.count t message.data.length).allows p t message.data.length with
      | true =>
        have := @ih { s with counters := s.counters.count t message.data.length } hp hrest _
          (hcovers.count t message.data.length) (hl.append hcovers hret)
        simpa [hknown, List.append_assoc] using this
      | false =>
        cases hincoming : s.incoming with
        | true =>
          have := @ih { s with counters := s.counters.count t message.data.length } hp hrest _
            (hcovers.mono t message.data.length) hl
          simpa [hincoming] using this
        | false => simpa [hincoming] using ih hp hrest hcovers hl

/-- **What is let through in a window keeps the limits**, whatever the limiter counted before. -/
theorem within_passed (h : ∀ e ∈ messages, window s.resetSeconds e.1 = w) :
    Within s.proportionOfLimit ((passed s messages).filterMap known) := by
  rw [← passed_startWindow h]
  have hsame : (s.startWindow w).resetSeconds = s.resetSeconds ∧ (s.startWindow w).currentMinute = w ∧
      (s.startWindow w).proportionOfLimit = s.proportionOfLimit := by
    unfold startWindow
    split_ifs with hw
    · exact ⟨rfl, rfl, rfl⟩
    · exact ⟨rfl, (not_not.mp hw).symm, rfl⟩
  have hnonneg : 0 ≤ s.proportionOfLimit := by
    unfold proportionOfLimit
    positivity
  have hwindow : ∀ e ∈ messages, window (s.startWindow w).resetSeconds e.1 = (s.startWindow w).currentMinute := by
    rw [hsame.1, hsame.2.1]
    exact h
  simpa using within_append_passed hsame.2.2 hwindow (covers_nil _) (within_nil hnonneg)

/-- A limiter has nothing counted in a window: it is in another one, or it is new. -/
def FreshIn (s : RateLimiter) (w : ℤ) : Prop := s.currentMinute ≠ w ∨ s.counters = .zero

lemma passed_of_tally {l : List (ProtocolMessageTypes × ℕ)} (hcounters : s.counters = tally l)
    (hmessages : ∀ e ∈ messages, window s.resetSeconds e.1 = s.currentMinute)
    (hwithin : Within s.proportionOfLimit (l ++ (messages.map Prod.snd).filterMap known)) :
    passed s messages = messages.map Prod.snd := by
  induction messages generalizing s l with
  | nil => rfl
  | cons e messages ih =>
    obtain ⟨time, message⟩ := e
    have htime : window s.resetSeconds time = s.currentMinute := hmessages _ List.mem_cons_self
    have hrest : ∀ e ∈ messages, window s.resetSeconds e.1 = s.currentMinute := fun e he =>
      hmessages e (List.mem_cons_of_mem _ he)
    rw [passed, processMsgAndCheck_eq htime]
    cases htype : ProtocolMessageTypes.ofValue message.type with
    | none =>
      have hknown : known message = none := by simp [known, htype]
      have := ih hcounters hrest (by simpa [hknown] using hwithin)
      simpa using this
    | some t =>
      have hknown : known message = some (t, message.data.length) := by simp [known, htype]
      have happend : Within s.proportionOfLimit
          (l ++ [(t, message.data.length)] ++ (messages.map Prod.snd).filterMap known) := by
        simpa [hknown] using hwithin
      have hret := happend.left.allows
      dsimp only
      rw [hcounters, hret]
      have := @ih { s with counters := (tally l).count t message.data.length } _ (tally_append t _).symm hrest happend
      simpa using this

/-- **A limiter that only sees messages within the limits lets them through.** -/
theorem passed_eq_of_within (hfresh : s.FreshIn w) (hmessages : ∀ e ∈ messages, window s.resetSeconds e.1 = w)
    (hwithin : Within s.proportionOfLimit ((messages.map Prod.snd).filterMap known)) :
    passed s messages = messages.map Prod.snd := by
  rw [← passed_startWindow hmessages]
  have hzero : (s.startWindow w).counters = tally [] := by
    have htally : tally [] = .zero := by
      unfold tally Counters.zero
      congr 1
    unfold startWindow
    split_ifs with hw
    · exact htally.symm
    · rcases hfresh with hne | hnew
      · exact absurd (not_not.mp hw).symm hne
      · rw [hnew, htally]
  have hsame : (s.startWindow w).resetSeconds = s.resetSeconds ∧ (s.startWindow w).currentMinute = w ∧
      (s.startWindow w).proportionOfLimit = s.proportionOfLimit := by
    unfold startWindow
    split_ifs with hw
    · exact ⟨rfl, rfl, rfl⟩
    · exact ⟨rfl, (not_not.mp hw).symm, rfl⟩
  exact passed_of_tally hzero (by rw [hsame.1, hsame.2.1]; exact hmessages) (by rw [hsame.2.2]; exact hwithin)

/-- **The limits hold over every window, and the two ends agree.** Whatever a limiter counted before, the messages that
it lets through in a window keep the limits. A limiter for incoming messages with at least the percentage of one for
outgoing messages, which has nothing counted in its window, lets through all the messages that the other one did. -/
theorem limits_hold (s : RateLimiter) (w : ℤ) (messages : List (ℚ × Message))
    (hmessages : ∀ e ∈ messages, window s.resetSeconds e.1 = w) :
    Within s.proportionOfLimit ((passed s messages).filterMap known) ∧
      (s.incoming = false → ∀ (r : RateLimiter) (w' : ℤ) (arrivals : List (ℚ × Message)), r.incoming = true →
        s.percentageOfLimit ≤ r.percentageOfLimit → r.FreshIn w' →
        (∀ e ∈ arrivals, window r.resetSeconds e.1 = w') → arrivals.map Prod.snd = passed s messages →
        passed r arrivals = passed s messages) := by
  have hwithin := within_passed hmessages
  refine ⟨hwithin, fun _ r w' arrivals _ hle hfresh harrivals hsent => ?_⟩
  have hproportion : s.proportionOfLimit ≤ r.proportionOfLimit := by
    unfold proportionOfLimit
    gcongr
  rw [← hsent] at hwithin ⊢
  exact passed_eq_of_within hfresh harrivals (hwithin.mono hproportion)

/-- Three handshakes in one minute. -/
def threeHandshakes : List (ℚ × Message) := [(121, ⟨1, [0]⟩), (122, ⟨1, [0]⟩), (123, ⟨1, [0]⟩)]

/-- A limiter that sends two of the five handshakes that are allowed. -/
def sender : RateLimiter := .new false 60 40 121

/-- A limiter that receives all five of them. -/
def receiver : RateLimiter := .new true 60 100 240

/-- Two handshakes are sent, and the receiver lets both through. -/
theorem limits_hold_threeHandshakes : (passed sender threeHandshakes).length = 2 ∧
    Within sender.proportionOfLimit ((passed sender threeHandshakes).filterMap known) ∧
      passed receiver ((passed sender threeHandshakes).map fun m => (245, m)) = passed sender threeHandshakes := by
  have htimes : (passed sender threeHandshakes).length = 2 ∧
      (∀ e ∈ threeHandshakes, window sender.resetSeconds e.1 = 2) ∧ window receiver.resetSeconds 245 = 4 := by
    decide +kernel
  obtain ⟨hlength, hsent, hreceived⟩ := htimes
  obtain ⟨hwithin, hagree⟩ := limits_hold sender 2 threeHandshakes hsent
  refine ⟨hlength, hwithin, hagree rfl receiver 4 _ rfl (by decide) (.inr rfl) ?_ (by simp)⟩
  intro e he
  obtain ⟨m, -, rfl⟩ := List.mem_map.mp he
  exact hreceived

end RateLimiter

end Chives
