import Chives.Consensus.SignagePointStart
import Chives.Timelord.HeaderLimits
import Chives.Wallet.WalletBlockchain

set_option autoImplicit false

/-!
# The parameters that the wallet validates a fork block with

The wallet keeps the iterations of a sub slot and the difficulty of its peak, and validates with them every header that
announces no new ones. On the chain of the header the two are those of its parent. So a valid block of another fork is
rejected exactly if it announces nothing and its parent has other parameters than the peak, as when the peak is past the
end of an epoch and the fork is not.

## Main definitions

* `WalletBlockchain.ValidOnChain` — a header that is valid on its own chain.
* `WalletBlockchain.ValidatesAs` — the wallet validates with the given parameters, and finds no error.

## Main results

* `WalletBlockchain.validatesAs_iff` — when it does so with the parameters of the header's chain.
* `WalletBlockchain.not_validatesForks` — it does not always.
-/

namespace Chives

namespace WalletBlockchain

open ExceptRun BlockRecords

section Parameters

variable (H : Hashes) (V : Verifiers) (constants : ConsensusConstants)

/-- `hb` extends the stored record `p` and is valid on its chain, where `get_next_sub_slot_iters_and_difficulty` gives
`subSlotIters` and `difficulty`. As in every block of a valid chain, `p` has the parameters that the chain starts with
if it is low. -/
structure ValidOnChain (t : WalletBlockchain) (hb : HeaderBlock) (now : ℕ) (p : BlockRecord)
    (subSlotIters difficulty : ℕ) : Prop where
  parent : t.blockRecords.get hb.prevHeaderHash = some p
  next : ∃ chain : BlockchainInterface, chain.records = t.blockRecords ∧
    getNextSubSlotItersAndDifficulty constants (decide (hb.finishedSubSlots ≠ [])) (some p) chain =
      .ok (subSlotIters, difficulty)
  valid : ∃ requiredIters, validateFinishedHeaderBlock H V constants t.blockRecords hb false difficulty subSlotIters
    false now = .ok requiredIters
  itersStarting : p.height < constants.EPOCH_BLOCKS → p.subSlotIters = constants.SUB_SLOT_ITERS_STARTING
  difficultyStarting : p.height + 1 + 3 * constants.MAX_SUB_SLOT_BLOCKS < constants.EPOCH_BLOCKS →
    prevDifficulty t.blockRecords p = .ok constants.DIFFICULTY_STARTING

/-- Unless the wallet has the header already, `receive_block` validates it with the given parameters; and it does not
return `INVALID_BLOCK`. -/
def ValidatesAs (t : WalletBlockchain) (hb : HeaderBlock) (now subSlotIters difficulty : ℕ) : Prop :=
  (t.containsBlock (hb.headerHash H) = false → t.expectedIters hb = .ok (subSlotIters, difficulty)) ∧
    ∀ e, (t.receiveBlock H V constants hb now).2 ≠ .ok (.invalidBlock e)

/-- Every header that extends a stored record and is valid on its own chain is validated with the parameters there. -/
def ValidatesForks (t : WalletBlockchain) : Prop :=
  ∀ (hb : HeaderBlock) (now : ℕ) (p : BlockRecord) (subSlotIters difficulty : ℕ),
    ValidOnChain H V constants t hb now p subSlotIters difficulty →
      ValidatesAs H V constants t hb now subSlotIters difficulty

/-- The first sub slot of the header announces new parameters. -/
def Announces (hb : HeaderBlock) : Prop :=
  (hb.finishedSubSlots.head?.bind fun slot => slot.challengeChain.newSubSlotIters).isSome = true

/-- The parameters that the wallet keeps are those of the record `p`. -/
def StoresParamsOf (t : WalletBlockchain) (p : BlockRecord) : Prop :=
  t.subSlotIters = some p.subSlotIters ∧ ∃ difficulty, prevDifficulty t.blockRecords p = .ok difficulty ∧
    t.difficulty = some difficulty

variable {H V constants} {t : WalletBlockchain} {hb : HeaderBlock} {now subSlotIters difficulty : ℕ} {p r : BlockRecord}

lemma addChecked_ne (e : Err) : (addChecked H constants t hb r).2 ≠ .ok (.invalidBlock e) := by
  unfold addChecked
  split
  · simp
  · split
    · unfold updatePeak
      repeat' split
      all_goals simp
    · simp

lemma expectedIters_stored (h : ¬Announces hb) : t.expectedIters hb = .ok (subSlotIters, difficulty) ↔
    t.subSlotIters = some subSlotIters ∧ t.difficulty = some difficulty := by
  have hnone := Option.not_isSome_iff_eq_none.mp h
  unfold expectedIters
  rw [hnone]
  cases t.subSlotIters with
  | none => simp
  | some iters =>
    cases t.difficulty with
    | none => simp
    | some d => simp

section Valid

variable (h : ValidOnChain H V constants t hb now p subSlotIters difficulty)

include h

/-- The announced parameters of a valid header are those of its chain, and if none are announced then no epoch ends. -/
lemma ValidOnChain.announced :
    (Announces hb → t.expectedIters hb = .ok (subSlotIters, difficulty)) ∧
      (¬Announces hb → EpochGoesOn constants t.blockRecords p (decide (hb.finishedSubSlots ≠ []))) := by
  obtain ⟨_, hvalid⟩ := h.valid
  obtain ⟨_, canFinishSe, canFinishEpoch, hepoch, hchecked, -⟩ := validateFinishedHeaderBlock_eq_ok hvalid
  obtain ⟨chain, hrecords, -⟩ := h.next
  rw [h.parent, ← hrecords] at hepoch hchecked
  rw [← hrecords]
  unfold expectedIters Announces
  cases hslots : hb.finishedSubSlots with
  | nil => exact ⟨fun hsome => by simp at hsome, fun _ => .inl (by simp)⟩
  | cons slot slots =>
    rw [hslots, List.length_cons, decide_eq_true (Nat.succ_pos _)] at hepoch hchecked
    unfold checkFinishedSubSlots at hchecked
    rw [if_neg (by simp)] at hchecked
    obtain ⟨out, hout, hsummary⟩ := bind_eq_ok.mp hchecked
    obtain ⟨hfirst, -, -⟩ := checkSlots_first hout
    obtain ⟨hiters, hdifficulty⟩ := checkSlots_params hout slot List.mem_cons_self
    simp only [List.head?_cons, Option.bind_some, hiters, hdifficulty]
    split
    · exact ⟨fun _ => rfl, fun hnone => absurd rfl hnone⟩
    · rename_i hnot
      refine ⟨fun hsome => absurd hsome (by simp), fun _ => .inr ⟨canFinishSe, ?_⟩⟩
      have hfinish : canFinishEpoch = false := by
        cases hses : out with
        | some hash => simpa [← hfirst, hses] using hnot
        | none =>
          rw [hses] at hsummary
          simpa using fun hfinish => rejectIf_eq_ok.mp hsummary (Or.inr hfinish)
      rw [← hfinish]
      exact heightAndEpoch_newSlot hepoch

lemma ValidOnChain.params_eq (hnone : ¬Announces hb) :
    subSlotIters = p.subSlotIters ∧ prevDifficulty t.blockRecords p = .ok difficulty := by
  obtain ⟨chain, hrecords, hnext⟩ := h.next
  have hgoes := h.announced.2 hnone
  rw [← hrecords] at hgoes
  refine ⟨subSlotIters_eq_of_next hnext h.itersStarting hgoes, ?_⟩
  obtain ⟨before, hbefore, ⟨-, rfl⟩ | ⟨hses, _, hd, -⟩⟩ := getNext_eq_ok hnext
  · rw [← hrecords, hbefore]
  · rcases getNextDifficulty_eq_ok hses hd with ⟨hlow, rfl⟩ | ⟨-, hsame⟩
    · exact h.difficultyStarting hlow
    · rw [← hrecords, hbefore, hsame hgoes]

lemma ValidOnChain.receiveBlock_ne (hexpected : t.expectedIters hb = .ok (subSlotIters, difficulty)) (e : Err) :
    (t.receiveBlock H V constants hb now).2 ≠ .ok (.invalidBlock e) := by
  obtain ⟨_, hvalid⟩ := h.valid
  unfold receiveBlock
  split
  · simp
  · rw [if_neg (by simp [containsBlock, h.parent])]
    unfold checkedRecord
    simp only [hexpected, ok_bind, hvalid]
    split
    · simp
    · rename_i hrecord
      split at hrecord
      · cases hrecord
      · cases hrecord
    · exact addChecked_ne e

/-- **Valid fork blocks**: a header that is valid on its chain is validated with the parameters of its chain, and not
found invalid, if and only if the wallet has it already, it announces new parameters, or the parameters that the
wallet keeps are those of its parent.

**Proof sketch.** What a valid header announces is what its chain gives. If it announces nothing then no epoch ends
before it, so its chain gives the parameters of the parent, and the wallet takes those that it keeps. -/
theorem validatesAs_iff : ValidatesAs H V constants t hb now subSlotIters difficulty ↔
    t.containsBlock (hb.headerHash H) = true ∨ Announces hb ∨ StoresParamsOf t p := by
  have hstores (hnone : ¬Announces hb) :
      t.expectedIters hb = .ok (subSlotIters, difficulty) ↔ StoresParamsOf t p := by
    obtain ⟨rfl, hdifficulty⟩ := h.params_eq hnone
    rw [expectedIters_stored hnone, StoresParamsOf, hdifficulty]
    simp
  constructor
  · rintro ⟨hexpected, -⟩
    cases hcontains : t.containsBlock (hb.headerHash H) with
    | true => exact .inl rfl
    | false =>
      by_cases hannounces : Announces hb
      · exact .inr (.inl hannounces)
      · exact .inr (.inr ((hstores hannounces).mp (hexpected hcontains)))
  · intro hcases
    by_cases hcontains : t.containsBlock (hb.headerHash H) = true
    · refine ⟨fun hfalse => by simp [hcontains] at hfalse, fun e => ?_⟩
      rw [receiveBlock, if_pos hcontains]
      simp
    · have hexpected : t.expectedIters hb = .ok (subSlotIters, difficulty) := by
        by_cases hannounces : Announces hb
        · exact h.announced.1 hannounces
        · exact (hstores hannounces).mpr ((hcases.resolve_left hcontains).resolve_left hannounces)
      exact ⟨fun _ => hexpected, h.receiveBlock_ne hexpected⟩

end Valid

end Parameters

/-! ## A fork before the end of an epoch -/

section ShortEpoch

/-- A wallet that has received the chain with an epoch of nine blocks, the last of which starts the second epoch. -/
def shortWallet : WalletBlockchain :=
  (List.range 10).foldl (fun t i => (t.receiveBlock acceptingTools.H acceptingTools.V shortConstants
    (getBlockHeader (fun _ => []) (shortBlock i) [] []) 0).1) (created none (some 64) (some 7) 0)

/-- Another block after the last but one block of that chain, in the same sub slot. -/
def shortFork : HeaderBlock :=
  let header := getBlockHeader (fun _ => []) (shortBlock 7) [] []
  { header with
    rewardChainBlock := { header.rewardChainBlock with
      height := 9
      weight := 70
      totalIters := 289 }
    foliage := { header.foliage with
      prevBlockHash := Bytes32.ofNat 9
      foliageBlockData := { header.foliage.foliageBlockData with
        communityRewardPuzzleHash := communityPuzzleHash shortConstants 9
        extensionData := Bytes32.ofNat 100 } } }

lemma shortWallet_records : shortWallet.blockRecords = (shortCache 10).records :=
  AList.ext (by decide +kernel)

lemma validOnChain_shortFork : ValidOnChain acceptingTools.H acceptingTools.V shortConstants shortWallet shortFork 0
    (shortRecord 8) 64 7 where
  parent := by
    rw [shortWallet_records]
    decide +kernel
  next := ⟨shortCache 10, shortWallet_records.symm, by decide +kernel⟩
  valid := by
    rw [shortWallet_records]
    exact ⟨1, by decide +kernel⟩
  itersStarting := by decide +kernel
  difficultyStarting := fun h => absurd h (by decide)

/-- The wallet keeps the parameters of the second epoch, and those are not the ones of the block's parent. -/
theorem validatesAs_shortFork : ¬ValidatesAs acceptingTools.H acceptingTools.V shortConstants shortWallet shortFork 0
    64 7 := by
  rw [validatesAs_iff validOnChain_shortFork]
  rintro (hcontains | hannounces | ⟨hiters, -⟩)
  · rw [containsBlock, shortWallet_records] at hcontains
    exact absurd hcontains (by decide +kernel)
  · exact absurd hannounces Bool.false_ne_true
  · exact absurd hiters (by decide +kernel)

/-- **A valid block of the first epoch is rejected**: its total iterations are not those that the wallet expects. -/
theorem not_validatesForks :
    ¬ValidatesForks acceptingTools.H acceptingTools.V shortConstants shortWallet := by
  intro h
  refine (h shortFork 0 _ _ _ validOnChain_shortFork).2 .invalidTotalIters ?_
  decide +kernel

end ShortEpoch

end WalletBlockchain

end Chives
