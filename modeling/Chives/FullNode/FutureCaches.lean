import Chives.FullNode.FullNodeStore
import Chives.FullNode.WeightProofHandler
import Chives.Library.Transition

set_option autoImplicit false

/-!
# The caches of what depends on unknown infusions

A full node keeps ends of slots, signage points and infusion points that depend on infusions it does not know, by the
challenge they wait for. `clear_old_cache_entries` forgets the challenges whose time in `future_cache_key_times` is over
an hour ago. Infusion points are kept without a time.

## Main definitions

* `FullNodeStore.StoreOp` — a call of a method of the store.
* `FullNodeStore.Cleanable` — every challenge of a cache has a time, so that all that is old can be forgotten.

## Main results

* `FullNodeStore.cleanable_iff` — in a run of calls everything is cleanable all the time exactly if every
  infusion point is added for a challenge that has a time already.
* `FullNodeStore.not_cleanable` — an infusion point that stays.
-/

namespace Chives

open StateRun

namespace FullNodeStore

/-- A challenge that something waits for. -/
def Caches (self : FullNodeStore) (k : Bytes32) : Prop :=
  (self.futureEosCache.get? k).isSome ∨ (self.futureSpCache.get? k).isSome ∨ (self.futureIpCache.get? k).isSome

/-- Every challenge that something waits for has a time. -/
def Timed (self : FullNodeStore) : Prop := ∀ k, self.Caches k → (self.futureCacheKeyTimes.get? k).isSome

/-- Every challenge that something waits for has a time, and after old entries are cleared this time is not older than
an hour. -/
structure Cleanable (s : FullNodeStore) : Prop where
  timed : s.Timed
  cleared : ∀ (now : ℤ) (k : Bytes32), (s.clearOldCacheEntries now).Caches k →
    ∃ t, s.futureCacheKeyTimes.get? k = some t ∧ now - t ≤ 3600

/-! ## What the methods keep -/

section Timed

variable {self : FullNodeStore} {now : ℤ} {k : Bytes32}

lemma Timed.congr {t : FullNodeStore} (h : self.Timed) (heos : t.futureEosCache = self.futureEosCache)
    (hsp : t.futureSpCache = self.futureSpCache) (hip : t.futureIpCache = self.futureIpCache)
    (htimes : t.futureCacheKeyTimes = self.futureCacheKeyTimes) : t.Timed := by
  intro k hk
  unfold Caches at hk
  rw [heos, hsp, hip] at hk
  rw [htimes]
  exact h k hk

lemma Timed.setEos (h : self.Timed) (v : List EndOfSubSlotBundle) :
    Timed { self with
      futureEosCache := self.futureEosCache.set k v
      futureCacheKeyTimes := self.futureCacheKeyTimes.set k now } := by
  intro k' hk'
  simp only [Caches, OrderedDict.get?_set] at hk' ⊢
  by_cases heq : k' = k
  · simp [heq]
  · rw [if_neg heq] at hk' ⊢
    exact h k' hk'

lemma Timed.setSp (h : self.Timed) (v : List (ℕ × SignagePoint)) :
    Timed { self with
      futureSpCache := self.futureSpCache.set k v
      futureCacheKeyTimes := self.futureCacheKeyTimes.set k now } := by
  intro k' hk'
  simp only [Caches, OrderedDict.get?_set] at hk' ⊢
  by_cases heq : k' = k
  · simp [heq]
  · rw [if_neg heq] at hk' ⊢
    exact h k' hk'

lemma isSome_of_inFutureSpCache {sp : SignagePoint} {rcVdf : VDFInfo} {index : ℕ} (hrc : sp.rcVdf = some rcVdf)
    (h : self.inFutureSpCache sp index = true) : ∃ l, self.futureSpCache.get? rcVdf.challenge = some l ∧ l ≠ [] := by
  simp only [inFutureSpCache, hrc] at h
  cases hget : self.futureSpCache.get? rcVdf.challenge with
  | none => simp [hget] at h
  | some l =>
    refine ⟨l, rfl, ?_⟩
    rintro rfl
    simp [hget] at h

/-- `add_to_future_sp` keeps the times.

If the challenge is new, its list is empty at first, so that the signage point is not in it and the time is set. -/
lemma Timed.addToFutureSp (h : self.Timed) (sp : SignagePoint) (index : ℕ) : (self.addToFutureSp now sp index).Timed := by
  unfold FullNodeStore.addToFutureSp
  cases hcc : sp.ccVdf <;> cases hrc : sp.rcVdf <;> cases hccp : sp.ccProof <;> cases hrcp : sp.rcProof <;> try exact h
  rename_i ccVdf rcVdf ccProof rcProof
  dsimp only
  by_cases hsome : (self.futureSpCache.get? rcVdf.challenge).isSome
  · rw [if_pos hsome]
    split
    · exact h
    · exact h.setSp _
  · rw [if_neg hsome]
    split
    · -- the list of a new challenge has no signage point
      rename_i hin
      obtain ⟨l, hl, hne⟩ := isSome_of_inFutureSpCache hrc hin
      simp [OrderedDict.get?_set] at hl
      exact absurd hl hne
    · intro k' hk'
      simp only [Caches, OrderedDict.get?_set] at hk' ⊢
      by_cases heq : k' = rcVdf.challenge
      · simp [heq]
      · simp only [if_neg heq] at hk' ⊢
        exact h k' hk'

/-- `add_to_future_ip` does not change the times. -/
lemma Timed.addToFutureIp_iff (h : self.Timed) (ip : NewInfusionPointVDF) :
    (self.addToFutureIp ip).Timed ↔ (self.futureCacheKeyTimes.get? ip.rewardChainIpVdf.challenge).isSome := by
  constructor
  · intro hip
    apply hip
    simp [Caches, FullNodeStore.addToFutureIp, OrderedDict.get?_set]
  · intro hip k' hk'
    simp only [Caches, FullNodeStore.addToFutureIp, OrderedDict.get?_set] at hk' ⊢
    by_cases heq : k' = ip.rewardChainIpVdf.challenge
    · rw [heq]
      exact hip
    · rw [if_neg heq] at hk'
      exact h k' hk'

lemma Timed.popFuture (h : self.Timed) (k : Bytes32) : (self.popFuture k).Timed := by
  intro k' hk'
  simp only [Caches, FullNodeStore.popFuture, OrderedDict.get?_erase] at hk' ⊢
  by_cases heq : k' = k
  · simp [heq] at hk'
  · simp only [if_neg heq] at hk'
    exact h k' hk'

/-- The challenges that are forgotten by `clear_old_cache_entries`. -/
def oldKeys (self : FullNodeStore) (now : ℤ) : List Bytes32 :=
  (self.futureCacheKeyTimes.entries.filter fun e => now - e.2 > 3600).map Prod.fst

lemma mem_oldKeys : k ∈ self.oldKeys now ↔ ∃ t, self.futureCacheKeyTimes.get? k = some t ∧ 3600 < now - t := by
  simp only [oldKeys, List.mem_map, List.mem_filter, decide_eq_true_eq, OrderedDict.get?_eq_some]
  constructor
  · rintro ⟨⟨k', t⟩, ⟨hmem, hold⟩, rfl⟩
    exact ⟨t, hmem, hold⟩
  · rintro ⟨t, hmem, hold⟩
    exact ⟨(k, t), ⟨hmem, hold⟩, rfl⟩

lemma foldl_popKey (keys : List Bytes32) (self : FullNodeStore) :
    (keys.foldl popKey self).futureCacheKeyTimes = keys.foldl OrderedDict.erase self.futureCacheKeyTimes ∧
    (keys.foldl popKey self).futureEosCache = keys.foldl OrderedDict.erase self.futureEosCache ∧
    (keys.foldl popKey self).futureSpCache = keys.foldl OrderedDict.erase self.futureSpCache ∧
    (keys.foldl popKey self).futureIpCache = keys.foldl OrderedDict.erase self.futureIpCache := by
  induction keys generalizing self with
  | nil => exact ⟨rfl, rfl, rfl, rfl⟩
  | cons k keys ih => exact ih (self.popKey k)

/-- What waits after `clear_old_cache_entries`. -/
lemma caches_clearOldCacheEntries :
    (self.clearOldCacheEntries now).Caches k ↔ self.Caches k ∧ k ∉ self.oldKeys now := by
  obtain ⟨-, heos, hsp, hip⟩ := foldl_popKey (self.oldKeys now) self
  rw [show self.clearOldCacheEntries now = (self.oldKeys now).foldl popKey self from rfl]
  unfold Caches
  rw [heos, hsp, hip, OrderedDict.get?_foldl_erase, OrderedDict.get?_foldl_erase, OrderedDict.get?_foldl_erase]
  by_cases hk : k ∈ self.oldKeys now
  · simp [hk]
  · simp [hk]

lemma Timed.clearOldCacheEntries (h : self.Timed) (now : ℤ) : (self.clearOldCacheEntries now).Timed := by
  intro k hk
  obtain ⟨hcaches, hold⟩ := caches_clearOldCacheEntries.mp hk
  rw [show self.clearOldCacheEntries now = (self.oldKeys now).foldl popKey self from rfl, (foldl_popKey _ self).1,
    OrderedDict.get?_foldl_erase, if_neg hold]
  exact h k hcaches

lemma cleanable_iff_timed : self.Cleanable ↔ self.Timed := by
  refine ⟨fun h => h.timed, fun h => ⟨h, fun now k hk => ?_⟩⟩
  obtain ⟨hcaches, hold⟩ := caches_clearOldCacheEntries.mp hk
  obtain ⟨t, ht⟩ := Option.isSome_iff_exists.mp (h k hcaches)
  refine ⟨t, ht, ?_⟩
  by_contra hlt
  exact hold (mem_oldKeys.mpr ⟨t, ht, by omega⟩)

end Timed

/-! ## The methods that may raise -/

section Programs

variable (H : Hashes) (V : Verifiers) (constants : ConsensusConstants)

/-- A program that keeps the times, whether it returns or raises. -/
def KeepsTimed {α : Type} (m : EStateM PyError FullNodeStore α) : Prop :=
  Triple Timed m (fun _ => Timed) fun _ => Timed

lemma keepsTimed_pure {α : Type} (a : α) : KeepsTimed (pure a) := Triple.pure fun _ hs => hs

lemma keepsTimed_throw {α : Type} (e : PyError) : KeepsTimed (throw e : EStateM PyError FullNodeStore α) :=
  Triple.throw fun _ hs => hs

lemma keepsTimed_lift {α : Type} (x : Except PyError α) : KeepsTimed (lift x) := by
  cases x with
  | error e => exact keepsTimed_throw e
  | ok a => exact keepsTimed_pure a

lemma keepsTimed_get : KeepsTimed (get : EStateM PyError FullNodeStore FullNodeStore) := Triple.get fun _ hs => hs

lemma keepsTimed_ensure (c : FullNodeStore → Prop) [DecidablePred c] (e : PyError) : KeepsTimed (ensure c e) := by
  intro s hs
  unfold ensure
  by_cases hc : c s
  · rw [if_pos hc]
    exact hs
  · rw [if_neg hc]
    exact hs

lemma KeepsTimed.bind {α β : Type} {m : EStateM PyError FullNodeStore α} {f : α → EStateM PyError FullNodeStore β}
    (hm : KeepsTimed m) (hf : ∀ a, KeepsTimed (f a)) : KeepsTimed (m >>= f) := Triple.bind hm hf

lemma keepsTimed_modify {f : FullNodeStore → FullNodeStore} (h : ∀ s : FullNodeStore, s.Timed → (f s).Timed) :
    KeepsTimed (modify f) :=
  Triple.modify h

/-- `new_finished_sub_slot` keeps the times. -/
lemma keepsTimed_newFinishedSubSlot (now : ℤ) (eos : EndOfSubSlotBundle) (blocks : BlockchainInterface)
    (peak : Option BlockRecord) (peakFullBlock : Option FullBlock) :
    KeepsTimed (newFinishedSubSlot H V constants now eos blocks peak peakFullBlock) := by
  unfold newFinishedSubSlot
  apply keepsTimed_get.bind
  intro self
  cases checkEos H V constants self.finishedSubSlots eos blocks peak peakFullBlock with
  | error e => exact keepsTimed_throw e
  | ok verdict =>
    cases verdict with
    | present => exact keepsTimed_pure _
    | rejected => exact keepsTimed_pure _
    | future rcChallenge =>
      apply (keepsTimed_modify _).bind fun _ => keepsTimed_pure _
      exact fun s hs => hs.setEos _
    | valid totalIters =>
      apply (keepsTimed_modify _).bind fun _ => keepsTimed_pure _
      exact fun s hs => hs.congr rfl rfl rfl rfl

/-- `new_signage_point` keeps the times. -/
lemma keepsTimed_newSignagePoint (now : ℤ) (index : ℕ) (blocks : BlockRecords) (peak : Option BlockRecord)
    (nextSubSlotIters : ℕ) (sp : SignagePoint) (skipVdfValidation : Bool) :
    KeepsTimed (newSignagePoint H V constants now index blocks peak nextSubSlotIters sp skipVdfValidation) := by
  unfold newSignagePoint
  apply keepsTimed_get.bind
  intro self
  cases checkSignagePoint H V constants self.finishedSubSlots index blocks peak nextSubSlotIters sp
    skipVdfValidation with
  | error e => exact keepsTimed_throw e
  | ok verdict =>
    cases verdict with
    | ignored => exact keepsTimed_pure _
    | future =>
      apply (keepsTimed_modify _).bind fun _ => keepsTimed_pure _
      exact fun s hs => hs.addToFutureSp sp index
    | valid position =>
      apply (keepsTimed_modify _).bind fun _ => keepsTimed_pure _
      exact fun s hs => hs.congr rfl rfl rfl rfl

lemma keepsTimed_setPeakSlots (peak : BlockRecord) (spSubSlot : Option EndOfSubSlotBundle)
    (ipSubSlot : EndOfSubSlotBundle) (forkBlock : Option BlockRecord) :
    KeepsTimed (setPeakSlots constants peak spSubSlot ipSubSlot forkBlock) := by
  have hmodify : ∀ g : FullNodeStore → List FinishedSubSlot,
      KeepsTimed (modify fun self => { self with finishedSubSlots := g self }) :=
    fun g => keepsTimed_modify fun s hs => hs.congr rfl rfl rfl rfl
  unfold setPeakSlots
  apply keepsTimed_get.bind
  intro self
  apply (keepsTimed_lift _).bind
  rintro ⟨spSps, ipSps⟩
  apply (hmodify _).bind
  intro _
  apply (keepsTimed_lift _).bind
  intro prevSubSlotTotalIters
  apply KeepsTimed.bind
  · split
    · exact (keepsTimed_ensure _ _).bind fun _ => hmodify _
    · exact keepsTimed_pure _
  · intro _
    apply (keepsTimed_lift _).bind
    intro ipIters
    apply (keepsTimed_lift _).bind
    intro ipSubSlotTotalIters
    exact hmodify _

lemma keepsTimed_tryFutureEos (now : ℤ) (blocks : BlockchainInterface) (peak : BlockRecord) (peakFullBlock : FullBlock)
    (bundles : List EndOfSubSlotBundle) :
    KeepsTimed (tryFutureEos H V constants now blocks peak peakFullBlock bundles) := by
  induction bundles with
  | nil => exact keepsTimed_pure _
  | cons eos rest ih =>
    apply (keepsTimed_newFinishedSubSlot H V constants now eos blocks _ _).bind
    intro result
    split
    · exact keepsTimed_pure _
    · exact ih

lemma keepsTimed_tryFutureSps (now : ℤ) (blocks : BlockRecords) (peak : BlockRecord) (sps : List (ℕ × SignagePoint)) :
    KeepsTimed (tryFutureSps H V constants now blocks peak sps) := by
  induction sps with
  | nil => exact keepsTimed_pure _
  | cons e rest ih =>
    apply (keepsTimed_ensure _ _).bind
    intro _
    apply (keepsTimed_newSignagePoint H V constants now e.1 blocks _ _ e.2 false).bind
    intro added
    exact ih.bind fun _ => keepsTimed_pure _

/-- `new_peak` keeps the times. -/
lemma keepsTimed_newPeak (now : ℤ) (peak : BlockRecord) (peakFullBlock : FullBlock)
    (spSubSlot ipSubSlot : Option EndOfSubSlotBundle) (forkBlock : Option BlockRecord) (blocks : BlockchainInterface) :
    KeepsTimed (newPeak H V constants now peak peakFullBlock spSubSlot ipSubSlot forkBlock blocks) := by
  unfold newPeak
  apply (keepsTimed_ensure _ _).bind
  intro _
  apply KeepsTimed.bind
  · cases ipSubSlot with
    | none => exact keepsTimed_modify fun s hs => hs.congr rfl rfl rfl rfl
    | some ipSubSlot => exact keepsTimed_setPeakSlots constants peak spSubSlot ipSubSlot forkBlock
  · intro _
    apply keepsTimed_get.bind
    intro self
    apply (keepsTimed_tryFutureEos H V constants now blocks peak peakFullBlock _).bind
    intro newEos
    apply keepsTimed_get.bind
    intro self
    apply (keepsTimed_tryFutureSps H V constants now blocks.records peak _).bind
    intro newSps
    apply keepsTimed_get.bind
    intro self
    apply (keepsTimed_modify fun s hs => hs.popFuture _).bind
    intro _
    apply KeepsTimed.bind _ fun _ => keepsTimed_pure _
    exact keepsTimed_modify fun s hs => hs.congr rfl rfl rfl rfl

end Programs

/-! ## Runs -/

section Runs

/-- A call of a method of the store. -/
inductive StoreOp
  | newFinishedSubSlot (now : ℤ) (eos : EndOfSubSlotBundle) (blocks : BlockchainInterface) (peak : Option BlockRecord)
      (peakFullBlock : Option FullBlock)
  | newSignagePoint (now : ℤ) (index : ℕ) (blocks : BlockRecords) (peak : Option BlockRecord) (nextSubSlotIters : ℕ)
      (signagePoint : SignagePoint) (skipVdfValidation : Bool)
  | addToFutureSp (now : ℤ) (signagePoint : SignagePoint) (index : ℕ)
  | addToFutureIp (infusionPoint : NewInfusionPointVDF)
  | newPeak (now : ℤ) (peak : BlockRecord) (peakFullBlock : FullBlock) (spSubSlot ipSubSlot : Option EndOfSubSlotBundle)
      (forkBlock : Option BlockRecord) (blocks : BlockchainInterface)
  | clearOldCacheEntries (now : ℤ)

variable (H : Hashes) (V : Verifiers) (constants : ConsensusConstants)

/-- The store after a call, which may have raised. -/
def callStore (self : FullNodeStore) : StoreOp → FullNodeStore
  | .newFinishedSubSlot now eos blocks peak peakFullBlock =>
    after (FullNodeStore.newFinishedSubSlot H V constants now eos blocks peak peakFullBlock self)
  | .newSignagePoint now index blocks peak nextSubSlotIters signagePoint skipVdfValidation =>
    after (FullNodeStore.newSignagePoint H V constants now index blocks peak nextSubSlotIters signagePoint
      skipVdfValidation self)
  | .addToFutureSp now signagePoint index => self.addToFutureSp now signagePoint index
  | .addToFutureIp infusionPoint => self.addToFutureIp infusionPoint
  | .newPeak now peak peakFullBlock spSubSlot ipSubSlot forkBlock blocks =>
    after (FullNodeStore.newPeak H V constants now peak peakFullBlock spSubSlot ipSubSlot forkBlock blocks self)
  | .clearOldCacheEntries now => self.clearOldCacheEntries now

/-- A call as a step of a run. Every method can be called in every state. -/
def storeStep (self : FullNodeStore) (op : StoreOp) : Option FullNodeStore := some (callStore H V constants self op)

/-- An infusion point is added for a challenge that has a time. -/
def IpTimed (self : FullNodeStore) (op : StoreOp) : Prop :=
  match op with
  | .addToFutureIp infusionPoint => (self.futureCacheKeyTimes.get? infusionPoint.rewardChainIpVdf.challenge).isSome
  | _ => True

lemma Timed.callStore_iff {self : FullNodeStore} (h : self.Timed) (op : StoreOp) :
    (callStore H V constants self op).Timed ↔ IpTimed self op := by
  cases op with
  | newFinishedSubSlot now eos blocks peak peakFullBlock =>
    exact iff_of_true ((keepsTimed_newFinishedSubSlot H V constants now eos blocks peak peakFullBlock).after h) trivial
  | newSignagePoint now index blocks peak nextSubSlotIters sp skipVdfValidation =>
    exact iff_of_true ((keepsTimed_newSignagePoint H V constants now index blocks peak nextSubSlotIters sp
      skipVdfValidation).after h) trivial
  | addToFutureSp now sp index => exact iff_of_true (h.addToFutureSp sp index) trivial
  | addToFutureIp ip => exact h.addToFutureIp_iff ip
  | newPeak now peak peakFullBlock spSubSlot ipSubSlot forkBlock blocks =>
    exact iff_of_true ((keepsTimed_newPeak H V constants now peak peakFullBlock spSubSlot ipSubSlot forkBlock
      blocks).after h) trivial
  | clearOldCacheEntries now => exact iff_of_true (h.clearOldCacheEntries now) trivial

lemma timed_new : (new constants).Timed := by
  intro k hk
  simp [Caches, new] at hk

/-- **When the caches can always be cleaned.** In every state of a run every challenge has a time and old entries are
forgotten, exactly if the run adds no infusion point for a challenge without a time.

**Proof sketch.** All other calls keep the times. One that adds an infusion point does not change the times, so that it
needs one for the challenge. -/
theorem cleanable_iff (ops : List StoreOp) :
    (∀ l rest t, ops = l ++ rest → Transition.run (storeStep H V constants) (new constants) l = some t → t.Cleanable) ↔
      Transition.Along (storeStep H V constants) IpTimed (new constants) ops := by
  have hgeneral : ∀ s : FullNodeStore, s.Timed → ∀ ops : List StoreOp,
      (∀ l rest t, ops = l ++ rest → Transition.run (storeStep H V constants) s l = some t → t.Timed) ↔
        Transition.Along (storeStep H V constants) IpTimed s ops := by
    intro s hs ops
    induction ops generalizing s with
    | nil =>
      refine iff_of_true (fun l rest t hl ht => ?_) trivial
      obtain rfl : l = [] := (List.append_eq_nil_iff.mp hl.symm).1
      obtain rfl := Option.some.inj ht
      exact hs
    | cons op ops ih =>
      have hcall := hs.callStore_iff H V constants op
      constructor
      · intro h
        have hop : IpTimed s op := hcall.mp (h [op] ops _ rfl rfl)
        refine ⟨hop, fun t ht => ?_⟩
        obtain rfl := Option.some.inj ht
        exact (ih _ (hcall.mpr hop)).mp fun l rest t hl hrun => h (op :: l) rest t (by rw [hl, List.cons_append]) hrun
      · rintro ⟨hop, hrest⟩ l rest t hl hrun
        have htail := (ih _ (hcall.mpr hop)).mpr (hrest _ rfl)
        cases l with
        | nil =>
          obtain rfl := Option.some.inj hrun
          exact hs
        | cons op' l =>
          rw [List.cons_append] at hl
          obtain ⟨rfl, hops⟩ := List.cons.inj hl
          exact htail l rest t hops hrun
  rw [← hgeneral _ (timed_new constants)]
  simp only [cleanable_iff_timed]

end Runs

/-! ## An infusion point that stays -/

/-- An infusion point whose challenge nothing else waits for. -/
def strayInfusionPoint : NewInfusionPointVDF where
  unfinishedRewardHash := Bytes32.zero
  challengeChainIpVdf := ⟨Bytes32.zero, 1, defaultElement⟩
  challengeChainIpProof := ⟨0, [], false⟩
  rewardChainIpVdf := ⟨Bytes32.zero, 1, defaultElement⟩
  rewardChainIpProof := ⟨0, [], false⟩
  infusedChallengeChainIpVdf := none
  infusedChallengeChainIpProof := none

/-- **An entry that is never forgotten.** An infusion point that comes before its block has no time. -/
theorem not_cleanable :
    ¬∀ (H : Hashes) (V : Verifiers) (constants : ConsensusConstants) (ops : List StoreOp) (t : FullNodeStore),
      Transition.run (storeStep H V constants) (new constants) ops = some t → t.Cleanable := by
  intro h
  have hclean := h WeightProofHandler.sampleHashes WeightProofHandler.sampleVerifiers defaultConstants
    [.addToFutureIp strayInfusionPoint] _ rfl
  have htimed := hclean.timed Bytes32.zero (Or.inr (Or.inr rfl))
  cases htimed

end FullNodeStore

end Chives
