import Chives.Wallet.WalletHeightMap

set_option autoImplicit false

/-!
# The short sync of the wallet

`wallet_short_sync_backtrack` of `wallet/wallet_node.py`: headers are fetched back to one whose previous block is in the
cache, the wallet is rolled back to that block, and the headers are received.

## Main definitions

* `WalletBlockchain.Call`, `WalletBlockchain.Outcome` — a call and what it does.
* `WalletBlockchain.shortSyncBacktrack` — the method.
* `WalletBlockchain.RollsBack` — the wallet was rolled back to the last common ancestor of the old and the new
  peak, or further, unless the new one descends from the old one.
* `WalletBlockchain.CachedOnOldChain` — the ancestors of the new peak in the cache are on the old chain.

## Main results

* `WalletBlockchain.rollsBack_iff` — a call that changes the peak rolls back exactly under the condition.
* `WalletBlockchain.run_rollsBack_iff` — so do the calls of all runs.
* `WalletBlockchain.not_rollsBack_backAgain` — a peak on another branch and back again.
-/

namespace Chives

namespace WalletBlockchain

/-- A call: the new header, the headers that the peer answers with, when they are received, and whether the rollback of
the wallet's stores raises an exception. -/
structure Call where
  header : HeaderBlock
  responses : List HeaderBlock
  times : ℕ → ℕ
  rollbackFails : Bool

/-- Why a call raises an exception. -/
inductive CallFailure
  | badResponse
  | rollbackFailed
  | lighter
  | invalidBlock (e : Err)
  | receive (e : Failure)

/-- What a call does: the state, the heights that `perform_atomic_rollback` was called with, and what it returns. -/
structure Outcome where
  state : WalletBlockchain
  rollbacks : List ℤ
  result : Except CallFailure ℤ

/-- The condition of the loop that fetches headers. -/
def Missing (t : WalletBlockchain) (top : HeaderBlock) : Prop :=
  ¬ t.containsBlock top.prevHeaderHash = true ∧ top.height > 0

instance decidableMissing (t : WalletBlockchain) (top : HeaderBlock) : Decidable (t.Missing top) :=
  inferInstanceAs (Decidable (_ ∧ _))

/-- The loop that fetches headers, with the fork height and the headers so far, the last one first. -/
def backtrackFrom (t : WalletBlockchain) (top : HeaderBlock) (forkHeight : ℤ) (blocks : List HeaderBlock) :
    List HeaderBlock → Option (ℤ × List HeaderBlock)
  | [] => if t.Missing top then none else some (forkHeight, blocks)
  | prevHead :: responses =>
    if t.Missing top then t.backtrackFrom prevHead ((prevHead.height : ℤ) - 1) (prevHead :: blocks) responses
    else some (forkHeight, blocks)

/-- The fork height before the loop. -/
def startHeight (t : WalletBlockchain) (header : HeaderBlock) : ℤ :=
  if t.containsBlock header.prevHeaderHash then (header.height : ℤ) - 1 else 0

section Methods

variable (H : Hashes) (V : Verifiers) (constants : ConsensusConstants)

/-- The loop that receives the headers. -/
def receiveBlocks (t : WalletBlockchain) (times : ℕ → ℕ) :
    List HeaderBlock → WalletBlockchain × Except CallFailure Unit
  | [] => (t, .ok ())
  | hb :: blocks =>
    match t.receiveBlock H V constants hb (times blocks.length) with
    | (t, .error e) => (t, .error (.receive e))
    | (t, .ok (.invalidBlock e)) => (t, .error (.invalidBlock e))
    | (t, .ok _) => t.receiveBlocks times blocks

/-- What `perform_atomic_rollback` does to the blockchain. -/
def rolledBack (t : WalletBlockchain) (height : ℤ) : WalletBlockchain :=
  (t.setFinishedSyncUpTo constants height true true).cleanBlockRecords constants

/-- The end of the method, after the rollback if there is one. -/
def receiveAll (t : WalletBlockchain) (c : Call) (peak : Option HeaderBlock) (forkHeight : ℤ)
    (blocks : List HeaderBlock) (rollbacks : List ℤ) : Outcome :=
  if ∃ old ∈ peak, c.header.weight < old.weight then ⟨t, rollbacks, .error .lighter⟩
  else
    match t.receiveBlocks H V constants c.times blocks with
    | (t, .error e) => ⟨t, rollbacks, .error e⟩
    | (t, .ok _) => ⟨t, rollbacks, .ok forkHeight⟩

/-- `wallet_short_sync_backtrack`. -/
def shortSyncBacktrack (t : WalletBlockchain) (c : Call) : Outcome :=
  match t.backtrackFrom c.header (t.startHeight c.header) [c.header] c.responses with
  | none => ⟨t, [], .error .badResponse⟩
  | some (forkHeight, blocks) =>
    if forkHeight < t.getPeakHeight then
      if c.rollbackFails then ⟨t, [forkHeight], .error .rollbackFailed⟩
      else (t.rolledBack constants forkHeight).receiveAll H V constants c t.peak forkHeight blocks [forkHeight]
    else t.receiveAll H V constants c t.peak forkHeight blocks []

/-- The state after some calls. -/
def afterCalls (t : WalletBlockchain) (calls : List Call) : WalletBlockchain :=
  calls.foldl (fun t c => (t.shortSyncBacktrack H V constants c).state) t

end Methods

section Claim

variable (H : Hashes) (T : HashTree Bytes32)

/-- The headers of a call are those of blocks of the tree. -/
def Call.InTree (c : Call) : Prop := HeaderIn H T c.header ∧ ∀ hb ∈ c.responses, HeaderIn H T hb

/-- **The wallet was rolled back**: the new header descends from the old peak, or there was a rollback to a height up to
which both have the same ancestors, that is at most that of the last common one. -/
def RollsBack (old : Option HeaderBlock) (header : HeaderBlock) (rollbacks : List ℤ) : Prop :=
  ∀ peak ∈ old, T.Below (peak.headerHash H) (header.headerHash H) ∨
    ∃ r ∈ rollbacks, T.CommonUpTo (peak.headerHash H) (header.headerHash H) r

/-- The new header descends from the old peak, or its ancestors that are in the cache are on the chain of the old peak; a
header of height 0 is on that chain, or what it has for its previous block is in the cache. -/
def CachedOnOldChain (t : WalletBlockchain) (header : HeaderBlock) : Prop :=
  ∀ peak ∈ t.peak, T.Below (peak.headerHash H) (header.headerHash H) ∨
    (header.height = 0 → header.prevHeaderHash ∈ t.hashes ∨
      T.Below (header.headerHash H) (peak.headerHash H)) ∧
    ∀ a ∈ t.hashes, T.Below a (header.headerHash H) → a ≠ header.headerHash H → T.Below a (peak.headerHash H)

end Claim

variable {H : Hashes} {V : Verifiers} {constants : ConsensusConstants} {T : HashTree Bytes32}
variable {t u : WalletBlockchain} {hb : HeaderBlock}

/-! ## The headers that are fetched -/

lemma not_missing_iff : ¬ t.Missing hb ↔ hb.prevHeaderHash ∈ t.hashes ∨ hb.height = 0 := by
  rw [Missing, containsBlock_iff]
  constructor
  · intro h
    by_contra hnot
    push Not at hnot
    exact h ⟨hnot.1, by omega⟩
  · rintro (h | h) ⟨hprev, hpos⟩
    · exact hprev h
    · omega

variable {forkHeight fork : ℤ} {blocks responses : List HeaderBlock}

/-- **What the loop fetches**: only the last header is one whose previous block is in the cache or whose height is 0, and
the fork height is one below it. -/
lemma backtrackFrom_spec {top : HeaderBlock} {rest : List HeaderBlock}
    (hfork : ¬ t.Missing top → forkHeight = (top.height : ℤ) - 1)
    (h : t.backtrackFrom top forkHeight (top :: rest) responses = some (fork, blocks)) :
    ∃ last earlier, blocks = last :: earlier ∧ ¬ t.Missing last ∧ fork = (last.height : ℤ) - 1 ∧
      ∀ hb ∈ earlier, hb ∈ rest ∨ t.Missing hb := by
  induction responses generalizing top forkHeight rest with
  | nil =>
    rw [backtrackFrom] at h
    split at h
    · cases h
    · rename_i hlast
      obtain ⟨rfl, rfl⟩ := Prod.mk.inj (Option.some.inj h)
      exact ⟨top, rest, rfl, hlast, hfork hlast, fun hb hmem => .inl hmem⟩
  | cons prevHead responses ih =>
    rw [backtrackFrom] at h
    split at h
    · rename_i htop
      obtain ⟨last, earlier, hblocks, hlast, hheight, hearlier⟩ := ih (fun _ => rfl) h
      refine ⟨last, earlier, hblocks, hlast, hheight, fun hb hmem => ?_⟩
      rcases hearlier hb hmem with hmem | hmissing
      · rcases List.mem_cons.mp hmem with rfl | hmem
        · exact .inr htop
        · exact .inl hmem
      · exact .inr hmissing
    · rename_i hlast
      obtain ⟨rfl, rfl⟩ := Prod.mk.inj (Option.some.inj h)
      exact ⟨top, rest, rfl, hlast, hfork hlast, fun hb hmem => .inl hmem⟩

lemma mem_of_backtrackFrom {top : HeaderBlock} {start : List HeaderBlock}
    (h : t.backtrackFrom top forkHeight start responses = some (fork, blocks)) :
    ∀ hb ∈ blocks, hb ∈ start ∨ hb ∈ responses := by
  induction responses generalizing top forkHeight start with
  | nil =>
    rw [backtrackFrom] at h
    split at h
    · cases h
    · obtain ⟨rfl, rfl⟩ := Prod.mk.inj (Option.some.inj h)
      exact fun hb hmem => .inl hmem
  | cons prevHead responses ih =>
    rw [backtrackFrom] at h
    split at h
    · intro hb hmem
      rcases ih h hb hmem with hmem | hmem
      · rcases List.mem_cons.mp hmem with rfl | hmem
        · exact .inr List.mem_cons_self
        · exact .inl hmem
      · exact .inr (List.mem_cons_of_mem _ hmem)
    · obtain ⟨rfl, rfl⟩ := Prod.mk.inj (Option.some.inj h)
      exact fun hb hmem => .inl hmem

/-! ## The headers that are received -/

lemma hashes_cleanBlockRecords_subset (constants : ConsensusConstants) (t : WalletBlockchain) :
    (t.cleanBlockRecords constants).hashes ⊆ t.hashes := by
  intro x hx
  obtain ⟨r, hr⟩ := mem_keySet.mp hx
  rw [get_cleanBlockRecords] at hr
  split at hr
  · exact mem_keySet.mpr ⟨r, hr⟩
  · exact mem_keySet.mpr ⟨r, (Option.filter_eq_some_iff.mp hr).1⟩

lemma peak_cleanBlockRecords (constants : ConsensusConstants) (t : WalletBlockchain) :
    (t.cleanBlockRecords constants).peak = t.peak := by
  rw [cleanBlockRecords_eq]

/-- What may have happened to the peak and the cache. -/
structure Changed (H : Hashes) (hb : HeaderBlock) (t u : WalletBlockchain) : Prop where
  peak : u.peak = t.peak ∨ u.peak = some hb
  hashes : u.hashes ⊆ insert (hb.headerHash H) t.hashes

variable {peak : HeaderBlock}

lemma changed_updatePeak {r : BlockRecord} (hsubset : t.hashes ⊆ insert (hb.headerHash H) u.hashes)
    (hpeak : t.peak = u.peak) : Changed H hb u (t.updatePeak H constants hb r peak).1 := by
  rw [updatePeak]
  split
  · exact ⟨.inl hpeak, hsubset⟩
  · split
    · exact ⟨.inl hpeak, hsubset⟩
    · split
      · exact ⟨.inl hpeak, hsubset⟩
      · split
        · exact ⟨.inl hpeak, hsubset⟩
        · refine ⟨.inr (peak_cleanBlockRecords _ _), ?_⟩
          exact (hashes_cleanBlockRecords_subset _ _).trans hsubset

/-- **A header is received**: nothing changes, or its previous block is in the cache or its height is 0, and it may be in
the cache and be the peak. -/
lemma changed_receiveBlock (t : WalletBlockchain) (hb : HeaderBlock) (now : ℕ) :
    (t.receiveBlock H V constants hb now).1 = t ∨
      (hb.prevHeaderHash ∈ t.hashes ∨ hb.height = 0) ∧ Changed H hb t (t.receiveBlock H V constants hb now).1 := by
  rw [receiveBlock]
  split
  · exact .inl rfl
  split
  · exact .inl rfl
  rename_i hprev
  split
  · exact .inl rfl
  · exact .inl rfl
  rename_i r hchecked
  obtain ⟨hr, -⟩ := checkedRecord_eq_ok hchecked
  refine .inr ⟨not_missing_iff.mp hprev, ?_⟩
  have hadded : (t.addBlockRecord r).hashes ⊆ insert (hb.headerHash H) t.hashes := by
    rw [hashes_addBlockRecord, hr.headerHash]
  rw [addChecked]
  split
  · exact ⟨.inr rfl, hadded⟩
  · split
    · exact changed_updatePeak hadded rfl
    · exact ⟨.inl rfl, hadded⟩

/-- The ancestors of a block in a cache are at the fork height or lower, and one of them is at the fork height unless it
is negative. -/
structure Attached (T : HashTree Bytes32) (K : Finset Bytes32) (fork : ℤ) (x : Bytes32) : Prop where
  le : ∀ a ∈ K, T.Below a x → a ≠ x → (T.height a : ℤ) ≤ fork
  exists_eq : 0 ≤ fork → ∃ a ∈ K, T.Below a x ∧ a ≠ x ∧ (T.height a : ℤ) = fork

lemma attached_of_not_missing (hb' : HeaderIn H T hb) (h : ¬ t.Missing hb) :
    Attached T t.hashes ((hb.height : ℤ) - 1) (hb.headerHash H) := by
  have hheight := hb'.height
  refine ⟨fun a _ hbelow hne => ?_, fun hpos => ?_⟩
  · have hle := hbelow.1
    have hneHeight : T.height a ≠ T.height (hb.headerHash H) := fun heq => hne (hbelow.eq_of_height (.refl _) heq)
    omega
  · have hparent := T.height_parent (hb.headerHash H) (by omega)
    refine ⟨hb.prevHeaderHash, (not_missing_iff.mp h).resolve_right (by omega), ?_, ?_, ?_⟩
    · rw [← hb'.parent]
      exact .of_parent (by omega) (.refl _)
    · intro heq
      rw [hb'.parent, heq] at hparent
      omega
    · rw [← hb'.parent]
      omega

lemma Attached.next (h : Attached T t.hashes fork hb.prevHeaderHash) (hb' : HeaderIn H T hb)
    (hmissing : t.Missing hb) : Attached T t.hashes fork (hb.headerHash H) := by
  have hheight := hb'.height
  have hprev : hb.prevHeaderHash ∉ t.hashes := fun hmem => hmissing.1 (containsBlock_iff.mpr hmem)
  have hpos : T.height (hb.headerHash H) ≠ 0 := by
    have hpos := hmissing.2
    omega
  have hparent := T.height_parent (hb.headerHash H) hpos
  refine ⟨fun a ha hbelow hne => ?_, fun hfork => ?_⟩
  · obtain ⟨-, hbelow⟩ := hbelow.eq_or_parent.resolve_left hne
    rw [hb'.parent] at hbelow
    exact h.le a ha hbelow fun heq => hprev (heq ▸ ha)
  · obtain ⟨a, ha, hbelow, -, heq⟩ := h.exists_eq hfork
    rw [← hb'.parent] at hbelow
    refine ⟨a, ha, .of_parent hpos hbelow, ?_, heq⟩
    rintro rfl
    have hle := hbelow.1
    omega

/-- **A peak that is received** is attached to the cache at the fork height.

**Proof sketch.** Induction on the headers: a new block in the cache is attached, since its previous block was in the
cache before the call, or is attached itself. -/
lemma attached_of_receiveBlocks {s : WalletBlockchain} {times : ℕ → ℕ}
    (hcache : ∀ x ∈ s.hashes, x ∈ t.hashes ∨ Attached T t.hashes fork x)
    (hblocks : ∀ b ∈ blocks, HeaderIn H T b ∧ (¬ t.Missing b → fork = (b.height : ℤ) - 1))
    (hpeak : (s.receiveBlocks H V constants times blocks).1.peak = some hb) :
    s.peak = some hb ∨ Attached T t.hashes fork (hb.headerHash H) := by
  induction blocks generalizing s with
  | nil => exact .inl hpeak
  | cons b rest ih =>
    obtain ⟨hbIn, hlast⟩ := hblocks b List.mem_cons_self
    have hstep : ∀ u : WalletBlockchain, (s.receiveBlock H V constants b (times rest.length)).1 = u →
        (∀ x ∈ u.hashes, x ∈ t.hashes ∨ Attached T t.hashes fork x) ∧
          (u.peak = some hb → s.peak = some hb ∨ Attached T t.hashes fork (hb.headerHash H)) := by
      rintro u rfl
      rcases @changed_receiveBlock H V constants s b (times rest.length) with heq | ⟨haccepted, hchanged⟩
      · rw [heq]
        exact ⟨hcache, fun hp => .inl hp⟩
      have hattached : Attached T t.hashes fork (b.headerHash H) := by
        by_cases hmissing : t.Missing b
        · have hprev := haccepted.resolve_right (Nat.pos_iff_ne_zero.mp hmissing.2)
          refine Attached.next ?_ hbIn hmissing
          exact (hcache _ hprev).resolve_left fun hmem => hmissing.1 (containsBlock_iff.mpr hmem)
        · rw [hlast hmissing]
          exact attached_of_not_missing hbIn hmissing
      refine ⟨fun x hx => ?_, fun hp => ?_⟩
      · rcases Finset.mem_insert.mp (hchanged.hashes hx) with rfl | hx
        · exact .inr hattached
        · exact hcache x hx
      · rcases hchanged.peak with hsame | hnew
        · exact .inl (hsame.symm.trans hp)
        · obtain rfl := Option.some.inj (hnew.symm.trans hp)
          exact .inr hattached
    rw [receiveBlocks] at hpeak
    split at hpeak
    · rename_i u e hreceive
      exact (hstep u (by rw [hreceive])).2 hpeak
    · rename_i u e hreceive
      exact (hstep u (by rw [hreceive])).2 hpeak
    · rename_i u result _ hreceive
      obtain ⟨hcache, hafter⟩ := hstep u (by rw [hreceive])
      rcases ih hcache (fun b hb => hblocks b (List.mem_cons_of_mem _ hb)) hpeak with hp | hattached
      · exact hafter hp
      · exact .inr hattached

/-! ## The rollback -/

variable {rollbacks : List ℤ}

/-- **The rollback is right exactly if the cached ancestors are on the old chain**, for a new peak that is attached to
the cache at the fork height. -/
lemma rollsBack_iff_of_attached (hpeakIn : HeaderIn H T peak) (hattached : Attached T t.hashes fork (hb.headerHash H))
    (hrollbacks : rollbacks = if fork < peak.height then [fork] else []) :
    (T.Below (peak.headerHash H) (hb.headerHash H) ∨
      ∃ r ∈ rollbacks, T.CommonUpTo (peak.headerHash H) (hb.headerHash H) r) ↔
    T.Below (peak.headerHash H) (hb.headerHash H) ∨ ∀ a ∈ t.hashes, T.Below a (hb.headerHash H) →
      a ≠ hb.headerHash H → T.Below a (peak.headerHash H) := by
  have hheight := hpeakIn.height
  constructor
  · rintro (hbelow | ⟨r, hr, hcommon⟩)
    · exact .inl hbelow
    · right
      intro a ha hbelow hne
      rw [hrollbacks] at hr
      split at hr
      · obtain rfl := List.mem_singleton.mp hr
        obtain ⟨hle, -, heq⟩ := hcommon (T.height a) (hattached.le a ha hbelow hne)
        exact ⟨hle, heq.trans hbelow.2⟩
      · cases hr
  · rintro (hbelow | hcached)
    · exact .inl hbelow
    · by_cases hneg : fork < 0
      · right
        rw [hrollbacks, if_pos (by omega)]
        exact ⟨fork, List.mem_singleton_self _, .of_neg hneg⟩
      · obtain ⟨a, ha, hbelow, hne, heq⟩ := hattached.exists_eq (not_lt.mp hneg)
        have hold := hcached a ha hbelow hne
        have hle := hold.1
        by_cases hlt : fork < peak.height
        · right
          rw [hrollbacks, if_pos hlt]
          refine ⟨fork, List.mem_singleton_self _, fun k hk => ?_⟩
          have hnew := hbelow.1
          refine ⟨by omega, by omega, ?_⟩
          rw [← HashTree.atHeight_atHeight (show k ≤ T.height a by omega) hle, hold.2,
            ← HashTree.atHeight_atHeight (show k ≤ T.height a by omega) hnew, hbelow.2]
        · -- the ancestor is the old peak
          left
          obtain rfl := hold.eq_of_height (.refl _) (by omega)
          exact hbelow

/-- The same for a new peak of height 0 that is rolled back to height 0. -/
lemma rollsBack_iff_of_height_zero (hpeakIn : HeaderIn H T peak) (hb' : HeaderIn H T hb) (hzero : hb.height = 0) :
    (T.Below (peak.headerHash H) (hb.headerHash H) ∨
      ∃ r ∈ if (0 : ℤ) < peak.height then [(0 : ℤ)] else [],
        T.CommonUpTo (peak.headerHash H) (hb.headerHash H) r) ↔
    T.Below (peak.headerHash H) (hb.headerHash H) ∨ T.Below (hb.headerHash H) (peak.headerHash H) := by
  have hheight := hb'.height
  have hpeakHeight := hpeakIn.height
  constructor
  · rintro (hbelow | ⟨r, hr, hcommon⟩)
    · exact .inl hbelow
    · right
      split at hr
      · obtain rfl := List.mem_singleton.mp hr
        obtain ⟨hle, -, heq⟩ := hcommon 0 le_rfl
        refine ⟨by omega, ?_⟩
        rw [hheight, hzero, heq, ← hzero, ← hheight, HashTree.atHeight_self]
      · cases hr
  · rintro (hbelow | hbelow)
    · exact .inl hbelow
    · by_cases hpos : (0 : ℤ) < peak.height
      · right
        rw [if_pos hpos]
        refine ⟨0, List.mem_singleton_self _, fun k hk => ?_⟩
        obtain rfl : k = 0 := by omega
        refine ⟨by omega, by omega, ?_⟩
        have heq := hbelow.2
        rw [hheight, hzero] at heq
        rw [heq, ← hzero, ← hheight, HashTree.atHeight_self]
      · left
        rw [hbelow.eq_of_height (.refl _) (by omega)]

lemma rolledBack_spec (constants : ConsensusConstants) (t : WalletBlockchain) (height : ℤ) :
    (t.rolledBack constants height).hashes ⊆ t.hashes ∧ (t.rolledBack constants height).peak = t.peak := by
  have hset : (t.setFinishedSyncUpTo constants height true true).hashes = t.hashes ∧
      (t.setFinishedSyncUpTo constants height true true).peak = t.peak := by
    rw [setFinishedSyncUpTo]
    split
    · exact ⟨rfl, rfl⟩
    · exact ⟨rfl, rfl⟩
  refine ⟨?_, (peak_cleanBlockRecords _ _).trans hset.2⟩
  rw [← hset.1]
  exact hashes_cleanBlockRecords_subset _ _

variable {c : Call} {f : ℤ}

lemma receiveAll_eq_ok {peak : Option HeaderBlock}
    (h : (t.receiveAll H V constants c peak forkHeight blocks rollbacks).result = .ok f) :
    (t.receiveAll H V constants c peak forkHeight blocks rollbacks).rollbacks = rollbacks ∧
      (t.receiveAll H V constants c peak forkHeight blocks rollbacks).state =
        (t.receiveBlocks H V constants c.times blocks).1 := by
  unfold receiveAll at h ⊢
  split at h
  · cases h
  · rename_i hlight
    rw [if_neg hlight]
    split at h
    · cases h
    · rename_i s result hreceive
      rw [hreceive]
      exact ⟨rfl, rfl⟩

/-- **A call that returns**: the headers that were fetched, the rollback, and the headers that were received. -/
lemma shortSyncBacktrack_eq_ok (h : (t.shortSyncBacktrack H V constants c).result = .ok f) :
    ∃ (fork : ℤ) (blocks : List HeaderBlock) (s : WalletBlockchain), t.backtrackFrom c.header (t.startHeight c.header) [c.header] c.responses = some (fork, blocks) ∧
      (t.shortSyncBacktrack H V constants c).rollbacks = (if fork < t.getPeakHeight then [fork] else []) ∧
      s.hashes ⊆ t.hashes ∧ s.peak = t.peak ∧
      (t.shortSyncBacktrack H V constants c).state = (s.receiveBlocks H V constants c.times blocks).1 := by
  unfold shortSyncBacktrack at h ⊢
  split at h
  · cases h
  rename_i fork blocks hback
  rw [hback]
  split at h
  · rename_i hlt
    rw [if_pos hlt]
    split at h
    · cases h
    · rename_i hfails
      rw [if_neg hfails]
      obtain ⟨hrollbacks, hstate⟩ := receiveAll_eq_ok h
      obtain ⟨hhashes, hpeak⟩ := rolledBack_spec constants t fork
      exact ⟨fork, blocks, t.rolledBack constants fork, rfl, by rw [hrollbacks, if_pos hlt], hhashes, hpeak, hstate⟩
  · rename_i hge
    rw [if_neg hge]
    obtain ⟨hrollbacks, hstate⟩ := receiveAll_eq_ok h
    exact ⟨fork, blocks, t, rfl, by rw [hrollbacks, if_neg hge], Finset.Subset.refl _, rfl, hstate⟩

/-- **A call that makes the new header the peak** rolls back to the last common ancestor or further exactly if the
header's ancestors in the cache are on the old chain. -/
theorem rollsBack_iff (hpeakIn : ∀ peak ∈ t.peak, HeaderIn H T peak) (hc : c.InTree H T)
    (hresult : (t.shortSyncBacktrack H V constants c).result = .ok f)
    (hpeak : (t.shortSyncBacktrack H V constants c).state.peak = some c.header) (hnew : t.peak ≠ some c.header) :
    RollsBack H T t.peak c.header (t.shortSyncBacktrack H V constants c).rollbacks ↔
      CachedOnOldChain H T t c.header := by
  obtain ⟨fork, blocks, s, hback, hrollbacks, hhashes, hsame, hstate⟩ := shortSyncBacktrack_eq_ok hresult
  have hheight := hc.1.height
  rw [hrollbacks]
  refine forall₂_congr fun peak hsome => ?_
  have hsome : t.peak = some peak := hsome
  have hpeakHeight : t.getPeakHeight = peak.height := by rw [getPeakHeight, hsome]
  rw [hpeakHeight]
  by_cases hroot : c.header.height = 0 ∧ c.header.prevHeaderHash ∉ t.hashes
  · -- a header without any ancestors
    have hlast : ¬ t.Missing c.header := not_missing_iff.mpr (.inr hroot.1)
    have hstart : t.startHeight c.header = 0 := by
      rw [startHeight, if_neg (mt containsBlock_iff.mp hroot.2)]
    obtain rfl : fork = 0 := by
      cases hresponses : c.responses with
      | nil =>
        rw [hresponses, backtrackFrom, if_neg hlast, hstart] at hback
        exact (Prod.mk.inj (Option.some.inj hback)).1.symm
      | cons prevHead rest =>
        rw [hresponses, backtrackFrom, if_neg hlast, hstart] at hback
        exact (Prod.mk.inj (Option.some.inj hback)).1.symm
    have halone : ∀ a, T.Below a (c.header.headerHash H) → a = c.header.headerHash H := by
      intro a hbelow
      have hle := hbelow.1
      exact hbelow.eq_of_height (.refl _) (by omega)
    rw [rollsBack_iff_of_height_zero (hpeakIn peak hsome) hc.1 hroot.1]
    refine or_congr_right ⟨fun hbelow => ⟨fun _ => .inr hbelow, fun a _ ha hne => absurd (halone a ha) hne⟩, fun h => ?_⟩
    exact (h.1 hroot.1).resolve_left hroot.2
  · have hstart : ¬ t.Missing c.header → t.startHeight c.header = (c.header.height : ℤ) - 1 := by
      intro hlast
      rw [startHeight, if_pos]
      rw [containsBlock_iff]
      by_contra hprev
      exact hroot ⟨(not_missing_iff.mp hlast).resolve_left hprev, hprev⟩
    obtain ⟨last, earlier, rfl, hlast, hfork, hearlier⟩ := backtrackFrom_spec hstart hback
    have hattached : Attached T t.hashes fork (c.header.headerHash H) := by
      rw [hstate] at hpeak
      have hcache : ∀ x ∈ s.hashes, x ∈ t.hashes ∨ Attached T t.hashes fork x := fun x hx => .inl (hhashes hx)
      refine (attached_of_receiveBlocks hcache (fun b hb => ⟨?_, fun hb' => ?_⟩) hpeak).resolve_left (by rwa [hsame])
      · rcases mem_of_backtrackFrom hback b hb with hb | hb
        · rw [List.mem_singleton.mp hb]
          exact hc.1
        · exact hc.2 b hb
      · rcases List.mem_cons.mp hb with rfl | hb
        · exact hfork
        · exact absurd ((hearlier b hb).resolve_left (List.not_mem_nil)) hb'
    rw [rollsBack_iff_of_attached (hpeakIn peak hsome) hattached rfl]
    refine or_congr_right ⟨fun h => ⟨fun hzero => .inl ?_, h⟩, fun h => h.2⟩
    by_contra hprev
    exact hroot ⟨hzero, hprev⟩

/-! ## Runs -/

lemma peak_receiveBlocks {times : ℕ → ℕ} (h : (t.receiveBlocks H V constants times blocks).1.peak = some peak) :
    t.peak = some peak ∨ peak ∈ blocks := by
  induction blocks generalizing t with
  | nil => exact .inl h
  | cons b rest ih =>
    have hstep : ∀ u : WalletBlockchain, (t.receiveBlock H V constants b (times rest.length)).1 = u →
        u.peak = some peak → t.peak = some peak ∨ peak = b := by
      rintro u rfl hp
      rcases @changed_receiveBlock H V constants t b (times rest.length) with heq | ⟨-, hchanged⟩
      · rw [heq] at hp
        exact .inl hp
      · rcases hchanged.peak with hsame | hnew
        · exact .inl (hsame.symm.trans hp)
        · exact .inr (Option.some.inj (hp.symm.trans hnew))
    rw [receiveBlocks] at h
    split at h
    · rename_i u e hreceive
      exact (hstep u (by rw [hreceive]) h).imp_right fun heq => by simp [heq]
    · rename_i u e hreceive
      exact (hstep u (by rw [hreceive]) h).imp_right fun heq => by simp [heq]
    · rename_i u result _ hreceive
      rcases ih h with hp | hmem
      · exact (hstep u (by rw [hreceive]) hp).imp_right fun heq => by simp [heq]
      · exact .inr (List.mem_cons_of_mem _ hmem)

/-- **A call leaves a peak of the tree.** -/
lemma headerIn_shortSyncBacktrack (hpeakIn : ∀ peak ∈ t.peak, HeaderIn H T peak) (hc : c.InTree H T) :
    ∀ peak ∈ (t.shortSyncBacktrack H V constants c).state.peak, HeaderIn H T peak := by
  have hall : ∀ {s : WalletBlockchain} {fork : ℤ} {blocks : List HeaderBlock} {rollbacks : List ℤ},
      s.peak = t.peak → (∀ b ∈ blocks, HeaderIn H T b) →
      ∀ peak ∈ (s.receiveAll H V constants c t.peak fork blocks rollbacks).state.peak, HeaderIn H T peak := by
    intro s fork blocks rollbacks hsame hblocks peak hpeak
    have hold : s.peak = some peak → HeaderIn H T peak := fun hp => hpeakIn peak (hsame.symm.trans hp)
    rw [receiveAll] at hpeak
    split at hpeak
    · exact hold hpeak
    · split at hpeak
      · rename_i u e hreceive
        exact (peak_receiveBlocks (by rw [hreceive]; exact hpeak)).elim hold (hblocks peak)
      · rename_i u result hreceive
        exact (peak_receiveBlocks (by rw [hreceive]; exact hpeak)).elim hold (hblocks peak)
  rw [shortSyncBacktrack]
  split
  · exact hpeakIn
  · rename_i fork blocks hback
    have hblocks : ∀ b ∈ blocks, HeaderIn H T b := by
      intro b hb
      rcases mem_of_backtrackFrom hback b hb with hb | hb
      · rw [List.mem_singleton.mp hb]
        exact hc.1
      · exact hc.2 b hb
    split
    · split
      · exact hpeakIn
      · exact hall (rolledBack_spec constants t fork).2 hblocks
    · exact hall rfl hblocks

lemma headerIn_afterCalls {calls : List Call} (hpeakIn : ∀ peak ∈ t.peak, HeaderIn H T peak)
    (hcalls : ∀ c ∈ calls, c.InTree H T) : ∀ peak ∈ (t.afterCalls H V constants calls).peak, HeaderIn H T peak := by
  induction calls generalizing t with
  | nil => exact hpeakIn
  | cons c calls ih =>
    exact ih (headerIn_shortSyncBacktrack hpeakIn (hcalls c List.mem_cons_self))
      fun c hc => hcalls c (List.mem_cons_of_mem _ hc)

/-- **A wallet reorg rolls back to the true fork.** After any calls, a call that makes its header the peak rolls back to
the last common ancestor of the old and the new peak, or further, exactly if the new peak descends from the old one or
its ancestors in the cache are on the chain of the old one. -/
theorem run_rollsBack_iff (H : Hashes) (V : Verifiers) (constants : ConsensusConstants) (T : HashTree Bytes32)
    {peak : Option HeaderBlock} {subSlotIters difficulty : Option ℕ} {finishedSyncUpTo : ℕ} {calls : List Call}
    {c : Call} {f : ℤ} (hpeak : ∀ p ∈ peak, HeaderIn H T p) (hcalls : ∀ c ∈ calls, c.InTree H T) (hc : c.InTree H T)
    (ht : (created peak subSlotIters difficulty finishedSyncUpTo).afterCalls H V constants calls = t)
    (hresult : (t.shortSyncBacktrack H V constants c).result = .ok f)
    (hnewPeak : (t.shortSyncBacktrack H V constants c).state.peak = some c.header) (hnew : t.peak ≠ some c.header) :
    RollsBack H T t.peak c.header (t.shortSyncBacktrack H V constants c).rollbacks ↔
      CachedOnOldChain H T t c.header := by
  refine rollsBack_iff ?_ hc hresult hnewPeak hnew
  rw [← ht]
  exact headerIn_afterCalls hpeak hcalls

/-- A call without exceptions. -/
def callOf (header : HeaderBlock) (responses : List HeaderBlock) : Call := ⟨header, responses, fun _ => 0, false⟩

/-- Genesis and a block. -/
def firstCall : Call := callOf (nextHeader 3) [genesisHeader]

/-- Two blocks of the other branch. -/
def otherBranchCall : Call := callOf (nextHeader 4) [nextHeader 2]

/-- Two more blocks of the first branch. -/
def backAgainCall : Call := callOf (nextHeader 7) [nextHeader 5]

/-- The sample wallet after the first call. -/
def onFirstBranch : WalletBlockchain :=
  emptyWallet.afterCalls markedHashes acceptingTools.V defaultConstants [firstCall]

/-- The sample wallet after the first two calls. -/
def onOtherBranch : WalletBlockchain :=
  emptyWallet.afterCalls markedHashes acceptingTools.V defaultConstants [firstCall, otherBranchCall]

lemma inTree_firstCall : firstCall.InTree markedHashes twoBranches := by
  refine ⟨headerIn_branchHeader _ (by decide) (by norm_num), fun hb hmem => ?_⟩
  rw [List.mem_singleton.mp hmem]
  exact headerIn_genesisHeader

lemma inTree_callOf {hash response : ℕ} (hpos : 1 < hash) (hhash : hash < 256 ^ 32) (hpos' : 1 < response)
    (hresponse : response < 256 ^ 32) :
    (callOf (nextHeader hash) [nextHeader response]).InTree markedHashes twoBranches := by
  refine ⟨headerIn_branchHeader _ hpos hhash, fun hb hmem => ?_⟩
  rw [List.mem_singleton.mp hmem]
  exact headerIn_branchHeader _ hpos' hresponse

lemma result_of_toOption {o : Outcome} (h : o.result.toOption = some f) : o.result = .ok f := by
  cases hresult : o.result with
  | error e =>
    rw [hresult] at h
    cases h
  | ok f' =>
    rw [hresult] at h
    rw [Option.some.inj h]

theorem run_rollsBack_otherBranch : RollsBack markedHashes twoBranches onFirstBranch.peak otherBranchCall.header
    (onFirstBranch.shortSyncBacktrack markedHashes acceptingTools.V defaultConstants otherBranchCall).rollbacks := by
  have hpeak : ∀ p ∈ (none : Option HeaderBlock), HeaderIn markedHashes twoBranches p := fun p hp => by cases hp
  have hcalls : ∀ c ∈ [firstCall], c.InTree markedHashes twoBranches := by
    intro c hc
    rw [List.mem_singleton.mp hc]
    exact inTree_firstCall
  -- what the two calls do, and that the other branch meets the first one at genesis
  have hsample : onFirstBranch.peak = some (nextHeader 3) ∧
      (onFirstBranch.shortSyncBacktrack markedHashes acceptingTools.V defaultConstants
        otherBranchCall).result.toOption = some 0 ∧
      (onFirstBranch.shortSyncBacktrack markedHashes acceptingTools.V defaultConstants
        otherBranchCall).state.peak = some (nextHeader 4) ∧
      ∀ a ∈ onFirstBranch.hashes, twoBranches.Below a ((nextHeader 4).headerHash markedHashes) →
        a ≠ (nextHeader 4).headerHash markedHashes →
        twoBranches.Below a ((nextHeader 3).headerHash markedHashes) := by
    decide +kernel
  obtain ⟨hold, hresult, hnewPeak, hcached⟩ := hsample
  have hheights : (some (nextHeader 3)).map HeaderBlock.height ≠ (some (nextHeader 4)).map HeaderBlock.height := by
    decide
  have hnew : onFirstBranch.peak ≠ some (nextHeader 4) := fun h =>
    hheights (congrArg (Option.map HeaderBlock.height) (hold.symm.trans h))
  refine (run_rollsBack_iff markedHashes acceptingTools.V defaultConstants twoBranches hpeak hcalls
    (inTree_callOf (by decide) (by norm_num) (by decide) (by norm_num)) rfl
    (result_of_toOption hresult) hnewPeak hnew).mpr ?_
  intro peak hsome
  obtain rfl : nextHeader 3 = peak := Option.some.inj (hold.symm.trans hsome)
  exact .inr ⟨fun hzero => absurd hzero (by decide), hcached⟩

/-- **Not every call**: a wallet that goes back to the first branch is rolled back to a height of that branch at which the
other one has another block. -/
theorem not_rollsBack_backAgain :
    ¬ ∀ (H : Hashes) (V : Verifiers) (constants : ConsensusConstants) (T : HashTree Bytes32) (calls : List Call)
      (c : Call) (f : ℤ) (t : WalletBlockchain), (∀ c ∈ calls, c.InTree H T) → c.InTree H T →
      (created none (some constants.SUB_SLOT_ITERS_STARTING) (some constants.DIFFICULTY_STARTING) 0).afterCalls
        H V constants calls = t →
      (t.shortSyncBacktrack H V constants c).result = .ok f →
      (t.shortSyncBacktrack H V constants c).state.peak = some c.header → t.peak ≠ some c.header →
      RollsBack H T t.peak c.header (t.shortSyncBacktrack H V constants c).rollbacks := by
  intro h
  have hcalls : ∀ c ∈ [firstCall, otherBranchCall], c.InTree markedHashes twoBranches := by
    intro c hc
    rw [List.mem_cons, List.mem_singleton] at hc
    rcases hc with rfl | rfl
    · exact inTree_firstCall
    · exact inTree_callOf (by decide) (by norm_num) (by decide) (by norm_num)
  have hsample : onOtherBranch.peak = some (nextHeader 4) ∧
      (onOtherBranch.shortSyncBacktrack markedHashes acceptingTools.V defaultConstants
        backAgainCall).rollbacks = [1] ∧
      (onOtherBranch.shortSyncBacktrack markedHashes acceptingTools.V defaultConstants
        backAgainCall).result.toOption = some 1 ∧
      (onOtherBranch.shortSyncBacktrack markedHashes acceptingTools.V defaultConstants
        backAgainCall).state.peak = some (nextHeader 7) ∧
      ¬ twoBranches.Below ((nextHeader 4).headerHash markedHashes) ((nextHeader 7).headerHash markedHashes) ∧
      twoBranches.atHeight ((nextHeader 4).headerHash markedHashes) 1 ≠
        twoBranches.atHeight ((nextHeader 7).headerHash markedHashes) 1 := by
    decide +kernel
  obtain ⟨hold, hrollbacks, hresult, hnewPeak, hnotBelow, hdiffer⟩ := hsample
  have hheights : (some (nextHeader 4)).map HeaderBlock.height ≠ (some (nextHeader 7)).map HeaderBlock.height := by
    decide
  have hnew : onOtherBranch.peak ≠ some (nextHeader 7) := fun h =>
    hheights (congrArg (Option.map HeaderBlock.height) (hold.symm.trans h))
  have hrolled := h markedHashes acceptingTools.V defaultConstants twoBranches [firstCall, otherBranchCall]
    backAgainCall 1 onOtherBranch hcalls (inTree_callOf (by decide) (by norm_num) (by decide) (by norm_num)) rfl
    (result_of_toOption hresult) hnewPeak hnew
  rcases hrolled (nextHeader 4) hold with hbelow | ⟨r, hr, hcommon⟩
  · exact hnotBelow hbelow
  · rw [hrollbacks] at hr
    obtain rfl := List.mem_singleton.mp hr
    obtain ⟨-, -, heq⟩ := hcommon 1 le_rfl
    exact hdiffer heq

end WalletBlockchain

end Chives
