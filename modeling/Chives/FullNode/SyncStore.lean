import Chives.Library.OrderedDict
import Chives.Types.SizedBytes

set_option autoImplicit false

/-!
# The peaks of peers

`full_node/sync_store.py`: which peers have which blocks, and the last peak that each peer has sent. A node
looks here for the heaviest peak to sync to.

## Main definitions

* `SyncStore` — the store.
* `SyncStore.peerHasBlock`, `SyncStore.peerDisconnected`, `SyncStore.getHeaviestPeak` —
  the methods.
* `SyncStore.Op`, `SyncStore.run` — the methods that change the store, and runs of them.
* `SyncStore.Answers` — `get_heaviest_peak` gives a heaviest peak among the tracked ones, if there is one.

## Main results

* `SyncStore.Inv.step` — one method keeps the invariant.
* `SyncStore.run_answers_iff` — every run succeeds and keeps the store small, disconnected peers are
  gone, the sync target is not evicted, and `get_heaviest_peak` answers exactly if no peer has a peak or one
  of the peaks is tracked.
-/

namespace Chives

open ExceptRun

/-- `SyncStore`. The fields that these methods do not use are left out. -/
structure SyncStore where
  peakToPeer : OrderedDict Bytes32 (Finset Bytes32)
  peerToPeak : OrderedDict Bytes32 (Bytes32 × ℕ × ℕ)
  syncTargetHeaderHash : Option Bytes32
  syncTargetHeight : Option ℕ
  peersChanged : Bool

namespace SyncStore

/-- `SyncStore.create`. -/
def create : SyncStore := ⟨.empty, .empty, none, none, false⟩

/-- `set_peak_target`. -/
def setPeakTarget (s : SyncStore) (peakHash : Bytes32) (targetHeight : ℕ) : SyncStore :=
  { s with syncTargetHeaderHash := some peakHash, syncTargetHeight := some targetHeight }

/-- `popitem(last=False)`. -/
def popItem (d : OrderedDict Bytes32 (Finset Bytes32)) :
    Except PyError ((Bytes32 × Finset Bytes32) × OrderedDict Bytes32 (Finset Bytes32)) :=
  match d.popFirst with
  | some r => .ok r
  | none => .error .keyError

/-- The entries that `peer_has_block` keeps after a new one: at most 256, and the sync target among them. -/
def evict (syncTarget : Option Bytes32) (d : OrderedDict Bytes32 (Finset Bytes32)) :
    Except PyError (OrderedDict Bytes32 (Finset Bytes32)) :=
  if d.entries.length > 256 then do
    let (item, d) ← popItem d
    if syncTarget = some item.1 then do
      let (_, d) ← popItem (d.set item.1 item.2)
      return d
    else return d
  else .ok d

/-- The entries after `peer_has_block`. -/
def addPeer (s : SyncStore) (headerHash peerId : Bytes32) :
    Except PyError (OrderedDict Bytes32 (Finset Bytes32)) :=
  match s.peakToPeer.get? headerHash with
  | some peers => .ok (s.peakToPeer.set headerHash (insert peerId peers))
  | none => evict s.syncTargetHeaderHash (s.peakToPeer.set headerHash {peerId})

/-- `peer_has_block`. -/
def peerHasBlock (s : SyncStore) (headerHash peerId : Bytes32) (weight height : ℕ) (newPeak : Bool) :
    Except PyError SyncStore := do
  let peakToPeer ← s.addPeer headerHash peerId
  return { s with
    peersChanged := s.peersChanged || decide (s.syncTargetHeaderHash = some headerHash)
    peakToPeer := peakToPeer
    peerToPeak :=
      if newPeak then s.peerToPeak.set peerId (headerHash, height, weight) else s.peerToPeak }

/-- `clear_sync_info`. -/
def clearSyncInfo (s : SyncStore) : SyncStore := { s with peakToPeer := .empty }

/-- `peer_disconnected`. -/
def peerDisconnected (s : SyncStore) (nodeId : Bytes32) : Except PyError SyncStore := do
  let peakToPeer := s.peakToPeer.mapValues fun peers => if nodeId ∈ peers then peers.erase nodeId else peers
  let _ ← pyAssert (∀ e ∈ peakToPeer.entries, nodeId ∉ e.2)
  return { s with
    peerToPeak := if (s.peerToPeak.get? nodeId).isSome then s.peerToPeak.erase nodeId else s.peerToPeak
    peakToPeer := peakToPeer
    peersChanged := true }

/-- One round of the loop of `get_heaviest_peak`. -/
def heavier (tracked : Bytes32 → Bool) (best : Option (Bytes32 × ℕ × ℕ)) (peak : Bytes32 × ℕ × ℕ) :
    Option (Bytes32 × ℕ × ℕ) :=
  if ¬tracked peak.1 then best
  else match best with
    | none => some peak
    | some b => if peak.2.2 > b.2.2 then some peak else some b

/-- `get_heaviest_peak`: the header hash, the height and the weight of a peak. -/
def getHeaviestPeak (s : SyncStore) : Except PyError (Option (Bytes32 × ℕ × ℕ)) :=
  if s.peerToPeak.entries.length = 0 then .ok none
  else do
    let best ← pySome
      (s.peerToPeak.values.foldl (heavier fun hash => (s.peakToPeer.get? hash).isSome) none)
    return some best

/-- The methods that change the store. -/
inductive Op
  | peerHasBlock (headerHash peerId : Bytes32) (weight height : ℕ) (newPeak : Bool)
  | setPeakTarget (peakHash : Bytes32) (targetHeight : ℕ)
  | peerDisconnected (nodeId : Bytes32)
  | clearSyncInfo

/-- One method. -/
def step (s : SyncStore) : Op → Except PyError SyncStore
  | .peerHasBlock headerHash peerId weight height newPeak =>
    s.peerHasBlock headerHash peerId weight height newPeak
  | .setPeakTarget peakHash targetHeight => .ok (s.setPeakTarget peakHash targetHeight)
  | .peerDisconnected nodeId => s.peerDisconnected nodeId
  | .clearSyncInfo => .ok s.clearSyncInfo

/-- A run of methods. -/
def run (s : SyncStore) (ops : List Op) : Except PyError SyncStore := ops.foldlM step s

/-! ## The invariant -/

/-- The peer has sent a block and was not disconnected since. -/
def Connected (ops : List Op) (peer : Bytes32) : Prop :=
  ∃ before headerHash weight height newPeak after,
    ops = before ++ .peerHasBlock headerHash peer weight height newPeak :: after ∧
      .peerDisconnected peer ∉ after

/-- The peer is in some set, or has a peak. -/
def Appears (s : SyncStore) (peer : Bytes32) : Prop :=
  (∃ hash peers, s.peakToPeer.get? hash = some peers ∧ peer ∈ peers) ∨ ∃ peak, s.peerToPeak.get? peer = some peak

/-- What holds after a run: there are few entries, and only connected peers appear. -/
structure Inv (ops : List Op) (s : SyncStore) : Prop where
  length_le : s.peakToPeer.entries.length ≤ 256
  connected : ∀ peer, s.Appears peer → Connected ops peer

/-- The sync target is not evicted by a step, and keeps its peers. -/
def KeepsTarget (s s' : SyncStore) : Prop :=
  ∀ target peers, s.syncTargetHeaderHash = some target → s.peakToPeer.get? target = some peers →
    ∃ peers', s'.peakToPeer.get? target = some peers' ∧ peers ⊆ peers'

section Steps

variable {s : SyncStore} {ops : List Op}

lemma Connected.append {peer : Bytes32} {op : Op} (h : Connected ops peer) (hop : op ≠ .peerDisconnected peer) :
    Connected (ops ++ [op]) peer := by
  obtain ⟨before, headerHash, weight, height, newPeak, after, rfl, hafter⟩ := h
  refine ⟨before, headerHash, weight, height, newPeak, after ++ [op], by simp, ?_⟩
  rw [List.mem_append, List.mem_singleton, not_or]
  exact ⟨hafter, hop.symm⟩

lemma connected_peerHasBlock (headerHash peerId : Bytes32) (weight height : ℕ) (newPeak : Bool) :
    Connected (ops ++ [.peerHasBlock headerHash peerId weight height newPeak]) peerId :=
  ⟨ops, headerHash, weight, height, newPeak, [], rfl, List.not_mem_nil⟩

/-- **What eviction leaves**: at most 256 entries, all of which were there, and the sync target, unless it is
the only entry.

**Proof sketch.** With 257 entries the oldest is removed. If it is the sync target, it is put back at the end,
so that the one that is removed then is another one. -/
lemma exists_evict {target : Option Bytes32} {d : OrderedDict Bytes32 (Finset Bytes32)}
    (hlen : d.entries.length ≤ 257) :
    ∃ d', evict target d = .ok d' ∧ d'.entries.length ≤ 256 ∧
      (∀ hash peers, d'.get? hash = some peers → d.get? hash = some peers) ∧
      ∀ hash, target = some hash → d'.get? hash = d.get? hash := by
  unfold evict
  by_cases hlong : d.entries.length > 256
  · rw [if_pos hlong]
    obtain ⟨e, d₁, hpop, hentries⟩ := d.exists_popFirst (by omega)
    have hlen₁ : d₁.entries.length = 256 := by
      have := congrArg List.length hentries
      rw [List.length_cons] at this
      omega
    have hget := OrderedDict.get?_of_entries_cons hentries
    rw [popItem, hpop, ok_bind]
    simp only
    by_cases htarget : target = some e.1
    · rw [if_pos htarget]
      -- the target is put back, and the entry after it is removed
      have hback : (d₁.set e.1 e.2).entries = d₁.entries ++ [(e.1, e.2)] :=
        OrderedDict.entries_set_of_none _ (by rw [hget, if_pos rfl])
      obtain ⟨e', d₂, hpop₂, hentries₂⟩ := (d₁.set e.1 e.2).exists_popFirst (by rw [hback]; simp)
      have hlen₂ : d₂.entries.length = 256 := by
        have := congrArg List.length (hback.symm.trans hentries₂)
        rw [List.length_append, List.length_singleton, List.length_cons] at this
        omega
      have hne : e'.1 ≠ e.1 := by
        have hmem : e' ∈ d₁.entries := by
          obtain ⟨x, l, hl⟩ := List.exists_cons_of_length_pos (show 0 < d₁.entries.length by omega)
          rw [hback, hl, List.cons_append, List.cons.injEq] at hentries₂
          rw [hl, ← hentries₂.1]
          exact List.mem_cons_self
        intro heq
        have := OrderedDict.get?_eq_some.mpr (show (e'.1, e'.2) ∈ d₁.entries from hmem)
        rw [hget, if_pos heq] at this
        cases this
      have hsame : ∀ hash, (d₁.set e.1 e.2).get? hash = d.get? hash := by
        intro hash
        rw [OrderedDict.get?_set, hget]
        by_cases hhash : hash = e.1
        · rw [if_pos hhash, hhash, OrderedDict.get?_eq_some.mpr]
          rw [hentries]
          exact List.mem_cons_self
        · rw [if_neg hhash, if_neg hhash]
      rw [popItem, hpop₂, ok_bind]
      refine ⟨d₂, rfl, hlen₂.le, fun hash peers h => ?_, fun hash hhash => ?_⟩
      · rw [OrderedDict.get?_of_entries_cons hentries₂] at h
        split at h
        · cases h
        · rwa [hsame] at h
      · obtain rfl := Option.some.inj (hhash.symm.trans htarget)
        rw [OrderedDict.get?_of_entries_cons hentries₂, if_neg hne.symm, hsame]
    · rw [if_neg htarget]
      refine ⟨d₁, rfl, hlen₁.le, fun hash peers h => ?_, fun hash hhash => ?_⟩
      · rw [hget] at h
        split at h
        · cases h
        · exact h
      · rw [hget, if_neg]
        rintro rfl
        exact htarget hhash
  · rw [if_neg hlong]
    exact ⟨d, rfl, by omega, fun _ _ h => h, fun _ _ => rfl⟩

/-- The entries after `peer_has_block`: few, with the new peer at most in addition to those before, and with
the sync target. -/
lemma exists_addPeer (hlen : s.peakToPeer.entries.length ≤ 256) (headerHash peerId : Bytes32) :
    ∃ d, s.addPeer headerHash peerId = .ok d ∧ d.entries.length ≤ 256 ∧
      (∀ hash peers, d.get? hash = some peers → ∀ peer ∈ peers, peer = peerId ∨
        ∃ peers', s.peakToPeer.get? hash = some peers' ∧ peer ∈ peers') ∧
      ∀ target peers, s.syncTargetHeaderHash = some target → s.peakToPeer.get? target = some peers →
        ∃ peers', d.get? target = some peers' ∧ peers ⊆ peers' := by
  unfold addPeer
  cases hget : s.peakToPeer.get? headerHash with
  | some old =>
    refine ⟨_, rfl, ?_, fun hash peers hpeers peer hpeer => ?_, fun target peers _ hpeers => ?_⟩
    · rw [OrderedDict.length_set, if_neg (by rw [hget]; simp)]
      exact hlen
    · rw [OrderedDict.get?_set] at hpeers
      split at hpeers
      · rename_i hhash
        obtain rfl := Option.some.inj hpeers
        rcases Finset.mem_insert.mp hpeer with rfl | hpeer
        · exact .inl rfl
        · exact .inr ⟨old, by rw [hhash, hget], hpeer⟩
      · exact .inr ⟨peers, hpeers, hpeer⟩
    · rw [OrderedDict.get?_set]
      split
      · rename_i htarget
        rw [htarget, hget] at hpeers
        obtain rfl := Option.some.inj hpeers
        exact ⟨_, rfl, Finset.subset_insert _ _⟩
      · exact ⟨peers, hpeers, subset_rfl⟩
  | none =>
    have hlen : (s.peakToPeer.set headerHash {peerId}).entries.length ≤ 257 := by
      rw [OrderedDict.length_set, if_pos hget]
      omega
    obtain ⟨d, hd, hshort, hsub, htarget⟩ := @exists_evict s.syncTargetHeaderHash _ hlen
    refine ⟨d, hd, hshort, fun hash peers hpeers peer hpeer => ?_, fun target peers ht hpeers => ?_⟩
    · have := hsub hash peers hpeers
      rw [OrderedDict.get?_set] at this
      split at this
      · obtain rfl := Option.some.inj this
        exact .inl (Finset.mem_singleton.mp hpeer)
      · exact .inr ⟨peers, this, hpeer⟩
    · refine ⟨peers, ?_, subset_rfl⟩
      rw [htarget target ht, OrderedDict.get?_set, if_neg]
      · exact hpeers
      · rintro rfl
        rw [hget] at hpeers
        cases hpeers
/-- **`peer_has_block` keeps the invariant**, and does not evict the sync target. -/
lemma Inv.peerHasBlock (h : Inv ops s) (headerHash peerId : Bytes32) (weight height : ℕ) (newPeak : Bool) :
    ∃ s', s.peerHasBlock headerHash peerId weight height newPeak = .ok s' ∧ KeepsTarget s s' ∧
      Inv (ops ++ [.peerHasBlock headerHash peerId weight height newPeak]) s' := by
  obtain ⟨d, hd, hshort, hmem, htarget⟩ := exists_addPeer h.length_le headerHash peerId
  have hrun : s.peerHasBlock headerHash peerId weight height newPeak = .ok { s with
      peersChanged := s.peersChanged || decide (s.syncTargetHeaderHash = some headerHash)
      peakToPeer := d
      peerToPeak :=
        if newPeak then s.peerToPeak.set peerId (headerHash, height, weight) else s.peerToPeak } := by
    rw [SyncStore.peerHasBlock, hd, ok_bind]
    rfl
  refine ⟨_, hrun, htarget, hshort, fun peer happ => ?_⟩
  by_cases hpeer : peer = peerId
  · rw [hpeer]
    exact connected_peerHasBlock _ _ _ _ _
  · refine (h.connected peer ?_).append (by simp)
    rcases happ with ⟨hash, peers, hpeers, hin⟩ | ⟨peak, hpeak⟩
    · rcases hmem hash peers hpeers peer hin with heq | ⟨peers', hpeers', hin'⟩
      · exact absurd heq hpeer
      · exact .inl ⟨hash, peers', hpeers', hin'⟩
    · refine .inr ⟨peak, ?_⟩
      cases newPeak with
      | false => exact hpeak
      | true =>
        have hset : (s.peerToPeak.set peerId (headerHash, height, weight)).get? peer = some peak := hpeak
        rwa [OrderedDict.get?_set, if_neg hpeer] at hset

/-- **`peer_disconnected` keeps the invariant**: the peer does not appear any more. -/
lemma Inv.peerDisconnected (h : Inv ops s) (nodeId : Bytes32) :
    ∃ s', s.peerDisconnected nodeId = .ok s' ∧ Inv (ops ++ [.peerDisconnected nodeId]) s' := by
  have hmap : ∀ peers : Finset Bytes32,
      (if nodeId ∈ peers then peers.erase nodeId else peers) = peers.erase nodeId := by
    intro peers
    split
    · rfl
    · rename_i hnot
      exact (Finset.erase_eq_of_notMem hnot).symm
  have hassert : ∀ e ∈ (s.peakToPeer.mapValues fun peers =>
      if nodeId ∈ peers then peers.erase nodeId else peers).entries, nodeId ∉ e.2 := by
    intro e he
    obtain ⟨e', -, rfl⟩ := List.mem_map.mp he
    simp [hmap]
  refine ⟨_, by rw [SyncStore.peerDisconnected, pyAssert, if_pos hassert]; rfl, ?_, fun peer happ => ?_⟩
  · show (List.map _ s.peakToPeer.entries).length ≤ 256
    rw [List.length_map]
    exact h.length_le
  · have hold : peer ≠ nodeId ∧ s.Appears peer := by
      rcases happ with ⟨hash, peers, hpeers, hin⟩ | ⟨peak, hpeak⟩
      · have hget : (s.peakToPeer.mapValues fun peers =>
          if nodeId ∈ peers then peers.erase nodeId else peers).get? hash = some peers := hpeers
        rw [OrderedDict.get?_mapValues] at hget
        obtain ⟨old, hold, rfl⟩ := Option.map_eq_some_iff.mp hget
        rw [hmap, Finset.mem_erase] at hin
        exact ⟨hin.1, .inl ⟨hash, old, hold, hin.2⟩⟩
      · have hget : (if (s.peerToPeak.get? nodeId).isSome then s.peerToPeak.erase nodeId
            else s.peerToPeak).get? peer = some peak := hpeak
        split at hget
        · rw [OrderedDict.get?_erase] at hget
          split at hget
          · cases hget
          · rename_i hne
            exact ⟨hne, .inr ⟨peak, hget⟩⟩
        · rename_i hnone
          refine ⟨?_, .inr ⟨peak, hget⟩⟩
          rintro rfl
          rw [hget] at hnone
          exact hnone rfl
    exact (h.connected peer hold.2).append (by simpa using hold.1.symm)

/-- **One method keeps the invariant.** -/
lemma Inv.step (h : Inv ops s) (op : Op) :
    ∃ s', s.step op = .ok s' ∧ Inv (ops ++ [op]) s' ∧
      ∀ headerHash peerId weight height newPeak,
        op = .peerHasBlock headerHash peerId weight height newPeak → KeepsTarget s s' := by
  cases op with
  | peerHasBlock headerHash peerId weight height newPeak =>
    obtain ⟨s', hs', hkeeps, hinv⟩ := h.peerHasBlock headerHash peerId weight height newPeak
    exact ⟨s', hs', hinv, fun _ _ _ _ _ _ => hkeeps⟩
  | setPeakTarget peakHash targetHeight =>
    exact ⟨_, rfl, ⟨h.length_le, fun peer happ => (h.connected peer happ).append (by simp)⟩,
      fun _ _ _ _ _ heq => by cases heq⟩
  | peerDisconnected nodeId =>
    obtain ⟨s', hs', hinv⟩ := h.peerDisconnected nodeId
    exact ⟨s', hs', hinv, fun _ _ _ _ _ heq => by cases heq⟩
  | clearSyncInfo =>
    refine ⟨_, rfl, ⟨Nat.zero_le _, fun peer happ => ?_⟩, fun _ _ _ _ _ heq => by cases heq⟩
    rcases happ with ⟨hash, peers, hpeers, -⟩ | hpeak
    · cases hpeers
    · exact (h.connected peer (.inr hpeak)).append (by simp)

/-- **Every run succeeds and keeps the invariant.** -/
lemma exists_run (ops : List Op) : ∃ s, run create ops = .ok s ∧ Inv ops s := by
  induction ops using List.reverseRecOn with
  | nil =>
    refine ⟨create, rfl, Nat.zero_le _, fun peer happ => ?_⟩
    rcases happ with ⟨hash, peers, hpeers, -⟩ | ⟨peak, hpeak⟩
    · cases hpeers
    · cases hpeak
  | append_singleton ops op ih =>
    obtain ⟨s, hs, hinv⟩ := ih
    obtain ⟨s', hs', hinv', -⟩ := hinv.step op
    refine ⟨s', ?_, hinv'⟩
    rw [run, List.foldlM_append, show ops.foldlM step create = .ok s from hs, ok_bind, List.foldlM_cons,
      hs']
    rfl

end Steps

/-! ## The heaviest peak -/

section Heaviest

variable {s : SyncStore}

/-- A peak that some peer has sent and that is tracked. -/
def Tracked (s : SyncStore) (peak : Bytes32 × ℕ × ℕ) : Prop :=
  (∃ peer, s.peerToPeak.get? peer = some peak) ∧ (s.peakToPeer.get? peak.1).isSome = true

/-- What `get_heaviest_peak` is for: nothing if no peak is tracked, or a tracked peak of the largest weight. -/
def Answers (s : SyncStore) : Prop :=
  ∃ answer, s.getHeaviestPeak = .ok answer ∧ match answer with
    | none => ∀ peak, ¬s.Tracked peak
    | some best => s.Tracked best ∧ ∀ peak, s.Tracked peak → peak.2.2 ≤ best.2.2

/-- What the loop finds: the heaviest of the tracked peaks and the one before.

**Proof sketch.** Induction on the peaks. -/
lemma foldl_heavier {tracked : Bytes32 → Bool} (peaks : List (Bytes32 × ℕ × ℕ))
    (best : Option (Bytes32 × ℕ × ℕ)) :
    match peaks.foldl (heavier tracked) best with
    | none => best = none ∧ ∀ peak ∈ peaks, tracked peak.1 = false
    | some r => (best = some r ∨ (r ∈ peaks ∧ tracked r.1 = true)) ∧
        (∀ b, best = some b → b.2.2 ≤ r.2.2) ∧
        ∀ peak ∈ peaks, tracked peak.1 = true → peak.2.2 ≤ r.2.2 := by
  induction peaks generalizing best with
  | nil =>
    cases best with
    | none => simp
    | some b => simp
  | cons peak peaks ih =>
    have hrest := ih (heavier tracked best peak)
    rw [List.foldl_cons]
    by_cases htracked : tracked peak.1 = true
    · -- the best is now at least as heavy as this peak and as the best before
      obtain ⟨b, hb, hmem, hle, hpeak⟩ : ∃ b, heavier tracked best peak = some b ∧
          (best = some b ∨ b = peak) ∧ (∀ b', best = some b' → b'.2.2 ≤ b.2.2) ∧ peak.2.2 ≤ b.2.2 := by
        unfold heavier
        rw [if_neg (by simpa using htracked)]
        cases best with
        | none => exact ⟨peak, rfl, .inr rfl, fun b' h => (by cases h), le_rfl⟩
        | some b =>
          by_cases hgt : peak.2.2 > b.2.2
          · refine ⟨peak, by simp [hgt], .inr rfl, fun b' h => ?_, le_rfl⟩
            rw [← Option.some.inj h]
            exact hgt.le
          · refine ⟨b, by simp [hgt], .inl rfl, fun b' h => ?_, by omega⟩
            rw [← Option.some.inj h]
      rw [hb] at hrest ⊢
      cases hfold : peaks.foldl (heavier tracked) (some b) with
      | none =>
        rw [hfold] at hrest
        cases hrest.1
      | some r =>
        rw [hfold] at hrest
        obtain ⟨hr, hrb, hall⟩ := hrest
        have hbr := hrb b rfl
        refine ⟨?_, fun b' hb' => (hle b' hb').trans hbr, fun x hx htx => ?_⟩
        · rcases hr with heq | ⟨hmem', htr⟩
          · obtain rfl := Option.some.inj heq
            rcases hmem with hbest | rfl
            · exact .inl hbest
            · exact .inr ⟨List.mem_cons_self, htracked⟩
          · exact .inr ⟨List.mem_cons_of_mem _ hmem', htr⟩
        · rcases List.mem_cons.mp hx with rfl | hx
          · exact hpeak.trans hbr
          · exact hall x hx htx
    · have hsame : heavier tracked best peak = best := by
        unfold heavier
        rw [if_pos htracked]
      rw [hsame] at hrest ⊢
      cases hfold : peaks.foldl (heavier tracked) best with
      | none =>
        rw [hfold] at hrest
        refine ⟨hrest.1, fun x hx => ?_⟩
        rcases List.mem_cons.mp hx with rfl | hx
        · exact Bool.not_eq_true _ ▸ htracked
        · exact hrest.2 x hx
      | some r =>
        rw [hfold] at hrest
        refine ⟨hrest.1.imp id fun hr => ⟨List.mem_cons_of_mem _ hr.1, hr.2⟩, hrest.2.1, fun x hx htx => ?_⟩
        rcases List.mem_cons.mp hx with rfl | hx
        · exact absurd htx htracked
        · exact hrest.2.2 x hx htx

/-- `get_heaviest_peak` answers exactly if no peer has a peak, or one of the peaks is tracked. -/
lemma answers_iff : s.Answers ↔ (∀ peer, s.peerToPeak.get? peer = none) ∨ ∃ peak, s.Tracked peak := by
  have hmem : ∀ peak, peak ∈ s.peerToPeak.values ↔ ∃ peer, s.peerToPeak.get? peer = some peak :=
    fun peak => OrderedDict.mem_values
  by_cases hempty : s.peerToPeak.entries.length = 0
  · have hnone : ∀ peer, s.peerToPeak.get? peer = none := by
      rw [← OrderedDict.values_eq_nil, OrderedDict.values, List.eq_nil_of_length_eq_zero hempty]
      rfl
    refine iff_of_true ⟨none, by rw [getHeaviestPeak, if_pos hempty], fun peak htracked => ?_⟩ (.inl hnone)
    obtain ⟨⟨peer, hpeer⟩, -⟩ := htracked
    rw [hnone] at hpeer
    cases hpeer
  · have hfold := @foldl_heavier (fun hash => (s.peakToPeer.get? hash).isSome) s.peerToPeak.values none
    have hquery : s.getHeaviestPeak = (do
        let best ← pySome (s.peerToPeak.values.foldl
          (heavier fun hash => (s.peakToPeer.get? hash).isSome) none)
        return some best) := by
      rw [getHeaviestPeak, if_neg hempty]
    have hpeer : ¬∀ peer, s.peerToPeak.get? peer = none := by
      rw [← OrderedDict.values_eq_nil, OrderedDict.values, List.map_eq_nil_iff]
      intro hnil
      exact hempty (by rw [hnil]; rfl)
    cases hbest : s.peerToPeak.values.foldl
      (heavier fun hash => (s.peakToPeer.get? hash).isSome) none with
    | none =>
      rw [hbest] at hfold hquery
      refine iff_of_false ?_ ?_
      · rintro ⟨answer, hanswer, -⟩
        rw [hquery] at hanswer
        cases hanswer
      · rintro (hnone | ⟨peak, hpeak, htracked⟩)
        · exact hpeer hnone
        · rw [hfold.2 peak ((hmem peak).mpr hpeak)] at htracked
          cases htracked
    | some best =>
      rw [hbest] at hfold hquery
      obtain ⟨hbest' | ⟨hin, htracked⟩, -, hall⟩ := hfold
      · cases hbest'
      · have hbestTracked : s.Tracked best := ⟨(hmem best).mp hin, htracked⟩
        refine iff_of_true ⟨some best, hquery, hbestTracked, fun peak hpeak => ?_⟩ (.inr ⟨best, hbestTracked⟩)
        exact hall peak ((hmem peak).mpr hpeak.1) hpeak.2

/-- **The store stays consistent in every run**, and answers exactly if no peer has a peak, or one of the
peaks is tracked: every method succeeds, there are at most 256 entries, disconnected peers do not appear, and
the next `peer_has_block` does not evict the sync target. -/
theorem run_answers_iff (ops : List Op) :
    ∃ s, run create ops = .ok s ∧ s.peakToPeer.entries.length ≤ 256 ∧
      (∀ peer, s.Appears peer → Connected ops peer) ∧
      (∀ headerHash peerId weight height newPeak, ∃ s',
        s.peerHasBlock headerHash peerId weight height newPeak = .ok s' ∧ KeepsTarget s s') ∧
      (s.Answers ↔ (∀ peer, s.peerToPeak.get? peer = none) ∨ ∃ peak, s.Tracked peak) := by
  obtain ⟨s, hs, hinv⟩ := exists_run ops
  refine ⟨s, hs, hinv.length_le, hinv.connected, fun headerHash peerId weight height newPeak => ?_,
    answers_iff⟩
  obtain ⟨s', hs', hkeeps, -⟩ := hinv.peerHasBlock headerHash peerId weight height newPeak
  exact ⟨s', hs', hkeeps⟩

/-- A peer sends a peak, and the store is cleared. -/
def clearedOps : List Op := [.peerHasBlock Bytes32.zero Bytes32.zero 1 0 true, .clearSyncInfo]

/-- **`get_heaviest_peak` may fail**: a peer still has a peak, and no peak is tracked. -/
theorem not_answers_clearedOps :
    ¬∀ ops s, run create ops = .ok s → s.Answers := by
  intro h
  obtain ⟨s, hs, -⟩ := exists_run clearedOps
  have hcleared : (∃ peak, s.peerToPeak.get? Bytes32.zero = some peak) ∧ s.peakToPeer = .empty := by
    unfold clearedOps at hs
    rw [← Except.ok.inj hs]
    exact ⟨⟨_, rfl⟩, rfl⟩
  obtain ⟨⟨peak, hpeak⟩, hempty⟩ := hcleared
  rcases answers_iff.mp (h clearedOps s hs) with hnone | ⟨peak', -, htracked⟩
  · rw [hnone] at hpeak
    cases hpeak
  · rw [hempty] at htracked
    cases htracked

end Heaviest

end SyncStore

end Chives
