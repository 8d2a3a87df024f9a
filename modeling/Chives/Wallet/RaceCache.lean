import Mathlib.Data.Finset.Insert
import Chives.Library.OrderedDict
import Chives.Types.CoinState

set_option autoImplicit false

/-!
# States for blocks that have not arrived

`add_state_to_race_cache` of `wallet/wallet_node.py`: a wallet keeps the coin states that it gets before their block,
under the hash of the block. What is kept for old heights is evicted by a list of heights and hashes, to which no call
adds anything.

## Main definitions

* `RaceCache`, `RaceCache.addState` — the cache with its list of heights, and one call.
* `RaceCache.Indexed`, `RaceCache.Evicted`, `RaceCache.Bounded` — what keeps the cache small.

## Main results

* `RaceCache.exists_run` — no call fails, and everything stays in the cache.
* `RaceCache.bounded_iff` — the cache is bounded in no run that makes a call.
-/

namespace Chives

/-- `race_cache` and `race_cache_hashes`. -/
structure RaceCache where
  raceCache : OrderedDict Bytes32 (Finset CoinState)
  raceCacheHashes : List (ℕ × Bytes32)

namespace RaceCache

open ExceptRun

/-- The arguments of a call. -/
structure Call where
  headerHash : Bytes32
  height : ℕ
  coinState : CoinState

/-- `dict.pop`, without a default. -/
def pop (cache : OrderedDict Bytes32 (Finset CoinState)) (hh : Bytes32) :
    Except PyError (OrderedDict Bytes32 (Finset CoinState)) :=
  match cache.get? hh with
  | some _ => .ok (cache.erase hh)
  | none => .error .keyError

/-- `delete_threshold`. -/
def deleteThreshold : ℤ := 100

/-- `add_state_to_race_cache`. -/
def addState (s : RaceCache) (call : Call) : Except PyError RaceCache := do
  let cache ← s.raceCacheHashes.foldlM (fun cache rc =>
    if call.height - deleteThreshold ≥ rc.1 then pop cache rc.2 else .ok cache) s.raceCache
  let hashes := s.raceCacheHashes.filter fun rc => call.height - deleteThreshold < rc.1
  let states := (cache.get? call.headerHash).getD ∅
  .ok ⟨cache.set call.headerHash (insert call.coinState states), hashes⟩

/-- A run of calls, from the start of the wallet on. -/
def run (calls : List Call) : Except PyError RaceCache := calls.foldlM addState ⟨.empty, []⟩

/-- Each header hash in the cache was recorded with a height. -/
def Indexed (s : RaceCache) : Prop := ∀ hh, (s.raceCache.get? hh).isSome → ∃ height, (height, hh) ∈ s.raceCacheHashes

/-- Each header hash in the cache came with a height that is not old for the last call. -/
def Evicted (s : RaceCache) (calls : List Call) (last : Call) : Prop :=
  ∀ hh, (s.raceCache.get? hh).isSome → ∃ call ∈ calls, call.headerHash = hh ∧ last.height - deleteThreshold < call.height

/-- **The cache is bounded** after a run: no call fails, and what is kept is recorded and not old. -/
def Bounded (calls : List Call) : Prop :=
  ∃ s, run calls = .ok s ∧ Indexed s ∧ ∀ last, calls.getLast? = some last → Evicted s calls last

lemma addState_of_nil (cache : OrderedDict Bytes32 (Finset CoinState)) (call : Call) :
    addState ⟨cache, []⟩ call =
      .ok ⟨cache.set call.headerHash (insert call.coinState ((cache.get? call.headerHash).getD ∅)), []⟩ := rfl

/-- **No call fails**, nothing is recorded, and all header hashes stay in the cache. -/
theorem exists_run (calls : List Call) : ∃ s, run calls = .ok s ∧ s.raceCacheHashes = [] ∧
    ∀ hh, (s.raceCache.get? hh).isSome ↔ ∃ call ∈ calls, call.headerHash = hh := by
  induction calls using List.reverseRecOn with
  | nil => exact ⟨⟨.empty, []⟩, rfl, rfl, fun hh => by simp [OrderedDict.get?_empty]⟩
  | append_singleton calls call ih =>
    obtain ⟨⟨cache, hashes⟩, hrun, rfl, hkept⟩ := ih
    have hlast : run (calls ++ [call]) = addState ⟨cache, []⟩ call := by
      rw [run, List.foldlM_append, ← run, hrun, ok_bind, List.foldlM_cons, addState_of_nil]
      rfl
    refine ⟨_, hlast.trans (addState_of_nil cache call), rfl, fun hh => ?_⟩
    rw [OrderedDict.get?_set]
    by_cases hh' : hh = call.headerHash
    · simp [hh']
    · rw [if_neg hh', hkept]
      simp [Ne.symm hh', or_and_right, exists_or]

/-- **When the cache is bounded**: only in the run without calls. No call fails, and of what is kept nothing is old exactly
if each header hash came with a height that is not old for the last call. -/
theorem bounded_iff (calls : List Call) : (Bounded calls ↔ calls = []) ∧ ∃ s, run calls = .ok s ∧
    ∀ last, calls.getLast? = some last → (Evicted s calls last ↔ ∀ call ∈ calls, ∃ call' ∈ calls,
      call'.headerHash = call.headerHash ∧ last.height - deleteThreshold < call'.height) := by
  obtain ⟨s, hrun, hhashes, hkept⟩ := exists_run calls
  refine ⟨⟨?_, ?_⟩, s, hrun, fun last _ => ⟨fun h call hcall => h _ ((hkept _).mpr ⟨call, hcall, rfl⟩), fun h hh hkey => ?_⟩⟩
  · rintro ⟨s', hrun', hindexed, -⟩
    obtain rfl : s = s' := Except.ok.inj (hrun.symm.trans hrun')
    refine List.eq_nil_iff_forall_not_mem.mpr fun call hcall => ?_
    obtain ⟨height, hmem⟩ := hindexed _ ((hkept _).mpr ⟨call, hcall, rfl⟩)
    rw [hhashes] at hmem
    cases hmem
  · rintro rfl
    exact ⟨_, rfl, fun hh hkey => (by cases hkey), fun last hlast => (by cases hlast)⟩
  · obtain ⟨call, hcall, rfl⟩ := (hkept hh).mp hkey
    exact h call hcall

lemma length_later : (List.replicate 32 (1 : UInt8)).length = 32 := rfl

/-- A state for a block at height 1, and one for a block at height 200. -/
def twoCalls : List Call :=
  [⟨Bytes32.zero, 1, ⟨⟨Bytes32.zero, Bytes32.zero, 0⟩, none, some 1⟩⟩,
    ⟨⟨List.replicate 32 1, length_later⟩, 200, ⟨⟨Bytes32.zero, Bytes32.zero, 1⟩, none, some 200⟩⟩]

/-- **Not in every run**: both states are kept, and no height is recorded. -/
theorem not_bounded : ¬ ∀ calls, Bounded calls := fun h => by
  have hnil := (bounded_iff twoCalls).1.mp (h twoCalls)
  cases hnil

end RaceCache

end Chives
