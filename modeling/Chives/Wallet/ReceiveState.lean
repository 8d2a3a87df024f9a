import Chives.Library.Chunks
import Chives.Library.Transition
import Chives.Types.CoinState

set_option autoImplicit false

/-!
# Coin states from a peer

`receive_state_from_peer` of `wallet/wallet_node.py`, for a peer that is not trusted and with `update_finished_height`:
coin states are sorted and split, and a task for each chunk validates its states and applies the valid ones. The tasks
share a list of the heights at which they start, from which they see how far the wallet is synced.

## Main definitions

* `ReceiveState.Call`, `ReceiveState.Call.ofItems` — the chunks of a call.
* `ReceiveState.Task`, `ReceiveState.State`, `ReceiveState.step` — the tasks, and what may happen
  next.
* `ReceiveState.missing` — the states of a chunk that are not applied, and valid as far as is known.
* `ReceiveState.Recorded` — nothing is missing up to the heights that were recorded.
* `ReceiveState.NoFailureBehind` — no failed chunk is passed when progress is recorded.

## Main results

* `ReceiveState.recorded_apply_iff` — recording progress is right exactly under the condition.
* `ReceiveState.run_recorded` — so it is in every run whose steps meet the condition.
* `ReceiveState.not_recorded_failedFirst` — a chunk that fails is passed by the next one.

## Design

A transaction is one step, at the time when the shared list is read: the lock of the database is held, and no other
task applies anything. The semaphore only rules out some runs, and so does the end of the connection, after which no
tasks are made.
-/

namespace Chives

namespace ReceiveState

/-- The chunks of a call, whose states are sorted. -/
structure Call where
  chunks : List (List CoinState)
  nonempty : ∀ chunk ∈ chunks, chunk ≠ []
  sorted : chunks.flatten.Pairwise fun a b => lastChangeHeightCs a ≤ lastChangeHeightCs b

/-- `sorted(items_input, key=last_change_height_cs)`. -/
def sortItems (items : List CoinState) : List CoinState :=
  items.mergeSort fun a b => lastChangeHeightCs a ≤ lastChangeHeightCs b

lemma pairwise_sortItems (items : List CoinState) :
    (sortItems items).Pairwise fun a b => lastChangeHeightCs a ≤ lastChangeHeightCs b := by
  have hsorted := @List.pairwise_mergeSort CoinState (fun a b => lastChangeHeightCs a ≤ lastChangeHeightCs b)
    (fun a b c hab hbc => by simp only [decide_eq_true_eq] at *; omega)
    (fun a b => by simp only [Bool.or_eq_true, decide_eq_true_eq]; omega) items
  exact hsorted.imp fun h => by simpa using h

/-- The chunks of a list of states. -/
def Call.ofItems (items : List CoinState) (chunkSize : ℕ) (hsize : 0 < chunkSize) : Call where
  chunks := Chunks.chunksOf chunkSize (sortItems items)
  nonempty := fun _ => Chunks.ne_nil_of_mem_chunksOf hsize
  sorted := by
    rw [Chunks.flatten_chunksOf hsize]
    exact pairwise_sortItems items

/-- A task; with the states that it found to be valid. -/
inductive Task
  | waiting
  | validating
  | validated (valids : List CoinState)
  | applied (valids : List CoinState)
  | failed (valids : List CoinState)
  deriving DecidableEq

/-- The tasks, the start heights of those that are running, and the progress of the wallet; `recorded` are the heights
that the call has set. -/
structure State where
  tasks : ℕ → Task
  finished : ℕ → Bool
  created : ℕ
  csHeights : List ℕ
  finishedSyncUpTo : ℕ
  recorded : List ℕ

/-- Before the first task. -/
def State.initial (finishedSyncUpTo : ℕ) : State := ⟨fun _ => .waiting, fun _ => false, 0, [], finishedSyncUpTo, []⟩

/-- What may happen; a chunk is given by its number. -/
inductive Event
  | create
  /-- The states of a chunk are validated. -/
  | validate (chunk : ℕ) (valids : List CoinState)
  /-- The validation raises an exception. -/
  | raise (chunk : ℕ) (valids : List CoinState)
  /-- The valid states are applied. -/
  | apply (chunk : ℕ)
  /-- The transaction is rolled back. -/
  | rollback (chunk : ℕ)
  /-- The task ends. -/
  | finish (chunk : ℕ)
  /-- The progress of the wallet is changed elsewhere. -/
  | elsewhere (height : ℕ)

/-- A chunk. -/
def Call.chunk (c : Call) (k : ℕ) : List CoinState := c.chunks.getD k []

/-- The height at which a chunk starts. -/
def Call.start (c : Call) (k : ℕ) : ℕ := ((c.chunk k).head?.map lastChangeHeightCs).getD 0

/-- `target_concurrent_tasks`. -/
def targetConcurrentTasks : ℕ := 20

namespace State

/-- A task goes on. -/
def setTask (t : State) (k : ℕ) (task : Task) : State := { t with tasks := Function.update t.tasks k task }

/-- How far the wallet is synced when a chunk is applied. -/
def syncedUpTo (t : State) (valids : List CoinState) : ℤ :=
  if t.csHeights.length = 1 then ((valids.getLast?.map lastChangeHeightCs).getD 0 : ℤ) - 1
  else (t.csHeights.min?.getD 0 : ℤ) - 1

/-- `set_finished_sync_up_to`. -/
def setFinishedSyncUpTo (t : State) (height : ℤ) : State :=
  if (t.finishedSyncUpTo : ℤ) < height then
    { t with finishedSyncUpTo := height.toNat, recorded := height.toNat :: t.recorded }
  else t

end State

/-- What happens next. -/
def step (c : Call) (t : State) : Event → Option State
  | .create =>
    if t.created < c.chunks.length ∧ t.csHeights.length < targetConcurrentTasks then
      some { t.setTask t.created .validating with
        created := t.created + 1, csHeights := t.csHeights ++ [c.start t.created] }
    else none
  | .validate k valids =>
    if t.tasks k = .validating ∧ valids.Sublist (c.chunk k) then
      some (t.setTask k (if 0 < valids.length then .validated valids else .applied []))
    else none
  | .raise k valids =>
    if t.tasks k = .validating ∧ valids.Sublist (c.chunk k) then some (t.setTask k (.failed valids)) else none
  | .apply k =>
    match t.tasks k with
    | .validated valids => some ((t.setFinishedSyncUpTo (t.syncedUpTo valids)).setTask k (.applied valids))
    | _ => none
  | .rollback k =>
    match t.tasks k with
    | .validated valids => some (t.setTask k (.failed valids))
    | _ => none
  | .finish k =>
    if t.finished k then none
    else
      match t.tasks k with
      | .applied _ => some { t with
        finished := Function.update t.finished k true, csHeights := t.csHeights.erase (c.start k) }
      | .failed _ => some { t with
        finished := Function.update t.finished k true, csHeights := t.csHeights.erase (c.start k) }
      | _ => none
  | .elsewhere height => some { t with finishedSyncUpTo := height }

/-- The states of a chunk that are not applied: all of them until they are validated, and the valid ones then. -/
def Task.missing (chunk : List CoinState) : Task → List CoinState
  | waiting => chunk
  | validating => chunk
  | validated valids => valids
  | applied _ => []
  | failed valids => valids

/-- The states of a chunk that are not applied. -/
def missing (c : Call) (t : State) (k : ℕ) : List CoinState := (t.tasks k).missing (c.chunk k)

/-- **Nothing is skipped**: up to a height that was recorded, no state is missing. -/
def Recorded (c : Call) (t : State) : Prop :=
  ∀ s ∈ t.recorded, ∀ k < c.chunks.length, ∀ cs ∈ missing c t k, s < lastChangeHeightCs cs

/-- The valid states of a chunk that failed. -/
def State.failedStates (t : State) (k : ℕ) : List CoinState :=
  match t.tasks k with
  | .failed valids => valids
  | _ => []

/-- What is not passed when a chunk is applied: heights from the last valid state of the chunk on, if no other task is
running, and from the start of some running task on otherwise. -/
def State.Ahead (t : State) (valids : List CoinState) (height : ℕ) : Prop :=
  if t.csHeights.length = 1 then ∀ last ∈ valids.getLast?, lastChangeHeightCs last ≤ height
  else ∃ start ∈ t.csHeights, start ≤ height

/-- When a chunk is applied, the valid states of failed chunks are ahead, or the progress is not above that before. -/
def NoFailureBehind (t : State) : Event → Prop
  | .apply k =>
    match t.tasks k with
    | .validated valids => (t.finishedSyncUpTo : ℤ) < t.syncedUpTo valids →
      ∀ j < t.created, ∀ cs ∈ t.failedStates j, t.Ahead valids (lastChangeHeightCs cs)
    | _ => True
  | _ => True

instance decidableAhead (t : State) (valids : List CoinState) (height : ℕ) : Decidable (t.Ahead valids height) :=
  inferInstanceAs (Decidable (if t.csHeights.length = 1 then
    ∀ last ∈ valids.getLast?, lastChangeHeightCs last ≤ height else ∃ start ∈ t.csHeights, start ≤ height))

instance decidableNoFailureBehind (t : State) : (e : Event) → Decidable (NoFailureBehind t e)
  | .apply k =>
    match h : t.tasks k with
    | .validated valids => decidable_of_iff ((t.finishedSyncUpTo : ℤ) < t.syncedUpTo valids →
      ∀ j < t.created, ∀ cs ∈ t.failedStates j, t.Ahead valids (lastChangeHeightCs cs)) (by
        rw [NoFailureBehind, h])
    | .waiting => isTrue (by rw [NoFailureBehind, h]; trivial)
    | .validating => isTrue (by rw [NoFailureBehind, h]; trivial)
    | .applied _ => isTrue (by rw [NoFailureBehind, h]; trivial)
    | .failed _ => isTrue (by rw [NoFailureBehind, h]; trivial)
  | .create => isTrue trivial
  | .validate _ _ => isTrue trivial
  | .raise _ _ => isTrue trivial
  | .rollback _ => isTrue trivial
  | .finish _ => isTrue trivial
  | .elsewhere _ => isTrue trivial

/-! ## Chunks -/

namespace Call

variable (c : Call) {k j : ℕ}

lemma chunk_eq (hk : k < c.chunks.length) : c.chunk k = c.chunks[k] := by
  rw [chunk, List.getD_eq_getElem?_getD, List.getElem?_eq_getElem hk]
  rfl

lemma start_le (hk : k < c.chunks.length) {cs : CoinState} (hcs : cs ∈ c.chunk k) :
    c.start k ≤ lastChangeHeightCs cs := by
  have hsorted := (List.pairwise_flatten.mp c.sorted).1 (c.chunk k) (by
    rw [c.chunk_eq hk]
    exact List.getElem_mem hk)
  rw [start]
  cases hchunk : c.chunk k with
  | nil =>
    rw [hchunk] at hcs
    cases hcs
  | cons first rest =>
    rw [hchunk] at hcs hsorted
    rcases List.mem_cons.mp hcs with rfl | hcs
    · exact le_rfl
    · exact (List.pairwise_cons.mp hsorted).1 cs hcs

lemma le_of_lt (hkj : k < j) (hj : j < c.chunks.length) {a b : CoinState} (ha : a ∈ c.chunk k) (hb : b ∈ c.chunk j) :
    lastChangeHeightCs a ≤ lastChangeHeightCs b := by
  have hk : k < c.chunks.length := hkj.trans hj
  rw [c.chunk_eq hk] at ha
  rw [c.chunk_eq hj] at hb
  exact List.pairwise_iff_getElem.mp (List.pairwise_flatten.mp c.sorted).2 k j hk hj hkj a ha b hb

lemma exists_start (hk : k < c.chunks.length) : ∃ cs ∈ c.chunk k, lastChangeHeightCs cs = c.start k := by
  have hne := c.nonempty (c.chunk k) (by
    rw [c.chunk_eq hk]
    exact List.getElem_mem hk)
  rw [start]
  cases hchunk : c.chunk k with
  | nil => exact absurd hchunk hne
  | cons first rest => exact ⟨first, List.mem_cons_self, rfl⟩

end Call

/-! ## The invariant -/

variable {c : Call} {t u : State} {k : ℕ}

/-- The tasks that are running. -/
def State.runningTasks (t : State) : List ℕ := (List.range t.created).filter fun k => !t.finished k

/-- The invariant: the shared list has the start heights of the running tasks. -/
structure Inv (c : Call) (t : State) : Prop where
  heights : t.csHeights.Perm (t.runningTasks.map c.start)
  created : t.created ≤ c.chunks.length
  waiting : ∀ k, t.tasks k = .waiting ↔ t.created ≤ k
  finished : ∀ k, t.finished k = true → (∃ valids, t.tasks k = .applied valids) ∨ ∃ valids, t.tasks k = .failed valids
  valids : ∀ k valids, t.tasks k = .validated valids → valids ≠ [] ∧ valids.Sublist (c.chunk k)

lemma Inv.mem_runningTasks (h : Inv c t) (hwaiting : t.tasks k ≠ .waiting)
    (happlied : ∀ valids, t.tasks k ≠ .applied valids) (hfailed : ∀ valids, t.tasks k ≠ .failed valids) :
    k ∈ t.runningTasks := by
  refine List.mem_filter.mpr ⟨List.mem_range.mpr ?_, ?_⟩
  · exact lt_of_not_ge fun hle => hwaiting ((h.waiting k).mpr hle)
  · cases hfinished : t.finished k with
    | false => rfl
    | true =>
      rcases h.finished k hfinished with ⟨valids, hv⟩ | ⟨valids, hv⟩
      · exact absurd hv (happlied valids)
      · exact absurd hv (hfailed valids)

lemma Inv.start_mem (h : Inv c t) (hk : k ∈ t.runningTasks) : c.start k ∈ t.csHeights :=
  h.heights.mem_iff.mpr (List.mem_map_of_mem hk)

lemma min?_le {l : List ℕ} {n : ℕ} (hn : n ∈ l) : l.min?.getD 0 ≤ n := by
  cases hmin : l.min? with
  | none =>
    rw [List.min?_eq_none_iff.mp hmin] at hn
    cases hn
  | some m => exact (List.min?_eq_some_iff.mp hmin).2 n hn

/-- **What is recorded is below everything that is not applied**, but for chunks that failed. -/
lemma Inv.syncedUpTo_lt (h : Inv c t) {valids : List CoinState} (hk : t.tasks k = .validated valids) {j : ℕ}
    (hj : j < c.chunks.length) (hjk : j ≠ k) {cs : CoinState} (hcs : cs ∈ missing c t j)
    (hfailed : ∀ valids, t.tasks j ≠ .failed valids) : t.syncedUpTo valids < lastChangeHeightCs cs := by
  obtain ⟨hne, hsublist⟩ := h.valids k valids hk
  have hkrunning : k ∈ t.runningTasks := h.mem_runningTasks (by rw [hk]; exact nofun)
    (fun v => by rw [hk]; exact nofun) (fun v => by rw [hk]; exact nofun)
  have hkcreated : k < t.created := List.mem_range.mp (List.mem_filter.mp hkrunning).1
  have hmin : (t.csHeights.min?.getD 0 : ℤ) ≤ c.start k := by exact_mod_cast min?_le (h.start_mem hkrunning)
  have hchunk : cs ∈ c.chunk j := by
    rw [missing] at hcs
    cases htask : t.tasks j with
    | waiting =>
      rw [htask] at hcs
      exact hcs
    | validating =>
      rw [htask] at hcs
      exact hcs
    | validated v =>
      rw [htask] at hcs
      exact (h.valids j v htask).2.subset hcs
    | applied v =>
      rw [htask] at hcs
      cases hcs
    | failed v => exact absurd htask (hfailed v)
  by_cases hwaiting : t.tasks j = .waiting
  · -- the chunk comes later
    have hkj : k < j := hkcreated.trans_le ((h.waiting j).mp hwaiting)
    rw [State.syncedUpTo]
    split
    · obtain ⟨last, hlast⟩ := Option.isSome_iff_exists.mp (List.getLast?_isSome.mpr hne)
      have hmem : last ∈ c.chunk k := hsublist.subset (List.mem_of_getLast? hlast)
      have hle : (lastChangeHeightCs last : ℤ) ≤ lastChangeHeightCs cs := by
        exact_mod_cast c.le_of_lt hkj hj hmem hchunk
      rw [hlast]
      show (lastChangeHeightCs last : ℤ) - 1 < _
      omega
    · obtain ⟨first, hfirst, hstart⟩ := c.exists_start (hkcreated.trans_le h.created)
      have hle : (lastChangeHeightCs first : ℤ) ≤ lastChangeHeightCs cs := by
        exact_mod_cast c.le_of_lt hkj hj hfirst hchunk
      rw [hstart] at hle
      omega
  · -- the chunk is running, and the only running one is the other
    have happlied : ∀ v, t.tasks j ≠ .applied v := by
      intro v hv
      rw [missing, hv] at hcs
      cases hcs
    have hjrunning := h.mem_runningTasks hwaiting happlied hfailed
    rw [State.syncedUpTo]
    split
    · rename_i hone
      rw [h.heights.length_eq, List.length_map] at hone
      obtain ⟨i, hi⟩ := List.length_eq_one_iff.mp hone
      rw [hi] at hkrunning hjrunning
      exact absurd ((List.mem_singleton.mp hjrunning).trans (List.mem_singleton.mp hkrunning).symm) hjk
    · have hminj : (t.csHeights.min?.getD 0 : ℤ) ≤ c.start j := by exact_mod_cast min?_le (h.start_mem hjrunning)
      have hle : (c.start j : ℤ) ≤ lastChangeHeightCs cs := by exact_mod_cast c.start_le hj hchunk
      omega

/-! ## Steps -/

lemma State.tasks_setTask (t : State) (k : ℕ) (task : Task) (j : ℕ) :
    (t.setTask k task).tasks j = if j = k then task else t.tasks j := Function.update_apply _ _ _ _

lemma missing_congr {j : ℕ} (h : u.tasks j = t.tasks j) : missing c u j = missing c t j := by
  rw [missing, missing, h]

/-- A task that was made goes on. -/
lemma Inv.setTask (h : Inv c t) {task : Task} (hbefore : t.tasks k ≠ .waiting) (hafter : task ≠ .waiting)
    (hfinished : (∀ valids, t.tasks k ≠ .applied valids) ∧ ∀ valids, t.tasks k ≠ .failed valids)
    (hvalids : ∀ valids, task = .validated valids → valids ≠ [] ∧ valids.Sublist (c.chunk k)) :
    Inv c (t.setTask k task) where
  heights := h.heights
  created := h.created
  waiting := fun j => by
    rw [State.tasks_setTask]
    split
    · rename_i hj
      subst hj
      exact ⟨fun hw => absurd hw hafter, fun hle => absurd ((h.waiting j).mpr hle) hbefore⟩
    · exact h.waiting j
  finished := fun j hj => by
    rw [State.tasks_setTask]
    split
    · rename_i hjk
      subst hjk
      rcases h.finished j hj with ⟨valids, hv⟩ | ⟨valids, hv⟩
      · exact absurd hv (hfinished.1 valids)
      · exact absurd hv (hfinished.2 valids)
    · exact h.finished j hj
  valids := fun j valids hj => by
    rw [State.tasks_setTask] at hj
    split at hj
    · rename_i hjk
      subst hjk
      exact hvalids valids hj
    · exact h.valids j valids hj

/-- A task ends. -/
lemma Inv.finish (h : Inv c t) (hfinished : t.finished k = false)
    (htask : (∃ valids, t.tasks k = .applied valids) ∨ ∃ valids, t.tasks k = .failed valids) :
    Inv c { t with finished := Function.update t.finished k true, csHeights := t.csHeights.erase (c.start k) } where
  heights := by
    have hcreated : k < t.created := by
      refine lt_of_not_ge fun hle => ?_
      rw [(h.waiting k).mpr hle] at htask
      rcases htask with ⟨valids, hv⟩ | ⟨valids, hv⟩ <;> cases hv
    have hmem : k ∈ t.runningTasks := List.mem_filter.mpr ⟨List.mem_range.mpr hcreated, by rw [hfinished]; rfl⟩
    have hrest : ((List.range t.created).filter fun j => !(Function.update t.finished k true) j) =
        t.runningTasks.erase k := by
      rw [State.runningTasks, (List.nodup_range.filter _).erase_eq_filter, List.filter_filter]
      refine List.filter_congr fun j _ => ?_
      by_cases hj : j = k
      · simp [hj]
      · simp [hj]
    rw [State.runningTasks, hrest]
    have hperm := h.heights.trans ((List.perm_cons_erase hmem).map c.start)
    rw [List.map_cons] at hperm
    have herase := hperm.erase (c.start k)
    rwa [List.erase_cons_head] at herase
  created := h.created
  waiting := h.waiting
  finished := fun j hj => by
    by_cases hjk : j = k
    · rw [hjk]
      exact htask
    · have hj : (Function.update t.finished k true) j = true := hj
      rw [Function.update_of_ne hjk] at hj
      exact h.finished j hj
  valids := h.valids

/-- A task is made. -/
lemma Inv.create (h : Inv c t) (hcreated : t.created < c.chunks.length) :
    Inv c { t.setTask t.created .validating with
      created := t.created + 1, csHeights := t.csHeights ++ [c.start t.created] } where
  heights := by
    have hfinished : t.finished t.created = false := by
      cases hf : t.finished t.created with
      | false => rfl
      | true =>
        rcases h.finished t.created hf with ⟨valids, hv⟩ | ⟨valids, hv⟩
        · rw [(h.waiting _).mpr le_rfl] at hv
          cases hv
        · rw [(h.waiting _).mpr le_rfl] at hv
          cases hv
    show (t.csHeights ++ [c.start t.created]).Perm (((List.range (t.created + 1)).filter fun k => !t.finished k).map
      c.start)
    rw [List.range_succ, List.filter_append, List.map_append, List.filter_cons_of_pos (by simp [hfinished])]
    exact h.heights.append_right _
  created := hcreated
  waiting := fun k => by
    show (t.setTask t.created .validating).tasks k = .waiting ↔ t.created + 1 ≤ k
    rw [State.tasks_setTask]
    split
    · rename_i hk
      subst hk
      exact ⟨fun hw => (by cases hw), fun hle => absurd hle (by omega)⟩
    · rename_i hk
      rw [h.waiting]
      omega
  finished := fun k hk => by
    show (∃ valids, (t.setTask t.created .validating).tasks k = _) ∨ ∃ valids, (t.setTask t.created .validating).tasks k = _
    rw [State.tasks_setTask]
    split
    · rename_i hkc
      subst hkc
      rcases h.finished _ hk with ⟨valids, hv⟩ | ⟨valids, hv⟩
      · rw [(h.waiting _).mpr le_rfl] at hv
        cases hv
      · rw [(h.waiting _).mpr le_rfl] at hv
        cases hv
    · exact h.finished k hk
  valids := fun k valids hk => by
    have hk : (t.setTask t.created .validating).tasks k = .validated valids := hk
    rw [State.tasks_setTask] at hk
    split at hk
    · cases hk
    · exact h.valids k valids hk

lemma Inv.congr (h : Inv c t) (htasks : u.tasks = t.tasks) (hfinished : u.finished = t.finished)
    (hcreated : u.created = t.created) (hheights : u.csHeights = t.csHeights) : Inv c u where
  heights := by
    rw [hheights, State.runningTasks, hcreated, hfinished]
    exact h.heights
  created := hcreated ▸ h.created
  waiting := by
    rw [htasks, hcreated]
    exact h.waiting
  finished := by
    rw [htasks, hfinished]
    exact h.finished
  valids := htasks ▸ h.valids

lemma State.setFinishedSyncUpTo_tasks (t : State) (height : ℤ) : (t.setFinishedSyncUpTo height).tasks = t.tasks := by
  rw [setFinishedSyncUpTo]
  split <;> rfl

lemma State.setFinishedSyncUpTo_recorded (t : State) (height : ℤ) :
    (t.setFinishedSyncUpTo height).recorded =
      if (t.finishedSyncUpTo : ℤ) < height then height.toNat :: t.recorded else t.recorded := by
  rw [setFinishedSyncUpTo]
  split <;> rfl

lemma Inv.setFinishedSyncUpTo (h : Inv c t) (height : ℤ) : Inv c (t.setFinishedSyncUpTo height) := by
  refine h.congr (t.setFinishedSyncUpTo_tasks height) ?_ ?_ ?_
  all_goals
    rw [State.setFinishedSyncUpTo]
    split <;> rfl

/-- **The invariant is kept.** -/
lemma Inv.step {e : Event} (h : Inv c t) (hu : step c t e = some u) : Inv c u := by
  cases e with
  | create =>
    rw [ReceiveState.step] at hu
    split at hu
    · rename_i hcreated
      obtain rfl := Option.some.inj hu
      exact h.create hcreated.1
    · cases hu
  | validate k valids =>
    rw [ReceiveState.step] at hu
    split at hu
    · rename_i hk
      obtain rfl := Option.some.inj hu
      refine h.setTask (by rw [hk.1]; exact nofun) ?_ (by rw [hk.1]; simp) fun v hv => ?_
      · split
        · exact nofun
        · exact nofun
      · split at hv
        · rename_i hpos
          obtain rfl := Task.validated.inj hv
          exact ⟨List.length_pos_iff.mp hpos, hk.2⟩
        · cases hv
    · cases hu
  | raise k valids =>
    rw [ReceiveState.step] at hu
    split at hu
    · rename_i hk
      obtain rfl := Option.some.inj hu
      exact h.setTask (by rw [hk.1]; exact nofun) nofun (by rw [hk.1]; simp)
        nofun
    · cases hu
  | apply k =>
    rw [ReceiveState.step] at hu
    split at hu
    · rename_i valids hk
      obtain rfl := Option.some.inj hu
      refine (h.setFinishedSyncUpTo _).setTask ?_ nofun ?_ nofun
      · rw [State.setFinishedSyncUpTo_tasks, hk]
        exact nofun
      · rw [State.setFinishedSyncUpTo_tasks, hk]
        simp
    · cases hu
  | rollback k =>
    rw [ReceiveState.step] at hu
    split at hu
    · rename_i valids hk
      obtain rfl := Option.some.inj hu
      exact h.setTask (by rw [hk]; exact nofun) nofun (by rw [hk]; simp)
        nofun
    · cases hu
  | finish k =>
    rw [ReceiveState.step] at hu
    split at hu
    · cases hu
    · rename_i hfinished
      split at hu
      · rename_i valids hk
        obtain rfl := Option.some.inj hu
        exact h.finish (Bool.eq_false_iff.mpr hfinished) (.inl ⟨valids, hk⟩)
      · rename_i valids hk
        obtain rfl := Option.some.inj hu
        exact h.finish (Bool.eq_false_iff.mpr hfinished) (.inr ⟨valids, hk⟩)
      · cases hu
  | elsewhere height =>
    obtain rfl := Option.some.inj hu
    exact h.congr rfl rfl rfl rfl

lemma inv_initial (c : Call) (finishedSyncUpTo : ℕ) : Inv c (State.initial finishedSyncUpTo) where
  heights := .refl _
  created := Nat.zero_le _
  waiting := fun _ => ⟨fun _ => Nat.zero_le _, fun _ => rfl⟩
  finished := nofun
  valids := nofun

/-! ## What is recorded -/

lemma Recorded.mono (h : Recorded c t) (hrecorded : u.recorded = t.recorded)
    (hmissing : ∀ j, missing c u j ⊆ missing c t j) : Recorded c u := by
  intro s hs j hj cs hcs
  rw [hrecorded] at hs
  exact h s hs j hj cs (hmissing j hcs)

lemma missing_setTask (task : Task) (hsubset : missing c (t.setTask k task) k ⊆ missing c t k) (j : ℕ) :
    missing c (t.setTask k task) j ⊆ missing c t j := by
  by_cases hj : j = k
  · rw [hj]
    exact hsubset
  · rw [missing_congr ((t.tasks_setTask k task j).trans (if_neg hj))]
    exact List.Subset.refl _

lemma missing_of_task {task : Task} {j : ℕ} (htask : t.tasks j = task) : missing c t j = task.missing (c.chunk j) := by
  rw [missing, htask]

lemma State.tasks_setTask_self (t : State) (k : ℕ) (task : Task) : (t.setTask k task).tasks k = task :=
  (t.tasks_setTask k task k).trans (if_pos rfl)

/-- **Steps that record nothing** keep what is recorded right. -/
lemma Recorded.step {e : Event} (hr : Recorded c t) (h : Inv c t) (hu : step c t e = some u)
    (happly : ∀ k, e ≠ .apply k) : Recorded c u := by
  cases e with
  | create =>
    rw [ReceiveState.step] at hu
    split at hu
    · obtain rfl := Option.some.inj hu
      have hmade : Recorded c (t.setTask t.created .validating) := hr.mono rfl (missing_setTask _ (by
        rw [missing_of_task (t.tasks_setTask_self _ _), missing_of_task ((h.waiting _).mpr le_rfl)]
        exact List.Subset.refl _))
      exact hmade
    · cases hu
  | validate k valids =>
    rw [ReceiveState.step] at hu
    split at hu
    · rename_i hk
      obtain rfl := Option.some.inj hu
      refine hr.mono rfl (missing_setTask _ ?_)
      rw [missing_of_task (t.tasks_setTask_self _ _), missing_of_task hk.1]
      split
      · exact hk.2.subset
      · exact List.nil_subset _
    · cases hu
  | raise k valids =>
    rw [ReceiveState.step] at hu
    split at hu
    · rename_i hk
      obtain rfl := Option.some.inj hu
      refine hr.mono rfl (missing_setTask _ ?_)
      rw [missing_of_task (t.tasks_setTask_self _ _), missing_of_task hk.1]
      exact hk.2.subset
    · cases hu
  | apply k => exact absurd rfl (happly k)
  | rollback k =>
    rw [ReceiveState.step] at hu
    split at hu
    · rename_i valids hk
      obtain rfl := Option.some.inj hu
      refine hr.mono rfl (missing_setTask _ ?_)
      rw [missing_of_task (t.tasks_setTask_self _ _), missing_of_task hk]
      exact List.Subset.refl _
    · cases hu
  | finish k =>
    rw [ReceiveState.step] at hu
    split at hu
    · cases hu
    · split at hu
      · obtain rfl := Option.some.inj hu
        exact hr
      · obtain rfl := Option.some.inj hu
        exact hr
      · cases hu
  | elsewhere height =>
    obtain rfl := Option.some.inj hu
    exact hr

lemma State.syncedUpTo_lt_iff {valids : List CoinState} (hheights : t.csHeights ≠ []) (hvalids : valids ≠ [])
    (height : ℕ) : t.syncedUpTo valids < height ↔ t.Ahead valids height := by
  rw [syncedUpTo, Ahead]
  split
  · obtain ⟨last, hlast⟩ := Option.isSome_iff_exists.mp (List.getLast?_isSome.mpr hvalids)
    rw [hlast]
    simp only [Option.map_some, Option.getD_some, Option.mem_def, Option.some.injEq, forall_eq']
    omega
  · obtain ⟨start, hstart⟩ := Option.ne_none_iff_exists'.mp (mt List.min?_eq_none_iff.mp hheights)
    obtain ⟨hmem, hle⟩ := List.min?_eq_some_iff.mp hstart
    rw [hstart, Option.getD_some]
    constructor
    · intro hlt
      exact ⟨start, hmem, by omega⟩
    · rintro ⟨n, hn, hnle⟩
      have hmin := hle n hn
      omega

lemma State.mem_failedStates {j : ℕ} {cs : CoinState} (hcs : cs ∈ t.failedStates j) :
    ∃ valids, t.tasks j = .failed valids ∧ cs ∈ valids := by
  rw [failedStates] at hcs
  split at hcs
  · rename_i valids hj
    exact ⟨valids, hj, hcs⟩
  · cases hcs

/-- **A chunk is applied**: what is recorded is right exactly if no failed chunk is passed. -/
theorem recorded_apply_iff (h : Inv c t) (hr : Recorded c t) (hu : step c t (.apply k) = some u) :
    Recorded c u ↔ NoFailureBehind t (.apply k) := by
  rw [step] at hu
  split at hu
  swap
  · cases hu
  rename_i valids hk
  obtain rfl := Option.some.inj hu
  obtain ⟨hne, -⟩ := h.valids k valids hk
  have hrunning : k ∈ t.runningTasks := h.mem_runningTasks (by rw [hk]; simp) (by rw [hk]; simp) (by rw [hk]; simp)
  have hheights : t.csHeights ≠ [] := List.ne_nil_of_mem (h.start_mem hrunning)
  -- the other chunks are as before
  have hother : ∀ j, j ≠ k → missing c ((t.setFinishedSyncUpTo (t.syncedUpTo valids)).setTask k (.applied valids)) j =
      missing c t j := by
    intro j hj
    refine missing_congr ?_
    rw [State.tasks_setTask, if_neg hj, State.setFinishedSyncUpTo_tasks]
  have hself : missing c ((t.setFinishedSyncUpTo (t.syncedUpTo valids)).setTask k (.applied valids)) k = [] :=
    missing_of_task (State.tasks_setTask_self _ _ _)
  have hrecorded : ((t.setFinishedSyncUpTo (t.syncedUpTo valids)).setTask k (.applied valids)).recorded = _ :=
    t.setFinishedSyncUpTo_recorded (t.syncedUpTo valids)
  rw [NoFailureBehind, hk]
  constructor
  · intro hafter hlt j hj cs hcs
    obtain ⟨failed, hfailed, hmem⟩ := State.mem_failedStates hcs
    have hjk : j ≠ k := by
      rintro rfl
      rw [hk] at hfailed
      cases hfailed
    rw [← State.syncedUpTo_lt_iff hheights hne]
    have hbelow := hafter (t.syncedUpTo valids).toNat (by
      rw [hrecorded, if_pos hlt]
      exact List.mem_cons_self) j (hj.trans_le h.created) cs (by
      rw [hother j hjk, missing_of_task hfailed]
      exact hmem)
    omega
  · intro hahead s hs j hj cs hcs
    have hjk : j ≠ k := by
      rintro rfl
      rw [hself] at hcs
      cases hcs
    rw [hother j hjk] at hcs
    rw [hrecorded] at hs
    split at hs
    swap
    · exact hr s hs j hj cs hcs
    rename_i hlt
    rcases List.mem_cons.mp hs with rfl | hs
    swap
    · exact hr s hs j hj cs hcs
    have hbelow : t.syncedUpTo valids < lastChangeHeightCs cs := by
      by_cases hfailed : ∃ failed, t.tasks j = .failed failed
      · obtain ⟨failed, hfailed⟩ := hfailed
        refine (State.syncedUpTo_lt_iff hheights hne _).mpr (hahead hlt j ?_ cs ?_)
        · refine lt_of_not_ge fun hle => ?_
          rw [(h.waiting j).mpr hle] at hfailed
          cases hfailed
        · rw [missing_of_task hfailed] at hcs
          rw [State.failedStates, hfailed]
          exact hcs
      · exact h.syncedUpTo_lt hk hj hjk hcs fun failed hf => hfailed ⟨failed, hf⟩
    omega

/-! ## Runs -/

/-- **Progress is right.** In every run in which no failed chunk is passed when a chunk is applied, no valid state up to
a height that is recorded is missing. -/
theorem run_recorded (c : Call) (finishedSyncUpTo : ℕ) {events : List Event}
    (hbehind : Transition.Along (step c) NoFailureBehind (State.initial finishedSyncUpTo) events)
    (h : Transition.run (step c) (State.initial finishedSyncUpTo) events = some t) : Recorded c t := by
  have hinv : Inv c t ∧ Recorded c t := by
    refine @Transition.invariant_along _ _ (step c) NoFailureBehind (fun t => Inv c t ∧ Recorded c t) _
      ⟨inv_initial c finishedSyncUpTo, nofun⟩ ?_ _ hbehind _ h
    rintro t e u hbehind ⟨hinv, hrecorded⟩ hu
    refine ⟨hinv.step hu, ?_⟩
    by_cases happly : ∃ k, e = .apply k
    · obtain ⟨k, rfl⟩ := happly
      exact (recorded_apply_iff hinv hrecorded hu).mpr hbehind
    · exact hrecorded.step hinv hu fun k hk => happly ⟨k, hk⟩
  exact hinv.2

/-- Coins created at heights from a first one on, one at each. -/
def createdFrom (first : ℕ) : List CoinState :=
  (List.range 10).map fun k => ⟨⟨Bytes32.ofNat (first + k), .zero, 1⟩, none, some (first + k)⟩

/-- Two chunks. -/
def twoChunks : Call where
  chunks := [createdFrom 10, createdFrom 20]
  nonempty := by decide +kernel
  sorted := by decide +kernel

/-- Both chunks are validated, the second one first; it is applied before the other one. -/
def outOfOrder : List Event :=
  [.create, .create, .validate 1 (createdFrom 20), .validate 0 (createdFrom 10), .apply 1, .finish 1, .apply 0,
    .finish 0]

theorem run_recorded_outOfOrder : ∃ t, Transition.run (step twoChunks) (State.initial 0) outOfOrder = some t ∧
    t.recorded = [18, 9] ∧ Recorded twoChunks t := by
  have hrun : (Transition.run (step twoChunks) (State.initial 0) outOfOrder).map State.recorded = some [18, 9] ∧
      Transition.Along (step twoChunks) NoFailureBehind (State.initial 0) outOfOrder := by
    decide +kernel
  obtain ⟨t, ht, hrecorded⟩ := Option.map_eq_some_iff.mp hrun.1
  exact ⟨t, ht, hrecorded, run_recorded twoChunks 0 hrun.2 ht⟩

/-- The first chunk is rolled back; the second one is applied when it is the only one. -/
def failedFirst : List Event :=
  [.create, .create, .validate 0 (createdFrom 10), .rollback 0, .finish 0, .validate 1 (createdFrom 20), .apply 1]

lemma isSome_failedFirst : (Transition.run (step twoChunks) (State.initial 0) failedFirst).isSome = true := by
  decide +kernel

/-- The state at the end of the run. -/
def afterFailedFirst : State := (Transition.run (step twoChunks) (State.initial 0) failedFirst).get isSome_failedFirst

/-- **Not every run**: all states of a chunk that failed are passed. -/
theorem not_recorded_failedFirst :
    ¬ ∀ (c : Call) (finishedSyncUpTo : ℕ) (events : List Event) (t : State),
      Transition.run (step c) (State.initial finishedSyncUpTo) events = some t → Recorded c t := by
  intro h
  have hrecorded : Recorded twoChunks afterFailedFirst :=
    h twoChunks 0 failedFirst afterFailedFirst (Option.some_get isSome_failedFirst).symm
  have hsample : 28 ∈ afterFailedFirst.recorded ∧
      ∃ cs ∈ missing twoChunks afterFailedFirst 0, lastChangeHeightCs cs = 10 := by
    decide +kernel
  obtain ⟨hheight, cs, hcs, hlast⟩ := hsample
  have hbelow := hrecorded 28 hheight 0 (by decide) cs hcs
  omega

end ReceiveState

end Chives
