import Chives.PlotSync.Sender

set_option autoImplicit false

/-!
# Refresh cycles of the plot manager

`plotting/manager.py` and `harvester/harvester.py`: a thread looks for plots, and tells the sender of plot updates
when it starts, after each batch of plots, and when it is done. The task of the sender works on the same queue of
messages, and clears it for an initial sync of its own when something goes wrong.

## Main definitions

* `PlotSync.Refresh`, `PlotSync.Event`, `PlotSync.refreshStep` — a sender, a receiver and the
  refresh thread, and what may happen next.
* `PlotSync.WellFormed` — the messages of one sync.
* `PlotSync.OneSync` — the queue is the beginning of one sync.
* `PlotSync.NothingAfterDone` — no callback adds to a queue that ends with the last message of a sync.

## Main results

* `PlotSync.RefreshInv.step` — one step keeps the invariant.
* `PlotSync.run_oneSync` — in every run in which nothing is added after the last message of a sync, the queue
  of an active sync is the beginning of one sync.
* `PlotSync.not_oneSync_resetBetween` — a reset between two batches.

## Design

The batches of a cycle are those of `list_to_batches`: what remains decreases, and is zero at the end. A callback
that fails ends the cycle, and a cycle may be given up at any time.
-/

namespace Chives.PlotSync

variable {ν π : Type}

/-! ## Cycles -/

/-- Where the refresh thread is; during a cycle, with how many plots are not processed. -/
inductive Phase
  | outside
  | loading (remaining : ℕ)
  deriving DecidableEq, Repr

/-- A sender, a receiver and the refresh thread. -/
structure Refresh (ν π : Type) where
  base : State ν π
  phase : Phase

/-- At the beginning. -/
def Refresh.initial : Refresh ν π := ⟨.initial, .outside⟩

/-- What may happen. -/
inductive Event (ν π : Type)
  | started (now : ℕ) (initial : Bool) (remaining : ℕ)
  | batchProcessed (loaded : List (ν × π)) (remaining : ℕ)
  | done (removed : List ν) (manager : PlotManager ν π)
  /-- The refresh thread gives a cycle up. -/
  | aborted
  /-- The task of the sender, the connection and the receiver. -/
  | other (action : Action ν π)

/-- Whether an action belongs to the refresh thread. -/
def Action.isCallback : Action ν π → Bool
  | .syncStart _ _ => true
  | .processBatch _ _ => true
  | .syncDone _ _ => true
  | _ => false

/-- The cycle goes on after a callback, or ends if it fails. -/
def Refresh.afterCallback (t : Refresh ν π) (phase : Phase) : Option (State ν π) → Refresh ν π
  | some base => ⟨base, phase⟩
  | none => ⟨t.base, .outside⟩

section Step

variable [DecidableEq ν]

/-- What happens next; `_plot_refresh_callback` tells the sender what the refresh thread has done. -/
def refreshStep (t : Refresh ν π) : Event ν π → Option (Refresh ν π)
  | .started now initial remaining =>
    match t.phase with
    | .outside => (step t.base (.syncStart now initial)).map fun base => ⟨base, .loading remaining⟩
    | .loading _ => none
  | .batchProcessed loaded remaining =>
    match t.phase with
    | .outside => none
    | .loading before =>
      if remaining < before then
        some (t.afterCallback (.loading remaining) (step t.base (.processBatch loaded remaining)))
      else none
  | .done removed manager =>
    match t.phase with
    | .loading 0 => some (t.afterCallback .outside (step t.base (.syncDone removed manager)))
    | _ => none
  | .aborted => some ⟨t.base, .outside⟩
  | .other action => if action.isCallback then none else (step t.base action).map fun base => ⟨base, t.phase⟩

end Step

/-! ## One sync -/

/-- Whether a message is the last one of its kind. -/
def Payload.isFinal : Payload ν π → Bool
  | .loaded _ final => final
  | .paths _ _ final => final
  | _ => false

/-- Of some messages, the last one is final, and only that one. -/
def FinalLast (l : List (Payload ν π)) : Prop :=
  ∃ (before : List (Payload ν π)) (last : Payload ν π), l = before ++ [last] ∧ last.isFinal = true ∧
    ∀ p ∈ before, p.isFinal = false

/-- The batches of loaded plots. -/
structure LoadedPart (l : List (Payload ν π)) : Prop where
  messageType : ∀ p ∈ l, p.messageType = .loaded
  final : l = [] ∨ FinalLast l

/-- The batches of a list of paths. -/
structure PathsPart (kind : PathKind) (l : List (Payload ν π)) : Prop where
  messageType : ∀ p ∈ l, p.messageType = .paths kind
  final : FinalLast l

/-- The messages after the loaded plots. -/
def IsEnd (l : List (Payload ν π)) : Prop :=
  ∃ removed invalid keysMissing duplicates : List (Payload ν π), PathsPart .removed removed ∧
    PathsPart .invalid invalid ∧ PathsPart .keysMissing keysMissing ∧ PathsPart .duplicates duplicates ∧
    l = removed ++ invalid ++ keysMissing ++ duplicates ++ [.done]

/-- The messages of one sync. -/
def WellFormed (l : List (Payload ν π)) : Prop :=
  ∃ (initial : Bool) (last : ℕ) (loaded ending : List (Payload ν π)), LoadedPart loaded ∧ IsEnd ending ∧
    l = .start initial last :: (loaded ++ ending)

/-- The queue is the beginning of one sync, with its id and with message ids from zero on. -/
def OneSync (s : Sender ν π) : Prop := s.Numbered ∧ ∃ sync, WellFormed sync ∧ s.payloads <+: sync

/-- A callback adds nothing to a queue with the last message of a sync. -/
def NothingAfterDone (t : Refresh ν π) : Event ν π → Prop
  | .batchProcessed loaded remaining =>
    0 < loaded.length ∨ remaining = 0 → ∀ p ∈ t.base.sender.payloads, p.isDone = false
  | .done _ _ => ∀ p ∈ t.base.sender.payloads, p.isDone = false
  | _ => True

instance decidableNothingAfterDone (t : Refresh ν π) : (e : Event ν π) → Decidable (NothingAfterDone t e)
  | .started _ _ _ => inferInstanceAs (Decidable True)
  | .batchProcessed loaded remaining => inferInstanceAs (Decidable
    (0 < loaded.length ∨ remaining = 0 → ∀ p ∈ t.base.sender.payloads, p.isDone = false))
  | .done _ _ => inferInstanceAs (Decidable (∀ p ∈ t.base.sender.payloads, p.isDone = false))
  | .aborted => inferInstanceAs (Decidable True)
  | .other _ => inferInstanceAs (Decidable True)

/-! ## Batches -/

variable {α : Type}

lemma listToBatches_eq (l : List α) (batchSize : ℕ) :
    listToBatches l batchSize = (List.range ((l.length + batchSize - 1) / batchSize)).map fun i =>
      (l.length - min (i * batchSize + batchSize) l.length, (l.drop (i * batchSize)).take batchSize) := by
  rw [listToBatches, Chunks.chunksOf]
  refine List.ext_getElem (by simp) fun i h₁ h₂ => ?_
  simp

variable {batchSize : ℕ}

/-- **Nothing remains after the last batch**, and only after that one. -/
lemma listToBatches_last {l : List α} (hsize : 0 < batchSize) (hl : l ≠ []) :
    ∃ (before : List (ℕ × List α)) (last : ℕ × List α), listToBatches l batchSize = before ++ [last] ∧
      last.1 = 0 ∧ ∀ batch ∈ before, batch.1 ≠ 0 := by
  have hpos : 0 < l.length := List.length_pos_iff.mpr hl
  have hdiv := Nat.div_add_mod (l.length + batchSize - 1) batchSize
  have hmod := Nat.mod_lt (l.length + batchSize - 1) hsize
  obtain ⟨n, hn⟩ : ∃ n, (l.length + batchSize - 1) / batchSize = n + 1 :=
    Nat.exists_eq_succ_of_ne_zero (Nat.div_pos (by omega) hsize).ne'
  rw [hn, Nat.mul_succ] at hdiv
  rw [listToBatches_eq, hn, List.range_succ, List.map_append]
  refine ⟨_, _, rfl, ?_, fun batch hbatch => ?_⟩
  · show l.length - min (n * batchSize + batchSize) l.length = 0
    rw [mul_comm]
    omega
  · obtain ⟨i, hi, rfl⟩ := List.mem_map.mp hbatch
    have hmul : batchSize * (i + 1) ≤ batchSize * n := Nat.mul_le_mul_left batchSize (List.mem_range.mp hi)
    rw [Nat.mul_succ] at hmul
    rw [mul_comm]
    omega

lemma listToBatches_nil (hsize : 0 < batchSize) : listToBatches ([] : List α) batchSize = [] := by
  rw [listToBatches_eq, Nat.div_eq_of_lt (by simp; omega)]
  rfl

lemma finalLast_map {batches before : List (ℕ × α)} {last : ℕ × α} {f : ℕ × α → Payload ν π}
    (hbatches : batches = before ++ [last]) (hlast : last.1 = 0) (hbefore : ∀ batch ∈ before, batch.1 ≠ 0)
    (hf : ∀ batch, (f batch).isFinal = decide (batch.1 = 0)) : FinalLast (batches.map f) := by
  refine ⟨before.map f, f last, by rw [hbatches, List.map_append, List.map_singleton], ?_, fun p hp => ?_⟩
  · rw [hf, hlast]
    rfl
  · obtain ⟨batch, hbatch, rfl⟩ := List.mem_map.mp hp
    rw [hf]
    exact decide_eq_false (hbefore batch hbatch)

namespace Sender

variable {s : Sender ν π}

lemma addListBatched_part (hs : s.syncId ≠ 0) (kind : PathKind) (data : List ν) {batchSize : ℕ}
    (hsize : 0 < batchSize) :
    ∃ added, PathsPart kind added ∧ s.addListBatched kind data batchSize = some (s.pushAll added) := by
  rw [addListBatched]
  split
  · refine ⟨[.paths kind [] true], ⟨fun p hp => ?_, [], _, rfl, rfl, fun p hp => by cases hp⟩, ?_⟩
    · rw [List.mem_singleton.mp hp]
      rfl
    · rw [addMessage, if_neg hs]
      rfl
  · rename_i hlength
    obtain ⟨before, last, hbatches, hlast, hbefore⟩ :=
      listToBatches_last hsize (List.ne_nil_of_length_pos (Nat.pos_of_ne_zero hlength))
    refine ⟨_, ⟨fun p hp => ?_, finalLast_map hbatches hlast hbefore fun batch => rfl⟩,
      foldlM_addMessage (fun batch : ℕ × List ν => .paths kind batch.2 (batch.1 = 0)) hs _⟩
    obtain ⟨batch, -, rfl⟩ := List.mem_map.mp hp
    rfl

lemma syncDone_isEnd (hs : s.syncId ≠ 0) (removed : List ν) (manager : PlotManager ν π) :
    ∃ added, IsEnd added ∧ s.syncDone removed manager = some (s.pushAll added) := by
  have hsize := manager.batchSize_pos
  obtain ⟨xs, hxs, hx⟩ := addListBatched_part hs .removed removed hsize
  have hs₁ : (s.pushAll xs).syncId ≠ 0 := by rwa [(s.pushAll_fields xs).1]
  obtain ⟨ys, hys, hy⟩ := addListBatched_part hs₁ .invalid manager.failedToOpen hsize
  rw [← pushAll_append] at hy
  have hs₂ : (s.pushAll (xs ++ ys)).syncId ≠ 0 := by rwa [(s.pushAll_fields _).1]
  obtain ⟨zs, hzs, hz⟩ := addListBatched_part hs₂ .keysMissing manager.noKey hsize
  rw [← pushAll_append] at hz
  have hs₃ : (s.pushAll (xs ++ ys ++ zs)).syncId ≠ 0 := by rwa [(s.pushAll_fields _).1]
  obtain ⟨ws, hws, hw⟩ := addListBatched_part hs₃ .duplicates manager.duplicates hsize
  rw [← pushAll_append] at hw
  have hs₄ : (s.pushAll (xs ++ ys ++ zs ++ ws)).syncId ≠ 0 := by rwa [(s.pushAll_fields _).1]
  refine ⟨xs ++ ys ++ zs ++ ws ++ [.done], ⟨xs, ys, zs, ws, hxs, hys, hzs, hws, rfl⟩, ?_⟩
  rw [pushAll_append]
  simp only [syncDone, hx, Option.bind_eq_bind, Option.bind_some, hy, hz, hw]
  rw [addMessage, if_neg hs₄]
  rfl

lemma foldlM_processBatch_filter (hs : s.syncId ≠ 0) (batches : List (ℕ × List (ν × π))) :
    batches.foldlM (fun s batch => s.processBatch batch.2 batch.1) s =
      some (s.pushAll ((batches.filter fun batch => 0 < batch.2.length ∨ batch.1 = 0).map fun batch =>
        .loaded batch.2 (batch.1 = 0))) := by
  induction batches generalizing s with
  | nil => rfl
  | cons batch batches ih =>
    rw [List.foldlM_cons, processBatch]
    by_cases hadd : 0 < batch.2.length ∨ batch.1 = 0
    · rw [if_pos hadd, addMessage, if_neg hs, List.filter_cons_of_pos (by simpa using hadd), List.map_cons]
      exact @ih (s.push _) hs
    · rw [if_neg hadd, List.filter_cons_of_neg (by simpa using hadd)]
      exact ih hs

lemma loadedPart_listToBatches (plots : List (ν × π)) {batchSize : ℕ} (hsize : 0 < batchSize) :
    LoadedPart (((listToBatches plots batchSize).filter fun batch => 0 < batch.2.length ∨ batch.1 = 0).map
      fun batch => (.loaded batch.2 (batch.1 = 0) : Payload ν π)) := by
  refine ⟨fun p hp => ?_, ?_⟩
  · obtain ⟨batch, -, rfl⟩ := List.mem_map.mp hp
    rfl
  · by_cases hplots : plots = []
    · left
      rw [hplots, listToBatches_nil hsize]
      rfl
    · right
      obtain ⟨before, last, hbatches, hlast, hbefore⟩ := listToBatches_last hsize hplots
      rw [hbatches, List.filter_append, List.filter_cons_of_pos (by simp [hlast]), List.filter_nil]
      exact finalLast_map rfl hlast (fun batch hbatch => hbefore batch (List.mem_of_mem_filter hbatch))
        fun batch => rfl

/-- **A reset** leaves the messages of a whole sync. -/
lemma reset_wellFormed (s : Sender ν π) (now : ℕ) (manager : PlotManager ν π) :
    ∃ s', s.reset now manager = some s' ∧ s'.syncId ≠ 0 ∧ s'.Numbered ∧ WellFormed s'.payloads := by
  obtain ⟨s', hs', hqueue, -⟩ := reset_eq s now manager
  refine ⟨s', hs', hqueue.active, hqueue.numbered, ?_⟩
  have hid : nextSyncId 0 now ≠ 0 := by
    rw [nextSyncId]
    split <;> omega
  obtain ⟨s₀, hs₀⟩ : ∃ s₀ : Sender ν π, s₀ =
    { s with lastSyncId := 0, syncId := nextSyncId 0 now, nextMessageId := 0, messages := [] } := ⟨_, rfl⟩
  have hstart : syncStart { s with lastSyncId := 0, syncId := 0, nextMessageId := 0, messages := [] } now true =
      some (s₀.push (.start true 0)) := by
    rw [syncStart, if_neg (by simp), addMessage, if_neg hid, hs₀]
  have hs₁ : (s₀.push (.start true 0)).syncId ≠ 0 := by
    rw [hs₀]
    exact hid
  have hpayloads : (s₀.push (.start true 0)).payloads = [.start true 0] := by
    simp [payloads, push, hs₀]
  have hx := foldlM_processBatch_filter hs₁ (listToBatches manager.plots manager.batchSize)
  have hpart := loadedPart_listToBatches manager.plots manager.batchSize_pos
  obtain ⟨xs, hxs⟩ : ∃ xs, xs = ((listToBatches manager.plots manager.batchSize).filter
    fun batch => 0 < batch.2.length ∨ batch.1 = 0).map
      fun batch => (.loaded batch.2 (batch.1 = 0) : Payload ν π) := ⟨_, rfl⟩
  rw [← hxs] at hx hpart
  have hs₂ : ((s₀.push (.start true 0)).pushAll xs).syncId ≠ 0 := by
    rwa [(pushAll_fields _ xs).1]
  obtain ⟨ys, hys, hy⟩ := syncDone_isEnd hs₂ [] manager
  rw [← pushAll_append] at hy
  have hreset : s.reset now manager = some ((s₀.push (.start true 0)).pushAll (xs ++ ys)) := by
    simp only [reset, hstart, Option.bind_eq_bind, Option.bind_some, hx]
    exact hy
  obtain rfl := Option.some.inj (hs'.symm.trans hreset)
  refine ⟨true, 0, xs, ys, hpart, hys, ?_⟩
  rw [payloads_pushAll, hpayloads]
  rfl

end Sender

/-! ## Whole and unfinished syncs -/

variable {l : List (Payload ν π)}

lemma PathsPart.undone {kind : PathKind} (h : PathsPart kind l) : ∀ p ∈ l, p.isDone = false := by
  intro p hp
  have htype := h.messageType p hp
  cases p with
  | done => cases htype
  | start initial last => rfl
  | loaded plots final => rfl
  | paths kind data final => rfl

lemma isDone_of_loaded {p : Payload ν π} (h : p.messageType = .loaded) : p.isDone = false := by
  cases p with
  | done => cases h
  | start initial last => rfl
  | loaded plots final => rfl
  | paths kind data final => rfl

lemma WellFormed.eq_concat (h : WellFormed l) : ∃ before, l = before ++ [.done] ∧ ∀ p ∈ before, p.isDone = false := by
  obtain ⟨initial, last, loaded, ending, hloaded, hending, rfl⟩ := h
  obtain ⟨removed, invalid, keysMissing, duplicates, h₁, h₂, h₃, h₄, rfl⟩ := hending
  refine ⟨.start initial last :: (loaded ++ (removed ++ invalid ++ keysMissing ++ duplicates)), ?_, fun p hp => ?_⟩
  · simp only [List.cons_append, List.append_assoc]
  · simp only [List.mem_cons, List.mem_append] at hp
    rcases hp with rfl | hp | ((hp | hp) | hp) | hp
    · rfl
    · exact isDone_of_loaded (hloaded.messageType p hp)
    · exact h₁.undone p hp
    · exact h₂.undone p hp
    · exact h₃.undone p hp
    · exact h₄.undone p hp

lemma Payload.eq_done {p : Payload ν π} (h : p.isDone = true) : p = .done := by
  cases p with
  | done => rfl
  | start initial last => cases h
  | loaded plots final => cases h
  | paths kind data final => cases h

lemma OneSync.last {s : Sender ν π} (h : OneSync s) {before after : List (Payload ν π)}
    (hpayloads : s.payloads = before ++ .done :: after) : after = [] := by
  obtain ⟨-, sync, hsync, hbeginning⟩ := h
  obtain ⟨body, rfl, hbody⟩ := hsync.eq_concat
  obtain ⟨rest, hrest⟩ := hbeginning
  rw [hpayloads, List.append_assoc, List.cons_append] at hrest
  -- the message that ends the sync cannot be in its body
  rcases List.append_eq_append_iff.mp hrest with ⟨middle, hbodyeq, hend⟩ | ⟨middle, hbeforeeq, hend⟩
  · cases middle with
    | nil =>
      have htail := (List.cons.inj (show .done :: (after ++ rest) = [] ++ [.done] from hend)).2
      exact (List.append_eq_nil_iff.mp htail).1
    | cons p middle =>
      have hp : Payload.done = p := (List.cons.inj hend).1
      have hfalse := hbody p (by rw [hbodyeq]; simp)
      rw [← hp] at hfalse
      cases hfalse
  · cases middle with
    | nil =>
      have htail := (List.cons.inj (show [.done] = [] ++ .done :: (after ++ rest) from hend)).2
      exact (List.append_eq_nil_iff.mp htail.symm).1
    | cons p middle =>
      have hfalse := (List.cons.inj hend).2
      simp at hfalse

/-- The first messages of a sync, with plots that remain. -/
def Loading (s : Sender ν π) (remaining : ℕ) : Prop :=
  ∃ (initial : Bool) (last : ℕ) (loaded : List (Payload ν π)), s.payloads = .start initial last :: loaded ∧
    (∀ p ∈ loaded, p.messageType = .loaded) ∧ (0 < remaining → ∀ p ∈ loaded, p.isFinal = false) ∧
    (remaining = 0 → loaded = [] ∨ FinalLast loaded)

lemma isEnd_shortest : ∃ ending : List (Payload ν π), IsEnd ending := by
  have hpart : ∀ kind, PathsPart kind [(.paths kind [] true : Payload ν π)] := fun kind =>
    ⟨fun p hp => (by rw [List.mem_singleton.mp hp]; rfl), [], _, rfl, rfl, nofun⟩
  exact ⟨_, _, _, _, _, hpart _, hpart _, hpart _, hpart _, rfl⟩

lemma Loading.wellFormed {s : Sender ν π} {remaining : ℕ} (h : Loading s remaining) :
    ∃ sync, WellFormed sync ∧ s.payloads <+: sync := by
  obtain ⟨initial, last, loaded, hpayloads, htype, hmore, hall⟩ := h
  obtain ⟨ending, hending⟩ := isEnd_shortest (ν := ν) (π := π)
  rcases Nat.eq_zero_or_pos remaining with hzero | hpos
  · refine ⟨_, ⟨initial, last, loaded, ending, ⟨htype, hall hzero⟩, hending, rfl⟩, ending, ?_⟩
    rw [hpayloads, List.cons_append]
  · refine ⟨_, ⟨initial, last, loaded ++ [.loaded [] true], ending, ⟨fun p hp => ?_, .inr
      ⟨loaded, _, rfl, rfl, hmore hpos⟩⟩, hending, rfl⟩, .loaded [] true :: ending, ?_⟩
    · rcases List.mem_append.mp hp with hp | hp
      · exact htype p hp
      · rw [List.mem_singleton.mp hp]
        rfl
    · rw [hpayloads, List.cons_append, List.append_assoc, List.singleton_append]

lemma WellFormed.exists_isDone (h : WellFormed l) : ¬ ∀ p ∈ l, p.isDone = false := by
  obtain ⟨before, rfl, -⟩ := h.eq_concat
  intro hall
  cases hall .done (by simp)

/-! ## The invariant -/

/-- The queue and the refresh thread. -/
structure RefreshInv (t : Refresh ν π) : Prop where
  idle : t.base.sender.syncId = 0 → t.base.sender.messages = []
  numbered : t.base.sender.Numbered
  queue : t.base.sender.syncId ≠ 0 → WellFormed t.base.sender.payloads ∨
    ∃ remaining, Loading t.base.sender remaining ∧ (t.phase = .loading remaining ∨ t.phase = .outside)

lemma RefreshInv.oneSync {t : Refresh ν π} (h : RefreshInv t) (hactive : t.base.sender.syncId ≠ 0) :
    OneSync t.base.sender := by
  refine ⟨h.numbered, ?_⟩
  rcases h.queue hactive with hwhole | ⟨remaining, hloading, -⟩
  · exact ⟨_, hwhole, List.prefix_rfl⟩
  · exact hloading.wellFormed

lemma numbered_nil {s : Sender ν π} (h : s.messages = []) : s.Numbered := by
  intro i g hg
  rw [h] at hg
  cases hg

section Steps

variable [DecidableEq ν]

omit [DecidableEq ν] in
lemma resetSender_wellFormed {t u : State ν π} {fallback : Fallback ν π} (hu : t.resetSender fallback = some u) :
    u.sender.syncId ≠ 0 ∧ u.sender.Numbered ∧ WellFormed u.sender.payloads := by
  obtain ⟨s', hs', hactive, hnumbered, hwhole⟩ :=
    Sender.reset_wellFormed { t.sender with waiting := false } fallback.now fallback.manager
  rw [State.resetSender, hs', Option.map_some] at hu
  obtain rfl := Option.some.inj hu
  exact ⟨hactive, hnumbered, hwhole⟩

/-- **What the task of the sender does to its queue**: nothing, or it is cleared, or it is a whole sync. -/
lemma step_queue {t u : State ν π} {action : Action ν π} (haction : action.isCallback = false)
    (hu : step t action = some u) :
    (u.sender.syncId = t.sender.syncId ∧ u.sender.messages = t.sender.messages) ∨
      (u.sender.syncId = 0 ∧ u.sender.messages = []) ∨
      (u.sender.syncId ≠ 0 ∧ u.sender.Numbered ∧ WellFormed u.sender.payloads) := by
  cases action with
  | syncStart now initial => cases haction
  | processBatch loaded remaining => cases haction
  | syncDone removed manager => cases haction
  | send fails fallback =>
    rw [step] at hu
    split at hu
    · cases hu
    · obtain ⟨g, -, hu⟩ := Option.bind_eq_some_iff.mp hu
      rw [State.send] at hu
      split at hu
      · exact .inr (.inr (resetSender_wellFormed hu))
      · split at hu
        · exact .inr (.inr (resetSender_wellFormed hu))
        · obtain rfl := Option.some.inj hu
          exact .inl ⟨rfl, rfl⟩
  | proceed fallback =>
    obtain ⟨outcome, -, hu⟩ := Option.bind_eq_some_iff.mp hu
    cases outcome with
    | finalize =>
      obtain rfl := Option.some.inj hu
      exact .inr (.inl ⟨rfl, rfl⟩)
    | goTo messageId =>
      obtain rfl := Option.some.inj hu
      exact .inl ⟨rfl, rfl⟩
    | failed => exact .inr (.inr (resetSender_wellFormed hu))
  | timeout =>
    rw [step] at hu
    split at hu
    · obtain rfl := Option.some.inj hu
      exact .inl ⟨rfl, rfl⟩
    · cases hu
  | reset fallback => exact .inr (.inr (resetSender_wellFormed hu))
  | receive =>
    obtain ⟨m, -, rfl⟩ := Option.map_eq_some_iff.mp hu
    exact .inl ⟨rfl, rfl⟩
  | respond expired =>
    obtain ⟨response, -, rfl⟩ := Option.map_eq_some_iff.mp hu
    rcases setResponse_cases t.sender expired response with heq | ⟨e, -, -, heq⟩
    · refine .inl ⟨?_, ?_⟩
      · rw [heq]
      · rw [heq]
    · refine .inl ⟨?_, ?_⟩
      · rw [heq]
      · rw [heq]

variable {t u : Refresh ν π}

lemma RefreshInv.other {action : Action ν π} {base : State ν π} (h : RefreshInv t)
    (haction : action.isCallback = false) (hbase : step t.base action = some base) :
    RefreshInv ⟨base, t.phase⟩ := by
  rcases step_queue haction hbase with ⟨hsync, hmessages⟩ | ⟨hsync, hmessages⟩ | ⟨hactive, hnumbered, hwhole⟩
  · have hpayloads : base.sender.payloads = t.base.sender.payloads := by
      rw [Sender.payloads, hmessages, Sender.payloads]
    refine ⟨fun hzero => ?_, fun i g hg => ?_, fun hne => ?_⟩
    · rw [hsync] at hzero
      exact hmessages.trans (h.idle hzero)
    · rw [hmessages] at hg
      rw [hsync]
      exact h.numbered i g hg
    · rw [hsync] at hne
      rw [hpayloads]
      refine (h.queue hne).imp_right ?_
      rintro ⟨remaining, hloading, hphase⟩
      refine ⟨remaining, ?_, hphase⟩
      rw [Loading, hpayloads]
      exact hloading
  · exact ⟨fun _ => hmessages, numbered_nil hmessages, fun hne => absurd hsync hne⟩
  · exact ⟨fun hzero => absurd hzero hactive, hnumbered, fun _ => .inl hwhole⟩

omit [DecidableEq ν] in
lemma RefreshInv.aborted (h : RefreshInv t) : RefreshInv ⟨t.base, .outside⟩ where
  idle := h.idle
  numbered := h.numbered
  queue := fun hactive => (h.queue hactive).imp_right fun ⟨remaining, hloading, _⟩ =>
    ⟨remaining, hloading, .inr rfl⟩

variable {remaining : ℕ}

/-- **A cycle begins.** -/
lemma RefreshInv.started {now : ℕ} {initial : Bool} {base : State ν π} (h : RefreshInv t)
    (hbase : step t.base (.syncStart now initial) = some base) : RefreshInv ⟨base, .loading remaining⟩ := by
  obtain ⟨s', hs', rfl⟩ := Option.map_eq_some_iff.mp hbase
  rw [Sender.syncStart] at hs'
  split at hs'
  · cases hs'
  · rename_i hzero
    have hempty : t.base.sender.messages = [] := h.idle (not_not.mp hzero)
    rw [Sender.addMessage] at hs'
    split at hs'
    · cases hs'
    · rename_i hid
      obtain rfl := Option.some.inj hs'
      refine ⟨fun hfalse => absurd hfalse hid, (queue_start hid hempty).numbered, fun _ => .inr ⟨remaining,
        ⟨initial, t.base.sender.lastSyncId, [], ?_, fun p hp => (by cases hp),
          fun _ p hp => (by cases hp), fun _ => .inl rfl⟩, .inl rfl⟩⟩
      simp [State.starting, Sender.payloads, Sender.push, hempty]

omit [DecidableEq ν] in
lemma Loading.push {s : Sender ν π} {before : ℕ} (h : Loading s before) (hlt : remaining < before)
    (loaded : List (ν × π)) : Loading (s.pushAll [.loaded loaded (remaining = 0)]) remaining := by
  obtain ⟨initial, last, batches, hpayloads, htype, hmore, -⟩ := h
  have hnone := hmore (Nat.zero_lt_of_lt hlt)
  refine ⟨initial, last, batches ++ [.loaded loaded (remaining = 0)], ?_, fun p hp => ?_, fun hpos p hp => ?_,
    fun hzero => .inr ⟨batches, .loaded loaded (remaining = 0), rfl, decide_eq_true hzero, hnone⟩⟩
  · rw [Sender.payloads_pushAll, hpayloads, List.cons_append]
  · rcases List.mem_append.mp hp with hp | hp
    · exact htype p hp
    · rw [List.mem_singleton.mp hp]
      rfl
  · rcases List.mem_append.mp hp with hp | hp
    · exact hnone p hp
    · rw [List.mem_singleton.mp hp]
      exact decide_eq_false hpos.ne'

/-- **A batch of plots.** -/
lemma RefreshInv.batchProcessed {loaded : List (ν × π)} {before : ℕ} (h : RefreshInv t)
    (hphase : t.phase = .loading before) (hlt : remaining < before)
    (hafter : 0 < loaded.length ∨ remaining = 0 → ∀ p ∈ t.base.sender.payloads, p.isDone = false) :
    RefreshInv (t.afterCallback (.loading remaining) (step t.base (.processBatch loaded remaining))) := by
  rw [step, Sender.processBatch]
  by_cases hadd : 0 < loaded.length ∨ remaining = 0
  · rw [if_pos hadd, Sender.addMessage]
    by_cases hzero : t.base.sender.syncId = 0
    · rw [if_pos hzero]
      exact h.aborted
    · rw [if_neg hzero]
      rcases h.queue hzero with hwhole | ⟨r, hloading, hr⟩
      · exact absurd (hafter hadd) hwhole.exists_isDone
      · have hr : r = before := by
          rcases hr with hr | hr
          · rw [hphase] at hr
            injection hr with hr
            exact hr.symm
          · rw [hphase] at hr
            cases hr
        subst hr
        exact ⟨fun hfalse => absurd hfalse hzero, h.numbered.pushAll [.loaded loaded (remaining = 0)],
          fun _ => .inr ⟨remaining, hloading.push hlt loaded, .inl rfl⟩⟩
  · -- nothing is added, and something remains
    have hpos : 0 < remaining := Nat.pos_of_ne_zero fun hzero => hadd (.inr hzero)
    rw [if_neg hadd]
    refine ⟨h.idle, h.numbered, fun hactive => (h.queue hactive).imp_right ?_⟩
    rintro ⟨r, ⟨initial, last, batches, hpayloads, htype, hmore, -⟩, hr⟩
    have hrpos : 0 < r := by
      rcases hr with hr | hr
      · rw [hphase] at hr
        injection hr with hr
        omega
      · rw [hphase] at hr
        cases hr
    exact ⟨remaining, ⟨initial, last, batches, hpayloads, htype, fun _ => hmore hrpos,
      fun hzero => absurd hzero hpos.ne'⟩, .inl rfl⟩

/-- **The end of a cycle.** -/
lemma RefreshInv.done {removed : List ν} {manager : PlotManager ν π} (h : RefreshInv t)
    (hphase : t.phase = .loading 0) (hafter : ∀ p ∈ t.base.sender.payloads, p.isDone = false) :
    RefreshInv (t.afterCallback .outside (step t.base (.syncDone removed manager))) := by
  rw [step]
  by_cases hzero : t.base.sender.syncId = 0
  · rw [Sender.syncDone, Sender.addListBatched_none hzero _ _ manager.batchSize_pos]
    exact h.aborted
  · obtain ⟨added, hend, hdone⟩ := Sender.syncDone_isEnd hzero removed manager
    rw [hdone]
    rcases h.queue hzero with hwhole | ⟨r, hloading, hr⟩
    · exact absurd hafter hwhole.exists_isDone
    · obtain ⟨initial, last, loaded, hpayloads, htype, -, hall⟩ := hloading
      have hr : r = 0 := by
        rcases hr with hr | hr
        · rw [hphase] at hr
          injection hr with hr
          exact hr.symm
        · rw [hphase] at hr
          cases hr
      have hactive : (t.base.sender.pushAll added).syncId ≠ 0 := by
        rwa [(t.base.sender.pushAll_fields added).1]
      refine ⟨fun hfalse => absurd hfalse hactive, h.numbered.pushAll added, fun _ => .inl ?_⟩
      refine ⟨initial, last, loaded, added, ⟨htype, hall hr⟩, hend, ?_⟩
      show (t.base.sender.pushAll added).payloads = _
      rw [Sender.payloads_pushAll, hpayloads, List.cons_append]

/-- **One step keeps the invariant.** -/
theorem RefreshInv.step {e : Event ν π} (h : RefreshInv t) (hafter : NothingAfterDone t e)
    (hu : refreshStep t e = some u) : RefreshInv u := by
  cases e with
  | started now initial remaining =>
    rw [refreshStep] at hu
    split at hu
    · obtain ⟨base, hbase, rfl⟩ := Option.map_eq_some_iff.mp hu
      exact h.started hbase
    · cases hu
  | batchProcessed loaded remaining =>
    rw [refreshStep] at hu
    split at hu
    · cases hu
    · rename_i before hphase
      split at hu
      · rename_i hlt
        obtain rfl := Option.some.inj hu
        exact h.batchProcessed hphase hlt hafter
      · cases hu
  | done removed manager =>
    rw [refreshStep] at hu
    split at hu
    · rename_i hphase
      obtain rfl := Option.some.inj hu
      exact h.done hphase hafter
    · cases hu
  | aborted =>
    obtain rfl := Option.some.inj hu
    exact h.aborted
  | other action =>
    rw [refreshStep] at hu
    split at hu
    · cases hu
    · rename_i haction
      obtain ⟨base, hbase, rfl⟩ := Option.map_eq_some_iff.mp hu
      exact h.other (Bool.eq_false_iff.mpr haction) hbase

omit [DecidableEq ν] in
lemma refreshInv_initial : RefreshInv (Refresh.initial : Refresh ν π) :=
  ⟨fun _ => rfl, numbered_nil rfl, fun hactive => absurd rfl hactive⟩

end Steps

/-! ## Runs -/

section Runs

variable [DecidableEq ν]

/-- **One sync.** In every run in which no callback adds to a queue with the last message of a sync, the queue of an
active sync is the beginning of one sync. -/
theorem run_oneSync {events : List (Event ν π)}
    (hafter : Transition.Along refreshStep NothingAfterDone Refresh.initial events) {t : Refresh ν π}
    (h : Transition.run refreshStep Refresh.initial events = some t) (hactive : t.base.sender.syncId ≠ 0) :
    OneSync t.base.sender :=
  (Transition.invariant_along refreshInv_initial (fun _ _ _ hafter hinv hu => hinv.step hafter hu) hafter h).oneSync
    hactive

end Runs

/-- Two cycles; the first one is sent, the second one is in the queue. -/
def twoCycles : List (Event ℕ ℕ) :=
  [.started 1 true 2, .batchProcessed [(1, 1)] 1] ++ (exchange ⟨9, managerOf []⟩).map .other ++
    [.batchProcessed [(2, 2)] 0, .done [] (managerOf [(1, 1), (2, 2)])] ++
    ((List.replicate 7 (exchange ⟨9, managerOf []⟩)).flatten).map .other ++
    [.started 2 false 1, .batchProcessed [] 0]

theorem run_oneSync_twoCycles : ∃ t, Transition.run refreshStep Refresh.initial twoCycles = some t ∧
    t.base.sender.syncId = 2 ∧ OneSync t.base.sender := by
  refine ⟨(Transition.run refreshStep Refresh.initial twoCycles).get (by decide +kernel),
    (Option.some_get _).symm, by decide +kernel, ?_⟩
  exact run_oneSync (by decide +kernel) (Option.some_get _).symm (by decide +kernel)

/-- A cycle of two batches, and the connection fails after the first one, so that the sender is reset. -/
def resetBetween : List (Event ℕ ℕ) :=
  [.started 1 true 2, .batchProcessed [(1, 1)] 1, .other (.send true ⟨2, managerOf [(1, 1)]⟩),
    .batchProcessed [(2, 2)] 0]

lemma isSome_resetBetween : (Transition.run refreshStep Refresh.initial resetBetween).isSome = true := by
  decide +kernel

/-- The state at the end of the run. -/
def afterBetween : Refresh ℕ ℕ := (Transition.run refreshStep Refresh.initial resetBetween).get isSome_resetBetween

/-- **Not every run**: the second batch comes after the initial sync of the reset. -/
theorem not_oneSync_resetBetween :
    ¬ ∀ (events : List (Event ℕ ℕ)) (t : Refresh ℕ ℕ),
      Transition.run refreshStep Refresh.initial events = some t → t.base.sender.syncId ≠ 0 →
      OneSync t.base.sender := by
  intro h
  have hone : OneSync afterBetween.base.sender :=
    h resetBetween afterBetween (Option.some_get isSome_resetBetween).symm (by decide +kernel)
  have hlength : afterBetween.base.sender.payloads.length = 8 := by decide +kernel
  have hdone : (afterBetween.base.sender.payloads[6]?.map Payload.isDone) = some true := by decide +kernel
  obtain ⟨p, hp, hpdone⟩ := Option.map_eq_some_iff.mp hdone
  obtain ⟨hlt, hget⟩ := List.getElem?_eq_some_iff.mp hp
  have hsplit : afterBetween.base.sender.payloads =
      afterBetween.base.sender.payloads.take 6 ++ .done :: afterBetween.base.sender.payloads.drop 7 := by
    rw [← Payload.eq_done hpdone, ← hget, List.getElem_cons_drop hlt, List.take_append_drop]
  have hnil := hone.last hsplit
  have hdrop := congrArg List.length hnil
  rw [List.length_drop, hlength] at hdrop
  cases hdrop

end Chives.PlotSync
