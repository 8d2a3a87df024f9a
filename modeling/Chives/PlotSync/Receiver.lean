import Mathlib.Tactic

set_option autoImplicit false

/-!
# The receiver of plot updates

`plot_sync/receiver.py`: a farmer follows the plots of a harvester. The messages of a sync have numbers, and are
collected until the last one, which applies them all.

## Main definitions

* `PlotSync.Payload`, `PlotSync.Message`, `PlotSync.Response` — messages and answers.
* `PlotSync.Delta`, `PlotSync.Sync`, `PlotSync.Receiver` — what the receiver keeps.
* `PlotSync.Receiver.process` — one message.
* `PlotSync.deltaOf` — what the messages of a sync add up to.
* `PlotSync.Exact`, `PlotSync.Stuck`, `PlotSync.Finished` — how far a receiver is with the
  messages of a sync.

## Main results

* `PlotSync.Exact.handle`, `PlotSync.Exact.handle_done` — the next message of a sync is collected, or
  the receiver is stuck at it; the last one applies the sync.
* `PlotSync.At.handle` — no message of the sync is collected twice.
* `PlotSync.At.finished` — a receiver that is behind the last message has applied the sync.

## Design

Plots are kept under their file names, as a function; their order does not matter. The state of a sync and its
counters are only shown to users and are left out, and so are timestamps. The callback does not suspend, so that a
message is processed in one step. Errors other than an unexpected identifier are not told apart by the sender.
-/

namespace Chives.PlotSync

variable {ν π : Type}

/-- The lists of paths of a sync. -/
inductive PathKind
  | removed
  | invalid
  | keysMissing
  | duplicates
  deriving DecidableEq, Repr

/-- What a message says. -/
inductive Payload (ν π : Type)
  | start (initial : Bool) (lastSyncId : ℕ)
  | loaded (plots : List (ν × π)) (final : Bool)
  | paths (kind : PathKind) (data : List ν) (final : Bool)
  | done

/-- The types of messages. -/
inductive MessageType
  | start
  | loaded
  | paths (kind : PathKind)
  | done
  deriving DecidableEq, Repr

/-- The type of a message. -/
def Payload.messageType : Payload ν π → MessageType
  | start _ _ => .start
  | loaded _ _ => .loaded
  | paths kind _ _ => .paths kind
  | done => .done

/-- The identifier of a message. -/
structure Identifier where
  syncId : ℕ
  messageId : ℕ
  deriving DecidableEq, Repr

/-- A message. -/
structure Message (ν π : Type) where
  identifier : Identifier
  payload : Payload ν π

/-- The errors of a receiver. -/
inductive SyncError
  | invalidIdentifier (expected : Identifier)
  | other
  deriving DecidableEq, Repr

/-- The answer to a message. -/
structure Response where
  identifier : Identifier
  messageType : MessageType
  error : Option SyncError
  deriving DecidableEq, Repr

/-- What a sync changes. -/
structure Delta (ν π : Type) where
  additions : List (ν × π)
  removals : List ν
  invalid : List ν
  keysMissing : List ν
  duplicates : List ν

/-- A delta without changes. -/
def Delta.empty : Delta ν π := ⟨[], [], [], [], []⟩

/-- One of the lists of paths. -/
def Delta.get (d : Delta ν π) : PathKind → List ν
  | .removed => d.removals
  | .invalid => d.invalid
  | .keysMissing => d.keysMissing
  | .duplicates => d.duplicates

/-- Another list of paths. -/
def Delta.set (d : Delta ν π) (l : List ν) : PathKind → Delta ν π
  | .removed => { d with removals := l }
  | .invalid => { d with invalid := l }
  | .keysMissing => { d with keysMissing := l }
  | .duplicates => { d with duplicates := l }

/-- A sync, as the receiver keeps it. -/
structure Sync (ν π : Type) where
  syncId : ℕ
  nextMessageId : ℕ
  delta : Delta ν π

/-- `Sync()`. -/
def Sync.new : Sync ν π := ⟨0, 0, .empty⟩

/-- The receiver. -/
structure Receiver (ν π : Type) where
  currentSync : Sync ν π
  lastSync : Sync ν π
  plots : ν → Option π
  invalid : List ν
  keysMissing : List ν
  duplicates : List ν

namespace Receiver

/-- A new receiver, or one after `reset`. -/
def new : Receiver ν π := ⟨.new, .new, fun _ => none, [], [], []⟩

/-- `_validate_identifier`. -/
def validateIdentifier (r : Receiver ν π) (identifier : Identifier) (start : Bool) : Option SyncError :=
  let syncIdMatch := decide (identifier.syncId = r.currentSync.syncId)
  let messageIdMatch := decide (identifier.messageId = r.currentSync.nextMessageId)
  if (start && !messageIdMatch) || (!start && !(syncIdMatch && messageIdMatch)) then
    some (.invalidIdentifier ⟨r.currentSync.syncId, r.currentSync.nextMessageId⟩)
  else none

/-- `_sync_started`. -/
def syncStarted (r : Receiver ν π) (identifier : Identifier) (initial : Bool) (lastSyncId : ℕ) :
    Receiver ν π × Option SyncError :=
  let r := if initial then new else r
  match r.validateIdentifier identifier true with
  | some e => (r, some e)
  | none =>
    if lastSyncId ≠ r.lastSync.syncId then (r, some .other)
    else if lastSyncId = identifier.syncId then (r, some .other)
    else ({ r with currentSync := ⟨identifier.syncId, r.currentSync.nextMessageId + 1, .empty⟩ }, none)

end Receiver

section Process

variable [DecidableEq ν]

/-- The loop of `_process_loaded`: the plots collected, and whether all could be. -/
def addLoaded (plots : ν → Option π) : List (ν × π) → List (ν × π) → List (ν × π) × Bool
  | [], additions => (additions, true)
  | p :: data, additions =>
    if (plots p.1).isSome ∨ p.1 ∈ additions.map Prod.fst then (additions, false)
    else addLoaded plots data (additions ++ [p])

/-- The loop of `process_path_list`. -/
def addPaths (isRemoval : Bool) (plots : ν → Option π) : List ν → List ν → List ν × Bool
  | [], delta => (delta, true)
  | path :: data, delta =>
    if (isRemoval = true ∧ ((plots path).isNone ∨ path ∈ delta)) ∨ (isRemoval = false ∧ path ∈ delta) then
      (delta, false)
    else addPaths isRemoval plots data (delta ++ [path])

/-- `dict.update`. -/
def updateAll (plots : ν → Option π) (additions : List (ν × π)) : ν → Option π :=
  additions.foldl (fun f p => Function.update f p.1 (some p.2)) plots

/-- `del` for one path after the other: the plots left, and whether all could be deleted. -/
def deleteAll : (ν → Option π) → List ν → (ν → Option π) × Bool
  | plots, [] => (plots, true)
  | plots, path :: removals =>
    if (plots path).isSome then deleteAll (Function.update plots path none) removals else (plots, false)

namespace Receiver

/-- A body that begins with `_validate_identifier`. -/
def validated (r : Receiver ν π) (identifier : Identifier) (body : Receiver ν π × Option SyncError) :
    Receiver ν π × Option SyncError :=
  match r.validateIdentifier identifier false with
  | some e => (r, some e)
  | none => body

/-- `_process_loaded`, for an identifier that is expected. -/
def collectLoaded (r : Receiver ν π) (data : List (ν × π)) : Receiver ν π × Option SyncError :=
  if (addLoaded r.plots data r.currentSync.delta.additions).2 then
    ({ r with
      currentSync := ⟨r.currentSync.syncId, r.currentSync.nextMessageId + 1, { r.currentSync.delta with
        additions := (addLoaded r.plots data r.currentSync.delta.additions).1 }⟩ }, none)
  else
    ({ r with
      currentSync := { r.currentSync with
        delta := { r.currentSync.delta with
          additions := (addLoaded r.plots data r.currentSync.delta.additions).1 } } }, some .other)

/-- `_process_loaded`. -/
def processLoaded (r : Receiver ν π) (identifier : Identifier) (data : List (ν × π)) :
    Receiver ν π × Option SyncError :=
  r.validated identifier (r.collectLoaded data)

/-- The paths of a message, after the ones collected before. -/
def addKind (r : Receiver ν π) (kind : PathKind) (data : List ν) : List ν × Bool :=
  addPaths (decide (kind = .removed)) r.plots data (r.currentSync.delta.get kind)

/-- `process_path_list`, for an identifier that is expected. -/
def collectPaths (r : Receiver ν π) (kind : PathKind) (data : List ν) : Receiver ν π × Option SyncError :=
  if (r.addKind kind data).2 then
    ({ r with
      currentSync := ⟨r.currentSync.syncId, r.currentSync.nextMessageId + 1,
        r.currentSync.delta.set (r.addKind kind data).1 kind⟩ }, none)
  else
    ({ r with
      currentSync := { r.currentSync with delta := r.currentSync.delta.set (r.addKind kind data).1 kind } },
      some .other)

/-- `process_path_list`, for one of the lists. -/
def processPathList (r : Receiver ν π) (identifier : Identifier) (kind : PathKind) (data : List ν) :
    Receiver ν π × Option SyncError :=
  r.validated identifier (r.collectPaths kind data)

/-- The plots after a sync. -/
def applied (r : Receiver ν π) : (ν → Option π) × Bool :=
  deleteAll (updateAll r.plots r.currentSync.delta.additions) r.currentSync.delta.removals

/-- `_sync_done`, for an identifier that is expected. -/
def applyDelta (r : Receiver ν π) : Receiver ν π × Option SyncError :=
  if r.applied.2 then
    (⟨.new, r.currentSync, r.applied.1, r.currentSync.delta.invalid, r.currentSync.delta.keysMissing,
      r.currentSync.delta.duplicates⟩, none)
  else ({ r with plots := r.applied.1 }, some .other)

/-- `_sync_done`. -/
def syncDone (r : Receiver ν π) (identifier : Identifier) : Receiver ν π × Option SyncError :=
  r.validated identifier r.applyDelta

/-- The method for a message. -/
def handle (r : Receiver ν π) (m : Message ν π) : Receiver ν π × Option SyncError :=
  match m.payload with
  | .start initial lastSyncId => r.syncStarted m.identifier initial lastSyncId
  | .loaded data _ => r.processLoaded m.identifier data
  | .paths kind data _ => r.processPathList m.identifier kind data
  | .done => r.syncDone m.identifier

/-- `_process`: a message, and its answer. -/
def process (r : Receiver ν π) (m : Message ν π) : Receiver ν π × Response :=
  ((r.handle m).1, ⟨m.identifier, m.payload.messageType, (r.handle m).2⟩)

end Receiver

end Process

/-! ## The messages of a sync -/

/-- What one message adds to a sync. -/
def Delta.add (d : Delta ν π) : Payload ν π → Delta ν π
  | .start _ _ => d
  | .loaded data _ => { d with additions := d.additions ++ data }
  | .paths kind data _ => d.set (d.get kind ++ data) kind
  | .done => d

/-- What messages add up to. -/
def deltaOf (messages : List (Payload ν π)) : Delta ν π := messages.foldl Delta.add .empty

lemma deltaOf_concat (messages : List (Payload ν π)) (p : Payload ν π) :
    deltaOf (messages ++ [p]) = (deltaOf messages).add p := by
  simp [deltaOf]

/-- Whether a message starts a sync. -/
def Payload.isStart : Payload ν π → Bool
  | .start _ _ => true
  | _ => false

/-- Whether a message ends a sync. -/
def Payload.isDone : Payload ν π → Bool
  | .done => true
  | _ => false

/-- The plots that a sync begins with: none, if it is an initial one. -/
def basePlots (messages : List (Payload ν π)) (agreed : ν → Option π) : ν → Option π :=
  match messages with
  | .start true _ :: _ => fun _ => none
  | _ => agreed

/-- The plots after a sync: those it begins with and the loaded ones, without the removed ones. -/
def plotsAfter [DecidableEq ν] (d : Delta ν π) (base : ν → Option π) : ν → Option π := fun x =>
  if x ∈ d.removals then none else updateAll base d.additions x

section Progress

variable [DecidableEq ν] (syncId : ℕ) (messages : List (Payload ν π)) (base : ν → Option π)

/-- A receiver that has collected the first `k` messages of a sync, each once. -/
structure Exact (k : ℕ) (r : Receiver ν π) : Prop where
  pos : 0 < k
  le : k ≤ messages.length
  accepted : ∀ last rest, messages = .start true last :: rest → last = 0
  undone : ∀ p ∈ messages.take k, p.isDone = false
  sync : r.currentSync = ⟨syncId, k, deltaOf (messages.take k)⟩
  plots : r.plots = base
  removable : ∀ x ∈ (deltaOf (messages.take k)).removals, (base x).isSome = true
  nodup : (deltaOf (messages.take k)).removals.Nodup

/-- A receiver that will never take the next message of a sync. -/
structure Stuck (k : ℕ) (r : Receiver ν π) : Prop where
  pos : 0 < k
  syncId_eq : r.currentSync.syncId = syncId
  next_eq : r.currentSync.nextMessageId = k
  stays : ∃ p, messages[k]? = some p ∧ p.isStart = false ∧ r.handle ⟨⟨syncId, k⟩, p⟩ = (r, some .other)

/-- A receiver that has applied the sync. -/
structure Finished (r : Receiver ν π) : Prop where
  done : ∃ before, messages = before ++ [.done]
  current : r.currentSync = .new
  last : r.lastSync.syncId = syncId
  delta : r.lastSync.delta = deltaOf messages
  plots : r.plots = plotsAfter (deltaOf messages) base
  removable : ∀ x ∈ (deltaOf messages).removals, (base x).isSome = true
  invalid : r.invalid = (deltaOf messages).invalid
  keysMissing : r.keysMissing = (deltaOf messages).keysMissing
  duplicates : r.duplicates = (deltaOf messages).duplicates

/-- How far a receiver is with a sync. -/
def At (k : ℕ) (r : Receiver ν π) : Prop :=
  Exact syncId messages base k r ∨ Stuck syncId messages k r ∨
    (Finished syncId messages base r ∧ k = messages.length)

end Progress

section Loops

variable [DecidableEq ν] {data additions : List (ν × π)} {plots : ν → Option π}

lemma mem_addLoaded {p : ν × π} (h : p ∈ additions) : p ∈ (addLoaded plots data additions).1 := by
  induction data generalizing additions with
  | nil => exact h
  | cons q data ih =>
    rw [addLoaded]
    split
    · exact h
    · exact ih (List.mem_append_left _ h)

lemma addLoaded_eq (h : (addLoaded plots data additions).2 = true) :
    (addLoaded plots data additions).1 = additions ++ data := by
  induction data generalizing additions with
  | nil => rw [addLoaded, List.append_nil]
  | cons p data ih =>
    rw [addLoaded] at h ⊢
    split at h
    · cases h
    · rename_i hnew
      rw [if_neg hnew, ih h, List.append_assoc, List.singleton_append]

lemma addLoaded_again (h : (addLoaded plots data additions).2 = false) :
    addLoaded plots data (addLoaded plots data additions).1 = ((addLoaded plots data additions).1, false) := by
  cases data with
  | nil => cases h
  | cons p data =>
    by_cases hold : (plots p.1).isSome ∨ p.1 ∈ additions.map Prod.fst
    · have heq : addLoaded plots (p :: data) additions = (additions, false) := by rw [addLoaded, if_pos hold]
      rw [heq, heq]
    · have heq : addLoaded plots (p :: data) additions = addLoaded plots data (additions ++ [p]) := by
        rw [addLoaded, if_neg hold]
      have hmem : p ∈ (addLoaded plots data (additions ++ [p])).1 := mem_addLoaded (by simp)
      rw [heq, addLoaded, if_pos (.inr (List.mem_map_of_mem hmem))]

variable {isRemoval : Bool} {delta : List ν}

lemma mem_addPaths {data : List ν} {x : ν} (h : x ∈ delta) : x ∈ (addPaths isRemoval plots data delta).1 := by
  induction data generalizing delta with
  | nil => exact h
  | cons y data ih =>
    rw [addPaths]
    split
    · exact h
    · exact ih (List.mem_append_left _ h)

lemma addPaths_eq {data : List ν} (h : (addPaths isRemoval plots data delta).2 = true) :
    (addPaths isRemoval plots data delta).1 = delta ++ data ∧
      (isRemoval = true → ∀ x ∈ data, (plots x).isSome = true) ∧ (delta.Nodup → (delta ++ data).Nodup) := by
  induction data generalizing delta with
  | nil =>
    rw [addPaths, List.append_nil]
    exact ⟨rfl, nofun, id⟩
  | cons y data ih =>
    rw [addPaths] at h ⊢
    split at h
    · cases h
    · rename_i hnew
      obtain ⟨heq, hknown, hnodup⟩ := ih h
      rw [if_neg hnew, heq, List.append_assoc, List.singleton_append]
      have hy : y ∉ delta := by
        intro hy
        cases isRemoval with
        | true => exact hnew (.inl ⟨rfl, .inr hy⟩)
        | false => exact hnew (.inr ⟨rfl, hy⟩)
      refine ⟨rfl, fun hremoval x hx => ?_, fun hdelta => ?_⟩
      · rcases List.mem_cons.mp hx with rfl | hx
        · by_contra hnone
          exact hnew (.inl ⟨hremoval, .inl (by simpa using hnone)⟩)
        · exact hknown hremoval x hx
      · have hall := hnodup (List.nodup_append.mpr ⟨hdelta, List.nodup_singleton y, fun a ha b hb heq => by
          rw [List.mem_singleton.mp hb] at heq
          exact hy (heq ▸ ha)⟩)
        rwa [List.append_assoc, List.singleton_append] at hall

lemma addPaths_again {data : List ν} (h : (addPaths isRemoval plots data delta).2 = false) :
    addPaths isRemoval plots data (addPaths isRemoval plots data delta).1 =
      ((addPaths isRemoval plots data delta).1, false) := by
  cases data with
  | nil => cases h
  | cons y data =>
    by_cases hold : (isRemoval = true ∧ ((plots y).isNone ∨ y ∈ delta)) ∨ (isRemoval = false ∧ y ∈ delta)
    · have heq : addPaths isRemoval plots (y :: data) delta = (delta, false) := by rw [addPaths, if_pos hold]
      rw [heq, heq]
    · have heq : addPaths isRemoval plots (y :: data) delta = addPaths isRemoval plots data (delta ++ [y]) := by
        rw [addPaths, if_neg hold]
      have hmem : y ∈ (addPaths isRemoval plots data (delta ++ [y])).1 := mem_addPaths (by simp)
      rw [heq, addPaths, if_pos]
      cases isRemoval with
      | true => exact .inl ⟨rfl, .inr hmem⟩
      | false => exact .inr ⟨rfl, hmem⟩

lemma isSome_updateAll {x : ν} (h : (plots x).isSome = true) : (updateAll plots additions x).isSome = true := by
  unfold updateAll
  induction additions generalizing plots with
  | nil => exact h
  | cons p additions ih =>
    refine ih ?_
    show (Function.update plots p.1 (some p.2) x).isSome = true
    by_cases hx : x = p.1
    · rw [hx, Function.update_self]
      rfl
    · rw [Function.update_of_ne hx]
      exact h

lemma deleteAll_eq {removals : List ν} (hknown : ∀ x ∈ removals, (plots x).isSome = true) (hnodup : removals.Nodup) :
    deleteAll plots removals = (fun x => if x ∈ removals then none else plots x, true) := by
  induction removals generalizing plots with
  | nil => simp [deleteAll]
  | cons y removals ih =>
    obtain ⟨hy, hnodup⟩ := List.nodup_cons.mp hnodup
    have hne : ∀ x ∈ removals, x ≠ y := fun x hx heq => hy (heq ▸ hx)
    rw [deleteAll, if_pos (hknown y List.mem_cons_self), ih (fun x hx => ?_) hnodup]
    · refine Prod.ext (funext fun x => ?_) rfl
      by_cases hx : x ∈ removals
      · simp [hx]
      · by_cases hxy : x = y
        · simp [hxy]
        · simp [hx, hxy]
    · rw [Function.update_of_ne (hne x hx)]
      exact hknown x (List.mem_cons_of_mem _ hx)

end Loops

/-! ## One message of a sync -/

section Basic

variable {messages : List (Payload ν π)} {k : ℕ} {r : Receiver ν π} {p : Payload ν π}

lemma Delta.get_set (d : Delta ν π) (l : List ν) (kind : PathKind) : (d.set l kind).get kind = l := by
  cases kind <;> rfl

lemma Delta.set_set (d : Delta ν π) (l l' : List ν) (kind : PathKind) : (d.set l kind).set l' kind = d.set l' kind := by
  cases kind <;> rfl

lemma take_succ_eq (h : messages[k]? = some p) : messages.take (k + 1) = messages.take k ++ [p] := by
  rw [List.take_add_one, h]
  rfl

variable {identifier : Identifier}

lemma validated_self {body : Receiver ν π × Option SyncError}
    (h : identifier = ⟨r.currentSync.syncId, r.currentSync.nextMessageId⟩) : r.validated identifier body = body := by
  have hvalidate : r.validateIdentifier identifier false = none := by
    rw [h]
    simp [Receiver.validateIdentifier]
  rw [Receiver.validated, hvalidate]

lemma validated_of_ne {body : Receiver ν π × Option SyncError}
    (h : identifier ≠ ⟨r.currentSync.syncId, r.currentSync.nextMessageId⟩) :
    r.validated identifier body =
      (r, some (.invalidIdentifier ⟨r.currentSync.syncId, r.currentSync.nextMessageId⟩)) := by
  have hvalidate : r.validateIdentifier identifier false =
      some (.invalidIdentifier ⟨r.currentSync.syncId, r.currentSync.nextMessageId⟩) := by
    obtain ⟨i, m⟩ := identifier
    have hmatch : ¬(i = r.currentSync.syncId ∧ m = r.currentSync.nextMessageId) := by
      rintro ⟨rfl, rfl⟩
      exact h rfl
    simpa [Receiver.validateIdentifier] using hmatch
  rw [Receiver.validated, hvalidate]

end Basic

section Steps

variable [DecidableEq ν] {syncId : ℕ} {messages : List (Payload ν π)} {base : ν → Option π} {k j : ℕ}
  {r : Receiver ν π} {p : Payload ν π} {identifier : Identifier}

lemma handle_of_ne (hstart : p.isStart = false)
    (hne : identifier ≠ ⟨r.currentSync.syncId, r.currentSync.nextMessageId⟩) :
    r.handle ⟨identifier, p⟩ =
      (r, some (.invalidIdentifier ⟨r.currentSync.syncId, r.currentSync.nextMessageId⟩)) := by
  cases p with
  | start initial last => cases hstart
  | loaded data final => exact validated_of_ne hne
  | paths kind data final => exact validated_of_ne hne
  | done => exact validated_of_ne hne

lemma collectLoaded_of_true {data : List (ν × π)} {final : Bool}
    (hok : (addLoaded r.plots data r.currentSync.delta.additions).2 = true) :
    r.collectLoaded data = ({ r with
      currentSync := ⟨r.currentSync.syncId, r.currentSync.nextMessageId + 1,
        r.currentSync.delta.add (.loaded data final)⟩ }, none) := by
  rw [Receiver.collectLoaded, if_pos hok, addLoaded_eq hok]
  rfl

lemma collectLoaded_of_false {data : List (ν × π)}
    (hok : (addLoaded r.plots data r.currentSync.delta.additions).2 = false) :
    (r.collectLoaded data).2 = some .other ∧
      (r.collectLoaded data).1.currentSync.syncId = r.currentSync.syncId ∧
      (r.collectLoaded data).1.currentSync.nextMessageId = r.currentSync.nextMessageId ∧
      (r.collectLoaded data).1.collectLoaded data = ((r.collectLoaded data).1, some .other) := by
  have heq : r.collectLoaded data = ({ r with
      currentSync := { r.currentSync with
        delta := { r.currentSync.delta with
          additions := (addLoaded r.plots data r.currentSync.delta.additions).1 } } }, some .other) := by
    rw [Receiver.collectLoaded, if_neg (by rw [hok]; exact Bool.false_ne_true)]
  rw [heq]
  refine ⟨rfl, rfl, rfl, ?_⟩
  have hagain := addLoaded_again hok
  rw [Receiver.collectLoaded]
  simp only [hagain, Bool.false_eq_true, if_false]

lemma collectPaths_of_true {kind : PathKind} {data : List ν} {final : Bool} (hok : (r.addKind kind data).2 = true) :
    r.collectPaths kind data = ({ r with
      currentSync := ⟨r.currentSync.syncId, r.currentSync.nextMessageId + 1,
        r.currentSync.delta.add (.paths kind data final)⟩ }, none) := by
  have hadd : (r.addKind kind data).1 = r.currentSync.delta.get kind ++ data := (addPaths_eq hok).1
  rw [Receiver.collectPaths, if_pos hok, hadd]
  rfl

lemma collectPaths_of_false {kind : PathKind} {data : List ν} (hok : (r.addKind kind data).2 = false) :
    (r.collectPaths kind data).2 = some .other ∧
      (r.collectPaths kind data).1.currentSync.syncId = r.currentSync.syncId ∧
      (r.collectPaths kind data).1.currentSync.nextMessageId = r.currentSync.nextMessageId ∧
      (r.collectPaths kind data).1.collectPaths kind data = ((r.collectPaths kind data).1, some .other) := by
  have heq : r.collectPaths kind data = ({ r with
      currentSync := { r.currentSync with delta := r.currentSync.delta.set (r.addKind kind data).1 kind } },
      some .other) := by
    rw [Receiver.collectPaths, if_neg (by rw [hok]; exact Bool.false_ne_true)]
  rw [heq]
  refine ⟨rfl, rfl, rfl, ?_⟩
  have hagain : Receiver.addKind { r with
      currentSync := { r.currentSync with delta := r.currentSync.delta.set (r.addKind kind data).1 kind } } kind data =
      ((r.addKind kind data).1, false) := by
    rw [Receiver.addKind, Delta.get_set]
    exact addPaths_again hok
  rw [Receiver.collectPaths]
  simp only [hagain, Bool.false_eq_true, if_false, Delta.set_set]

/-- **The next message of a sync** is collected, or the receiver is stuck at it. -/
lemma Exact.handle (h : Exact syncId messages base k r) (hp : messages[k]? = some p) (hstart : p.isStart = false)
    (hdone : p.isDone = false) :
    ((r.handle ⟨⟨syncId, k⟩, p⟩).2 = none ∧ Exact syncId messages base (k + 1) (r.handle ⟨⟨syncId, k⟩, p⟩).1) ∨
      ((r.handle ⟨⟨syncId, k⟩, p⟩).2 = some .other ∧
        Stuck syncId messages k (r.handle ⟨⟨syncId, k⟩, p⟩).1) := by
  have hlt : k < messages.length := (List.getElem?_eq_some_iff.mp hp).1
  have hid : (⟨syncId, k⟩ : Identifier) = ⟨r.currentSync.syncId, r.currentSync.nextMessageId⟩ := by rw [h.sync]
  have hsync : r.currentSync.syncId = syncId := by rw [h.sync]
  have hnext : r.currentSync.nextMessageId = k := by rw [h.sync]
  have hdelta : deltaOf (messages.take (k + 1)) = r.currentSync.delta.add p := by
    rw [take_succ_eq hp, deltaOf_concat, h.sync]
  have hundone : ∀ q ∈ messages.take (k + 1), q.isDone = false := by
    intro q hq
    rw [take_succ_eq hp] at hq
    rcases List.mem_append.mp hq with hq | hq
    · exact h.undone q hq
    · rw [List.mem_singleton.mp hq]
      exact hdone
  have hremovals : r.currentSync.delta.removals = (deltaOf (messages.take k)).removals := by rw [h.sync]
  cases p with
  | start initial last => cases hstart
  | done => cases hdone
  | loaded data final =>
    have hhandle : r.handle ⟨⟨syncId, k⟩, .loaded data final⟩ = r.collectLoaded data := validated_self hid
    rw [hhandle]
    cases hok : (addLoaded r.plots data r.currentSync.delta.additions).2 with
    | true =>
      rw [collectLoaded_of_true hok]
      refine .inl ⟨rfl, Nat.succ_pos k, hlt, h.accepted, hundone, ?_, h.plots, ?_, ?_⟩
      · rw [hdelta, hsync, hnext]
      · rw [hdelta]
        show ∀ x ∈ r.currentSync.delta.removals, _
        rw [hremovals]
        exact h.removable
      · rw [hdelta]
        show r.currentSync.delta.removals.Nodup
        rw [hremovals]
        exact h.nodup
    | false =>
      obtain ⟨herror, hsync', hnext', hagain⟩ := collectLoaded_of_false hok
      refine .inr ⟨herror, h.pos, hsync'.trans hsync, hnext'.trans hnext, .loaded data final, hp, rfl, ?_⟩
      rw [← hagain]
      exact validated_self (by rw [hsync', hnext', hid])
  | paths kind data final =>
    have hhandle : r.handle ⟨⟨syncId, k⟩, .paths kind data final⟩ = r.collectPaths kind data := validated_self hid
    rw [hhandle]
    cases hok : (r.addKind kind data).2 with
    | true =>
      obtain ⟨-, hknown, hnodup⟩ := addPaths_eq hok
      rw [collectPaths_of_true hok]
      refine .inl ⟨rfl, Nat.succ_pos k, hlt, h.accepted, hundone, ?_, h.plots, ?_, ?_⟩
      · rw [hdelta, hsync, hnext]
      · rw [hdelta]
        cases kind with
        | removed =>
          show ∀ x ∈ r.currentSync.delta.removals ++ data, _
          intro x hx
          rcases List.mem_append.mp hx with hx | hx
          · rw [hremovals] at hx
            exact h.removable x hx
          · rw [← h.plots]
            exact hknown rfl x hx
        | invalid =>
          show ∀ x ∈ r.currentSync.delta.removals, _
          rw [hremovals]
          exact h.removable
        | keysMissing =>
          show ∀ x ∈ r.currentSync.delta.removals, _
          rw [hremovals]
          exact h.removable
        | duplicates =>
          show ∀ x ∈ r.currentSync.delta.removals, _
          rw [hremovals]
          exact h.removable
      · rw [hdelta]
        have hold : r.currentSync.delta.removals.Nodup := by
          rw [hremovals]
          exact h.nodup
        cases kind with
        | removed => exact hnodup hold
        | invalid => exact hold
        | keysMissing => exact hold
        | duplicates => exact hold
    | false =>
      obtain ⟨herror, hsync', hnext', hagain⟩ := collectPaths_of_false hok
      refine .inr ⟨herror, h.pos, hsync'.trans hsync, hnext'.trans hnext, .paths kind data final, hp, rfl, ?_⟩
      rw [← hagain]
      exact validated_self (by rw [hsync', hnext', hid])

/-- **The last message of a sync** applies it. -/
lemma Exact.handle_done (h : Exact syncId messages base k r) (hmessages : messages = messages.take k ++ [.done]) :
    (r.handle ⟨⟨syncId, k⟩, .done⟩).2 = none ∧
      Finished syncId messages base (r.handle ⟨⟨syncId, k⟩, .done⟩).1 := by
  have hid : (⟨syncId, k⟩ : Identifier) = ⟨r.currentSync.syncId, r.currentSync.nextMessageId⟩ := by rw [h.sync]
  have hdelta : deltaOf messages = r.currentSync.delta := by
    rw [hmessages, deltaOf_concat, h.sync]
    rfl
  have hdelta' : deltaOf messages = deltaOf (messages.take k) := by rw [hdelta, h.sync]
  have hremovable : ∀ x ∈ (deltaOf messages).removals, (base x).isSome = true := by
    rw [hdelta']
    exact h.removable
  have happlied : r.applied = (plotsAfter (deltaOf messages) base, true) := by
    rw [Receiver.applied, ← hdelta, h.plots, deleteAll_eq]
    · rfl
    · intro x hx
      exact isSome_updateAll (hremovable x hx)
    · rw [hdelta']
      exact h.nodup
  have hhandle : r.handle ⟨⟨syncId, k⟩, .done⟩ = (⟨.new, r.currentSync, r.applied.1, r.currentSync.delta.invalid,
      r.currentSync.delta.keysMissing, r.currentSync.delta.duplicates⟩, none) := by
    rw [Receiver.handle]
    show r.validated _ r.applyDelta = _
    rw [validated_self hid, Receiver.applyDelta, if_pos (by rw [happlied])]
  rw [hhandle]
  refine ⟨rfl, ⟨_, hmessages⟩, rfl, ?_, hdelta.symm, ?_, hremovable, ?_, ?_, ?_⟩
  · rw [h.sync]
  · show r.applied.1 = _
    rw [happlied]
  · show r.currentSync.delta.invalid = _
    rw [hdelta]
  · show r.currentSync.delta.keysMissing = _
    rw [hdelta]
  · show r.currentSync.delta.duplicates = _
    rw [hdelta]

/-- **A message of a sync** that is not ahead of the receiver: the receiver stays with the sync, a message that is
accepted is behind it, and another one is answered with a position between the message and the receiver. -/
lemma At.handle (h : At syncId messages base k r) (hzero : syncId ≠ 0) (hp : messages[j]? = some p)
    (hstart : p.isStart = false) (hjk : j ≤ k)
    (hlast : p.isDone = true → messages = messages.take j ++ [.done]) :
    ∃ k', k ≤ k' ∧ At syncId messages base k' (r.handle ⟨⟨syncId, j⟩, p⟩).1 ∧
      ((r.handle ⟨⟨syncId, j⟩, p⟩).2 = none → j + 1 ≤ k') ∧
      ∀ expected, (r.handle ⟨⟨syncId, j⟩, p⟩).2 = some (.invalidIdentifier expected) →
        (expected.syncId = syncId ∧ j ≤ expected.messageId ∧ 0 < expected.messageId ∧ expected.messageId ≤ k') ∨
          (expected = ⟨0, 0⟩ ∧ Finished syncId messages base (r.handle ⟨⟨syncId, j⟩, p⟩).1) := by
  have hlt : j < messages.length := (List.getElem?_eq_some_iff.mp hp).1
  rcases h with h | h | ⟨h, rfl⟩
  · have hsync : r.currentSync.syncId = syncId := by rw [h.sync]
    have hnext : r.currentSync.nextMessageId = k := by rw [h.sync]
    rcases hjk.eq_or_lt with rfl | hjk
    · cases hdone : p.isDone with
      | false =>
        rcases h.handle hp hstart hdone with ⟨hok, hexact⟩ | ⟨herror, hstuck⟩
        · refine ⟨j + 1, Nat.le_succ j, .inl hexact, fun _ => le_rfl, fun expected he => ?_⟩
          rw [hok] at he
          cases he
        · refine ⟨j, le_rfl, .inr (.inl hstuck), fun hok => ?_, fun expected he => ?_⟩
          · rw [herror] at hok
            cases hok
          · rw [herror] at he
            cases he
      | true =>
        have hpayload : p = .done := by
          cases p with
          | done => rfl
          | start initial last => cases hdone
          | loaded data final => cases hdone
          | paths kind data final => cases hdone
        subst hpayload
        obtain ⟨hok, hfinished⟩ := h.handle_done (hlast rfl)
        refine ⟨messages.length, hlt.le, .inr (.inr ⟨hfinished, rfl⟩), fun _ => hlt, fun expected he => ?_⟩
        rw [hok] at he
        cases he
    · have hne : (⟨syncId, j⟩ : Identifier) ≠ ⟨r.currentSync.syncId, r.currentSync.nextMessageId⟩ := by
        rw [hnext]
        intro heq
        injection heq with _ heq
        omega
      rw [handle_of_ne hstart hne, hsync, hnext]
      refine ⟨k, le_rfl, .inl h, nofun, fun expected he => .inl ?_⟩
      cases he
      exact ⟨rfl, hjk.le, h.pos, le_rfl⟩
  · rcases hjk.eq_or_lt with rfl | hjk
    · obtain ⟨q, hq, -, hstays⟩ := h.stays
      rw [hp] at hq
      cases hq
      rw [hstays]
      exact ⟨j, le_rfl, .inr (.inl h), nofun, nofun⟩
    · have hne : (⟨syncId, j⟩ : Identifier) ≠ ⟨r.currentSync.syncId, r.currentSync.nextMessageId⟩ := by
        rw [h.next_eq]
        intro heq
        injection heq with _ heq
        omega
      rw [handle_of_ne hstart hne, h.syncId_eq, h.next_eq]
      refine ⟨k, le_rfl, .inr (.inl h), nofun, fun expected he => .inl ?_⟩
      cases he
      exact ⟨rfl, hjk.le, h.pos, le_rfl⟩
  · have hne : (⟨syncId, j⟩ : Identifier) ≠ ⟨r.currentSync.syncId, r.currentSync.nextMessageId⟩ := by
      rw [h.current]
      intro heq
      injection heq with heq _
      exact hzero heq
    rw [handle_of_ne hstart hne]
    refine ⟨messages.length, le_rfl, .inr (.inr ⟨h, rfl⟩), nofun, fun expected he => .inr ?_⟩
    cases he
    refine ⟨?_, h⟩
    rw [h.current]
    rfl

/-! ## The first message -/

variable {last : ℕ}

omit [DecidableEq ν] in
lemma exact_one {agreed : ν → Option π} {initial : Bool} {rest : List (Payload ν π)}
    (haccepted : initial = true → last = 0) (hplots : r.plots = basePlots (.start initial last :: rest) agreed) :
    Exact syncId (.start initial last :: rest) (basePlots (.start initial last :: rest) agreed) 1
      { r with currentSync := ⟨syncId, 1, .empty⟩ } where
  pos := Nat.one_pos
  le := by simp
  accepted := by
    intro last' rest' heq
    injection heq with heq _
    injection heq with hinitial hlast
    rw [← hlast]
    exact haccepted hinitial
  undone := by
    intro p hp
    rw [List.mem_singleton.mp hp]
    rfl
  sync := rfl
  plots := hplots
  removable := nofun
  nodup := List.nodup_nil

/-- **An initial start** makes the receiver begin the sync, or fails. -/
lemma handle_start_initial (r : Receiver ν π) (agreed : ν → Option π) (rest : List (Payload ν π))
    (hzero : syncId ≠ 0) :
    (r.handle ⟨⟨syncId, 0⟩, .start true last⟩).2 = none ∧ last = 0 ∧
        Exact syncId (.start true last :: rest) (basePlots (.start true last :: rest) agreed) 1
          (r.handle ⟨⟨syncId, 0⟩, .start true last⟩).1 ∨
      (r.handle ⟨⟨syncId, 0⟩, .start true last⟩).2 = some .other ∧ last ≠ 0 := by
  by_cases hlast : last = 0
  · subst hlast
    have hhandle : r.handle ⟨⟨syncId, 0⟩, .start true 0⟩ =
        ({ (Receiver.new : Receiver ν π) with currentSync := ⟨syncId, 1, .empty⟩ }, none) := by
      show r.syncStarted ⟨syncId, 0⟩ true 0 = _
      simp [Receiver.syncStarted, Receiver.validateIdentifier, Receiver.new, Sync.new, Ne.symm hzero]
    rw [hhandle]
    exact .inl ⟨rfl, rfl, exact_one (fun _ => rfl) rfl⟩
  · refine .inr ⟨?_, hlast⟩
    show (r.syncStarted ⟨syncId, 0⟩ true last).2 = _
    simp [Receiver.syncStarted, Receiver.validateIdentifier, Receiver.new, Sync.new, hlast]

/-- **Another start**, at a receiver without a sync, makes it begin the sync, or changes nothing. -/
lemma handle_start {agreed : ν → Option π} (rest : List (Payload ν π)) (hcurrent : r.currentSync = .new)
    (hplots : r.plots = agreed) :
    (r.handle ⟨⟨syncId, 0⟩, .start false last⟩).2 = none ∧
        Exact syncId (.start false last :: rest) (basePlots (.start false last :: rest) agreed) 1
          (r.handle ⟨⟨syncId, 0⟩, .start false last⟩).1 ∨
      r.handle ⟨⟨syncId, 0⟩, .start false last⟩ = (r, some .other) := by
  have hvalidate : r.validateIdentifier ⟨syncId, 0⟩ true = none := by
    simp [Receiver.validateIdentifier, hcurrent, Sync.new]
  have hhandle : r.handle ⟨⟨syncId, 0⟩, .start false last⟩ =
      if last ≠ r.lastSync.syncId then (r, some .other)
      else if last = syncId then (r, some .other)
      else ({ r with currentSync := ⟨syncId, 1, .empty⟩ }, none) := by
    show r.syncStarted ⟨syncId, 0⟩ false last = _
    simp only [Receiver.syncStarted, Bool.false_eq_true, if_false, hvalidate]
    rw [hcurrent]
    rfl
  rw [hhandle]
  split
  · exact .inr rfl
  · split
    · exact .inr rfl
    · exact .inl ⟨rfl, exact_one nofun hplots⟩

lemma Exact.handle_start (h : Exact syncId messages base 1 r) :
    r.handle ⟨⟨syncId, 0⟩, .start false last⟩ = (r, some (.invalidIdentifier ⟨syncId, 1⟩)) := by
  show r.syncStarted ⟨syncId, 0⟩ false last = _
  simp [Receiver.syncStarted, Receiver.validateIdentifier, h.sync]

lemma handle_of_new (hcurrent : r.currentSync = .new) (hstart : p.isStart = false) (hzero : identifier.syncId ≠ 0) :
    r.handle ⟨identifier, p⟩ = (r, some (.invalidIdentifier ⟨0, 0⟩)) := by
  have hne : identifier ≠ ⟨r.currentSync.syncId, r.currentSync.nextMessageId⟩ := by
    rw [hcurrent]
    rintro rfl
    exact hzero rfl
  rw [handle_of_ne hstart hne, hcurrent]
  rfl

/-! ## More messages -/

omit [DecidableEq ν] in
lemma Exact.append {added : List (Payload ν π)} (h : Exact syncId messages base k r) :
    Exact syncId (messages ++ added) base k r := by
  have htake : (messages ++ added).take k = messages.take k := List.take_append_of_le_length h.le
  refine ⟨h.pos, ?_, ?_, ?_, ?_, h.plots, ?_, ?_⟩
  · rw [List.length_append]
    exact h.le.trans (Nat.le_add_right _ _)
  · intro last rest heq
    cases messages with
    | nil => exact absurd h.le (Nat.not_le.mpr h.pos)
    | cons q tail =>
      rw [List.cons_append] at heq
      injection heq with hq _
      exact h.accepted last tail (by rw [hq])
  · rw [htake]
    exact h.undone
  · rw [htake]
    exact h.sync
  · rw [htake]
    exact h.removable
  · rw [htake]
    exact h.nodup

lemma At.append {added : List (Payload ν π)} (h : At syncId messages base k r)
    (hundone : ∀ p ∈ messages, p.isDone = false) : At syncId (messages ++ added) base k r := by
  rcases h with h | h | ⟨h, -⟩
  · exact .inl h.append
  · obtain ⟨p, hp, hstart, hstays⟩ := h.stays
    refine .inr (.inl ⟨h.pos, h.syncId_eq, h.next_eq, p, ?_, hstart, hstays⟩)
    rw [List.getElem?_append_left (List.getElem?_eq_some_iff.mp hp).1]
    exact hp
  · obtain ⟨before, hbefore⟩ := h.done
    have hfalse := hundone .done (by rw [hbefore]; simp)
    cases hfalse

lemma At.finished {before : List (Payload ν π)} (h : At syncId messages base k r)
    (hmessages : messages = before ++ [.done]) (hk : messages.length ≤ k) : Finished syncId messages base r := by
  rcases h with h | h | ⟨h, -⟩
  · have hfalse := h.undone .done (by rw [List.take_of_length_le hk, hmessages]; simp)
    cases hfalse
  · obtain ⟨p, hp, -⟩ := h.stays
    have hlt := (List.getElem?_eq_some_iff.mp hp).1
    omega
  · exact h

end Steps

end Chives.PlotSync
