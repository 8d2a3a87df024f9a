import Chives.Library.Chunks
import Chives.Library.Transition
import Chives.PlotSync.Receiver

set_option autoImplicit false

/-!
# The sender of plot updates

`plot_sync/sender.py`: a harvester tells a farmer which plots it has. The plot manager adds the messages of a sync to
a queue, a task sends them one by one and waits for the answers, and answers come in at any time.

## Main definitions

* `PlotSync.Sender` — what the sender keeps, with its methods.
* `PlotSync.State`, `PlotSync.Action`, `PlotSync.step` — a sender and a receiver over a
  connection, and what may happen next.
* `PlotSync.Distinct`, `PlotSync.Unqueued` — sync ids are not used twice; nothing is added to a sync
  whose last message is in the queue.
* `PlotSync.Agrees` — the receiver has applied the sync of the sender.

## Main results

* `PlotSync.Inv.step` — one step keeps the invariant.
* `PlotSync.run_agrees` — in every run with distinct sync ids in which nothing is added after the last message
  of a sync, the receiver has applied a sync when the sender finalizes it.
* `PlotSync.not_agrees_resetInRefresh` — not so after a reset during a refresh of the plot manager.

## Design

The connection is in order. A response may be late: whether it is expired when it comes in is left open, and a
sender may stop to wait at any time. The sender task is running all the time, and may fail at any time, which resets
the sync. A failing assertion of the sender ends the call of the plot manager without a change, and is not a step.
-/

namespace Chives.PlotSync

variable {ν π : Type}

/-- `MessageGenerator`. -/
structure Generator (ν π : Type) where
  syncId : ℕ
  messageId : ℕ
  payload : Payload ν π

/-- `ExpectedResponse`. -/
structure Expected where
  messageType : MessageType
  identifier : Identifier
  message : Option Response
  deriving DecidableEq, Repr

/-- The sender; `waiting` if its task waits for a response. -/
structure Sender (ν π : Type) where
  syncId : ℕ
  nextMessageId : ℕ
  lastSyncId : ℕ
  messages : List (Generator ν π)
  response : Option Expected
  waiting : Bool

/-- What the plot manager knows. -/
structure PlotManager (ν π : Type) where
  plots : List (ν × π)
  failedToOpen : List ν
  noKey : List ν
  duplicates : List ν
  batchSize : ℕ
  batchSize_pos : 0 < batchSize

/-- `list_to_batches`: batches, and how many elements come after each. -/
def listToBatches {α : Type} (l : List α) (batchSize : ℕ) : List (ℕ × List α) :=
  (Chunks.chunksOf batchSize l).mapIdx fun i batch => (l.length - min (i * batchSize + batchSize) l.length, batch)

namespace Sender

/-- A new sender. -/
def new : Sender ν π := ⟨0, 0, 0, [], none, false⟩

/-- The messages of the sync. -/
def payloads (s : Sender ν π) : List (Payload ν π) := s.messages.map Generator.payload

/-- One more message in the queue. -/
def push (s : Sender ν π) (p : Payload ν π) : Sender ν π :=
  { s with messages := s.messages ++ [⟨s.syncId, s.messages.length, p⟩] }

/-- `_add_message`. -/
def addMessage (s : Sender ν π) (p : Payload ν π) : Option (Sender ν π) :=
  if s.syncId = 0 then none else some (s.push p)

/-- `_add_list_batched`. -/
def addListBatched (s : Sender ν π) (kind : PathKind) (data : List ν) (batchSize : ℕ) : Option (Sender ν π) :=
  if data.length = 0 then s.addMessage (.paths kind [] true)
  else (listToBatches data batchSize).foldlM (fun s batch => s.addMessage (.paths kind batch.2 (batch.1 = 0))) s

/-- The id of a new sync. -/
def nextSyncId (lastSyncId now : ℕ) : ℕ := if now = lastSyncId then now + 1 else now

/-- `sync_start`, which waits while a sync is active. -/
def syncStart (s : Sender ν π) (now : ℕ) (initial : Bool) : Option (Sender ν π) :=
  if s.syncId ≠ 0 then none
  else addMessage { s with syncId := nextSyncId s.lastSyncId now } (.start initial s.lastSyncId)

/-- `process_batch`. -/
def processBatch (s : Sender ν π) (loaded : List (ν × π)) (remaining : ℕ) : Option (Sender ν π) :=
  if 0 < loaded.length ∨ remaining = 0 then s.addMessage (.loaded loaded (remaining = 0)) else some s

/-- `sync_done`. -/
def syncDone (s : Sender ν π) (removed : List ν) (manager : PlotManager ν π) : Option (Sender ν π) := do
  let s ← s.addListBatched .removed removed manager.batchSize
  let s ← s.addListBatched .invalid manager.failedToOpen manager.batchSize
  let s ← s.addListBatched .keysMissing manager.noKey manager.batchSize
  let s ← s.addListBatched .duplicates manager.duplicates manager.batchSize
  s.addMessage .done

/-- `_reset`, which begins an initial sync. -/
def reset (s : Sender ν π) (now : ℕ) (manager : PlotManager ν π) : Option (Sender ν π) := do
  let s ← syncStart { s with lastSyncId := 0, syncId := 0, nextMessageId := 0, messages := [] } now true
  let s ← (listToBatches manager.plots manager.batchSize).foldlM
    (fun s batch => s.processBatch batch.2 batch.1) s
  s.syncDone [] manager

/-- `set_response`. -/
def setResponse (s : Sender ν π) (expired : Bool) (response : Response) : Sender ν π :=
  match s.response with
  | none => s
  | some e =>
    if e.message.isSome ∨ expired = true ∨ response.identifier.syncId ≠ e.identifier.syncId ∨
        response.identifier.messageId ≠ e.identifier.messageId ∨ response.messageType ≠ e.messageType then s
    else { s with response := some { e with message := some response } }

/-- `_finalize_sync`. -/
def finalizeSync (s : Sender ν π) : Sender ν π :=
  { s with lastSyncId := s.syncId, nextMessageId := 0, messages := [], syncId := 0 }

end Sender

/-- What `_send_next_message` does with a response. -/
inductive Outcome
  | finalize
  | goTo (messageId : ℕ)
  | failed
  deriving DecidableEq, Repr

namespace Sender

/-- `all_sent`. -/
def allSent (s : Sender ν π) : Bool :=
  decide (s.messages.getLast?.map (fun g => g.payload.messageType) = some .done) &&
    decide (s.nextMessageId + 1 = s.messages.length)

/-- The part of `_send_next_message` after the response. -/
def outcome (s : Sender ν π) (messageType : MessageType) (response : Response) : Outcome :=
  match response.error with
  | some (.invalidIdentifier expected) =>
    if expected.syncId = expected.messageId ∧ expected.messageId = 0 ∧ s.allSent = true then .finalize
    else if s.syncId = expected.syncId ∧ expected.messageId < s.messages.length then .goTo expected.messageId
    else .failed
  | some .other => .failed
  | none => if messageType = .done then .finalize else .goTo (s.nextMessageId + 1)

/-- What the sender does next, if it waits for a response and has it. -/
def pending (s : Sender ν π) : Option Outcome :=
  match s.waiting, s.response with
  | true, some ⟨messageType, _, some response⟩ => some (s.outcome messageType response)
  | _, _ => none

end Sender

/-- A sender and a receiver, the messages under way, the plots after the last sync that was finalized, and the sync
ids so far. -/
structure State (ν π : Type) where
  sender : Sender ν π
  receiver : Receiver ν π
  toReceiver : List (Message ν π)
  toSender : List Response
  agreed : ν → Option π
  used : List ℕ

/-- At the beginning. -/
def State.initial : State ν π := ⟨.new, .new, [], [], fun _ => none, []⟩

/-- The time of a reset, and what the plot manager knows then. -/
structure Fallback (ν π : Type) where
  now : ℕ
  manager : PlotManager ν π

/-- What may happen. -/
inductive Action (ν π : Type)
  | syncStart (now : ℕ) (initial : Bool)
  | processBatch (loaded : List (ν × π)) (remaining : ℕ)
  | syncDone (removed : List ν) (manager : PlotManager ν π)
  /-- A message is sent, or the connection fails. -/
  | send (fails : Bool) (fallback : Fallback ν π)
  /-- The sender goes on with a response. -/
  | proceed (fallback : Fallback ν π)
  /-- The sender does not wait longer. -/
  | timeout
  /-- The sender task fails. -/
  | reset (fallback : Fallback ν π)
  /-- A message arrives. -/
  | receive
  /-- A response arrives. -/
  | respond (expired : Bool)

namespace State

/-- Another sender. -/
def withSender (t : State ν π) (s : Sender ν π) : State ν π := { t with sender := s }

/-- The sender begins a sync. -/
def starting (t : State ν π) (s : Sender ν π) : State ν π := { t with sender := s, used := s.syncId :: t.used }

/-- The sender is reset. -/
def resetSender (t : State ν π) (fallback : Fallback ν π) : Option (State ν π) :=
  (Sender.reset { t.sender with waiting := false } fallback.now fallback.manager).map t.starting

/-- The sender sends a message of its queue. -/
def send (t : State ν π) (g : Generator ν π) (fails : Bool) (fallback : Fallback ν π) : Option (State ν π) :=
  if g.syncId ≠ t.sender.syncId ∨ g.messageId ≠ t.sender.nextMessageId then t.resetSender fallback
  else if fails then t.resetSender fallback
  else some { t with
    sender := { t.sender with
      response := some ⟨g.payload.messageType, ⟨g.syncId, g.messageId⟩, none⟩, waiting := true }
    toReceiver := t.toReceiver ++ [⟨⟨g.syncId, g.messageId⟩, g.payload⟩] }

variable [DecidableEq ν]

/-- The sender finalizes a sync. -/
def finalize (t : State ν π) : State ν π :=
  { t with
    sender := { t.sender.finalizeSync with waiting := false }
    agreed := plotsAfter (deltaOf t.sender.payloads) (basePlots t.sender.payloads t.agreed) }

/-- The sender goes on with a response. -/
def proceed (t : State ν π) (fallback : Fallback ν π) : Outcome → Option (State ν π)
  | .finalize => some t.finalize
  | .goTo messageId => some (t.withSender { t.sender with nextMessageId := messageId, waiting := false })
  | .failed => t.resetSender fallback

/-- The receiver processes a message. -/
def receive (t : State ν π) (m : Message ν π) (rest : List (Message ν π)) : State ν π :=
  { t with
    receiver := (t.receiver.process m).1
    toReceiver := rest
    toSender := t.toSender ++ [(t.receiver.process m).2] }

end State

section Step

variable [DecidableEq ν]

/-- What happens next. -/
def step (t : State ν π) : Action ν π → Option (State ν π)
  | .syncStart now initial => (t.sender.syncStart now initial).map t.starting
  | .processBatch loaded remaining => (t.sender.processBatch loaded remaining).map t.withSender
  | .syncDone removed manager => (t.sender.syncDone removed manager).map t.withSender
  | .send fails fallback =>
    if t.sender.waiting = true ∨ t.sender.syncId = 0 then none
    else (t.sender.messages[t.sender.nextMessageId]?).bind fun g => t.send g fails fallback
  | .proceed fallback => t.sender.pending.bind (t.proceed fallback)
  | .timeout => if t.sender.waiting then some (t.withSender { t.sender with waiting := false }) else none
  | .reset fallback => t.resetSender fallback
  | .receive => t.toReceiver.head?.map fun m => t.receive m t.toReceiver.tail
  | .respond expired => t.toSender.head?.map fun response =>
    { t with sender := t.sender.setResponse expired response, toSender := t.toSender.tail }

/-- Sync ids are not used twice. -/
def Distinct (t : State ν π) : Action ν π → Prop
  | .syncStart now _ => Sender.nextSyncId t.sender.lastSyncId now ∉ t.used
  | .send _ fallback => Sender.nextSyncId 0 fallback.now ∉ t.used
  | .proceed fallback => Sender.nextSyncId 0 fallback.now ∉ t.used
  | .reset fallback => Sender.nextSyncId 0 fallback.now ∉ t.used
  | _ => True

/-- Nothing is added to a sync whose last message is in the queue. -/
def Unqueued (t : State ν π) : Action ν π → Prop
  | .processBatch _ _ => ∀ p ∈ t.sender.payloads, p.isDone = false
  | .syncDone _ _ => ∀ p ∈ t.sender.payloads, p.isDone = false
  | _ => True

instance decidableDistinct (t : State ν π) : (a : Action ν π) → Decidable (Distinct t a)
  | .syncStart _ _ => inferInstanceAs (Decidable (_ ∉ _))
  | .processBatch _ _ => inferInstanceAs (Decidable True)
  | .syncDone _ _ => inferInstanceAs (Decidable True)
  | .send _ _ => inferInstanceAs (Decidable (_ ∉ _))
  | .proceed _ => inferInstanceAs (Decidable (_ ∉ _))
  | .timeout => inferInstanceAs (Decidable True)
  | .reset _ => inferInstanceAs (Decidable (_ ∉ _))
  | .receive => inferInstanceAs (Decidable True)
  | .respond _ => inferInstanceAs (Decidable True)

instance decidableUnqueued (t : State ν π) : (a : Action ν π) → Decidable (Unqueued t a)
  | .syncStart _ _ => inferInstanceAs (Decidable True)
  | .processBatch _ _ => inferInstanceAs (Decidable (∀ p ∈ t.sender.payloads, p.isDone = false))
  | .syncDone _ _ => inferInstanceAs (Decidable (∀ p ∈ t.sender.payloads, p.isDone = false))
  | .send _ _ => inferInstanceAs (Decidable True)
  | .proceed _ => inferInstanceAs (Decidable True)
  | .timeout => inferInstanceAs (Decidable True)
  | .reset _ => inferInstanceAs (Decidable True)
  | .receive => inferInstanceAs (Decidable True)
  | .respond _ => inferInstanceAs (Decidable True)

/-- Loaded plots are new, and removed ones were known. -/
def Consistent (t : State ν π) : Action ν π → Prop
  | .processBatch loaded _ => (loaded.map Prod.fst).Nodup ∧ ∀ p ∈ loaded,
    basePlots t.sender.payloads t.agreed p.1 = none ∧ p.1 ∉ (deltaOf t.sender.payloads).additions.map Prod.fst
  | .syncDone removed _ => removed.Nodup ∧ ∀ x ∈ removed, (basePlots t.sender.payloads t.agreed x).isSome = true
  | .send _ fallback => (fallback.manager.plots.map Prod.fst).Nodup
  | .proceed fallback => (fallback.manager.plots.map Prod.fst).Nodup
  | .reset fallback => (fallback.manager.plots.map Prod.fst).Nodup
  | _ => True

instance decidableConsistent [DecidableEq π] (t : State ν π) : (a : Action ν π) → Decidable (Consistent t a)
  | .syncStart _ _ => inferInstanceAs (Decidable True)
  | .processBatch loaded _ => inferInstanceAs (Decidable ((loaded.map Prod.fst).Nodup ∧ ∀ p ∈ loaded,
    basePlots t.sender.payloads t.agreed p.1 = none ∧ p.1 ∉ (deltaOf t.sender.payloads).additions.map Prod.fst))
  | .syncDone removed _ => inferInstanceAs (Decidable (removed.Nodup ∧
    ∀ x ∈ removed, (basePlots t.sender.payloads t.agreed x).isSome = true))
  | .send _ fallback => inferInstanceAs (Decidable (fallback.manager.plots.map Prod.fst).Nodup)
  | .proceed fallback => inferInstanceAs (Decidable (fallback.manager.plots.map Prod.fst).Nodup)
  | .timeout => inferInstanceAs (Decidable True)
  | .reset fallback => inferInstanceAs (Decidable (fallback.manager.plots.map Prod.fst).Nodup)
  | .receive => inferInstanceAs (Decidable True)
  | .respond _ => inferInstanceAs (Decidable True)

/-- The receiver has applied the sync of the sender, each message once: its plots are the ones agreed before and the
loaded ones, without the removed ones; after an initial sync, they are the loaded ones. -/
def Agrees (t : State ν π) : Prop :=
  Finished t.sender.syncId t.sender.payloads (basePlots t.sender.payloads t.agreed) t.receiver ∧
    ∀ last rest, t.sender.payloads = .start true last :: rest →
      t.receiver.plots = updateAll (fun _ => none) (deltaOf t.sender.payloads).additions

end Step

/-! ## The queue of messages -/

/-- Whether a message is neither the first nor the last of a sync. -/
def Payload.isData (p : Payload ν π) : Prop := p.isStart = false ∧ p.isDone = false

namespace Sender

/-- Messages, one by one. -/
def pushAll (s : Sender ν π) (added : List (Payload ν π)) : Sender ν π := added.foldl push s

lemma pushAll_append (s : Sender ν π) (xs ys : List (Payload ν π)) :
    s.pushAll (xs ++ ys) = (s.pushAll xs).pushAll ys := List.foldl_append

lemma pushAll_fields (s : Sender ν π) (added : List (Payload ν π)) :
    (s.pushAll added).syncId = s.syncId ∧ (s.pushAll added).nextMessageId = s.nextMessageId ∧
      (s.pushAll added).response = s.response ∧ (s.pushAll added).waiting = s.waiting := by
  induction added generalizing s with
  | nil => exact ⟨rfl, rfl, rfl, rfl⟩
  | cons p added ih => exact ih (s.push p)

lemma payloads_pushAll (s : Sender ν π) (added : List (Payload ν π)) :
    (s.pushAll added).payloads = s.payloads ++ added := by
  induction added generalizing s with
  | nil => simp [pushAll]
  | cons p added ih =>
    have hpush : (s.push p).payloads = s.payloads ++ [p] := by simp [payloads, push]
    show ((s.push p).pushAll added).payloads = _
    rw [ih, hpush, List.append_assoc, List.singleton_append]

/-- Each message has the id of the sync and its place as its number. -/
def Numbered (s : Sender ν π) : Prop :=
  ∀ (i : ℕ) (g : Generator ν π), s.messages[i]? = some g → g.syncId = s.syncId ∧ g.messageId = i

variable {s : Sender ν π}

lemma Numbered.pushAll (h : s.Numbered) (added : List (Payload ν π)) : (s.pushAll added).Numbered := by
  induction added generalizing s with
  | nil => exact h
  | cons p added ih =>
    refine @ih (s.push p) fun i g hg => ?_
    rcases lt_trichotomy i s.messages.length with hi | hi | hi
    · rw [push, List.getElem?_append_left hi] at hg
      exact h i g hg
    · rw [push, hi, List.getElem?_append_right le_rfl, Nat.sub_self] at hg
      cases hg
      exact ⟨rfl, hi.symm⟩
    · rw [push, List.getElem?_eq_none (by simp; omega)] at hg
      cases hg

lemma foldlM_addMessage {α : Type} (f : α → Payload ν π) (hs : s.syncId ≠ 0) (l : List α) :
    l.foldlM (fun s a => s.addMessage (f a)) s = some (s.pushAll (l.map f)) := by
  induction l generalizing s with
  | nil => rfl
  | cons a l ih =>
    rw [List.foldlM_cons, addMessage, if_neg hs]
    exact @ih (s.push (f a)) hs

lemma addListBatched_eq (hs : s.syncId ≠ 0) (kind : PathKind) (data : List ν) (batchSize : ℕ) :
    ∃ added, (∀ p ∈ added, p.isData) ∧ s.addListBatched kind data batchSize = some (s.pushAll added) := by
  rw [addListBatched]
  split
  · refine ⟨[.paths kind [] true], fun p hp => ?_, ?_⟩
    · rw [List.mem_singleton.mp hp]
      exact ⟨rfl, rfl⟩
    · rw [addMessage, if_neg hs]
      rfl
  · refine ⟨(listToBatches data batchSize).map fun batch : ℕ × List ν => .paths kind batch.2 (batch.1 = 0), fun p hp => ?_, ?_⟩
    · obtain ⟨batch, -, rfl⟩ := List.mem_map.mp hp
      exact ⟨rfl, rfl⟩
    · exact foldlM_addMessage (fun batch : ℕ × List ν => .paths kind batch.2 (batch.1 = 0)) hs _

lemma addListBatched_none (hs : s.syncId = 0) (kind : PathKind) (data : List ν) {batchSize : ℕ}
    (hsize : 0 < batchSize) : s.addListBatched kind data batchSize = none := by
  rw [addListBatched]
  split
  · rw [addMessage, if_pos hs]
  · rename_i hlength
    cases hbatches : listToBatches data batchSize with
    | nil =>
      have hchunks : Chunks.chunksOf batchSize data = [] := by
        simpa [listToBatches] using hbatches
      have hflatten := Chunks.flatten_chunksOf hsize data
      rw [hchunks] at hflatten
      rw [← hflatten] at hlength
      exact absurd rfl hlength
    | cons batch batches =>
      rw [List.foldlM_cons, addMessage, if_pos hs]
      rfl

lemma processBatch_eq (hs : s.syncId ≠ 0) (loaded : List (ν × π)) (remaining : ℕ) :
    ∃ added, (∀ p ∈ added, p.isData) ∧ s.processBatch loaded remaining = some (s.pushAll added) := by
  rw [processBatch]
  split
  · refine ⟨[.loaded loaded (remaining = 0)], fun p hp => ?_, ?_⟩
    · rw [List.mem_singleton.mp hp]
      exact ⟨rfl, rfl⟩
    · rw [addMessage, if_neg hs]
      rfl
  · exact ⟨[], nofun, rfl⟩

lemma syncDone_eq (hs : s.syncId ≠ 0) (removed : List ν) (manager : PlotManager ν π) :
    ∃ added, (∀ p ∈ added, p.isData) ∧ s.syncDone removed manager = some (s.pushAll (added ++ [.done])) := by
  obtain ⟨xs, hxs, hx⟩ := addListBatched_eq hs .removed removed manager.batchSize
  have hs₁ : (s.pushAll xs).syncId ≠ 0 := by rwa [(s.pushAll_fields xs).1]
  obtain ⟨ys, hys, hy⟩ := addListBatched_eq hs₁ .invalid manager.failedToOpen manager.batchSize
  rw [← pushAll_append] at hy
  have hs₂ : (s.pushAll (xs ++ ys)).syncId ≠ 0 := by rwa [(s.pushAll_fields _).1]
  obtain ⟨zs, hzs, hz⟩ := addListBatched_eq hs₂ .keysMissing manager.noKey manager.batchSize
  rw [← pushAll_append] at hz
  have hs₃ : (s.pushAll (xs ++ ys ++ zs)).syncId ≠ 0 := by rwa [(s.pushAll_fields _).1]
  obtain ⟨ws, hws, hw⟩ := addListBatched_eq hs₃ .duplicates manager.duplicates manager.batchSize
  rw [← pushAll_append] at hw
  have hs₄ : (s.pushAll (xs ++ ys ++ zs ++ ws)).syncId ≠ 0 := by rwa [(s.pushAll_fields _).1]
  refine ⟨xs ++ ys ++ zs ++ ws, fun p hp => ?_, ?_⟩
  · simp only [List.mem_append] at hp
    rcases hp with ((hp | hp) | hp) | hp
    · exact hxs p hp
    · exact hys p hp
    · exact hzs p hp
    · exact hws p hp
  · rw [pushAll_append]
    simp only [syncDone, hx, Option.bind_eq_bind, Option.bind_some, hy, hz, hw]
    rw [addMessage, if_neg hs₄]
    rfl

lemma foldlM_processBatch (hs : s.syncId ≠ 0) (batches : List (ℕ × List (ν × π))) :
    ∃ added, (∀ p ∈ added, p.isData) ∧
      batches.foldlM (fun s batch => s.processBatch batch.2 batch.1) s = some (s.pushAll added) := by
  induction batches generalizing s with
  | nil => exact ⟨[], nofun, rfl⟩
  | cons batch batches ih =>
    obtain ⟨xs, hxs, hx⟩ := processBatch_eq hs batch.2 batch.1
    have hs₁ : (s.pushAll xs).syncId ≠ 0 := by rwa [(s.pushAll_fields xs).1]
    obtain ⟨ys, hys, hy⟩ := ih hs₁
    refine ⟨xs ++ ys, fun p hp => ?_, ?_⟩
    · rcases List.mem_append.mp hp with hp | hp
      · exact hxs p hp
      · exact hys p hp
    · rw [List.foldlM_cons, hx, pushAll_append]
      exact hy

end Sender

/-! ## The invariant -/

/-- Only the last message ends the sync. -/
def DoneLast (messages : List (Payload ν π)) : Prop :=
  ∀ (i : ℕ) (p : Payload ν π), messages[i]? = some p → p.isDone = true → messages = messages.take i ++ [.done]

variable {messages : List (Payload ν π)}

lemma doneLast_of_undone (h : ∀ p ∈ messages, p.isDone = false) : DoneLast messages := by
  intro i p hp hdone
  rw [h p (List.mem_of_getElem? hp)] at hdone
  cases hdone

lemma doneLast_concat (h : ∀ p ∈ messages, p.isDone = false) : DoneLast (messages ++ [.done]) := by
  intro i p hp hdone
  have hi : i = messages.length := by
    rcases lt_trichotomy i messages.length with hi | hi | hi
    · rw [List.getElem?_append_left hi] at hp
      rw [h p (List.mem_of_getElem? hp)] at hdone
      cases hdone
    · exact hi
    · rw [List.getElem?_eq_none (by simp; omega)] at hp
      cases hp
  rw [hi, List.take_left]

/-- The queue of an active sync: the first message starts it, and only the last one may end it. -/
structure Queue (s : Sender ν π) : Prop where
  active : s.syncId ≠ 0
  numbered : s.Numbered
  first : ∃ initial last rest, s.payloads = .start initial last :: rest ∧ ∀ p ∈ rest, p.isStart = false
  last : DoneLast s.payloads

lemma Queue.pushAll {s : Sender ν π} (h : Queue s) {added : List (Payload ν π)}
    (hstart : ∀ p ∈ added, p.isStart = false) (hlast : DoneLast (s.payloads ++ added)) :
    Queue (s.pushAll added) where
  active := by
    rw [(s.pushAll_fields added).1]
    exact h.active
  numbered := h.numbered.pushAll added
  first := by
    obtain ⟨initial, last, rest, hrest, hnone⟩ := h.first
    refine ⟨initial, last, rest ++ added, ?_, fun p hp => ?_⟩
    · rw [Sender.payloads_pushAll, hrest, List.cons_append]
    · rcases List.mem_append.mp hp with hp | hp
      · exact hnone p hp
      · exact hstart p hp
  last := by
    rw [Sender.payloads_pushAll]
    exact hlast

variable {initial : Bool}

lemma queue_start {s : Sender ν π} (hs : s.syncId ≠ 0) (hempty : s.messages = []) {last : ℕ} :
    Queue (s.push (.start initial last)) where
  active := hs
  numbered := by
    have hnumbered : s.Numbered := by
      intro i g hg
      rw [hempty] at hg
      cases hg
    exact hnumbered.pushAll [.start initial last]
  first := ⟨initial, last, [], by simp [Sender.payloads, Sender.push, hempty], nofun⟩
  last := by
    refine doneLast_of_undone fun p hp => ?_
    have hpayloads : (s.push (.start initial last)).payloads = [.start initial last] := by
      simp [Sender.payloads, Sender.push, hempty]
    rw [hpayloads] at hp
    rw [List.mem_singleton.mp hp]
    rfl

/-- **A reset** begins an initial sync. -/
lemma Sender.reset_eq (s : Sender ν π) (now : ℕ) (manager : PlotManager ν π) :
    ∃ s', s.reset now manager = some s' ∧ Queue s' ∧ s'.nextMessageId = 0 ∧ s'.waiting = s.waiting ∧
      s'.syncId = nextSyncId 0 now ∧ ∃ rest, s'.payloads = .start true 0 :: rest := by
  have hid : nextSyncId 0 now ≠ 0 := by
    rw [nextSyncId]
    split <;> omega
  obtain ⟨s₀, hs₀⟩ : ∃ s₀ : Sender ν π, s₀ =
    { s with lastSyncId := 0, syncId := nextSyncId 0 now, nextMessageId := 0, messages := [] } := ⟨_, rfl⟩
  have hsync : s₀.syncId = nextSyncId 0 now := by rw [hs₀]
  have hempty : s₀.messages = [] := by rw [hs₀]
  have hstart : syncStart { s with lastSyncId := 0, syncId := 0, nextMessageId := 0, messages := [] } now true =
      some (s₀.push (.start true 0)) := by
    rw [syncStart, if_neg (by simp), addMessage, if_neg hid, hs₀]
  have hs₁ : (s₀.push (.start true 0)).syncId ≠ 0 := by
    show s₀.syncId ≠ 0
    rwa [hsync]
  have hpayloads : (s₀.push (.start true 0)).payloads = [.start true 0] := by
    simp [payloads, push, hempty]
  obtain ⟨xs, hxs, hx⟩ := foldlM_processBatch hs₁ (listToBatches manager.plots manager.batchSize)
  have hs₂ : ((s₀.push (.start true 0)).pushAll xs).syncId ≠ 0 := by
    rwa [(pushAll_fields _ xs).1]
  obtain ⟨ys, hys, hy⟩ := syncDone_eq hs₂ [] manager
  rw [← pushAll_append] at hy
  obtain ⟨hsync', hnext', -, hwaiting'⟩ := pushAll_fields (s₀.push (.start true 0)) (xs ++ (ys ++ [.done]))
  refine ⟨_, ?_, ?_, hnext'.trans (by rw [push, hs₀]), hwaiting'.trans (by rw [push, hs₀]), hsync'.trans hsync,
    xs ++ (ys ++ [.done]), ?_⟩
  · simp only [reset, hstart, Option.bind_eq_bind, Option.bind_some, hx]
    exact hy
  · refine (queue_start (by rwa [hsync]) hempty).pushAll (fun p hp => ?_) ?_
    · simp only [List.mem_append, List.mem_singleton] at hp
      rcases hp with hp | hp | rfl
      · exact (hxs p hp).1
      · exact (hys p hp).1
      · rfl
    · rw [← List.append_assoc, ← List.append_assoc]
      refine doneLast_concat fun p hp => ?_
      rw [hpayloads] at hp
      simp only [List.mem_append, List.mem_singleton] at hp
      rcases hp with (rfl | hp) | hp
      · rfl
      · exact (hxs p hp).2
      · exact (hys p hp).2
  · rw [payloads_pushAll, hpayloads]
    rfl

/-- A message of the queue that was sent. -/
def Sent (s : Sender ν π) (m : Message ν π) : Prop :=
  m.identifier.syncId = s.syncId ∧ m.identifier.messageId ≤ s.nextMessageId ∧
    s.payloads[m.identifier.messageId]? = some m.payload

/-- What a response to the sync says about a receiver at message `k`, and about whether it has applied the sync. -/
def Answered (syncId k : ℕ) (applied : Prop) (response : Response) : Prop :=
  response.identifier.syncId = syncId →
    (response.error = none → response.identifier.messageId + 1 ≤ k) ∧
      ∀ expected, response.error = some (.invalidIdentifier expected) →
        (expected.syncId = syncId ∧ response.identifier.messageId ≤ expected.messageId ∧ 0 < expected.messageId ∧
          expected.messageId ≤ k) ∨ (expected = ⟨0, 0⟩ ∧ applied)

lemma Answered.mono {syncId k k' : ℕ} {applied applied' : Prop} {response : Response}
    (h : Answered syncId k applied response) (hk : k ≤ k') (happlied : applied → applied') :
    Answered syncId k' applied' response := by
  intro hsync
  obtain ⟨hnone, hsome⟩ := h hsync
  refine ⟨fun herror => (hnone herror).trans hk, fun expected herror => ?_⟩
  rcases hsome expected herror with ⟨h₁, h₂, h₃, h₄⟩ | ⟨h₁, h₂⟩
  · exact .inl ⟨h₁, h₂, h₃, h₄.trans hk⟩
  · exact .inr ⟨h₁, happlied h₂⟩

/-- The responses under way, and the one that the sender waits for. -/
structure Heard (t : State ν π) (ok : Response → Prop) : Prop where
  flight : ∀ response ∈ t.toSender, ok response
  waiting : t.sender.waiting = true → ∃ e p, t.sender.response = some e ∧
    t.sender.payloads[t.sender.nextMessageId]? = some p ∧
    e.identifier = ⟨t.sender.syncId, t.sender.nextMessageId⟩ ∧ e.messageType = p.messageType ∧
    ∀ response, e.message = some response → response.identifier = e.identifier ∧ ok response

/-- The sync is an initial one. -/
def IsInitial (s : Sender ν π) : Prop := ∃ last rest, s.payloads = .start true last :: rest

/-- The receiver has not begun the sync: messages of other syncs may be under way. -/
structure Unstarted (t : State ν π) : Prop where
  next : t.sender.nextMessageId = 0
  flight : ∃ olds news, t.toReceiver = olds ++ news ∧ (∀ m ∈ olds, m.identifier.syncId ≠ t.sender.syncId) ∧
    (∀ m ∈ news, Sent t.sender m) ∧
    (IsInitial t.sender ∨ (t.receiver.currentSync = .new ∧ t.receiver.plots = t.agreed ∧
      ∀ m ∈ olds, m.payload.isStart = false))
  heard : Heard t (Answered t.sender.syncId 0 False)

section Phases

variable [DecidableEq ν]

/-- The receiver has begun the sync, and is at message `k`. -/
structure Started (t : State ν π) (k : ℕ) : Prop where
  flight : ∀ m ∈ t.toReceiver, Sent t.sender m
  ordered : t.toReceiver.Pairwise fun m m' => m'.payload.isStart = true → m.payload.isStart = true
  le : t.sender.nextMessageId ≤ k
  progress : At t.sender.syncId t.sender.payloads (basePlots t.sender.payloads t.agreed) k t.receiver
  first : (t.sender.nextMessageId = 0 ∨ ∃ m ∈ t.toReceiver, m.payload.isStart = true) →
    Exact t.sender.syncId t.sender.payloads (basePlots t.sender.payloads t.agreed) 1 t.receiver
  heard : Heard t (Answered t.sender.syncId k
    (Finished t.sender.syncId t.sender.payloads (basePlots t.sender.payloads t.agreed) t.receiver))

/-- There is no sync. -/
structure Idle (t : State ν π) : Prop where
  syncId_eq : t.sender.syncId = 0
  messages : t.sender.messages = []
  next : t.sender.nextMessageId = 0
  waiting : t.sender.waiting = false
  current : t.receiver.currentSync = .new
  plots : t.receiver.plots = t.agreed
  flight : ∀ m ∈ t.toReceiver, m.payload.isStart = false

/-- The sync ids. -/
structure Ids (t : State ν π) : Prop where
  active : t.sender.syncId ≠ 0 → t.sender.syncId ∈ t.used
  flight : ∀ m ∈ t.toReceiver, m.identifier.syncId ≠ 0 ∧ m.identifier.syncId ∈ t.used
  heard : ∀ response ∈ t.toSender, response.identifier.syncId ∈ t.used

/-- The invariant. -/
structure Inv (t : State ν π) : Prop where
  ids : Ids t
  phase : Idle t ∨ (Queue t.sender ∧ (Unstarted t ∨ ∃ k, Started t k))

end Phases

/-! ## Steps -/

section Steps

variable [DecidableEq ν] {t u : State ν π} {s : Sender ν π} {k : ℕ}

/-- **A sync begins.** -/
lemma Inv.starting (h : Inv t) (hqueue : Queue s) (hnext : s.nextMessageId = 0) (hwaiting : s.waiting = false)
    (hfresh : s.syncId ∉ t.used) (hbase : IsInitial s ∨ Idle t) : Inv (t.starting s) where
  ids := {
    active := fun _ => List.mem_cons_self
    flight := fun m hm => ⟨(h.ids.flight m hm).1, List.mem_cons_of_mem _ (h.ids.flight m hm).2⟩
    heard := fun response hresponse => List.mem_cons_of_mem _ (h.ids.heard response hresponse) }
  phase := by
    refine .inr ⟨hqueue, .inl ⟨hnext, ⟨t.toReceiver, [], (List.append_nil _).symm, fun m hm heq => ?_,
      nofun, ?_⟩, ⟨fun response hresponse heq => ?_, fun hw => ?_⟩⟩⟩
    · exact hfresh (heq ▸ (h.ids.flight m hm).2)
    · rcases hbase with hbase | hbase
      · exact .inl hbase
      · exact .inr ⟨hbase.current, hbase.plots, hbase.flight⟩
    · have hmem := h.ids.heard response hresponse
      rw [heq] at hmem
      exact absurd hmem hfresh
    · rw [show (t.starting s).sender.waiting = s.waiting from rfl, hwaiting] at hw
      cases hw

variable {fallback : Fallback ν π}

lemma Inv.resetSender (h : Inv t) (hfresh : Sender.nextSyncId 0 fallback.now ∉ t.used)
    (hu : t.resetSender fallback = some u) : Inv u := by
  obtain ⟨s', hs', hqueue, hnext, hwaiting, hsync, rest, hrest⟩ :=
    Sender.reset_eq { t.sender with waiting := false } fallback.now fallback.manager
  rw [State.resetSender, hs', Option.map_some] at hu
  obtain rfl := Option.some.inj hu
  exact h.starting hqueue hnext hwaiting (by rwa [hsync]) (.inl ⟨0, rest, hrest⟩)

lemma Inv.syncStart {now : ℕ} (h : Inv t) (hfresh : Sender.nextSyncId t.sender.lastSyncId now ∉ t.used)
    (hu : (t.sender.syncStart now initial).map t.starting = some u) : Inv u := by
  obtain ⟨s', hs', rfl⟩ := Option.map_eq_some_iff.mp hu
  rw [Sender.syncStart] at hs'
  split at hs'
  · cases hs'
  · rename_i hzero
    rw [Sender.addMessage] at hs'
    split at hs'
    · cases hs'
    · rename_i hid
      obtain rfl := Option.some.inj hs'
      rcases h.phase with hidle | ⟨hqueue, -⟩
      · exact h.starting (queue_start hid hidle.messages) hidle.next hidle.waiting hfresh (.inr hidle)
      · exact absurd hqueue.active hzero

omit [DecidableEq ν] in
lemma basePlots_append (hfirst : ∃ initial last rest, s.payloads = .start initial last :: rest)
    (added : List (Payload ν π)) (agreed : ν → Option π) :
    basePlots (s.payloads ++ added) agreed = basePlots s.payloads agreed := by
  obtain ⟨initial, last, rest, hrest⟩ := hfirst
  rw [hrest]
  cases initial <;> rfl

variable {ok : Response → Prop}

omit [DecidableEq ν] in
lemma Heard.pushAll {ok' : Response → Prop} {added : List (Payload ν π)} (h : Heard t ok)
    (hok : ∀ response, ok response → ok' response) : Heard (t.withSender (t.sender.pushAll added)) ok' := by
  obtain ⟨hsync, hnext, hresponse, hwaiting⟩ := t.sender.pushAll_fields added
  refine ⟨fun response hmem => hok response (h.flight response hmem), fun hw => ?_⟩
  obtain ⟨e, p, he, hp, hid, htype, hmessage⟩ := h.waiting (hwaiting.symm.trans hw)
  refine ⟨e, p, hresponse.trans he, ?_, ?_, htype, fun response hr => ?_⟩
  · show (t.sender.pushAll added).payloads[(t.sender.pushAll added).nextMessageId]? = some p
    rw [Sender.payloads_pushAll, hnext, List.getElem?_append_left (List.getElem?_eq_some_iff.mp hp).1]
    exact hp
  · show e.identifier = ⟨(t.sender.pushAll added).syncId, (t.sender.pushAll added).nextMessageId⟩
    rw [hsync, hnext]
    exact hid
  · exact ⟨(hmessage response hr).1, hok response (hmessage response hr).2⟩

variable {m : Message ν π}

omit [DecidableEq ν] in
lemma Sent.pushAll (h : Sent s m) (added : List (Payload ν π)) : Sent (s.pushAll added) m := by
  obtain ⟨hsync, hnext, -, -⟩ := s.pushAll_fields added
  obtain ⟨hid, hle, hp⟩ := h
  refine ⟨hid.trans hsync.symm, hle.trans hnext.ge, ?_⟩
  rw [Sender.payloads_pushAll, List.getElem?_append_left (List.getElem?_eq_some_iff.mp hp).1]
  exact hp

/-- **Messages are added** to a sync. -/
lemma Inv.pushAll {added : List (Payload ν π)} (h : Inv t) (hqueue : Queue t.sender)
    (hphase : Unstarted t ∨ ∃ k, Started t k) (hundone : ∀ p ∈ t.sender.payloads, p.isDone = false)
    (hstart : ∀ p ∈ added, p.isStart = false) (hlast : DoneLast (t.sender.payloads ++ added)) :
    Inv (t.withSender (t.sender.pushAll added)) := by
  obtain ⟨hsync, hnext, -, -⟩ := t.sender.pushAll_fields added
  have hpayloads := t.sender.payloads_pushAll added
  have hbase := basePlots_append (s := t.sender) (by
    obtain ⟨initial, last, rest, hrest, -⟩ := hqueue.first
    exact ⟨initial, last, rest, hrest⟩) added t.agreed
  refine ⟨⟨fun hne => ?_, h.ids.flight, h.ids.heard⟩, .inr ⟨hqueue.pushAll hstart hlast, ?_⟩⟩
  · show (t.sender.pushAll added).syncId ∈ t.used
    rw [hsync]
    exact h.ids.active hqueue.active
  · rcases hphase with hphase | ⟨k, hphase⟩
    · obtain ⟨olds, news, hflight, holds, hnews, hkind⟩ := hphase.flight
      refine .inl ⟨hnext.trans hphase.next, ⟨olds, news, hflight, fun m hm => ?_, fun m hm => ?_, ?_⟩, ?_⟩
      · show m.identifier.syncId ≠ (t.sender.pushAll added).syncId
        rw [hsync]
        exact holds m hm
      · exact (hnews m hm).pushAll added
      · refine hkind.imp (fun hinitial => ?_) id
        obtain ⟨last, rest, hrest⟩ := hinitial
        refine ⟨last, rest ++ added, ?_⟩
        show (t.sender.pushAll added).payloads = _
        rw [hpayloads, hrest, List.cons_append]
      · show Heard _ (Answered (t.sender.pushAll added).syncId 0 False)
        rw [hsync]
        exact hphase.heard.pushAll fun _ hr => hr
    · refine .inr ⟨k, fun m hm => (hphase.flight m hm).pushAll added, hphase.ordered, hnext.le.trans hphase.le, ?_, ?_, ?_⟩
      · show At (t.sender.pushAll added).syncId (t.sender.pushAll added).payloads
          (basePlots (t.sender.pushAll added).payloads t.agreed) k t.receiver
        rw [hsync, hpayloads, hbase]
        exact hphase.progress.append hundone
      · show ((t.sender.pushAll added).nextMessageId = 0 ∨ _) → Exact (t.sender.pushAll added).syncId
          (t.sender.pushAll added).payloads (basePlots (t.sender.pushAll added).payloads t.agreed) 1 t.receiver
        rw [hsync, hpayloads, hbase, hnext]
        exact fun hfirst => (hphase.first hfirst).append
      · show Heard _ (Answered (t.sender.pushAll added).syncId k _)
        rw [hsync]
        refine hphase.heard.pushAll fun _ hr => hr.mono le_rfl fun hfinished => ?_
        obtain ⟨before, hbefore⟩ := hfinished.done
        have hfalse := hundone .done (by rw [hbefore]; simp)
        cases hfalse

lemma Inv.processBatch {loaded : List (ν × π)} {remaining : ℕ} (h : Inv t)
    (hundone : ∀ p ∈ t.sender.payloads, p.isDone = false)
    (hu : (t.sender.processBatch loaded remaining).map t.withSender = some u) : Inv u := by
  obtain ⟨s', hs', rfl⟩ := Option.map_eq_some_iff.mp hu
  rcases h.phase with hidle | ⟨hqueue, hphase⟩
  · rw [Sender.processBatch, Sender.addMessage, if_pos hidle.syncId_eq] at hs'
    split at hs'
    · cases hs'
    · obtain rfl := Option.some.inj hs'
      exact h
  · obtain ⟨added, hadded, heq⟩ := Sender.processBatch_eq hqueue.active loaded remaining
    rw [heq] at hs'
    obtain rfl := Option.some.inj hs'
    refine h.pushAll hqueue hphase hundone (fun p hp => (hadded p hp).1) (doneLast_of_undone fun p hp => ?_)
    rcases List.mem_append.mp hp with hp | hp
    · exact hundone p hp
    · exact (hadded p hp).2

lemma Inv.syncDone {removed : List ν} {manager : PlotManager ν π} (h : Inv t)
    (hundone : ∀ p ∈ t.sender.payloads, p.isDone = false)
    (hu : (t.sender.syncDone removed manager).map t.withSender = some u) : Inv u := by
  obtain ⟨s', hs', rfl⟩ := Option.map_eq_some_iff.mp hu
  rcases h.phase with hidle | ⟨hqueue, hphase⟩
  · rw [Sender.syncDone, Sender.addListBatched_none hidle.syncId_eq _ _ manager.batchSize_pos] at hs'
    cases hs'
  · obtain ⟨added, hadded, heq⟩ := Sender.syncDone_eq hqueue.active removed manager
    rw [heq] at hs'
    obtain rfl := Option.some.inj hs'
    refine h.pushAll hqueue hphase hundone (fun p hp => ?_) ?_
    · rcases List.mem_append.mp hp with hp | hp
      · exact (hadded p hp).1
      · rw [List.mem_singleton.mp hp]
        rfl
    · rw [← List.append_assoc]
      refine doneLast_concat fun p hp => ?_
      rcases List.mem_append.mp hp with hp | hp
      · exact hundone p hp
      · exact (hadded p hp).2

omit [DecidableEq ν] in
lemma payloads_getElem? {g : Generator ν π} {i : ℕ} (h : s.messages[i]? = some g) : s.payloads[i]? = some g.payload := by
  rw [Sender.payloads, List.getElem?_map, h]
  rfl

omit [DecidableEq ν] in
lemma Queue.isStart_iff (h : Queue s) {i : ℕ} {p : Payload ν π} (hp : s.payloads[i]? = some p) :
    p.isStart = true ↔ i = 0 := by
  obtain ⟨initial, last, rest, hrest, hnone⟩ := h.first
  rw [hrest] at hp
  cases i with
  | zero =>
    obtain rfl := Option.some.inj hp
    exact ⟨fun _ => rfl, fun _ => rfl⟩
  | succ i =>
    rw [hnone p (List.mem_of_getElem? hp)]
    exact ⟨nofun, nofun⟩

/-- **A message is sent.** -/
lemma Inv.send {g : Generator ν π} {fails : Bool} (h : Inv t) (hfresh : Sender.nextSyncId 0 fallback.now ∉ t.used)
    (hactive : t.sender.syncId ≠ 0) (hg : t.sender.messages[t.sender.nextMessageId]? = some g)
    (hu : t.send g fails fallback = some u) : Inv u := by
  rcases h.phase with hidle | ⟨hqueue, hphase⟩
  · exact absurd hidle.syncId_eq hactive
  obtain ⟨hsync, hid⟩ := hqueue.numbered _ g hg
  rw [State.send, if_neg (by simp [hsync, hid])] at hu
  split at hu
  · exact h.resetSender hfresh hu
  obtain rfl := Option.some.inj hu
  have hp := payloads_getElem? hg
  have hsent : Sent t.sender ⟨⟨g.syncId, g.messageId⟩, g.payload⟩ := by
    refine ⟨hsync, hid.le, ?_⟩
    rw [hid]
    exact hp
  have hheard : ∀ ok, Heard t ok → Heard { t with
      sender := { t.sender with
        response := some ⟨g.payload.messageType, ⟨g.syncId, g.messageId⟩, none⟩, waiting := true }
      toReceiver := t.toReceiver ++ [⟨⟨g.syncId, g.messageId⟩, g.payload⟩] } ok := by
    refine fun ok hok => ⟨hok.flight, fun _ => ⟨_, g.payload, rfl, hp, ?_, rfl, fun response hr => ?_⟩⟩
    · rw [hsync, hid]
    · cases hr
  refine ⟨⟨h.ids.active, fun m hm => ?_, h.ids.heard⟩, .inr ⟨⟨hqueue.active, hqueue.numbered, hqueue.first,
    hqueue.last⟩, ?_⟩⟩
  · rcases List.mem_append.mp hm with hm | hm
    · exact h.ids.flight m hm
    · rw [List.mem_singleton.mp hm]
      rw [hsync]
      exact ⟨hactive, h.ids.active hactive⟩
  · rcases hphase with hphase | ⟨k, hphase⟩
    · obtain ⟨olds, news, hflight, holds, hnews, hkind⟩ := hphase.flight
      refine .inl ⟨hphase.next, ⟨olds, news ++ [⟨⟨g.syncId, g.messageId⟩, g.payload⟩], ?_, holds, fun m hm => ?_,
        hkind⟩, hheard _ hphase.heard⟩
      · rw [hflight, List.append_assoc]
      · rcases List.mem_append.mp hm with hm | hm
        · exact hnews m hm
        · rw [List.mem_singleton.mp hm]
          exact hsent
    · -- a start is sent only while the sender is at the first message, and all messages under way are starts then
      have hstarts : g.payload.isStart = true → t.sender.nextMessageId = 0 := (hqueue.isStart_iff hp).mp
      refine .inr ⟨k, fun m hm => ?_, ?_, hphase.le, hphase.progress, fun hfirst => hphase.first ?_,
        hheard _ hphase.heard⟩
      · rcases List.mem_append.mp hm with hm | hm
        · exact hphase.flight m hm
        · rw [List.mem_singleton.mp hm]
          exact hsent
      · refine List.pairwise_append.mpr ⟨hphase.ordered, List.pairwise_singleton _ _, fun m hm m' hm' hstart => ?_⟩
        rw [List.mem_singleton.mp hm'] at hstart
        obtain ⟨-, hle, hpayload⟩ := hphase.flight m hm
        refine (hqueue.isStart_iff hpayload).mpr ?_
        have hzero := hstarts hstart
        omega
      · rcases hfirst with hzero | ⟨m, hm, hstart⟩
        · exact .inl hzero
        · rcases List.mem_append.mp hm with hm | hm
          · exact .inr ⟨m, hm, hstart⟩
          · rw [List.mem_singleton.mp hm] at hstart
            exact .inl (hstarts hstart)

variable {messageId : ℕ}

omit [DecidableEq ν] in
lemma Heard.timeout (h : Heard t ok) :
    Heard (t.withSender { t.sender with nextMessageId := messageId, waiting := false }) ok :=
  ⟨h.flight, nofun⟩

/-- **The sender goes to another message**, one that the receiver has reached. -/
lemma Inv.goTo (h : Inv t) (hqueue : Queue t.sender) (hphase : Started t k) (hle : t.sender.nextMessageId ≤ messageId)
    (hk : messageId ≤ k) : Inv (t.withSender { t.sender with nextMessageId := messageId, waiting := false }) := by
  refine ⟨⟨h.ids.active, h.ids.flight, h.ids.heard⟩, .inr ⟨⟨hqueue.active, hqueue.numbered, hqueue.first, hqueue.last⟩,
    .inr ⟨k, fun m hm => ?_, hphase.ordered, hk, hphase.progress, fun hfirst => hphase.first ?_, hphase.heard.timeout⟩⟩⟩
  · obtain ⟨hid, hmle, hp⟩ := hphase.flight m hm
    exact ⟨hid, hmle.trans hle, hp⟩
  · refine hfirst.imp_left fun hzero => ?_
    have hzero : messageId = 0 := hzero
    omega

lemma Inv.timeout (h : Inv t) : Inv (t.withSender { t.sender with waiting := false }) := by
  refine ⟨⟨h.ids.active, h.ids.flight, h.ids.heard⟩, ?_⟩
  rcases h.phase with hidle | ⟨hqueue, hphase⟩
  · exact .inl ⟨hidle.syncId_eq, hidle.messages, hidle.next, rfl, hidle.current, hidle.plots, hidle.flight⟩
  · refine .inr ⟨⟨hqueue.active, hqueue.numbered, hqueue.first, hqueue.last⟩, ?_⟩
    rcases hphase with hphase | ⟨k, hphase⟩
    · exact .inl ⟨hphase.next, hphase.flight, hphase.heard.timeout⟩
    · exact .inr ⟨k, hphase.flight, hphase.ordered, hphase.le, hphase.progress, hphase.first, hphase.heard.timeout⟩

omit [DecidableEq ν] in
lemma setResponse_cases (s : Sender ν π) (expired : Bool) (response : Response) :
    s.setResponse expired response = { s with response := s.response } ∨
      ∃ e, s.response = some e ∧ response.identifier = e.identifier ∧
        s.setResponse expired response = { s with response := some { e with message := some response } } := by
  rw [Sender.setResponse]
  split
  · exact .inl rfl
  · rename_i e he
    split
    · exact .inl rfl
    · rename_i hmatch
      push Not at hmatch
      obtain ⟨-, -, hsync, hid, -⟩ := hmatch
      refine .inr ⟨e, he, ?_, rfl⟩
      cases hr : response.identifier with
      | mk i j =>
        cases he' : e.identifier with
        | mk i' j' =>
          rw [hr, he'] at hsync hid
          have hsync : i = i' := hsync
          have hid : j = j' := hid
          rw [hsync, hid]

variable {response : Response} {expired : Bool}

omit [DecidableEq ν] in
lemma Heard.respond {rest : List Response} (h : Heard t ok) (hflight : t.toSender = response :: rest) :
    Heard { t with sender := t.sender.setResponse expired response, toSender := rest } ok := by
  have hok : ok response := h.flight response (by rw [hflight]; exact List.mem_cons_self)
  have hrest : ∀ r ∈ rest, ok r := fun r hr => h.flight r (by rw [hflight]; exact List.mem_cons_of_mem _ hr)
  refine ⟨hrest, fun hw => ?_⟩
  rcases setResponse_cases t.sender expired response with heq | ⟨e, he, hid, heq⟩
  · rw [heq] at hw ⊢
    exact h.waiting hw
  · rw [heq] at hw ⊢
    obtain ⟨e', p, he', hp, hid', htype, -⟩ := h.waiting hw
    rw [he] at he'
    obtain rfl := Option.some.inj he'
    refine ⟨_, p, rfl, hp, hid', htype, fun r hr => ?_⟩
    obtain rfl := Option.some.inj hr
    exact ⟨hid, hok⟩

/-- **A response arrives.** -/
lemma Inv.respond {rest : List Response} (h : Inv t) (hflight : t.toSender = response :: rest) :
    Inv { t with sender := t.sender.setResponse expired response, toSender := rest } := by
  have hheard : ∀ ok, Heard t ok →
      Heard { t with sender := t.sender.setResponse expired response, toSender := rest } ok :=
    fun ok hok => hok.respond hflight
  obtain ⟨r, heq⟩ : ∃ r, t.sender.setResponse expired response = { t.sender with response := r } := by
    rcases setResponse_cases t.sender expired response with heq | ⟨e, -, -, heq⟩
    · exact ⟨_, heq⟩
    · exact ⟨_, heq⟩
  rw [heq] at hheard ⊢
  refine ⟨⟨h.ids.active, h.ids.flight, fun r hr => h.ids.heard r ?_⟩, ?_⟩
  · rw [hflight]
    exact List.mem_cons_of_mem _ hr
  rcases h.phase with hidle | ⟨hqueue, hphase⟩
  · exact .inl ⟨hidle.syncId_eq, hidle.messages, hidle.next, hidle.waiting, hidle.current, hidle.plots, hidle.flight⟩
  · refine .inr ⟨⟨hqueue.active, hqueue.numbered, hqueue.first, hqueue.last⟩, ?_⟩
    rcases hphase with hphase | ⟨k, hphase⟩
    · exact .inl ⟨hphase.next, hphase.flight, hheard _ hphase.heard⟩
    · exact .inr ⟨k, hphase.flight, hphase.ordered, hphase.le, hphase.progress, hphase.first, hheard _ hphase.heard⟩

variable {rest : List (Message ν π)}

lemma Heard.receive {ok' : Response → Prop} (h : Heard t ok) (hok : ∀ response, ok response → ok' response)
    (hnew : ok' (t.receiver.process m).2) : Heard (t.receive m rest) ok' := by
  refine ⟨fun response hr => ?_, fun hw => ?_⟩
  · rcases List.mem_append.mp hr with hr | hr
    · exact hok response (h.flight response hr)
    · rw [List.mem_singleton.mp hr]
      exact hnew
  · obtain ⟨e, p, he, hp, hid, htype, hmessage⟩ := h.waiting hw
    exact ⟨e, p, he, hp, hid, htype, fun response hr =>
      ⟨(hmessage response hr).1, hok response (hmessage response hr).2⟩⟩

lemma Ids.receive (h : Ids t) (hflight : t.toReceiver = m :: rest) : Ids (t.receive m rest) := by
  refine ⟨h.active, fun m' hm' => h.flight m' ?_, fun response hr => ?_⟩
  · rw [hflight]
    exact List.mem_cons_of_mem _ hm'
  · rcases List.mem_append.mp hr with hr | hr
    · exact h.heard response hr
    · rw [List.mem_singleton.mp hr]
      exact (h.flight m (by rw [hflight]; exact List.mem_cons_self)).2

lemma Idle.receive (h : Idle t) (hids : Ids t) (hflight : t.toReceiver = m :: rest) : Idle (t.receive m rest) := by
  have hmem : m ∈ t.toReceiver := by
    rw [hflight]
    exact List.mem_cons_self
  have hhandle : t.receiver.handle m = (t.receiver, _) :=
    handle_of_new h.current (h.flight m hmem) (hids.flight m hmem).1
  have hreceiver : (t.receive m rest).receiver = t.receiver := by
    show (t.receiver.handle m).1 = _
    rw [hhandle]
  refine ⟨h.syncId_eq, h.messages, h.next, h.waiting, ?_, ?_, fun m' hm' => h.flight m' ?_⟩
  · rw [hreceiver]
    exact h.current
  · rw [hreceiver]
    exact h.plots
  · rw [hflight]
    exact List.mem_cons_of_mem _ hm'

variable {syncId : ℕ} {applied : Prop}

lemma answered_other {k : ℕ} (h : response.error = some .other) : Answered syncId k applied response := by
  refine fun _ => ⟨fun herror => ?_, fun expected herror => ?_⟩
  · rw [h] at herror
    cases herror
  · rw [h] at herror
    cases herror

/-- The first message under way makes the receiver begin the sync, or it fails. -/
lemma Unstarted.receive_start (h : Unstarted t) (hqueue : Queue t.sender) (hflight : t.toReceiver = m :: rest)
    (hsent : ∀ m' ∈ m :: rest, Sent t.sender m')
    (hkind : IsInitial t.sender ∨ (t.receiver.currentSync = .new ∧ t.receiver.plots = t.agreed)) :
    Unstarted (t.receive m rest) ∨ Started (t.receive m rest) 1 := by
  obtain ⟨initial, last, tail, htail, -⟩ := hqueue.first
  have hzero : ∀ m' ∈ m :: rest, m'.identifier.messageId = 0 ∧ m'.payload.isStart = true := by
    intro m' hm'
    obtain ⟨-, hle, hp⟩ := hsent m' hm'
    have hzero : m'.identifier.messageId = 0 := by
      have hnext := h.next
      omega
    exact ⟨hzero, (hqueue.isStart_iff hp).mpr hzero⟩
  have hm : m = ⟨⟨t.sender.syncId, 0⟩, .start initial last⟩ := by
    obtain ⟨hid, -, hp⟩ := hsent m List.mem_cons_self
    have hz := (hzero m List.mem_cons_self).1
    rw [hz, htail] at hp
    obtain ⟨⟨i, j⟩, p⟩ := m
    have hid : i = t.sender.syncId := hid
    have hz : j = 0 := hz
    rw [hid, hz, Option.some.inj hp]
  have hrest : ∀ m' ∈ rest, Sent t.sender m' := fun m' hm' => hsent m' (List.mem_cons_of_mem _ hm')
  -- the receiver begins the sync
  have hstarted : (t.receiver.handle m).2 = none → Exact t.sender.syncId t.sender.payloads
      (basePlots t.sender.payloads t.agreed) 1 (t.receiver.handle m).1 → Started (t.receive m rest) 1 := by
    intro hok hexact
    refine ⟨hrest, ?_, h.next.le.trans (Nat.zero_le 1), .inl hexact, fun _ => hexact, h.heard.receive
      (fun response hr => hr.mono (Nat.zero_le 1) False.elim) fun _ => ⟨fun _ => ?_, fun expected herror => ?_⟩⟩
    · refine List.pairwise_of_forall_mem_list fun m' hm' m'' _ _ => ?_
      exact (hzero m' (List.mem_cons_of_mem _ hm')).2
    · show m.identifier.messageId + 1 ≤ 1
      rw [(hzero m List.mem_cons_self).1]
    · have herror : (t.receiver.handle m).2 = _ := herror
      rw [hok] at herror
      cases herror
  -- the receiver refuses it
  have hunstarted : (t.receiver.handle m).2 = some .other → (IsInitial t.sender ∨
      ((t.receiver.handle m).1.currentSync = .new ∧ (t.receiver.handle m).1.plots = t.agreed)) →
      Unstarted (t.receive m rest) := by
    intro herror hkind'
    refine ⟨h.next, ⟨[], rest, rfl, nofun, hrest, hkind'.imp_right fun hnew =>
      ⟨hnew.1, hnew.2, nofun⟩⟩, h.heard.receive (fun _ hr => hr) (answered_other herror)⟩
  rw [hm, htail] at hstarted
  rw [hm] at hunstarted
  rw [hm]
  cases initial with
  | true =>
    rcases handle_start_initial t.receiver t.agreed tail hqueue.active with
      ⟨hok, -, hexact⟩ | ⟨herror, -⟩
    · exact .inr (hstarted hok hexact)
    · exact .inl (hunstarted herror (.inl ⟨last, tail, htail⟩))
  | false =>
    rcases hkind with ⟨last', tail', htail'⟩ | ⟨hcurrent, hplots⟩
    · rw [htail] at htail'
      cases htail'
    · rcases handle_start tail hcurrent hplots with ⟨hok, hexact⟩ | heq
      · exact .inr (hstarted hok hexact)
      · refine .inl (hunstarted (by rw [heq]) (.inr ?_))
        rw [heq]
        exact ⟨hcurrent, hplots⟩

/-- **A message arrives** before the receiver has begun the sync. -/
lemma Unstarted.receive (h : Unstarted t) (hids : Ids t) (hqueue : Queue t.sender)
    (hflight : t.toReceiver = m :: rest) : Unstarted (t.receive m rest) ∨ ∃ k, Started (t.receive m rest) k := by
  obtain ⟨olds, news, happend, holds, hnews, hkind⟩ := h.flight
  cases olds with
  | nil =>
    rw [hflight, List.nil_append] at happend
    rw [← happend] at hnews
    refine (h.receive_start hqueue hflight hnews (hkind.imp_right fun hnew => ⟨hnew.1, hnew.2.1⟩)).imp_right ?_
    exact fun hstarted => ⟨1, hstarted⟩
  | cons old olds =>
    rw [hflight, List.cons_append] at happend
    injection happend with hold happend
    subst hold
    refine .inl ⟨h.next, ⟨olds, news, happend, fun m' hm' => holds m' (List.mem_cons_of_mem _ hm'), hnews, ?_⟩,
      h.heard.receive (fun _ hr => hr) fun heq => absurd heq (holds m List.mem_cons_self)⟩
    refine hkind.imp_right fun hnew => ?_
    obtain ⟨hcurrent, hplots, hstarts⟩ := hnew
    have hmem : m ∈ t.toReceiver := by
      rw [hflight]
      exact List.mem_cons_self
    have hhandle : t.receiver.handle m = (t.receiver, _) :=
      handle_of_new hcurrent (hstarts m List.mem_cons_self) (hids.flight m hmem).1
    have hreceiver : (t.receive m rest).receiver = t.receiver := by
      show (t.receiver.handle m).1 = _
      rw [hhandle]
    rw [hreceiver]
    exact ⟨hcurrent, hplots, fun m' hm' => hstarts m' (List.mem_cons_of_mem _ hm')⟩

lemma Finished.receive {messages : List (Payload ν π)} {base : ν → Option π} {r : Receiver ν π}
    (h : Finished syncId messages base r) (hstart : m.payload.isStart = false) (hzero : m.identifier.syncId ≠ 0) :
    Finished syncId messages base (r.handle m).1 := by
  have hhandle : r.handle m = (r, _) := handle_of_new h.current hstart hzero
  rw [hhandle]
  exact h

lemma Exact.eq_one {messages : List (Payload ν π)} {base : ν → Option π} {r : Receiver ν π}
    (h : Exact syncId messages base 1 r) (hat : At syncId messages base k r) : k = 1 := by
  have hnext : r.currentSync.nextMessageId = 1 := by rw [h.sync]
  rcases hat with hat | hat | ⟨hat, -⟩
  · rw [hat.sync] at hnext
    exact hnext
  · rw [hat.next_eq] at hnext
    exact hnext
  · rw [hat.current] at hnext
    cases hnext

/-- A start that arrives again. -/
lemma Started.receive_start (h : Started t k) (hqueue : Queue t.sender) (hflight : t.toReceiver = m :: rest)
    (hstart : m.payload.isStart = true) : Started (t.receive m rest) 1 := by
  have hmem : m ∈ t.toReceiver := by
    rw [hflight]
    exact List.mem_cons_self
  have hexact := h.first (.inr ⟨m, hmem, hstart⟩)
  obtain rfl := hexact.eq_one h.progress
  obtain ⟨hid, -, hp⟩ := h.flight m hmem
  have hzero := (hqueue.isStart_iff hp).mp hstart
  obtain ⟨initial, last, tail, htail, -⟩ := hqueue.first
  have hm : m = ⟨⟨t.sender.syncId, 0⟩, .start initial last⟩ := by
    rw [hzero, htail] at hp
    obtain ⟨⟨i, j⟩, p⟩ := m
    have hid : i = t.sender.syncId := hid
    have hzero : j = 0 := hzero
    rw [hid, hzero, Option.some.inj hp]
  obtain ⟨hordered, hordered'⟩ := List.pairwise_cons.mp (hflight ▸ h.ordered)
  have hrest : ∀ m' ∈ rest, Sent t.sender m' := fun m' hm' => h.flight m' (by
    rw [hflight]
    exact List.mem_cons_of_mem _ hm')
  have hfinished : ¬ Finished t.sender.syncId t.sender.payloads (basePlots t.sender.payloads t.agreed) t.receiver := by
    intro hfinished
    have hnext : t.receiver.currentSync.nextMessageId = 1 := by rw [hexact.sync]
    rw [hfinished.current] at hnext
    cases hnext
  -- in both cases, the receiver has collected the first message only
  have hstarted : Exact t.sender.syncId t.sender.payloads (basePlots t.sender.payloads t.agreed) 1
      (t.receiver.handle m).1 → ((t.receiver.handle m).2 = none ∨
        (t.receiver.handle m).2 = some (.invalidIdentifier ⟨t.sender.syncId, 1⟩)) →
      Started (t.receive m rest) 1 := by
    intro hexact' herror
    refine ⟨hrest, hordered', h.le, .inl hexact', fun _ => hexact', h.heard.receive
      (fun response hr => hr.mono le_rfl fun hf => absurd hf hfinished) fun _ => ⟨fun _ => ?_, fun expected he => ?_⟩⟩
    · show m.identifier.messageId + 1 ≤ 1
      rw [hzero]
    · have he : (t.receiver.handle m).2 = _ := he
      rcases herror with herror | herror
      · rw [herror] at he
        cases he
      · rw [herror] at he
        cases he
        refine .inl ⟨rfl, ?_, Nat.one_pos, le_rfl⟩
        show m.identifier.messageId ≤ 1
        rw [hzero]
        exact Nat.zero_le 1
  cases initial with
  | true =>
    obtain rfl := hexact.accepted last tail htail
    rw [hm, htail] at hstarted
    rw [hm]
    rcases handle_start_initial t.receiver t.agreed tail hqueue.active with ⟨hok, -, hexact'⟩ | ⟨-, hfalse⟩
    · exact hstarted hexact' (.inl hok)
    · exact absurd rfl hfalse
  | false =>
    have hhandle : t.receiver.handle m = (t.receiver, some (.invalidIdentifier ⟨t.sender.syncId, 1⟩)) := by
      rw [hm]
      exact hexact.handle_start
    rw [hhandle] at hstarted
    exact hstarted hexact (.inr rfl)

/-- **A message arrives** after the receiver has begun the sync. -/
lemma Started.receive (h : Started t k) (hqueue : Queue t.sender) (hflight : t.toReceiver = m :: rest) :
    ∃ k', Started (t.receive m rest) k' := by
  have hmem : m ∈ t.toReceiver := by
    rw [hflight]
    exact List.mem_cons_self
  cases hstart : m.payload.isStart with
  | true => exact ⟨1, h.receive_start hqueue hflight hstart⟩
  | false =>
    obtain ⟨hid, hle, hp⟩ := h.flight m hmem
    have hne : m.identifier.messageId ≠ 0 := by
      intro hzero
      rw [(hqueue.isStart_iff hp).mpr hzero] at hstart
      cases hstart
    have hm : m = ⟨⟨t.sender.syncId, m.identifier.messageId⟩, m.payload⟩ := by rw [← hid]
    obtain ⟨k', hk, hat, hok, herror⟩ := h.progress.handle hqueue.active hp hstart (hle.trans h.le)
      (hqueue.last _ _ hp)
    rw [← hm] at hat hok herror
    obtain ⟨hordered, hordered'⟩ := List.pairwise_cons.mp (hflight ▸ h.ordered)
    refine ⟨k', fun m' hm' => h.flight m' (by rw [hflight]; exact List.mem_cons_of_mem _ hm'), hordered',
      h.le.trans hk, hat, fun hfirst => ?_, h.heard.receive (fun response hr => hr.mono hk fun hfinished => ?_)
      fun _ => ⟨hok, herror⟩⟩
    · rcases hfirst with hzero | ⟨m', hm', hstart'⟩
      · have hzero : t.sender.nextMessageId = 0 := hzero
        omega
      · rw [hordered m' hm' hstart'] at hstart
        cases hstart
    · refine hfinished.receive hstart ?_
      rw [hid]
      exact hqueue.active

/-- **A message arrives.** -/
lemma Inv.receive (h : Inv t) (hflight : t.toReceiver = m :: rest) : Inv (t.receive m rest) := by
  refine ⟨h.ids.receive hflight, ?_⟩
  rcases h.phase with hidle | ⟨hqueue, hphase⟩
  · exact .inl (hidle.receive h.ids hflight)
  · refine .inr ⟨hqueue, ?_⟩
    rcases hphase with hphase | ⟨k, hphase⟩
    · exact hphase.receive h.ids hqueue hflight
    · exact .inr (hphase.receive hqueue hflight)

/-! ## Going on with a response -/

variable {outcome : Outcome}

omit [DecidableEq ν] in
lemma Heard.pending (h : Heard t ok) (hpending : t.sender.pending = some outcome) :
    ∃ p response, t.sender.payloads[t.sender.nextMessageId]? = some p ∧
      response.identifier = ⟨t.sender.syncId, t.sender.nextMessageId⟩ ∧ ok response ∧
      outcome = t.sender.outcome p.messageType response := by
  rw [Sender.pending] at hpending
  split at hpending
  · rename_i messageType identifier response hwaiting hresponse
    obtain ⟨e, p, he, hp, hid, htype, hmessage⟩ := h.waiting hwaiting
    rw [hresponse] at he
    obtain rfl := Option.some.inj he
    obtain ⟨hid', hok⟩ := hmessage response rfl
    refine ⟨p, response, hp, hid'.trans hid, hok, ?_⟩
    rw [← htype]
    exact (Option.some.inj hpending).symm
  · cases hpending

omit [DecidableEq ν] in
lemma Unstarted.pending (h : Unstarted t) (hpending : t.sender.pending = some outcome) : outcome = .failed := by
  obtain ⟨p, response, -, hid, hok, rfl⟩ := h.heard.pending hpending
  obtain ⟨hnone, hsome⟩ := hok (by rw [hid])
  rw [Sender.outcome]
  split
  · rename_i expected herror
    rcases hsome expected herror with ⟨-, -, hpos, hle⟩ | ⟨-, hfalse⟩
    · omega
    · exact hfalse.elim
  · rfl
  · rename_i herror
    have hle := hnone herror
    omega

/-- **When the sender finalizes a sync**, the receiver has applied it. -/
lemma Started.pending_finalize (h : Started t k) (hqueue : Queue t.sender)
    (hpending : t.sender.pending = some .finalize) :
    Finished t.sender.syncId t.sender.payloads (basePlots t.sender.payloads t.agreed) t.receiver := by
  obtain ⟨p, response, hp, hid, hok, houtcome⟩ := h.heard.pending hpending
  obtain ⟨hnone, hsome⟩ := hok (by rw [hid])
  rw [Sender.outcome] at houtcome
  split at houtcome
  · rename_i expected herror
    split at houtcome
    · rename_i hzero
      rcases hsome expected herror with ⟨-, -, hpos, -⟩ | ⟨-, hfinished⟩
      · omega
      · exact hfinished
    · split at houtcome
      · cases houtcome
      · cases houtcome
  · cases houtcome
  · rename_i herror
    split at houtcome
    · rename_i hdone
      have hisDone : p.isDone = true := by
        cases p with
        | done => rfl
        | start initial last => cases hdone
        | loaded data => cases hdone
        | paths kind data => cases hdone
      have hmessages := hqueue.last _ p hp hisDone
      have hlt := (List.getElem?_eq_some_iff.mp hp).1
      have hlength : t.sender.payloads.length = t.sender.nextMessageId + 1 := by
        have hlength := congrArg List.length hmessages
        rw [List.length_append, List.length_take, Nat.min_eq_left hlt.le] at hlength
        exact hlength
      have hle := hnone herror
      rw [hid] at hle
      exact h.progress.finished hmessages (by rw [hlength]; exact hle)
    · cases houtcome

omit [DecidableEq ν] in
lemma Heard.pending_goTo (h : Heard t (Answered t.sender.syncId k applied)) (hactive : t.sender.syncId ≠ 0)
    (hpending : t.sender.pending = some (.goTo messageId)) : t.sender.nextMessageId ≤ messageId ∧ messageId ≤ k := by
  obtain ⟨p, response, -, hid, hok, houtcome⟩ := h.pending hpending
  obtain ⟨hnone, hsome⟩ := hok (by rw [hid])
  rw [hid] at hnone hsome
  rw [Sender.outcome] at houtcome
  split at houtcome
  · rename_i expected herror
    split at houtcome
    · cases houtcome
    · split at houtcome
      · rename_i hsync
        injection houtcome with houtcome
        rcases hsome expected herror with ⟨-, hle, -, hk⟩ | ⟨hzero, -⟩
        · rw [houtcome]
          exact ⟨hle, hk⟩
        · rw [hzero] at hsync
          exact absurd hsync.1 hactive
      · cases houtcome
  · cases houtcome
  · rename_i herror
    split at houtcome
    · cases houtcome
    · injection houtcome with houtcome
      have hle := hnone herror
      rw [houtcome]
      exact ⟨Nat.le_succ _, hle⟩

/-- **A sync is finalized.** -/
lemma Inv.finalize (h : Inv t) (hphase : Started t k) (hactive : t.sender.syncId ≠ 0)
    (hfinished : Finished t.sender.syncId t.sender.payloads (basePlots t.sender.payloads t.agreed) t.receiver) :
    Inv t.finalize := by
  refine ⟨⟨fun hne => absurd rfl hne, h.ids.flight, h.ids.heard⟩, .inl ⟨rfl, rfl, rfl, rfl, hfinished.current,
    hfinished.plots, fun m hm => ?_⟩⟩
  -- a start under way would mean that the receiver is at the first message
  cases hstart : m.payload.isStart with
  | false => rfl
  | true =>
    have hsync : t.receiver.currentSync.syncId = t.sender.syncId := by
      rw [(hphase.first (.inr ⟨m, hm, hstart⟩)).sync]
    rw [hfinished.current] at hsync
    exact absurd hsync.symm hactive

lemma Inv.proceed (h : Inv t) (hfresh : Sender.nextSyncId 0 fallback.now ∉ t.used)
    (hpending : t.sender.pending = some outcome) (hu : t.proceed fallback outcome = some u) : Inv u := by
  rcases h.phase with hidle | ⟨hqueue, hphase⟩
  · rw [Sender.pending, hidle.waiting] at hpending
    cases hpending
  rcases hphase with hphase | ⟨k, hphase⟩
  · obtain rfl := hphase.pending hpending
    exact h.resetSender hfresh hu
  · cases outcome with
    | finalize =>
      obtain rfl := Option.some.inj hu
      exact h.finalize hphase hqueue.active (hphase.pending_finalize hqueue hpending)
    | goTo messageId =>
      obtain rfl := Option.some.inj hu
      obtain ⟨hle, hk⟩ := hphase.heard.pending_goTo hqueue.active hpending
      exact h.goTo hqueue hphase hle hk
    | failed => exact h.resetSender hfresh hu

/-- **One step keeps the invariant.** -/
theorem Inv.step {a : Action ν π} (h : Inv t) (hdistinct : Distinct t a) (hunqueued : Unqueued t a)
    (hu : step t a = some u) : Inv u := by
  cases a with
  | syncStart now initial => exact h.syncStart hdistinct hu
  | processBatch loaded remaining => exact h.processBatch hunqueued hu
  | syncDone removed manager => exact h.syncDone hunqueued hu
  | send fails fallback =>
    rw [PlotSync.step] at hu
    split at hu
    · cases hu
    · rename_i hready
      push Not at hready
      obtain ⟨g, hg, hu⟩ := Option.bind_eq_some_iff.mp hu
      exact h.send hdistinct hready.2 hg hu
  | proceed fallback =>
    obtain ⟨outcome, hpending, hu⟩ := Option.bind_eq_some_iff.mp hu
    exact h.proceed hdistinct hpending hu
  | timeout =>
    rw [PlotSync.step] at hu
    split at hu
    · obtain rfl := Option.some.inj hu
      exact h.timeout
    · cases hu
  | reset fallback => exact h.resetSender hdistinct hu
  | receive =>
    obtain ⟨m, hm, rfl⟩ := Option.map_eq_some_iff.mp hu
    exact h.receive (List.eq_cons_of_mem_head? hm)
  | respond expired =>
    obtain ⟨response, hr, rfl⟩ := Option.map_eq_some_iff.mp hu
    exact h.respond (List.eq_cons_of_mem_head? hr)

lemma inv_initial : Inv (State.initial : State ν π) :=
  ⟨⟨fun hne => absurd rfl hne, nofun, nofun⟩,
    .inl ⟨rfl, rfl, rfl, rfl, rfl, rfl, nofun⟩⟩

lemma Finished.agrees
    (h : Finished t.sender.syncId t.sender.payloads (basePlots t.sender.payloads t.agreed) t.receiver) : Agrees t := by
  refine ⟨h, fun last rest hpayloads => ?_⟩
  have hbase : basePlots t.sender.payloads t.agreed = fun _ => none := by
    rw [hpayloads]
    rfl
  have hremovals : (deltaOf t.sender.payloads).removals = [] := by
    rw [List.eq_nil_iff_forall_not_mem]
    intro x hx
    have hsome := h.removable x hx
    rw [hbase] at hsome
    cases hsome
  rw [h.plots, hbase]
  funext x
  rw [plotsAfter, hremovals]
  simp

end Steps

/-! ## Runs -/

section Runs

variable [DecidableEq ν]

/-- **Agreement.** In every run with distinct sync ids in which nothing is added to a sync after its last message,
whenever the sender is about to finalize a sync, the receiver has applied it. -/
theorem run_agrees {actions : List (Action ν π)} (hdistinct : Transition.Along step Distinct State.initial actions)
    (hunqueued : Transition.Along step Unqueued State.initial actions) {t : State ν π}
    (h : Transition.run step State.initial actions = some t) (hpending : t.sender.pending = some .finalize) :
    Agrees t := by
  have hinv : Inv t := Transition.invariant_along inv_initial
    (fun t a u hcondition hinv hu => hinv.step hcondition.1 hcondition.2 hu) (hdistinct.and hunqueued) h
  rcases hinv.phase with hidle | ⟨hqueue, hphase⟩
  · rw [Sender.pending, hidle.waiting] at hpending
    cases hpending
  · rcases hphase with hphase | ⟨k, hphase⟩
    · have hfalse := hphase.pending hpending
      cases hfalse
    · exact (hphase.pending_finalize hqueue hpending).agrees

end Runs

/-- A plot manager with the given plots. -/
def managerOf (plots : List (ℕ × ℕ)) : PlotManager ℕ ℕ := ⟨plots, [], [], [], 10, by decide⟩

/-- A message and its response. -/
def exchange (fallback : Fallback ℕ ℕ) : List (Action ℕ ℕ) :=
  [.send false fallback, .receive, .respond false, .proceed fallback]

/-- An initial sync with one plot, and a second sync that replaces it, up to its last response. -/
def twoSyncs : List (Action ℕ ℕ) :=
  let fallback : Fallback ℕ ℕ := ⟨9, managerOf []⟩
  [.syncStart 1 true, .processBatch [(1, 1)] 0, .syncDone [] (managerOf [(1, 1)])] ++
    (List.replicate 7 (exchange fallback)).flatten ++
    [.syncStart 2 false, .processBatch [(2, 2)] 0, .syncDone [1] (managerOf [(2, 2)])] ++
    (List.replicate 6 (exchange fallback)).flatten ++ [.send false fallback, .receive, .respond false]

theorem run_agrees_twoSyncs : ∃ t, Transition.run step State.initial twoSyncs = some t ∧
    t.sender.pending = some .finalize ∧ Agrees t := by
  refine ⟨(Transition.run step State.initial twoSyncs).get (by decide +kernel), (Option.some_get _).symm,
    by decide +kernel, ?_⟩
  exact run_agrees (by decide +kernel) (by decide +kernel) (Option.some_get _).symm (by decide +kernel)

/-- A refresh of the plot manager with two batches: the response to the first one is late, so that the sender is
reset to an initial sync before the second batch. The first plot is in the initial sync, and the second one is
added after its last message. -/
def resetInRefresh : List (Action ℕ ℕ) :=
  let fallback (now : ℕ) : Fallback ℕ ℕ := ⟨now, managerOf [(1, 1)]⟩
  [.syncStart 1 true] ++ exchange (fallback 2) ++
    [.processBatch [(1, 1)] 1, .send false (fallback 2), .receive, .timeout, .respond true] ++
    exchange (fallback 2) ++ [.processBatch [(2, 2)] 0] ++ (List.replicate 6 (exchange (fallback 3))).flatten ++
    [.send false (fallback 3), .receive, .respond false]

lemma isSome_resetInRefresh : (Transition.run step State.initial resetInRefresh).isSome = true := by decide +kernel

/-- The state at the end of the run, in which the sender has the response to the last message. -/
def afterReset : State ℕ ℕ := (Transition.run step State.initial resetInRefresh).get isSome_resetInRefresh

/-- **Distinct sync ids are not enough**: the sender finalizes the initial sync of a reset although the receiver does
not have the second plot. -/
theorem not_agrees_resetInRefresh :
    ¬ ∀ (actions : List (Action ℕ ℕ)) (t : State ℕ ℕ), Transition.Along step Distinct State.initial actions →
      Transition.Along step Consistent State.initial actions →
      Transition.run step State.initial actions = some t → t.sender.pending = some .finalize → Agrees t := by
  intro h
  have hagrees : Agrees afterReset := h resetInRefresh afterReset (by decide +kernel) (by decide +kernel)
    (Option.some_get isSome_resetInRefresh).symm (by decide +kernel)
  have hplots := congrFun hagrees.1.plots 2
  have hne : afterReset.receiver.plots 2 ≠
      plotsAfter (deltaOf afterReset.sender.payloads) (basePlots afterReset.sender.payloads afterReset.agreed) 2 := by
    decide +kernel
  exact hne hplots

end Chives.PlotSync
