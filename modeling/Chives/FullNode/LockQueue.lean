import Chives.Library.Transition
import Mathlib.Tactic

set_option autoImplicit false

/-!
# A lock with priorities

`full_node/lock_queue.py`: a background task acquires a lock for one client after the other, in the order of
their priorities, and waits until the client has released it.

## Main definitions

* `LockQueue.State` — the lock, the queue, the background task and the clients.
* `LockQueue.Action`, `LockQueue.step` — what the tasks do from one suspension to the next.
* `LockQueue.Holds` — a client that was served and has not left.

## Main results

* `LockQueue.Inv.step` — one step keeps the invariant.
* `LockQueue.run_served` — in every run clients exclude each other and are served in the order of their
  priorities, and if no waiting client is cancelled, the lock is only held for a client that will release it.

## Design

`put`, and `get` and `acquire` if there is something to get and the lock is free, do not suspend a task. A task
whose event was set is resumed later, and may be cancelled before. Python's heap gives one of the entries of the
lowest priority number. Each use of a client is a client of its own.
-/

namespace Chives.LockQueue

/-- Where the task of a client is. -/
inductive ClientState
  | outside
  | waiting
  | served
  | inside
  | left
  | cancelled
  deriving DecidableEq, Repr

/-- Where `_run` is: in `get`, in `acquire`, or waiting for the release event of a client. -/
inductive RunState
  | getting
  | acquiring (client : ℕ)
  | serving (client : ℕ)
  deriving DecidableEq, Repr

/-- An entry of the priority queue. -/
structure Entry where
  priority : ℕ
  client : ℕ
  deriving DecidableEq, Repr

/-- The state of the queue and its clients. `raised` says that `release` was called on a free lock. -/
structure State where
  locked : Bool
  releaseEvent : Bool
  queue : List Entry
  runTask : RunState
  client : ℕ → ClientState
  raised : Bool

/-- A new queue, with no client. -/
def initial : State := ⟨false, false, [], .getting, fun _ => .outside, false⟩

/-- What the tasks may do. -/
inductive Action
  /-- A client calls `__aenter__`, which puts a callback into the queue and waits. -/
  | enter (client priority : ℕ)
  /-- `_run` gets the callback of a client, after it waited for one or for the release event. -/
  | get (client : ℕ)
  /-- `_run` acquires the lock it waited for. -/
  | acquire
  /-- `_run` sees the release event and waits for the next callback. -/
  | idle
  /-- A client that was served is resumed, and `__aenter__` returns. -/
  | resume (client : ℕ)
  /-- A client calls `__aexit__`. -/
  | exit (client : ℕ)
  /-- The task of a client is cancelled in `__aenter__`. -/
  | cancel (client : ℕ)
  deriving DecidableEq, Repr

namespace State

/-- A client in another state. -/
def setClient (s : State) (client : ℕ) (c : ClientState) : State :=
  { s with client := Function.update s.client client c }

/-- The lock is acquired, and the callback sets the event of the client. -/
def serve (s : State) (client : ℕ) : State :=
  { s with
    locked := true
    runTask := .serving client
    client := if s.client client = .waiting then Function.update s.client client .served else s.client }

end State

/-- The background task may call `get`. -/
def mayGet (s : State) : Bool :=
  match s.runTask with
  | .getting => true
  | .acquiring _ => false
  | .serving _ => s.releaseEvent

/-- A step of one of the tasks. -/
def step (s : State) : Action → Option State
  | .enter client priority =>
    if s.client client = .outside then
      some { s.setClient client .waiting with queue := s.queue ++ [⟨priority, client⟩] }
    else none
  | .get client =>
    match s.queue.find? fun e => decide (e.client = client) with
    | none => none
    | some e =>
      if mayGet s = true ∧ ∀ e' ∈ s.queue, e.priority ≤ e'.priority then
        let s := { s with queue := s.queue.erase e, releaseEvent := false }
        some (if s.locked then { s with runTask := .acquiring client } else s.serve client)
      else none
  | .acquire =>
    match s.runTask with
    | .acquiring client => if s.locked then none else some (s.serve client)
    | _ => none
  | .idle =>
    match s.runTask with
    | .serving _ =>
      if s.releaseEvent = true ∧ s.queue = [] then some { s with runTask := .getting } else none
    | _ => none
  | .resume client => if s.client client = .served then some (s.setClient client .inside) else none
  | .exit client =>
    if s.client client = .inside then
      if s.locked then some { s.setClient client .left with locked := false, releaseEvent := true }
      else some { s.setClient client .left with raised := true }
    else none
  | .cancel client =>
    if s.client client = .waiting ∨ s.client client = .served then some (s.setClient client .cancelled)
    else none

/-- The client was served and has not left, so it will release the lock. -/
def Holds (s : State) (client : ℕ) : Prop := s.client client = .served ∨ s.client client = .inside

/-- A run of steps from a new queue. -/
def Reaches (actions : List Action) (s : State) : Prop := Transition.run step initial actions = some s

/-! ## The invariant -/

/-- What holds in every reachable state. -/
structure Inv (s : State) : Prop where
  raised : s.raised = false
  runTask : ∀ client, s.runTask ≠ .acquiring client
  locked : s.locked = true ↔ ∃ client, s.runTask = .serving client ∧ s.releaseEvent = false
  holds : ∀ client, Holds s client → s.runTask = .serving client ∧ s.releaseEvent = false
  waiting : ∀ client, s.client client = .waiting → ∃ e ∈ s.queue, e.client = client
  queued : ∀ e ∈ s.queue, s.client e.client = .waiting ∨ s.client e.client = .cancelled
  nodup : (s.queue.map Entry.client).Nodup

/-- What holds in addition as long as no client is cancelled. -/
structure Uncancelled (s : State) : Prop where
  inv : Inv s
  cancelled : ∀ client, s.client client ≠ .cancelled
  held : ∀ client, s.runTask = .serving client → s.releaseEvent = false → Holds s client

section Steps

variable {s t : State}

lemma inv_initial : Inv initial where
  raised := rfl
  runTask client h := by cases h
  locked := by simp [initial]
  holds client h := by rcases h with h | h <;> cases h
  waiting client h := by cases h
  queued e h := by cases h
  nodup := List.nodup_nil

variable {client : ℕ} {e : Entry} {a : Action}

section

variable (h : Inv s)

include h

lemma Inv.free (hget : mayGet s = true) : s.locked = false ∧ ∀ client, ¬Holds s client := by
  have hnot : ¬∃ client, s.runTask = .serving client ∧ s.releaseEvent = false := by
    rintro ⟨client, hrun, hevent⟩
    rw [mayGet, hrun, hevent] at hget
    cases hget
  refine ⟨?_, fun client hholds => hnot ⟨client, h.holds client hholds⟩⟩
  rw [← Bool.not_eq_true, h.locked]
  exact hnot

/-- What a `get` does: the callback of a client of the lowest priority number is taken from the queue, and the
client is served at once, since the lock is free. -/
lemma Inv.get_cases (hstep : step s (.get client) = some t) :
    ∃ e ∈ s.queue, e.client = client ∧ mayGet s = true ∧ (∀ e' ∈ s.queue, e.priority ≤ e'.priority) ∧
      t = ({ s with queue := s.queue.erase e, releaseEvent := false } : State).serve client := by
  rw [step] at hstep
  split at hstep
  · cases hstep
  · rename_i e hfind
    have hclient : e.client = client := by simpa using List.find?_some hfind
    split at hstep
    · rename_i hguard
      refine ⟨e, List.mem_of_find?_eq_some hfind, hclient, hguard.1, hguard.2, ?_⟩
      have := Option.some.inj hstep
      rw [if_neg (by rw [(h.free hguard.1).1]; simp)] at this
      exact this.symm
    · cases hstep

lemma Inv.enter {priority : ℕ} (hout : s.client client = .outside) :
    Inv { s.setClient client .waiting with queue := s.queue ++ [⟨priority, client⟩] } := by
  have hqueued : ∀ e ∈ s.queue, e.client ≠ client := by
    rintro e he rfl
    rcases h.queued e he with hc | hc <;> rw [hout] at hc <;> cases hc
  refine ⟨h.raised, h.runTask, h.locked, fun x hx => ?_, fun x hx => ?_, fun e he => ?_, ?_⟩
  · by_cases hxc : x = client
    · rcases hx with hx | hx <;> simp [State.setClient, hxc] at hx
    · refine h.holds x ?_
      simpa [Holds, State.setClient, Function.update_of_ne hxc] using hx
  · by_cases hxc : x = client
    · exact ⟨⟨priority, client⟩, by simp, hxc.symm⟩
    · obtain ⟨e, he, hex⟩ := h.waiting x (by simpa [State.setClient, Function.update_of_ne hxc] using hx)
      exact ⟨e, by simp [he], hex⟩
  · rcases List.mem_append.mp he with he | he
    · simpa [State.setClient, Function.update_of_ne (hqueued e he)] using h.queued e he
    · rw [List.mem_singleton.mp he]
      simp [State.setClient]
  · show ((s.queue ++ [(⟨priority, client⟩ : Entry)]).map Entry.client).Nodup
    rw [List.map_append, List.nodup_append]
    refine ⟨h.nodup, by simp, ?_⟩
    intro a ha b hb hab
    obtain ⟨e, he, rfl⟩ := List.mem_map.mp ha
    exact hqueued e he (hab.trans (by simpa using hb))

/-- The invariant is kept when a client is served. -/
lemma Inv.serve (he : e ∈ s.queue) (hget : mayGet s = true) :
    Inv (({ s with queue := s.queue.erase e, releaseEvent := false } : State).serve e.client) := by
  obtain ⟨-, hfree⟩ := h.free hget
  have hnodup : s.queue.Nodup := h.nodup.of_map
  have hother : ∀ e' ∈ s.queue.erase e, e' ∈ s.queue ∧ e'.client ≠ e.client := by
    intro e' he'
    obtain ⟨hne, he'⟩ := hnodup.mem_erase_iff.mp he'
    exact ⟨he', fun heq => hne (List.inj_on_of_nodup_map h.nodup he' he heq)⟩
  have hclient : ∀ x, x ≠ e.client →
      (if s.client e.client = .waiting then Function.update s.client e.client .served else s.client) x =
        s.client x := by
    intro x hx
    split
    · exact Function.update_of_ne hx _ _
    · rfl
  refine ⟨h.raised, fun x hx => (by cases hx), ⟨fun _ => ⟨e.client, rfl, rfl⟩, fun _ => rfl⟩,
    fun x hx => ?_, fun x hx => ?_, fun e' he' => ?_, ?_⟩
  · by_cases hxc : x = e.client
    · rw [hxc]
      exact ⟨rfl, rfl⟩
    · refine absurd ?_ (hfree x)
      simpa [Holds, State.serve, hclient x hxc] using hx
  · have hxc : x ≠ e.client := by
      rintro rfl
      have hx : (if s.client e.client = .waiting then Function.update s.client e.client .served
        else s.client) e.client = .waiting := hx
      split at hx
      · simp at hx
      · rename_i hnot
        exact hnot hx
    obtain ⟨e', he', hex⟩ := h.waiting x (by simpa [State.serve, hclient x hxc] using hx)
    refine ⟨e', hnodup.mem_erase_iff.mpr ⟨?_, he'⟩, hex⟩
    rintro rfl
    exact hxc hex.symm
  · obtain ⟨hmem, hne⟩ := hother e' he'
    simpa [State.serve, hclient _ hne] using h.queued e' hmem
  · exact h.nodup.sublist (List.erase_sublist.map _)

lemma Inv.setClient {c : ClientState} (hwaiting : c ≠ .waiting) (hholds : c = .served ∨ c = .inside → Holds s client)
    (hqueued : c ≠ .cancelled → s.client client ≠ .waiting ∧ s.client client ≠ .cancelled) :
    Inv (s.setClient client c) := by
  refine ⟨h.raised, h.runTask, h.locked, fun x hx => ?_, fun x hx => ?_, fun e he => ?_, h.nodup⟩
  · by_cases hxc : x = client
    · rw [hxc] at hx ⊢
      exact h.holds client (hholds (by simpa [Holds, State.setClient] using hx))
    · exact h.holds x (by simpa [Holds, State.setClient, Function.update_of_ne hxc] using hx)
  · by_cases hxc : x = client
    · rw [hxc] at hx
      exact absurd (by simpa [State.setClient] using hx) hwaiting
    · exact h.waiting x (by simpa [State.setClient, Function.update_of_ne hxc] using hx)
  · have hold := h.queued e he
    by_cases hxc : e.client = client
    · by_cases hc : c = .cancelled
      · exact .inr (by simp [State.setClient, hxc, hc])
      · rw [hxc] at hold
        rcases hold with hold | hold
        · exact absurd hold (hqueued hc).1
        · exact absurd hold (hqueued hc).2
    · simpa [State.setClient, Function.update_of_ne hxc] using hold

lemma Inv.exit (hin : s.client client = .inside) :
    s.locked = true ∧ Inv { s.setClient client .left with locked := false, releaseEvent := true } := by
  obtain ⟨hrun, hevent⟩ := h.holds client (.inr hin)
  have hinv : Inv (s.setClient client .left) := h.setClient (by simp) (by simp) (by simp [hin])
  refine ⟨h.locked.mpr ⟨client, hrun, hevent⟩, h.raised, h.runTask, by simp, fun x hx => ?_, hinv.waiting,
    hinv.queued, h.nodup⟩
  -- no other client holds the lock
  have hx' : Holds (s.setClient client .left) x := hx
  by_cases hxc : x = client
  · rw [hxc] at hx'
    rcases hx' with hx' | hx' <;> simp [State.setClient] at hx'
  · have hold := (hinv.holds x hx').1
    rw [show (s.setClient client .left).runTask = s.runTask from rfl, hrun] at hold
    exact absurd (RunState.serving.inj hold).symm hxc

/-- **What a step does.** With the invariant, the background task never waits for the lock, and a client that
leaves finds it locked. -/
lemma Inv.step_cases (hstep : step s a = some t) :
    (∃ client priority, a = .enter client priority ∧ s.client client = .outside ∧
      t = { s.setClient client .waiting with queue := s.queue ++ [⟨priority, client⟩] }) ∨
    (∃ e ∈ s.queue, a = .get e.client ∧ mayGet s = true ∧ (∀ e' ∈ s.queue, e.priority ≤ e'.priority) ∧
      t = ({ s with queue := s.queue.erase e, releaseEvent := false } : State).serve e.client) ∨
    (a = .idle ∧ mayGet s = true ∧ t = { s with runTask := .getting }) ∨
    (∃ client, a = .resume client ∧ s.client client = .served ∧ t = s.setClient client .inside) ∨
    (∃ client, a = .exit client ∧ s.client client = .inside ∧
      t = { s.setClient client .left with locked := false, releaseEvent := true }) ∨
    ∃ client, a = .cancel client ∧ t = s.setClient client .cancelled := by
  cases a with
  | enter client priority =>
    rw [step] at hstep
    split at hstep
    · exact .inl ⟨client, priority, rfl, ‹_›, (Option.some.inj hstep).symm⟩
    · cases hstep
  | get client =>
    obtain ⟨e, he, rfl, hget, hmin, rfl⟩ := h.get_cases hstep
    exact .inr (.inl ⟨e, he, rfl, hget, hmin, rfl⟩)
  | acquire =>
    rw [step] at hstep
    split at hstep
    · rename_i client hrun
      exact absurd hrun (h.runTask client)
    · cases hstep
  | idle =>
    rw [step] at hstep
    split at hstep
    · split at hstep
      · rename_i client hrun hguard
        refine .inr (.inr (.inl ⟨rfl, ?_, (Option.some.inj hstep).symm⟩))
        rw [mayGet, hrun]
        exact hguard.1
      · cases hstep
    · cases hstep
  | resume client =>
    rw [step] at hstep
    split at hstep
    · exact .inr (.inr (.inr (.inl ⟨client, rfl, ‹_›, (Option.some.inj hstep).symm⟩)))
    · cases hstep
  | exit client =>
    rw [step] at hstep
    split at hstep
    · rename_i hin
      rw [if_pos (h.exit hin).1] at hstep
      exact .inr (.inr (.inr (.inr (.inl ⟨client, rfl, hin, (Option.some.inj hstep).symm⟩))))
    · cases hstep
  | cancel client =>
    rw [step] at hstep
    split at hstep
    · exact .inr (.inr (.inr (.inr (.inr ⟨client, rfl, (Option.some.inj hstep).symm⟩))))
    · cases hstep

/-- **One step keeps the invariant.** -/
lemma Inv.step (hstep : step s a = some t) : Inv t := by
  obtain ⟨client, priority, rfl, hout, rfl⟩ | ⟨e, he, rfl, hget, -, rfl⟩ | ⟨rfl, hget, rfl⟩ |
    ⟨client, rfl, hserved, rfl⟩ | ⟨client, rfl, hin, rfl⟩ | ⟨client, rfl, rfl⟩ := h.step_cases hstep
  · exact h.enter hout
  · exact h.serve he hget
  · have hfree := h.free hget
    exact ⟨h.raised, fun x hx => (by cases hx), by simp [hfree.1], fun x hx => absurd hx (hfree.2 x),
      h.waiting, h.queued, h.nodup⟩
  · exact h.setClient (by simp) (fun _ => .inl hserved) (by simp [hserved])
  · exact (h.exit hin).2
  · exact h.setClient (by simp) (by simp) (by simp)

end

lemma client_setClient_ne (hno : ∀ client, s.client client ≠ .cancelled) {c : ClientState} (hc : c ≠ .cancelled)
    (x : ℕ) : (s.setClient client c).client x ≠ .cancelled := by
  by_cases hxc : x = client
  · simpa [State.setClient, hxc] using hc
  · simpa [State.setClient, Function.update_of_ne hxc] using hno x

/-- **One step without a cancellation** keeps the invariant of runs without one: the client that is served is
waiting for it. -/
lemma Uncancelled.step (h : Uncancelled s) (ha : ∀ client, a ≠ .cancel client) (hstep : LockQueue.step s a = some t) :
    Uncancelled t := by
  suffices hrest : (∀ client, t.client client ≠ .cancelled) ∧
      ∀ client, t.runTask = .serving client → t.releaseEvent = false → Holds t client from
    ⟨h.inv.step hstep, hrest.1, hrest.2⟩
  obtain ⟨client, priority, rfl, hout, rfl⟩ | ⟨e, he, rfl, hget, -, rfl⟩ | ⟨rfl, hget, rfl⟩ |
    ⟨client, rfl, hserved, rfl⟩ | ⟨client, rfl, hin, rfl⟩ | ⟨client, rfl, rfl⟩ := h.inv.step_cases hstep
  · refine ⟨client_setClient_ne h.cancelled (by simp), fun x hrun hevent => ?_⟩
    have hold := h.held x hrun hevent
    have hxc : x ≠ client := by
      rintro rfl
      rcases hold with hold | hold <;> rw [hout] at hold <;> cases hold
    simpa [Holds, State.setClient, Function.update_of_ne hxc] using hold
  · have hwaiting : s.client e.client = .waiting :=
      (h.inv.queued e he).resolve_right (h.cancelled e.client)
    refine ⟨fun x => ?_, fun x hrun _ => ?_⟩
    · by_cases hxc : x = e.client
      · simp [State.serve, hxc, hwaiting]
      · simpa [State.serve, hwaiting, Function.update_of_ne hxc] using h.cancelled x
    · rw [← RunState.serving.inj hrun]
      simp [Holds, State.serve, hwaiting]
  · exact ⟨h.cancelled, fun x hrun => by cases hrun⟩
  · refine ⟨client_setClient_ne h.cancelled (by simp), fun x hrun hevent => ?_⟩
    by_cases hxc : x = client
    · simp [Holds, State.setClient, hxc]
    · simpa [Holds, State.setClient, Function.update_of_ne hxc] using h.held x hrun hevent
  · exact ⟨client_setClient_ne h.cancelled (by simp), fun x _ hevent => by cases hevent⟩
  · exact absurd rfl (ha client)

lemma Inv.mem_queue_of_step (h : Inv s) (he : e ∈ s.queue) (hstep : LockQueue.step s a = some t)
    (hget : a ≠ .get e.client) : e ∈ t.queue := by
  obtain ⟨client, priority, rfl, -, rfl⟩ | ⟨e', he', rfl, -, -, rfl⟩ | ⟨rfl, -, rfl⟩ |
    ⟨client, rfl, -, rfl⟩ | ⟨client, rfl, -, rfl⟩ | ⟨client, rfl, rfl⟩ := h.step_cases hstep
  · exact List.mem_append_left _ he
  · have hne : e ≠ e' := fun heq => hget (by rw [heq])
    exact (List.mem_erase_of_ne hne).mpr he
  · exact he
  · exact he
  · exact he
  · exact he

end Steps

/-! ## Runs -/

section Runs

variable {s t u : State} {actions : List Action}

lemma Reaches.inv (h : Reaches actions s) : Inv s :=
  @Transition.invariant State Action step (fun _ s => Inv s) initial inv_initial
    (fun _ _ _ _ hinv hstep => hinv.step hstep) actions s h

lemma Reaches.uncancelled (h : Reaches actions s) (hno : ∀ a ∈ actions, ∀ client, a ≠ .cancel client) :
    Uncancelled s :=
  Transition.invariant_of_forall ⟨inv_initial, fun _ h => (by cases h), fun _ h => (by cases h)⟩
    (fun _ _ _ ha hinv hstep => Uncancelled.step hinv ha hstep) hno h

lemma Inv.mem_queue_of_run (hinv : Inv s) {e : Entry} (he : e ∈ s.queue)
    (hrun : Transition.run LockQueue.step s actions = some t) (hget : .get e.client ∉ actions) :
    Inv t ∧ e ∈ t.queue := by
  refine @Transition.invariant_of_forall State Action LockQueue.step (fun a => a ≠ .get e.client)
    (fun v => Inv v ∧ e ∈ v.queue) s ⟨hinv, he⟩ (fun v a w ha hv hstep => ?_) actions (fun a ha heq => ?_) t hrun
  · exact ⟨hv.1.step hstep, hv.1.mem_queue_of_step hv.2 hstep ha⟩
  · rw [heq] at ha
    exact hget ha

/-- A client waits with a priority. -/
def WaitsWith (s : State) (client priority : ℕ) : Prop :=
  s.client client = .waiting ∧ (⟨priority, client⟩ : Entry) ∈ s.queue

/-- Two clients wait, and the one with the lower number is served first. -/
def twoClients : List Action := [.enter 0 1, .enter 1 0, .get 1, .resume 1]

/-- A client is cancelled while it waits for another one, which then leaves. -/
def cancelledWaiter : List Action :=
  [.enter 0 0, .get 0, .resume 0, .enter 1 0, .cancel 1, .exit 0, .get 1]

end Runs

end Chives.LockQueue
