import Chives.Library.Transition
import Mathlib.Tactic

set_option autoImplicit false

/-!
# Requests and replies on a connection

`server/ws_connection.py`, with the part of `server/server.py` that handles incoming messages: two peers send
each other requests, each under a number of its own half of the 16-bit numbers, and match replies by number.

## Main definitions

* `WsConnection.Message`, `WsConnection.Origin` — messages, and what they are an answer to.
* `WsConnection.End`, `WsConnection.State` — one end of a connection, and both.
* `WsConnection.Action`, `WsConnection.step` — what the tasks do from one suspension to the next.
* `WsConnection.InTime` — numbers are not used again too early.

## Main results

* `WsConnection.Inv.step` — one step keeps the invariant.
* `WsConnection.run_replies` — in every run in time, every request gets its own reply or none.
* `WsConnection.not_replies_reusedNumber` — it is not enough that numbers are not used again before the reply
  arrives.

## Design

The type and the data of a message are not looked at, so a message has its origin instead. A request may time out
at any time, so whether its event is set makes no difference. Messages that are not taken for a reply go to the
incoming queue, and an answer to one of them has its number. The rate limiter of the sender may put a message back
at the end of the outgoing queue, or drop it.
-/

namespace Chives.WsConnection

/-- Where a message comes from: a message that needs no reply, the call of `send_request` of one end that sent it,
or the handling of another message. -/
inductive Origin
  | plain
  | request (side : Bool) (call : ℕ)
  | answer (cause : Origin)
  deriving DecidableEq, Repr

/-- The request at the beginning of a chain of answers. -/
def Origin.root : Origin → Option (Bool × ℕ)
  | plain => none
  | request side call => some (side, call)
  | answer cause => cause.root

/-- A message, with its number. -/
structure Message where
  id : Option ℕ
  origin : Origin
  deriving DecidableEq, Repr

/-- A call of `send_request`: it waits under its number, has returned, or has raised a `KeyError`. -/
inductive CallState
  | waiting (id : ℕ)
  | returned (result : Option Message)
  | failed
  deriving DecidableEq, Repr

/-- One end of a connection. `arrived` lists the requests whose reply has arrived. -/
structure End where
  requestNonce : ℕ
  pendingRequests : ℕ → Option ℕ
  requestResults : ℕ → Option Message
  calls : List CallState
  outgoing : List Message
  incoming : List Message
  arrived : List ℕ

/-- Both ends of a connection; the outbound one is `true`. -/
structure State where
  ends : Bool → End

/-- The first number of an end. -/
def firstNonce (outbound : Bool) : ℕ := if outbound then 0 else 2 ^ 15

/-- The number after another one. -/
def nextNonce (outbound : Bool) (nonce : ℕ) : ℕ :=
  if outbound then (if nonce ≠ 2 ^ 15 - 1 then nonce + 1 else 0)
  else if nonce ≠ 2 ^ 16 - 1 then nonce + 1 else 2 ^ 15

/-- A new connection. -/
def initial : State := ⟨fun x => ⟨firstNonce x, fun _ => none, fun _ => none, [], [], [], []⟩⟩

/-- What the tasks may do. -/
inductive Action
  /-- A task calls `send_request`. -/
  | start (side : Bool)
  /-- A task sends a message that needs no reply. -/
  | post (side : Bool)
  /-- The next message of an end is read by the other one. -/
  | deliver (side : Bool)
  /-- The rate limiter puts a message back. -/
  | delay (side : Bool)
  /-- The rate limiter drops a message. -/
  | drop (side : Bool)
  /-- The server has handled a message of the incoming queue, and answers it or not. -/
  | handle (side : Bool) (i : ℕ) (answers : Bool)
  /-- A call of `send_request` goes on, after its event was set or its time is over. -/
  | finish (side : Bool) (call : ℕ)
  deriving DecidableEq, Repr

namespace End

/-- `send_request`, up to the wait. -/
def start (side : Bool) (e : End) : End :=
  { e with
    requestNonce := nextNonce side e.requestNonce
    pendingRequests := Function.update e.pendingRequests e.requestNonce (some e.calls.length)
    calls := e.calls ++ [.waiting e.requestNonce]
    outgoing := e.outgoing ++ [⟨some e.requestNonce, .request side e.calls.length⟩] }

/-- The reply to a request of this end arrives. -/
def arrive (side : Bool) (m : Message) (arrived : List ℕ) : List ℕ :=
  match m.origin with
  | .answer (.request side' call) => if side' = side then call :: arrived else arrived
  | _ => arrived

/-- `inbound_handler`. -/
def receive (side : Bool) (m : Message) (e : End) : End :=
  match m.id with
  | none => { e with incoming := e.incoming ++ [m], arrived := arrive side m e.arrived }
  | some id =>
    if (e.pendingRequests id).isSome then
      { e with
        requestResults := Function.update e.requestResults id (some m)
        arrived := arrive side m e.arrived }
    else { e with incoming := e.incoming ++ [m], arrived := arrive side m e.arrived }

/-- `send_request`, after the wait. -/
def finish (id call : ℕ) (e : End) : End :=
  match e.pendingRequests id with
  | none => { e with calls := e.calls.set call .failed }
  | some _ =>
    { e with
      pendingRequests := Function.update e.pendingRequests id none
      requestResults := Function.update e.requestResults id none
      calls := e.calls.set call (.returned (e.requestResults id)) }

end End

/-- One end in another state. -/
def State.set (s : State) (side : Bool) (e : End) : State := ⟨Function.update s.ends side e⟩

/-- A step of one of the tasks. -/
def step (s : State) : Action → Option State
  | .start x => some (s.set x ((s.ends x).start x))
  | .post x => some (s.set x { s.ends x with outgoing := (s.ends x).outgoing ++ [⟨none, .plain⟩] })
  | .deliver x =>
    match (s.ends x).outgoing with
    | [] => none
    | m :: rest =>
      some ((s.set x { s.ends x with outgoing := rest }).set (!x) ((s.ends (!x)).receive (!x) m))
  | .delay x =>
    match (s.ends x).outgoing with
    | [] => none
    | m :: rest => some (s.set x { s.ends x with outgoing := rest ++ [m] })
  | .drop x =>
    match (s.ends x).outgoing with
    | [] => none
    | _ :: rest => some (s.set x { s.ends x with outgoing := rest })
  | .handle x i answers =>
    match (s.ends x).incoming[i]? with
    | none => none
    | some m => some (s.set x { s.ends x with
        incoming := (s.ends x).incoming.eraseIdx i
        outgoing :=
          if answers then (s.ends x).outgoing ++ [⟨m.id, .answer m.origin⟩] else (s.ends x).outgoing })
  | .finish x call =>
    match (s.ends x).calls[call]? with
    | some (.waiting id) => some (s.set x ((s.ends x).finish id call))
    | _ => none

/-! ## Numbers -/

/-- The number of a request. -/
def idOf (side : Bool) (call : ℕ) : ℕ := firstNonce side + call % 2 ^ 15

lemma nextNonce_idOf (side : Bool) (call : ℕ) : nextNonce side (idOf side call) = idOf side (call + 1) := by
  unfold nextNonce idOf firstNonce
  cases side with
  | true =>
    simp only [if_true]
    split <;> omega
  | false =>
    simp only [Bool.false_eq_true, if_false]
    split <;> omega

lemma eq_of_idOf_eq {x y : Bool} {k n : ℕ} (h : idOf x k = idOf y n) : x = y ∧ k % 2 ^ 15 = n % 2 ^ 15 := by
  unfold idOf firstNonce at h
  cases x <;> cases y <;> simp at h ⊢ <;> omega

/-! ## The invariant -/

/-- A message that was sent, and not handled so far. -/
def UnderWay (s : State) (m : Message) : Prop := ∃ x, m ∈ (s.ends x).outgoing ∨ m ∈ (s.ends x).incoming

/-- A request is alive while its call waits, or a message is under way that goes back to it. -/
def Alive (s : State) (x : Bool) (k : ℕ) : Prop :=
  (∃ id, (s.ends x).calls[k]? = some (.waiting id)) ∨
    ∃ m, UnderWay s m ∧ m.id.isSome = true ∧ m.origin.root = some (x, k)

/-- Fewer than `2 ^ 15` requests were started after every request that is alive. -/
def InTime (s : State) : Prop :=
  ∀ x k, k < (s.ends x).calls.length → Alive s x k → (s.ends x).calls.length ≤ k + 2 ^ 15

/-- What holds in every state of a run in time. -/
structure Inv (s : State) : Prop where
  nonce : ∀ x, (s.ends x).requestNonce = idOf x (s.ends x).calls.length
  pending : ∀ x i k, (s.ends x).pendingRequests i = some k ↔ (s.ends x).calls[k]? = some (.waiting i)
  waiting : ∀ x k i, (s.ends x).calls[k]? = some (.waiting i) → i = idOf x k
  results : ∀ x i m, (s.ends x).requestResults i = some m →
    ∃ k, (s.ends x).pendingRequests i = some k ∧ m.origin = .answer (.request x k)
  returned : ∀ (x : Bool) (k : ℕ) (m : Message), (s.ends x).calls[k]? = some (.returned (some m)) →
    m.origin = .answer (.request x k)
  failed : ∀ (x : Bool) (k : ℕ), (s.ends x).calls[k]? ≠ some .failed
  root : ∀ m, UnderWay s m → ∀ i, m.id = some i →
    ∃ x k, m.origin.root = some (x, k) ∧ i = idOf x k ∧ k < (s.ends x).calls.length
  sent : ∀ x i k, (s.ends x).pendingRequests i = some k → ∀ m, m.id = some i →
    m ∈ (s.ends x).outgoing ∨ m ∈ (s.ends (!x)).incoming → m.origin = .request x k
  replied : ∀ x i k, (s.ends x).pendingRequests i = some k → ∀ m, m.id = some i →
    m ∈ (s.ends (!x)).outgoing → m.origin = .answer (.request x k)
  incoming : ∀ x i k, (s.ends x).pendingRequests i = some k → ∀ m ∈ (s.ends x).incoming, m.id ≠ some i

section Steps

variable {s t : State}

lemma inv_initial : Inv initial := by
  refine ⟨fun x => ?_, fun x i k => ?_, fun x k i h => ?_, fun x i m h => ?_, fun x k m h => ?_,
    fun x k h => ?_, fun m h => ?_, fun x i k h => ?_, fun x i k h => ?_, fun x i k h => ?_⟩
  · simp [initial, idOf]
  · simp [initial]
  · simp [initial] at h
  · simp [initial] at h
  · simp [initial] at h
  · simp [initial] at h
  · simp [UnderWay, initial] at h
  · simp [initial] at h
  · simp [initial] at h
  · simp [initial] at h

/-- An end only moved messages: what it sends was there or answers an incoming message, and what comes in was there or
was sent by the other end under no number that is waited for. -/
structure Moves (s : State) (x : Bool) (e : End) : Prop where
  nonce : e.requestNonce = (s.ends x).requestNonce
  pending : e.pendingRequests = (s.ends x).pendingRequests
  calls : e.calls = (s.ends x).calls
  results : ∀ i m, e.requestResults i = some m → (s.ends x).requestResults i = some m ∨
    ∃ k, (s.ends x).pendingRequests i = some k ∧ m.origin = .answer (.request x k)
  outgoing : ∀ m ∈ e.outgoing, m.id = none ∨ m ∈ (s.ends x).outgoing ∨
    ∃ m' ∈ (s.ends x).incoming, m = ⟨m'.id, .answer m'.origin⟩
  incoming : ∀ m ∈ e.incoming, m ∈ (s.ends x).incoming ∨
    (m ∈ (s.ends (!x)).outgoing ∧ ∀ i, m.id = some i → (s.ends x).pendingRequests i = none)

lemma moves_ends (s : State) (x : Bool) : Moves s x (s.ends x) where
  nonce := rfl
  pending := rfl
  calls := rfl
  results _ _ hm := .inl hm
  outgoing _ hm := .inr (.inl hm)
  incoming _ hm := .inl hm

/-- **Steps that only move messages** keep the invariant. -/
lemma Inv.of_messages (h : Inv s) (hmoves : ∀ x, Moves s x (t.ends x)) : Inv t := by
  refine ⟨fun x => ?_, fun x i k => ?_, fun x k i => ?_, fun x i m hm => ?_, fun x k m => ?_, fun x k => ?_,
    fun m hm i hi => ?_, fun x i k hk m hi hm => ?_, fun x i k hk m hi hm => ?_, fun x i k hk m hm hi => ?_⟩
  · rw [(hmoves x).nonce, (hmoves x).calls]
    exact h.nonce x
  · rw [(hmoves x).pending, (hmoves x).calls]
    exact h.pending x i k
  · rw [(hmoves x).calls]
    exact h.waiting x k i
  · rw [(hmoves x).pending]
    rcases (hmoves x).results i m hm with hold | hnew
    · exact h.results x i m hold
    · exact hnew
  · rw [(hmoves x).calls]
    exact h.returned x k m
  · rw [(hmoves x).calls]
    exact h.failed x k
  · -- an answer goes back to the same request
    simp only [(hmoves _).calls]
    obtain ⟨x, hm | hm⟩ := hm
    · rcases (hmoves x).outgoing m hm with hnone | hold | ⟨m', hm', rfl⟩
      · rw [hnone] at hi
        cases hi
      · exact h.root m ⟨x, .inl hold⟩ i hi
      · exact h.root m' ⟨x, .inr hm'⟩ i hi
    · rcases (hmoves x).incoming m hm with hold | ⟨hold, -⟩
      · exact h.root m ⟨x, .inr hold⟩ i hi
      · exact h.root m ⟨!x, .inl hold⟩ i hi
  · rw [(hmoves x).pending] at hk
    rcases hm with hm | hm
    · rcases (hmoves x).outgoing m hm with hnone | hold | ⟨m', hm', rfl⟩
      · rw [hnone] at hi
        cases hi
      · exact h.sent x i k hk m hi (.inl hold)
      · exact absurd hi (h.incoming x i k hk m' hm')
    · rcases (hmoves !x).incoming m hm with hold | ⟨hold, -⟩
      · exact h.sent x i k hk m hi (.inr hold)
      · rw [Bool.not_not] at hold
        exact h.sent x i k hk m hi (.inl hold)
  · rw [(hmoves x).pending] at hk
    rcases (hmoves !x).outgoing m hm with hnone | hold | ⟨m', hm', rfl⟩
    · rw [hnone] at hi
      cases hi
    · exact h.replied x i k hk m hi hold
    · exact congrArg Origin.answer (h.sent x i k hk m' hi (.inr hm'))
  · rw [(hmoves x).pending] at hk
    rcases (hmoves x).incoming m hm with hold | ⟨-, hnone⟩
    · exact h.incoming x i k hk m hold hi
    · rw [hnone i hi] at hk
      cases hk

lemma State.ends_set (s : State) (x y : Bool) (e : End) :
    (s.set x e).ends y = if y = x then e else s.ends y := by
  show Function.update s.ends x e y = _
  by_cases hy : y = x
  · rw [hy, if_pos rfl, Function.update_self]
  · rw [if_neg hy, Function.update_of_ne hy]

variable {x : Bool}

lemma State.forall_ends_set {s : State} {e : End} {P : Bool → End → Prop} (hself : P x e)
    (hother : P (!x) (s.ends (!x))) (y : Bool) : P y ((s.set x e).ends y) := by
  rw [State.ends_set]
  rcases (by decide : ∀ x y : Bool, y = x ∨ y = !x) x y with rfl | rfl
  · rwa [if_pos rfl]
  · rwa [if_neg (by simp)]

lemma Inv.set_queues (h : Inv s) {outgoing incoming : List Message}
    (hout : ∀ m ∈ outgoing, m.id = none ∨ m ∈ (s.ends x).outgoing ∨ ∃ m' ∈ (s.ends x).incoming, m = ⟨m'.id, .answer m'.origin⟩)
    (hin : ∀ m ∈ incoming, m ∈ (s.ends x).incoming) :
    Inv (s.set x { s.ends x with outgoing := outgoing, incoming := incoming }) :=
  h.of_messages (State.forall_ends_set ⟨rfl, rfl, rfl, fun _ _ => .inl, hout, fun m hm => .inl (hin m hm)⟩
    (moves_ends s !x))

/-- What `inbound_handler` does with a message: it is the result of a call that waits under its number, or it is
put into the incoming queue. -/
lemma receive_cases (x : Bool) (m : Message) (e : End) :
    (∃ i k, m.id = some i ∧ e.pendingRequests i = some k ∧
      e.receive x m = { e with
        requestResults := Function.update e.requestResults i (some m)
        arrived := End.arrive x m e.arrived }) ∨
    ((∀ i, m.id = some i → e.pendingRequests i = none) ∧
      e.receive x m = { e with
        incoming := e.incoming ++ [m]
        arrived := End.arrive x m e.arrived }) := by
  unfold End.receive
  cases hid : m.id with
  | none => exact .inr ⟨nofun, rfl⟩
  | some i =>
    cases hpending : e.pendingRequests i with
    | some k => exact .inl ⟨i, k, rfl, hpending, by simp [hpending]⟩
    | none =>
      refine .inr ⟨fun j hj => ?_, by simp [hpending]⟩
      rw [← Option.some.inj hj]
      exact hpending

lemma Inv.deliver (h : Inv s) {m : Message} {rest : List Message} (hout : (s.ends x).outgoing = m :: rest) :
    Inv ((s.set x { s.ends x with outgoing := rest }).set (!x) ((s.ends (!x)).receive (!x) m)) := by
  have hm : m ∈ (s.ends (!!x)).outgoing := by rw [Bool.not_not, hout]; exact List.mem_cons_self
  have hsender : Moves s (!!x) ((s.set x { s.ends x with outgoing := rest }).ends (!!x)) := by
    rw [Bool.not_not, State.ends_set, if_pos rfl]
    refine { moves_ends s x with outgoing := fun m' hm' => .inr (.inl ?_) }
    rw [hout]
    exact List.mem_cons_of_mem _ hm'
  refine h.of_messages (State.forall_ends_set ?_ hsender)
  rcases receive_cases (!x) m (s.ends (!x)) with ⟨i, k, hi, hk, heq⟩ | ⟨hnone, heq⟩
  · rw [heq]
    refine { moves_ends s (!x) with results := fun j m' hm' => ?_ }
    dsimp only at hm'
    by_cases hij : j = i
    · subst hij
      rw [Function.update_self] at hm'
      obtain rfl := Option.some.inj hm'
      exact .inr ⟨k, hk, h.replied (!x) j k hk m hi hm⟩
    · rw [Function.update_of_ne hij] at hm'
      exact .inl hm'
  · rw [heq]
    refine { moves_ends s (!x) with incoming := fun m' hm' => ?_ }
    rcases List.mem_append.mp hm' with hm' | hm'
    · exact .inl hm'
    · obtain rfl := List.mem_singleton.mp hm'
      exact .inr ⟨hm, hnone⟩

/-- What an end knows of its own calls. -/
structure EndInv (x : Bool) (e : End) : Prop where
  nonce : e.requestNonce = idOf x e.calls.length
  pending : ∀ i k, e.pendingRequests i = some k ↔ e.calls[k]? = some (.waiting i)
  waiting : ∀ k i, e.calls[k]? = some (.waiting i) → i = idOf x k
  results : ∀ i m, e.requestResults i = some m → ∃ k, e.pendingRequests i = some k ∧ m.origin = .answer (.request x k)
  returned : ∀ (k : ℕ) (m : Message), e.calls[k]? = some (.returned (some m)) → m.origin = .answer (.request x k)
  failed : ∀ k : ℕ, e.calls[k]? ≠ some .failed

variable (h : Inv s)

include h

lemma Inv.ends (x : Bool) : EndInv x (s.ends x) :=
  ⟨h.nonce x, h.pending x, h.waiting x, h.results x, h.returned x, h.failed x⟩

/-- **Steps of the calls of one end** keep the invariant: a call that waits did so before, or under a number that no
message has, and what is sent was there or is the request of a call. -/
lemma Inv.set {e : End} (he : EndInv x e) (hlen : (s.ends x).calls.length ≤ e.calls.length)
    (hincoming : e.incoming = (s.ends x).incoming)
    (hpending : ∀ i k, e.pendingRequests i = some k → (s.ends x).pendingRequests i = some k ∨ ∀ m, UnderWay s m → m.id ≠ some i)
    (hout : ∀ m ∈ e.outgoing, m ∈ (s.ends x).outgoing ∨ ∃ k < e.calls.length, m = ⟨some (idOf x k), .request x k⟩ ∧ ∀ k', e.pendingRequests (idOf x k) = some k' → k' = k) :
    Inv (s.set x e) := by
  have hself : (s.set x e).ends x = e := by rw [State.ends_set, if_pos rfl]
  have hother : (s.set x e).ends (!x) = s.ends (!x) := by rw [State.ends_set, if_neg (by simp)]
  have hside : ∀ {C : Bool → Prop}, C x → C (!x) → ∀ y, C y := fun hx hn y => by cases x <;> cases y <;> assumption
  have hends : ∀ y, EndInv y ((s.set x e).ends y) := State.forall_ends_set he (h.ends !x)
  refine ⟨fun y => (hends y).nonce, fun y => (hends y).pending, fun y => (hends y).waiting, fun y => (hends y).results,
    fun y => (hends y).returned, fun y => (hends y).failed, fun m hm i hi => ?_, hside ?_ ?_, hside ?_ ?_, hside ?_ ?_⟩
  · have hlength : ∀ y, (s.ends y).calls.length ≤ ((s.set x e).ends y).calls.length :=
      hside (by rwa [hself]) (by rw [hother])
    have hold : UnderWay s m ∨ ∃ k < e.calls.length, m = ⟨some (idOf x k), .request x k⟩ := by
      obtain ⟨y, hm⟩ := hm
      revert y
      refine hside ?_ ?_
      · rw [hself, hincoming]
        rintro (hm | hm)
        · rcases hout m hm with hm | ⟨k, hk, rfl, -⟩
          · exact .inl ⟨x, .inl hm⟩
          · exact .inr ⟨k, hk, rfl⟩
        · exact .inl ⟨x, .inr hm⟩
      · rw [hother]
        exact fun hm => .inl ⟨_, hm⟩
    rcases hold with hold | ⟨k, hk, rfl⟩
    · obtain ⟨y, k, hroot, hik, hlt⟩ := h.root m hold i hi
      exact ⟨y, k, hroot, hik, hlt.trans_le (hlength y)⟩
    · exact ⟨x, k, rfl, (Option.some.inj hi).symm, by rwa [hself]⟩
  · rw [hself, hother]
    intro i k hk m hi hm
    have hnew : ∀ m ∈ (s.ends x).outgoing ++ (s.ends (!x)).incoming, m.id = some i → m.origin = .request x k := by
      intro m hm hi
      rcases hpending i k hk with hold | hfresh
      · exact h.sent x i k hold m hi (List.mem_append.mp hm)
      · rcases List.mem_append.mp hm with hm | hm
        · exact absurd hi (hfresh m ⟨x, .inl hm⟩)
        · exact absurd hi (hfresh m ⟨!x, .inr hm⟩)
    rcases hm with hm | hm
    · rcases hout m hm with hm | ⟨k', -, rfl, hunique⟩
      · exact hnew m (List.mem_append_left _ hm) hi
      · obtain rfl := Option.some.inj hi
        rw [hunique k hk]
    · exact hnew m (List.mem_append_right _ hm) hi
  · rw [hother, Bool.not_not, hself, hincoming]
    intro i k hk m hi hm
    exact h.sent (!x) i k hk m hi (by rwa [Bool.not_not])
  · rw [hself, hother]
    intro i k hk m hi hm
    rcases hpending i k hk with hold | hfresh
    · exact h.replied x i k hold m hi hm
    · exact absurd hi (hfresh m ⟨!x, .inl hm⟩)
  · rw [hother, Bool.not_not, hself]
    intro i k hk m hi hm
    rcases hout m hm with hm | ⟨k', -, rfl, -⟩
    · exact h.replied (!x) i k hk m hi (by rwa [Bool.not_not])
    · -- the two ends use different numbers
      have hik := h.waiting (!x) k i ((h.pending (!x) i k).mp hk)
      rw [← Option.some.inj hi] at hik
      have hne := (eq_of_idOf_eq hik).1
      simp at hne
  · rw [hself, hincoming]
    intro i k hk m hm hi
    rcases hpending i k hk with hold | hfresh
    · exact h.incoming x i k hold m hm hi
    · exact hfresh m ⟨x, .inr hm⟩ hi
  · rw [hother]
    exact h.incoming (!x)

/-- The invariant is kept when a request is sent under a number that is free. -/
lemma Inv.start (hfree : (s.ends x).pendingRequests (s.ends x).requestNonce = none)
    (hmsg : ∀ m, UnderWay s m → m.id ≠ some (s.ends x).requestNonce) : Inv (s.set x ((s.ends x).start x)) := by
  have hid := h.nonce x
  unfold End.start
  -- the calls after the new one is added
  have hcalls : ∀ k : ℕ, ((s.ends x).calls ++ [CallState.waiting (s.ends x).requestNonce])[k]? =
      if k = (s.ends x).calls.length then some (.waiting (s.ends x).requestNonce)
      else (s.ends x).calls[k]? := by
    intro k
    rcases Nat.lt_trichotomy k (s.ends x).calls.length with hk | hk | hk
    · rw [List.getElem?_append_left hk, if_neg (by omega)]
    · rw [hk, List.getElem?_concat_length, if_pos rfl]
    · rw [List.getElem?_eq_none (by simp; omega), if_neg (by omega), List.getElem?_eq_none (by omega)]
  have hpending : ∀ i k, Function.update (s.ends x).pendingRequests (s.ends x).requestNonce
      (some (s.ends x).calls.length) i = some k ↔ (i = (s.ends x).requestNonce ∧ k = (s.ends x).calls.length) ∨
        (s.ends x).pendingRequests i = some k := by
    intro i k
    by_cases hi : i = (s.ends x).requestNonce
    · rw [hi, Function.update_self, hfree]
      simp [eq_comm]
    · rw [Function.update_of_ne hi]
      simp [hi]
  apply h.set
  · refine ⟨?_, fun i k => ?_, fun k i hk => ?_, fun i m hm => ?_, fun k m hk => ?_, fun k hk => ?_⟩
    · dsimp only
      rw [hid, nextNonce_idOf, List.length_append, List.length_singleton]
    · rw [hpending, hcalls]
      split
      · rename_i hk
        subst hk
        have hnone : (s.ends x).pendingRequests i ≠ some (s.ends x).calls.length := fun hold => by
          have hlt := (List.getElem?_eq_some_iff.mp ((h.pending x _ _).mp hold)).1
          omega
        simp [hnone, eq_comm]
      · rename_i hk
        rw [h.pending]
        simp [hk]
    · rw [hcalls] at hk
      split at hk
      · rename_i hkn
        rw [← CallState.waiting.inj (Option.some.inj hk), hid, hkn]
      · exact h.waiting x k i hk
    · obtain ⟨k, hk, horigin⟩ := h.results x i m hm
      exact ⟨k, (hpending i k).mpr (.inr hk), horigin⟩
    · rw [hcalls] at hk
      split at hk
      · cases Option.some.inj hk
      · exact h.returned x k m hk
    · rw [hcalls] at hk
      split at hk
      · cases Option.some.inj hk
      · exact h.failed x k hk
  · simp
  · rfl
  · intro i k hk
    rcases (hpending i k).mp hk with ⟨rfl, -⟩ | hold
    · exact .inr hmsg
    · exact .inl hold
  · intro m hm
    rcases List.mem_append.mp hm with hm | hm
    · exact .inl hm
    · refine .inr ⟨(s.ends x).calls.length, by simp, ?_, fun k' hk' => ?_⟩
      · rw [List.mem_singleton.mp hm, hid]
      · rw [← hid] at hk'
        rcases (hpending _ k').mp hk' with ⟨-, hk'⟩ | hold
        · exact hk'
        · rw [hfree] at hold
          cases hold

/-- The invariant is kept when a call returns: its own entry is there, with its own reply or none. -/
lemma Inv.finish {call id : ℕ} (hcall : (s.ends x).calls[call]? = some (.waiting id)) :
    Inv (s.set x ((s.ends x).finish id call)) := by
  have hself := (h.pending x id call).mpr hcall
  have hlt := (List.getElem?_eq_some_iff.mp hcall).1
  have hfinish : (s.ends x).finish id call = { s.ends x with
      pendingRequests := Function.update (s.ends x).pendingRequests id none
      requestResults := Function.update (s.ends x).requestResults id none
      calls := (s.ends x).calls.set call (.returned ((s.ends x).requestResults id)) } := by
    rw [End.finish, hself]
  have hcalls : ∀ k : ℕ, ((s.ends x).calls.set call (.returned ((s.ends x).requestResults id)))[k]? =
      if k = call then some (.returned ((s.ends x).requestResults id)) else (s.ends x).calls[k]? := by
    intro k
    rw [List.getElem?_set]
    by_cases hk : k = call
    · rw [if_pos hk.symm, if_pos hlt, if_pos hk]
    · rw [if_neg (Ne.symm hk), if_neg hk]
  have hupdate : ∀ {α : Type} (f : ℕ → Option α) (i : ℕ) (a : α), Function.update f id none i = some a ↔
      i ≠ id ∧ f i = some a := by
    intro α f i a
    by_cases hi : i = id
    · rw [hi, Function.update_self]
      simp
    · rw [Function.update_of_ne hi]
      simp [hi]
  rw [hfinish]
  apply h.set
  · refine ⟨?_, fun i k => ?_, fun k i hk => ?_, fun i m hm => ?_, fun k m hk => ?_, fun k hk => ?_⟩
    · rw [List.length_set]
      exact h.nonce x
    · rw [hupdate, hcalls, h.pending]
      constructor
      · rintro ⟨hne, hold⟩
        rw [if_neg, hold]
        rintro rfl
        rw [hcall] at hold
        exact hne (CallState.waiting.inj (Option.some.inj hold)).symm
      · intro hk
        split at hk
        · cases Option.some.inj hk
        · rename_i hne
          refine ⟨?_, hk⟩
          rintro rfl
          have hold := (h.pending x i k).mpr hk
          rw [hself] at hold
          exact hne (Option.some.inj hold).symm
    · rw [hcalls] at hk
      split at hk
      · cases Option.some.inj hk
      · exact h.waiting x k i hk
    · obtain ⟨hne, hm⟩ := (hupdate _ i m).mp hm
      obtain ⟨k, hk, horigin⟩ := h.results x i m hm
      exact ⟨k, (hupdate _ i k).mpr ⟨hne, hk⟩, horigin⟩
    · rw [hcalls] at hk
      split at hk
      · rename_i hkc
        obtain ⟨k', hk', horigin⟩ := h.results x id m (CallState.returned.inj (Option.some.inj hk))
        rw [hself] at hk'
        rw [hkc, horigin, Option.some.inj hk']
      · exact h.returned x k m hk
    · rw [hcalls] at hk
      split at hk
      · cases Option.some.inj hk
      · exact h.failed x k hk
  · rw [List.length_set]
  · rfl
  · exact fun i k hk => .inl ((hupdate _ i k).mp hk).2
  · exact fun m hm => .inl hm

/-- A request that is started in time finds its number free.

**Proof sketch.** The request before it with this number is at least `2 ^ 15` requests back, so it is not alive
any more. -/
lemma Inv.free (htime : InTime (s.set x ((s.ends x).start x))) :
    (s.ends x).pendingRequests (s.ends x).requestNonce = none ∧
      ∀ m, UnderWay s m → m.id ≠ some (s.ends x).requestNonce := by
  have hlen : ((s.set x ((s.ends x).start x)).ends x).calls.length = (s.ends x).calls.length + 1 := by
    rw [State.ends_set, if_pos rfl]
    show ((s.ends x).calls ++ [_]).length = _
    rw [List.length_append, List.length_singleton]
  -- a request with this number that is alive would be too far back
  have hlate : ∀ k, k < (s.ends x).calls.length → idOf x k = (s.ends x).requestNonce →
      ¬Alive (s.set x ((s.ends x).start x)) x k := by
    intro k hk hid halive
    rw [h.nonce x] at hid
    have hmod := (eq_of_idOf_eq hid).2
    have := htime x k (by omega) halive
    omega
  constructor
  · by_contra hne
    obtain ⟨k, hk⟩ := Option.ne_none_iff_exists'.mp hne
    have hcall := (h.pending x _ k).mp hk
    have hlt := (List.getElem?_eq_some_iff.mp hcall).1
    refine hlate k hlt (h.waiting x k _ hcall).symm (.inl ⟨(s.ends x).requestNonce, ?_⟩)
    rw [State.ends_set, if_pos rfl]
    show ((s.ends x).calls ++ [_])[k]? = _
    rw [List.getElem?_append_left hlt, hcall]
  · intro m hm hid
    obtain ⟨y, k, hroot, hik, hlt⟩ := h.root m hm _ hid
    obtain rfl : y = x := by
      rw [h.nonce x] at hik
      exact (eq_of_idOf_eq hik).1.symm
    refine hlate k hlt hik.symm (.inr ⟨m, ?_, by rw [hid]; rfl, hroot⟩)
    obtain ⟨z, hz⟩ := hm
    refine ⟨z, ?_⟩
    rw [State.ends_set]
    split
    · rename_i hzy
      subst hzy
      exact hz.imp (fun hz => List.mem_append_left _ hz) id
    · exact hz

/-- **One step keeps the invariant**, if numbers are not used again too early. -/
lemma Inv.step {a : Action} (hstep : WsConnection.step s a = some t) (htime : InTime t) : Inv t := by
  cases a with
  | start x =>
    obtain rfl := (Option.some.inj hstep).symm
    obtain ⟨hfree, hmsg⟩ := h.free htime
    exact h.start hfree hmsg
  | post x =>
    rw [← Option.some.inj hstep]
    refine h.set_queues (fun m hm => ?_) fun m hm => hm
    rcases List.mem_append.mp hm with hm | hm
    · exact .inr (.inl hm)
    · rw [List.mem_singleton.mp hm]
      exact .inl rfl
  | deliver x =>
    rw [WsConnection.step] at hstep
    split at hstep
    · cases hstep
    · rename_i m rest hout
      rw [← Option.some.inj hstep]
      exact h.deliver hout
  | delay x =>
    rw [WsConnection.step] at hstep
    split at hstep
    · cases hstep
    · rename_i m rest hout
      rw [← Option.some.inj hstep]
      refine h.set_queues (fun m' hm' => .inr (.inl ?_)) fun m hm => hm
      rw [hout]
      simpa [or_comm] using hm'
  | drop x =>
    rw [WsConnection.step] at hstep
    split at hstep
    · cases hstep
    · rename_i m rest hout
      rw [← Option.some.inj hstep]
      refine h.set_queues (fun m' hm' => .inr (.inl ?_)) fun m hm => hm
      rw [hout]
      exact List.mem_cons_of_mem _ hm'
  | handle x i answers =>
    rw [WsConnection.step] at hstep
    split at hstep
    · cases hstep
    · rename_i m hm
      rw [← Option.some.inj hstep]
      refine h.set_queues (fun m' hm' => .inr ?_) fun m' hm' => List.mem_of_mem_eraseIdx hm'
      split at hm'
      · rcases List.mem_append.mp hm' with hm' | hm'
        · exact .inl hm'
        · exact .inr ⟨m, List.mem_of_getElem? hm, List.mem_singleton.mp hm'⟩
      · exact .inl hm'
  | finish x call =>
    rw [WsConnection.step] at hstep
    split at hstep
    · rename_i id hcall
      rw [← Option.some.inj hstep]
      exact h.finish hcall
    · cases hstep

end Steps

/-! ## Counting requests -/

lemma End.mem_arrive {x : Bool} {m : Message} {arrived : List ℕ} {k : ℕ} (h : k ∈ arrived) :
    k ∈ End.arrive x m arrived := by
  unfold End.arrive
  split
  · split
    · exact List.mem_cons_of_mem _ h
    · exact h
  · exact h

/-- What an end keeps in a step of other kinds than a request of its own. -/
def End.Keeps (e f : End) : Prop := f.calls.length = e.calls.length ∧ ∀ k ∈ e.arrived, k ∈ f.arrived

lemma State.keeps_set {s : State} {y : Bool} {e : End} (h : (s.ends y).Keeps e) (x : Bool) :
    (s.ends x).Keeps ((s.set y e).ends x) := by
  rw [State.ends_set]
  split
  · rename_i hxy
    rw [hxy]
    exact h
  · exact ⟨rfl, fun _ hk => hk⟩

/-- Only `send_request` adds a call, and replies stay. -/
lemma step_keeps {s t : State} {a : Action} (h : step s a = some t) (x : Bool) :
    (s.ends x).Keeps (t.ends x) ∨ (a = .start x ∧
      (t.ends x).calls.length = (s.ends x).calls.length + 1 ∧ (t.ends x).arrived = (s.ends x).arrived) := by
  cases a with
  | start y =>
    rw [← Option.some.inj h, State.ends_set]
    split
    · rename_i hxy
      rw [hxy]
      exact .inr ⟨rfl, List.length_append, rfl⟩
    · exact .inl ⟨rfl, fun _ hk => hk⟩
  | post y =>
    rw [← Option.some.inj h]
    refine .inl (State.keeps_set ?_ x)
    exact ⟨rfl, fun _ hk => hk⟩
  | deliver y =>
    rw [step] at h
    split at h
    · cases h
    · rename_i m rest hout
      rw [← Option.some.inj h, State.ends_set]
      left
      split
      · rename_i hxy
        rw [hxy]
        rcases receive_cases (!y) m (s.ends (!y)) with ⟨_, _, -, -, heq⟩ | ⟨-, heq⟩
        · rw [heq]
          exact ⟨rfl, fun _ hk => End.mem_arrive hk⟩
        · rw [heq]
          exact ⟨rfl, fun _ hk => End.mem_arrive hk⟩
      · refine State.keeps_set ?_ x
        exact ⟨rfl, fun _ hk => hk⟩
  | delay y =>
    rw [step] at h
    split at h
    · cases h
    · rw [← Option.some.inj h]
      refine .inl (State.keeps_set ?_ x)
      exact ⟨rfl, fun _ hk => hk⟩
  | drop y =>
    rw [step] at h
    split at h
    · cases h
    · rw [← Option.some.inj h]
      refine .inl (State.keeps_set ?_ x)
      exact ⟨rfl, fun _ hk => hk⟩
  | handle y i answers =>
    rw [step] at h
    split at h
    · cases h
    · rw [← Option.some.inj h]
      refine .inl (State.keeps_set ?_ x)
      exact ⟨rfl, fun _ hk => hk⟩
  | finish y call =>
    rw [step] at h
    split at h
    · rename_i id hcall
      rw [← Option.some.inj h]
      refine .inl (State.keeps_set ?_ x)
      rw [End.finish]
      split
      · exact ⟨List.length_set, fun _ hk => hk⟩
      · exact ⟨List.length_set, fun _ hk => hk⟩
    · cases h

variable {actions : List Action}

/-- A run has at most one call for every `send_request`. -/
lemma run_calls_length {s t : State} (h : Transition.run step s actions = some t) (x : Bool) :
    (t.ends x).calls.length ≤ (s.ends x).calls.length + actions.count (.start x) := by
  refine @Transition.invariant _ _ step
    (fun as u => (u.ends x).calls.length ≤ (s.ends x).calls.length + as.count (.start x)) s ?_ ?_ _ _ h
  · exact Nat.le_add_right _ _
  · intro as u a v hu hstep
    rw [List.count_append]
    rcases step_keeps hstep x with ⟨hlen, -⟩ | ⟨rfl, hlen, -⟩
    · omega
    · rw [List.count_singleton_self]
      omega

lemma run_arrived {s t : State} (h : Transition.run step s actions = some t) (x : Bool) :
    ∀ k ∈ (s.ends x).arrived, k ∈ (t.ends x).arrived := by
  refine @Transition.invariant _ _ step (fun _ u => ∀ k ∈ (s.ends x).arrived, k ∈ (u.ends x).arrived) s
    ?_ ?_ _ _ h
  · exact fun _ hk => hk
  · intro as u a v hu hstep k hk
    rcases step_keeps hstep x with ⟨-, hsub⟩ | ⟨-, -, heq⟩
    · exact hsub k (hu k hk)
    · rw [heq]
      exact hu k hk

/-! ## Runs -/

/-- A property of all states along a run. -/
def Along (P : State → Prop) (actions : List Action) : Prop :=
  ∀ before, before <+: actions → ∀ s, Transition.run step initial before = some s → P s

lemma inv_of_run (htime : Along InTime actions) {s : State} (h : Transition.run step initial actions = some s) :
    Inv s := by
  induction actions using List.reverseRecOn generalizing s with
  | nil =>
    obtain rfl := Option.some.inj h
    exact inv_initial
  | append_singleton actions a ih =>
    obtain ⟨t, ht, ha⟩ := Transition.run_concat.mp h
    have hinv := ih (fun before hb => htime before (hb.trans (List.prefix_append _ _))) ht
    exact hinv.step ha (htime _ (List.prefix_refl _) s h)

/-- **Every request gets its own reply or none.** In every run in which fewer than `2 ^ 15` requests are started
while a request waits or a message of its is under way: calls return their own reply or nothing, and never fail,
and the two maps only have entries of calls that wait, which are replies to them. -/
theorem run_replies {actions : List Action} (htime : Along InTime actions) {s : State}
    (h : Transition.run step initial actions = some s) (x : Bool) :
    (∀ (k : ℕ) (m : Message), (s.ends x).calls[k]? = some (.returned (some m)) →
        m.origin = .answer (.request x k)) ∧
      (∀ k : ℕ, (s.ends x).calls[k]? ≠ some .failed) ∧
      (∀ i k : ℕ, (s.ends x).pendingRequests i = some k → (s.ends x).calls[k]? = some (.waiting i)) ∧
      ∀ (i : ℕ) (m : Message), (s.ends x).requestResults i = some m → ∃ k : ℕ, (s.ends x).calls[k]? = some (.waiting i) ∧
          m.origin = .answer (.request x k) := by
  have hinv := inv_of_run htime h
  refine ⟨hinv.returned x, hinv.failed x, fun i k hk => (hinv.pending x i k).mp hk, fun i m hm => ?_⟩
  obtain ⟨k, hk, horigin⟩ := hinv.results x i m hm
  exact ⟨k, (hinv.pending x i k).mp hk, horigin⟩

/-- A request, its reply, and the call that returns it. -/
def oneRequest : List Action := [.start true, .deliver true, .handle false 0 true, .deliver false, .finish true 0]

lemma along_inTime_oneRequest : Along InTime oneRequest := by
  intro before hb s hs x k _ _
  have hlen := run_calls_length hs x
  have hcount : before.count (.start x) ≤ before.length := List.count_le_length
  have hle : before.length ≤ 5 := hb.length_le
  have hzero : (initial.ends x).calls.length = 0 := rfl
  omega

/-- The reply to one request is returned, and nothing stays. -/
theorem run_replies_oneRequest :
    ∃ s, Transition.run step initial oneRequest = some s ∧
      (s.ends true).calls = [.returned (some ⟨some 0, .answer (.request true 0)⟩)] ∧
      ∀ i k : ℕ, (s.ends true).pendingRequests i = some k → (s.ends true).calls[k]? = some (.waiting i) := by
  refine ⟨_, rfl, by decide, ?_⟩
  exact (run_replies along_inTime_oneRequest rfl true).2.2.1

/-! ## Numbers that are used again before their call goes on -/

/-- Fewer than `2 ^ 15` requests are started between a request and the arrival of its reply. -/
def RepliesInTime (s : State) : Prop :=
  ∀ x k, k < (s.ends x).calls.length → k ∉ (s.ends x).arrived → (s.ends x).calls.length ≤ k + 2 ^ 15

/-- A request whose reply arrives. -/
def replied : List Action := [.start true, .deliver true, .handle false 0 true, .deliver false]

/-- A request whose reply arrives, and `2 ^ 15` more requests before its task goes on. -/
def reusedNumber : List Action :=
  (replied ++ List.replicate (2 ^ 15) (.start true)) ++ [.finish true 0, .finish true (2 ^ 15)]

/-- The outbound end while it only starts requests. -/
structure Starting (s : State) : Prop where
  nonce : (s.ends true).requestNonce = idOf true (s.ends true).calls.length
  waiting : ∀ k : ℕ, k < (s.ends true).calls.length → (s.ends true).calls[k]? = some (.waiting (idOf true k))
  pending : ((s.ends true).pendingRequests 0).isSome = true

lemma Starting.start {s : State} (h : Starting s) : Starting (s.set true ((s.ends true).start true)) := by
  have hend : (s.set true ((s.ends true).start true)).ends true = (s.ends true).start true := by
    rw [State.ends_set, if_pos rfl]
  have hlen : ((s.ends true).start true).calls.length = (s.ends true).calls.length + 1 := List.length_append
  refine ⟨?_, fun k hk => ?_, ?_⟩
  · rw [hend, hlen, ← nextNonce_idOf, ← h.nonce]
    rfl
  · rw [hend] at hk ⊢
    rw [hlen] at hk
    show ((s.ends true).calls ++ [CallState.waiting (s.ends true).requestNonce])[k]? = _
    rcases Nat.lt_succ_iff_lt_or_eq.mp hk with hlt | heq
    · rw [List.getElem?_append_left hlt, h.waiting k hlt]
    · rw [heq, List.getElem?_concat_length, h.nonce]
  · rw [hend]
    show (Function.update (s.ends true).pendingRequests (s.ends true).requestNonce _ 0).isSome = true
    by_cases hzero : 0 = (s.ends true).requestNonce
    · rw [← hzero, Function.update_self]
      rfl
    · rw [Function.update_of_ne hzero]
      exact h.pending

lemma Starting.run {s : State} (h : Starting s) (n : ℕ) :
    ∃ t, Transition.run WsConnection.step s (List.replicate n (.start true)) = some t ∧ Starting t ∧
      (t.ends true).calls.length = (s.ends true).calls.length + n := by
  induction n generalizing s with
  | zero => exact ⟨s, rfl, h, rfl⟩
  | succ n ih =>
    obtain ⟨t, ht, hstart, hlen⟩ := ih h.start
    refine ⟨t, ht, hstart, ?_⟩
    rw [hlen, State.ends_set, if_pos rfl]
    show ((s.ends true).calls ++ [_]).length + n = _
    rw [List.length_append, List.length_singleton]
    omega

lemma run_replied : ∃ s, Transition.run step initial replied = some s ∧ Starting s ∧
    (s.ends true).calls.length = 1 ∧ 0 ∈ (s.ends true).arrived := by
  refine ⟨_, rfl, ⟨by decide, ?_, by decide⟩, by decide, by decide⟩
  intro k hk
  obtain rfl : k = 0 := Nat.lt_one_iff.mp hk
  decide

lemma count_reusedNumber (x : Bool) : reusedNumber.count (.start x) = if x then 2 ^ 15 + 1 else 0 := by
  rw [reusedNumber, List.count_append, List.count_append, List.count_replicate]
  cases x <;> simp [replied]

/-- In the run, no more than `2 ^ 15` requests are started before a reply arrives.

**Proof sketch.** The reply to the first request arrives before the other requests are started, and after one of
the others there are fewer than `2 ^ 15`. -/
lemma repliesInTime_reusedNumber : Along RepliesInTime reusedNumber := by
  intro before hb s hs x k hk harrived
  have hzero : (initial.ends x).calls.length = 0 := rfl
  have hlen := run_calls_length hs x
  have hcount : before.count (.start x) ≤ reusedNumber.count (.start x) := hb.sublist.count_le _
  rw [count_reusedNumber] at hcount
  cases x with
  | false =>
    simp only [Bool.false_eq_true, if_false] at hcount
    omega
  | true =>
    simp only [if_true] at hcount
    rcases Nat.eq_zero_or_pos k with rfl | hpos
    · rcases Nat.lt_or_ge before.length 5 with hshort | hlong
      · have := List.count_le_length (a := Action.start true) (l := before)
        omega
      · exfalso
        apply harrived
        have hpre : replied <+: before := by
          refine List.prefix_of_prefix_length_le ?_ hb (by simp [replied]; omega)
          rw [reusedNumber, List.append_assoc]
          exact List.prefix_append _ _
        obtain ⟨rest, rfl⟩ := hpre
        obtain ⟨u, hu, -, -, hmem⟩ := run_replied
        rw [Transition.run_append, hu] at hs
        exact run_arrived hs true 0 hmem
    · omega

/-- **The arrival of the reply is too early to use a number again.** The last request of the run has the number of
the first one and takes the entry of `pending_requests` over; the first call removes it, and the last call fails. -/
theorem not_replies_reusedNumber :
    Along RepliesInTime reusedNumber ∧ ∃ s, Transition.run step initial reusedNumber = some s ∧
      (s.ends true).calls[2 ^ 15]? = some .failed := by
  refine ⟨repliesInTime_reusedNumber, ?_⟩
  obtain ⟨s, hs, hstarting, hone, -⟩ := run_replied
  obtain ⟨t, ht, hstart, hlen⟩ := hstarting.run (2 ^ 15)
  have hrun : Transition.run step initial (replied ++ List.replicate (2 ^ 15) (.start true)) = some t := by
    rw [Transition.run_append, hs, Option.bind_some, ht]
  have hfirst := hstart.waiting 0 (by omega)
  have hlast := hstart.waiting (2 ^ 15) (by omega)
  have hpending := hstart.pending
  obtain ⟨owner, howner⟩ := Option.isSome_iff_exists.mp hpending
  -- the first call goes on and removes the entry
  have hstep₁ : step t (.finish true 0) = some (t.set true ((t.ends true).finish 0 0)) := by
    rw [step, hfirst]
    rfl
  have hend₁ : (t.set true ((t.ends true).finish 0 0)).ends true = { t.ends true with
      pendingRequests := Function.update (t.ends true).pendingRequests 0 none
      requestResults := Function.update (t.ends true).requestResults 0 none
      calls := (t.ends true).calls.set 0 (.returned ((t.ends true).requestResults 0)) } := by
    rw [State.ends_set, if_pos rfl, End.finish, howner]
  -- the last call finds no entry
  have hcall₂ : ((t.set true ((t.ends true).finish 0 0)).ends true).calls[2 ^ 15]? = some (.waiting 0) := by
    rw [hend₁]
    show ((t.ends true).calls.set 0 _)[2 ^ 15]? = _
    rw [List.getElem?_set_ne (by omega), hlast]
    rfl
  generalize hu : t.set true ((t.ends true).finish 0 0) = u at hstep₁ hend₁ hcall₂
  have hstep₂ : step u (.finish true (2 ^ 15)) = some (u.set true ((u.ends true).finish 0 (2 ^ 15))) := by
    rw [step, hcall₂]
  refine ⟨u.set true ((u.ends true).finish 0 (2 ^ 15)), ?_, ?_⟩
  · rw [reusedNumber, Transition.run_append, hrun, Option.bind_some, Transition.run, hstep₁, Option.bind_some,
      Transition.run, hstep₂, Option.bind_some, Transition.run]
  · have hnone : (u.ends true).pendingRequests 0 = none := by
      rw [hend₁]
      show Function.update (t.ends true).pendingRequests 0 none 0 = none
      rw [Function.update_self]
    have hlt := (List.getElem?_eq_some_iff.mp hcall₂).1
    rw [State.ends_set, if_pos rfl, End.finish, hnone]
    show ((u.ends true).calls.set (2 ^ 15) _)[2 ^ 15]? = _
    rw [List.getElem?_set_self hlt]

end Chives.WsConnection
