import Chives.Library.Savepoints
import Chives.Library.Transition
import Mathlib.Tactic

set_option autoImplicit false

/-!
# Nested database scopes

`util/db_wrapper.py`, `DBWrapper2`: any number of tasks open `write_db` and `read_db` scopes on one connection that
writes and a pool of connections that read, and scopes of a task may be nested.

## Main definitions

* `DbWrapper.Frame`, `DbWrapper.Status`, `DbWrapper.Task` — the scopes that a task is in, and
  what it waits for.
* `DbWrapper.State`, `DbWrapper.Action`, `DbWrapper.step` — the wrapper and all tasks, and what
  they do from one suspension to the next.
* `DbWrapper.Inv` — what holds in every state of a run.

## Main results

* `DbWrapper.Inv.step` — one step keeps the invariant.
* `DbWrapper.run_isolated` — scopes are atomic and isolated, after every run.

## Design

Statements of the connection that writes are queued and executed by a thread of their own. A body need not wait for
its statements (it may be cancelled while it does), but `write_db` itself waits for its own. Tasks that wait for the
lock get it in any order, and may be cancelled. Statements that read on a pooled connection see what was committed
when they started, until the next one starts. Every open scope has the list of what its body has done so far, and
`finished` lists the outermost scopes that are over; the code has no such lists and no step depends on them.
-/

namespace Chives.DbWrapper

open Savepoints

variable {τ κ δ : Type}

/-- A connection: the one that writes, or one of the pool. -/
inductive Conn (κ : Type)
  | writer
  | reader (c : κ)
  deriving DecidableEq, Repr

/-- A scope that a task is in. -/
inductive Frame (κ δ : Type)
  /-- `write_db`, with its savepoint and what its body has done; the outermost one has the lock. -/
  | write (name : ℕ) (outer : Bool) (items : List (Item δ))
  /-- `read_db` in a task that writes. -/
  | readWriter
  /-- `read_db` with the connection that the task uses already. -/
  | readInUse (c : κ)
  /-- `read_db` with a connection of the pool. -/
  | readPooled (c : κ)

/-- What a task is doing. -/
inductive Status
  /-- The body of its innermost scope, or something outside of all scopes. -/
  | running
  /-- It waits for the lock. -/
  | locking
  /-- It waits for `SAVEPOINT`. -/
  | entering (name : ℕ) (outer : Bool)
  /-- It waits for `ROLLBACK TO`. -/
  | rollingBack
  /-- It waits for `RELEASE`. -/
  | releasing (raised : Bool)
  /-- It waits for a connection of the pool. -/
  | getting
  deriving DecidableEq, Repr

/-- A task: its scopes, the innermost one first, and what it is doing. -/
structure Task (κ δ : Type) where
  frames : List (Frame κ δ)
  status : Status

/-- The wrapper, its connections and all tasks. -/
structure State (τ κ δ : Type) where
  lock : Option τ
  currentWriter : Option τ
  savepointName : ℕ
  session : Session δ
  queue : List (τ × Statement δ)
  readConnections : List κ
  numReadConnections : ℕ
  inUse : τ → Option κ
  views : κ → δ
  tasks : τ → Task κ δ
  finished : List (Item δ)

/-- A wrapper with some connections for reading. -/
def initial (d : δ) (connections : List κ) : State τ κ δ :=
  ⟨none, none, 0, ⟨d, d, []⟩, [], connections, connections.length, fun _ => none, fun _ => d,
    fun _ => ⟨[], .running⟩, []⟩

/-- What the tasks may do. -/
inductive Action (τ δ : Type)
  /-- A task calls `write_db`. -/
  | writeDb (t : τ)
  /-- A task that waits for the lock gets it. -/
  | acquire (t : τ)
  /-- A task that waits for the lock or a connection is cancelled. -/
  | abandon (t : τ)
  /-- A task writes in a `write_db` scope. -/
  | execute (t : τ) (f : δ → δ)
  /-- A task reads through the connection of one of its scopes. -/
  | select (t : τ) (i : ℕ)
  /-- The next statement of the connection that writes is executed. -/
  | sqlite
  /-- A task goes on after its statement was executed. -/
  | resume (t : τ)
  /-- The body of the innermost scope of a task ends, by an exception or not. -/
  | leave (t : τ) (raised : Bool)
  /-- A task calls `read_db`. -/
  | readDb (t : τ)
  /-- A task that waits for a connection of the pool gets one. -/
  | connect (t : τ)

namespace Frame

/-- Whether a scope is one of `write_db`. -/
def isWrite : Frame κ δ → Bool
  | write _ _ _ => true
  | _ => false

/-- The connection of a scope. -/
def conn : Frame κ δ → Conn κ
  | write _ _ _ => .writer
  | readWriter => .writer
  | readInUse c => .reader c
  | readPooled c => .reader c

end Frame

/-- Whether a task is in a `write_db` scope. -/
def hasWrite (frames : List (Frame κ δ)) : Bool := frames.any Frame.isWrite

/-- The `write_db` scopes of a task. -/
def writeScopes : List (Frame κ δ) → List (ℕ × List (Item δ))
  | [] => []
  | .write name _ items :: frames => (name, items) :: writeScopes frames
  | .readWriter :: frames => writeScopes frames
  | .readInUse _ :: frames => writeScopes frames
  | .readPooled _ :: frames => writeScopes frames

/-- The innermost `write_db` scope of a task gets one more item. -/
def addItem (item : Item δ) : List (Frame κ δ) → List (Frame κ δ)
  | [] => []
  | .write name outer items :: frames => .write name outer (items ++ [item]) :: frames
  | .readWriter :: frames => .readWriter :: addItem item frames
  | .readInUse c :: frames => .readInUse c :: addItem item frames
  | .readPooled c :: frames => .readPooled c :: addItem item frames

section Step

variable [DecidableEq τ]

/-- One task in another state. -/
def State.setTask (s : State τ κ δ) (t : τ) (task : Task κ δ) : State τ κ δ :=
  { s with tasks := Function.update s.tasks t task }

/-- A task calls `execute` of the connection that writes. -/
def State.issue (s : State τ κ δ) (t : τ) (statement : Statement δ) : State τ κ δ :=
  { s with queue := s.queue ++ [(t, statement)] }

/-- `write_db`, from the savepoint on. -/
def beginScope (s : State τ κ δ) (t : τ) (outer : Bool) : State τ κ δ :=
  { (s.issue t (.savepoint s.savepointName)).setTask t
      ⟨(s.tasks t).frames, .entering s.savepointName outer⟩ with
    savepointName := s.savepointName + 1 }

/-- The `finally` block of `write_db`. -/
def beginRelease (s : State τ κ δ) (t : τ) (name : ℕ) (outer raised : Bool) : State τ κ δ :=
  { (s.issue t (.release name)).setTask t ⟨(s.tasks t).frames, .releasing raised⟩ with
    currentWriter := if outer then none else s.currentWriter }

/-- A task goes on after its statement was executed. -/
def resume (s : State τ κ δ) (t : τ) : Option (State τ κ δ) :=
  match (s.tasks t).status with
  | .entering name outer =>
    some { s.setTask t ⟨.write name outer [] :: (s.tasks t).frames, .running⟩ with
      currentWriter := if outer then some t else s.currentWriter }
  | .rollingBack =>
    match (s.tasks t).frames with
    | .write name outer _ :: _ => some (beginRelease s t name outer true)
    | _ => none
  | .releasing raised =>
    match (s.tasks t).frames with
    | .write _ true items :: frames =>
      some { s.setTask t ⟨frames, .running⟩ with
        lock := none
        finished := s.finished ++ [.scope items raised] }
    | .write _ false items :: frames => some (s.setTask t ⟨addItem (.scope items raised) frames, .running⟩)
    | _ => none
  | _ => none

/-- The body of the innermost scope ends. -/
def leave (s : State τ κ δ) (t : τ) (raised : Bool) : Option (State τ κ δ) :=
  match (s.tasks t).frames with
  | [] => none
  | .write name outer _ :: _ =>
    if raised then
      some ((s.issue t (.rollbackTo name)).setTask t ⟨(s.tasks t).frames, .rollingBack⟩)
    else some (beginRelease s t name outer false)
  | .readWriter :: frames => some (s.setTask t ⟨frames, .running⟩)
  | .readInUse _ :: frames => some (s.setTask t ⟨frames, .running⟩)
  | .readPooled c :: frames =>
    match s.inUse t with
    | none => some (s.setTask t ⟨frames, .running⟩)
    | some _ => some { s.setTask t ⟨frames, .running⟩ with
        inUse := Function.update s.inUse t none
        readConnections := s.readConnections ++ [c] }

/-- `read_db`, up to the wait for a connection. -/
def readDb (s : State τ κ δ) (t : τ) : State τ κ δ :=
  if s.numReadConnections = 0 then s
  else if s.currentWriter = some t then s.setTask t ⟨.readWriter :: (s.tasks t).frames, .running⟩
  else match s.inUse t with
    | some c => s.setTask t ⟨.readInUse c :: (s.tasks t).frames, .running⟩
    | none => s.setTask t ⟨(s.tasks t).frames, .getting⟩

/-- A step of one of the tasks, or of the thread that executes statements. -/
def step [DecidableEq κ] (s : State τ κ δ) : Action τ δ → Option (State τ κ δ)
  | .writeDb t =>
    if (s.tasks t).status = .running then
      if s.currentWriter = some t then some (beginScope s t false)
      else some (s.setTask t ⟨(s.tasks t).frames, .locking⟩)
    else none
  | .acquire t =>
    if (s.tasks t).status = .locking ∧ s.lock.isNone then
      some { beginScope s t true with lock := some t }
    else none
  | .abandon t =>
    if (s.tasks t).status = .locking ∨ (s.tasks t).status = .getting then
      some (s.setTask t ⟨(s.tasks t).frames, .running⟩)
    else none
  | .execute t f =>
    if (s.tasks t).status = .running ∧ hasWrite (s.tasks t).frames then
      some ((s.issue t (.write f)).setTask t ⟨addItem (.write f) (s.tasks t).frames, .running⟩)
    else none
  | .select t i =>
    if (s.tasks t).status = .running then
      match (s.tasks t).frames[i]? with
      | none => none
      | some frame =>
        match frame.conn with
        | .writer => some (s.issue t .select)
        | .reader c => some { s with views := Function.update s.views c s.session.committed }
    else none
  | .sqlite =>
    match s.queue with
    | [] => none
    | (_, statement) :: rest => some { s with session := exec s.session statement, queue := rest }
  | .resume t => if s.queue.any (fun e => e.1 == t) then none else resume s t
  | .leave t raised => if (s.tasks t).status = .running then leave s t raised else none
  | .readDb t => if (s.tasks t).status = .running then some (readDb s t) else none
  | .connect t =>
    if (s.tasks t).status = .getting then
      match s.readConnections with
      | [] => none
      | c :: rest => some { s.setTask t ⟨.readPooled c :: (s.tasks t).frames, .running⟩ with
          readConnections := rest
          inUse := Function.update s.inUse t (some c) }
    else none

end Step

/-! ## The invariant -/

/-- The scopes of a task: the outermost `write_db` scope is the one with the lock, and `read_db` uses the connection
that writes exactly within `write_db`. -/
def WellNested : List (Frame κ δ) → Prop
  | [] => True
  | .write _ outer _ :: frames => outer = !hasWrite frames ∧ WellNested frames
  | .readWriter :: frames => hasWrite frames = true ∧ WellNested frames
  | .readInUse _ :: frames => hasWrite frames = false ∧ WellNested frames
  | .readPooled _ :: frames => hasWrite frames = false ∧ WellNested frames

namespace Task

/-- A task is inside `write_db`: it is in a scope, or has the lock to enter one. -/
def Inside (task : Task κ δ) : Prop := hasWrite task.frames = true ∨ ∃ name, task.status = .entering name true

/-- The task of `_current_writer`: it is in a scope, and does not leave the outermost one. -/
def Marked (task : Task κ δ) : Prop :=
  hasWrite task.frames = true ∧
    ∀ raised, task.status = .releasing raised → ∀ name items rest, task.frames ≠ .write name true items :: rest

/-- Scopes and status of a task fit together. -/
structure Ok (task : Task κ δ) : Prop where
  nested : WellNested task.frames
  locking : task.status = .locking → hasWrite task.frames = false
  getting : task.status = .getting → hasWrite task.frames = false
  entering : ∀ name outer, task.status = .entering name outer → outer = !hasWrite task.frames
  rollingBack : task.status = .rollingBack → ∃ name outer items rest, task.frames = .write name outer items :: rest
  releasing : ∀ raised, task.status = .releasing raised →
    ∃ name outer items rest, task.frames = .write name outer items :: rest

end Task

/-- A session while the innermost scope is released: its effect is there, and committed if no other scope is open. -/
def Releasing (d : δ) (raised : Bool) (session : Session δ) : List (ℕ × List (Item δ)) → Prop
  | [] => False
  | [(_, items)] => At ((Item.scope items raised).effect d) [] ((Item.scope items raised).effect d) session
  | (_, items) :: outer :: scopes =>
    At d (outer :: scopes) ((Item.scope items raised).effect (value d (outer :: scopes))) session

/-- What the connection that writes holds for the task that has the lock. -/
def Holds (d : δ) (task : Task κ δ) (session : Session δ) : Prop :=
  match task.status with
  | .entering name _ =>
    At d ((name, []) :: writeScopes task.frames) (value d (writeScopes task.frames)) session
  | .rollingBack => At d (writeScopes task.frames) (value d (writeScopes task.frames).tail) session
  | .releasing raised => Releasing d raised session (writeScopes task.frames)
  | _ => At d (writeScopes task.frames) (value d (writeScopes task.frames)) session

/-- A connection after statements. -/
def execAll (session : Session δ) (statements : List (τ × Statement δ)) : Session δ :=
  statements.foldl (fun s e => exec s e.2) session

/-- The outermost scope of a task while it is released. -/
def Task.releasingScope (task : Task κ δ) : List (Item δ) :=
  match task.status, writeScopes task.frames with
  | .releasing raised, [(_, items)] => [.scope items raised]
  | _, _ => []

/-- The outermost scopes that are over, or that are just released. -/
def State.overScopes (s : State τ κ δ) : List (Item δ) :=
  s.finished ++ (match s.lock with
    | none => []
    | some t => (s.tasks t).releasingScope)

/-- Contents that were committed: they are the result of whole outermost scopes, in order. -/
def State.WasCommitted (d : δ) (s : State τ κ δ) (v : δ) : Prop :=
  ∃ scopes, scopes <+: s.overScopes ∧ v = effects scopes d

/-- What holds in every state of a run. -/
structure Inv (d : δ) (s : State τ κ δ) : Prop where
  lock : ∀ t, s.lock = some t ↔ (s.tasks t).Inside
  marked : ∀ t, s.currentWriter = some t ↔ (s.tasks t).Marked
  ok : ∀ t, (s.tasks t).Ok
  queue : ∀ e ∈ s.queue, s.lock = some e.1
  before : ∀ first, first <+: s.queue → first ≠ s.queue →
    (execAll s.session first).committed = effects s.finished d
  free : s.lock = none → At (effects s.finished d) [] (effects s.finished d) (execAll s.session s.queue)
  holds : ∀ t, s.lock = some t → Holds (effects s.finished d) (s.tasks t) (execAll s.session s.queue)
  views : ∀ c, s.WasCommitted d (s.views c)

section Scopes

variable {frames : List (Frame κ δ)}

lemma hasWrite_eq_false : hasWrite frames = false ↔ writeScopes frames = [] := by
  induction frames with
  | nil => simp [hasWrite, writeScopes]
  | cons frame frames ih =>
    unfold hasWrite at ih ⊢
    cases frame <;> simp_all [writeScopes, Frame.isWrite]

lemma writeScopes_addItem {name : ℕ} {items : List (Item δ)} {scopes : List (ℕ × List (Item δ))}
    (h : writeScopes frames = (name, items) :: scopes) (item : Item δ) :
    writeScopes (addItem item frames) = (name, items ++ [item]) :: scopes := by
  induction frames with
  | nil => cases h
  | cons frame frames ih =>
    cases frame with
    | write n outer items' =>
      obtain ⟨h₁, rfl⟩ := List.cons.inj h
      obtain ⟨rfl, rfl⟩ := Prod.mk.inj h₁
      rfl
    | readWriter => exact ih h
    | readInUse c => exact ih h
    | readPooled c => exact ih h

lemma hasWrite_addItem (item : Item δ) : hasWrite (addItem item frames) = hasWrite frames := by
  induction frames with
  | nil => rfl
  | cons frame frames ih =>
    unfold hasWrite at ih ⊢
    cases frame with
    | write n outer items => rfl
    | readWriter => exact ih
    | readInUse c => exact ih
    | readPooled c => exact ih

lemma wellNested_addItem (item : Item δ) (h : WellNested frames) : WellNested (addItem item frames) := by
  induction frames with
  | nil => exact h
  | cons frame frames ih =>
    cases frame with
    | write n outer items => exact h
    | readWriter => exact ⟨by rw [hasWrite_addItem]; exact h.1, ih h.2⟩
    | readInUse c => exact ⟨by rw [hasWrite_addItem]; exact h.1, ih h.2⟩
    | readPooled c => exact ⟨by rw [hasWrite_addItem]; exact h.1, ih h.2⟩

lemma exists_writeScopes (h : hasWrite frames = true) :
    ∃ name items scopes, writeScopes frames = (name, items) :: scopes := by
  cases hw : writeScopes frames with
  | nil =>
    rw [hasWrite_eq_false.mpr hw] at h
    cases h
  | cons scope scopes => exact ⟨scope.1, scope.2, scopes, rfl⟩

end Scopes

lemma execAll_concat (session : Session δ) (statements : List (τ × Statement δ)) (e : τ × Statement δ) :
    execAll session (statements ++ [e]) = exec (execAll session statements) e.2 := by
  simp [execAll]

section Basic

variable {d : δ} {s s' : State τ κ δ} {task : Task κ δ}

lemma inv_initial (d : δ) (connections : List κ) : Inv d (initial d connections : State τ κ δ) := by
  have hinside : ¬(⟨[], .running⟩ : Task κ δ).Inside := by
    rintro (h | ⟨name, h⟩)
    · cases h
    · cases h
  refine ⟨fun t => ?_, fun t => ?_, fun t => ?_, fun e he => ?_, fun first hfirst hne => ?_, fun _ => ?_,
    fun t ht => ?_, fun c => ⟨[], List.nil_prefix, by rw [effects]; rfl⟩⟩
  · exact ⟨fun h => (by cases h), fun h => absurd h hinside⟩
  · exact ⟨fun h => (by cases h), fun h => (by cases h.1)⟩
  · refine ⟨trivial, ?_, ?_, ?_, ?_, ?_⟩ <;> intros <;> contradiction
  · cases he
  · exact absurd (List.prefix_nil.mp hfirst) hne
  · exact ⟨rfl, rfl, rfl⟩
  · cases ht

lemma State.WasCommitted.mono {v : δ} (h : s.WasCommitted d v) (hover : s.overScopes <+: s'.overScopes) :
    s'.WasCommitted d v := by
  obtain ⟨scopes, hscopes, hv⟩ := h
  exact ⟨scopes, hscopes.trans hover, hv⟩

/-- A status in which no statement of `write_db` is waited for. -/
def Status.Plain (status : Status) : Prop := status = .running ∨ status = .locking ∨ status = .getting

variable {session : Session δ}

section

variable (hplain : task.status.Plain)

include hplain

lemma holds_plain :
    Holds d task session ↔ At d (writeScopes task.frames) (value d (writeScopes task.frames)) session := by
  rcases hplain with h | h | h <;> simp only [Holds, h]

lemma releasingScope_plain : task.releasingScope = [] := by
  rcases hplain with h | h | h <;> simp only [Task.releasingScope, h]

lemma inside_plain : task.Inside ↔ hasWrite task.frames = true := by
  refine ⟨fun h => ?_, .inl⟩
  rcases h with h | ⟨name, h⟩
  · exact h
  · rcases hplain with h' | h' | h' <;> rw [h'] at h <;> cases h

lemma marked_plain : task.Marked ↔ hasWrite task.frames = true := by
  refine ⟨And.left, fun h => ⟨h, fun raised hr => ?_⟩⟩
  rcases hplain with h' | h' | h' <;> rw [h'] at hr <;> cases hr

end

variable {frames : List (Frame κ δ)}

lemma ok_running (h : WellNested frames) : (⟨frames, .running⟩ : Task κ δ).Ok :=
  ⟨h, nofun, nofun, nofun, nofun,
    nofun⟩

variable {status : Status}

lemma ok_waiting (h : WellNested frames) (hstatus : status = .locking ∨ status = .getting)
    (hnone : hasWrite frames = false) : (⟨frames, status⟩ : Task κ δ).Ok := by
  rcases hstatus with rfl | rfl
  · exact ⟨h, fun _ => hnone, nofun, nofun, nofun,
      nofun⟩
  · exact ⟨h, nofun, fun _ => hnone, nofun, nofun,
      nofun⟩

lemma ok_entering {outer : Bool} (name : ℕ) (h : WellNested frames) (houter : outer = !hasWrite frames) :
    (⟨frames, .entering name outer⟩ : Task κ δ).Ok := by
  refine ⟨h, nofun, nofun, fun n o ho => ?_, nofun,
    nofun⟩
  obtain ⟨-, rfl⟩ := Status.entering.inj ho
  exact houter

lemma ok_leaving {name : ℕ} {outer : Bool} {items : List (Item δ)} {rest : List (Frame κ δ)}
    (h : WellNested (.write name outer items :: rest))
    (hstatus : status = .rollingBack ∨ ∃ raised, status = .releasing raised) :
    (⟨.write name outer items :: rest, status⟩ : Task κ δ).Ok := by
  rcases hstatus with rfl | ⟨raised, rfl⟩
  · exact ⟨h, nofun, nofun, nofun,
      fun _ => ⟨name, outer, items, rest, rfl⟩, nofun⟩
  · exact ⟨h, nofun, nofun, nofun, nofun,
      fun _ _ => ⟨name, outer, items, rest, rfl⟩⟩

variable {t : τ}

lemma Inv.of_running (h : Inv d s) (hrunning : (s.tasks t).status = .running)
    (hhas : hasWrite (s.tasks t).frames = true) :
    s.lock = some t ∧ s.currentWriter = some t ∧
      At (effects s.finished d) (writeScopes (s.tasks t).frames)
        (value (effects s.finished d) (writeScopes (s.tasks t).frames)) (execAll s.session s.queue) := by
  have hplain : (s.tasks t).status.Plain := .inl hrunning
  have hlock := (h.lock t).mpr ((inside_plain hplain).mpr hhas)
  exact ⟨hlock, (h.marked t).mpr ((marked_plain hplain).mpr hhas), (holds_plain hplain).mp (h.holds t hlock)⟩

lemma Inv.sqlite (h : Inv d s) {e : τ × Statement δ} {rest : List (τ × Statement δ)} (hqueue : s.queue = e :: rest) :
    Inv d { s with session := exec s.session e.2, queue := rest } := by
  have hall : execAll (exec s.session e.2) rest = execAll s.session s.queue := by
    rw [hqueue]
    rfl
  refine ⟨h.lock, h.marked, h.ok, fun e' he' => ?_, fun first hfirst hne => ?_, fun hfree => ?_,
    fun u hu => ?_, h.views⟩
  · refine h.queue e' ?_
    rw [hqueue]
    exact List.mem_cons_of_mem _ he'
  · refine h.before (e :: first) ?_ ?_
    · rw [hqueue]
      exact (List.prefix_cons_inj e).mpr hfirst
    · rw [hqueue]
      exact fun heq => hne (List.cons.inj heq).2
  · rw [hall]
    exact h.free hfree
  · rw [hall]
    exact h.holds u hu

lemma releasing_of_at {name : ℕ} {items : List (Item δ)} {scopes : List (ℕ × List (Item δ))} {raised : Bool}
    (h : At d ((name, items) :: scopes) ((Item.scope items raised).effect (value d scopes)) session) :
    Releasing d raised (exec session (.release name)) ((name, items) :: scopes) := by
  cases scopes with
  | nil => exact h.commit
  | cons scope scopes => exact h.release

lemma Inv.queue_of_free (h : Inv d s) (hfree : s.lock = none) : s.queue = [] := by
  cases hq : s.queue with
  | nil => rfl
  | cons e rest =>
    have he := h.queue e (by rw [hq]; exact List.mem_cons_self)
    rw [hfree] at he
    cases he

lemma Inv.queue_eq_nil [DecidableEq τ] (h : Inv d s) (hlock : s.lock = some t)
    (hnone : s.queue.any (fun e => e.1 == t) = false) : s.queue = [] := by
  cases hq : s.queue with
  | nil => rfl
  | cons e rest =>
    have he := h.queue e (by rw [hq]; exact List.mem_cons_self)
    have heq : t = e.1 := Option.some.inj (hlock.symm.trans he)
    rw [hq, List.any_cons, heq, beq_self_eq_true] at hnone
    cases hnone

lemma Inv.not_marked {u : τ} (h : Inv d s) (hlock : s.lock = some t) (hu : u ≠ t) : s.currentWriter ≠ some u := by
  intro hmarked
  have := (h.lock u).mpr (.inl ((h.marked u).mp hmarked).1)
  exact hu (Option.some.inj (this.symm.trans hlock))

/-- What is committed while a task has the lock. -/
lemma Holds.committed (h : Holds d task session) :
    session.committed = d ∨ ∃ item, task.releasingScope = [item] ∧ session.committed = item.effect d := by
  cases hstatus : task.status with
  | running =>
    rw [Holds, hstatus] at h
    exact .inl h.committed
  | locking =>
    rw [Holds, hstatus] at h
    exact .inl h.committed
  | getting =>
    rw [Holds, hstatus] at h
    exact .inl h.committed
  | entering name outer =>
    rw [Holds, hstatus] at h
    exact .inl h.committed
  | rollingBack =>
    rw [Holds, hstatus] at h
    exact .inl h.committed
  | releasing raised =>
    rw [Holds, hstatus] at h
    rw [Task.releasingScope, hstatus]
    cases hscopes : writeScopes task.frames with
    | nil =>
      rw [hscopes] at h
      exact h.elim
    | cons scope scopes =>
      rw [hscopes] at h
      cases scopes with
      | nil => exact .inr ⟨_, rfl, h.committed⟩
      | cons outer scopes => exact .inl h.committed

lemma Inv.committed (h : Inv d s) : s.WasCommitted d s.session.committed := by
  have hfinished : s.session.committed = effects s.finished d → s.WasCommitted d s.session.committed :=
    fun heq => ⟨s.finished, List.prefix_append _ _, heq⟩
  by_cases hqueue : s.queue = []
  · cases hlock : s.lock with
    | none =>
      have hfree := h.free hlock
      rw [hqueue] at hfree
      exact hfinished hfree.committed
    | some t =>
      have hhold := h.holds t hlock
      rw [hqueue] at hhold
      rcases hhold.committed with heq | ⟨item, hitem, heq⟩
      · exact hfinished heq
      · refine ⟨s.finished ++ [item], ?_, ?_⟩
        · rw [State.overScopes, hlock, ← hitem]
        · rw [effects_concat]
          exact heq
  · exact hfinished (h.before [] List.nil_prefix (Ne.symm hqueue))

lemma Inv.view [DecidableEq κ] (h : Inv d s) (c : κ) :
    Inv d { s with views := Function.update s.views c s.session.committed } := by
  refine ⟨h.lock, h.marked, h.ok, h.queue, h.before, h.free, h.holds, fun c' => ?_⟩
  show s.WasCommitted d (Function.update s.views c s.session.committed c')
  by_cases hc : c' = c
  · rw [hc, Function.update_self]
    exact h.committed
  · rw [Function.update_of_ne hc]
    exact h.views c'

end Basic

section Steps

variable [DecidableEq τ] {d : δ} {s s' : State τ κ δ} {t : τ} {task : Task κ δ}

/-- **Steps of one task.** What the invariant says of single tasks has to be shown for the task that makes the step
only, if no other task gets or loses the lock or the mark. -/
lemma Inv.of_task (h : Inv d s) (htasks : s'.tasks = Function.update s.tasks t task)
    (hok : task.Ok)
    (hlock : s'.lock = some t ↔ task.Inside)
    (hothers : ∀ u, u ≠ t → (s'.lock = some u ↔ s.lock = some u))
    (hmarked : s'.currentWriter = some t ↔ task.Marked)
    (hunmarked : ∀ u, u ≠ t → (s'.currentWriter = some u ↔ s.currentWriter = some u))
    (hqueue : ∀ e ∈ s'.queue, s'.lock = some e.1)
    (hbefore : ∀ first, first <+: s'.queue → first ≠ s'.queue →
      (execAll s'.session first).committed = effects s'.finished d)
    (hfree : s'.lock = none → At (effects s'.finished d) [] (effects s'.finished d) (execAll s'.session s'.queue))
    (hholds : ∀ u, s'.lock = some u →
      Holds (effects s'.finished d) (s'.tasks u) (execAll s'.session s'.queue))
    (hviews : ∀ c, s'.WasCommitted d (s'.views c)) : Inv d s' := by
  refine ⟨fun u => ?_, fun u => ?_, fun u => ?_, hqueue, hbefore, hfree, hholds, hviews⟩
  · by_cases hu : u = t
    · rw [hu, htasks, Function.update_self]
      exact hlock
    · rw [hothers u hu, htasks, Function.update_of_ne hu]
      exact h.lock u
  · by_cases hu : u = t
    · rw [hu, htasks, Function.update_self]
      exact hmarked
    · rw [hunmarked u hu, htasks, Function.update_of_ne hu]
      exact h.marked u
  · by_cases hu : u = t
    · rw [hu, htasks, Function.update_self]
      exact hok
    · rw [htasks, Function.update_of_ne hu]
      exact h.ok u

lemma overScopes_grow (htasks : s'.tasks = Function.update s.tasks t task)
    (hlock : s'.lock = s.lock) (hfinished : s'.finished = s.finished)
    (htask : (s.tasks t).releasingScope <+: task.releasingScope) : s.overScopes <+: s'.overScopes := by
  unfold State.overScopes
  rw [hlock, hfinished]
  refine (List.prefix_append_right_inj _).mpr ?_
  cases s.lock with
  | none => exact List.prefix_refl _
  | some u =>
    show (s.tasks u).releasingScope <+: (s'.tasks u).releasingScope
    by_cases hu : u = t
    · rw [hu, htasks, Function.update_self]
      exact htask
    · rw [htasks, Function.update_of_ne hu]

variable {name : ℕ} {items : List (Item δ)} {outer : Bool} {rest : List (Frame κ δ)} {raised : Bool}

section

variable (h : Inv d s)

include h

/-- **Steps outside of `write_db`.** A task may do anything that leaves its `write_db` scopes as they are. -/
lemma Inv.of_plain (hplain : (s.tasks t).status.Plain) (hplain' : task.status.Plain) (hok : task.Ok)
    (hscopes : writeScopes task.frames = writeScopes (s.tasks t).frames)
    (htasks : s'.tasks = Function.update s.tasks t task) (hlock : s'.lock = s.lock)
    (hwriter : s'.currentWriter = s.currentWriter) (hsession : s'.session = s.session) (hqueue : s'.queue = s.queue)
    (hfinished : s'.finished = s.finished) (hviews : s'.views = s.views) : Inv d s' := by
  have hhas : hasWrite task.frames = true ↔ hasWrite (s.tasks t).frames = true := by
    rw [← Bool.not_eq_false, ← Bool.not_eq_false, hasWrite_eq_false, hasWrite_eq_false, hscopes]
  have hover : s.overScopes <+: s'.overScopes := by
    refine overScopes_grow htasks hlock hfinished ?_
    rw [releasingScope_plain hplain]
    exact List.nil_prefix
  refine h.of_task htasks hok ?_ ?_ ?_ ?_ ?_ ?_ ?_ ?_ ?_
  · rw [hlock, h.lock t, inside_plain hplain, inside_plain hplain', hhas]
  · intro u _
    rw [hlock]
  · rw [hwriter, h.marked t, marked_plain hplain, marked_plain hplain', hhas]
  · intro u _
    rw [hwriter]
  · rw [hqueue, hlock]
    exact h.queue
  · rw [hqueue, hsession, hfinished]
    exact h.before
  · rw [hlock, hqueue, hsession, hfinished]
    exact h.free
  · intro u hu
    rw [hlock] at hu
    have hold := h.holds u hu
    rw [hqueue, hsession, hfinished]
    by_cases hut : u = t
    · rw [hut] at hold ⊢
      rw [htasks, Function.update_self, holds_plain hplain', hscopes]
      exact (holds_plain hplain).mp hold
    · rw [htasks, Function.update_of_ne hut]
      exact hold
  · intro c
    rw [hviews]
    exact (h.views c).mono hover

/-- **Statements of the task that has the lock.** -/
lemma Inv.issue (hheld : s.lock = some t) (hok : task.Ok) (hinside : task.Inside) {statement : Statement δ}
    (htasks : s'.tasks = Function.update s.tasks t task) (hlock : s'.lock = s.lock)
    (hsession : s'.session = s.session) (hqueue : s'.queue = s.queue ++ [(t, statement)])
    (hfinished : s'.finished = s.finished) (hviews : s'.views = s.views)
    (hmarked : s'.currentWriter = some t ↔ task.Marked)
    (hunmarked : ∀ u, u ≠ t → (s'.currentWriter = some u ↔ s.currentWriter = some u))
    (hcommitted : (execAll s.session s.queue).committed = effects s.finished d)
    (hholds : Holds (effects s.finished d) task (exec (execAll s.session s.queue) statement))
    (hreleasing : (s.tasks t).releasingScope <+: task.releasingScope) : Inv d s' := by
  have hheld' : s'.lock = some t := by rw [hlock, hheld]
  refine h.of_task htasks hok ?_ ?_ hmarked hunmarked ?_ ?_ ?_ ?_ ?_
  · exact ⟨fun _ => hinside, fun _ => hheld'⟩
  · intro u _
    rw [hlock]
  · intro e he
    rw [hqueue] at he
    rcases List.mem_append.mp he with he | he
    · rw [hlock]
      exact h.queue e he
    · rw [List.mem_singleton.mp he]
      exact hheld'
  · intro first hfirst hne
    rw [hqueue] at hfirst hne
    rw [hsession, hfinished]
    rcases List.prefix_concat_iff.mp hfirst with heq | hfirst
    · exact absurd heq hne
    · by_cases hall : first = s.queue
      · rw [hall, hcommitted]
      · exact h.before first hfirst hall
  · intro hnone
    rw [hheld'] at hnone
    cases hnone
  · intro u hu
    obtain rfl : t = u := Option.some.inj (hheld'.symm.trans hu)
    rw [htasks, Function.update_self, hqueue, hsession, hfinished, execAll_concat]
    exact hholds
  · intro c
    rw [hviews]
    exact (h.views c).mono (overScopes_grow htasks hlock hfinished hreleasing)

/-- `write_db` within another one sets a savepoint. -/
lemma Inv.beginScope_inner (hrunning : (s.tasks t).status = .running) (hwriter : s.currentWriter = some t) :
    Inv d (beginScope s t false) := by
  have hhas := ((h.marked t).mp hwriter).1
  obtain ⟨hlock, -, hat⟩ := h.of_running hrunning hhas
  refine h.issue hlock (ok_entering s.savepointName (h.ok t).nested (by rw [hhas]; rfl)) (.inl hhas)
    rfl rfl rfl rfl rfl rfl ?_ (fun _ _ => Iff.rfl) hat.committed ?_ ?_
  · exact ⟨fun _ => ⟨hhas, nofun⟩, fun _ => hwriter⟩
  · exact hat.savepoint s.savepointName
  · rw [releasingScope_plain (.inl hrunning)]
    exact List.nil_prefix

/-- The outermost `write_db` takes the lock and sets a savepoint. -/
lemma Inv.acquire (hlocking : (s.tasks t).status = .locking) (hfree : s.lock = none) :
    Inv d { beginScope s t true with lock := some t } := by
  have hnone := (h.ok t).locking hlocking
  have hempty := h.queue_of_free hfree
  have hat := h.free hfree
  have hscopes := hasWrite_eq_false.mp hnone
  refine h.of_task (t := t) rfl
    (ok_entering s.savepointName (h.ok t).nested (by rw [hnone]; rfl)) ?_ ?_ ?_ ?_ ?_ ?_ ?_ ?_ ?_
  · exact ⟨fun _ => .inr ⟨_, rfl⟩, fun _ => rfl⟩
  · intro u hu
    rw [hfree]
    exact ⟨fun hsome => absurd (Option.some.inj hsome).symm hu, nofun⟩
  · show s.currentWriter = some t ↔ _
    rw [h.marked t, marked_plain (.inr (.inl hlocking)), hnone]
    refine ⟨fun hf => (by cases hf), fun hmarked => ?_⟩
    have := hmarked.1
    rw [hnone] at this
    cases this
  · exact fun _ _ => Iff.rfl
  · intro e he
    have he : e ∈ s.queue ++ [(t, Statement.savepoint s.savepointName)] := he
    rw [hempty] at he
    rw [List.mem_singleton.mp he]
  · intro first hfirst hne
    have hfirst : first <+: s.queue ++ [(t, Statement.savepoint s.savepointName)] := hfirst
    rcases List.prefix_concat_iff.mp hfirst with heq | hfirst
    · exact absurd heq hne
    · rw [hempty] at hfirst hat
      rw [List.prefix_nil.mp hfirst]
      exact hat.committed
  · intro hnone'
    cases hnone'
  · intro u hu
    obtain rfl := Option.some.inj hu
    show Holds _ (Function.update s.tasks t _ t) (execAll s.session (s.queue ++ [_]))
    rw [Function.update_self, execAll_concat]
    show At _ (_ :: writeScopes (s.tasks t).frames) (value _ (writeScopes (s.tasks t).frames)) _
    rw [hscopes]
    exact hat.savepoint s.savepointName
  · intro c
    refine (h.views c).mono ?_
    unfold State.overScopes
    rw [hfree]
    show s.finished ++ [] <+: s.finished ++ _
    rw [List.append_nil]
    exact List.prefix_append _ _

lemma Inv.execute (hrunning : (s.tasks t).status = .running) (hhas : hasWrite (s.tasks t).frames = true) (f : δ → δ) :
    Inv d ((s.issue t (.write f)).setTask t ⟨addItem (.write f) (s.tasks t).frames, .running⟩) := by
  obtain ⟨hlock, hwriter, hat⟩ := h.of_running hrunning hhas
  have hhas' : hasWrite (addItem (.write f) (s.tasks t).frames) = true := by rw [hasWrite_addItem, hhas]
  refine h.issue hlock (ok_running (wellNested_addItem _ (h.ok t).nested)) (.inl hhas')
    rfl rfl rfl rfl rfl rfl ?_ (fun _ _ => Iff.rfl) hat.committed ?_ ?_
  · exact ⟨fun _ => (marked_plain (.inl rfl)).mpr hhas', fun _ => hwriter⟩
  · rw [holds_plain (.inl rfl)]
    obtain ⟨name, items, scopes, hscopes⟩ := exists_writeScopes hhas
    rw [writeScopes_addItem hscopes]
    rw [hscopes] at hat
    have hvalue : value (effects s.finished d) ((name, items ++ [.write f]) :: scopes) =
        f (value (effects s.finished d) ((name, items) :: scopes)) := by
      rw [value, value, effects_concat, Item.effect]
    rw [hvalue]
    exact (hat.write f).congr
  · rw [releasingScope_plain (.inl hrunning)]
    exact List.nil_prefix

lemma Inv.select (hrunning : (s.tasks t).status = .running) (hhas : hasWrite (s.tasks t).frames = true) :
    Inv d (s.issue t .select) := by
  obtain ⟨hlock, hwriter, hat⟩ := h.of_running hrunning hhas
  have htask : s.tasks = Function.update s.tasks t (s.tasks t) := (Function.update_eq_self t s.tasks).symm
  refine h.issue hlock (h.ok t) (.inl hhas) htask rfl rfl rfl rfl rfl ?_ (fun _ _ => Iff.rfl) hat.committed ?_
    (List.prefix_refl _)
  · exact h.marked t
  · exact h.holds t hlock

lemma Inv.rollback (hrunning : (s.tasks t).status = .running)
    (hframes : (s.tasks t).frames = .write name outer items :: rest) :
    Inv d ((s.issue t (.rollbackTo name)).setTask t ⟨(s.tasks t).frames, .rollingBack⟩) := by
  have hhas : hasWrite (s.tasks t).frames = true := by rw [hframes]; rfl
  obtain ⟨hlock, hwriter, hat⟩ := h.of_running hrunning hhas
  have hok : (⟨(s.tasks t).frames, .rollingBack⟩ : Task κ δ).Ok := by
    have hnested := (h.ok t).nested
    rw [hframes] at hnested ⊢
    exact ok_leaving hnested (.inl rfl)
  refine h.issue hlock hok (.inl hhas) rfl rfl rfl rfl rfl rfl ?_ (fun _ _ => Iff.rfl) hat.committed ?_ ?_
  · exact ⟨fun _ => ⟨hhas, nofun⟩, fun _ => hwriter⟩
  · rw [hframes] at hat ⊢
    exact hat.rollbackTo
  · rw [releasingScope_plain (.inl hrunning)]
    exact List.nil_prefix

/-- The `finally` block of `write_db`. -/
lemma Inv.beginRelease (hframes : (s.tasks t).frames = .write name outer items :: rest)
    (hwriter : s.currentWriter = some t) (hreleasing : (s.tasks t).releasingScope = [])
    (hat : At (effects s.finished d) ((name, items) :: writeScopes rest) ((Item.scope items raised).effect (value (effects s.finished d) (writeScopes rest))) (execAll s.session s.queue)) :
    Inv d (DbWrapper.beginRelease s t name outer raised) := by
  have hhas : hasWrite (s.tasks t).frames = true := by rw [hframes]; rfl
  have hnested := (h.ok t).nested
  have hok : (⟨(s.tasks t).frames, .releasing raised⟩ : Task κ δ).Ok := by
    rw [hframes] at hnested ⊢
    exact ok_leaving hnested (.inr ⟨raised, rfl⟩)
  refine h.issue ((h.lock t).mpr (.inl hhas)) hok (.inl hhas) rfl rfl rfl rfl rfl rfl ?_ ?_ hat.committed ?_ ?_
  · cases outer with
    | true =>
      refine ⟨nofun, fun hmarked => ?_⟩
      exact absurd hframes (hmarked.2 raised rfl name items rest)
    | false =>
      refine ⟨fun _ => ⟨hhas, fun _ _ name' items' rest' heq => ?_⟩, fun _ => hwriter⟩
      rw [hframes] at heq
      cases heq
  · intro u hu
    show (if outer then none else s.currentWriter) = some u ↔ _
    rw [hwriter]
    cases outer with
    | true => exact ⟨fun hn => (by cases hn), fun heq => absurd (Option.some.inj heq).symm hu⟩
    | false => exact Iff.rfl
  · show Releasing _ raised _ (writeScopes (s.tasks t).frames)
    rw [hframes]
    exact releasing_of_at hat
  · rw [hreleasing]
    exact List.nil_prefix

/-- A scope is entered after its savepoint. -/
lemma Inv.entered (hstatus : (s.tasks t).status = .entering name outer) :
    Inv d { s.setTask t ⟨.write name outer [] :: (s.tasks t).frames, .running⟩ with
      currentWriter := if outer then some t else s.currentWriter } := by
  have houter := (h.ok t).entering name outer hstatus
  have hinside : (s.tasks t).Inside := by
    cases outer with
    | true => exact .inr ⟨name, hstatus⟩
    | false => exact .inl (by simpa using houter)
  have hlock := (h.lock t).mpr hinside
  have hhold := h.holds t hlock
  rw [Holds, hstatus] at hhold
  have hok : WellNested (Frame.write name outer [] :: (s.tasks t).frames) := ⟨houter, (h.ok t).nested⟩
  refine h.of_task (t := t) rfl (ok_running hok) ?_ (fun _ _ => Iff.rfl) ?_ ?_ h.queue h.before h.free ?_ ?_
  · exact ⟨fun _ => .inl rfl, fun _ => hlock⟩
  · refine ⟨fun _ => (marked_plain (.inl rfl)).mpr rfl, fun _ => ?_⟩
    cases outer with
    | true => rfl
    | false =>
      refine (h.marked t).mpr ⟨by simpa using houter, fun _ hr => ?_⟩
      rw [hstatus] at hr
      cases hr
  · intro u hu
    cases outer with
    | true =>
      exact ⟨fun heq => absurd (Option.some.inj heq).symm hu, fun heq => absurd heq (h.not_marked hlock hu)⟩
    | false => exact Iff.rfl
  · intro u hu
    obtain rfl : t = u := Option.some.inj (hlock.symm.trans hu)
    show Holds _ (Function.update s.tasks t _ t) _
    rw [Function.update_self, holds_plain (.inl rfl)]
    show At _ ((name, []) :: writeScopes (s.tasks t).frames) (effects [] _) _
    rw [effects]
    exact hhold
  · intro c
    refine (h.views c).mono (overScopes_grow (t := t) rfl rfl rfl ?_)
    rw [Task.releasingScope, hstatus]
    exact List.nil_prefix

/-- A nested scope is over. -/
lemma Inv.released_inner (hstatus : (s.tasks t).status = .releasing raised)
    (hframes : (s.tasks t).frames = .write name false items :: rest) :
    Inv d (s.setTask t ⟨addItem (.scope items raised) rest, .running⟩) := by
  have hhas : hasWrite (s.tasks t).frames = true := by rw [hframes]; rfl
  have hlock := (h.lock t).mpr (.inl hhas)
  have hnested := (h.ok t).nested
  rw [hframes] at hnested
  have hrest : hasWrite rest = true := by simpa using hnested.1
  have hrest' : hasWrite (addItem (.scope items raised) rest) = true := by rw [hasWrite_addItem, hrest]
  refine h.of_task (t := t) rfl (ok_running (wellNested_addItem _ hnested.2)) ?_ (fun _ _ => Iff.rfl) ?_
    (fun _ _ => Iff.rfl) h.queue h.before h.free ?_ ?_
  · exact ⟨fun _ => .inl hrest', fun _ => hlock⟩
  · refine ⟨fun _ => (marked_plain (.inl rfl)).mpr hrest', fun _ => (h.marked t).mpr ⟨hhas, ?_⟩⟩
    intro _ _ name' items' rest' heq
    rw [hframes] at heq
    cases heq
  · intro u hu
    obtain rfl : t = u := Option.some.inj (hlock.symm.trans hu)
    have hhold := h.holds t hlock
    obtain ⟨name', items', scopes, hscopes⟩ := exists_writeScopes hrest
    rw [Holds, hstatus, hframes, writeScopes, hscopes] at hhold
    show Holds _ (Function.update s.tasks t _ t) _
    rw [Function.update_self, holds_plain (.inl rfl), writeScopes_addItem hscopes]
    have hvalue : value (effects s.finished d) ((name', items' ++ [.scope items raised]) :: scopes) =
        (Item.scope items raised).effect (value (effects s.finished d) ((name', items') :: scopes)) := by
      rw [value, value, effects_concat]
    show At (effects s.finished d) _ (value (effects s.finished d) _) _
    rw [hvalue]
    exact At.congr hhold
  · intro c
    obtain ⟨name', items', scopes, hscopes⟩ := exists_writeScopes hrest
    refine (h.views c).mono (overScopes_grow (t := t) rfl rfl rfl ?_)
    rw [Task.releasingScope, hstatus, hframes, writeScopes, hscopes]
    exact List.nil_prefix

/-- The outermost scope is over: its effect is committed, and the lock is free. -/
lemma Inv.released_outer (hstatus : (s.tasks t).status = .releasing raised)
    (hframes : (s.tasks t).frames = .write name true items :: rest)
    (hnone : s.queue.any (fun e => e.1 == t) = false) :
    Inv d { s.setTask t ⟨rest, .running⟩ with
      lock := none
      finished := s.finished ++ [.scope items raised] } := by
  have hhas : hasWrite (s.tasks t).frames = true := by rw [hframes]; rfl
  have hlock := (h.lock t).mpr (.inl hhas)
  have hqueue := h.queue_eq_nil hlock hnone
  have hnested := (h.ok t).nested
  rw [hframes] at hnested
  have hrest : hasWrite rest = false := by simpa using hnested.1
  have hscopes := hasWrite_eq_false.mp hrest
  have hhold := h.holds t hlock
  rw [Holds, hstatus, hframes, writeScopes, hscopes] at hhold
  have hnot : ¬hasWrite rest = true := by
    rw [hrest]
    exact nofun
  refine h.of_task (t := t) rfl (ok_running hnested.2) ?_ ?_ ?_ (fun _ _ => Iff.rfl) ?_ ?_ ?_ ?_ ?_
  · exact ⟨nofun, fun hin => absurd ((inside_plain (.inl rfl)).mp hin) hnot⟩
  · intro u hu
    rw [hlock]
    exact ⟨fun hf => (by cases hf), fun heq => absurd (Option.some.inj heq).symm hu⟩
  · refine ⟨fun hmarked => ?_, fun hmarked => absurd hmarked.1 hnot⟩
    exact absurd hframes (((h.marked t).mp hmarked).2 raised hstatus name items rest)
  · intro e he
    have he : e ∈ s.queue := he
    rw [hqueue] at he
    cases he
  · intro first hfirst hne
    have hfirst : first <+: s.queue := hfirst
    have hne : first ≠ s.queue := hne
    rw [hqueue] at hfirst hne
    exact absurd (List.prefix_nil.mp hfirst) hne
  · intro _
    show At (effects (s.finished ++ [_]) d) [] (effects (s.finished ++ [_]) d) _
    rw [effects_concat]
    exact hhold
  · intro u hu
    cases hu
  · intro c
    refine (h.views c).mono ?_
    unfold State.overScopes
    rw [hlock]
    show s.finished ++ (s.tasks t).releasingScope <+: (s.finished ++ [_]) ++ []
    rw [Task.releasingScope, hstatus, hframes, writeScopes, hscopes, List.append_nil]

end

variable {frames : List (Frame κ δ)}

/-- A connection that is the one that writes belongs to a scope within `write_db`. -/
lemma hasWrite_of_conn (h : WellNested frames) {i : ℕ} {frame : Frame κ δ} (hi : frames[i]? = some frame)
    (hconn : frame.conn = .writer) : hasWrite frames = true := by
  induction frames generalizing i with
  | nil => cases hi
  | cons first frames ih =>
    cases i with
    | zero =>
      obtain rfl := Option.some.inj hi
      cases first with
      | write name outer items => rfl
      | readWriter => exact h.1
      | readInUse c => cases hconn
      | readPooled c => cases hconn
    | succ i =>
      have hrest : WellNested frames → hasWrite frames = true := fun hn => ih hn hi
      cases first with
      | write name outer items => rfl
      | readWriter => exact h.1
      | readInUse c => exact hrest h.2
      | readPooled c => exact hrest h.2

/-- The connection of a `read_db` scope is the one that writes if it is within `write_db`. -/
lemma conn_of_wellNested {before : List (Frame κ δ)} {frame : Frame κ δ} (h : WellNested (before ++ frame :: frames))
    (hread : frame.isWrite = false) : frame.conn = .writer ↔ hasWrite frames = true := by
  induction before with
  | nil =>
    cases frame with
    | write name outer items => cases hread
    | readWriter => exact ⟨fun _ => h.1, fun _ => rfl⟩
    | readInUse c =>
      have hnone := h.1
      exact ⟨nofun, fun hhas => (by rw [hnone] at hhas; cases hhas)⟩
    | readPooled c =>
      have hnone := h.1
      exact ⟨nofun, fun hhas => (by rw [hnone] at hhas; cases hhas)⟩
  | cons first before ih =>
    cases first with
    | write name outer items => exact ih h.2
    | readWriter => exact ih h.2
    | readInUse c => exact ih h.2
    | readPooled c => exact ih h.2

/-- `read_db` keeps the invariant. -/
lemma Inv.readDb (h : Inv d s) (hrunning : (s.tasks t).status = .running) : Inv d (DbWrapper.readDb s t) := by
  have hplain : (s.tasks t).status.Plain := .inl hrunning
  have hnested := (h.ok t).nested
  unfold DbWrapper.readDb
  split
  · exact h
  · split
    · rename_i hwriter
      have hhas := ((h.marked t).mp hwriter).1
      have hok : WellNested (Frame.readWriter :: (s.tasks t).frames) := ⟨hhas, hnested⟩
      exact h.of_plain hplain (.inl rfl) (ok_running hok) rfl rfl rfl rfl rfl rfl rfl rfl
    · rename_i hwriter
      have hhas : hasWrite (s.tasks t).frames = false := by
        rw [← Bool.not_eq_true]
        exact fun hf => hwriter (h.of_running hrunning hf).2.1
      split
      · rename_i c hc
        have hok : WellNested (Frame.readInUse c :: (s.tasks t).frames) := ⟨hhas, hnested⟩
        exact h.of_plain hplain (.inl rfl) (ok_running hok) rfl rfl rfl rfl rfl rfl rfl rfl
      · exact h.of_plain hplain (.inr (.inr rfl)) (ok_waiting hnested (.inr rfl) hhas) rfl rfl rfl rfl rfl rfl rfl rfl

/-- The end of a body keeps the invariant. -/
lemma Inv.leave (h : Inv d s) (hrunning : (s.tasks t).status = .running)
    (hstep : DbWrapper.leave s t raised = some s') : Inv d s' := by
  have hplain : (s.tasks t).status.Plain := .inl hrunning
  have hnested := (h.ok t).nested
  rw [DbWrapper.leave] at hstep
  split at hstep
  · cases hstep
  · rename_i name outer items rest hframes
    have hhas : hasWrite (s.tasks t).frames = true := by rw [hframes]; rfl
    split at hstep
    · rw [← Option.some.inj hstep]
      exact h.rollback hrunning hframes
    · rw [← Option.some.inj hstep]
      obtain ⟨-, hwriter, hat⟩ := h.of_running hrunning hhas
      rw [hframes] at hat
      exact h.beginRelease hframes hwriter (releasingScope_plain hplain) hat
  · rename_i rest hframes
    rw [hframes] at hnested
    rw [← Option.some.inj hstep]
    exact h.of_plain hplain (.inl rfl) (ok_running hnested.2) (by rw [hframes]; rfl) rfl rfl rfl rfl rfl rfl rfl
  · rename_i c rest hframes
    rw [hframes] at hnested
    rw [← Option.some.inj hstep]
    exact h.of_plain hplain (.inl rfl) (ok_running hnested.2) (by rw [hframes]; rfl) rfl rfl rfl rfl rfl rfl rfl
  · rename_i c rest hframes
    rw [hframes] at hnested
    split at hstep
    · rw [← Option.some.inj hstep]
      exact h.of_plain hplain (.inl rfl) (ok_running hnested.2) (by rw [hframes]; rfl) rfl rfl rfl rfl rfl rfl rfl
    · rw [← Option.some.inj hstep]
      exact h.of_plain hplain (.inl rfl) (ok_running hnested.2) (by rw [hframes]; rfl) rfl rfl rfl rfl rfl rfl rfl

/-- A task that goes on after its statement keeps the invariant. -/
lemma Inv.resume (h : Inv d s) (hnone : s.queue.any (fun e => e.1 == t) = false)
    (hstep : DbWrapper.resume s t = some s') : Inv d s' := by
  rw [DbWrapper.resume] at hstep
  split at hstep
  · rename_i name outer hstatus
    rw [← Option.some.inj hstep]
    exact h.entered hstatus
  · rename_i hstatus
    split at hstep
    · rename_i name outer items rest hframes
      rw [← Option.some.inj hstep]
      have hhas : hasWrite (s.tasks t).frames = true := by rw [hframes]; rfl
      have hlock := (h.lock t).mpr (.inl hhas)
      have hhold := h.holds t hlock
      rw [Holds, hstatus, hframes] at hhold
      have hwriter : s.currentWriter = some t := by
        refine (h.marked t).mpr ⟨hhas, fun _ hr => ?_⟩
        rw [hstatus] at hr
        cases hr
      refine h.beginRelease hframes hwriter ?_ ?_
      · rw [Task.releasingScope, hstatus]
      · rw [Item.effect, if_pos rfl]
        exact hhold
    · cases hstep
  · rename_i raised hstatus
    split at hstep
    · rename_i name items rest hframes
      rw [← Option.some.inj hstep]
      exact h.released_outer hstatus hframes hnone
    · rename_i name items rest hframes
      rw [← Option.some.inj hstep]
      exact h.released_inner hstatus hframes
    · cases hstep
  · cases hstep

/-- **One step keeps the invariant.** -/
theorem Inv.step [DecidableEq κ] (h : Inv d s) {a : Action τ δ} (hstep : DbWrapper.step s a = some s') :
    Inv d s' := by
  cases a with
  | writeDb t =>
    rw [DbWrapper.step] at hstep
    split at hstep
    · rename_i hrunning
      split at hstep
      · rename_i hwriter
        rw [← Option.some.inj hstep]
        exact h.beginScope_inner hrunning hwriter
      · rename_i hwriter
        have hhas : hasWrite (s.tasks t).frames = false := by
          rw [← Bool.not_eq_true]
          exact fun hf => hwriter (h.of_running hrunning hf).2.1
        rw [← Option.some.inj hstep]
        exact h.of_plain (.inl hrunning) (.inr (.inl rfl)) (ok_waiting (h.ok t).nested (.inl rfl) hhas)
          rfl rfl rfl rfl rfl rfl rfl rfl
    · cases hstep
  | acquire t =>
    rw [DbWrapper.step] at hstep
    split at hstep
    · rename_i hcond
      rw [← Option.some.inj hstep]
      exact h.acquire hcond.1 (Option.isNone_iff_eq_none.mp hcond.2)
    · cases hstep
  | abandon t =>
    rw [DbWrapper.step] at hstep
    split at hstep
    · rename_i hcond
      rw [← Option.some.inj hstep]
      exact h.of_plain (.inr hcond) (.inl rfl) (ok_running (h.ok t).nested) rfl rfl rfl rfl rfl rfl rfl rfl
    · cases hstep
  | execute t f =>
    rw [DbWrapper.step] at hstep
    split at hstep
    · rename_i hcond
      rw [← Option.some.inj hstep]
      exact h.execute hcond.1 hcond.2 f
    · cases hstep
  | select t i =>
    rw [DbWrapper.step] at hstep
    split at hstep
    · rename_i hrunning
      split at hstep
      · cases hstep
      · rename_i frame hframe
        split at hstep
        · rename_i hconn
          rw [← Option.some.inj hstep]
          exact h.select hrunning (hasWrite_of_conn (h.ok t).nested hframe hconn)
        · rename_i c hconn
          rw [← Option.some.inj hstep]
          exact h.view c
    · cases hstep
  | sqlite =>
    rw [DbWrapper.step] at hstep
    split at hstep
    · cases hstep
    · rename_i u statement rest hqueue
      rw [← Option.some.inj hstep]
      exact h.sqlite hqueue
  | resume t =>
    rw [DbWrapper.step] at hstep
    split at hstep
    · cases hstep
    · rename_i hnone
      exact h.resume (Bool.not_eq_true _ ▸ hnone) hstep
  | leave t raised =>
    rw [DbWrapper.step] at hstep
    split at hstep
    · rename_i hrunning
      exact h.leave hrunning hstep
    · cases hstep
  | readDb t =>
    rw [DbWrapper.step] at hstep
    split at hstep
    · rename_i hrunning
      rw [← Option.some.inj hstep]
      exact h.readDb hrunning
    · cases hstep
  | connect t =>
    rw [DbWrapper.step] at hstep
    split at hstep
    · rename_i hgetting
      split at hstep
      · cases hstep
      · rename_i c rest hconnections
        rw [← Option.some.inj hstep]
        have hok : WellNested (Frame.readPooled c :: (s.tasks t).frames) :=
          ⟨(h.ok t).getting hgetting, (h.ok t).nested⟩
        exact h.of_plain (.inr (.inr hgetting)) (.inl rfl) (ok_running hok) rfl rfl rfl rfl rfl rfl rfl rfl
    · cases hstep

end Steps

/-! ## Runs -/

section Runs

variable [DecidableEq τ] [DecidableEq κ] {d : δ} {connections : List κ} {actions : List (Action τ δ)}
  {s : State τ κ δ}

lemma inv_of_run (h : Transition.run step (initial d connections) actions = some s) : Inv d s :=
  @Transition.invariant _ _ step (fun _ u => Inv d u) _ (inv_initial d connections)
    (fun _ _ _ _ hinv hstep => hinv.step hstep) _ _ h

/-- **Scopes are atomic and isolated.** After every run:

* at most one task is inside `write_db`;
* when no task is, what is committed is the effect of all outermost scopes so far, without the failed scopes;
* what is committed, and what is seen through a connection of the pool, is always the effect of whole outermost
  scopes;
* what a task inside `write_db` sees through the connection that writes, after its statements so far, is the effect
  of its own open scopes on top of this;
* when the scope of a body that raised is rolled back, everything is as at its beginning;
* a `read_db` scope of a task uses the connection that writes exactly within `write_db` of the same task. -/
theorem run_isolated (h : Transition.run step (initial d connections) actions = some s) :
    (∀ t u, (s.tasks t).Inside → (s.tasks u).Inside → t = u) ∧
      ((∀ t, ¬(s.tasks t).Inside) → s.session.committed = effects s.finished d) ∧
      s.WasCommitted d s.session.committed ∧
      (∀ c, s.WasCommitted d (s.views c)) ∧
      (∀ t, (s.tasks t).status = .running → (s.tasks t).Inside →
        (execAll s.session s.queue).current =
          value (effects s.finished d) (writeScopes (s.tasks t).frames)) ∧
      (∀ t name outer items rest, (s.tasks t).frames = .write name outer items :: rest →
        (s.tasks t).status = .releasing true →
        (execAll s.session s.queue).current = value (effects s.finished d) (writeScopes rest)) ∧
      ∀ t before frame rest, (s.tasks t).frames = before ++ frame :: rest → frame.isWrite = false →
        (frame.conn = .writer ↔ hasWrite rest = true) := by
  have hinv := inv_of_run h
  refine ⟨fun t u ht hu => ?_, fun hnone => ?_, hinv.committed, hinv.views, fun t hrunning hin => ?_,
    fun t name outer items rest hframes hstatus => ?_, fun t before frame rest hframes hread => ?_⟩
  · exact Option.some.inj (((hinv.lock t).mpr ht).symm.trans ((hinv.lock u).mpr hu))
  · have hlock : s.lock = none := by
      cases hlock : s.lock with
      | none => rfl
      | some t => exact absurd ((hinv.lock t).mp hlock) (hnone t)
    have hqueue := hinv.queue_of_free hlock
    have hfree := hinv.free hlock
    rw [hqueue] at hfree
    exact hfree.committed
  · exact (hinv.of_running hrunning ((inside_plain (.inl hrunning)).mp hin)).2.2.current
  · have hlock := (hinv.lock t).mpr (.inl (by rw [hframes]; rfl))
    have hhold := hinv.holds t hlock
    rw [Holds, hstatus, hframes, writeScopes] at hhold
    cases hscopes : writeScopes rest with
    | nil =>
      rw [hscopes] at hhold
      exact hhold.current
    | cons scope scopes =>
      rw [hscopes] at hhold
      exact hhold.current
  · have hnested := (hinv.ok t).nested
    rw [hframes] at hnested
    exact conn_of_wellNested hnested hread

end Runs

/-- A task adds one; within, it opens a scope that fails. -/
def nestedFailure : List (Action Bool ℕ) :=
  [.writeDb true, .acquire true, .sqlite, .resume true, .execute true (· + 1), .writeDb true, .sqlite, .sqlite,
    .resume true, .execute true (· + 10), .leave true true, .sqlite, .sqlite, .resume true, .sqlite, .resume true,
    .leave true false, .sqlite, .resume true]

/-- The failed scope has no effect, and the write before it stays. -/
theorem run_isolated_nestedFailure :
    ∃ s : State Bool Unit ℕ, Transition.run step (initial 0 [()]) nestedFailure = some s ∧
      s.session.committed = 1 ∧ s.WasCommitted 0 s.session.committed := by
  have hrun : ∃ s : State Bool Unit ℕ, Transition.run step (initial 0 [()]) nestedFailure = some s ∧
      s.session.committed = 1 := ⟨_, rfl, rfl⟩
  obtain ⟨s, hs, hcommitted⟩ := hrun
  exact ⟨s, hs, hcommitted, (run_isolated hs).2.2.1⟩

end Chives.DbWrapper
