import Mathlib.Tactic.Common

set_option autoImplicit false

/-!
# Nested scopes and savepoints

Scopes of writes may be nested, and a scope that fails has no effect. A database session implements them with a
stack of savepoints: a savepoint is set at the beginning of a scope, a failed scope is rolled back to it, and it is
released at the end of the scope. The contents of the database are of any type, and a write is any function.

## Main definitions

* `Savepoints.Item`, `Savepoints.effects` — writes and nested scopes, and what they do.
* `Savepoints.Session`, `Savepoints.Statement`, `Savepoints.exec` — a connection, and what its statements do.
* `Savepoints.value`, `Savepoints.saved` — the contents within open scopes, and the savepoints of these scopes.
* `Savepoints.At` — a session within open scopes.

## Main results

* `Savepoints.At.savepoint`, `Savepoints.At.write`, `Savepoints.At.rollbackTo`, `Savepoints.At.release`,
  `Savepoints.At.commit` — the statements of a scope, one after the other.

## Design

`ROLLBACK TO` keeps the savepoint itself. `RELEASE` of the outermost savepoint commits. Without a savepoint, the
session is in autocommit mode. A statement with an unknown savepoint fails, and changes nothing.
-/

namespace Savepoints

variable {δ : Type}

/-- What the body of a scope does: it writes, or opens another scope, which fails or not. -/
inductive Item (δ : Type)
  | write (f : δ → δ)
  | scope (items : List (Item δ)) (failed : Bool)

mutual

/-- What an item does with the contents. Failed scopes do nothing. -/
def Item.effect : Item δ → δ → δ
  | .write f, d => f d
  | .scope items failed, d => if failed then d else effects items d

/-- What items do with the contents, one after the other. -/
def effects : List (Item δ) → δ → δ
  | [], d => d
  | item :: items, d => effects items (item.effect d)

end

lemma effects_append (before after : List (Item δ)) (d : δ) :
    effects (before ++ after) d = effects after (effects before d) := by
  induction before generalizing d with
  | nil => rw [List.nil_append, effects]
  | cons item items ih => rw [List.cons_append, effects, effects, ih]

lemma effects_concat (items : List (Item δ)) (item : Item δ) (d : δ) :
    effects (items ++ [item]) d = item.effect (effects items d) := by
  rw [effects_append, effects, effects]

/-! ## Sessions -/

/-- A connection that writes: what other connections see, what it sees itself, and its savepoints with what they
saved, the last one first. -/
structure Session (δ : Type) where
  committed : δ
  current : δ
  stack : List (ℕ × δ)

/-- The statements. -/
inductive Statement (δ : Type)
  | savepoint (name : ℕ)
  | rollbackTo (name : ℕ)
  | release (name : ℕ)
  | write (f : δ → δ)
  | select

/-- What a statement does. -/
def exec (s : Session δ) : Statement δ → Session δ
  | .savepoint name => { s with stack := (name, s.current) :: s.stack }
  | .rollbackTo name =>
    match s.stack.dropWhile (fun e => e.1 != name) with
    | [] => s
    | (n, saved) :: rest => { s with current := saved, stack := (n, saved) :: rest }
  | .release name =>
    match s.stack.dropWhile (fun e => e.1 != name) with
    | [] => s
    | [_] => { s with committed := s.current, stack := [] }
    | _ :: e :: rest => { s with stack := e :: rest }
  | .write f =>
    match s.stack with
    | [] => ⟨f s.current, f s.current, []⟩
    | _ :: _ => { s with current := f s.current }
  | .select => s

/-! ## Sessions within scopes -/

/-- The contents within open scopes, the innermost one first, each with its savepoint and its items so far. -/
def value (d : δ) : List (ℕ × List (Item δ)) → δ
  | [] => d
  | (_, items) :: scopes => effects items (value d scopes)

/-- The savepoints of open scopes: each saved the contents at the beginning of its scope. -/
def saved (d : δ) : List (ℕ × List (Item δ)) → List (ℕ × δ)
  | [] => []
  | (name, _) :: scopes => (name, value d scopes) :: saved d scopes

/-- A session within open scopes, with committed contents `d` and contents `v`. -/
structure At (d : δ) (scopes : List (ℕ × List (Item δ))) (v : δ) (s : Session δ) : Prop where
  committed : s.committed = d
  current : s.current = v
  stack : s.stack = saved d scopes

section At

variable {d v : δ} {scopes : List (ℕ × List (Item δ))} {s : Session δ} {name : ℕ} {items : List (Item δ)}

lemma At.savepoint (h : At d scopes (value d scopes) s) (name : ℕ) :
    At d ((name, []) :: scopes) (value d scopes) (exec s (.savepoint name)) := by
  refine ⟨h.committed, h.current, ?_⟩
  show (name, s.current) :: s.stack = (name, value d scopes) :: saved d scopes
  rw [h.current, h.stack]

lemma At.write (h : At d ((name, items) :: scopes) v s) (f : δ → δ) :
    At d ((name, items) :: scopes) (f v) (exec s (.write f)) := by
  have hstack : s.stack = (name, value d scopes) :: saved d scopes := h.stack
  refine ⟨?_, ?_, ?_⟩ <;> simp only [exec, hstack]
  · exact h.committed
  · rw [h.current]
  · rfl

lemma At.rollbackTo (h : At d ((name, items) :: scopes) v s) :
    At d ((name, items) :: scopes) (value d scopes) (exec s (.rollbackTo name)) := by
  have hstack : s.stack = (name, value d scopes) :: saved d scopes := h.stack
  refine ⟨?_, ?_, ?_⟩ <;> simp only [exec, hstack, List.dropWhile_cons, bne_self_eq_false, Bool.false_eq_true, if_false]
  · exact h.committed
  · rfl

lemma At.release {outer : ℕ × List (Item δ)} (h : At d ((name, items) :: outer :: scopes) v s) :
    At d (outer :: scopes) v (exec s (.release name)) := by
  have hstack : s.stack = (name, value d (outer :: scopes)) :: (outer.1, value d scopes) :: saved d scopes :=
    h.stack
  refine ⟨?_, ?_, ?_⟩ <;> simp only [exec, hstack, List.dropWhile_cons, bne_self_eq_false, Bool.false_eq_true, if_false]
  · exact h.committed
  · exact h.current
  · rfl

lemma At.commit (h : At d [(name, items)] v s) : At v [] v (exec s (.release name)) := by
  have hstack : s.stack = [(name, d)] := h.stack
  refine ⟨?_, ?_, ?_⟩ <;> simp only [exec, hstack, List.dropWhile_cons, bne_self_eq_false, Bool.false_eq_true, if_false]
  · exact h.current
  · exact h.current
  · rfl

lemma At.congr {items' : List (Item δ)} (h : At d ((name, items) :: scopes) v s) :
    At d ((name, items') :: scopes) v s :=
  ⟨h.committed, h.current, h.stack⟩

end At

end Savepoints
