set_option autoImplicit false

/-!
# Exceptions

The exceptions a modelled function of the source can raise. Only the class of the exception is
kept, since callers catch exceptions by class and never look at the message.

## Main definitions

* `PyError` — the exception classes.
* `pyAssert`, `pyDiv`, `pyMod`, `pySome`, `pyLast`,
  `pyIndex` — expressions of the source that may raise.
-/

namespace Chives

/-- The exception classes raised by the modelled code. `divergence` is not an exception of the
source: it marks a `while` loop that would never end. -/
inductive PyError
  | assertionError
  | valueError
  | keyError
  | indexError
  | typeError
  | overflowError
  | unicodeError
  | zeroDivisionError
  | integrityError
  | notImplementedError
  | divergence
  deriving DecidableEq, Repr

/-- `assert c`. -/
def pyAssert (c : Prop) [Decidable c] : Except PyError Unit :=
  if c then .ok () else .error .assertionError

theorem pyAssert_eq_ok {c : Prop} [Decidable c] {u : Unit} : pyAssert c = .ok u ↔ c := by
  unfold pyAssert
  by_cases h : c <;> simp [h]

/-- `a // b`, which rounds down. -/
def pyDiv (a b : Int) : Except PyError Int :=
  if b = 0 then .error .zeroDivisionError else .ok (a.fdiv b)

/-- `a % b`, which has the sign of `b`. -/
def pyMod (a b : Int) : Except PyError Int :=
  if b = 0 then .error .zeroDivisionError else .ok (a.fmod b)

/-- `x`, where the source goes on under `assert x is not None`. -/
def pySome {α : Type} : Option α → Except PyError α
  | some x => .ok x
  | none => .error .assertionError

theorem pySome_eq_ok {α : Type} {o : Option α} {x : α} : pySome o = .ok x ↔ o = some x := by
  cases o <;> simp [pySome]

/-- `l[-1]`. -/
def pyLast {α : Type} (l : List α) : Except PyError α :=
  match l.getLast? with
  | some x => .ok x
  | none => .error .indexError

/-- `l[i]` for an index that is not negative. -/
def pyIndex {α : Type} (l : List α) (i : Nat) : Except PyError α :=
  match l[i]? with
  | some x => .ok x
  | none => .error .indexError

theorem pyIndex_eq_ok {α : Type} {l : List α} {i : Nat} {x : α} : pyIndex l i = .ok x ↔ l[i]? = some x := by
  rw [pyIndex]
  cases l[i]? <;> simp

end Chives
