import Chives.Types.Program

set_option autoImplicit false

/-!
# Programs as Python objects

How programs are read: `as_python`, the parts of the objects that it returns, the conversion of such objects into
programs, and the arguments of a curried program.

## Main definitions

* `PyObject`, `asPython` — the objects, and `as_python`.
* `PyObject.toProgram` — `Program.to`.
* `SExp.toList`, `SExp.uncurry` — lists that have an end, and curried programs.
-/

namespace Chives

/-- What `as_python` returns, and the parts of it. -/
inductive PyObject
  | int (n : ℕ)
  | bytes (b : Bytes)
  | list (elements : List PyObject)
  | tuple (left right : PyObject)

namespace PyObject

/-- `x[0]`. -/
def first : PyObject → Option PyObject
  | int _ => none
  | bytes b => b.head?.map fun n => int n.toNat
  | list elements => elements.head?
  | tuple left _ => some left

/-- `x[1]`. -/
def second : PyObject → Option PyObject
  | int _ => none
  | bytes b => b[1]?.map fun n => int n.toNat
  | list elements => elements[1]?
  | tuple _ right => some right

/-- `x[-1]`. -/
def last : PyObject → Option PyObject
  | int _ => none
  | bytes b => b.getLast?.map fun n => int n.toNat
  | list elements => elements.getLast?
  | tuple _ right => some right

/-- `len(x)`. -/
def len : PyObject → Option ℕ
  | int _ => none
  | bytes b => some b.length
  | list elements => some elements.length
  | tuple _ _ => some 2

/-- `bytes(x)`. -/
def toBytes : PyObject → Option Bytes
  | int n => some (List.replicate n 0)
  | bytes b => some b
  | list [] => some []
  | list (_ :: _) => none
  | tuple _ _ => none

/-- `x == b`, for bytes `b`. -/
def isBytes (b : Bytes) : PyObject → Bool
  | bytes c => c = b
  | _ => false

mutual

/-- `Program.to(x)`. -/
def toProgram : PyObject → SExp
  | int n => .atom (SExp.intToBytes n)
  | bytes b => .atom b
  | list elements => listToProgram elements
  | tuple left right => .pair (toProgram left) (toProgram right)

/-- `Program.to` of a list. -/
def listToProgram : List PyObject → SExp
  | [] => .nil
  | x :: l => .pair (toProgram x) (listToProgram l)

end

@[simp] lemma listToProgram_eq (l : List PyObject) : listToProgram l = SExp.ofList (l.map toProgram) := by
  induction l with
  | nil => rfl
  | cons x l ih => rw [listToProgram, ih, List.map_cons, SExp.ofList]

end PyObject

/-- `as_python`. -/
def asPython : SExp → PyObject
  | .atom b => .bytes b
  | .pair l r =>
    match asPython r with
    | .bytes [] => .list [asPython l]
    | .list elements => .list (asPython l :: elements)
    | right => .tuple (asPython l) right

namespace SExp

/-- `list(args.as_iter())`, of a list that has an end. -/
def toList : SExp → Option (List SExp)
  | atom b => if b = [] then some [] else none
  | pair x l => (toList l).map fun elements => x :: elements

@[simp] lemma toList_ofList (l : List SExp) : toList (ofList l) = some l := by
  induction l with
  | nil => rfl
  | cons x l ih => rw [ofList, toList, ih, Option.map_some]

/-- The arguments of a curried program. -/
def curriedArgs : SExp → Option (List SExp)
  | atom b => if b = [1] then some [] else none
  | pair (atom op) (pair (pair (atom q) arg) (pair core (atom []))) =>
    if op = [4] ∧ q = [1] then (curriedArgs core).map fun args => arg :: args else none
  | pair _ _ => none

/-- `uncurry` of `clvm_tools`, and `Program.uncurry`: a curried program and its arguments, or the program itself. -/
def uncurry : SExp → SExp × SExp
  | pair (atom op) (pair (pair (atom q) mod) (pair core (atom []))) =>
    if op = [2] ∧ q = [1] then
      match curriedArgs core with
      | some args => (mod, ofList args)
      | none => (pair (atom op) (pair (pair (atom q) mod) (pair core (atom []))), nil)
    else (pair (atom op) (pair (pair (atom q) mod) (pair core (atom []))), nil)
  | other => (other, nil)

end SExp

end Chives
