import Chives.Library.OrderedDict
import Chives.Types.PyObject

set_option autoImplicit false

/-!
# Information about puzzles

`PuzzleInfo` of `wallet/puzzle_drivers.py`: a dictionary of texts in the format of CLVM assembly, which are decoded when
they are read. Two of them are compared by the keys of the first one.

## Main definitions

* `InfoValue`, `PuzzleInfo` — the values of such dictionaries, and the class.
* `ClvmTools` — the functions of `clvm_tools`.
* `decodeText` — `decode_info_value`, of a text.
* `PuzzleInfo.eq` — the comparison.

## Design

A dictionary stands as the list of its items in the order of their keys, since nothing depends on another order. The
comparison catches all exceptions, so that it is a truth value: what cannot be decoded is not equal to anything.
-/

namespace Chives

/-- A value of a `PuzzleInfo`. -/
inductive InfoValue
  | text (s : String)
  | list (l : List InfoValue)
  | dict (d : List (String × InfoValue))

/-- `PuzzleInfo`. Its constructor refuses dictionaries without a type. -/
structure PuzzleInfo where
  info : List (String × InfoValue)
  hasType : "type" ∈ info.map Prod.fst

/-- How `type_for_atom` classifies atoms. -/
inductive AtomType
  | quotes
  | int
  | hex
  deriving DecidableEq

/-- The functions of `clvm_tools` that are used. -/
structure ClvmTools where
  assemble : String → Except PyError SExp
  disassemble : SExp → String
  typeForAtom : Bytes → AtomType

/-- What a text is decoded to. -/
inductive InfoAtom
  | program (s : SExp)
  | str (s : List CodePoint)
  | int (n : ℤ)
  | bytes (b : Bytes)
  deriving DecidableEq

/-- `Program.to`, of a decoded text. A string that was decoded can be encoded. -/
def InfoAtom.toProgram : InfoAtom → SExp
  | program s => s
  | str s => .atom (match strEncode s with
    | .ok b => b
    | .error _ => [])
  | int n => .atom (SExp.intToBytes n)
  | bytes b => .atom b

/-- `==`, of decoded texts. A `Program` is compared with what it is when it is converted. -/
def InfoAtom.eq : InfoAtom → InfoAtom → Bool
  | .program s, x => decide (s = x.toProgram)
  | x, .program s => decide (x.toProgram = s)
  | x, y => decide (x = y)

section Decode

variable (T : ClvmTools)

/-- `decode_info_value`, of a text. -/
def decodeText (value : String) : Except PyError InfoAtom :=
  if value = "()" then .ok (.program SExp.nil)
  else do
    let expression ← T.assemble value
    match expression with
    | .pair first rest => pure (.program (.pair first rest))
    | .atom atom =>
      match T.typeForAtom atom with
      | .quotes => do
        let s ← strDecode atom
        pure (.str s)
      | .int => pure (.int (SExp.intFromBytes atom))
      | .hex => pure (.bytes atom)

namespace InfoValue

mutual

/-- `decode_info_value` raises nothing. The values of a dictionary are decoded when they are read. -/
def decodes : InfoValue → Bool
  | text s => (decodeText T s).isOk
  | list l => decodesAll l
  | dict d => decide ("type" ∈ d.map Prod.fst)

/-- All values of a list can be decoded. -/
def decodesAll : List InfoValue → Bool
  | [] => true
  | v :: l => decodes v && decodesAll l

end

mutual

/-- `Program.to`, of a decoded value. A `PuzzleInfo` cannot be converted. -/
def toProgram : InfoValue → Option SExp
  | text s => (decodeText T s).toOption.map InfoAtom.toProgram
  | list l => (toPrograms l).map SExp.ofList
  | dict _ => none

/-- The elements of a list that is converted. -/
def toPrograms : List InfoValue → Option (List SExp)
  | [] => some []
  | v :: l => do
    let s ← toProgram v
    let more ← toPrograms l
    pure (s :: more)

end

/-- `==`, of a decoded text and a decoded list. Only a `Program` can be equal to a list. -/
def eqTextList (s : String) (l : List InfoValue) : Bool :=
  match decodeText T s with
  | .ok (.program p) => decide (toProgram T (.list l) = some p)
  | _ => false

mutual

/-- `==`, of decoded values. -/
def eq : InfoValue → InfoValue → Bool
  | text s, text t =>
    match decodeText T s, decodeText T t with
    | .ok x, .ok y => x.eq y
    | _, _ => false
  | text s, list l => eqTextList T s l
  | list l, text s => eqTextList T s l
  | list l, list m => eqList l m
  | dict d, dict e => eqDict d e
  | _, _ => false

/-- `==`, of lists. -/
def eqList : List InfoValue → List InfoValue → Bool
  | [], [] => true
  | v :: l, w :: m => eq v w && eqList l m
  | _, _ => false

/-- `PuzzleInfo.__eq__`: for every key of the first one there is an equal value. -/
def eqDict : List (String × InfoValue) → List (String × InfoValue) → Bool
  | [], _ => true
  | (key, v) :: d, e =>
    (match Assoc.lookup e key with
      | some w => decodes T v && decodes T w && eq v w
      | none => false) && eqDict d e

end

end InfoValue

/-- `PuzzleInfo.__eq__`. -/
def PuzzleInfo.eq (p q : PuzzleInfo) : Bool := InfoValue.eqDict T p.info q.info

end Decode

end Chives
