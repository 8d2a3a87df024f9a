import Chives.Library.BitString
import Chives.Types.SizedBytes

set_option autoImplicit false

/-!
# Merkle sets

`util/merkle_set.py`: sets of 32-byte values as binary tries with a hash in every node, proofs that a
value is in a set or is not, and the functions that check such proofs against a root.

## Main definitions

* `MerkleSet.Node` — the nodes of a tree, and of the partial trees that proofs describe.
* `MerkleSet.middleNode` — the constructor of inner nodes, which takes the hash of a subtree with
  two leaves as its own.
* `MerkleSet.Node.add`, `MerkleSet.Node.isIncluded` — the methods of the nodes.
* `MerkleSet.addAll`, `MerkleSet.getRoot` — building a set and its root.
* `MerkleSet.deserializeProof`, `MerkleSet.confirm` — reading and checking a proof.

## Design

SHA-256 is a parameter. `add` returns `none` for a node that returns itself, since the source compares
nodes by identity. A position in a proof is a number, and a slice beyond the end is short.
-/

namespace Chives.MerkleSet

open ExceptRun BitString

/-- How the functions fail: with `SetError`, or with another exception. -/
inductive Failure
  | setError
  | raised (e : PyError)
  deriving DecidableEq, Repr

/-- `assert c`. -/
def check (c : Prop) [Decidable c] : Except Failure Unit :=
  if c then .ok () else .error (.raised .assertionError)

/-- `EMPTY`. -/
def EMPTY : UInt8 := 0

/-- `TERMINAL`. -/
def TERMINAL : UInt8 := 1

/-- `MIDDLE`. -/
def MIDDLE : UInt8 := 2

/-- `TRUNCATED`. -/
def TRUNCATED : UInt8 := 3

/-- `BLANK`. -/
def BLANK : Bytes32 := Bytes32.zero

/-- The message that `hashdown` hashes. -/
def hashdownMessage (mystr : Bytes) : Bytes :=
  List.replicate 30 0 ++ (mystr.take 1 ++ (mystr.drop 33).take 1) ++
    ((mystr.drop 1).take 32 ++ mystr.drop 34)

/-- `hashdown`. There is a prehashed prefix for every pair of the three types. -/
def hashdown (sha256 : Bytes → Bytes32) (mystr : Bytes) : Except Failure Bytes := do
  let _ ← check (mystr.length = 66)
  let key := mystr.take 1 ++ (mystr.drop 33).take 1
  if key.all fun t => t = EMPTY ∨ t = TERMINAL ∨ t = MIDDLE then
    return (sha256 (hashdownMessage mystr)).bytes
  else throw (.raised .keyError)

/-- `compress_root`. -/
def compressRoot (sha256 : Bytes → Bytes32) (mystr : Bytes) : Except Failure Bytes32 := do
  let _ ← check (mystr.length = 33)
  if mystr.take 1 = [MIDDLE] then (Bytes32.new (mystr.drop 1)).mapError .raised
  else if mystr.take 1 = [EMPTY] then do
    let _ ← check (mystr.drop 1 = BLANK.bytes)
    return BLANK
  else return sha256 mystr

/-- `get_bit`. -/
def getBit (mybytes : Bytes32) (pos : ℕ) : Except Failure Bool :=
  match mybytes.bytes[pos / 8]? with
  | some x => .ok (x.toNat.testBit (7 - pos % 8))
  | none => .error (.raised .indexError)

/-! ## Nodes -/

/-- `EmptyNode`, `TerminalNode`, `MiddleNode` and `TruncatedNode`. -/
inductive Node
  | empty
  | terminal (hash : Bytes32)
  | middle (child0 child1 : Node) (hash : Bytes)
  | truncated (hash : Bytes)
  deriving DecidableEq

namespace Node

/-- The attribute `hash`. -/
def hash : Node → Bytes
  | empty => BLANK.bytes
  | terminal h => h.bytes
  | middle _ _ h => h
  | truncated h => h

/-- `get_hash`. -/
def getHash : Node → Bytes
  | empty => EMPTY :: BLANK.bytes
  | terminal h => TERMINAL :: h.bytes
  | middle _ _ h => MIDDLE :: h
  | truncated h => MIDDLE :: h

/-- `is_empty`. -/
def isEmpty : Node → Bool
  | empty => true
  | _ => false

/-- `is_terminal`. -/
def isTerminal : Node → Bool
  | terminal _ => true
  | _ => false

/-- `is_double`. -/
def isDouble : Node → Except Failure Bool
  | empty => .error .setError
  | terminal _ => .error .setError
  | middle c0 c1 _ =>
    if c0.isEmpty then isDouble c1
    else if c1.isEmpty then isDouble c0
    else .ok (c0.isTerminal && c1.isTerminal)
  | truncated _ => .ok false

end Node

/-- `children[i].is_empty() and children[j].is_double()`. -/
def besideEmpty (a b : Node) : Except Failure Bool :=
  if a.isEmpty then b.isDouble else .ok false

/-- The checks of `MiddleNode.__init__` on children that are not collapsed. -/
def badChildren (c0 c1 : Node) : Prop :=
  (c0.isEmpty ∧ (c1.isEmpty ∨ c1.isTerminal)) ∨ (c1.isEmpty ∧ c0.isTerminal) ∨
    (c0.isTerminal ∧ c1.isTerminal ∧ c1.hash ≤ c0.hash)

instance (c0 c1 : Node) : Decidable (badChildren c0 c1) := inferInstanceAs (Decidable (_ ∨ _))

/-- `MiddleNode(children)`. -/
def middleNode (sha256 : Bytes → Bytes32) (c0 c1 : Node) : Except Failure Node := do
  if ← besideEmpty c0 c1 then return .middle c0 c1 c1.hash
  else if ← besideEmpty c1 c0 then return .middle c0 c1 c0.hash
  else if badChildren c0 c1 then throw .setError
  else do
    let hash ← hashdown sha256 (c0.getHash ++ c1.getHash)
    return .middle c0 c1 hash

/-- `_make_middle` on two terminal nodes. `get_bit` raises at depth 256, which the first argument counts
down to. -/
def makeMiddleFrom (sha256 : Bytes → Bytes32) (a b : Bytes32) : ℕ → ℕ → Except Failure Node
  | 0, _ => .error (.raised .indexError)
  | n + 1, depth => do
    let abit ← getBit a depth
    let bbit ← getBit b depth
    if abit ≠ bbit then middleNode sha256 (.terminal a) (.terminal b)
    else do
      let next ← makeMiddleFrom sha256 a b n (depth + 1)
      if abit then middleNode sha256 .empty next else middleNode sha256 next .empty

/-- `_make_middle([TerminalNode(a), TerminalNode(b)], depth)`. -/
def makeMiddle (sha256 : Bytes → Bytes32) (a b : Bytes32) (depth : ℕ) : Except Failure Node :=
  makeMiddleFrom sha256 a b (256 - depth) depth

namespace Node

/-- `add`: the new node, or `none` for a node that returns itself. -/
def add (sha256 : Bytes → Bytes32) (toadd : Bytes32) : Node → ℕ → Except Failure (Option Node)
  | empty, _ => .ok (some (terminal toadd))
  | terminal h, depth =>
    if toadd = h then .ok none
    else if h.bytes < toadd.bytes then (makeMiddle sha256 h toadd depth).map some
    else (makeMiddle sha256 toadd h depth).map some
  | middle c0 c1 _, depth => do
    let bit ← getBit toadd depth
    if bit then
      match ← add sha256 toadd c1 (depth + 1) with
      | none => return none
      | some c => (middleNode sha256 c0 c).map some
    else
      match ← add sha256 toadd c0 (depth + 1) with
      | none => return none
      | some c => (middleNode sha256 c c1).map some
  | truncated _, _ => .ok none

/-- What `is_included` appends to the proof for the sibling of the path, `other_included`: a subtree is
cut off unless it has two leaves and `collapse` is not asked for; `whole` is what `is_included` appends for
it. -/
def otherIncluded (whole : Except Failure Bytes) (node : Node) (collapse : Bool) :
    Except Failure Bytes :=
  match node with
  | empty => .ok [EMPTY]
  | terminal h => .ok (TERMINAL :: h.bytes)
  | truncated h => .ok (TRUNCATED :: h)
  | middle c0 c1 h => do
    if collapse then return TRUNCATED :: h
    else if ← (middle c0 c1 h).isDouble then whole
    else return TRUNCATED :: h

/-- `is_included`, with what it appends to the proof. -/
def isIncluded (tocheck : Bytes32) : Node → ℕ → Except Failure (Bool × Bytes)
  | empty, _ => .ok (false, [EMPTY])
  | terminal h, _ => .ok (tocheck = h, TERMINAL :: h.bytes)
  | middle c0 c1 _, depth => do
    let bit ← getBit tocheck depth
    if bit then do
      let other ← otherIncluded ((isIncluded tocheck c0 (depth + 1)).map Prod.snd) c0 (!c1.isEmpty)
      let (r, path) ← isIncluded tocheck c1 (depth + 1)
      return (r, MIDDLE :: (other ++ path))
    else do
      let (r, path) ← isIncluded tocheck c0 (depth + 1)
      let other ← otherIncluded ((isIncluded tocheck c1 (depth + 1)).map Prod.snd) c1 (!c0.isEmpty)
      return (r, MIDDLE :: (path ++ other))
  | truncated _, _ => .error .setError

end Node

/-! ## Sets -/

/-- `MerkleSet.get_root`. -/
def getRoot (sha256 : Bytes → Bytes32) (root : Node) : Except Failure Bytes32 :=
  compressRoot sha256 root.getHash

/-- `MerkleSet.add_already_hashed`. -/
def addAlreadyHashed (sha256 : Bytes → Bytes32) (root : Node) (toadd : Bytes32) :
    Except Failure Node := do
  let new ← root.add sha256 toadd 0
  return new.getD root

/-- Adding values one by one. -/
def addAllTo (sha256 : Bytes → Bytes32) (root : Node) (values : List Bytes32) : Except Failure Node :=
  values.foldlM (addAlreadyHashed sha256) root

/-- Adding values one by one to an empty set. -/
def addAll (sha256 : Bytes → Bytes32) (values : List Bytes32) : Except Failure Node :=
  addAllTo sha256 .empty values

/-- `MerkleSet.is_included_already_hashed`. -/
def isIncludedAlreadyHashed (root : Node) (tocheck : Bytes32) : Except Failure (Bool × Bytes) :=
  root.isIncluded tocheck 0

/-! ## Proofs -/

/-- `TerminalNode._audit`: the value has the bits of the path to it. -/
def audit (hash : Bytes32) : ℕ → List Bool → Except Failure Unit
  | _, [] => .ok ()
  | pos, v :: bits => do
    let bit ← getBit hash pos
    let _ ← check (bit = v)
    audit hash (pos + 1) bits

/-- `TerminalNode(hash, bits)`. -/
def terminalNode (hash : Bytes) (bits : List Bool) : Except Failure Node :=
  if h : hash.length = 32 then do
    let _ ← audit ⟨hash, h⟩ 0 bits
    return .terminal ⟨hash, h⟩
  else .error (.raised .assertionError)

/-- `proof[pos : pos + n]`. -/
def slice (proof : Bytes) (pos n : ℕ) : Bytes := (proof.drop pos).take n

/-- `_deserialize`. Every call reads at least one byte, so the depth of the recursion is bounded by the
length of the proof. -/
def deserializeFrom (sha256 : Bytes → Bytes32) (proof : Bytes) :
    ℕ → ℕ → List Bool → Except Failure (Node × ℕ)
  | 0, _, _ => .error (.raised .divergence)
  | fuel + 1, pos, bits =>
    let t := slice proof pos 1
    if t = [EMPTY] then .ok (.empty, pos + 1)
    else if t = [TERMINAL] then do
      let node ← terminalNode (slice proof (pos + 1) 32) bits
      return (node, pos + 33)
    else if t = [TRUNCATED] then .ok (.truncated (slice proof (pos + 1) 32), pos + 33)
    else if t ≠ [MIDDLE] then .error .setError
    else do
      let (v0, pos) ← deserializeFrom sha256 proof fuel (pos + 1) (bits ++ [false])
      let (v1, pos) ← deserializeFrom sha256 proof fuel pos (bits ++ [true])
      let node ← middleNode sha256 v0 v1
      return (node, pos)

/-- `except IndexError: raise SetError()`. -/
def indexToSetError : Failure → Failure
  | .raised .indexError => .setError
  | e => e

/-- `deserialize_proof`. -/
def deserializeProof (sha256 : Bytes → Bytes32) (proof : Bytes) : Except Failure Node :=
  Except.mapError indexToSetError do
    let (r, pos) ← deserializeFrom sha256 proof (proof.length + 1) 0 []
    if pos ≠ proof.length then throw .setError
    else return r

/-- The body of `_confirm`. -/
def confirmProof (sha256 : Bytes → Bytes32) (root val : Bytes32) (proof : Bytes) (expected : Bool) :
    Except Failure Bool := do
  let p ← deserializeProof sha256 proof
  let root' ← getRoot sha256 p
  if root' ≠ root then return false
  else do
    let (r, _) ← isIncludedAlreadyHashed p val
    return r == expected

/-- `_confirm`. -/
def confirm (sha256 : Bytes → Bytes32) (root val : Bytes32) (proof : Bytes) (expected : Bool) :
    Except Failure Bool :=
  match confirmProof sha256 root val proof expected with
  | .error .setError => .ok false
  | result => result

/-- `confirm_included_already_hashed`. -/
def confirmIncludedAlreadyHashed (sha256 : Bytes → Bytes32) (root val : Bytes32) (proof : Bytes) :
    Except Failure Bool :=
  confirm sha256 root val proof true

/-- `confirm_not_included_already_hashed`. -/
def confirmNotIncludedAlreadyHashed (sha256 : Bytes → Bytes32) (root val : Bytes32) (proof : Bytes) :
    Except Failure Bool :=
  confirm sha256 root val proof false

end Chives.MerkleSet
