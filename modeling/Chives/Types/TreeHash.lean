import Mathlib.Data.Finset.Image
import Chives.Types.Program

set_option autoImplicit false

/-!
# Tree hashes by recursion and by a stack machine

`_tree_hash` of `types/blockchain_format/program.py` and `sha256_treehash` of
`types/blockchain_format/tree_hash.py`, both with a set of atoms that count as hashes already.

## Main definitions

* `SExp.treeHashFrom` — the recursion.
* `TreeHash.step`, `TreeHash.sha256Treehash` — the stack machine.

## Main results

* `TreeHash.run_handleSexp` — the machine replaces a tree on its stack by the hash of the tree.
* `TreeHash.sha256Treehash_eq` — the machine computes what the recursion does.
-/

namespace Chives

open ExceptRun

variable (sha256 : Bytes → Bytes32) (precalculated : Finset Bytes32)

/-- `_tree_hash`. -/
def SExp.treeHashFrom : SExp → Except PyError Bytes32
  | .pair first rest => do
    let left ← treeHashFrom first
    let right ← treeHashFrom rest
    .ok (sha256 (pairMessage left.bytes right.bytes))
  | .atom b =>
    if b ∈ precalculated.image Bytes32.bytes then Bytes32.new b
    else .ok (sha256 (atomMessage b))

lemma SExp.exists_treeHashFrom (t : SExp) : ∃ h, t.treeHashFrom sha256 precalculated = .ok h := by
  induction t with
  | atom b =>
    unfold treeHashFrom
    split
    · next hmem =>
      obtain ⟨h, -, rfl⟩ := Finset.mem_image.mp hmem
      exact ⟨_, dif_pos h.length_eq⟩
    · exact ⟨_, rfl⟩
  | pair l r ihl ihr =>
    obtain ⟨left, hl⟩ := ihl
    obtain ⟨right, hr⟩ := ihr
    exact ⟨_, by rw [treeHashFrom, hl, ok_bind, hr, ok_bind]⟩

lemma SExp.treeHashFrom_empty (t : SExp) : t.treeHashFrom sha256 ∅ = .ok (t.treeHash sha256) := by
  induction t with
  | atom b => simp [treeHashFrom, treeHash]
  | pair l r ihl ihr => rw [treeHashFrom, ihl, ok_bind, ihr, ok_bind, treeHash]

namespace TreeHash

/-- What lies on `sexp_stack`: trees that are still to be hashed, and hashes. -/
inductive Item
  | sexp (tree : SExp)
  | hash (bytes : Bytes)

/-- What lies on `op_stack`. -/
inductive Op
  | handleSexp
  | handlePair
  | roll

/-- The two stacks, top first. -/
structure Machine where
  sexpStack : List Item
  opStack : List Op

/-- `handle_sexp`. A hash has no `pair`, which counts as a type error here. -/
def handleSexp : Machine → Except PyError Machine
  | ⟨.sexp (.pair p0 p1) :: sexps, ops⟩ =>
    .ok ⟨.sexp p1 :: .sexp p0 :: sexps, .handleSexp :: .roll :: .handleSexp :: .handlePair :: ops⟩
  | ⟨.sexp (.atom b) :: sexps, ops⟩ =>
    let r := if b ∈ precalculated.image Bytes32.bytes then b else (sha256 (SExp.atomMessage b)).bytes
    .ok ⟨.hash r :: sexps, ops⟩
  | ⟨.hash _ :: _, _⟩ => .error .typeError
  | ⟨[], _⟩ => .error .indexError

/-- `handle_pair`. A tree cannot be added to a byte string. -/
def handlePair : Machine → Except PyError Machine
  | ⟨.hash p0 :: .hash p1 :: sexps, ops⟩ =>
    .ok ⟨.hash (sha256 (SExp.pairMessage p0 p1)).bytes :: sexps, ops⟩
  | ⟨_ :: _ :: _, _⟩ => .error .typeError
  | _ => .error .indexError

/-- `roll`. -/
def roll : Machine → Except PyError Machine
  | ⟨p0 :: p1 :: sexps, ops⟩ => .ok ⟨p1 :: p0 :: sexps, ops⟩
  | _ => .error .indexError

/-- `op(sexp_stack, op_stack, precalculated)`. -/
def Op.call : Op → Machine → Except PyError Machine
  | .handleSexp => TreeHash.handleSexp sha256 precalculated
  | .handlePair => TreeHash.handlePair sha256
  | .roll => TreeHash.roll

/-- `while len(op_stack) > 0`, for at most `fuel` rounds. -/
def run : ℕ → Machine → Except PyError (List Item)
  | _, ⟨sexps, []⟩ => .ok sexps
  | 0, ⟨_, _ :: _⟩ => .error .divergence
  | fuel + 1, ⟨sexps, op :: ops⟩ => do
    let m ← op.call sha256 precalculated ⟨sexps, ops⟩
    run fuel m

/-- `sha256_treehash`, for at most `fuel` rounds of its loop. -/
def sha256Treehash (fuel : ℕ) (sexp : SExp) : Except PyError Bytes32 := do
  let sexps ← run sha256 precalculated fuel ⟨[.sexp sexp], [.handleSexp]⟩
  match sexps.getLast? with
  | some (.hash h) => Bytes32.new h
  | some (.sexp _) => .error .typeError
  | none => .error .indexError

/-- The rounds that a tree takes. -/
def rounds : SExp → ℕ
  | .atom _ => 1
  | .pair l r => rounds l + rounds r + 3

variable {sha256} {precalculated}

/-- **The machine replaces a tree by its hash**, and goes on with the operations below.

**Proof sketch.** Induction on the tree. For a pair, the operations pushed by `handle_sexp` hash the
second part, exchange it with the first, hash that one, and combine the two hashes. -/
lemma run_handleSexp {t : SExp} {h : Bytes32} (ht : t.treeHashFrom sha256 precalculated = .ok h)
    (fuel : ℕ) (sexps : List Item) (ops : List Op) :
    run sha256 precalculated (fuel + rounds t) ⟨.sexp t :: sexps, .handleSexp :: ops⟩ =
      run sha256 precalculated fuel ⟨.hash h.bytes :: sexps, ops⟩ := by
  induction t generalizing h fuel sexps ops with
  | atom b =>
    have hbytes : (if b ∈ precalculated.image Bytes32.bytes then b else (sha256 (SExp.atomMessage b)).bytes) =
        h.bytes := by
      unfold SExp.treeHashFrom at ht
      split at ht
      · next hmem =>
        unfold Bytes32.new at ht
        split at ht
        · cases ht
          rw [if_pos hmem]
        · cases ht
      · next hmem =>
        cases ht
        rw [if_neg hmem]
    simp only [rounds, run, Op.call, handleSexp, ok_bind, hbytes]
  | pair l r ihl ihr =>
    obtain ⟨left, hl⟩ := SExp.exists_treeHashFrom sha256 precalculated l
    obtain ⟨right, hr⟩ := SExp.exists_treeHashFrom sha256 precalculated r
    have hh : sha256 (SExp.pairMessage left.bytes right.bytes) = h := by
      rw [SExp.treeHashFrom, hl, ok_bind, hr, ok_bind] at ht
      exact Except.ok.inj ht
    have hrounds : fuel + rounds (.pair l r) = fuel + 1 + rounds l + 1 + rounds r + 1 := by
      rw [rounds]
      omega
    rw [hrounds, run]
    simp only [Op.call, handleSexp, ok_bind]
    rw [ihr hr, run]
    simp only [Op.call, roll, ok_bind]
    rw [ihl hl, run]
    simp only [Op.call, handlePair, ok_bind, hh]

/-- **The stack machine computes the recursive hash**, in a number of rounds that the tree bounds. -/
lemma sha256Treehash_eq (t : SExp) {fuel : ℕ} (hfuel : rounds t ≤ fuel) :
    sha256Treehash sha256 precalculated fuel t = t.treeHashFrom sha256 precalculated := by
  obtain ⟨h, ht⟩ := SExp.exists_treeHashFrom sha256 precalculated t
  obtain ⟨extra, rfl⟩ := Nat.exists_eq_add_of_le' hfuel
  have hrun := run_handleSexp ht extra [] []
  rw [sha256Treehash, hrun, ht]
  cases extra <;> exact dif_pos h.length_eq

end TreeHash

end Chives
