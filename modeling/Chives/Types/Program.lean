import Chives.Types.SizedBytes

set_option autoImplicit false

/-!
# Programs and their hashes

CLVM values, and the parts of `types/blockchain_format/program.py` and `tree_hash.py` that the puzzles
depend on: lists and atoms, `curry`, and the tree hash.

## Main definitions

* `SExp`, `SExp.treeHash`, `SExp.curry` — values, `sha256_treehash` and `curry`.
* `SExp.asIter`, `SExp.asAtomList` — how lists and conditions are read.
* `SExp.HashedIn` — what is hashed for a tree is in a set.

## Main results

* `SExp.exists_pair_of_treeHash`, `SExp.eq_atom_of_treeHash` — a tree is read off its hash,
  level by level.
* `SExp.treeHash_inj` — trees with the same hash are equal.

## Design

No function into 32 bytes is injective, so the results ask only that SHA-256 does not collide on a set of
messages, and that what is hashed is in that set.
-/

namespace Chives

/-- A CLVM value. -/
inductive SExp
  | atom (bytes : Bytes)
  | pair (first rest : SExp)
  deriving DecidableEq

namespace SExp

/-- The empty atom, which ends lists. -/
def nil : SExp := atom []

/-- A list of values. -/
def ofList : List SExp → SExp
  | [] => nil
  | x :: l => pair x (ofList l)

/-- `int_from_bytes` of `clvm.casts`. -/
def intFromBytes (b : Bytes) : ℤ := BigEndian.ofBytesSigned b

/-- `int_to_bytes` of `clvm.casts`. -/
def intToBytes (n : ℤ) : Bytes := BigEndian.toBytesMinimal n

@[simp] lemma intFromBytes_intToBytes (n : ℤ) : intFromBytes (intToBytes n) = n :=
  BigEndian.ofBytesSigned_toBytesMinimal n

/-- `as_iter`: the elements of a list, up to whatever ends it. -/
def asIter : SExp → List SExp
  | atom _ => []
  | pair x l => x :: asIter l

/-- `as_atom_list`: the atoms at the start of a list. -/
def asAtomList : SExp → List Bytes
  | pair (atom b) l => b :: asAtomList l
  | _ => []

@[simp] lemma asIter_ofList (l : List SExp) : asIter (ofList l) = l := by
  induction l with
  | nil => rfl
  | cons x l ih => rw [ofList, asIter, ih]

/-! ## Tree hashes -/

/-- What is hashed for an atom. -/
def atomMessage (b : Bytes) : Bytes := 1 :: b

/-- What is hashed for a pair. -/
def pairMessage (l r : Bytes) : Bytes := 2 :: (l ++ r)

/-- `sha256_treehash`. -/
def treeHash (sha256 : Bytes → Bytes32) : SExp → Bytes32
  | atom b => sha256 (atomMessage b)
  | pair l r => sha256 (pairMessage (treeHash sha256 l).bytes (treeHash sha256 r).bytes)

/-- `Program.curry`. -/
def curry (mod : SExp) (args : List SExp) : SExp :=
  ofList [atom [2], pair (atom [1]) mod,
    args.foldr (fun arg env => ofList [atom [4], pair (atom [1]) arg, env]) (atom [1])]

section HashedIn

variable (sha256 : Bytes → Bytes32) (M : Set Bytes)

/-- What is hashed for the tree is in `M`. -/
def HashedIn : SExp → Prop
  | atom b => atomMessage b ∈ M
  | pair l r => pairMessage (treeHash sha256 l).bytes (treeHash sha256 r).bytes ∈ M ∧
      HashedIn l ∧ HashedIn r

/-- What is hashed for a tree. -/
def treeMessages : SExp → List Bytes
  | atom b => [atomMessage b]
  | pair l r => pairMessage (treeHash sha256 l).bytes (treeHash sha256 r).bytes ::
      (treeMessages l ++ treeMessages r)

end HashedIn

section Inversion

variable {sha256 : Bytes → Bytes32} {M : Set Bytes} {s s' : SExp}

lemma hashedIn_of_treeMessages (h : ∀ m ∈ treeMessages sha256 s, m ∈ M) : s.HashedIn sha256 M := by
  induction s with
  | atom b => exact h _ (List.mem_singleton.mpr rfl)
  | pair l r ihl ihr =>
    simp only [treeMessages, List.forall_mem_cons, List.forall_mem_append] at h
    exact ⟨h.1, ihl h.2.1, ihr h.2.2⟩

lemma hashedIn_of_curry {mod : SExp} {args : List SExp} (h : (curry mod args).HashedIn sha256 M) :
    mod.HashedIn sha256 M ∧ ∀ a ∈ args, a.HashedIn sha256 M := by
  obtain ⟨-, -, -, ⟨-, -, hmod⟩, -, henv, -⟩ := h
  refine ⟨hmod, ?_⟩
  clear hmod
  induction args with
  | nil => simp
  | cons a args ih =>
    obtain ⟨-, -, -, ⟨-, -, ha⟩, -, hrest, -⟩ := henv
    intro b hb
    rcases List.mem_cons.mp hb with rfl | hb
    · exact ha
    · exact ih hrest b hb

/-- **A tree with the hash of a pair is a pair.** -/
theorem exists_pair_of_treeHash (hM : Set.InjOn sha256 M) (hs : s.HashedIn sha256 M) {l r : Bytes}
    (hl : l.length = 32) (hm : pairMessage l r ∈ M) (h : s.treeHash sha256 = sha256 (pairMessage l r)) :
    ∃ a b, s = pair a b ∧ (a.treeHash sha256).bytes = l ∧ (b.treeHash sha256).bytes = r ∧
      a.HashedIn sha256 M ∧ b.HashedIn sha256 M := by
  cases s with
  | atom c =>
    have heq := hM hs hm h
    cases (List.cons.inj heq).1
  | pair a b =>
    obtain ⟨hab, ha, hb⟩ := hs
    have heq := hM hab hm h
    obtain ⟨hal, hbr⟩ := List.append_inj (List.cons.inj heq).2 ((treeHash sha256 a).length_eq.trans hl.symm)
    exact ⟨a, b, rfl, hal, hbr, ha, hb⟩

/-- **A tree with the hash of an atom is the atom.** -/
theorem eq_atom_of_treeHash (hM : Set.InjOn sha256 M) (hs : s.HashedIn sha256 M) {b : Bytes}
    (hm : atomMessage b ∈ M) (h : s.treeHash sha256 = sha256 (atomMessage b)) : s = atom b := by
  cases s with
  | atom c =>
    have heq := hM hs hm h
    rw [(List.cons.inj heq).2]
  | pair l r =>
    have heq := hM hs.1 hm h
    cases (List.cons.inj heq).1

/-- **Trees with the same hash are equal.** -/
theorem treeHash_inj (hM : Set.InjOn sha256 M) (hs : s.HashedIn sha256 M) (hs' : s'.HashedIn sha256 M)
    (h : s.treeHash sha256 = s'.treeHash sha256) : s = s' := by
  induction s' generalizing s with
  | atom b => exact eq_atom_of_treeHash hM hs hs' h
  | pair l r ihl ihr =>
    obtain ⟨a, b, rfl, hal, hbr, ha, hb⟩ :=
      exists_pair_of_treeHash hM hs (treeHash sha256 l).length_eq hs'.1 h
    rw [ihl ha hs'.2.1 (Bytes32.ext hal), ihr hb hs'.2.2 (Bytes32.ext hbr)]

end Inversion

end SExp

end Chives
