import Chives.Clvm.Operators
import Chives.Types.TreeHash

set_option autoImplicit false

/-!
# Hashes of curried programs

`wallet/puzzles/curry-and-treehash.clinc`: a puzzle computes the hash of a curried program from the hashes of
the program and of its parameters.

## Main definitions

* `puzzleHashOfCurriedFunction` — the hash of a curried program.
* `calculateCoinId` — the id of a coin.
* `curriedMessages` — what is hashed for the hash of a curried program.

## Main results

* `treeHash_curry` — the hash of a curried program is computed from the hashes of its parts.
* `treeHashes_agree` — recursion, stack machine and puzzle compute the same hashes.
* `eq_curry_of_treeHash` — a program with such a hash is a curried program.

## Design

A hash that a puzzle is given may be any byte string, so the functions take byte strings. That a parameter hash
has 32 bytes is part of the result.
-/

namespace Chives

open SExp

section Code

variable (sha256 : Bytes → Bytes32)

/-- `A_KW`. -/
def aKw : Bytes := [2]

/-- `Q_KW`. -/
def qKw : Bytes := [1]

/-- `C_KW`. -/
def cKw : Bytes := [4]

/-- `update-hash-for-parameter-hash` and `tree-hash-of-apply`, which differ in the keyword only: the hash of
`(kw (q . P) E)`. -/
def hashOfQuotedCall (kw hash environmentHash : Bytes) : Bytes32 :=
  sha256 (pairMessage (sha256 (atomMessage kw)).bytes
    (sha256 (pairMessage (sha256 (pairMessage (sha256 (atomMessage qKw)).bytes hash)).bytes
      (sha256 (pairMessage environmentHash (sha256 (atomMessage [])).bytes)).bytes)).bytes)

/-- `update-hash-for-parameter-hash`. -/
def updateHashForParameterHash (parameterHash environmentHash : Bytes) : Bytes32 :=
  hashOfQuotedCall sha256 cKw parameterHash environmentHash

/-- `build-curry-list`. -/
def buildCurryList (reversedCurryParameterHashes : List Bytes) (environmentHash : Bytes32) : Bytes32 :=
  match reversedCurryParameterHashes with
  | [] => environmentHash
  | parameterHash :: rest =>
    buildCurryList rest (updateHashForParameterHash sha256 parameterHash environmentHash.bytes)

/-- `tree-hash-of-apply`. -/
def treeHashOfApply (functionHash environmentHash : Bytes) : Bytes32 :=
  hashOfQuotedCall sha256 aKw functionHash environmentHash

/-- `puzzle-hash-of-curried-function`. -/
def puzzleHashOfCurriedFunction (functionHash : Bytes) (reversedCurryParameterHashes : List Bytes) : Bytes32 :=
  treeHashOfApply sha256 functionHash
    (buildCurryList sha256 reversedCurryParameterHashes (sha256 (atomMessage [1]))).bytes

/-- `calculate_coin_id`. -/
def calculateCoinId (parent puzzlehash amount : SExp) : Eval Bytes32 := do
  let parent ← parent.asAtom
  let puzzlehash ← puzzlehash.asAtom
  let amount ← amount.asAtom
  clvmAssert (parent.length = 32 && puzzlehash.length = 32 && decide (intFromBytes amount > -1))
  pure (sha256 (parent ++ puzzlehash ++ amount))

/-! ## What is hashed -/

/-- What is hashed for `(kw (q . P) E)`, given the hashes of `P` and `E`. -/
def quotedCallMessages (kw hash environmentHash : Bytes) : List Bytes :=
  let quoted := pairMessage (sha256 (atomMessage qKw)).bytes hash
  let last := pairMessage environmentHash (sha256 (atomMessage [])).bytes
  let args := pairMessage (sha256 quoted).bytes (sha256 last).bytes
  [atomMessage kw, atomMessage qKw, quoted, atomMessage [], last, args,
    pairMessage (sha256 (atomMessage kw)).bytes (sha256 args).bytes]

/-- What `build-curry-list` hashes. -/
def curryListMessages (hashes : List Bytes) (environmentHash : Bytes32) : List Bytes :=
  match hashes with
  | [] => []
  | h :: hashes => quotedCallMessages sha256 cKw h environmentHash.bytes ++
      curryListMessages hashes (updateHashForParameterHash sha256 h environmentHash.bytes)

/-- What `puzzle-hash-of-curried-function` hashes. -/
def curriedMessages (functionHash : Bytes) (hashes : List Bytes) : List Bytes :=
  atomMessage [1] :: (curryListMessages sha256 hashes (sha256 (atomMessage [1])) ++
    quotedCallMessages sha256 aKw functionHash
      (buildCurryList sha256 hashes (sha256 (atomMessage [1]))).bytes)

end Code

section TreeHash

variable {sha256 : Bytes → Bytes32}

lemma buildCurryList_append (l : List Bytes) (h : Bytes) (env : Bytes32) :
    buildCurryList sha256 (l ++ [h]) env =
      updateHashForParameterHash sha256 h (buildCurryList sha256 l env).bytes := by
  induction l generalizing env with
  | nil => rfl
  | cons x l ih => exact ih _

/-- **The hash of a curried program** is the one that the puzzles compute. -/
theorem treeHash_curry (mod : SExp) (args : List SExp) :
    (curry mod args).treeHash sha256 = puzzleHashOfCurriedFunction sha256 (mod.treeHash sha256).bytes
      (args.reverse.map fun a => (a.treeHash sha256).bytes) := by
  have henv : (args.foldr (fun arg env => ofList [.atom [4], .pair (.atom [1]) arg, env]) (.atom [1])).treeHash
      sha256 = buildCurryList sha256 (args.reverse.map fun a => (a.treeHash sha256).bytes)
        (sha256 (atomMessage [1])) := by
    induction args with
    | nil => rfl
    | cons a args ih =>
      rw [List.reverse_cons, List.map_append, List.map_singleton, buildCurryList_append, ← ih]
      rfl
  rw [puzzleHashOfCurriedFunction, ← henv]
  rfl

end TreeHash

section Inversion

variable {sha256 : Bytes → Bytes32} {M : Set Bytes} (hM : Set.InjOn sha256 M)

/-- **All tree-hash computations agree.** The stack machine stops for every tree and every set of
precalculated atoms, with the hash that the recursion computes; and what the puzzles compute from the hashes
of a function and of its parameters, last parameter first, is the hash of the curried function. -/
theorem treeHashes_agree (sha256 : Bytes → Bytes32) :
    (∀ (t : SExp) (precalculated : Finset Bytes32), ∃ h, t.treeHashFrom sha256 precalculated = .ok h ∧
      ∃ n, ∀ fuel ≥ n, TreeHash.sha256Treehash sha256 precalculated fuel t = .ok h) ∧
    (∀ t : SExp, t.treeHashFrom sha256 ∅ = .ok (t.treeHash sha256)) ∧
    ∀ (f : SExp) (params : List SExp), (curry f params).treeHash sha256 =
      puzzleHashOfCurriedFunction sha256 (f.treeHash sha256).bytes
        (params.reverse.map fun p => (p.treeHash sha256).bytes) := by
  refine ⟨fun t precalculated => ?_, treeHashFrom_empty sha256, treeHash_curry⟩
  obtain ⟨h, ht⟩ := exists_treeHashFrom sha256 precalculated t
  exact ⟨h, ht, TreeHash.rounds t, fun fuel hfuel => (TreeHash.sha256Treehash_eq t hfuel).trans ht⟩

lemma calculateCoinId_eq_ok {parent puzzlehash amount : SExp} {id : Bytes32}
    (h : calculateCoinId sha256 parent puzzlehash amount = .ok id) :
    ∃ p ph a, parent = .atom p ∧ puzzlehash = .atom ph ∧ amount = .atom a ∧ p.length = 32 ∧ ph.length = 32 ∧
      id = sha256 (p ++ ph ++ a) := by
  simp only [calculateCoinId, ExceptRun.bind_eq_ok, asAtom_eq_ok, clvmAssert_eq_ok, Bool.and_eq_true,
    decide_eq_true_eq, ExceptRun.pure_eq, Except.ok.injEq] at h
  obtain ⟨p, rfl, ph, rfl, a, rfl, -, ⟨⟨hp, hph⟩, -⟩, rfl⟩ := h
  exact ⟨p, ph, a, rfl, rfl, rfl, hp, hph, rfl⟩

include hM

/-- **A tree with the hash of `(kw (q . P) E)` is of that form.** -/
lemma eq_quotedCall_of_treeHash {s : SExp} (hs : s.HashedIn sha256 M) {kw hash : Bytes} {env : Bytes32}
    (hm : ∀ m ∈ quotedCallMessages sha256 kw hash env.bytes, m ∈ M)
    (h : s.treeHash sha256 = hashOfQuotedCall sha256 kw hash env.bytes) :
    ∃ p e, s = ofList [.atom kw, .pair (.atom qKw) p, e] ∧ (p.treeHash sha256).bytes = hash ∧
      e.treeHash sha256 = env ∧ p.HashedIn sha256 M ∧ e.HashedIn sha256 M := by
  simp only [quotedCallMessages, List.forall_mem_cons] at hm
  obtain ⟨hkw, hq, hquoted, hnil, hlast, hargs, hall, -⟩ := hm
  obtain ⟨a, t, rfl, ha, ht, haM, htM⟩ := exists_pair_of_treeHash hM hs (Bytes32.length_eq _) hall h
  obtain ⟨b, u, rfl, hb, hu, hbM, huM⟩ :=
    exists_pair_of_treeHash hM htM (Bytes32.length_eq _) hargs (Bytes32.ext ht)
  obtain ⟨c, p, rfl, hc, hp, hcM, hpM⟩ :=
    exists_pair_of_treeHash hM hbM (Bytes32.length_eq _) hquoted (Bytes32.ext hb)
  obtain ⟨e, v, rfl, he, hv, heM, hvM⟩ :=
    exists_pair_of_treeHash hM huM (Bytes32.length_eq _) hlast (Bytes32.ext hu)
  rw [eq_atom_of_treeHash hM haM hkw (Bytes32.ext ha), eq_atom_of_treeHash hM hcM hq (Bytes32.ext hc),
    eq_atom_of_treeHash hM hvM hnil (Bytes32.ext hv)]
  exact ⟨p, e, rfl, hp, Bytes32.ext he, hpM, heM⟩

/-- The environment of a curried program is read off its hash.

**Proof sketch.** Induction on the hashes, with the environment so far as the accumulator: the tree for the
remaining hashes ends in a tree for that environment, and the next parameter is taken off there. -/
lemma exists_of_buildCurryList {s : SExp} (hs : s.HashedIn sha256 M) {hashes : List Bytes} {env : Bytes32}
    (hm : ∀ m ∈ curryListMessages sha256 hashes env, m ∈ M)
    (h : s.treeHash sha256 = buildCurryList sha256 hashes env) :
    ∃ (args : List SExp) (e : SExp), s = args.foldr (fun arg t => ofList [.atom cKw, .pair (.atom qKw) arg, t]) e ∧
      (args.reverse.map fun a => (a.treeHash sha256).bytes) = hashes ∧ e.treeHash sha256 = env ∧
      e.HashedIn sha256 M := by
  induction hashes generalizing env with
  | nil => exact ⟨[], s, rfl, rfl, h, hs⟩
  | cons hash hashes ih =>
    simp only [curryListMessages, List.mem_append] at hm
    obtain ⟨args, e, rfl, hargs, he, heM⟩ := ih (fun m hmem => hm m (Or.inr hmem)) h
    obtain ⟨p, e', rfl, hp, he', -, heM'⟩ :=
      eq_quotedCall_of_treeHash hM heM (fun m hmem => hm m (Or.inl hmem)) he
    refine ⟨args ++ [p], e', ?_, ?_, he', heM'⟩
    · rw [List.foldr_append]
      rfl
    · rw [List.reverse_append, List.map_append, hargs]
      simp [hp]

/-- **A program with the hash of a curried program is a curried program**, with parameters that have the
given hashes. -/
theorem eq_curry_of_treeHash {s : SExp} (hs : s.HashedIn sha256 M) {functionHash : Bytes} {hashes : List Bytes}
    (hm : ∀ m ∈ curriedMessages sha256 functionHash hashes, m ∈ M)
    (h : s.treeHash sha256 = puzzleHashOfCurriedFunction sha256 functionHash hashes) :
    ∃ mod args, s = curry mod args ∧ (mod.treeHash sha256).bytes = functionHash ∧
      (args.reverse.map fun a => (a.treeHash sha256).bytes) = hashes := by
  simp only [curriedMessages, List.mem_cons, List.mem_append] at hm
  obtain ⟨mod, e, rfl, hmod, he, -, heM⟩ :=
    eq_quotedCall_of_treeHash hM hs (fun m hmem => hm m (Or.inr (Or.inr hmem))) h
  obtain ⟨args, e', rfl, hargs, he', heM'⟩ :=
    exists_of_buildCurryList hM heM (fun m hmem => hm m (Or.inr (Or.inl hmem))) he
  obtain rfl := eq_atom_of_treeHash hM heM' (hm _ (Or.inl rfl)) he'
  exact ⟨mod, args, rfl, hmod, hargs⟩

end Inversion

end Chives
