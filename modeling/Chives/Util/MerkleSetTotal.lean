import Chives.Util.MerkleSetProofs

set_option autoImplicit false

/-!
# Proofs that are not proofs

`_confirm` of `util/merkle_set.py` is given a byte string by a peer. It catches `SetError`, and the reader turns an
`IndexError` into one, but the reader and the hashing also check what they read with `assert`, and looking for the value
comes after the reader. This file says which byte strings make the check raise.

## Main definitions

* `MerkleSet.ReadsAt` — a tree stands at a position of a byte string, in the format of proofs.
* `MerkleSet.Trips` — the reader comes to a place where an assertion fails.
* `MerkleSet.pathLength` — how many inner nodes there are on the path of a value.

## Main results

* `MerkleSet.deserializeFrom_assertion_iff` — when the reader fails its assertion.
* `MerkleSet.ReadsAt.isIncluded_cases` — when the search for a value runs out of bits.
* `MerkleSet.confirm_returns_iff` — when the check returns.

## Design

The format is a relation between a path, a position, a tree and the position after it, so that the order in which the
bytes are read plays a part only for a byte string that is not a proof.
-/

namespace Chives.MerkleSet

open ExceptRun BitString

/-! ## The format -/

section Format

variable (sha256 : Bytes → Bytes32) (proof : Bytes)

/-- A tree stands at a position of a byte string, on the path with the given bits; the last argument is the position
after it. -/
inductive ReadsAt : List Bool → ℕ → Node → ℕ → Prop
  | empty {bits : List Bool} {pos : ℕ} (htag : proof[pos]? = some EMPTY) : ReadsAt bits pos .empty (pos + 1)
  | terminal {bits : List Bool} {pos : ℕ} {a : Bytes32} (htag : proof[pos]? = some TERMINAL)
      (hvalue : slice proof (pos + 1) 32 = a.bytes) (hbits : HasBits bits a) (hlen : bits.length ≤ 256) :
      ReadsAt bits pos (.terminal a) (pos + 33)
  | truncated {bits : List Bool} {pos : ℕ} (htag : proof[pos]? = some TRUNCATED) :
      ReadsAt bits pos (.truncated (slice proof (pos + 1) 32)) (pos + 33)
  | middle {bits : List Bool} {pos pos0 pos1 : ℕ} {c0 c1 n : Node} (htag : proof[pos]? = some MIDDLE)
      (h0 : ReadsAt (bits ++ [false]) (pos + 1) c0 pos0) (h1 : ReadsAt (bits ++ [true]) pos0 c1 pos1)
      (hnode : middleNode sha256 c0 c1 = .ok n) : ReadsAt bits pos n pos1

/-- The reader comes to a place where an assertion fails: a value that is cut short or does not have the bits of its
path, or a subtree on the right whose hash is cut short. -/
inductive Trips : List Bool → ℕ → Prop
  | short {bits : List Bool} {pos : ℕ} (htag : proof[pos]? = some TERMINAL) (hlen : proof.length < pos + 33) :
      Trips bits pos
  | astray {bits : List Bool} {pos i : ℕ} {a : Bytes32} {v : Bool} (htag : proof[pos]? = some TERMINAL)
      (hvalue : slice proof (pos + 1) 32 = a.bytes) (hi : i < 256) (hv : bits[i]? = some v) (hne : bit a i ≠ v) :
      Trips bits pos
  | cut {bits : List Bool} {pos pos0 : ℕ} {c0 : Node} (htag : proof[pos]? = some MIDDLE)
      (h0 : ReadsAt sha256 proof (bits ++ [false]) (pos + 1) c0 pos0) (htag1 : proof[pos0]? = some TRUNCATED)
      (hlen : proof.length < pos0 + 33) : Trips bits pos
  | left {bits : List Bool} {pos : ℕ} (htag : proof[pos]? = some MIDDLE)
      (h : Trips (bits ++ [false]) (pos + 1)) : Trips bits pos
  | right {bits : List Bool} {pos pos0 : ℕ} {c0 : Node} (htag : proof[pos]? = some MIDDLE)
      (h0 : ReadsAt sha256 proof (bits ++ [false]) (pos + 1) c0 pos0) (h : Trips (bits ++ [true]) pos0) :
      Trips bits pos

end Format

/-- The number of inner nodes on the path of a value, from a depth on. -/
def pathLength (v : Bytes32) : Node → ℕ → ℕ
  | .middle c0 c1 _, d => (if bit v d then pathLength v c1 (d + 1) else pathLength v c0 (d + 1)) + 1
  | _, _ => 0

/-! ## The reader -/

section Audit

variable {a : Bytes32} {bits : List Bool}

lemma audit_of_ne {pos i : ℕ} {v : Bool} (hi : pos + i < 256) (hv : bits[i]? = some v) (hne : bit a (pos + i) ≠ v) :
    audit a pos bits = .error (.raised .assertionError) := by
  induction bits generalizing pos i with
  | nil => simp at hv
  | cons b bits ih =>
    unfold audit
    rw [getBit_eq_ok a (by omega), ok_bind, check]
    by_cases hb : bit a pos = b
    · rw [if_pos hb, ok_bind]
      cases i with
      | zero => simp_all
      | succ i =>
        have hpos : pos + (i + 1) = pos + 1 + i := by omega
        rw [hpos] at hi hne
        exact ih hi (by simpa using hv) hne
    · rw [if_neg hb, error_bind]

/-- What `_audit` does: it accepts, or a bit is wrong, or the path has more bits than the value. -/
lemma audit_cases (a : Bytes32) (bits : List Bool) (pos : ℕ) : audit a pos bits = .ok () ∨
    (audit a pos bits = .error (.raised .assertionError) ∧
      ∃ i v, pos + i < 256 ∧ bits[i]? = some v ∧ bit a (pos + i) ≠ v) ∨
    audit a pos bits = .error (.raised .indexError) := by
  induction bits generalizing pos with
  | nil => simp [audit]
  | cons b bits ih =>
    unfold audit
    by_cases hpos : pos < 256
    · rw [getBit_eq_ok a hpos, ok_bind, check]
      by_cases hb : bit a pos = b
      · rw [if_pos hb, ok_bind]
        rcases ih (pos + 1) with h | ⟨h, i, v, hi, hv, hne⟩ | h
        · exact .inl h
        · have heq : pos + (i + 1) = pos + 1 + i := by omega
          exact .inr (.inl ⟨h, i + 1, v, by omega, by simpa using hv, by rwa [heq]⟩)
        · exact .inr (.inr h)
      · rw [if_neg hb, error_bind]
        exact .inr (.inl ⟨rfl, 0, b, by omega, rfl, by simpa using hb⟩)
    · have hnone : a.bytes[pos / 8]? = none := List.getElem?_eq_none (by rw [a.length_eq]; omega)
      rw [getBit, hnone, error_bind]
      exact .inr (.inr rfl)

end Audit

lemma slice_one_eq (proof : Bytes) (pos : ℕ) : slice proof pos 1 = (proof[pos]?).toList := by
  rw [slice]
  cases h : proof[pos]? with
  | none =>
    rw [List.drop_eq_nil_of_le (List.getElem?_eq_none_iff.mp h)]
    rfl
  | some b =>
    obtain ⟨hlt, rfl⟩ := List.getElem?_eq_some_iff.mp h
    rw [List.drop_eq_getElem_cons hlt]
    rfl

lemma length_slice (proof : Bytes) (pos n : ℕ) : (slice proof pos n).length = min n (proof.length - pos) := by
  simp [slice]

section Read

variable {sha256 : Bytes → Bytes32} {proof : Bytes} {bits : List Bool} {pos pos' fuel : ℕ} {n c0 c1 : Node}

section

variable (h : ReadsAt sha256 proof bits pos n pos')

include h

lemma ReadsAt.lt : pos < pos' := by
  induction h with
  | empty => omega
  | terminal => omega
  | truncated => omega
  | middle => omega

lemma ReadsAt.built : Built sha256 bits n := by
  induction h with
  | empty => exact .empty
  | terminal _ _ hbits => exact .terminal hbits
  | truncated => exact .truncated (List.length_take_le _ _)
  | middle _ _ _ hnode ih0 ih1 =>
    rcases middleNode_cases hnode ih0.length_hash.1 ih1.length_hash.1 with
      ⟨-, -, rfl⟩ | ⟨-, -, rfl⟩ | ⟨-, -, -, -, rfl⟩
    all_goals exact .middle ih0 ih1 hnode

lemma ReadsAt.length_hash (hend : pos' ≤ proof.length) : n.hash.length = 32 := by
  by_cases hcut : ∃ t, n = .truncated t
  · cases h with
    | truncated =>
      rw [Node.hash, length_slice]
      omega
    | middle _ h0 h1 hnode =>
      obtain ⟨t, rfl⟩ := hcut
      rcases middleNode_cases hnode h0.built.length_hash.1 h1.built.length_hash.1 with
        ⟨-, -, heq⟩ | ⟨-, -, heq⟩ | ⟨-, -, -, -, heq⟩
      all_goals cases heq
    | empty => rfl
    | terminal => exact Bytes32.length_eq _
  · exact h.built.length_hash.2 fun t ht => hcut ⟨t, ht⟩

/-- The reader reads what stands there.

**Proof sketch.** Induction on the tree. The second child begins after the first one, so that fuel for the rest of the
byte string is enough for it. -/
lemma ReadsAt.deserializeFrom (fuel : ℕ) (hfuel : proof.length < fuel + pos) :
    deserializeFrom sha256 proof fuel pos bits = .ok (n, pos') := by
  induction h generalizing fuel with
  | @empty bits pos htag =>
    obtain ⟨hlt, -⟩ := List.getElem?_eq_some_iff.mp htag
    obtain ⟨fuel, rfl⟩ : ∃ k, fuel = k + 1 := ⟨fuel - 1, by omega⟩
    simp [MerkleSet.deserializeFrom, slice_one_eq, htag]
  | @terminal bits pos a htag hvalue hbits hlen =>
    obtain ⟨hlt, -⟩ := List.getElem?_eq_some_iff.mp htag
    obtain ⟨fuel, rfl⟩ : ∃ k, fuel = k + 1 := ⟨fuel - 1, by omega⟩
    have haudit : audit a 0 bits = .ok () := by
      rw [audit_eq_ok (by omega)]
      simpa [HasBits] using hbits
    have hnode : terminalNode a.bytes bits = .ok (.terminal a) := by
      unfold terminalNode
      rw [dif_pos a.length_eq, haudit]
      rfl
    simp [MerkleSet.deserializeFrom, slice_one_eq, htag, hvalue, hnode, TERMINAL, EMPTY]
  | @truncated bits pos htag =>
    obtain ⟨hlt, -⟩ := List.getElem?_eq_some_iff.mp htag
    obtain ⟨fuel, rfl⟩ : ∃ k, fuel = k + 1 := ⟨fuel - 1, by omega⟩
    simp [MerkleSet.deserializeFrom, slice_one_eq, htag, TERMINAL, EMPTY, TRUNCATED]
  | @middle bits pos pos0 pos1 c0 c1 n htag h0 h1 hnode ih0 ih1 =>
    obtain ⟨hlt, -⟩ := List.getElem?_eq_some_iff.mp htag
    obtain ⟨fuel, rfl⟩ : ∃ k, fuel = k + 1 := ⟨fuel - 1, by omega⟩
    have hpos := h0.lt
    simp [MerkleSet.deserializeFrom, slice_one_eq, htag, TERMINAL, EMPTY, TRUNCATED, MIDDLE,
      ih0 fuel (by omega), ih1 fuel (by omega), hnode]

end

/-- `is_double` fails with `SetError` only. -/
lemma isDouble_error {e : Failure} (h : n.isDouble = .error e) : e = .setError := by
  induction n with
  | empty => exact (Except.error.inj h).symm
  | terminal => exact (Except.error.inj h).symm
  | truncated => cases h
  | middle c0 c1 _ ih0 ih1 =>
    unfold Node.isDouble at h
    split at h
    · exact ih1 h
    split at h
    · exact ih0 h
    · cases h

/-- `MiddleNode` fails with `SetError`, or with an assertion if a hash is cut short. -/
lemma middleNode_error {e : Failure} (h : middleNode sha256 c0 c1 = .error e) :
    e = .setError ∨ ¬(c0.hash.length = 32 ∧ c1.hash.length = 32) := by
  have hbeside : ∀ {a b : Node} {e : Failure}, besideEmpty a b = .error e → e = .setError := by
    intro a b e he
    unfold besideEmpty at he
    split at he
    · exact isDouble_error he
    · cases he
  by_cases hlen : c0.hash.length = 32 ∧ c1.hash.length = 32
  · refine .inl ?_
    unfold middleNode at h
    rcases bind_eq_error.mp h with h | ⟨r, -, h⟩
    · exact hbeside h
    split at h
    · cases h
    rcases bind_eq_error.mp h with h | ⟨r', -, h⟩
    · exact hbeside h
    split at h
    · cases h
    split at h
    · exact (Except.error.inj h).symm
    · rw [hashdown_getHash hlen.1 hlen.2] at h
      cases h
  · exact .inr hlen

/-- `MiddleNode` does not take a child on the right whose hash is cut short. -/
lemma middleNode_cut {t : Bytes} (h0 : c0.hash.length = 32) (ht : t.length < 32) :
    middleNode sha256 c0 (.truncated t) = .error (.raised .assertionError) := by
  have hlen : (c0.getHash ++ (Node.truncated t).getHash).length ≠ 66 := by
    have hcut : (Node.truncated t).hash = t := rfl
    simp only [Node.getHash_eq, List.length_append, List.length_cons, h0, hcut]
    omega
  have hbeside : besideEmpty c0 (.truncated t) = .ok false := by
    unfold besideEmpty
    split <;> rfl
  unfold middleNode
  rw [hbeside, ok_bind, if_neg (by simp), show besideEmpty (.truncated t) c0 = .ok false from rfl, ok_bind,
    if_neg (by simp), if_neg (by simp [badChildren, Node.isEmpty, Node.isTerminal]), hashdown, check,
    if_neg hlen]
  rfl

lemma ReadsAt.eq_truncated (h : ReadsAt sha256 proof bits pos n pos') (hlen : n.hash.length ≠ 32) :
    proof[pos]? = some TRUNCATED ∧ proof.length < pos + 33 ∧ n = .truncated (slice proof (pos + 1) 32) := by
  cases h with
  | empty => exact absurd rfl hlen
  | terminal => exact absurd (Bytes32.length_eq _) hlen
  | truncated htag =>
    refine ⟨htag, ?_, rfl⟩
    rw [Node.hash, length_slice] at hlen
    omega
  | middle htag h0 h1 hnode =>
    have hbuilt := (ReadsAt.middle htag h0 h1 hnode).built
    rcases middleNode_cases hnode h0.built.length_hash.1 h1.built.length_hash.1 with
      ⟨-, -, rfl⟩ | ⟨-, -, rfl⟩ | ⟨-, -, -, -, rfl⟩
    all_goals exact absurd (hbuilt.length_hash.2 nofun) hlen

/-- An assertion fails where the reader comes to such a place.

**Proof sketch.** Induction on the way to the place, with the trees before it read by the reader. -/
lemma Trips.deserializeFrom (h : Trips sha256 proof bits pos) (fuel : ℕ) (hfuel : proof.length < fuel + pos) :
    deserializeFrom sha256 proof fuel pos bits = .error (.raised .assertionError) := by
  induction h generalizing fuel with
  | @short bits pos htag hlen =>
    obtain ⟨hlt, -⟩ := List.getElem?_eq_some_iff.mp htag
    obtain ⟨fuel, rfl⟩ : ∃ k, fuel = k + 1 := ⟨fuel - 1, by omega⟩
    have hnode : terminalNode (slice proof (pos + 1) 32) bits = .error (.raised .assertionError) := by
      unfold terminalNode
      rw [dif_neg]
      rw [length_slice]
      omega
    simp [MerkleSet.deserializeFrom, slice_one_eq, htag, TERMINAL, EMPTY, hnode]
  | @astray bits pos i a v htag hvalue hi hv hne =>
    obtain ⟨hlt, -⟩ := List.getElem?_eq_some_iff.mp htag
    obtain ⟨fuel, rfl⟩ : ∃ k, fuel = k + 1 := ⟨fuel - 1, by omega⟩
    have hnode : terminalNode a.bytes bits = .error (.raised .assertionError) := by
      unfold terminalNode
      rw [dif_pos a.length_eq, audit_of_ne (by omega) hv (by rwa [Nat.zero_add])]
      rfl
    simp [MerkleSet.deserializeFrom, slice_one_eq, htag, TERMINAL, EMPTY, hvalue, hnode]
  | @cut bits pos pos0 c0 htag h0 htag1 hlen =>
    obtain ⟨hlt, -⟩ := List.getElem?_eq_some_iff.mp htag
    obtain ⟨hlt1, -⟩ := List.getElem?_eq_some_iff.mp htag1
    obtain ⟨fuel, rfl⟩ : ∃ k, fuel = k + 1 := ⟨fuel - 1, by omega⟩
    have hpos := h0.lt
    have hright : ReadsAt sha256 proof (bits ++ [true]) pos0 _ _ := .truncated htag1
    have hcut := hright.deserializeFrom fuel (by omega)
    have hnode : middleNode sha256 c0 (.truncated (slice proof (pos0 + 1) 32)) =
        .error (.raised .assertionError) := middleNode_cut (h0.length_hash hlt1.le) (by rw [length_slice]; omega)
    simp [MerkleSet.deserializeFrom, slice_one_eq, htag, TERMINAL, EMPTY, TRUNCATED, MIDDLE,
      h0.deserializeFrom fuel (by omega), hcut, hnode]
  | @left bits pos htag _ ih =>
    obtain ⟨hlt, -⟩ := List.getElem?_eq_some_iff.mp htag
    obtain ⟨fuel, rfl⟩ : ∃ k, fuel = k + 1 := ⟨fuel - 1, by omega⟩
    simp [MerkleSet.deserializeFrom, slice_one_eq, htag, TERMINAL, EMPTY, TRUNCATED, MIDDLE,
      ih fuel (by omega)]
  | @right bits pos pos0 c0 htag h0 _ ih =>
    obtain ⟨hlt, -⟩ := List.getElem?_eq_some_iff.mp htag
    obtain ⟨fuel, rfl⟩ : ∃ k, fuel = k + 1 := ⟨fuel - 1, by omega⟩
    have hpos := h0.lt
    simp [MerkleSet.deserializeFrom, slice_one_eq, htag, TERMINAL, EMPTY, TRUNCATED, MIDDLE,
      h0.deserializeFrom fuel (by omega), ih fuel (by omega)]

/-- **What the reader does**: it reads a tree, or an assertion fails, or it raises what `deserialize_proof` turns into
`SetError`.

**Proof sketch.** Induction on the fuel, which is never used up, with a case for each tag. An inner node fails after its
children only for a hash that is cut short, and the first child was read before the last byte. -/
theorem deserializeFrom_cases (sha256 : Bytes → Bytes32) (proof : Bytes) (fuel pos : ℕ) (bits : List Bool)
    (hpos : 0 < fuel) (hfuel : proof.length < fuel + pos) :
    (∃ n pos', deserializeFrom sha256 proof fuel pos bits = .ok (n, pos') ∧ ReadsAt sha256 proof bits pos n pos') ∨
      (deserializeFrom sha256 proof fuel pos bits = .error (.raised .assertionError) ∧ Trips sha256 proof bits pos) ∨
      deserializeFrom sha256 proof fuel pos bits = .error .setError ∨
      deserializeFrom sha256 proof fuel pos bits = .error (.raised .indexError) := by
  induction fuel generalizing pos bits with
  | zero => omega
  | succ fuel ih =>
    cases htag : proof[pos]? with
    | none =>
      refine .inr (.inr (.inl ?_))
      simp [deserializeFrom, slice_one_eq, htag]
    | some t =>
      obtain ⟨hlt, -⟩ := List.getElem?_eq_some_iff.mp htag
      by_cases h0 : t = EMPTY
      · subst h0
        have hread : ReadsAt sha256 proof bits pos _ _ := .empty htag
        exact .inl ⟨_, _, hread.deserializeFrom _ hfuel, hread⟩
      by_cases h1 : t = TERMINAL
      · subst h1
        by_cases hshort : proof.length < pos + 33
        · have htrip : Trips sha256 proof bits pos := .short htag hshort
          exact .inr (.inl ⟨htrip.deserializeFrom _ hfuel, htrip⟩)
        have hlen : (slice proof (pos + 1) 32).length = 32 := by
          rw [length_slice]
          omega
        have hvalue : slice proof (pos + 1) 32 = (⟨_, hlen⟩ : Bytes32).bytes := rfl
        rcases audit_cases ⟨_, hlen⟩ bits 0 with haudit | ⟨-, i, v, hi, hv, hne⟩ | haudit
        · have hbits := length_le_of_audit haudit (Nat.zero_le 256)
          rw [Nat.zero_add] at hbits
          have hhas : HasBits bits ⟨_, hlen⟩ := by
            simpa [HasBits] using (audit_eq_ok (by omega)).mp haudit
          have hread : ReadsAt sha256 proof bits pos _ _ := .terminal htag hvalue hhas hbits
          exact .inl ⟨_, _, hread.deserializeFrom _ hfuel, hread⟩
        · rw [Nat.zero_add] at hi hne
          have htrip : Trips sha256 proof bits pos := .astray htag hvalue hi hv hne
          exact .inr (.inl ⟨htrip.deserializeFrom _ hfuel, htrip⟩)
        · refine .inr (.inr (.inr ?_))
          have hnode : terminalNode (slice proof (pos + 1) 32) bits = .error (.raised .indexError) := by
            unfold terminalNode
            rw [dif_pos hlen, haudit]
            rfl
          simp [deserializeFrom, slice_one_eq, htag, TERMINAL, EMPTY, hnode]
      by_cases h2 : t = TRUNCATED
      · subst h2
        have hread : ReadsAt sha256 proof bits pos _ _ := .truncated htag
        exact .inl ⟨_, _, hread.deserializeFrom _ hfuel, hread⟩
      by_cases h3 : t = MIDDLE
      · subst h3
        have hstep : deserializeFrom sha256 proof (fuel + 1) pos bits = (do
            let r0 ← deserializeFrom sha256 proof fuel (pos + 1) (bits ++ [false])
            let r1 ← deserializeFrom sha256 proof fuel r0.2 (bits ++ [true])
            let node ← middleNode sha256 r0.1 r1.1
            return (node, r1.2)) := by
          simp [deserializeFrom, slice_one_eq, htag, TERMINAL, EMPTY, TRUNCATED, MIDDLE]
        rw [hstep]
        rcases ih (pos + 1) (bits ++ [false]) (by omega) (by omega) with
          ⟨c0, pos0, hread0, h0⟩ | ⟨hread0, htrip⟩ | hread0 | hread0
        · have hpos0 := h0.lt
          rcases ih pos0 (bits ++ [true]) (by omega) (by omega) with
            ⟨c1, pos1, hread1, h1⟩ | ⟨hread1, htrip⟩ | hread1 | hread1
          · simp only [hread0, hread1, ok_bind]
            cases hnode : middleNode sha256 c0 c1 with
            | ok n => exact .inl ⟨n, pos1, rfl, .middle htag h0 h1 hnode⟩
            | error e =>
              rcases middleNode_error hnode with rfl | hlen
              · exact .inr (.inr (.inl rfl))
              · -- the first child ends where the second one begins, so the hash of the second one is cut short
                have hfirst : pos0 ≤ proof.length := by
                  by_contra hgt
                  have hnone : proof[pos0]? = none := List.getElem?_eq_none (by omega)
                  cases h1 <;> simp_all
                have hlen0 := h0.length_hash hfirst
                obtain ⟨htag1, hend, rfl⟩ := h1.eq_truncated fun hlen1 => hlen ⟨hlen0, hlen1⟩
                have htrip := Trips.cut htag h0 htag1 hend
                rw [middleNode_cut hlen0 (by rw [length_slice]; omega)] at hnode
                rw [← Except.error.inj hnode]
                exact .inr (.inl ⟨rfl, htrip⟩)
          · simp only [hread0, hread1, ok_bind, error_bind]
            exact .inr (.inl ⟨trivial, .right htag h0 htrip⟩)
          · simp [hread0, hread1]
          · simp [hread0, hread1]
        · simp only [hread0, error_bind]
          exact .inr (.inl ⟨trivial, .left htag htrip⟩)
        · simp [hread0]
        · simp [hread0]
      · refine .inr (.inr (.inl ?_))
        simp [deserializeFrom, slice_one_eq, htag, h0, h1, h2, h3]

theorem deserializeFrom_assertion_iff (hpos : 0 < fuel) (hfuel : proof.length < fuel + pos) :
    deserializeFrom sha256 proof fuel pos bits = .error (.raised .assertionError) ↔
      Trips sha256 proof bits pos := by
  constructor
  · intro h
    rcases deserializeFrom_cases sha256 proof fuel pos bits hpos hfuel with
      ⟨m, p, hread, -⟩ | ⟨-, htrip⟩ | hread | hread
    · rw [h] at hread
      cases hread
    · exact htrip
    all_goals
      rw [h] at hread
      cases hread
  · intro h
    exact h.deserializeFrom fuel hfuel

end Read

/-! ## Looking for a value -/

section Walk

variable {sha256 : Bytes → Bytes32} {proof : Bytes} {bits : List Bool} {pos pos' : ℕ} {n c0 c1 : Node}
  {hash : Bytes} {v : Bytes32}

lemma getBit_eq_error {d : ℕ} (hd : 256 ≤ d) : getBit v d = .error (.raised .indexError) := by
  have hnone : v.bytes[d / 8]? = none := List.getElem?_eq_none (by rw [v.length_eq]; omega)
  rw [getBit, hnone]

/-- `MiddleNode` makes an inner node of its children. -/
lemma exists_middle_of_middleNode (hnode : middleNode sha256 c0 c1 = .ok n) : ∃ hash, n = .middle c0 c1 hash := by
  unfold middleNode at hnode
  obtain ⟨r, -, hnode⟩ := bind_eq_ok.mp hnode
  split at hnode
  · exact ⟨_, (Except.ok.inj hnode).symm⟩
  obtain ⟨r', -, hnode⟩ := bind_eq_ok.mp hnode
  split at hnode
  · exact ⟨_, (Except.ok.inj hnode).symm⟩
  split at hnode
  · cases hnode
  · obtain ⟨hash, -, hnode⟩ := bind_eq_ok.mp hnode
    exact ⟨hash, (Except.ok.inj hnode).symm⟩

lemma ReadsAt.children (h : ReadsAt sha256 proof bits pos (.middle c0 c1 hash) pos') :
    ∃ pos0, ReadsAt sha256 proof (bits ++ [false]) (pos + 1) c0 pos0 ∧
      ReadsAt sha256 proof (bits ++ [true]) pos0 c1 pos' ∧ middleNode sha256 c0 c1 = .ok (.middle c0 c1 hash) := by
  cases h with
  | @middle _ _ pos0 _ d0 d1 _ _ h0 h1 hnode =>
    obtain ⟨hash', heq⟩ := exists_middle_of_middleNode hnode
    obtain ⟨rfl, rfl, rfl⟩ := Node.middle.inj heq
    exact ⟨pos0, h0, h1, hnode⟩

lemma ReadsAt.length_le {a : Bytes32} (h : ReadsAt sha256 proof bits pos (.terminal a) pos') : bits.length ≤ 256 := by
  cases h with
  | terminal _ _ _ hlen => exact hlen
  | middle _ _ _ hnode =>
    obtain ⟨hash, heq⟩ := exists_middle_of_middleNode hnode
    cases heq

lemma exists_isDouble (hash : Bytes) (hnode : middleNode sha256 c0 c1 = .ok n) :
    ∃ r, (Node.middle c0 c1 hash).isDouble = .ok r := by
  unfold middleNode at hnode
  obtain ⟨r, hr, hnode⟩ := bind_eq_ok.mp hnode
  unfold Node.isDouble
  by_cases h0 : c0.isEmpty = true
  · rw [besideEmpty, if_pos h0] at hr
    rw [if_pos h0]
    exact ⟨r, hr⟩
  rw [if_neg h0]
  by_cases h1 : c1.isEmpty = true
  · rw [besideEmpty, if_neg h0] at hr
    rw [← Except.ok.inj hr, if_neg (by simp)] at hnode
    obtain ⟨r', hr', -⟩ := bind_eq_ok.mp hnode
    rw [besideEmpty, if_pos h1] at hr'
    rw [if_pos h1]
    exact ⟨r', hr'⟩
  · rw [if_neg h1]
    exact ⟨_, rfl⟩

variable (h : ReadsAt sha256 proof bits pos n pos')

include h

lemma ReadsAt.length_lt_of_isDouble (hd : n.isDouble = .ok true) : bits.length < 256 := by
  induction n generalizing bits pos pos' with
  | empty => cases hd
  | terminal => cases hd
  | truncated => cases hd
  | middle c0 c1 hash ih0 ih1 =>
    obtain ⟨pos0, h0, h1, -⟩ := h.children
    have hlen : ∀ b : Bool, (bits ++ [b]).length = bits.length + 1 := by simp
    unfold Node.isDouble at hd
    split at hd
    · have := ih1 h1 hd
      rw [hlen] at this
      omega
    split at hd
    · have := ih0 h0 hd
      rw [hlen] at this
      omega
    · rw [Except.ok.injEq, Bool.and_eq_true] at hd
      obtain ⟨a, rfl⟩ := Node.isTerminal_iff.mp hd.1
      have := h0.length_le
      rw [hlen] at this
      omega

/-- A tree with exactly two values is searched without running out of bits.

**Proof sketch.** The inner nodes above the one that splits the values have an empty child, where the search ends, and
the other child is appended to the proof. -/
lemma ReadsAt.exists_isIncluded_of_isDouble (hd : n.isDouble = .ok true) (v : Bytes32) :
    ∃ r, n.isIncluded v bits.length = .ok r := by
  induction n generalizing bits pos pos' with
  | empty => cases hd
  | terminal => cases hd
  | truncated => cases hd
  | middle c0 c1 hash ih0 ih1 =>
    have hbits := h.length_lt_of_isDouble hd
    obtain ⟨pos0, h0, h1, -⟩ := h.children
    have hlen : ∀ b : Bool, (bits ++ [b]).length = bits.length + 1 := by simp
    unfold Node.isDouble at hd
    unfold Node.isIncluded
    rw [getBit_eq_ok v hbits, ok_bind]
    split at hd
    · rename_i hempty
      obtain rfl := Node.isEmpty_iff.mp hempty
      obtain ⟨⟨r, w⟩, hr⟩ := ih1 h1 hd
      rw [hlen] at hr
      have hother : Node.otherIncluded ((Node.isIncluded v c1 (bits.length + 1)).map Prod.snd) c1
          (!Node.empty.isEmpty) = .ok w := by
        cases c1 with
        | middle d0 d1 hash' => simp [Node.otherIncluded, Node.isEmpty, hd, hr, Except.map]
        | empty => cases hd
        | terminal => cases hd
        | truncated => cases hd
      cases bit v bits.length
      · simp [Node.isIncluded, hother]
      · simp [Node.otherIncluded, hr]
    split at hd
    · rename_i hne hempty
      obtain rfl := Node.isEmpty_iff.mp hempty
      obtain ⟨⟨r, w⟩, hr⟩ := ih0 h0 hd
      rw [hlen] at hr
      have hother : Node.otherIncluded ((Node.isIncluded v c0 (bits.length + 1)).map Prod.snd) c0
          (!Node.empty.isEmpty) = .ok w := by
        cases c0 with
        | middle d0 d1 hash' => simp [Node.otherIncluded, Node.isEmpty, hd, hr, Except.map]
        | empty => cases hd
        | terminal => cases hd
        | truncated => cases hd
      cases bit v bits.length
      · simp [Node.otherIncluded, hr]
      · simp [Node.isIncluded, hother]
    · rw [Except.ok.injEq, Bool.and_eq_true] at hd
      obtain ⟨a, rfl⟩ := Node.isTerminal_iff.mp hd.1
      obtain ⟨b, rfl⟩ := Node.isTerminal_iff.mp hd.2
      cases bit v bits.length
      · simp [Node.otherIncluded, Node.isIncluded]
      · simp [Node.otherIncluded, Node.isIncluded]

lemma ReadsAt.exists_otherIncluded (v : Bytes32) (collapse : Bool) :
    ∃ w, Node.otherIncluded ((Node.isIncluded v n bits.length).map Prod.snd) n collapse = .ok w := by
  cases n with
  | empty => exact ⟨_, rfl⟩
  | terminal => exact ⟨_, rfl⟩
  | truncated => exact ⟨_, rfl⟩
  | middle c0 c1 hash =>
    obtain ⟨pos0, -, -, hnode⟩ := h.children
    cases collapse with
    | true => simp [Node.otherIncluded]
    | false =>
      obtain ⟨r, hr⟩ := exists_isDouble hash hnode
      cases r with
      | true =>
        obtain ⟨⟨q, w⟩, hq⟩ := h.exists_isIncluded_of_isDouble hr v
        simp [Node.otherIncluded, hr, hq, Except.map]
      | false => simp [Node.otherIncluded, hr]

/-- **When the search for a value runs out of bits.** It does if there are more than 256 inner nodes on the path of the
value, and otherwise it finds out about the value or comes to a subtree that is cut off.

**Proof sketch.** Induction on the tree, with one more bit of the path at each inner node. The subtree beside the path
does not fail, so that the child on the path decides. -/
theorem ReadsAt.isIncluded_cases (hbits : bits.length ≤ 256) (v : Bytes32) :
    (256 < bits.length + pathLength v n bits.length ∧
        n.isIncluded v bits.length = .error (.raised .indexError)) ∨
      (bits.length + pathLength v n bits.length ≤ 256 ∧
        ((∃ r, n.isIncluded v bits.length = .ok r) ∨ n.isIncluded v bits.length = .error .setError)) := by
  induction n generalizing bits pos pos' with
  | empty => exact .inr ⟨by simpa [pathLength] using hbits, .inl ⟨_, rfl⟩⟩
  | terminal => exact .inr ⟨by simpa [pathLength] using hbits, .inl ⟨_, rfl⟩⟩
  | truncated => exact .inr ⟨by simpa [pathLength] using hbits, .inr rfl⟩
  | middle c0 c1 hash ih0 ih1 =>
    obtain ⟨pos0, h0, h1, -⟩ := h.children
    have hlen : ∀ b : Bool, (bits ++ [b]).length = bits.length + 1 := by simp
    unfold Node.isIncluded
    rcases Nat.lt_or_ge bits.length 256 with hlt | hge
    · rw [getBit_eq_ok v hlt, ok_bind, pathLength]
      cases hbit : bit v bits.length with
      | false =>
        obtain ⟨other, hother⟩ := h1.exists_otherIncluded v (!c0.isEmpty)
        have hpath := ih0 h0 (by rw [hlen]; omega)
        rw [hlen] at hother hpath
        rw [if_neg (by simp), if_neg (by simp)]
        rcases hpath with ⟨hdeep, hr⟩ | ⟨hshallow, ⟨⟨r, w⟩, hr⟩ | hr⟩
        · exact .inl ⟨by omega, by simp [hr]⟩
        · refine .inr ⟨by omega, .inl ?_⟩
          simp [hr, hother]
        · exact .inr ⟨by omega, .inr (by simp [hr])⟩
      | true =>
        obtain ⟨other, hother⟩ := h0.exists_otherIncluded v (!c1.isEmpty)
        have hpath := ih1 h1 (by rw [hlen]; omega)
        rw [hlen] at hother hpath
        rw [if_pos rfl, if_pos rfl]
        rcases hpath with ⟨hdeep, hr⟩ | ⟨hshallow, ⟨⟨r, w⟩, hr⟩ | hr⟩
        · exact .inl ⟨by omega, by simp [hr, hother]⟩
        · refine .inr ⟨by omega, .inl ?_⟩
          simp [hr, hother]
        · exact .inr ⟨by omega, .inr (by simp [hr, hother])⟩
    · rw [getBit_eq_error hge, error_bind]
      refine .inl ⟨?_, rfl⟩
      rw [pathLength]
      omega

end Walk

/-! ## The check -/

section Check

variable {sha256 : Bytes → Bytes32} {proof : Bytes} {n : Node}

lemma ReadsAt.exists_getRoot (h : ReadsAt sha256 proof [] 0 n proof.length) : ∃ root, getRoot sha256 n = .ok root := by
  have hlen := h.length_hash le_rfl
  cases n with
  | empty => exact ⟨BLANK, rfl⟩
  | terminal a => exact ⟨_, getRoot_terminal a⟩
  | middle c0 c1 hash => exact ⟨⟨hash, hlen⟩, getRoot_middle ⟨hash, hlen⟩⟩
  | truncated hash =>
    have hroot : getRoot sha256 (.middle .empty .empty hash) = .ok ⟨hash, hlen⟩ := getRoot_middle ⟨hash, hlen⟩
    exact ⟨_, hroot⟩

lemma ReadsAt.deserializeProof (h : ReadsAt sha256 proof [] 0 n proof.length) :
    deserializeProof sha256 proof = .ok n ∧ ¬Trips sha256 proof [] 0 := by
  have hread := h.deserializeFrom (proof.length + 1) (by omega)
  constructor
  · simp [MerkleSet.deserializeProof, hread, Except.mapError]
  · intro htrip
    rw [htrip.deserializeFrom (proof.length + 1) (by omega)] at hread
    cases hread

/-- What `deserialize_proof` does: it reads a tree that ends with the byte string, or an assertion fails, or it raises
`SetError`. -/
lemma deserializeProof_cases (sha256 : Bytes → Bytes32) (proof : Bytes) :
    (∃ n, ReadsAt sha256 proof [] 0 n proof.length) ∨
      (deserializeProof sha256 proof = .error (.raised .assertionError) ∧ Trips sha256 proof [] 0) ∨
      (deserializeProof sha256 proof = .error .setError ∧ ¬Trips sha256 proof [] 0) := by
  have hassert : deserializeFrom sha256 proof (proof.length + 1) 0 [] = .error (.raised .assertionError) ↔
      Trips sha256 proof [] 0 := deserializeFrom_assertion_iff (Nat.succ_pos _) (by omega)
  rcases deserializeFrom_cases sha256 proof (proof.length + 1) 0 [] (Nat.succ_pos _) (by omega) with
    ⟨n, pos', hread, hat⟩ | ⟨hread, htrip⟩ | hread | hread
  · by_cases hend : pos' = proof.length
    · subst hend
      exact .inl ⟨n, hat⟩
    · refine .inr (.inr ⟨?_, ?_⟩)
      · simp [MerkleSet.deserializeProof, hread, hend, Except.mapError, indexToSetError]
      · rw [← hassert, hread]
        simp
  · exact .inr (.inl ⟨by simp [MerkleSet.deserializeProof, hread, Except.mapError, indexToSetError], htrip⟩)
  · refine .inr (.inr ⟨by simp [MerkleSet.deserializeProof, hread, Except.mapError, indexToSetError], ?_⟩)
    rw [← hassert, hread]
    simp
  · refine .inr (.inr ⟨by simp [MerkleSet.deserializeProof, hread, Except.mapError, indexToSetError], ?_⟩)
    rw [← hassert, hread]
    simp

/-- The check of a byte string returns, whatever the answer is expected to be. -/
def Returns (sha256 : Bytes → Bytes32) (root v : Bytes32) (proof : Bytes) : Prop :=
  (∃ b, confirmIncludedAlreadyHashed sha256 root v proof = .ok b) ∧
    ∃ b, confirmNotIncludedAlreadyHashed sha256 root v proof = .ok b

lemma ReadsAt.exists_confirm_iff (h : ReadsAt sha256 proof [] 0 n proof.length) (root v : Bytes32) (expected : Bool) :
    (∃ b, confirm sha256 root v proof expected = .ok b) ↔
      (getRoot sha256 n = .ok root → pathLength v n 0 ≤ 256) := by
  obtain ⟨root', hroot⟩ := h.exists_getRoot
  have hproof : confirmProof sha256 root v proof expected =
      if root' ≠ root then .ok false else (do
        let r ← isIncludedAlreadyHashed n v
        return r.1 == expected) := by
    simp only [confirmProof, h.deserializeProof.1, hroot, ok_bind, pure_eq]
  rw [confirm, hproof, hroot]
  by_cases hne : root' ≠ root
  · simp [hne]
  rw [if_neg hne, isIncludedAlreadyHashed]
  rcases h.isIncluded_cases (Nat.zero_le 256) v with ⟨hdeep, hr⟩ | ⟨hshallow, ⟨⟨r, w⟩, hr⟩ | hr⟩
  · rw [List.length_nil] at hr hdeep
    simp [hr, not_not.mp hne]
    omega
  · rw [List.length_nil] at hr hshallow
    simp [hr]
    omega
  · rw [List.length_nil] at hr hshallow
    simp [hr]
    omega

/-- **When the check of a proof returns.** It does not if the reader comes to a place where an assertion fails, or if
the byte string is a tree with the root whose inner nodes on the path of the value are more than 256. Otherwise it
returns a truth value.

**Proof sketch.** The reader reads a tree, fails at such a place, or raises `SetError`, which is caught. Of the tree the
root is compared, and then the value is looked for. -/
theorem confirm_returns_iff (sha256 : Bytes → Bytes32) (root v : Bytes32) (proof : Bytes) :
    Returns sha256 root v proof ↔ ¬Trips sha256 proof [] 0 ∧
      ∀ n, ReadsAt sha256 proof [] 0 n proof.length → getRoot sha256 n = .ok root → pathLength v n 0 ≤ 256 := by
  unfold Returns confirmIncludedAlreadyHashed confirmNotIncludedAlreadyHashed
  rcases deserializeProof_cases sha256 proof with ⟨n, hread⟩ | ⟨hread, htrip⟩ | ⟨hread, htrip⟩
  · rw [hread.exists_confirm_iff, hread.exists_confirm_iff, and_self]
    constructor
    · intro h
      refine ⟨hread.deserializeProof.2, fun m hm => ?_⟩
      have heq := hm.deserializeProof.1
      rw [hread.deserializeProof.1] at heq
      rwa [← Except.ok.inj heq]
    · intro h
      exact h.2 n hread
  · simp [confirm, confirmProof, hread, htrip]
  · have hnone : ∀ n, ¬ReadsAt sha256 proof [] 0 n proof.length := by
      intro n hn
      rw [hn.deserializeProof.1] at hread
      cases hread
    simp [confirm, confirmProof, hread, htrip, hnone]

/-- **A byte string that makes the check raise**: the tag of a value, and nothing after it. -/
theorem not_confirm_returns : ¬∀ (sha256 : Bytes → Bytes32) (root v : Bytes32) (proof : Bytes),
    Returns sha256 root v proof := by
  intro h
  obtain ⟨⟨b, hb⟩, -⟩ := h (fun _ => BLANK) BLANK BLANK [TERMINAL]
  cases hb

end Check

end Chives.MerkleSet
