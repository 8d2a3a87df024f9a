import Chives.Util.MerkleSet

set_option autoImplicit false

/-!
# The root of a Merkle set

The tree of a Merkle set is determined by the set: it is the binary trie of the values, in which a subtree
with at least two values is split by the next bit. Its root then determines the set, as long as the hashed
messages do not collide.

## Main definitions

* `MerkleSet.Node.leaves` — the values in a tree.
* `MerkleSet.Trie` — a tree that is split by the bits of its values.
* `MerkleSet.messages`, `MerkleSet.CollisionFree` — the messages that are hashed for a tree,
  and that SHA-256 does not collide on them.

## Main results

* `MerkleSet.exists_addAll` — building a set never fails and gives the trie of its values.
* `MerkleSet.Trie.eq_of_leaves` — a trie is determined by its values.
* `MerkleSet.Trie.eq_of_getHash` — a trie is determined by its hash.
* `MerkleSet.roots_eq_iff` — the root is canonical.

## Design

No function into 32 bytes is injective, so that SHA-256 does not collide is assumed of the messages that
are hashed for the two sets, and not of all.
-/

namespace Chives.MerkleSet

open ExceptRun BitString

/-- The bit of a value at a depth. -/
def bit (a : Bytes32) (d : ℕ) : Bool := bitAt a.bytes d

variable {d : ℕ}

lemma getBit_eq_ok (a : Bytes32) (hd : d < 256) : getBit a d = .ok (bit a d) := by
  have hlt : d / 8 < a.bytes.length := by
    rw [a.length_eq]
    omega
  rw [getBit, bit, bitAt, List.getElem?_eq_getElem hlt]

/-- `get_bit` beyond the last bit raises. -/
lemma lt_of_getBit {a : Bytes32} {v : Bool} (h : getBit a d = .ok v) : d < 256 ∧ bit a d = v := by
  have hd : d < 256 := by
    by_contra hge
    have hlen : a.bytes.length ≤ d / 8 := by
      rw [a.length_eq]
      omega
    rw [getBit, List.getElem?_eq_none hlen] at h
    cases h
  rw [getBit_eq_ok a hd, Except.ok.injEq] at h
  exact ⟨hd, h⟩

lemma exists_bit_ne {a b : Bytes32} (hne : a ≠ b) (hagree : ∀ i < d, bit a i = bit b i) :
    ∃ i, d ≤ i ∧ i < 256 ∧ bit a i ≠ bit b i ∧ ∀ j < i, bit a j = bit b j := by
  have hbytes : a.bytes ≠ b.bytes := fun h => hne (Bytes32.ext h)
  obtain ⟨i, hi, hbit, hbefore⟩ := exists_bitAt_ne (a.length_eq.trans b.length_eq.symm) hbytes
  rw [a.length_eq] at hi
  refine ⟨i, ?_, hi, hbit, hbefore⟩
  by_contra hlt
  exact hbit (hagree i (by omega))

lemma bytes_lt_of_bit {a b : Bytes32} (hagree : ∀ i < d, bit a i = bit b i) (ha : bit a d = false)
    (hb : bit b d = true) : a.bytes < b.bytes :=
  lt_of_bitAt (a.length_eq.trans b.length_eq.symm) hagree ha hb

lemma bytes_lt_or_gt {a b : Bytes32} (hne : a ≠ b) : a.bytes < b.bytes ∨ b.bytes < a.bytes := by
  obtain ⟨i, -, -, hbit, hagree⟩ := exists_bit_ne hne (fun i hi => absurd hi (Nat.not_lt_zero i))
  cases ha : bit a i with
  | false =>
    cases hb : bit b i with
    | false => exact absurd (ha.trans hb.symm) hbit
    | true => exact .inl (bytes_lt_of_bit hagree ha hb)
  | true =>
    cases hb : bit b i with
    | false => exact .inr (bytes_lt_of_bit (fun j hj => (hagree j hj).symm) hb ha)
    | true => exact absurd (ha.trans hb.symm) hbit

namespace Node

/-- The values in a tree. -/
def leaves : Node → List Bytes32
  | empty => []
  | terminal h => [h]
  | middle c0 c1 _ => c0.leaves ++ c1.leaves
  | truncated _ => []

/-- The first byte of `get_hash`. -/
def kind : Node → UInt8
  | empty => EMPTY
  | terminal _ => TERMINAL
  | middle _ _ _ => MIDDLE
  | truncated _ => MIDDLE

variable {n c0 c1 : Node}

lemma getHash_eq (n : Node) : n.getHash = n.kind :: n.hash := by
  cases n <;> rfl

lemma length_hash_terminal (a : Bytes32) : (terminal a).hash.length = 32 := a.length_eq

lemma isEmpty_iff : n.isEmpty = true ↔ n = empty := by
  cases n <;> simp [isEmpty]

lemma isTerminal_iff : n.isTerminal = true ↔ ∃ h, n = terminal h := by
  cases n <;> simp [isTerminal]

end Node

/-! ## Inner nodes -/

/-- The message hashed for two children. -/
def pairMessage (c0 c1 : Node) : Bytes := hashdownMessage (c0.getHash ++ c1.getHash)

/-- One child is empty and the other has exactly two values, so that its hash is taken. -/
def Collapsed (c0 c1 : Node) : Prop :=
  (c0 = .empty ∧ c1.isDouble = .ok true) ∨ (c1 = .empty ∧ c0.isDouble = .ok true)

section MiddleNode

variable {sha256 : Bytes → Bytes32} {c0 c1 c0' c1' n : Node}

section

variable (h0 : c0.hash.length = 32)

include h0

lemma pairMessage_eq : pairMessage c0 c1 = List.replicate 30 0 ++ [c0.kind, c1.kind] ++ (c0.hash ++ c1.hash) := by
  have hsplit : c0.getHash ++ c1.getHash = c0.kind :: (c0.hash ++ (c1.kind :: c1.hash)) := by
    rw [Node.getHash_eq, Node.getHash_eq, List.cons_append]
  have hdrop33 : (c0.kind :: (c0.hash ++ (c1.kind :: c1.hash))).drop 33 = c1.kind :: c1.hash := by
    rw [List.drop_succ_cons, List.drop_left' h0]
  have hdrop34 : (c0.kind :: (c0.hash ++ (c1.kind :: c1.hash))).drop 34 = c1.hash := by
    rw [show 34 = 33 + 1 from rfl, ← List.drop_drop, hdrop33]
    rfl
  have htake : ((c0.kind :: (c0.hash ++ (c1.kind :: c1.hash))).drop 1).take 32 = c0.hash := by
    rw [List.drop_succ_cons, List.drop_zero, List.take_left' h0]
  rw [pairMessage, hashdownMessage, hsplit, hdrop33, hdrop34, htake]
  rfl

lemma pairMessage_inj (h0' : c0'.hash.length = 32) (h : pairMessage c0 c1 = pairMessage c0' c1') :
    c0.getHash = c0'.getHash ∧ c1.getHash = c1'.getHash := by
  rw [pairMessage_eq h0, pairMessage_eq h0', List.append_assoc, List.append_assoc] at h
  have h := List.append_cancel_left h
  obtain ⟨hkinds, hhashes⟩ := List.append_inj h rfl
  obtain ⟨hkind0, hrest⟩ := List.cons.inj hkinds
  obtain ⟨hkind1, -⟩ := List.cons.inj hrest
  obtain ⟨hhash0, hhash1⟩ := List.append_inj hhashes (h0.trans h0'.symm)
  rw [Node.getHash_eq c0, Node.getHash_eq c0', Node.getHash_eq c1, Node.getHash_eq c1', hkind0, hkind1,
    hhash0, hhash1]
  exact ⟨rfl, rfl⟩

lemma length_pairMessage (h1 : c1.hash.length = 32) : (pairMessage c0 c1).length = 96 := by
  rw [pairMessage_eq h0]
  simp [h0, h1]

/-- `hashdown` of the hashes of two children. -/
lemma hashdown_getHash (h1 : c1.hash.length = 32) :
    hashdown sha256 (c0.getHash ++ c1.getHash) = .ok (sha256 (pairMessage c0 c1)).bytes := by
  have hkind : ∀ n : Node, n.kind = EMPTY ∨ n.kind = TERMINAL ∨ n.kind = MIDDLE := by
    intro n
    cases n <;> simp [Node.kind]
  have hlen : (c0.getHash ++ c1.getHash).length = 66 := by simp [Node.getHash_eq, h0, h1]
  have hkey : (c0.getHash ++ c1.getHash).take 1 ++ ((c0.getHash ++ c1.getHash).drop 33).take 1 =
      [c0.kind, c1.kind] := by
    rw [Node.getHash_eq c0, List.cons_append, List.drop_succ_cons, List.drop_left' h0,
      Node.getHash_eq c1]
    rfl
  have hall : [c0.kind, c1.kind].all (fun t => t = EMPTY ∨ t = TERMINAL ∨ t = MIDDLE) = true := by
    simp [hkind]
  unfold hashdown check
  rw [if_pos hlen, ok_bind]
  simp only [hkey, hall, if_true]
  rfl

end

/-- What `MiddleNode` makes of two children: it takes the hash of a child with exactly two values beside
an empty one, and hashes the children otherwise. -/
lemma middleNode_cases (h : middleNode sha256 c0 c1 = .ok n) (h0 : c0.hash.length ≤ 32)
    (h1 : c1.hash.length ≤ 32) :
    (c0 = .empty ∧ c1.isDouble = .ok true ∧ n = .middle c0 c1 c1.hash) ∨
      (c1 = .empty ∧ c0.isDouble = .ok true ∧ n = .middle c0 c1 c0.hash) ∨
      (¬Collapsed c0 c1 ∧ ¬badChildren c0 c1 ∧ c0.hash.length = 32 ∧ c1.hash.length = 32 ∧
        n = .middle c0 c1 (sha256 (pairMessage c0 c1)).bytes) := by
  have hbeside : ∀ {a b : Node} {r : Bool}, besideEmpty a b = .ok r →
      (r = true ↔ a = .empty ∧ b.isDouble = .ok true) := by
    intro a b r hr
    unfold besideEmpty at hr
    by_cases ha : a.isEmpty = true
    · rw [if_pos ha] at hr
      rw [hr, Except.ok.injEq]
      simp [Node.isEmpty_iff.mp ha]
    · rw [if_neg ha] at hr
      rw [← Except.ok.inj hr]
      simp [mt Node.isEmpty_iff.mpr ha]
  unfold middleNode at h
  obtain ⟨r, hr, h⟩ := bind_eq_ok.mp h
  by_cases hr1 : r = true
  · rw [if_pos hr1] at h
    obtain ⟨he, hd⟩ := (hbeside hr).mp hr1
    exact .inl ⟨he, hd, (Except.ok.inj h).symm⟩
  rw [if_neg hr1] at h
  obtain ⟨r', hr', h⟩ := bind_eq_ok.mp h
  by_cases hr2 : r' = true
  · rw [if_pos hr2] at h
    obtain ⟨he, hd⟩ := (hbeside hr').mp hr2
    exact .inr (.inl ⟨he, hd, (Except.ok.inj h).symm⟩)
  rw [if_neg hr2] at h
  by_cases hbad : badChildren c0 c1
  · rw [if_pos hbad] at h
    cases h
  rw [if_neg hbad] at h
  obtain ⟨hash, hhash, h⟩ := bind_eq_ok.mp h
  have hlen : (c0.getHash ++ c1.getHash).length = 66 := by
    unfold hashdown check at hhash
    by_contra hne
    rw [if_neg hne] at hhash
    cases hhash
  have hsum : c0.hash.length + c1.hash.length = 64 := by
    simp only [Node.getHash_eq, List.length_append, List.length_cons] at hlen
    omega
  rw [hashdown_getHash (by omega) (by omega)] at hhash
  refine .inr (.inr ⟨?_, hbad, by omega, by omega, ?_⟩)
  · rintro (hc | hc)
    · exact hr1 ((hbeside hr).mpr hc)
    · exact hr2 ((hbeside hr').mpr hc)
  · rw [← Except.ok.inj h, ← Except.ok.inj hhash]

end MiddleNode

/-! ## Tries -/

/-- A value begins with the given bits. -/
def HasBits (bits : List Bool) (a : Bytes32) : Prop := ∀ i v, bits[i]? = some v → bit a i = v

lemma hasBits_append {bits : List Bool} {v : Bool} {a : Bytes32} :
    HasBits (bits ++ [v]) a ↔ HasBits bits a ∧ bit a bits.length = v := by
  constructor
  · intro h
    refine ⟨fun i w hi => h i w ?_, h _ _ ?_⟩
    · obtain ⟨hlt, -⟩ := List.getElem?_eq_some_iff.mp hi
      rwa [List.getElem?_append_left hlt]
    · simp
  · rintro ⟨h, hv⟩ i w hi
    rcases Nat.lt_or_ge i bits.length with hlt | hge
    · rw [List.getElem?_append_left hlt] at hi
      exact h i w hi
    · rw [List.getElem?_append_right hge] at hi
      obtain ⟨hlt, hw⟩ := List.getElem?_eq_some_iff.mp hi
      have hi : i = bits.length := by simp at hlt; omega
      subst hi
      simpa [hv] using hw

lemma HasBits.agree {bits : List Bool} {a b : Bytes32} (ha : HasBits bits a) (hb : HasBits bits b) :
    ∀ i < bits.length, bit a i = bit b i := by
  intro i hi
  rw [ha i _ (List.getElem?_eq_getElem hi), hb i _ (List.getElem?_eq_getElem hi)]

/-- A tree made by the constructors, on the path with the given bits: every value has the bits of the path
to it. Proofs describe such trees. -/
inductive Built (sha256 : Bytes → Bytes32) : List Bool → Node → Prop
  | empty {bits : List Bool} : Built sha256 bits .empty
  | terminal {bits : List Bool} {a : Bytes32} (h : HasBits bits a) : Built sha256 bits (.terminal a)
  | truncated {bits : List Bool} {h : Bytes} (hlen : h.length ≤ 32) : Built sha256 bits (.truncated h)
  | middle {bits : List Bool} {c0 c1 : Node} {h : Bytes} (h0 : Built sha256 (bits ++ [false]) c0)
      (h1 : Built sha256 (bits ++ [true]) c1) (hnode : middleNode sha256 c0 c1 = .ok (.middle c0 c1 h)) :
      Built sha256 bits (.middle c0 c1 h)

/-- A tree that is split by the bits of its values, wherever it has at least two. -/
inductive Trie (sha256 : Bytes → Bytes32) : List Bool → Node → Prop
  | empty {bits : List Bool} : Trie sha256 bits .empty
  | terminal {bits : List Bool} {a : Bytes32} (h : HasBits bits a) : Trie sha256 bits (.terminal a)
  | middle {bits : List Bool} {c0 c1 : Node} {h : Bytes} (hdepth : bits.length < 256)
      (h0 : Trie sha256 (bits ++ [false]) c0) (h1 : Trie sha256 (bits ++ [true]) c1)
      (htwo : 2 ≤ (c0.leaves ++ c1.leaves).length)
      (hnode : middleNode sha256 c0 c1 = .ok (.middle c0 c1 h)) : Trie sha256 bits (.middle c0 c1 h)

section Trees

variable {sha256 : Bytes → Bytes32} {bits : List Bool} {n c0 c1 : Node} {a v : Bytes32}

lemma Trie.built (h : Trie sha256 bits n) : Built sha256 bits n := by
  induction h with
  | empty => exact .empty
  | terminal h => exact .terminal h
  | middle _ _ _ _ hnode ih0 ih1 => exact .middle ih0 ih1 hnode

lemma Built.hasBits (h : Built sha256 bits n) (ha : a ∈ n.leaves) : HasBits bits a := by
  induction h with
  | empty => cases ha
  | truncated => cases ha
  | terminal h => rwa [List.mem_singleton.mp ha]
  | middle _ _ _ ih0 ih1 =>
    rcases List.mem_append.mp ha with ha | ha
    · exact (hasBits_append.mp (ih0 ha)).1
    · exact (hasBits_append.mp (ih1 ha)).1

lemma Built.length_hash (h : Built sha256 bits n) :
    n.hash.length ≤ 32 ∧ ((∀ t, n ≠ .truncated t) → n.hash.length = 32) := by
  induction h with
  | empty => exact ⟨le_refl 32, fun _ => rfl⟩
  | terminal h => exact ⟨(Bytes32.length_eq _).le, fun _ => Bytes32.length_eq _⟩
  | truncated hlen => exact ⟨hlen, fun h => absurd rfl (h _)⟩
  | @middle bits c0 c1 h _ _ hnode ih0 ih1 =>
    have hdouble : ∀ {m : Node}, m.isDouble = .ok true → ∀ t, m ≠ .truncated t := by
      rintro m hm t rfl
      simp [Node.isDouble] at hm
    have hlen : h.length = 32 := by
      rcases middleNode_cases hnode ih0.1 ih1.1 with ⟨-, hd, heq⟩ | ⟨-, hd, heq⟩ | ⟨-, -, -, -, heq⟩
      · rw [(Node.middle.inj heq).2.2]
        exact ih1.2 (hdouble hd)
      · rw [(Node.middle.inj heq).2.2]
        exact ih0.2 (hdouble hd)
      · rw [(Node.middle.inj heq).2.2]
        exact Bytes32.length_eq _
    exact ⟨hlen.le, fun _ => hlen⟩

section

variable (h : Trie sha256 bits n)

include h

lemma Trie.ne_truncated (t : Bytes) : n ≠ .truncated t := by
  rintro rfl
  cases h

lemma Trie.length_hash : n.hash.length = 32 :=
  h.built.length_hash.2 h.ne_truncated

lemma Trie.isEmpty_iff : n.isEmpty = true ↔ n.leaves.length = 0 := by
  cases h with
  | empty => simp [Node.isEmpty, Node.leaves]
  | terminal => simp [Node.isEmpty, Node.leaves]
  | middle _ _ _ htwo =>
    rw [Node.leaves]
    simp only [Node.isEmpty, Bool.false_eq_true, false_iff]
    omega

lemma Trie.isTerminal_iff : n.isTerminal = true ↔ n.leaves.length = 1 := by
  cases h with
  | empty => simp [Node.isTerminal, Node.leaves]
  | terminal => simp [Node.isTerminal, Node.leaves]
  | middle _ _ _ htwo =>
    rw [Node.leaves]
    simp only [Node.isTerminal, Bool.false_eq_true, false_iff]
    omega

/-- `is_double` on a trie with at least two values. -/
lemma Trie.isDouble_eq (htwo : 2 ≤ n.leaves.length) : n.isDouble = .ok (n.leaves.length = 2) := by
  induction h with
  | empty => simp [Node.leaves] at htwo
  | terminal => simp [Node.leaves] at htwo
  | @middle bits c0 c1 _ _ h0 h1 _ _ ih0 ih1 =>
    rw [Node.leaves, List.length_append] at htwo ⊢
    unfold Node.isDouble
    by_cases he0 : c0.isEmpty = true
    · have hzero := h0.isEmpty_iff.mp he0
      rw [if_pos he0, ih1 (by omega), hzero, Nat.zero_add]
    rw [if_neg he0]
    by_cases he1 : c1.isEmpty = true
    · have hzero := h1.isEmpty_iff.mp he1
      rw [if_pos he1, ih0 (by omega), hzero, Nat.add_zero]
    rw [if_neg he1]
    have hpos0 := mt h0.isEmpty_iff.mpr he0
    have hpos1 := mt h1.isEmpty_iff.mpr he1
    congr 1
    rw [Bool.eq_iff_iff, Bool.and_eq_true, decide_eq_true_iff, h0.isTerminal_iff, h1.isTerminal_iff]
    omega

end

/-- `MiddleNode` does not fail on the two halves of at least two values. -/
lemma Trie.exists_middle (hdepth : bits.length < 256) (h0 : Trie sha256 (bits ++ [false]) c0)
    (h1 : Trie sha256 (bits ++ [true]) c1) (htwo : 2 ≤ (c0.leaves ++ c1.leaves).length) :
    ∃ h, middleNode sha256 c0 c1 = .ok (.middle c0 c1 h) ∧ Trie sha256 bits (.middle c0 c1 h) := by
  suffices hok : ∃ h, middleNode sha256 c0 c1 = .ok (.middle c0 c1 h) by
    obtain ⟨h, hnode⟩ := hok
    exact ⟨h, hnode, .middle hdepth h0 h1 htwo hnode⟩
  rw [List.length_append] at htwo
  have hbeside : ∀ {a b : Node} {p q : List Bool}, Trie sha256 p a → Trie sha256 q b →
      2 ≤ a.leaves.length + b.leaves.length → ∃ r, besideEmpty a b = .ok r := by
    intro a b p q ha hb htwo
    unfold besideEmpty
    by_cases he : a.isEmpty = true
    · have hzero := ha.isEmpty_iff.mp he
      rw [if_pos he, hb.isDouble_eq (by omega)]
      exact ⟨_, rfl⟩
    · rw [if_neg he]
      exact ⟨_, rfl⟩
  have hgood : ¬badChildren c0 c1 := by
    unfold badChildren
    rw [h0.isEmpty_iff, h1.isEmpty_iff, h0.isTerminal_iff, h1.isTerminal_iff]
    rintro (⟨hz, hz' | hz'⟩ | ⟨hz, hz'⟩ | ⟨ht, ht', hle⟩)
    · omega
    · omega
    · omega
    · -- two values are split by the bit at this depth, so they are in order
      obtain ⟨a, rfl⟩ := Node.isTerminal_iff.mp (h0.isTerminal_iff.mpr ht)
      obtain ⟨b, rfl⟩ := Node.isTerminal_iff.mp (h1.isTerminal_iff.mpr ht')
      obtain ⟨hbits, hbit⟩ := hasBits_append.mp (h0.built.hasBits (List.mem_singleton.mpr rfl))
      obtain ⟨hbits', hbit'⟩ := hasBits_append.mp (h1.built.hasBits (List.mem_singleton.mpr rfl))
      exact List.not_le.mpr (bytes_lt_of_bit (hbits.agree hbits') hbit hbit') hle
  obtain ⟨r, hr⟩ := hbeside h0 h1 htwo
  obtain ⟨r', hr'⟩ := hbeside h1 h0 (by omega)
  unfold middleNode
  rw [hr, ok_bind]
  by_cases hr1 : r = true
  · rw [if_pos hr1]
    exact ⟨_, rfl⟩
  rw [if_neg hr1, hr', ok_bind]
  by_cases hr2 : r' = true
  · rw [if_pos hr2]
    exact ⟨_, rfl⟩
  rw [if_neg hr2, if_neg hgood, hashdown_getHash h0.length_hash h1.length_hash]
  exact ⟨_, rfl⟩

end Trees

/-! ## Adding values -/

section Add

variable {sha256 : Bytes → Bytes32} {bits : List Bool} {n : Node} {a b v : Bytes32}

/-- `_make_middle` splits two values at the first bit in which they differ. -/
lemma exists_makeMiddleFrom (hlt : a.bytes < b.bytes) (fuel : ℕ) :
    ∀ {bits : List Bool}, bits.length + fuel = 256 → HasBits bits a → HasBits bits b →
      ∃ m, makeMiddleFrom sha256 a b fuel bits.length = .ok m ∧ Trie sha256 bits m ∧
        m.leaves = [a, b] := by
  have hne : a ≠ b := by
    rintro rfl
    exact List.lt_irrefl _ hlt
  induction fuel with
  | zero =>
    intro bits hlen ha hb
    obtain ⟨i, hi, hi', -, -⟩ := exists_bit_ne hne (ha.agree hb)
    omega
  | succ fuel ih =>
    intro bits hlen ha hb
    have hdepth : bits.length < 256 := by omega
    unfold makeMiddleFrom
    rw [getBit_eq_ok a hdepth, getBit_eq_ok b hdepth, ok_bind, ok_bind]
    by_cases hbit : bit a bits.length = bit b bits.length
    · rw [if_neg (not_not.mpr hbit)]
      have hlen' : ∀ v, (bits ++ [v]).length + fuel = 256 := by
        intro v
        simp only [List.length_append, List.length_singleton]
        omega
      cases hv : bit a bits.length with
      | true =>
        obtain ⟨m, hm, htrie, hleaves⟩ := ih (hlen' true) (hasBits_append.mpr ⟨ha, hv⟩)
          (hasBits_append.mpr ⟨hb, hbit ▸ hv⟩)
        rw [List.length_append, List.length_singleton] at hm
        have hempty : Trie sha256 (bits ++ [false]) .empty := .empty
        obtain ⟨h, hnode, hmid⟩ := Trie.exists_middle hdepth hempty htrie
          (by simp [Node.leaves, hleaves])
        refine ⟨_, ?_, hmid, ?_⟩
        · rw [hm, ok_bind, if_pos rfl, hnode]
        · simp [Node.leaves, hleaves]
      | false =>
        obtain ⟨m, hm, htrie, hleaves⟩ := ih (hlen' false) (hasBits_append.mpr ⟨ha, hv⟩)
          (hasBits_append.mpr ⟨hb, hbit ▸ hv⟩)
        rw [List.length_append, List.length_singleton] at hm
        have hempty : Trie sha256 (bits ++ [true]) .empty := .empty
        obtain ⟨h, hnode, hmid⟩ := Trie.exists_middle hdepth htrie hempty
          (by simp [Node.leaves, hleaves])
        refine ⟨_, ?_, hmid, ?_⟩
        · rw [hm, ok_bind, if_neg Bool.false_ne_true, hnode]
        · simp [Node.leaves, hleaves]
    · -- the order of the values says which bit is which
      rw [if_pos hbit]
      have hbits : bit a bits.length = false ∧ bit b bits.length = true := by
        cases hv : bit a bits.length with
        | false =>
          cases hw : bit b bits.length with
          | true => exact ⟨rfl, rfl⟩
          | false => exact absurd (hv.trans hw.symm) hbit
        | true =>
          cases hw : bit b bits.length with
          | true => exact absurd (hv.trans hw.symm) hbit
          | false => exact absurd (bytes_lt_of_bit (hb.agree ha) hw hv) (List.lt_asymm hlt)
      have hta : Trie sha256 (bits ++ [false]) (.terminal a) :=
        .terminal (hasBits_append.mpr ⟨ha, hbits.1⟩)
      have htb : Trie sha256 (bits ++ [true]) (.terminal b) :=
        .terminal (hasBits_append.mpr ⟨hb, hbits.2⟩)
      obtain ⟨h, hnode, hmid⟩ := Trie.exists_middle hdepth hta htb (by simp [Node.leaves])
      exact ⟨_, hnode, hmid, rfl⟩

lemma exists_makeMiddle (hlt : a.bytes < b.bytes) (ha : HasBits bits a) (hb : HasBits bits b) :
    ∃ m, makeMiddle sha256 a b bits.length = .ok m ∧ Trie sha256 bits m ∧ m.leaves = [a, b] := by
  have hne : a ≠ b := by
    rintro rfl
    exact List.lt_irrefl _ hlt
  obtain ⟨i, hi, hi', -, -⟩ := exists_bit_ne hne (ha.agree hb)
  exact exists_makeMiddleFrom hlt _ (by omega) ha hb

/-- `add` gives the trie with the value added. -/
lemma Trie.exists_add (h : Trie sha256 bits n) (hv : HasBits bits v) :
    ∃ o, n.add sha256 v bits.length = .ok o ∧ Trie sha256 bits (o.getD n) ∧
      n.leaves.length ≤ (o.getD n).leaves.length ∧
      ∀ a, a ∈ (o.getD n).leaves ↔ a = v ∨ a ∈ n.leaves := by
  induction h with
  | empty => exact ⟨_, rfl, .terminal hv, Nat.zero_le 1, fun a => by simp [Node.leaves]⟩
  | @terminal bits b hb =>
    unfold Node.add
    by_cases heq : v = b
    · rw [if_pos heq]
      refine ⟨_, rfl, .terminal hb, le_refl _, fun a => ?_⟩
      simp [Node.leaves, heq]
    rw [if_neg heq]
    by_cases hlt : b.bytes < v.bytes
    · obtain ⟨m, hm, htrie, hleaves⟩ := @exists_makeMiddle sha256 _ _ _ hlt hb hv
      rw [if_pos hlt, hm]
      refine ⟨some m, rfl, htrie, ?_, fun a => ?_⟩
      · simp [Node.leaves, hleaves]
      · simp [Node.leaves, hleaves, or_comm]
    · have hgt : v.bytes < b.bytes := (bytes_lt_or_gt heq).resolve_right hlt
      obtain ⟨m, hm, htrie, hleaves⟩ := @exists_makeMiddle sha256 _ _ _ hgt hv hb
      rw [if_neg hlt, hm]
      refine ⟨some m, rfl, htrie, ?_, fun a => ?_⟩
      · simp [Node.leaves, hleaves]
      · simp [Node.leaves, hleaves]
  | @middle bits c0 c1 h hdepth h0 h1 htwo hnode ih0 ih1 =>
    have hself : Trie sha256 bits (.middle c0 c1 h) := .middle hdepth h0 h1 htwo hnode
    unfold Node.add
    rw [getBit_eq_ok v hdepth, ok_bind]
    rw [List.length_append] at htwo
    cases hbit : bit v bits.length with
    | true =>
      obtain ⟨o, ho, htrie, hlen, hleaves⟩ := ih1 (hasBits_append.mpr ⟨hv, hbit⟩)
      rw [List.length_append, List.length_singleton] at ho
      rw [if_pos rfl, ho, ok_bind]
      cases o with
      | none =>
        have hmem : v ∈ (Node.middle c0 c1 h).leaves :=
          List.mem_append_right _ ((hleaves v).mpr (.inl rfl))
        refine ⟨none, rfl, hself, le_refl _, fun a => ⟨.inr, ?_⟩⟩
        rintro (rfl | ha)
        · exact hmem
        · exact ha
      | some c =>
        rw [Option.getD_some] at htrie hlen hleaves
        obtain ⟨h', hnode', hmid⟩ := Trie.exists_middle hdepth h0 htrie
          (by rw [List.length_append]; omega)
        refine ⟨some (.middle c0 c h'), ?_, hmid, ?_, fun a => ?_⟩
        · simp only [hnode', Except.map]
        · simp only [Option.getD_some, Node.leaves, List.length_append]
          omega
        · rw [Option.getD_some, Node.leaves, Node.leaves, List.mem_append, List.mem_append, hleaves,
            or_left_comm]
    | false =>
      obtain ⟨o, ho, htrie, hlen, hleaves⟩ := ih0 (hasBits_append.mpr ⟨hv, hbit⟩)
      rw [List.length_append, List.length_singleton] at ho
      rw [if_neg Bool.false_ne_true, ho, ok_bind]
      cases o with
      | none =>
        have hmem : v ∈ (Node.middle c0 c1 h).leaves :=
          List.mem_append_left _ ((hleaves v).mpr (.inl rfl))
        refine ⟨none, rfl, hself, le_refl _, fun a => ⟨.inr, ?_⟩⟩
        rintro (rfl | ha)
        · exact hmem
        · exact ha
      | some c =>
        rw [Option.getD_some] at htrie hlen hleaves
        obtain ⟨h', hnode', hmid⟩ := Trie.exists_middle hdepth htrie h1
          (by rw [List.length_append]; omega)
        refine ⟨some (.middle c c1 h'), ?_, hmid, ?_, fun a => ?_⟩
        · simp only [hnode', Except.map]
        · simp only [Option.getD_some, Node.leaves, List.length_append]
          omega
        · rw [Option.getD_some, Node.leaves, Node.leaves, List.mem_append, List.mem_append, hleaves,
            or_assoc]

lemma Trie.exists_addAllTo (values : List Bytes32) (h : Trie sha256 [] n) :
    ∃ m, addAllTo sha256 n values = .ok m ∧ Trie sha256 [] m ∧
      ∀ a, a ∈ m.leaves ↔ a ∈ values ∨ a ∈ n.leaves := by
  induction values generalizing n with
  | nil => exact ⟨n, rfl, h, fun a => by simp⟩
  | cons v values ih =>
    have hnil : HasBits [] v := fun i w hi => by simp at hi
    obtain ⟨o, ho, htrie, -, hleaves⟩ := h.exists_add hnil
    obtain ⟨m, hm, htrie', hleaves'⟩ := ih htrie
    refine ⟨m, ?_, htrie', fun a => ?_⟩
    · unfold addAllTo at hm ⊢
      rw [List.foldlM_cons, addAlreadyHashed, show n.add sha256 v 0 = .ok o from ho]
      exact hm
    · rw [hleaves', hleaves, List.mem_cons, or_left_comm, or_assoc]

/-- **Building a set never fails**, and gives the trie of its values. -/
theorem exists_addAll (sha256 : Bytes → Bytes32) (values : List Bytes32) :
    ∃ m, addAll sha256 values = .ok m ∧ Trie sha256 [] m ∧ ∀ a, a ∈ m.leaves ↔ a ∈ values := by
  obtain ⟨m, hm, htrie, hleaves⟩ := @Trie.exists_addAllTo sha256 _ values .empty
  exact ⟨m, hm, htrie, fun a => by simp [hleaves, Node.leaves]⟩

end Add

/-! ## A trie is determined by its values -/

section Unique

variable {sha256 : Bytes → Bytes32} {bits : List Bool} {n m : Node}

lemma Trie.nodup_leaves (h : Trie sha256 bits n) : n.leaves.Nodup := by
  induction h with
  | empty => exact List.nodup_nil
  | terminal => exact List.nodup_singleton _
  | middle _ h0 h1 _ _ ih0 ih1 =>
    refine List.nodup_append'.mpr ⟨ih0, ih1, fun a ha0 ha1 => ?_⟩
    have hfalse := (hasBits_append.mp (h0.built.hasBits ha0)).2
    have htrue := (hasBits_append.mp (h1.built.hasBits ha1)).2
    exact Bool.false_ne_true (hfalse.symm.trans htrue)

lemma Built.mem_middle {c0 c1 : Node} {a : Bytes32} (h0 : Built sha256 (bits ++ [false]) c0)
    (h1 : Built sha256 (bits ++ [true]) c1) :
    (a ∈ c0.leaves ↔ a ∈ c0.leaves ++ c1.leaves ∧ bit a bits.length = false) ∧
      (a ∈ c1.leaves ↔ a ∈ c0.leaves ++ c1.leaves ∧ bit a bits.length = true) := by
  have hfalse : a ∈ c0.leaves → bit a bits.length = false := fun ha =>
    (hasBits_append.mp (h0.hasBits ha)).2
  have htrue : a ∈ c1.leaves → bit a bits.length = true := fun ha =>
    (hasBits_append.mp (h1.hasBits ha)).2
  rw [List.mem_append]
  constructor
  · constructor
    · exact fun ha => ⟨.inl ha, hfalse ha⟩
    · rintro ⟨ha | ha, hbit⟩
      · exact ha
      · exact absurd (hbit.symm.trans (htrue ha)) Bool.false_ne_true
  · constructor
    · exact fun ha => ⟨.inr ha, htrue ha⟩
    · rintro ⟨ha | ha, hbit⟩
      · exact absurd ((hfalse ha).symm.trans hbit) Bool.false_ne_true
      · exact ha

/-- **A trie is determined by its values.** -/
theorem Trie.eq_of_leaves (hn : Trie sha256 bits n) (hm : Trie sha256 bits m)
    (h : ∀ a, a ∈ n.leaves ↔ a ∈ m.leaves) : n = m := by
  have hperm : n.leaves.length = m.leaves.length :=
    ((List.perm_ext_iff_of_nodup hn.nodup_leaves hm.nodup_leaves).mpr h).length_eq
  induction hn generalizing m with
  | empty =>
    exact (Node.isEmpty_iff.mp (hm.isEmpty_iff.mpr hperm.symm)).symm
  | @terminal bits a _ =>
    obtain ⟨b, rfl⟩ := Node.isTerminal_iff.mp (hm.isTerminal_iff.mpr hperm.symm)
    rw [List.mem_singleton.mp ((h a).mp (List.mem_singleton.mpr rfl))]
  | @middle bits c0 c1 hash hdepth h0 h1 htwo hnode ih0 ih1 =>
    rw [Node.leaves] at hperm
    cases hm with
    | empty => rw [hperm] at htwo; cases htwo
    | terminal => rw [hperm] at htwo; simp [Node.leaves] at htwo
    | @middle _ d0 d1 hash' _ h0' h1' _ hnode' =>
      have hmem0 : ∀ a, a ∈ c0.leaves ↔ a ∈ d0.leaves := fun a => by
        rw [(Built.mem_middle h0.built h1.built).1, (Built.mem_middle h0'.built h1'.built).1]
        exact and_congr_left fun _ => h a
      have hmem1 : ∀ a, a ∈ c1.leaves ↔ a ∈ d1.leaves := fun a => by
        rw [(Built.mem_middle h0.built h1.built).2, (Built.mem_middle h0'.built h1'.built).2]
        exact and_congr_left fun _ => h a
      have heq0 := ih0 h0' hmem0
        ((List.perm_ext_iff_of_nodup h0.nodup_leaves h0'.nodup_leaves).mpr hmem0).length_eq
      have heq1 := ih1 h1' hmem1
        ((List.perm_ext_iff_of_nodup h1.nodup_leaves h1'.nodup_leaves).mpr hmem1).length_eq
      subst heq0 heq1
      exact Except.ok.inj (hnode.symm.trans hnode')

end Unique

/-! ## A trie is determined by its hash -/

instance (c0 c1 : Node) : Decidable (Collapsed c0 c1) :=
  inferInstanceAs (Decidable (_ ∨ _))

/-- The messages that are hashed for a tree. -/
def messages : Node → List Bytes
  | .middle c0 c1 _ =>
    if Collapsed c0 c1 then messages c0 ++ messages c1
    else pairMessage c0 c1 :: (messages c0 ++ messages c1)
  | _ => []

/-- The messages that are hashed for a tree and its root. -/
def rootMessages (root : Node) : List Bytes :=
  match root with
  | .terminal h => [TERMINAL :: h.bytes]
  | _ => messages root

/-- SHA-256 does not collide on the messages, and does not give 32 zero bytes for one. -/
def CollisionFree (sha256 : Bytes → Bytes32) (msgs : List Bytes) : Prop :=
  (∀ m ∈ msgs, ∀ m' ∈ msgs, sha256 m = sha256 m' → m = m') ∧ ∀ m ∈ msgs, sha256 m ≠ BLANK

instance (sha256 : Bytes → Bytes32) (msgs : List Bytes) : Decidable (CollisionFree sha256 msgs) :=
  inferInstanceAs (Decidable (_ ∧ _))

section Hash

variable {sha256 : Bytes → Bytes32} {bits : List Bool} {n p t c0 c1 : Node} {h : Bytes} {v : Bytes32}

lemma CollisionFree.mono {msgs msgs' : List Bytes} (hfree : CollisionFree sha256 msgs)
    (hsub : ∀ m ∈ msgs', m ∈ msgs) : CollisionFree sha256 msgs' :=
  ⟨fun m hm m' hm' => hfree.1 m (hsub m hm) m' (hsub m' hm'), fun m hm => hfree.2 m (hsub m hm)⟩

lemma messages_child (m : Bytes) (hm : m ∈ messages c0 ∨ m ∈ messages c1) :
    m ∈ messages (.middle c0 c1 h) := by
  unfold messages
  split
  · exact List.mem_append.mpr hm
  · exact List.mem_cons_of_mem _ (List.mem_append.mpr hm)

lemma Collapsed.isDouble (hc : Collapsed c0 c1) : (Node.middle c0 c1 h).isDouble = .ok true := by
  unfold Node.isDouble
  rcases hc with ⟨rfl, hd⟩ | ⟨rfl, hd⟩
  · rw [if_pos (Node.isEmpty_iff.mpr rfl), hd]
  · have hne : ¬c0.isEmpty = true := fun he => by
      rw [Node.isEmpty_iff.mp he] at hd
      cases hd
    rw [if_neg hne, if_pos (Node.isEmpty_iff.mpr rfl), hd]

/-- A tree with exactly two values has the hash of the node that splits them, at whatever depth that is. -/
lemma Built.hash_of_isDouble (hp : Built sha256 bits p) (hd : p.isDouble = .ok true) :
    ∃ a b, p.leaves = [a, b] ∧ p.hash = (sha256 (pairMessage (.terminal a) (.terminal b))).bytes ∧
      pairMessage (.terminal a) (.terminal b) ∈ messages p := by
  induction hp with
  | empty => cases hd
  | terminal => cases hd
  | truncated => simp [Node.isDouble] at hd
  | @middle bits c0 c1 h h0 h1 hnode ih0 ih1 =>
    rcases middleNode_cases hnode h0.length_hash.1 h1.length_hash.1 with
      ⟨rfl, hd', heq⟩ | ⟨rfl, hd', heq⟩ | ⟨hnc, -, -, -, heq⟩
    · obtain ⟨a, b, hleaves, hhash, hmem⟩ := ih1 hd'
      rw [(Node.middle.inj heq).2.2]
      exact ⟨a, b, by rw [Node.leaves, hleaves]; rfl, hhash, messages_child _ (.inr hmem)⟩
    · obtain ⟨a, b, hleaves, hhash, hmem⟩ := ih0 hd'
      rw [(Node.middle.inj heq).2.2]
      exact ⟨a, b, by rw [Node.leaves, hleaves]; rfl, hhash, messages_child _ (.inl hmem)⟩
    · unfold Node.isDouble at hd
      by_cases he0 : c0.isEmpty = true
      · rw [if_pos he0] at hd
        exact absurd (.inl ⟨Node.isEmpty_iff.mp he0, hd⟩) hnc
      rw [if_neg he0] at hd
      by_cases he1 : c1.isEmpty = true
      · rw [if_pos he1] at hd
        exact absurd (.inr ⟨Node.isEmpty_iff.mp he1, hd⟩) hnc
      rw [if_neg he1, Except.ok.injEq, Bool.and_eq_true] at hd
      obtain ⟨a, rfl⟩ := Node.isTerminal_iff.mp hd.1
      obtain ⟨b, rfl⟩ := Node.isTerminal_iff.mp hd.2
      refine ⟨a, b, rfl, (Node.middle.inj heq).2.2, ?_⟩
      unfold messages
      rw [if_neg hnc]
      exact List.mem_cons_self

lemma Built.hash_of_not_isDouble (hp : Built sha256 bits (.middle c0 c1 h))
    (hd : (Node.middle c0 c1 h).isDouble ≠ .ok true) :
    c0.hash.length = 32 ∧ c1.hash.length = 32 ∧ h = (sha256 (pairMessage c0 c1)).bytes ∧
      pairMessage c0 c1 ∈ messages (.middle c0 c1 h) := by
  cases hp with
  | middle h0 h1 hnode =>
    rcases middleNode_cases hnode h0.length_hash.1 h1.length_hash.1 with
      ⟨he, hd', -⟩ | ⟨he, hd', -⟩ | ⟨hnc, -, hlen0, hlen1, heq⟩
    · exact absurd (Collapsed.isDouble (.inl ⟨he, hd'⟩)) hd
    · exact absurd (Collapsed.isDouble (.inr ⟨he, hd'⟩)) hd
    · refine ⟨hlen0, hlen1, (Node.middle.inj heq).2.2, ?_⟩
      unfold messages
      rw [if_neg hnc]
      exact List.mem_cons_self

lemma Built.exists_message (hp : Built sha256 bits (.middle c0 c1 h)) :
    ∃ m ∈ messages (.middle c0 c1 h), m.length = 96 ∧ h = (sha256 m).bytes := by
  by_cases hd : (Node.middle c0 c1 h).isDouble = .ok true
  · obtain ⟨a, b, -, hhash, hmem⟩ := hp.hash_of_isDouble hd
    exact ⟨_, hmem, length_pairMessage a.length_eq b.length_eq, hhash⟩
  · obtain ⟨h0, h1, hhash, hmem⟩ := hp.hash_of_not_isDouble hd
    exact ⟨_, hmem, length_pairMessage h0 h1, hhash⟩

variable {r : Bool} {w : Bytes}

/-- `is_included` follows the bit at an inner node, and appends what the sibling gives. -/
lemma isIncluded_middle {d : ℕ} (hr : (Node.middle c0 c1 h).isIncluded v d = .ok (r, w)) :
    d < 256 ∧
      ((bit v d = true ∧ ∃ other path,
          Node.otherIncluded ((c0.isIncluded v (d + 1)).map Prod.snd) c0 (!c1.isEmpty) = .ok other ∧
          c1.isIncluded v (d + 1) = .ok (r, path) ∧ w = MIDDLE :: (other ++ path)) ∨
        (bit v d = false ∧ ∃ path other,
          c0.isIncluded v (d + 1) = .ok (r, path) ∧
          Node.otherIncluded ((c1.isIncluded v (d + 1)).map Prod.snd) c1 (!c0.isEmpty) = .ok other ∧
          w = MIDDLE :: (path ++ other))) := by
  unfold Node.isIncluded at hr
  obtain ⟨b, hb, hr⟩ := bind_eq_ok.mp hr
  obtain ⟨hd, rfl⟩ := lt_of_getBit hb
  refine ⟨hd, ?_⟩
  cases hbit : bit v d with
  | true =>
    rw [if_pos hbit] at hr
    obtain ⟨other, hother, hr⟩ := bind_eq_ok.mp hr
    obtain ⟨⟨r', path⟩, hpath, hr⟩ := bind_eq_ok.mp hr
    obtain ⟨rfl, hw⟩ := Prod.mk.inj (Except.ok.inj hr)
    exact .inl ⟨rfl, other, path, hother, hpath, hw.symm⟩
  | false =>
    rw [if_neg (by rw [hbit]; exact Bool.false_ne_true)] at hr
    obtain ⟨⟨r', path⟩, hpath, hr⟩ := bind_eq_ok.mp hr
    obtain ⟨other, hother, hr⟩ := bind_eq_ok.mp hr
    obtain ⟨rfl, hw⟩ := Prod.mk.inj (Except.ok.inj hr)
    exact .inr ⟨rfl, path, other, hpath, hother, hw.symm⟩

/-- What `is_included` returns on a tree: whether the value is there. -/
lemma Built.isIncluded_iff (hp : Built sha256 bits p) (hv : HasBits bits v)
    (hr : p.isIncluded v bits.length = .ok (r, w)) : r = true ↔ v ∈ p.leaves := by
  induction hp generalizing w with
  | empty =>
    obtain ⟨rfl, -⟩ := Prod.mk.inj (Except.ok.inj hr)
    simp [Node.leaves]
  | terminal =>
    obtain ⟨rfl, -⟩ := Prod.mk.inj (Except.ok.inj hr)
    simp [Node.leaves]
  | truncated => cases hr
  | @middle bits c0 c1 h h0 h1 hnode ih0 ih1 =>
    rw [Node.leaves]
    obtain ⟨-, ⟨hbit, other, path, -, hpath, -⟩ | ⟨hbit, path, other, hpath, -, -⟩⟩ :=
      isIncluded_middle hr
    · rw [ih1 (hasBits_append.mpr ⟨hv, hbit⟩) (by rwa [List.length_append]),
        (Built.mem_middle h0 h1).2, and_iff_left hbit]
    · rw [ih0 (hasBits_append.mpr ⟨hv, hbit⟩) (by rwa [List.length_append]),
        (Built.mem_middle h0 h1).1, and_iff_left hbit]

lemma eq_terminal_of_getHash {a : Bytes32} (hn : n.getHash = (Node.terminal a).getHash) :
    n = .terminal a := by
  cases n with
  | terminal b => rw [Bytes32.ext (List.cons.inj hn).2]
  | empty => cases (List.cons.inj hn).1
  | middle c0 c1 h => cases (List.cons.inj hn).1
  | truncated h => cases (List.cons.inj hn).1

/-- **A tree with the hash of a trie answers like the trie**, wherever it answers at all.

**Proof sketch.** By induction on the tree. An inner node with exactly two values has the hash of the node
that splits them, and any other one hashes its children. If both have exactly two values, these are the
same. If neither has, the children have the same hashes, and the answer comes from the child on the path.
If only one has, then the other one has two terminal nodes as children, so it has exactly two values too. -/
theorem Built.mem_of_getHash (hp : Built sha256 bits p) (ht : Trie sha256 bits t) (hhash : p.getHash = t.getHash)
    (hfree : CollisionFree sha256 (messages p ++ messages t)) (hv : HasBits bits v)
    (hr : p.isIncluded v bits.length = .ok (r, w)) : v ∈ p.leaves ↔ v ∈ t.leaves := by
  induction hp generalizing t w with
  | empty =>
    cases ht with
    | empty => exact Iff.rfl
    | terminal => cases (List.cons.inj hhash).1
    | middle => cases (List.cons.inj hhash).1
  | terminal => rw [eq_terminal_of_getHash hhash.symm]
  | truncated => cases hr
  | @middle bits c0 c1 h h0 h1 hnode ih0 ih1 =>
    have hp : Built sha256 bits (.middle c0 c1 h) := .middle h0 h1 hnode
    have htrie := ht
    cases ht with
    | empty => cases (List.cons.inj hhash).1
    | terminal => cases (List.cons.inj hhash).1
    | @middle _ t0 t1 h' _ ht0 ht1 _ hnode' =>
      have hh : h = h' := (List.cons.inj hhash).2
      have hinj : ∀ {m m' : Bytes}, m ∈ messages (.middle c0 c1 h) → m' ∈ messages (.middle t0 t1 h') →
          h = (sha256 m).bytes → h' = (sha256 m').bytes → m = m' := by
        intro m m' hm hm' he he'
        refine hfree.1 m (List.mem_append_left _ hm) m' (List.mem_append_right _ hm') (Bytes32.ext ?_)
        rw [← he, ← he', hh]
      have hsub : CollisionFree sha256 (messages c0 ++ messages t0) ∧
          CollisionFree sha256 (messages c1 ++ messages t1) := by
        constructor
        · refine hfree.mono fun m hm => ?_
          rcases List.mem_append.mp hm with hm | hm
          · exact List.mem_append_left _ (messages_child m (.inl hm))
          · exact List.mem_append_right _ (messages_child m (.inl hm))
        · refine hfree.mono fun m hm => ?_
          rcases List.mem_append.mp hm with hm | hm
          · exact List.mem_append_left _ (messages_child m (.inr hm))
          · exact List.mem_append_right _ (messages_child m (.inr hm))
      by_cases hd : (Node.middle c0 c1 h).isDouble = .ok true
      · obtain ⟨a, b, hleaves, he, hm⟩ := hp.hash_of_isDouble hd
        by_cases hd' : (Node.middle t0 t1 h').isDouble = .ok true
        · obtain ⟨a', b', hleaves', he', hm'⟩ := htrie.built.hash_of_isDouble hd'
          obtain ⟨ha, hb⟩ := pairMessage_inj (Node.length_hash_terminal a)
            (Node.length_hash_terminal a') (hinj hm hm' he he')
          rw [hleaves, hleaves', Bytes32.ext (List.cons.inj ha).2, Bytes32.ext (List.cons.inj hb).2]
        · obtain ⟨hlen, -, he', hm'⟩ := htrie.built.hash_of_not_isDouble hd'
          obtain ⟨ha, hb⟩ := pairMessage_inj (Node.length_hash_terminal a) hlen (hinj hm hm' he he')
          rw [eq_terminal_of_getHash ha.symm, eq_terminal_of_getHash hb.symm] at hd'
          exact absurd rfl hd'
      · obtain ⟨hlen, -, he, hm⟩ := hp.hash_of_not_isDouble hd
        by_cases hd' : (Node.middle t0 t1 h').isDouble = .ok true
        · obtain ⟨a', b', -, he', hm'⟩ := htrie.built.hash_of_isDouble hd'
          obtain ⟨ha, hb⟩ := pairMessage_inj hlen (Node.length_hash_terminal a') (hinj hm hm' he he')
          rw [eq_terminal_of_getHash ha, eq_terminal_of_getHash hb] at hd
          exact absurd rfl hd
        · obtain ⟨-, -, he', hm'⟩ := htrie.built.hash_of_not_isDouble hd'
          obtain ⟨ha, hb⟩ := pairMessage_inj hlen ht0.length_hash (hinj hm hm' he he')
          rw [Node.leaves, Node.leaves]
          obtain ⟨-, ⟨hbit, other, path, -, hpath, -⟩ | ⟨hbit, path, other, hpath, -, -⟩⟩ :=
            isIncluded_middle hr
          · have := ih1 ht1 hb hsub.2 (hasBits_append.mpr ⟨hv, hbit⟩) (by rwa [List.length_append])
            rwa [(Built.mem_middle h0 h1).2, (Built.mem_middle ht0.built ht1.built).2,
              and_iff_left hbit, and_iff_left hbit] at this
          · have := ih0 ht0 ha hsub.1 (hasBits_append.mpr ⟨hv, hbit⟩) (by rwa [List.length_append])
            rwa [(Built.mem_middle h0 h1).1, (Built.mem_middle ht0.built ht1.built).1,
              and_iff_left hbit, and_iff_left hbit] at this

/-! ## Roots -/

lemma getRoot_terminal (a : Bytes32) :
    getRoot sha256 (.terminal a) = .ok (sha256 (TERMINAL :: a.bytes)) := by
  unfold getRoot compressRoot check
  rw [Node.getHash, if_pos (by rw [List.length_cons, a.length_eq])]
  rfl

lemma getRoot_middle (a : Bytes32) : getRoot sha256 (.middle c0 c1 a.bytes) = .ok a := by
  have htake : (MIDDLE :: a.bytes).take 1 = [MIDDLE] := rfl
  unfold getRoot compressRoot check
  rw [Node.getHash, if_pos (by rw [List.length_cons, a.length_eq]), ok_bind, if_pos htake,
    List.drop_succ_cons, List.drop_zero, Bytes32.new, dif_pos a.length_eq]
  rfl

variable {root : Bytes32}

lemma Built.getRoot_cases (hp : Built sha256 bits p) (hroot : getRoot sha256 p = .ok root) :
    (p = .empty ∧ root = BLANK) ∨ (∃ h, p = .truncated h) ∨
      ∃ m ∈ rootMessages p, root = sha256 m ∧
        ((m.length = 33 ∧ p.getHash = m) ∨ (m.length = 96 ∧ p.getHash = MIDDLE :: root.bytes)) := by
  cases hp with
  | empty => exact .inl ⟨rfl, (Except.ok.inj hroot).symm⟩
  | @terminal _ a _ =>
    rw [getRoot_terminal, Except.ok.injEq] at hroot
    have hlen : (TERMINAL :: a.bytes).length = 33 := by rw [List.length_cons, a.length_eq]
    exact .inr (.inr ⟨_, List.mem_singleton.mpr rfl, hroot.symm, .inl ⟨hlen, rfl⟩⟩)
  | truncated => exact .inr (.inl ⟨_, rfl⟩)
  | @middle _ c0 c1 h h0 h1 hnode =>
    obtain ⟨m, hm, hlen, hhash⟩ := Built.exists_message (.middle h0 h1 hnode)
    subst hhash
    rw [getRoot_middle, Except.ok.injEq] at hroot
    exact .inr (.inr ⟨m, hm, hroot.symm, .inr ⟨hlen, by rw [Node.getHash, hroot]⟩⟩)

lemma Trie.exists_getRoot (ht : Trie sha256 bits t) : ∃ root, getRoot sha256 t = .ok root := by
  cases ht with
  | empty => exact ⟨BLANK, rfl⟩
  | terminal => exact ⟨_, getRoot_terminal _⟩
  | @middle _ c0 c1 h hdepth h0 h1 htwo hnode =>
    have hlen : h.length = 32 := (Trie.middle hdepth h0 h1 htwo hnode).length_hash
    exact ⟨⟨h, hlen⟩, getRoot_middle ⟨h, hlen⟩⟩

lemma Built.getHash_of_getRoot (hp : Built sha256 bits p) (ht : Trie sha256 bits t)
    (hroot : getRoot sha256 p = .ok root) (hroot' : getRoot sha256 t = .ok root) (hcut : ∀ h, p ≠ .truncated h)
    (hfree : CollisionFree sha256 (rootMessages t ++ rootMessages p)) : p.getHash = t.getHash := by
  rcases hp.getRoot_cases hroot with ⟨rfl, hb⟩ | ⟨h, hc⟩ | ⟨m, hm, he, hmsg⟩
  · rcases ht.built.getRoot_cases hroot' with ⟨rfl, -⟩ | ⟨h, hc⟩ | ⟨m', hm', he', -⟩
    · rfl
    · exact absurd hc (ht.ne_truncated h)
    · exact absurd (he'.symm.trans hb) (hfree.2 m' (List.mem_append_left _ hm'))
  · exact absurd hc (hcut h)
  · rcases ht.built.getRoot_cases hroot' with ⟨rfl, hb⟩ | ⟨h, hc⟩ | ⟨m', hm', he', hmsg'⟩
    · exact absurd (he.symm.trans hb) (hfree.2 m (List.mem_append_right _ hm))
    · exact absurd hc (ht.ne_truncated h)
    · have hmm : m = m' := hfree.1 m (List.mem_append_right _ hm) m' (List.mem_append_left _ hm')
        (he.symm.trans he')
      subst hmm
      rcases hmsg with ⟨hlen, heq⟩ | ⟨hlen, heq⟩
      · rcases hmsg' with ⟨-, heq'⟩ | ⟨hlen', -⟩
        · rw [heq, heq']
        · omega
      · rcases hmsg' with ⟨hlen', -⟩ | ⟨-, heq'⟩
        · omega
        · rw [heq, heq']

lemma messages_sub_rootMessages (n : Node) : ∀ m ∈ messages n, m ∈ rootMessages n := by
  intro m hm
  cases n with
  | terminal a => cases hm
  | empty => cases hm
  | truncated h => cases hm
  | middle c0 c1 h => exact hm

/-- **The answers of a tree with the root of a trie are those of the trie.** -/
theorem Built.isIncluded_iff_of_getRoot (hp : Built sha256 [] p) (ht : Trie sha256 [] t)
    (hroot : getRoot sha256 p = .ok root) (hroot' : getRoot sha256 t = .ok root)
    (hfree : CollisionFree sha256 (rootMessages t ++ rootMessages p)) (hr : p.isIncluded v 0 = .ok (r, w)) :
    r = true ↔ v ∈ t.leaves := by
  have hv : HasBits [] v := fun i w hi => by simp at hi
  have hcut : ∀ h, p ≠ .truncated h := by
    rintro h rfl
    cases hr
  have hhash := hp.getHash_of_getRoot ht hroot hroot' hcut hfree
  rw [hp.isIncluded_iff hv hr]
  refine hp.mem_of_getHash ht hhash (hfree.mono fun m hm => ?_) hv hr
  rcases List.mem_append.mp hm with hm | hm
  · exact List.mem_append_right _ (messages_sub_rootMessages p m hm)
  · exact List.mem_append_left _ (messages_sub_rootMessages t m hm)

end Hash

/-! ## The root is canonical -/

section Canonical

variable {sha256 : Bytes → Bytes32} {bits : List Bool} {t : Node}

lemma otherIncluded_middle (whole : Except Failure Bytes) (c0 c1 : Node) (h : Bytes) (collapse : Bool) :
    Node.otherIncluded whole (.middle c0 c1 h) collapse =
      if collapse then .ok (TRUNCATED :: h)
      else (Node.middle c0 c1 h).isDouble >>= fun d => if d then whole else .ok (TRUNCATED :: h) := rfl

/-- `other_included` does not fail on a trie. -/
lemma Trie.exists_otherIncluded (ht : Trie sha256 bits t) {whole : Except Failure Bytes} (collapse : Bool)
    (hwhole : ∃ w, whole = .ok w) : ∃ w, Node.otherIncluded whole t collapse = .ok w := by
  have hself := ht
  cases ht with
  | empty => exact ⟨_, rfl⟩
  | terminal => exact ⟨_, rfl⟩
  | middle _ _ _ htwo =>
    rw [otherIncluded_middle]
    cases collapse with
    | true => exact ⟨_, rfl⟩
    | false =>
      rw [if_neg Bool.false_ne_true, hself.isDouble_eq htwo, ok_bind]
      split
      · exact hwhole
      · exact ⟨_, rfl⟩

/-- `is_included` does not fail on a trie. -/
lemma Trie.exists_isIncluded (ht : Trie sha256 bits t) (v : Bytes32) :
    ∃ r w, t.isIncluded v bits.length = .ok (r, w) := by
  induction ht with
  | empty => exact ⟨_, _, rfl⟩
  | terminal => exact ⟨_, _, rfl⟩
  | @middle bits c0 c1 h hdepth h0 h1 _ _ ih0 ih1 =>
    obtain ⟨r0, w0, hw0⟩ := ih0
    obtain ⟨r1, w1, hw1⟩ := ih1
    rw [List.length_append, List.length_singleton] at hw0 hw1
    obtain ⟨o0, ho0⟩ := h0.exists_otherIncluded (!c1.isEmpty) ⟨w0, rfl⟩
    obtain ⟨o1, ho1⟩ := h1.exists_otherIncluded (!c0.isEmpty) ⟨w1, rfl⟩
    unfold Node.isIncluded
    rw [getBit_eq_ok v hdepth, ok_bind, hw0, hw1, Except.map, Except.map, ho0, ho1]
    split
    · exact ⟨_, _, rfl⟩
    · exact ⟨_, _, rfl⟩

lemma mem_iff_of_getRoot {sha256 : Bytes → Bytes32} {xs ys : List Bytes32} {nx ny : Node} {r : Bytes32}
    (hx : addAll sha256 xs = .ok nx) (hy : addAll sha256 ys = .ok ny) (hrx : getRoot sha256 nx = .ok r)
    (hry : getRoot sha256 ny = .ok r) (hfree : CollisionFree sha256 (rootMessages ny ++ rootMessages nx))
    (a : Bytes32) : a ∈ xs ↔ a ∈ ys := by
  obtain ⟨mx, hmx, htx, hleavesx⟩ := exists_addAll sha256 xs
  obtain ⟨my, hmy, hty, hleavesy⟩ := exists_addAll sha256 ys
  obtain rfl := Except.ok.inj (hmx.symm.trans hx)
  obtain rfl := Except.ok.inj (hmy.symm.trans hy)
  obtain ⟨answer, w, hanswer⟩ := htx.exists_isIncluded a
  rw [← hleavesx, ← hleavesy, ← htx.built.isIncluded_iff (fun i w hi => by simp at hi) hanswer]
  exact htx.built.isIncluded_iff_of_getRoot hty hrx hry hfree hanswer

/-- **The root of a Merkle set is canonical.** Adding values one by one to an empty set never fails, and
as long as SHA-256 does not collide on the messages that are hashed for the two sets, their roots are equal
exactly when they have the same values.

**Proof sketch.** Sets with the same values have the same trie. Conversely, `is_included` on the trie of one
set gives the answer for the other one, since that has the same root. -/
theorem roots_eq_iff (sha256 : Bytes → Bytes32) (xs ys : List Bytes32) :
    ∃ nx ny rx ry, addAll sha256 xs = .ok nx ∧ addAll sha256 ys = .ok ny ∧
      getRoot sha256 nx = .ok rx ∧ getRoot sha256 ny = .ok ry ∧
      (CollisionFree sha256 (rootMessages ny ++ rootMessages nx) →
        (rx = ry ↔ ∀ a, a ∈ xs ↔ a ∈ ys)) := by
  obtain ⟨nx, hnx, htx, hleavesx⟩ := exists_addAll sha256 xs
  obtain ⟨ny, hny, hty, hleavesy⟩ := exists_addAll sha256 ys
  obtain ⟨rx, hrx⟩ := htx.exists_getRoot
  obtain ⟨ry, hry⟩ := hty.exists_getRoot
  refine ⟨nx, ny, rx, ry, hnx, hny, hrx, hry, fun hfree => ⟨?_, ?_⟩⟩
  · rintro rfl a
    exact mem_iff_of_getRoot hnx hny hrx hry hfree a
  · intro hsame
    have heq : nx = ny := htx.eq_of_leaves hty fun a => by rw [hleavesx, hleavesy, hsame]
    rw [heq, hry, Except.ok.injEq] at hrx
    exact hrx.symm

/-- A hash function for tests. -/
def testHash (m : Bytes) : Bytes32 := Bytes32.ofNat (m.foldl (fun acc b => acc * 257 + b.toNat + 1) 0)

/-- The messages that are hashed to build a set and its root. -/
def hashedFor (sha256 : Bytes → Bytes32) (values : List Bytes32) : List Bytes :=
  match addAll sha256 values with
  | .ok root => rootMessages root
  | .error _ => []

lemma hashedFor_eq {values : List Bytes32} (h : addAll sha256 values = .ok t) :
    hashedFor sha256 values = rootMessages t := by
  rw [hashedFor, h]

/-- A value with the given first byte. -/
def valueOf (b : UInt8) : Bytes32 := ⟨b :: List.replicate 31 0, rfl⟩

/-- Two values whose first two bits agree. -/
def twoValues : List Bytes32 := [valueOf 0x60, valueOf 0x40]

/-- A larger set, with a repeated value. -/
def threeValues : List Bytes32 := [valueOf 0x40, valueOf 0xc0, valueOf 0x60, valueOf 0x40]

/-- Two sets that share values, one of which is a subtree with exactly two values. -/
theorem roots_eq_iff_testHash :
    ∃ rx ry, (addAll testHash twoValues >>= getRoot testHash) = .ok rx ∧
      (addAll testHash threeValues >>= getRoot testHash) = .ok ry ∧ rx ≠ ry := by
  obtain ⟨nx, ny, rx, ry, hnx, hny, hrx, hry, hiff⟩ := roots_eq_iff testHash twoValues threeValues
  have hfree : CollisionFree testHash (hashedFor testHash threeValues ++ hashedFor testHash twoValues) := by
    decide +kernel
  rw [hashedFor_eq hnx, hashedFor_eq hny] at hfree
  have hmem : valueOf 0xc0 ∈ threeValues := by decide +kernel
  have hnot : valueOf 0xc0 ∉ twoValues := by decide +kernel
  refine ⟨rx, ry, ?_, ?_, fun heq => hnot (((hiff hfree).mp heq (valueOf 0xc0)).mpr hmem)⟩
  · rw [hnx]
    exact hrx
  · rw [hny]
    exact hry

end Canonical

end Chives.MerkleSet
