import Chives.Util.MerkleSetRoot

set_option autoImplicit false

/-!
# The proofs of a Merkle set

`is_included` of a Merkle set returns a proof, a tree whose other branches are cut off, and `_confirm`
rebuilds that tree from the bytes and compares its root. The proofs that a set gives are accepted, and no
byte string whatsoever is accepted for a wrong answer.

## Main definitions

* `MerkleSet.Reads` — a byte string is read back as a tree, wherever it stands in a proof.
* `MerkleSet.proofMessages` — the messages that are hashed to check a proof.

## Main results

* `MerkleSet.built_of_deserializeFrom` — what is read from a proof is made by the constructors.
* `MerkleSet.Trie.exists_reads` — the proof of a set is read back as a tree with the same hash and
  the same answer.
* `MerkleSet.confirm_iff` — proofs are complete and sound.
-/

namespace Chives.MerkleSet

open ExceptRun BitString

/-! ## What is read from a proof -/

section Deserialize

variable {sha256 : Bytes → Bytes32} {bits : List Bool} {a : Bytes32}

/-- `_audit` accepts the values with the bits of the path. -/
lemma audit_eq_ok {pos : ℕ} (hlen : pos + bits.length ≤ 256) :
    audit a pos bits = .ok () ↔ ∀ i v, bits[i]? = some v → bit a (pos + i) = v := by
  induction bits generalizing pos with
  | nil => simp [audit]
  | cons b bits ih =>
    rw [List.length_cons] at hlen
    unfold audit
    rw [getBit_eq_ok a (by omega), ok_bind, check]
    have htail : (∀ i v, (b :: bits)[i]? = some v → bit a (pos + i) = v) ↔
        bit a pos = b ∧ ∀ i v, bits[i]? = some v → bit a (pos + 1 + i) = v := by
      constructor
      · intro h
        refine ⟨h 0 b rfl, fun i v hi => ?_⟩
        have := h (i + 1) v hi
        rwa [Nat.add_comm i 1, ← Nat.add_assoc] at this
      · rintro ⟨hb, h⟩ i v hi
        cases i with
        | zero =>
          rw [List.getElem?_cons_zero, Option.some.injEq] at hi
          rw [Nat.add_zero, hb, hi]
        | succ i =>
          rw [List.getElem?_cons_succ] at hi
          rw [Nat.add_comm i 1, ← Nat.add_assoc]
          exact h i v hi
    rw [htail]
    by_cases hb : bit a pos = b
    · rw [if_pos hb, ok_bind, ih (by omega), and_iff_right hb]
    · rw [if_neg hb, error_bind]
      constructor
      · intro h
        cases h
      · intro h
        exact absurd h.1 hb

/-- A path that `_audit` accepts has at most 256 bits. -/
lemma length_le_of_audit {pos : ℕ} (h : audit a pos bits = .ok ()) (hpos : pos ≤ 256) :
    pos + bits.length ≤ 256 := by
  induction bits generalizing pos with
  | nil => simpa using hpos
  | cons b bits ih =>
    unfold audit at h
    obtain ⟨v, hv, h⟩ := bind_eq_ok.mp h
    obtain ⟨_, -, h⟩ := bind_eq_ok.mp h
    have := ih h (lt_of_getBit hv).1
    rw [List.length_cons]
    omega

/-- `TerminalNode` checks that the value has the bits of the path. -/
lemma terminalNode_eq_ok {hash : Bytes} {n : Node} (h : terminalNode hash bits = .ok n) :
    ∃ a, n = .terminal a ∧ HasBits bits a := by
  unfold terminalNode at h
  split at h
  · obtain ⟨⟨⟩, haudit, h⟩ := bind_eq_ok.mp h
    refine ⟨_, (Except.ok.inj h).symm, ?_⟩
    intro i v hi
    have := (audit_eq_ok (length_le_of_audit haudit (Nat.zero_le 256))).mp haudit i v hi
    rwa [Nat.zero_add] at this
  · cases h

/-- **What is read from a proof is made by the constructors**, and every value in it has the bits of the
path to it. -/
theorem built_of_deserializeFrom {proof : Bytes} {fuel pos pos' : ℕ} {n : Node}
    (h : deserializeFrom sha256 proof fuel pos bits = .ok (n, pos')) : Built sha256 bits n := by
  induction fuel generalizing pos pos' bits n with
  | zero => cases h
  | succ fuel ih =>
    unfold deserializeFrom at h
    simp only at h
    split at h
    · rw [← (Prod.mk.inj (Except.ok.inj h)).1]
      exact .empty
    split at h
    · obtain ⟨m, hm, h⟩ := bind_eq_ok.mp h
      obtain ⟨a, rfl, ha⟩ := terminalNode_eq_ok hm
      rw [← (Prod.mk.inj (Except.ok.inj h)).1]
      exact .terminal ha
    split at h
    · rw [← (Prod.mk.inj (Except.ok.inj h)).1]
      exact .truncated (List.length_take_le _ _)
    split at h
    · cases h
    · obtain ⟨⟨v0, pos0⟩, h0, h⟩ := bind_eq_ok.mp h
      obtain ⟨⟨v1, pos1⟩, h1, h⟩ := bind_eq_ok.mp h
      obtain ⟨m, hm, h⟩ := bind_eq_ok.mp h
      rw [← (Prod.mk.inj (Except.ok.inj h)).1]
      have hb0 := ih h0
      have hb1 := ih h1
      obtain ⟨hash, rfl⟩ : ∃ hash, m = .middle v0 v1 hash := by
        rcases middleNode_cases hm hb0.length_hash.1 hb1.length_hash.1 with
          ⟨-, -, heq⟩ | ⟨-, -, heq⟩ | ⟨-, -, -, -, heq⟩
        · exact ⟨_, heq⟩
        · exact ⟨_, heq⟩
        · exact ⟨_, heq⟩
      exact .middle hb0 hb1 hm

end Deserialize

/-! ## The proofs of a set are read back -/

/-- The byte string is read back as the tree, wherever it stands in a proof. -/
def Reads (sha256 : Bytes → Bytes32) (bits : List Bool) (w : Bytes) (p : Node) : Prop :=
  ∀ (pre rest : Bytes) (fuel : ℕ), w.length ≤ fuel →
    deserializeFrom sha256 (pre ++ (w ++ rest)) fuel pre.length bits = .ok (p, pre.length + w.length)

section Reads

variable {sha256 : Bytes → Bytes32} {bits : List Bool} {a v : Bytes32} {h w0 w1 : Bytes}
  {p0 p1 c0 c1 n t : Node}

lemma slice_one (pre rest : Bytes) (b : UInt8) : slice (pre ++ (b :: rest)) pre.length 1 = [b] := by
  rw [slice, List.drop_left]
  rfl

lemma slice_succ (pre rest : Bytes) (b : UInt8) (hlen : h.length = 32) :
    slice (pre ++ (b :: (h ++ rest))) (pre.length + 1) 32 = h := by
  have hdrop : (pre ++ (b :: (h ++ rest))).drop (pre.length + 1) = h ++ rest := by
    rw [← List.drop_drop, List.drop_left]
    rfl
  rw [slice, hdrop, List.take_left' hlen]

lemma reads_empty : Reads sha256 bits [EMPTY] .empty := by
  intro pre rest fuel hfuel
  cases fuel with
  | zero => simp at hfuel
  | succ fuel =>
    unfold deserializeFrom
    simp only [List.cons_append, List.nil_append, slice_one]
    rfl

lemma reads_terminal (ha : HasBits bits a) (hlen : bits.length ≤ 256) :
    Reads sha256 bits (TERMINAL :: a.bytes) (.terminal a) := by
  have haudit : audit a 0 bits = .ok () := by
    rw [audit_eq_ok (by omega)]
    intro i v hi
    rw [Nat.zero_add]
    exact ha i v hi
  have hnode : terminalNode a.bytes bits = .ok (.terminal a) := by
    unfold terminalNode
    rw [dif_pos a.length_eq, haudit]
    rfl
  intro pre rest fuel hfuel
  cases fuel with
  | zero => simp at hfuel
  | succ fuel =>
    unfold deserializeFrom
    simp only [List.cons_append, slice_one, slice_succ pre rest TERMINAL a.length_eq, hnode]
    rw [List.length_cons, a.length_eq]
    rfl

lemma reads_truncated (hlen : h.length = 32) : Reads sha256 bits (TRUNCATED :: h) (.truncated h) := by
  intro pre rest fuel hfuel
  cases fuel with
  | zero => simp at hfuel
  | succ fuel =>
    unfold deserializeFrom
    simp only [List.cons_append, slice_one, slice_succ pre rest TRUNCATED hlen]
    rw [List.length_cons, hlen]
    rfl

/-- An inner node, after its children. -/
lemma reads_middle (h0 : Reads sha256 (bits ++ [false]) w0 p0) (h1 : Reads sha256 (bits ++ [true]) w1 p1)
    (hnode : middleNode sha256 p0 p1 = .ok n) : Reads sha256 bits (MIDDLE :: (w0 ++ w1)) n := by
  intro pre rest fuel hfuel
  rw [List.length_cons, List.length_append] at hfuel
  cases fuel with
  | zero => omega
  | succ fuel =>
    have hpre : (pre ++ [MIDDLE]).length = pre.length + 1 := by simp
    have hread0 := h0 (pre ++ [MIDDLE]) (w1 ++ rest) fuel (by omega)
    have hread1 := h1 (pre ++ [MIDDLE] ++ w0) rest fuel (by omega)
    rw [List.length_append, hpre] at hread1
    rw [hpre] at hread0
    have happ : pre ++ (MIDDLE :: (w0 ++ w1) ++ rest) = pre ++ [MIDDLE] ++ (w0 ++ (w1 ++ rest)) := by
      simp
    have happ1 : pre ++ [MIDDLE] ++ (w0 ++ (w1 ++ rest)) = pre ++ [MIDDLE] ++ w0 ++ (w1 ++ rest) := by
      simp
    have hslice : slice (pre ++ [MIDDLE] ++ (w0 ++ (w1 ++ rest))) pre.length 1 = [MIDDLE] := by
      rw [List.append_assoc]
      exact slice_one pre _ MIDDLE
    rw [happ]
    unfold deserializeFrom
    simp only [hslice]
    rw [if_neg (by decide), if_neg (by decide), if_neg (by decide), if_neg (not_not.mpr rfl), hread0,
      ok_bind]
    simp only
    rw [happ1, hread1, ok_bind, hnode]
    simp only [ok_bind, pure_eq, List.length_cons, List.length_append]
    congr 2
    omega

lemma isEmpty_eq_of_getHash {p : Node} (h : p.getHash = t.getHash) :
    p.isEmpty = t.isEmpty ∧ p.isTerminal = t.isTerminal ∧ p.hash = t.hash := by
  rw [Node.getHash_eq, Node.getHash_eq, List.cons.injEq] at h
  refine ⟨?_, ?_, h.2⟩
  · cases p <;> cases t <;> simp_all [Node.kind, Node.isEmpty, EMPTY, TERMINAL, MIDDLE]
  · cases p <;> cases t <;> simp_all [Node.kind, Node.isTerminal, EMPTY, TERMINAL, MIDDLE]

/-- `MiddleNode` depends on the hashes of the children, and on `is_double` of a child beside an empty
one. -/
lemma middleNode_congr (hnode : middleNode sha256 c0 c1 = .ok (.middle c0 c1 h))
    (h0 : p0.getHash = c0.getHash) (h1 : p1.getHash = c1.getHash)
    (hd0 : c1.isEmpty = true → p0.isDouble = c0.isDouble)
    (hd1 : c0.isEmpty = true → p1.isDouble = c1.isDouble) :
    middleNode sha256 p0 p1 = .ok (.middle p0 p1 h) ∧
      (Node.middle p0 p1 h).isDouble = (Node.middle c0 c1 h).isDouble := by
  obtain ⟨he0, ht0, hh0⟩ := isEmpty_eq_of_getHash h0
  obtain ⟨he1, ht1, hh1⟩ := isEmpty_eq_of_getHash h1
  have hbeside : besideEmpty p0 p1 = besideEmpty c0 c1 ∧ besideEmpty p1 p0 = besideEmpty c1 c0 := by
    unfold besideEmpty
    rw [he0, he1]
    constructor
    · split
      · exact hd1 ‹_›
      · rfl
    · split
      · exact hd0 ‹_›
      · rfl
  have hbad : badChildren p0 p1 ↔ badChildren c0 c1 := by
    unfold badChildren
    rw [he0, he1, ht0, ht1, hh0, hh1]
  constructor
  · unfold middleNode at hnode ⊢
    rw [hbeside.1, hbeside.2, h0, h1, hh0, hh1]
    obtain ⟨r, hr, hnode⟩ := bind_eq_ok.mp hnode
    rw [hr, ok_bind]
    by_cases hr1 : r = true
    · rw [if_pos hr1] at hnode ⊢
      rw [(Node.middle.inj (Except.ok.inj hnode)).2.2]
      rfl
    rw [if_neg hr1] at hnode ⊢
    obtain ⟨r', hr', hnode⟩ := bind_eq_ok.mp hnode
    rw [hr', ok_bind]
    by_cases hr2 : r' = true
    · rw [if_pos hr2] at hnode ⊢
      rw [(Node.middle.inj (Except.ok.inj hnode)).2.2]
      rfl
    rw [if_neg hr2] at hnode ⊢
    by_cases hb : badChildren c0 c1
    · rw [if_pos hb] at hnode
      cases hnode
    rw [if_neg hb] at hnode
    rw [if_neg (mt hbad.mp hb)]
    obtain ⟨hash, hhash, hnode⟩ := bind_eq_ok.mp hnode
    rw [hhash, ok_bind, (Node.middle.inj (Except.ok.inj hnode)).2.2]
    rfl
  · unfold Node.isDouble
    rw [he0, he1, ht0, ht1]
    split
    · exact hd1 ‹_›
    · split
      · exact hd0 ‹_›
      · rfl

/-- The tree that is read back from a proof: it has the hash of the trie, and gives the same answer. -/
structure ReadBack (sha256 : Bytes → Bytes32) (bits : List Bool) (t : Node) (v : Bytes32) (r : Bool)
    (w : Bytes) (p : Node) : Prop where
  reads : Reads sha256 bits w p
  getHash : p.getHash = t.getHash
  isDouble : p.isDouble = t.isDouble
  isIncluded : ∃ w', p.isIncluded v bits.length = .ok (r, w')
  messages : ∀ m ∈ messages p, m ∈ messages t

lemma messages_middle_sub (h0 : p0.getHash = c0.getHash) (h1 : p1.getHash = c1.getHash)
    (hd0 : c1.isEmpty = true → p0.isDouble = c0.isDouble)
    (hd1 : c0.isEmpty = true → p1.isDouble = c1.isDouble)
    (hm0 : ∀ m ∈ messages p0, m ∈ messages c0) (hm1 : ∀ m ∈ messages p1, m ∈ messages c1) :
    ∀ m ∈ messages (.middle p0 p1 h), m ∈ messages (.middle c0 c1 h) := by
  have hcollapsed : Collapsed c0 c1 → Collapsed p0 p1 := by
    rintro (⟨rfl, hdouble⟩ | ⟨rfl, hdouble⟩)
    · exact .inl ⟨Node.isEmpty_iff.mp (isEmpty_eq_of_getHash h0).1, (hd1 rfl).trans hdouble⟩
    · exact .inr ⟨Node.isEmpty_iff.mp (isEmpty_eq_of_getHash h1).1, (hd0 rfl).trans hdouble⟩
  intro m hm
  by_cases hp : Collapsed p0 p1
  · rw [messages, if_pos hp] at hm
    refine messages_child m ?_
    rcases List.mem_append.mp hm with hm | hm
    · exact .inl (hm0 m hm)
    · exact .inr (hm1 m hm)
  · rw [messages, if_neg hp] at hm
    rcases List.mem_cons.mp hm with rfl | hm
    · rw [messages, if_neg (mt hcollapsed hp)]
      exact List.mem_cons.mpr (.inl (by rw [pairMessage, pairMessage, h0, h1]))
    · refine messages_child m ?_
      rcases List.mem_append.mp hm with hm | hm
      · exact .inl (hm0 m hm)
      · exact .inr (hm1 m hm)

/-- The sibling of the path is read back as a tree with the same hash. -/
lemma Trie.exists_reads_other (ht : Trie sha256 bits t) (hlen : bits.length ≤ 256) {collapse : Bool}
    (ih : ∀ {r : Bool} {w : Bytes}, t.isIncluded v bits.length = .ok (r, w) →
      ∃ p, ReadBack sha256 bits t v r w p) {other : Bytes}
    (hother : Node.otherIncluded ((t.isIncluded v bits.length).map Prod.snd) t collapse = .ok other) :
    ∃ p, Reads sha256 bits other p ∧ p.getHash = t.getHash ∧
      (collapse = false → p.isDouble = t.isDouble) ∧ (∀ m ∈ messages p, m ∈ messages t) ∧
      ∃ o, Node.otherIncluded ((p.isIncluded v bits.length).map Prod.snd) p collapse = .ok o := by
  have hself := ht
  cases ht with
  | empty =>
    obtain rfl := Except.ok.inj hother
    exact ⟨.empty, reads_empty, rfl, fun _ => rfl, fun _ hm => hm, _, rfl⟩
  | terminal ha =>
    obtain rfl := Except.ok.inj hother
    exact ⟨_, reads_terminal ha hlen, rfl, fun _ => rfl, fun _ hm => hm, _, rfl⟩
  | @middle _ c0 c1 h _ _ _ htwo _ =>
    rw [otherIncluded_middle] at hother
    cases collapse with
    | true =>
      obtain rfl := Except.ok.inj hother
      exact ⟨.truncated h, reads_truncated hself.length_hash, rfl, fun h => (nomatch h), by simp [messages],
        _, rfl⟩
    | false =>
      have hdouble := hself.isDouble_eq htwo
      rw [if_neg Bool.false_ne_true, hdouble, ok_bind] at hother
      by_cases htwo' : (Node.middle c0 c1 h).leaves.length = 2
      · rw [if_pos (decide_eq_true htwo')] at hother
        obtain ⟨⟨r, w⟩, hw, rfl⟩ := map_eq_ok.mp hother
        obtain ⟨p, hp⟩ := ih hw
        refine ⟨p, hp.reads, hp.getHash, fun _ => hp.isDouble, hp.messages, ?_⟩
        obtain ⟨w', hw'⟩ := hp.isIncluded
        cases p with
        | empty => exact ⟨_, rfl⟩
        | terminal => exact ⟨_, rfl⟩
        | truncated => exact ⟨_, rfl⟩
        | middle p0 p1 h' =>
          rw [otherIncluded_middle, if_neg Bool.false_ne_true, hp.isDouble, hdouble, ok_bind,
            if_pos (decide_eq_true htwo'), hw']
          exact ⟨_, rfl⟩
      · rw [if_neg (by rw [decide_eq_true_iff]; exact htwo')] at hother
        obtain rfl := Except.ok.inj hother
        refine ⟨.truncated h, reads_truncated hself.length_hash, rfl, fun _ => ?_, by simp [messages], _, rfl⟩
        rw [hdouble, decide_eq_false htwo']
        rfl

/-- **The proof of a set is read back** as a tree with the same hash and the same answer.

**Proof sketch.** By induction on the trie. The child on the path is read back by induction, and its
sibling is cut off, or is read back by induction as well if the child on the path is empty and the sibling
has exactly two values. Only then does the hash of the node depend on more than the hashes of both. -/
theorem Trie.exists_reads (ht : Trie sha256 bits t) (hlen : bits.length ≤ 256) {r : Bool} {w : Bytes}
    (hr : t.isIncluded v bits.length = .ok (r, w)) : ∃ p, ReadBack sha256 bits t v r w p := by
  induction ht generalizing r w with
  | empty =>
    obtain ⟨rfl, rfl⟩ := Prod.mk.inj (Except.ok.inj hr)
    exact ⟨.empty, reads_empty, rfl, rfl, ⟨_, rfl⟩, fun _ hm => hm⟩
  | terminal ha =>
    obtain ⟨rfl, rfl⟩ := Prod.mk.inj (Except.ok.inj hr)
    exact ⟨_, reads_terminal ha hlen, rfl, rfl, ⟨_, rfl⟩, fun _ hm => hm⟩
  | @middle bits c0 c1 h hdepth h0 h1 htwo hnode ih0 ih1 =>
    have hlen0 : (bits ++ [false]).length = bits.length + 1 := by simp
    have hlen1 : (bits ++ [true]).length = bits.length + 1 := by simp
    obtain ⟨-, ⟨hbit, other, path, hother, hpath, rfl⟩ | ⟨hbit, path, other, hpath, hother, rfl⟩⟩ :=
      isIncluded_middle hr
    · rw [← hlen0] at hother
      rw [← hlen1] at hpath
      obtain ⟨p1, hp1⟩ := ih1 (by omega) hpath
      obtain ⟨p0, hread0, hhash0, hd0, hm0, o, ho⟩ := h0.exists_reads_other (by omega) (ih0 (by omega)) hother
      obtain ⟨w', hw'⟩ := hp1.isIncluded
      obtain ⟨hnode', hdouble⟩ := middleNode_congr hnode hhash0 hp1.getHash
        (fun he => hd0 (by rw [he]; rfl)) (fun _ => hp1.isDouble)
      refine ⟨.middle p0 p1 h, reads_middle hread0 hp1.reads hnode', rfl, hdouble,
        ⟨MIDDLE :: (o ++ w'), ?_⟩, messages_middle_sub hhash0 hp1.getHash (fun he => hd0 (by rw [he]; rfl))
          (fun _ => hp1.isDouble) hm0 hp1.messages⟩
      rw [hlen0] at ho
      rw [hlen1] at hw'
      unfold Node.isIncluded
      rw [getBit_eq_ok v hdepth, ok_bind, if_pos hbit, (isEmpty_eq_of_getHash hp1.getHash).1, ho, ok_bind,
        hw']
      rfl
    · rw [← hlen0] at hpath
      rw [← hlen1] at hother
      obtain ⟨p0, hp0⟩ := ih0 (by omega) hpath
      obtain ⟨p1, hread1, hhash1, hd1, hm1, o, ho⟩ := h1.exists_reads_other (by omega) (ih1 (by omega)) hother
      obtain ⟨w', hw'⟩ := hp0.isIncluded
      obtain ⟨hnode', hdouble⟩ := middleNode_congr hnode hp0.getHash hhash1
        (fun _ => hp0.isDouble) (fun he => hd1 (by rw [he]; rfl))
      refine ⟨.middle p0 p1 h, reads_middle hp0.reads hread1 hnode', rfl, hdouble,
        ⟨MIDDLE :: (w' ++ o), ?_⟩, messages_middle_sub hp0.getHash hhash1 (fun _ => hp0.isDouble)
          (fun he => hd1 (by rw [he]; rfl)) hp0.messages hm1⟩
      rw [hlen1] at ho
      rw [hlen0] at hw'
      unfold Node.isIncluded
      rw [getBit_eq_ok v hdepth, ok_bind, if_neg (by rw [hbit]; exact Bool.false_ne_true), hw', ok_bind]
      simp only
      rw [(isEmpty_eq_of_getHash hp0.getHash).1, ho]
      rfl

end Reads

/-! ## Completeness and soundness -/

/-- The messages that are hashed to check a proof. -/
def proofMessages (sha256 : Bytes → Bytes32) (proof : Bytes) : List Bytes :=
  match deserializeProof sha256 proof with
  | .ok p => rootMessages p
  | .error _ => []

section Confirm

variable {sha256 : Bytes → Bytes32} {t : Node} {root v : Bytes32} {proof : Bytes} {expected : Bool}

/-- What `deserialize_proof` returns is made by the constructors. -/
lemma built_of_deserializeProof {p : Node} (h : deserializeProof sha256 proof = .ok p) :
    Built sha256 [] p := by
  unfold deserializeProof at h
  obtain ⟨⟨r, pos⟩, hread, h⟩ := bind_eq_ok.mp (mapError_eq_ok.mp h)
  simp only at h
  split at h
  · cases h
  · rw [← Except.ok.inj h]
    exact built_of_deserializeFrom hread

lemma confirm_eq_true (h : confirm sha256 root v proof expected = .ok true) :
    ∃ p w, deserializeProof sha256 proof = .ok p ∧ getRoot sha256 p = .ok root ∧
      p.isIncluded v 0 = .ok (expected, w) := by
  have hproof : confirmProof sha256 root v proof expected = .ok true := by
    unfold confirm at h
    split at h
    · cases h
    · exact h
  unfold confirmProof at hproof
  obtain ⟨p, hp, hproof⟩ := bind_eq_ok.mp hproof
  obtain ⟨root', hroot, hproof⟩ := bind_eq_ok.mp hproof
  by_cases hne : root' ≠ root
  · rw [if_pos hne] at hproof
    cases hproof
  rw [if_neg hne] at hproof
  obtain ⟨⟨r, w⟩, hr, hproof⟩ := bind_eq_ok.mp hproof
  have heq : r = expected := by simpa using Except.ok.inj hproof
  rw [← heq]
  exact ⟨p, w, hp, by rw [hroot, not_not.mp hne], hr⟩

/-- **Soundness.** No byte string is accepted for a wrong answer. -/
theorem Trie.of_confirm (ht : Trie sha256 [] t) (hroot : getRoot sha256 t = .ok root)
    (hfree : CollisionFree sha256 (rootMessages t ++ proofMessages sha256 proof))
    (h : confirm sha256 root v proof expected = .ok true) : expected = true ↔ v ∈ t.leaves := by
  obtain ⟨p, w, hp, hproot, hr⟩ := confirm_eq_true h
  rw [proofMessages, hp] at hfree
  exact (built_of_deserializeProof hp).isIncluded_iff_of_getRoot ht hproot hroot hfree hr

lemma Trie.deserializeProof_isIncluded (ht : Trie sha256 [] t) {r : Bool}
    (hr : t.isIncluded v 0 = .ok (r, proof)) :
    ∃ p, deserializeProof sha256 proof = .ok p ∧ ReadBack sha256 [] t v r proof p := by
  obtain ⟨p, hp⟩ := ht.exists_reads (Nat.zero_le 256) hr
  have hread := hp.reads [] [] (proof.length + 1) (Nat.le_succ _)
  simp only [List.nil_append, List.append_nil, List.length_nil, Nat.zero_add] at hread
  refine ⟨p, ?_, hp⟩
  unfold deserializeProof
  rw [hread, ok_bind]
  simp [Except.mapError]

lemma Trie.proofMessages_sub (ht : Trie sha256 [] t) {r : Bool} (hr : t.isIncluded v 0 = .ok (r, proof)) :
    ∀ m ∈ proofMessages sha256 proof, m ∈ rootMessages t := by
  obtain ⟨p, hproof, hp⟩ := ht.deserializeProof_isIncluded hr
  intro m hm
  rw [proofMessages, hproof] at hm
  by_cases hterminal : ∃ a, t = .terminal a
  · obtain ⟨a, rfl⟩ := hterminal
    obtain rfl := eq_terminal_of_getHash hp.getHash
    exact hm
  · refine messages_sub_rootMessages t m (hp.messages m ?_)
    have hne : ∀ a, p ≠ .terminal a := by
      rintro a rfl
      refine hterminal (Node.isTerminal_iff.mp ?_)
      rw [← (isEmpty_eq_of_getHash hp.getHash).2.1]
      rfl
    cases p with
    | terminal a => exact absurd rfl (hne a)
    | empty => exact hm
    | middle => exact hm
    | truncated => exact hm

/-- **Completeness.** The proof that a set gives is accepted for its answer, and only for that. -/
theorem Trie.confirm_isIncluded (ht : Trie sha256 [] t) (hroot : getRoot sha256 t = .ok root) {r : Bool}
    (hr : t.isIncluded v 0 = .ok (r, proof)) :
    confirm sha256 root v proof expected = .ok (r == expected) := by
  obtain ⟨p, hproof, hp⟩ := ht.deserializeProof_isIncluded hr
  have hproot : getRoot sha256 p = .ok root := by
    rw [← hroot, getRoot, getRoot, hp.getHash]
  obtain ⟨w, hw⟩ := hp.isIncluded
  have hconfirm : confirmProof sha256 root v proof expected = .ok (r == expected) := by
    unfold confirmProof isIncludedAlreadyHashed
    rw [hproof, ok_bind, hproot, ok_bind, if_neg (not_not.mpr rfl),
      show p.isIncluded v 0 = .ok (r, w) from hw]
    rfl
  unfold confirm
  rw [hconfirm]

/-- **Proofs of a Merkle set are complete and sound.** For the set of any values, added in any order, the
answer says whether a value is in the set, and the proof that comes with it is accepted as a proof of just
that. As long as SHA-256 does not collide on the messages that are hashed for the set and to check a byte
string, the byte string is accepted as a proof for right answers only. -/
theorem confirm_iff (sha256 : Bytes → Bytes32) (values : List Bytes32) (v : Bytes32) :
    ∃ t root r proof, addAll sha256 values = .ok t ∧ getRoot sha256 t = .ok root ∧
      isIncludedAlreadyHashed t v = .ok (r, proof) ∧ (r = true ↔ v ∈ values) ∧
      (confirmIncludedAlreadyHashed sha256 root v proof = .ok true ↔ v ∈ values) ∧
      (confirmNotIncludedAlreadyHashed sha256 root v proof = .ok true ↔ v ∉ values) ∧
      ∀ q, CollisionFree sha256 (rootMessages t ++ proofMessages sha256 q) →
        (confirmIncludedAlreadyHashed sha256 root v q = .ok true → v ∈ values) ∧
        (confirmNotIncludedAlreadyHashed sha256 root v q = .ok true → v ∉ values) := by
  obtain ⟨t, ht, htrie, hleaves⟩ := exists_addAll sha256 values
  obtain ⟨root, hroot⟩ := htrie.exists_getRoot
  obtain ⟨r, proof, hr⟩ := htrie.exists_isIncluded v
  have hanswer : r = true ↔ v ∈ values := by
    rw [← hleaves, htrie.built.isIncluded_iff (fun i w hi => by simp at hi) hr]
  refine ⟨t, root, r, proof, ht, hroot, hr, hanswer, ?_, ?_, fun q hfree => ⟨fun h => ?_, fun h => ?_⟩⟩
  · rw [confirmIncludedAlreadyHashed, htrie.confirm_isIncluded hroot hr, ← hanswer]
    simp
  · rw [confirmNotIncludedAlreadyHashed, htrie.confirm_isIncluded hroot hr, ← hanswer]
    simp
  · exact (hleaves v).mp ((htrie.of_confirm hroot hfree h).mp rfl)
  · intro hmem
    exact Bool.false_ne_true ((htrie.of_confirm hroot hfree h).mpr ((hleaves v).mpr hmem))

/-- The proof that a set gives for a value. -/
def proofFor (sha256 : Bytes → Bytes32) (values : List Bytes32) (v : Bytes32) : Bytes :=
  match addAll sha256 values >>= (isIncludedAlreadyHashed · v) with
  | .ok (_, proof) => proof
  | .error _ => []

/-- A value beside a subtree with exactly two values, which its proof has in full. -/
theorem confirm_iff_testHash :
    ∃ t root, addAll testHash twoValues = .ok t ∧ getRoot testHash t = .ok root ∧
      confirmNotIncludedAlreadyHashed testHash root (valueOf 0xc0)
        (proofFor testHash twoValues (valueOf 0xc0)) = .ok true ∧ valueOf 0xc0 ∉ twoValues := by
  obtain ⟨t, root, r, proof, ht, hroot, hr, -, -, hnot, hsound⟩ :=
    confirm_iff testHash twoValues (valueOf 0xc0)
  have hproof : proofFor testHash twoValues (valueOf 0xc0) = proof := by
    rw [proofFor, ht, ok_bind, hr]
  have hfree : CollisionFree testHash (hashedFor testHash twoValues ++
      proofMessages testHash (proofFor testHash twoValues (valueOf 0xc0))) := by decide +kernel
  rw [hashedFor_eq ht] at hfree
  have hmem : valueOf 0xc0 ∉ twoValues := by decide +kernel
  have hconfirm := hnot.mpr hmem
  rw [← hproof] at hconfirm
  exact ⟨t, root, ht, hroot, hconfirm, (hsound _ hfree).2 hconfirm⟩

end Confirm

end Chives.MerkleSet
