import Mathlib.Data.Int.Bitwise
import Chives.Types.Program

set_option autoImplicit false

/-!
# The operators of the puzzles' language

The operators of the CLVM that the puzzles under `wallet/puzzles` use, as functions on values that may raise.

## Main definitions

* `EvalError`, `Eval` — what evaluation may raise.
* `SExp.first`, `SExp.third`, … — access to lists.
* `SExp.isTrue`, `SExp.ofBool` — truth values.
* `SExp.eqAtoms`, `SExp.logand`, `SExp.asInt`, `SExp.asAtom` — atoms and integers.
* `SExp.substr`, `SExp.substrFrom`, `SExp.concat`, `SExp.grBytes` — byte strings.

## Main results

* `SExp.first_eq_ok`, `SExp.asAtom_eq_ok`, … — what an operator that returns was given.
* `SExp.logand_one` — the last bit is the parity.
* `SExp.substr_take`, `SExp.substrFrom_drop` — a byte string is split at an index.

## Design

An operator that takes an atom and is given a pair raises. The model turns a value into an atom or an integer
where it is used as one, and computes with byte strings and integers from there on.
-/

namespace Chives

/-- Why evaluation fails. -/
inductive EvalError
  | clvmRaise
  | firstOfNonCons
  | restOfNonCons
  | requiresAtom
  | requiresInt32
  | invalidIndices
  | unknownProgram
  deriving DecidableEq

/-- An evaluation. -/
abbrev Eval := Except EvalError

/-- `(x)`. -/
def clvmRaise {α : Type} : Eval α := .error .clvmRaise

/-- `(assert c ...)`. -/
def clvmAssert (c : Bool) : Eval Unit := if c then .ok () else clvmRaise

@[simp] lemma clvmAssert_eq_ok {c : Bool} {u : Unit} : clvmAssert c = .ok u ↔ c = true := by
  cases c <;> simp [clvmAssert, clvmRaise]

namespace SExp

/-! ## Lists -/

/-- `f`. -/
def first : SExp → Eval SExp
  | pair a _ => .ok a
  | atom _ => .error .firstOfNonCons

/-- `r`. -/
def rest : SExp → Eval SExp
  | pair _ b => .ok b
  | atom _ => .error .restOfNonCons

/-- `(f (r s))`. -/
def second (s : SExp) : Eval SExp := s.rest >>= first

/-- `(f (r (r s)))`. -/
def third (s : SExp) : Eval SExp := s.rest >>= second

/-- `(f (r (r (r s))))`. -/
def fourth (s : SExp) : Eval SExp := s.rest >>= third

/-- `(f (r (r (r (r s)))))`. -/
def fifth (s : SExp) : Eval SExp := s.rest >>= fourth

/-- `(f (r (r (r (r (r s))))))`. -/
def sixth (s : SExp) : Eval SExp := s.rest >>= fifth

/-- `(f (r (r (r (r (r (r s)))))))`. -/
def seventh (s : SExp) : Eval SExp := s.rest >>= sixth

variable {s : SExp}

lemma first_eq_ok {a : SExp} : s.first = .ok a ↔ ∃ b, s = pair a b := by
  cases s <;> simp [first]

lemma rest_eq_ok {b : SExp} : s.rest = .ok b ↔ ∃ a, s = pair a b := by
  cases s <;> simp [rest]

lemma second_eq_ok {b : SExp} : s.second = .ok b ↔ ∃ a c, s = pair a (pair b c) := by
  rw [second, ExceptRun.bind_eq_ok]
  constructor
  · rintro ⟨t, ht, hb⟩
    obtain ⟨a, rfl⟩ := rest_eq_ok.mp ht
    obtain ⟨c, rfl⟩ := first_eq_ok.mp hb
    exact ⟨a, c, rfl⟩
  · rintro ⟨a, c, rfl⟩
    exact ⟨_, rfl, rfl⟩

lemma third_eq_ok {c : SExp} : s.third = .ok c ↔ ∃ a b d, s = pair a (pair b (pair c d)) := by
  rw [third, ExceptRun.bind_eq_ok]
  constructor
  · rintro ⟨t, ht, hc⟩
    obtain ⟨a, rfl⟩ := rest_eq_ok.mp ht
    obtain ⟨b, d, rfl⟩ := second_eq_ok.mp hc
    exact ⟨a, b, d, rfl⟩
  · rintro ⟨a, b, d, rfl⟩
    exact ⟨_, rfl, rfl⟩

/-! ## Truth values -/

/-- Only the empty atom is false. -/
def isTrue (s : SExp) : Bool := s ≠ nil

/-- What the operators return for a truth value. -/
def ofBool : Bool → SExp
  | true => atom [1]
  | false => nil

/-! ## Atoms and integers -/

/-- A value used as an atom. -/
def asAtom : SExp → Eval Bytes
  | atom b => .ok b
  | pair _ _ => .error .requiresAtom

/-- A value used as an integer. -/
def asInt (s : SExp) : Eval ℤ := intFromBytes <$> s.asAtom

/-- An integer. -/
def ofInt (n : ℤ) : SExp := atom (intToBytes n)

/-- `=`, which compares atoms by their bytes. -/
def eqAtoms (s t : SExp) : Eval Bool := do
  let a ← s.asAtom
  let b ← t.asAtom
  pure (decide (a = b))

/-- `logand`. -/
def logand (s t : SExp) : Eval SExp := do
  let a ← s.asInt
  let b ← t.asInt
  pure (ofInt (Int.land a b))

variable {b : Bytes}

lemma asAtom_eq_ok : s.asAtom = .ok b ↔ s = atom b := by
  cases s <;> simp [asAtom]

lemma asInt_eq_ok {n : ℤ} : s.asInt = .ok n ↔ ∃ b, s = atom b ∧ intFromBytes b = n := by
  cases s with
  | atom b => simp [asInt, asAtom, Functor.map, Except.map]
  | pair l r => simp [asInt, asAtom, Functor.map, Except.map]

@[simp] lemma asInt_ofInt (n : ℤ) : (ofInt n).asInt = .ok n := by
  rw [asInt_eq_ok]
  exact ⟨_, rfl, intFromBytes_intToBytes n⟩

lemma ofInt_injective : Function.Injective ofInt := by
  intro a b h
  have hab := congrArg asInt h
  rwa [asInt_ofInt, asInt_ofInt, Except.ok.injEq] at hab

lemma eqAtoms_eq_ok {t : SExp} {r : Bool} :
    s.eqAtoms t = .ok r ↔ ∃ a b, s = atom a ∧ t = atom b ∧ decide (a = b) = r := by
  simp only [eqAtoms, ExceptRun.bind_eq_ok, asAtom_eq_ok, ExceptRun.pure_eq, Except.ok.injEq]
  constructor
  · rintro ⟨a, rfl, b, rfl, h⟩
    exact ⟨a, b, rfl, rfl, h⟩
  · rintro ⟨a, b, rfl, rfl, h⟩
    exact ⟨a, rfl, b, rfl, h⟩

lemma eqAtoms_atom_eq_ok {r : Bool} : s.eqAtoms (atom b) = .ok r ↔ ∃ a, s = atom a ∧ decide (a = b) = r := by
  simp only [eqAtoms_eq_ok, atom.injEq]
  constructor
  · rintro ⟨a, b, rfl, rfl, h⟩
    exact ⟨a, rfl, h⟩
  · rintro ⟨a, rfl, h⟩
    exact ⟨a, b, rfl, rfl, h⟩

lemma land_zero (n : ℤ) : Int.land n 0 = 0 := by
  cases n with
  | ofNat m =>
    change ((m &&& 0 : ℕ) : ℤ) = 0
    simp
  | negSucc m =>
    change ((Nat.ldiff 0 m : ℕ) : ℤ) = 0
    simp [Nat.ldiff]

lemma land_one (n : ℤ) : Int.land n 1 = n % 2 := by
  have h1 : (1 : ℤ) = Int.bit true 0 := rfl
  have hn := Int.bodd_add_div2 n
  conv_lhs => rw [← Int.bit_decomp n, h1, Int.land_bit, land_zero, Bool.and_true]
  cases hb : n.bodd <;> rw [hb] at hn <;> simp only [Int.bit, cond_true, cond_false] at hn ⊢ <;> omega

theorem logand_one {r : SExp} : s.logand (atom [1]) = .ok r ↔ ∃ b, s = atom b ∧ r = ofInt (intFromBytes b % 2) := by
  have h1 : (atom [1]).asInt = .ok 1 := by decide
  simp only [logand, ExceptRun.bind_eq_ok, asInt_eq_ok, h1, Except.ok.injEq, ExceptRun.pure_eq]
  constructor
  · rintro ⟨n, ⟨b, rfl, rfl⟩, m, rfl, rfl⟩
    exact ⟨b, rfl, by rw [land_one]⟩
  · rintro ⟨b, rfl, rfl⟩
    exact ⟨_, ⟨b, rfl, rfl⟩, 1, rfl, by rw [land_one]⟩

@[simp] lemma isTrue_parity (n : ℤ) : isTrue (ofInt (n % 2)) = decide (n % 2 = 1) := by
  have h0 : isTrue (ofInt 0) = false := by decide
  have h1 : isTrue (ofInt 1) = true := by decide
  rcases Int.emod_two_eq_zero_or_one n with h | h
  · rw [h, h0]
    rfl
  · rw [h, h1]
    rfl

/-! ## Byte strings -/

/-- A value used as an index: an integer of at most four bytes. -/
def asInt32 : SExp → Eval ℤ
  | atom b => if b.length > 4 then .error .requiresInt32 else .ok (intFromBytes b)
  | pair _ _ => .error .requiresInt32

/-- The bytes from one index up to another one. -/
def slice (b : Bytes) (i j : ℤ) : Eval SExp :=
  if j > b.length ∨ j < i ∨ j < 0 ∨ i < 0 then .error .invalidIndices
  else .ok (atom ((b.take j.toNat).drop i.toNat))

/-- `substr` with two indices. -/
def substr (s i j : SExp) : Eval SExp := do
  let b ← s.asAtom
  let i ← i.asInt32
  let j ← j.asInt32
  slice b i j

/-- `substr` with one index. -/
def substrFrom (s i : SExp) : Eval SExp := do
  let b ← s.asAtom
  let i ← i.asInt32
  slice b i b.length

/-- `concat`. -/
def concat (s t : SExp) : Eval SExp := do
  let a ← s.asAtom
  let b ← t.asAtom
  pure (atom (a ++ b))

/-- `>s`, which compares atoms as byte strings. -/
def grBytes (s t : SExp) : Eval Bool := do
  let a ← s.asAtom
  let b ← t.asAtom
  pure (decide (b < a))

lemma substr_take {j : SExp} {n : ℕ} (hj : j.asInt32 = .ok n) :
    substr (atom b) nil j = if n ≤ b.length then .ok (atom (b.take n)) else .error .invalidIndices := by
  have hnil : nil.asInt32 = .ok 0 := by decide
  rw [substr, asAtom, ExceptRun.ok_bind, hnil, ExceptRun.ok_bind, hj, ExceptRun.ok_bind, slice]
  by_cases hn : n ≤ b.length
  · rw [if_neg (by omega), if_pos hn, Int.toNat_zero, List.drop_zero, Int.toNat_natCast]
  · rw [if_pos (by omega), if_neg hn]

lemma substrFrom_drop {i : SExp} {n : ℕ} (hi : i.asInt32 = .ok n) :
    substrFrom (atom b) i = if n ≤ b.length then .ok (atom (b.drop n)) else .error .invalidIndices := by
  rw [substrFrom, asAtom, ExceptRun.ok_bind, hi, ExceptRun.ok_bind, slice]
  by_cases hn : n ≤ b.length
  · rw [if_neg (by omega), if_pos hn, Int.toNat_natCast, Int.toNat_natCast, List.take_length]
  · rw [if_pos (by omega), if_neg hn]

lemma substr_neg {j : SExp} {n : ℤ} (hj : j.asInt32 = .ok n) (hn : n < 0) :
    substr (atom b) nil j = .error .invalidIndices := by
  have hnil : nil.asInt32 = .ok 0 := by decide
  rw [substr, asAtom, ExceptRun.ok_bind, hnil, ExceptRun.ok_bind, hj, ExceptRun.ok_bind, slice,
    if_pos (.inr (.inl hn))]

end SExp

end Chives
