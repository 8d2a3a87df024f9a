import Chives.Clvm.Serialize
import Chives.Library.Hex

set_option autoImplicit false

/-!
# Detection of template generators

`full_node/bundle_tools.py`: a block whose generator has a standard transaction puzzle in it can be a template for the
compression of others. The puzzle is looked for with a regular expression in the hexadecimal text of the generator, in
which a match may start in the middle of a byte.

## Main definitions

* `STANDARD_TRANSACTION_PUZZLE_PREFIX`, `matchesStandardPuzzle` — the regular expression.
* `matchStandardTransactionAtAnyIndex`, `detectPotentialTemplateGenerator` — the functions.
* `StandardPuzzleAt` — a standard transaction puzzle starts at a byte.
* `Detects` — nothing is raised, and a puzzle behind the first byte is found.

## Main results

* `detects_iff` — this is so exactly if the first match, if there is one, starts with a byte.
* `not_detects` — a generator for which an assertion fails.
-/

namespace Chives

open ExceptRun

/-! ## The regular expression -/

/-- `STANDARD_TRANSACTION_PUZZLE_PREFIX`. -/
def STANDARD_TRANSACTION_PUZZLE_PREFIX : List Char :=
  ("ff02ffff01ff02ffff01ff02ffff03ff0bffff01ff02ffff03ffff09ff05ffff1dff0bffff1effff" ++
    "0bff0bffff02ff06ffff04ff02ffff04ff17ff8080808080808080ffff01ff02ff17ff2f80ffff01" ++
    "ff088080ff0180ffff01ff04ffff04ff04ffff04ff05ffff04ffff02ff06ffff04ff02ffff04ff17" ++
    "ff80808080ff80808080ffff02ff17ff2f808080ff0180ffff04ffff01ff32ff02ffff03ffff07ff" ++
    "0580ffff01ff0bffff0102ffff02ff06ffff04ff02ffff04ff09ff80808080ffff02ff06ffff04ff" ++
    "02ffff04ff0dff8080808080ffff01ff0bffff0101ff058080ff0180ff018080ffff04ffff01").toList

/-- `[a-f0-9]`. -/
def isHexDigit (c : Char) : Bool := (97 ≤ c.toNat && c.toNat ≤ 102) || (48 ≤ c.toNat && c.toNat ≤ 57)

/-- `STANDARD_TRANSACTION_PUZZLE_PATTERN` matches at the start of a text: the prefix, `b0` and 96 digits, and
`ff018080`. -/
def matchesStandardPuzzle (text : List Char) : Bool :=
  let group := text.drop STANDARD_TRANSACTION_PUZZLE_PREFIX.length
  let digits := (group.drop 2).take 96
  STANDARD_TRANSACTION_PUZZLE_PREFIX.isPrefixOf text && ['b', '0'].isPrefixOf group &&
    (decide (digits.length = 96) && digits.all isHexDigit) &&
    ['f', 'f', '0', '1', '8', '0', '8', '0'].isPrefixOf (group.drop 98)

/-- Where the first match of `STANDARD_TRANSACTION_PUZZLE_PATTERN` starts. -/
def searchStandardPuzzle (text : List Char) : Option ℕ := text.tails.findIdx? matchesStandardPuzzle

/-! ## The functions -/

/-- `bytes.fromhex(STANDARD_TRANSACTION_PUZZLE_PREFIX)`. -/
def standardPuzzleStart : Bytes := (Hex.decode STANDARD_TRANSACTION_PUZZLE_PREFIX).getD []

/-- `match_standard_transaction_at_any_index`. -/
def matchStandardTransactionAtAnyIndex (generatorBody : Bytes) : Except PyError (Option (ℕ × ℕ)) :=
  match searchStandardPuzzle (Hex.encode generatorBody) with
  | some mStart => do
    let mEnd := mStart + STANDARD_TRANSACTION_PUZZLE_PREFIX.length + 98 + 8
    pyAssert (mStart % 2 = 0 ∧ mEnd % 2 = 0)
    let start := mStart / 2
    let stop := (mEnd - 98 - 8) / 2
    pyAssert ((generatorBody.drop start).take (stop - start) = standardPuzzleStart)
    return some (start, stop)
  | none => return none

/-- `CompressorArg`. -/
structure CompressorArg where
  blockHeight : ℕ
  generator : Bytes
  start : ℕ
  stop : ℕ

/-- `detect_potential_template_generator`. -/
def detectPotentialTemplateGenerator (blockHeight : ℕ) (program : Bytes) : Except PyError (Option CompressorArg) := do
  let m ← matchStandardTransactionAtAnyIndex program
  match m with
  | none => return none
  | some (start, stop) =>
    if start ≠ 0 ∧ stop ≠ 0 ∧ stop > start then return some ⟨blockHeight, program, start, stop⟩
    else return none

/-! ## What is detected -/

/-- A standard transaction puzzle starts at a byte: the prefix, a public key with its length, and the end. -/
def StandardPuzzleAt (program : Bytes) (k : ℕ) : Prop :=
  ∃ key : Bytes, key.length = 48 ∧ standardPuzzleStart ++ ([0xb0] ++ (key ++ [0xff, 0x01, 0x80, 0x80])) <+: program.drop k

/-- Nothing is raised, a template has the prefix where it says, and if a standard transaction puzzle starts behind the
first byte, and none with it, there is a template. -/
structure Detects (blockHeight : ℕ) (program : Bytes) : Prop where
  returns : ∃ r, detectPotentialTemplateGenerator blockHeight program = .ok r
  template : ∀ arg, detectPotentialTemplateGenerator blockHeight program = .ok (some arg) →
    (program.drop arg.start).take (arg.stop - arg.start) = standardPuzzleStart
  found : ∀ k > 0, StandardPuzzleAt program k → ¬StandardPuzzleAt program 0 →
    detectPotentialTemplateGenerator blockHeight program ≠ .ok none

lemma encode_standardPuzzleStart : Hex.encode standardPuzzleStart = STANDARD_TRANSACTION_PUZZLE_PREFIX := by
  unfold standardPuzzleStart
  generalize h : STANDARD_TRANSACTION_PUZZLE_PREFIX = text
  -- the kernel is slow at the characters of a string, and fast at a list of them
  unfold STANDARD_TRANSACTION_PUZZLE_PREFIX at h
  iterate 5 rewrite [String.toList_append] at h
  iterate 6 rewrite [String.toList_ofList] at h
  subst h
  decide +kernel

lemma length_standardPuzzleStart : standardPuzzleStart.length = 238 := by
  unfold standardPuzzleStart
  generalize h : STANDARD_TRANSACTION_PUZZLE_PREFIX = text
  unfold STANDARD_TRANSACTION_PUZZLE_PREFIX at h
  iterate 5 rewrite [String.toList_append] at h
  iterate 6 rewrite [String.toList_ofList] at h
  subst h
  decide +kernel

lemma length_STANDARD_TRANSACTION_PUZZLE_PREFIX : STANDARD_TRANSACTION_PUZZLE_PREFIX.length = 476 := by
  rw [← encode_standardPuzzleStart, Hex.length_encode, length_standardPuzzleStart]

lemma append_isPrefix_iff {α : Type} {p q l : List α} : p ++ q <+: l ↔ p <+: l ∧ q <+: l.drop p.length := by
  constructor
  · rintro ⟨t, rfl⟩
    rw [List.append_assoc]
    exact ⟨List.prefix_append .., by rw [List.drop_left]; exact List.prefix_append ..⟩
  · rintro ⟨⟨t, rfl⟩, hq⟩
    rw [List.drop_left] at hq
    exact (List.prefix_append_right_inj p).mpr hq

lemma all_isHexDigit_encode (b : Bytes) : (Hex.encode b).all isHexDigit = true := by
  rw [List.all_eq_true]
  intro c hc
  obtain ⟨n, hn, rfl⟩ := Hex.mem_encode hc
  interval_cases n <;> decide

/-- **A match that starts with a byte** is a standard transaction puzzle there. -/
lemma matchesStandardPuzzle_iff (program : Bytes) (k : ℕ) :
    matchesStandardPuzzle ((Hex.encode program).drop (2 * k)) = true ↔ StandardPuzzleAt program k := by
  have hb0 : (['b', '0'] : List Char) = Hex.encode [0xb0] := by decide
  have hend : (['f', 'f', '0', '1', '8', '0', '8', '0'] : List Char) = Hex.encode [0xff, 0x01, 0x80, 0x80] := by decide
  have hgroup : ((Hex.encode (program.drop k)).drop 476) = Hex.encode ((program.drop k).drop 238) :=
    Hex.encode_drop _ 238
  have hdigits : ((Hex.encode ((program.drop k).drop 238)).drop 2).take 96 =
      Hex.encode ((((program.drop k).drop 238).drop 1).take 48) := by
    rw [show (2 : ℕ) = 2 * 1 from rfl, Hex.encode_drop, show (96 : ℕ) = 2 * 48 from rfl, Hex.encode_take]
  have htail : (Hex.encode ((program.drop k).drop 238)).drop 98 = Hex.encode (((program.drop k).drop 238).drop 49) :=
    Hex.encode_drop _ 49
  unfold matchesStandardPuzzle StandardPuzzleAt
  dsimp only
  rw [Hex.encode_drop, length_STANDARD_TRANSACTION_PUZZLE_PREFIX, hgroup, hdigits, htail, hb0, hend,
    ← encode_standardPuzzleStart, all_isHexDigit_encode, Hex.length_encode]
  simp only [Bool.and_eq_true, List.isPrefixOf_iff_prefix, Hex.encode_isPrefix_iff, decide_eq_true_eq, and_true]
  constructor
  · rintro ⟨⟨⟨hstart, hb⟩, hlen⟩, hsuffix⟩
    have hkey : ((((program.drop k).drop 238).drop 1).take 48).length = 48 := by omega
    refine ⟨_, hkey, append_isPrefix_iff.mpr ⟨hstart, append_isPrefix_iff.mpr ⟨?_, append_isPrefix_iff.mpr ⟨?_, ?_⟩⟩⟩⟩
    · rwa [length_standardPuzzleStart]
    · rw [length_standardPuzzleStart]
      exact List.take_prefix ..
    · rw [length_standardPuzzleStart, hkey, List.length_singleton, List.drop_drop, Nat.add_comm]
      exact hsuffix
  · rintro ⟨key, hkey, h⟩
    obtain ⟨hstart, h⟩ := append_isPrefix_iff.mp h
    obtain ⟨hb, h⟩ := append_isPrefix_iff.mp h
    obtain ⟨hk, hsuffix⟩ := append_isPrefix_iff.mp h
    rw [length_standardPuzzleStart] at hb hk hsuffix
    rw [List.length_singleton] at hk hsuffix
    rw [hkey, List.drop_drop] at hsuffix
    refine ⟨⟨⟨hstart, hb⟩, ?_⟩, hsuffix⟩
    have hle := hk.length_le
    rw [hkey] at hle
    rw [List.length_take, Nat.min_eq_left hle]

lemma searchStandardPuzzle_eq_some {text : List Char} {i : ℕ} (h : searchStandardPuzzle text = some i) :
    matchesStandardPuzzle (text.drop i) = true ∧ ∀ j < i, ¬matchesStandardPuzzle (text.drop j) = true := by
  obtain ⟨hi, hmatch, hbefore⟩ := List.findIdx?_eq_some_iff_getElem.mp h
  refine ⟨by rwa [List.getElem_tails] at hmatch, fun j hj => ?_⟩
  have := hbefore j hj
  rwa [List.getElem_tails] at this

lemma not_matches_of_searchStandardPuzzle {text : List Char} (h : searchStandardPuzzle text = none) (i : ℕ) :
    ¬matchesStandardPuzzle (text.drop i) = true := by
  have hall := List.findIdx?_eq_none_iff.mp h (text.drop i)
    ((List.mem_tails _ _).mpr (List.drop_suffix i text))
  simp [hall]

lemma matchStandardTransactionAtAnyIndex_of_even {program : Bytes} {k : ℕ}
    (h : searchStandardPuzzle (Hex.encode program) = some (2 * k)) :
    matchStandardTransactionAtAnyIndex program = .ok (some (k, k + 238)) ∧
      (program.drop k).take 238 = standardPuzzleStart := by
  obtain ⟨key, -, hat⟩ := (matchesStandardPuzzle_iff program k).mp (searchStandardPuzzle_eq_some h).1
  have hstart := (append_isPrefix_iff.mp hat).1
  rw [List.prefix_iff_eq_take, length_standardPuzzleStart] at hstart
  refine ⟨?_, hstart.symm⟩
  have hmod : (2 * k) % 2 = 0 ∧ (2 * k + 476 + 98 + 8) % 2 = 0 := by omega
  have hstop : (2 * k + 476 + 98 + 8 - 98 - 8) / 2 = k + 238 := by omega
  have hhalf : 2 * k / 2 = k := by omega
  simp only [matchStandardTransactionAtAnyIndex, h, length_STANDARD_TRANSACTION_PUZZLE_PREFIX, hstop, hhalf, pyAssert,
    if_pos hmod, ok_bind, Nat.add_sub_cancel_left, ← hstart, if_true]
  rfl

lemma matchStandardTransactionAtAnyIndex_of_odd {program : Bytes} {i : ℕ}
    (h : searchStandardPuzzle (Hex.encode program) = some i) (hi : i % 2 ≠ 0) :
    matchStandardTransactionAtAnyIndex program = .error .assertionError := by
  simp only [matchStandardTransactionAtAnyIndex, h, pyAssert]
  rw [if_neg fun hmod => hi hmod.1]
  rfl

/-- **When the detection does not stop the processing of a block**: the first match of the regular expression, if there
is one, starts with a byte.

**Proof sketch.** If it does, there is a standard transaction puzzle, and it is the first one. If it starts in the middle
of a byte, an assertion fails. -/
theorem detects_iff (blockHeight : ℕ) (program : Bytes) :
    Detects blockHeight program ↔ ∀ i, searchStandardPuzzle (Hex.encode program) = some i → i % 2 = 0 := by
  constructor
  · intro h i hi
    by_contra hodd
    obtain ⟨r, hr⟩ := h.returns
    rw [detectPotentialTemplateGenerator, matchStandardTransactionAtAnyIndex_of_odd hi hodd] at hr
    cases hr
  · intro heven
    cases hsearch : searchStandardPuzzle (Hex.encode program) with
    | none =>
      have hnone : detectPotentialTemplateGenerator blockHeight program = .ok none := by
        simp only [detectPotentialTemplateGenerator, matchStandardTransactionAtAnyIndex, hsearch]
        rfl
      refine ⟨⟨none, hnone⟩, fun arg harg => ?_, fun k _ hat _ => ?_⟩
      · rw [hnone] at harg
        cases harg
      · -- a puzzle would be matched
        exact absurd ((matchesStandardPuzzle_iff program k).mpr hat)
          (not_matches_of_searchStandardPuzzle hsearch (2 * k))
    | some i =>
      obtain ⟨k, rfl⟩ : ∃ k, i = 2 * k := ⟨i / 2, by have := heven i hsearch; omega⟩
      obtain ⟨hmatch, hbytes⟩ := matchStandardTransactionAtAnyIndex_of_even hsearch
      have hdetect : detectPotentialTemplateGenerator blockHeight program =
          .ok (if k ≠ 0 then some ⟨blockHeight, program, k, k + 238⟩ else none) := by
        rw [detectPotentialTemplateGenerator, hmatch, ok_bind]
        by_cases hk : k = 0
        · simp [hk]
        · simp [hk]
      refine ⟨⟨_, hdetect⟩, fun arg harg => ?_, fun k' _ _ hzero => ?_⟩
      · rw [hdetect] at harg
        by_cases hk : k = 0
        · simp [hk] at harg
        · rw [if_pos hk] at harg
          obtain rfl := Option.some.inj (Except.ok.inj harg)
          rw [Nat.add_sub_cancel_left]
          exact hbytes
      · rw [hdetect]
        have hk : k ≠ 0 := by
          rintro rfl
          exact hzero ((matchesStandardPuzzle_iff program 0).mp (searchStandardPuzzle_eq_some hsearch).1)
        simp [hk]

/-! ## A generator that stops the processing -/

/-- An atom whose bytes are those of a standard transaction puzzle, moved by half a byte. -/
def shiftedPuzzle : Bytes :=
  0xc1 :: 0x24 :: (Hex.decode ('0' :: (STANDARD_TRANSACTION_PUZZLE_PREFIX ++ ['b', '0'] ++ List.replicate 96 '0' ++
    ['f', 'f', '0', '1', '8', '0', '8', '0', '0']))).getD []

/-- **A generator for which an assertion fails.** It is an atom, so that a block can have it. -/
theorem not_detects : (∃ x, Program.fromBytes shiftedPuzzle = .ok x) ∧ ∀ blockHeight, ¬Detects blockHeight shiftedPuzzle := by
  have hprogram : (match Program.fromBytes shiftedPuzzle with
      | .ok _ => true
      | .error _ => false) = true := by
    rewrite [shiftedPuzzle]
    generalize h : STANDARD_TRANSACTION_PUZZLE_PREFIX = text
    unfold STANDARD_TRANSACTION_PUZZLE_PREFIX at h
    iterate 5 rewrite [String.toList_append] at h
    iterate 6 rewrite [String.toList_ofList] at h
    subst h
    decide +kernel
  have hsearch : searchStandardPuzzle (Hex.encode shiftedPuzzle) = some 5 := by
    rewrite [searchStandardPuzzle, funext matchesStandardPuzzle.eq_1, shiftedPuzzle]
    generalize h : STANDARD_TRANSACTION_PUZZLE_PREFIX = text
    unfold STANDARD_TRANSACTION_PUZZLE_PREFIX at h
    iterate 5 rewrite [String.toList_append] at h
    iterate 6 rewrite [String.toList_ofList] at h
    subst h
    decide +kernel
  refine ⟨?_, fun blockHeight h => ?_⟩
  · split at hprogram
    · rename_i x hx
      exact ⟨x, hx⟩
    · cases hprogram
  · obtain ⟨r, hr⟩ := h.returns
    rw [detectPotentialTemplateGenerator, matchStandardTransactionAtAnyIndex_of_odd hsearch (by norm_num)] at hr
    cases hr

end Chives
