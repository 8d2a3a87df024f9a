import Chives.Clvm.Operators
import Chives.Types.Coin
import Chives.Util.Ints

set_option autoImplicit false

/-!
# Spends and the meaning of their conditions

The name of a coin (`types/blockchain_format/coin.py`), `CoinSpend` (`types/coin_spend.py`), and how the
conditions that a puzzle returns are read (`util/condition_tools.py`).

## Main definitions

* `Coin.name` — the id of a coin.
* `parseSexpToConditions`, `createdOutputsForConditions` — conditions, and the coins they create.
* `ValidSpend` — a spend whose puzzle returned, and whose conditions about the coin itself hold.

## Main results

* `Coin.eq_of_message` — coins are told apart by what is hashed for their names.
* `ValidSpend.map_additions` — the coins that a spend creates, read off what its puzzle returned.

## Design

The tools turn an opcode into a `ConditionOpcode` and raise on one that they do not know. Consensus gives such
a condition no meaning, so the model keeps every opcode as the byte string it is. Conditions about other spends
and about time are not part of `ValidSpend`; what holds of its values holds all the more under such conditions.
-/

namespace Chives

open SExp

/-! ## Names of coins -/

/-- What is hashed for the name of a coin. -/
def Coin.message (c : Coin) : Bytes :=
  c.parentCoinInfo.bytes ++ c.puzzleHash.bytes ++ intToBytes c.amount

/-- `Coin.name`. -/
def Coin.name (sha256 : Bytes → Bytes32) (c : Coin) : Bytes32 := sha256 c.message

lemma Coin.message_eq {c : Coin} {parent puzzleHash amount : Bytes} (hp : parent.length = 32)
    (hh : puzzleHash.length = 32) (h : c.message = parent ++ puzzleHash ++ amount) :
    c.parentCoinInfo.bytes = parent ∧ c.puzzleHash.bytes = puzzleHash ∧ intToBytes c.amount = amount := by
  obtain ⟨h1, h2⟩ := List.append_inj h (by
    rw [List.length_append, List.length_append, hp, hh, Bytes32.length_eq, Bytes32.length_eq])
  obtain ⟨h3, h4⟩ := List.append_inj h1 (by rw [hp, Bytes32.length_eq])
  exact ⟨h3, h4, h2⟩

lemma Coin.eq_of_message {c d : Coin} (h : c.message = d.message) : c = d := by
  obtain ⟨hp, hh, ha⟩ := message_eq d.parentCoinInfo.length_eq d.puzzleHash.length_eq h
  have hamount : (c.amount : ℤ) = d.amount := by
    rw [← intFromBytes_intToBytes c.amount, ha, intFromBytes_intToBytes]
  cases c
  cases d
  simp only [Coin.mk.injEq]
  exact ⟨Bytes32.ext hp, Bytes32.ext hh, Int.ofNat.inj hamount⟩

/-- The number that stands for a message in `sampleHash`. -/
def sampleCode (m : Bytes) : ℕ := m.foldl (fun acc b => acc * 257 + b.toNat + 1) 0 % 256 ^ 32

/-- A hash that can be evaluated, for sample spends. Only the kernel evaluates it. -/
@[irreducible] def sampleHash (m : Bytes) : Bytes32 := Bytes32.ofNat (sampleCode m)

lemma sampleHash_injOn {l : List Bytes} (h : ∀ m ∈ l, ∀ m' ∈ l, sampleCode m = sampleCode m' → m = m') :
    Set.InjOn sampleHash {m | m ∈ l} := by
  intro m hm m' hm' heq
  unfold sampleHash at heq
  have hlt : ∀ m, sampleCode m < 256 ^ 32 := fun m => Nat.mod_lt _ (by positivity)
  exact h m hm m' hm' (Bytes32.ofNat_injOn (hlt m) (hlt m') heq)

/-- `sampleCode` with the operations that the kernel evaluates at once. -/
def sampleCodeFold (m : Bytes) : ℕ :=
  Nat.mod (m.foldl (fun acc b => Nat.succ (Nat.add (Nat.mul acc 257) b.toNat)) 0) (Nat.pow 256 32)

lemma sampleCode_eq : sampleCode = sampleCodeFold := rfl

lemma sampleHash_eq : sampleHash = fun m =>
    ⟨BigEndian.toBytesOnto 32 (sampleCodeFold m) [], by simp [BigEndian.toBytesOnto_eq]⟩ := by
  funext m
  unfold sampleHash
  apply Bytes32.ext
  show _ = BigEndian.toBytesOnto 32 (sampleCode m) []
  rw [BigEndian.toBytesOnto_eq, List.append_nil]
  rfl

/-! ## Conditions -/

/-- `ConditionOpcode`, as far as the modelled puzzles use it. -/
inductive ConditionOpcode
  | createCoin
  | createCoinAnnouncement
  | assertCoinAnnouncement
  | assertMyCoinId
  | assertMyParentId
  | assertMyAmount
  deriving DecidableEq

/-- The byte string of an opcode. -/
def ConditionOpcode.value : ConditionOpcode → Bytes
  | createCoin => [51]
  | createCoinAnnouncement => [60]
  | assertCoinAnnouncement => [61]
  | assertMyCoinId => [70]
  | assertMyParentId => [71]
  | assertMyAmount => [73]

/-- `ConditionWithArgs`. -/
structure ConditionWithArgs where
  opcode : Bytes
  vars : List Bytes
  deriving DecidableEq

/-- `parse_sexp_to_condition`. -/
def parseSexpToCondition (sexp : SExp) : Option ConditionWithArgs :=
  match sexp.asAtomList with
  | [] => none
  | opcode :: vars => some ⟨opcode, vars⟩

/-- `parse_sexp_to_conditions`. -/
def parseSexpToConditions (sexp : SExp) : Option (List ConditionWithArgs) :=
  sexp.asIter.mapM parseSexpToCondition

/-- One round of `created_outputs_for_conditions_dict`. -/
def createdOutput (inputCoinName : Bytes32) (cvp : ConditionWithArgs) : Except PyError Coin := do
  let puzzleHash ← pyIndex cvp.vars 0
  let amountBin ← pyIndex cvp.vars 1
  let puzzleHash ← Bytes32.new puzzleHash
  let amount ← uint64 (intFromBytes amountBin)
  pure ⟨inputCoinName, puzzleHash, amount⟩

/-- `created_outputs_for_conditions_dict`. -/
def createdOutputsForConditions (conditions : List ConditionWithArgs) (inputCoinName : Bytes32) :
    Except PyError (List Coin) :=
  (conditions.filter fun c => c.opcode = ConditionOpcode.createCoin.value).mapM (createdOutput inputCoinName)

variable {conditions : List ConditionWithArgs} {name : Bytes32}

lemma createdOutputs_eq {l : List (Bytes32 × Bytes × ℕ)}
    (hl : conditions.filter (fun c => c.opcode = ConditionOpcode.createCoin.value) = l.map fun x => ⟨ConditionOpcode.createCoin.value, [x.1.bytes, x.2.1]⟩)
    (hamount : l.all (fun x => intFromBytes x.2.1 = x.2.2 ∧ x.2.2 < 2 ^ 64) = true) :
    createdOutputsForConditions conditions name = .ok (l.map fun x => ⟨name, x.1, x.2.2⟩) := by
  unfold createdOutputsForConditions
  rw [hl]
  clear hl
  induction l with
  | nil => rfl
  | cons x l ih =>
    simp only [List.all_cons, Bool.and_eq_true, decide_eq_true_eq] at hamount
    obtain ⟨⟨hvalue, hlt⟩, hrest⟩ := hamount
    have hcoin : createdOutput name ⟨ConditionOpcode.createCoin.value, [x.1.bytes, x.2.1]⟩ =
        .ok ⟨name, x.1, x.2.2⟩ := by
      have hhash : Bytes32.new x.1.bytes = .ok x.1 := dif_pos x.1.length_eq
      have hn : uint64 (intFromBytes x.2.1) = .ok x.2.2 := uintN_eq_ok.mpr ⟨hvalue, hlt⟩
      show (Bytes32.new x.1.bytes >>= fun h => uint64 (intFromBytes x.2.1) >>= fun n =>
        (pure ⟨name, h, n⟩ : Except PyError Coin)) = _
      rw [hhash, ExceptRun.ok_bind, hn, ExceptRun.ok_bind]
      rfl
    rw [List.map_cons, List.mapM_cons, hcoin, ih hrest]
    rfl

/-- The puzzle hash and the amount of the coin that a condition creates. -/
def createdCoin (sexp : SExp) : Option (Bytes × ℤ) :=
  match sexp.asAtomList with
  | opcode :: puzzleHash :: amount :: _ =>
    if opcode = ConditionOpcode.createCoin.value then some (puzzleHash, intFromBytes amount) else none
  | _ => none

lemma createdOutput_eq_ok {cvp : ConditionWithArgs} {c : Coin} (h : createdOutput name cvp = .ok c) :
    c.parentCoinInfo = name ∧
      ∃ amount rest, cvp.vars = c.puzzleHash.bytes :: amount :: rest ∧ intFromBytes amount = c.amount := by
  simp only [createdOutput, ExceptRun.bind_eq_ok, ExceptRun.pure_eq, Except.ok.injEq] at h
  obtain ⟨ph, h0, amt, h1, ph', hph, n, hn, rfl⟩ := h
  have hn' := (uintN_eq_ok.mp hn).1
  rw [Bytes32.new] at hph
  split at hph
  · cases hph
    refine ⟨rfl, amt, cvp.vars.drop 2, ?_, hn'⟩
    cases hv : cvp.vars with
    | nil => simp [hv, pyIndex] at h0
    | cons x l =>
      cases l with
      | nil => simp [hv, pyIndex] at h1
      | cons y l =>
        simp only [hv, pyIndex, List.getElem?_cons_zero, List.getElem?_cons_succ, Except.ok.injEq] at h0 h1
        rw [h0, h1]
        rfl
  · cases hph

/-- The coins that a list of conditions creates.

**Proof sketch.** Induction on the list: a condition that parses either is a `CREATE_COIN`, and its coin comes
first, or it is not, and it adds nothing on either side. -/
lemma map_createdOutputs {l : List SExp} {coins : List Coin} (hl : l.mapM parseSexpToCondition = some conditions)
    (h : createdOutputsForConditions conditions name = .ok coins) :
    coins.map (fun c => (c.puzzleHash.bytes, (c.amount : ℤ))) = l.filterMap createdCoin ∧
      ∀ c ∈ coins, c.parentCoinInfo = name := by
  induction l generalizing conditions coins with
  | nil =>
    simp only [List.mapM_nil, Option.pure_def, Option.some.injEq] at hl
    subst hl
    simp only [createdOutputsForConditions, List.filter_nil, List.mapM_nil, ExceptRun.pure_eq,
      Except.ok.injEq] at h
    subst h
    simp
  | cons s l ih =>
    simp only [List.mapM_cons, Option.pure_def, Option.bind_eq_bind, Option.bind_eq_some_iff,
      Option.some.injEq] at hl
    obtain ⟨c, hc, cs, hcs, rfl⟩ := hl
    rw [parseSexpToCondition] at hc
    split at hc
    · cases hc
    · rename_i opcode vars hs
      obtain rfl := Option.some.inj hc
      by_cases hop : opcode = ConditionOpcode.createCoin.value
      · simp only [createdOutputsForConditions, List.filter_cons, hop, decide_true, if_true, List.mapM_cons,
          ExceptRun.bind_eq_ok, ExceptRun.pure_eq, Except.ok.injEq] at h
        obtain ⟨coin, hcoin, coins', hcoins', rfl⟩ := h
        obtain ⟨hparent, amount, rest, hvars, hamount⟩ := createdOutput_eq_ok hcoin
        obtain rfl : vars = coin.puzzleHash.bytes :: amount :: rest := hvars
        obtain ⟨ihl, ihp⟩ := ih hcs hcoins'
        have hfirst : createdCoin s = some (coin.puzzleHash.bytes, (coin.amount : ℤ)) := by
          simp only [createdCoin, hs, hop, if_true, hamount]
        constructor
        · rw [List.map_cons, List.filterMap_cons_some hfirst, ihl]
        · intro c' hc'
          rcases List.mem_cons.mp hc' with rfl | hc'
          · exact hparent
          · exact ihp c' hc'
      · have hnone : createdCoin s = none := by
          rw [createdCoin, hs]
          split
          · rename_i op ph amt rest heq
            cases heq
            rw [if_neg hop]
          · rfl
        simp only [createdOutputsForConditions, List.filter_cons, hop, decide_false, Bool.false_eq_true,
          if_false] at h
        rw [List.filterMap_cons_none hnone]
        exact ih hcs h

lemma exists_of_createdCoin {c : SExp} {p : Bytes × ℤ} (h : createdCoin c = some p) :
    ∃ amount rest, c = .pair (.atom ConditionOpcode.createCoin.value)
      (.pair (.atom p.1) (.pair (.atom amount) rest)) ∧ p.2 = intFromBytes amount := by
  rw [createdCoin] at h
  split at h
  · rename_i opcode puzzleHash amount l heq
    split at h
    · rename_i hop
      obtain rfl := Option.some.inj h
      match c, heq with
      | .pair (.atom _) (.pair (.atom _) (.pair (.atom _) d)), heq =>
        simp only [asAtomList, List.cons.injEq] at heq
        obtain ⟨rfl, rfl, rfl, -⟩ := heq
        exact ⟨_, d, by rw [hop], rfl⟩
    · cases h
  · cases h

/-! ## How puzzles read conditions -/

/-- The amount of a `CREATE_COIN`, and 0 for other conditions. -/
def createCoinValue (condition : SExp) : Eval SExp := do
  let opcode ← condition.first
  let isCreateCoin ← opcode.eqAtoms (.atom ConditionOpcode.createCoin.value)
  (if isCreateCoin then condition.third else pure nil)

/-- The amount -113, by which an inner puzzle speaks to the layer around it. -/
def magicAmount : SExp := .atom [0x8f]

/-! ## Spends -/

section ValidSpend

variable (sha256 : Bytes → Bytes32) (run : SExp → SExp → Eval SExp)

/-- What a condition says about the coin that is spent. -/
structure ConditionWithArgs.HoldsFor (cvp : ConditionWithArgs) (coin : Coin) : Prop where
  coinId : cvp.opcode = ConditionOpcode.assertMyCoinId.value →
    cvp.vars.head? = some (coin.name sha256).bytes
  parentId : cvp.opcode = ConditionOpcode.assertMyParentId.value →
    cvp.vars.head? = some coin.parentCoinInfo.bytes
  amount : cvp.opcode = ConditionOpcode.assertMyAmount.value →
    cvp.vars.head?.map intFromBytes = some (coin.amount : ℤ)

/-- `CoinSpend`. -/
structure CoinSpend where
  coin : Coin
  puzzleReveal : SExp
  solution : SExp
  deriving DecidableEq

/-- A spend whose puzzle returned, and whose conditions about the coin itself hold. -/
structure ValidSpend extends CoinSpend where
  output : SExp
  conditions : List ConditionWithArgs
  additions : List Coin
  puzzleReveal_treeHash : puzzleReveal.treeHash sha256 = coin.puzzleHash
  run_eq : run puzzleReveal solution = .ok output
  conditions_eq : parseSexpToConditions output = some conditions
  additions_eq : createdOutputsForConditions conditions (coin.name sha256) = .ok additions
  holds : ∀ cvp ∈ conditions, cvp.HoldsFor sha256 coin

variable {sha256 run}

namespace ValidSpend

/-- **The coins that a spend creates**, read off what its puzzle returned. -/
theorem map_additions (s : ValidSpend sha256 run) :
    s.additions.map (fun c => (c.puzzleHash.bytes, (c.amount : ℤ))) = s.output.asIter.filterMap createdCoin :=
  (map_createdOutputs s.conditions_eq s.additions_eq).1

lemma parent_of_mem_additions (s : ValidSpend sha256 run) {c : Coin} (hc : c ∈ s.additions) :
    c.parentCoinInfo = s.coin.name sha256 :=
  (map_createdOutputs s.conditions_eq s.additions_eq).2 c hc

lemma mem_conditions (s : ValidSpend sha256 run) {c : SExp} (hc : c ∈ s.output.asIter) {opcode : Bytes}
    {vars : List Bytes} (h : c.asAtomList = opcode :: vars) : ⟨opcode, vars⟩ ∈ s.conditions := by
  have hmap := ExceptRun.mapM_eq_some_iff.mp s.conditions_eq
  have hmem : parseSexpToCondition c ∈ s.conditions.map some := by
    rw [← hmap]
    exact List.mem_map_of_mem hc
  rw [parseSexpToCondition, h] at hmem
  simpa using hmem

/-- The messages that a spend announces for its coin. -/
def coinAnnouncements (s : ValidSpend sha256 run) : List Bytes :=
  s.conditions.filterMap fun cvp =>
    if cvp.opcode = ConditionOpcode.createCoinAnnouncement.value then cvp.vars.head? else none

/-- What is hashed for the announcements of a spend. -/
def announcementMessages (s : ValidSpend sha256 run) : List Bytes :=
  s.coinAnnouncements.map fun m => (s.coin.name sha256).bytes ++ m

lemma exists_of_mem_coinAnnouncements (s : ValidSpend sha256 run) {m : Bytes} (h : m ∈ s.coinAnnouncements) :
    ∃ c ∈ s.output.asIter, ∃ vars,
      c.asAtomList = ConditionOpcode.createCoinAnnouncement.value :: m :: vars := by
  obtain ⟨cvp, hcvp, hm⟩ := List.mem_filterMap.mp h
  have hmem : some cvp ∈ s.output.asIter.map parseSexpToCondition := by
    rw [ExceptRun.mapM_eq_some_iff.mp s.conditions_eq]
    exact List.mem_map_of_mem hcvp
  obtain ⟨c, hc, hparse⟩ := List.mem_map.mp hmem
  rw [parseSexpToCondition] at hparse
  split at hparse
  · cases hparse
  · rename_i opcode vars heq
    obtain rfl := Option.some.inj hparse
    split at hm
    · rename_i hop
      obtain ⟨rest, hrest⟩ := List.head?_eq_some_iff.mp hm
      obtain rfl : vars = m :: rest := hrest
      obtain rfl : opcode = ConditionOpcode.createCoinAnnouncement.value := hop
      exact ⟨c, hc, rest, heq⟩
    · cases hm

end ValidSpend

/-- Each announcement that is asserted in a bundle is made in it. -/
def AnnouncementsHold (bundle : List (ValidSpend sha256 run)) : Prop :=
  ∀ s ∈ bundle, ∀ cvp ∈ s.conditions, cvp.opcode = ConditionOpcode.assertCoinAnnouncement.value →
    ∃ s' ∈ bundle, ∃ m ∈ s'.announcementMessages, cvp.vars.head? = some (sha256 m).bytes

end ValidSpend

end Chives
