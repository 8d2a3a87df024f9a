import Chives.Library.Lineage
import Chives.Wallet.SingletonTopLayer

set_option autoImplicit false

/-!
# Histories of singletons

A launcher coin is spent, and coins carry the singleton puzzle for it. Whatever the inner puzzles return and
whatever the solutions are, the coins that are spent with this puzzle form one line: the first one is the child
of the launcher, and each next one is the only child of an odd amount of the one before.

## Main definitions

* `History` — a list of spends, each of a coin that was created before and not spent before.
* `SingletonPuzzles` — the compiled puzzles of one version, and what is assumed about running them.
* `SingletonPuzzles.HashedFor` — what is hashed for a spend is in a set.
* `heir` — the coin that goes on with a singleton.

## Main results

* `SingletonPuzzles.exists_heir` — a singleton that is spent is the heir of an earlier spend.
* `SingletonPuzzles.line_of_history` — the singletons that are spent form one line.

## Design

Rewards have no parent coin. They are `issued`, and all that is asked of them is that their parent is not the
hash of anything that is hashed in the history.
-/

namespace Chives

open SExp

section History

variable {sha256 : Bytes → Bytes32} {run : SExp → SExp → Eval SExp}

/-! ## Histories -/

/-- A history of spends: each coin was issued, or created by the spend of its parent, and is spent at most
once. -/
inductive History (issued : Coin → Prop) : List (ValidSpend sha256 run) → Prop
  | nil : History issued []
  | snoc {l : List (ValidSpend sha256 run)} {s : ValidSpend sha256 run} (history : History issued l)
      (unspent : s.coin ∉ l.map fun p => p.coin) (created : issued s.coin ∨ ∃ p ∈ l, s.coin ∈ p.additions) :
      History issued (l ++ [s])

lemma history_append_singleton {issued : Coin → Prop} {l : List (ValidSpend sha256 run)}
    {s : ValidSpend sha256 run} : History issued (l ++ [s]) ↔
      History issued l ∧ s.coin ∉ (l.map fun p => p.coin) ∧ (issued s.coin ∨ ∃ p ∈ l, s.coin ∈ p.additions) := by
  constructor
  · intro h
    generalize hl : l ++ [s] = l' at h
    cases h with
    | nil => simp at hl
    | snoc history unspent created =>
      obtain ⟨rfl, hs⟩ := List.append_inj' hl rfl
      obtain rfl := (List.cons.inj hs).1
      exact ⟨history, unspent, created⟩
  · rintro ⟨history, unspent, created⟩
    exact .snoc history unspent created

/-- The coins of an odd amount that a spend creates. -/
def ValidSpend.oddAdditions (s : ValidSpend sha256 run) : List Coin :=
  s.additions.filter fun c => c.amount % 2 = 1

/-- The coin that goes on with a singleton: the only child of the launcher, and then the only child of an odd
amount. -/
def heir (launch : ValidSpend sha256 run) : Option (ValidSpend sha256 run) → Coin → Prop
  | none, c => launch.additions = [c]
  | some s, c => s.oddAdditions = [c]

lemma heir_unique {launch : ValidSpend sha256 run} (o : Option (ValidSpend sha256 run)) (c c' : Coin)
    (h : heir launch o c) (h' : heir launch o c') : c = c' := by
  cases o with
  | none => exact (List.cons.inj (h.symm.trans h')).1
  | some s => exact (List.cons.inj (h.symm.trans h')).1

lemma eq_singleton_of_mem {α : Type} {l : List α} {a : α} (hl : l.length ≤ 1) (ha : a ∈ l) : l = [a] := by
  match l, ha with
  | [b], ha => rw [List.mem_singleton.mp ha]
  | _ :: _ :: _, _ => simp at hl

lemma ValidSpend.length_oddAdditions (s : ValidSpend sha256 run) :
    s.oddAdditions.length = oddCreated s.output.asIter := by
  rw [oddCreated, ← s.map_additions, List.countP_map, oddAdditions, ← List.countP_eq_length_filter]
  apply List.countP_congr
  intro c _
  simp only [Function.comp_apply, decide_eq_true_eq]
  omega

/-! ## Singletons -/

variable (sha256 run) in
/-- The compiled puzzles of a version: a run that returns is as the source says. -/
structure SingletonPuzzles where
  version : SingletonVersion
  mod : SExp
  launcherMod : SExp
  run_mod : ∀ struct inner solution out, run (curry mod [struct, inner]) solution = .ok out →
    version.topLayer sha256 run struct inner solution = .ok out
  run_launcherMod : ∀ solution out, run launcherMod solution = .ok out →
    singletonLauncher sha256 solution = .ok out

namespace SingletonPuzzles

variable (P : SingletonPuzzles sha256 run) (launcher : Coin)

/-- The `SINGLETON_STRUCT` for a launcher. -/
def struct : SExp :=
  singletonStruct (P.mod.treeHash sha256) (launcher.name sha256) (P.launcherMod.treeHash sha256)

/-- The singleton puzzle for a launcher. -/
def puzzle (inner : SExp) : SExp := curry P.mod [P.struct launcher, inner]

/-- Where the inner puzzle is in a singleton puzzle. -/
def innerPuzzle : SExp → Option SExp
  | .pair _ (.pair _ (.pair (.pair _ (.pair _ (.pair (.pair _ (.pair (.pair _ inner) _)) _))) _)) => some inner
  | _ => none

/-- The coin carries the singleton puzzle for the launcher. -/
def isSingleton (s : ValidSpend sha256 run) : Bool :=
  match innerPuzzle s.puzzleReveal with
  | some inner => s.puzzleReveal = P.puzzle launcher inner
  | none => false

lemma isSingleton_iff {s : ValidSpend sha256 run} :
    P.isSingleton launcher s = true ↔ ∃ inner, s.puzzleReveal = P.puzzle launcher inner := by
  rw [isSingleton]
  constructor
  · intro h
    split at h
    · exact ⟨_, of_decide_eq_true h⟩
    · cases h
  · rintro ⟨inner, h⟩
    have hi : innerPuzzle s.puzzleReveal = some inner := by
      rw [h]
      rfl
    rw [hi]
    exact decide_eq_true h

/-- What the top layer hashes for the id of the coin and of its parent, and for the puzzle hash of the parent. -/
def lineageMessages (inner solution : SExp) : List Bytes :=
  let modHash := P.mod.treeHash sha256
  let launcherId := launcher.name sha256
  let launcherPuzzleHash := P.launcherMod.treeHash sha256
  let full := fullPuzzleHash sha256 modHash launcherId launcherPuzzleHash (inner.treeHash sha256).bytes
  match solution with
  | .pair proof (.pair (.atom my) _) =>
    (launcherId.bytes ++ full.bytes ++ my) :: match proof with
      | .pair (.atom parentInfo) (.pair (.atom iph) (.pair (.atom amount) _)) =>
        let parent := parentMessage sha256 modHash launcherId launcherPuzzleHash parentInfo iph amount
        parent :: ((sha256 parent).bytes ++ full.bytes ++ my) ::
          curriedMessages sha256 modHash.bytes [iph, ((P.struct launcher).treeHash sha256).bytes]
      | _ => []
  | _ => []

/-- What is hashed for a spend is in `M`: for the name of its coin and for its puzzle, and for the lineage proof
of a singleton. -/
structure HashedFor (M : Set Bytes) (s : ValidSpend sha256 run) : Prop where
  coin : s.coin.message ∈ M
  puzzle : s.puzzleReveal.HashedIn sha256 M
  lineage : ∀ inner, s.puzzleReveal = P.puzzle launcher inner →
    ∀ m ∈ P.lineageMessages launcher inner s.solution, m ∈ M

/-- The parent in the lineage proof of a singleton has the size of a coin id. -/
def LineageProofSized (s : ValidSpend sha256 run) : Prop :=
  P.isSingleton launcher s = true → ∀ proof parentInfo, s.solution.first = .ok proof →
    proof.first = .ok (.atom parentInfo) → parentInfo.length = 32

/-- What a lineage proof says about the parent of a coin. -/
def ProvesParent (M : Set Bytes) (coin : Coin) (parentInfo iph amount : Bytes) : Prop :=
  let modHash := P.mod.treeHash sha256
  let parent := parentMessage sha256 modHash (launcher.name sha256) (P.launcherMod.treeHash sha256)
    parentInfo iph amount
  parentInfo.length = 32 ∧ parent ∈ M ∧
    (∀ m ∈ curriedMessages sha256 modHash.bytes [iph, ((P.struct launcher).treeHash sha256).bytes], m ∈ M) ∧
    coin.parentCoinInfo = sha256 parent

variable {P launcher} {M : Set Bytes} {s p : ValidSpend sha256 run} {issued : Coin → Prop}
  {launch : ValidSpend sha256 run} {l : List (ValidSpend sha256 run)}

lemma HashedFor.of_isLineageProof (hs : P.HashedFor launcher M s) {inner proof : SExp}
    (hinner : s.puzzleReveal = P.puzzle launcher inner) {parentInfo iph amount my : Bytes}
    (hsol : s.solution.first = .ok proof) (hmy : s.solution.second = .ok (.atom my))
    (hproof : IsLineageProof proof parentInfo iph amount) :
    let parent := parentMessage sha256 (P.mod.treeHash sha256) (launcher.name sha256)
      (P.launcherMod.treeHash sha256) parentInfo iph amount
    parent ∈ M ∧ (sha256 parent).bytes ++ (fullPuzzleHash sha256 (P.mod.treeHash sha256) (launcher.name sha256)
        (P.launcherMod.treeHash sha256) (inner.treeHash sha256).bytes).bytes ++ my ∈ M ∧
      ∀ m ∈ curriedMessages sha256 (P.mod.treeHash sha256).bytes
        [iph, ((P.struct launcher).treeHash sha256).bytes], m ∈ M := by
  obtain ⟨rest, rfl⟩ := hproof
  obtain ⟨x, y, hs2⟩ := second_eq_ok.mp hmy
  rw [hs2] at hsol
  obtain rfl := Except.ok.inj hsol
  have hm := hs.lineage inner hinner
  rw [hs2] at hm
  simp only [lineageMessages, List.forall_mem_cons] at hm
  exact hm.2

lemma HashedFor.of_launcher (hs : P.HashedFor launcher M s) {inner : SExp}
    (hinner : s.puzzleReveal = P.puzzle launcher inner) {my : Bytes}
    (hmy : s.solution.second = .ok (.atom my)) :
    (launcher.name sha256).bytes ++ (fullPuzzleHash sha256 (P.mod.treeHash sha256) (launcher.name sha256)
        (P.launcherMod.treeHash sha256) (inner.treeHash sha256).bytes).bytes ++ my ∈ M := by
  obtain ⟨x, y, hs2⟩ := second_eq_ok.mp hmy
  have hm := hs.lineage inner hinner
  rw [hs2] at hm
  simp only [lineageMessages, List.forall_mem_cons] at hm
  exact hm.1

lemma holdsFor_of_mem {opcode arg : Bytes} (h : ofList [.atom opcode, .atom arg] ∈ s.output.asIter) :
    (⟨opcode, [arg]⟩ : ConditionWithArgs).HoldsFor sha256 s.coin :=
  s.holds _ (s.mem_conditions h rfl)

/-- **A singleton that is spent has an odd amount, and a lineage proof**, or its parent is the launcher.

**Proof sketch.** The first version asserts the id of the coin, so that what is hashed for it is what is hashed
for the name of the coin; version 1.1 asserts the parent and the amount themselves. -/
theorem descends (hM : Set.InjOn sha256 M) (hs : P.HashedFor launcher M s) (hsized : P.LineageProofSized launcher s)
    (hsingleton : P.isSingleton launcher s = true) :
    s.coin.amount % 2 = 1 ∧ s.oddAdditions.length ≤ 1 ∧ (s.coin.parentCoinInfo = launcher.name sha256 ∨
      ∃ parentInfo iph amount, P.ProvesParent launcher M s.coin parentInfo iph amount) := by
  obtain ⟨inner, hinner⟩ := (P.isSingleton_iff launcher).mp hsingleton
  have hrun := s.run_eq
  rw [hinner] at hrun
  have hout := P.run_mod _ _ _ _ hrun
  rw [s.length_oddAdditions]
  have hsize : ∀ {proof : SExp} {parentInfo iph amount : Bytes}, s.solution.first = .ok proof →
      IsLineageProof proof parentInfo iph amount → parentInfo.length = 32 := by
    intro proof parentInfo iph amount hproof hlineage
    obtain ⟨rest, rfl⟩ := hlineage
    exact hsized hsingleton _ parentInfo hproof rfl
  cases hv : P.version with
  | v1 =>
    rw [hv] at hout
    obtain ⟨proof, my, myId, hproof, hmy, hodd, hcount, hassert, parent, rfl, hparent⟩ :=
      singletonTopLayer_eq_ok hout
    have hid : sha256 s.coin.message = sha256 _ :=
      (Bytes32.ext (Option.some.inj ((holdsFor_of_mem hassert).coinId rfl))).symm
    have hmem : parent.bytes ++ (fullPuzzleHash sha256 (P.mod.treeHash sha256) (launcher.name sha256)
        (P.launcherMod.treeHash sha256) (inner.treeHash sha256).bytes).bytes ++ my ∈ M := by
      rcases hparent with rfl | ⟨parentInfo, iph, amount, hlineage, rfl⟩
      · exact hs.of_launcher hinner hmy
      · exact (hs.of_isLineageProof hinner hproof hmy hlineage).2.1
    obtain ⟨hp, -, hamount⟩ := Coin.message_eq (Bytes32.length_eq _) (Bytes32.length_eq _) (hM hs.coin hmem hid)
    have hcoin : (s.coin.amount : ℤ) % 2 = 1 := by
      rw [← intFromBytes_intToBytes s.coin.amount, hamount]
      exact hodd
    refine ⟨by omega, hcount, ?_⟩
    rw [Bytes32.ext hp]
    rcases hparent with rfl | ⟨parentInfo, iph, amount, hlineage, rfl⟩
    · exact Or.inl rfl
    · obtain ⟨h1, -, h3⟩ := hs.of_isLineageProof hinner hproof hmy hlineage
      exact Or.inr ⟨parentInfo, iph, amount, hsize hproof hlineage, h1, h3, Bytes32.ext hp⟩
  | v1_1 =>
    rw [hv] at hout
    obtain ⟨proof, my, hproof, hmy, hodd, hcount, hassert, parent, hassertParent, hparent⟩ :=
      V11.singletonTopLayer_eq_ok hout
    have hamount : intFromBytes my = s.coin.amount := Option.some.inj ((holdsFor_of_mem hassert).amount rfl)
    have hp : parent = s.coin.parentCoinInfo :=
      Bytes32.ext (Option.some.inj ((holdsFor_of_mem hassertParent).parentId rfl))
    refine ⟨by omega, hcount, ?_⟩
    rcases hparent with rfl | ⟨parentInfo, iph, amount, hlineage, rfl⟩
    · exact Or.inl hp.symm
    · obtain ⟨h1, -, h3⟩ := hs.of_isLineageProof hinner hproof hmy hlineage
      exact Or.inr ⟨parentInfo, iph, amount, hsize hproof hlineage, h1, h3, hp.symm⟩

/-- **The parent that a lineage proof is about carries the singleton puzzle.** -/
theorem isSingleton_of_provesParent (hM : Set.InjOn sha256 M) (hmod : P.mod.HashedIn sha256 M)
    (hstruct : (P.struct launcher).HashedIn sha256 M) (hp : P.HashedFor launcher M p)
    {parentInfo iph amount : Bytes} (hproves : P.ProvesParent launcher M s.coin parentInfo iph amount)
    (hchild : s.coin ∈ p.additions) : P.isSingleton launcher p = true := by
  obtain ⟨hsize, hparent, hcurried, heq⟩ := hproves
  have hid : sha256 p.coin.message = sha256 _ := (p.parent_of_mem_additions hchild).symm.trans heq
  obtain ⟨-, hph, -⟩ := Coin.message_eq hsize (Bytes32.length_eq _) (hM hp.coin hparent hid)
  have htree : p.puzzleReveal.treeHash sha256 = _ := p.puzzleReveal_treeHash.trans (Bytes32.ext hph)
  obtain ⟨mod, args, hcurry, hmodHash, hargs⟩ := eq_curry_of_treeHash hM hp.puzzle hcurried htree
  have hpuzzle := hp.puzzle
  rw [hcurry] at hpuzzle
  obtain ⟨hmodM, hargsM⟩ := hashedIn_of_curry hpuzzle
  obtain rfl := treeHash_inj hM hmodM hmod (Bytes32.ext hmodHash)
  -- two hashes, so two parameters: the struct and the inner puzzle
  match args, hargs with
  | [struct, inner], hargs =>
    simp only [List.reverse_cons, List.reverse_nil, List.nil_append, List.singleton_append, List.map_cons,
      List.map_nil, List.cons.injEq, and_true] at hargs
    obtain rfl := treeHash_inj hM (hargsM struct List.mem_cons_self) hstruct (Bytes32.ext hargs.2)
    exact (P.isSingleton_iff launcher).mpr ⟨inner, hcurry⟩
  | [], hargs => simp at hargs
  | [_], hargs => simp at hargs
  | _ :: _ :: _ :: _, hargs => simpa using congrArg List.length hargs

/-- **A singleton that is spent is the heir of an earlier spend**, of a singleton or of the launcher. -/
theorem exists_heir (hM : Set.InjOn sha256 M) (hlaunch : launch.puzzleReveal = P.launcherMod)
    (hlauncher : launch.coin.message ∈ M) (hissued : ∀ c, issued c → ∀ m ∈ M, sha256 m ≠ c.parentCoinInfo)
    (hspent : ∀ p ∈ l, p.coin = launch.coin → p = launch) (hl : ∀ p ∈ l, P.HashedFor launch.coin M p)
    (hlsized : ∀ p ∈ l, P.LineageProofSized launch.coin p) (hs : P.HashedFor launch.coin M s) (hsized : P.LineageProofSized launch.coin s)
    (hsingleton : P.isSingleton launch.coin s = true)
    (hcreated : issued s.coin ∨ ∃ p ∈ l, s.coin ∈ p.additions) :
    ∃ o, heir launch o s.coin ∧ (o = none ∨ ∃ p ∈ l.filter (P.isSingleton launch.coin), o = some p) := by
  obtain ⟨hodd, -, hparent⟩ := descends hM hs hsized hsingleton
  rcases hparent with hparent | ⟨parentInfo, iph, amount, hproves⟩
  · rcases hcreated with hi | ⟨p, hp, hchild⟩
    · exact absurd hparent.symm (hissued _ hi _ hlauncher)
    · have hid : sha256 p.coin.message = sha256 launch.coin.message :=
        (p.parent_of_mem_additions hchild).symm.trans hparent
      obtain rfl := hspent p hp (Coin.eq_of_message (hM (hl p hp).coin hlauncher hid))
      refine ⟨none, eq_singleton_of_mem ?_ hchild, Or.inl rfl⟩
      have hrun := p.run_eq
      rw [hlaunch] at hrun
      have hone := singletonLauncher_eq_ok (P.run_launcherMod _ _ hrun)
      rwa [← p.map_additions, List.length_map] at hone
  · rcases hcreated with hi | ⟨p, hp, hchild⟩
    · exact absurd hproves.2.2.2.symm (hissued _ hi _ hproves.2.1)
    · obtain ⟨inner, hinner⟩ := (P.isSingleton_iff launch.coin).mp hsingleton
      have hpuzzle := hs.puzzle
      rw [hinner] at hpuzzle
      obtain ⟨hmod, hargs⟩ := hashedIn_of_curry hpuzzle
      have hsing := isSingleton_of_provesParent hM hmod (hargs _ List.mem_cons_self) (hl p hp) hproves hchild
      have hone := (descends hM (hl p hp) (hlsized p hp) hsing).2.1
      refine ⟨some p, eq_singleton_of_mem hone ?_, Or.inr ⟨p, List.mem_filter.mpr ⟨hp, hsing⟩, rfl⟩⟩
      exact List.mem_filter.mpr ⟨hchild, decide_eq_true hodd⟩

lemma notMem_filter {c : Coin} (h : c ∉ l.map fun p => p.coin) (f : ValidSpend sha256 run → Bool) :
    c ∉ (l.filter f).map fun p => p.coin := by
  intro hc
  obtain ⟨p, hp, rfl⟩ := List.mem_map.mp hc
  exact h (List.mem_map_of_mem (List.mem_of_mem_filter hp))

section Line

variable (hM : Set.InjOn sha256 M) (hlaunch : launch.puzzleReveal = P.launcherMod)
  (hlauncher : launch.coin.message ∈ M) (hissued : ∀ c, issued c → ∀ m ∈ M, sha256 m ≠ c.parentCoinInfo)
include hM hlaunch hlauncher hissued

/-- **The singletons that are spent in a history form one line**, in the order in which they are spent.

**Proof sketch.** Induction on the history. A spend of another coin changes nothing. A singleton is the heir of
the launcher or of an earlier singleton, and since no coin is spent twice, it is that of the last one. -/
theorem line_of_history (hl : History issued l) (hspent : ∀ p ∈ l, p.coin = launch.coin → p = launch)
    (hhashed : ∀ p ∈ l, P.HashedFor launch.coin M p) (hsized : ∀ p ∈ l, P.LineageProofSized launch.coin p) :
    Lineage.Line (fun p => p.coin) (heir launch) none (l.filter (P.isSingleton launch.coin)) := by
  induction hl with
  | nil => exact trivial
  | @snoc l s history unspent created ih =>
    simp only [List.mem_append, List.mem_singleton] at hspent hhashed hsized
    have hline := ih (fun p hp => hspent p (Or.inl hp)) (fun p hp => hhashed p (Or.inl hp))
      (fun p hp => hsized p (Or.inl hp))
    rw [List.filter_append]
    by_cases hsing : P.isSingleton launch.coin s = true
    · obtain ⟨o, ho, hmem⟩ := exists_heir hM hlaunch hlauncher hissued (fun p hp => hspent p (Or.inl hp))
        (fun p hp => hhashed p (Or.inl hp)) (fun p hp => hsized p (Or.inl hp)) (hhashed s (Or.inr rfl))
        (hsized s (Or.inr rfl)) hsing created
      rw [List.filter_cons_of_pos hsing, List.filter_nil]
      exact hline.concat heir_unique (notMem_filter unspent _) ho hmem
    · rw [List.filter_cons_of_neg hsing, List.filter_nil, List.append_nil]
      exact hline

lemma heir_last_of_next (hl : History issued (l ++ [s])) (hspent : ∀ p ∈ l, p.coin = launch.coin → p = launch)
    (hhashed : ∀ p ∈ l ++ [s], P.HashedFor launch.coin M p)
    (hsized : ∀ p ∈ l ++ [s], P.LineageProofSized launch.coin p) (hsing : P.isSingleton launch.coin s = true) :
    heir launch (Lineage.last none (l.filter (P.isSingleton launch.coin))) s.coin := by
  obtain ⟨history, unspent, created⟩ := history_append_singleton.mp hl
  simp only [List.mem_append, List.mem_singleton] at hhashed hsized
  have hline := line_of_history hM hlaunch hlauncher hissued history hspent (fun p hp => hhashed p (Or.inl hp))
    (fun p hp => hsized p (Or.inl hp))
  obtain ⟨o, ho, hmem⟩ := exists_heir hM hlaunch hlauncher hissued hspent (fun p hp => hhashed p (Or.inl hp))
    (fun p hp => hsized p (Or.inl hp)) (hhashed s (Or.inr rfl)) (hsized s (Or.inr rfl)) hsing created
  rwa [← hline.eq_last heir_unique (notMem_filter unspent _) ho hmem]

end Line

/-- **A singleton is unique.** The coins that are ever spent with the singleton puzzle for a launcher form one
line: the first one is the only child of the launcher, and each next one is the only child of an odd amount of
the one before. At every moment, at most one coin can be spent next as the singleton. -/
theorem singleton_unique (hM : Set.InjOn sha256 M) (hlaunch : launch.puzzleReveal = P.launcherMod)
    (hlauncher : launch.coin.message ∈ M) (hissued : ∀ c, issued c → ∀ m ∈ M, sha256 m ≠ c.parentCoinInfo)
    (hl : History issued l) (hspent : ∀ p ∈ l, p.coin = launch.coin → p = launch)
    (hhashed : ∀ p ∈ l, P.HashedFor launch.coin M p) (hsized : ∀ p ∈ l, P.LineageProofSized launch.coin p) :
    Lineage.Line (fun p => p.coin) (heir launch) none (l.filter (P.isSingleton launch.coin)) ∧
      ∀ s s' : ValidSpend sha256 run, (∀ p ∈ [s, s'], History issued (l ++ [p]) ∧
        P.isSingleton launch.coin p = true ∧ P.HashedFor launch.coin M p ∧ P.LineageProofSized launch.coin p) →
        s.coin = s'.coin := by
  refine ⟨line_of_history hM hlaunch hlauncher hissued hl hspent hhashed hsized, fun s s' hnext => ?_⟩
  have hheir : ∀ p ∈ [s, s'], heir launch (Lineage.last none (l.filter (P.isSingleton launch.coin))) p.coin := by
    intro p hp
    obtain ⟨history, hsing, hhash, hsize⟩ := hnext p hp
    refine heir_last_of_next hM hlaunch hlauncher hissued history hspent ?_ ?_ hsing
    · intro q hq
      rcases List.mem_append.mp hq with hq | hq
      · exact hhashed q hq
      · rwa [List.mem_singleton.mp hq]
    · intro q hq
      rcases List.mem_append.mp hq with hq | hq
      · exact hsized q hq
      · rwa [List.mem_singleton.mp hq]
  exact heir_unique _ _ _ (hheir s (by simp)) (hheir s' (by simp))

end SingletonPuzzles

end History

/-! ## A sample history

A launcher and two singletons. The stand-ins for the two compiled puzzles are atoms that `run` knows, and the
inner puzzle is `(r 1)`, which returns the inner solution. The second singleton melts. -/

namespace SingletonSample

/-- The stand-in for the compiled top layer. -/
def mod : SExp := .atom [77]

/-- The stand-in for the compiled launcher. -/
def launcherMod : SExp := .atom [76]

/-- `(r 1)`. -/
def inner : SExp := ofList [.atom [6], .atom [1]]

/-- How the launcher and the inner puzzle run. -/
def runBase (program solution : SExp) : Eval SExp :=
  if program = launcherMod then singletonLauncher sampleHash solution
  else if program = inner then solution.rest
  else .error .unknownProgram

/-- How programs run. -/
def run (program solution : SExp) : Eval SExp :=
  match program with
  | .pair _ (.pair _ (.pair (.pair _ (.pair (.pair _ struct) (.pair (.pair _ (.pair (.pair _ inner) _)) _))) _)) =>
    if program = curry mod [struct, inner] then singletonTopLayer sampleHash runBase struct inner solution
    else .error .unknownProgram
  | _ => runBase program solution

lemma run_of_runBase (p s r : SExp) (h : runBase p s = .ok r) : run p s = .ok r := by
  have hp : p = launcherMod ∨ p = inner := by
    by_contra hne
    rw [not_or] at hne
    rw [runBase, if_neg hne.1, if_neg hne.2] at h
    cases h
  rcases hp with rfl | rfl
  · exact h
  · exact h

/-- The puzzles. -/
def puzzles : SingletonPuzzles sampleHash run where
  version := .v1
  mod := mod
  launcherMod := launcherMod
  run_mod := by
    intro struct inner solution out h
    have hrun : run (curry mod [struct, inner]) solution =
        if curry mod [struct, inner] = curry mod [struct, inner] then
          singletonTopLayer sampleHash runBase struct inner solution else .error .unknownProgram := rfl
    rw [hrun, if_pos rfl] at h
    exact singletonTopLayer_mono run_of_runBase h
  run_launcherMod := fun _ _ h => h

lemma length_parent : (List.replicate 32 (255 : UInt8)).length = 32 := rfl

/-- The launcher coin, a reward. -/
def launcher : Coin := ⟨⟨List.replicate 32 255, length_parent⟩, launcherMod.treeHash sampleHash, 1⟩

/-- The singleton puzzle. -/
def puzzle : SExp := puzzles.puzzle launcher inner

/-- The first singleton. -/
def eve : Coin := ⟨launcher.name sampleHash, puzzle.treeHash sampleHash, 1⟩

/-- The second singleton. -/
def child : Coin := ⟨eve.name sampleHash, puzzle.treeHash sampleHash, 1⟩

/-- The spend of the launcher. -/
def launch : ValidSpend sampleHash run where
  coin := launcher
  puzzleReveal := launcherMod
  solution := ofList [.atom eve.puzzleHash.bytes, .atom [1], nil]
  output := ofList [ofList [.atom [51], .atom eve.puzzleHash.bytes, .atom [1]],
    ofList [.atom [60], .atom ((ofList [.atom eve.puzzleHash.bytes, .atom [1], nil]).treeHash sampleHash).bytes]]
  conditions := [⟨[51], [eve.puzzleHash.bytes, [1]]⟩,
    ⟨[60], [((ofList [.atom eve.puzzleHash.bytes, .atom [1], nil]).treeHash sampleHash).bytes]⟩]
  additions := [eve]
  puzzleReveal_treeHash := rfl
  run_eq := by decide +kernel
  conditions_eq := rfl
  additions_eq := createdOutputs_eq (l := [(eve.puzzleHash, [1], 1)]) rfl (by decide)
  holds := by
    intro cvp hc
    simp only [List.mem_cons, List.not_mem_nil, or_false] at hc
    rcases hc with rfl | rfl <;> constructor <;> intro h <;> cases h

/-- The spend of the first singleton, which creates the second one. -/
def spendEve : ValidSpend sampleHash run where
  coin := eve
  puzzleReveal := puzzle
  solution := ofList [ofList [.atom launcher.parentCoinInfo.bytes, .atom [1]], .atom [1],
    ofList [ofList [.atom [51], .atom (inner.treeHash sampleHash).bytes, .atom [1]]]]
  output := ofList [ofList [.atom [70], .atom (eve.name sampleHash).bytes],
    ofList [.atom [51], .atom child.puzzleHash.bytes, .atom [1]]]
  conditions := [⟨[70], [(eve.name sampleHash).bytes]⟩, ⟨[51], [child.puzzleHash.bytes, [1]]⟩]
  additions := [child]
  puzzleReveal_treeHash := rfl
  run_eq := by decide +kernel
  conditions_eq := rfl
  additions_eq := createdOutputs_eq (l := [(child.puzzleHash, [1], 1)]) rfl (by decide)
  holds := by
    intro cvp hc
    simp only [List.mem_cons, List.not_mem_nil, or_false] at hc
    rcases hc with rfl | rfl
    · exact ⟨fun _ => rfl, (fun h => nomatch h), (fun h => nomatch h)⟩
    · exact ⟨(fun h => nomatch h), (fun h => nomatch h), (fun h => nomatch h)⟩

/-- The spend of the second singleton, which melts. -/
def spendChild : ValidSpend sampleHash run where
  coin := child
  puzzleReveal := puzzle
  solution := ofList [ofList [.atom eve.parentCoinInfo.bytes, .atom (inner.treeHash sampleHash).bytes, .atom [1]],
    .atom [1], ofList [ofList [.atom [51], nil, magicAmount]]]
  output := ofList [ofList [.atom [70], .atom (child.name sampleHash).bytes]]
  conditions := [⟨[70], [(child.name sampleHash).bytes]⟩]
  additions := []
  puzzleReveal_treeHash := rfl
  run_eq := by decide +kernel
  conditions_eq := rfl
  additions_eq := rfl
  holds := by
    intro cvp hc
    obtain rfl := List.mem_singleton.mp hc
    exact ⟨fun _ => rfl, (fun h => nomatch h), (fun h => nomatch h)⟩

/-- What is hashed in the history. -/
def messages : List Bytes :=
  (treeMessages sampleHash launcherMod ++ treeMessages sampleHash puzzle) ++
    [launch, spendEve, spendChild].flatMap fun s =>
      s.coin.message :: puzzles.lineageMessages launcher inner s.solution

lemma hashedFor (s : ValidSpend sampleHash run) (hs : s ∈ [launch, spendEve, spendChild]) :
    puzzles.HashedFor launcher {m | m ∈ messages} s := by
  have hmem : ∀ m ∈ s.coin.message :: puzzles.lineageMessages launcher inner s.solution, m ∈ messages :=
    fun m hm => List.mem_append_right _ (List.mem_flatMap.mpr ⟨s, hs, hm⟩)
  have hpuzzle : ∀ m ∈ treeMessages sampleHash s.puzzleReveal, m ∈ messages := by
    intro m hm
    refine List.mem_append_left _ (List.mem_append.mpr ?_)
    simp only [List.mem_cons, List.not_mem_nil, or_false] at hs
    rcases hs with rfl | rfl | rfl
    · exact Or.inl hm
    · exact Or.inr hm
    · exact Or.inr hm
  rw [List.forall_mem_cons] at hmem
  refine ⟨hmem.1, hashedIn_of_treeMessages hpuzzle, fun inner' hinner => ?_⟩
  have hi : SingletonPuzzles.innerPuzzle s.puzzleReveal = some inner' := by
    rw [hinner]
    rfl
  have hinner' : inner' = inner := by
    simp only [List.mem_cons, List.not_mem_nil, or_false] at hs
    rcases hs with rfl | rfl | rfl
    · cases hi
    · exact (Option.some.inj hi).symm
    · exact (Option.some.inj hi).symm
  rw [hinner']
  exact hmem.2

lemma coins_ne : eve ≠ launcher ∧ child ≠ launcher ∧ child ≠ eve := by
  decide +kernel

lemma history : History (fun c => c = launcher) [launch, spendEve, spendChild] := by
  have h1 : History (fun c => c = launcher) [launch] := .snoc (l := []) .nil List.not_mem_nil (Or.inl rfl)
  have h2 : History (fun c => c = launcher) [launch, spendEve] := by
    refine .snoc (l := [launch]) h1 ?_ (Or.inr ⟨launch, List.mem_cons_self, List.mem_cons_self⟩)
    exact fun h => coins_ne.1 (List.mem_singleton.mp h)
  refine .snoc (l := [launch, spendEve]) h2 ?_ (Or.inr ⟨spendEve, by simp, List.mem_cons_self⟩)
  intro h
  rcases List.mem_cons.mp h with h | h
  · exact coins_ne.2.1 h
  · exact coins_ne.2.2 (List.mem_singleton.mp h)

lemma spent_once (p : ValidSpend sampleHash run) (hp : p ∈ [launch, spendEve, spendChild])
    (h : p.coin = launcher) : p = launch := by
  simp only [List.mem_cons, List.not_mem_nil, or_false] at hp
  rcases hp with rfl | rfl | rfl
  · rfl
  · exact absurd h coins_ne.1
  · exact absurd h coins_ne.2.1

lemma sized (p : ValidSpend sampleHash run) (hp : p ∈ [launch, spendEve, spendChild]) :
    puzzles.LineageProofSized launcher p := by
  intro hsing proof parentInfo hproof hparent
  simp only [List.mem_cons, List.not_mem_nil, or_false] at hp
  rcases hp with rfl | rfl | rfl
  · cases hsing
  · obtain rfl := Except.ok.inj hproof
    obtain rfl := SExp.atom.inj (Except.ok.inj hparent)
    exact Bytes32.length_eq _
  · obtain rfl := Except.ok.inj hproof
    obtain rfl := SExp.atom.inj (Except.ok.inj hparent)
    exact Bytes32.length_eq _

/-- The two singletons form a line. -/
theorem singleton_unique_sample :
    Lineage.Line (fun p => p.coin) (heir launch) none [spendEve, spendChild] := by
  have hsample : (∀ m ∈ messages, ∀ m' ∈ messages, sampleCode m = sampleCode m' → m = m') ∧
      (∀ m ∈ messages, sampleHash m ≠ launcher.parentCoinInfo) ∧
      puzzles.isSingleton launcher launch = false ∧ puzzles.isSingleton launcher spendEve = true ∧
      puzzles.isSingleton launcher spendChild = true := by
    decide +kernel
  obtain ⟨hinj, hmessages, h0, h1, h2⟩ := hsample
  have hissued : ∀ c, c = launcher → ∀ m ∈ {m | m ∈ messages}, sampleHash m ≠ c.parentCoinInfo := by
    rintro c rfl m hm
    exact hmessages m hm
  have hline : Lineage.Line (fun p => p.coin) (heir launch) none
      ([launch, spendEve, spendChild].filter (puzzles.isSingleton launcher)) :=
    (SingletonPuzzles.singleton_unique (sampleHash_injOn hinj) rfl (hashedFor launch List.mem_cons_self).coin hissued
      history spent_once hashedFor sized).1
  have hfilter : [launch, spendEve, spendChild].filter (puzzles.isSingleton launcher) = [spendEve, spendChild] := by
    simp only [List.filter_cons, h0, h1, h2, List.filter_nil, if_true, Bool.false_eq_true, if_false]
  rwa [hfilter] at hline

end SingletonSample

end Chives
