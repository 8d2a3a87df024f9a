import Mathlib.Algebra.BigOperators.Group.List.Basic
import Mathlib.Data.List.Perm.Subperm
import Mathlib.Tactic.Linarith
import Mathlib.Tactic.Ring
import Chives.Wallet.CatV2

set_option autoImplicit false

/-!
# Conservation of CATs

The coins of a bundle that carry the CAT puzzle with one TAIL hash balance: they create as much as they have,
and as much more as their extra deltas say. Each of them sees two neighbours only. The announcements make the
successor of a coin a coin of the same kind that names it, so the pairs of a coin and the subtotal it passes on
are, as a whole, the pairs that the coins were given, in whatever rings they fall apart.

## Main definitions

* `CatPuzzle` — the compiled puzzle, and what is assumed about running it.
* `CatPuzzle.isCat`, `CatPuzzle.extraDelta` — the coins with a TAIL hash, and what they may add.
* `CatPuzzle.HashedFor` — what is hashed for a spend is in a set.
* `CatPuzzle.TailQuiet` — the TAIL program creates no coin and takes no part in the ring.

## Main results

* `CatPuzzle.exists_next` — the successor of a coin in the ring.
* `CatPuzzle.cat_conservation` — the balance, and where the TAIL program was run.
-/

namespace Chives

open SExp

lemma sum_eq_of_subset {α κ : Type} {R : List α} {f g : α → κ} {v : κ → ℤ} (hnodup : (R.map f).Nodup)
    (hsubset : R.map f ⊆ R.map g) : (R.map fun a => v (f a)).sum = (R.map fun a => v (g a)).sum := by
  have hperm : (R.map f).Perm (R.map g) :=
    (List.subperm_of_subset hnodup hsubset).perm_of_length_le (by simp)
  have hsum := (hperm.map v).sum_eq
  rwa [List.map_map, List.map_map] at hsum

section Conservation

variable {sha256 : Bytes → Bytes32} {run : SExp → SExp → Eval SExp}

variable (sha256 run) in
/-- The compiled puzzle: a run that returns is as the source says. -/
structure CatPuzzle where
  mod : SExp
  run_mod : ∀ modHash tailProgramHash inner solution out,
    run (curry mod [modHash, tailProgramHash, inner]) solution = .ok out →
      catV2 sha256 run modHash tailProgramHash inner solution = .ok out

namespace CatPuzzle

section Spends

variable (C : CatPuzzle sha256 run) (T : Bytes32)

/-- The puzzle's own hash. -/
def modHash : Bytes32 := C.mod.treeHash sha256

/-- `construct_cat_puzzle`. -/
def puzzle (inner : SExp) : SExp := curry C.mod [.atom C.modHash.bytes, .atom T.bytes, inner]

/-- Where the inner puzzle is in a CAT puzzle. -/
def innerPuzzle : SExp → Option SExp
  | .pair _ (.pair _ (.pair (.pair _ (.pair _ (.pair (.pair _ (.pair _ (.pair (.pair _ (.pair (.pair _ inner) _))
      _))) _))) _)) => some inner
  | _ => none

/-- The puzzle is a CAT of `T`. -/
def isCatPuzzle (puzzle : SExp) : Bool :=
  match innerPuzzle puzzle with
  | some inner => puzzle = C.puzzle T inner
  | none => false

/-- The coin is a CAT of `T`. -/
def isCat (s : ValidSpend sha256 run) : Bool := C.isCatPuzzle T s.puzzleReveal

/-- The CATs of `T` are the curried puzzles. -/
lemma isCatPuzzle_iff {puzzle : SExp} :
    C.isCatPuzzle T puzzle = true ↔ ∃ inner, puzzle = C.puzzle T inner := by
  rw [isCatPuzzle]
  constructor
  · intro h
    split at h
    · exact ⟨_, of_decide_eq_true h⟩
    · cases h
  · rintro ⟨inner, rfl⟩
    have hi : innerPuzzle (C.puzzle T inner) = some inner := rfl
    rw [hi]
    exact decide_eq_true rfl

/-- The `extra_delta` of a spend. -/
def extraDelta (s : ValidSpend sha256 run) : ℤ :=
  match s.solution.seventh >>= asInt with
  | .ok n => n
  | .error _ => 0

/-- The coin is a CAT of `T`, and the run of its puzzle computed `d`. -/
def Describes (s : ValidSpend sha256 run) (d : CatData) : Prop :=
  s.puzzleReveal = C.puzzle T d.innerPuzzle ∧ d.Describes sha256 run C.modHash T s.solution s.output

/-- What a lineage proof hashes. -/
def proofMessages (parent innerPuzzleHash amount : Bytes) : List Bytes :=
  (parent ++ (catHash sha256 C.modHash T innerPuzzleHash).bytes ++ amount) ::
    curriedMessages sha256 C.modHash.bytes (catParameterHashes sha256 C.modHash T innerPuzzleHash)

/-- What is hashed for a spend is in `M`: for the name of its coin, for its puzzle and its announcements, and what
the CAT puzzle hashes for the coin, the next coin, the two announcements and the lineage proof. -/
structure HashedFor (M : Set Bytes) (s : ValidSpend sha256 run) : Prop where
  coin : s.coin.message ∈ M
  puzzle : s.puzzleReveal.HashedIn sha256 M
  announcements : ∀ m ∈ s.announcementMessages, m ∈ M
  message : ∀ d, C.Describes T s d → d.message ∈ M
  next : ∀ d, C.Describes T s d → ∀ m ∈ C.proofMessages T d.nextParent d.nextInnerPuzzleHash d.nextAmount, m ∈ M
  prevRing : ∀ d, C.Describes T s d → (ofList [d.prevCoinId, d.prevSubtotal]).HashedIn sha256 M
  nextRing : ∀ d, C.Describes T s d →
    (ofList [.atom (sha256 d.message).bytes, ofInt d.thisSubtotal]).HashedIn sha256 M ∧
      (sha256 (d.nextMessage sha256 C.modHash T)).bytes ++ d.nextRingMessage sha256 ∈ M
  lineage : ∀ d, C.Describes T s d → ∀ parent iph amount,
    CatData.IsCoinProof d.lineageProof parent iph amount → ∀ m ∈ C.proofMessages T parent iph amount, m ∈ M

/-- The TAIL program that is run creates no coin and announces nothing in the ring. -/
def TailQuiet (s : ValidSpend sha256 run) : Prop :=
  ∀ d, C.Describes T s d → ∀ reveal returned, d.tail = some (reveal, returned) → ∀ c ∈ returned.asIter,
    (∀ vars, c.asAtomList ≠ ConditionOpcode.createCoin.value :: vars) ∧ ¬IsRingAnnouncement c

/-- The program with the hash `T` was run for the spend, and what it returned is among the conditions. -/
def RanTail (s : ValidSpend sha256 run) : Prop :=
  ∃ reveal arguments returned, reveal.treeHash sha256 = T ∧ run reveal arguments = .ok returned ∧
    ∀ c ∈ returned.asIter, c ∈ s.output.asIter

end Spends

variable {C : CatPuzzle sha256 run} {T : Bytes32} {M : Set Bytes} {s s' : ValidSpend sha256 run} {d d' : CatData}
  {bundle : List (ValidSpend sha256 run)}

lemma exists_describes_of_isCat (h : C.isCat T s = true) : ∃ d, C.Describes T s d := by
  obtain ⟨inner, hinner⟩ := (C.isCatPuzzle_iff T).mp h
  have hrun := s.run_eq
  rw [hinner] at hrun
  obtain ⟨d, rfl, hd⟩ := exists_describes (C.run_mod _ _ _ _ _ hrun)
  exact ⟨d, hinner, hd⟩

lemma Describes.isCat (h : C.Describes T s d) : C.isCat T s = true :=
  (C.isCatPuzzle_iff T).mpr ⟨d.innerPuzzle, h.1⟩

lemma Describes.sound (h : C.Describes T s d) : d.stripped.Sound sha256 C.modHash T :=
  findAndStripTailInfo_spec h.2.stripped_eq

lemma message_eq (hM : Set.InjOn sha256 M) (hs : C.HashedFor T M s) (hd : C.Describes T s d) :
    d.message = s.coin.message := by
  have hmem : ofList [.atom ConditionOpcode.assertMyCoinId.value, .atom (sha256 d.message).bytes] ∈
      s.output.asIter := by
    rw [hd.2.out_eq]
    exact List.mem_cons_self
  have hholds := (s.holds _ (s.mem_conditions hmem rfl)).coinId rfl
  have hid : sha256 d.message = sha256 s.coin.message := Bytes32.ext (Option.some.inj hholds)
  exact hM (hs.message d hd) hs.coin hid

lemma amount_eq (hM : Set.InjOn sha256 M) (hs : C.HashedFor T M s) (hd : C.Describes T s d) :
    intFromBytes d.amount = s.coin.amount := by
  obtain ⟨-, -, hamount⟩ := Coin.message_eq hd.2.parent_length hd.2.puzzleHash_length (message_eq hM hs hd).symm
  rw [← hamount, intFromBytes_intToBytes]

theorem isCatPuzzle_of_treeHash (hM : Set.InjOn sha256 M) (hmod : C.mod.HashedIn sha256 M)
    (hmodHash : (SExp.atom C.modHash.bytes).HashedIn sha256 M) (hT : (SExp.atom T.bytes).HashedIn sha256 M)
    {puzzle : SExp} (hpuzzle : puzzle.HashedIn sha256 M) {iph : Bytes}
    (hm : ∀ m ∈ curriedMessages sha256 C.modHash.bytes (catParameterHashes sha256 C.modHash T iph), m ∈ M)
    (h : puzzle.treeHash sha256 = catHash sha256 C.modHash T iph) : C.isCatPuzzle T puzzle = true := by
  obtain ⟨mod, args, rfl, hmodEq, hargs⟩ := eq_curry_of_treeHash hM hpuzzle hm h
  obtain ⟨hmodM, hargsM⟩ := hashedIn_of_curry hpuzzle
  obtain rfl := treeHash_inj hM hmodM hmod (Bytes32.ext hmodEq)
  match args, hargs with
  | [a, b, inner], hargs =>
    simp only [catParameterHashes, List.reverse_cons, List.reverse_nil, List.nil_append, List.cons_append,
      List.map_cons, List.map_nil, List.cons.injEq, and_true] at hargs
    obtain ⟨-, hb, ha⟩ := hargs
    obtain rfl := treeHash_inj hM (hargsM a (by simp)) hmodHash (Bytes32.ext ha)
    obtain rfl := treeHash_inj hM (hargsM b (by simp)) hT (Bytes32.ext hb)
    exact (C.isCatPuzzle_iff T).mpr ⟨inner, rfl⟩
  | [], hargs => simp [catParameterHashes] at hargs
  | [_], hargs => simp [catParameterHashes] at hargs
  | [_, _], hargs => simp [catParameterHashes] at hargs
  | _ :: _ :: _ :: _ :: _, hargs => simpa [catParameterHashes] using congrArg List.length hargs

lemma hashedIn_of_isCat (hs : C.HashedFor T M s) (h : C.isCat T s = true) :
    C.mod.HashedIn sha256 M ∧ (SExp.atom C.modHash.bytes).HashedIn sha256 M ∧
      (SExp.atom T.bytes).HashedIn sha256 M := by
  obtain ⟨inner, hinner⟩ := (C.isCatPuzzle_iff T).mp h
  have hpuzzle := hs.puzzle
  rw [hinner] at hpuzzle
  obtain ⟨hmod, hargs⟩ := hashedIn_of_curry hpuzzle
  exact ⟨hmod, hargs _ (by simp), hargs _ (by simp)⟩

/-- **The only announcement in the ring** that a CAT makes is its own. -/
lemma ringMessage_of_mem (hd : C.Describes T s d) (hquiet : C.TailQuiet T s) {m : Bytes}
    (hm : m ∈ s.coinAnnouncements) (hring : isRingMessage m = true) :
    m = ringMessage sha256 d.prevCoinId d.prevSubtotal := by
  obtain ⟨c, hc, vars, hatoms⟩ := s.exists_of_mem_coinAnnouncements hm
  have hann : IsRingAnnouncement c := ⟨m, vars, hatoms, hring⟩
  rw [hd.2.out_eq, CatData.output, List.mem_cons, List.mem_append, List.mem_cons, List.mem_cons] at hc
  rcases hc with rfl | hc | rfl | rfl | hc
  · cases (List.cons.inj hatoms).1
  · cases htail : d.tail with
    | none =>
      rw [CatData.tailConditions, htail] at hc
      cases hc
    | some t =>
      rw [CatData.tailConditions, htail] at hc
      exact absurd hann (hquiet d hd t.1 t.2 htail c hc).2
  · exact (List.cons.inj (List.cons.inj hatoms).2).1.symm
  · cases (List.cons.inj hatoms).1
  · exact absurd hann (hd.sound.quiet c hc)

/-- **The successor of a coin in the ring** is a CAT of the same TAIL hash, which was given the coin and the
subtotal that it passes on.

**Proof sketch.** The announcement that is asserted is made by some coin of the bundle. What is hashed for it starts
with the name of that coin, so it is the next coin of the proof, whose puzzle hash is that of a CAT. A CAT makes no
other announcement of this kind than its own. -/
theorem exists_next (hM : Set.InjOn sha256 M) (hann : AnnouncementsHold bundle)
    (hhashed : ∀ p ∈ bundle, C.HashedFor T M p) (hquiet : ∀ p ∈ bundle, C.TailQuiet T p) (hs : s ∈ bundle)
    (hd : C.Describes T s d) :
    ∃ p ∈ bundle, C.isCat T p = true ∧ ∀ e, C.Describes T p e →
      e.prevCoinId = .atom (s.coin.name sha256).bytes ∧ e.prevSubtotal = ofInt d.thisSubtotal := by
  have hhash := hhashed s hs
  have hmem : createAssertNextAnnouncementCondition sha256 (sha256 d.message) d.thisSubtotal
      (sha256 (d.nextMessage sha256 C.modHash T)) ∈ s.output.asIter := by
    rw [hd.2.out_eq, CatData.output]
    simp
  obtain ⟨p, hp, m, hm, heq⟩ := hann s hs _ (s.mem_conditions hmem rfl) rfl
  obtain ⟨a, ha, rfl⟩ := List.mem_map.mp hm
  have hid : sha256 ((sha256 (d.nextMessage sha256 C.modHash T)).bytes ++ d.nextRingMessage sha256) =
      sha256 ((p.coin.name sha256).bytes ++ a) := Bytes32.ext (Option.some.inj heq)
  have hmsg := hM (hhash.nextRing d hd).2 ((hhashed p hp).announcements _ hm) hid
  obtain ⟨hname, hring⟩ := List.append_inj hmsg (by rw [Bytes32.length_eq, Bytes32.length_eq])
  -- the coin that announces is the next coin, so it is a CAT
  have hnext := hhash.next d hd
  rw [proofMessages, List.forall_mem_cons] at hnext
  have hcoin := hM hnext.1 (hhashed p hp).coin (Bytes32.ext hname)
  obtain ⟨-, hph, -⟩ := Coin.message_eq hd.2.nextParent_length (Bytes32.length_eq _) hcoin.symm
  obtain ⟨hmod, hmodHash, hT⟩ := hashedIn_of_isCat hhash hd.isCat
  have hpcat : C.isCat T p = true := isCatPuzzle_of_treeHash hM hmod hmodHash hT (hhashed p hp).puzzle hnext.2
    (p.puzzleReveal_treeHash.trans (Bytes32.ext hph))
  refine ⟨p, hp, hpcat, fun e he => ?_⟩
  -- what it announces is its own message
  have hringA : isRingMessage a = true := by
    rw [← hring, CatData.nextRingMessage, ringMessage, isRingMessage]
    simp [Bytes32.length_eq]
  have hown := ringMessage_of_mem he (hquiet p hp) ha hringA
  rw [hown] at hring
  have htree := treeHash_inj hM (hhash.nextRing d hd).1 ((hhashed p hp).prevRing e he)
    (Bytes32.ext (List.cons.inj hring).2)
  simp only [ofList, SExp.pair.injEq, and_true] at htree
  refine ⟨?_, htree.2.symm⟩
  rw [← htree.1, message_eq hM hhash hd]
  rfl

lemma filterMap_createdCoin (hd : C.Describes T s d) (hquiet : C.TailQuiet T s) :
    s.output.asIter.filterMap createdCoin = d.stripped.morphedConditions.asIter.filterMap createdCoin := by
  have htail : d.tailConditions.filterMap createdCoin = [] := by
    rw [List.filterMap_eq_nil_iff]
    intro c hc
    cases ht : d.tail with
    | none =>
      rw [CatData.tailConditions, ht] at hc
      cases hc
    | some t =>
      rw [CatData.tailConditions, ht] at hc
      have hno := (hquiet d hd t.1 t.2 ht c hc).1
      by_contra hne
      obtain ⟨p, hp⟩ := Option.ne_none_iff_exists'.mp hne
      obtain ⟨amount, rest, rfl, -⟩ := exists_of_createdCoin hp
      exact hno _ rfl
  rw [hd.2.out_eq, CatData.output, List.filterMap_cons_none rfl, List.filterMap_append, htail, List.nil_append,
    List.filterMap_cons_none rfl, List.filterMap_cons_none rfl]

lemma sum_additions (hd : C.Describes T s d) (hquiet : C.TailQuiet T s) :
    (s.additions.map fun c => (c.amount : ℤ)).sum = d.stripped.outputSum := by
  have hmap := congrArg (List.map Prod.snd) s.map_additions
  rw [List.map_map, filterMap_createdCoin hd hquiet] at hmap
  rw [← hd.sound.sum, ← hmap]
  rfl

lemma extraDelta_eq (hd : C.Describes T s d) : extraDelta s = d.delta := by
  rw [extraDelta, hd.2.extraDelta_eq, ExceptRun.ok_bind, hd.2.delta_eq]

/-- **Without the TAIL program, the extra delta is 0 and the parent is a CAT**, if it is the coin that was spent
with the given puzzle. -/
lemma of_not_ranTail (hM : Set.InjOn sha256 M) (hs : C.HashedFor T M s) (hd : C.Describes T s d)
    (hran : ¬RanTail T s) : extraDelta s = 0 ∧ ∀ (parent : Coin) (puzzle : SExp), parent.message ∈ M →
      puzzle.HashedIn sha256 M → parent.name sha256 = s.coin.parentCoinInfo →
      puzzle.treeHash sha256 = parent.puzzleHash → C.isCatPuzzle T puzzle = true := by
  have hnone : d.tail = none := by
    cases ht : d.tail with
    | none => rfl
    | some t =>
      obtain ⟨hhash, arguments, hrun⟩ := hd.2.someTail t.1 t.2 ht
      refine absurd ⟨t.1, arguments, t.2, hhash, hrun, fun c hc => ?_⟩ hran
      rw [hd.2.out_eq, CatData.output, CatData.tailConditions, ht]
      exact List.mem_cons_of_mem _ (List.mem_append_left _ hc)
  obtain ⟨hdelta, pp, iph, amount, hproof, hlength, hparent⟩ := hd.2.noTail hnone
  constructor
  · have hzero := hd.2.delta_eq
    rw [hdelta] at hzero
    rw [extraDelta_eq hd]
    exact (Except.ok.inj hzero).symm
  · intro parent puzzle hparentM hpuzzle hname hhash
    obtain ⟨hp, -, -⟩ := Coin.message_eq hd.2.parent_length hd.2.puzzleHash_length (message_eq hM hs hd).symm
    have hm := hs.lineage d hd pp iph amount hproof
    rw [proofMessages, List.forall_mem_cons] at hm
    have hid : sha256 parent.message = sha256 _ := hname.trans (Bytes32.ext (hp.trans hparent))
    obtain ⟨-, hph, -⟩ := Coin.message_eq hlength (Bytes32.length_eq _) (hM hparentM hm.1 hid)
    obtain ⟨hmod, hmodHash, hT⟩ := hashedIn_of_isCat hs hd.isCat
    exact isCatPuzzle_of_treeHash hM hmod hmodHash hT hpuzzle hm.2 (hhash.trans (Bytes32.ext hph))

/-- **The subtotals that are passed on are those that are given**, summed over all CATs of the bundle.

**Proof sketch.** Each pair of a coin and the subtotal it passes on is the pair that its successor was given. The
first pairs are different, since the coins are, and there are as many of them as of the others. -/
lemma sum_subtotals (hM : Set.InjOn sha256 M) (hnodup : (bundle.map fun p => p.coin).Nodup)
    (hann : AnnouncementsHold bundle) (hhashed : ∀ p ∈ bundle, C.HashedFor T M p)
    (hquiet : ∀ p ∈ bundle, C.TailQuiet T p) {data : ValidSpend sha256 run → CatData}
    (hdata : ∀ p ∈ bundle.filter (C.isCat T), C.Describes T p (data p)) :
    ((bundle.filter (C.isCat T)).map fun p => (data p).thisSubtotal).sum =
      ((bundle.filter (C.isCat T)).map fun p => (data p).subtotal).sum := by
  let value : SExp × SExp → ℤ := fun x => (x.2.asInt.toOption).getD 0
  let passed : ValidSpend sha256 run → SExp × SExp := fun p =>
    (.atom (p.coin.name sha256).bytes, ofInt (data p).thisSubtotal)
  let given : ValidSpend sha256 run → SExp × SExp := fun p => ((data p).prevCoinId, (data p).prevSubtotal)
  have hsubset : (bundle.filter (C.isCat T)).map passed ⊆ (bundle.filter (C.isCat T)).map given := by
    intro x hx
    obtain ⟨p, hp, rfl⟩ := List.mem_map.mp hx
    obtain ⟨q, hq, hqcat, hgiven⟩ :=
      exists_next hM hann hhashed hquiet (List.mem_of_mem_filter hp) (hdata p hp)
    have hqmem : q ∈ bundle.filter (C.isCat T) := List.mem_filter.mpr ⟨hq, hqcat⟩
    obtain ⟨hid, hsubtotal⟩ := hgiven (data q) (hdata q hqmem)
    exact List.mem_map.mpr ⟨q, hqmem, Prod.ext hid hsubtotal⟩
  have hpassed : ((bundle.filter (C.isCat T)).map passed).Nodup := by
    have hcoins : ((bundle.filter (C.isCat T)).map fun p => p.coin).Nodup :=
      hnodup.sublist (List.filter_sublist.map _)
    rw [List.Nodup, List.pairwise_map] at hcoins ⊢
    refine hcoins.imp_of_mem fun {p q} hp hq hne heq => hne ?_
    have hname := SExp.atom.inj (congrArg Prod.fst heq)
    exact Coin.eq_of_message (hM (hhashed p (List.mem_of_mem_filter hp)).coin
      (hhashed q (List.mem_of_mem_filter hq)).coin (Bytes32.ext hname))
  have hsum := sum_eq_of_subset (v := value) hpassed hsubset
  have hthis : ∀ p, value (passed p) = (data p).thisSubtotal := by
    intro p
    simp only [value, passed, asInt_ofInt]
    rfl
  have hgiven : ∀ p ∈ bundle.filter (C.isCat T), value (given p) = (data p).subtotal := by
    intro p hp
    simp only [value, given, (hdata p hp).2.subtotal_eq]
    rfl
  rw [List.map_congr_left hgiven] at hsum
  simpa only [hthis] using hsum

end CatPuzzle

end Conservation

/-! ## A sample ring

One coin that is its own neighbour, with a parent that is a CAT. The stand-in for the compiled puzzle is an atom
that `run` knows, and the inner puzzle is `1`, which returns its solution. -/

namespace CatSample

/-- The stand-in for the compiled puzzle. -/
def mod : SExp := .atom [77]

/-- `1`. -/
def inner : SExp := .atom [1]

/-- How the inner puzzle runs. -/
def runBase (program solution : SExp) : Eval SExp :=
  if program = inner then .ok solution else .error .unknownProgram

/-- How programs run. -/
def run (program solution : SExp) : Eval SExp :=
  match program with
  | .pair _ (.pair _ (.pair (.pair _ (.pair (.pair _ modHash) (.pair (.pair _ (.pair (.pair _ tail) (.pair (.pair _
      (.pair (.pair _ inner) _)) _))) _))) _)) =>
    if program = curry mod [modHash, tail, inner] then catV2 sampleHash runBase modHash tail inner solution
    else .error .unknownProgram
  | _ => runBase program solution

lemma run_of_runBase (p s r : SExp) (h : runBase p s = .ok r) : run p s = .ok r := by
  obtain rfl : p = inner := by
    by_contra hne
    rw [runBase, if_neg hne] at h
    cases h
  exact h

/-- The puzzle. -/
def puzzle : CatPuzzle sampleHash run where
  mod := mod
  run_mod := by
    intro modHash tail inner solution out h
    have hrun : run (curry mod [modHash, tail, inner]) solution =
        if curry mod [modHash, tail, inner] = curry mod [modHash, tail, inner] then
          catV2 sampleHash runBase modHash tail inner solution else .error .unknownProgram := rfl
    rw [hrun, if_pos rfl] at h
    exact catV2_mono run_of_runBase h

/-- The TAIL hash. -/
def tail : Bytes32 := ⟨List.replicate 32 7, rfl⟩

/-- The puzzle hash of the coins. -/
def puzzleHash : Bytes32 := (puzzle.puzzle tail inner).treeHash sampleHash

/-- The inner puzzle hash of the coins. -/
def innerHash : Bytes := (inner.treeHash sampleHash).bytes

/-- The parent. -/
def parent : Coin := ⟨⟨List.replicate 32 255, rfl⟩, puzzleHash, 5⟩

/-- The coin. -/
def coin : Coin := ⟨parent.name sampleHash, puzzleHash, 5⟩

/-- What the puzzle computes. -/
def data : CatData where
  innerPuzzle := inner
  parent := coin.parentCoinInfo.bytes
  puzzleHash := puzzleHash.bytes
  amount := [5]
  prevCoinId := .atom (coin.name sampleHash).bytes
  prevSubtotal := nil
  subtotal := 0
  nextParent := coin.parentCoinInfo.bytes
  nextInnerPuzzleHash := innerHash
  nextAmount := [5]
  lineageProof := ofList [.atom parent.parentCoinInfo.bytes, .atom innerHash, .atom [5]]
  extraDelta := nil
  delta := 0
  innerConditions := ofList [ofList [.atom [51], .atom innerHash, .atom [5]]]
  stripped := ⟨ofList [ofList [.atom [51], .atom puzzleHash.bytes, .atom [5]]], 5, nil⟩
  tail := none

/-- The solution. -/
def solution : SExp :=
  ofList [data.innerConditions, data.lineageProof, data.prevCoinId,
    ofList [.atom data.parent, .atom data.puzzleHash, .atom data.amount],
    ofList [.atom data.nextParent, .atom data.nextInnerPuzzleHash, .atom data.nextAmount], data.prevSubtotal,
    data.extraDelta]

/-- The spend. -/
def spend : ValidSpend sampleHash run where
  coin := coin
  puzzleReveal := puzzle.puzzle tail inner
  solution := solution
  output := ofList (data.output sampleHash puzzle.modHash tail)
  conditions := [⟨[70], [(coin.name sampleHash).bytes]⟩,
    ⟨[60], [ringMessage sampleHash data.prevCoinId data.prevSubtotal]⟩,
    ⟨[61], [(sampleHash ((coin.name sampleHash).bytes ++
      ringMessage sampleHash data.prevCoinId data.prevSubtotal)).bytes]⟩,
    ⟨[51], [puzzleHash.bytes, [5]]⟩]
  additions := [⟨coin.name sampleHash, puzzleHash, 5⟩]
  puzzleReveal_treeHash := rfl
  run_eq := by decide +kernel
  conditions_eq := rfl
  additions_eq := createdOutputs_eq (l := [(puzzleHash, [5], 5)]) rfl (by decide)
  holds := by
    intro cvp hc
    simp only [List.mem_cons, List.not_mem_nil, or_false] at hc
    rcases hc with rfl | rfl | rfl | rfl
    · exact ⟨fun _ => rfl, (fun h => nomatch h), (fun h => nomatch h)⟩
    · exact ⟨(fun h => nomatch h), (fun h => nomatch h), (fun h => nomatch h)⟩
    · exact ⟨(fun h => nomatch h), (fun h => nomatch h), (fun h => nomatch h)⟩
    · exact ⟨(fun h => nomatch h), (fun h => nomatch h), (fun h => nomatch h)⟩

/-- What is hashed for the spend. -/
def messages : List Bytes :=
  (coin.message :: data.message :: treeMessages sampleHash spend.puzzleReveal) ++
    (spend.announcementMessages ++ puzzle.proofMessages tail data.nextParent innerHash [5]) ++
    (treeMessages sampleHash (ofList [data.prevCoinId, data.prevSubtotal]) ++
      treeMessages sampleHash (ofList [.atom (sampleHash data.message).bytes, ofInt data.thisSubtotal])) ++
    ((sampleHash (data.nextMessage sampleHash puzzle.modHash tail)).bytes ++ data.nextRingMessage sampleHash) ::
      puzzle.proofMessages tail parent.parentCoinInfo.bytes innerHash [5]

/-- The solution determines what the puzzle computes. -/
lemma eq_data {d : CatData} (hd : puzzle.Describes tail spend d) : d = data := by
  obtain ⟨hpuzzle, hrun⟩ := hd
  obtain ⟨x, hx, rest, hcoin⟩ := hrun.coin_eq
  obtain ⟨y, hy, rest', hnext⟩ := hrun.next_eq
  obtain rfl := Except.ok.inj hx
  obtain rfl := Except.ok.inj hy
  have hinner : d.innerPuzzle = inner := (Option.some.inj (congrArg CatPuzzle.innerPuzzle hpuzzle)).symm
  have hconditions : d.innerConditions = data.innerConditions := by
    have h := hrun.innerConditions_eq
    rw [hinner] at h
    exact (Except.ok.inj h).symm
  have hprev : d.prevSubtotal = nil := (Except.ok.inj hrun.prevSubtotal_eq).symm
  have hextra : d.extraDelta = nil := (Except.ok.inj hrun.extraDelta_eq).symm
  have hsubtotal : d.subtotal = 0 := by
    have h := hrun.subtotal_eq
    rw [hprev] at h
    exact (Except.ok.inj h).symm
  have hdelta : d.delta = 0 := by
    have h := hrun.delta_eq
    rw [hextra] at h
    exact (Except.ok.inj h).symm
  have hstripped : d.stripped = data.stripped := by
    have h := hrun.stripped_eq
    rw [hconditions] at h
    have hdata : findAndStripTailInfo sampleHash (catModStruct sampleHash puzzle.modHash tail) data.innerConditions
        nil = .ok data.stripped := by decide +kernel
    exact Except.ok.inj (h.symm.trans hdata)
  have htail : d.tail = none := hrun.tail_eq.mpr (by rw [hstripped]; rfl)
  have hproof : d.lineageProof = data.lineageProof := (Except.ok.inj hrun.lineageProof_eq).symm
  have hid : d.prevCoinId = data.prevCoinId := (Except.ok.inj hrun.prevCoinId_eq).symm
  simp only [ofList, SExp.pair.injEq, SExp.atom.injEq] at hcoin hnext
  obtain ⟨h1, h2, h3, -⟩ := hcoin
  obtain ⟨h4, h5, h6, -⟩ := hnext
  cases d
  simp only at *
  subst hinner hconditions hprev hextra hsubtotal hdelta hstripped htail hproof hid h1 h2 h3 h4 h5 h6
  rfl

lemma hashedFor : puzzle.HashedFor tail {m | m ∈ messages} spend := by
  have hmem : ∀ m, m ∈ messages → m ∈ {m | m ∈ messages} := fun _ h => h
  constructor
  · exact hmem _ (by simp [messages, spend])
  · exact hashedIn_of_treeMessages fun m hm => by simp [messages, hm]
  · exact fun m hm => by simp [messages, hm]
  · intro d hd
    rw [eq_data hd]
    simp [messages]
  · intro d hd m hm
    rw [eq_data hd] at hm
    have hm' : m ∈ puzzle.proofMessages tail data.nextParent innerHash [5] := hm
    simp [messages, hm']
  · intro d hd
    rw [eq_data hd]
    exact hashedIn_of_treeMessages fun m hm => by simp [messages, hm]
  · intro d hd
    rw [eq_data hd]
    exact ⟨hashedIn_of_treeMessages fun m hm => by simp [messages, hm], by simp [messages]⟩
  · intro d hd p iph amount hproof m hm
    rw [eq_data hd] at hproof
    obtain ⟨rest, hrest⟩ := hproof
    simp only [data, ofList, SExp.pair.injEq, SExp.atom.injEq] at hrest
    obtain ⟨rfl, rfl, rfl, -⟩ := hrest
    simp [messages, hm]

end CatSample

end Chives
