import Chives.Consensus.SlotTimeline
import Chives.Library.Timeline

set_option autoImplicit false

/-!
# The sub slots of a block

The node asks for the sub slots in which the infusion point and the signage point of its peak lie, to know
for which of them it keeps signage points. `get_sp_and_ip_sub_slots` walks back to the first block of the
sub slot, and from its parent to the first block of the sub slot before. In terms of the bundles of the chain
and the times at which they end, it looks for the latest bundle at the infusion point, and at the signage
point. The second walk treats the genesis block differently, and this is where it can go wrong.

## Main definitions

* `Blockchain.getSpAndIpSubSlots` — `get_sp_and_ip_sub_slots`.
* `HoldsChain` — a state that holds the records and the blocks of a chain.
* `FindsSubSlots` — what the function is for.
* `GenesisSlotMissed` — the blocks for which the second walk ends at the genesis block.

## Main results

* `getSpAndIpSubSlots_exact_iff` — the function is right except for those blocks.
-/

namespace Chives

open ExceptRun BlockRecords Timeline

/-! ## The function -/

namespace Blockchain

variable (H : Hashes) (self : Blockchain)

/-- The block that starts the sub slot of the block with record `currBr`, if the walk back comes to one,
and `block` if it does not. -/
def firstBlockInSubSlot (block : FullBlock) (currBr : BlockRecord) : Except PyError FullBlock := do
  let currBr ← self.blockRecords.walkBack (fun r => r.firstInSubSlot || decide (r.height = 0)) currBr
  if currBr.firstInSubSlot then pySome (self.blockStore.getFullBlock currBr.headerHash) else return block

/-- The signage point's sub slot of an overflow block whose sub slot starts with `curr`, which carries one
bundle. -/
def prevSubSlot (curr : FullBlock) : Except PyError (Option EndOfSubSlotBundle) := do
  let (prevCurr, prevCurrBr) ← match self.blockStore.getFullBlock curr.prevHeaderHash with
    | none => do
      let _ ← pyAssert (curr.height = 0)
      let prevCurrBr ← self.blockRecords.blockRecord (curr.headerHash H)
      pure (curr, prevCurrBr)
    | some prevCurr => do
      let prevCurrBr ← self.blockRecords.blockRecord curr.prevHeaderHash
      pure (prevCurr, prevCurrBr)
  let prevCurrBr ← self.blockRecords.walkBack (fun r => decide (r.height = 0) || r.firstInSubSlot) prevCurrBr
  let prevCurr ← if prevCurrBr.height = 0 then pure prevCurr
    else pySome (self.blockStore.getFullBlock prevCurrBr.headerHash)
  return prevCurr.finishedSubSlots.getLast?

/-- `get_sp_and_ip_sub_slots`. -/
def getSpAndIpSubSlots (headerHash : Bytes32) :
    Except PyError (Option (Option EndOfSubSlotBundle × Option EndOfSubSlotBundle)) :=
  match self.blockStore.getFullBlock headerHash with
  | none => return none
  | some block => do
    let currBr ← self.blockRecords.blockRecord (block.headerHash H)
    let curr ← self.firstBlockInSubSlot block currBr
    match curr.finishedSubSlots.reverse with
    | [] => return some (none, none)
    | ipSubSlot :: before =>
      if !currBr.overflow then return some (none, some ipSubSlot)
      else match before with
        | spSubSlot :: _ => return some (some spSubSlot, some ipSubSlot)
        | [] => do
          let spSubSlot ← self.prevSubSlot H curr
          return some (spSubSlot, some ipSubSlot)

end Blockchain

/-! ## What the function is for -/

section Spec

variable (H : Hashes) (V : Verifiers) (constants : ConsensusConstants)

/-- The cache of the state holds the records of a chain, its store the blocks, and the parent of the genesis
block is not stored. -/
structure HoldsChain (s : Blockchain) (es : List Entry) : Prop where
  record : ∀ e ∈ es, s.blockRecords.get (e.1.headerHash H) = some e.2
  block : ∀ e ∈ es, s.blockStore.getFullBlock (e.1.headerHash H) = some e.1
  linked : ∀ a p e b, es = a ++ p :: e :: b → e.1.prevHeaderHash = p.1.headerHash H
  root : ∀ g, es.head? = some g → s.blockStore.getFullBlock g.1.prevHeaderHash = none

/-- For the block of the entry `e`, the function gives the last bundle of the chain that ends at or before
its infusion point, and the last one that ends at or before its signage point if it is an overflow block. -/
def FindsSubSlots (s : Blockchain) (es : List Entry) (e : Entry) : Prop :=
  ∃ spTotalIters, e.2.spTotalIters constants = .ok spTotalIters ∧
    s.getSpAndIpSubSlots H (e.1.headerHash H) = .ok (some (
      if e.2.overflow then (latest spTotalIters (slotEnds constants es)).map Prod.snd else none,
      (latest e.2.totalIters (slotEnds constants es)).map Prod.snd))

/-- The last block is an overflow block, its sub slot starts with a block that carries one bundle, and the
sub slot before is that of the genesis block: there is none if the genesis block is the first in the last
sub slot, and otherwise the genesis block carries its bundle, but it is not the last block of it. -/
def GenesisSlotMissed (es : List Entry) : Prop :=
  ∃ a f c, es = a ++ f :: c ∧ (∀ e, es.getLast? = some e → e.2.overflow = true) ∧
    f.1.finishedSubSlots.length = 1 ∧ (∀ x ∈ c, x.1.finishedSubSlots = []) ∧
    (a = [] ∨ ∃ g b, a = g :: b ∧ b ≠ [] ∧ g.1.finishedSubSlots ≠ [] ∧
      ∀ x ∈ b, x.1.finishedSubSlots = [])

end Spec

/-! ## The two walks -/

section Walks

variable {H : Hashes} {V : Verifiers} {constants : ConsensusConstants} {s : Blockchain}
  {es a c d : List Entry} {e f g x : Entry}

lemma HoldsChain.chain (hs : HoldsChain H s es) (h : AcceptedChain H V constants es)
    (hes : es = a ++ e :: d) : s.blockRecords.Chain e.2 ((a ++ [e]).map Prod.snd) := by
  induction a using List.reverseRecOn generalizing e d with
  | nil =>
    have hpart : AcceptedChain H V constants ([] ++ [e]) := by
      rw [hes, show [] ++ e :: d = ([] ++ [e]) ++ d by simp] at h
      exact h.of_append (by simp)
    have hfollows := hpart.follows
    exact .root (hfollows.height_eq.trans (hfollows.genesis rfl).1)
  | append_singleton init p ih =>
    have hpath := ih (show es = init ++ p :: (e :: d) by rw [hes]; simp)
    have hpart : AcceptedChain H V constants (init ++ [p] ++ [e]) := by
      rw [hes, show init ++ [p] ++ e :: d = (init ++ [p] ++ [e]) ++ d by simp] at h
      exact h.of_append (by simp)
    have hfollows := hpart.follows
    obtain ⟨hheight, -, -⟩ := hfollows.parent p (by simp)
    have hp : s.blockRecords.get e.2.prevHash = some p.2 := by
      rw [hfollows.prevHash_eq, hs.linked init p e d (by rw [hes]; simp)]
      exact hs.record p (by rw [hes]; simp)
    rw [List.map_append, List.map_singleton]
    exact .step hp (hfollows.height_eq.trans hheight) hpath

lemma HoldsChain.walkBack_eq (hs : HoldsChain H s (a ++ f :: c ++ d))
    (h : AcceptedChain H V constants (a ++ f :: c ++ d)) (he : (f :: c).getLast? = some e)
    (stop : BlockRecord → Bool) (hf : stop f.2 = true) (hc : ∀ x ∈ c, stop x.2 = false) :
    s.blockRecords.walkBack stop e.2 = .ok f.2 := by
  obtain ⟨init, hinit⟩ := List.getLast?_eq_some_iff.mp he
  have hes : a ++ f :: c ++ d = (a ++ init) ++ e :: d := by
    rw [hinit]
    simp
  have hpath := hs.chain h hes
  rw [List.append_assoc, ← hinit] at hpath
  refine walkBack_eq_ok hpath (show _ = a.map Prod.snd ++ f.2 :: c.map Prod.snd by simp) hf fun y hy => ?_
  obtain ⟨x, hx, rfl⟩ := List.mem_map.mp hy
  exact hc x hx

lemma HoldsChain.firstBlockInSubSlot_eq (hs : HoldsChain H s (a ++ f :: c ++ d))
    (h : AcceptedChain H V constants (a ++ f :: c ++ d)) (he : (f :: c).getLast? = some e)
    (hf : f.2.firstInSubSlot = true) (hc : ∀ x ∈ c, x.2.firstInSubSlot = false ∧ x.2.height ≠ 0)
    (block : FullBlock) : s.firstBlockInSubSlot block e.2 = .ok f.1 := by
  have hwalk := hs.walkBack_eq h he (fun r => r.firstInSubSlot || decide (r.height = 0)) (by simp [hf])
    fun x hx => by simp [hc x hx]
  obtain ⟨_, _, hes, hfollows⟩ := h.follows_of_mem (show f ∈ a ++ f :: c ++ d by simp)
  rw [Blockchain.firstBlockInSubSlot, hwalk, ok_bind, if_pos hf, hfollows.headerHash_eq,
    hs.block f (by simp)]
  rfl

lemma HoldsChain.prevSubSlot_genesis (hs : HoldsChain H s (f :: d))
    (h : AcceptedChain H V constants (f :: d)) :
    s.prevSubSlot H f.1 = .ok f.1.finishedSubSlots.getLast? := by
  have hfollows := h.head_follows
  have hheight := (hfollows.genesis rfl).1
  have hwalk := hs.walkBack_eq (a := []) (c := []) (e := f) h rfl
    (fun r => decide (r.height = 0) || r.firstInSubSlot) (by simp [hfollows.height_eq, hheight])
    fun x hx => by cases hx
  rw [Blockchain.prevSubSlot, hs.root f rfl]
  simp only [pyAssert, if_pos hheight, ok_bind, blockRecord_eq_ok (hs.record f List.mem_cons_self), pure_bind,
    hwalk, if_pos (hfollows.height_eq.trans hheight)]
  rfl

/-- The second walk comes to the first block of the sub slot before, if that is not the genesis block, and
stays where it starts otherwise. -/
lemma HoldsChain.prevSubSlot_eq (hs : HoldsChain H s (a ++ g :: c ++ f :: d))
    (h : AcceptedChain H V constants (a ++ g :: c ++ f :: d)) (hg : g.2.firstInSubSlot = true)
    (hc : ∀ x ∈ c, (x.2.firstInSubSlot = false ∧ x.2.height ≠ 0) ∧ x.1.finishedSubSlots = []) :
    s.prevSubSlot H f.1 = .ok (if a = [] ∧ c ≠ [] then none else g.1.finishedSubSlots.getLast?) := by
  obtain ⟨p, hp⟩ : ∃ p, (g :: c).getLast? = some p :=
    ⟨_, List.getLast?_eq_some_getLast (List.cons_ne_nil g c)⟩
  obtain ⟨init, hinit⟩ := List.getLast?_eq_some_iff.mp hp
  have hlinked : f.1.prevHeaderHash = p.1.headerHash H :=
    hs.linked (a ++ init) p f d (by rw [hinit]; simp)
  have hmem : p ∈ a ++ g :: c ++ f :: d := by
    rw [hinit]
    simp
  have hwalk := hs.walkBack_eq h hp (fun r => decide (r.height = 0) || r.firstInSubSlot) (by simp [hg])
    fun x hx => by simp [hc x hx]
  have hpartG : AcceptedChain H V constants (a ++ [g]) := by
    rw [show a ++ g :: c ++ f :: d = (a ++ [g]) ++ (c ++ f :: d) by simp] at h
    exact h.of_append (by simp)
  have hfollows := hpartG.follows
  rw [Blockchain.prevSubSlot, hlinked, hs.block p hmem]
  simp only [blockRecord_eq_ok (hs.record p hmem), ok_bind, hwalk, pure_bind]
  rcases eq_or_ne a [] with rfl | ha
  · rw [if_pos (hfollows.height_eq.trans (hfollows.genesis rfl).1)]
    rcases eq_or_ne c [] with rfl | hne
    · obtain rfl : g = p := by simpa using hp
      rw [if_neg (fun hand => hand.2 rfl)]
      rfl
    · have hpc : p ∈ c := by
        rw [List.getLast?_cons, List.getLast?_eq_some_getLast hne] at hp
        rw [← Option.some.inj hp]
        simp
      rw [if_pos ⟨rfl, hne⟩, (hc p hpc).2]
      rfl
  · obtain ⟨q, hq⟩ : ∃ q, a.getLast? = some q := ⟨_, List.getLast?_eq_some_getLast ha⟩
    have hheight := (hfollows.parent q hq).1
    rw [if_neg (by rw [hfollows.height_eq, hheight]; exact Nat.succ_ne_zero _),
      if_neg (fun hand => ha hand.1), hfollows.headerHash_eq, hs.block g (by simp)]
    rfl

end Walks

/-! ## The bundles at a time -/

section Times

variable {H : Hashes} {V : Verifiers} {constants : ConsensusConstants} {s : Blockchain}
  {es a b c : List Entry} {e f g x : Entry} {r : BlockRecord} {t interval ip : ℕ}

lemma AcceptedChain.latest_slotEnds (h : AcceptedChain H V constants (a ++ f :: c))
    (hf : f.2.firstInSubSlot = true) (hc : ∀ x ∈ c, x.1.finishedSubSlots = [])
    (hstart : slotEnd constants (a ++ f :: c) ≤ t + f.2.subSlotIters) :
    (latest t (slotEnds constants (a ++ f :: c))).map Prod.snd = f.1.finishedSubSlots.getLast? := by
  rcases List.eq_nil_or_concat f.1.finishedSubSlots with hnil | ⟨init, slot, hslots⟩
  · obtain rfl := h.eq_nil_of_first hf hnil
    rw [List.nil_append, (slotEnds_eq_nil hnil hc).1, hnil]
    rfl
  · rw [List.concat_eq_append] at hslots
    obtain ⟨start, hsum, -, hends⟩ := @slotEnds_of_slotPart constants a c f init slot hc hslots
    rw [hends, ← List.append_assoc, latest_concat (show start ≤ t by omega), hslots, List.getLast?_concat]
    rfl

/-- The signage point of a block of a sub slot, which is in the sub slot before for an overflow block. -/
lemma Timed.spTotalIters_eq_ok (h : Timed constants es r interval ip)
    (hle : r.overflow = true → 2 * r.subSlotIters ≤ slotEnd constants es) :
    ∃ t, r.spTotalIters constants = .ok t ∧ t + (if r.overflow then 2 else 1) * r.subSlotIters =
      slotEnd constants es + interval * r.signagePointIndex := by
  have htotal := h.total
  have hfits := h.fits
  have hfirst := h.le
  have hip := h.ipIters
  obtain ⟨interval', hi, hsp, -, -⟩ := calculateIpIters_eq_ok.mp hip
  obtain rfl : interval' = interval := by
    rw [h.interval_eq] at hi
    exact (Except.ok.inj hi).symm
  obtain ⟨-, hslot, -⟩ := calculateSpIntervalIters_eq_ok.mp h.interval_eq
  have hindex : interval' * r.signagePointIndex ≤ r.subSlotIters := by
    rw [hslot]
    exact Nat.mul_le_mul_left _ h.infusion.index.le
  refine ⟨slotEnd constants es - (if r.overflow then 2 else 1) * r.subSlotIters +
    interval' * r.signagePointIndex, ?_, ?_⟩
  · rw [BlockRecord.spTotalIters, BlockRecord.spSubSlotTotalIters, hip, ok_bind, BlockRecord.spIters, hsp]
    cases hover : r.overflow with
    | false =>
      have hflag := h.overflow_eq
      rw [hover] at hflag
      have hafter := h.infusion.eq_of_not_overflow (Nat.lt_of_not_le (of_decide_eq_false hflag.symm))
      have hstart : uint128 ((r.totalIters : ℤ) - ip) = .ok (slotEnd constants es - r.subSlotIters) := by
        rw [uint128, uintN_eq_ok]
        omega
      rw [if_neg Bool.false_ne_true, hstart, ok_bind, ok_bind, uint128, uintN_eq_ok]
      simp only [Bool.false_eq_true, if_false]
      omega
    | true =>
      have htwo := hle hover
      have hstart : uint128 ((r.totalIters : ℤ) - ip - r.subSlotIters) =
          .ok (slotEnd constants es - 2 * r.subSlotIters) := by
        rw [uint128, uintN_eq_ok]
        omega
      rw [if_pos rfl, hstart, ok_bind, ok_bind, uint128, uintN_eq_ok]
      simp only [if_true]
      omega
  · cases hover : r.overflow with
    | false =>
      simp only [Bool.false_eq_true, if_false]
      omega
    | true =>
      have htwo := hle hover
      simp only [if_true]
      omega

lemma AcceptedChain.sub_slot_before (h : AcceptedChain H V constants (a ++ f :: c))
    (hf : f.2.firstInSubSlot = true) (hc : ∀ x ∈ c, x.1.finishedSubSlots = [])
    (he : (f :: c).getLast? = some e) (hover : e.2.overflow = true) :
    f.1.finishedSubSlots ≠ [] ∧ (f.1.finishedSubSlots.length = 1 →
      (a = [] → f.2.subSlotIters = constants.SUB_SLOT_ITERS_STARTING) ∧
      ∀ p, a.getLast? = some p → f.2.subSlotIters = p.2.subSlotIters) := by
  have hpart : AcceptedChain H V constants (a ++ [f]) := by
    rw [show a ++ f :: c = (a ++ [f]) ++ c by simp] at h
    exact h.of_append (by simp)
  have hfollows := hpart.follows
  have hfover := h.overflow_of_last hc he hover f List.mem_cons_self
  refine ⟨fun hnil => ?_, fun hone => ⟨fun ha => (hfollows.genesis ha).2, fun p hp =>
    (hfollows.parent p hp).2.2 hfover hone⟩⟩
  -- the signage point of a genesis block without bundles would lie before the chain
  obtain rfl := h.eq_nil_of_first hf hnil
  obtain ⟨interval, ip, htimed⟩ := hfollows.timed
  have hsp := htimed.sp hfover
  have hend : slotEnd constants [f] = f.2.subSlotIters := by
    rw [(hfollows.genesis rfl).2]
    exact (slotEnds_eq_nil (c := []) hnil fun x hx => by cases hx).2
  obtain ⟨-, hslot, -⟩ := calculateSpIntervalIters_eq_ok.mp htimed.interval_eq
  have hpos : 0 < interval := lt_of_le_of_lt (Nat.zero_le _) htimed.infusion.below
  have hindex := Nat.mul_lt_mul_of_pos_left htimed.infusion.index hpos
  rw [List.nil_append, hend] at hsp
  omega

end Times

/-! ## Exactness -/

section Exact

variable {H : Hashes} {V : Verifiers} {constants : ConsensusConstants} {s : Blockchain}
  {es a c before after : List Entry} {e f : Entry}

lemma eq_of_last_split {α : Type} {P : α → Prop} {a a' c c' : List α} {x x' : α}
    (h : a ++ x :: c = a' ++ x' :: c') (hx : P x) (hx' : P x') (hc : ∀ y ∈ c, ¬P y) (hc' : ∀ y ∈ c', ¬P y) :
    a = a' ∧ x = x' ∧ c = c' := by
  rcases List.append_eq_append_iff.mp h with ⟨d, ha, hd⟩ | ⟨d, ha, hd⟩
  · cases d with
    | nil =>
      obtain ⟨rfl, rfl⟩ := List.cons.inj hd
      exact ⟨by simpa using ha.symm, rfl, rfl⟩
    | cons y d =>
      obtain ⟨-, rfl⟩ := List.cons.inj hd
      exact absurd hx' (hc x' (by simp))
  · cases d with
    | nil =>
      obtain ⟨rfl, rfl⟩ := List.cons.inj hd
      exact ⟨by simpa using ha, rfl, rfl⟩
    | cons y d =>
      obtain ⟨-, rfl⟩ := List.cons.inj hd
      exact absurd hx (hc' x (by simp))

lemma HoldsChain.getSpAndIpSubSlots_eq (hs : HoldsChain H s (a ++ f :: c ++ after))
    (h : AcceptedChain H V constants (a ++ f :: c ++ after)) (he : (f :: c).getLast? = some e)
    (hf : f.2.firstInSubSlot = true) (hc : ∀ x ∈ c, x.2.firstInSubSlot = false ∧ x.2.height ≠ 0) :
    s.getSpAndIpSubSlots H (e.1.headerHash H) =
      match f.1.finishedSubSlots.reverse with
      | [] => .ok (some (none, none))
      | ipSubSlot :: rest =>
        if !e.2.overflow then .ok (some (none, some ipSubSlot))
        else match rest with
          | spSubSlot :: _ => .ok (some (some spSubSlot, some ipSubSlot))
          | [] => (s.prevSubSlot H f.1).map fun spSubSlot => some (spSubSlot, some ipSubSlot) := by
  obtain ⟨init, hinit⟩ := List.getLast?_eq_some_iff.mp he
  have hmem : e ∈ a ++ f :: c ++ after := by
    rw [hinit]
    simp
  rw [Blockchain.getSpAndIpSubSlots, hs.block e hmem]
  simp only [blockRecord_eq_ok (hs.record e hmem), ok_bind, hs.firstBlockInSubSlot_eq h he hf hc]
  split
  · rfl
  · split
    · rfl
    · split
      · rfl
      · cases s.prevSubSlot H f.1 <;> rfl

lemma latest_sp_of_two {init : List EndOfSubSlotBundle} {slot slot' : EndOfSubSlotBundle} {t : ℕ}
    (hc : ∀ x ∈ c, x.1.finishedSubSlots = []) (hslots : f.1.finishedSubSlots = init ++ [slot', slot])
    (hlow : slotEnd constants (a ++ f :: c) ≤ t + 2 * f.2.subSlotIters)
    (hhigh : t + f.2.subSlotIters < slotEnd constants (a ++ f :: c)) :
    (latest t (slotEnds constants (a ++ f :: c))).map Prod.snd = some slot' := by
  obtain ⟨start, hsum, hstart, hends⟩ := @slotEnds_of_slotPart constants a c f (init ++ [slot']) slot hc
    (by rw [hslots]; simp)
  rw [List.length_append, List.length_singleton, Nat.add_mul] at hstart
  rw [hends, endsFrom_append, endsFrom, endsFrom, ← List.append_assoc,
    latest_append_of_lt fun y hy => by rw [List.mem_singleton.mp hy]; show t < start; omega,
    ← List.append_assoc, latest_concat (by show _ ≤ t; omega)]
  rfl

lemma genesisSlotMissed_iff (hc : ∀ x ∈ c, x.1.finishedSubSlots = []) (he : (f :: c).getLast? = some e)
    (hf : f.1.finishedSubSlots ≠ []) :
    GenesisSlotMissed (a ++ f :: c) ↔ e.2.overflow = true ∧ f.1.finishedSubSlots.length = 1 ∧
      (a = [] ∨ ∃ g b, a = g :: b ∧ b ≠ [] ∧ g.1.finishedSubSlots ≠ [] ∧
        ∀ x ∈ b, x.1.finishedSubSlots = []) := by
  have hlast : (a ++ f :: c).getLast? = some e := by
    rw [List.getLast?_append, he]
    rfl
  constructor
  · rintro ⟨a', f', c', hes, hover, hone, hc', hgenesis⟩
    obtain ⟨rfl, rfl, rfl⟩ := @eq_of_last_split Entry (fun x => x.1.finishedSubSlots ≠ []) a a' c c' f f' hes
      hf (List.length_pos_iff.mp (by omega)) (fun x hx hne => hne (hc x hx)) fun x hx hne => hne (hc' x hx)
    exact ⟨hover e hlast, hone, hgenesis⟩
  · rintro ⟨hover, hone, hgenesis⟩
    refine ⟨a, f, c, rfl, fun x hx => ?_, hone, hc, hgenesis⟩
    obtain rfl := Option.some.inj (hlast.symm.trans hx)
    exact hover

/-- The signage point's sub slot of an overflow block whose sub slot starts with a block that carries one
bundle: the function finds it except in the cases named.

**Proof sketch.** If the sub slot is the first one with a bundle, no bundle ends before the signage point,
and the function finds the bundle of the genesis block. Otherwise the signage point is in the sub slot of the
parent `p` of the first block, and the latest bundle there is the last one of the first block `g` of that
sub slot. The function takes the last bundle of `p` if `g` is the genesis block, and of `g` otherwise. -/
lemma HoldsChain.prevSubSlot_iff (hs : HoldsChain H s (a ++ f :: c ++ after))
    (h : AcceptedChain H V constants (a ++ f :: c ++ after)) (hc : ∀ x ∈ c, x.1.finishedSubSlots = [])
    (hf : f.2.firstInSubSlot = true) (he : (f :: c).getLast? = some e) (hover : e.2.overflow = true)
    {slot : EndOfSubSlotBundle} (hslots : f.1.finishedSubSlots = [slot]) {t : ℕ}
    (hlow : slotEnd constants (a ++ f :: c) ≤ t + 2 * f.2.subSlotIters)
    (hhigh : t + f.2.subSlotIters < slotEnd constants (a ++ f :: c)) :
    ∃ spSubSlot, s.prevSubSlot H f.1 = .ok spSubSlot ∧
      (spSubSlot = (latest t (slotEnds constants (a ++ f :: c))).map Prod.snd ↔
        ¬(a = [] ∨ ∃ g b, a = g :: b ∧ b ≠ [] ∧ g.1.finishedSubSlots ≠ [] ∧
          ∀ x ∈ b, x.1.finishedSubSlots = [])) := by
  have hpart : AcceptedChain H V constants (a ++ f :: c) := h.of_append (by simp)
  obtain ⟨start, hsum, hstart, hends⟩ := @slotEnds_of_slotPart constants a c f [] slot hc (by rw [hslots]; rfl)
  -- the bundle of `f` ends after the signage point
  have hlatest : latest t (slotEnds constants (a ++ f :: c)) = latest t (slotEnds constants a) := by
    rw [hends, latest_append_of_lt]
    intro y hy
    rw [endsFrom, List.nil_append, List.mem_singleton] at hy
    rw [hy]
    show t < start
    omega
  rw [hlatest]
  rcases List.eq_nil_or_concat a with rfl | ⟨init, q, hconcat⟩
  · refine ⟨f.1.finishedSubSlots.getLast?, ?_, ?_⟩
    · rw [List.nil_append, List.cons_append] at hs h
      exact hs.prevSubSlot_genesis h
    · rw [hslots]
      simp [slotEnds, slotEndsFrom, latest]
  · have ha : a ≠ [] := by
      rw [hconcat]
      simp
    have hbefore : AcceptedChain H V constants a := by
      rw [List.append_assoc] at h
      exact h.of_append ha
    obtain ⟨a', g, b, rfl, hg, hb⟩ := hbefore.exists_slotPart
    have hnone : ∀ x ∈ b, x.1.finishedSubSlots = [] := fun x hx => (hb x hx).2
    refine ⟨if a' = [] ∧ b ≠ [] then none else g.1.finishedSubSlots.getLast?, ?_, ?_⟩
    · rw [List.append_assoc, List.cons_append] at hs h
      exact hs.prevSubSlot_eq h hg hb
    · -- the sub slot before has as many iterations, so that the signage point is in it
      obtain ⟨p, hp⟩ : ∃ p, (g :: b).getLast? = some p :=
        ⟨_, List.getLast?_eq_some_getLast (List.cons_ne_nil g b)⟩
      have hsame : f.2.subSlotIters = g.2.subSlotIters := by
        obtain ⟨-, hone⟩ := hpart.sub_slot_before hf hc he hover
        have hlast : (a' ++ g :: b).getLast? = some p := by
          rw [List.getLast?_append, hp]
          rfl
        rw [(hone (by rw [hslots]; rfl)).2 p hlast]
        exact (hbefore.slotPart hnone p (List.mem_of_getLast? hp)).1
      rw [hbefore.latest_slotEnds hg hnone (t := t) (by
        rw [List.length_nil, Nat.zero_mul, Nat.add_zero] at hstart
        omega)]
      split
      · rename_i hmissed
        obtain ⟨rfl, hne⟩ := hmissed
        rw [eq_comm, List.getLast?_eq_none_iff]
        constructor
        · rintro hnil (hfalse | ⟨g', b', hcons, -, hslots', -⟩)
          · cases hfalse
          · obtain ⟨rfl, -⟩ := List.cons.inj hcons
            exact hslots' hnil
        · intro hnot
          by_contra hslots'
          exact hnot (.inr ⟨g, b, rfl, hne, hslots', hnone⟩)
      · rename_i hfound
        refine iff_of_true rfl ?_
        rintro (hfalse | ⟨g', b', hcons, hne, hslots', hnone'⟩)
        · exact ha hfalse
        · -- the first block of the sub slot is the only block with bundles, hence the genesis block
          by_cases hnil : a' = []
          · subst hnil
            obtain ⟨-, rfl⟩ := List.cons.inj hcons
            exact hfound ⟨rfl, hne⟩
          · obtain ⟨x, a', rfl⟩ := List.exists_cons_of_ne_nil hnil
            obtain ⟨-, rfl⟩ := List.cons.inj hcons
            exact hnil (hbefore.eq_nil_of_first hg (hnone' g (by simp)))

lemma AcceptedChain.two_mul_le (h : AcceptedChain H V constants (a ++ f :: c))
    (hf : f.2.firstInSubSlot = true) (hc : ∀ x ∈ c, x.1.finishedSubSlots = [])
    (he : (f :: c).getLast? = some e) (hover : e.2.overflow = true) :
    2 * f.2.subSlotIters ≤ slotEnd constants (a ++ f :: c) := by
  obtain ⟨hslots, hone⟩ := h.sub_slot_before hf hc he hover
  obtain ⟨hend, -⟩ := @slotEnd_append_of_nil constants (a ++ [f]) c hc
  rw [List.append_assoc, List.singleton_append, slotEnd_concat] at hend
  rw [hend]
  rcases Nat.lt_or_ge 1 f.1.finishedSubSlots.length with hlen | hlen
  · exact le_trans (Nat.mul_le_mul_right _ hlen) (Nat.le_add_left _ _)
  · have hlen : f.1.finishedSubSlots.length = 1 :=
      Nat.le_antisymm hlen (List.length_pos_iff.mpr hslots)
    obtain ⟨hfirst, hparent⟩ := hone hlen
    rw [hlen, Nat.one_mul, Nat.two_mul]
    refine Nat.add_le_add_right ?_ _
    rcases List.eq_nil_or_concat a with rfl | ⟨init, p, rfl⟩
    · exact (hfirst rfl).le
    · rw [List.concat_eq_append] at h hparent ⊢
      have hbefore : AcceptedChain H V constants (init ++ [p]) := h.of_append (by simp)
      obtain ⟨intervalP, ipP, htimed⟩ := hbefore.follows.timed
      rw [hparent p List.getLast?_concat]
      exact htimed.le

/-- **The sub slots of a block are found exactly** except in one case. For every block of an accepted chain
that the state holds, the infusion point's sub slot is the last bundle that ends at or before the infusion
point, and that of the signage point is the last one at or before it, exactly if it is not the case that the
sub slot of an overflow block starts with a block that carries one bundle, and the sub slot before is that
of the genesis block: there the second walk stops at once and takes a bundle of the block it has at hand.

**Proof sketch.** The chain up to the block ends in the blocks of its sub slot, the first of which carries
the last bundle. The infusion point is in that sub slot, and the signage point of an overflow block in the one
before, which ends with the second to last bundle of the same block or with the last bundle of an ancestor. -/
theorem getSpAndIpSubSlots_exact_iff (hs : HoldsChain H s es) (h : AcceptedChain H V constants es)
    (hes : es = before ++ e :: after) :
    FindsSubSlots H constants s es e ↔ ¬GenesisSlotMissed (before ++ [e]) := by
  rw [show before ++ e :: after = (before ++ [e]) ++ after by simp] at hes
  have hupto : AcceptedChain H V constants (before ++ [e]) := by
    rw [hes] at h
    exact h.of_append (by simp)
  obtain ⟨a, f, c, hcut, hf, hc⟩ := hupto.exists_slotPart
  rw [hcut] at hes hupto ⊢
  subst hes
  have hnone : ∀ x ∈ c, x.1.finishedSubSlots = [] := fun x hx => (hc x hx).2
  have he : (f :: c).getLast? = some e := by
    have hlast := congrArg List.getLast? hcut
    rw [List.getLast?_concat, List.getLast?_append_cons] at hlast
    exact hlast.symm
  obtain ⟨hiters, interval, ip, htimed⟩ := hupto.slotPart hnone e (List.mem_of_getLast? he)
  have hend : slotEnd constants (a ++ [f]) = slotEnd constants (a ++ f :: c) := by
    rw [show a ++ f :: c = (a ++ [f]) ++ c by simp]
    exact (slotEnd_append_of_nil hnone).1.symm
  -- bundles of later blocks end later
  have hlater : ∀ {t}, t < slotEnd constants (a ++ f :: c) →
      latest t (slotEnds constants (a ++ f :: c ++ after)) = latest t (slotEnds constants (a ++ f :: c)) := by
    intro t ht
    rw [slotEnds, slotEndsFrom_append, latest_append_of_lt, slotEnds]
    exact fun y hy => lt_of_lt_of_le ht (le_of_mem_slotEndsFrom hy).1
  have htotal := htimed.total
  have hlt := htimed.total_lt
  rw [hend] at htotal hlt
  have hip : (latest e.2.totalIters (slotEnds constants (a ++ f :: c ++ after))).map Prod.snd =
      f.1.finishedSubSlots.getLast? := by
    rw [hlater hlt]
    exact hupto.latest_slotEnds hf hnone (by omega)
  have hcode := hs.getSpAndIpSubSlots_eq h he hf fun x hx => (hc x hx).1
  have htwo : e.2.overflow = true → 2 * e.2.subSlotIters ≤ slotEnd constants (a ++ [f]) := fun hover => by
    rw [hiters, hend]
    exact hupto.two_mul_le hf hnone he hover
  obtain ⟨t, ht, hsp⟩ := htimed.spTotalIters_eq_ok htwo
  have hfinds : FindsSubSlots H constants s (a ++ f :: c ++ after) e ↔
      s.getSpAndIpSubSlots H (e.1.headerHash H) = .ok (some (
        if e.2.overflow then (latest t (slotEnds constants (a ++ f :: c ++ after))).map Prod.snd else none,
        f.1.finishedSubSlots.getLast?)) := by
    rw [← hip]
    refine ⟨?_, fun hfound => ⟨t, ht, hfound⟩⟩
    rintro ⟨t', ht', hfound⟩
    rw [ht] at ht'
    rw [Except.ok.inj ht']
    exact hfound
  rw [hfinds, hcode]
  cases hover : e.2.overflow with
  | false =>
    refine iff_of_true ?_ fun hmissed => ?_
    · rcases List.eq_nil_or_concat f.1.finishedSubSlots with hnil | ⟨init, slot, hslots⟩
      · rw [hnil]
        rfl
      · rw [List.concat_eq_append] at hslots
        rw [hslots, List.reverse_append, List.getLast?_concat]
        rfl
    · obtain ⟨_, _, _, heq, hall, -⟩ := hmissed
      have hfalse := hall e (by rw [List.getLast?_append, he]; rfl)
      rw [hover] at hfalse
      cases hfalse
  | true =>
    obtain ⟨hne, -⟩ := hupto.sub_slot_before hf hnone he hover
    obtain ⟨-, hslot, -⟩ := calculateSpIntervalIters_eq_ok.mp htimed.interval_eq
    have hpos : 0 < interval := lt_of_le_of_lt (Nat.zero_le _) htimed.infusion.below
    have hindex := Nat.mul_lt_mul_of_pos_left htimed.infusion.index hpos
    rw [hover, if_pos rfl, hend] at hsp
    have hlow : slotEnd constants (a ++ f :: c) ≤ t + 2 * f.2.subSlotIters := by omega
    have hhigh : t + f.2.subSlotIters < slotEnd constants (a ++ f :: c) := by omega
    rw [genesisSlotMissed_iff hnone he hne, hlater (by omega), if_pos rfl]
    rcases List.eq_nil_or_concat f.1.finishedSubSlots with hnil | ⟨init, slot, hslots⟩
    · exact absurd hnil hne
    rw [List.concat_eq_append] at hslots
    rcases List.eq_nil_or_concat init with rfl | ⟨init, slot', rfl⟩
    · obtain ⟨spSubSlot, hprev, hexact⟩ := hs.prevSubSlot_iff h hnone hf he hover hslots hlow hhigh
      rw [hslots, hprev]
      show Except.ok (some (spSubSlot, some slot)) = Except.ok (some (_, some slot)) ↔ _
      rw [show (Except.ok (some (spSubSlot, some slot)) : Except PyError _) = Except.ok (some
        ((latest t (slotEnds constants (a ++ f :: c))).map Prod.snd, some slot)) ↔
          spSubSlot = (latest t (slotEnds constants (a ++ f :: c))).map Prod.snd by simp, hexact]
      simp [hover]
    · rw [List.concat_eq_append, List.append_assoc] at hslots
      rw [latest_sp_of_two hnone hslots hlow hhigh]
      refine iff_of_true ?_ fun hmissed => ?_
      · rw [hslots]
        simp
      · have hone := hmissed.2.1
        rw [hslots] at hone
        simp at hone

end Exact

/-! ## An overflow genesis block -/

/-- The first sub slot of the samples, which ends without a block. -/
def emptyFirstSubSlot : EndOfSubSlotBundle :=
  let vdf : VDFInfo := ⟨defaultConstants.GENESIS_CHALLENGE, 134217728, defaultElement⟩
  let proof : VDFProof := ⟨0, [], false⟩
  ⟨⟨vdf, none, none, none, none⟩, none, ⟨vdf, Bytes32.zero, none, 16⟩, ⟨proof, none, proof⟩⟩

/-- A genesis block at a signage point of the first sub slot that is infused in the second one. -/
def overflowGenesis : FullBlock :=
  let vdf : VDFInfo := ⟨defaultConstants.GENESIS_CHALLENGE, 130023424, defaultElement⟩
  { genesisBlock with
    finishedSubSlots := [emptyFirstSubSlot]
    rewardChainBlock := { genesisBlock.rewardChainBlock with
      totalIters := 134217728 + 2097153
      signagePointIndex := 62
      challengeChainSpVdf := some vdf
      rewardChainSpVdf := some vdf
      challengeChainIpVdf := ⟨Bytes32.zero, 2097153, defaultElement⟩
      rewardChainIpVdf := ⟨Bytes32.zero, 2097153, defaultElement⟩ }
    challengeChainSpProof := some ⟨0, [], false⟩
    rewardChainSpProof := some ⟨0, [], false⟩ }

/-- The record of the overflow genesis block. -/
def overflowGenesisRecord : BlockRecord :=
  headerBlockToSubBlockRecord sampleBlockchainTools.H defaultConstants 1 overflowGenesis
    defaultConstants.SUB_SLOT_ITERS_STARTING true 15 0 none

/-- The state after the overflow genesis block was received. -/
def overflowGenesisState : Blockchain :=
  ((Blockchain.initial ⟨none, none⟩).receiveBlock sampleBlockchainTools defaultConstants overflowGenesis
    genesisCall.preValidationResult none).1

lemma acceptedChain_overflowGenesis : AcceptedChain sampleBlockchainTools.H sampleBlockchainTools.V
    defaultConstants [(overflowGenesis, overflowGenesisRecord)] :=
  @AcceptedChain.genesis _ _ _ (blockCache ∅) overflowGenesis overflowGenesisRecord rfl
    ⟨fun _ => [], [], [], true, defaultConstants.SUB_SLOT_ITERS_STARTING,
      defaultConstants.DIFFICULTY_STARTING, 0, 1, rfl, by decide +kernel, by decide +kernel⟩

lemma holdsChain_overflowGenesis : HoldsChain sampleBlockchainTools.H overflowGenesisState
    [(overflowGenesis, overflowGenesisRecord)] where
  record e he := by
    rw [List.mem_singleton.mp he]
    decide +kernel
  block e he := by
    rw [List.mem_singleton.mp he]
    decide +kernel
  linked a p e b h := by
    have hlen := congrArg List.length h
    simp at hlen
    omega
  root g hg := by
    rw [← Option.some.inj hg]
    decide +kernel

/-- The sub slots of the overflow genesis block are found exactly if they are not missed. -/
theorem getSpAndIpSubSlots_exact_iff_overflowGenesis :
    FindsSubSlots sampleBlockchainTools.H defaultConstants overflowGenesisState
        [(overflowGenesis, overflowGenesisRecord)] (overflowGenesis, overflowGenesisRecord) ↔
      ¬GenesisSlotMissed ([] ++ [(overflowGenesis, overflowGenesisRecord)]) :=
  getSpAndIpSubSlots_exact_iff holdsChain_overflowGenesis acceptedChain_overflowGenesis rfl

/-- The sub slots of the overflow genesis block are not found: its signage point is in the first sub slot,
before any bundle, but the function gives the bundle of the block as that of the signage point. -/
theorem overflowGenesis_not_found :
    AcceptedChain sampleBlockchainTools.H sampleBlockchainTools.V defaultConstants
        [(overflowGenesis, overflowGenesisRecord)] ∧
      HoldsChain sampleBlockchainTools.H overflowGenesisState [(overflowGenesis, overflowGenesisRecord)] ∧
      overflowGenesisState.getSpAndIpSubSlots sampleBlockchainTools.H (Bytes32.ofNat 1) =
        .ok (some (some emptyFirstSubSlot, some emptyFirstSubSlot)) ∧
      ¬FindsSubSlots sampleBlockchainTools.H defaultConstants overflowGenesisState
        [(overflowGenesis, overflowGenesisRecord)] (overflowGenesis, overflowGenesisRecord) := by
  have hcode : overflowGenesisState.getSpAndIpSubSlots sampleBlockchainTools.H (Bytes32.ofNat 1) =
      .ok (some (some emptyFirstSubSlot, some emptyFirstSubSlot)) := by decide +kernel
  refine ⟨acceptedChain_overflowGenesis, holdsChain_overflowGenesis, hcode, ?_⟩
  rintro ⟨t, ht, hfound⟩
  obtain rfl : 130023424 = t := by
    have hsp : overflowGenesisRecord.spTotalIters defaultConstants = .ok 130023424 := by decide +kernel
    rw [hsp] at ht
    exact Except.ok.inj ht
  have hhash : overflowGenesis.headerHash sampleBlockchainTools.H = Bytes32.ofNat 1 := by decide +kernel
  rw [hhash, hcode] at hfound
  have hnone : (latest 130023424 (slotEnds defaultConstants
      [(overflowGenesis, overflowGenesisRecord)])).map Prod.snd = none := by decide +kernel
  rw [if_pos (show overflowGenesisRecord.overflow = true from rfl), hnone] at hfound
  simp at hfound

end Chives
