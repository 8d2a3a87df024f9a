import Chives.Consensus.SlotTimeline
import Chives.Library.Timeline

set_option autoImplicit false

/-!
# The start of the signage point VDFs

The VDFs of a signage point start at the last event before it: the start of its sub slot, or the infusion of a
block there. `get_signage_point_vdf_info` finds this event in six ways, and each of them gives the latest
event of the chain at the signage point. No block is infused at a signage point: infusion points lie strictly
between the ends of the intervals of a sub slot.

## Main definitions

* `slotStarts`, `events` — the starts of the sub slots of a chain, and all its events.
* `signagePointStart` — the VDF start from the latest event.

## Main results

* `AcceptedChain.total_ne` — no block is infused at a signage point.
* `signagePointStart_exact` — `get_signage_point_vdf_info` gives the latest event.
-/

namespace Chives

open ExceptRun BlockRecords Timeline

/-! ## The events of a chain -/

section Events

variable (H : Hashes) (constants : ConsensusConstants)

/-- The starts of the sub slots of a chain with their challenges, where the bundles end as given. -/
def slotStarts (ends : List (ℕ × EndOfSubSlotBundle)) : List (ℕ × Bytes32) :=
  (0, constants.GENESIS_CHALLENGE) ::
    ends.map fun x => (x.1, H.challengeChainSubSlot x.2.challengeChain)

/-- The events at the ends of bundles: the reward chain challenge, and the element of the challenge chain. -/
def slotEvents (ends : List (ℕ × EndOfSubSlotBundle)) : List (ℕ × Bytes32 × ClassgroupElement) :=
  ends.map fun x => (x.1, H.rewardChainSubSlot x.2.rewardChain, defaultElement)

/-- The infusion of a block. -/
def blockEvent (e : Entry) : ℕ × Bytes32 × ClassgroupElement :=
  (e.2.totalIters, e.2.rewardInfusionNewChallenge, e.2.challengeVdfOutput)

/-- The events of some blocks, where the sub slot before them ends at `next`. -/
def eventsFrom (next : ℕ) : List Entry → List (ℕ × Bytes32 × ClassgroupElement)
  | [] => []
  | e :: es => slotEvents H (endsFrom next e.2.subSlotIters e.1.finishedSubSlots) ++ blockEvent e ::
      eventsFrom (next + e.1.finishedSubSlots.length * e.2.subSlotIters) es

/-- The events of a chain, oldest first: its sub slots start and its blocks are infused. -/
def events (es : List Entry) : List (ℕ × Bytes32 × ClassgroupElement) :=
  (0, constants.GENESIS_CHALLENGE, defaultElement) ::
    eventsFrom H constants.SUB_SLOT_ITERS_STARTING es

/-- Where the VDFs of a signage point start, which comes after the chain `es` and `slots` further sub slots of
`subSlotIters` iterations: the challenge is that of the latest sub slot, and the reward chain challenge, the
element of the challenge chain and the iterations are those since the latest event. -/
def signagePointStart (es : List Entry) (subSlotIters : ℕ) (slots : List EndOfSubSlotBundle)
    (spTotalIters : ℕ) : Option SignagePointVdfInfo := do
  let later := endsFrom (slotEnd constants es) subSlotIters slots
  let (_, ccVdfChallenge) ←
    latest spTotalIters (slotStarts H constants (slotEnds constants es ++ later))
  let (total, rcVdfChallenge, ccVdfInput) ←
    latest spTotalIters (events H constants es ++ slotEvents H later)
  return ⟨ccVdfChallenge, rcVdfChallenge, ccVdfInput, spTotalIters - total⟩

variable {H constants} {es es' a c : List Entry} {f : Entry} {next : ℕ}

lemma eventsFrom_append :
    eventsFrom H next (es ++ es') = eventsFrom H next es ++ eventsFrom H (slotEndFrom next es) es' := by
  induction es generalizing next with
  | nil => rfl
  | cons e es ih =>
    rw [List.cons_append, eventsFrom, ih, eventsFrom, slotEndFrom, List.append_assoc, List.cons_append]

lemma eventsFrom_of_nil (hc : ∀ x ∈ c, x.1.finishedSubSlots = []) :
    eventsFrom H next c = c.map blockEvent := by
  induction c generalizing next with
  | nil => rfl
  | cons x c ih =>
    rw [eventsFrom, hc x List.mem_cons_self, ih fun y hy => hc y (List.mem_cons_of_mem x hy)]
    rfl

variable (H constants) in
/-- The challenges of the two chains at the start of the sub slot of which the block is the first. -/
def slotHash (f : Entry) : Bytes32 × Bytes32 :=
  match f.1.finishedSubSlots.getLast? with
  | some slot => (H.challengeChainSubSlot slot.challengeChain, H.rewardChainSubSlot slot.rewardChain)
  | none => (constants.GENESIS_CHALLENGE, constants.GENESIS_CHALLENGE)

/-- The last sub slot of a chain: the starts of sub slots up to it, and the events up to it. -/
lemma AcceptedChain.lastSlot {V : Verifiers} (h : AcceptedChain H V constants (a ++ f :: c))
    (hf : f.2.firstInSubSlot = true) (hc : ∀ x ∈ c, x.1.finishedSubSlots = []) :
    ∃ start starts before, start + f.2.subSlotIters = slotEnd constants (a ++ f :: c) ∧
      slotStarts H constants (slotEnds constants (a ++ f :: c)) =
        starts ++ [(start, (slotHash H constants f).1)] ∧
      events H constants (a ++ f :: c) =
        (before ++ [(start, (slotHash H constants f).2, defaultElement)]) ++ (f :: c).map blockEvent := by
  rcases List.eq_nil_or_concat f.1.finishedSubSlots with hnil | ⟨init, slot, hslots⟩
  · obtain rfl := h.eq_nil_of_first hf hnil
    obtain ⟨hends, hend⟩ := @slotEnds_eq_nil constants c f hnil hc
    refine ⟨0, [], [], ?_, ?_, ?_⟩
    · rw [List.nil_append, hend, Nat.zero_add]
      exact (h.head_follows.genesis rfl).2
    · rw [List.nil_append, hends, slotHash, hnil]
      rfl
    · rw [events, List.nil_append, eventsFrom, eventsFrom_of_nil hc, slotHash, hnil]
      rfl
  · rw [List.concat_eq_append] at hslots
    have hhash : slotHash H constants f = (H.challengeChainSubSlot slot.challengeChain,
        H.rewardChainSubSlot slot.rewardChain) := by
      rw [slotHash, hslots, List.getLast?_concat]
    obtain ⟨start, hsum, hstart, hends⟩ := @slotEnds_of_slotPart constants a c f init slot hc hslots
    refine ⟨start, (slotStarts H constants (slotEnds constants a)) ++
      (endsFrom (slotEnd constants a) f.2.subSlotIters init).map
        (fun x => (x.1, H.challengeChainSubSlot x.2.challengeChain)),
      events H constants a ++ slotEvents H (endsFrom (slotEnd constants a) f.2.subSlotIters init),
      hsum, ?_, ?_⟩
    · rw [hends, hhash, slotStarts, slotStarts]
      simp
    · have hlast : endsFrom (slotEnd constants a) f.2.subSlotIters f.1.finishedSubSlots =
          endsFrom (slotEnd constants a) f.2.subSlotIters init ++ [(start, slot)] := by
        rw [hslots, endsFrom_append, hstart]
        rfl
      rw [events, eventsFrom_append, eventsFrom, eventsFrom_of_nil hc, ← slotEnd, hlast, hhash, events,
        slotEvents, slotEvents]
      simp

end Events

/-! ## The last sub slot of a chain -/

section LastSlot

variable {H : Hashes} {V : Verifiers} {constants : ConsensusConstants} {blocks : BlockRecords}
  {a c : List Entry} {e f g : Entry} {p : BlockRecord} {t spIters : ℕ}

/-- The VDF start in a sub slot with the given challenges: the latest block infused there, or the start of the
sub slot. -/
def startInSlot (hash : Bytes32 × Bytes32) (infused : Option (ℕ × Bytes32 × ClassgroupElement))
    (spTotalIters spIters : ℕ) : SignagePointVdfInfo :=
  match infused with
  | some (total, rcVdfChallenge, ccVdfInput) =>
    ⟨hash.1, rcVdfChallenge, ccVdfInput, spTotalIters - total⟩
  | none => ⟨hash.1, hash.2, defaultElement, spIters⟩

/-- The start of the VDFs of a signage point in the last sub slot of a chain, where bundles that come later end
after the signage point. -/
lemma AcceptedChain.signagePointStart_eq (h : AcceptedChain H V constants (a ++ f :: c))
    (hf : f.2.firstInSubSlot = true) (hc : ∀ x ∈ c, x.1.finishedSubSlots = [])
    (ht : t + f.2.subSlotIters = slotEnd constants (a ++ f :: c) + spIters)
    {subSlotIters : ℕ} {slots : List EndOfSubSlotBundle}
    (hlater : ∀ x ∈ endsFrom (slotEnd constants (a ++ f :: c)) subSlotIters slots, t < x.1) :
    signagePointStart H constants (a ++ f :: c) subSlotIters slots t =
      some (startInSlot (slotHash H constants f) (latest t ((f :: c).map blockEvent)) t spIters) := by
  obtain ⟨start, starts, before, hsum, hstarts, hevents⟩ := h.lastSlot hf hc
  have hle : start ≤ t := by omega
  have hchallenge : latest t (slotStarts H constants (slotEnds constants (a ++ f :: c) ++
      endsFrom (slotEnd constants (a ++ f :: c)) subSlotIters slots)) =
        some (start, (slotHash H constants f).1) := by
    rw [slotStarts, List.map_append, ← List.cons_append, latest_append_of_lt, ← slotStarts, hstarts,
      latest_concat hle]
    intro y hy
    obtain ⟨x, hx, rfl⟩ := List.mem_map.mp hy
    exact hlater x hx
  have hevent : latest t (events H constants (a ++ f :: c) ++
      slotEvents H (endsFrom (slotEnd constants (a ++ f :: c)) subSlotIters slots)) =
        (latest t ((f :: c).map blockEvent)).or
          (some (start, (slotHash H constants f).2, defaultElement)) := by
    rw [latest_append_of_lt, hevents, latest_append, latest_concat hle]
    intro y hy
    obtain ⟨x, hx, rfl⟩ := List.mem_map.mp hy
    exact hlater x hx
  rw [signagePointStart]
  simp only [hchallenge, hevent]
  cases latest t ((f :: c).map blockEvent) with
  | some event => rfl
  | none =>
    have hiters : t - start = spIters := by omega
    simp [startInSlot, hiters]

/-- No block of a sub slot is infused at a signage point of the sub slot.

**Proof sketch.** The signage point is at a multiple of the interval after the start of the sub slot, and the
infusion point is not. -/
lemma Timed.total_ne {es : List Entry} {interval ip index : ℕ} (h : Timed constants es p interval ip)
    (ht : t + p.subSlotIters = slotEnd constants es + interval * index) : p.totalIters ≠ t := by
  rintro rfl
  have htotal := h.total
  have hip : ip = interval * index := by omega
  exact h.infusion.not_dvd ⟨index, hip⟩

lemma AcceptedChain.total_ne (h : AcceptedChain H V constants (a ++ f :: c))
    (hf : f.2.firstInSubSlot = true) (hc : ∀ x ∈ c, x.1.finishedSubSlots = []) {interval index : ℕ}
    (hinterval : calculateSpIntervalIters constants f.2.subSlotIters = .ok interval)
    (ht : t + f.2.subSlotIters = slotEnd constants (a ++ f :: c) + interval * index)
    (he : e ∈ a ++ f :: c) : e.2.totalIters ≠ t := by
  obtain ⟨hend, -⟩ := @slotEnd_append_of_nil constants (a ++ [f]) c hc
  rw [List.append_assoc, List.singleton_append] at hend
  rcases List.mem_append.mp he with ha | hslot
  · -- the blocks before are infused before the sub slot starts
    have hbefore : AcceptedChain H V constants a := h.of_append (List.ne_nil_of_mem ha)
    have hlt := hbefore.total_lt ha
    rcases Nat.eq_zero_or_pos f.1.finishedSubSlots.length with hzero | hpos
    · have hnil := h.eq_nil_of_first hf (List.length_eq_zero_iff.mp hzero)
      rw [hnil] at ha
      cases ha
    · have hmul := Nat.mul_le_mul_right f.2.subSlotIters hpos
      rw [hend, slotEnd_concat] at ht
      omega
  · obtain ⟨hiters, interval', ip, htimed⟩ := h.slotPart hc e hslot
    obtain rfl : interval' = interval := by
      have hi := htimed.interval_eq
      rw [hiters, hinterval] at hi
      exact (Except.ok.inj hi).symm
    exact htimed.total_ne (by rw [hiters, ← hend]; exact ht)

lemma Follows.lastSlotHash_eq {es : List Entry} (h : Follows H constants es f)
    (hf : f.2.firstInSubSlot = true) :
    lastSlotHash f.2.finishedChallengeSlotHashes = .ok (slotHash H constants f).1 ∧
      lastSlotHash f.2.finishedRewardSlotHashes = .ok (slotHash H constants f).2 := by
  rw [h.challengeHashes, h.rewardHashes, slotHash, finishedSlotHashes, finishedSlotHashes]
  rcases List.eq_nil_or_concat f.1.finishedSubSlots with hnil | ⟨init, slot, hslots⟩
  · have hheight : f.1.height = 0 := by
      have hfirst := h.first
      rw [hf, hnil] at hfirst
      simpa using hfirst.symm
    simp [hnil, hheight, lastSlotHash, pySome, pyLast]
  · rw [List.concat_eq_append] at hslots
    rw [hslots, if_pos (by simp), if_pos (by simp), List.getLast?_concat, lastSlotHash, lastSlotHash]
    simp [pySome, pyLast]

lemma spVdfFromBlock_eq_ok {start : ℕ} (hstart : start + spIters = t) (hlow : start ≤ e.2.totalIters)
    (hlt : e.2.totalIters < t) (hfits : spIters < 2 ^ 64) :
    spVdfFromBlock t e.2 =
      .ok (e.2.rewardInfusionNewChallenge, e.2.challengeVdfOutput, t - e.2.totalIters) := by
  have hiters : uint64 ((t : ℤ) - e.2.totalIters) = .ok (t - e.2.totalIters) := by
    rw [uint64, uintN_eq_ok]
    omega
  rw [spVdfFromBlock, hiters]
  rfl

variable (h : AcceptedChain H V constants (a ++ f :: c))

include h

lemma AcceptedChain.first_follows : Follows H constants a f := by
  rw [show a ++ f :: c = (a ++ [f]) ++ c by simp] at h
  exact (h.of_append (by simp)).follows

lemma AcceptedChain.start_le (hc : ∀ x ∈ c, x.1.finishedSubSlots = []) (he : e ∈ f :: c) :
    slotEnd constants (a ++ f :: c) ≤ e.2.totalIters + f.2.subSlotIters := by
  obtain ⟨hend, -⟩ := @slotEnd_append_of_nil constants (a ++ [f]) c hc
  rw [List.append_assoc, List.singleton_append] at hend
  obtain ⟨hiters, interval, ip, htimed⟩ := h.slotPart hc e he
  have htotal := htimed.total
  omega

/-- **Cases 4 and 6**: the walk in the sub slot of the previous block gives the latest event there.

**Proof sketch.** The walk stops at the last block of the sub slot that is not infused after the signage point, or
at the first block. In the first case it is infused before, since no block is infused at a signage point. -/
lemma AcceptedChain.spVdfInSubSlot_eq (hpath : blocks.Chain p ((a ++ f :: c).map Prod.snd))
    (hf : f.2.firstInSubSlot = true) (hc : ∀ x ∈ c, x.2.firstInSubSlot = false ∧ x.1.finishedSubSlots = [])
    (ht : t + f.2.subSlotIters = slotEnd constants (a ++ f :: c) + spIters)
    (hne : ∀ e ∈ a ++ f :: c, e.2.totalIters ≠ t) (hfits : spIters < 2 ^ 64) :
    spVdfInSubSlot blocks p t spIters =
      .ok (startInSlot (slotHash H constants f) (latest t ((f :: c).map blockEvent)) t spIters) := by
  have hnil : ∀ x ∈ c, x.1.finishedSubSlots = [] := fun x hx => (hc x hx).2
  obtain ⟨start, -, -, hsum, -, -⟩ := h.lastSlot hf hnil
  obtain ⟨u, x, v, hcut, hx, hv⟩ := @exists_last Entry (f :: c)
    (fun e => e.2.firstInSubSlot || !decide (e.2.totalIters > t)) ⟨f, List.mem_cons_self, by simp [hf]⟩
  have hsplit : (a ++ f :: c).map Prod.snd = (a ++ u).map Prod.snd ++ x.2 :: v.map Prod.snd := by
    rw [hcut]
    simp
  have hwalk := @walkBack_eq_ok blocks (fun r => r.firstInSubSlot || !decide (r.totalIters > t)) _ _ _ _ _
    hpath hsplit hx
    fun y hy => by
      obtain ⟨e, he, rfl⟩ := List.mem_map.mp hy
      exact hv e he
  have hafter : ∀ y ∈ v.map blockEvent, t < y.1 := fun y hy => by
    obtain ⟨e, he, rfl⟩ := List.mem_map.mp hy
    have hstop := hv e he
    simp only [Bool.or_eq_false_iff, Bool.not_eq_false', decide_eq_true_eq] at hstop
    exact hstop.2
  have hxmem : x ∈ f :: c := by
    rw [hcut]
    simp
  -- the walk on to the first block
  have hpathX : blocks.Chain x.2 ((a ++ u).map Prod.snd ++ [x.2]) := ParentTree.Path.of_append hpath hsplit
  have hwalk' : blocks.walkBack BlockRecord.firstInSubSlot x.2 = .ok f.2 := by
    cases u with
    | nil =>
      obtain ⟨rfl, -⟩ := List.cons.inj hcut
      exact walkBack_eq_ok hpathX rfl hf fun y hy => by cases hy
    | cons f' u =>
      obtain ⟨rfl, hrest⟩ := List.cons.inj hcut
      refine walkBack_eq_ok hpathX (show _ = a.map Prod.snd ++ f.2 :: (u ++ [x]).map Prod.snd by simp) hf
        fun y hy => ?_
      obtain ⟨e, he, rfl⟩ := List.mem_map.mp hy
      refine (hc e ?_).1
      rw [hrest]
      rcases List.mem_append.mp he with he | he
      · exact List.mem_append_left _ he
      · rw [List.mem_singleton.mp he]
        simp
  obtain ⟨hcc, hrc⟩ := h.first_follows.lastSlotHash_eq hf
  rw [spVdfInSubSlot]
  simp only [hwalk, ok_bind, hwalk', hcc, spVdfStart]
  split
  · rename_i hlt
    have hlow := h.start_le hnil hxmem
    rw [spVdfFromBlock_eq_ok (show start + spIters = t by omega) (by omega) hlt hfits, hcut, List.map_append,
      List.map_cons, latest_split (show (blockEvent x).1 ≤ t from hlt.le) hafter]
    rfl
  · rename_i hnot
    have hgt : t < x.2.totalIters :=
      lt_of_le_of_ne (Nat.le_of_not_lt hnot) (hne x (List.mem_append_right _ hxmem)).symm
    -- only the first block stops the walk without being infused before
    have hfirst : u = [] := by
      by_contra hu
      obtain ⟨f', u, rfl⟩ := List.exists_cons_of_ne_nil hu
      obtain ⟨-, hrest⟩ := List.cons.inj hcut
      have hxc := (hc x (by rw [hrest]; simp)).1
      simp [hxc, hgt] at hx
    subst hfirst
    obtain ⟨rfl, rfl⟩ := List.cons.inj hcut
    rw [latest_eq_none (fun y hy => by
      rcases List.mem_cons.mp hy with rfl | hy
      · exact hgt
      · exact hafter y hy), hrc]
    rfl

end LastSlot

/-! ## The walk over two sub slots -/

section TwoSubSlots

variable {H : Hashes} {V : Verifiers} {constants : ConsensusConstants} {blocks : BlockRecords}
  {a b c : List Entry} {e f g x : Entry} {p r : BlockRecord} {t spIters fuel : ℕ}
  {found hashes : List (Bytes32 × Bytes32)} {spPreSb : Option BlockRecord}

lemma foundSubSlots_of_not_first (hr : r.firstInSubSlot = false) : foundSubSlots r = .ok [] := by
  have hnone : r.finishedChallengeSlotHashes = none := by simpa [BlockRecord.firstInSubSlot] using hr
  rw [foundSubSlots, hnone]

variable (H) in
/-- The challenges of the two chains after a bundle. -/
def slotPair (slot : EndOfSubSlotBundle) : Bytes32 × Bytes32 :=
  (H.challengeChainSubSlot slot.challengeChain, H.rewardChainSubSlot slot.rewardChain)

lemma Follows.foundSubSlots_eq {es : List Entry} (h : Follows H constants es f)
    (hf : f.2.firstInSubSlot = true) :
    foundSubSlots f.2 = .ok (if f.1.finishedSubSlots = [] then [slotHash H constants f]
      else (f.1.finishedSubSlots.map (slotPair H)).reverse) := by
  rw [foundSubSlots, h.challengeHashes, h.rewardHashes, finishedSlotHashes, finishedSlotHashes]
  by_cases hnil : f.1.finishedSubSlots = []
  · have hheight : f.1.height = 0 := by
      have hfirst := h.first
      rw [hf, hnil] at hfirst
      simpa using hfirst.symm
    simp [hnil, hheight, pySome, slotHash]
  · simp [hnil, pySome, List.zip_map', slotPair]

/-- The walk of case 5 back along the blocks of a sub slot that are not the first there, with the last of them
that is infused before the signage point.

**Proof sketch.** Induction on the blocks, from the last one: each but the first finds no slots. -/
lemma twoSubSlotsFrom_walk (hpath : blocks.Chain r ((b ++ x :: c).map Prod.snd))
    (hc : ∀ y ∈ c, y.2.firstInSubSlot = false ∧ y.2.height ≠ 0) (hfound : found.length < 2)
    (hx : foundSubSlots x.2 = .ok hashes) :
    twoSubSlotsFrom blocks t (fuel + c.length) r found spPreSb =
      twoSubSlotsFrom blocks t fuel x.2 (if c = [] then found else found ++ hashes)
        (spPreSb.or ((c.filter fun y => y.2.totalIters < t).getLast?.map Prod.snd)) := by
  induction c using List.reverseRecOn generalizing r spPreSb with
  | nil =>
    have hlast := ParentTree.Path.getLast?_eq hpath
    rw [List.map_append, List.map_cons, List.map_nil, List.getLast?_concat] at hlast
    rw [← Option.some.inj hlast]
    simp
  | append_singleton c y ih =>
    have hcons : (b ++ x :: (c ++ [y])).map Prod.snd = (b ++ x :: c).map Prod.snd ++ [y.2] := by simp
    rw [hcons] at hpath
    obtain rfl : y.2 = r := by
      have hlast := ParentTree.Path.getLast?_eq hpath
      rw [List.getLast?_concat] at hlast
      exact Option.some.inj hlast
    obtain ⟨-, hheight⟩ := hc y (by simp)
    obtain ⟨q, l, hq, -, hpathQ, hl⟩ := ParentTree.Path.parent hpath hheight
    obtain rfl := (List.append_inj' hl rfl).1
    have hsteps : fuel + (c ++ [y]).length = (fuel + c.length) + 1 := by simp; omega
    have hc' : ∀ z ∈ c, z.2.firstInSubSlot = false ∧ z.2.height ≠ 0 := fun z hz => hc z (by simp [hz])
    -- the parent is another block of the sub slot or the first one
    have hmore : foundSubSlots q = .ok (if c = [] then hashes else []) := by
      have hlast := ParentTree.Path.getLast?_eq hpathQ
      rcases List.eq_nil_or_concat c with rfl | ⟨init, z, rfl⟩
      · rw [List.map_append, List.map_cons, List.map_nil, List.getLast?_concat] at hlast
        rw [← Option.some.inj hlast, if_pos rfl, hx]
      · rw [List.concat_eq_append] at hlast hc' ⊢
        have hz : z.2 = q := by
          rw [show (b ++ x :: (init ++ [z])).map Prod.snd = (b ++ x :: init).map Prod.snd ++ [z.2] by simp,
            List.getLast?_concat] at hlast
          exact Option.some.inj hlast
        rw [← hz, if_neg (by simp), foundSubSlots_of_not_first (hc' z (by simp)).1]
    have hpre : (if spPreSb.isNone = true ∧ y.2.totalIters < t then some y.2 else spPreSb).or
        ((c.filter fun y => y.2.totalIters < t).getLast?.map Prod.snd) =
          spPreSb.or (((c ++ [y]).filter fun y => y.2.totalIters < t).getLast?.map Prod.snd) := by
      rw [List.filter_append, List.getLast?_append]
      cases spPreSb with
      | some z => simp
      | none => by_cases hlt : y.2.totalIters < t <;> simp [hlt]
    have hq : blocks.get y.2.prevHash = some q := hq
    rw [hsteps, twoSubSlotsFrom, if_pos ⟨hfound, Nat.pos_of_ne_zero hheight⟩,
      if_neg (show ¬c ++ [y] = [] by simp), ← hpre]
    simp only [blockRecord_eq_ok hq, ok_bind, hmore]
    rcases eq_or_ne c [] with rfl | hne
    · have hlast := ParentTree.Path.getLast?_eq hpathQ
      rw [List.map_append, List.map_cons, List.map_nil, List.getLast?_concat] at hlast
      rw [← Option.some.inj hlast, if_pos rfl]
      simp
    · rw [if_neg hne, List.append_nil, ih hpathQ hc', if_neg hne]

variable (t fuel found spPreSb) in
lemma twoSubSlotsFrom_first (hpath : blocks.Chain r ((b ++ x :: c).map Prod.snd))
    (hc : ∀ y ∈ c, y.2.firstInSubSlot = false ∧ y.2.height ≠ 0) (hfound : found.length < 2)
    (hx : foundSubSlots x.2 = .ok hashes) :
    ∃ more, foundSubSlots r = .ok more ∧
      twoSubSlotsFrom blocks t (fuel + c.length) r (found ++ more) spPreSb =
        twoSubSlotsFrom blocks t fuel x.2 (found ++ hashes)
          (spPreSb.or ((c.filter fun y => y.2.totalIters < t).getLast?.map Prod.snd)) := by
  have hlast := ParentTree.Path.getLast?_eq hpath
  rcases List.eq_nil_or_concat c with rfl | ⟨init, z, rfl⟩
  · rw [List.map_append, List.map_cons, List.map_nil, List.getLast?_concat] at hlast
    refine ⟨hashes, ?_, ?_⟩
    · rw [← Option.some.inj hlast, hx]
    · rw [← Option.some.inj hlast]
      simp
  · rw [List.concat_eq_append] at hpath hc hlast ⊢
    have hz : z.2 = r := by
      rw [show (b ++ x :: (init ++ [z])).map Prod.snd = (b ++ x :: init).map Prod.snd ++ [z.2] by simp,
        List.getLast?_concat] at hlast
      exact Option.some.inj hlast
    refine ⟨[], ?_, ?_⟩
    · rw [← hz]
      exact foundSubSlots_of_not_first (hc z (by simp)).1
    · rw [List.append_nil, twoSubSlotsFrom_walk hpath hc hfound hx, if_neg (by simp)]

lemma latest_blockEvent {l : List Entry} (hne : ∀ e ∈ l, e.2.totalIters ≠ t) :
    latest t (l.map blockEvent) = (l.filter fun y => y.2.totalIters < t).getLast?.map blockEvent := by
  rw [latest, List.filter_map, List.getLast?_map]
  congr 2
  refine List.filter_congr fun e he => ?_
  have hne := hne e he
  exact decide_eq_decide.mpr ⟨fun hle => lt_of_le_of_ne hle hne, fun hlt => hlt.le⟩

/-- **Case 5, with an empty sub slot before.** If the first block of the sub slot carries more than one bundle,
the walk ends there, and the second to last bundle starts the sub slot of the signage point. -/
lemma AcceptedChain.spVdfInPrevSubSlot_of_two (h : AcceptedChain H V constants (a ++ f :: c))
    (hpath : blocks.Chain p ((a ++ f :: c).map Prod.snd)) (hf : f.2.firstInSubSlot = true)
    (hc : ∀ x ∈ c, x.2.firstInSubSlot = false ∧ x.2.height ≠ 0)
    {init : List EndOfSubSlotBundle} {slot slot' : EndOfSubSlotBundle}
    (hslots : f.1.finishedSubSlots = init ++ [slot', slot]) (hlate : ∀ y ∈ f :: c, t < y.2.totalIters) :
    spVdfInPrevSubSlot blocks p t spIters =
      .ok (startInSlot (slotPair H slot') none t spIters) := by
  have hfound := h.first_follows.foundSubSlots_eq hf
  rw [hslots, if_neg (by simp)] at hfound
  have hhashes : ((init ++ [slot', slot]).map (slotPair H)).reverse =
      slotPair H slot :: slotPair H slot' :: (init.map (slotPair H)).reverse := by simp
  rw [hhashes] at hfound
  have hnone : (c.filter fun y => y.2.totalIters < t).getLast?.map Prod.snd = none := by
    rw [List.filter_eq_nil_iff.mpr fun y hy => by
      have := hlate y (List.mem_cons_of_mem f hy)
      simp only [decide_eq_true_eq]
      omega]
    rfl
  obtain ⟨fuel, hfuel⟩ : ∃ fuel, blocks.fuel = (fuel + 1) + c.length := by
    have hlt := height_lt_fuel hpath
    have hlen := Chain.length_eq hpath
    simp only [List.length_map, List.length_append, List.length_cons] at hlen
    exact ⟨blocks.fuel - c.length - 1, by omega⟩
  obtain ⟨more, hmore, hwalk⟩ := twoSubSlotsFrom_first t (fuel + 1) [] none hpath hc (by simp) hfound
  rw [List.nil_append, hnone, twoSubSlotsFrom, if_neg (by simp)] at hwalk
  rw [spVdfInPrevSubSlot, hmore, ok_bind, hfuel, hwalk]
  have hnot : ¬(f.2.totalIters < t) := by
    have := hlate f List.mem_cons_self
    omega
  simp only [ok_bind, hnot, and_false, if_false]
  rfl

/-- **Case 5, without an empty sub slot before.** If the first block of the sub slot carries one bundle, the walk
goes on to the first block of the sub slot before, in which the signage point lies.

**Proof sketch.** In the sub slot of the previous block no block is infused before the signage point. From the
parent of the first block there on, the walk keeps the last block that is, and it ends with two bundles
found: that of the first block, and the last one of the sub slot before. -/
lemma AcceptedChain.spVdfInPrevSubSlot_of_one (h : AcceptedChain H V constants (a ++ g :: b ++ f :: c))
    (hpath : blocks.Chain p ((a ++ g :: b ++ f :: c).map Prod.snd)) (hf : f.2.firstInSubSlot = true)
    (hc : ∀ x ∈ c, x.2.firstInSubSlot = false ∧ x.2.height ≠ 0) (hg : g.2.firstInSubSlot = true)
    (hb : ∀ x ∈ b, (x.2.firstInSubSlot = false ∧ x.2.height ≠ 0) ∧ x.1.finishedSubSlots = [])
    {slot : EndOfSubSlotBundle} (hslots : f.1.finishedSubSlots = [slot])
    (hlate : ∀ y ∈ f :: c, t < y.2.totalIters)
    (ht : t + g.2.subSlotIters = slotEnd constants (a ++ g :: b) + spIters)
    (hne : ∀ e ∈ g :: b, e.2.totalIters ≠ t) (hfits : spIters < 2 ^ 64) :
    spVdfInPrevSubSlot blocks p t spIters =
      .ok (startInSlot (slotHash H constants g) (latest t ((g :: b).map blockEvent)) t spIters) := by
  have hbefore : AcceptedChain H V constants (a ++ g :: b) := h.of_append (by simp)
  have hfollows : Follows H constants (a ++ g :: b) f := h.first_follows
  have hfoundF := hfollows.foundSubSlots_eq hf
  rw [hslots, if_neg (by simp)] at hfoundF
  -- the last bundle of the sub slot before is the first of those found there
  obtain ⟨hashes, hfoundG⟩ : ∃ hashes, foundSubSlots g.2 = .ok (slotHash H constants g :: hashes) := by
    rw [hbefore.first_follows.foundSubSlots_eq hg, slotHash]
    rcases List.eq_nil_or_concat g.1.finishedSubSlots with hnil | ⟨init, last, hlast⟩
    · exact ⟨[], by simp [hnil]⟩
    · rw [List.concat_eq_append] at hlast
      exact ⟨(init.map (slotPair H)).reverse, by simp [hlast, slotPair]⟩
  have hnone : (c.filter fun y => y.2.totalIters < t).getLast?.map Prod.snd = none := by
    rw [List.filter_eq_nil_iff.mpr fun y hy => by
      have := hlate y (List.mem_cons_of_mem f hy)
      simp only [decide_eq_true_eq]
      omega]
    rfl
  have hnot : ¬(f.2.totalIters < t) := by
    have := hlate f List.mem_cons_self
    omega
  obtain ⟨fuel, hfuel⟩ : ∃ fuel, blocks.fuel = ((fuel + 1) + b.length + 1) + c.length := by
    have hlt := height_lt_fuel hpath
    have hlen := Chain.length_eq hpath
    simp only [List.length_map, List.length_append, List.length_cons] at hlen
    exact ⟨blocks.fuel - c.length - b.length - 2, by omega⟩
  -- the first walk
  obtain ⟨more, hmore, hwalk⟩ := twoSubSlotsFrom_first t ((fuel + 1) + b.length + 1) [] none hpath hc
    (by simp) hfoundF
  -- the parent of the first block
  have hheight : f.2.height ≠ 0 := by
    obtain ⟨q, hq⟩ : ∃ q, (a ++ g :: b).getLast? = some q :=
      ⟨_, List.getLast?_eq_some_getLast (by simp)⟩
    have hparent := (hfollows.parent q hq).1
    rw [hfollows.height_eq, hparent]
    exact Nat.succ_ne_zero _
  have hpathF : blocks.Chain f.2 ((a ++ g :: b).map Prod.snd ++ [f.2]) :=
    ParentTree.Path.of_append hpath (show _ = (a ++ g :: b).map Prod.snd ++ f.2 :: c.map Prod.snd by simp)
  obtain ⟨q, l, hq, -, hpathQ, hl⟩ := ParentTree.Path.parent hpathF hheight
  obtain rfl := (List.append_inj' hl rfl).1
  have hq : blocks.get f.2.prevHash = some q := hq
  -- the second walk
  obtain ⟨more', hmore', hwalk'⟩ := twoSubSlotsFrom_first t (fuel + 1) [slotPair H slot] none hpathQ
    (fun y hy => (hb y hy).1) (by simp) hfoundG
  rw [List.nil_append, hnone, twoSubSlotsFrom, if_pos (by simp [Nat.pos_of_ne_zero hheight])] at hwalk
  simp only [blockRecord_eq_ok hq, ok_bind, hmore', hnot, and_false, if_false, List.map_cons, List.map_nil,
    List.reverse_singleton, Option.or_none, List.nil_append] at hwalk
  rw [hwalk', twoSubSlotsFrom, if_neg (by simp)] at hwalk
  -- the last block of the sub slot before that is infused before the signage point
  have hlast : (if (none.or ((b.filter fun y => y.2.totalIters < t).getLast?.map Prod.snd)).isNone = true ∧
      g.2.totalIters < t then some g.2
      else none.or ((b.filter fun y => y.2.totalIters < t).getLast?.map Prod.snd)) =
        ((g :: b).filter fun y => y.2.totalIters < t).getLast?.map Prod.snd := by
    rw [← List.singleton_append, List.filter_append, List.getLast?_append, Option.none_or]
    by_cases hlt : g.2.totalIters < t
    · cases (b.filter fun y => y.2.totalIters < t).getLast? <;> simp [hlt]
    · cases (b.filter fun y => y.2.totalIters < t).getLast? <;> simp [hlt]
  rw [spVdfInPrevSubSlot, hmore, ok_bind, hfuel, hwalk, latest_blockEvent hne, ok_bind]
  simp only [hlast]
  cases hx : ((g :: b).filter fun y => y.2.totalIters < t).getLast? with
  | none => rfl
  | some x =>
    obtain ⟨start, -, -, hsum, -, -⟩ := hbefore.lastSlot hg fun y hy => (hb y hy).2
    obtain ⟨hxmem, hlt⟩ := List.mem_filter.mp (List.mem_of_getLast? hx)
    have hlow := hbefore.start_le (fun y hy => (hb y hy).2) hxmem
    rw [Option.map_some, spVdfStartInPrevSubSlot, spVdfFromBlock_eq_ok (show start + spIters = t by omega) (by omega)
      (of_decide_eq_true hlt) hfits]
    rfl

end TwoSubSlots

/-! ## A block after a chain -/

section AfterChain

variable {H : Hashes} {V : Verifiers} {constants : ConsensusConstants} {chain : BlockchainInterface}
  {hb : UnfinishedHeaderBlock} {prevB : Option BlockRecord} {es a b c : List Entry} {f : Entry} {p r : BlockRecord}
  {blocks : BlockRecords}

/-- The walk of `get_block_challenge` back along the blocks of a sub slot that are not the first there. -/
lemma challengeHashesFrom_walk {fuel challengesToLookFor : ℕ} {found : List Bytes32} {x : Entry}
    (hpath : blocks.Chain r ((b ++ x :: c).map Prod.snd)) (hc : ∀ y ∈ c, y.2.firstInSubSlot = false ∧ y.2.height ≠ 0)
    (hfound : found.length < challengesToLookFor) :
    challengeHashesFrom blocks challengesToLookFor (fuel + c.length) r found =
      challengeHashesFrom blocks challengesToLookFor fuel x.2 found := by
  induction c using List.reverseRecOn generalizing r with
  | nil =>
    have hlast := ParentTree.Path.getLast?_eq hpath
    rw [List.map_append, List.map_cons, List.map_nil, List.getLast?_concat] at hlast
    rw [← Option.some.inj hlast]
    rfl
  | append_singleton c y ih =>
    rw [show (b ++ x :: (c ++ [y])).map Prod.snd = (b ++ x :: c).map Prod.snd ++ [y.2] by simp] at hpath
    obtain rfl : y.2 = r := by
      have hlast := ParentTree.Path.getLast?_eq hpath
      rw [List.getLast?_concat] at hlast
      exact Option.some.inj hlast
    obtain ⟨hfirst, hheight⟩ := hc y (by simp)
    obtain ⟨q, l, hq, -, hpathQ, hl⟩ := ParentTree.Path.parent hpath hheight
    obtain rfl := (List.append_inj' hl rfl).1
    have hq : blocks.get y.2.prevHash = some q := hq
    have hnone : y.2.finishedChallengeSlotHashes = none := by simpa [BlockRecord.firstInSubSlot] using hfirst
    rw [show fuel + (c ++ [y]).length = (fuel + c.length) + 1 by simp; omega, challengeHashesFrom,
      if_neg (Nat.not_le_of_lt hfound), hnone, if_neg hheight, blockRecord_eq_ok hq, ok_bind]
    rw [Option.getD_none, List.reverse_nil, List.append_nil]
    exact ih hpathQ fun z hz => hc z (by simp [hz])

lemma challengeOnTop_genesis {hash challenge : Bytes32} (hget : blocks.get hash = some p)
    (h : AcceptedChain H V constants (f :: c)) (hpath : blocks.Chain p ((f :: c).map Prod.snd))
    (hc : ∀ y ∈ c, y.2.firstInSubSlot = false ∧ y.2.height ≠ 0) {slot : EndOfSubSlotBundle}
    (hslots : f.1.finishedSubSlots = [slot]) : challengeOnTop blocks hash 2 ≠ .ok challenge := by
  intro hok
  have hfollows := h.head_follows
  have hheight : f.2.height = 0 := hfollows.height_eq.trans (hfollows.genesis rfl).1
  have hhashes : f.2.finishedChallengeSlotHashes = some [H.challengeChainSubSlot slot.challengeChain] := by
    rw [hfollows.challengeHashes, finishedSlotHashes, hslots]
    rfl
  obtain ⟨fuel, hfuel⟩ : ∃ fuel, blocks.fuel = (fuel + 1) + c.length := by
    have hlt := height_lt_fuel hpath
    have hlen := Chain.length_eq hpath
    simp only [List.length_map, List.length_cons] at hlen
    exact ⟨blocks.fuel - c.length - 1, by omega⟩
  rw [challengeOnTop, blockRecord_eq_ok hget, ok_bind, hfuel,
    challengeHashesFrom_walk (b := []) hpath hc (by simp), challengeHashesFrom, if_neg (by simp), hhashes,
    if_pos hheight] at hok
  cases hok

variable {subSlotIters index : ℕ}

/-- The place of a signage point after a chain. -/
lemma Placed.signagePoint_eq {n interval requiredIters ip spTotalIters total : ℕ} {overflow : Bool}
    (h : Placed constants prevB n subSlotIters interval index requiredIters ip spTotalIters total overflow)
    (hnone : prevB = none → es = []) (hsome : ∀ p, prevB = some p → ∃ interval ip, Timed constants es p interval ip) :
    total + subSlotIters = slotEnd constants es + n * subSlotIters + ip ∧
      spTotalIters + (if overflow then 2 else 1) * subSlotIters =
        slotEnd constants es + n * subSlotIters + interval * index := by
  have htotal : total + subSlotIters = slotEnd constants es + n * subSlotIters + ip := by
    cases hprev : prevB with
    | none =>
      obtain ⟨hiters, htotal⟩ := h.genesis hprev
      have hend : slotEnd constants es = constants.SUB_SLOT_ITERS_STARTING := by
        rw [hnone hprev]
        rfl
      rw [hend, ← hiters]
      omega
    | some p =>
      obtain ⟨intervalP, ipP, htimed⟩ := hsome p hprev
      have htotalP := htimed.total
      rcases Nat.eq_zero_or_pos n with hn | hn
      · obtain ⟨ipp, hipp, htotal⟩ := h.inSlot p hprev hn
        obtain rfl : ipp = ipP := by
          rw [htimed.ipIters] at hipp
          exact (Except.ok.inj hipp).symm
        have hsame := h.same p hprev (.inl hn)
        rw [hn, Nat.zero_mul]
        omega
      · obtain ⟨ipp, hipp, htotal⟩ := h.newSlot p hprev hn
        obtain rfl : ipp = ipP := by
          rw [htimed.ipIters] at hipp
          exact (Except.ok.inj hipp).symm
        omega
  have hsp := h.sp
  refine ⟨htotal, ?_⟩
  cases overflow with
  | false =>
    simp only [Bool.false_eq_true, if_false] at hsp ⊢
    omega
  | true =>
    simp only [if_true] at hsp ⊢
    omega

variable {t : ℕ}

/-- The start of the VDFs of a signage point in a sub slot that starts with a bundle after the chain. -/
lemma signagePointStart_of_slot {spIters : ℕ} {init rest : List EndOfSubSlotBundle} {slot : EndOfSubSlotBundle}
    (ht : t = slotEnd constants es + init.length * subSlotIters + spIters)
    (hrest : rest ≠ [] → spIters < subSlotIters) :
    signagePointStart H constants es subSlotIters (init ++ slot :: rest) t =
      some (spVdfFromSlot H slot spIters) := by
  set start := slotEnd constants es + init.length * subSlotIters with hstart
  have hends : endsFrom (slotEnd constants es) subSlotIters (init ++ slot :: rest) =
      endsFrom (slotEnd constants es) subSlotIters init ++
        (start, slot) :: endsFrom (start + subSlotIters) subSlotIters rest := by
    rw [endsFrom_append, endsFrom]
  have hlater : ∀ x ∈ endsFrom (start + subSlotIters) subSlotIters rest, t < x.1 := fun x hx => by
    have hle := (le_of_mem_endsFrom hx).1
    have hlt := hrest (by
      rintro rfl
      cases hx)
    omega
  have hchallenge : latest t (slotStarts H constants (slotEnds constants es ++
      endsFrom (slotEnd constants es) subSlotIters (init ++ slot :: rest))) =
        some (start, H.challengeChainSubSlot slot.challengeChain) := by
    rw [hends, slotStarts, List.map_append, List.map_append, List.map_cons, ← List.append_assoc,
      ← List.cons_append]
    refine latest_split (show start ≤ t by omega) fun y hy => ?_
    obtain ⟨x, hx, rfl⟩ := List.mem_map.mp hy
    exact hlater x hx
  have hevent : latest t (events H constants es ++
      slotEvents H (endsFrom (slotEnd constants es) subSlotIters (init ++ slot :: rest))) =
        some (start, H.rewardChainSubSlot slot.rewardChain, defaultElement) := by
    rw [hends, slotEvents, List.map_append, List.map_cons, ← List.append_assoc]
    refine latest_split (show start ≤ t by omega) fun y hy => ?_
    obtain ⟨x, hx, rfl⟩ := List.mem_map.mp hy
    exact hlater x hx
  have hiters : t - start = spIters := by omega
  rw [signagePointStart]
  simp only [hchallenge, hevent]
  rw [← hiters]
  rfl

lemma signagePointStart_of_genesis {slots : List EndOfSubSlotBundle} (ht : t < constants.SUB_SLOT_ITERS_STARTING) :
    signagePointStart H constants [] subSlotIters slots t =
      some ⟨constants.GENESIS_CHALLENGE, constants.GENESIS_CHALLENGE, defaultElement, t⟩ := by
  have hlater : ∀ x ∈ endsFrom constants.SUB_SLOT_ITERS_STARTING subSlotIters slots, t < x.1 := fun x hx =>
    lt_of_lt_of_le ht (le_of_mem_endsFrom hx).1
  have hchallenge : latest t (slotStarts H constants (slotEnds constants [] ++
      endsFrom (slotEnd constants []) subSlotIters slots)) = some (0, constants.GENESIS_CHALLENGE) := by
    refine @latest_split Bytes32 t (0, constants.GENESIS_CHALLENGE) [] _ (Nat.zero_le t) fun y hy => ?_
    obtain ⟨x, hx, rfl⟩ := List.mem_map.mp hy
    exact hlater x hx
  have hevent : latest t (events H constants [] ++
      slotEvents H (endsFrom (slotEnd constants []) subSlotIters slots)) =
        some (0, constants.GENESIS_CHALLENGE, defaultElement) := by
    refine @latest_split _ t (0, constants.GENESIS_CHALLENGE, defaultElement) [] _ (Nat.zero_le t)
      fun y hy => ?_
    obtain ⟨x, hx, rfl⟩ := List.mem_map.mp hy
    exact hlater x hx
  rw [signagePointStart]
  simp only [hchallenge, hevent]
  rfl

/-- The previous block of a block is the last one of the chain `es`, which is in the cache, or there is none. -/
def LastOf (H : Hashes) (V : Verifiers) (constants : ConsensusConstants) (blocks : BlockRecords) :
    Option BlockRecord → List Entry → Prop
  | none, es => es = []
  | some p, es => AcceptedChain H V constants es ∧ blocks.Chain p (es.map Prod.snd)

lemma LastOf.timed (h : LastOf H V constants chain.records prevB es) :
    (prevB = none → es = []) ∧ (∀ p, prevB = some p → ∃ interval ip, Timed constants es p interval ip) ∧
      ∀ p, prevB = some p → p.height < constants.EPOCH_BLOCKS →
        p.subSlotIters = constants.SUB_SLOT_ITERS_STARTING := by
  cases prevB with
  | none => exact ⟨fun _ => h, (fun p hp => by cases hp), fun p hp => by cases hp⟩
  | some p =>
    obtain ⟨haccepted, hpath⟩ := h
    have hlast := ParentTree.Path.getLast?_eq hpath
    rw [List.getLast?_map, Option.map_eq_some_iff] at hlast
    obtain ⟨e, he, rfl⟩ := hlast
    obtain ⟨init, rfl⟩ := List.getLast?_eq_some_iff.mp he
    refine ⟨nofun, fun q hq => ?_, fun q hq => ?_⟩
    · rw [← Option.some.inj hq]
      exact haccepted.follows.timed
    · rw [← Option.some.inj hq]
      exact haccepted.follows.starting

lemma AcceptedChain.start_in_slot (h : AcceptedChain H V constants es)
    (hpath : chain.records.Chain p (es.map Prod.snd)) {interval : ℕ} (hiters : subSlotIters = p.subSlotIters)
    (hinterval : calculateSpIntervalIters constants subSlotIters = .ok interval)
    (ht : t + subSlotIters = slotEnd constants es + interval * index) (hfits : interval * index < 2 ^ 64)
    {slots : List EndOfSubSlotBundle} (hlater : ∀ x ∈ endsFrom (slotEnd constants es) subSlotIters slots, t < x.1) :
    ∃ info, spVdfInSubSlot chain.records p t (interval * index) = .ok info ∧
      signagePointStart H constants es subSlotIters slots t = some info ∧
      ∀ e ∈ es, e.2.totalIters ≠ t := by
  obtain ⟨a, f, c, rfl, hf, hc⟩ := h.exists_slotPart
  have hnil : ∀ x ∈ c, x.1.finishedSubSlots = [] := fun x hx => (hc x hx).2
  obtain ⟨e, he, rfl⟩ : ∃ e ∈ f :: c, e.2 = p := by
    have hlast := ParentTree.Path.getLast?_eq hpath
    rw [List.getLast?_map, Option.map_eq_some_iff, List.getLast?_append_cons] at hlast
    obtain ⟨e, he, rfl⟩ := hlast
    exact ⟨e, List.mem_of_getLast? he, rfl⟩
  obtain rfl : subSlotIters = f.2.subSlotIters := hiters.trans (h.slotPart hnil e he).1
  have hne : ∀ e ∈ a ++ f :: c, e.2.totalIters ≠ t := fun e he => h.total_ne hf hnil hinterval ht he
  exact ⟨_, h.spVdfInSubSlot_eq hpath hf (fun x hx => ⟨(hc x hx).1.1, (hc x hx).2⟩) ht hne hfits,
    h.signagePointStart_eq hf hnil ht hlater, hne⟩

/-- Events after the signage point do not count: the last bundle of a block, and the blocks after it. -/
lemma signagePointStart_append {init : List EndOfSubSlotBundle} {slot : EndOfSubSlotBundle}
    (hc : ∀ x ∈ c, x.1.finishedSubSlots = []) (hslots : f.1.finishedSubSlots = init ++ [slot])
    (hslot : t + f.2.subSlotIters < slotEnd constants (a ++ f :: c)) (hlate : ∀ y ∈ f :: c, t < y.2.totalIters) :
    signagePointStart H constants (a ++ f :: c) subSlotIters [] t =
      signagePointStart H constants a f.2.subSlotIters init t := by
  obtain ⟨start, hsum, hstart, hends⟩ := @slotEnds_of_slotPart constants a c f init slot hc hslots
  have hlt : t < start := by omega
  have hchallenge : latest t (slotStarts H constants (slotEnds constants (a ++ f :: c) ++
      endsFrom (slotEnd constants (a ++ f :: c)) subSlotIters [])) =
        latest t (slotStarts H constants (slotEnds constants a ++
          endsFrom (slotEnd constants a) f.2.subSlotIters init)) := by
    rw [endsFrom, List.append_nil, hends, slotStarts, ← List.append_assoc, List.map_append, ← List.cons_append,
      latest_append_of_lt, slotStarts]
    intro y hy
    rw [List.map_singleton, List.mem_singleton] at hy
    rw [hy]
    exact hlt
  have hevent : latest t (events H constants (a ++ f :: c) ++
      slotEvents H (endsFrom (slotEnd constants (a ++ f :: c)) subSlotIters [])) =
        latest t (events H constants a ++ slotEvents H (endsFrom (slotEnd constants a) f.2.subSlotIters init)) := by
    have hevents : events H constants (a ++ f :: c) = (events H constants a ++
        slotEvents H (endsFrom (slotEnd constants a) f.2.subSlotIters init)) ++
          (start, H.rewardChainSubSlot slot.rewardChain, defaultElement) :: (f :: c).map blockEvent := by
      have hlast : endsFrom (slotEnd constants a) f.2.subSlotIters f.1.finishedSubSlots =
          endsFrom (slotEnd constants a) f.2.subSlotIters init ++ [(start, slot)] := by
        rw [hslots, endsFrom_append, hstart]
        rfl
      rw [events, eventsFrom_append, eventsFrom, eventsFrom_of_nil hc, ← slotEnd, hlast, events, slotEvents,
        slotEvents]
      simp
    rw [endsFrom, slotEvents, List.map_nil, List.append_nil, hevents, latest_append_of_lt]
    intro y hy
    rcases List.mem_cons.mp hy with rfl | hy
    · exact hlt
    · obtain ⟨x, hx, rfl⟩ := List.mem_map.mp hy
      exact hlate x hx
  rw [signagePointStart, signagePointStart]
  simp only [hchallenge, hevent]

/-- The signage point is in the sub slot before that of the previous block, which starts with an overflow block.

**Proof sketch.** If the first block carries more than one bundle, the sub slot of the signage point is empty. If it carries one, it has as many iterations as the sub slot
before, in which the signage point lies. A genesis block with one bundle has been ruled out when the challenge was
computed, and one without bundles would put the signage point before the chain. -/
lemma AcceptedChain.start_in_prev_slot (h : AcceptedChain H V constants es)
    (hpath : chain.records.Chain p (es.map Prod.snd)) {hash challenge : Bytes32}
    (hget : chain.records.get hash = some p) (hchallenge : challengeOnTop chain.records hash 2 = .ok challenge)
    {interval : ℕ} (hiters : subSlotIters = p.subSlotIters)
    (hover : ∀ a f c, es = a ++ f :: c → f.2.firstInSubSlot = true → (∀ x ∈ c, (x.2.firstInSubSlot = false ∧ x.2.height ≠ 0) ∧ x.1.finishedSubSlots = []) → f.2.overflow = true)
    (hinterval : calculateSpIntervalIters constants subSlotIters = .ok interval)
    (ht : t + 2 * subSlotIters = slotEnd constants es + interval * index) (hindex : interval * index < subSlotIters)
    (hfits : interval * index < 2 ^ 64) :
    ∃ info, spVdfInPrevSubSlot chain.records p t (interval * index) = .ok info ∧
      signagePointStart H constants es subSlotIters [] t = some info ∧ ∀ e ∈ es, e.2.totalIters ≠ t := by
  obtain ⟨a, f, c, rfl, hf, hc⟩ := h.exists_slotPart
  have hnil : ∀ x ∈ c, x.1.finishedSubSlots = [] := fun x hx => (hc x hx).2
  obtain ⟨e, he, rfl⟩ : ∃ e, (f :: c).getLast? = some e ∧ e.2 = p := by
    have hlast := ParentTree.Path.getLast?_eq hpath
    rw [List.getLast?_map, Option.map_eq_some_iff, List.getLast?_append_cons] at hlast
    exact hlast
  obtain rfl : subSlotIters = f.2.subSlotIters :=
    hiters.trans (h.slotPart hnil e (List.mem_of_getLast? he)).1
  have hfover : f.2.overflow = true := hover a f c rfl hf hc
  obtain ⟨hend, -⟩ := @slotEnd_append_of_nil constants (a ++ [f]) c hnil
  rw [List.append_assoc, List.singleton_append, slotEnd_concat] at hend
  -- the blocks of the sub slot are infused after the signage point
  have hlate : ∀ y ∈ f :: c, t < y.2.totalIters := fun y hy => by
    have hle := h.start_le hnil hy
    omega
  rcases List.eq_nil_or_concat f.1.finishedSubSlots with hzero | ⟨init, slot, hslots⟩
  · exfalso
    obtain rfl := h.eq_nil_of_first hf hzero
    have hstarting := (h.head_follows.genesis rfl).2
    have hsame : slotEnd constants [] = constants.SUB_SLOT_ITERS_STARTING := rfl
    rw [hzero, List.length_nil, Nat.zero_mul] at hend
    omega
  rw [List.concat_eq_append] at hslots
  rcases List.eq_nil_or_concat init with rfl | ⟨init, slot', rfl⟩
  · rw [hslots] at hend
    simp only [List.nil_append, List.length_singleton, Nat.one_mul] at hend
    rcases eq_or_ne a [] with rfl | ha
    · exact absurd hchallenge (challengeOnTop_genesis hget h hpath (fun y hy => (hc y hy).1) hslots)
    · have hbefore : AcceptedChain H V constants a := h.of_append ha
      obtain ⟨a', g, b, rfl, hg, hb⟩ := hbefore.exists_slotPart
      have hnilB : ∀ x ∈ b, x.1.finishedSubSlots = [] := fun x hx => (hb x hx).2
      have hsame : f.2.subSlotIters = g.2.subSlotIters := by
        obtain ⟨q, hq⟩ : ∃ q, (g :: b).getLast? = some q :=
          ⟨_, List.getLast?_eq_some_getLast (List.cons_ne_nil g b)⟩
        have hlast : (a' ++ g :: b).getLast? = some q := by
          rw [List.getLast?_append, hq]
          rfl
        rw [(h.first_follows.parent q hlast).2.2 hfover (by rw [hslots]; rfl)]
        exact (hbefore.slotPart hnilB q (List.mem_of_getLast? hq)).1
      rw [hsame] at ht hend hinterval hindex ⊢
      have htG : t + g.2.subSlotIters = slotEnd constants (a' ++ g :: b) + interval * index := by omega
      have hne : ∀ e ∈ a' ++ g :: b, e.2.totalIters ≠ t := fun e he =>
        hbefore.total_ne hg hnilB hinterval htG he
      refine ⟨_, h.spVdfInPrevSubSlot_of_one hpath hf (fun x hx => (hc x hx).1) hg hb hslots hlate htG
        (fun e he => hne e (List.mem_append_right _ he)) hfits, ?_, fun e he => ?_⟩
      · rw [signagePointStart_append hnil (show _ = [] ++ [slot] from hslots) (by omega) hlate]
        exact hbefore.signagePointStart_eq hg hnilB htG fun x hx => by cases hx
      · rcases List.mem_append.mp he with he | he
        · exact hne e he
        · exact (hlate e he).ne'
  · rw [List.concat_eq_append, List.append_assoc] at hslots
    refine ⟨_, h.spVdfInPrevSubSlot_of_two hpath hf (fun x hx => (hc x hx).1) hslots hlate, ?_, fun e he => ?_⟩
    · have hsplit : f.1.finishedSubSlots = (init ++ [slot']) ++ [slot] := by
        rw [hslots]
        simp
      have hlen : f.1.finishedSubSlots.length = init.length + 2 := by
        rw [hslots]
        simp
      rw [hlen, Nat.add_mul] at hend
      rw [signagePointStart_append hnil hsplit (by omega) hlate,
        signagePointStart_of_slot (show t = slotEnd constants a + init.length * f.2.subSlotIters +
          interval * index by omega) fun hne => absurd rfl hne]
      rfl
    · rcases List.mem_append.mp he with he | he
      · have hlt := (h.of_append (List.ne_nil_of_mem he)).total_lt he
        have hmul : 2 * f.2.subSlotIters ≤ f.1.finishedSubSlots.length * f.2.subSlotIters :=
          Nat.mul_le_mul_right _ (by rw [hslots]; simp)
        omega
      · exact (hlate e he).ne'

lemma AcceptedChain.overflow_of_mem (h : AcceptedChain H V constants (a ++ f :: c))
    (hc : ∀ x ∈ c, x.1.finishedSubSlots = []) {x : Entry} (hx : x ∈ f :: c) (hover : x.2.overflow = true) :
    f.2.overflow = true := by
  rcases List.mem_cons.mp hx with rfl | hx
  · exact hover
  · obtain ⟨u, v, rfl⟩ := List.append_of_mem hx
    have hpart : AcceptedChain H V constants (a ++ f :: (u ++ [x])) := by
      rw [show a ++ f :: (u ++ x :: v) = (a ++ f :: (u ++ [x])) ++ v by simp] at h
      exact h.of_append (by simp)
    refine hpart.overflow_of_last (fun y hy => hc y ?_) (show _ = some x by
      rw [← List.cons_append, List.getLast?_concat]) hover f List.mem_cons_self
    rcases List.mem_append.mp hy with hy | hy
    · simp [hy]
    · simp [List.mem_singleton.mp hy]

section Reaches

variable {expectedDifficulty expectedSubSlotIters : ℕ}
  {skip skipVdf check skipLast overflow : Bool} {slots : List EndOfSubSlotBundle}
  {n requiredIters spIters ipIters spTotalIters : ℕ}
  (h : ReachesSpVdf H V constants chain.records hb expectedDifficulty expectedSubSlotIters skip skipVdf check
    skipLast overflow slots n requiredIters spIters ipIters spTotalIters)
include h

lemma ReachesSpVdf.slots_cases : slots = hb.finishedSubSlots ∨
    overflow = true ∧ slots = hb.finishedSubSlots ++ [dummySubSlot] := by
  have hslots := h.slots_eq
  split at hslots
  · rename_i hdummy
    exact .inr ⟨(Bool.and_eq_true _ _ ▸ hdummy).1, hslots⟩
  · exact .inl hslots

lemma ReachesSpVdf.challenge (hprev : chain.records.get hb.prevHeaderHash = some p) (hover : overflow = true)
    (hslots : slots = []) :
    ∃ challenge, challengeOnTop chain.records hb.prevHeaderHash 2 = .ok challenge := by
  have hcases := h.slots_eq
  rw [hslots, hover, Bool.true_and] at hcases
  obtain ⟨height, canFinishSe, canFinishEpoch, challenge, -, -, hchallenge, -, -⟩ := h.checks
  cases hskip : skipLast with
  | true =>
    rw [hskip, if_pos rfl] at hcases
    simp at hcases
  | false =>
    rw [hskip, if_neg Bool.false_ne_true] at hcases
    unfold challengeOfBlock at hchallenge
    obtain ⟨_, -, hchallenge⟩ := bind_eq_ok.mp hchallenge
    have hok := raising_eq_ok.mp hchallenge
    rw [getBlockChallenge, ← hcases, hprev, hover, hskip] at hok
    exact ⟨challenge, hok⟩

/-- The sub slot of an overflow block that ends no sub slot starts with an overflow block.

**Proof sketch.** If the block is not infused before its parent, the parent is an overflow block. If the last
bundle may be missing, `final_eos_is_already_included` has found an overflow block in the sub slot. -/
lemma ReachesSpVdf.first_overflow (hchain : AcceptedChain H V constants es)
    (hpath : chain.records.Chain p (es.map Prod.snd))
    (hprev : chain.records.get hb.prevHeaderHash = some p) (hover : overflow = true) (hslots : slots = [])
    (hindex : constants.NUM_SPS_SUB_SLOT ≤
      hb.rewardChainBlock.signagePointIndex + constants.NUM_SP_INTERVALS_EXTRA) {interval : ℕ}
    (hinterval : calculateSpIntervalIters constants p.subSlotIters = .ok interval)
    (hinfusion : IpIters constants interval hb.rewardChainBlock.signagePointIndex requiredIters ipIters)
    (htotal : hb.totalIters + p.subSlotIters = slotEnd constants es + ipIters)
    (horder : skip = false → p.totalIters ≤ hb.totalIters) :
    ∀ a f c, es = a ++ f :: c → f.2.firstInSubSlot = true →
      (∀ x ∈ c, (x.2.firstInSubSlot = false ∧ x.2.height ≠ 0) ∧ x.1.finishedSubSlots = []) →
      f.2.overflow = true := by
  rintro a f c rfl hf hslot
  have hc : ∀ x ∈ c, x.1.finishedSubSlots = [] := fun x hx => (hslot x hx).2
  obtain ⟨e, he, rfl⟩ : ∃ e, (f :: c).getLast? = some e ∧ e.2 = p := by
    have hlast := ParentTree.Path.getLast?_eq hpath
    rw [List.getLast?_map, Option.map_eq_some_iff, List.getLast?_append_cons] at hlast
    exact hlast
  have hmem := List.mem_of_getLast? he
  cases hskip : skip with
  | false =>
    obtain ⟨hiters, interval', ip', htimed⟩ := hchain.slotPart hc e hmem
    obtain ⟨hend, -⟩ := @slotEnd_append_of_nil constants (a ++ [f]) c hc
    rw [List.append_assoc, List.singleton_append] at hend
    rw [hend] at htotal
    obtain rfl : interval' = interval := by
      have hi := htimed.interval_eq
      rw [hinterval] at hi
      exact (Except.ok.inj hi).symm
    exact hchain.overflow_of_mem hc hmem (htimed.overflow_of_le hinfusion hindex htotal (horder hskip))
  | true =>
    have hn := h.finished_eq.1
    rw [hslots, List.length_nil] at hn
    have hfinished := h.finished
    unfold finishedSubSlotsSincePrev at hfinished
    rw [hskip, hover, Bool.and_self, if_pos rfl] at hfinished
    obtain ⟨included, hincluded, hfinished⟩ := bind_eq_ok.mp hfinished
    obtain rfl : included = true := by
      cases included with
      | true => rfl
      | false =>
        have hlen := (Prod.mk.inj (Except.ok.inj hfinished)).2
        omega
    have hcarried : hb.finishedSubSlots = [] := by
      rcases h.slots_cases with hsame | ⟨-, hdummy⟩
      · rw [← hsame, hslots]
      · rw [hslots] at hdummy
        simp at hdummy
    rw [finalEosIsAlreadyIncluded, if_neg (by simp [hcarried]), blockRecord_eq_ok hprev, ok_bind] at hincluded
    have hvisit : chain.records.visit (fun r => r.firstInSubSlot || decide (r.height = 0)) e.2 =
        .ok ((c.map Prod.snd).reverse, f.2) := by
      refine visit_eq_ok hpath (show _ = a.map Prod.snd ++ f.2 :: c.map Prod.snd by simp) (by simp [hf])
        fun r hr => ?_
      obtain ⟨x, hx, rfl⟩ := List.mem_map.mp hr
      simp [(hslot x hx).1]
    rw [hvisit, ok_bind] at hincluded
    dsimp only at hincluded
    rw [hf, Bool.true_and] at hincluded
    obtain ⟨r, hr, hclose⟩ := List.any_eq_true.mp (Except.ok.inj hincluded)
    rw [isCloseOverflow, Bool.and_eq_true] at hclose
    rcases List.mem_cons.mp hr with rfl | hr
    · exact hchain.overflow_of_mem hc hmem hclose.1
    · obtain ⟨x, hx, rfl⟩ := List.mem_map.mp (List.mem_reverse.mp hr)
      exact hchain.overflow_of_mem hc (List.mem_cons_of_mem f hx) hclose.1

/-- **The VDFs of a signage point start at the latest event before it.** For every block that header validation
calls `get_signage_point_vdf_info` for, on a chain of accepted blocks or at its start, the function returns the
challenge of the sub slot of the signage point, and the state of the two chains at the latest event up to the
signage point, with the iterations since then; and no block of the chain is infused at the signage point. An
overflow block that carries no bundle must not be infused before its parent.

**Proof sketch.** The place of the block after its parent gives that of the signage point, relative to the end of
the chain. It is after the chain if the block carries a bundle for its sub slot, in the last sub slot of the
chain for an overflow block after one bundle or another block without bundles, and in the one before for an
overflow block without bundles. -/
theorem signagePointStart_exact (hchain : LastOf H V constants chain.records
      (chain.records.get hb.prevHeaderHash) es)
    (hnext : getNextSubSlotItersAndDifficulty constants (decide (hb.finishedSubSlots ≠ []))
      (chain.records.get hb.prevHeaderHash) chain = .ok (expectedSubSlotIters, expectedDifficulty))
    (horder : skip = false → overflow = true → hb.finishedSubSlots = [] →
      ∀ p, chain.records.get hb.prevHeaderHash = some p → p.totalIters ≤ hb.totalIters) :
    ∃ info, getSignagePointVdfInfo H constants slots overflow (chain.records.get hb.prevHeaderHash)
        chain.records spTotalIters spIters = .ok info ∧
      signagePointStart H constants es expectedSubSlotIters hb.finishedSubSlots spTotalIters = some info ∧
      ∀ e ∈ es, e.2.totalIters ≠ spTotalIters := by
  obtain ⟨hnone, hsome, hstarting⟩ := hchain.timed
  obtain ⟨interval, hplaced⟩ := h.placed hnext hstarting
  obtain ⟨htotal, hsp⟩ := hplaced.signagePoint_eq hnone hsome
  have hflag := hplaced.overflow_eq
  -- the signage point in its sub slot
  obtain ⟨hindex, interval', hinterval', hiters, hfits⟩ := calculateSpIters_eq_ok.mp h.sp
  obtain rfl : interval' = interval := by
    rw [hplaced.interval_eq] at hinterval'
    exact (Except.ok.inj hinterval').symm
  have hlt : spIters < expectedSubSlotIters := by
    obtain ⟨-, hslot, -⟩ := calculateSpIntervalIters_eq_ok.mp hplaced.interval_eq
    rw [hiters, hslot]
    exact Nat.mul_lt_mul_of_pos_left hindex (lt_of_le_of_lt (Nat.zero_le _) hplaced.infusion.below)
  rw [← hiters] at hsp
  have hn := h.finished_eq.1
  rw [hn] at hsp htotal
  -- no block is infused after the chain
  have hafter : slotEnd constants es ≤ spTotalIters → ∀ e ∈ es, e.2.totalIters ≠ spTotalIters := by
    intro hle e he heq
    cases hprev : chain.records.get hb.prevHeaderHash with
    | none =>
      rw [hnone hprev] at he
      cases he
    | some p =>
      rw [hprev] at hchain
      have hbefore := hchain.1.total_lt he
      omega
  cases hover : overflow with
  | false =>
    have hslots : slots = hb.finishedSubSlots := by
      rcases h.slots_cases with hsame | ⟨htrue, -⟩
      · exact hsame
      · rw [hover] at htrue
        cases htrue
    rw [hover, hslots] at hsp
    simp only [Bool.false_eq_true, if_false, Nat.one_mul] at hsp
    rcases List.eq_nil_or_concat hb.finishedSubSlots with hnil | ⟨init, slot, hconcat⟩
    · rw [hnil, List.length_nil, Nat.zero_mul, Nat.add_zero] at hsp
      rw [hslots, hnil]
      cases hprev : chain.records.get hb.prevHeaderHash with
      | none =>
        obtain rfl := hnone hprev
        have hstart := (hplaced.genesis hprev).1
        have hend : slotEnd constants [] = constants.SUB_SLOT_ITERS_STARTING := rfl
        obtain rfl : spTotalIters = spIters := by omega
        exact ⟨_, rfl, signagePointStart_of_genesis (by omega), fun e he => by cases he⟩
      | some p =>
        rw [hprev] at hchain
        obtain ⟨hblocks, hpath⟩ := hchain
        have hsame := hplaced.same p hprev (.inl (by rw [hn, hslots, hnil]; rfl))
        subst hiters
        exact hblocks.start_in_slot hpath hsame hplaced.interval_eq hsp hfits fun x hx => by cases hx
    · rw [List.concat_eq_append] at hconcat
      rw [hconcat, List.length_append, List.length_singleton, Nat.add_mul, Nat.one_mul] at hsp
      refine ⟨spVdfFromSlot H slot spIters, ?_, ?_, hafter (by omega)⟩
      · unfold getSignagePointVdfInfo
        rw [hslots, hconcat, List.reverse_append]
        rfl
      · rw [hconcat]
        exact signagePointStart_of_slot (by omega) fun hne => absurd rfl hne
  | true =>
    rw [hover] at hsp hflag
    simp only [if_true] at hsp
    rcases List.eq_nil_or_concat slots with hnil | ⟨init, last, hconcat⟩
    · -- the signage point is in the sub slot before that of the parent
      have hcarried : hb.finishedSubSlots = [] := by
        rcases h.slots_cases with hsame | ⟨-, hdummy⟩
        · rw [← hsame, hnil]
        · rw [hnil] at hdummy
          simp at hdummy
      rw [hnil, List.length_nil, Nat.zero_mul, Nat.add_zero] at hsp htotal
      cases hprev : chain.records.get hb.prevHeaderHash with
      | none =>
        exfalso
        obtain rfl := hnone hprev
        have hstart := (hplaced.genesis hprev).1
        have hend : slotEnd constants [] = constants.SUB_SLOT_ITERS_STARTING := rfl
        omega
      | some p =>
        rw [hprev] at hchain
        obtain ⟨hblocks, hpath⟩ := hchain
        have hsame := hplaced.same p hprev (.inl (by rw [hn, hnil]; rfl))
        obtain ⟨challenge, hchallenge⟩ := h.challenge hprev hover hnil
        have hfirst := h.first_overflow hblocks hpath hprev hover hnil (of_decide_eq_true hflag.symm)
          (hsame ▸ hplaced.interval_eq) hplaced.infusion (hsame ▸ htotal)
          fun hskip => horder hskip hover hcarried p hprev
        subst hiters
        rw [hnil, hcarried]
        exact hblocks.start_in_prev_slot hpath hprev hchallenge hsame hfirst hplaced.interval_eq hsp hlt hfits
    · rw [List.concat_eq_append] at hconcat
      rcases List.eq_nil_or_concat init with rfl | ⟨init, slot, rfl⟩
      · -- the signage point is in the sub slot of the parent
        rw [hconcat, List.nil_append, List.length_singleton, Nat.one_mul] at hsp
        have hlater : ∀ x ∈ endsFrom (slotEnd constants es) expectedSubSlotIters hb.finishedSubSlots,
            spTotalIters < x.1 := fun x hx => by
          have hle := (le_of_mem_endsFrom hx).1
          omega
        rw [hconcat]
        cases hprev : chain.records.get hb.prevHeaderHash with
        | none =>
          obtain rfl := hnone hprev
          have hstart := (hplaced.genesis hprev).1
          have hend : slotEnd constants [] = constants.SUB_SLOT_ITERS_STARTING := rfl
          obtain rfl : spTotalIters = spIters := by omega
          exact ⟨_, rfl, signagePointStart_of_genesis (by omega), fun e he => by cases he⟩
        | some p =>
          rw [hprev] at hchain
          obtain ⟨hblocks, hpath⟩ := hchain
          have hsame := hplaced.same p hprev (.inr ⟨hover, by rw [hn, hconcat]; rfl⟩)
          subst hiters
          exact hblocks.start_in_slot hpath hsame hplaced.interval_eq (by omega) hfits hlater
      · -- the signage point is in an empty sub slot after the chain
        rw [List.concat_eq_append, List.append_assoc, List.singleton_append] at hconcat
        have hlen : slots.length = init.length + 2 := by
          rw [hconcat]
          simp
        rw [hlen, Nat.add_mul] at hsp
        have htotal : spTotalIters = slotEnd constants es + init.length * expectedSubSlotIters + spIters := by
          omega
        refine ⟨spVdfFromSlot H slot spIters, ?_, ?_, hafter (by omega)⟩
        · unfold getSignagePointVdfInfo
          rw [hconcat, List.reverse_append]
          rfl
        · rcases h.slots_cases with hsame | ⟨-, hdummy⟩
          · rw [← hsame, hconcat]
            exact signagePointStart_of_slot htotal fun _ => hlt
          · have hcarried : hb.finishedSubSlots = init ++ [slot] := by
              rw [hconcat, show init ++ [slot, last] = (init ++ [slot]) ++ [last] by simp] at hdummy
              exact (List.append_inj' hdummy rfl).1.symm
            rw [hcarried]
            exact signagePointStart_of_slot htotal fun hne => absurd rfl hne

end Reaches

end AfterChain

/-! ## A chain with an epoch of nine blocks -/

section ShortEpoch

/-- Constants with epochs of nine blocks, and sub slots of four signage points and at most two blocks. -/
def shortConstants : ConsensusConstants :=
  { defaultConstants with
    NUM_SPS_SUB_SLOT := 4
    NUM_SP_INTERVALS_EXTRA := 1
    MIN_BLOCKS_PER_CHALLENGE_BLOCK := 1
    MAX_SUB_SLOT_BLOCKS := 2
    SUB_EPOCH_BLOCKS := 9
    EPOCH_BLOCKS := 9
    SUB_SLOT_ITERS_STARTING := 64
    GENESIS_CHALLENGE := Bytes32.zero }

/-- A VDF of `n` iterations from the challenge zero. -/
def zeroVdf (n : ℕ) : VDFInfo := ⟨Bytes32.zero, n, defaultElement⟩

/-- A bundle `left` iterations after the last block, and the new parameters if the epoch ends. -/
def shortSlot (left : ℕ) (epochEnds : Bool) : EndOfSubSlotBundle :=
  ⟨⟨zeroVdf 64, some Bytes32.zero, if epochEnds then some Bytes32.zero else none,
      if epochEnds then some 192 else none, if epochEnds then some 21 else none⟩,
    some ⟨zeroVdf left⟩, ⟨zeroVdf left, Bytes32.zero, some Bytes32.zero, 1⟩,
    ⟨sampleProof, some sampleProof, sampleProof⟩⟩

/-- The block of a height up to 9: the first block of a sub slot at the signage point 0, or the second one at
the signage point 1. The block 9 is the first of the second epoch, after a sub slot with one block. -/
def shortBlock (height : ℕ) : FullBlock :=
  let second := decide (height % 2 = 1 ∧ height ≠ 9)
  let interval := if height = 9 then 48 else 16
  let ip := if second then 2 * interval + 1 else interval + 1
  let spVdf := if second then some (zeroVdf interval) else none
  let spProof := if second then some sampleProof else none
  let prev := if height = 0 then Bytes32.zero else Bytes32.ofNat height
  let lastTransactionBlock := if height = 9 then Bytes32.ofNat 9 else Bytes32.ofNat (height - 1)
  let empty := emptyBlock height prev (Bytes32.ofNat (height + 1)) (if second then 1 else 0)
  let data := empty.foliage.foliageBlockData
  { empty with
    finishedSubSlots := if height = 0 ∨ second = true then []
      else [shortSlot (if height = 9 then 47 else 31) (decide (height = 9))]
    rewardChainBlock := { empty.rewardChainBlock with
      weight := if height = 9 then 84 else 7 * (height + 1)
      totalIters := 64 * (if height = 9 then 5 else height / 2) + ip
      challengeChainSpVdf := spVdf
      rewardChainSpVdf := spVdf
      challengeChainIpVdf := zeroVdf ip
      rewardChainIpVdf := zeroVdf (if second then interval else ip)
      isTransactionBlock := !second }
    challengeChainSpProof := spProof
    rewardChainSpProof := spProof
    foliage := { empty.foliage with
      foliageBlockData := if height = 0 then
          { data with
            poolTarget := ⟨shortConstants.GENESIS_PRE_FARM_POOL_PUZZLE_HASH, 0⟩
            farmerRewardPuzzleHash := shortConstants.GENESIS_PRE_FARM_FARMER_PUZZLE_HASH }
        else { data with communityRewardPuzzleHash := communityPuzzleHash shortConstants height }
      foliageTransactionBlockHash := if second then none else some Bytes32.zero
      foliageTransactionBlockSignature := if second then none else some [] }
    foliageTransactionBlock := if second then none
      else some ⟨if height = 0 then Bytes32.zero else lastTransactionBlock, height, Bytes32.zero,
        Bytes32.zero, Bytes32.zero, Bytes32.zero⟩ }

/-- The record of the block of a height. -/
def shortRecord (height : ℕ) : BlockRecord :=
  headerBlockToSubBlockRecord acceptingTools.H shortConstants 1 (shortBlock height)
    (if height = 9 then 192 else 64) false 0
    (if height = 9 then 8 else if height % 2 = 1 then height - 1 else height - 2)
    (if height = 9 then some ⟨Bytes32.zero, Bytes32.zero, 0, none, none⟩ else none)

/-- The first `n` blocks. -/
def shortChain (n : ℕ) : List Entry := (List.range n).map fun i => (shortBlock i, shortRecord i)

/-- A cache with the records of the first `n` blocks. -/
def shortCache (n : ℕ) : BlockchainInterface := blockCache (ofRecords ((List.range n).map shortRecord))

lemma blockAccepted_short {i : ℕ} (hi : i < 10) : BlockAccepted acceptingTools.H acceptingTools.V
    shortConstants (shortCache i) (shortBlock i) (shortRecord i) := by
  have haccepted : ∀ i < 10,
      getNextSubSlotItersAndDifficulty shortConstants (decide ((shortBlock i).finishedSubSlots ≠ []))
        ((shortCache i).records.get (shortBlock i).prevHeaderHash) (shortCache i) =
          .ok (if i = 9 then (192, 21) else (64, 7)) ∧
      validateFinishedHeaderBlock acceptingTools.H acceptingTools.V shortConstants (shortCache i).records
        (getBlockHeader (fun _ => []) (shortBlock i) [] []) true (if i = 9 then (192, 21) else (64, 7)).2
        (if i = 9 then (192, 21) else (64, 7)).1 true 0 = .ok 1 ∧
      blockToBlockRecord acceptingTools.H shortConstants (shortCache i) 1 (shortBlock i) =
        .ok (shortRecord i) := by decide +kernel
  obtain ⟨hnext, hvalid, hrecord⟩ := haccepted i hi
  exact ⟨fun _ => [], [], [], true, _, _, 0, 1, hnext, hvalid, hrecord⟩

lemma records_short : (∀ n < 10, (((List.range (n + 1)).map shortRecord).map BlockRecord.headerHash).Nodup) ∧
    (∀ n < 10, (shortCache (n + 1)).records.get Bytes32.zero = none) ∧
    ∀ n < 10, (shortCache (n + 1)).records.get (shortBlock (n + 1)).prevHeaderHash = some (shortRecord n) := by
  decide +kernel

lemma ancestorsPresent_short {n : ℕ} (hn : n < 10) :
    AncestorsPresent (shortCache (n + 1)).records (shortRecord n) ((shortChain (n + 1)).map Prod.snd) := by
  have hrecords : (shortChain (n + 1)).map Prod.snd = (List.range (n + 1)).map shortRecord := by
    rw [shortChain, List.map_map]
    rfl
  rw [hrecords]
  refine ⟨chain_ofRecords (fun i => rfl) (fun i => ?_) (records_short.1 n hn) (Nat.le_succ n), fun g hg => ?_⟩
  · show Bytes32.ofNat (i + 1) = (shortRecord i).headerHash
    cases i <;> rfl
  · rw [List.range_succ_eq_map, List.map_cons, List.head?_cons] at hg
    rw [← Option.some.inj hg]
    exact records_short.2.1 n hn

lemma acceptedChain_short {n : ℕ} (hn : n < 10) : AcceptedChain acceptingTools.H acceptingTools.V
    shortConstants (shortChain (n + 1)) := by
  induction n with
  | zero => exact .genesis rfl (blockAccepted_short hn)
  | succ n ih =>
    rw [shortChain, List.range_succ, List.map_append]
    exact .extend (ih (by omega)) (ancestorsPresent_short (by omega)) (records_short.2.2 n (by omega))
      (Nat.succ_ne_zero n) (blockAccepted_short hn)

/-- Header validation of the second block of the fourth sub slot reaches `get_signage_point_vdf_info`. -/
lemma reachesSpVdf_short : ReachesSpVdf acceptingTools.H acceptingTools.V shortConstants (shortCache 7).records
    (getBlockHeader (fun _ => []) (shortBlock 7) [] []).unfinished 7 64 false false true false false [] 0 1 16 33
    208 where
  prevB := by decide +kernel
  overflow_eq := by decide +kernel
  finished := by decide +kernel
  checks := ⟨7, false, false, Bytes32.zero, by decide +kernel, by decide +kernel, by decide +kernel,
    by decide +kernel, by decide +kernel⟩
  sp := by decide +kernel
  ip := by decide +kernel
  slots_eq := by decide +kernel

/-- The VDFs of the signage point of the second block of the fourth sub slot start where the sub slot does: the
first block is infused after the signage point. -/
theorem signagePointStart_exact_short : ∃ info,
    getSignagePointVdfInfo acceptingTools.H shortConstants [] false
      ((shortCache 7).records.get (getBlockHeader (fun _ => []) (shortBlock 7) [] []).unfinished.prevHeaderHash)
      (shortCache 7).records 208 16 = .ok info ∧
    signagePointStart acceptingTools.H shortConstants (shortChain 7) 64
      (getBlockHeader (fun _ => []) (shortBlock 7) [] []).unfinished.finishedSubSlots 208 = some info ∧
    ∀ e ∈ shortChain 7, e.2.totalIters ≠ 208 :=
  signagePointStart_exact reachesSpVdf_short
    (by
      have hprev : (shortCache 7).records.get
          (getBlockHeader (fun _ => []) (shortBlock 7) [] []).unfinished.prevHeaderHash =
            some (shortRecord 6) := records_short.2.2 6 (by decide)
      rw [hprev]
      exact ⟨acceptedChain_short (by decide), (ancestorsPresent_short (by decide)).chain⟩)
    (by decide) (fun _ hover => absurd hover (by decide))

/-- An overflow block without bundles in the first sub slot of the second epoch, after a block that is no overflow
block. -/
def earlyOverflow : UnfinishedHeaderBlock :=
  let header := (getBlockHeader (fun _ => []) (shortBlock 9) [] []).unfinished
  { header with
    finishedSubSlots := []
    rewardChainBlock := { header.rewardChainBlock with
      signagePointIndex := 3
      totalIters := 321
      challengeChainSpVdf := some (zeroVdf 144)
      rewardChainSpVdf := some (zeroVdf 144) }
    foliage := { header.foliage with prevBlockHash := Bytes32.ofNat 10 } }

/-- Header validation of the overflow block reaches `get_signage_point_vdf_info`. -/
lemma reachesSpVdf_earlyOverflow : ReachesSpVdf acceptingTools.H acceptingTools.V shortConstants
    (shortCache 10).records earlyOverflow 21 192 false false true false true [] 0 1 144 1 272 where
  prevB := by decide +kernel
  overflow_eq := by decide +kernel
  finished := by decide +kernel
  checks := ⟨10, false, false, Bytes32.zero, by decide +kernel, by decide +kernel, by decide +kernel,
    by decide +kernel, by decide +kernel⟩
  sp := by decide +kernel
  ip := by decide +kernel
  slots_eq := by decide +kernel

/-- The VDFs of the signage point of the overflow block do not start at the latest event: with the number of
iterations of the new epoch the signage point lies 16 iterations after the start of the last sub slot of the old
one, and the function returns 144. -/
theorem signagePointStart_earlyOverflow :
    LastOf acceptingTools.H acceptingTools.V shortConstants (shortCache 10).records
        ((shortCache 10).records.get earlyOverflow.prevHeaderHash) (shortChain 10) ∧
      getNextSubSlotItersAndDifficulty shortConstants (decide (earlyOverflow.finishedSubSlots ≠ []))
        ((shortCache 10).records.get earlyOverflow.prevHeaderHash) (shortCache 10) = .ok (192, 21) ∧
      ReachesSpVdf acceptingTools.H acceptingTools.V shortConstants (shortCache 10).records earlyOverflow 21 192
        false false true false true [] 0 1 144 1 272 ∧
      getSignagePointVdfInfo acceptingTools.H shortConstants [] true
        ((shortCache 10).records.get earlyOverflow.prevHeaderHash) (shortCache 10).records 272 144 =
          .ok ⟨Bytes32.zero, Bytes32.zero, defaultElement, 144⟩ ∧
      signagePointStart acceptingTools.H shortConstants (shortChain 10) 192 earlyOverflow.finishedSubSlots 272 =
        some ⟨Bytes32.zero, Bytes32.zero, defaultElement, 16⟩ := by
  have hprev : (shortCache 10).records.get earlyOverflow.prevHeaderHash = some (shortRecord 9) :=
    records_short.2.2 9 (by decide)
  refine ⟨?_, by decide +kernel, reachesSpVdf_earlyOverflow, by decide +kernel, by decide +kernel⟩
  rw [hprev]
  exact ⟨acceptedChain_short (by decide), (ancestorsPresent_short (by decide)).chain⟩

end ShortEpoch

end Chives
