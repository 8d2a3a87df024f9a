import Chives.Timelord.BlockDifficulty

set_option autoImplicit false

/-!
# The cache of reward challenges

A timelord counts the blocks of its sub slot as the entries of its cache that are after the start of the sub slot. The
cache comes with the peak: `get_recent_reward_challenges` walks back from it, over blocks and ends of sub slots, until
it has enough. Blocks of earlier sub slots and ends of sub slots are not after the start of the current one, and there
are never so many blocks in a sub slot that one of them is cut off.

## Main results

* `recentRewardChallengesFrom_slot` — what the walk finds in the sub slot of the peak.
* `countP_rewardChallengeCache` — the cache has as many entries after the start of the sub slot as it has blocks.
* `AcceptedChain.slot_start` — where the blocks of a chain lie compared with the start of the last sub slot.
-/

namespace Chives

open ExceptRun BlockRecords

/-! ## The walk back from the peak -/

section Walk

variable {constants : ConsensusConstants} {blocks : BlockchainInterface} {peak p r f : BlockRecord}
  {a c l : List BlockRecord} {start fuel : ℕ} {recent found : List (Bytes32 × ℕ)}

lemma rewardSlotChallenges_le {subSlotIters total : ℕ} {hashes : List Bytes32}
    (h : rewardSlotChallenges subSlotIters total hashes = .ok found) : ∀ x ∈ found, x.2 ≤ total := by
  induction hashes generalizing total found with
  | nil =>
    rw [← Except.ok.inj h]
    simp
  | cons rc rcs ih =>
    unfold rewardSlotChallenges at h
    split at h
    · rw [← Except.ok.inj h]
      simp
    · obtain ⟨before, hbefore, h⟩ := bind_eq_ok.mp h
      obtain ⟨rest, hrest, h⟩ := bind_eq_ok.mp h
      have hle := (uintN_eq_ok.mp hbefore).1
      rw [← Except.ok.inj h]
      intro x hx
      rcases List.mem_cons.mp hx with rfl | hx
      · exact le_rfl
      · exact (ih hrest x hx).trans (by omega)

lemma finishedSlotChallenges_le (h : finishedSlotChallenges constants r = .ok found) :
    ∀ x ∈ found, ∃ total, r.ipSubSlotTotalIters constants = .ok total ∧ x.2 ≤ total ∧ total ≤ r.totalIters := by
  unfold finishedSlotChallenges at h
  split at h
  · obtain ⟨hashes, -, h⟩ := bind_eq_ok.mp h
    obtain ⟨total, htotal, h⟩ := bind_eq_ok.mp h
    have hle : total ≤ r.totalIters := by
      obtain ⟨ip, -, hsub⟩ := bind_eq_ok.mp htotal
      have := (uintN_eq_ok.mp hsub).1
      omega
    exact fun x hx => ⟨total, htotal, rewardSlotChallenges_le h x hx, hle⟩
  · rw [← Except.ok.inj h]
    simp

variable {out : List (Bytes32 × ℕ)}

lemma recentRewardChallengesFrom_step
    (h : recentRewardChallengesFrom constants blocks peak fuel (some r) recent = .ok out) :
    (2 * constants.MAX_SUB_SLOT_BLOCKS ≤ recent.length ∧ out = recent) ∨
      recent.length < 2 * constants.MAX_SUB_SLOT_BLOCKS ∧ ∃ n found,
        finishedSlotChallenges constants r = .ok found ∧
        recentRewardChallengesFrom constants blocks peak n (blocks.records.get r.prevHash)
          (recent ++ infusedChallenge peak r ++ found) = .ok out := by
  cases fuel with
  | zero => cases h
  | succ n =>
    unfold recentRewardChallengesFrom at h
    split at h
    · rename_i hlt
      obtain ⟨found, hfound, h⟩ := bind_eq_ok.mp h
      exact .inr ⟨hlt, n, found, hfound, h⟩
    · rename_i hge
      exact .inl ⟨Nat.not_lt.mp hge, (Except.ok.inj h).symm⟩

lemma AncestorsPresent.get_eq_none (h : AncestorsPresent blocks.records r l) (hr : r.height = 0) :
    blocks.records.get r.prevHash = none := by
  refine h.genesis r ?_
  rw [h.eq_singleton hr]
  rfl

/-- From the parent of a block on, the walk finds nothing after the start, if no ancestor is infused after it.

**Proof sketch.** Induction on the height. -/
lemma recentRewardChallengesFrom_before (hpresent : AncestorsPresent blocks.records r l)
    (hl : ∀ x ∈ l, x.height < r.height → x.totalIters ≤ start)
    (h : recentRewardChallengesFrom constants blocks peak fuel (blocks.records.get r.prevHash) recent = .ok out) :
    ∃ tail, out = recent ++ tail ∧ ∀ x ∈ tail, x.2 ≤ start := by
  induction hh : r.height using Nat.strong_induction_on generalizing r l fuel recent with
  | _ height ih =>
    subst hh
    by_cases hzero : r.height = 0
    · rw [hpresent.get_eq_none hzero] at h
      refine ⟨[], ?_, by simp⟩
      rw [List.append_nil]
      cases fuel with
      | zero => exact (Except.ok.inj h).symm
      | succ n => exact (Except.ok.inj h).symm
    obtain ⟨p, hp, hget, hheight, -⟩ := hpresent.parent hzero
    rw [hget] at h
    rcases recentRewardChallengesFrom_step h with ⟨-, rfl⟩ | ⟨-, n, found, hfound, hrest⟩
    · exact ⟨[], by simp, by simp⟩
    have hptotal := hl p hp (by omega)
    obtain ⟨tail, rfl, htail⟩ := ih p.height (by omega) (hpresent.of_mem hp)
      (fun x hx hlt => hl x (List.mem_of_mem_take hx) (by omega)) hrest rfl
    refine ⟨infusedChallenge peak p ++ found ++ tail, by simp [List.append_assoc], fun x hx => ?_⟩
    simp only [List.mem_append] at hx
    rcases hx with (hx | hx) | hx
    · unfold infusedChallenge at hx
      split at hx
      · rw [List.mem_singleton.mp hx]
        exact hptotal
      · cases hx
    · obtain ⟨total, -, hle, hle'⟩ := finishedSlotChallenges_le hfound x hx
      omega
    · exact htail x hx

/-- **What the walk finds in the sub slot**: the blocks of it but for the peak, newest first, and then nothing after
its start.

**Proof sketch.** Induction on the blocks after the first one. A block that is not the first one has no finished sub
slots. -/
lemma recentRewardChallengesFrom_slot (hpresent : AncestorsPresent blocks.records r (a ++ f :: c))
    (hc : ∀ x ∈ c, x.firstInSubSlot = false) (hold : ∀ x ∈ a, x.totalIters ≤ start)
    (hf : ∀ total, f.ipSubSlotTotalIters constants = .ok total → total ≤ start)
    (hlen : recent.length + c.length < 2 * constants.MAX_SUB_SLOT_BLOCKS)
    (h : recentRewardChallengesFrom constants blocks peak fuel (some r) recent = .ok out) :
    ∃ tail, out = recent ++ (f :: c).reverse.flatMap (infusedChallenge peak) ++ tail ∧ ∀ x ∈ tail, x.2 ≤ start := by
  induction c using List.reverseRecOn generalizing r recent fuel with
  | nil =>
    obtain rfl : f = r := by simpa using ParentTree.Path.getLast?_eq hpresent.chain
    rcases recentRewardChallengesFrom_step h with ⟨hge, -⟩ | ⟨-, n, found, hfound, hrest⟩
    · simp at hlen
      omega
    have hbefore : ∀ x ∈ a ++ [f], x.height < f.height → x.totalIters ≤ start := fun x hx hlt => by
      rcases List.mem_append.mp hx with hx | hx
      · exact hold x hx
      · rw [List.mem_singleton.mp hx] at hlt
        omega
    obtain ⟨tail, rfl, htail⟩ := recentRewardChallengesFrom_before hpresent hbefore hrest
    refine ⟨found ++ tail, by simp [List.append_assoc], fun x hx => ?_⟩
    rcases List.mem_append.mp hx with hx | hx
    · obtain ⟨total, htotal, hle, -⟩ := finishedSlotChallenges_le hfound x hx
      exact hle.trans (hf total htotal)
    · exact htail x hx
  | append_singleton c y ih =>
    have hsplit : a ++ f :: (c ++ [y]) = (a ++ f :: c) ++ [y] := by simp
    rw [List.length_append, List.length_singleton] at hlen
    rw [hsplit] at hpresent
    obtain rfl : y = r := by
      have hlast := ParentTree.Path.getLast?_eq hpresent.chain
      rw [List.getLast?_concat] at hlast
      exact Option.some.inj hlast
    rcases recentRewardChallengesFrom_step h with ⟨hge, -⟩ | ⟨-, n, found, hfound, hrest⟩
    · omega
    have hnil : found = [] := by
      unfold finishedSlotChallenges at hfound
      rw [hc y (by simp), if_neg Bool.false_ne_true] at hfound
      exact (Except.ok.inj hfound).symm
    have hlength := hpresent.chain.length_eq
    simp only [List.length_append, List.length_cons, List.length_nil] at hlength
    obtain ⟨p, hp, hget, hheight, -⟩ := hpresent.parent (by omega)
    have hbefore : AncestorsPresent blocks.records p (a ++ f :: c) := by
      have htake := hpresent.of_mem hp
      have hle : p.height + 1 = (a ++ f :: c).length := by
        simp only [List.length_append, List.length_cons]
        omega
      rwa [hle, List.take_left] at htake
    rw [hget, hnil, List.append_nil] at hrest
    have hinfused : (infusedChallenge peak y).length ≤ 1 := by
      unfold infusedChallenge
      split <;> simp
    obtain ⟨tail, rfl, htail⟩ := ih hbefore (fun x hx => hc x (by simp [hx]))
      (by rw [List.length_append]; omega) hrest
    exact ⟨tail, by simp [List.append_assoc], htail⟩

lemma flatMap_infusedChallenge (hl : ∀ x ∈ l, x ≠ peak) :
    l.flatMap (infusedChallenge peak) = l.map fun x => (x.rewardInfusionNewChallenge, x.totalIters) := by
  induction l with
  | nil => rfl
  | cons x l ih =>
    rw [List.flatMap_cons, ih fun y hy => hl y (List.mem_cons_of_mem _ hy), infusedChallenge,
      if_pos (hl x List.mem_cons_self)]
    rfl

/-- **The count of a timelord**: its cache has as many entries after the start of the sub slot as there can be blocks
in it exactly if the sub slot of the peak has.

**Proof sketch.** The cache ends in the entries of the sub slot, so none of them is cut off. -/
lemma countP_rewardChallengeCache {recentRc : List (Bytes32 × ℕ)} (start : ℕ) (hash : Bytes32)
    (hpresent : AncestorsPresent blocks.records r (a ++ f :: c)) (hc : ∀ x ∈ c, x.firstInSubSlot = false)
    (hold : ∀ x ∈ a, x.totalIters ≤ start) (hf : ∀ total, f.ipSubSlotTotalIters constants = .ok total → total ≤ start)
    (hslot : ∀ x ∈ f :: c, start < x.totalIters) (hcount : c.length + 1 ≤ max 1 constants.MAX_SUB_SLOT_BLOCKS)
    (h : getRecentRewardChallenges constants blocks (some r) = .ok recentRc) :
    constants.MAX_SUB_SLOT_BLOCKS ≤ ((recentRc ++ [(hash, r.totalIters)]).drop
        (recentRc.length + 1 - 2 * constants.MAX_SUB_SLOT_BLOCKS)).countP (fun x => decide (start < x.2)) ↔
      constants.MAX_SUB_SLOT_BLOCKS ≤ c.length + 1 := by
  rcases Nat.eq_zero_or_pos constants.MAX_SUB_SLOT_BLOCKS with hzero | hpos
  · simp [hzero]
  obtain ⟨out, hout, h⟩ := bind_eq_ok.mp h
  obtain ⟨tail, rfl, htail⟩ := recentRewardChallengesFrom_slot hpresent hc hold hf (by simp; omega) hout
  -- the blocks of the sub slot before the peak
  obtain ⟨d, hd⟩ : ∃ d, f :: c = d ++ [r] := by
    have hlast := ParentTree.Path.getLast?_eq hpresent.chain
    rw [List.getLast?_append_cons] at hlast
    exact List.getLast?_eq_some_iff.mp hlast
  have hlength : d.length = c.length := by
    have := congrArg List.length hd
    simpa using this.symm
  have hne : ∀ x ∈ d, x ≠ r := by
    rintro x hx rfl
    have hchain := hpresent.chain
    rw [hd, ← List.append_assoc] at hchain
    have hheight := hchain.length_eq
    obtain ⟨i, hi, hxi⟩ := List.mem_iff_getElem.mp (List.mem_append_right a hx)
    have hat : (a ++ d ++ [x])[i]? = some x := by
      rw [List.getElem?_append_left hi, List.getElem?_eq_getElem hi, hxi]
    have := (hchain.getElem hat).1
    rw [List.length_append, List.length_singleton] at hheight
    omega
  have hentries : (f :: c).reverse.flatMap (infusedChallenge r) =
      d.reverse.map fun x => (x.rewardInfusionNewChallenge, x.totalIters) := by
    rw [hd, List.reverse_append, List.reverse_singleton, List.singleton_append, List.flatMap_cons, infusedChallenge,
      if_neg (not_not.mpr rfl), List.nil_append, flatMap_infusedChallenge fun x hx => hne x (List.mem_reverse.mp hx)]
  obtain rfl := Except.ok.inj h
  rw [hentries, List.nil_append, List.reverse_append, List.append_assoc, List.drop_append_of_le_length
    (by simp only [List.length_append, List.length_reverse, List.length_map]; omega), List.countP_append]
  have hnone : ∀ n, (tail.reverse.drop n).countP (fun x => decide (start < x.2)) = 0 := fun n =>
    List.countP_eq_zero.mpr fun x hx => by
      have := htail x (List.mem_reverse.mp (List.mem_of_mem_drop hx))
      simpa using this
  have hall : ((d.reverse.map fun x => (x.rewardInfusionNewChallenge, x.totalIters)).reverse ++
      [(hash, r.totalIters)]).countP (fun x => decide (start < x.2)) = c.length + 1 := by
    rw [List.countP_eq_length.mpr]
    · simp [hlength]
    · intro x hx
      rcases List.mem_append.mp hx with hx | hx
      · obtain ⟨y, hy, rfl⟩ := List.mem_map.mp (List.mem_reverse.mp hx)
        exact decide_eq_true (hslot y (by rw [hd]; exact List.mem_append_left _ (List.mem_reverse.mp hy)))
      · rw [List.mem_singleton.mp hx]
        exact decide_eq_true (hslot r (by rw [hd]; simp))
  rw [hnone, hall, Nat.zero_add]

end Walk

/-! ## The start of the sub slot -/

section Slot

variable {H : Hashes} {V : Verifiers} {constants : ConsensusConstants} {a c : List Entry} {f e : Entry}

/-- **Where the blocks of a chain lie**: those of the last sub slot are after its start, and those before are not. -/
lemma AcceptedChain.slot_start (h : AcceptedChain H V constants (a ++ f :: c)) (hf : f.2.firstInSubSlot = true)
    (hc : ∀ x ∈ c, x.1.finishedSubSlots = []) :
    ∃ start, (∀ x ∈ a, x.2.totalIters ≤ start) ∧
      ∀ x ∈ f :: c, start < x.2.totalIters ∧ ∃ ip, x.2.ipIters constants = .ok ip ∧ start + ip = x.2.totalIters := by
  have hfollows := h.first_follows
  obtain ⟨_, _, htimed⟩ := hfollows.timed
  have hle := htimed.le
  refine ⟨slotEnd constants (a ++ [f]) - f.2.subSlotIters, fun x hx => ?_, fun x hx => ?_⟩
  · have hbefore : AcceptedChain H V constants a := h.of_append (List.ne_nil_of_mem hx)
    have hlt := hbefore.total_lt hx
    rcases Nat.eq_zero_or_pos f.1.finishedSubSlots.length with hzero | hpos
    · have hnil := h.eq_nil_of_first hf (List.length_eq_zero_iff.mp hzero)
      rw [hnil] at hx
      cases hx
    · have hmul := Nat.mul_le_mul_right f.2.subSlotIters hpos
      rw [slotEnd_concat]
      omega
  · obtain ⟨hiters, interval, ip, hx⟩ := h.slotPart hc x hx
    have htotal := hx.total
    have hpos : ip ≠ 0 := by
      rintro rfl
      exact hx.infusion.not_dvd (dvd_zero _)
    rw [hiters] at htotal
    exact ⟨by omega, ip, hx.ipIters, by omega⟩

end Slot

end Chives
