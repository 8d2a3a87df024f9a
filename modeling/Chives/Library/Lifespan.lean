import Mathlib.Data.List.Basic
import Mathlib.Data.Int.Notation

set_option autoImplicit false

/-!
# Lives on a chain of blocks

Things are born and die in the blocks of a chain, and blocks at the end of the chain may be replaced by others. Somebody
who is told of the lives, and undoes what he knows when blocks are dropped, can follow the chain: it does not matter
how often and in what order he is told of a life, and what he is told may be out of date.

## Main definitions

* `Lifespan.Life`, `Lifespan.life` — when something was born and when it died, and so on a chain.
* `Lifespan.Before` — a life as it was at an earlier time.
* `Lifespan.undo` — a life without what happened above a height.
* `Lifespan.learn` — what is known of a life after a report.
* `Lifespan.Follows` — what is known of a life is not wrong, and up to date unless a report is due.

## Main results

* `Lifespan.undo_life` — on a shorter chain, a life is undone.
* `Lifespan.learn_eq` — after a report that is up to date, everything is known.
* `Lifespan.Follows.block`, `Lifespan.Follows.reorg`, `Lifespan.Follows.rollback`, `Lifespan.Follows.report` — what
  may happen keeps the knowledge right.
-/

namespace Lifespan

/-- When something was born, and when it died, if it did; `none` for what was not born. -/
abbrev Life := Option (ℕ × Option ℕ)

/-- What is born and what dies in a block. -/
structure Block (κ : Type) where
  born : List κ
  died : List κ

variable {κ : Type} [DecidableEq κ]

/-- The height of the block where something is born. -/
def bornAt (chain : List (Block κ)) (k : κ) : Option ℕ := chain.findIdx? fun b => k ∈ b.born

/-- The height of the block where something dies. -/
def diedAt (chain : List (Block κ)) (k : κ) : Option ℕ := chain.findIdx? fun b => k ∈ b.died

/-- A life on a chain. -/
def life (chain : List (Block κ)) (k : κ) : Life := (bornAt chain k).map fun h => (h, diedAt chain k)

/-- A life as it was at an earlier time. -/
inductive Before : Life → Life → Prop
  | refl (l : Life) : Before l l
  | unborn (l : Life) : Before none l
  | alive (b d : ℕ) : Before (some (b, none)) (some (b, some d))

/-- A life without what happened above a height. -/
def undo (height : ℤ) (l : Life) : Life :=
  (l.filter fun x => (x.1 : ℤ) ≤ height).map fun x => (x.1, x.2.filter fun d : ℕ => (d : ℤ) ≤ height)

/-- What is known of a life after a report: a birth that is known is kept, and a death is always taken over. -/
def learn (l report : Life) : Life :=
  match l, report with
  | none, report => report
  | some (b, _), some (_, some d) => some (b, some d)
  | some x, _ => some x

/-! ## Earlier times -/

lemma Before.trans {l m n : Life} (h : Before l m) (h' : Before m n) : Before l n := by
  cases h with
  | refl => exact h'
  | unborn => exact .unborn n
  | alive b d =>
    cases h' with
    | refl => exact .alive b d

lemma before_undo (height : ℤ) (l : Life) : Before (undo height l) l := by
  cases l with
  | none => exact .refl none
  | some x =>
    obtain ⟨b, d⟩ := x
    by_cases hb : (b : ℤ) ≤ height
    · cases d with
      | none => simpa [undo, Option.filter, hb] using Before.refl (some (b, none))
      | some d =>
        by_cases hd : (d : ℤ) ≤ height
        · simpa [undo, Option.filter, hb, hd] using Before.refl (some (b, some d))
        · simpa [undo, Option.filter, hb, hd] using Before.alive b d
    · simpa [undo, Option.filter, hb] using Before.unborn (some (b, d))

lemma Before.undo {l m : Life} (h : Before l m) (height : ℤ) :
    Before (Lifespan.undo height l) (Lifespan.undo height m) := by
  cases h with
  | refl => exact .refl _
  | unborn => exact .unborn _
  | alive b d =>
    by_cases hb : (b : ℤ) ≤ height
    · by_cases hd : (d : ℤ) ≤ height
      · simpa [Lifespan.undo, Option.filter, hb, hd] using Before.alive b d
      · simpa [Lifespan.undo, Option.filter, hb, hd] using Before.refl (some (b, none))
    · simpa [Lifespan.undo, Option.filter, hb] using Before.refl none

lemma Before.learn {l m report : Life} (h : Before l m) (hreport : Before report m) :
    Before (Lifespan.learn l report) m := by
  cases h with
  | refl =>
    cases hreport with
    | refl => rcases l with _ | ⟨b, _ | d⟩ <;> exact .refl _
    | unborn => rcases l with _ | ⟨b, _ | d⟩ <;> exact .refl _
    | alive b d => exact .refl _
  | unborn => exact hreport
  | alive b d =>
    cases hreport with
    | refl => exact .refl _
    | unborn => exact .alive b d
    | alive => exact .alive b d

lemma learn_eq {l m : Life} (h : Before l m) : learn l m = m := by
  cases h with
  | refl => rcases l with _ | ⟨b, _ | d⟩ <;> rfl
  | unborn => rfl
  | alive b d => rfl

/-! ## Chains that grow and shrink -/

lemma diedAt_of_take {chain : List (Block κ)} {n d : ℕ} {k : κ} (h : diedAt (chain.take n) k = some d) :
    diedAt chain k = some d := by
  rw [diedAt, List.findIdx?_take] at h
  obtain ⟨j, hj, hguard⟩ := Option.bind_eq_some_iff.mp h
  obtain ⟨rfl, -⟩ := Option.guard_eq_some_iff.mp hguard
  exact hj

lemma undo_life (chain : List (Block κ)) (n : ℕ) (k : κ) :
    undo ((n : ℤ) - 1) (life chain k) = life (chain.take n) k := by
  have hle : ∀ j : ℕ, (j : ℤ) ≤ n - 1 ↔ j < n := by omega
  have hguard : ∀ o : Option ℕ, (o.filter fun j : ℕ => (j : ℤ) ≤ n - 1) = o.bind (Option.guard fun j => j < n) := by
    intro o
    cases o with
    | none => rfl
    | some j => simp [Option.filter, Option.guard, hle]
  simp only [life, bornAt, diedAt, List.findIdx?_take, ← hguard, undo]
  cases chain.findIdx? fun b => decide (k ∈ b.born) with
  | none => rfl
  | some j => by_cases hj : j < n <;> simp [Option.filter, hle, hj]

lemma before_life_take (chain : List (Block κ)) (n : ℕ) (k : κ) : Before (life (chain.take n) k) (life chain k) := by
  rw [← undo_life]
  exact before_undo _ _

lemma life_append {chain new : List (Block κ)} {k : κ} (h : ∀ b ∈ new, k ∉ b.born ∧ k ∉ b.died) :
    life (chain ++ new) k = life chain k := by
  have hborn : new.findIdx? (fun b => decide (k ∈ b.born)) = none :=
    List.findIdx?_eq_none_iff.mpr fun b hb => by simpa using (h b hb).1
  have hdied : new.findIdx? (fun b => decide (k ∈ b.died)) = none :=
    List.findIdx?_eq_none_iff.mpr fun b hb => by simpa using (h b hb).2
  rw [life, life, bornAt, bornAt, diedAt, diedAt, List.findIdx?_append, List.findIdx?_append, hborn, hdied]
  simp

/-! ## Following a chain -/

/-- What is known of a life, after the rollbacks that are still to come, is not wrong, and it is up to date unless a
report is due. -/
structure Follows (chain : List (Block κ)) (rollbacks : List ℤ) (k : κ) (due : Prop) (l : Life) : Prop where
  before : Before (rollbacks.foldl (fun l h => undo h l) l) (life chain k)
  current : ¬ due → rollbacks.foldl (fun l h => undo h l) l = life chain k

variable {chain : List (Block κ)} {rollbacks : List ℤ} {k : κ} {due due' : Prop} {l : Life}

section

variable (h : Follows chain rollbacks k due l)

include h

lemma Follows.mono (hdue : due → due') : Follows chain rollbacks k due' l :=
  ⟨h.before, fun hnot => h.current fun hd => hnot (hdue hd)⟩

/-- **A block**: a report is due for each life in it. -/
lemma Follows.block {b : Block κ} (hdue : due → due') (hborn : k ∈ b.born → due') (hdied : k ∈ b.died → due') :
    Follows (chain ++ [b]) rollbacks k due' l := by
  constructor
  · have htake := before_life_take (chain ++ [b]) chain.length k
    rw [List.take_left' rfl] at htake
    exact h.before.trans htake
  · intro hnot
    rw [life_append fun b' hb' => ?_]
    · exact h.current fun hd => hnot (hdue hd)
    · obtain rfl := List.mem_singleton.mp hb'
      exact ⟨fun hk => hnot (hborn hk), fun hk => hnot (hdied hk)⟩

/-- **A reorg**: what happened in the blocks that are dropped is to be undone, and that is all. -/
lemma Follows.reorg (n : ℕ) : Follows (chain.take n) (rollbacks ++ [(n : ℤ) - 1]) k due l := by
  constructor
  · rw [List.foldl_append, ← undo_life]
    exact h.before.undo _
  · intro hnot
    rw [List.foldl_append, h.current hnot]
    exact undo_life chain n k

end

/-- **A rollback.** -/
lemma Follows.rollback {height : ℤ} (h : Follows chain (height :: rollbacks) k due l) :
    Follows chain rollbacks k due (undo height l) :=
  ⟨h.before, h.current⟩

/-- **A report**: nothing is due after one that is up to date. -/
lemma Follows.report (h : Follows chain [] k due l) {report : Life} (hreport : Before report (life chain k)) :
    Follows chain [] k (due ∧ report ≠ life chain k) (learn l report) := by
  refine ⟨h.before.learn hreport, fun hnot => ?_⟩
  by_cases hcurrent : report = life chain k
  · rw [hcurrent]
    exact learn_eq h.before
  · have hl : l = life chain k := h.current fun hd => hnot ⟨hd, hcurrent⟩
    show learn l report = life chain k
    rw [hl]
    -- an older report changes nothing
    generalize life chain k = m at hreport
    cases hreport with
    | refl => exact learn_eq (.refl report)
    | unborn => rcases m with _ | ⟨b, _ | d⟩ <;> rfl
    | alive b d => rfl

end Lifespan
