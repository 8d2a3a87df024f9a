import Mathlib.Data.List.Basic

set_option autoImplicit false

/-!
# Lines of descent

Events that each use up a key, where an event may name one key as its heir. If every event uses the heir of an
earlier event, or of the root, and no key is used twice, then the events form one line.

## Main definitions

* `Lineage.Line` — each event uses the heir of the one before.
* `Lineage.last` — the last event of a line.

## Main results

* `Lineage.Line.eq_last` — an heir that is not used yet is that of the last event.
* `Lineage.Line.concat` — a new event prolongs the line.

## Design

The root is `none`, and an event `a` is `some a` where it has an heir.
-/

namespace Lineage

variable {α β : Type} (key : α → β) (heir : Option α → β → Prop)

/-- Each event uses the heir of the one before, and the first one that of `o`. -/
def Line : Option α → List α → Prop
  | _, [] => True
  | o, a :: l => heir o (key a) ∧ Line (some a) l

/-- The last event of a line that starts after `o`. -/
def last : Option α → List α → Option α
  | o, [] => o
  | _, a :: l => last (some a) l

variable {key heir} {o o' : Option α} {l : List α} {a : α} {k : β}

lemma line_append_singleton :
    Line key heir o (l ++ [a]) ↔ Line key heir o l ∧ heir (last o l) (key a) := by
  induction l generalizing o with
  | nil => simp [Line, last]
  | cons b l ih => simp only [List.cons_append, Line, last, ih, and_assoc]

/-- **An heir that is not used yet is that of the last event.**

**Proof sketch.** Induction on the line. If it is the heir of the root, the first event used it; otherwise it is
the heir of an event of the line, which starts anew after its first event. -/
theorem Line.eq_last (hheir : ∀ o k k', heir o k → heir o k' → k = k') (hl : Line key heir o l)
    (hk : k ∉ l.map key) (h : heir o' k) (ho : o' = o ∨ ∃ b ∈ l, o' = some b) : o' = last o l := by
  induction l generalizing o with
  | nil =>
    rcases ho with rfl | ⟨b, hb, -⟩
    · rfl
    · cases hb
  | cons b l ih =>
    rw [List.map_cons, List.mem_cons, not_or] at hk
    rcases ho with rfl | ⟨c, hc, rfl⟩
    · exact absurd (hheir _ _ _ h hl.1) hk.1
    · refine ih hl.2 hk.2 ?_
      rcases List.mem_cons.mp hc with rfl | hc
      · exact Or.inl rfl
      · exact Or.inr ⟨c, hc, rfl⟩

/-- **A new event prolongs the line.** -/
theorem Line.concat (hheir : ∀ o k k', heir o k → heir o k' → k = k') (hl : Line key heir o l)
    (hk : key a ∉ l.map key) (h : heir o' (key a)) (ho : o' = o ∨ ∃ b ∈ l, o' = some b) :
    Line key heir o (l ++ [a]) := by
  rw [line_append_singleton]
  refine ⟨hl, ?_⟩
  rwa [← hl.eq_last hheir hk h ho]

end Lineage
