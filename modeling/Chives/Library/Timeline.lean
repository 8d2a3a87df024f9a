import Mathlib.Data.List.Basic

set_option autoImplicit false

/-!
# Timed events

A list of events with the time of each, oldest first. The state of a system at a time is often that after
the latest event up to the time, and the lemmas here find this event where the list is cut.

## Main definitions

* `Timeline.latest` — the last event that is not after a time.

## Main results

* `Timeline.latest_split` — the event before a cut, where those after it are later.
* `Timeline.latest_append_of_lt` — events after the time do not count.
-/

namespace Timeline

variable {α : Type*} {t : ℕ} {x : ℕ × α} {l l' : List (ℕ × α)}

/-- The last of some timed events that is not after `t`. -/
def latest (t : ℕ) (events : List (ℕ × α)) : Option (ℕ × α) :=
  (events.filter fun event => event.1 ≤ t).getLast?

lemma latest_append : latest t (l ++ l') = (latest t l').or (latest t l) := by
  rw [latest, List.filter_append, List.getLast?_append, latest, latest]

lemma latest_eq_none (h : ∀ y ∈ l, t < y.1) : latest t l = none := by
  rw [latest, List.getLast?_eq_none_iff, List.filter_eq_nil_iff]
  exact fun y hy => by simpa using h y hy

lemma latest_append_of_lt (h : ∀ y ∈ l', t < y.1) : latest t (l ++ l') = latest t l := by
  rw [latest_append, latest_eq_none h, Option.none_or]

lemma latest_concat (h : x.1 ≤ t) : latest t (l ++ [x]) = some x := by
  rw [latest, List.filter_append, List.filter_cons_of_pos (by simpa using h), List.filter_nil,
    List.getLast?_concat]

lemma latest_split (h : x.1 ≤ t) (h' : ∀ y ∈ l', t < y.1) : latest t (l ++ x :: l') = some x := by
  rw [show l ++ x :: l' = (l ++ [x]) ++ l' by simp, latest_append_of_lt h', latest_concat h]

end Timeline
