import Mathlib.Logic.Basic
import Mathlib.Tactic.Common

set_option autoImplicit false

/-!
# Running computations that may raise

Rewriting rules for `Except`, in the form used to take a successful run apart: a `>>=` that
succeeds is two runs that succeed, a `throw` never succeeds, and a guard that lets the run
through holds.

## Main results

* `ExceptRun.bind_eq_ok` — inversion of a successful `>>=`.
* `ExceptRun.guard_eq_ok` — inversion of a successful `if … then throw … else …`.
* `ExceptRun.mapM_eq_ok_of_mapM_eq_some` — a loop that does what another one does.

## Design

The rules are proved by `simp`, not by `rfl`, so that a proof that rewrites with them records each
step, and checking it never runs the computation.
-/

namespace ExceptRun

variable {ε α β : Type} {x : Except ε α} {f : α → Except ε β} {b : β}

lemma bind_eq_ok : (x >>= f) = .ok b ↔ ∃ a, x = .ok a ∧ f a = .ok b := by
  cases x with
  | error e => simp [bind, Except.bind]
  | ok a => simp [bind, Except.bind]

lemma bind_eq_error {e : ε} : (x >>= f) = .error e ↔ x = .error e ∨ ∃ a, x = .ok a ∧ f a = .error e := by
  cases x with
  | error e => simp [bind, Except.bind]
  | ok a => simp [bind, Except.bind]

@[simp] lemma ok_bind (a : α) (f : α → Except ε β) : (Except.ok a >>= f) = f a := by
  simp only [bind, Except.bind]

@[simp] lemma error_bind (e : ε) (f : α → Except ε β) :
    (Except.error e >>= f) = .error e := by
  simp only [bind, Except.bind]

@[simp] lemma pure_eq (a : α) : (pure a : Except ε α) = .ok a := rfl

@[simp] lemma throw_eq (e : ε) : (throw e : Except ε α) = .error e := rfl

lemma map_eq_ok {f : α → β} : x.map f = .ok b ↔ ∃ a, x = .ok a ∧ f a = b := by
  cases x with
  | error e => simp [Except.map]
  | ok a => simp [Except.map]

variable {g : α → Except ε β}

lemma bind_congr_ok (h : ∀ a, x = .ok a → f a = g a) : (x >>= f) = (x >>= g) := by
  cases x with
  | error e => rfl
  | ok a => exact h a rfl

variable {a : α}

lemma guard_eq_ok {c : Prop} [Decidable c] {e : ε} : (if c then .error e else x) = .ok a ↔ ¬c ∧ x = .ok a := by
  by_cases h : c <;> simp [h]

lemma mapError_eq_ok {ε' : Type} {f : ε → ε'} : x.mapError f = .ok a ↔ x = .ok a := by
  cases x <;> simp [Except.mapError]

variable {l : List α} {l' : List β}

lemma mapM_eq_ok_of_mapM_eq_some {f : α → Option β} (h : l.mapM f = some l')
    (hg : ∀ a ∈ l, ∀ b, f a = some b → g a = .ok b) : l.mapM g = .ok l' := by
  induction l generalizing l' with
  | nil =>
    simp only [List.mapM_nil, Option.pure_def, Option.some.injEq] at h
    simp [← h]
  | cons a l ih =>
    simp only [List.mapM_cons, Option.pure_def, Option.bind_eq_bind, Option.bind_eq_some_iff] at h
    obtain ⟨b, hb, bs, hbs, heq⟩ := h
    have hrest := ih hbs fun a' ha' => hg a' (List.mem_cons_of_mem _ ha')
    rw [List.mapM_cons, hg a List.mem_cons_self b hb, hrest, ← Option.some.inj heq]
    rfl

lemma mapM_eq_ok_iff : l.mapM f = .ok l' ↔ l.map f = l'.map .ok := by
  induction l generalizing l' with
  | nil =>
    cases l' <;> simp
  | cons a l ih =>
    rw [List.mapM_cons, bind_eq_ok, List.map_cons]
    constructor
    · rintro ⟨b, hb, h⟩
      obtain ⟨bs, hbs, h⟩ := bind_eq_ok.mp h
      obtain rfl := Except.ok.inj h
      rw [hb, ih.mp hbs, List.map_cons]
    · intro h
      cases l' with
      | nil => simp at h
      | cons b bs =>
        simp only [List.map_cons, List.cons.injEq] at h
        exact ⟨b, h.1, bind_eq_ok.mpr ⟨bs, ih.mpr h.2, rfl⟩⟩

lemma exists_of_mapM_eq_ok (h : l.mapM f = .ok l') (ha : a ∈ l) : ∃ b, f a = .ok b := by
  have hmem : f a ∈ l'.map .ok := mapM_eq_ok_iff.mp h ▸ List.mem_map_of_mem ha
  obtain ⟨b, -, hb⟩ := List.mem_map.mp hmem
  exact ⟨b, hb.symm⟩

lemma exists_mapM_eq_ok (h : ∀ a ∈ l, ∃ b, f a = .ok b) : ∃ l', l.mapM f = .ok l' ∧ l'.length = l.length := by
  induction l with
  | nil => exact ⟨[], rfl, rfl⟩
  | cons x l ih =>
    obtain ⟨b, hb⟩ := h x List.mem_cons_self
    obtain ⟨bs, hbs, hlen⟩ := ih fun a ha => h a (List.mem_cons_of_mem _ ha)
    exact ⟨b :: bs, by rw [List.mapM_cons, hb, ok_bind, hbs, ok_bind]; rfl, by simp [hlen]⟩

lemma mem_of_mapM_eq_ok (h : l.mapM f = .ok l') (hb : b ∈ l') : ∃ a ∈ l, f a = .ok b := by
  have hmem : .ok b ∈ l.map f := mapM_eq_ok_iff.mp h ▸ List.mem_map_of_mem hb
  exact List.mem_map.mp hmem

lemma mem_mapM_of_mem (h : l.mapM f = .ok l') (ha : a ∈ l) (hb : f a = .ok b) : b ∈ l' := by
  have hmem : f a ∈ l'.map .ok := mapM_eq_ok_iff.mp h ▸ List.mem_map_of_mem ha
  obtain ⟨c, hc, heq⟩ := List.mem_map.mp hmem
  exact Except.ok.inj (heq.trans hb) ▸ hc

/-- A loop in `Option` that succeeds is a list of successful rounds. -/
lemma mapM_eq_some_iff {f : α → Option β} : l.mapM f = some l' ↔ l.map f = l'.map some := by
  induction l generalizing l' with
  | nil =>
    cases l' <;> simp
  | cons a l ih =>
    simp only [List.mapM_cons, Option.pure_def, Option.bind_eq_bind, Option.bind_eq_some_iff,
      Option.some.injEq, List.map_cons]
    constructor
    · rintro ⟨b, hb, bs, hbs, rfl⟩
      rw [hb, ih.mp hbs, List.map_cons]
    · intro h
      cases l' with
      | nil => simp at h
      | cons b bs =>
        simp only [List.map_cons, List.cons.injEq] at h
        exact ⟨b, h.1, bs, ih.mpr h.2, rfl⟩

lemma mapM_eq_some_mem {f : α → Option β} (h : l.mapM f = some l') (ha : a ∈ l) : ∃ b, f a = some b := by
  have hmem : f a ∈ l'.map some := by
    rw [← mapM_eq_some_iff.mp h]
    exact List.mem_map_of_mem ha
  obtain ⟨b, -, hb⟩ := List.mem_map.mp hmem
  exact ⟨b, hb.symm⟩

lemma mapM_congr_of_mem (h : ∀ a ∈ l, f a = g a) : l.mapM f = l.mapM g := by
  induction l with
  | nil => rfl
  | cons a l ih =>
    rw [List.mapM_cons, List.mapM_cons, h a List.mem_cons_self,
      ih fun a' ha' => h a' (List.mem_cons_of_mem _ ha')]

end ExceptRun
