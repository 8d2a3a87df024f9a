import Mathlib.Data.List.Induction

set_option autoImplicit false

/-!
# Runs of transition systems

A transition system is a partial step function: in a state, an action is not possible or leads to a state.
Concurrent programs are modelled by the actions of all their tasks, each from one suspension to the next, so
that a run is an interleaving.

## Main definitions

* `Transition.run` — the state after a list of actions, if all are possible.
* `Transition.Along` — all steps of a run meet a condition on the state before and the action.

## Main results

* `Transition.run_append`, `Transition.run_concat` — runs in two parts.
* `Transition.invariant`, `Transition.invariant_of_forall` — what every possible step preserves holds after every
  run; the steps may be restricted to some actions.
* `Transition.invariant_along` — the invariant rule for runs whose steps meet a condition.
-/

namespace Transition

variable {σ α : Type} {step : σ → α → Option σ}

/-- The state after a list of actions. -/
def run (step : σ → α → Option σ) (s : σ) : List α → Option σ
  | [] => some s
  | a :: as => (step s a).bind fun t => run step t as

lemma run_append (s : σ) (as bs : List α) :
    run step s (as ++ bs) = (run step s as).bind fun t => run step t bs := by
  induction as generalizing s with
  | nil => rfl
  | cons a as ih =>
    rw [List.cons_append, run, run, Option.bind_assoc]
    apply Option.bind_congr
    intro t _
    exact ih t

lemma run_concat {s u : σ} {as : List α} {a : α} :
    run step s (as ++ [a]) = some u ↔ ∃ t, run step s as = some t ∧ step t a = some u := by
  rw [run_append, Option.bind_eq_some_iff]
  simp [run]

/-- **The invariant rule**, for invariants that may refer to the actions so far. -/
theorem invariant {Inv : List α → σ → Prop} {s : σ} (hinit : Inv [] s)
    (hstep : ∀ as t a u, Inv as t → step t a = some u → Inv (as ++ [a]) u) {as : List α} {t : σ}
    (h : run step s as = some t) : Inv as t := by
  induction as using List.reverseRecOn generalizing t with
  | nil =>
    obtain rfl := Option.some.inj h
    exact hinit
  | append_singleton as a ih =>
    obtain ⟨u, hu, ha⟩ := run_concat.mp h
    exact hstep as u a t (ih hu) ha

theorem invariant_of_forall {P : α → Prop} {Inv : σ → Prop} {s : σ} (hinit : Inv s)
    (hstep : ∀ t a u, P a → Inv t → step t a = some u → Inv u) {as : List α} (has : ∀ a ∈ as, P a) {t : σ}
    (h : run step s as = some t) : Inv t := by
  induction as using List.reverseRecOn generalizing t with
  | nil =>
    obtain rfl := Option.some.inj h
    exact hinit
  | append_singleton as a ih =>
    obtain ⟨u, hu, ha⟩ := run_concat.mp h
    exact hstep u a t (has a (by simp)) (ih (fun b hb => has b (by simp [hb])) hu) ha

/-- All steps of a run meet a condition. -/
def Along (step : σ → α → Option σ) (P : σ → α → Prop) : σ → List α → Prop
  | _, [] => True
  | s, a :: as => P s a ∧ ∀ t, step s a = some t → Along step P t as

instance decidableAlong {P : σ → α → Prop} [∀ s a, Decidable (P s a)] :
    (s : σ) → (as : List α) → Decidable (Along step P s as)
  | _, [] => isTrue trivial
  | s, a :: as =>
    match h : step s a with
    | none => decidable_of_iff (P s a) ⟨fun hp => ⟨hp, fun t ht => by simp [h] at ht⟩, fun hp => hp.1⟩
    | some t =>
      have : Decidable (Along step P t as) := decidableAlong t as
      decidable_of_iff (P s a ∧ Along step P t as)
        ⟨fun hp => ⟨hp.1, fun u hu => by rw [h] at hu; cases hu; exact hp.2⟩, fun hp => ⟨hp.1, hp.2 t h⟩⟩

lemma Along.and {P Q : σ → α → Prop} {s : σ} {as : List α} (hp : Along step P s as) (hq : Along step Q s as) :
    Along step (fun t a => P t a ∧ Q t a) s as := by
  induction as generalizing s with
  | nil => trivial
  | cons a as ih => exact ⟨⟨hp.1, hq.1⟩, fun t ht => ih (hp.2 t ht) (hq.2 t ht)⟩

lemma along_of_forall {P : α → Prop} {as : List α} (h : ∀ a ∈ as, P a) (s : σ) : Along step (fun _ a => P a) s as := by
  induction as generalizing s with
  | nil => trivial
  | cons a as ih => exact ⟨h a (by simp), fun t _ => ih (fun b hb => h b (by simp [hb])) t⟩

theorem invariant_along {P : σ → α → Prop} {Inv : σ → Prop} {s : σ} (hinit : Inv s)
    (hstep : ∀ t a u, P t a → Inv t → step t a = some u → Inv u) {as : List α} (has : Along step P s as) {t : σ}
    (h : run step s as = some t) : Inv t := by
  induction as generalizing s with
  | nil =>
    obtain rfl := Option.some.inj h
    exact hinit
  | cons a as ih =>
    obtain ⟨u, hu, hrest⟩ := Option.bind_eq_some_iff.mp h
    exact ih (hstep s a u has.1 hinit hu) (has.2 u hu) hrest

end Transition
