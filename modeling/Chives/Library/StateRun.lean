import Mathlib.Tactic

set_option autoImplicit false

/-!
# Programs with a state and exceptions

Programs in `EStateM`: an exception leaves the state as it is when it is raised. A triple says what holds
after a program from a given state on, whether it returns or raises.

## Main definitions

* `StateRun.Triple` — pre- and postconditions, the latter for a return and for an exception.
* `StateRun.zoom` — a program on a part of the state.
* `StateRun.lift` — a computation that does not depend on the state.
* `StateRun.ensure`, `StateRun.forEach` — a check, and a loop over a list.

## Main results

* `StateRun.Triple.bind`, `StateRun.Triple.zoom`, `StateRun.Triple.forEach` — the rules.
-/

namespace StateRun

variable {ε ε' σ τ α β : Type}

/-- The state in which a program ends. -/
def after : EStateM.Result ε σ α → σ
  | .ok _ s => s
  | .error _ s => s

/-- The exception that a program raises. -/
def raised : EStateM.Result ε σ α → Option ε
  | .ok _ _ => none
  | .error e _ => some e

/-- From every state with `P`, the program returns with `Q` or raises with `E`. -/
def Triple (P : σ → Prop) (m : EStateM ε σ α) (Q : α → σ → Prop) (E : ε → σ → Prop) : Prop :=
  ∀ s, P s → match m s with
    | .ok a s' => Q a s'
    | .error e s' => E e s'

/-- A program on a part of the state, whose exceptions are renamed. -/
def zoom (get : σ → τ) (put : τ → σ → σ) (wrap : ε → ε') (m : EStateM ε τ α) : EStateM ε' σ α :=
  fun s => match m (get s) with
    | .ok a t => .ok a (put t s)
    | .error e t => .error (wrap e) (put t s)

/-- A computation that does not depend on the state. -/
def lift (x : Except ε α) : EStateM ε σ α :=
  match x with
  | .ok a => pure a
  | .error e => throw e

/-- `if not c: raise e`. -/
def ensure (c : σ → Prop) [DecidablePred c] (e : ε) : EStateM ε σ Unit :=
  fun s => if c s then .ok () s else .error e s

/-- `for x in l: …`. -/
def forEach (l : List α) (body : α → EStateM ε σ Unit) : EStateM ε σ Unit :=
  match l with
  | [] => pure ()
  | x :: l => do
    body x
    forEach l body

/-! ## Running a program -/

section Run

variable {m : EStateM ε σ α} {f : α → EStateM ε σ β} {s s' : σ} {a : α} {e : ε}

@[simp]
lemma pure_apply (a : α) (s : σ) : (pure a : EStateM ε σ α) s = .ok a s := rfl

@[simp]
lemma get_apply (s : σ) : (get : EStateM ε σ σ) s = .ok s s := rfl

@[simp]
lemma modify_apply (g : σ → σ) (s : σ) : (modify g : EStateM ε σ PUnit) s = .ok ⟨⟩ (g s) := rfl

lemma ensure_ok {c : σ → Prop} [DecidablePred c] (h : c s) (e : ε) : ensure c e s = .ok () s := by
  rw [ensure, if_pos h]

lemma bind_ok (h : m s = .ok a s') : (m >>= f) s = f a s' := by
  show EStateM.bind m f s = _
  rw [EStateM.bind, h]

lemma bind_error (h : m s = .error e s') : (m >>= f) s = .error e s' := by
  show EStateM.bind m f s = _
  rw [EStateM.bind, h]

lemma forEach_cons {x : α} {l : List α} {body : α → EStateM ε σ Unit} (h : body x s = .ok () s') :
    forEach (x :: l) body s = forEach l body s' :=
  bind_ok h

lemma zoom_ok (get : τ → σ) (t : τ) (h : m (get t) = .ok a s') (put : σ → τ → τ) (wrap : ε → ε') :
    zoom get put wrap m t = .ok a (put s' t) := by
  rw [zoom, h]

end Run

/-! ## Rules -/

namespace Triple

variable {P P' : σ → Prop} {Q Q' : α → σ → Prop} {R : β → σ → Prop} {E E' : ε → σ → Prop} {m : EStateM ε σ α}

lemma after {I : σ → Prop} (h : Triple P m (fun _ => I) fun _ => I) {s : σ} (hs : P s) :
    I (StateRun.after (m s)) := by
  have := h s hs
  cases hm : m s with
  | ok a s' =>
    rw [hm] at this
    exact this
  | error e s' =>
    rw [hm] at this
    exact this

lemma pure {a : α} (h : ∀ s, P s → Q a s) : Triple P (pure a : EStateM ε σ α) Q E :=
  fun s hs => h s hs

lemma throw {e : ε} (h : ∀ s, P s → E e s) : Triple P (throw e : EStateM ε σ α) Q E :=
  fun s hs => h s hs

lemma get {Q : σ → σ → Prop} (h : ∀ s, P s → Q s s) : Triple P (get : EStateM ε σ σ) Q E :=
  fun s hs => h s hs

lemma modify {f : σ → σ} {Q : PUnit → σ → Prop} (h : ∀ s, P s → Q ⟨⟩ (f s)) :
    Triple P (modify f : EStateM ε σ PUnit) Q E :=
  fun s hs => h s hs

lemma bind {f : α → EStateM ε σ β} (hm : Triple P m Q E) (hf : ∀ a, Triple (Q a) (f a) R E) :
    Triple P (m >>= f) R E := by
  intro s hs
  have h := hm s hs
  show match (EStateM.bind m f) s with
    | .ok a s' => R a s'
    | .error e s' => E e s'
  unfold EStateM.bind
  cases hms : m s with
  | ok a s' =>
    rw [hms] at h
    exact hf a s' h
  | error e s' =>
    rw [hms] at h
    exact h

lemma of_and {φ : Prop} (h : φ → Triple P m Q E) : Triple (fun s => P s ∧ φ) m Q E :=
  fun s hs => h hs.2 s hs.1

lemma of_run (h : ∀ s, P s → ∃ a s', m s = .ok a s' ∧ Q a s') : Triple P m Q E := by
  intro s hs
  obtain ⟨a, s', hm, hq⟩ := h s hs
  rw [hm]
  exact hq

lemma zoom {get : σ → τ} {put : τ → σ → σ} {wrap : ε' → ε} {m : EStateM ε' τ α}
    (hok : ∀ s a t, P s → m (get s) = .ok a t → Q a (put t s))
    (herror : ∀ s e t, P s → m (get s) = .error e t → E (wrap e) (put t s)) :
    Triple P (StateRun.zoom get put wrap m) Q E := by
  intro s hs
  unfold StateRun.zoom
  cases hm : m (get s) with
  | ok a t => exact hok s a t hs hm
  | error e t => exact herror s e t hs hm

lemma forEach {I : σ → Prop} {l : List α} {body : α → EStateM ε σ Unit}
    (h : ∀ x ∈ l, Triple I (body x) (fun _ => I) E) : Triple I (forEach l body) (fun _ => I) E := by
  induction l with
  | nil => exact pure fun s hs => hs
  | cons x l ih =>
    exact bind (h x List.mem_cons_self) fun _ => ih fun y hy => h y (List.mem_cons_of_mem _ hy)

end Triple

end StateRun
