import Mathlib.Data.List.Infix
import Mathlib.Data.Set.Function
import Mathlib.Tactic
import Chives.Library.ExceptRun

set_option autoImplicit false

/-!
# Trees of records with parent pointers

Records that name their parent by a key and carry their height, kept in a partial map from keys
to records: a block tree, a version history. Nothing forces such a map to be a tree, so the
basic notion is the *path* of a record, the list of its ancestors from the root to the record
itself; a map in which every record has one is *rooted*.

## Main definitions

* `ParentTree.Links` — key, parent key and height of a record.
* `ParentTree.Path` — the ancestors of a record, root first, followed by the record.
* `ParentTree.Rooted` — every record of the map is filed under its key and has a path.
* `ParentTree.commonPrefix` — the longest common prefix of two lists.
* `ParentTree.visit`, `ParentTree.walkBack` — following parent pointers until a test holds.

## Main results

* `ParentTree.Path.unique`, `ParentTree.Path.length_eq`, `ParentTree.Path.of_append` — a record
  has one path, its length is the height plus one, and its prefixes are paths.
* `ParentTree.take_eq_of_hash_eq` — two paths that meet at a height agree below it.
* `ParentTree.Path.mono` — a path survives additions to the map.
* `ParentTree.Path.height_le_length` — a path is not longer than the map has keys.
* `ParentTree.visit_eq_ok` — a walk along a path stops at the last record that passes the test.
-/

namespace ParentTree

open ExceptRun

variable {H R ε : Type}

/-- The key, the parent's key and the height of a record. -/
structure Links (H R : Type) where
  hash : R → H
  prev : R → H
  height : R → ℕ

variable {L : Links H R} {m m' : H → Option R} {r s p : R} {l l' : List R}

/-- `l` lists the ancestors of `r`, root first, and then `r`. The record `r` itself need not be in
the map. -/
inductive Path (L : Links H R) (m : H → Option R) : R → List R → Prop
  | root {r : R} (h : L.height r = 0) : Path L m r [r]
  | step {r p : R} {l : List R} (hp : m (L.prev r) = some p) (hh : L.height r = L.height p + 1)
      (h : Path L m p l) : Path L m r (l ++ [r])

/-- Every record is filed under its own key and has a path in the map. -/
structure Rooted (L : Links H R) (m : H → Option R) : Prop where
  hash_eq : ∀ {h r}, m h = some r → L.hash r = h
  path : ∀ {h r}, m h = some r → ∃ l, Path L m r l

/-! ## Paths -/

namespace Path

section

variable (h : Path L m r l)

include h

lemma length_eq : l.length = L.height r + 1 := by
  induction h with
  | root h => simp [h]
  | step hp hh _ ih => simp [ih, hh]

lemma exists_eq_concat : ∃ init, l = init ++ [r] := by
  cases h with
  | root h => exact ⟨[], rfl⟩
  | step hp hh h => exact ⟨_, rfl⟩

lemma ne_nil : l ≠ [] := by
  obtain ⟨init, rfl⟩ := h.exists_eq_concat
  simp

lemma getLast?_eq : l.getLast? = some r := by
  obtain ⟨init, rfl⟩ := h.exists_eq_concat
  simp

lemma mem_self : r ∈ l := by
  obtain ⟨init, rfl⟩ := h.exists_eq_concat
  simp

lemma unique : ∀ {l' : List R}, Path L m r l' → l = l' := by
  induction h with
  | root h0 =>
    intro l' h'
    cases h' with
    | root _ => rfl
    | step _ hh _ => omega
  | step hp hh _ ih =>
    intro l' h'
    cases h' with
    | root h0 => omega
    | step hp' _ h' =>
      obtain rfl := Option.some.inj (hp.symm.trans hp')
      rw [ih h']

end

/-- A path is not longer than the map has keys, its end not counted.

**Proof sketch.** The records before the end are in the map, and they have different keys since they have
different heights. -/
lemma height_le_length {keys : List H} (hkeys : ∀ k x, m k = some x → k ∈ keys) (h : Path L m r l) :
    L.height r ≤ keys.length := by
  have hused : ∀ {r l}, Path L m r l → ∃ ks : List H, ks.length = L.height r ∧ ks.Nodup ∧
      ks ⊆ keys ∧ ∀ k ∈ ks, ∀ p, m k = some p → L.height p < L.height r := by
    intro r l hl
    induction hl with
    | root h0 => exact ⟨[], h0.symm, List.nodup_nil, List.nil_subset _, fun k hk => by cases hk⟩
    | @step r p l hp hh h ih =>
      obtain ⟨ks, hlen, hnd, hsub, hlow⟩ := ih
      refine ⟨L.prev r :: ks, by simp [hlen, hh], ?_, ?_, ?_⟩
      · refine List.nodup_cons.mpr ⟨fun hmem => ?_, hnd⟩
        exact lt_irrefl _ (hlow _ hmem p hp)
      · exact List.cons_subset.mpr ⟨hkeys _ p hp, hsub⟩
      · intro k hk q hq
        rcases List.mem_cons.mp hk with rfl | hk
        · obtain rfl := Option.some.inj (hp.symm.trans hq)
          omega
        · have := hlow k hk q hq
          omega
  obtain ⟨ks, hlen, hnd, hsub, -⟩ := hused h
  have := (hnd.subperm hsub).length_le
  omega

lemma mono (h : Path L m r l) (hm : ∀ k x, m k = some x → m' k = some x) : Path L m' r l := by
  induction h with
  | root h => exact .root h
  | step hp hh _ ih => exact .step (hm _ _ hp) hh ih

variable {x : R}

lemma of_append {a b : List R} (h : Path L m r l) (hl : l = a ++ x :: b) : Path L m x (a ++ [x]) := by
  induction h generalizing b with
  | root h0 =>
    have hlen := congrArg List.length hl
    simp only [List.length_append, List.length_cons, List.length_nil] at hlen
    obtain rfl := List.length_eq_zero_iff.mp (show a.length = 0 by omega)
    obtain rfl := List.length_eq_zero_iff.mp (show b.length = 0 by omega)
    obtain rfl : _ = x := by simpa using hl
    exact .root h0
  | @step r p l hp hh h ih =>
    rcases List.eq_nil_or_concat b with rfl | ⟨b', y, rfl⟩
    · obtain ⟨rfl, hx⟩ := List.append_inj' hl rfl
      obtain rfl : _ = x := by simpa using hx
      exact .step hp hh h
    · have hl' : l ++ [r] = (a ++ x :: b') ++ [y] := by rw [hl]; simp
      exact ih (List.append_inj' hl' rfl).1

lemma getElem (h : Path L m r l) {i : ℕ} (hi : l[i]? = some x) : L.height x = i ∧ Path L m x (l.take (i + 1)) := by
  obtain ⟨hlt, rfl⟩ := List.getElem?_eq_some_iff.mp hi
  have hl : l = l.take i ++ l[i] :: l.drop (i + 1) := by simp
  have hpath := h.of_append hl
  have hlen := hpath.length_eq
  rw [List.length_append, List.length_take, min_eq_left hlt.le] at hlen
  refine ⟨by simpa using hlen.symm, ?_⟩
  rwa [List.take_add_one, List.getElem?_eq_getElem hlt]

lemma getElem?_height (h : Path L m r l) (hx : x ∈ l) : l[L.height x]? = some x := by
  obtain ⟨i, hi⟩ := List.mem_iff_getElem?.mp hx
  rwa [(h.getElem hi).1]

lemma stored_of_stored (hm : ∀ {k x}, m k = some x → L.hash x = k) (h : Path L m r l)
    (hr : m (L.hash r) = some r) : ∀ x ∈ l, m (L.hash x) = some x := by
  induction h with
  | root _ =>
    intro x hx
    rwa [List.mem_singleton.mp hx]
  | step hp _ _ ih =>
    intro x hx
    rcases List.mem_append.mp hx with hx | hx
    · exact ih (by rw [hm hp]; exact hp) x hx
    · rwa [List.mem_singleton.mp hx]

lemma of_agree (hm : ∀ {k x}, m k = some x → L.hash x = k) (h : Path L m r l)
    (hagree : ∀ x ∈ l, m' (L.hash x) = some x) : Path L m' r l := by
  induction h with
  | root h => exact .root h
  | @step r p l hp hh h ih =>
    refine .step ?_ hh (ih fun x hx => hagree x (List.mem_append_left _ hx))
    have hstored := hagree p (List.mem_append_left _ h.mem_self)
    rwa [hm hp] at hstored

lemma forall₂ {S : R → R → Prop} (hS : ∀ {x y}, S x y → L.prev x = L.prev y ∧ L.height x = L.height y)
    (hm : ∀ {k x y}, m k = some x → m' k = some y → S x y) (h : Path L m r l) (h' : Path L m' s l') (hrs : S r s) :
    List.Forall₂ S l l' := by
  induction h generalizing s l' with
  | root h0 =>
    cases h' with
    | root _ => exact .cons hrs .nil
    | step _ hh _ =>
      have := (hS hrs).2
      omega
  | step hp hh _ ih =>
    cases h' with
    | root h0 =>
      have := (hS hrs).2
      omega
    | step hp' _ h' => exact List.rel_append (ih h' (hm hp ((hS hrs).1 ▸ hp'))) (.cons hrs .nil)

lemma parent (h : Path L m r l) (hr : L.height r ≠ 0) :
    ∃ p l₀, m (L.prev r) = some p ∧ L.height r = L.height p + 1 ∧ Path L m p l₀ ∧
      l = l₀ ++ [r] := by
  cases h with
  | root h0 => exact absurd h0 hr
  | step hp hh h => exact ⟨_, _, hp, hh, h, rfl⟩

lemma getElem?_succ (h : Path L m r l) {i : ℕ} (hx : l[i + 1]? = some x) :
    ∃ p, l[i]? = some p ∧ m (L.prev x) = some p := by
  obtain ⟨hheight, hpath⟩ := h.getElem hx
  obtain ⟨p, l₀, hp, hh, hl₀, heq⟩ := hpath.parent (by omega)
  refine ⟨p, ?_, hp⟩
  have hlast := hl₀.getElem?_height hl₀.mem_self
  have hi : L.height p = i := by omega
  have hlen : i < l₀.length := by
    rw [hl₀.length_eq]
    omega
  calc l[i]? = (l.take (i + 1 + 1))[i]? := by rw [List.getElem?_take, if_pos (by omega)]
    _ = l₀[i]? := by rw [heq, List.getElem?_append_left hlen]
    _ = some p := by rw [← hi, hlast]

end Path

lemma eq_of_stored (h : m (L.hash r) = some r) (h' : m (L.hash s) = some s)
    (he : L.hash r = L.hash s) : r = s :=
  Option.some.inj (h.symm.trans (he ▸ h'))

lemma take_eq_of_getElem? {i : ℕ} {x : R} (h : Path L m r l) (h' : Path L m s l')
    (hx : l[i]? = some x) (hx' : l'[i]? = some x) : l.take (i + 1) = l'.take (i + 1) :=
  (h.getElem hx).2.unique (h'.getElem hx').2

/-! ## Longest common prefixes -/

/-- The longest common prefix of two lists. -/
def commonPrefix [DecidableEq R] : List R → List R → List R
  | a :: as, b :: bs => if a = b then a :: commonPrefix as bs else []
  | _, _ => []

example : commonPrefix [1, 2, 3] [1, 2, 4] = [1, 2] := by simp [commonPrefix]

section CommonPrefix

variable [DecidableEq R]

lemma exists_eq_commonPrefix_append : ∀ l l' : List R, ∃ a b,
    l = commonPrefix l l' ++ a ∧ l' = commonPrefix l l' ++ b ∧
      ∀ x, a.head? = some x → b.head? ≠ some x
  | [], l' => ⟨[], l', by simp [commonPrefix]⟩
  | c :: cs, [] => ⟨c :: cs, [], by simp [commonPrefix]⟩
  | c :: cs, d :: ds => by
    by_cases h : c = d
    · subst h
      obtain ⟨a, b, ha, hb, hne⟩ := exists_eq_commonPrefix_append cs ds
      refine ⟨a, b, ?_, ?_, hne⟩
      · rw [commonPrefix, if_pos rfl, List.cons_append, ← ha]
      · rw [commonPrefix, if_pos rfl, List.cons_append, ← hb]
    · refine ⟨c :: cs, d :: ds, ?_, ?_, ?_⟩
      · simp [commonPrefix, h]
      · simp [commonPrefix, h]
      · intro x hx hx'
        simp only [List.head?_cons, Option.some.injEq] at hx hx'
        exact h (hx.trans hx'.symm)

lemma commonPrefix_append {c a b : List R} (h : ∀ x, a.head? = some x → b.head? ≠ some x) :
    commonPrefix (c ++ a) (c ++ b) = c := by
  induction c with
  | nil =>
    cases a with
    | nil => rfl
    | cons x as =>
      cases b with
      | nil => rfl
      | cons y bs =>
        have hxy : x ≠ y := fun he => h x rfl (by simp [he])
        simp [commonPrefix, hxy]
  | cons x c ih => simp [commonPrefix, ih]

lemma commonPrefix_self (l : List R) : commonPrefix l l = l := by
  induction l with
  | nil => rfl
  | cons x l ih => simp [commonPrefix, ih]

lemma commonPrefix_append_right (h : l.length ≤ l'.length) (x : List R) :
    commonPrefix l (l' ++ x) = commonPrefix l l' := by
  induction l generalizing l' with
  | nil => simp [commonPrefix]
  | cons a l ih =>
    cases l' with
    | nil => simp at h
    | cons b l' =>
      have hlen : l.length ≤ l'.length := by simpa using h
      simp [commonPrefix, ih hlen]

variable {x : R}

lemma commonPrefix_concat {y : R} (h : l.length = l'.length) (hxy : x ≠ y) :
    commonPrefix (l ++ [x]) (l' ++ [y]) = commonPrefix l l' := by
  induction l generalizing l' with
  | nil =>
    obtain rfl : l' = [] := List.length_eq_zero_iff.mp (by simpa using h.symm)
    simp [commonPrefix, hxy]
  | cons a l ih =>
    cases l' with
    | nil => simp at h
    | cons b l' =>
      have hlen : l.length = l'.length := by simpa using h
      simp [commonPrefix, ih hlen]

lemma commonPrefix_concat_of_notMem (h : x ∉ l) : commonPrefix l (l' ++ [x]) = commonPrefix l l' := by
  induction l generalizing l' with
  | nil => simp [commonPrefix]
  | cons a l ih =>
    rw [List.mem_cons, not_or] at h
    obtain ⟨hne, hmem⟩ := h
    cases l' with
    | nil => simp [commonPrefix, Ne.symm hne]
    | cons b l' => simp [commonPrefix, ih hmem]

lemma commonPrefix_comm (l l' : List R) : commonPrefix l l' = commonPrefix l' l := by
  obtain ⟨a, b, ha, hb, hne⟩ := exists_eq_commonPrefix_append l l'
  have h := commonPrefix_append (c := commonPrefix l l') (a := b) (b := a)
    (fun x hx hx' => hne x hx' hx)
  rw [← ha, ← hb] at h
  exact h.symm

end CommonPrefix

/-- Two paths have a record in common at the heights below the length of their longest common
prefix. -/
lemma Path.lt_length_commonPrefix [DecidableEq R] (h : Path L m r l) (h' : Path L m s l') {i : ℕ} :
    i < (commonPrefix l l').length ↔ ∃ x, l[i]? = some x ∧ l'[i]? = some x := by
  obtain ⟨a, b, ha, hb, hne⟩ := exists_eq_commonPrefix_append l l'
  constructor
  · intro hi
    refine ⟨(commonPrefix l l')[i], ?_, ?_⟩
    · rw [congrArg (·[i]?) ha, List.getElem?_append_left hi, List.getElem?_eq_getElem hi]
    · rw [congrArg (·[i]?) hb, List.getElem?_append_left hi, List.getElem?_eq_getElem hi]
  · rintro ⟨x, hx, hx'⟩
    by_contra! hle
    -- the paths agree up to the common record, but differ right after their common prefix
    have hsame : l[(commonPrefix l l').length]? = l'[(commonPrefix l l').length]? := by
      have htake := congrArg (·[(commonPrefix l l').length]?) (take_eq_of_getElem? h h' hx hx')
      simpa only [List.getElem?_take, if_pos (Nat.lt_succ_of_le hle)] using htake
    have hlt := hle.trans_lt (List.getElem?_eq_some_iff.mp hx).1
    have hhead : a.head? = l[(commonPrefix l l').length]? := by
      rw [congrArg (·[(commonPrefix l l').length]?) ha, List.getElem?_append_right le_rfl,
        Nat.sub_self, List.head?_eq_getElem?]
    have hhead' : b.head? = l'[(commonPrefix l l').length]? := by
      rw [congrArg (·[(commonPrefix l l').length]?) hb, List.getElem?_append_right le_rfl,
        Nat.sub_self, List.head?_eq_getElem?]
    rw [List.getElem?_eq_getElem hlt] at hhead hsame
    exact hne _ hhead (hhead'.trans hsame.symm)

/-! ## Walking back -/

section Walk

variable {missing diverge : ε} {stop : R → Bool} {fuel : ℕ}

/-- Follow parent pointers from `r` until `stop` holds, for at most `fuel` records, and collect the
records passed before: the loop `while not stop(curr): …; curr = m[curr.prev]`. It fails with
`missing` at a parent that is not in the map, and with `diverge` when the fuel is used up. -/
def visit (L : Links H R) (m : H → Option R) (missing diverge : ε) (stop : R → Bool) :
    ℕ → R → Except ε (List R × R)
  | 0, _ => .error diverge
  | fuel + 1, r =>
    if stop r then .ok ([], r)
    else match m (L.prev r) with
      | some p => do
        let (passed, last) ← visit L m missing diverge stop fuel p
        return (r :: passed, last)
      | none => .error missing

/-- The record at which `visit` ends: the loop `while not stop(curr): curr = m[curr.prev]`. -/
def walkBack (L : Links H R) (m : H → Option R) (missing diverge : ε) (stop : R → Bool) (fuel : ℕ)
    (r : R) : Except ε R := do
  let (_, last) ← visit L m missing diverge stop fuel r
  return last

lemma stored_of_walkBack (hr : ∃ k, m k = some r) {t : R}
    (h : walkBack L m missing diverge stop fuel r = .ok t) : ∃ k, m k = some t := by
  obtain ⟨⟨passed, last⟩, hvisit, hlast⟩ := bind_eq_ok.mp h
  obtain rfl : last = t := Except.ok.inj hlast
  clear h hlast
  induction fuel generalizing r passed with
  | zero => cases hvisit
  | succ fuel ih =>
    unfold visit at hvisit
    split at hvisit
    · obtain ⟨-, rfl⟩ := Prod.mk.inj (Except.ok.inj hvisit)
      exact hr
    split at hvisit
    · next p hp =>
      obtain ⟨⟨passed', last'⟩, hnext, hrest⟩ := bind_eq_ok.mp hvisit
      obtain ⟨-, rfl⟩ := Prod.mk.inj (Except.ok.inj hrest)
      exact ih ⟨_, hp⟩ _ hnext
    · cases hvisit

variable {x : R} {a b : List R}

variable (h : Path L m r l)

include h

/-- Along a path, the walk stops at the last record that passes the test.

**Proof sketch.** Induction on the path from its end: either the end passes the test, or the walk
goes on with its parent, whose path is the rest. -/
lemma visit_eq_ok (hl : l = a ++ x :: b) (hx : stop x = true) (hb : ∀ y ∈ b, stop y = false)
    (hf : L.height r < fuel) : visit L m missing diverge stop fuel r = .ok (b.reverse, x) := by
  induction h generalizing fuel b with
  | @root r h0 =>
    obtain ⟨fuel, rfl⟩ : ∃ n, fuel = n + 1 := ⟨fuel - 1, by omega⟩
    have hlen := congrArg List.length hl
    simp only [List.length_append, List.length_cons, List.length_nil] at hlen
    obtain rfl := List.length_eq_zero_iff.mp (show a.length = 0 by omega)
    obtain rfl := List.length_eq_zero_iff.mp (show b.length = 0 by omega)
    obtain rfl : r = x := by simpa using hl
    simp [visit, hx]
  | @step r p l hp hh h ih =>
    obtain ⟨fuel, rfl⟩ : ∃ n, fuel = n + 1 := ⟨fuel - 1, by omega⟩
    rcases List.eq_nil_or_concat b with rfl | ⟨b', y, rfl⟩
    · obtain ⟨rfl, hr⟩ := List.append_inj' hl rfl
      obtain rfl : r = x := by simpa using hr
      simp [visit, hx]
    · have hl' : l ++ [r] = (a ++ x :: b') ++ [y] := by rw [hl]; simp
      obtain ⟨hl'', hr⟩ := List.append_inj' hl' rfl
      obtain rfl : r = y := by simpa using hr
      have hr : stop r = false := hb r (by simp)
      have hrest := ih hl'' (fun y hy => hb y (by simp [hy])) (show L.height p < fuel by omega)
      simp [visit, hr, hp, hrest]

lemma visit_eq_missing (hroot : ∀ g, l.head? = some g → m (L.prev g) = none) (hl : ∀ y ∈ l, stop y = false)
    (hf : L.height r < fuel) : visit L m missing diverge stop fuel r = .error missing := by
  induction h generalizing fuel with
  | @root r h0 =>
    obtain ⟨fuel, rfl⟩ : ∃ n, fuel = n + 1 := ⟨fuel - 1, by omega⟩
    simp [visit, hl r (by simp), hroot r rfl]
  | @step r p l hp hh h ih =>
    obtain ⟨fuel, rfl⟩ : ∃ n, fuel = n + 1 := ⟨fuel - 1, by omega⟩
    have hhead : ∀ g, l.head? = some g → (l ++ [r]).head? = some g := by
      intro g hg
      rw [List.head?_append, hg]
      rfl
    have hrest := ih (fun g hg => hroot g (hhead g hg)) (fun y hy => hl y (by simp [hy]))
      (show L.height p < fuel by omega)
    simp [visit, hl r (by simp), hp, hrest]

lemma walkBack_eq_ok (hl : l = a ++ x :: b) (hx : stop x = true) (hb : ∀ y ∈ b, stop y = false)
    (hf : L.height r < fuel) : walkBack L m missing diverge stop fuel r = .ok x := by
  rw [walkBack, visit_eq_ok h hl hx hb hf]
  rfl

/-- A walk in another map that has no other records for those of a path stops at the same record, if it
stops. -/
lemma eq_of_walkBack (hm : ∀ {k x}, m k = some x → L.hash x = k)
    (hagree : ∀ x ∈ l, ∀ y, m' (L.hash x) = some y → y = x) {t : R} (hl : l = a ++ x :: b) (hx : stop x = true)
    (hb : ∀ y ∈ b, stop y = false) (hwalk : walkBack L m' missing diverge stop fuel r = .ok t) : t = x := by
  obtain ⟨⟨passed, last⟩, hvisit, hlast⟩ := bind_eq_ok.mp hwalk
  obtain rfl : last = t := Except.ok.inj hlast
  clear hwalk hlast
  induction h generalizing fuel b passed with
  | @root r h0 =>
    have hlen := congrArg List.length hl
    simp only [List.length_append, List.length_cons, List.length_nil] at hlen
    obtain rfl := List.length_eq_zero_iff.mp (show a.length = 0 by omega)
    obtain rfl := List.length_eq_zero_iff.mp (show b.length = 0 by omega)
    obtain rfl : r = x := by simpa using hl
    cases fuel with
    | zero => simp [visit] at hvisit
    | succ fuel =>
      rw [visit, if_pos hx] at hvisit
      exact (Prod.mk.inj (Except.ok.inj hvisit)).2.symm
  | @step r p l hp hh h ih =>
    cases fuel with
    | zero => simp [visit] at hvisit
    | succ fuel =>
      rw [visit] at hvisit
      rcases List.eq_nil_or_concat b with rfl | ⟨b', y, rfl⟩
      · obtain ⟨rfl, hr⟩ := List.append_inj' hl rfl
        obtain rfl : r = x := by simpa using hr
        rw [if_pos hx] at hvisit
        exact (Prod.mk.inj (Except.ok.inj hvisit)).2.symm
      · have hl' : l ++ [r] = (a ++ x :: b') ++ [y] := by rw [hl]; simp
        obtain ⟨hl'', hr⟩ := List.append_inj' hl' rfl
        obtain rfl : r = y := by simpa using hr
        rw [if_neg (by simp [hb r (by simp)])] at hvisit
        cases hparent : m' (L.prev r) with
        | none => simp [hparent] at hvisit
        | some p' =>
          have hp' : m' (L.hash p) = some p' := by rw [hm hp, hparent]
          obtain rfl := hagree p (List.mem_append_left _ h.mem_self) p' hp'
          rw [hparent] at hvisit
          obtain ⟨⟨passed', last'⟩, hrest, hpair⟩ := bind_eq_ok.mp hvisit
          obtain ⟨-, rfl⟩ := Prod.mk.inj (Except.ok.inj hpair)
          exact ih (fun z hz => hagree z (List.mem_append_left _ hz)) hl''
            (fun z hz => hb z (by simp [hz])) passed' hrest

end Walk

end ParentTree
