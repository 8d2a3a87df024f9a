import Chives.Library.Table

set_option autoImplicit false

/-!
# Tables whose rows are born and die

A table with a primary key in which every row carries the time at which it was inserted and the
time at which it was retired, 0 for a row that is still alive. Rows are never deleted by the
forward operations, so the table can be taken back to any earlier time: the rows born later are
deleted and the rows that died later come to life again.

## Main definitions

* `LifeTable.Columns` — the columns of a row, and how the time of death is set.
* `LifeTable.insert`, `LifeTable.kill` — the forward operations, which may fail.
* `LifeTable.rollback` — going back.
* `LifeTable.Grows` — what a sequence of insertions and retirements did to a table.

## Main results

* `LifeTable.rollback_append`, `LifeTable.rollback_kill` — a rollback undoes what came later.
* `LifeTable.find_rollback` — the row with a key after going back.
* `LifeTable.kill_eq_some` — what a successful retirement of a list of keys means.
* `LifeTable.exists_kill` — the retirement of distinct living keys succeeds.
* `LifeTable.Grows.of_markDied`, `LifeTable.Grows.trans` — one step, and one sequence of steps after
  another.
-/

namespace LifeTable

open Table

variable {κ ρ : Type} [DecidableEq κ]

/-- The columns of a row: its key, when it was born and when it died, with the laws of changing the
time of death. -/
structure Columns (κ ρ : Type) where
  key : ρ → κ
  born : ρ → ℕ
  died : ρ → ℕ
  setDied : ρ → ℕ → ρ
  key_setDied : ∀ r t, key (setDied r t) = key r
  born_setDied : ∀ r t, born (setDied r t) = born r
  died_setDied : ∀ r t, died (setDied r t) = t
  setDied_setDied : ∀ r t t', setDied (setDied r t) t' = setDied r t'
  setDied_died : ∀ r, setDied r (died r) = r

attribute [simp] Columns.key_setDied Columns.born_setDied Columns.died_setDied
  Columns.setDied_setDied Columns.setDied_died

variable {C : Columns κ ρ} {rows rows' new : List ρ} {keys : List κ} {r : ρ} {k : κ} {t : ℕ} {h : ℤ}

/-! ## Operations -/

/-- Insert rows, unless a key would occur twice. -/
def insert (C : Columns κ ρ) (rows new : List ρ) : Option (List ρ) :=
  if Keyed C.key (rows ++ new) then some (rows ++ new) else none

/-- The row is alive and has the key. -/
def IsAliveAt (C : Columns κ ρ) (k : κ) (r : ρ) : Prop := C.key r = k ∧ C.died r = 0

instance (C : Columns κ ρ) (k : κ) : DecidablePred (IsAliveAt C k) :=
  fun _ => inferInstanceAs (Decidable (_ ∧ _))

/-- Retire the living rows with one key at time `t`. -/
def killOne (C : Columns κ ρ) (t : ℕ) (rows : List ρ) (k : κ) : List ρ :=
  rows.map fun r => if IsAliveAt C k r then C.setDied r t else r

/-- Retire the living rows with each of the keys in turn, and count them. -/
def killMany (C : Columns κ ρ) (t : ℕ) : List ρ → List κ → List ρ × ℕ
  | rows, [] => (rows, 0)
  | rows, k :: keys =>
    let (rows', n) := killMany C t (killOne C t rows k) keys
    (rows', rows.countP (IsAliveAt C k) + n)

/-- Retire the rows with the given keys, provided that this retires as many rows as there are
keys. -/
def kill (C : Columns κ ρ) (t : ℕ) (rows : List ρ) (keys : List κ) : Option (List ρ) :=
  if (killMany C t rows keys).2 = keys.length then some (killMany C t rows keys).1 else none

/-- A row as it was at time `h`. -/
def revive (C : Columns κ ρ) (h : ℤ) (r : ρ) : ρ := if h < C.died r then C.setDied r 0 else r

/-- The table as it was at time `h`; before time 0 it was empty. -/
def rollback (C : Columns κ ρ) (h : ℤ) (rows : List ρ) : List ρ :=
  (rows.filter fun r => ¬h < C.born r).map (revive C h)

/-! ## Going back -/

omit [DecidableEq κ] in
lemma setDied_zero (hr : C.died r = 0) : C.setDied r 0 = r := by
  conv_rhs => rw [← C.setDied_died r, hr]

omit [DecidableEq κ] in
lemma rollback_append (hnew : ∀ r ∈ new, h < C.born r) :
    rollback C h (rows ++ new) = rollback C h rows := by
  have hnil : new.filter (fun r => ¬h < C.born r) = [] := by
    rw [List.filter_eq_nil_iff]
    intro r hr
    simpa using hnew r hr
  rw [rollback, rollback, List.filter_append, hnil, List.append_nil]

/-- Going back revives the rows with one key that were retired later. -/
lemma rollback_killOne (ht : h < t) : rollback C h (killOne C t rows k) = rollback C h rows := by
  have hborn : ∀ r, C.born (if IsAliveAt C k r then C.setDied r t else r) = C.born r := by
    intro r
    split
    · exact C.born_setDied r t
    · rfl
  have hrevive : ∀ r, revive C h (if IsAliveAt C k r then C.setDied r t else r) = revive C h r := by
    intro r
    by_cases hr : IsAliveAt C k r
    · have hsame : revive C h r = r := by
        unfold revive
        split
        · exact setDied_zero hr.2
        · rfl
      rw [if_pos hr, hsame, revive, C.died_setDied, if_pos ht, C.setDied_setDied,
        setDied_zero hr.2]
    · rw [if_neg hr]
  unfold rollback killOne
  rw [List.filter_map, List.map_map]
  congr 1
  · funext r
    exact hrevive r
  · apply List.filter_congr
    intro r _
    simp only [Function.comp, hborn]

lemma rollback_killMany (ht : h < t) :
    rollback C h (killMany C t rows keys).1 = rollback C h rows := by
  induction keys generalizing rows with
  | nil => rfl
  | cons k keys ih =>
    show rollback C h (killMany C t (killOne C t rows k) keys).1 = _
    rw [ih, rollback_killOne ht]

lemma rollback_kill (hk : kill C t rows keys = some rows') (ht : h < t) :
    rollback C h rows' = rollback C h rows := by
  unfold kill at hk
  split at hk
  · rw [← Option.some.inj hk]
    exact rollback_killMany ht
  · cases hk

omit [DecidableEq κ] in
lemma rollback_eq_self (hrows : ∀ r ∈ rows, C.born r ≤ h ∧ C.died r ≤ h) :
    rollback C h rows = rows := by
  have hfilter : rows.filter (fun r => ¬h < C.born r) = rows := by
    rw [List.filter_eq_self]
    intro r hr
    simpa using (hrows r hr).1
  rw [rollback, hfilter]
  conv_rhs => rw [← List.map_id rows]
  apply List.map_congr_left
  intro r hr
  have := (hrows r hr).2
  simp only [revive, id]
  rw [if_neg (by omega)]

/-! ## Retiring a list of keys -/

/-- Retire, in one pass, the living rows whose key is in a list. -/
def markDied (C : Columns κ ρ) (t : ℕ) (keys : List κ) (rows : List ρ) : List ρ :=
  rows.map fun r => if C.key r ∈ keys ∧ C.died r = 0 then C.setDied r t else r

/-- The keys are those of living rows. -/
def Alive (C : Columns κ ρ) (rows : List ρ) (k : κ) : Prop := ∃ r ∈ rows, IsAliveAt C k r

lemma map_key_killOne : (killOne C t rows k).map C.key = rows.map C.key := by
  rw [killOne, List.map_map]
  apply List.map_congr_left
  intro r _
  simp only [Function.comp]
  split <;> simp

lemma keyed_killOne (hk : Keyed C.key rows) : Keyed C.key (killOne C t rows k) := by
  rw [Keyed, map_key_killOne]
  exact hk

lemma countP_isAliveAt_le (hk : Keyed C.key rows) : rows.countP (IsAliveAt C k) ≤ 1 := by
  have hle : rows.countP (IsAliveAt C k) ≤ (rows.map C.key).count k := by
    rw [List.count, List.countP_map]
    apply List.countP_mono_left
    intro r _ hr
    simpa using (of_decide_eq_true hr).1
  exact hle.trans (List.nodup_iff_count_le_one.mp hk k)

lemma alive_killOne {k' : κ} (ht : t ≠ 0) :
    Alive C (killOne C t rows k) k' ↔ Alive C rows k' ∧ k' ≠ k := by
  constructor
  · rintro ⟨r, hr, hkey, hdied⟩
    obtain ⟨r₀, hr₀, rfl⟩ := List.mem_map.mp hr
    by_cases hk : IsAliveAt C k r₀
    · rw [if_pos hk, C.died_setDied] at hdied
      exact absurd hdied ht
    · rw [if_neg hk] at hkey hdied
      exact ⟨⟨r₀, hr₀, hkey, hdied⟩, fun he => hk ⟨hkey.trans he, hdied⟩⟩
  · rintro ⟨⟨r, hr, hkey, hdied⟩, hne⟩
    have hk : ¬IsAliveAt C k r := fun hk => hne (hkey.symm.trans hk.1)
    exact ⟨r, List.mem_map.mpr ⟨r, hr, if_neg hk⟩, hkey, hdied⟩

/-- Retiring one key and then others in one pass is retiring all of them in one pass. -/
lemma markDied_killOne (ht : t ≠ 0) :
    markDied C t keys (killOne C t rows k) = markDied C t (k :: keys) rows := by
  rw [markDied, markDied, killOne, List.map_map]
  apply List.map_congr_left
  intro r _
  simp only [Function.comp, List.mem_cons]
  by_cases hk : IsAliveAt C k r
  · have hdead : ¬(C.key (C.setDied r t) ∈ keys ∧ C.died (C.setDied r t) = 0) := by simp [ht]
    have halive : (C.key r = k ∨ C.key r ∈ keys) ∧ C.died r = 0 := ⟨.inl hk.1, hk.2⟩
    rw [if_pos hk, if_neg hdead, if_pos halive]
  · rw [if_neg hk]
    have hiff : (C.key r ∈ keys ∧ C.died r = 0) ↔
        (C.key r = k ∨ C.key r ∈ keys) ∧ C.died r = 0 := by
      constructor
      · rintro ⟨h₁, h₂⟩
        exact ⟨.inr h₁, h₂⟩
      · rintro ⟨h₁ | h₁, h₂⟩
        · exact absurd ⟨h₁, h₂⟩ hk
        · exact ⟨h₁, h₂⟩
    simp only [hiff]

section

variable (hkeyed : Keyed C.key rows)

include hkeyed

/-- Retiring one key after the other, when a row is counted for each: the keys are distinct and
alive, and the retirement can be done in one pass. At most one row is counted for each key.

**Proof sketch.** Induction on the keys. By the primary key each of them counts at most one row, so
the total is the number of keys only if each counts exactly one; a key that has been retired is not
alive any more, hence does not occur again. -/
lemma killMany_spec (ht : t ≠ 0) :
    (killMany C t rows keys).2 ≤ keys.length ∧
      ((killMany C t rows keys).2 = keys.length → keys.Nodup ∧ (∀ k ∈ keys, Alive C rows k) ∧
        (killMany C t rows keys).1 = markDied C t keys rows) := by
  induction keys generalizing rows with
  | nil =>
    refine ⟨le_rfl, fun _ => ⟨List.nodup_nil, by simp, ?_⟩⟩
    simp [killMany, markDied]
  | cons k keys ih =>
    obtain ⟨hle, heq⟩ := @ih (killOne C t rows k) (keyed_killOne hkeyed)
    have hone : rows.countP (IsAliveAt C k) ≤ 1 := countP_isAliveAt_le hkeyed
    have hcount : (killMany C t rows (k :: keys)).2 =
        rows.countP (IsAliveAt C k) + (killMany C t (killOne C t rows k) keys).2 := rfl
    refine ⟨by rw [hcount, List.length_cons]; omega, fun htotal => ?_⟩
    rw [hcount, List.length_cons] at htotal
    obtain ⟨hnodup, halive, hrows⟩ := heq (by omega)
    have hk : Alive C rows k := by
      obtain ⟨r, hr, hr'⟩ := List.countP_pos_iff.mp
        (show 0 < rows.countP (IsAliveAt C k) by omega)
      exact ⟨r, hr, of_decide_eq_true hr'⟩
    refine ⟨List.nodup_cons.mpr ⟨fun hmem => ?_, hnodup⟩, ?_, ?_⟩
    · exact ((alive_killOne ht).mp (halive k hmem)).2 rfl
    · intro k' hk'
      rcases List.mem_cons.mp hk' with rfl | hk'
      · exact hk
      · exact ((alive_killOne ht).mp (halive k' hk')).1
    · show (killMany C t (killOne C t rows k) keys).1 = _
      rw [hrows, markDied_killOne ht]

lemma kill_eq_some (ht : t ≠ 0) (hk : kill C t rows keys = some rows') :
    keys.Nodup ∧ (∀ k ∈ keys, Alive C rows k) ∧ rows' = markDied C t keys rows := by
  unfold kill at hk
  split at hk
  · rename_i hcount
    obtain ⟨hnodup, halive, hrows⟩ := (killMany_spec hkeyed ht).2 hcount
    exact ⟨hnodup, halive, by rw [← Option.some.inj hk, hrows]⟩
  · cases hk

lemma countP_isAliveAt_eq_one (halive : Alive C rows k) : rows.countP (IsAliveAt C k) = 1 := by
  obtain ⟨r, hr, hrk⟩ := halive
  have hpos : 0 < rows.countP (IsAliveAt C k) :=
    List.countP_pos_iff.mpr ⟨r, hr, decide_eq_true hrk⟩
  have hone : rows.countP (IsAliveAt C k) ≤ 1 := countP_isAliveAt_le hkeyed
  omega

lemma killMany_count (ht : t ≠ 0) (hnodup : keys.Nodup) (halive : ∀ k ∈ keys, Alive C rows k) :
    (killMany C t rows keys).2 = keys.length := by
  induction keys generalizing rows with
  | nil => rfl
  | cons k keys ih =>
    obtain ⟨hk, hnodup⟩ := List.nodup_cons.mp hnodup
    have hrest : (killMany C t (killOne C t rows k) keys).2 = keys.length := by
      apply ih (keyed_killOne hkeyed) hnodup
      intro k' hk'
      refine (alive_killOne ht).mpr ⟨halive k' (List.mem_cons_of_mem _ hk'), ?_⟩
      rintro rfl
      exact hk hk'
    show rows.countP (IsAliveAt C k) + (killMany C t (killOne C t rows k) keys).2 = _
    rw [hrest, countP_isAliveAt_eq_one hkeyed (halive k List.mem_cons_self), List.length_cons,
      Nat.add_comm]

lemma exists_kill (ht : t ≠ 0) (hnodup : keys.Nodup) (halive : ∀ k ∈ keys, Alive C rows k) :
    ∃ rows', kill C t rows keys = some rows' := by
  refine ⟨(killMany C t rows keys).1, ?_⟩
  rw [kill, if_pos (killMany_count hkeyed ht hnodup halive)]

end

lemma map_key_markDied : (markDied C t keys rows).map C.key = rows.map C.key := by
  rw [markDied, List.map_map]
  apply List.map_congr_left
  intro r _
  simp only [Function.comp]
  split <;> simp

lemma find_markDied : find C.key (markDied C t keys rows) k =
    (find C.key rows k).map fun r => if k ∈ keys ∧ C.died r = 0 then C.setDied r t else r := by
  induction rows with
  | nil => rfl
  | cons r rows ih =>
    have hkey : C.key (if C.key r ∈ keys ∧ C.died r = 0 then C.setDied r t else r) = C.key r := by
      split <;> simp
    show List.find? _ (_ :: markDied C t keys rows) = _
    unfold find at ih ⊢
    rw [List.find?_cons, List.find?_cons, hkey]
    by_cases hk : C.key r = k
    · simp [hk]
    · simpa [hk] using ih

/-! ## Sequences of operations -/

lemma find_append (k : κ) : find C.key (rows ++ new) k = (find C.key rows k).or (find C.key new k) :=
  List.find?_append

lemma find_rollback (hk : Keyed C.key rows) (h : ℤ) (k : κ) : find C.key (rollback C h rows) k =
    ((find C.key rows k).filter fun r => ¬h < C.born r).map (revive C h) := by
  have hkey : ∀ r, C.key (revive C h r) = C.key r := by
    intro r
    unfold revive
    split <;> simp
  have hfilter := hk.find_filter (fun r => ¬h < C.born r) k
  rw [← hfilter, rollback]
  unfold find
  rw [List.find?_map]
  congr 2
  funext r
  simp only [Function.comp, hkey]

/-- What a sequence of insertions and retirements did: the rows `new` were inserted, and the keys
`gone`, which were alive, were retired. -/
structure Grows (C : Columns κ ρ) (rows rows' new : List ρ) (gone : List κ) : Prop where
  keyed : Keyed C.key (rows ++ new)
  map_key : rows'.map C.key = (rows ++ new).map C.key
  nodup : gone.Nodup
  alive : ∀ k ∈ gone, Alive C (rows ++ new) k
  kept : ∀ k ∉ gone, find C.key rows' k = (find C.key rows k).or (find C.key new k)
  dead : ∀ k ∈ gone, ∃ r, find C.key rows' k = some r ∧ C.died r ≠ 0

lemma Grows.keyed_after {gone : List κ} (h : Grows C rows rows' new gone) : Keyed C.key rows' := by
  rw [Keyed, h.map_key]
  exact h.keyed

lemma Grows.refl (hk : Keyed C.key rows) : Grows C rows rows [] [] := by
  refine ⟨by rwa [List.append_nil], by rw [List.append_nil], List.nodup_nil, by simp,
    fun k _ => ?_, by simp⟩
  rw [show find C.key ([] : List ρ) k = none from rfl, Option.or_none]

lemma Grows.of_markDied (hk : Keyed C.key (rows ++ new)) (hnodup : keys.Nodup)
    (halive : ∀ k ∈ keys, Alive C (rows ++ new) k) (ht : keys ≠ [] → t ≠ 0) :
    Grows C rows (markDied C t keys (rows ++ new)) new keys := by
  refine ⟨hk, map_key_markDied, hnodup, halive, fun k hmem => ?_, fun k hmem => ?_⟩
  · rw [find_markDied, ← find_append]
    simp [hmem]
  · obtain ⟨r, hr, hkey, hdied⟩ := halive k hmem
    refine ⟨C.setDied r t, ?_, ?_⟩
    · rw [find_markDied, hk.find_eq_some.mpr ⟨hr, hkey⟩, Option.map_some, if_pos ⟨hmem, hdied⟩]
    · rw [C.died_setDied]
      exact ht (List.ne_nil_of_mem hmem)

/-- One sequence of operations after another.

**Proof sketch.** A key that the first sequence retires is dead in between, so the second cannot retire
it again, and a row that is alive in between is one from before or one of the first new rows. -/
lemma Grows.trans {rows₁ rows₂ new₁ new₂ : List ρ} {gone₁ gone₂ : List κ}
    (h₁ : Grows C rows rows₁ new₁ gone₁) (h₂ : Grows C rows₁ rows₂ new₂ gone₂) :
    Grows C rows rows₂ (new₁ ++ new₂) (gone₁ ++ gone₂) := by
  have hkeys : (rows₁ ++ new₂).map C.key = (rows ++ (new₁ ++ new₂)).map C.key := by
    rw [List.map_append, h₁.map_key, ← List.map_append, List.append_assoc]
  have hdisjoint : ∀ k ∈ gone₁, k ∉ gone₂ := by
    intro k hk hk₂
    obtain ⟨r, hr, hdied⟩ := h₁.dead k hk
    obtain ⟨hr, hkey⟩ := mem_of_find hr
    obtain ⟨r', hr', hkey', hdied'⟩ := h₂.alive k hk₂
    have hsame := h₂.keyed.eq_of_key_eq (List.mem_append_left _ hr) hr' (hkey.trans hkey'.symm)
    rw [hsame] at hdied
    exact hdied hdied'
  refine ⟨?_, ?_, ?_, ?_, ?_, ?_⟩
  · rw [Keyed, ← hkeys]
    exact h₂.keyed
  · rw [h₂.map_key, hkeys]
  · exact List.nodup_append.mpr ⟨h₁.nodup, h₂.nodup, fun k hk k' hk' he =>
      hdisjoint k hk (he ▸ hk')⟩
  · intro k hk
    rw [← List.append_assoc]
    rcases List.mem_append.mp hk with hk | hk
    · obtain ⟨r, hr, halive⟩ := h₁.alive k hk
      exact ⟨r, List.mem_append_left _ hr, halive⟩
    · obtain ⟨r, hr, halive⟩ := h₂.alive k hk
      rcases List.mem_append.mp hr with hr | hr
      · have hk₁ : k ∉ gone₁ := fun hk₁ => hdisjoint k hk₁ hk
        have hfind := h₁.keyed_after.find_eq_some.mpr ⟨hr, halive.1⟩
        rw [h₁.kept k hk₁, ← find_append] at hfind
        exact ⟨r, List.mem_append_left _ (mem_of_find hfind).1, halive⟩
      · exact ⟨r, List.mem_append_right _ hr, halive⟩
  · intro k hk
    rw [List.mem_append, not_or] at hk
    rw [h₂.kept k hk.2, h₁.kept k hk.1, find_append, Option.or_assoc]
  · intro k hk
    by_cases hk₂ : k ∈ gone₂
    · exact h₂.dead k hk₂
    · obtain ⟨r, hr, hdied⟩ := h₁.dead k ((List.mem_append.mp hk).resolve_right hk₂)
      refine ⟨r, ?_, hdied⟩
      rw [h₂.kept k hk₂, hr, Option.some_or]

/-! ## What rows are worth -/

/-- What the living rows are worth. -/
def aliveSum (C : Columns κ ρ) (f : ρ → ℕ) (rows : List ρ) : ℕ :=
  (rows.map fun r => if C.died r = 0 then f r else 0).sum

/-- Retiring rows takes away what they are worth. -/
lemma aliveSum_markDied {f : ρ → ℕ} (hk : Keyed C.key rows) (hnodup : keys.Nodup)
    (halive : ∀ k ∈ keys, Alive C rows k) (ht : keys ≠ [] → t ≠ 0) :
    aliveSum C f (markDied C t keys rows) + ((keys.filterMap (find C.key rows)).map f).sum = aliveSum C f rows := by
  have hdied : ∀ r ∈ rows, C.key r ∈ keys → C.died r = 0 := by
    intro r hr hmem
    obtain ⟨r', hr', hkey, hzero⟩ := halive _ hmem
    rwa [hk.eq_of_key_eq hr hr' hkey.symm]
  rw [← ((hk.filter_perm_filterMap_find hnodup).map f).sum_eq]
  clear hk halive
  induction rows with
  | nil => rfl
  | cons r rows ih =>
    rw [List.forall_mem_cons] at hdied
    have ih := ih hdied.2
    unfold aliveSum markDied at ih ⊢
    by_cases hr : C.key r ∈ keys
    · simp [hr, hdied.1 hr, ht (List.ne_nil_of_mem hr)] at ih ⊢
      omega
    · simp [hr] at ih ⊢
      omega

end LifeTable
