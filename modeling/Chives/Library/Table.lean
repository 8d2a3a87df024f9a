import Mathlib.Data.List.Nodup
import Mathlib.Tactic

set_option autoImplicit false

/-!
# Tables with a primary key

A database table as the list of its rows, with a column that identifies them.

## Main definitions

* `Table.find` — `SELECT … WHERE key = ?`.
* `Table.Keyed` — no two rows have the same key.

## Main results

* `Table.Keyed.find_eq_some` — a lookup by the primary key finds the row that has it.
* `Table.Keyed.filter_perm_filterMap_find` — a lookup of several keys at once.
-/

namespace Table

variable {ρ κ : Type} [DecidableEq κ] {key : ρ → κ} {rows rows' : List ρ} {r r' : ρ} {k : κ}

/-- The row with a key. -/
def find (key : ρ → κ) (rows : List ρ) (k : κ) : Option ρ := rows.find? fun r => key r = k

/-- The key is a primary key: no two rows share it. -/
def Keyed (key : ρ → κ) (rows : List ρ) : Prop := (rows.map key).Nodup

instance (key : ρ → κ) (rows : List ρ) : Decidable (Keyed key rows) :=
  inferInstanceAs (Decidable (rows.map key).Nodup)

lemma mem_of_find (h : find key rows k = some r) : r ∈ rows ∧ key r = k :=
  ⟨List.mem_of_find?_eq_some h, by simpa using List.find?_some h⟩

lemma find_eq_none : find key rows k = none ↔ ∀ r ∈ rows, key r ≠ k := by
  simp [find, List.find?_eq_none]

lemma find_cons : find key (r :: rows) k = if key r = k then some r else find key rows k := by
  unfold find
  rw [List.find?_cons]
  by_cases hk : key r = k <;> simp [hk]

namespace Keyed

omit [DecidableEq κ] in
lemma eq_of_key_eq (hk : Keyed key rows) (hr : r ∈ rows) (hr' : r' ∈ rows)
    (h : key r = key r') : r = r' :=
  List.inj_on_of_nodup_map hk hr hr' h

lemma find_eq_some (hk : Keyed key rows) : find key rows k = some r ↔ r ∈ rows ∧ key r = k := by
  constructor
  · exact mem_of_find
  · rintro ⟨hr, rfl⟩
    cases hf : find key rows (key r) with
    | none => exact absurd rfl (find_eq_none.mp hf r hr)
    | some r' =>
      obtain ⟨hr', heq⟩ := mem_of_find hf
      rw [hk.eq_of_key_eq hr' hr heq]

omit [DecidableEq κ] in
lemma sublist (hk : Keyed key rows) (h : rows'.Sublist rows) : Keyed key rows' :=
  (h.map key).nodup hk

lemma find_filter (hk : Keyed key rows) (p : ρ → Bool) (k : κ) :
    find key (rows.filter p) k = (find key rows k).filter p := by
  apply Option.ext
  intro r
  rw [(hk.sublist List.filter_sublist).find_eq_some, List.mem_filter, Option.filter_eq_some_iff,
    hk.find_eq_some]
  tauto

/-- `SELECT … WHERE key IN keys` gives, up to order, the rows found under the keys. -/
lemma filter_perm_filterMap_find (hk : Keyed key rows) {keys : List κ} (hnodup : keys.Nodup) :
    (rows.filter fun r => key r ∈ keys).Perm (keys.filterMap (find key rows)) := by
  have hnd : (keys.filterMap (find key rows)).Nodup := by
    apply hnodup.filterMap
    intro k k' r hr hr'
    rw [Option.mem_def] at hr hr'
    rw [← (mem_of_find hr).2, ← (mem_of_find hr').2]
  refine (List.perm_ext_iff_of_nodup ((List.Nodup.of_map key hk).filter _) hnd).mpr ?_
  intro r
  rw [List.mem_filter, List.mem_filterMap, decide_eq_true_iff]
  constructor
  · rintro ⟨hr, hmem⟩
    exact ⟨key r, hmem, hk.find_eq_some.mpr ⟨hr, rfl⟩⟩
  · rintro ⟨k, hmem, hf⟩
    obtain ⟨hr, rfl⟩ := mem_of_find hf
    exact ⟨hr, hmem⟩

end Keyed

end Table
