import Mathlib.Tactic

set_option autoImplicit false

/-!
# Dictionaries with an order

Python's `dict`, whose entries are in the order of insertion, and `SortedDict`, whose entries are in the
order of the keys. Both are lists of pairs with distinct keys.

## Main definitions

* `OrderedDict`, `SortedDict` — the types.
* `OrderedDict.set`, `OrderedDict.erase`, `SortedDict.set`, `SortedDict.erase` — assignment and deletion.

## Main results

* `OrderedDict.get?_set`, `OrderedDict.get?_erase`, `SortedDict.get?_set`, `SortedDict.get?_erase` — lookup
  after an operation.
* `OrderedDict.sum_set`, `OrderedDict.sum_erase` — sums over the values.
-/

/-! ## Lookup in a list of pairs -/

namespace Assoc

variable {κ ν : Type} [DecidableEq κ] {l : List (κ × ν)} {k k' : κ} {v : ν}

/-- The value that a list of pairs has for a key. -/
def lookup (l : List (κ × ν)) (k : κ) : Option ν := (l.find? fun e => e.1 = k).map Prod.snd

/-- A list of pairs without the key. -/
def erase (l : List (κ × ν)) (k : κ) : List (κ × ν) := l.filter fun e => e.1 ≠ k

@[simp]
lemma lookup_nil (k : κ) : lookup ([] : List (κ × ν)) k = none := rfl

lemma lookup_cons (e : κ × ν) (l : List (κ × ν)) (k : κ) :
    lookup (e :: l) k = if e.1 = k then some e.2 else lookup l k := by
  unfold lookup
  by_cases h : e.1 = k
  · simp [h]
  · simp [h]

lemma lookup_eq_none : lookup l k = none ↔ k ∉ l.map Prod.fst := by
  induction l with
  | nil => simp
  | cons e l ih =>
    rw [lookup_cons]
    by_cases h : e.1 = k
    · simp [h]
    · rw [if_neg h, ih, List.map_cons, List.mem_cons]
      tauto

/-- The value that is found is that of a pair of the list. -/
lemma lookup_eq_some (h : (l.map Prod.fst).Nodup) : lookup l k = some v ↔ (k, v) ∈ l := by
  induction l with
  | nil => simp
  | cons e l ih =>
    rw [List.map_cons, List.nodup_cons] at h
    rw [lookup_cons, List.mem_cons]
    by_cases hk : e.1 = k
    · rw [if_pos hk]
      constructor
      · intro hv
        rw [← hk, ← Option.some.inj hv]
        exact .inl rfl
      · rintro (heq | hmem)
        · rw [← heq]
        · exact absurd (List.mem_map.mpr ⟨(k, v), hmem, hk.symm⟩) h.1
    · rw [if_neg hk, ih h.2]
      constructor
      · exact .inr
      · rintro (heq | hmem)
        · rw [← heq] at hk
          exact absurd rfl hk
        · exact hmem

lemma lookup_append (l l' : List (κ × ν)) (k : κ) :
    lookup (l ++ l') k = (lookup l k).or (lookup l' k) := by
  unfold lookup
  rw [List.find?_append]
  cases l.find? fun e => decide (e.1 = k) with
  | none => rfl
  | some e => rfl

lemma lookup_erase (l : List (κ × ν)) (k k' : κ) :
    lookup (erase l k) k' = if k' = k then none else lookup l k' := by
  induction l with
  | nil => simp [erase]
  | cons e l ih =>
    unfold erase at ih ⊢
    by_cases he : e.1 = k
    · rw [List.filter_cons_of_neg (by simp [he]), ih, lookup_cons]
      by_cases hk : k' = k
      · rw [if_pos hk, if_pos hk]
      · rw [if_neg hk, if_neg hk, if_neg (by rw [he]; exact Ne.symm hk)]
    · rw [List.filter_cons_of_pos (by simp [he]), lookup_cons, lookup_cons, ih]
      by_cases hk : k' = k
      · rw [if_pos hk, if_pos hk, if_neg (by rw [hk]; exact he)]
      · rw [if_neg hk, if_neg hk]

/-- A list of pairs with the value of a key replaced. -/
def replace (l : List (κ × ν)) (k : κ) (v : ν) : List (κ × ν) :=
  l.map fun e => if e.1 = k then (k, v) else e

lemma map_fst_replace (l : List (κ × ν)) (k : κ) (v : ν) :
    (replace l k v).map Prod.fst = l.map Prod.fst := by
  rw [replace, List.map_map]
  apply List.map_congr_left
  intro e _
  simp only [Function.comp_apply]
  split
  · rename_i h
    exact h.symm
  · rfl

/-- Lookup after a value is replaced. -/
lemma lookup_replace (l : List (κ × ν)) (k k' : κ) (v : ν) (hk : k ∈ l.map Prod.fst) :
    lookup (replace l k v) k' = if k' = k then some v else lookup l k' := by
  induction l with
  | nil => cases hk
  | cons e l ih =>
    have hcons : replace (e :: l) k v = (if e.1 = k then (k, v) else e) :: replace l k v := rfl
    rw [hcons, lookup_cons, lookup_cons]
    -- a list without the key is not changed
    have hid : k ∉ l.map Prod.fst → replace l k v = l := by
      intro hl
      conv_rhs => rw [← List.map_id l]
      apply List.map_congr_left
      intro e' he'
      rw [if_neg fun h => hl (List.mem_map.mpr ⟨e', he', h⟩)]
      rfl
    by_cases he : e.1 = k
    · rw [if_pos he]
      by_cases hkk : k' = k
      · simp [hkk]
      · rw [if_neg (Ne.symm hkk), if_neg hkk, if_neg (by rw [he]; exact Ne.symm hkk)]
        by_cases hl : k ∈ l.map Prod.fst
        · rw [ih hl, if_neg hkk]
        · rw [hid hl]
    · rw [if_neg he]
      rw [List.map_cons, List.mem_cons] at hk
      rw [ih (hk.resolve_left (Ne.symm he))]
      by_cases hkk : k' = k
      · rw [if_pos hkk, if_pos hkk, if_neg (by rw [hkk]; exact he)]
      · rw [if_neg hkk, if_neg hkk]

lemma erase_sublist (l : List (κ × ν)) (k : κ) :
    ((erase l k).map Prod.fst).Sublist (l.map Prod.fst) :=
  List.filter_sublist.map Prod.fst

/-- Sums over a list without one of its pairs. -/
lemma sum_erase {f : ν → ℕ} (h : (l.map Prod.fst).Nodup) (hk : lookup l k = some v) :
    ((erase l k).map fun e => f e.2).sum + f v = (l.map fun e => f e.2).sum := by
  induction l with
  | nil => simp at hk
  | cons e l ih =>
    rw [List.map_cons, List.nodup_cons] at h
    rw [lookup_cons] at hk
    unfold erase at ih ⊢
    by_cases he : e.1 = k
    · rw [if_pos he] at hk
      rw [List.filter_cons_of_neg (by simp [he]), List.map_cons, List.sum_cons, Option.some.inj hk]
      have hall : l.filter (fun e => e.1 ≠ k) = l := by
        rw [List.filter_eq_self]
        intro e' he'
        have : e'.1 ≠ k := fun heq => h.1 (List.mem_map.mpr ⟨e', he', heq.trans he.symm⟩)
        simpa using this
      rw [hall, Nat.add_comm]
    · rw [if_neg he] at hk
      rw [List.filter_cons_of_pos (by simp [he]), List.map_cons, List.sum_cons, List.map_cons,
        List.sum_cons, Nat.add_assoc, ih h.2 hk]

end Assoc

/-! ## The order of insertion -/

/-- Python's `dict`. -/
structure OrderedDict (κ ν : Type) where
  entries : List (κ × ν)
  nodup : (entries.map Prod.fst).Nodup

namespace OrderedDict

variable {κ ν : Type}

/-- `{}`. -/
def empty : OrderedDict κ ν := ⟨[], List.nodup_nil⟩

/-- `list(d.values())`. -/
def values (d : OrderedDict κ ν) : List ν := d.entries.map Prod.snd

/-- `list(d.keys())`. -/
def keys (d : OrderedDict κ ν) : List κ := d.entries.map Prod.fst

variable [DecidableEq κ]

/-- `d.get(k)`. -/
def get? (d : OrderedDict κ ν) (k : κ) : Option ν := Assoc.lookup d.entries k

/-- `d[k] = v`: a new key comes last, an old one keeps its place. -/
def set (d : OrderedDict κ ν) (k : κ) (v : ν) : OrderedDict κ ν :=
  if h : k ∈ d.entries.map Prod.fst then
    ⟨Assoc.replace d.entries k v, by rw [Assoc.map_fst_replace]; exact d.nodup⟩
  else
    ⟨d.entries ++ [(k, v)], by
      rw [List.map_append]
      exact List.nodup_append.mpr ⟨d.nodup, List.nodup_singleton _, by
        intro a ha b hb hab
        rw [List.map_singleton, List.mem_singleton] at hb
        have heq : a = k := hab.trans hb
        exact h (heq ▸ ha)⟩⟩

/-- `del d[k]`, of a key that is there. -/
def erase (d : OrderedDict κ ν) (k : κ) : OrderedDict κ ν :=
  ⟨Assoc.erase d.entries k, d.nodup.sublist (Assoc.erase_sublist d.entries k)⟩

@[simp]
lemma get?_empty (k : κ) : (empty : OrderedDict κ ν).get? k = none := rfl

variable {d : OrderedDict κ ν} {k : κ} {v : ν}

lemma get?_eq_some : d.get? k = some v ↔ (k, v) ∈ d.entries :=
  Assoc.lookup_eq_some d.nodup

lemma get?_set (d : OrderedDict κ ν) (k : κ) (v : ν) (k' : κ) :
    (d.set k v).get? k' = if k' = k then some v else d.get? k' := by
  unfold set get?
  split
  · exact Assoc.lookup_replace d.entries k k' v ‹_›
  · rename_i hmem
    rw [Assoc.lookup_append, Assoc.lookup_cons, Assoc.lookup_nil]
    by_cases hk : k' = k
    · rw [if_pos hk, if_pos hk.symm, hk, Assoc.lookup_eq_none.mpr hmem]
      rfl
    · rw [if_neg hk, if_neg (Ne.symm hk), Option.or_none]

lemma get?_erase (d : OrderedDict κ ν) (k k' : κ) :
    (d.erase k).get? k' = if k' = k then none else d.get? k' :=
  Assoc.lookup_erase d.entries k k'

lemma get?_foldl_erase (names : List κ) (d : OrderedDict κ ν) (k : κ) :
    (names.foldl erase d).get? k = if k ∈ names then none else d.get? k := by
  induction names generalizing d with
  | nil => simp
  | cons n names ih =>
    rw [List.foldl_cons, ih, get?_erase]
    by_cases hk : k ∈ names
    · rw [if_pos hk, if_pos (List.mem_cons_of_mem _ hk)]
    · rw [if_neg hk]
      by_cases hn : k = n
      · rw [if_pos hn, if_pos (by rw [hn]; exact List.mem_cons_self)]
      · rw [if_neg hn, if_neg (by simp [hn, hk])]

lemma get?_foldl_combine (f : Option ν → ν → ν) {l : List (κ × ν)} (hl : (l.map Prod.fst).Nodup)
    (d : OrderedDict κ ν) (k : κ) :
    (l.foldl (fun d e => d.set e.1 (f (d.get? e.1) e.2)) d).get? k =
      (Assoc.lookup l k).elim (d.get? k) fun v => some (f (d.get? k) v) := by
  induction l generalizing d with
  | nil => rfl
  | cons e l ih =>
    rw [List.map_cons, List.nodup_cons] at hl
    rw [List.foldl_cons, ih hl.2, get?_set, Assoc.lookup_cons]
    by_cases hk : k = e.1
    · have hnone : Assoc.lookup l k = none := Assoc.lookup_eq_none.mpr (by rw [hk]; exact hl.1)
      rw [hnone, if_pos hk, if_pos hk.symm, hk]
      rfl
    · rw [if_neg hk, if_neg (Ne.symm hk)]

lemma get?_foldl_set (names : List κ) (d : OrderedDict κ ν) (v : ν) (k : κ) :
    (names.foldl (fun d n => d.set n v) d).get? k = if k ∈ names then some v else d.get? k := by
  induction names generalizing d with
  | nil => simp
  | cons n names ih =>
    rw [List.foldl_cons, ih, get?_set]
    by_cases hk : k ∈ names
    · rw [if_pos hk, if_pos (List.mem_cons_of_mem _ hk)]
    · rw [if_neg hk]
      by_cases hn : k = n
      · rw [if_pos hn, if_pos (by rw [hn]; exact List.mem_cons_self)]
      · rw [if_neg hn, if_neg (by simp [hn, hk])]

lemma mem_values : v ∈ d.values ↔ ∃ k, d.get? k = some v := by
  unfold values
  rw [List.mem_map]
  constructor
  · rintro ⟨⟨k, v'⟩, hmem, rfl⟩
    exact ⟨k, get?_eq_some.mpr hmem⟩
  · rintro ⟨k, hk⟩
    exact ⟨(k, v), get?_eq_some.mp hk, rfl⟩

lemma values_eq_nil : d.values = [] ↔ ∀ k, d.get? k = none := by
  constructor
  · intro h k
    cases hk : d.get? k with
    | none => rfl
    | some v =>
      have hmem := mem_values.mpr ⟨k, hk⟩
      rw [h] at hmem
      cases hmem
  · intro h
    rw [List.eq_nil_iff_forall_not_mem]
    intro v hv
    obtain ⟨k, hk⟩ := mem_values.mp hv
    rw [h k] at hk
    cases hk

lemma sum_set {f : ν → ℕ} (hk : d.get? k = none) : ((d.set k v).values.map f).sum = (d.values.map f).sum + f v := by
  have hmem : k ∉ d.entries.map Prod.fst := Assoc.lookup_eq_none.mp hk
  simp [set, hmem, values]

lemma sum_erase {f : ν → ℕ} (hk : d.get? k = some v) :
    ((d.erase k).values.map f).sum + f v = (d.values.map f).sum := by
  have h := @Assoc.sum_erase κ ν _ d.entries k v f d.nodup hk
  simpa [values, erase, Function.comp_def] using h

lemma length_set (d : OrderedDict κ ν) (k : κ) (v : ν) :
    (d.set k v).entries.length = if d.get? k = none then d.entries.length + 1 else d.entries.length := by
  by_cases hk : d.get? k = none
  · rw [if_pos hk, set, dif_neg (Assoc.lookup_eq_none.mp hk), List.length_append, List.length_singleton]
  · rw [if_neg hk, set, dif_pos (by_contra fun h => hk (Assoc.lookup_eq_none.mpr h))]
    exact List.length_map _

lemma entries_set_of_none (v : ν) (hk : d.get? k = none) : (d.set k v).entries = d.entries ++ [(k, v)] := by
  rw [set, dif_neg (Assoc.lookup_eq_none.mp hk)]

omit [DecidableEq κ] in
/-- `d.popitem(last=False)`: the first entry and the others; `none` for a dictionary without entries. -/
def popFirst (d : OrderedDict κ ν) : Option ((κ × ν) × OrderedDict κ ν) :=
  match d with
  | ⟨[], _⟩ => none
  | ⟨e :: l, h⟩ => some (e, ⟨l, (List.nodup_cons.mp h).2⟩)

omit [DecidableEq κ] in
lemma exists_popFirst (h : 0 < d.entries.length) :
    ∃ e d', d.popFirst = some (e, d') ∧ d.entries = e :: d'.entries := by
  obtain ⟨l, hl⟩ := d
  cases l with
  | nil => cases h
  | cons e l => exact ⟨e, _, rfl, rfl⟩

lemma get?_of_entries_cons {d' : OrderedDict κ ν} {e : κ × ν} (h : d.entries = e :: d'.entries) (k : κ) :
    d'.get? k = if k = e.1 then none else d.get? k := by
  have hnodup := d.nodup
  rw [h, List.map_cons, List.nodup_cons] at hnodup
  rw [get?, get?, h, Assoc.lookup_cons]
  by_cases hk : k = e.1
  · rw [if_pos hk, hk]
    exact Assoc.lookup_eq_none.mpr hnodup.1
  · rw [if_neg hk, if_neg (Ne.symm hk)]

omit [DecidableEq κ] in
/-- A dictionary with other values for the same keys. -/
def mapValues (d : OrderedDict κ ν) (f : ν → ν) : OrderedDict κ ν :=
  ⟨d.entries.map fun e => (e.1, f e.2), by
    rw [List.map_map]
    exact d.nodup⟩

lemma get?_mapValues (d : OrderedDict κ ν) (f : ν → ν) (k : κ) :
    (d.mapValues f).get? k = (d.get? k).map f := by
  obtain ⟨l, hl⟩ := d
  show Assoc.lookup (l.map fun e => (e.1, f e.2)) k = (Assoc.lookup l k).map f
  clear hl
  induction l with
  | nil => rfl
  | cons e l ih =>
    rw [List.map_cons, Assoc.lookup_cons, Assoc.lookup_cons, ih]
    split
    · rfl
    · rfl

end OrderedDict

/-! ## The order of the keys -/

/-- `SortedDict`. -/
structure SortedDict (κ ν : Type) [LinearOrder κ] where
  entries : List (κ × ν)
  sorted : (entries.map Prod.fst).Pairwise (· < ·)

namespace SortedDict

variable {κ ν : Type} [LinearOrder κ]

/-- `SortedDict()`. -/
def empty : SortedDict κ ν := ⟨[], List.Pairwise.nil⟩

/-- `list(d.values())`. -/
def values (d : SortedDict κ ν) : List ν := d.entries.map Prod.snd

/-- `d.get(k)`. -/
def get? (d : SortedDict κ ν) (k : κ) : Option ν := Assoc.lookup d.entries k

/-- The entries with a pair put in its place. -/
def insertEntry (k : κ) (v : ν) : List (κ × ν) → List (κ × ν)
  | [] => [(k, v)]
  | e :: l =>
    if k < e.1 then (k, v) :: e :: l
    else if e.1 = k then (k, v) :: l
    else e :: insertEntry k v l

/-- The keys after a pair is put in its place. -/
lemma mem_insertEntry {k x : κ} {v : ν} {l : List (κ × ν)}
    (h : x ∈ (insertEntry k v l).map Prod.fst) : x = k ∨ x ∈ l.map Prod.fst := by
  induction l with
  | nil =>
    left
    simpa [insertEntry] using h
  | cons e l ih =>
    unfold insertEntry at h
    split at h
    · rw [List.map_cons, List.mem_cons] at h
      exact h
    · split at h
      · rw [List.map_cons, List.mem_cons] at h
        rcases h with h | h
        · exact .inl h
        · exact .inr (List.mem_cons_of_mem _ h)
      · rw [List.map_cons, List.mem_cons] at h
        rcases h with h | h
        · exact .inr (h ▸ List.mem_cons_self)
        · rcases ih h with h | h
          · exact .inl h
          · exact .inr (List.mem_cons_of_mem _ h)

/-- The keys stay in order. -/
lemma sorted_insertEntry (k : κ) (v : ν) {l : List (κ × ν)} (h : (l.map Prod.fst).Pairwise (· < ·)) :
    ((insertEntry k v l).map Prod.fst).Pairwise (· < ·) := by
  induction l with
  | nil => exact List.pairwise_singleton _ _
  | cons e l ih =>
    rw [List.map_cons, List.pairwise_cons] at h
    unfold insertEntry
    split
    · rename_i hlt
      rw [List.map_cons, List.map_cons, List.pairwise_cons]
      refine ⟨?_, List.pairwise_cons.mpr h⟩
      intro x hx
      rcases List.mem_cons.mp hx with rfl | hx
      · exact hlt
      · exact hlt.trans (h.1 x hx)
    · split
      · rename_i heq
        rw [List.map_cons, List.pairwise_cons]
        exact ⟨fun x hx => heq ▸ h.1 x hx, h.2⟩
      · rename_i hnlt hne
        rw [List.map_cons, List.pairwise_cons]
        refine ⟨fun x hx => ?_, ih h.2⟩
        rcases mem_insertEntry hx with rfl | hx
        · exact lt_of_le_of_ne (not_lt.mp hnlt) hne
        · exact h.1 x hx

/-- `d[k] = v`. -/
def set (d : SortedDict κ ν) (k : κ) (v : ν) : SortedDict κ ν :=
  ⟨insertEntry k v d.entries, sorted_insertEntry k v d.sorted⟩

/-- `del d[k]`, of a key that is there. -/
def erase (d : SortedDict κ ν) (k : κ) : SortedDict κ ν :=
  ⟨Assoc.erase d.entries k, d.sorted.sublist (Assoc.erase_sublist d.entries k)⟩

lemma nodup (d : SortedDict κ ν) : (d.entries.map Prod.fst).Nodup := d.sorted.imp fun h => ne_of_lt h

lemma get?_eq_some {d : SortedDict κ ν} {k : κ} {v : ν} : d.get? k = some v ↔ (k, v) ∈ d.entries :=
  Assoc.lookup_eq_some d.nodup

/-- Lookup after an assignment. -/
lemma get?_set (d : SortedDict κ ν) (k : κ) (v : ν) (k' : κ) :
    (d.set k v).get? k' = if k' = k then some v else d.get? k' := by
  have hlookup : ∀ l : List (κ × ν), (l.map Prod.fst).Pairwise (· < ·) →
      Assoc.lookup (insertEntry k v l) k' = if k' = k then some v else Assoc.lookup l k' := by
    intro l
    induction l with
    | nil =>
      intro _
      rw [insertEntry, Assoc.lookup_cons, Assoc.lookup_nil]
      by_cases hk : k' = k
      · rw [if_pos hk, if_pos hk.symm]
      · rw [if_neg hk, if_neg (Ne.symm hk)]
    | cons e l ih =>
      intro h
      rw [List.map_cons, List.pairwise_cons] at h
      unfold insertEntry
      split
      · rw [Assoc.lookup_cons]
        by_cases hk : k' = k
        · rw [if_pos hk, if_pos hk.symm]
        · rw [if_neg hk, if_neg (Ne.symm hk)]
      · split
        · rename_i heq
          rw [Assoc.lookup_cons, Assoc.lookup_cons]
          by_cases hk : k' = k
          · rw [if_pos hk, if_pos hk.symm]
          · rw [if_neg hk, if_neg (Ne.symm hk), if_neg (by rw [heq]; exact Ne.symm hk)]
        · rename_i hne
          rw [Assoc.lookup_cons, Assoc.lookup_cons, ih h.2]
          by_cases hk : k' = k
          · rw [if_pos hk, if_pos hk, if_neg (by rw [hk]; exact hne)]
          · rw [if_neg hk, if_neg hk]
  exact hlookup d.entries d.sorted

lemma get?_erase (d : SortedDict κ ν) (k k' : κ) :
    (d.erase k).get? k' = if k' = k then none else d.get? k' :=
  Assoc.lookup_erase d.entries k k'

end SortedDict
