import Chives.Library.OrderedDict

set_option autoImplicit false

/-!
# Records under their keys

Tables and dictionaries in which each record is kept under a key that it has itself, and dictionaries of such
dictionaries, which group the records.

## Main definitions

* `KeyedRows` — records with distinct keys, with `KeyedRows.set`, `KeyedRows.erase`, `KeyedRows.filter` and `KeyedRows.map`.
* `GroupIndex` — a dictionary of records for each group, with `GroupIndex.put` and `GroupIndex.pop`.
* `GroupIndex.Mirrors` — an index has the live records of a table, each in its group.

## Main results

* `KeyedRows.get?_set`, `KeyedRows.get?_erase`, `KeyedRows.get?_filter`, `KeyedRows.get?_map` — lookup after an operation.
* `KeyedRows.foldl_at` — a loop over records that changes, for each of them, only what is kept under its key.
* `GroupIndex.Mirrors.update`, `GroupIndex.Mirrors.remove`, `GroupIndex.mirrors_rebuild` — an index follows its table.
* `GroupIndex.mirrors_of_mem_values` — an index mirrors a table if its groups have the right records.

## Design

The order of the records is that of their insertion. Nothing depends on it.
-/

/-- Records with distinct keys. -/
structure KeyedRows {κ ν : Type} (key : ν → κ) where
  rows : List ν
  nodup : (rows.map key).Nodup

namespace KeyedRows

variable {κ ν : Type} {key : ν → κ}

/-- No records. -/
def empty : KeyedRows key := ⟨[], List.nodup_nil⟩

/-- The records that meet a condition. -/
def filter (d : KeyedRows key) (p : ν → Bool) : KeyedRows key :=
  ⟨d.rows.filter p, d.nodup.sublist (List.filter_sublist.map key)⟩

/-- The records, changed in a way that keeps their keys. -/
def map (d : KeyedRows key) (f : ν → ν) (hf : ∀ v, key (f v) = key v) : KeyedRows key :=
  ⟨d.rows.map f, by
    rw [List.map_map, show key ∘ f = key from funext hf]
    exact d.nodup⟩

lemma eq_of_key_eq (d : KeyedRows key) {v w : ν} (hv : v ∈ d.rows) (hw : w ∈ d.rows) (h : key v = key w) : v = w :=
  List.inj_on_of_nodup_map d.nodup hv hw h

variable [DecidableEq κ]

/-- The record under a key. -/
def get? (d : KeyedRows key) (k : κ) : Option ν := d.rows.find? fun v => key v = k

/-- The records without the one under a key. -/
def erase (d : KeyedRows key) (k : κ) : KeyedRows key := d.filter fun v => key v ≠ k

/-- A record under its key; it replaces another one. -/
def set (d : KeyedRows key) (v : ν) : KeyedRows key :=
  ⟨(d.erase (key v)).rows ++ [v], by
    rw [List.map_append, List.map_singleton, List.nodup_append]
    refine ⟨(d.erase (key v)).nodup, List.nodup_singleton _, fun x hx y hy => ?_⟩
    obtain ⟨w, hw, rfl⟩ := List.mem_map.mp hx
    rw [List.mem_singleton.mp hy]
    simpa using (List.mem_filter.mp hw).2⟩

variable {d : KeyedRows key}

lemma get?_eq_some {k : κ} {v : ν} : d.get? k = some v ↔ v ∈ d.rows ∧ key v = k := by
  constructor
  · intro h
    exact ⟨List.mem_of_find?_eq_some h, by simpa using List.find?_some h⟩
  · rintro ⟨hv, hk⟩
    cases hfind : d.get? k with
    | none => exact absurd hk (by simpa using List.find?_eq_none.mp hfind v hv)
    | some w =>
      have hw := List.mem_of_find?_eq_some hfind
      have hwk : key w = k := by simpa using List.find?_some hfind
      rw [d.eq_of_key_eq hw hv (hwk.trans hk.symm)]

lemma mem_rows {v : ν} : v ∈ d.rows ↔ d.get? (key v) = some v := by
  rw [get?_eq_some]
  simp

lemma get?_congr {d' : KeyedRows key} (h : ∀ v, v ∈ d.rows ↔ v ∈ d'.rows) (k : κ) : d.get? k = d'.get? k := by
  apply Option.ext
  intro v
  rw [get?_eq_some, get?_eq_some, h]

lemma get?_filter (d : KeyedRows key) (p : ν → Bool) (k : κ) : (d.filter p).get? k = (d.get? k).filter p := by
  apply Option.ext
  intro v
  rw [get?_eq_some, Option.filter_eq_some_iff, get?_eq_some, filter, List.mem_filter]
  tauto

lemma get?_erase (d : KeyedRows key) (k k' : κ) : (d.erase k).get? k' = if k' = k then none else d.get? k' := by
  rw [erase, get?_filter]
  cases h : d.get? k' with
  | none => simp
  | some v =>
    have hv : key v = k' := (get?_eq_some.mp h).2
    by_cases hk : k' = k
    · simp [Option.filter, hv, hk]
    · simp [Option.filter, hv, hk]

lemma get?_erase_of_none {k : κ} (h : d.get? k = none) (k' : κ) : (d.erase k).get? k' = d.get? k' := by
  rw [get?_erase]
  split
  next hk => rw [hk, h]
  next => rfl

lemma get?_set (d : KeyedRows key) (v : ν) (k : κ) : (d.set v).get? k = if k = key v then some v else d.get? k := by
  have hfind : (d.set v).get? k = ((d.erase (key v)).get? k).or (if key v = k then some v else none) := by
    show ((d.erase (key v)).rows ++ [v]).find? _ = _
    rw [List.find?_append]
    simp [get?]
  rw [hfind, get?_erase]
  by_cases hk : k = key v
  · simp [hk]
  · rw [if_neg hk, if_neg (Ne.symm hk), if_neg hk, Option.or_none]

lemma get?_map (d : KeyedRows key) (f : ν → ν) (hf : ∀ v, key (f v) = key v) (k : κ) :
    (d.map f hf).get? k = (d.get? k).map f := by
  show (d.rows.map f).find? _ = _
  rw [List.find?_map]
  simp [get?, hf]

/-- **A loop over records** that changes, for each of them, only what is kept under its key. -/
lemma foldl_at {σ β : Type} (at' : σ → κ → β) (body : σ → ν → σ) (change : β → ν → β)
    (hother : ∀ s v k, k ≠ key v → at' (body s v) k = at' s k)
    (hself : ∀ s v, at' (body s v) (key v) = change (at' s (key v)) v) (d : KeyedRows key) (s : σ) (k : κ) :
    at' (d.rows.foldl body s) k = match d.get? k with
      | some v => change (at' s k) v
      | none => at' s k := by
  obtain ⟨rows, hnodup⟩ := d
  show at' (rows.foldl body s) k = match rows.find? (fun v => key v = k) with
    | some v => change (at' s k) v
    | none => at' s k
  induction rows generalizing s with
  | nil => rfl
  | cons v rows ih =>
    rw [List.map_cons, List.nodup_cons] at hnodup
    rw [List.foldl_cons, ih _ hnodup.2, List.find?_cons]
    by_cases hk : key v = k
    · have hnone : rows.find? (fun v => key v = k) = none := by
        refine List.find?_eq_none.mpr fun w hw hwk => hnodup.1 ?_
        rw [hk, ← (decide_eq_true_iff.mp hwk : key w = k)]
        exact List.mem_map_of_mem hw
      rw [hnone, decide_eq_true hk, ← hk]
      exact hself s v
    · rw [decide_eq_false hk, hother s v k (Ne.symm hk)]

lemma get?_foldl_set (d : KeyedRows key) (k : κ) :
    (d.rows.foldl (fun copy v => copy.set v) (empty : KeyedRows key)).get? k = d.get? k := by
  have hloop := d.foldl_at get? (fun (copy : KeyedRows key) v => copy.set v) (fun _ v => some v)
    (fun copy v k hk => by rw [get?_set, if_neg hk]) (fun copy v => by rw [get?_set, if_pos rfl]) empty k
  rw [hloop]
  cases d.get? k with
  | none => rfl
  | some v => rfl

lemma get?_foldl_erase (d e : KeyedRows key) (k : κ) :
    (e.rows.foldl (fun rest v => rest.erase (key v)) d).get? k = if (e.get? k).isSome then none else d.get? k := by
  have hloop := e.foldl_at get? (fun (rest : KeyedRows key) v => rest.erase (key v)) (fun _ _ => none)
    (fun rest v k hk => by rw [get?_erase, if_neg hk]) (fun rest v => by rw [get?_erase, if_pos rfl]) d k
  rw [hloop]
  cases e.get? k with
  | none => rfl
  | some v => rfl

end KeyedRows

/-! ## Groups -/

/-- A dictionary of records for each group. -/
abbrev GroupIndex (γ : Type) {κ ν : Type} (key : ν → κ) := OrderedDict γ (KeyedRows key)

namespace GroupIndex

variable {γ κ ν : Type} {key : ν → κ} [DecidableEq γ]

/-- The records of a group. -/
def values (d : GroupIndex γ key) (g : γ) : List ν :=
  match d.get? g with
  | some group => group.rows
  | none => []

variable [DecidableEq κ]

/-- The record under a key in a group. -/
def entry (d : GroupIndex γ key) (g : γ) (k : κ) : Option ν := (d.get? g).bind fun group => group.get? k

/-- A record in a group, which is made if there is none. -/
def put (d : GroupIndex γ key) (g : γ) (v : ν) : GroupIndex γ key := d.set g (((d.get? g).getD .empty).set v)

/-- The record under a key is taken out of a group, if it is there. -/
def pop (d : GroupIndex γ key) (g : γ) (k : κ) : GroupIndex γ key :=
  match d.get? g with
  | some group => if (group.get? k).isSome then d.set g (group.erase k) else d
  | none => d

variable {g : γ}

lemma mem_values {d : GroupIndex γ key} {v : ν} : v ∈ d.values g ↔ d.entry g (key v) = some v := by
  rw [values, entry]
  cases d.get? g with
  | none => simp
  | some group => exact KeyedRows.mem_rows

lemma key_of_entry {d : GroupIndex γ key} {k : κ} {v : ν} (h : d.entry g k = some v) : key v = k := by
  obtain ⟨group, -, hv⟩ := Option.bind_eq_some_iff.mp h
  exact (KeyedRows.get?_eq_some.mp hv).2

lemma entry_of_none {d : GroupIndex γ key} (h : d.get? g = none) (k : κ) : d.entry g k = none := by
  rw [entry, h]
  rfl

lemma entry_set (d : GroupIndex γ key) (g g' : γ) (group : KeyedRows key) (k : κ) :
    entry (d.set g group) g' k = if g' = g then group.get? k else d.entry g' k := by
  rw [entry, OrderedDict.get?_set]
  by_cases hg : g' = g
  · rw [if_pos hg, if_pos hg]
    rfl
  · rw [if_neg hg, if_neg hg]
    rfl

lemma entry_put (d : GroupIndex γ key) (g g' : γ) (v : ν) (k : κ) :
    (d.put g v).entry g' k = if g' = g ∧ k = key v then some v else d.entry g' k := by
  rw [put, entry_set, KeyedRows.get?_set]
  by_cases hg : g' = g
  · subst hg
    by_cases hk : k = key v
    · simp [hk]
    · rw [if_pos rfl, if_neg hk, if_neg (fun h => hk h.2), entry]
      cases d.get? g' with
      | none => rfl
      | some group => rfl
  · rw [if_neg hg, if_neg (fun h => hg h.1)]

/-- Lookup after a record is taken out of a group. -/
lemma entry_pop (d : GroupIndex γ key) (g g' : γ) (k k' : κ) :
    (d.pop g k).entry g' k' = if g' = g ∧ k' = k then none else d.entry g' k' := by
  rw [pop]
  cases hd : d.get? g with
  | none =>
    by_cases hg : g' = g ∧ k' = k
    · rw [if_pos hg, hg.1]
      exact entry_of_none hd k'
    · rw [if_neg hg]
  | some group =>
    have hentry : ∀ k, d.entry g k = group.get? k := fun k => by rw [entry, hd]; rfl
    by_cases hsome : (group.get? k).isSome = true
    · simp only [if_pos hsome]
      rw [entry_set, KeyedRows.get?_erase]
      by_cases hg : g' = g
      · subst hg
        by_cases hk : k' = k
        · simp [hk]
        · rw [if_pos rfl, if_neg hk, if_neg (fun h => hk h.2), hentry]
      · rw [if_neg hg, if_neg (fun h => hg h.1)]
    · simp only [if_neg hsome]
      by_cases hg : g' = g ∧ k' = k
      · rw [if_pos hg, hg.1, hg.2, hentry]
        simpa using hsome
      · rw [if_neg hg]

/-- **An index mirrors a table**: it has the live records, each in its group. -/
def Mirrors (d : GroupIndex γ key) (live : ν → Bool) (group : ν → γ) (records : κ → Option ν) : Prop :=
  ∀ g k v, d.entry g k = some v ↔ records k = some v ∧ live v = true ∧ group v = g

variable {d d' : GroupIndex γ key} {live : ν → Bool} {group : ν → γ} {records : κ → Option ν} {v : ν}

lemma Mirrors.mem_values (h : Mirrors d live group records) :
    v ∈ d.values g ↔ records (key v) = some v ∧ live v = true ∧ group v = g := by
  rw [GroupIndex.mem_values, h]

lemma mirrors_of_mem_values {table : KeyedRows key}
    (h : ∀ g v, v ∈ d.values g ↔ table.get? (key v) = some v ∧ live v = true ∧ group v = g) :
    Mirrors d live group table.get? := by
  intro g k v
  constructor
  · intro hv
    have hk := key_of_entry hv
    rw [← hk] at hv ⊢
    exact (h g v).mp (GroupIndex.mem_values.mpr hv)
  · rintro ⟨hv, hlive, hg⟩
    have hk := (KeyedRows.get?_eq_some.mp hv).2
    rw [← hk] at hv ⊢
    exact GroupIndex.mem_values.mp ((h g v).mpr ⟨hv, hlive, hg⟩)

variable {records' : κ → Option ν}

section

variable (h : Mirrors d live group records)

include h

lemma Mirrors.congr (hentry : ∀ g k, d'.entry g k = d.entry g k) (hrecords : ∀ k, records' k = records k) :
    Mirrors d' live group records' := by
  intro g k v
  rw [hentry, hrecords]
  exact h g k v

/-- **A record is kept**: it is in its group if it is live, and so was the record that it replaces. -/
lemma Mirrors.update (hold : ∀ u, records (key v) = some u → live u = true → group u = group v)
    (hrecords : ∀ k, records' k = if k = key v then some v else records k)
    (hentry : ∀ g k, d'.entry g k = if g = group v ∧ k = key v then (if live v = true then some v else none) else d.entry g k) :
    Mirrors d' live group records' := by
  intro g k w
  rw [hentry, hrecords]
  by_cases hk : k = key v
  · subst hk
    rw [if_pos rfl]
    by_cases hg : g = group v
    · rw [if_pos ⟨hg, rfl⟩]
      by_cases hlive : live v = true
      · rw [if_pos hlive]
        constructor
        · rintro ⟨rfl⟩
          exact ⟨rfl, hlive, hg.symm⟩
        · exact fun hw => hw.1
      · rw [if_neg hlive]
        refine ⟨fun hw => (by cases hw), fun hw => ?_⟩
        rw [← Option.some.inj hw.1] at hw
        exact absurd hw.2.1 hlive
    · -- a live record under the key in another group would have been replaced
      rw [if_neg (fun hc => hg hc.1), h]
      constructor
      · rintro ⟨hu, hu', rfl⟩
        exact absurd (hold w hu hu') hg
      · rintro ⟨hw, -, rfl⟩
        exact absurd (congrArg group (Option.some.inj hw)).symm hg
  · rw [if_neg (fun hc => hk hc.2), if_neg hk]
    exact h g k w

/-- **A record is removed** from the table and from its group. -/
lemma Mirrors.remove {k : κ} (hold : ∀ u, records k = some u → live u = true → group u = g)
    (hrecords : ∀ k', records' k' = if k' = k then none else records k')
    (hentry : ∀ g' k', d'.entry g' k' = if g' = g ∧ k' = k then none else d.entry g' k') :
    Mirrors d' live group records' := by
  intro g' k' w
  rw [hentry, hrecords]
  by_cases hk : k' = k
  · subst hk
    rw [if_pos rfl]
    have hnone : ¬ (none = some w ∧ live w = true ∧ group w = g') := fun hw => (by cases hw.1)
    by_cases hg : g' = g
    · rw [if_pos ⟨hg, rfl⟩]
      exact ⟨fun hw => (by cases hw), fun hw => absurd hw hnone⟩
    · rw [if_neg (fun hc => hg hc.1), h]
      constructor
      · rintro ⟨hu, hu', rfl⟩
        exact absurd (hold w hu hu') hg
      · exact fun hw => absurd hw hnone
  · rw [if_neg (fun hc => hk hc.2), if_neg hk]
    exact h g' k' w

end

/-- **A record is deleted** from the table, and from the group that it has. -/
lemma Mirrors.pop {table : KeyedRows key} (h : Mirrors d live group table.get?) {k : κ} (hv : table.get? k = some v) :
    Mirrors (d.pop (group v) k) live group (table.erase k).get? := by
  refine h.remove (fun u hu _ => ?_) (table.get?_erase k) (d.entry_pop (group v) · k ·)
  rw [hv] at hu
  rw [Option.some.inj hu]

/-- **An index that is rebuilt** from a table mirrors it. -/
lemma mirrors_rebuild {index : GroupIndex γ key → ν → GroupIndex γ key}
    (hindex : ∀ u v g k, (index u v).entry g k =
      if live v = true ∧ g = group v ∧ k = key v then some v else u.entry g k) (table : KeyedRows key) :
    Mirrors (table.rows.foldl index .empty) live group table.get? := by
  intro g k w
  have hloop := table.foldl_at (fun (u : GroupIndex γ key) k g => u.entry g k) index
    (fun entry v g => if live v = true ∧ g = group v then some v else entry g)
    (fun u v k hk => by
      funext g
      rw [hindex, if_neg (fun hc => hk hc.2.2)])
    (fun u v => by
      funext g
      rw [hindex]
      simp)
    .empty k
  rw [congrFun hloop g]
  have hempty : entry (OrderedDict.empty : GroupIndex γ key) g k = none := rfl
  cases htable : table.get? k with
  | none => simp [hempty]
  | some v =>
    simp only [hempty]
    by_cases hlive : live v = true ∧ g = group v
    · rw [if_pos hlive]
      constructor
      · rintro ⟨rfl⟩
        exact ⟨rfl, hlive.1, hlive.2.symm⟩
      · exact fun hw => hw.1
    · rw [if_neg hlive]
      refine ⟨fun hfalse => (by cases hfalse), ?_⟩
      rintro ⟨heq, hw, hg⟩
      obtain rfl := Option.some.inj heq
      exact absurd ⟨hw, hg.symm⟩ hlive

end GroupIndex
