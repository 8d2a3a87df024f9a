import Mathlib.Data.List.AList
import Mathlib.Tactic

set_option autoImplicit false

/-!
# Dictionaries

Python's `dict` as a Mathlib `AList`: keys are unique, assignment overwrites. The order of the
entries is that of `AList` and not the order of insertion, so nothing may depend on it.

## Main definitions

* `Dict` — the type.
* `Dict.items`, `Dict.ofItems` — the entries as a list of pairs, and `{k: v for (k, v) in …}`.

## Main results

* `Dict.lookup_set` — lookup after an assignment.
* `Dict.lookup_erase_eq` — lookup after a deletion.
* `Dict.lookup_ofItems_items` — a dictionary rebuilt from its items has the same entries.
-/

/-- A dictionary from `κ` to `ν`. -/
abbrev Dict (κ ν : Type) := AList (fun _ : κ => ν)

namespace Dict

variable {κ ν : Type} [DecidableEq κ]

/-- `d[k] = v`. -/
def set (d : Dict κ ν) (k : κ) (v : ν) : Dict κ ν := AList.insert k v d

/-- `list(d.items())`. -/
def items (d : Dict κ ν) : List (κ × ν) := d.entries.map fun e => (e.1, e.2)

/-- `{k: v for (k, v) in content}`: a later pair overwrites an earlier one. -/
def ofItems (content : List (κ × ν)) : Dict κ ν := content.foldl (fun d e => set d e.1 e.2) ∅

lemma lookup_set (d : Dict κ ν) (k : κ) (v : ν) (k' : κ) :
    (set d k v).lookup k' = if k' = k then some v else d.lookup k' := by
  by_cases h : k' = k
  · subst h
    simp [set]
  · rw [set, AList.lookup_insert_ne h, if_neg h]

lemma lookup_erase_eq (d : Dict κ ν) (k k' : κ) :
    AList.lookup k' (d.erase k) = if k' = k then none else d.lookup k' := by
  by_cases h : k' = k
  · subst h
    simp
  · rw [AList.lookup_erase_ne h, if_neg h]

lemma lookup_foldl_erase (keys : List κ) (d : Dict κ ν) (k : κ) :
    (keys.foldl (fun d k => d.erase k) d).lookup k = if k ∈ keys then none else d.lookup k := by
  induction keys generalizing d with
  | nil => simp
  | cons k' keys ih =>
    rw [List.foldl_cons, ih, lookup_erase_eq]
    by_cases hmem : k ∈ keys
    · simp [hmem]
    · simp [hmem]

variable {k : κ}

lemma mem_iff_lookup {d : Dict κ ν} : k ∈ d ↔ d.lookup k ≠ none := by
  rw [Ne, AList.lookup_eq_none, not_not]

lemma lookup_foldl_set : ∀ (content : List (κ × ν)) (d : Dict κ ν),
    (content.map Prod.fst).Nodup →
    (content.foldl (fun d e => set d e.1 e.2) d).lookup k =
      ((content.find? (fun e => e.1 = k)).map Prod.snd).or (d.lookup k)
  | [], d, _ => by simp
  | e :: content, d, h => by
    rw [List.map_cons, List.nodup_cons] at h
    rw [List.foldl_cons, lookup_foldl_set content _ h.2, lookup_set, List.find?_cons]
    by_cases hk : e.1 = k
    · have hnone : content.find? (fun e => e.1 = k) = none := by
        rw [List.find?_eq_none]
        intro e' he' hek
        exact h.1 (List.mem_map.mpr ⟨e', he', (of_decide_eq_true hek).trans hk.symm⟩)
      simp [hk, hnone]
    · simp [hk, Ne.symm hk]

/-- Lookup in a dictionary after a list of assignments whose values are given by their keys, seen through
`g`: keys may repeat. -/
lemma map_lookup_foldl_set {β : Type} {g : ν → β} {F : κ → Option β} (content : List (κ × ν)) (d : Dict κ ν)
    (h : ∀ e ∈ content, F e.1 = some (g e.2)) :
    ((content.foldl (fun d e => set d e.1 e.2) d).lookup k).map g =
      if k ∈ content.map Prod.fst then F k else (d.lookup k).map g := by
  induction content generalizing d with
  | nil => simp
  | cons e content ih =>
    have he := h e List.mem_cons_self
    rw [List.foldl_cons, ih _ fun e' he' => h e' (List.mem_cons_of_mem _ he'), lookup_set]
    by_cases hmem : k ∈ content.map Prod.fst
    · rw [if_pos hmem, if_pos (by rw [List.map_cons]; exact List.mem_cons_of_mem _ hmem)]
    · rw [if_neg hmem]
      by_cases hk : k = e.1
      · rw [if_pos hk, if_pos (by rw [List.map_cons, hk]; exact List.mem_cons_self), hk, he]
        rfl
      · rw [if_neg hk, if_neg (by rw [List.map_cons, List.mem_cons]; tauto)]

variable {content : List (κ × ν)}

/-- An entry of a dictionary that was built from pairs is one of them. -/
lemma mem_of_lookup_ofItems {v : ν} (h : (ofItems content).lookup k = some v) : (k, v) ∈ content := by
  have hmem : ∀ (content : List (κ × ν)) (d : Dict κ ν),
      (content.foldl (fun d e => set d e.1 e.2) d).lookup k = some v →
      (k, v) ∈ content ∨ d.lookup k = some v := by
    intro content
    induction content with
    | nil => exact fun d h => .inr h
    | cons e content ih =>
      intro d h
      rcases ih _ h with h | h
      · exact .inl (List.mem_cons_of_mem _ h)
      · rw [lookup_set] at h
        split at h
        · rename_i hk
          rw [hk, ← Option.some.inj h]
          exact .inl List.mem_cons_self
        · exact .inr h
  rcases hmem content ∅ h with h | h
  · exact h
  · rw [AList.lookup_empty] at h
    cases h

lemma lookup_ofItems_eq_none : (ofItems content).lookup k = none ↔ k ∉ content.map Prod.fst := by
  have h := map_lookup_foldl_set (g := fun _ => ()) (F := fun _ => some ()) (k := k) content
    (∅ : Dict κ ν) fun _ _ => rfl
  rw [← ofItems, AList.lookup_empty, Option.map_none] at h
  by_cases hk : k ∈ content.map Prod.fst
  · rw [if_pos hk, Option.map_eq_some_iff] at h
    obtain ⟨v, hv, -⟩ := h
    simp [hv, hk]
  · rw [if_neg hk, Option.map_eq_none_iff] at h
    simp [h, hk]

omit [DecidableEq κ] in
lemma nodup_items (d : Dict κ ν) : (d.items.map Prod.fst).Nodup := by
  have h : d.items.map Prod.fst = d.keys := by
    simp only [items, List.map_map]
    rfl
  rw [h]
  exact d.keys_nodup

lemma lookup_eq_find?_items (d : Dict κ ν) (k : κ) :
    d.lookup k = (d.items.find? (fun e => e.1 = k)).map Prod.snd := by
  obtain ⟨entries, hd⟩ := d
  show List.dlookup k entries = _
  simp only [items]
  clear hd
  induction entries with
  | nil => rfl
  | cons e entries ih =>
    obtain ⟨k', v⟩ := e
    by_cases hk : k' = k
    · subst hk
      simp [List.dlookup_cons_eq]
    · rw [List.dlookup_cons_ne _ _ (Ne.symm hk), ih]
      simp [hk]

lemma lookup_ofItems_items (d : Dict κ ν) (k : κ) : (ofItems d.items).lookup k = d.lookup k := by
  rw [ofItems, lookup_foldl_set _ _ d.nodup_items, ← lookup_eq_find?_items]
  simp

lemma mem_items_iff {d : Dict κ ν} {v : ν} : (k, v) ∈ d.items ↔ d.lookup k = some v := by
  rw [← Option.mem_def, AList.mem_lookup_iff, items, List.mem_map]
  constructor
  · rintro ⟨⟨k', v'⟩, he, heq⟩
    obtain ⟨rfl, rfl⟩ := Prod.mk.inj heq
    exact he
  · intro h
    exact ⟨⟨k, v⟩, h, rfl⟩

lemma length_keys_foldl_set (content : List (κ × ν)) (d : Dict κ ν)
    (h : (content.map Prod.fst).Nodup) (hnew : ∀ e ∈ content, e.1 ∉ d) :
    (content.foldl (fun d e => set d e.1 e.2) d).keys.length = content.length + d.keys.length := by
  induction content generalizing d with
  | nil => simp
  | cons e content ih =>
    rw [List.map_cons, List.nodup_cons] at h
    have hkeys : (set d e.1 e.2).keys.length = d.keys.length + 1 := by
      show ((AList.insert e.1 e.2 d).entries.map Sigma.fst).length = _
      rw [AList.entries_insert_of_notMem (hnew e List.mem_cons_self)]
      simp [AList.keys, List.keys]
    rw [List.foldl_cons, ih _ h.2, hkeys, List.length_cons]
    · omega
    · intro e' he' hmem
      rw [set, AList.mem_insert] at hmem
      rcases hmem with heq | hmem
      · exact h.1 (heq ▸ List.mem_map_of_mem he')
      · exact hnew e' (List.mem_cons_of_mem _ he') hmem

end Dict
