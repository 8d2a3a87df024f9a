import Chives.Library.OrderedDict

set_option autoImplicit false

/-!
# The cache of what was used last

`LRUCache` of `util/lru_cache.py`: a dictionary in the order of use, from which the entry that was used longest ago
goes when there are too many.

## Main definitions

* `LRUCache` — the class, with `LRUCache.get` and `LRUCache.put`.

## Main results

* `LRUCache.get?_get`, `LRUCache.of_get?_put` — what is in the cache after an operation.
-/

namespace Chives

/-- `LRUCache`. -/
structure LRUCache (κ ν : Type) where
  cache : OrderedDict κ ν
  capacity : ℕ

namespace LRUCache

variable {κ ν : Type}

/-- `LRUCache(capacity)`. -/
def new (capacity : ℕ) : LRUCache κ ν := ⟨.empty, capacity⟩

variable [DecidableEq κ]

/-- `self.cache.move_to_end(key)`, of a key that is there. -/
def moveToEnd (d : OrderedDict κ ν) (key : κ) : OrderedDict κ ν :=
  match d.get? key with
  | some value => (d.erase key).set key value
  | none => d

/-- `get`. -/
def get (c : LRUCache κ ν) (key : κ) : Option ν × LRUCache κ ν :=
  (c.cache.get? key, { c with cache := moveToEnd c.cache key })

/-- `popitem(last=False)`. -/
def popFirst (d : OrderedDict κ ν) : OrderedDict κ ν :=
  match d.popFirst with
  | some (_, d') => d'
  | none => d

/-- `put`. -/
def put (c : LRUCache κ ν) (key : κ) (value : ν) : LRUCache κ ν :=
  let d := moveToEnd (c.cache.set key value) key
  { c with cache := if c.capacity < d.entries.length then popFirst d else d }

variable {c : LRUCache κ ν} {d : OrderedDict κ ν} {k key : κ} {v value : ν}

@[simp]
lemma get?_moveToEnd (d : OrderedDict κ ν) (key k : κ) : (moveToEnd d key).get? k = d.get? k := by
  unfold moveToEnd
  cases h : d.get? key with
  | none => rfl
  | some value =>
    rw [OrderedDict.get?_set, OrderedDict.get?_erase]
    by_cases hk : k = key
    · simp [hk, h]
    · simp [hk]

@[simp]
lemma get?_get (c : LRUCache κ ν) (key k : κ) : (c.get key).2.cache.get? k = c.cache.get? k := by
  simp [get]

lemma of_get?_popFirst (h : (popFirst d).get? k = some v) : d.get? k = some v := by
  rw [OrderedDict.get?_eq_some] at h ⊢
  obtain ⟨entries, hnodup⟩ := d
  cases entries with
  | nil => exact h
  | cons e l => exact List.mem_cons_of_mem e h

lemma of_get?_put (h : (c.put key value).cache.get? k = some v) :
    (k = key ∧ v = value) ∨ c.cache.get? k = some v := by
  have hset : (moveToEnd (c.cache.set key value) key).get? k = some v := by
    unfold put at h
    dsimp only at h
    split at h
    · exact of_get?_popFirst h
    · exact h
  rw [get?_moveToEnd, OrderedDict.get?_set] at hset
  split at hset
  · rename_i hk
    exact .inl ⟨hk, (Option.some.inj hset).symm⟩
  · exact .inr hset

end LRUCache

end Chives
