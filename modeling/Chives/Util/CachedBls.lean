import Mathlib.Data.Set.Function
import Chives.Util.LruCache
import Chives.Util.StructStream

set_option autoImplicit false

/-!
# Signatures with cached pairings

`util/cached_bls.py`: an aggregated signature is verified with pairings that are kept in an `LRUCache` under the hash
of the public key and the message. If too many of them are missing, the verification of `blspy` is used instead.

## Main definitions

* `Blspy` — the functions of `blspy`, with `Blspy.Lawful` for what is relied on.
* `Blspy.getPairings`, `Blspy.aggregateVerify` — the functions of the module.
* `Blspy.CacheOk` — each entry of a cache is the pairing of a key with its message.

## Main results

* `Blspy.getPairings_cases` — the pairings are those of the keys, or there are none, or a key is invalid.
* `Blspy.aggregateVerify_agrees` — the cache never changes a verdict.

## Design

The functions of `blspy` and the hash are parameters. No hash of byte strings into 32 bytes is injective, so that the
hash does not collide is assumed of the messages that were ever hashed. A run that raises rejects the signature, and so
does one that returns `False`.
-/

namespace Chives

open ExceptRun

/-- `bytes48`. -/
structure Bytes48 where
  bytes : Bytes
  length_eq : bytes.length = 48
  deriving DecidableEq

/-- What is used of `blspy`, and the hash: elements of the three groups, made from byte strings with the check of the
subgroup or without it. -/
structure Blspy (G1 G2 GT η : Type) where
  fromBytes : Bytes48 → Except PyError G1
  fromBytesUnchecked : Bytes48 → Except PyError G1
  generator : G1
  pair : G1 → G2 → GT
  mul : GT → GT → GT
  g2FromMessage : Bytes → G2
  augAggregateVerify : List G1 → List Bytes → G2 → Bool
  stdHash : Bytes → η

namespace Blspy

variable {G1 G2 GT η : Type} (B : Blspy G1 G2 GT η)

/-- `functools.reduce(GTElement.__mul__, l)`. -/
def reduceMul : List GT → Except PyError GT
  | [] => .error .typeError
  | x :: l => .ok (l.foldl B.mul x)

/-- `AugSchemeMPL.aggregate_verify` on keys that are made without the check of the subgroup. -/
def verifyUncached (pairs : List (Bytes48 × Bytes)) (sig : G2) : Except PyError Bool := do
  let pksObjects ← (pairs.map Prod.fst).mapM B.fromBytesUnchecked
  return B.augAggregateVerify pksObjects (pairs.map Prod.snd) sig

/-- `pk + msg`. -/
def augMsg (p : Bytes48 × Bytes) : Bytes := p.1.bytes ++ p.2

/-- The pairing of a key with its message. -/
def pairing (g : G1) (p : Bytes48 × Bytes) : GT := B.pair g (B.g2FromMessage (augMsg p))

section Functions

variable [DecidableEq η] [DecidableEq GT]

/-- A pairing is missing, and counts. -/
def isMissing (forceCache : Bool) (pairing : Option GT) : Bool := !forceCache && pairing.isNone

/-- The first loop of `get_pairings`: the pairings that are in the cache. There is no list if more than half of the
`total` keys are missing, unless `force_cache` is set. -/
def lookUp (forceCache : Bool) (total : ℕ) : List (Bytes48 × Bytes) → ℕ → LRUCache η GT →
    Option (List (Option GT)) × LRUCache η GT
  | [], _, cache => (some [], cache)
  | p :: pairs, missingCount, cache =>
    let (pairing, cache) := cache.get (B.stdHash (augMsg p))
    let missingCount := missingCount + (isMissing forceCache pairing).toNat
    if isMissing forceCache pairing && decide (total / 2 < missingCount) then (none, cache)
    else
      match lookUp forceCache total pairs missingCount cache with
      | (some pairings, cache) => (some (pairing :: pairings), cache)
      | (none, cache) => (none, cache)

/-- `pk_bytes_to_g1.get(pk)`, or the key that is made from its bytes and kept there. -/
def parseKey (known : OrderedDict Bytes48 G1) (pk : Bytes48) : Except PyError (G1 × OrderedDict Bytes48 G1) :=
  match known.get? pk with
  | some g => .ok (g, known)
  | none => (B.fromBytes pk).map fun g => (g, known.set pk g)

/-- The second loop of `get_pairings`: the pairings that are missing are computed and put into the cache. -/
def fillIn : List ((Bytes48 × Bytes) × Option GT) → OrderedDict Bytes48 G1 → LRUCache η GT →
    Except PyError (List GT) × LRUCache η GT
  | [], _, cache => (.ok [], cache)
  | (_, some x) :: entries, known, cache =>
    match fillIn entries known cache with
    | (.ok pairings, cache) => (.ok (x :: pairings), cache)
    | (.error e, cache) => (.error e, cache)
  | (p, none) :: entries, known, cache =>
    match B.parseKey known p.1 with
    | .error e => (.error e, cache)
    | .ok (g, known) =>
      match fillIn entries known (cache.put (B.stdHash (augMsg p)) (B.pairing g p)) with
      | (.ok pairings, cache) => (.ok (B.pairing g p :: pairings), cache)
      | (.error e, cache) => (.error e, cache)

/-- `get_pairings`. -/
def getPairings (cache : LRUCache η GT) (pairs : List (Bytes48 × Bytes)) (forceCache : Bool) :
    Except PyError (List GT) × LRUCache η GT :=
  match B.lookUp forceCache pairs.length pairs 0 cache with
  | (none, cache) => (.ok [], cache)
  | (some pairings, cache) => B.fillIn (pairs.zip pairings) .empty cache

/-- `aggregate_verify`. -/
def aggregateVerify (pairs : List (Bytes48 × Bytes)) (sig : G2) (forceCache : Bool) (cache : LRUCache η GT) :
    Except PyError Bool × LRUCache η GT :=
  match B.getPairings cache pairs forceCache with
  | (.error e, cache) => (.error e, cache)
  | (.ok pairings, cache) =>
    if pairings.length = 0 then (B.verifyUncached pairs sig, cache)
    else ((B.reduceMul pairings).map fun prod => decide (prod = B.pair B.generator sig), cache)

end Functions

/-- What is relied on: a valid key is the same without the check, the verification on valid keys compares the product
of the pairings, and it fails on an invalid one. -/
structure Lawful : Prop where
  unchecked : ∀ pk g, B.fromBytes pk = .ok g → B.fromBytesUnchecked pk = .ok g
  verify_valid : ∀ (pairs : List (Bytes48 × Bytes)) (gs : List G1) (sig : G2), pairs ≠ [] →
    (pairs.map Prod.fst).mapM B.fromBytes = .ok gs →
    (B.augAggregateVerify gs (pairs.map Prod.snd) sig = true ↔
      B.reduceMul (List.zipWith B.pairing gs pairs) = .ok (B.pair B.generator sig))
  verify_invalid : ∀ (pairs : List (Bytes48 × Bytes)) (gs : List G1) (sig : G2),
    (∃ p ∈ pairs, ∃ e, B.fromBytes p.1 = .error e) → (pairs.map Prod.fst).mapM B.fromBytesUnchecked = .ok gs →
    B.augAggregateVerify gs (pairs.map Prod.snd) sig = false

/-- A value is the pairing of a valid key with its message. -/
def PairOk (p : Bytes48 × Bytes) (x : GT) : Prop := ∃ g, B.fromBytes p.1 = .ok g ∧ x = B.pairing g p

/-- A signature is accepted: the run returns `True`. -/
def accepted : Except PyError Bool → Bool
  | .ok b => b
  | .error _ => false

lemma augMsg_injective : Function.Injective augMsg := by
  rintro ⟨pk, msg⟩ ⟨pk', msg'⟩ h
  obtain ⟨hpk, rfl⟩ := List.append_inj h (pk.length_eq.trans pk'.length_eq.symm)
  cases pk
  cases pk'
  cases hpk
  rfl

/-- The keys that were made are made from their bytes. -/
def KnownOk (known : OrderedDict Bytes48 G1) : Prop :=
  ∀ pk g, known.get? pk = some g → B.fromBytes pk = .ok g

lemma parseKey_spec {B : Blspy G1 G2 GT η} {known : OrderedDict Bytes48 G1} (hknown : B.KnownOk known) (pk : Bytes48) :
    (∃ g known', B.parseKey known pk = .ok (g, known') ∧ B.fromBytes pk = .ok g ∧ B.KnownOk known') ∨
      ∃ e, B.parseKey known pk = .error e ∧ B.fromBytes pk = .error e := by
  unfold parseKey
  cases hg : known.get? pk with
  | some g => exact .inl ⟨g, known, rfl, hknown pk g hg, hknown⟩
  | none =>
    cases hparse : B.fromBytes pk with
    | error e => exact .inr ⟨e, rfl, rfl⟩
    | ok g =>
      refine .inl ⟨g, _, rfl, rfl, fun pk' g' hg' => ?_⟩
      rw [OrderedDict.get?_set] at hg'
      split at hg'
      · rename_i heq
        rw [heq, hparse, Option.some.inj hg']
      · exact hknown pk' g' hg'

section Keys

variable {B} {pairs : List (Bytes48 × Bytes)}

lemma exists_keys {l : List GT} (h : List.Forall₂ B.PairOk pairs l) :
    ∃ gs, (pairs.map Prod.fst).mapM B.fromBytes = .ok gs ∧ l = List.zipWith B.pairing gs pairs := by
  induction h with
  | nil => exact ⟨[], rfl, rfl⟩
  | @cons p x pairs l hfirst _ ih =>
    obtain ⟨g, hg, rfl⟩ := hfirst
    obtain ⟨gs, hgs, rfl⟩ := ih
    exact ⟨g :: gs, by simp [hg, hgs], rfl⟩

lemma Lawful.mapM_unchecked (hB : B.Lawful) {pks : List Bytes48} {gs : List G1} (h : pks.mapM B.fromBytes = .ok gs) :
    pks.mapM B.fromBytesUnchecked = .ok gs := by
  induction pks generalizing gs with
  | nil => exact h
  | cons pk pks ih =>
    rw [List.mapM_cons] at h
    obtain ⟨g, hg, h⟩ := bind_eq_ok.mp h
    obtain ⟨gs', hgs, h⟩ := bind_eq_ok.mp h
    rw [List.mapM_cons, hB.unchecked pk g hg, ok_bind, ih hgs, ok_bind]
    exact h

lemma Lawful.accepted_verifyUncached_of_invalid (hB : B.Lawful) {p : Bytes48 × Bytes} (hp : p ∈ pairs) {e : PyError}
    (he : B.fromBytes p.1 = .error e) (sig : G2) : accepted (B.verifyUncached pairs sig) = false := by
  unfold verifyUncached
  cases hgs : (pairs.map Prod.fst).mapM B.fromBytesUnchecked with
  | error e => rfl
  | ok gs => exact hB.verify_invalid pairs gs sig ⟨p, hp, e, he⟩ hgs

end Keys

section Cache

variable [DecidableEq η] {B}

/-- Each entry of the cache is the pairing of a valid key with its message, under the hash of both. The messages are
among those of a set. -/
def CacheOk (B : Blspy G1 G2 GT η) (S : Set Bytes) (c : LRUCache η GT) : Prop :=
  ∀ k x, c.cache.get? k = some x → ∃ p, augMsg p ∈ S ∧ k = B.stdHash (augMsg p) ∧ B.PairOk p x

variable {S : Set Bytes} {c : LRUCache η GT} {pairs : List (Bytes48 × Bytes)}

lemma cacheOk_new (n : ℕ) : B.CacheOk S (LRUCache.new n) := by
  intro k x h
  cases h

lemma CacheOk.get (h : B.CacheOk S c) (k : η) : B.CacheOk S (c.get k).2 := by
  intro k' x hx
  rw [LRUCache.get?_get] at hx
  exact h k' x hx

lemma CacheOk.put (h : B.CacheOk S c) {p : Bytes48 × Bytes} {x : GT} (hp : augMsg p ∈ S) (hx : B.PairOk p x) :
    B.CacheOk S (c.put (B.stdHash (augMsg p)) x) := by
  intro k y hy
  rcases LRUCache.of_get?_put hy with ⟨rfl, rfl⟩ | hold
  · exact ⟨p, hp, rfl, hx⟩
  · exact h k y hold

lemma CacheOk.pairOk (h : B.CacheOk S c) (hinj : S.InjOn B.stdHash) {p : Bytes48 × Bytes} (hp : augMsg p ∈ S) {x : GT}
    (hx : c.cache.get? (B.stdHash (augMsg p)) = some x) : B.PairOk p x := by
  obtain ⟨q, hq, hhash, hpair⟩ := h _ x hx
  have heq : p = q := augMsg_injective (hinj hp hq hhash)
  rwa [heq]

lemma lookUp_spec (hinj : S.InjOn B.stdHash) (forceCache : Bool) (total : ℕ) (hpairs : ∀ p ∈ pairs, augMsg p ∈ S) :
    ∀ (missing : ℕ) {c : LRUCache η GT}, B.CacheOk S c →
      B.CacheOk S (B.lookUp forceCache total pairs missing c).2 ∧
        ∀ found, (B.lookUp forceCache total pairs missing c).1 = some found →
          List.Forall₂ (fun p o => ∀ x, o = some x → B.PairOk p x) pairs found := by
  induction pairs with
  | nil =>
    intro missing c hc
    refine ⟨hc, fun found hfound => ?_⟩
    rw [← Option.some.inj hfound]
    exact .nil
  | cons p pairs ih =>
    intro missing c hc
    have hrest := ih fun q hq => hpairs q (List.mem_cons_of_mem p hq)
    have hfirst : ∀ x, (c.get (B.stdHash (augMsg p))).1 = some x → B.PairOk p x := fun x hx =>
      hc.pairOk hinj (hpairs p List.mem_cons_self) hx
    have hget := hc.get (B.stdHash (augMsg p))
    unfold lookUp
    dsimp only
    split
    · exact ⟨hget, fun found hfound => by cases hfound⟩
    · obtain ⟨hcache, hfound⟩ := hrest (missing + (isMissing forceCache (c.get (B.stdHash (augMsg p))).1).toNat) hget
      generalize B.lookUp forceCache total pairs _ (c.get (B.stdHash (augMsg p))).2 = result at hcache hfound
      obtain ⟨_ | found, cache⟩ := result
      · exact ⟨hcache, fun found hnone => by cases hnone⟩
      · refine ⟨hcache, fun found' hsome => ?_⟩
        rw [← Option.some.inj hsome]
        exact .cons hfirst (hfound found rfl)

/-- The second loop computes the pairings that are missing, or comes to an invalid key.

**Proof sketch.** Induction on the list. A key that has a pairing is valid, and one that has none is made from its
bytes. -/
lemma fillIn_spec {entries : List ((Bytes48 × Bytes) × Option GT)} (hS : ∀ e ∈ entries, augMsg e.1 ∈ S)
    (hfound : ∀ e ∈ entries, ∀ x, e.2 = some x → B.PairOk e.1 x) :
    ∀ {known : OrderedDict Bytes48 G1} {c : LRUCache η GT}, B.KnownOk known → B.CacheOk S c →
      B.CacheOk S (B.fillIn entries known c).2 ∧
        ((∃ l, (B.fillIn entries known c).1 = .ok l ∧ List.Forall₂ (fun e x => B.PairOk e.1 x) entries l) ∨
          ∃ e, (B.fillIn entries known c).1 = .error e ∧ ∃ entry ∈ entries, B.fromBytes entry.1.1 = .error e) := by
  induction entries with
  | nil =>
    intro known c _ hc
    exact ⟨hc, .inl ⟨[], rfl, .nil⟩⟩
  | cons entry entries ih =>
    intro known c hknown hc
    have hrest := @ih (fun e he => hS e (List.mem_cons_of_mem _ he)) fun e he => hfound e (List.mem_cons_of_mem _ he)
    obtain ⟨p, _ | x⟩ := entry
    · have hp : augMsg p ∈ S := hS _ List.mem_cons_self
      unfold fillIn
      rcases B.parseKey_spec hknown p.1 with ⟨g, known', hkey, hparse, hknown'⟩ | ⟨e, hkey, hparse⟩
      · rw [hkey]
        dsimp only
        have hpair : B.PairOk p (B.pairing g p) := ⟨g, hparse, rfl⟩
        obtain ⟨hcache, hresult⟩ := hrest hknown' (hc.put hp hpair)
        generalize B.fillIn entries known' (c.put (B.stdHash (augMsg p)) (B.pairing g p)) = result at hcache hresult
        obtain ⟨e | l, cache⟩ := result
        · obtain ⟨l, hl, -⟩ | ⟨e', he, entry, hentry, hparse'⟩ := hresult
          · cases hl
          · exact ⟨hcache, .inr ⟨e', he, entry, List.mem_cons_of_mem _ hentry, hparse'⟩⟩
        · obtain ⟨l', hl, hall⟩ | ⟨e', he, -⟩ := hresult
          · exact ⟨hcache, .inl ⟨_, rfl, .cons hpair (by rwa [Except.ok.inj hl])⟩⟩
          · cases he
      · rw [hkey]
        exact ⟨hc, .inr ⟨e, rfl, _, List.mem_cons_self, hparse⟩⟩
    · unfold fillIn
      obtain ⟨hcache, hresult⟩ := hrest hknown hc
      have hpair := hfound _ List.mem_cons_self x rfl
      generalize B.fillIn entries known c = result at hcache hresult
      obtain ⟨e | l, cache⟩ := result
      · obtain ⟨l, hl, -⟩ | ⟨e', he, entry, hentry, hparse⟩ := hresult
        · cases hl
        · exact ⟨hcache, .inr ⟨e', he, entry, List.mem_cons_of_mem _ hentry, hparse⟩⟩
      · obtain ⟨l', hl, hall⟩ | ⟨e', he, -⟩ := hresult
        · exact ⟨hcache, .inl ⟨_, rfl, .cons hpair (by rwa [Except.ok.inj hl])⟩⟩
        · cases he

/-- **What `get_pairings` returns**: no pairings at all, the pairings of the keys, which are all valid, or what the
constructor of an invalid key raises. The cache stays as it should be. -/
theorem getPairings_cases (hinj : S.InjOn B.stdHash) (hc : B.CacheOk S c) (hpairs : ∀ p ∈ pairs, augMsg p ∈ S)
    (forceCache : Bool) :
    B.CacheOk S (B.getPairings c pairs forceCache).2 ∧
      ((B.getPairings c pairs forceCache).1 = .ok [] ∨
        (∃ l, (B.getPairings c pairs forceCache).1 = .ok l ∧ List.Forall₂ B.PairOk pairs l) ∨
        ∃ e, (B.getPairings c pairs forceCache).1 = .error e ∧ ∃ p ∈ pairs, B.fromBytes p.1 = .error e) := by
  obtain ⟨hcache, hfound⟩ := lookUp_spec hinj forceCache pairs.length hpairs 0 hc
  unfold getPairings
  generalize B.lookUp forceCache pairs.length pairs 0 c = result at hcache hfound
  obtain ⟨_ | found, cache⟩ := result
  · exact ⟨hcache, .inl rfl⟩
  · have hfound := hfound found rfl
    have hlen := hfound.length_eq
    have hmem : ∀ e ∈ pairs.zip found, e.1 ∈ pairs := fun e he => (List.of_mem_zip he).1
    have hzip : ∀ e ∈ pairs.zip found, ∀ x, e.2 = some x → B.PairOk e.1 x := by
      intro e he
      exact List.forall₂_iff_zip.mp hfound |>.2 he
    have hknown : B.KnownOk OrderedDict.empty := by
      intro pk g hg
      cases hg
    obtain ⟨hcache', hresult⟩ := fillIn_spec (fun e he => hpairs e.1 (hmem e he)) hzip hknown hcache
    refine ⟨hcache', ?_⟩
    rcases hresult with ⟨l, hl, hall⟩ | ⟨e, he, entry, hentry, hparse⟩
    · refine .inr (.inl ⟨l, hl, ?_⟩)
      have hfst : (pairs.zip found).map Prod.fst = pairs := List.map_fst_zip hlen.le
      rw [← hfst, List.forall₂_map_left_iff]
      exact hall
    · exact .inr (.inr ⟨e, he, entry.1, hmem entry hentry, hparse⟩)

variable [DecidableEq GT]

/-- What `aggregate_verify` does with a cache, against the verification without one: it does the same, or it raises what
the constructor of an invalid key raises, where the other one rejects. -/
lemma Lawful.aggregateVerify_cases (hB : B.Lawful) (hinj : S.InjOn B.stdHash) (hc : B.CacheOk S c)
    (hpairs : ∀ p ∈ pairs, augMsg p ∈ S) (sig : G2) (forceCache : Bool) :
    B.CacheOk S (B.aggregateVerify pairs sig forceCache c).2 ∧
      ((B.aggregateVerify pairs sig forceCache c).1 = B.verifyUncached pairs sig ∨
        ∃ e, (B.aggregateVerify pairs sig forceCache c).1 = .error e ∧ (∃ p ∈ pairs, B.fromBytes p.1 = .error e) ∧
          accepted (B.verifyUncached pairs sig) = false) := by
  obtain ⟨hcache, hresult⟩ := getPairings_cases hinj hc hpairs forceCache
  unfold aggregateVerify
  generalize B.getPairings c pairs forceCache = result at hcache hresult
  obtain ⟨r, cache⟩ := result
  obtain rfl | ⟨l, rfl, hall⟩ | ⟨e, rfl, p, hp, he⟩ := hresult
  · exact ⟨hcache, .inl rfl⟩
  · by_cases hnil : l.length = 0
    · dsimp only
      rw [if_pos hnil]
      exact ⟨hcache, .inl rfl⟩
    obtain ⟨gs, hgs, rfl⟩ := exists_keys hall
    have hpairs' : pairs ≠ [] := by
      rintro rfl
      simp at hnil
    have hverify := hB.verify_valid pairs gs sig hpairs' hgs
    have hdirect : B.verifyUncached pairs sig = .ok (B.augAggregateVerify gs (pairs.map Prod.snd) sig) := by
      unfold verifyUncached
      rw [hB.mapM_unchecked hgs, ok_bind]
      rfl
    obtain ⟨prod, hprod⟩ : ∃ prod, B.reduceMul (List.zipWith B.pairing gs pairs) = .ok prod := by
      cases hl : List.zipWith B.pairing gs pairs with
      | nil => simp [hl] at hnil
      | cons x l => exact ⟨_, rfl⟩
    have hsame : decide (prod = B.pair B.generator sig) = B.augAggregateVerify gs (pairs.map Prod.snd) sig := by
      rw [Bool.eq_iff_iff, hverify, hprod]
      simp
    dsimp only
    rw [if_neg hnil]
    refine ⟨hcache, .inl ?_⟩
    rw [hprod, hdirect, Except.map, hsame]
  · exact ⟨hcache, .inr ⟨e, rfl, ⟨p, hp, he⟩, hB.accepted_verifyUncached_of_invalid hp he sig⟩⟩

/-- **The cache never changes a verdict.** With pairings of keys and messages in the cache, a signature is accepted
exactly if it is with an empty cache, and exactly if the verification of `blspy` accepts it. If all keys are valid, the
run returns what that verification returns. The cache keeps pairings of keys and messages.

**Proof sketch.** A key whose pairing is in the cache is valid, so that an invalid one is made from its bytes, which
raises, unless the verification of `blspy` is used, which rejects it. -/
theorem aggregateVerify_agrees (hB : B.Lawful) (hinj : S.InjOn B.stdHash) (hc : B.CacheOk S c)
    (hpairs : ∀ p ∈ pairs, augMsg p ∈ S) (sig : G2) (forceCache : Bool) (n : ℕ) :
    accepted (B.aggregateVerify pairs sig forceCache c).1 =
        accepted (B.aggregateVerify pairs sig forceCache (LRUCache.new n)).1 ∧
      accepted (B.aggregateVerify pairs sig forceCache c).1 = accepted (B.verifyUncached pairs sig) ∧
      ((∀ p ∈ pairs, ∃ g, B.fromBytes p.1 = .ok g) →
        (B.aggregateVerify pairs sig forceCache c).1 = B.verifyUncached pairs sig) ∧
      B.CacheOk S (B.aggregateVerify pairs sig forceCache c).2 := by
  have hverdict : ∀ {c : LRUCache η GT}, B.CacheOk S c →
      accepted (B.aggregateVerify pairs sig forceCache c).1 = accepted (B.verifyUncached pairs sig) := by
    intro c hc
    rcases (hB.aggregateVerify_cases hinj hc hpairs sig forceCache).2 with h | ⟨e, h, -, hfalse⟩
    · rw [h]
    · rw [h, hfalse]
      rfl
  obtain ⟨hcache, hresult⟩ := hB.aggregateVerify_cases hinj hc hpairs sig forceCache
  refine ⟨(hverdict hc).trans (hverdict (cacheOk_new n)).symm, hverdict hc, fun hvalid => ?_, hcache⟩
  rcases hresult with h | ⟨e, -, ⟨p, hp, he⟩, -⟩
  · exact h
  · obtain ⟨g, hg⟩ := hvalid p hp
    rw [hg] at he
    cases he

/-- A call of `aggregate_verify`. -/
structure VerifyCall (G2 : Type) where
  pairs : List (Bytes48 × Bytes)
  sig : G2
  forceCache : Bool

/-- The cache after calls. -/
def cacheAfter (B : Blspy G1 G2 GT η) (calls : List (VerifyCall G2)) (c : LRUCache η GT) : LRUCache η GT :=
  calls.foldl (fun c call => (B.aggregateVerify call.pairs call.sig call.forceCache c).2) c

theorem cacheOk_cacheAfter (hB : B.Lawful) (hinj : S.InjOn B.stdHash) {calls : List (VerifyCall G2)}
    (hcalls : ∀ call ∈ calls, ∀ p ∈ call.pairs, augMsg p ∈ S) (hc : B.CacheOk S c) :
    B.CacheOk S (B.cacheAfter calls c) := by
  induction calls generalizing c with
  | nil => exact hc
  | cons call calls ih =>
    have hfirst := hcalls call List.mem_cons_self
    exact ih (fun other hother => hcalls other (List.mem_cons_of_mem _ hother))
      (hB.aggregateVerify_cases hinj hc hfirst call.sig call.forceCache).1

end Cache

end Blspy

/-! ## A small group -/

namespace BlspySample

/-- A key whose first byte is its number, and valid below 128. -/
def key (b : UInt8) : Bytes48 := ⟨b :: List.replicate 47 0, rfl⟩

/-- The number of a key. -/
def number (pk : Bytes48) : ℕ := pk.bytes.headD 0 |>.toNat

/-- Numbers as groups, with the product as the pairing. -/
def numbers : Blspy Bytes48 ℕ ℕ Bytes where
  fromBytes pk := if number pk < 128 then .ok pk else .error .valueError
  fromBytesUnchecked pk := .ok pk
  generator := key 1
  pair pk q := number pk * q
  mul := (· + ·)
  g2FromMessage msg := (msg.map UInt8.toNat).sum
  augAggregateVerify pks msgs sig :=
    decide (∀ pk ∈ pks, number pk < 128) &&
      decide (((List.zipWith (fun pk msg => number pk * ((pk.bytes ++ msg).map UInt8.toNat).sum) pks msgs).sum) = sig)
  stdHash := id

lemma fromBytes_eq_ok {pk g : Bytes48} : numbers.fromBytes pk = .ok g ↔ number pk < 128 ∧ pk = g := by
  show (if number pk < 128 then Except.ok pk else Except.error PyError.valueError) = .ok g ↔ _
  by_cases h : number pk < 128
  · simp [h]
  · simp [h]

lemma mapM_fromBytes {pks gs : List Bytes48} (h : pks.mapM numbers.fromBytes = .ok gs) :
    gs = pks ∧ ∀ pk ∈ pks, number pk < 128 := by
  induction pks generalizing gs with
  | nil => simpa using (Except.ok.inj h).symm
  | cons pk pks ih =>
    rw [List.mapM_cons] at h
    obtain ⟨g, hg, h⟩ := bind_eq_ok.mp h
    obtain ⟨gs', hgs, h⟩ := bind_eq_ok.mp h
    obtain ⟨hgs, hall⟩ := ih hgs
    obtain ⟨hlt, rfl⟩ := fromBytes_eq_ok.mp hg
    rw [hgs] at h
    exact ⟨(Except.ok.inj h).symm, by simpa using ⟨hlt, hall⟩⟩

lemma mapM_fromBytesUnchecked (pks : List Bytes48) : pks.mapM numbers.fromBytesUnchecked = .ok pks := by
  induction pks with
  | nil => rfl
  | cons pk pks ih =>
    rw [List.mapM_cons, ih]
    rfl

/-- The numbers do what is relied on. -/
lemma lawful_numbers : numbers.Lawful where
  unchecked pk g h := by
    rw [(fromBytes_eq_ok.mp h).2]
    rfl
  verify_valid pairs gs sig hne h := by
    obtain ⟨rfl, hall⟩ := mapM_fromBytes h
    have hvalid : ∀ pk ∈ pairs.map Prod.fst, number pk < 128 := hall
    have hzip : List.zipWith numbers.pairing (pairs.map Prod.fst) pairs =
        pairs.map fun p => number p.1 * ((p.1.bytes ++ p.2).map UInt8.toNat).sum := by
      rw [List.zipWith_map_left, List.zipWith_self]
      rfl
    have hmsgs : List.zipWith (fun (pk : Bytes48) (msg : Bytes) => number pk * ((pk.bytes ++ msg).map UInt8.toNat).sum)
        (pairs.map Prod.fst) (pairs.map Prod.snd) =
        pairs.map fun p => number p.1 * ((p.1.bytes ++ p.2).map UInt8.toNat).sum := by
      rw [List.zipWith_map, List.zipWith_self]
    have hsig : numbers.pair numbers.generator sig = sig := by
      show number (key 1) * sig = sig
      rw [show number (key 1) = 1 from rfl, one_mul]
    have hreduce : numbers.reduceMul (List.zipWith numbers.pairing (pairs.map Prod.fst) pairs) =
        .ok (pairs.map fun p => number p.1 * ((p.1.bytes ++ p.2).map UInt8.toNat).sum).sum := by
      rw [hzip]
      cases pairs with
      | nil => exact absurd rfl hne
      | cons p pairs =>
        rw [List.sum_eq_foldl, List.map_cons, List.foldl_cons, zero_add]
        rfl
    rw [hreduce, hsig]
    show (decide (∀ pk ∈ pairs.map Prod.fst, number pk < 128) && decide (_ = sig)) = true ↔ _
    rw [hmsgs]
    simpa using fun _ => hvalid
  verify_invalid pairs gs sig h hgs := by
    obtain ⟨p, hp, e, he⟩ := h
    have hbad : ¬number p.1 < 128 := by
      intro hlt
      rw [fromBytes_eq_ok.mpr ⟨hlt, rfl⟩] at he
      cases he
    have hsame : gs = pairs.map Prod.fst := by
      rw [mapM_fromBytesUnchecked] at hgs
      exact (Except.ok.inj hgs).symm
    show (decide (∀ pk ∈ gs, number pk < 128) && _) = false
    rw [hsame, decide_eq_false (fun hall => hbad (hall p.1 (List.mem_map_of_mem hp))), Bool.false_and]

/-- Two valid keys and an invalid one, with messages. -/
def threePairs : List (Bytes48 × Bytes) := [(key 2, [5]), (key 3, [7]), (key 200, [1])]

/-- A cache that has the pairings of the valid keys. -/
def warmCache : LRUCache Bytes ℕ := (numbers.aggregateVerify (threePairs.take 2) 61 true (LRUCache.new 5)).2

lemma cacheOk_warmCache : numbers.CacheOk Set.univ warmCache :=
  (lawful_numbers.aggregateVerify_cases (Set.injOn_of_injective Function.injective_id) (Blspy.cacheOk_new 5)
    (fun _ _ => Set.mem_univ _) 61 true).1

end BlspySample

/-- Two of three pairings are in the cache and the third key is invalid: the run raises where it returns `False` with
an empty cache. -/
theorem Blspy.aggregateVerify_agrees_threePairs :
    (BlspySample.numbers.aggregateVerify BlspySample.threePairs 61 false BlspySample.warmCache).1 = .error .valueError ∧
      (BlspySample.numbers.aggregateVerify BlspySample.threePairs 61 false (LRUCache.new 5)).1 = .ok false ∧
      Blspy.accepted (BlspySample.numbers.aggregateVerify BlspySample.threePairs 61 false BlspySample.warmCache).1 =
        Blspy.accepted (BlspySample.numbers.verifyUncached BlspySample.threePairs 61) :=
  ⟨by decide +kernel, by decide +kernel,
    (Blspy.aggregateVerify_agrees BlspySample.lawful_numbers (Set.injOn_of_injective Function.injective_id)
      BlspySample.cacheOk_warmCache (fun _ _ => Set.mem_univ _) 61 false 5).2.1⟩

end Chives
