import Chives.FullNode.BlockHeightMap

set_option autoImplicit false

/-!
# Recovering the height map from its cache files

`BlockHeightMap.create` starts from the files that an earlier `maybe_flush` wrote for the chain of
some block `Q` and loads backwards from the stored peak `P` until it meets a block whose hash and
summary are both in the cache. This file says what the loader leaves in the map, and from that,
for every tree of blocks, every `P` and `Q` in it and every choice of missing files, exactly when
the result is the map of the chain of `P`.

## Main definitions

* `BlockTree` — a tree of stored blocks; `BlockTree.toDb` its database.
* `BlockHeightMap.Recoverable` — the condition on the chains of `P` and `Q`.

## Main results

* `BlockHeightMap.loadBlocksFrom_eq_ok` — what `_load_blocks_from` does to the map.
* `BlockHeightMap.create_recovers_iff` — `create` gives the map of the peak's chain exactly
  under that condition.
* `BlockHeightMap.create_keeps_stale_summary` — a shorter peak keeps a summary above it.
-/

namespace Chives

open ExceptRun ParentTree

/-! ## Trees of stored blocks -/

/-- The parent pointers of stored blocks. -/
def rowLinks : Links Bytes32 BlockRow := ⟨BlockRow.headerHash, BlockRow.prevHash, BlockRow.height⟩

/-- A tree of stored blocks: header hashes are a primary key and every block above height 0 has
its parent, one height below. A height and its successor are `uint32`, and a summary is a byte
string whose length fits in `uint32`. -/
structure BlockTree where
  rows : List BlockRow
  keyed : Table.Keyed BlockRow.headerHash rows
  linked : ∀ r ∈ rows, r.height ≠ 0 →
    ∃ p ∈ rows, p.headerHash = r.prevHash ∧ r.height = p.height + 1
  height_lt : ∀ r ∈ rows, r.height + 1 < 2 ^ 32
  ses_lt : ∀ r ∈ rows, ∀ s, r.subEpochSummary = some s → s.length < 2 ^ 32

namespace BlockTree

variable {t : BlockTree}

/-- The block with a header hash. -/
def find (t : BlockTree) : Bytes32 → Option BlockRow := Table.find BlockRow.headerHash t.rows

variable {r : BlockRow}

lemma eq_of_hash_eq {r' : BlockRow} (hr : r ∈ t.rows) (hr' : r' ∈ t.rows) (h : r.headerHash = r'.headerHash) :
    r = r' :=
  t.keyed.eq_of_key_eq hr hr' h

lemma find_eq_some {hash : Bytes32} : t.find hash = some r ↔ r ∈ t.rows ∧ r.headerHash = hash :=
  t.keyed.find_eq_some

/-- The chain of a block: its ancestors from genesis on, and the block. -/
def Chain (t : BlockTree) (r : BlockRow) (l : List BlockRow) : Prop := Path rowLinks t.find r l

variable {x : BlockRow} {l : List BlockRow}

section

variable (hl : t.Chain r l)

include hl

lemma Chain.mem_rows (hr : r ∈ t.rows) (hx : x ∈ l) : x ∈ t.rows := by
  have hstored := Path.stored_of_stored (fun h => (find_eq_some.mp h).2) hl
    (find_eq_some.mpr ⟨hr, rfl⟩) x hx
  exact (find_eq_some.mp hstored).1

lemma Chain.getElem?_height (hx : x ∈ l) : l[x.height]? = some x :=
  Path.getElem?_height hl hx

lemma Chain.length_eq : l.length = r.height + 1 :=
  Path.length_eq hl

lemma Chain.height_eq {i : ℕ} (hx : l[i]? = some x) : x.height = i :=
  (Path.getElem hl hx).1

lemma Chain.mem_self : r ∈ l :=
  Path.mem_self hl

end

/-! ## Their databases -/

/-- The version 1 row of a block. -/
def rowV1 (peak r : BlockRow) : BlockRowV1 where
  headerHash := Hex.encode r.headerHash.bytes
  prevHash := Hex.encode r.prevHash.bytes
  height := r.height
  subEpochSummary := r.subEpochSummary
  isPeak := r.headerHash = peak.headerHash

/-- The database of the tree with a stored peak, in version 2 or version 1. -/
def toDb (t : BlockTree) (version2 : Bool) (peak : BlockRow) : BlockDb :=
  if version2 then .v2 (some peak.headerHash) t.rows else .v1 (t.rows.map (rowV1 peak))

lemma bytes32FromHex_encode (h : Bytes32) : bytes32FromHex (Hex.encode h.bytes) = .ok h := by
  simp [bytes32FromHex, Hex.decode_encode, Bytes32.new, h.length_eq]

lemma decode_rowV1 (peak r : BlockRow) : (rowV1 peak r).decode = .ok r := by
  simp [rowV1, BlockRowV1.decode, bytes32FromHex_encode]

lemma peakRow_toDb (version2 : Bool) {peak : BlockRow} (hp : peak ∈ t.rows) :
    (t.toDb version2 peak).peakRow = .ok (some peak) := by
  cases version2 with
  | true =>
    show Except.ok (t.find peak.headerHash) = _
    rw [find_eq_some.mpr ⟨hp, rfl⟩]
  | false =>
    have hfind : (t.rows.map (rowV1 peak)).find? (fun r => r.isPeak) = some (rowV1 peak peak) := by
      rw [List.find?_map]
      show (t.find peak.headerHash).map (rowV1 peak) = _
      rw [find_eq_some.mpr ⟨hp, rfl⟩, Option.map_some]
    show BlockDb.peakRow (.v1 (t.rows.map (rowV1 peak))) = _
    rw [BlockDb.peakRow, hfind]
    simp [decode_rowV1]

lemma rowsBetween_toDb (version2 : Bool) (peak : BlockRow) (lo hi : ℕ) :
    (t.toDb version2 peak).rowsBetween lo hi =
      .ok (t.rows.filter fun r => lo ≤ r.height ∧ r.height < hi) := by
  cases version2 with
  | true => rfl
  | false =>
    show ((t.rows.map (rowV1 peak)).filter _).mapM BlockRowV1.decode = _
    rw [List.filter_map]
    show ((t.rows.filter fun r => lo ≤ r.height ∧ r.height < hi).map (rowV1 peak)).mapM _ = _
    generalize (t.rows.filter fun r => lo ≤ r.height ∧ r.height < hi) = rows
    induction rows with
    | nil => rfl
    | cons r rows ih => simp [decode_rowV1, ih]

/-- The dictionary `ordered` finds the blocks between the two heights. -/
lemma lookup_orderedOf (lo hi : ℕ) (hr : r ∈ t.rows) (hlo : lo ≤ r.height) (hhi : r.height < hi) :
    (BlockHeightMap.orderedOf (t.rows.filter fun r => lo ≤ r.height ∧ r.height < hi)).lookup
      r.headerHash = some (r.height, r.prevHash, r.subEpochSummary) := by
  have hmem : r ∈ t.rows.filter fun r => lo ≤ r.height ∧ r.height < hi := by
    simp [hr, hlo, hhi]
  have hkeyed := t.keyed.sublist
    (List.filter_sublist (p := fun r => lo ≤ r.height ∧ r.height < hi) (l := t.rows))
  generalize t.rows.filter _ = rows at hmem hkeyed
  rw [BlockHeightMap.orderedOf, Dict.ofItems, Dict.lookup_foldl_set]
  · have hfind : rows.find? (fun x => x.headerHash = r.headerHash) = some r :=
      hkeyed.find_eq_some.mpr ⟨hmem, rfl⟩
    rw [List.find?_map]
    show (((rows.find? fun x => x.headerHash = r.headerHash).map _).map _).or _ = _
    rw [hfind]
    rfl
  · rw [List.map_map]
    exact hkeyed

end BlockTree

/-! ## The file of the summaries -/

namespace SesCache

/-- The entries of a dictionary can be streamed: heights and lengths fit in `uint32`, and so does
the number of heights. -/
def Fits (d : Dict ℕ Bytes) : Prop :=
  ∀ k v, d.lookup k = some v → k + 1 < 2 ^ 32 ∧ v.length < 2 ^ 32

/-- A dictionary whose heights fit has fewer than `2 ^ 32` items. -/
lemma Fits.length_items_lt {d : Dict ℕ Bytes} (hd : Fits d) : d.items.length < 2 ^ 32 := by
  have hsub : d.items.map Prod.fst ⊆ List.range (2 ^ 32 - 1) := by
    intro k hk
    obtain ⟨⟨k', v⟩, he, rfl⟩ := List.mem_map.mp hk
    have := (hd k' v (Dict.mem_items_iff.mp he)).1
    rw [List.mem_range]
    omega
  have hle := (d.nodup_items.subperm hsub).length_le
  rw [List.length_map, List.length_range] at hle
  omega

lemma contentOf_obj (content : List (ℕ × Bytes)) : contentOf (obj content) = .ok content := by
  rw [obj, contentOf]
  induction content with
  | nil => rfl
  | cons e content ih => simp [pairOf, ih]

lemma Fits.fromBytes_toBytes {d : Dict ℕ Bytes} (hd : Fits d) :
    ∃ b, toBytes d.items = .ok b ∧ fromBytes b = .ok d.items := by
  have htyped : ItemType.HasType Streamable.noExternalTypes NoSurrogate
      (.streamable "SesCache" fields) (obj d.items) := by
    simp only [ItemType.HasType, FieldType.HaveTypes, FieldType.HasType, fields, obj]
    refine ⟨_, rfl, _, _, rfl, ⟨_, rfl, by simpa using hd.length_items_lt, ?_⟩, rfl⟩
    intro w hw
    obtain ⟨⟨k, v⟩, he, rfl⟩ := List.mem_map.mp hw
    obtain ⟨hk, hv⟩ := hd k v (Dict.mem_items_iff.mp he)
    have hrange : SizedInt.InRange .uint32 (k : ℤ) := by
      rw [SizedInt.inRange_unsigned (c := .uint32) rfl]
      show 0 ≤ (k : ℤ) ∧ (k : ℤ) < 256 ^ 4
      omega
    exact ⟨_, rfl, _, _, rfl, ⟨_, rfl, hrange⟩, _, _, rfl, ⟨_, rfl, hv⟩, rfl⟩
  have htrip := (Streamable.lawful_item Streamable.noExternalTypes
    (.streamable "SesCache" fields)).decWhole_encode .assertionError htyped
  obtain ⟨b, hb, hback⟩ := bind_eq_ok.mp htrip
  refine ⟨b, hb, ?_⟩
  show (Streamable.fromBytes _ _ _ b >>= contentOf) = _
  rw [show Streamable.fromBytes _ _ _ b = _ from hback]
  exact contentOf_obj _

end SesCache

/-! ## The loader -/

namespace BlockHeightMap

variable {t : BlockTree} {P : BlockRow} {chain : List BlockRow} {m m₁ m₂ : BlockHeightMap}

/-- At height `h` the block of the chain has a summary, and the map has its hash and that summary:
there the loader stops. -/
def StopsAt (m : BlockHeightMap) (chain : List BlockRow) (h : ℕ) : Prop :=
  ∃ r s, chain[h]? = some r ∧ r.subEpochSummary = some s ∧ m.hashAt h = r.headerHash.bytes ∧
    m.subEpochSummaries.lookup h = some s

/-- `m₁` is `m` with the entries of the chain at the heights from `s` up to, but not including,
`top`. -/
structure LoadedFrom (chain : List BlockRow) (s top : ℕ) (m m₁ : BlockHeightMap) : Prop where
  length_eq : m₁.heightToHash.length = m.heightToHash.length
  hash : ∀ h r, chain[h]? = some r → s ≤ h → h < top → m₁.hashAt h = r.headerHash.bytes
  hash_else : ∀ h, ¬(s ≤ h ∧ h < top) → m₁.hashAt h = m.hashAt h
  ses : ∀ h, m₁.subEpochSummaries.lookup h =
    if s ≤ h ∧ h < top then sesAt chain h else m.subEpochSummaries.lookup h

lemma LoadedFrom.refl (s : ℕ) : LoadedFrom chain s s m m where
  length_eq := rfl
  hash h r hr hs ht := by omega
  hash_else h hh := rfl
  ses h := by rw [if_neg (by omega)]

lemma LoadedFrom.trans {s k top : ℕ} (h₁ : LoadedFrom chain k top m m₁)
    (h₂ : LoadedFrom chain s k m₁ m₂) (hs : s ≤ k) (hk : k ≤ top) :
    LoadedFrom chain s top m m₂ where
  length_eq := h₂.length_eq.trans h₁.length_eq
  hash h r hr hsh ht := by
    by_cases hlt : h < k
    · exact h₂.hash h r hr hsh hlt
    · rw [h₂.hash_else h (by omega)]
      exact h₁.hash h r hr (by omega) ht
  hash_else h hh := by rw [h₂.hash_else h (by omega), h₁.hash_else h (by omega)]
  ses h := by
    rw [h₂.ses, h₁.ses]
    by_cases hlt : s ≤ h ∧ h < k
    · rw [if_pos hlt, if_pos (by omega)]
    · rw [if_neg hlt]
      by_cases hge : k ≤ h ∧ h < top
      · rw [if_pos hge, if_pos (by omega)]
      · rw [if_neg hge, if_neg (by omega)]

variable {h : ℕ}

lemma LoadedFrom.stopsAt_iff {s top : ℕ} (hl : LoadedFrom chain s top m m₁) (hh : h < s) :
    StopsAt m₁ chain h ↔ StopsAt m chain h := by
  unfold StopsAt
  rw [hl.hash_else h (by omega), hl.ses h, if_neg (by omega)]

lemma LoadedFrom.of_stopsAt (hs : StopsAt m chain h) : LoadedFrom chain h (h + 1) m m := by
  obtain ⟨r, s, hr, hrs, hhash, hses⟩ := hs
  refine ⟨rfl, fun h' r' hr' hle hlt => ?_, fun _ _ => rfl, fun h' => ?_⟩
  · obtain rfl : h' = h := by omega
    obtain rfl := Option.some.inj (hr.symm.trans hr')
    exact hhash
  · split
    · obtain rfl : h' = h := by omega
      rw [hses, sesAt, hr, Option.bind_some, hrs]
    · rfl

variable {r : BlockRow}

lemma LoadedFrom.of_set {d : Dict ℕ Bytes} (hr : chain[h]? = some r) (hlen : h * 32 + 32 ≤ m.heightToHash.length)
    (hd : ∀ k, d.lookup k = if k = h then r.subEpochSummary else m.subEpochSummaries.lookup k) :
    LoadedFrom chain h (h + 1) m
      (({ m with subEpochSummaries := d } : BlockHeightMap).setHash h r.headerHash) where
  length_eq := Records.length_setSlice hlen r.headerHash.length_eq
  hash h' r' hr' hle hlt := by
    obtain rfl : h' = h := by omega
    obtain rfl := Option.some.inj (hr.symm.trans hr')
    exact Records.slice_setSlice_self (show h' * 32 ≤ m.heightToHash.length by omega)
      r.headerHash.length_eq
  hash_else h' hh :=
    Records.slice_setSlice_ne hlen r.headerHash.length_eq (by omega)
  ses h' := by
    show d.lookup h' = _
    rw [hd]
    by_cases hh : h' = h
    · subst hh
      rw [if_pos rfl, if_pos (by omega), sesAt, hr, Option.bind_some]
    · rw [if_neg hh, if_neg (by omega)]

/-- `prevHash` is the hash of the block of the chain just below height `h`. -/
def IsPrev (chain : List BlockRow) (h : ℕ) (prevHash : Bytes32) : Prop :=
  ∀ k r, h = k + 1 → chain[k]? = some r → prevHash = r.headerHash

lemma isPrev_of_chain (hc : t.Chain P chain) (hr : chain[h]? = some r) : IsPrev chain h r.prevHash := by
  rintro k r' rfl hr'
  obtain ⟨p, hp, hfind⟩ := Path.getElem?_succ hc hr
  obtain rfl := Option.some.inj (hp.symm.trans hr')
  exact (BlockTree.find_eq_some.mp hfind).2.symm

lemma isCached_eq {ses : Bytes} (hr : chain[h]? = some r) (hses : r.subEpochSummary = some ses)
    (hlen : h * 32 + 32 ≤ m.heightToHash.length) :
    ∃ b : Bool, m.isCached h r.headerHash ses = .ok b ∧ (b = true ↔ StopsAt m chain h) := by
  obtain ⟨x, hx, hxb⟩ := exists_getHash hlen
  refine ⟨decide (x = r.headerHash ∧ m.subEpochSummaries.lookup h = some ses), ?_, ?_⟩
  · simp [isCached, hx]
  · rw [decide_eq_true_iff]
    constructor
    · rintro ⟨rfl, hl⟩
      exact ⟨r, ses, hr, hses, hxb, hl⟩
    · rintro ⟨r', s, hr', hs, hhash, hl⟩
      obtain rfl := Option.some.inj (hr.symm.trans hr')
      obtain rfl := Option.some.inj (hses.symm.trans hs)
      exact ⟨Bytes32.ext (hxb.symm.trans hhash), hl⟩

/-- One window of the loader: it loads down to some height `s`, where it stops, or to the end of
the window, with the parent of the last block in hand.

**Proof sketch.** Induction on the number of heights left. The block at the current height is the
one with hash `prevHash`, so `ordered` has it. If the loader does not stop there, its entries are
written, and the rest of the window is loaded from a map that agrees with the old one below. -/
lemma loadWindow_eq_ok (hc : t.Chain P chain) (hP : P ∈ t.rows) (lo hi : ℕ) :
    ∀ (k : ℕ) (m : BlockHeightMap) (prevHash : Bytes32), lo + k ≤ hi → lo + k ≤ P.height →
    IsPrev chain (lo + k) prevHash → (lo + k) * 32 ≤ m.heightToHash.length →
    ∃ m₁ next s, loadWindow
        (orderedOf (t.rows.filter fun r => lo ≤ r.height ∧ r.height < hi)) lo k m prevHash =
          .ok (m₁, next) ∧
      lo ≤ s ∧ s ≤ lo + k ∧ LoadedFrom chain s (lo + k) m m₁ ∧
      (∀ h, s < h → h < lo + k → ¬StopsAt m chain h) ∧
      ((next = none ∧ StopsAt m chain s ∧ s < lo + k) ∨
        (s = lo ∧ (0 < k → ¬StopsAt m chain lo) ∧ ∃ q, next = some q ∧ IsPrev chain lo q)) := by
  intro k
  induction k with
  | zero =>
    intro m prevHash _ _ hprev _
    refine ⟨m, some prevHash, lo, rfl, le_rfl, le_rfl, .refl _, fun h _ _ => by omega, ?_⟩
    exact .inr ⟨rfl, fun h => absurd h (lt_irrefl _), prevHash, rfl, hprev⟩
  | succ k ih =>
    intro m prevHash hhi hle hprev hlen
    -- the block of the chain at height `lo + k`
    obtain ⟨r, hr⟩ : ∃ r, chain[lo + k]? = some r := by
      have hlt : lo + k < chain.length := by
        rw [hc.length_eq]
        omega
      exact ⟨_, List.getElem?_eq_getElem hlt⟩
    have hheight : r.height = lo + k := hc.height_eq hr
    have hmem : r ∈ t.rows := BlockTree.Chain.mem_rows hc hP (List.mem_of_getElem? hr)
    obtain rfl : prevHash = r.headerHash := hprev (lo + k) r rfl hr
    have hlook := BlockTree.lookup_orderedOf lo hi hmem (by omega) (by omega)
    have hsize : r.height * 32 + 32 ≤ m.heightToHash.length := by rw [hheight]; omega
    have hassert : ¬(lo + (k + 1) ≠ r.height + 1) := by omega
    -- writing the entries of `r` and going on
    have hgo : ∀ d : Dict ℕ Bytes,
        (∀ j, d.lookup j = if j = lo + k then r.subEpochSummary
          else m.subEpochSummaries.lookup j) → ¬StopsAt m chain (lo + k) →
        ∃ m₁ next s, loadWindow
            (orderedOf (t.rows.filter fun r => lo ≤ r.height ∧ r.height < hi)) lo k
            (({ m with subEpochSummaries := d } : BlockHeightMap).setHash r.height r.headerHash)
            r.prevHash = .ok (m₁, next) ∧
          lo ≤ s ∧ s ≤ lo + (k + 1) ∧ LoadedFrom chain s (lo + (k + 1)) m m₁ ∧
          (∀ h, s < h → h < lo + (k + 1) → ¬StopsAt m chain h) ∧
          ((next = none ∧ StopsAt m chain s ∧ s < lo + (k + 1)) ∨
            (s = lo ∧ (0 < k + 1 → ¬StopsAt m chain lo) ∧
              ∃ q, next = some q ∧ IsPrev chain lo q)) := by
      intro d hd hnot
      rw [hheight] at hsize ⊢
      have hset := LoadedFrom.of_set hr hsize hd
      obtain ⟨m₁, next, s, hrun, hlos, hsk, hload, hbetween, hend⟩ :=
        ih _ r.prevHash (by omega) (by omega) (isPrev_of_chain hc hr)
          (by rw [hset.length_eq]; omega)
      refine ⟨m₁, next, s, hrun, hlos, by omega, hset.trans hload hsk (Nat.le_succ _), ?_, ?_⟩
      · intro h hsh hlt
        by_cases hh : h = lo + k
        · rwa [hh]
        · exact fun hst => hbetween h hsh (by omega) ((hset.stopsAt_iff (by omega)).mpr hst)
      · rcases hend with ⟨hnone, hst, hslt⟩ | ⟨rfl, hfirst, hq⟩
        · exact .inl ⟨hnone, (hset.stopsAt_iff hslt).mp hst, by omega⟩
        · refine .inr ⟨rfl, fun _ hst => ?_, hq⟩
          rcases Nat.eq_zero_or_pos k with rfl | hk
          · exact hnot hst
          · exact hfirst hk ((hset.stopsAt_iff (by omega)).mpr hst)
    rw [loadWindow, hlook]
    simp only [hassert, if_false]
    cases hses : r.subEpochSummary with
    | none =>
      refine hgo (m.subEpochSummaries.erase r.height) (fun j => ?_) ?_
      · rw [Dict.lookup_erase_eq, hheight, hses]
      · rintro ⟨r', s, hr', hs, -⟩
        obtain rfl := Option.some.inj (hr.symm.trans hr')
        rw [hses] at hs
        cases hs
    | some ses =>
      obtain ⟨b, hb, hbiff⟩ := isCached_eq hr hses (by rw [hheight] at hsize; exact hsize)
      rw [← hheight] at hb
      simp only [hb, ok_bind]
      cases b with
      | true =>
        have hst := hbiff.mp rfl
        refine ⟨m, none, lo + k, rfl, by omega, by omega, .of_stopsAt hst, ?_, ?_⟩
        · intro h _ _
          omega
        · exact .inl ⟨rfl, hst, by omega⟩
      | false =>
        refine hgo (m.subEpochSummaries.set r.height ses) (fun j => ?_) (fun hst => ?_)
        · rw [Dict.lookup_set, hheight, hses]
        · exact absurd (hbiff.mpr hst) (by simp)

/-- What `_load_blocks_from` does to the map: it loads the chain down to some height, at which it
stops, or to genesis.

**Proof sketch.** Induction on the windows, each by `loadWindow_eq_ok`. -/
lemma loadWindows_eq_ok (hc : t.Chain P chain) (hP : P ∈ t.rows) (version2 : Bool)
    (peak : BlockRow) : ∀ (fuel : ℕ) (m : BlockHeightMap) (height : ℕ) (prevHash : Bytes32),
    height ≤ fuel → height ≤ P.height → IsPrev chain height prevHash →
    height * 32 ≤ m.heightToHash.length →
    ∃ m₁ s, loadWindows (t.toDb version2 peak) fuel m height prevHash = .ok m₁ ∧ s ≤ height ∧
      LoadedFrom chain s height m m₁ ∧ (∀ h, s < h → h < height → ¬StopsAt m chain h) ∧
      (s = 0 ∨ StopsAt m chain s ∧ s < height) := by
  intro fuel
  induction fuel with
  | zero =>
    intro m height prevHash hf _ _ _
    obtain rfl : height = 0 := by omega
    exact ⟨m, 0, rfl, le_rfl, .refl _, fun h _ _ => by omega, .inl rfl⟩
  | succ fuel ih =>
    intro m height prevHash hf hle hprev hlen
    cases height with
    | zero => exact ⟨m, 0, rfl, le_rfl, .refl _, fun h _ _ => by omega, .inl rfl⟩
    | succ n =>
      obtain ⟨lo, hlo⟩ : ∃ lo, n + 1 - 5000 = lo := ⟨_, rfl⟩
      have hsum : lo + (n + 1 - lo) = n + 1 := by omega
      obtain ⟨m₁, next, s, hrun, hlos, hsk, hload, hbetween, hend⟩ :=
        loadWindow_eq_ok hc hP lo (n + 1) (n + 1 - lo) m
          prevHash (by omega) (by omega) (by rwa [hsum]) (by rwa [hsum])
      rw [hsum] at hsk hload hbetween hend
      simp only [loadWindows, hlo, BlockTree.rowsBetween_toDb, ok_bind, hrun]
      rcases hend with ⟨rfl, hst, hslt⟩ | ⟨heq, hfirst, q, rfl, hq⟩
      · exact ⟨m₁, s, rfl, hsk, hload, hbetween, .inr ⟨hst, hslt⟩⟩
      · obtain ⟨m₂, s, hrun₂, hs, hload₂, hbetween₂, hend₂⟩ :=
          ih m₁ lo q (by omega) (by omega) hq (by rw [hload.length_eq]; omega)
        rw [heq] at hload hbetween
        refine ⟨m₂, s, hrun₂, by omega, hload.trans hload₂ hs (by omega), ?_, ?_⟩
        · intro h hsh hlt hst
          by_cases hh : h < lo
          · exact hbetween₂ h hsh hh ((hload.stopsAt_iff hh).mpr hst)
          · by_cases hh' : h = lo
            · exact hfirst (by omega) (hh' ▸ hst)
            · exact hbetween h (by omega) hlt hst
        · rcases hend₂ with h0 | ⟨hst, hlt⟩
          · exact .inl h0
          · exact .inr ⟨(hload.stopsAt_iff hlt).mp hst, by omega⟩

/-! ## The cached map -/

/-- The array of the hashes of `cached`, cut or filled with zeros to `height + 1` hashes. -/
def filled (cached : List BlockRow) (height : ℕ) : List Bytes32 :=
  (cached.map BlockRow.headerHash).take (height + 1) ++
    List.replicate (height + 1 - cached.length) Bytes32.zero

/-- `allocate` on the file of a chain. -/
lemma allocate_eq_pack {file : Option Bytes} {cached : List BlockRow}
    (hfile : file.getD [] = Records.pack (fun r => r.headerHash.bytes) cached) (height : ℕ) :
    allocate file height = Records.pack Bytes32.bytes (filled cached height) := by
  have hw : ∀ b : Bytes32, b.bytes.length = 32 := Bytes32.length_eq
  have hmap : Records.pack (fun r : BlockRow => r.headerHash.bytes) cached =
      Records.pack Bytes32.bytes (cached.map BlockRow.headerHash) := by
    simp [Records.pack, List.flatMap_map]
  have hlen := Records.length_pack hw (cached.map BlockRow.headerHash)
  rw [List.length_map] at hlen
  rw [allocate, hfile, hmap, hlen, filled, Records.pack_append,
    Records.pack_replicate (f := Bytes32.bytes) (w := 32) _ Bytes32.zero rfl, ← Records.take_pack hw]
  split
  · rw [show height + 1 - cached.length = 0 by omega]
    simp
  · rw [List.take_of_length_le (by rw [hlen]; omega), Nat.sub_mul]

variable {height : ℕ}

lemma getElem?_filled {cached : List BlockRow} (hh : h ≤ height) :
    (filled cached height)[h]? = some ((cached[h]?.map BlockRow.headerHash).getD Bytes32.zero) := by
  rw [filled, List.getElem?_append, List.length_take, List.length_map]
  by_cases hlt : h < cached.length
  · rw [if_pos (by omega), List.getElem?_take, if_pos (by omega), List.getElem?_map,
      List.getElem?_eq_getElem hlt]
    rfl
  · rw [if_neg (by omega), List.getElem?_eq_none (l := cached) (by omega), List.getElem?_replicate,
      if_pos (by omega)]
    rfl

/-- The map read from the two files, of which the array holds the chain `lh` and the dictionary
the summaries of the chain `ls`. -/
structure ReadFrom (lh ls : List BlockRow) (height : ℕ) (m : BlockHeightMap) : Prop where
  heightToHash : m.heightToHash = Records.pack Bytes32.bytes (filled lh height)
  subEpochSummaries : ∀ h, m.subEpochSummaries.lookup h = sesAt ls h

variable {lh ls lp lq : List BlockRow}

lemma ReadFrom.length_eq (hm : ReadFrom lh ls height m) : m.heightToHash.length = (height + 1) * 32 := by
  rw [hm.heightToHash, Records.length_pack Bytes32.length_eq, filled, List.length_append,
    List.length_take, List.length_map, List.length_replicate]
  congr 1
  omega

lemma ReadFrom.hashAt_eq (hm : ReadFrom lh ls height m) (hh : h ≤ height) :
    m.hashAt h = ((lh[h]?.map BlockRow.headerHash).getD Bytes32.zero).bytes := by
  rw [hashAt, hm.heightToHash]
  exact Records.slice_pack Bytes32.length_eq (getElem?_filled hh)

lemma fits_of_sesAt (hc : t.Chain P chain) (hP : P ∈ t.rows) {s : Bytes} (hs : sesAt chain h = some s) :
    h + 1 < 2 ^ 32 ∧ s.length < 2 ^ 32 := by
  obtain ⟨r, hr, hrs⟩ := Option.bind_eq_some_iff.mp hs
  have hmem : r ∈ t.rows := BlockTree.Chain.mem_rows hc hP (List.mem_of_getElem? hr)
  obtain rfl : r.height = h := hc.height_eq hr
  exact ⟨t.height_lt r hmem, t.ses_lt r hmem s hrs⟩

lemma exists_maybeFlush (hfits : SesCache.Fits m.subEpochSummaries)
    (hlen : m.heightToHash.length % 32 = 0) (files : CacheFiles) :
    ∃ m' files', m.maybeFlush files = .ok (m', files') ∧ m'.heightToHash = m.heightToHash ∧
      m'.subEpochSummaries = m.subEpochSummaries := by
  by_cases hd : m.dirty < 1000
  · exact ⟨m, files, by simp [maybeFlush, hd], rfl, rfl⟩
  · obtain ⟨b, hb, -⟩ := hfits.fromBytes_toBytes
    exact ⟨{ m with dirty := 0 }, ⟨some m.heightToHash, some b⟩,
      by simp [maybeFlush, hd, hlen, hb], rfl, rfl⟩

variable {files : CacheFiles}

/-- The files that a flush of the map of a chain of the tree wrote are read back as that map, each
of them where it is not missing. -/
lemma readFrom_of_flush {Q : BlockRow} (hQ : Q ∈ t.rows) (hlq : t.Chain Q lq) {m' : BlockHeightMap}
    {flushed : CacheFiles} (hm : Describes lq m) (hd : 1000 ≤ m.dirty) (hf : m.maybeFlush files = .ok (m', flushed))
    (keepHashes keepSummaries : Bool) (height : ℕ) :
    ReadFrom (if keepHashes then lq else []) (if keepSummaries then lq else []) height
      ⟨allocate (if keepHashes then flushed.heightToHash else none) height,
        readSummaries (if keepSummaries then flushed.subEpochSummaries else none), 0⟩ := by
  have hfits : SesCache.Fits m.subEpochSummaries := by
    intro k v hv
    rw [hm.subEpochSummaries] at hv
    exact fits_of_sesAt hlq hQ hv
  obtain ⟨b, hb, hback⟩ := hfits.fromBytes_toBytes
  have hlen : m.heightToHash.length % 32 = 0 := by
    rw [hm.length_heightToHash]
    exact Nat.mul_mod_left _ _
  have hflushed : flushed = ⟨some m.heightToHash, some b⟩ := by
    have hnot : ¬m.dirty < 1000 := by omega
    simp only [maybeFlush, hnot, if_false, hlen, ne_eq, not_true_eq_false, hb, ok_bind, pure_eq,
      Except.ok.injEq, Prod.mk.injEq] at hf
    exact hf.2.symm
  subst hflushed
  refine ⟨allocate_eq_pack ?_ height, fun h => ?_⟩
  · cases keepHashes with
    | true => exact hm.heightToHash
    | false => rfl
  · cases keepSummaries with
    | true =>
      show (readSummaries (some b)).lookup h = sesAt lq h
      rw [readSummaries, hback, ← hm.subEpochSummaries]
      exact Dict.lookup_ofItems_items _ _
    | false => rfl

/-! ## `create` -/

lemma create_of_hit (version2 : Bool) (hP : P ∈ t.rows)
    (hm : m = ⟨allocate files.heightToHash P.height, readSummaries files.subEpochSummaries, 0⟩)
    (hlen : m.heightToHash.length = (P.height + 1) * 32) (hhit : m.hashAt P.height = P.headerHash.bytes) :
    create (t.toDb version2 P) files = .ok (m, files) := by
  have hget : m.getHash P.height = .ok P.headerHash := getHash_eq_ok (by omega) hhit
  simp only [create, BlockTree.peakRow_toDb version2 hP, ok_bind, ← hm, hget, ne_eq,
    not_true_eq_false, if_false, pure_eq]

lemma length_setPeak (hlen : P.height * 32 + 32 ≤ m.heightToHash.length) :
    (m.setPeak P).heightToHash.length = m.heightToHash.length := by
  have harr : (m.setPeak P).heightToHash = (m.setHash P.height P.headerHash).heightToHash := by
    rw [setPeak]
    cases P.subEpochSummary <;> rfl
  rw [harr]
  exact Records.length_setSlice hlen P.headerHash.length_eq

lemma hashAt_setPeak (hlen : P.height * 32 + 32 ≤ m.heightToHash.length) (h : ℕ) :
    (m.setPeak P).hashAt h = if h = P.height then P.headerHash.bytes else m.hashAt h := by
  have harr : (m.setPeak P).heightToHash = (m.setHash P.height P.headerHash).heightToHash := by
    rw [setPeak]
    cases P.subEpochSummary <;> rfl
  rw [hashAt, harr]
  by_cases hh : h = P.height
  · rw [if_pos hh, hh]
    exact Records.slice_setSlice_self (show P.height * 32 ≤ m.heightToHash.length by omega)
      P.headerHash.length_eq
  · rw [if_neg hh]
    exact Records.slice_setSlice_ne hlen P.headerHash.length_eq hh

lemma lookup_setPeak (h : ℕ) : (m.setPeak P).subEpochSummaries.lookup h =
    if h = P.height then P.subEpochSummary.or (m.subEpochSummaries.lookup h)
    else m.subEpochSummaries.lookup h := by
  rw [setPeak]
  cases P.subEpochSummary with
  | some ses =>
    show (m.subEpochSummaries.set P.height ses).lookup h = _
    rw [Dict.lookup_set]
    rfl
  | none =>
    show m.subEpochSummaries.lookup h = _
    rw [Option.none_or, ite_self]

/-- The cached array does not have the peak's hash: `create` writes the peak's entries and loads
its ancestors down to a height at which it stops, or to genesis. A summary cached at the peak's
height survives when the peak has none. -/
lemma create_of_miss {Q : BlockRow} (version2 : Bool) (hP : P ∈ t.rows) (hlp : t.Chain P lp) (hQ : Q ∈ t.rows)
    (hlq : t.Chain Q lq) (hls : ls = [] ∨ ls = lq)
    (hm : m = ⟨allocate files.heightToHash P.height, readSummaries files.subEpochSummaries, 0⟩)
    (hread : ReadFrom lh ls P.height m) (hmiss : m.hashAt P.height ≠ P.headerHash.bytes) :
    ∃ r files' s, create (t.toDb version2 P) files = .ok (r, files') ∧
      r.heightToHash.length = lp.length * 32 ∧ s ≤ P.height ∧
      (∀ h x, lp[h]? = some x → s ≤ h → r.hashAt h = x.headerHash.bytes) ∧
      (∀ h, h < s → r.hashAt h = m.hashAt h) ∧
      (∀ h, r.subEpochSummaries.lookup h =
        if s ≤ h ∧ h < P.height then sesAt lp h
        else if h = P.height then P.subEpochSummary.or (sesAt ls h) else sesAt ls h) ∧
      (∀ h, s < h → h < P.height → ¬StopsAt m lp h) ∧
      (s = 0 ∨ StopsAt m lp s ∧ s < P.height) := by
  have hsize := hread.length_eq
  have hlength : lp.length = P.height + 1 := hlp.length_eq
  have hPlast : lp[P.height]? = some P := hlp.getElem?_height hlp.mem_self
  have hfit : P.height * 32 + 32 ≤ m.heightToHash.length := by omega
  obtain ⟨x, hx, hxb⟩ := exists_getHash hfit
  have hne : x ≠ P.headerHash := fun he => hmiss (by rw [hxb, he])
  obtain ⟨m₁, hm₁⟩ : ∃ m₁, m₁ = m.setPeak P := ⟨_, rfl⟩
  have hlen₁ : m₁.heightToHash.length = (P.height + 1) * 32 := by
    rw [hm₁, length_setPeak (by omega), hsize]
  have hpeak₁ : m₁.hashAt P.height = P.headerHash.bytes := by
    rw [hm₁, hashAt_setPeak (by omega), if_pos rfl]
  have helse₁ : ∀ h, h ≠ P.height → m₁.hashAt h = m.hashAt h := by
    intro h hh
    rw [hm₁, hashAt_setPeak (by omega), if_neg hh]
  have hses₁ : ∀ h, m₁.subEpochSummaries.lookup h =
      if h = P.height then P.subEpochSummary.or (sesAt ls h) else sesAt ls h := by
    intro h
    rw [hm₁, lookup_setPeak, hread.subEpochSummaries]
  have hstop : ∀ h, h < P.height → (StopsAt m₁ lp h ↔ StopsAt m lp h) := by
    intro h hh
    unfold StopsAt
    rw [helse₁ h hh.ne, hses₁ h, if_neg hh.ne, hread.subEpochSummaries]
  obtain ⟨m₂, s, hrun, hsP, hload, hbetween, hend⟩ :=
    loadWindows_eq_ok hlp hP version2 P P.height m₁ P.height P.prevHash le_rfl le_rfl
      (isPrev_of_chain hlp hPlast) (by omega)
  have hses₂ : ∀ h, m₂.subEpochSummaries.lookup h =
      if s ≤ h ∧ h < P.height then sesAt lp h
      else if h = P.height then P.subEpochSummary.or (sesAt ls h) else sesAt ls h := by
    intro h
    rw [hload.ses, hses₁]
  -- every summary left in the map is one of the two chains
  have hfits : SesCache.Fits m₂.subEpochSummaries := by
    have hfitsLs : ∀ {h v}, sesAt ls h = some v → h + 1 < 2 ^ 32 ∧ v.length < 2 ^ 32 := by
      intro h v hv
      rcases hls with rfl | rfl
      · simp [sesAt] at hv
      · exact fits_of_sesAt hlq hQ hv
    intro k v hv
    rw [hses₂] at hv
    split at hv
    · exact fits_of_sesAt hlp hP hv
    · split at hv
      · rename_i hk
        rcases Option.or_eq_some_iff.mp hv with hv | ⟨-, hv⟩
        · exact ⟨hk ▸ t.height_lt P hP, t.ses_lt P hP v hv⟩
        · exact hfitsLs hv
      · exact hfitsLs hv
  obtain ⟨r, files', hflush, hr₁, hr₂⟩ :=
    exists_maybeFlush hfits (by rw [hload.length_eq, hlen₁]; exact Nat.mul_mod_left _ _) files
  have hhash : ∀ h, r.hashAt h = m₂.hashAt h := fun h => by rw [hashAt, hr₁, hashAt]
  refine ⟨r, files', s, ?_, ?_, hsP, ?_, ?_, ?_, ?_, ?_⟩
  · simp only [create, BlockTree.peakRow_toDb version2 hP, ok_bind, ← hm, hx, ne_eq, hne,
      not_false_eq_true, if_true]
    rw [← hm₁, loadBlocksFrom, hrun, ok_bind, hflush]
  · rw [hr₁, hload.length_eq, hlen₁, hlength]
  · intro h y hy hsh
    rw [hhash]
    by_cases hh : h = P.height
    · obtain rfl : y = P := by
        rw [hh, hPlast] at hy
        exact (Option.some.inj hy).symm
      rw [hload.hash_else h (by omega), hh, hpeak₁]
    · have hlt : h < lp.length := (List.getElem?_eq_some_iff.mp hy).1
      exact hload.hash h y hy hsh (by omega)
  · intro h hh
    rw [hhash, hload.hash_else h (by omega), helse₁ h (by omega)]
  · intro h
    rw [hr₂, hses₂]
  · exact fun h hsh hlt hst => hbetween h hsh hlt ((hstop h hlt).mpr hst)
  · rcases hend with h0 | ⟨hst, hlt⟩
    · exact .inl h0
    · exact .inr ⟨(hstop s hlt).mp hst, hlt⟩

/-! ## When the map is recovered -/

/-- The condition under which `create` recovers the map of the chain `lp` of the peak `P` from an
array with the hashes of the chain `lh` and a dictionary with the summaries of the chain `ls`,
where `lh` and `ls` are the chain of an earlier peak, or empty for a missing file.

* `above` — no summary is cached above the peak, since `create` deletes none there;
* `atPeak` — if the peak is not in the cached array, a summary cached at its height is overwritten
  by one of the peak, since it is not deleted either;
* `unread` — if the peak is in the cached array, nothing is loaded from the database, so that the
  summaries have to be in their file;
* `zeroPeak`, `zeroBelow` — the zeros that fill the array are not taken for the hash of a block: if
  the peak's hash is zero, everything else was cached; and no block below it that has hash zero and
  stops the loader is beyond the array. -/
structure Recoverable (P : BlockRow) (lp lh ls : List BlockRow) : Prop where
  above : ∀ h, P.height < h → sesAt ls h = none
  atPeak : P ∉ lh → sesAt ls P.height ≠ none → P.subEpochSummary ≠ none
  unread : P ∈ lh → ls = [] → ∀ r ∈ lp, r.subEpochSummary = none
  zeroPeak : P.headerHash = Bytes32.zero → lh.length ≤ P.height →
    lh = lp.dropLast ∧ ∀ h, sesAt ls h = sesAt lp h
  zeroBelow : ∀ r ∈ lp, r.headerHash = Bytes32.zero → lh.length ≤ r.height → r.height ≠ 0 →
    r.height < P.height → r.subEpochSummary ≠ none → sesAt ls r.height ≠ r.subEpochSummary

section Recovery

variable {Q : BlockRow} (hP : P ∈ t.rows) (hQ : Q ∈ t.rows) (hlp : t.Chain P lp)
  (hlq : t.Chain Q lq) (hlh : lh = [] ∨ lh = lq) (hls : ls = [] ∨ ls = lq)

include hP hQ hlp hlq hlh in
lemma take_eq_of_hash_eq {h : ℕ} {x y : BlockRow} (hx : lh[h]? = some x) (hy : lp[h]? = some y)
    (he : x.headerHash = y.headerHash) : lh = lq ∧ x = y ∧ lh.take (h + 1) = lp.take (h + 1) := by
  rcases hlh with rfl | rfl
  · simp at hx
  · have hxy : x = y := BlockTree.eq_of_hash_eq
      (BlockTree.Chain.mem_rows hlq hQ (List.mem_of_getElem? hx))
      (BlockTree.Chain.mem_rows hlp hP (List.mem_of_getElem? hy)) he
    subst hxy
    exact ⟨rfl, rfl, take_eq_of_getElem? hlq hlp hx hy⟩

include hlq hlh in
lemma mem_cached_iff : P ∈ lh ↔ lh[P.height]? = some P := by
  rcases hlh with rfl | rfl
  · simp
  · exact ⟨fun h => hlq.getElem?_height h, List.mem_of_getElem?⟩

include hP hlp in
lemma height_eq_of_hash_eq {x y : BlockRow} (hx : x ∈ lp) (hy : y ∈ lp)
    (he : x.headerHash = y.headerHash) : x.height = y.height := by
  rw [BlockTree.eq_of_hash_eq (BlockTree.Chain.mem_rows hlp hP hx)
    (BlockTree.Chain.mem_rows hlp hP hy) he]

lemma sesAt_eq_of_take_eq {n h : ℕ} (htake : lh.take n = lp.take n) (hh : h < n) :
    sesAt lh h = sesAt lp h := by
  have hget : lh[h]? = lp[h]? := by
    rw [← List.getElem?_take_of_lt hh, htake, List.getElem?_take_of_lt hh]
  rw [sesAt, sesAt, hget]

include hP hQ hlp hlq hlh hls in
/-- The peak is in the cached array. -/
lemma describes_iff_of_mem (hread : ReadFrom lh ls P.height m) (hmem : P ∈ lh) :
    Describes lp m ↔ Recoverable P lp lh ls := by
  have hlength : lp.length = P.height + 1 := hlp.length_eq
  have hPlast : lp[P.height]? = some P := hlp.getElem?_height hlp.mem_self
  have hPlh := (mem_cached_iff hlq hlh).mp hmem
  obtain ⟨rfl, -, htake⟩ := take_eq_of_hash_eq hP hQ hlp hlq hlh hPlh hPlast rfl
  have hlt : P.height < lh.length := (List.getElem?_eq_some_iff.mp hPlh).1
  constructor
  · intro hd
    have hses : ∀ h, sesAt ls h = sesAt lp h := fun h => by
      rw [← hread.subEpochSummaries, hd.subEpochSummaries]
    refine ⟨fun h hh => ?_, fun hnot => absurd hmem hnot, fun _ hnil r hr => ?_,
      fun _ hle => absurd hle (by omega), fun r _ _ hle _ hlow => absurd hle (by omega)⟩
    · rw [hses, sesAt_of_length_le (by omega)]
    · subst hnil
      have hr' : sesAt lp r.height = none := by rw [← hses]; rfl
      rwa [sesAt, hlp.getElem?_height hr, Option.bind_some] at hr'
  · intro hrec
    refine describes_of_forall (by rw [hread.length_eq, hlength]) (fun h r hr => ?_) fun h => ?_
    · have hh : h < lp.length := (List.getElem?_eq_some_iff.mp hr).1
      have hget : lh[h]? = some r := by
        rw [← hr, ← List.getElem?_take_of_lt (show h < P.height + 1 by omega), htake,
          List.getElem?_take_of_lt (by omega)]
      rw [hread.hashAt_eq (by omega), hget]
      rfl
    · rw [hread.subEpochSummaries]
      by_cases hh : h ≤ P.height
      · rcases hls with hnil | rfl
        · have hnone : sesAt lp h = none := by
            rw [sesAt, Option.bind_eq_none_iff]
            exact fun r hr => hrec.unread hmem hnil r (List.mem_of_getElem? hr)
          rw [hnone, hnil]
          rfl
        · exact sesAt_eq_of_take_eq htake (by omega)
      · rw [hrec.above h (by omega), sesAt_of_length_le (by omega)]

include hP hQ hlp hlq hlh in
/-- The peak's hash is the zeros that fill the array. -/
lemma describes_iff_of_zero (hread : ReadFrom lh ls P.height m) (hlen : lh.length ≤ P.height)
    (hzero : P.headerHash = Bytes32.zero) : Describes lp m ↔ Recoverable P lp lh ls := by
  have hlength : lp.length = P.height + 1 := hlp.length_eq
  have hPlast : lp[P.height]? = some P := hlp.getElem?_height hlp.mem_self
  have hnot : P ∉ lh := by
    rw [mem_cached_iff hlq hlh, List.getElem?_eq_none hlen]
    simp
  constructor
  · intro hd
    have hses : ∀ h, sesAt ls h = sesAt lp h := fun h => by
      rw [← hread.subEpochSummaries, hd.subEpochSummaries]
    -- below the peak no hash is zero, so every block there is cached
    have hcached : ∀ h r, h < P.height → lp[h]? = some r → lh[h]? = some r := by
      intro h r hh hr
      have hbytes := hd.hashAt_eq hr
      rw [hread.hashAt_eq hh.le] at hbytes
      cases hx : lh[h]? with
      | none =>
        rw [hx] at hbytes
        have hheight := height_eq_of_hash_eq hP hlp (List.mem_of_getElem? hr) hlp.mem_self
          ((Bytes32.ext hbytes).symm.trans hzero.symm)
        have : r.height = h := hlp.height_eq hr
        omega
      | some x =>
        rw [hx] at hbytes
        rw [(take_eq_of_hash_eq hP hQ hlp hlq hlh hx hr (Bytes32.ext hbytes)).2.1]
    refine ⟨fun h hh => ?_, fun _ hne => ?_, fun hmem => absurd hmem hnot, fun _ _ => ⟨?_, hses⟩,
      fun r hr hrz _ _ hlow => ?_⟩
    · rw [hses, sesAt_of_length_le (by omega)]
    · rwa [hses, sesAt, hPlast, Option.bind_some] at hne
    · apply List.ext_getElem?
      intro h
      rw [List.getElem?_dropLast, hlength]
      by_cases hh : h < P.height
      · rw [if_pos (by omega)]
        obtain ⟨r, hr⟩ : ∃ r, lp[h]? = some r := ⟨_, List.getElem?_eq_getElem (by omega)⟩
        rw [hr, hcached h r hh hr]
      · rw [if_neg (by omega), List.getElem?_eq_none (by omega)]
    · exact absurd (height_eq_of_hash_eq hP hlp hr hlp.mem_self (hrz.trans hzero.symm)) (by omega)
  · intro hrec
    obtain ⟨heq, hses⟩ := hrec.zeroPeak hzero hlen
    refine describes_of_forall (by rw [hread.length_eq, hlength]) (fun h r hr => ?_) fun h => ?_
    · have hh : h < lp.length := (List.getElem?_eq_some_iff.mp hr).1
      rw [hread.hashAt_eq (by omega), heq, List.getElem?_dropLast, hlength]
      by_cases hlast : h = P.height
      · obtain rfl : r = P := by
          rw [hlast, hPlast] at hr
          exact (Option.some.inj hr).symm
        rw [if_neg (by omega), hzero]
        rfl
      · rw [if_pos (by omega), hr]
        rfl
    · rw [hread.subEpochSummaries, hses]

include hP hQ hlp hlq hlh hls in
/-- The peak's hash is not in the array: the map `r` that `create` returns, loaded down to the
height `s`.

**Proof sketch.** If `s` is 0 only the summaries at and above the peak's height are left from the
cache. Otherwise the loader stopped at `s`: either the cached chain has the same block there, and
agrees with the peak's chain below, or the hash there is zero and the array is missing, in which
case the hash of genesis is missing too. -/
lemma describes_iff_of_miss {r : BlockHeightMap} {s : ℕ} (hread : ReadFrom lh ls P.height m)
    (hmiss : m.hashAt P.height ≠ P.headerHash.bytes)
    (hlen : r.heightToHash.length = lp.length * 32)
    (hhash : ∀ h x, lp[h]? = some x → s ≤ h → r.hashAt h = x.headerHash.bytes)
    (hbelow : ∀ h, h < s → r.hashAt h = m.hashAt h)
    (hses : ∀ h, r.subEpochSummaries.lookup h =
      if s ≤ h ∧ h < P.height then sesAt lp h
      else if h = P.height then P.subEpochSummary.or (sesAt ls h) else sesAt ls h)
    (hbetween : ∀ h, s < h → h < P.height → ¬StopsAt m lp h)
    (hend : s = 0 ∨ StopsAt m lp s ∧ s < P.height) :
    Describes lp r ↔ Recoverable P lp lh ls := by
  have hlength : lp.length = P.height + 1 := hlp.length_eq
  have hPlast : lp[P.height]? = some P := hlp.getElem?_height hlp.mem_self
  have hnot : P ∉ lh := by
    intro hmem
    apply hmiss
    rw [hread.hashAt_eq le_rfl, (mem_cached_iff hlq hlh).mp hmem]
    rfl
  have hsesP : sesAt lp P.height = P.subEpochSummary := by
    rw [sesAt, hPlast, Option.bind_some]
  have hlsq : ∀ {h v}, sesAt ls h = some v → ls = lq := by
    intro h v hv
    rcases hls with rfl | rfl
    · simp [sesAt] at hv
    · rfl
  constructor
  · intro hd
    refine ⟨fun h hh => ?_, fun _ hne => ?_, fun hmem => absurd hmem hnot, fun hzero hle => ?_,
      fun x hx hzero hle hpos hlow hsome hcached => ?_⟩
    · have := hses h
      rwa [if_neg (by omega), if_neg (by omega), hd.subEpochSummaries,
        sesAt_of_length_le (by omega), eq_comm] at this
    · have := hses P.height
      rw [if_neg (by omega), if_pos rfl, hd.subEpochSummaries, hsesP] at this
      intro hnone
      rw [hnone, Option.none_or] at this
      exact hne this.symm
    · refine absurd ?_ hmiss
      rw [hread.hashAt_eq le_rfl, List.getElem?_eq_none hle, hzero]
      rfl
    · -- the loader stops at `x` or above, so the hash of genesis was not loaded
      have hxlp := hlp.getElem?_height hx
      obtain ⟨v, hv⟩ := Option.ne_none_iff_exists'.mp hsome
      have hstop : StopsAt m lp x.height := by
        refine ⟨x, v, hxlp, hv, ?_, ?_⟩
        · rw [hread.hashAt_eq hlow.le, List.getElem?_eq_none hle, hzero]
          rfl
        · rw [hread.subEpochSummaries, hcached, hv]
      have hsx : x.height ≤ s := by
        by_contra hlt
        exact hbetween x.height (by omega) hlow hstop
      obtain rfl : lh = [] := by
        rcases hlh with rfl | rfl
        · rfl
        · have hsv : sesAt ls x.height = some v := by rw [hcached, hv]
          have heq := hlsq hsv
          subst heq
          rw [sesAt_of_length_le hle] at hsv
          cases hsv
      obtain ⟨g, hg⟩ : ∃ g, lp[0]? = some g := ⟨_, List.getElem?_eq_getElem (by omega)⟩
      have hgen := hd.hashAt_eq hg
      rw [hbelow 0 (by omega), hread.hashAt_eq (Nat.zero_le _)] at hgen
      have hg0 := height_eq_of_hash_eq hP hlp (List.mem_of_getElem? hg) hx
        ((Bytes32.ext hgen).symm.trans hzero.symm)
      rw [hlp.height_eq hg] at hg0
      omega
  · intro hrec
    -- below the height at which the loader stopped the cache agrees with the chain
    have hagree : ∀ h, h < s → (∀ x, lp[h]? = some x → m.hashAt h = x.headerHash.bytes) ∧
        sesAt ls h = sesAt lp h := by
      intro h hh
      rcases hend with h0 | ⟨⟨x, v, hx, hv, hxm, hvm⟩, hsP⟩
      · omega
      · rw [hread.subEpochSummaries] at hvm
        have hxh : x.height = s := hlp.height_eq hx
        rw [hread.hashAt_eq hsP.le] at hxm
        cases hlhs : lh[s]? with
        | none =>
          rw [hlhs] at hxm
          refine absurd ?_ (hrec.zeroBelow x (List.mem_of_getElem? hx) (Bytes32.ext hxm).symm
            (by rw [hxh]; exact List.getElem?_eq_none_iff.mp hlhs) (by omega) (by omega)
            (by rw [hv]; exact Option.some_ne_none v))
          rw [hxh, hvm, hv]
        | some y =>
          rw [hlhs] at hxm
          obtain ⟨hlhq, -, htake⟩ :=
            take_eq_of_hash_eq hP hQ hlp hlq hlh hlhs hx (Bytes32.ext hxm)
          obtain rfl : ls = lh := (hlsq hvm).trans hlhq.symm
          refine ⟨fun z hz => ?_, sesAt_eq_of_take_eq htake (by omega)⟩
          have hget : ls[h]? = some z := by
            rw [← hz, ← List.getElem?_take_of_lt (show h < s + 1 by omega), htake,
              List.getElem?_take_of_lt (by omega)]
          rw [hread.hashAt_eq (by omega), hget]
          rfl
    refine describes_of_forall hlen (fun h x hx => ?_) fun h => ?_
    · by_cases hh : s ≤ h
      · exact hhash h x hx hh
      · rw [hbelow h (by omega)]
        exact (hagree h (by omega)).1 x hx
    · rw [hses]
      split
      · rfl
      · split
        · rename_i hh
          rw [hh, hsesP]
          cases hnone : P.subEpochSummary with
          | some v => rfl
          | none =>
            rw [Option.none_or]
            by_contra hne
            exact hrec.atPeak hnot hne hnone
        · by_cases hh : h < s
          · exact (hagree h hh).2
          · rw [hrec.above h (by omega), sesAt_of_length_le (by omega)]

include hP hQ hlp hlq hlh hls in
/-- `create` on files with the hashes of `lh` and the summaries of `ls`. -/
lemma create_describes_iff {files : CacheFiles} (version2 : Bool)
    (hread : ReadFrom lh ls P.height
      ⟨allocate files.heightToHash P.height, readSummaries files.subEpochSummaries, 0⟩) :
    (∃ r files', create (t.toDb version2 P) files = .ok (r, files') ∧ Describes lp r) ↔
      Recoverable P lp lh ls := by
  obtain ⟨m, hm⟩ : ∃ m : BlockHeightMap, m =
    ⟨allocate files.heightToHash P.height, readSummaries files.subEpochSummaries, 0⟩ := ⟨_, rfl⟩
  rw [← hm] at hread
  by_cases hhit : m.hashAt P.height = P.headerHash.bytes
  · have hrun := create_of_hit version2 hP hm hread.length_eq hhit
    have hiff : Describes lp m ↔ Recoverable P lp lh ls := by
      rw [hread.hashAt_eq le_rfl] at hhit
      cases hx : lh[P.height]? with
      | none =>
        rw [hx] at hhit
        exact describes_iff_of_zero hP hQ hlp hlq hlh hread (List.getElem?_eq_none_iff.mp hx)
          (Bytes32.ext hhit).symm
      | some x =>
        rw [hx] at hhit
        have hxP : x = P := (take_eq_of_hash_eq hP hQ hlp hlq hlh hx
          (hlp.getElem?_height hlp.mem_self) (Bytes32.ext hhit)).2.1
        exact describes_iff_of_mem hP hQ hlp hlq hlh hls hread
          (hxP ▸ List.mem_of_getElem? hx)
    rw [← hiff]
    constructor
    · rintro ⟨r, files', hcreate, hd⟩
      obtain ⟨rfl, -⟩ := Prod.mk.inj (Except.ok.inj (hrun.symm.trans hcreate))
      exact hd
    · exact fun hd => ⟨m, files, hrun, hd⟩
  · obtain ⟨r, files', s, hrun, hlen, -, hhash, hbelow, hses, hbetween, hend⟩ :=
      create_of_miss version2 hP hlp hQ hlq hls hm hread hhit
    rw [← describes_iff_of_miss hP hQ hlp hlq hlh hls hread hhit hlen hhash hbelow hses hbetween
      hend]
    constructor
    · rintro ⟨r', files'', hcreate, hd⟩
      obtain ⟨rfl, -⟩ := Prod.mk.inj (Except.ok.inj (hrun.symm.trans hcreate))
      exact hd
    · exact fun hd => ⟨r, files', hrun, hd⟩

end Recovery

/-- **Recovery from the cache files.** For every tree of blocks, every stored peak `P` and every
earlier peak `Q` for whose chain the files were written, each of them possibly missing: `create`
returns the map of the chain of `P` if and only if the condition `Recoverable` holds of the two
chains. -/
theorem create_recovers_iff (t : BlockTree) (version2 : Bool) {P Q : BlockRow}
    (hP : P ∈ t.rows) (hQ : Q ∈ t.rows) {lp lq : List BlockRow} (hlp : t.Chain P lp)
    (hlq : t.Chain Q lq) {m m' : BlockHeightMap} (hm : Describes lq m) (hd : 1000 ≤ m.dirty)
    {files flushed : CacheFiles} (hf : m.maybeFlush files = .ok (m', flushed))
    (keepHashes keepSummaries : Bool) :
    (∃ r files', create (t.toDb version2 P)
        ⟨if keepHashes then flushed.heightToHash else none,
          if keepSummaries then flushed.subEpochSummaries else none⟩ = .ok (r, files') ∧
      Describes lp r) ↔
    Recoverable P lp (if keepHashes then lq else []) (if keepSummaries then lq else []) := by
  have hkeep : ∀ b : Bool, (if b then lq else []) = [] ∨ (if b then lq else []) = lq := by
    intro b
    cases b
    · exact .inl rfl
    · exact .inr rfl
  exact create_describes_iff hP hQ hlp hlq (hkeep _) (hkeep _) version2
    (readFrom_of_flush hQ hlq hm hd hf keepHashes keepSummaries P.height)

/-! ## A chain of 1001 blocks and a fork -/

lemma ofNat_zero : Bytes32.ofNat 0 = Bytes32.zero := by
  decide

/-- The bytes of a summary without new difficulty and new sub-slot iterations. -/
def sampleSummary : Bytes := List.replicate 67 0

/-- The block at height `i` of the long chain; the last one, at height 1000, has a summary. -/
def longRow (i : ℕ) : BlockRow :=
  ⟨Bytes32.ofNat (i + 1), Bytes32.ofNat i, i, if i = 1000 then some sampleSummary else none⟩

/-- A fork at height 999. -/
def forkRow : BlockRow := ⟨Bytes32.ofNat 5000, Bytes32.ofNat 999, 999, none⟩

/-- The long chain with the fork. -/
def longTree : BlockTree where
  rows := (List.range 1001).map longRow ++ [forkRow]
  keyed := by
    rw [Table.Keyed, List.map_append, List.map_map]
    refine List.Nodup.append ?_ (List.nodup_singleton _) ?_
    · refine List.Nodup.map_on (fun a ha b hb h => ?_) List.nodup_range
      rw [List.mem_range] at ha hb
      have hab : a + 1 = b + 1 := Bytes32.ofNat_injOn (by omega) (by omega) h
      omega
    · intro x hx hx'
      obtain ⟨a, ha, rfl⟩ := List.mem_map.mp hx
      rw [List.mem_range] at ha
      have hne : a + 1 = 5000 := Bytes32.ofNat_injOn (by omega) (by omega) (List.mem_singleton.mp hx')
      omega
  linked r hr h0 := by
    have hmem : ∀ i, i < 1001 → longRow i ∈ (List.range 1001).map longRow ++ [forkRow] :=
      fun i hi => List.mem_append_left _ (List.mem_map.mpr ⟨i, List.mem_range.mpr hi, rfl⟩)
    rcases List.mem_append.mp hr with hr | hr
    · obtain ⟨i, hi, rfl⟩ := List.mem_map.mp hr
      rw [List.mem_range] at hi
      obtain ⟨j, rfl⟩ : ∃ j, i = j + 1 := Nat.exists_eq_succ_of_ne_zero h0
      exact ⟨longRow j, hmem j (by omega), rfl, rfl⟩
    · obtain rfl := List.mem_singleton.mp hr
      exact ⟨longRow 998, hmem 998 (by omega), rfl, rfl⟩
  height_lt r hr := by
    rcases List.mem_append.mp hr with hr | hr
    · obtain ⟨i, hi, rfl⟩ := List.mem_map.mp hr
      rw [List.mem_range] at hi
      show i + 1 < 2 ^ 32
      omega
    · obtain rfl := List.mem_singleton.mp hr
      show 999 + 1 < 2 ^ 32
      omega
  ses_lt r hr s hs := by
    rcases List.mem_append.mp hr with hr | hr
    · obtain ⟨i, -, rfl⟩ := List.mem_map.mp hr
      simp only [longRow] at hs
      split at hs
      · obtain rfl := Option.some.inj hs
        show sampleSummary.length < 2 ^ 32
        rw [sampleSummary, List.length_replicate]
        omega
      · cases hs
    · obtain rfl := List.mem_singleton.mp hr
      cases hs

lemma longRow_mem {i : ℕ} (hi : i ≤ 1000) : longRow i ∈ longTree.rows :=
  List.mem_append_left _ (List.mem_map.mpr ⟨i, List.mem_range.mpr (by omega), rfl⟩)

lemma chain_longRow {n : ℕ} (hn : n ≤ 1000) :
    longTree.Chain (longRow n) ((List.range (n + 1)).map longRow) := by
  induction n with
  | zero => exact .root rfl
  | succ n ih =>
    rw [List.range_succ, List.map_append]
    exact .step (BlockTree.find_eq_some.mpr ⟨longRow_mem (by omega), rfl⟩) rfl (ih (by omega))

lemma chain_forkRow : longTree.Chain forkRow ((List.range 999).map longRow ++ [forkRow]) :=
  .step (BlockTree.find_eq_some.mpr ⟨longRow_mem (i := 998) (by omega), rfl⟩) rfl
    (chain_longRow (n := 998) (by omega))

lemma forkRow_mem : forkRow ∈ longTree.rows := List.mem_append_right _ (List.mem_singleton.mpr rfl)

/-- The map of the long chain, with 1000 hashes changed since the last flush. -/
def longMap : BlockHeightMap :=
  ⟨Records.pack (fun r => r.headerHash.bytes) ((List.range 1001).map longRow),
    Dict.set ∅ 1000 sampleSummary, 1000⟩

lemma sesAt_longRow (h : ℕ) : sesAt ((List.range 1001).map longRow) h =
    if h = 1000 then some sampleSummary else none := by
  by_cases hh : h < 1001
  · rw [sesAt, List.getElem?_map, List.getElem?_range hh]
    rfl
  · rw [sesAt_of_length_le (by simp; omega), if_neg (by omega)]

lemma describes_longMap : Describes ((List.range 1001).map longRow) longMap := by
  constructor
  · rw [longMap]
  · intro h
    rw [sesAt_longRow]
    simp only [longMap, Dict.lookup_set, AList.lookup_empty]

lemma exists_flush_longMap : ∃ m' flushed, longMap.maybeFlush ⟨none, none⟩ = .ok (m', flushed) := by
  obtain ⟨m', flushed, hf, -⟩ := exists_maybeFlush (m := longMap) (fun k v hv => by
    rw [describes_longMap.subEpochSummaries] at hv
    exact fits_of_sesAt (chain_longRow le_rfl) (longRow_mem le_rfl) hv)
    (by rw [describes_longMap.length_heightToHash]; exact Nat.mul_mod_left _ _) ⟨none, none⟩
  exact ⟨m', flushed, hf⟩

/-- With the files of the long chain, the peak at its height 999 is recovered from the array file
alone: the long chain has no summary up to there. -/
theorem create_recovers_longTree : ∃ m' flushed r files',
    longMap.maybeFlush ⟨none, none⟩ = .ok (m', flushed) ∧
    create (longTree.toDb true (longRow 999)) ⟨flushed.heightToHash, none⟩ = .ok (r, files') ∧
    Describes ((List.range 1000).map longRow) r := by
  obtain ⟨m', flushed, hf⟩ := exists_flush_longMap
  have hrec : Recoverable (longRow 999) ((List.range 1000).map longRow)
      ((List.range 1001).map longRow) [] := by
    have hmem : longRow 999 ∈ (List.range 1001).map longRow :=
      List.mem_map.mpr ⟨999, List.mem_range.mpr (by omega), rfl⟩
    have hnone : ∀ r ∈ (List.range 1000).map longRow, r.subEpochSummary = none := by
      intro r hr
      obtain ⟨i, hi, rfl⟩ := List.mem_map.mp hr
      rw [List.mem_range] at hi
      exact if_neg (by omega)
    refine ⟨fun h _ => rfl, fun hnot => absurd hmem hnot, fun _ _ => hnone, ?_, ?_⟩
    · intro hzero
      have : 999 + 1 = 0 := Bytes32.ofNat_injOn (by omega) (by omega) (hzero.trans ofNat_zero.symm)
      omega
    · intro r hr _ _ _ _ hsome
      exact absurd (hnone r hr) hsome
  obtain ⟨r, files', hcreate, hd⟩ := (create_recovers_iff longTree true (longRow_mem (by omega))
    (longRow_mem le_rfl) (chain_longRow (n := 999) (by omega)) (chain_longRow le_rfl)
    describes_longMap le_rfl hf true false).mpr hrec
  exact ⟨m', flushed, r, files', hf, hcreate, hd⟩

/-- With the files of the long chain and the fork at height 999 as the stored peak, `create` does
not give the map of the fork: it keeps the summary of the long chain at height 1000, above the
peak. -/
theorem create_keeps_stale_summary : ∃ m' flushed,
    Describes ((List.range 1001).map longRow) longMap ∧ 1000 ≤ longMap.dirty ∧
    longMap.maybeFlush ⟨none, none⟩ = .ok (m', flushed) ∧
    ¬∃ r files', create (longTree.toDb true forkRow) flushed = .ok (r, files') ∧
      Describes ((List.range 999).map longRow ++ [forkRow]) r := by
  obtain ⟨m', flushed, hf⟩ := exists_flush_longMap
  refine ⟨m', flushed, describes_longMap, le_rfl, hf, ?_⟩
  have hread := readFrom_of_flush (longRow_mem le_rfl) (chain_longRow le_rfl) describes_longMap
    le_rfl hf true true forkRow.height
  rw [create_describes_iff forkRow_mem (longRow_mem le_rfl) chain_forkRow (chain_longRow le_rfl)
    (.inr rfl) (.inr rfl) true hread]
  intro hrec
  have habove := hrec.above 1000 (show 999 < 1000 by omega)
  rw [sesAt_longRow, if_pos rfl] at habove
  cases habove

end BlockHeightMap

end Chives
