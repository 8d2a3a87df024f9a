import Mathlib.Data.List.Sort
import Chives.Library.Dict
import Chives.Library.Hex
import Chives.Library.ParentTree
import Chives.Library.Records
import Chives.Library.Table
import Chives.Types.SizedBytes
import Chives.Util.Streamable

set_option autoImplicit false

/-!
# The height map

`BlockHeightMap` of `full_node/block_height_map.py`: the header hashes of the chain of the peak,
by height, in one byte array, and the sub-epoch summaries of that chain in a dictionary. Both are
cached in files; `create` reads the files and loads from the database what they miss.

## Main definitions

* `BlockRow`, `BlockDb` — what the map reads of the database, in its two versions.
* `BlockHeightMap` with `create`, `loadBlocksFrom`, `maybeFlush`, `updateHeight`,
  `rollback`, `getHash`, `containsHeight`, `getSes`, `getSesHeights` — the class.
* `BlockHeightMap.Describes` — the map is that of a chain.
-/

namespace Chives

open ExceptRun

/-! ## The database -/

/-- The columns `header_hash, prev_hash, height, sub_epoch_summary` of a stored block. -/
structure BlockRow where
  headerHash : Bytes32
  prevHash : Bytes32
  height : ℕ
  subEpochSummary : Option Bytes
  deriving DecidableEq

/-- A row of `block_records` in a version 1 database, where hashes are hexadecimal text. -/
structure BlockRowV1 where
  headerHash : List Char
  prevHash : List Char
  height : ℕ
  subEpochSummary : Option Bytes
  isPeak : Bool

/-- The tables the height map reads: `current_peak` and `full_blocks` in version 2, `block_records`
in version 1. -/
inductive BlockDb
  | v2 (currentPeak : Option Bytes32) (fullBlocks : List BlockRow)
  | v1 (blockRecords : List BlockRowV1)

/-- `bytes32.fromhex(s)`. -/
def bytes32FromHex (s : List Char) : Except PyError Bytes32 :=
  match Hex.decode s with
  | some b => Bytes32.new b
  | none => .error .valueError

/-- A version 1 row with its hashes decoded. -/
def BlockRowV1.decode (r : BlockRowV1) : Except PyError BlockRow := do
  let headerHash ← bytes32FromHex r.headerHash
  let prevHash ← bytes32FromHex r.prevHash
  return ⟨headerHash, prevHash, r.height, r.subEpochSummary⟩

namespace BlockDb

/-- The row of the peak: through `current_peak` in version 2, `WHERE is_peak=1` in version 1. -/
def peakRow : BlockDb → Except PyError (Option BlockRow)
  | .v2 currentPeak fullBlocks =>
    match currentPeak with
    | none => .ok none
    | some hash => .ok (Table.find BlockRow.headerHash fullBlocks hash)
  | .v1 blockRecords =>
    match blockRecords.find? fun r => r.isPeak with
    | none => .ok none
    | some r => do return some (← r.decode)

/-- `WHERE height>=? AND height <?`. -/
def rowsBetween (lo hi : ℕ) : BlockDb → Except PyError (List BlockRow)
  | .v2 _ fullBlocks => .ok (fullBlocks.filter fun r => lo ≤ r.height ∧ r.height < hi)
  | .v1 blockRecords =>
    (blockRecords.filter fun r => lo ≤ r.height ∧ r.height < hi).mapM BlockRowV1.decode

end BlockDb

/-! ## The cache file of the summaries -/

/-- The two cache files, `none` when a file does not exist. -/
structure CacheFiles where
  heightToHash : Option Bytes
  subEpochSummaries : Option Bytes

namespace SesCache

/-- The fields of `SesCache`: `content: List[Tuple[uint32, bytes]]`. -/
def fields : List (FieldType Empty) :=
  [.item (.list (.item (.tuple [.item (.int .uint32), .item .bytes])))]

/-- The object `SesCache(content)`. -/
def obj (content : List (ℕ × Bytes)) : PyValue Empty :=
  .obj "SesCache" [.list (content.map fun e => .tuple [.int e.1, .bytes e.2])]

/-- One pair of the field `content`. -/
def pairOf : PyValue Empty → Except PyError (ℕ × Bytes)
  | .tuple [.int k, .bytes v] => .ok (k.toNat, v)
  | _ => .error .typeError

/-- The field `content` of an object. -/
def contentOf : PyValue Empty → Except PyError (List (ℕ × Bytes))
  | .obj _ [.list vs] => vs.mapM pairOf
  | _ => .error .typeError

/-- `bytes(SesCache(content))`. -/
def toBytes (content : List (ℕ × Bytes)) : Except PyError Bytes :=
  Streamable.toBytes Streamable.noExternalTypes "SesCache" fields (obj content)

/-- `SesCache.from_bytes(b).content`. -/
def fromBytes (b : Bytes) : Except PyError (List (ℕ × Bytes)) := do
  contentOf (← Streamable.fromBytes Streamable.noExternalTypes "SesCache" fields b)

end SesCache

/-! ## The class -/

/-- The state of a `BlockHeightMap`: `__height_to_hash`, `__sub_epoch_summaries` and `__dirty`. -/
structure BlockHeightMap where
  heightToHash : Bytes
  subEpochSummaries : Dict ℕ Bytes
  dirty : ℕ

namespace BlockHeightMap

/-- The map of an empty database. -/
def empty : BlockHeightMap := ⟨[], ∅, 0⟩

/-- `get_hash`. -/
def getHash (self : BlockHeightMap) (height : ℕ) : Except PyError Bytes32 :=
  let idx := height * 32
  if idx + 32 ≤ self.heightToHash.length then
    Bytes32.new (Records.slice self.heightToHash idx (idx + 32))
  else .error .assertionError

/-- `__set_hash`. -/
def setHash (self : BlockHeightMap) (height : ℕ) (blockHash : Bytes32) : BlockHeightMap :=
  let idx := height * 32
  { self with
    heightToHash := Records.setSlice self.heightToHash idx (idx + 32) blockHash.bytes
    dirty := self.dirty + 1 }

/-- `contains_height`. -/
def containsHeight (self : BlockHeightMap) (height : ℕ) : Bool :=
  height * 32 < self.heightToHash.length

/-- `update_height`, with the summary as `bytes(ses)`. -/
def updateHeight (self : BlockHeightMap) (height : ℕ) (headerHash : Bytes32)
    (ses : Option Bytes) : Except PyError BlockHeightMap :=
  let idx := height * 32
  if idx ≤ self.heightToHash.length then
    .ok { self with
      heightToHash := Records.setSlice self.heightToHash idx (idx + 32) headerHash.bytes
      subEpochSummaries := match ses with
        | some s => self.subEpochSummaries.set height s
        | none => self.subEpochSummaries }
  else .error .assertionError

/-- `del buf[i:]`, where a negative index counts from the end. -/
def delFrom (buf : Bytes) (i : ℤ) : Bytes :=
  buf.take (if i < 0 then buf.length + i else i).toNat

/-- `rollback`: the heights to delete are collected first and then deleted one by one. -/
def rollback (self : BlockHeightMap) (forkHeight : ℤ) : BlockHeightMap :=
  let heightsToDelete := self.subEpochSummaries.keys.filter fun h : ℕ => forkHeight < h
  { self with
    subEpochSummaries := heightsToDelete.foldl (fun d h => d.erase h) self.subEpochSummaries
    heightToHash := delFrom self.heightToHash ((forkHeight + 1) * 32) }

/-- `get_ses`, before the bytes are parsed as a `SubEpochSummary`. -/
def getSes (self : BlockHeightMap) (height : ℕ) : Except PyError Bytes :=
  match self.subEpochSummaries.lookup height with
  | some s => .ok s
  | none => .error .keyError

/-- `get_ses_heights`. -/
def getSesHeights (self : BlockHeightMap) : List ℕ := self.subEpochSummaries.keys.mergeSort

/-- `maybe_flush`: the files are written once 1000 hashes have changed. -/
def maybeFlush (self : BlockHeightMap) (files : CacheFiles) :
    Except PyError (BlockHeightMap × CacheFiles) := do
  if self.dirty < 1000 then return (self, files)
  else if self.heightToHash.length % 32 ≠ 0 then throw .assertionError
  else
    let sesBuf ← SesCache.toBytes self.subEpochSummaries.items
    return ({ self with dirty := 0 }, ⟨some self.heightToHash, some sesBuf⟩)

/-- The dictionary `ordered` of `_load_blocks_from`: block hash to height, previous hash and
summary. -/
def orderedOf (rows : List BlockRow) : Dict Bytes32 (ℕ × Bytes32 × Option Bytes) :=
  Dict.ofItems (rows.map fun r => (r.headerHash, r.height, r.prevHash, r.subEpochSummary))

/-- Whether the cached entries at `height` are those of the block, so that loading can stop. -/
def isCached (self : BlockHeightMap) (height : ℕ) (prevHash : Bytes32) (ses : Bytes) :
    Except PyError Bool := do
  return (← self.getHash height) = prevHash ∧ self.subEpochSummaries.lookup height = some ses

/-- The inner loop of `_load_blocks_from`, at the height `windowEnd` plus the first argument. It
gives the hash to go on with, or `none` when it returned at a match. -/
def loadWindow (ordered : Dict Bytes32 (ℕ × Bytes32 × Option Bytes)) (windowEnd : ℕ) :
    ℕ → BlockHeightMap → Bytes32 → Except PyError (BlockHeightMap × Option Bytes32)
  | 0, self, prevHash => .ok (self, some prevHash)
  | k + 1, self, prevHash =>
    match ordered.lookup prevHash with
    | none => .error .valueError
    | some (height, entryPrev, entrySes) =>
      if windowEnd + (k + 1) ≠ height + 1 then .error .assertionError
      else match entrySes with
        | some ses => do
          if ← self.isCached height prevHash ses then return (self, none)
          else
            let self := { self with subEpochSummaries := self.subEpochSummaries.set height ses }
            loadWindow ordered windowEnd k (self.setHash height prevHash) entryPrev
        | none =>
          -- `AList.erase` of an absent key is the identity, as the `elif` has it
          let self := { self with subEpochSummaries := self.subEpochSummaries.erase height }
          loadWindow ordered windowEnd k (self.setHash height prevHash) entryPrev

/-- The outer loop of `_load_blocks_from`, 5000 blocks at a time. The first argument bounds the
number of windows. -/
def loadWindows (db : BlockDb) :
    ℕ → BlockHeightMap → ℕ → Bytes32 → Except PyError BlockHeightMap
  | _, self, 0, _ => .ok self
  | 0, _, _ + 1, _ => .error .divergence
  | fuel + 1, self, height + 1, prevHash => do
    let windowEnd := (height + 1) - 5000
    let rows ← db.rowsBetween windowEnd (height + 1)
    let (self, next) ← loadWindow (orderedOf rows) windowEnd (height + 1 - windowEnd) self prevHash
    match next with
    | none => return self
    | some prevHash => loadWindows db fuel self windowEnd prevHash

/-- `_load_blocks_from`: each window loads at least one height. -/
def loadBlocksFrom (self : BlockHeightMap) (db : BlockDb) (height : ℕ) (prevHash : Bytes32) :
    Except PyError BlockHeightMap :=
  loadWindows db height self height prevHash

/-- The array read from its file, cut or filled with zeros to `height + 1` hashes. -/
def allocate (cached : Option Bytes) (height : ℕ) : Bytes :=
  let heightToHash := cached.getD []
  let newSize := (height + 1) * 32
  let size := heightToHash.length
  if size > newSize then heightToHash.take newSize
  else heightToHash ++ List.replicate (newSize - size) 0

/-- The summaries read from their file; a missing or malformed file gives no summaries. -/
def readSummaries : Option Bytes → Dict ℕ Bytes
  | none => ∅
  | some b =>
    match SesCache.fromBytes b with
    | .ok content => Dict.ofItems content
    | .error _ => ∅

/-- The entries of the peak itself, which `create` writes before it loads the peak's ancestors. -/
def setPeak (self : BlockHeightMap) (row : BlockRow) : BlockHeightMap :=
  let self := self.setHash row.height row.headerHash
  match row.subEpochSummary with
  | some ses => { self with subEpochSummaries := self.subEpochSummaries.set row.height ses }
  | none => self

/-- `BlockHeightMap.create`: the map and the cache files afterwards. -/
def create (db : BlockDb) (files : CacheFiles) : Except PyError (BlockHeightMap × CacheFiles) := do
  match ← db.peakRow with
  | none => return (empty, files)
  | some row =>
    let self : BlockHeightMap :=
      ⟨allocate files.heightToHash row.height, readSummaries files.subEpochSummaries, 0⟩
    if (← self.getHash row.height) ≠ row.headerHash then
      let self ← (self.setPeak row).loadBlocksFrom db row.height row.prevHash
      self.maybeFlush files
    else return (self, files)

/-! ## The map of a chain -/

/-- The summary in the block at a height of a chain, listed from genesis on. -/
def sesAt (chain : List BlockRow) (h : ℕ) : Option Bytes := chain[h]?.bind BlockRow.subEpochSummary

/-- The map is that of a chain: the array holds its hashes and no more, the dictionary its
summaries and no more. -/
structure Describes (chain : List BlockRow) (m : BlockHeightMap) : Prop where
  heightToHash : m.heightToHash = Records.pack (fun r => r.headerHash.bytes) chain
  subEpochSummaries : ∀ h, m.subEpochSummaries.lookup h = sesAt chain h

/-- The cells of the array at a height. -/
def hashAt (self : BlockHeightMap) (h : ℕ) : Bytes :=
  Records.slice self.heightToHash (h * 32) (h * 32 + 32)

variable {self : BlockHeightMap} {chain : List BlockRow}

lemma sesAt_of_length_le {h : ℕ} (hh : chain.length ≤ h) : sesAt chain h = none := by
  rw [sesAt, List.getElem?_eq_none hh, Option.bind_none]

lemma getHash_eq_ok {h : ℕ} {x : Bytes32} (hlen : h * 32 + 32 ≤ self.heightToHash.length)
    (hx : self.hashAt h = x.bytes) : self.getHash h = .ok x := by
  simp only [hashAt] at hx
  simp only [getHash, if_pos hlen, hx, Bytes32.new, x.length_eq, dite_true]

lemma exists_getHash {h : ℕ} (hlen : h * 32 + 32 ≤ self.heightToHash.length) :
    ∃ x, self.getHash h = .ok x ∧ self.hashAt h = x.bytes := by
  have hsize : (self.hashAt h).length = 32 := by
    simp only [hashAt, Records.slice, List.length_take, List.length_drop]
    omega
  exact ⟨⟨_, hsize⟩, getHash_eq_ok hlen rfl, rfl⟩

namespace Describes

section

variable (hd : Describes chain self)

include hd

lemma length_heightToHash : self.heightToHash.length = chain.length * 32 := by
  rw [hd.heightToHash, Records.length_pack fun r => r.headerHash.length_eq]

lemma hashAt_eq {h : ℕ} {r : BlockRow} (hr : chain[h]? = some r) : self.hashAt h = r.headerHash.bytes := by
  rw [hashAt, hd.heightToHash]
  exact Records.slice_pack (fun r => r.headerHash.length_eq) hr

lemma getHash_eq {h : ℕ} {r : BlockRow} (hr : chain[h]? = some r) : self.getHash h = .ok r.headerHash := by
  obtain ⟨hlt, -⟩ := List.getElem?_eq_some_iff.mp hr
  refine getHash_eq_ok ?_ (hd.hashAt_eq hr)
  rw [hd.length_heightToHash]
  omega

lemma containsHeight_iff (h : ℕ) : self.containsHeight h = true ↔ h < chain.length := by
  rw [containsHeight, hd.length_heightToHash, decide_eq_true_iff]
  omega

lemma mem_getSesHeights (h : ℕ) : h ∈ self.getSesHeights ↔ ∃ s, sesAt chain h = some s := by
  rw [getSesHeights, List.mem_mergeSort, ← AList.mem_keys, Dict.mem_iff_lookup,
    hd.subEpochSummaries, Option.ne_none_iff_exists']

end

end Describes

lemma describes_of_forall (hlen : self.heightToHash.length = chain.length * 32)
    (hhash : ∀ h r, chain[h]? = some r → self.hashAt h = r.headerHash.bytes)
    (hses : ∀ h, self.subEpochSummaries.lookup h = sesAt chain h) : Describes chain self :=
  ⟨Records.eq_pack_of_slice hlen hhash, hses⟩

/-- The heights `get_ses_heights` lists are in order and without repetition. -/
lemma getSesHeights_sorted (self : BlockHeightMap) : self.getSesHeights.Pairwise (· < ·) := by
  have hle : self.getSesHeights.Pairwise (· ≤ ·) := by
    have h := @List.pairwise_mergeSort ℕ (fun a b => decide (a ≤ b))
      (by simpa using fun a b c => Nat.le_trans) (by simpa using Nat.le_total)
      self.subEpochSummaries.keys
    simpa [getSesHeights] using h
  have hnodup : self.getSesHeights.Nodup :=
    (List.mergeSort_perm _ _).nodup_iff.mpr self.subEpochSummaries.keys_nodup
  exact (hle.and hnodup).imp fun h => lt_of_le_of_ne h.1 h.2

lemma lookup_foldl_erase (keys : List ℕ) (d : Dict ℕ Bytes) (h : ℕ) :
    (keys.foldl (fun d k => d.erase k) d).lookup h = if h ∈ keys then none else d.lookup h := by
  induction keys generalizing d with
  | nil => simp
  | cons k keys ih =>
    rw [List.foldl_cons, ih, Dict.lookup_erase_eq]
    by_cases hk : h = k
    · simp [hk]
    · simp [hk]

lemma Describes.rollback (hd : Describes chain self) {forkHeight : ℤ} (hf : -1 ≤ forkHeight) :
    Describes (chain.take (forkHeight + 1).toNat) (self.rollback forkHeight) where
  heightToHash := by
    have hpos : ¬(forkHeight + 1) * 32 < 0 := by omega
    have hmul : ((forkHeight + 1) * 32).toNat = (forkHeight + 1).toNat * 32 := by omega
    rw [BlockHeightMap.rollback, delFrom, if_neg hpos, hmul, hd.heightToHash,
      Records.take_pack fun r => r.headerHash.length_eq]
  subEpochSummaries h := by
    rw [BlockHeightMap.rollback, lookup_foldl_erase, sesAt, List.getElem?_take]
    by_cases hh : h < (forkHeight + 1).toNat
    · have hnot : ¬forkHeight < (h : ℤ) := by omega
      simp only [hh, if_true, List.mem_filter, decide_eq_true_eq, hnot, and_false, if_false]
      exact hd.subEpochSummaries h
    · have hlt : forkHeight < (h : ℤ) := by omega
      rw [if_neg hh, Option.bind_none]
      simp only [List.mem_filter, decide_eq_true_eq, hlt, and_true, ← AList.mem_keys]
      by_cases hmem : h ∈ self.subEpochSummaries
      · rw [if_pos hmem]
      · rw [if_neg hmem]
        exact AList.lookup_eq_none.mpr hmem

/-- `update_height` just above the chain extends it by a block. -/
lemma Describes.updateHeight (hd : Describes chain self) {r : BlockRow}
    (hr : r.height = chain.length) :
    ∃ self', self.updateHeight r.height r.headerHash r.subEpochSummary = .ok self' ∧
      Describes (chain ++ [r]) self' := by
  have hlen := hd.length_heightToHash
  have hle : r.height * 32 ≤ self.heightToHash.length := by rw [hlen, hr]
  refine ⟨_, if_pos hle, ?_, fun h => ?_⟩
  · rw [hd.heightToHash, Records.setSlice_pack (fun r : BlockRow => r.headerHash.length_eq) r, hr,
      List.take_length, List.drop_of_length_le (Nat.le_succ _)]
  · have hsum : sesAt (chain ++ [r]) h =
        if h = r.height then r.subEpochSummary else sesAt chain h := by
      rw [sesAt, sesAt, List.getElem?_append, hr]
      by_cases hh : h = chain.length
      · simp [hh]
      · rw [if_neg hh]
        split
        · rfl
        · rw [List.getElem?_eq_none (l := chain) (by omega), List.getElem?_eq_none (by simp; omega)]
    rw [hsum]
    cases hs : r.subEpochSummary with
    | some s =>
      simp only [Dict.lookup_set, hd.subEpochSummaries]
    | none =>
      simp only [hd.subEpochSummaries]
      split
      · rename_i hh
        rw [hh, hr, sesAt_of_length_le le_rfl]
      · rfl

/-- `update_height` at height 0 replaces a genesis block that has no summary. -/
lemma Describes.replaceGenesis {g r : BlockRow} (hd : Describes [g] self)
    (hg : g.subEpochSummary = none) (hr : r.height = 0) :
    ∃ self', self.updateHeight r.height r.headerHash r.subEpochSummary = .ok self' ∧
      Describes [r] self' := by
  have hle : r.height * 32 ≤ self.heightToHash.length := by omega
  have hempty : ∀ h, sesAt [g] h = none := by
    intro h
    cases h with
    | zero => simp [sesAt, hg]
    | succ h => simp [sesAt]
  refine ⟨_, if_pos hle, ?_, fun h => ?_⟩
  · rw [hd.heightToHash, Records.setSlice_pack (fun r : BlockRow => r.headerHash.length_eq) r, hr]
    rfl
  · cases hs : r.subEpochSummary with
    | some s =>
      simp only [Dict.lookup_set, hd.subEpochSummaries, hempty]
      cases h with
      | zero => simp [sesAt, hs, hr]
      | succ h => simp [sesAt, hr]
    | none =>
      simp only [hd.subEpochSummaries, hempty]
      cases h with
      | zero => simp [sesAt, hs]
      | succ h => simp [sesAt]

lemma dirty_updateHeight {self' : BlockHeightMap} {height : ℕ} {headerHash : Bytes32}
    {ses : Option Bytes} (h : self.updateHeight height headerHash ses = .ok self') :
    self'.dirty = self.dirty := by
  simp only [BlockHeightMap.updateHeight] at h
  split at h
  · rw [← Except.ok.inj h]
  · cases h

end BlockHeightMap

end Chives
