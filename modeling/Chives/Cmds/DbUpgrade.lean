import Chives.FullNode.HeightMapRecovery
import Chives.Library.Batches

set_option autoImplicit false

/-!
# The upgrade of the database

`cmds/db_upgrade_func.py`, `convert_v1_to_v2`: a database of version 1 is read row by row and written as one of
version 2. The blocks of the chain of the peak are found by two cursors, one over the block records and one over the
blocks, both by height from above.

## Main definitions

* `DbUpgrade.V1Db`, `DbUpgrade.V2Db` — what the queries return, and the tables that are written.
* `DbUpgrade.convertV1ToV2` — the conversion.
* `DbUpgrade.Stored`, `DbUpgrade.Cursors` — what the stores of version 1 keep, and the orders in which
  the queries may return it.
* `DbUpgrade.Converted` — the tables of version 2 that belong to it.

## Main results

* `DbUpgrade.blockLoop_eq` — the loop over both cursors finds the chain of the peak.
* `DbUpgrade.converts_iff` — the conversion is right exactly if the peak is not the first block and the clock
  moves from batch to batch.
* `DbUpgrade.not_converts_genesis` — a database with the first block only is not converted.

## Design

The checks of the two paths are left out, and so are the indices that are built at the end. `zstd.compress` and the
readings of the clock are parameters; a reading is only compared with the one before it, in a division by their
difference. Hashes of version 1 are hexadecimal texts.
-/

namespace Chives.DbUpgrade

open ExceptRun Batches ParentTree

/-- The exceptions of the conversion, those of the database among them. -/
inductive UpgradeError
  | runtimeError
  | assertionError
  | valueError
  | zeroDivisionError
  | integrityError
  | operationalError
  deriving DecidableEq, Repr

/-! ## The tables -/

/-- A row of `block_records`, in version 1. -/
structure BlockRecordV1 where
  headerHash : List Char
  prevHash : List Char
  height : ℕ
  block : Bytes
  subEpochSummary : Option Bytes
  isPeak : Bool

/-- A row of `full_blocks`, in version 1. -/
structure FullBlockV1 where
  headerHash : List Char
  height : ℕ
  isFullyCompactified : Bool
  block : Bytes

/-- A row of `coin_record`, in version 1. -/
structure CoinRecordV1 where
  coinName : List Char
  confirmedIndex : ℕ
  spentIndex : ℕ
  coinbase : Bool
  puzzleHash : List Char
  coinParent : List Char
  amount : Bytes
  timestamp : ℕ

/-- What the queries return: block records and blocks by height from above, and everything else in any order. There
may be no table of hints. -/
structure V1Db where
  databaseVersion : Option ℕ
  blockRecords : List BlockRecordV1
  fullBlocks : List FullBlockV1
  subEpochSegments : List (List Char × Bytes)
  hints : Option (List (Bytes × Bytes))
  coinRecords : List CoinRecordV1

/-- A row of `full_blocks`, in version 2. -/
structure FullBlockV2 where
  headerHash : Bytes32
  prevHash : Bytes32
  height : ℕ
  subEpochSummary : Option Bytes
  isFullyCompactified : Bool
  inMainChain : Bool
  block : Bytes
  blockRecord : Bytes

/-- A row of `coin_record`, in version 2. -/
structure CoinRecordV2 where
  coinName : Bytes
  confirmedIndex : ℕ
  spentIndex : ℕ
  coinbase : Bool
  puzzleHash : Bytes
  coinParent : Bytes
  amount : Bytes
  timestamp : ℕ

/-- The tables of version 2. -/
structure V2Db where
  databaseVersion : List ℕ
  fullBlocks : List FullBlockV2
  currentPeak : List (ℕ × Bytes32)
  subEpochSegments : List (Bytes32 × Bytes)
  hints : List (Bytes × Bytes)
  coinRecords : List CoinRecordV2

/-- `INSERT OR REPLACE INTO full_blocks`. -/
def insertFullBlock (t : V2Db) (row : FullBlockV2) : Except UpgradeError V2Db :=
  .ok { t with fullBlocks := t.fullBlocks.filter (fun r => r.headerHash ≠ row.headerHash) ++ [row] }

/-- `INSERT INTO sub_epoch_segments_v3`. -/
def insertSegments (t : V2Db) (row : Bytes32 × Bytes) : Except UpgradeError V2Db :=
  if t.subEpochSegments.any (fun r => r.1 = row.1) then .error .integrityError
  else .ok { t with subEpochSegments := t.subEpochSegments ++ [row] }

/-- `INSERT OR IGNORE INTO hints`. -/
def insertHint (t : V2Db) (row : Bytes × Bytes) : Except UpgradeError V2Db :=
  if row ∈ t.hints then .ok t else .ok { t with hints := t.hints ++ [row] }

/-- `INSERT INTO coin_record`. -/
def insertCoin (t : V2Db) (row : CoinRecordV2) : Except UpgradeError V2Db :=
  if t.coinRecords.any (fun r => r.coinName = row.coinName) then .error .integrityError
  else .ok { t with coinRecords := t.coinRecords ++ [row] }

/-! ## The conversion -/

/-- `bytes.fromhex(s)`. -/
def fromHex (s : List Char) : Except UpgradeError Bytes :=
  match Hex.decode s with
  | some b => .ok b
  | none => .error .valueError

/-- `bytes32.fromhex(s)`. -/
def hashFromHex (s : List Char) : Except UpgradeError Bytes32 :=
  (bytes32FromHex s).mapError fun _ => .valueError

/-- Whether the division by the time since the batch before succeeds. -/
def ticks (clock : ℕ → ℤ) (k : ℕ) : Bool := clock (k + 1) - clock k ≠ 0

/-- `BLOCK_COMMIT_RATE`. -/
def blockCommitRate : ℕ := 10000

/-- `SES_COMMIT_RATE`. -/
def sesCommitRate : ℕ := 2000

/-- `HINT_COMMIT_RATE`. -/
def hintCommitRate : ℕ := 2000

/-- `COIN_COMMIT_RATE`. -/
def coinCommitRate : ℕ := 30000

/-- The row of the peak. -/
def findPeak (db : V1Db) : Except UpgradeError (Bytes32 × ℕ) :=
  match db.blockRecords.find? (fun r => r.isPeak) with
  | none => .error .runtimeError
  | some row => do
    let peakHash ← hashFromHex row.headerHash
    if row.height < 2 ^ 32 then .ok (peakHash, row.height) else .error .valueError

/-- The second cursor goes on until it finds a header hash. -/
def fetchUntil (hh : Bytes32) : List FullBlockV1 → Except UpgradeError (FullBlockV1 × List FullBlockV1)
  | [] => .error .runtimeError
  | row :: rows => do
    let headerHash ← fromHex row.headerHash
    if headerHash = hh.bytes then .ok (row, rows) else fetchUntil hh rows

/-- The report of the progress, and the row. -/
def addBlock (peakHeight : ℕ) (clock : ℕ → ℤ) (b : Batch V2Db FullBlockV2) (row : FullBlockV2) :
    Except UpgradeError (Batch V2Db FullBlockV2) :=
  if row.height % 1000 = 0 ∧ peakHeight = 0 then .error .zeroDivisionError
  else b.add .operationalError .zeroDivisionError blockCommitRate insertFullBlock (ticks clock) row

/-- The loop over the block records. -/
def blockLoop (compress : Bytes → Bytes) (peakHeight : ℕ) (clock : ℕ → ℤ) :
    List BlockRecordV1 → ℤ → Bytes32 → List FullBlockV1 → Batch V2Db FullBlockV2 →
      Except UpgradeError (Batch V2Db FullBlockV2)
  | [], _, _, _, b => .ok b
  | row :: rows, height, hh, cursor2, b => do
    let headerHash ← fromHex row.headerHash
    if headerHash ≠ hh.bytes then blockLoop compress peakHeight clock rows height hh cursor2 b
    else do
      let found ← fetchUntil hh cursor2
      if (found.1.height : ℤ) ≠ height - 1 then .error .assertionError
      else do
        let prevHash ← hashFromHex row.prevHash
        let b ← addBlock peakHeight clock b ⟨hh, prevHash, found.1.height, row.subEpochSummary,
          found.1.isFullyCompactified, true, compress found.1.block, row.block⟩
        blockLoop compress peakHeight clock rows found.1.height prevHash found.2 b

/-- `[1/5] converting full_blocks`. -/
def convertBlocks (compress : Bytes → Bytes) (clock : ℕ → ℤ) (db : V1Db) (peakHash : Bytes32) (peakHeight : ℕ)
    (out : Session V2Db) : Except UpgradeError (Session V2Db) := do
  let out ← out.begin .operationalError
  let b ← blockLoop compress peakHeight clock db.blockRecords (peakHeight + 1) peakHash db.fullBlocks
    (Batch.start blockCommitRate out)
  b.finish insertFullBlock

section Rows

variable {σ ρ : Type} (rate : ℕ) (insert : V2Db → ρ → Except UpgradeError V2Db) (measured : ℕ → Bool)
  (convert : σ → Except UpgradeError ρ)

/-- A loop that converts rows one by one. -/
def convertRows (out : Session V2Db) (rows : List σ) : Except UpgradeError (Session V2Db) := do
  let out ← out.begin .operationalError
  let b ← rows.foldlM (fun b row => do
    let value ← convert row
    Batch.add .operationalError .zeroDivisionError rate insert measured b value) (Batch.start rate out)
  b.finish insert

end Rows

/-- The row of the segments of a sub-epoch. -/
def convertSegment (row : List Char × Bytes) : Except UpgradeError (Bytes32 × Bytes) := do
  let blockHash ← hashFromHex row.1
  return (blockHash, row.2)

/-- `[2/5] converting sub_epoch_segments_v3`. -/
def convertSegments (db : V1Db) (out : Session V2Db) : Except UpgradeError (Session V2Db) :=
  convertRows sesCommitRate insertSegments (fun _ => true) convertSegment out db.subEpochSegments

/-- `[3/5] converting hint_store`. Without a table of hints, an empty list is written. -/
def convertHints (db : V1Db) (out : Session V2Db) : Except UpgradeError (Session V2Db) :=
  match db.hints with
  | some hints => convertRows hintCommitRate insertHint (fun _ => true) .ok out hints
  | none => do
    let out ← out.executemany insertHint []
    return out.commit

/-- The row of a coin. A coin that was spent after the peak becomes an unspent one. -/
def convertCoin (peakHeight : ℕ) (row : CoinRecordV1) : Except UpgradeError CoinRecordV2 := do
  let coinName ← fromHex row.coinName
  let puzzleHash ← fromHex row.puzzleHash
  let coinParent ← fromHex row.coinParent
  return ⟨coinName, row.confirmedIndex, if row.spentIndex > peakHeight then 0 else row.spentIndex, row.coinbase,
    puzzleHash, coinParent, row.amount, row.timestamp⟩

/-- `[4/5] converting coin_store`. -/
def convertCoins (clock : ℕ → ℤ) (db : V1Db) (peakHeight : ℕ) (out : Session V2Db) :
    Except UpgradeError (Session V2Db) :=
  convertRows coinCommitRate insertCoin (ticks clock) (convertCoin peakHeight) out
    (db.coinRecords.filter fun row => row.confirmedIndex ≤ peakHeight)

/-- A new database, after its version is written. -/
def newDb : Session V2Db := ⟨⟨[2], [], [], [], [], []⟩, ⟨[], [], [], [], [], []⟩, true⟩

/-- `convert_v1_to_v2`. -/
def convertV1ToV2 (compress : Bytes → Bytes) (blockClock coinClock : ℕ → ℤ) (db : V1Db) :
    Except UpgradeError V2Db :=
  if db.databaseVersion.any (fun v => v ≠ 1) then .error .runtimeError
  else do
    let peak ← findPeak db
    let out : Session V2Db :=
      Session.commit { newDb with tables := { newDb.tables with currentPeak := [(0, peak.1)] } }
    let out ← convertBlocks compress blockClock db peak.1 peak.2 out
    let out ← convertSegments db out
    let out ← convertHints db out
    let out ← convertCoins coinClock db peak.2 out
    return out.committed

/-! ## What the stores of version 1 keep -/

/-- A block that is stored. -/
structure StoredBlock where
  headerHash : Bytes32
  prevHash : Bytes32
  height : ℕ
  blockRecord : Bytes
  subEpochSummary : Option Bytes
  isFullyCompactified : Bool
  block : Bytes

/-- A coin that is stored. -/
structure StoredCoin where
  coinName : Bytes32
  confirmedIndex : ℕ
  spentIndex : ℕ
  coinbase : Bool
  puzzleHash : Bytes32
  coinParent : Bytes32
  amount : Bytes
  timestamp : ℕ

/-- What the stores of version 1 keep: a tree of blocks in which every block above height 0 has its parent, with one
of them as the peak, and tables with primary keys. -/
structure Stored where
  databaseVersion : Option ℕ
  version_eq : ∀ v, databaseVersion = some v → v = 1
  blocks : List StoredBlock
  keyed : Table.Keyed StoredBlock.headerHash blocks
  linked : ∀ r ∈ blocks, r.height ≠ 0 → ∃ p ∈ blocks, p.headerHash = r.prevHash ∧ r.height = p.height + 1
  rooted : ∀ r ∈ blocks, r.height = 0 → ∀ p ∈ blocks, p.headerHash ≠ r.prevHash
  height_lt : ∀ r ∈ blocks, r.height < 2 ^ 32
  peak : StoredBlock
  peak_mem : peak ∈ blocks
  segments : List (Bytes32 × Bytes)
  segments_keyed : Table.Keyed Prod.fst segments
  hints : Option (List (Bytes × Bytes))
  coins : List StoredCoin
  coins_keyed : Table.Keyed StoredCoin.coinName coins

/-- The orders in which the queries return the rows: `ORDER BY height DESC` leaves open the order of rows of the
same height, and the other queries any order. -/
structure Cursors (stored : Stored) where
  records : List StoredBlock
  records_perm : records.Perm stored.blocks
  records_sorted : records.Pairwise fun a b => b.height ≤ a.height
  blocks : List StoredBlock
  blocks_perm : blocks.Perm stored.blocks
  blocks_sorted : blocks.Pairwise fun a b => b.height ≤ a.height
  segments : List (Bytes32 × Bytes)
  segments_perm : segments.Perm stored.segments
  coins : List StoredCoin
  coins_perm : coins.Perm stored.coins

/-- The block record of a block, in version 1. -/
def StoredBlock.recordV1 (peak r : StoredBlock) : BlockRecordV1 :=
  ⟨Hex.encode r.headerHash.bytes, Hex.encode r.prevHash.bytes, r.height, r.blockRecord, r.subEpochSummary,
    r.headerHash = peak.headerHash⟩

/-- The row of a block, in version 1. -/
def StoredBlock.fullBlockV1 (r : StoredBlock) : FullBlockV1 :=
  ⟨Hex.encode r.headerHash.bytes, r.height, r.isFullyCompactified, r.block⟩

/-- The row of a coin, in version 1. -/
def StoredCoin.recordV1 (r : StoredCoin) : CoinRecordV1 :=
  ⟨Hex.encode r.coinName.bytes, r.confirmedIndex, r.spentIndex, r.coinbase, Hex.encode r.puzzleHash.bytes,
    Hex.encode r.coinParent.bytes, r.amount, r.timestamp⟩

/-- What the queries return. -/
def Cursors.toDb {stored : Stored} (c : Cursors stored) : V1Db where
  databaseVersion := stored.databaseVersion
  blockRecords := c.records.map (StoredBlock.recordV1 stored.peak)
  fullBlocks := c.blocks.map StoredBlock.fullBlockV1
  subEpochSegments := c.segments.map fun row => (Hex.encode row.1.bytes, row.2)
  hints := stored.hints
  coinRecords := c.coins.map StoredCoin.recordV1

/-- The row of a block of the main chain, in version 2. -/
def StoredBlock.fullBlockV2 (compress : Bytes → Bytes) (r : StoredBlock) : FullBlockV2 :=
  ⟨r.headerHash, r.prevHash, r.height, r.subEpochSummary, r.isFullyCompactified, true, compress r.block,
    r.blockRecord⟩

/-- The row of a coin, in version 2, for a peak height. -/
def StoredCoin.recordV2 (peakHeight : ℕ) (r : StoredCoin) : CoinRecordV2 :=
  ⟨r.coinName.bytes, r.confirmedIndex, if r.spentIndex ≤ peakHeight then r.spentIndex else 0, r.coinbase,
    r.puzzleHash.bytes, r.coinParent.bytes, r.amount, r.timestamp⟩

/-- The parent pointers of stored blocks. -/
def blockLinks : Links Bytes32 StoredBlock :=
  ⟨StoredBlock.headerHash, StoredBlock.prevHash, StoredBlock.height⟩

namespace Stored

variable {stored : Stored}

/-- The block with a header hash. -/
def find (stored : Stored) : Bytes32 → Option StoredBlock := Table.find StoredBlock.headerHash stored.blocks

/-- The chain of a block: its ancestors from height 0 on, and the block. -/
def Chain (stored : Stored) (r : StoredBlock) (l : List StoredBlock) : Prop := Path blockLinks stored.find r l

/-- The coins that were confirmed up to the peak. -/
def confirmed (stored : Stored) (coins : List StoredCoin) : List StoredCoin :=
  coins.filter fun r => r.confirmedIndex ≤ stored.peak.height

variable {r : StoredBlock}

lemma find_eq_some {hash : Bytes32} : stored.find hash = some r ↔ r ∈ stored.blocks ∧ r.headerHash = hash :=
  stored.keyed.find_eq_some

lemma exists_chain (hr : r ∈ stored.blocks) : ∃ l, stored.Chain r l := by
  obtain ⟨n, hn⟩ : ∃ n, r.height = n := ⟨_, rfl⟩
  induction n generalizing r with
  | zero => exact ⟨[r], .root hn⟩
  | succ n ih =>
    obtain ⟨p, hp, hhash, hheight⟩ := stored.linked r hr (by omega)
    obtain ⟨l, hl⟩ := ih hp (by omega)
    exact ⟨l ++ [r], .step (find_eq_some.mpr ⟨hp, hhash⟩) hheight hl⟩

lemma Chain.mem_blocks {x : StoredBlock} {l : List StoredBlock} (hl : stored.Chain r l) (hr : r ∈ stored.blocks)
    (hx : x ∈ l) : x ∈ stored.blocks := by
  have hstored := Path.stored_of_stored (fun h => (find_eq_some.mp h).2) hl (find_eq_some.mpr ⟨hr, rfl⟩) x hx
  exact (find_eq_some.mp hstored).1

end Stored

/-- **The upgraded database.** The blocks are the chain of the peak, the peak is the one of version 1, and the coins
are those confirmed up to the peak, unspent if they were spent later. -/
structure Converted (compress : Bytes → Bytes) (stored : Stored) (out : V2Db) : Prop where
  fullBlocks : ∃ l, stored.Chain stored.peak l ∧
    out.fullBlocks.Perm (l.map (StoredBlock.fullBlockV2 compress))
  currentPeak : out.currentPeak = [(0, stored.peak.headerHash)]
  coinRecords : out.coinRecords.Perm
    ((stored.confirmed stored.coins).map (StoredCoin.recordV2 stored.peak.height))

/-! ## The chain of the peak -/

section Blocks

variable {stored : Stored} {compress : Bytes → Bytes} {peakHeight : ℕ} {clock : ℕ → ℤ}

lemma fromHex_encode (b : Bytes) : fromHex (Hex.encode b) = .ok b := by
  rw [fromHex, Hex.decode_encode]

lemma hashFromHex_encode (h : Bytes32) : hashFromHex (Hex.encode h.bytes) = .ok h := by
  rw [hashFromHex, BlockTree.bytes32FromHex_encode]
  rfl

lemma hash_eq_iff {a b : Bytes32} : a.bytes = b.bytes ↔ a = b :=
  ⟨fun h => Bytes32.bytes_injective h, fun h => by rw [h]⟩

variable {r : StoredBlock} {blocks : List StoredBlock}

lemma fetchUntil_eq (hkey : ∀ x ∈ blocks, x.headerHash = r.headerHash → x = r) (hr : r ∈ blocks)
    (hsorted : blocks.Pairwise fun a b => b.height ≤ a.height) :
    ∃ rest : List StoredBlock, fetchUntil r.headerHash (blocks.map StoredBlock.fullBlockV1) =
        .ok (r.fullBlockV1, rest.map StoredBlock.fullBlockV1) ∧
      rest.Sublist blocks ∧ ∀ x ∈ blocks, x.height < r.height → x ∈ rest := by
  induction blocks with
  | nil => cases hr
  | cons x blocks ih =>
    rw [List.map_cons, fetchUntil, StoredBlock.fullBlockV1, fromHex_encode, ok_bind]
    by_cases hx : x.headerHash = r.headerHash
    · obtain rfl := hkey x List.mem_cons_self hx
      rw [if_pos rfl]
      refine ⟨blocks, rfl, List.sublist_cons_self _ _, fun y hy hlt => ?_⟩
      rcases List.mem_cons.mp hy with rfl | hy
      · exact absurd hlt (lt_irrefl _)
      · exact hy
    · rw [if_neg (fun heq => hx (hash_eq_iff.mp heq))]
      have hr' : r ∈ blocks := by
        rcases List.mem_cons.mp hr with rfl | hr
        · exact absurd rfl hx
        · exact hr
      obtain ⟨rest, hfetch, hsub, hbelow⟩ := ih (fun y hy => hkey y (List.mem_cons_of_mem _ hy)) hr'
        (List.pairwise_cons.mp hsorted).2
      refine ⟨rest, hfetch, hsub.trans (List.sublist_cons_self _ _), fun y hy hlt => ?_⟩
      rcases List.mem_cons.mp hy with rfl | hy
      · have := (List.pairwise_cons.mp hsorted).1 r hr'
        omega
      · exact hbelow y hy hlt

variable {records : List StoredBlock}

lemma blockLoop_done {hh : Bytes32} (peak : StoredBlock) (hnone : ∀ x ∈ records, x.headerHash ≠ hh) (height : ℤ)
    (cursor2 : List FullBlockV1) (b : Batch V2Db FullBlockV2) :
    blockLoop compress peakHeight clock (records.map (StoredBlock.recordV1 peak)) height hh cursor2 b = .ok b := by
  induction records with
  | nil => rfl
  | cons x records ih =>
    rw [List.map_cons, blockLoop, StoredBlock.recordV1, fromHex_encode, ok_bind,
      if_pos (fun heq => hnone x List.mem_cons_self (hash_eq_iff.mp heq))]
    exact ih fun y hy => hnone y (List.mem_cons_of_mem _ hy)

variable {l : List StoredBlock}

lemma height_lt_of_mem {p x : StoredBlock} (hl : stored.Chain p l) (hh : r.height = p.height + 1) (hx : x ∈ l) :
    x.height < r.height := by
  have hget := Path.getElem?_height hl hx
  have hlt := (List.getElem?_eq_some_iff.mp hget).1
  have hlen := Path.length_eq hl
  have hlt' : x.height < l.length := hlt
  have hlen' : l.length = p.height + 1 := hlen
  omega

/-- **The loop over both cursors** takes the chain of a block, from above.

**Proof sketch.** By induction on the first cursor: block records of other blocks are skipped, and none of them is on
the chain, since the record of the block itself is not lower. When the block is found, the second cursor finds it
too, and passes no block below it. -/
lemma blockLoop_eq (compress : Bytes → Bytes) (peakHeight : ℕ) (clock : ℕ → ℤ) (peak : StoredBlock)
    (hl : stored.Chain r l) (hrecords : ∀ x ∈ l, x ∈ records) (hblocks : ∀ x ∈ l, x ∈ blocks)
    (hsubRecords : ∀ x ∈ records, x ∈ stored.blocks) (hsubBlocks : ∀ x ∈ blocks, x ∈ stored.blocks)
    (hsortedRecords : records.Pairwise fun a b => b.height ≤ a.height)
    (hsortedBlocks : blocks.Pairwise fun a b => b.height ≤ a.height) (b : Batch V2Db FullBlockV2) :
    blockLoop compress peakHeight clock (records.map (StoredBlock.recordV1 peak)) (r.height + 1) r.headerHash
        (blocks.map StoredBlock.fullBlockV1) b =
      (l.reverse.map (StoredBlock.fullBlockV2 compress)).foldlM (addBlock peakHeight clock) b := by
  induction records generalizing r l blocks b with
  | nil => cases hrecords r (Path.mem_self hl)
  | cons x records ih =>
    have hrmem := Path.mem_self hl
    have hx := hsubRecords x List.mem_cons_self
    have hr := hsubRecords r (hrecords r hrmem)
    have hsub : ∀ y ∈ records, y ∈ stored.blocks := fun y hy => hsubRecords y (List.mem_cons_of_mem _ hy)
    obtain ⟨hhead, htail⟩ := List.pairwise_cons.mp hsortedRecords
    rw [List.map_cons, blockLoop, StoredBlock.recordV1, fromHex_encode, ok_bind]
    by_cases hhash : x.headerHash = r.headerHash
    · obtain rfl := stored.keyed.eq_of_key_eq hx hr hhash
      rw [if_neg (fun hne => hne rfl)]
      obtain ⟨rest, hfetch, hrest, hbelow⟩ := fetchUntil_eq
        (fun y hy heq => stored.keyed.eq_of_key_eq (hsubBlocks y hy) hx heq) (hblocks x hrmem) hsortedBlocks
      rw [hfetch, ok_bind, if_neg (by simp [StoredBlock.fullBlockV1]), hashFromHex_encode, ok_bind]
      cases hl with
      | root h =>
        rw [List.reverse_singleton, List.map_singleton, List.foldlM_cons]
        refine bind_congr_ok fun b' _ => ?_
        rw [blockLoop_done peak (fun y hy => stored.rooted x hx h y (hsub y hy)), List.foldlM_nil]
        rfl
      | step hp hh hl =>
        rename_i p l
        have hlow : ∀ y ∈ l, y.height < x.height := fun y hy => height_lt_of_mem hl hh hy
        rw [List.reverse_concat, List.map_cons, List.foldlM_cons]
        refine bind_congr_ok fun b' _ => ?_
        have hprev : x.prevHash = p.headerHash := (Stored.find_eq_some.mp hp).2.symm
        have hheight : ((x.fullBlockV1.height : ℕ) : ℤ) = p.height + 1 := by
          show ((x.height : ℕ) : ℤ) = p.height + 1
          have : x.height = p.height + 1 := hh
          omega
        rw [hprev, hheight]
        refine ih hl (fun y hy => ?_) (fun y hy => ?_) hsub (fun y hy => hsubBlocks y (hrest.subset hy)) htail
          (hsortedBlocks.sublist hrest) b'
        · rcases List.mem_cons.mp (hrecords y (List.mem_append_left _ hy)) with rfl | hmem
          · exact absurd (hlow y hy) (lt_irrefl _)
          · exact hmem
        · exact hbelow y (hblocks y (List.mem_append_left _ hy)) (hlow y hy)
    · rw [if_pos (fun heq => hhash (hash_eq_iff.mp heq))]
      refine ih hl (fun y hy => ?_) hblocks hsub hsubBlocks htail hsortedBlocks b
      rcases List.mem_cons.mp (hrecords y hy) with rfl | hmem
      · -- the block itself comes later, so a block of the chain is not passed
        exfalso
        have hr' : r ∈ records := by
          rcases List.mem_cons.mp (hrecords r hrmem) with rfl | hr'
          · exact absurd rfl hhash
          · exact hr'
        have hle := hhead r hr'
        have hget := Path.getElem?_height hl hy
        have hget' := Path.getElem?_height hl hrmem
        have hlen : l.length = r.height + 1 := Path.length_eq hl
        have hlt : y.height < l.length := (List.getElem?_eq_some_iff.mp hget).1
        have heq : y.height = r.height := by omega
        have hsame : blockLinks.height y = blockLinks.height r := heq
        rw [hsame, hget'] at hget
        exact hhash (congrArg StoredBlock.headerHash (Option.some.inj hget)).symm
      · exact hmem

lemma key_ne_of_nodup {ρ κ : Type} {key : ρ → κ} {old rows : List ρ} {row : ρ}
    (h : ((old ++ row :: rows).map key).Nodup) : ∀ r ∈ old, key r ≠ key row := by
  intro r hr heq
  rw [List.map_append, List.map_cons] at h
  have hmem : key r ∈ key row :: rows.map key := by
    rw [heq]
    exact List.mem_cons_self
  exact List.disjoint_of_nodup_append h (List.mem_map_of_mem hr) hmem

lemma foldlM_insertFullBlock {rows : List FullBlockV2} {t : V2Db}
    (hnodup : ((t.fullBlocks ++ rows).map FullBlockV2.headerHash).Nodup) :
    rows.foldlM insertFullBlock t = .ok { t with fullBlocks := t.fullBlocks ++ rows } := by
  induction rows generalizing t with
  | nil => rw [List.append_nil]; rfl
  | cons row rows ih =>
    have hsplit : t.fullBlocks ++ row :: rows = (t.fullBlocks ++ [row]) ++ rows := by simp
    have hfilter : t.fullBlocks.filter (fun r => r.headerHash ≠ row.headerHash) = t.fullBlocks := by
      refine List.filter_eq_self.mpr fun r hr => ?_
      simpa using key_ne_of_nodup hnodup r hr
    rw [List.foldlM_cons, insertFullBlock, ok_bind, hfilter, ih (by rwa [hsplit] at hnodup), hsplit]

lemma nodup_chain (hl : stored.Chain r l) (hr : r ∈ stored.blocks) : (l.map StoredBlock.headerHash).Nodup := by
  have hheights : l.map StoredBlock.height = List.range l.length := by
    refine List.ext_getElem? fun i => ?_
    rw [List.getElem?_map]
    by_cases hi : i < l.length
    · rw [List.getElem?_eq_getElem hi, List.getElem?_range hi]
      exact congrArg some (Path.getElem hl (List.getElem?_eq_getElem hi)).1
    · rw [List.getElem?_eq_none (by omega), List.getElem?_eq_none (by simpa using hi)]
      rfl
  have hnodup : l.Nodup := by
    refine List.Nodup.of_map StoredBlock.height ?_
    rw [hheights]
    exact List.nodup_range
  refine hnodup.map_on fun x hx y hy heq => ?_
  exact stored.keyed.eq_of_key_eq (hl.mem_blocks hr hx) (hl.mem_blocks hr hy) heq

/-- **The blocks of the upgraded database** are the chain of the peak, unless its height is 0 or the clock stands
still. -/
lemma convertBlocks_eq (c : Cursors stored) (hl : stored.Chain stored.peak l) {out : Session V2Db}
    (hout : out.inTransaction = false) (hempty : out.tables.fullBlocks = []) :
    convertBlocks compress clock c.toDb stored.peak.headerHash stored.peak.height out =
      if stored.peak.height ≠ 0 ∧ ∀ k < (stored.peak.height + 1) / blockCommitRate, ticks clock k = true then
        .ok ⟨{ out.tables with fullBlocks := l.reverse.map (StoredBlock.fullBlockV2 compress) },
          { out.tables with fullBlocks := l.reverse.map (StoredBlock.fullBlockV2 compress) }, false⟩
      else .error .zeroDivisionError := by
  have hbegin : out.begin UpgradeError.operationalError = .ok { out with inTransaction := true } := by
    rw [Session.begin, hout]
    rfl
  have hmem : ∀ x ∈ l, x ∈ stored.blocks := fun x hx => hl.mem_blocks stored.peak_mem hx
  have hloop := blockLoop_eq compress stored.peak.height clock stored.peak hl
    (fun x hx => c.records_perm.mem_iff.mpr (hmem x hx)) (fun x hx => c.blocks_perm.mem_iff.mpr (hmem x hx))
    (fun x hx => c.records_perm.mem_iff.mp hx) (fun x hx => c.blocks_perm.mem_iff.mp hx)
    c.records_sorted c.blocks_sorted (Batch.start blockCommitRate { out with inTransaction := true })
  by_cases hzero : stored.peak.height = 0
  · rw [if_neg (fun h => h.1 hzero), convertBlocks, hbegin, ok_bind]
    show (blockLoop compress stored.peak.height clock (c.records.map _) _ _ (c.blocks.map _) _ >>= _) = _
    rw [hloop]
    cases hl with
    | root _ =>
      have hmod : (stored.peak.fullBlockV2 compress).height % 1000 = 0 := by
        show stored.peak.height % 1000 = 0
        rw [hzero]
      rw [List.reverse_singleton, List.map_singleton, List.foldlM_cons, addBlock, if_pos ⟨hmod, hzero⟩]
      rfl
    | step _ hh _ =>
      have : stored.peak.height = _ + 1 := hh
      omega
  · have hadd : addBlock stored.peak.height clock =
        Batch.add .operationalError .zeroDivisionError blockCommitRate insertFullBlock (ticks clock) := by
      funext b row
      rw [addBlock, if_neg (fun h => hzero h.2)]
    have hbatches : convertBlocks compress clock c.toDb stored.peak.headerHash stored.peak.height out =
        insertInBatches .operationalError .zeroDivisionError blockCommitRate insertFullBlock (ticks clock) out
          (l.reverse.map (StoredBlock.fullBlockV2 compress)) := by
      rw [convertBlocks, insertInBatches, hbegin, ok_bind, ok_bind, ← hadd, ← hloop]
      rfl
    have hnodup : ((l.reverse.map (StoredBlock.fullBlockV2 compress)).map FullBlockV2.headerHash).Nodup := by
      rw [List.map_map, List.map_reverse, List.nodup_reverse]
      exact nodup_chain hl stored.peak_mem
    have hinsert : (l.reverse.map (StoredBlock.fullBlockV2 compress)).foldlM insertFullBlock out.tables =
        .ok { out.tables with fullBlocks := l.reverse.map (StoredBlock.fullBlockV2 compress) } := by
      rw [foldlM_insertFullBlock (by rw [hempty, List.nil_append]; exact hnodup), hempty, List.nil_append]
    rw [hbatches, insertInBatches_eq (by decide) hout hinsert, List.length_map, List.length_reverse]
    have hlen : l.length = stored.peak.height + 1 := Path.length_eq hl
    rw [hlen]
    simp [hzero]

end Blocks

/-! ## The other tables -/

section Rows

variable {stored : Stored}

lemma convertRows_map {π σ ρ : Type} (rate : ℕ) (insert : V2Db → ρ → Except UpgradeError V2Db) (measured : ℕ → Bool)
    {convert : σ → Except UpgradeError ρ} {g : π → σ} {f : π → ρ} (hconvert : ∀ x, convert (g x) = .ok (f x))
    (out : Session V2Db) (rows : List π) :
    convertRows rate insert measured convert out (rows.map g) =
      insertInBatches .operationalError .zeroDivisionError rate insert measured out (rows.map f) := by
  have hfold : ∀ b : Batch V2Db ρ, (rows.map g).foldlM (fun b row => do
      let value ← convert row
      Batch.add .operationalError .zeroDivisionError rate insert measured b value) b =
      (rows.map f).foldlM (Batch.add .operationalError .zeroDivisionError rate insert measured) b := by
    intro b
    induction rows generalizing b with
    | nil => rfl
    | cons row rows ih =>
      rw [List.map_cons, List.map_cons, List.foldlM_cons, List.foldlM_cons, hconvert, ok_bind]
      exact bind_congr_ok fun b' _ => ih b'
  rw [convertRows, insertInBatches]
  refine bind_congr_ok fun out' _ => ?_
  rw [hfold]

lemma foldlM_insertSegments {rows : List (Bytes32 × Bytes)} {t : V2Db}
    (hnodup : ((t.subEpochSegments ++ rows).map Prod.fst).Nodup) :
    rows.foldlM insertSegments t = .ok { t with subEpochSegments := t.subEpochSegments ++ rows } := by
  induction rows generalizing t with
  | nil => rw [List.append_nil]; rfl
  | cons row rows ih =>
    have hsplit : t.subEpochSegments ++ row :: rows = (t.subEpochSegments ++ [row]) ++ rows := by simp
    have hnew : ¬(t.subEpochSegments.any fun r => r.1 = row.1) = true := by
      rw [List.any_eq_true]
      rintro ⟨r, hr, heq⟩
      exact key_ne_of_nodup hnodup r hr (of_decide_eq_true heq)
    rw [List.foldlM_cons, insertSegments, if_neg hnew, ok_bind, ih (by rwa [hsplit] at hnodup), hsplit]

lemma foldlM_insertCoin {rows : List CoinRecordV2} {t : V2Db}
    (hnodup : ((t.coinRecords ++ rows).map CoinRecordV2.coinName).Nodup) :
    rows.foldlM insertCoin t = .ok { t with coinRecords := t.coinRecords ++ rows } := by
  induction rows generalizing t with
  | nil => rw [List.append_nil]; rfl
  | cons row rows ih =>
    have hsplit : t.coinRecords ++ row :: rows = (t.coinRecords ++ [row]) ++ rows := by simp
    have hnew : ¬(t.coinRecords.any fun r => r.coinName = row.coinName) = true := by
      rw [List.any_eq_true]
      rintro ⟨r, hr, heq⟩
      exact key_ne_of_nodup hnodup r hr (of_decide_eq_true heq)
    rw [List.foldlM_cons, insertCoin, if_neg hnew, ok_bind, ih (by rwa [hsplit] at hnodup), hsplit]

lemma foldlM_insertHint (rows : List (Bytes × Bytes)) (t : V2Db) :
    ∃ hints, rows.foldlM insertHint t = .ok { t with hints := hints } := by
  induction rows generalizing t with
  | nil => exact ⟨t.hints, rfl⟩
  | cons row rows ih =>
    rw [List.foldlM_cons, insertHint]
    by_cases hmem : row ∈ t.hints
    · rw [if_pos hmem, ok_bind]
      exact ih t
    · rw [if_neg hmem, ok_bind]
      exact ih _

variable {out : Session V2Db}

lemma convertSegments_eq (c : Cursors stored) (hout : out.inTransaction = false)
    (hempty : out.tables.subEpochSegments = []) :
    convertSegments c.toDb out = .ok ⟨{ out.tables with subEpochSegments := c.segments },
      { out.tables with subEpochSegments := c.segments }, false⟩ := by
  have hconvert : ∀ row : Bytes32 × Bytes, convertSegment (Hex.encode row.1.bytes, row.2) = .ok (id row) := by
    intro row
    rw [convertSegment, hashFromHex_encode]
    rfl
  have hnodup : (c.segments.map Prod.fst).Nodup :=
    (c.segments_perm.map Prod.fst).nodup_iff.mpr stored.segments_keyed
  have hinsert : c.segments.foldlM insertSegments out.tables =
      .ok { out.tables with subEpochSegments := c.segments } := by
    rw [foldlM_insertSegments (by rw [hempty, List.nil_append]; exact hnodup), hempty, List.nil_append]
  have hloop := convertRows_map sesCommitRate insertSegments (fun _ => true) hconvert out c.segments
  rw [List.map_id, insertInBatches_eq (by decide) hout hinsert, if_pos fun _ _ => rfl] at hloop
  exact hloop

lemma convertHints_eq (db : V1Db) (out : Session V2Db) (hout : out.inTransaction = false) :
    ∃ hints, convertHints db out =
      .ok ⟨{ out.tables with hints := hints }, { out.tables with hints := hints }, false⟩ := by
  rw [convertHints]
  cases db.hints with
  | none => exact ⟨out.tables.hints, rfl⟩
  | some rows =>
    obtain ⟨hints, hinsert⟩ := foldlM_insertHint rows out.tables
    refine ⟨hints, ?_⟩
    have hconvert : ∀ row : Bytes × Bytes, (Except.ok (id row) : Except UpgradeError (Bytes × Bytes)) = .ok (id row) :=
      fun _ => rfl
    have hloop := convertRows_map hintCommitRate insertHint (fun _ => true) hconvert out rows
    rw [List.map_id, insertInBatches_eq (by decide) hout hinsert, if_pos fun _ _ => rfl] at hloop
    exact hloop

/-- The coins up to the peak are all written, unless the clock stands still. -/
lemma convertCoins_eq (c : Cursors stored) (clock : ℕ → ℤ) (hout : out.inTransaction = false)
    (hempty : out.tables.coinRecords = []) :
    convertCoins clock c.toDb stored.peak.height out =
      if ∀ k < (stored.confirmed stored.coins).length / coinCommitRate, ticks clock k = true then
        .ok ⟨{ out.tables with
            coinRecords := (stored.confirmed c.coins).map (StoredCoin.recordV2 stored.peak.height) },
          { out.tables with
            coinRecords := (stored.confirmed c.coins).map (StoredCoin.recordV2 stored.peak.height) }, false⟩
      else .error .zeroDivisionError := by
  have hconvert : ∀ r : StoredCoin, convertCoin stored.peak.height r.recordV1 =
      .ok (r.recordV2 stored.peak.height) := by
    intro r
    rw [convertCoin, StoredCoin.recordV1, fromHex_encode, ok_bind, fromHex_encode, ok_bind, fromHex_encode, ok_bind,
      StoredCoin.recordV2]
    by_cases hspent : r.spentIndex ≤ stored.peak.height
    · have hle : ¬r.spentIndex > stored.peak.height := Nat.not_lt.mpr hspent
      simp only [if_pos hspent, if_neg hle, pure_eq]
    · have hgt : r.spentIndex > stored.peak.height := Nat.lt_of_not_le hspent
      simp only [if_neg hspent, if_pos hgt, pure_eq]
  have hfilter : (c.toDb.coinRecords.filter fun row => row.confirmedIndex ≤ stored.peak.height) =
      (stored.confirmed c.coins).map StoredCoin.recordV1 := by
    show (c.coins.map StoredCoin.recordV1).filter _ = _
    rw [List.filter_map]
    rfl
  have hperm : (stored.confirmed c.coins).Perm (stored.confirmed stored.coins) := c.coins_perm.filter _
  have hnodup : (((stored.confirmed c.coins).map (StoredCoin.recordV2 stored.peak.height)).map
      CoinRecordV2.coinName).Nodup := by
    have hkeyed : ((stored.confirmed c.coins).map StoredCoin.coinName).Nodup := by
      have hcoins : (c.coins.map StoredCoin.coinName).Nodup :=
        (c.coins_perm.map _).nodup_iff.mpr stored.coins_keyed
      exact (List.filter_sublist.map _).nodup hcoins
    have hmap := hkeyed.map Bytes32.bytes_injective
    rw [List.map_map] at hmap ⊢
    exact hmap
  have hinsert : ((stored.confirmed c.coins).map (StoredCoin.recordV2 stored.peak.height)).foldlM insertCoin out.tables =
      .ok { out.tables with
        coinRecords := (stored.confirmed c.coins).map (StoredCoin.recordV2 stored.peak.height) } := by
    rw [foldlM_insertCoin (by rw [hempty, List.nil_append]; exact hnodup), hempty, List.nil_append]
  rw [convertCoins, hfilter, convertRows_map coinCommitRate insertCoin (ticks clock) hconvert,
    insertInBatches_eq (by decide) hout hinsert, List.length_map, hperm.length_eq]

end Rows

/-! ## The upgraded database -/

section Upgrade

variable {stored : Stored} {compress : Bytes → Bytes} {blockClock coinClock : ℕ → ℤ}

lemma findPeak_toDb (c : Cursors stored) : findPeak c.toDb = .ok (stored.peak.headerHash, stored.peak.height) := by
  have hmem : stored.peak ∈ c.records := c.records_perm.mem_iff.mpr stored.peak_mem
  have hkeyed : Table.Keyed StoredBlock.headerHash c.records :=
    (c.records_perm.map _).nodup_iff.mpr stored.keyed
  have hfind : c.toDb.blockRecords.find? (fun r => r.isPeak) = some (stored.peak.recordV1 stored.peak) := by
    show (c.records.map _).find? _ = _
    rw [List.find?_map]
    show (Table.find StoredBlock.headerHash c.records stored.peak.headerHash).map _ = _
    rw [hkeyed.find_eq_some.mpr ⟨hmem, rfl⟩, Option.map_some]
  rw [findPeak, hfind]
  show (hashFromHex (Hex.encode stored.peak.headerHash.bytes) >>= _) = _
  rw [hashFromHex_encode, ok_bind]
  exact if_pos (stored.height_lt _ stored.peak_mem)

/-- The clock moves from batch to batch, while blocks and coins are converted. -/
def ClocksMove (stored : Stored) (blockClock coinClock : ℕ → ℤ) : Prop :=
  (∀ k < (stored.peak.height + 1) / blockCommitRate, blockClock (k + 1) ≠ blockClock k) ∧
    ∀ k < (stored.confirmed stored.coins).length / coinCommitRate, coinClock (k + 1) ≠ coinClock k

lemma ticks_iff {clock : ℕ → ℤ} {k : ℕ} : ticks clock k = true ↔ clock (k + 1) ≠ clock k := by
  rw [ticks, decide_eq_true_iff, sub_ne_zero]

/-- **When the upgrade works.** For everything that the stores of version 1 may keep, and every order of the rows:
the conversion ends without an error, with the chain of the peak and the coins up to it, if and only if the peak is
not at height 0 and the clock moves between batches. -/
theorem converts_iff (c : Cursors stored) (compress : Bytes → Bytes) (blockClock coinClock : ℕ → ℤ) :
    (∃ out, convertV1ToV2 compress blockClock coinClock c.toDb = .ok out ∧ Converted compress stored out) ↔
      stored.peak.height ≠ 0 ∧ ClocksMove stored blockClock coinClock := by
  obtain ⟨l, hl⟩ := Stored.exists_chain stored.peak_mem
  have hversion : ¬(c.toDb.databaseVersion.any fun v => v ≠ 1) = true := by
    show ¬(stored.databaseVersion.any fun v => v ≠ 1) = true
    cases hv : stored.databaseVersion with
    | none => exact nofun
    | some v => simp [stored.version_eq v hv]
  rw [convertV1ToV2, if_neg hversion, findPeak_toDb, ok_bind]
  show (∃ out, (convertBlocks compress blockClock c.toDb stored.peak.headerHash stored.peak.height _ >>= _) =
    Except.ok out ∧ _) ↔ _
  rw [convertBlocks_eq c hl rfl rfl]
  by_cases hblocks : stored.peak.height ≠ 0 ∧
      ∀ k < (stored.peak.height + 1) / blockCommitRate, ticks blockClock k = true
  · rw [if_pos hblocks, ok_bind, convertSegments_eq c rfl rfl, ok_bind]
    obtain ⟨hints, hhints⟩ := convertHints_eq c.toDb ⟨_, _, false⟩ rfl
    rw [hhints, ok_bind, convertCoins_eq c coinClock rfl rfl]
    by_cases hcoins : ∀ k < (stored.confirmed stored.coins).length / coinCommitRate, ticks coinClock k = true
    · rw [if_pos hcoins, ok_bind]
      refine ⟨fun _ => ⟨hblocks.1, fun k hk => ticks_iff.mp (hblocks.2 k hk), fun k hk => ticks_iff.mp (hcoins k hk)⟩,
        fun _ => ⟨_, rfl, ⟨l, hl, ?_⟩, rfl, ?_⟩⟩
      · exact l.reverse_perm.map _
      · exact (c.coins_perm.filter _).map _
    · rw [if_neg hcoins, error_bind]
      refine ⟨fun h => ?_, fun h => absurd (fun k hk => ticks_iff.mpr (h.2.2 k hk)) hcoins⟩
      obtain ⟨out, hout, -⟩ := h
      cases hout
  · rw [if_neg hblocks, error_bind]
    refine ⟨fun h => ?_, fun h => absurd ⟨h.1, fun k hk => ticks_iff.mpr (h.2.1 k hk)⟩ hblocks⟩
    obtain ⟨out, hout, -⟩ := h
    cases hout

end Upgrade

/-- The first block. -/
def genesisStoredBlock : StoredBlock := ⟨Bytes32.ofNat 1, Bytes32.ofNat 0, 0, [], none, false, []⟩

/-- A database with the first block only. -/
def genesisStored : Stored where
  databaseVersion := none
  version_eq := fun _ h => (by cases h)
  blocks := [genesisStoredBlock]
  keyed := List.nodup_singleton _
  linked := fun r hr h => absurd (by rw [List.mem_singleton.mp hr]; rfl) h
  rooted := fun r hr _ p hp => by
    rw [List.mem_singleton.mp hr, List.mem_singleton.mp hp]
    decide
  height_lt := fun r hr => by
    rw [List.mem_singleton.mp hr]
    decide
  peak := genesisStoredBlock
  peak_mem := List.mem_singleton_self _
  segments := []
  segments_keyed := List.nodup_nil
  hints := none
  coins := []
  coins_keyed := List.nodup_nil

/-- What the queries return for it. -/
def genesisCursors : Cursors genesisStored where
  records := [genesisStoredBlock]
  records_perm := List.Perm.refl _
  records_sorted := List.pairwise_singleton _ _
  blocks := [genesisStoredBlock]
  blocks_perm := List.Perm.refl _
  blocks_sorted := List.pairwise_singleton _ _
  segments := []
  segments_perm := List.Perm.refl _
  coins := []
  coins_perm := List.Perm.refl _

/-- **A chain with the first block only is not converted**: the report of the progress divides by the height of the
peak. -/
theorem not_converts_genesis :
    ClocksMove genesisStored Nat.cast Nat.cast ∧
      ¬∃ out, convertV1ToV2 id Nat.cast Nat.cast genesisCursors.toDb = .ok out := by
  refine ⟨⟨fun k hk => absurd hk (by decide +revert), fun k hk => absurd hk (by decide +revert)⟩, ?_⟩
  rintro ⟨out, hout⟩
  have hchain : genesisStored.Chain genesisStored.peak [genesisStoredBlock] := .root rfl
  rw [convertV1ToV2, if_neg (by decide), findPeak_toDb, ok_bind] at hout
  have hblocks : ∀ out : Session V2Db, out.inTransaction = false → out.tables.fullBlocks = [] →
      convertBlocks id Nat.cast genesisCursors.toDb genesisStored.peak.headerHash genesisStored.peak.height out =
        .error .zeroDivisionError := by
    intro out hfree hempty
    rw [convertBlocks_eq genesisCursors hchain hfree hempty, if_neg fun h => h.1 rfl]
  dsimp only at hout
  rw [hblocks _ rfl rfl, error_bind] at hout
  cases hout

end Chives.DbUpgrade
