import Mathlib.Data.List.Infix
import Chives.Types.SpendBundleCodec

set_option autoImplicit false

/-!
# Compression with the bytes of known puzzles

`wallet/util/puzzle_compression.py`: an object is compressed with zlib, with the bytes of the known puzzles as the
preset dictionary. The version says how many of the dictionaries are used.

## Main definitions

* `PuzzleMods`, `PuzzleMods.ZDICT` — the puzzles, and the dictionaries.
* `Zlib` — zlib with a preset dictionary.
* `compressObjectWithPuzzles`, `decompressObjectWithPuzzles`, `lowestBestVersion`.

## Main results

* `decompress_compressObject` — what was compressed with a known version is decompressed.
* `lowestBestVersion_le` — the version that is chosen is known.

## Design

zlib is a parameter. `CompressionVersionError` stands as a `ValueError`: no caller catches either of them.
-/

namespace Chives

open ExceptRun

/-- The bytes of the known puzzles. -/
structure PuzzleMods where
  standardMod : Bytes
  legacyCatMod : Bytes
  offerMod : Bytes
  singletonTopLayerMod : Bytes
  nftStateLayerMod : Bytes
  nftOwnershipLayer : Bytes
  nftMetadataUpdater : Bytes
  nftTransferProgramDefault : Bytes
  catMod : Bytes

/-- `ZDICT`. -/
def PuzzleMods.ZDICT (m : PuzzleMods) : List Bytes :=
  [m.standardMod ++ m.legacyCatMod,
    m.offerMod,
    m.singletonTopLayerMod ++ m.nftStateLayerMod ++ m.nftOwnershipLayer ++ m.nftMetadataUpdater ++
      m.nftTransferProgramDefault,
    m.catMod]

/-- `LATEST_VERSION`. -/
def LATEST_VERSION : ℕ := 4

@[simp] lemma PuzzleMods.length_ZDICT (m : PuzzleMods) : m.ZDICT.length = LATEST_VERSION := rfl

/-- zlib, with a preset dictionary. -/
structure Zlib where
  compress : Bytes → Bytes → Bytes
  decompress : Bytes → Bytes → Except PyError Bytes

/-- What was compressed is decompressed with the same dictionary. -/
def Zlib.Inverse (z : Zlib) : Prop := ∀ blob zdict, z.decompress (z.compress blob zdict) zdict = .ok blob

section Compression

variable (m : PuzzleMods) (z : Zlib)

/-- `zdict_for_version`. -/
def zdictForVersion (version : ℕ) : Bytes := (m.ZDICT.take version).flatten

/-- `compress_object_with_puzzles`. -/
def compressObjectWithPuzzles (objectBytes : Bytes) (version : ℕ) : Except PyError Bytes :=
  if version < 2 ^ 16 then
    .ok (BigEndian.toBytes 2 version ++ z.compress objectBytes (zdictForVersion m version))
  else .error .overflowError

/-- `decompress_object_with_puzzles`. -/
def decompressObjectWithPuzzles (compressedObjectBlob : Bytes) : Except PyError Bytes :=
  let version := BigEndian.ofBytes (compressedObjectBlob.take 2)
  if version > m.ZDICT.length then .error .valueError
  else z.decompress (compressedObjectBlob.drop 2) (zdictForVersion m version)

/-- `lowest_best_version`, with its default bound, which no version exceeds. -/
def lowestBestVersion (puzzleList : List Bytes) : ℕ :=
  puzzleList.foldl (fun highestVersion mod =>
    m.ZDICT.zipIdx.foldl (fun highestVersion d =>
      if mod <:+: d.1 then max highestVersion (d.2 + 1) else highestVersion) highestVersion) 1

variable {m z}

/-- **What was compressed with a known version is decompressed.** -/
theorem decompress_compressObject (hz : z.Inverse) {version : ℕ} (hversion : version ≤ LATEST_VERSION)
    (objectBytes : Bytes) :
    ∃ blob, compressObjectWithPuzzles m z objectBytes version = .ok blob ∧
      decompressObjectWithPuzzles m z blob = .ok objectBytes := by
  have hlatest : LATEST_VERSION = 4 := rfl
  have hlen : (BigEndian.toBytes 2 version).length = 2 := BigEndian.length_toBytes 2 version
  refine ⟨_, if_pos (by omega), ?_⟩
  unfold decompressObjectWithPuzzles
  rw [List.take_left' hlen, List.drop_left' hlen, BigEndian.ofBytes_toBytes (by omega), m.length_ZDICT,
    if_neg (not_lt.mpr hversion)]
  exact hz _ _

lemma lowestBestVersion_le (puzzleList : List Bytes) : lowestBestVersion m puzzleList ≤ LATEST_VERSION := by
  unfold lowestBestVersion
  have hinner : ∀ (l : List (Bytes × ℕ)) (mod : Bytes) (v : ℕ), v ≤ LATEST_VERSION →
      (∀ d ∈ l, d.2 < LATEST_VERSION) → l.foldl (fun highestVersion d =>
        if mod <:+: d.1 then max highestVersion (d.2 + 1) else highestVersion) v ≤ LATEST_VERSION := by
    intro l mod
    induction l with
    | nil => exact fun v hv _ => hv
    | cons d l ih =>
      intro v hv hl
      refine ih _ ?_ fun e he => hl e (List.mem_cons_of_mem _ he)
      beta_reduce
      split
      · exact max_le hv (hl d List.mem_cons_self)
      · exact hv
  have hidx : ∀ d ∈ m.ZDICT.zipIdx, d.2 < LATEST_VERSION := by
    intro d hd
    have := List.snd_lt_of_mem_zipIdx hd
    rwa [m.length_ZDICT] at this
  suffices h : ∀ v ≤ LATEST_VERSION, puzzleList.foldl (fun highestVersion mod =>
      m.ZDICT.zipIdx.foldl (fun highestVersion d =>
        if mod <:+: d.1 then max highestVersion (d.2 + 1) else highestVersion) highestVersion) v
        ≤ LATEST_VERSION from h 1 (by decide)
  induction puzzleList with
  | nil => exact fun v hv => hv
  | cons mod l ih => exact fun v hv => ih _ (hinner _ mod v hv hidx)

end Compression

end Chives
