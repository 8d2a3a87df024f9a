import Chives.Wallet.OfferRoundTrip

set_option autoImplicit false

/-!
# The two encodings of an offer

`Offer.try_offer_decompression` is given a compressed offer or a plain one. It decompresses, and takes the bytes for a
plain offer if this raises a `TypeError`. But what the decompressor raises is a `zlib.error`: the first two bytes of a
plain offer are read as a version, and the two after them as the header of a zlib stream, which together are the number
of coin spends.

## Main definitions

* `Zlib.Documented` — what zlib raises, and which headers it accepts.
* `Offer.ReadsBoth` — both encodings of an offer are read as an offer with its name.

## Main results

* `Offer.readsBoth_iff` — when both are read. The number of coin spends, without its upper half, has to be the
  header of a zlib stream.
* `ZlibHeader.le` — such a number is at least 2077.
* `Offer.not_readsBoth` — an offer with two coin spends whose plain encoding is not read.

## Design

A `zlib.error` stands as a `ValueError`, as `CompressionVersionError` does: no caller catches them.
-/

namespace Chives

open ExceptRun Streamed

/-! ## zlib -/

/-- Two bytes, as a number, that can be the header of a zlib stream: the method is 8, the window has at most 2¹⁵ bytes,
and the check bits are right. -/
def ZlibHeader (n : ℕ) : Prop := n / 256 % 16 = 8 ∧ n / 4096 ≤ 7 ∧ n % 31 = 0

instance (n : ℕ) : Decidable (ZlibHeader n) := inferInstanceAs (Decidable (_ ∧ _ ∧ _))

lemma ZlibHeader.le {n : ℕ} (h : ZlibHeader n) : 2077 ≤ n := by
  obtain ⟨hmethod, -, hcheck⟩ := h
  by_contra hlt
  have hn : n / 256 = 8 := by omega
  omega

/-- What is documented of zlib: it decompresses what it compressed, raises nothing but a `zlib.error`, and raises it for
two bytes that are no header. -/
structure Zlib.Documented (z : Zlib) : Prop where
  inverse : z.Inverse
  raises : ∀ blob zdict e, z.decompress blob zdict = .error e → e = .valueError
  header : ∀ cmf flg blob zdict data, z.decompress (cmf :: flg :: blob) zdict = .ok data →
    ZlibHeader (256 * cmf.toNat + flg.toNat)

/-! ## What is read -/

namespace Offer

variable {ι : Type} (env : OfferEnv ι) (o : Offer ι)

/-- An offer with the name of this one. -/
def SameName (o' : Offer ι) : Prop := ∃ n, o.name env = .ok n ∧ o'.name env = .ok n

/-- Both encodings are read as an offer with the name of this one. -/
structure ReadsBoth : Prop where
  compressed : ∃ blob o', o.compress env none = .ok blob ∧ tryOfferDecompression env blob = .ok o' ∧ o.SameName env o'
  plain : ∃ blob o', o.toBytes env = .ok blob ∧ tryOfferDecompression env blob = .ok o' ∧ o.SameName env o'

/-- Bytes that `from_bytes` reads as an offer with this name. -/
def Reads (blob : Bytes) : Prop := ∃ o', fromBytes env blob = .ok o' ∧ o.SameName env o'

/-- Bytes that `from_bytes` reads as an offer with this name, or, if it refuses them with a `TypeError`, other bytes
that it reads as one. -/
def ReadsElse (blob fallback : Bytes) : Prop :=
  o.Reads env blob ∨ fromBytes env blob = .error .typeError ∧ o.Reads env fallback

/-- The number of coin spends of the bundle of the offer. -/
def numSpends : ℕ := o.requestedPayments.entries.length + o.bundle.coinSpends.length

/-- The bytes of the offer, from the third one on, are a zlib stream, and what it holds is read as an offer with this
name. The dictionary is the one for the upper half of the number of coin spends. -/
def ReadAsStream (blob : Bytes) : Prop := ZlibHeader (o.numSpends % 2 ^ 16) ∧ o.numSpends / 2 ^ 16 ≤ LATEST_VERSION ∧
  ∃ data, env.zlib.decompress (blob.drop 2) (zdictForVersion env.mods (o.numSpends / 2 ^ 16)) = .ok data ∧
    o.ReadsElse env data blob

variable {env o} {blob : Bytes}

/-- What `try_offer_decompression` does with bytes that decompress. -/
lemma tryOfferDecompression_of_decompress {data : Bytes}
    (h : decompressObjectWithPuzzles env.mods env.zlib blob = .ok data) :
    (∃ o', tryOfferDecompression env blob = .ok o' ∧ o.SameName env o') ↔ o.ReadsElse env data blob := by
  have hfrom : fromCompressed env blob = fromBytes env data := by rw [fromCompressed, h, ok_bind]
  unfold ReadsElse Reads
  simp only [tryOfferDecompression, hfrom]
  cases hread : fromBytes env data with
  | ok o' => simp
  | error e => cases e <;> simp

/-- Bytes that do not decompress are not read: what is raised is no `TypeError`. -/
lemma tryOfferDecompression_of_error (hz : env.zlib.Documented) {e : PyError}
    (h : decompressObjectWithPuzzles env.mods env.zlib blob = .error e) :
    tryOfferDecompression env blob = .error .valueError := by
  have he : e = .valueError := by
    unfold decompressObjectWithPuzzles at h
    dsimp only at h
    split at h
    · exact (Except.error.inj h).symm
    · exact hz.raises _ _ _ h
  rw [he] at h
  simp only [tryOfferDecompression, fromCompressed, h, error_bind]

/-! ## The compressed encoding -/

lemma toSpendBundle_eq {bundle : Streamed.SpendBundle} (h : o.toSpendBundle env = .ok bundle) :
    ∃ requests, o.requestedPayments.entries.mapM (fun e => requestSpend env o.driverDict e.1 e.2) = .ok requests ∧
      bundle.coinSpends = requests ++ o.bundle.coinSpends := by
  obtain ⟨requests, hrequests, hb⟩ := bind_eq_ok.mp h
  obtain rfl := Except.ok.inj hb
  exact ⟨requests, hrequests, by simp [Streamed.SpendBundle.aggregate]⟩

lemma exists_puzzle_of_toSpendBundle (hinit : o.postInit env = .ok ()) {bundle : Streamed.SpendBundle}
    (h : o.toSpendBundle env = .ok bundle) {cs : Streamed.CoinSpend} (hcs : cs ∈ bundle.coinSpends) :
    ∃ puzzle, Program.fromBytes cs.puzzleReveal = .ok puzzle := by
  obtain ⟨requests, hrequests, hspends⟩ := toSpendBundle_eq h
  rw [hspends] at hcs
  rcases List.mem_append.mp hcs with hcs | hcs
  · obtain ⟨e, -, he⟩ := mem_of_mapM_eq_ok hrequests hcs
    exact (fits_requestSpend he).puzzleReveal
  · obtain ⟨puzzle, solution, driver, hpuzzle, -⟩ := programs_of_postInit hinit hcs
    exact ⟨puzzle, hpuzzle⟩

lemma exists_compress (hinit : o.postInit env = .ok ()) (hz : env.zlib.Inverse) (h : o.toBytes env = .ok blob) :
    ∃ compressed, o.compress env none = .ok compressed ∧
      decompressObjectWithPuzzles env.mods env.zlib compressed = .ok blob := by
  obtain ⟨bundle, hbundle, hblob⟩ := bind_eq_ok.mp h
  obtain ⟨v, hv, hversion⟩ := @exists_compressionVersion _ env none bundle
    (fun cs hcs => exists_puzzle_of_toSpendBundle hinit hbundle hcs) (fun v hv => by cases hv)
  obtain ⟨compressed, hcompressed, hback⟩ := decompress_compressObject (m := env.mods) hz hv blob
  exact ⟨compressed, by rw [compress, hbundle, ok_bind, hversion, ok_bind, hblob, ok_bind, hcompressed], hback⟩

/-! ## The plain encoding -/

lemma exists_count_of_toBytes (h : o.toBytes env = .ok blob) :
    o.numSpends < 2 ^ 32 ∧ ∃ rest, blob = BigEndian.toBytes 4 o.numSpends ++ rest := by
  obtain ⟨bundle, hbundle, hblob⟩ := bind_eq_ok.mp h
  obtain ⟨requests, hrequests, hspends⟩ := toSpendBundle_eq hbundle
  obtain ⟨l, hl, hlen⟩ := exists_mapM_eq_ok fun e he => exists_of_mapM_eq_ok hrequests he
  obtain rfl : l = requests := Except.ok.inj (hl.symm.trans hrequests)
  have hcount : bundle.coinSpends.length = o.numSpends := by rw [hspends, List.length_append, hlen, numSpends]
  have hlt := Streamed.SpendBundle.length_of_toBytes hblob
  obtain ⟨size, rest, hsize, rfl⟩ := Streamed.SpendBundle.exists_count_of_toBytes hblob
  rw [hcount] at hlt hsize
  rw [Streamable.writeUint32, if_pos hlt] at hsize
  obtain rfl := Except.ok.inj hsize
  exact ⟨hlt, rest, rfl⟩

lemma decompress_toBytes (h : o.toBytes env = .ok blob) :
    decompressObjectWithPuzzles env.mods env.zlib blob =
      if o.numSpends / 2 ^ 16 > LATEST_VERSION then .error .valueError
      else env.zlib.decompress (blob.drop 2) (zdictForVersion env.mods (o.numSpends / 2 ^ 16)) := by
  obtain ⟨hlt, rest, rfl⟩ := exists_count_of_toBytes h
  have hversion : BigEndian.ofBytes ((BigEndian.toBytes 4 o.numSpends ++ rest).take 2) = o.numSpends / 2 ^ 16 := by
    have htake : (BigEndian.toBytes 4 o.numSpends ++ rest).take 2 = BigEndian.toBytes 2 (o.numSpends / 2 ^ 16) := by
      simp [BigEndian.toBytes, Nat.div_div_eq_div_mul]
    rw [htake, BigEndian.ofBytes_toBytes (by omega)]
  rw [decompressObjectWithPuzzles, hversion, env.mods.length_ZDICT]

lemma drop_toBytes (h : o.toBytes env = .ok blob) :
    ∃ cmf flg rest, blob.drop 2 = cmf :: flg :: rest ∧ 256 * cmf.toNat + flg.toNat = o.numSpends % 2 ^ 16 := by
  obtain ⟨-, rest, rfl⟩ := exists_count_of_toBytes h
  refine ⟨UInt8.ofNat (o.numSpends / 256), UInt8.ofNat o.numSpends, rest, by simp [BigEndian.toBytes], ?_⟩
  rw [UInt8.toNat_ofNat', UInt8.toNat_ofNat']
  omega

/-- The plain encoding is read exactly if it is read as a zlib stream. -/
lemma reads_plain_iff (hz : env.zlib.Documented) (h : o.toBytes env = .ok blob) :
    (∃ o', tryOfferDecompression env blob = .ok o' ∧ o.SameName env o') ↔ o.ReadAsStream env blob := by
  have hdecompress := decompress_toBytes h
  obtain ⟨cmf, flg, rest, hdrop, hcount⟩ := drop_toBytes h
  unfold ReadAsStream
  cases hd : decompressObjectWithPuzzles env.mods env.zlib blob with
  | error e =>
    rw [tryOfferDecompression_of_error hz hd]
    rw [hd] at hdecompress
    constructor
    · rintro ⟨o', ho', -⟩
      cases ho'
    · rintro ⟨-, hversion, data, hdata, -⟩
      rw [if_neg (not_lt.mpr hversion), hdata] at hdecompress
      cases hdecompress
  | ok data =>
    rw [tryOfferDecompression_of_decompress hd]
    rw [hd] at hdecompress
    split at hdecompress
    · cases hdecompress
    · rename_i hversion
      have hheader : ZlibHeader (o.numSpends % 2 ^ 16) := by
        rw [← hcount]
        exact hz.header cmf flg rest _ data (by rw [← hdrop]; exact hdecompress.symm)
      constructor
      · exact fun hread => ⟨hheader, not_lt.mp hversion, data, hdecompress.symm, hread⟩
      · rintro ⟨-, -, data', hdata', hread⟩
        rw [hdata'] at hdecompress
        rwa [Except.ok.inj hdecompress]

/-- **When both encodings of an offer are read.** The compressed one is if the bytes of the offer are read, the plain
one only if the bytes after the second one are a zlib stream of an offer with this name; its header is the lower half
of the number of coin spends.

**Proof sketch.** What was compressed is decompressed, and read. The plain bytes are decompressed as well, with a version
and a header that are the number of coin spends. If this fails, a `zlib.error` is raised, which nothing catches. -/
theorem readsBoth_iff (hinit : o.postInit env = .ok ()) (hz : env.zlib.Documented) :
    o.ReadsBoth env ↔ ∃ blob compressed, o.toBytes env = .ok blob ∧ o.compress env none = .ok compressed ∧
      o.ReadsElse env blob compressed ∧ o.ReadAsStream env blob := by
  constructor
  · rintro ⟨⟨compressed, o₁, hcompressed, hread₁, hname₁⟩, ⟨blob, o₂, hblob, hread₂, hname₂⟩⟩
    obtain ⟨compressed', hcompressed', hback⟩ := exists_compress hinit hz.inverse hblob
    obtain rfl : compressed = compressed' := Except.ok.inj (hcompressed.symm.trans hcompressed')
    exact ⟨blob, compressed, hblob, hcompressed, (tryOfferDecompression_of_decompress hback).mp ⟨o₁, hread₁, hname₁⟩,
      (reads_plain_iff hz hblob).mp ⟨o₂, hread₂, hname₂⟩⟩
  · rintro ⟨blob, compressed, hblob, hcompressed, hcompressedRead, hplainRead⟩
    obtain ⟨compressed', hcompressed', hback⟩ := exists_compress hinit hz.inverse hblob
    obtain rfl : compressed = compressed' := Except.ok.inj (hcompressed.symm.trans hcompressed')
    obtain ⟨o₁, hread₁, hname₁⟩ := (tryOfferDecompression_of_decompress hback).mpr hcompressedRead
    obtain ⟨o₂, hread₂, hname₂⟩ := (reads_plain_iff hz hblob).mpr hplainRead
    exact ⟨⟨compressed, o₁, hcompressed, hread₁, hname₁⟩, ⟨blob, o₂, hblob, hread₂, hname₂⟩⟩

lemma ReadAsStream.le (h : o.ReadAsStream env blob) : 2077 ≤ o.numSpends :=
  h.1.le.trans (Nat.mod_le _ _)

end Offer

/-! ## A sample -/

namespace OfferSample

/-- A stream with the header of zlib. -/
def headedZlib : Zlib where
  compress blob _ := 0x78 :: 0x9c :: blob
  decompress blob _ :=
    match blob with
    | cmf :: flg :: blob => if ZlibHeader (256 * cmf.toNat + flg.toNat) then .ok blob else .error .valueError
    | _ => .ok []

lemma documented_headedZlib : headedZlib.Documented where
  inverse _ _ := rfl
  raises blob zdict e h := by
    simp only [headedZlib] at h
    split at h
    · split at h
      · cases h
      · exact (Except.error.inj h).symm
    · cases h
  header cmf flg blob zdict data h := by
    by_contra hheader
    simp only [headedZlib, if_neg hheader] at h
    cases h

/-- The environment of the samples, with this zlib. -/
def headedEnv : OfferEnv Empty := { OfferSample.env with zlib := headedZlib }

end OfferSample

namespace Offer

open OfferSample

lemma postInit_mixedPayments : (offer mixedPayments).postInit headedEnv = .ok () :=
  postInit_offer (by
    rw [OfferSample.env, sampleHash_eq]
    decide +kernel)

/-- An offer with two coin spends is not read in both encodings. -/
theorem readsBoth_iff_mixedPayments : ¬(offer mixedPayments).ReadsBoth headedEnv := by
  intro h
  obtain ⟨blob, compressed, -, -, -, hstream⟩ := (readsBoth_iff postInit_mixedPayments documented_headedZlib).mp h
  have hle : 2077 ≤ 2 := hstream.le
  omega

/-- **A plain offer is not read.** It has two coin spends, so that the decompressor looks for a zlib stream that starts
with the bytes 0 and 2. -/
theorem not_readsBoth : ¬∀ (ι : Type) (env : OfferEnv ι) (o : Offer ι), o.postInit env = .ok () →
    env.zlib.Documented → o.ReadsBoth env := by
  intro h
  obtain ⟨-, blob, o', hblob, hread, hname⟩ :=
    h Empty headedEnv (offer mixedPayments) postInit_mixedPayments documented_headedZlib
  have hle : 2077 ≤ 2 := ((reads_plain_iff documented_headedZlib hblob).mp ⟨o', hread, hname⟩).le
  omega

end Offer

end Chives
