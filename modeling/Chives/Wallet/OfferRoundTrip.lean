import Chives.Wallet.OfferCodec

set_option autoImplicit false

/-!
# Round trips of offers

The two codecs of an offer, as a whole: what is written as bytes or as a text is read, and the offer that is read has
the name of the one that was written.

## Main results

* `Offer.fromBech32_toBech32` — a text is read as the bytes that it was made of.
* `Offer.roundTrips_iff` — the codecs are faithful exactly if the offer is short enough to be written, every
  payment has a memo, and no spend of an asset that is also requested shows another settlement puzzle.
* `Offer.not_roundTrips` — a payment without memos comes back with other memos.
-/

namespace Chives

open ExceptRun Streamed StableGroup

lemma SExp.Fits.uncurry {s : SExp} (h : s.Fits) : s.uncurry.1.Fits := by
  unfold SExp.uncurry
  split
  · split
    · split
      · exact h.2.1.2
      · exact h
    · exact h
  · exact h

namespace Offer

variable {ι : Type} {env : OfferEnv ι} {o : Offer ι}

/-! ## Texts -/

variable {version : Option ℕ}

lemma exists_compressionVersion {bundle : Streamed.SpendBundle}
    (h : ∀ cs ∈ bundle.coinSpends, ∃ puzzle, Program.fromBytes cs.puzzleReveal = .ok puzzle)
    (hversion : ∀ v, version = some v → 1 ≤ v ∧ v ≤ LATEST_VERSION) :
    ∃ v ≤ LATEST_VERSION, compressionVersion env bundle version = .ok v := by
  cases version with
  | some v => exact ⟨v, (hversion v rfl).2, rfl⟩
  | none =>
    have hmods : ∀ cs ∈ bundle.coinSpends, ∃ b, modOfSpend cs = .ok b := by
      intro cs hcs
      obtain ⟨puzzle, hpuzzle⟩ := h cs hcs
      obtain ⟨w, hw⟩ := SExp.exists_toStream_iff.mpr (Program.fits_of_fromBytes hpuzzle).uncurry
      exact ⟨w, by rw [modOfSpend, hpuzzle, ok_bind]; exact hw⟩
    obtain ⟨mods, hmods, -⟩ := exists_mapM_eq_ok hmods
    refine ⟨max (lowestBestVersion env.mods mods) 2, max_le (lowestBestVersion_le mods) (by decide), ?_⟩
    rw [compressionVersion, hmods, ok_bind]
    rfl

lemma hrpOk_bech32Prefix : HrpOk bech32Prefix := by
  have hall : bech32Prefix.all (fun x => decide ((33 ≤ x.toNat ∧ x.toNat ≤ 126) ∧ x.toLower = x)) = true := by decide
  have hchar : ∀ x ∈ bech32Prefix, (33 ≤ x.toNat ∧ x.toNat ≤ 126) ∧ x.toLower = x := fun x hx =>
    of_decide_eq_true (List.all_eq_true.mp hall x hx)
  exact ⟨by decide, fun x hx => (hchar x hx).1, fun x hx => (hchar x hx).2⟩

variable {o' : Offer ι}

/-- **A text is read as the bytes that it was made of.** -/
theorem fromBech32_toBech32 (hlaws : env.Lawful) {bundle : Streamed.SpendBundle}
    (hbundle : o.toSpendBundle env = .ok bundle) (hfits : bundle.Fits env.valid) {blob : Bytes}
    (hblob : bundle.toBytes env.valid = .ok blob) (hversion : ∀ v, version = some v → 1 ≤ v ∧ v ≤ LATEST_VERSION)
    (hread : fromBytes env blob = .ok o') :
    ∃ text, o.toBech32 env version = .ok text ∧ fromBech32 env text = .ok o' := by
  obtain ⟨v, hv, hcompression⟩ := exists_compressionVersion
    (fun cs hcs => (hfits.coinSpends cs hcs).puzzleReveal) hversion
  obtain ⟨compressed, hcompressed, hdecompressed⟩ :=
    decompress_compressObject (m := env.mods) hlaws.zlib hv blob
  have hnumbers : ∀ n ∈ compressed.map UInt8.toNat, n < 2 ^ 8 := by
    intro n hn
    obtain ⟨x, -, rfl⟩ := List.mem_map.mp hn
    exact x.toNat_lt
  obtain ⟨data, hdata, hfive, hback⟩ := convertbits_convertbits (by norm_num : 0 < 5) (by norm_num) hnumbers
  obtain ⟨text, htext, hdecode⟩ := bech32Decode_encode hrpOk_bech32Prefix hfive
  refine ⟨text, ?_, ?_⟩
  · rw [toBech32, compress, hbundle, ok_bind, hcompression, ok_bind, hblob, ok_bind, hcompressed, ok_bind, hdata,
      ok_bind, htext]
  · have hcompressedRead : fromCompressed env compressed = .ok o' := by
      rw [fromCompressed, hdecompressed, ok_bind, hread]
    simp only [fromBech32, hdecode, hback, ok_bind, bytesOfNumbers_map, tryOfferDecompression, hcompressedRead]

/-! ## Both codecs -/

lemma name_iff (hinit : o.postInit env = .ok ()) (htyped : o.WellTyped env) (hlaws : env.Lawful)
    (hentries : o'.requestedPayments.entries = o.requestedPayments.entries.map receivedEntry)
    (hbundle : o'.bundle = o.bundle)
    (hdict : ∀ id, some id ∈ o.requestedPayments.keys → o'.driverDict.get? id = lastDriver env id o.bundle.coinSpends (o.driverDict.get? id))
    {b : Streamed.SpendBundle} (h : o.toSpendBundle env = .ok b) :
    o'.toSpendBundle env = .ok b ↔ o.DriversAgree env := by
  rw [← settlementPuzzle_iff hinit hdict]
  constructor
  · exact fun h' assetId hid => settlementPuzzle_of_toSpendBundle htyped hlaws hentries hbundle h h' hid
  · intro hpuzzle
    rw [toSpendBundle_congr htyped hentries hbundle hpuzzle, h]

lemma fits_of_toSpendBundle (hinit : o.postInit env = .ok ()) (htyped : o.WellTyped env) (hlaws : env.Lawful)
    (hbundle : o'.bundle = o.bundle) {b : Streamed.SpendBundle} (h : o'.toSpendBundle env = .ok b) {blob : Bytes}
    (hblob : b.toBytes env.valid = .ok blob) : b.Fits env.valid := by
  obtain ⟨requests, hrequests, hb⟩ := bind_eq_ok.mp h
  obtain rfl := Except.ok.inj hb
  have hshort := Streamed.SpendBundle.length_of_toBytes hblob
  have hsignature : (Streamed.SpendBundle.aggregate env.aggregateSignatures
      [⟨requests, env.g2Identity⟩, o'.bundle]).aggregatedSignature = o.bundle.aggregatedSignature := by
    rw [hbundle]
    exact hlaws.aggregate_identity _ htyped.signature_valid
  refine ⟨hshort, fun cs hcs => ?_, by rw [hsignature]; exact htyped.signature_length,
    by rw [hsignature]; exact htyped.signature_valid⟩
  have hcs : cs ∈ requests ++ o.bundle.coinSpends := by
    rw [hbundle] at hcs
    simpa [Streamed.SpendBundle.aggregate] using hcs
  rcases List.mem_append.mp hcs with hcs | hcs
  · obtain ⟨e, -, he⟩ := mem_of_mapM_eq_ok hrequests hcs
    exact fits_requestSpend he
  · obtain ⟨puzzle, solution, driver, hpuzzle, hsolution, -⟩ := programs_of_postInit hinit hcs
    exact ⟨htyped.amount_lt cs hcs, ⟨puzzle, hpuzzle⟩, ⟨solution, hsolution⟩⟩

/-- SHA-256 tells the bytes of the offer from those of the offer that is read back. -/
def NoCollision (env : OfferEnv ι) (o : Offer ι) : Prop := ∀ blob o' blob', o.toBytes env = .ok blob →
  fromBytes env blob = .ok o' → o'.toBytes env = .ok blob' → env.sha256 blob' = env.sha256 blob → blob' = blob

lemma RoundTrips.exists_read (h : o.RoundTrips env) (hinit : o.postInit env = .ok ()) (htyped : o.WellTyped env)
    (hcovered : o.Covered env) (hlaws : env.Lawful) (hdrivers : o.DriversInverse env) :
    o.Fits env ∧ ∃ bundle blob o', o.toSpendBundle env = .ok bundle ∧ bundle.Fits env.valid ∧
      bundle.toBytes env.valid = .ok blob ∧ o.toBytes env = .ok blob ∧ fromBytes env blob = .ok o' ∧
      o'.requestedPayments.entries = o.requestedPayments.entries.map receivedEntry ∧ o'.bundle = o.bundle ∧
      (∀ id, some id ∈ o.requestedPayments.keys →
        o'.driverDict.get? id = lastDriver env id o.bundle.coinSpends (o.driverDict.get? id)) ∧
      o.SameOffer env o' := by
  obtain ⟨⟨blob, o', hblob, hread, hsame⟩, -⟩ := h
  have hfits := fits_of_toBytes htyped hlaws hblob
  obtain ⟨bundle, hbundle, hbundleFits⟩ := hfits.exists_toSpendBundle hinit htyped hlaws hdrivers
  obtain ⟨o'', ho'', hentries, hsameBundle, hdict⟩ :=
    fromSpendBundle_toSpendBundle hinit htyped hcovered hlaws hdrivers hbundle
  obtain ⟨blob', hblob', hback⟩ := Streamed.SpendBundle.fromBytes_toBytes hbundleFits
  obtain rfl : blob' = blob := by
    rw [toBytes, hbundle, ok_bind] at hblob
    exact Except.ok.inj (hblob'.symm.trans hblob)
  obtain rfl : o'' = o' := by
    rw [fromBytes, hback, ok_bind] at hread
    exact Except.ok.inj (ho''.symm.trans hread)
  exact ⟨hfits, bundle, blob', o'', hbundle, hbundleFits, hblob', hblob, hread, hentries, hsameBundle, hdict, hsame⟩

lemma noCollision_of_agree (hinit : o.postInit env = .ok ()) (htyped : o.WellTyped env) (hcovered : o.Covered env)
    (hlaws : env.Lawful) (hdrivers : o.DriversInverse env) (hagree : o.DriversAgree env) : NoCollision env o := by
  intro blob o' blob' hblob hread hblob' _
  have hfits := fits_of_toBytes htyped hlaws hblob
  obtain ⟨bundle, hbundle, hbundleFits⟩ := hfits.exists_toSpendBundle hinit htyped hlaws hdrivers
  obtain ⟨o'', ho'', hentries, hsameBundle, hdict⟩ :=
    fromSpendBundle_toSpendBundle hinit htyped hcovered hlaws hdrivers hbundle
  obtain ⟨blob'', hblob'', hback⟩ := Streamed.SpendBundle.fromBytes_toBytes hbundleFits
  rw [toBytes, hbundle, ok_bind] at hblob
  obtain rfl : blob'' = blob := Except.ok.inj (hblob''.symm.trans hblob)
  rw [fromBytes, hback, ok_bind] at hread
  obtain rfl : o'' = o' := Except.ok.inj (ho''.symm.trans hread)
  have hbundle' := (name_iff hinit htyped hlaws hentries hsameBundle hdict hbundle).mpr hagree
  rw [toBytes, hbundle', ok_bind, hblob''] at hblob'
  exact (Except.ok.inj hblob').symm

/-- **The codecs of an offer are faithful** exactly if the offer is short enough to be written, every payment has a
memo, and no spend of an asset that is also requested shows another settlement puzzle.

**Proof sketch.** The offer that is read has the spends and the signature of the one that was written, and its payments
up to their memos. Its drivers are those of the last spends of the assets; its bundle, and so its name, is the same
exactly if these construct the same settlement puzzles. -/
theorem roundTrips_iff (hinit : o.postInit env = .ok ()) (htyped : o.WellTyped env) (hcovered : o.Covered env)
    (hlaws : env.Lawful) (hdrivers : o.DriversInverse env) (hsha : NoCollision env o) :
    o.RoundTrips env ↔ o.Fits env ∧ o.HasMemos ∧ o.DriversAgree env := by
  constructor
  · intro htrips
    obtain ⟨hfits, bundle, blob, o', hbundle, hbundleFits, hwritten, hblob, hread, hentries, hsameBundle, hdict, hsame⟩ :=
      htrips.exists_read hinit htyped hcovered hlaws hdrivers
    refine ⟨hfits, (requestedPayments_iff htyped hentries).mp hsame.requestedPayments, ?_⟩
    obtain ⟨n, hn, hn'⟩ := hsame.name
    obtain ⟨b₂, hb₂, hn'⟩ := bind_eq_ok.mp hn'
    obtain ⟨blob₂, hblob₂, hn'⟩ := bind_eq_ok.mp hn'
    have hbytes₂ : o'.toBytes env = .ok blob₂ := by rw [toBytes, hb₂, ok_bind, hblob₂]
    have hnames : env.sha256 blob₂ = env.sha256 blob := by
      rw [name, hbundle, ok_bind, Streamed.SpendBundle.name, hwritten, ok_bind] at hn
      exact (Except.ok.inj hn').trans (Except.ok.inj hn).symm
    obtain rfl : blob₂ = blob := hsha blob o' blob₂ hblob hread hbytes₂ hnames
    -- both bundles are read back from the same bytes
    obtain ⟨blob₃, hblob₃, hread₃⟩ := Streamed.SpendBundle.fromBytes_toBytes hbundleFits
    obtain rfl : blob₂ = blob₃ := Except.ok.inj (hwritten.symm.trans hblob₃)
    obtain ⟨blob₄, hblob₄, hread₄⟩ :=
      Streamed.SpendBundle.fromBytes_toBytes (fits_of_toSpendBundle hinit htyped hlaws hsameBundle hb₂ hblob₂)
    obtain rfl : blob₂ = blob₄ := Except.ok.inj (hblob₂.symm.trans hblob₄)
    obtain rfl : bundle = b₂ := Except.ok.inj (hread₃.symm.trans hread₄)
    exact (name_iff hinit htyped hlaws hentries hsameBundle hdict hbundle).mp hb₂
  · rintro ⟨hfits, hmemos, hagree⟩
    obtain ⟨bundle, hbundle, hbundleFits⟩ := hfits.exists_toSpendBundle hinit htyped hlaws hdrivers
    obtain ⟨o', ho', hentries, hsameBundle, hdict⟩ :=
      fromSpendBundle_toSpendBundle hinit htyped hcovered hlaws hdrivers hbundle
    obtain ⟨blob, hblob, hback⟩ := Streamed.SpendBundle.fromBytes_toBytes hbundleFits
    have hbundle' := (name_iff hinit htyped hlaws hentries hsameBundle hdict hbundle).mpr hagree
    have hread : fromBytes env blob = .ok o' := by rw [fromBytes, hback, ok_bind, ho']
    have hname : ∀ p : Offer ι, p.toSpendBundle env = .ok bundle → p.name env = .ok (env.sha256 blob) := by
      intro p hp
      rw [name, hp, ok_bind, Streamed.SpendBundle.name, hblob, ok_bind]
      rfl
    have hsame : o.SameOffer env o' :=
      ⟨⟨env.sha256 blob, hname o hbundle, hname o' hbundle'⟩, by rw [hsameBundle], by rw [hsameBundle],
        (requestedPayments_iff htyped hentries).mpr hmemos⟩
    refine ⟨⟨blob, o', by rw [toBytes, hbundle, ok_bind, hblob], hread, hsame⟩, fun version hversion => ?_⟩
    obtain ⟨text, htext, hreadText⟩ := fromBech32_toBech32 hlaws hbundle hbundleFits hblob hversion hread
    exact ⟨text, o', htext, hreadText, hsame⟩

end Offer

/-! ## Samples -/

namespace OfferSample

/-- The bytes of `settlement_payments.clvm`. -/
def settlementPayments : Bytes :=
  [0xff, 0x02, 0xff, 0xff, 0x01, 0xff, 0x02, 0xff, 0x0a, 0xff, 0xff, 0x04, 0xff, 0x02, 0xff, 0xff, 0x04, 0xff, 0x03,
    0xff, 0x80, 0x80, 0x80, 0x80, 0xff, 0xff, 0x04, 0xff, 0xff, 0x01, 0xff, 0xff, 0x33, 0x3e, 0xff, 0xff, 0x02, 0xff,
    0xff, 0x03, 0xff, 0x05, 0xff, 0xff, 0x01, 0xff, 0x04, 0xff, 0xff, 0x04, 0xff, 0x0c, 0xff, 0xff, 0x04, 0xff, 0xff,
    0x02, 0xff, 0x1e, 0xff, 0xff, 0x04, 0xff, 0x02, 0xff, 0xff, 0x04, 0xff, 0x09, 0xff, 0x80, 0x80, 0x80, 0x80, 0xff,
    0x80, 0x80, 0x80, 0xff, 0xff, 0x02, 0xff, 0x16, 0xff, 0xff, 0x04, 0xff, 0x02, 0xff, 0xff, 0x04, 0xff, 0x19, 0xff,
    0xff, 0x04, 0xff, 0xff, 0x02, 0xff, 0x0a, 0xff, 0xff, 0x04, 0xff, 0x02, 0xff, 0xff, 0x04, 0xff, 0x0d, 0xff, 0x80,
    0x80, 0x80, 0x80, 0xff, 0x80, 0x80, 0x80, 0x80, 0x80, 0x80, 0xff, 0x80, 0x80, 0xff, 0x01, 0x80, 0xff, 0xff, 0x02,
    0xff, 0xff, 0x03, 0xff, 0x05, 0xff, 0xff, 0x01, 0xff, 0x04, 0xff, 0xff, 0x04, 0xff, 0x08, 0xff, 0x09, 0x80, 0xff,
    0xff, 0x02, 0xff, 0x16, 0xff, 0xff, 0x04, 0xff, 0x02, 0xff, 0xff, 0x04, 0xff, 0x0d, 0xff, 0xff, 0x04, 0xff, 0x0b,
    0xff, 0x80, 0x80, 0x80, 0x80, 0x80, 0x80, 0xff, 0xff, 0x01, 0x0b, 0x80, 0xff, 0x01, 0x80, 0xff, 0x02, 0xff, 0xff,
    0x03, 0xff, 0xff, 0x07, 0xff, 0x05, 0x80, 0xff, 0xff, 0x01, 0xff, 0x0b, 0xff, 0xff, 0x01, 0x02, 0xff, 0xff, 0x02,
    0xff, 0x1e, 0xff, 0xff, 0x04, 0xff, 0x02, 0xff, 0xff, 0x04, 0xff, 0x09, 0xff, 0x80, 0x80, 0x80, 0x80, 0xff, 0xff,
    0x02, 0xff, 0x1e, 0xff, 0xff, 0x04, 0xff, 0x02, 0xff, 0xff, 0x04, 0xff, 0x0d, 0xff, 0x80, 0x80, 0x80, 0x80, 0x80,
    0xff, 0xff, 0x01, 0xff, 0x0b, 0xff, 0xff, 0x01, 0x01, 0xff, 0x05, 0x80, 0x80, 0xff, 0x01, 0x80, 0xff, 0x01, 0x80,
    0x80]

/-- `settlement_payments.clvm`. Only the kernel evaluates it. -/
@[irreducible] def offerMod : SExp :=
  match Program.fromBytes settlementPayments with
  | .ok s => s
  | .error _ => .nil

/-- The bytes of a program that can be written. -/
def bytesOf (s : SExp) : Bytes :=
  match Program.toBytes s with
  | .ok b => b
  | .error _ => []

/-- The signature of nothing. -/
def identity : Bytes := 0xc0 :: List.replicate 95 0

/-- Signatures of which at most one is not the signature of nothing. -/
def aggregate (signatures : List Bytes) : Bytes := (signatures.filter (· ≠ identity)).headD identity

/-- A run of a puzzle that quotes its conditions. -/
def runQuote (program _args : Bytes) : Except PyError (Option SExp) :=
  match Program.fromBytes program with
  | .ok (.pair (.atom [1]) conditions) => .ok (some conditions)
  | _ => .ok none

/-- No puzzle of the samples has a driver. -/
def env : OfferEnv Empty where
  sha256 := sampleHash
  valid _ _ := true
  g2Identity := identity
  aggregateSignatures := aggregate
  runProgram := runQuote
  matchPuzzle _ := .ok none
  createAssetId driver := driver.elim
  constructPuzzle driver := driver.elim
  getInnerPuzzle driver := driver.elim
  getInnerSolution driver := driver.elim
  offerMod := offerMod
  mods := ⟨[], [], settlementPayments, [], [], [], [], [], []⟩
  zlib := ⟨fun blob _ => blob, fun blob _ => .ok blob⟩

/-- A puzzle that pays 1000 to a settlement. -/
def payingPuzzle : SExp := .pair (.atom [1]) (SExp.ofList
  [SExp.ofList [.atom [51], .atom env.offerHash.bytes, .atom (SExp.intToBytes 1000)]])

/-- A spend that pays 1000 to a settlement. -/
def payingSpend : Streamed.CoinSpend :=
  ⟨⟨Bytes32.ofNat 1, payingPuzzle.treeHash sampleHash, 1000⟩, bytesOf payingPuzzle, [0x80]⟩

/-- An offer of 1000 for some payments. -/
def offer (payments : List NotarizedPayment) : Offer Empty where
  requestedPayments := OrderedDict.empty.set none payments
  bundle := ⟨[payingSpend], identity⟩
  driverDict := .empty

/-- A payment with the given memos. -/
def payment (amount : ℕ) (memos : List Bytes) (nonce : ℕ) : NotarizedPayment :=
  ⟨⟨Bytes32.ofNat 2, amount, .list (memos.map .bytes)⟩, Bytes32.ofNat nonce⟩

lemma lawful : env.Lawful where
  zlib _ _ := rfl
  aggregate_identity s _ := by
    show (([identity, s] : List Bytes).filter (· ≠ identity)).headD identity = s
    by_cases h : s = identity
    · simp [h]
    · simp [h]
  match_offerMod := rfl

lemma driversInverse (payments : List NotarizedPayment) : (offer payments).DriversInverse env :=
  fun _ driver _ => driver.elim

lemma driversAgree (payments : List NotarizedPayment) : (offer payments).DriversAgree env :=
  fun _ _ driver => driver.elim

lemma covered (payments : List NotarizedPayment) : (offer payments).Covered env where
  parent_ne cs hcs := by
    obtain rfl := List.mem_singleton.mp hcs
    decide +kernel
  driver _ _ _ driver _ _ := driver.elim

variable {payments : List NotarizedPayment}

lemma wellTyped (h : ∀ p ∈ payments, p.WellTyped) :
    (offer payments).WellTyped env where
  payments ps hps := by
    obtain rfl : ps = payments := List.mem_singleton.mp hps
    exact h
  amount_lt cs hcs := by
    obtain rfl := List.mem_singleton.mp hcs
    show 1000 < 2 ^ 64
    norm_num
  signature_length := rfl
  signature_valid := rfl

lemma wellTyped_payment {amount : ℕ} (h : amount < 2 ^ 64) (memos : List Bytes) (nonce : ℕ) :
    (payment amount memos nonce).WellTyped := ⟨h, memos, rfl⟩

/-- The constructor accepts an offer. -/
def accepted (o : Offer Empty) : Bool :=
  match o.postInit env with
  | .ok _ => true
  | .error _ => false

lemma postInit_of_accepted {o : Offer Empty} (h : accepted o = true) : o.postInit env = .ok () := by
  unfold accepted at h
  split at h
  · rename_i u hu
    exact hu
  · cases h

lemma postInit_offer (h : (payments.map fun p => p.name env.sha256).Nodup) :
    (offer payments).postInit env = .ok () := by
  have hnone : (offer []).postInit env = .ok () := postInit_of_accepted (by
    rw [accepted, offer, payingSpend, payingPuzzle, OfferEnv.offerHash, env, sampleHash_eq]
    decide +kernel)
  unfold Offer.postInit at hnone ⊢
  obtain ⟨offeredCoins, hoffered, hrest⟩ := bind_eq_ok.mp hnone
  have hcoins : offeredCoins.entries ≠ [] := fun hcoins => by
    rw [if_pos hcoins] at hrest
    cases hrest
  have hbundle : Offer.getOfferedCoins env (offer payments).bundle = .ok offeredCoins := hoffered
  have hnames : ∀ ps ∈ (offer payments).requestedPayments.values, (ps.map fun p => p.name env.sha256).Nodup := by
    intro ps hps
    obtain rfl : ps = payments := List.mem_singleton.mp hps
    exact h
  have hrequested : (offer payments).requestedPayments.entries ≠ [] := List.cons_ne_nil _ _
  rw [hbundle, ok_bind, if_neg hcoins, if_neg hrequested, if_neg (not_not_intro hnames)]
  rfl

lemma fits_offerMod : offerMod.Fits := by
  have hread : (match Program.fromBytes settlementPayments with
      | .ok _ => true
      | .error _ => false) = true := by decide +kernel
  unfold offerMod
  split
  · rename_i s hs
    exact Program.fits_of_fromBytes hs
  · rename_i e he
    rw [he] at hread
    cases hread

lemma fits_offer (h : ∀ p ∈ payments, p.memos.toProgram.Fits) :
    (offer payments).Fits env where
  length_lt := by
    show 1 + 1 < 2 ^ 32
    norm_num
  settlementPuzzle assetId hid puzzle hpuzzle := by
    obtain rfl : assetId = none := List.mem_singleton.mp hid
    obtain rfl : offerMod = puzzle := Except.ok.inj hpuzzle
    exact fits_offerMod
  memos ps hps := by
    obtain rfl : ps = payments := List.mem_singleton.mp hps
    exact h

/-- Three payments with two nonces, which are not in groups. -/
def mixedPayments : List NotarizedPayment := [payment 1 [[7]] 3, payment 2 [[7], [8]] 4, payment 3 [[]] 3]

/-- A payment without memos. -/
def memoless : List NotarizedPayment := [payment 1 [] 3]

end OfferSample

namespace Offer

open OfferSample

/-- Payments with two nonces, in turn, come back grouped. -/
theorem roundTrips_mixedPayments : (offer mixedPayments).RoundTrips OfferSample.env := by
  have hinit : (offer mixedPayments).postInit OfferSample.env = .ok () := postInit_offer (by
    rw [OfferSample.env, sampleHash_eq]
    decide +kernel)
  have htyped : (offer mixedPayments).WellTyped OfferSample.env := wellTyped (by
    intro p hp
    simp only [mixedPayments, List.mem_cons, List.not_mem_nil, or_false] at hp
    rcases hp with rfl | rfl | rfl <;> exact wellTyped_payment (by norm_num) _ _)
  have hsha := noCollision_of_agree hinit htyped (covered _) lawful (driversInverse _) (driversAgree _)
  refine (roundTrips_iff hinit htyped (covered _) lawful (driversInverse _) hsha).mpr
    ⟨fits_offer ?_, ?_, driversAgree _⟩
  · intro p hp
    simp only [mixedPayments, List.mem_cons, List.not_mem_nil, or_false] at hp
    rcases hp with rfl | rfl | rfl <;>
      simp [payment, PyObject.toProgram, PyObject.listToProgram, SExp.Fits, SExp.nil]
  · intro ps hps p hp
    obtain rfl : ps = mixedPayments := List.mem_singleton.mp hps
    simp only [mixedPayments, List.mem_cons, List.not_mem_nil, or_false] at hp
    rcases hp with rfl | rfl | rfl <;> simp [payment]

/-- **A payment without memos comes back with other memos**: with `b""` in the place of `[]`. -/
theorem not_roundTrips : (offer memoless).postInit OfferSample.env = .ok () ∧
    ¬(offer memoless).RoundTrips OfferSample.env := by
  have hinit : (offer memoless).postInit OfferSample.env = .ok () := postInit_offer (List.nodup_singleton _)
  refine ⟨hinit, fun h => ?_⟩
  have htyped : (offer memoless).WellTyped OfferSample.env := wellTyped (by
    intro p hp
    obtain rfl := List.mem_singleton.mp hp
    exact wellTyped_payment (by norm_num) _ _)
  obtain ⟨-, bundle, blob, o', -, -, -, -, -, hentries, -, -, hsame⟩ :=
    h.exists_read hinit htyped (covered _) lawful (driversInverse _)
  exact (requestedPayments_iff htyped hentries).mp hsame.requestedPayments memoless (List.mem_singleton.mpr rfl)
    (payment 1 [] 3) (List.mem_singleton.mpr rfl) rfl

end Offer

end Chives
