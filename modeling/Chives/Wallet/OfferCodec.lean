import Chives.Wallet.Offer

set_option autoImplicit false

/-!
# Offers survive their encodings

What is read of an offer that was written: the payments of an asset come back grouped by their nonces, the spends and
the signature as they were.

## Main definitions

* `Offer.RoundTrips` — both codecs return an offer with the same name, spends, signature and payments.
* `Offer.Fits`, `Offer.HasMemos`, `Offer.DriversAgree` — when they do.

## Main results

* `Offer.fromSpendBundle_toSpendBundle` — the offer that is read.
* `Offer.roundTrips_iff` — the codecs are faithful exactly if the offer is short enough to be written, every
  payment has a memo, and a spend of an asset that is also requested does not show another settlement puzzle.
* `Offer.not_roundTrips` — a payment without memos comes back with other memos.

## Design

`as_python` returns the empty byte string for the end of a list. So the memos `[]` of a payment come back as `b""`, and
`NotarizedPayment` compares its fields.
-/

namespace Chives

open ExceptRun Streamed StableGroup

/-! ## Conditions -/

lemma asPython_ofList (x : SExp) (l : List SExp) : asPython (SExp.ofList (x :: l)) = .list ((x :: l).map asPython) := by
  induction l generalizing x with
  | nil => rfl
  | cons y l ih =>
    rw [SExp.ofList, asPython, ih y]
    rfl

lemma ofBytes_intToBytes (n : ℕ) : BigEndian.ofBytes (SExp.intToBytes n) = n := by
  have hsigned : BigEndian.ofBytesSigned (SExp.intToBytes n) = n := SExp.intFromBytes_intToBytes n
  have hlt := BigEndian.ofBytes_lt (SExp.intToBytes n)
  unfold BigEndian.ofBytesSigned at hsigned
  split at hsigned
  · exact_mod_cast hsigned
  · have : (BigEndian.ofBytes (SExp.intToBytes n) : ℤ) < 256 ^ (SExp.intToBytes n).length := by exact_mod_cast hlt
    omega

lemma SExp.fits_ofList {l : List SExp} : (SExp.ofList l).Fits ↔ ∀ x ∈ l, x.Fits := by
  induction l with
  | nil => simp [SExp.ofList, SExp.nil, SExp.Fits]
  | cons x l ih => rw [SExp.ofList, SExp.Fits, ih, List.forall_mem_cons]

lemma length_intToBytes_le {n : ℕ} (h : n < 2 ^ 64) : (SExp.intToBytes n).length ≤ 9 := by
  have hstrip : ∀ l : List UInt8, (BigEndian.stripSign l).length ≤ l.length := by
    intro l
    induction l with
    | nil => exact le_rfl
    | cons b l ih =>
      cases l with
      | nil => exact le_rfl
      | cons c l =>
        rw [BigEndian.stripSign]
        by_cases hb : b = if 128 ≤ c.toNat then 255 else 0
        · rw [if_pos hb]
          exact ih.trans (Nat.le_succ _)
        · rw [if_neg hb]
  have hsize : n.size ≤ 64 := Nat.size_le.mpr h
  rw [SExp.intToBytes, BigEndian.toBytesMinimal]
  split
  · simp
  · refine (hstrip _).trans ?_
    rw [BigEndian.length_toBytesSigned, Int.natAbs_natCast]
    omega

namespace NotarizedPayment

/-- A payment as its type declares it. -/
structure WellTyped (p : NotarizedPayment) : Prop where
  amount_lt : p.amount < 2 ^ 64
  memos : ∃ l : List Bytes, p.memos = .list (l.map .bytes)

/-- The payment that is read for a payment. -/
def received (p : NotarizedPayment) : NotarizedPayment := { p with memos := asPython p.memos.toProgram }

lemma asPython_memos (l : List Bytes) : asPython (PyObject.list (l.map .bytes)).toProgram =
    if l = [] then .bytes [] else .list (l.map .bytes) := by
  rw [PyObject.toProgram, PyObject.listToProgram_eq, List.map_map]
  cases l with
  | nil => rfl
  | cons b l =>
    rw [List.map_cons, asPython_ofList, if_neg (List.cons_ne_nil _ _), ← List.map_cons, List.map_map]
    rfl

variable {p : NotarizedPayment}

lemma toProgram_received (h : p.WellTyped) : p.received.memos.toProgram = p.memos.toProgram := by
  obtain ⟨l, hl⟩ := h.memos
  show (asPython p.memos.toProgram).toProgram = _
  rw [hl, asPython_memos]
  split
  · rename_i hnil
    rw [hnil]
    rfl
  · rfl

/-- **A payment is read as it was exactly if it has memos.** -/
theorem received_eq_iff (h : p.WellTyped) : p.received = p ↔ p.memos ≠ .list [] := by
  obtain ⟨l, hl⟩ := h.memos
  have hmemos : p.received.memos = if l = [] then .bytes [] else .list (l.map .bytes) := by
    show asPython p.memos.toProgram = _
    rw [hl, asPython_memos]
  constructor
  · intro heq hnil
    rw [heq, hnil] at hmemos
    rw [hnil] at hl
    obtain rfl : l = [] := by
      cases l with
      | nil => rfl
      | cons b l => cases hl
    cases hmemos
  · intro hne
    have hl' : l ≠ [] := by
      rintro rfl
      exact hne hl
    rw [if_neg hl', ← hl] at hmemos
    calc p.received = { p with memos := p.received.memos } := rfl
      _ = p := by rw [hmemos]

lemma toProgram_args_received (h : p.WellTyped) :
    (PyObject.list p.received.asConditionArgs).toProgram = (PyObject.list p.asConditionArgs).toProgram := by
  have hmemos := toProgram_received h
  simp only [Payment.asConditionArgs, PyObject.toProgram, PyObject.listToProgram, hmemos]
  rfl

lemma fromConditionAndNonce_args (h : p.WellTyped) :
    fromConditionAndNonce (PyObject.list p.asConditionArgs).toProgram p.nonce = .ok p.received := by
  have hargs : asPython (.pair (.atom (SExp.intToBytes 51)) (PyObject.list p.asConditionArgs).toProgram) =
      .list [.bytes (SExp.intToBytes 51), .bytes p.puzzleHash.bytes, .bytes (SExp.intToBytes p.amount),
        asPython p.memos.toProgram] := by
    rw [PyObject.toProgram, PyObject.listToProgram_eq]
    exact asPython_ofList (.atom (SExp.intToBytes 51)) _
  have hhash : Bytes32.new p.puzzleHash.bytes = .ok p.puzzleHash := dif_pos p.puzzleHash.length_eq
  have hamount : uint64 (BigEndian.ofBytes (SExp.intToBytes p.amount)) = .ok p.amount := by
    rw [ofBytes_intToBytes]
    exact uintN_eq_ok.mpr ⟨rfl, h.amount_lt⟩
  rw [fromConditionAndNonce, Payment.fromCondition, hargs]
  simp only [Payment.pyBytes, PyObject.toBytes, ok_bind, hhash, hamount, List.headD_cons]
  rfl

variable {ps : List NotarizedPayment}

lemma readGroup_group {nonce : Bytes32} (h : ∀ p ∈ ps, p.WellTyped ∧ p.nonce = nonce) :
    readGroup (PyObject.tuple (.bytes nonce.bytes) (.list (ps.map fun p => .list p.asConditionArgs))).toProgram =
      .ok (ps.map received) := by
  have hnonce : Bytes32.new nonce.bytes = .ok nonce := dif_pos nonce.length_eq
  have hall : (ps.map fun p => (PyObject.list p.asConditionArgs).toProgram).mapM
      (fun condition => fromConditionAndNonce condition nonce) = .ok (ps.map received) := by
    induction ps with
    | nil => rfl
    | cons p ps ih =>
      obtain ⟨hp, rfl⟩ := h p List.mem_cons_self
      rw [List.map_cons, List.mapM_cons, fromConditionAndNonce_args hp, ok_bind,
        ih fun q hq => h q (List.mem_cons_of_mem _ hq), ok_bind]
      rfl
  rw [PyObject.toProgram, PyObject.toProgram, PyObject.toProgram, PyObject.listToProgram_eq, List.map_map, readGroup]
  simp only [SExp.first, SExp.rest, evalPart, ok_bind, asPython, Payment.pyBytes, PyObject.toBytes, hnonce, asIter,
    SExp.toList_ofList]
  exact hall

/-- **The payments of an asset are read grouped by their nonces**, up to their memos. -/
theorem readPayments_innerSolutions (h : ∀ p ∈ ps, p.WellTyped) :
    readPayments (innerSolutions ps).toProgram = .ok ((grouped NotarizedPayment.nonce ps).map received) := by
  have hgroups : ∀ gs : List (Bytes32 × List NotarizedPayment),
      (∀ g ∈ gs, ∀ p ∈ g.2, p.WellTyped ∧ p.nonce = g.1) →
      (gs.map fun g => (PyObject.tuple (.bytes g.1.bytes) (.list (g.2.map fun p =>
        .list p.asConditionArgs))).toProgram).mapM readGroup = .ok (gs.map fun g => g.2.map received) := by
    intro gs
    induction gs with
    | nil => exact fun _ => rfl
    | cons g gs ih =>
      intro hgs
      rw [List.map_cons, List.mapM_cons, readGroup_group (hgs g List.mem_cons_self), ok_bind,
        ih fun g' hg' => hgs g' (List.mem_cons_of_mem _ hg'), ok_bind]
      rfl
  rw [readPayments, innerSolutions, PyObject.toProgram, PyObject.listToProgram_eq, List.map_map, asIter,
    SExp.toList_ofList]
  have hread := hgroups (groups NotarizedPayment.nonce ps) fun g hg p hp =>
    ⟨h p (mem_of_mem_groups hg hp), key_of_mem_groups hg hp⟩
  simp only [ok_bind]
  show (List.mapM readGroup (List.map (fun g => (PyObject.tuple (.bytes g.1.bytes) (.list (g.2.map fun p =>
    .list p.asConditionArgs))).toProgram) (groups NotarizedPayment.nonce ps)) >>= fun payments =>
      pure payments.flatten) = _
  rw [hread, ok_bind, grouped, List.map_flatMap, List.flatMap_def]
  rfl

theorem toProgram_innerSolutions_received (h : ∀ p ∈ ps, p.WellTyped) :
    (innerSolutions ((grouped NotarizedPayment.nonce ps).map received)).toProgram =
      (innerSolutions ps).toProgram := by
  have hsame : groups NotarizedPayment.nonce ((grouped NotarizedPayment.nonce ps).map received) =
      (groups NotarizedPayment.nonce ps).map fun g => (g.1, g.2.map received) := by
    have hkeys : ∀ p : NotarizedPayment, p.received.nonce = p.nonce := fun _ => rfl
    rw [groups_map hkeys, groups_grouped]
  rw [innerSolutions, innerSolutions, hsame, PyObject.toProgram, PyObject.toProgram, PyObject.listToProgram_eq, PyObject.listToProgram_eq, List.map_map,
    List.map_map, List.map_map]
  congr 1
  refine List.map_congr_left fun g hg => ?_
  simp only [Function.comp_apply, PyObject.toProgram, PyObject.listToProgram_eq, List.map_map]
  congr 2
  refine List.map_congr_left fun p hp => ?_
  exact toProgram_args_received (h p (mem_of_mem_groups hg hp))

/-- The payments of an asset can be written exactly if their memos can be. -/
lemma fits_innerSolutions (h : ∀ p ∈ ps, p.WellTyped) :
    (innerSolutions ps).toProgram.Fits ↔ ∀ p ∈ ps, p.memos.toProgram.Fits := by
  have hhash : ∀ b : Bytes32, (SExp.atom b.bytes).Fits := fun b => by
    rw [SExp.Fits, b.length_eq]
    norm_num
  have hargs : ∀ p ∈ ps, (PyObject.list p.asConditionArgs).toProgram.Fits ↔ p.memos.toProgram.Fits := by
    intro p hp
    have hamount : (SExp.atom (SExp.intToBytes p.amount)).Fits := by
      have := length_intToBytes_le (h p hp).amount_lt
      rw [SExp.Fits]
      omega
    simp only [Payment.asConditionArgs, PyObject.toProgram, PyObject.listToProgram, SExp.Fits]
    simp only [SExp.Fits] at hamount
    have hpuzzle := hhash p.puzzleHash
    simp only [SExp.Fits] at hpuzzle
    simp [SExp.nil, SExp.Fits, hamount, hpuzzle]
  rw [innerSolutions, PyObject.toProgram, PyObject.listToProgram_eq, SExp.fits_ofList, List.map_map,
    List.forall_mem_map]
  have hgroup : ∀ g ∈ groups NotarizedPayment.nonce ps,
      ((PyObject.toProgram ∘ fun g : Bytes32 × List NotarizedPayment => .tuple (.bytes g.1.bytes)
        (.list (g.2.map fun p => .list p.asConditionArgs))) g).Fits ↔ ∀ p ∈ g.2, p.memos.toProgram.Fits := by
    intro g hg
    rw [Function.comp_apply, PyObject.toProgram, PyObject.toProgram, PyObject.toProgram, PyObject.listToProgram_eq,
      SExp.Fits, SExp.fits_ofList, List.map_map, List.forall_mem_map]
    constructor
    · exact fun hfits p hp => (hargs p (mem_of_mem_groups hg hp)).mp (hfits.2 p hp)
    · exact fun hfits => ⟨hhash g.1, fun p hp => (hargs p (mem_of_mem_groups hg hp)).mpr (hfits p hp)⟩
  constructor
  · intro hfits p hp
    have hmem : p ∈ grouped NotarizedPayment.nonce ps := (grouped_perm _ ps).mem_iff.mpr hp
    obtain ⟨g, hg, hpg⟩ := List.mem_flatMap.mp hmem
    exact (hgroup g hg).mp (hfits g hg) p hpg
  · intro hfits g hg
    exact (hgroup g hg).mpr fun p hp => hfits p (mem_of_mem_groups hg hp)

lemma name_received (sha256 : Bytes → Bytes32) (h : p.WellTyped) : p.received.name sha256 = p.name sha256 := by
  have hmemos := toProgram_received h
  simp only [Payment.name, Payment.asCondition, Payment.asConditionArgs, PyObject.toProgram, PyObject.listToProgram,
    hmemos]
  rfl

end NotarizedPayment

/-! ## What is assumed -/

variable {ι : Type}

/-- What is assumed of other packages: zlib decompresses what it compressed, the identity adds nothing to a signature,
and no driver matches the settlement puzzle itself. -/
structure OfferEnv.Lawful (env : OfferEnv ι) : Prop where
  zlib : env.zlib.Inverse
  aggregate_identity : ∀ s, env.valid .g2Element s = true → env.aggregateSignatures [env.g2Identity, s] = s
  match_offerMod : env.matchPuzzle env.offerMod = .ok none

namespace Offer

variable (env : OfferEnv ι) (o : Offer ι)

/-- The fields of an offer have their types. -/
structure WellTyped : Prop where
  payments : ∀ ps ∈ o.requestedPayments.values, ∀ p ∈ ps, p.WellTyped
  amount_lt : ∀ cs ∈ o.bundle.coinSpends, cs.coin.amount < 2 ^ 64
  signature_length : o.bundle.aggregatedSignature.length = 96
  signature_valid : env.valid .g2Element o.bundle.aggregatedSignature = true

/-- The drivers of an offer construct the settlement puzzles that they match. -/
def DriversInverse : Prop := ∀ assetId driver, o.driverDict.get? assetId = some driver →
  ∃ puzzle, env.constructPuzzle driver env.offerMod = .ok puzzle ∧
    env.matchPuzzle puzzle = .ok (some driver) ∧ env.createAssetId driver = .ok (some assetId)

/-- No spend has the parent that marks requests, and every asset that is spent has a driver. -/
structure Covered : Prop where
  parent_ne : ∀ cs ∈ o.bundle.coinSpends, cs.coin.parentCoinInfo ≠ Bytes32.zero
  driver : ∀ cs ∈ o.bundle.coinSpends, ∀ puzzle driver, Program.fromBytes cs.puzzleReveal = .ok puzzle →
    env.matchPuzzle puzzle = .ok (some driver) →
    ∃ assetId ∈ o.driverDict.keys, env.createAssetId driver = .ok (some assetId)

/-! ## When the codecs are faithful -/

/-- The offer is short enough to be written. -/
structure Fits : Prop where
  length_lt : o.requestedPayments.entries.length + o.bundle.coinSpends.length < 2 ^ 32
  settlementPuzzle : ∀ assetId ∈ o.requestedPayments.keys, ∀ puzzle,
    settlementPuzzle env o.driverDict assetId = .ok puzzle → puzzle.Fits
  memos : ∀ ps ∈ o.requestedPayments.values, ∀ p ∈ ps, p.memos.toProgram.Fits

/-- Every payment has a memo. -/
def HasMemos : Prop := ∀ ps ∈ o.requestedPayments.values, ∀ p ∈ ps, p.memos ≠ .list []

/-- The driver of the last spend of an asset, or the one that is given. -/
def lastDriver (assetId : Bytes32) (spends : List Streamed.CoinSpend) (driver : Option ι) : Option ι :=
  spends.foldl (fun driver cs =>
    match assetOfSpend env cs with
    | .ok (some (assetId', driver')) => if assetId = assetId' then some driver' else driver
    | _ => driver) driver

/-- A spend of an asset that is also requested does not show another settlement puzzle. -/
def DriversAgree : Prop := ∀ assetId, some assetId ∈ o.requestedPayments.keys → ∀ driver driver',
  o.driverDict.get? assetId = some driver →
  lastDriver env assetId o.bundle.coinSpends (some driver) = some driver' →
  env.constructPuzzle driver' env.offerMod = env.constructPuzzle driver env.offerMod

/-- Another offer with the same name, spends and signature, and the same payments, grouped by their nonces. -/
structure SameOffer (o' : Offer ι) : Prop where
  name : ∃ n, o.name env = .ok n ∧ o'.name env = .ok n
  coinSpends : o'.bundle.coinSpends.Perm o.bundle.coinSpends
  signature : o'.bundle.aggregatedSignature = o.bundle.aggregatedSignature
  requestedPayments : ∀ assetId, o'.requestedPayments.get? assetId =
    (o.requestedPayments.get? assetId).map (grouped NotarizedPayment.nonce)

/-- Both codecs return an offer that is the same, the second one for every version. -/
def RoundTrips : Prop :=
  (∃ blob o', o.toBytes env = .ok blob ∧ fromBytes env blob = .ok o' ∧ o.SameOffer env o') ∧
  ∀ version : Option ℕ, (∀ v, version = some v → 1 ≤ v ∧ v ≤ LATEST_VERSION) →
    ∃ text o', o.toBech32 env version = .ok text ∧ fromBech32 env text = .ok o' ∧ o.SameOffer env o'

/-! ## Reading a bundle -/

variable {env o} {ps : List NotarizedPayment} {assetId : Option Bytes32} {cs : Streamed.CoinSpend}

/-- The asset of a request, as it is read. -/
lemma assetOfSpend_request (hlaws : env.Lawful) (hdrivers : o.DriversInverse env)
    (h : requestSpend env o.driverDict assetId ps = .ok cs) :
    assetOfSpend env cs = .ok (assetId.bind fun id => (o.driverDict.get? id).map fun driver => (id, driver)) ∧
      ∀ id, assetId = some id → (o.driverDict.get? id).isSome := by
  obtain ⟨puzzle, hpuzzle, h⟩ := bind_eq_ok.mp h
  obtain ⟨puzzleBytes, hbytes, h⟩ := bind_eq_ok.mp h
  obtain ⟨solutionBytes, hsolution, h⟩ := bind_eq_ok.mp h
  obtain rfl := Except.ok.inj h
  have hread := Program.fromBytes_toBytes hbytes
  cases assetId with
  | none =>
    obtain rfl : env.offerMod = puzzle := Except.ok.inj hpuzzle
    refine ⟨?_, nofun⟩
    rw [assetOfSpend, hread, ok_bind, hlaws.match_offerMod, ok_bind]
    rfl
  | some id =>
    rw [settlementPuzzle] at hpuzzle
    split at hpuzzle
    · rename_i driver hdriver
      obtain ⟨puzzle', hconstruct, hmatch, hid⟩ := hdrivers id driver hdriver
      obtain rfl : puzzle' = puzzle := Except.ok.inj (hconstruct.symm.trans hpuzzle)
      refine ⟨?_, ?_⟩
      · rw [assetOfSpend, hread, ok_bind, hmatch, ok_bind]
        simp only [hid, ok_bind, pySome, Option.bind_some, hdriver, Option.map_some]
        rfl
      · rintro _ ⟨rfl⟩
        rw [hdriver]
        rfl
    · cases hpuzzle

/-- **A request is read** as the payments that it was made of, grouped by their nonces. -/
lemma readSpend_request (hlaws : env.Lawful) (hdrivers : o.DriversInverse env) (hps : ∀ p ∈ ps, p.WellTyped)
    (h : requestSpend env o.driverDict assetId ps = .ok cs) (s : ReadState ι) :
    ∃ s', readSpend env s cs = .ok s' ∧
      s'.requestedPayments = s.requestedPayments.set assetId
        ((grouped NotarizedPayment.nonce ps).map NotarizedPayment.received) ∧
      (∀ id, s'.driverDict.get? id = if assetId = some id then o.driverDict.get? id else s.driverDict.get? id) ∧
      s'.leftoverCoinSpends = s.leftoverCoinSpends := by
  obtain ⟨hasset, hsome⟩ := assetOfSpend_request hlaws hdrivers h
  obtain ⟨puzzle, hpuzzle, h⟩ := bind_eq_ok.mp h
  obtain ⟨puzzleBytes, hbytes, h⟩ := bind_eq_ok.mp h
  obtain ⟨solutionBytes, hsolution, h⟩ := bind_eq_ok.mp h
  obtain rfl := Except.ok.inj h
  have hread := Program.fromBytes_toBytes hsolution
  rw [readSpend, hasset, ok_bind, if_pos rfl, hread, ok_bind, NotarizedPayment.readPayments_innerSolutions hps,
    ok_bind]
  refine ⟨_, rfl, ?_, ?_, rfl⟩
  · cases assetId with
    | none => rfl
    | some id =>
      obtain ⟨driver, hdriver⟩ := Option.isSome_iff_exists.mp (hsome id rfl)
      simp only [Option.bind_some, hdriver, Option.map_some]
  · intro id'
    cases assetId with
    | none => rfl
    | some id =>
      obtain ⟨driver, hdriver⟩ := Option.isSome_iff_exists.mp (hsome id rfl)
      simp only [Option.bind_some, hdriver, Option.map_some, OrderedDict.get?_set, Option.some.injEq]
      by_cases hid : id' = id
      · rw [if_pos hid, if_pos hid.symm, hid, hdriver]
      · rw [if_neg hid, if_neg (Ne.symm hid)]

/-- The payments of an entry, as they are read. -/
def receivedEntry (e : Option Bytes32 × List NotarizedPayment) : Option Bytes32 × List NotarizedPayment :=
  (e.1, (grouped NotarizedPayment.nonce e.2).map NotarizedPayment.received)

/-- The requests are read in their order.

**Proof sketch.** Induction on the entries. Their keys differ, so that each of them is a new key of the dictionary. -/
lemma foldlM_requests (hlaws : env.Lawful) (hdrivers : o.DriversInverse env)
    {entries : List (Option Bytes32 × List NotarizedPayment)} (hnodup : (entries.map Prod.fst).Nodup)
    (htyped : ∀ e ∈ entries, ∀ p ∈ e.2, p.WellTyped) {spends : List Streamed.CoinSpend}
    (h : entries.mapM (fun e => requestSpend env o.driverDict e.1 e.2) = .ok spends) (s : ReadState ι)
    (hnew : ∀ e ∈ entries, s.requestedPayments.get? e.1 = none) :
    ∃ s', spends.foldlM (readSpend env) s = .ok s' ∧
      s'.requestedPayments.entries = s.requestedPayments.entries ++ entries.map receivedEntry ∧
      (∀ id, s'.driverDict.get? id =
        if some id ∈ entries.map Prod.fst then o.driverDict.get? id else s.driverDict.get? id) ∧
      s'.leftoverCoinSpends = s.leftoverCoinSpends := by
  induction entries generalizing spends s with
  | nil =>
    obtain rfl : [] = spends := Except.ok.inj h
    refine ⟨s, rfl, by simp, fun id => by simp, rfl⟩
  | cons e entries ih =>
    rw [List.mapM_cons] at h
    obtain ⟨cs, hcs, h⟩ := bind_eq_ok.mp h
    obtain ⟨rest, hrest, h⟩ := bind_eq_ok.mp h
    obtain rfl := Except.ok.inj h
    rw [List.map_cons, List.nodup_cons] at hnodup
    obtain ⟨s₁, hs₁, hpayments, hdict, hleft⟩ :=
      readSpend_request hlaws hdrivers (htyped e List.mem_cons_self) hcs s
    have hnew₁ : ∀ e' ∈ entries, s₁.requestedPayments.get? e'.1 = none := by
      intro e' he'
      have hne : e'.1 ≠ e.1 := fun heq => hnodup.1 (heq ▸ List.mem_map_of_mem he')
      rw [hpayments, OrderedDict.get?_set, if_neg hne]
      exact hnew e' (List.mem_cons_of_mem _ he')
    obtain ⟨s', hs', hpayments', hdict', hleft'⟩ :=
      ih hnodup.2 (fun e' he' => htyped e' (List.mem_cons_of_mem _ he')) hrest s₁ hnew₁
    refine ⟨s', by rw [List.foldlM_cons, hs₁, ok_bind, hs'], ?_, ?_, hleft'.trans hleft⟩
    · rw [hpayments', hpayments, OrderedDict.entries_set_of_none _ (hnew e List.mem_cons_self), List.map_cons,
        List.append_assoc]
      rfl
    · intro id
      rw [hdict', hdict, List.map_cons]
      by_cases hmem : some id ∈ entries.map Prod.fst
      · rw [if_pos hmem, if_pos (List.mem_cons_of_mem _ hmem)]
      · rw [if_neg hmem]
        by_cases he : e.1 = some id
        · rw [if_pos he, if_pos (he ▸ List.mem_cons_self)]
        · rw [if_neg he, if_neg]
          intro hcons
          rcases List.mem_cons.mp hcons with h | h
          · exact he h.symm
          · exact hmem h

lemma lastDriver_cons (assetId : Bytes32) (cs : Streamed.CoinSpend) (spends : List Streamed.CoinSpend)
    (driver : Option ι) : lastDriver env assetId (cs :: spends) driver =
      lastDriver env assetId spends (lastDriver env assetId [cs] driver) := rfl

lemma foldlM_spends {spends : List Streamed.CoinSpend}
    (hparent : ∀ cs ∈ spends, cs.coin.parentCoinInfo ≠ Bytes32.zero)
    (hasset : ∀ cs ∈ spends, ∃ asset, assetOfSpend env cs = .ok asset) (s : ReadState ι) :
    ∃ s', spends.foldlM (readSpend env) s = .ok s' ∧ s'.requestedPayments = s.requestedPayments ∧
      (∀ id, s'.driverDict.get? id = lastDriver env id spends (s.driverDict.get? id)) ∧
      s'.leftoverCoinSpends = s.leftoverCoinSpends ++ spends := by
  induction spends generalizing s with
  | nil => exact ⟨s, rfl, rfl, fun _ => rfl, by simp⟩
  | cons cs spends ih =>
    obtain ⟨asset, hcs⟩ := hasset cs List.mem_cons_self
    have hstep : ∃ s₁, readSpend env s cs = .ok s₁ ∧ s₁.requestedPayments = s.requestedPayments ∧
        (∀ id, s₁.driverDict.get? id = lastDriver env id [cs] (s.driverDict.get? id)) ∧
        s₁.leftoverCoinSpends = s.leftoverCoinSpends ++ [cs] := by
      rw [readSpend, hcs, ok_bind, if_neg (hparent cs List.mem_cons_self)]
      refine ⟨_, rfl, rfl, fun id => ?_, rfl⟩
      simp only [lastDriver, List.foldl_cons, List.foldl_nil, hcs]
      cases asset with
      | none => rfl
      | some a => exact OrderedDict.get?_set _ _ _ _
    obtain ⟨s₁, hs₁, hpayments, hdict, hleft⟩ := hstep
    obtain ⟨s', hs', hpayments', hdict', hleft'⟩ := ih (fun cs' h => hparent cs' (List.mem_cons_of_mem _ h))
      (fun cs' h => hasset cs' (List.mem_cons_of_mem _ h)) s₁
    refine ⟨s', by rw [List.foldlM_cons, hs₁, ok_bind, hs'], hpayments'.trans hpayments, fun id => ?_, ?_⟩
    · rw [hdict', hdict]
      exact (lastDriver_cons id cs spends _).symm
    · rw [hleft', hleft, List.append_assoc]
      rfl

/-! ## The constructor -/

lemma postInit_eq_ok : o.postInit env = .ok () ↔
    ∃ offered, getOfferedCoins env o.bundle = .ok offered ∧ offered.entries ≠ [] ∧
      o.requestedPayments.entries ≠ [] ∧
      (∀ payments ∈ o.requestedPayments.values, (payments.map fun p => p.name env.sha256).Nodup) ∧
      ∀ id ∈ o.requestedPayments.keys.filterMap fun k => k, id ∈ o.driverDict.keys := by
  unfold postInit
  constructor
  · intro h
    obtain ⟨offered, hoffered, h⟩ := bind_eq_ok.mp h
    refine ⟨offered, hoffered, ?_⟩
    split at h
    · cases h
    · rename_i h₁
      split at h
      · cases h
      · rename_i h₂
        split at h
        · cases h
        · rename_i h₃
          split at h
          · cases h
          · rename_i h₄
            exact ⟨h₁, h₂, not_not.mp h₃, not_not.mp h₄⟩
  · rintro ⟨offered, hoffered, h₁, h₂, h₃, h₄⟩
    rw [hoffered, ok_bind, if_neg h₁, if_neg h₂, if_neg (not_not.mpr h₃), if_neg (not_not.mpr h₄)]
    rfl

lemma programs_of_postInit (h : o.postInit env = .ok ()) (hcs : cs ∈ o.bundle.coinSpends) :
    ∃ puzzle solution driver, Program.fromBytes cs.puzzleReveal = .ok puzzle ∧
      Program.fromBytes cs.solution = .ok solution ∧ env.matchPuzzle puzzle = .ok driver := by
  obtain ⟨offered, hoffered, -⟩ := postInit_eq_ok.mp h
  obtain ⟨l, hl, -⟩ := bind_eq_ok.mp hoffered
  obtain ⟨r, hr⟩ := exists_of_mapM_eq_ok hl hcs
  obtain ⟨puzzle, hpuzzle, hr⟩ := bind_eq_ok.mp hr
  obtain ⟨solution, hsolution, hr⟩ := bind_eq_ok.mp hr
  obtain ⟨additions, -, hr⟩ := bind_eq_ok.mp hr
  obtain ⟨driver, hdriver, -⟩ := bind_eq_ok.mp hr
  exact ⟨puzzle, solution, driver, hpuzzle, hsolution, hdriver⟩

lemma exists_assetOfSpend (h : o.postInit env = .ok ()) (hcovered : o.Covered env) (hcs : cs ∈ o.bundle.coinSpends) :
    ∃ asset, assetOfSpend env cs = .ok asset := by
  obtain ⟨puzzle, solution, driver, hpuzzle, -, hdriver⟩ := programs_of_postInit h hcs
  rw [assetOfSpend, hpuzzle, ok_bind, hdriver, ok_bind]
  cases driver with
  | none => exact ⟨none, rfl⟩
  | some driver =>
    obtain ⟨id, -, hid⟩ := hcovered.driver cs hcs puzzle driver hpuzzle hdriver
    exact ⟨some (id, driver), by simp only [hid, ok_bind, pySome]; rfl⟩

/-! ## The offer that is read -/

lemma mem_keys_iff {κ ν : Type} [DecidableEq κ] {d : OrderedDict κ ν} {k : κ} :
    k ∈ d.keys ↔ ∃ v, d.get? k = some v := by
  rw [OrderedDict.keys, List.mem_map]
  constructor
  · rintro ⟨e, he, rfl⟩
    exact ⟨e.2, OrderedDict.get?_eq_some.mpr he⟩
  · rintro ⟨v, hv⟩
    exact ⟨(k, v), OrderedDict.get?_eq_some.mp hv, rfl⟩

lemma toSpendBundle_eq_ok (hlaws : env.Lawful) (htyped : o.WellTyped env) {bundle : Streamed.SpendBundle}
    (h : o.toSpendBundle env = .ok bundle) : ∃ requests,
      o.requestedPayments.entries.mapM (fun e => requestSpend env o.driverDict e.1 e.2) = .ok requests ∧
        bundle = ⟨requests ++ o.bundle.coinSpends, o.bundle.aggregatedSignature⟩ := by
  obtain ⟨requests, hrequests, h⟩ := bind_eq_ok.mp h
  obtain rfl := Except.ok.inj h
  refine ⟨requests, hrequests, ?_⟩
  rw [Streamed.SpendBundle.aggregate]
  simp only [List.flatMap_cons, List.flatMap_nil, List.append_nil, List.map_cons, List.map_nil,
    hlaws.aggregate_identity _ htyped.signature_valid]

lemma exists_lastDriver (env : OfferEnv ι) (assetId : Bytes32) (spends : List Streamed.CoinSpend) (driver : ι) :
    ∃ driver', lastDriver env assetId spends (some driver) = some driver' := by
  induction spends generalizing driver with
  | nil => exact ⟨driver, rfl⟩
  | cons cs spends ih =>
    have hstep : ∃ d, lastDriver env assetId [cs] (some driver) = some d := by
      simp only [lastDriver, List.foldl_cons, List.foldl_nil]
      split
      · split
        · exact ⟨_, rfl⟩
        · exact ⟨_, rfl⟩
      · exact ⟨_, rfl⟩
    obtain ⟨d, hd⟩ := hstep
    rw [lastDriver_cons, hd]
    exact ih d

lemma nodup_names_received (htyped : ∀ p ∈ ps, p.WellTyped) (h : (ps.map fun p => p.name env.sha256).Nodup) :
    (((grouped NotarizedPayment.nonce ps).map NotarizedPayment.received).map fun p => p.name env.sha256).Nodup := by
  have hperm := grouped_perm NotarizedPayment.nonce ps
  rw [List.map_map]
  have hnames : (grouped NotarizedPayment.nonce ps).map ((fun p => p.name env.sha256) ∘ NotarizedPayment.received) =
      (grouped NotarizedPayment.nonce ps).map fun p => p.name env.sha256 :=
    List.map_congr_left fun p hp => NotarizedPayment.name_received env.sha256 (htyped p (hperm.mem_iff.mp hp))
  rw [hnames]
  exact (hperm.map _).nodup_iff.mpr h

/-- **The offer that is read** of the bundle of an offer: it has the spends and the signature, the payments grouped by
their nonces, and for an asset the driver that its last spend shows.

**Proof sketch.** The requests come first, and no spend of the offer is taken for one. The constructor looks at the
spends of the offer, which are the same, at the names of payments, which grouping permutes, and at the drivers of the
assets that are requested, which the requests have. -/
theorem fromSpendBundle_toSpendBundle (hinit : o.postInit env = .ok ()) (htyped : o.WellTyped env)
    (hcovered : o.Covered env) (hlaws : env.Lawful) (hdrivers : o.DriversInverse env) {bundle : Streamed.SpendBundle}
    (h : o.toSpendBundle env = .ok bundle) :
    ∃ o', fromSpendBundle env bundle = .ok o' ∧
      o'.requestedPayments.entries = o.requestedPayments.entries.map receivedEntry ∧ o'.bundle = o.bundle ∧
      ∀ id, some id ∈ o.requestedPayments.keys →
        o'.driverDict.get? id = lastDriver env id o.bundle.coinSpends (o.driverDict.get? id) := by
  obtain ⟨requests, hrequests, rfl⟩ := toSpendBundle_eq_ok hlaws htyped h
  have hpayments : ∀ e ∈ o.requestedPayments.entries, ∀ p ∈ e.2, p.WellTyped := fun e he =>
    htyped.payments e.2 (List.mem_map_of_mem he)
  obtain ⟨s₁, hs₁, hentries₁, hdict₁, hleft₁⟩ := foldlM_requests hlaws hdrivers o.requestedPayments.nodup hpayments
    hrequests ⟨.empty, .empty, []⟩ fun e _ => OrderedDict.get?_empty e.1
  obtain ⟨s₂, hs₂, hentries₂, hdict₂, hleft₂⟩ := foldlM_spends hcovered.parent_ne
    (fun cs hcs => exists_assetOfSpend hinit hcovered hcs) s₁
  have hkeys : s₂.requestedPayments.keys = o.requestedPayments.keys := by
    rw [OrderedDict.keys, hentries₂, hentries₁]
    show (([] : List (Option Bytes32 × List NotarizedPayment)) ++ _).map Prod.fst = _
    rw [List.nil_append, List.map_map]
    rfl
  have hleft : s₂.leftoverCoinSpends = o.bundle.coinSpends := by
    rw [hleft₂, hleft₁, List.nil_append]
  have hdict : ∀ id, some id ∈ o.requestedPayments.keys →
      s₂.driverDict.get? id = lastDriver env id o.bundle.coinSpends (o.driverDict.get? id) := by
    intro id hid
    have hid' : some id ∈ o.requestedPayments.entries.map Prod.fst := hid
    rw [hdict₂, hdict₁, if_pos hid']
  have hbundle : (⟨s₂.leftoverCoinSpends, o.bundle.aggregatedSignature⟩ : Streamed.SpendBundle) = o.bundle := by rw [hleft]
  have hvalues : s₂.requestedPayments.entries = o.requestedPayments.entries.map receivedEntry := by
    rw [hentries₂, hentries₁]
    rfl
  obtain ⟨offered, hoffered, hne, hrequested, hnames, hknown⟩ := postInit_eq_ok.mp hinit
  have hinit' : postInit env ⟨s₂.requestedPayments, ⟨s₂.leftoverCoinSpends, o.bundle.aggregatedSignature⟩,
      s₂.driverDict⟩ = .ok () := by
    refine postInit_eq_ok.mpr ⟨offered, by rw [hbundle]; exact hoffered, hne, ?_, ?_, ?_⟩
    · rw [hvalues]
      exact fun hnil => hrequested (List.map_eq_nil_iff.mp hnil)
    · intro payments hpay
      rw [OrderedDict.values, hvalues, List.map_map] at hpay
      obtain ⟨e, he, rfl⟩ := List.mem_map.mp hpay
      exact nodup_names_received (hpayments e he) (hnames e.2 (List.mem_map_of_mem he))
    · intro id hid
      rw [hkeys] at hid
      obtain ⟨k, hk, rfl⟩ := List.mem_filterMap.mp hid
      obtain ⟨driver, hdriver⟩ := mem_keys_iff.mp (hknown id hid)
      obtain ⟨driver', hdriver'⟩ := exists_lastDriver env id o.bundle.coinSpends driver
      refine mem_keys_iff.mpr ⟨driver', ?_⟩
      rw [hdict id hk, hdriver, hdriver']
  refine ⟨⟨s₂.requestedPayments, ⟨s₂.leftoverCoinSpends, o.bundle.aggregatedSignature⟩, s₂.driverDict⟩, ?_, hvalues,
    hbundle, hdict⟩
  rw [fromSpendBundle, List.foldlM_append, hs₁, ok_bind, hs₂, ok_bind, new, hinit', ok_bind]
  rfl

/-! ## What can be written -/

lemma exists_settlementPuzzle (hinit : o.postInit env = .ok ()) (hdrivers : o.DriversInverse env)
    (h : assetId ∈ o.requestedPayments.keys) : ∃ puzzle, settlementPuzzle env o.driverDict assetId = .ok puzzle := by
  obtain ⟨offered, -, -, -, -, hknown⟩ := postInit_eq_ok.mp hinit
  cases assetId with
  | none => exact ⟨env.offerMod, rfl⟩
  | some id =>
    obtain ⟨driver, hdriver⟩ := mem_keys_iff.mp (hknown id (List.mem_filterMap.mpr ⟨some id, h, rfl⟩))
    obtain ⟨puzzle, hpuzzle, -⟩ := hdrivers id driver hdriver
    exact ⟨puzzle, by rw [settlementPuzzle, hdriver]; exact hpuzzle⟩

lemma fits_requestSpend (h : requestSpend env o.driverDict assetId ps = .ok cs) : cs.Fits := by
  obtain ⟨puzzle, -, h⟩ := bind_eq_ok.mp h
  obtain ⟨puzzleBytes, hbytes, h⟩ := bind_eq_ok.mp h
  obtain ⟨solutionBytes, hsolution, h⟩ := bind_eq_ok.mp h
  obtain rfl := Except.ok.inj h
  exact ⟨by norm_num, ⟨puzzle, Program.fromBytes_toBytes hbytes⟩, ⟨_, Program.fromBytes_toBytes hsolution⟩⟩

/-- An offer that is short enough has a bundle, which can be written. -/
lemma Fits.exists_toSpendBundle (h : o.Fits env) (hinit : o.postInit env = .ok ()) (htyped : o.WellTyped env)
    (hlaws : env.Lawful) (hdrivers : o.DriversInverse env) :
    ∃ bundle, o.toSpendBundle env = .ok bundle ∧ bundle.Fits env.valid := by
  have hrequest : ∀ e ∈ o.requestedPayments.entries, ∃ cs, requestSpend env o.driverDict e.1 e.2 = .ok cs := by
    intro e he
    have hkey : e.1 ∈ o.requestedPayments.keys := List.mem_map_of_mem he
    have hvalue : e.2 ∈ o.requestedPayments.values := List.mem_map_of_mem he
    obtain ⟨puzzle, hpuzzle⟩ := exists_settlementPuzzle hinit hdrivers hkey
    obtain ⟨puzzleBytes, hbytes⟩ := SExp.exists_toStream_iff.mpr (h.settlementPuzzle e.1 hkey puzzle hpuzzle)
    obtain ⟨solutionBytes, hsolution⟩ := SExp.exists_toStream_iff.mpr
      ((NotarizedPayment.fits_innerSolutions (htyped.payments e.2 hvalue)).mpr (h.memos e.2 hvalue))
    refine ⟨⟨⟨Bytes32.zero, puzzle.treeHash env.sha256, 0⟩, puzzleBytes, solutionBytes⟩, ?_⟩
    rw [requestSpend, hpuzzle, ok_bind, Program.toBytes, hbytes, ok_bind, Program.toBytes, hsolution, ok_bind]
    rfl
  obtain ⟨requests, hrequests, hlen⟩ := exists_mapM_eq_ok hrequest
  have hbundle : o.toSpendBundle env = .ok (Streamed.SpendBundle.aggregate env.aggregateSignatures
      [⟨requests, env.g2Identity⟩, o.bundle]) := by
    rw [toSpendBundle, hrequests, ok_bind]
    rfl
  refine ⟨_, hbundle, ?_⟩
  obtain ⟨requests', hrequests', heq⟩ := toSpendBundle_eq_ok hlaws htyped hbundle
  obtain rfl : requests = requests' := Except.ok.inj (hrequests.symm.trans hrequests')
  rw [heq]
  refine ⟨?_, fun cs hcs => ?_, htyped.signature_length, htyped.signature_valid⟩
  · rw [List.length_append, hlen]
    exact h.length_lt
  · rcases List.mem_append.mp hcs with hcs | hcs
    · obtain ⟨e, -, he⟩ := mem_of_mapM_eq_ok hrequests hcs
      exact fits_requestSpend he
    · obtain ⟨puzzle, solution, driver, hpuzzle, hsolution, -⟩ := programs_of_postInit hinit hcs
      exact ⟨htyped.amount_lt cs hcs, ⟨puzzle, hpuzzle⟩, ⟨solution, hsolution⟩⟩

lemma fits_of_toBytes (htyped : o.WellTyped env) (hlaws : env.Lawful) {blob : Bytes}
    (h : o.toBytes env = .ok blob) : o.Fits env := by
  obtain ⟨bundle, hbundle, hblob⟩ := bind_eq_ok.mp h
  obtain ⟨requests, hrequests, rfl⟩ := toSpendBundle_eq_ok hlaws htyped hbundle
  have hlen : requests.length = o.requestedPayments.entries.length := by
    obtain ⟨l, hl, hlen⟩ := exists_mapM_eq_ok fun e he => exists_of_mapM_eq_ok hrequests he
    obtain rfl : l = requests := Except.ok.inj (hl.symm.trans hrequests)
    exact hlen
  have hrequest : ∀ e ∈ o.requestedPayments.entries, (∀ puzzle,
      settlementPuzzle env o.driverDict e.1 = .ok puzzle → puzzle.Fits) ∧ ∀ p ∈ e.2, p.memos.toProgram.Fits := by
    intro e he
    obtain ⟨cs, hcs⟩ := exists_of_mapM_eq_ok hrequests he
    obtain ⟨puzzle, hpuzzle, hcs⟩ := bind_eq_ok.mp hcs
    obtain ⟨puzzleBytes, hbytes, hcs⟩ := bind_eq_ok.mp hcs
    obtain ⟨solutionBytes, hsolution, -⟩ := bind_eq_ok.mp hcs
    refine ⟨fun puzzle' hpuzzle' => ?_, ?_⟩
    · obtain rfl : puzzle = puzzle' := Except.ok.inj (hpuzzle.symm.trans hpuzzle')
      exact SExp.exists_toStream_iff.mp ⟨_, hbytes⟩
    · exact (NotarizedPayment.fits_innerSolutions (htyped.payments e.2 (List.mem_map_of_mem he))).mp
        (SExp.exists_toStream_iff.mp ⟨_, hsolution⟩)
  have hshort := Streamed.SpendBundle.length_of_toBytes hblob
  refine ⟨?_, fun assetId hid => ?_, fun ps hps => ?_⟩
  · have hsum : (requests ++ o.bundle.coinSpends).length < 2 ^ 32 := hshort
    rwa [List.length_append, hlen] at hsum
  · obtain ⟨e, he, rfl⟩ := List.mem_map.mp hid
    exact (hrequest e he).1
  · obtain ⟨e, he, rfl⟩ := List.mem_map.mp hps
    exact (hrequest e he).2

/-! ## The name -/

variable {o' : Offer ι}

lemma toSpendBundle_congr (htyped : o.WellTyped env)
    (hentries : o'.requestedPayments.entries = o.requestedPayments.entries.map receivedEntry)
    (hbundle : o'.bundle = o.bundle)
    (hpuzzle : ∀ assetId ∈ o.requestedPayments.keys, settlementPuzzle env o'.driverDict assetId = settlementPuzzle env o.driverDict assetId) :
    o'.toSpendBundle env = o.toSpendBundle env := by
  have hmap : (o.requestedPayments.entries.map receivedEntry).mapM
      (fun e => requestSpend env o'.driverDict e.1 e.2) =
        o.requestedPayments.entries.mapM (fun e => requestSpend env o.driverDict e.1 e.2) := by
    rw [List.mapM_map]
    refine mapM_congr_of_mem fun e he => ?_
    have hsolution : (NotarizedPayment.innerSolutions (receivedEntry e).2).toProgram =
        (NotarizedPayment.innerSolutions e.2).toProgram :=
      NotarizedPayment.toProgram_innerSolutions_received (htyped.payments e.2 (List.mem_map_of_mem he))
    show requestSpend env o'.driverDict e.1 (receivedEntry e).2 = _
    rw [requestSpend, hpuzzle e.1 (List.mem_map_of_mem he), hsolution]
    rfl
  rw [toSpendBundle, toSpendBundle, hentries, hbundle, hmap]

lemma eq_of_mapM_eq {α β : Type} {f g : α → Except PyError β} {l : List α} {l' : List β} (hf : l.mapM f = .ok l')
    (hg : l.mapM g = .ok l') {a : α} (ha : a ∈ l) : f a = g a := by
  induction l generalizing l' with
  | nil => cases ha
  | cons x l ih =>
    rw [List.mapM_cons] at hf hg
    obtain ⟨b, hb, hf⟩ := bind_eq_ok.mp hf
    obtain ⟨bs, hbs, hf⟩ := bind_eq_ok.mp hf
    obtain ⟨c, hc, hg⟩ := bind_eq_ok.mp hg
    obtain ⟨cs, hcs, hg⟩ := bind_eq_ok.mp hg
    obtain rfl := Except.ok.inj hf
    obtain ⟨rfl, rfl⟩ := List.cons.inj (Except.ok.inj hg)
    rcases List.mem_cons.mp ha with rfl | ha
    · rw [hb, hc]
    · exact ih hbs hcs ha

lemma settlementPuzzle_of_toSpendBundle (htyped : o.WellTyped env) (hlaws : env.Lawful)
    (hentries : o'.requestedPayments.entries = o.requestedPayments.entries.map receivedEntry)
    (hbundle : o'.bundle = o.bundle) {b : Streamed.SpendBundle} (h : o.toSpendBundle env = .ok b)
    (h' : o'.toSpendBundle env = .ok b) (hid : assetId ∈ o.requestedPayments.keys) :
    settlementPuzzle env o'.driverDict assetId = settlementPuzzle env o.driverDict assetId := by
  obtain ⟨requests, hrequests, rfl⟩ := toSpendBundle_eq_ok hlaws htyped h
  obtain ⟨requests', hrequests', hb⟩ := bind_eq_ok.mp h'
  have hspends : requests' ++ o.bundle.coinSpends = requests ++ o.bundle.coinSpends := by
    have := congrArg Streamed.SpendBundle.coinSpends (Except.ok.inj hb)
    rw [hbundle] at this
    simpa [Streamed.SpendBundle.aggregate] using this
  obtain rfl : requests' = requests := List.append_cancel_right hspends
  rw [hentries, List.mapM_map] at hrequests'
  obtain ⟨e, he, rfl⟩ := List.mem_map.mp hid
  have hsame := eq_of_mapM_eq hrequests' hrequests he
  obtain ⟨cs, hcs⟩ := exists_of_mapM_eq_ok hrequests he
  have hcs' : requestSpend env o'.driverDict e.1 (receivedEntry e).2 = .ok cs := hsame.trans hcs
  obtain ⟨puzzle, hpuzzle, hcs⟩ := bind_eq_ok.mp hcs
  obtain ⟨puzzleBytes, hbytes, hcs⟩ := bind_eq_ok.mp hcs
  obtain ⟨solutionBytes, -, hcs⟩ := bind_eq_ok.mp hcs
  obtain rfl := Except.ok.inj hcs
  obtain ⟨puzzle', hpuzzle', hcs'⟩ := bind_eq_ok.mp hcs'
  obtain ⟨puzzleBytes', hbytes', hcs'⟩ := bind_eq_ok.mp hcs'
  obtain ⟨solutionBytes', -, hcs'⟩ := bind_eq_ok.mp hcs'
  obtain rfl : puzzleBytes' = puzzleBytes := congrArg Streamed.CoinSpend.puzzleReveal (Except.ok.inj hcs')
  have hread := (Program.fromBytes_toBytes hbytes').symm.trans (Program.fromBytes_toBytes hbytes)
  rw [hpuzzle', hpuzzle, hread]

lemma settlementPuzzle_iff (hinit : o.postInit env = .ok ())
    (hdict : ∀ id, some id ∈ o.requestedPayments.keys → o'.driverDict.get? id = lastDriver env id o.bundle.coinSpends (o.driverDict.get? id)) :
    (∀ assetId ∈ o.requestedPayments.keys,
      settlementPuzzle env o'.driverDict assetId = settlementPuzzle env o.driverDict assetId) ↔
    o.DriversAgree env := by
  obtain ⟨offered, -, -, -, -, hknown⟩ := postInit_eq_ok.mp hinit
  have hconstruct : ∀ id driver driver', some id ∈ o.requestedPayments.keys → o.driverDict.get? id = some driver →
      lastDriver env id o.bundle.coinSpends (some driver) = some driver' →
      (settlementPuzzle env o'.driverDict (some id) = settlementPuzzle env o.driverDict (some id) ↔
        env.constructPuzzle driver' env.offerMod = env.constructPuzzle driver env.offerMod) := by
    intro id driver driver' hid hdriver hlast
    have hget := hdict id hid
    rw [hdriver, hlast] at hget
    simp only [settlementPuzzle, hget, hdriver]
  constructor
  · intro h id hid driver driver' hdriver hlast
    exact (hconstruct id driver driver' hid hdriver hlast).mp (h (some id) hid)
  · intro h assetId hid
    cases assetId with
    | none => rfl
    | some id =>
      obtain ⟨driver, hdriver⟩ := mem_keys_iff.mp (hknown id (List.mem_filterMap.mpr ⟨some id, hid, rfl⟩))
      obtain ⟨driver', hlast⟩ := exists_lastDriver env id o.bundle.coinSpends driver
      exact (hconstruct id driver driver' hid hdriver hlast).mpr (h id hid driver driver' hdriver hlast)

/-! ## The payments -/

/-- The payments that are read are those of the offer, grouped by their nonces, exactly if every payment has a memo. -/
lemma requestedPayments_iff (htyped : o.WellTyped env)
    (hentries : o'.requestedPayments.entries = o.requestedPayments.entries.map receivedEntry) :
    (∀ assetId, o'.requestedPayments.get? assetId =
      (o.requestedPayments.get? assetId).map (grouped NotarizedPayment.nonce)) ↔ o.HasMemos := by
  have hget : ∀ assetId, o'.requestedPayments.get? assetId = (o.requestedPayments.get? assetId).map fun ps =>
      (grouped NotarizedPayment.nonce ps).map NotarizedPayment.received := by
    intro assetId
    cases hps : o.requestedPayments.get? assetId with
    | some ps =>
      rw [Option.map_some, OrderedDict.get?_eq_some, hentries]
      exact List.mem_map_of_mem (OrderedDict.get?_eq_some.mp hps)
    | none =>
      rw [Option.map_none]
      by_contra hne
      obtain ⟨ps', hps'⟩ := Option.ne_none_iff_exists'.mp hne
      rw [OrderedDict.get?_eq_some, hentries] at hps'
      obtain ⟨e, he, heq⟩ := List.mem_map.mp hps'
      have hkey : e.1 = assetId := congrArg Prod.fst heq
      have hsome := OrderedDict.get?_eq_some.mpr (hkey ▸ he : (assetId, e.2) ∈ o.requestedPayments.entries)
      rw [hps] at hsome
      cases hsome
  have hreceived : ∀ ps ∈ o.requestedPayments.values,
      ((grouped NotarizedPayment.nonce ps).map NotarizedPayment.received = grouped NotarizedPayment.nonce ps ↔
        ∀ p ∈ ps, p.memos ≠ .list []) := by
    intro ps hps
    have hmem : ∀ p, p ∈ grouped NotarizedPayment.nonce ps ↔ p ∈ ps := fun p => (grouped_perm _ ps).mem_iff
    have hmap : ∀ l : List NotarizedPayment,
        l.map NotarizedPayment.received = l ↔ ∀ p ∈ l, NotarizedPayment.received p = p := by
      intro l
      conv_lhs => rhs; rw [← List.map_id l]
      exact List.map_inj_left
    rw [hmap]
    constructor
    · exact fun h p hp =>
        (NotarizedPayment.received_eq_iff (htyped.payments ps hps p hp)).mp (h p ((hmem p).mpr hp))
    · exact fun h p hp => (NotarizedPayment.received_eq_iff (htyped.payments ps hps p ((hmem p).mp hp))).mpr
        (h p ((hmem p).mp hp))
  constructor
  · intro h ps hps
    obtain ⟨e, he, rfl⟩ := List.mem_map.mp hps
    have heq := h e.1
    rw [hget, OrderedDict.get?_eq_some.mpr he, Option.map_some, Option.map_some] at heq
    exact (hreceived e.2 hps).mp (Option.some.inj heq)
  · intro h assetId
    rw [hget]
    cases hps : o.requestedPayments.get? assetId with
    | none => rfl
    | some ps =>
      have hvalue : ps ∈ o.requestedPayments.values := OrderedDict.mem_values.mpr ⟨assetId, hps⟩
      rw [Option.map_some, Option.map_some, (hreceived ps hvalue).mpr (h ps hvalue)]

end Offer

end Chives
