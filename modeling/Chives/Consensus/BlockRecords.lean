import Chives.Library.Dict
import Chives.Library.ParentTree
import Chives.Library.Table
import Chives.Types.Block

set_option autoImplicit false

/-!
# Block records by header hash

The part of `BlockchainInterface` that most of the consensus code uses: the dictionary of block
records, the lookup `block_record`, and loops that walk back along `prev_hash`.

## Main definitions

* `BlockRecords` — the dictionary.
* `BlockRecords.blockRecord`, `BlockRecords.walkBack`, `BlockRecords.visit` —
  the lookup and the loops.
* `BlockRecords.Chain` — the chain of a block in a dictionary.
* `BlockRecords.ofRecords` — the dictionary of a list of records.

## Main results

* `BlockRecords.walkBack_eq_ok`, `BlockRecords.visit_eq_ok` — the loops along a chain.

## Design

A loop over a dictionary that takes more steps than there are entries goes round in circles, so the
number of entries is the fuel of every loop.
-/

namespace Chives

open ParentTree ExceptRun

/-- `Dict[bytes32, BlockRecord]`. -/
abbrev BlockRecords := Dict Bytes32 BlockRecord

/-- The parent pointers of block records. -/
def recordLinks : Links Bytes32 BlockRecord :=
  ⟨BlockRecord.headerHash, BlockRecord.prevHash, BlockRecord.height⟩

namespace BlockRecords

variable {blocks : BlockRecords} {stop : BlockRecord → Bool} {r x : BlockRecord}
  {l a b : List BlockRecord}

/-- The record under a header hash. -/
def get (blocks : BlockRecords) (hash : Bytes32) : Option BlockRecord := blocks.lookup hash

/-- `block_record`. -/
def blockRecord (blocks : BlockRecords) (hash : Bytes32) : Except PyError BlockRecord :=
  match blocks.get hash with
  | some r => .ok r
  | none => .error .keyError

/-- The number of steps after which a walk has come to a record twice. -/
def fuel (blocks : BlockRecords) : ℕ := blocks.keys.length + 1

/-- `while not stop(curr): curr = blocks.block_record(curr.prev_hash)`. -/
def walkBack (blocks : BlockRecords) (stop : BlockRecord → Bool) (curr : BlockRecord) :
    Except PyError BlockRecord :=
  ParentTree.walkBack recordLinks blocks.get .keyError .divergence stop blocks.fuel curr

/-- The same loop, with the records it passes before it stops. -/
def visit (blocks : BlockRecords) (stop : BlockRecord → Bool) (curr : BlockRecord) :
    Except PyError (List BlockRecord × BlockRecord) :=
  ParentTree.visit recordLinks blocks.get .keyError .divergence stop blocks.fuel curr

/-- The chain of a block: its ancestors from genesis on, which are in the dictionary, and the
block. -/
def Chain (blocks : BlockRecords) (r : BlockRecord) (l : List BlockRecord) : Prop :=
  Path recordLinks blocks.get r l

lemma blockRecord_eq_ok {h : Bytes32} (hr : blocks.get h = some r) :
    blocks.blockRecord h = .ok r := by
  rw [blockRecord, hr]

lemma get_of_blockRecord {h : Bytes32} (hr : blocks.blockRecord h = .ok r) :
    blocks.get h = some r := by
  unfold blockRecord at hr
  cases hget : blocks.get h with
  | none => simp [hget] at hr
  | some r' =>
    simp only [hget] at hr
    rw [Except.ok.inj hr]

section

variable (hl : Chain blocks r l)

include hl

lemma height_lt_fuel : r.height < blocks.fuel := by
  have hkeys : ∀ h p, blocks.get h = some p → h ∈ blocks.keys := fun h p hp =>
    AList.mem_keys.mp (AList.lookup_isSome.mp (Option.isSome_of_eq_some hp))
  exact Nat.lt_succ_of_le (Path.height_le_length hkeys hl)

lemma visit_eq_ok (heq : l = a ++ x :: b) (hx : stop x = true) (hb : ∀ y ∈ b, stop y = false) :
    blocks.visit stop r = .ok (b.reverse, x) :=
  ParentTree.visit_eq_ok hl heq hx hb (height_lt_fuel hl)

lemma walkBack_eq_ok (heq : l = a ++ x :: b) (hx : stop x = true) (hb : ∀ y ∈ b, stop y = false) :
    blocks.walkBack stop r = .ok x :=
  ParentTree.walkBack_eq_ok hl heq hx hb (height_lt_fuel hl)

lemma Chain.length_eq : l.length = r.height + 1 := Path.length_eq hl

lemma Chain.getElem {i : ℕ} (hx : l[i]? = some x) : x.height = i ∧ Chain blocks x (l.take (i + 1)) :=
  Path.getElem hl hx

lemma Chain.getElem?_height (hx : x ∈ l) : l[x.height]? = some x :=
  Path.getElem?_height hl hx

lemma Chain.getElem?_succ {i : ℕ} (hx : l[i + 1]? = some x) : ∃ p, l[i]? = some p ∧ blocks.get x.prevHash = some p :=
  Path.getElem?_succ hl hx

end

/-! ## Dictionaries of given records -/

/-- The dictionary that files each of a list of records under its hash. -/
def ofRecords (rs : List BlockRecord) : BlockRecords :=
  Dict.ofItems (rs.map fun r => (r.headerHash, r))

lemma get_ofRecords {rs : List BlockRecord} (hrs : (rs.map BlockRecord.headerHash).Nodup)
    (hr : r ∈ rs) : (ofRecords rs).get r.headerHash = some r := by
  rw [get, ofRecords, Dict.ofItems, Dict.lookup_foldl_set _ _ (by rwa [List.map_map])]
  have hfind : (rs.map fun r => (r.headerHash, r)).find?
      (fun e : Bytes32 × BlockRecord => e.1 = r.headerHash) = some (r.headerHash, r) := by
    rw [List.find?_map]
    have hkey : rs.find? (fun x => x.headerHash = r.headerHash) = some r :=
      (show Table.Keyed BlockRecord.headerHash rs from hrs).find_eq_some.mpr ⟨hr, rfl⟩
    show (rs.find? fun x => x.headerHash = r.headerHash).map _ = _
    rw [hkey]
    rfl
  rw [hfind]
  rfl

lemma mem_of_get_ofRecords {rs : List BlockRecord} {h : Bytes32}
    (hrs : (rs.map BlockRecord.headerHash).Nodup) (hr : (ofRecords rs).get h = some r) :
    r ∈ rs ∧ r.headerHash = h := by
  rw [get, ofRecords, Dict.ofItems, Dict.lookup_foldl_set _ _ (by rwa [List.map_map])] at hr
  rw [AList.lookup_empty, Option.or_none, Option.map_eq_some_iff] at hr
  obtain ⟨⟨k, r'⟩, hfind, rfl⟩ := hr
  obtain ⟨r'', hr'', heq⟩ := List.mem_map.mp (List.mem_of_find?_eq_some hfind)
  obtain ⟨rfl, rfl⟩ := Prod.mk.inj heq
  exact ⟨hr'', by simpa using List.find?_some hfind⟩

lemma chain_ofRecords {f : ℕ → BlockRecord} {n : ℕ} (hheight : ∀ i, (f i).height = i)
    (hprev : ∀ i, (f (i + 1)).prevHash = (f i).headerHash)
    (hrs : (((List.range n).map f).map BlockRecord.headerHash).Nodup) {k : ℕ} (hk : k ≤ n) :
    Chain (ofRecords ((List.range n).map f)) (f k) ((List.range (k + 1)).map f) := by
  induction k with
  | zero => exact .root (hheight 0)
  | succ k ih =>
    rw [List.range_succ, List.map_append]
    refine .step (p := f k) ?_ ?_ (ih (by omega))
    · show (ofRecords _).get (f (k + 1)).prevHash = _
      rw [hprev]
      exact get_ofRecords hrs (List.mem_map.mpr ⟨k, List.mem_range.mpr (by omega), rfl⟩)
    · show (f (k + 1)).height = (f k).height + 1
      rw [hheight, hheight]

end BlockRecords

end Chives
