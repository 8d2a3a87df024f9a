import Chives.Library.Keyed
import Chives.Types.CoinSpend
import Chives.Types.PyObject

set_option autoImplicit false

/-!
# Masternode registrations

`masternode/masternode_manager.py`: a masternode is registered by a launcher coin whose solution has a text in JSON.
A sync visits all launchers that the node knows, and writes a row for each of them, under its staking address.

## Main definitions

* `Masternode.saveLauncher`, `Masternode.getNftByLauncherId` — one launcher.
* `Masternode.syncMasternode` — all launchers, in the order of the node.
* `Masternode.Contested` — a launcher names the staking address of another one.
* `Masternode.Undisturbed`, `Masternode.OrderFree` — when that does not matter, and when the order of
  the launchers does not.
* `Masternode.StopsSync`, `Masternode.SyncsAll` — a launcher that ends a sync, and a complete sync.

## Main results

* `Masternode.get?_sync_iff` — the row keeps its owner exactly if the other launcher is not saved, or is
  visited before.
* `Masternode.sync_perm_iff` — the table does not depend on the order exactly if no two launchers that are saved
  name one staking address, and none stops a sync that would change the table.
* `Masternode.registrations_iff` — both.
* `Masternode.not_registrations` — a registration that is taken over.
* `Masternode.syncsAll_iff` — when a sync is complete.

## Design

What the node answers is the same during a sync. An exception outside of the `try` of `get_nft_by_launcher_id` ends
the sync. The amounts that may be staked are exact as floating point numbers. What the methods return is dropped by the
sync and left out, and so are the columns that are not written.
-/

namespace Chives

namespace Masternode

/-- A value that `json.loads` returns; the fields of an object by their names. -/
inductive Json
  | null
  | bool (b : Bool)
  | number (text : String)
  | string (s : String)
  | array (elements : List Json)
  | object (fields : String → Option Json)

/-- The fields of an object. -/
abbrev Fields := String → Option Json

/-- The functions of libraries: SHA-256, `json.loads` of a text in UTF-8, `str` of a value that is not a string, and
`decode_puzzle_hash`; and the inner puzzle of masternodes. -/
structure Env where
  sha256 : Bytes → Bytes32
  loads : Bytes → Option Json
  render : Json → String
  decodePuzzleHash : String → Option Bytes32
  innerMod : SExp

/-- What the node answers; `none` for a request that fails. -/
structure Node where
  coinRecordsByParentId : Bytes32 → Option (List CoinRecord)
  coinRecordByName : Bytes32 → Option CoinRecord
  puzzleAndSolution : Bytes32 → ℕ → Option (SExp × SExp)
  unspentCoinsByPuzzleHash : Bytes32 → Option (List CoinRecord)

/-- A row of `masternode_list`. -/
structure Row where
  launcherId : Bytes32
  ownerPk : Bytes
  height : ℕ
  receivedAddress : String
  stakingAddress : String
  stakingAmount : ℕ
  nodeName : String
  stakingCheckStatus : String
  nodeLastReceivedTime : Option ℕ
  deriving DecidableEq

/-- `masternode_list`, with its primary key. -/
abbrev Table := KeyedRows Row.stakingAddress

/-- `allow_staking_amount`. -/
def allowStakingAmount : List ℕ := [100000, 300000, 500000, 1000000]

/-- What the visit of a launcher does. -/
inductive Outcome
  | skip
  | save (row : Row)
  | abort
  deriving DecidableEq

section Launchers

variable (env : Env) (node : Node)

/-- `str(x)`. -/
def str : Json → String
  | .string s => s
  | other => env.render other

/-- The amount staked at an address. -/
def stakedAmount (coins : List CoinRecord) : ℕ :=
  ((coins.map fun r => r.coin.amount).filter fun amount => amount ∈ allowStakingAmount.map (· * 100000000)).sum

/-- The coins at the staking address, if it is one. -/
def stakingCoins (data : Fields) : Option (List CoinRecord) :=
  match data "StakingAddress" with
  | some (.string address) => (env.decodePuzzleHash address).bind node.unspentCoinsByPuzzleHash
  | _ => none

/-- `save_launcher`: the row that it writes, unless it raises an exception before. -/
def saveLauncher (launcherId : Bytes32) (pk : PyObject) (height : ℕ) (data : Fields) : Option Row := do
  let coins ← stakingCoins env node data
  let ownerPk ← pk.toBytes
  let receivedAddress ← data "ReceivedAddress"
  let stakingAddress ← data "StakingAddress"
  let nodeName ← data "NodeName"
  let stakingPeriod ← data "StakingPeriod"
  some
    { launcherId := launcherId
      ownerPk := ownerPk
      height := height
      receivedAddress := str env receivedAddress
      stakingAddress := str env stakingAddress
      stakingAmount := stakedAmount coins
      nodeName := str env nodeName
      stakingCheckStatus := str env stakingPeriod
      nodeLastReceivedTime := coins.getLast?.map CoinRecord.timestamp }

/-- The puzzle and the solution with which a coin was spent. -/
def spendOf (r : CoinRecord) : Option (SExp × SExp) :=
  node.puzzleAndSolution (r.coin.name env.sha256) r.spentBlockIndex

/-- The inner puzzle of the first coin of a launcher. -/
def innerPuzzle (puzzleReveal : SExp) : Option SExp :=
  match (SExp.uncurry puzzleReveal).2.toList with
  | some [_, inner] => some inner
  | _ => none

/-- The last element of a solution. -/
def solutionLast (solution : SExp) : Option PyObject := (asPython (SExp.uncurry solution).1).last

/-- `b"MasterNodeNFT"`. -/
def masterNodeNFT : Bytes := "MasterNodeNFT".toList.map fun c => UInt8.ofNat c.toNat

/-- Whether a solution is that of a masternode. -/
def isMasternode (nftData : PyObject) : Option Bool := do
  let length ← nftData.len
  if length = 2 then
    let name ← nftData.first
    some (name.isBytes masterNodeNFT)
  else some false

/-- The `try` of `get_nft_by_launcher_id`. -/
def tryLauncher (launcherId : Bytes32) (state nftData : PyObject) (height : ℕ) : Option Row := do
  let text ← nftData.second
  match text with
  | .bytes b =>
    match ← env.loads b with
    | .object data =>
      if (data "ReceivedAddress").isSome ∧ (data "StakingAddress").isSome ∧ (data "StakingAmount").isSome ∧
          (data "NodeName").isSome then
        let pk ← state.last
        saveLauncher env node launcherId pk height data
      else none
    | _ => none
  | _ => none

/-- What is done with the data of a launcher. -/
def visitData (launcherId : Bytes32) (state nftData : PyObject) (height : ℕ) : Outcome :=
  match isMasternode nftData with
  | none => .abort
  | some false => .skip
  | some true =>
    match tryLauncher env node launcherId state nftData height with
    | some row => .save row
    | none => .skip

/-- The launcher coin, after its first coin was spent with the right puzzle. -/
def visitLauncher (launcherId : Bytes32) (state : PyObject) (height : ℕ) : Outcome :=
  match node.coinRecordByName launcherId with
  | none => .skip
  | some launcherRec =>
    match (spendOf env node launcherRec).bind fun spend => solutionLast spend.2 with
    | none => .abort
    | some nftData => visitData env node launcherId state nftData height

/-- The first coin of a launcher. -/
def visitEve (launcherId : Bytes32) (eve : CoinRecord) : Outcome :=
  match spendOf env node eve with
  | none => .abort
  | some (puzzleReveal, solution) =>
    match innerPuzzle puzzleReveal with
    | none => .abort
    | some inner =>
      if (SExp.uncurry inner).1.treeHash env.sha256 = env.innerMod.treeHash env.sha256 then
        match (solutionLast solution).bind PyObject.first with
        | none => .abort
        | some state => visitLauncher env node launcherId state eve.spentBlockIndex
      else .skip

/-- `get_nft_by_launcher_id`. -/
def getNftByLauncherId (launcherId : Bytes32) : Outcome :=
  match node.coinRecordsByParentId launcherId with
  | none => .abort
  | some [] => .abort
  | some (eve :: _) => if eve.spent then visitEve env node launcherId eve else .skip

/-- `sync_masternode`, from a table on. -/
def syncMasternode (table : Table) : List Bytes32 → Table
  | [] => table
  | launcherId :: launcherIds =>
    match getNftByLauncherId env node launcherId with
    | .skip => syncMasternode table launcherIds
    | .save row => syncMasternode (table.set row) launcherIds
    | .abort => table

/-! ## Rows and outcomes -/

section Outcomes

variable {env node} {launcherId : Bytes32} {row : Row}

lemma launcherId_of_saveLauncher {pk : PyObject} {height : ℕ} {data : Fields}
    (h : saveLauncher env node launcherId pk height data = some row) : row.launcherId = launcherId := by
  simp only [saveLauncher, Option.bind_eq_bind, Option.bind_eq_some_iff, Option.some.injEq] at h
  obtain ⟨_, -, _, -, _, -, _, -, _, -, _, -, rfl⟩ := h
  rfl

lemma launcherId_of_tryLauncher {state nftData : PyObject} {height : ℕ}
    (h : tryLauncher env node launcherId state nftData height = some row) : row.launcherId = launcherId := by
  rw [tryLauncher, Option.bind_eq_bind] at h
  obtain ⟨text, -, h⟩ := Option.bind_eq_some_iff.mp h
  cases text with
  | int n => cases h
  | list elements => cases h
  | tuple left right => cases h
  | bytes b =>
    obtain ⟨json, -, h⟩ := Option.bind_eq_some_iff.mp h
    split at h
    · split at h
      · obtain ⟨pk, -, h⟩ := Option.bind_eq_some_iff.mp h
        exact launcherId_of_saveLauncher h
      · cases h
    · cases h

/-- **A row has the id of its launcher.** -/
lemma launcherId_of_save (h : getNftByLauncherId env node launcherId = .save row) : row.launcherId = launcherId := by
  have hdata : ∀ {state nftData height}, visitData env node launcherId state nftData height = .save row →
      row.launcherId = launcherId := by
    intro state nftData height h
    rw [visitData] at h
    split at h
    · cases h
    · cases h
    · split at h
      · rename_i row' hrow
        injection h with h
        rw [← h]
        exact launcherId_of_tryLauncher hrow
      · cases h
  have hlauncher : ∀ {state height}, visitLauncher env node launcherId state height = .save row →
      row.launcherId = launcherId := by
    intro state height h
    rw [visitLauncher] at h
    split at h
    · cases h
    · split at h
      · cases h
      · exact hdata h
  have heve : ∀ {eve}, visitEve env node launcherId eve = .save row → row.launcherId = launcherId := by
    intro eve h
    rw [visitEve] at h
    split at h
    · cases h
    · split at h
      · cases h
      · split at h
        · split at h
          · cases h
          · exact hlauncher h
        · cases h
  rw [getNftByLauncherId] at h
  split at h
  · cases h
  · cases h
  · split at h
    · exact heve h
    · cases h

end Outcomes

/-! ## Syncs -/

section Sync

variable {env node} {table : Table}

lemma sync_append {before : List Bytes32} (h : ∀ id ∈ before, getNftByLauncherId env node id ≠ .abort)
    (after : List Bytes32) : syncMasternode env node table (before ++ after) =
      syncMasternode env node (syncMasternode env node table before) after := by
  induction before generalizing table with
  | nil => rfl
  | cons id before ih =>
    have hrest : ∀ id ∈ before, getNftByLauncherId env node id ≠ .abort := fun id' hid =>
      h id' (List.mem_cons_of_mem _ hid)
    rw [List.cons_append, syncMasternode, syncMasternode]
    cases hid : getNftByLauncherId env node id with
    | skip => exact ih hrest
    | save row => exact ih hrest
    | abort => exact absurd hid (h id List.mem_cons_self)

lemma get?_sync_of_forall {launcherIds : List Bytes32} {address : String}
    (h : ∀ id ∈ launcherIds, ∀ row, getNftByLauncherId env node id = .save row → row.stakingAddress ≠ address) :
    (syncMasternode env node table launcherIds).get? address = table.get? address := by
  induction launcherIds generalizing table with
  | nil => rfl
  | cons id launcherIds ih =>
    have hrest : ∀ id ∈ launcherIds, ∀ row, getNftByLauncherId env node id = .save row →
        row.stakingAddress ≠ address := fun id' hid => h id' (List.mem_cons_of_mem _ hid)
    rw [syncMasternode]
    cases hid : getNftByLauncherId env node id with
    | skip => exact ih hrest
    | abort => rfl
    | save row =>
      show (syncMasternode env node (table.set row) launcherIds).get? address = _
      rw [ih hrest, KeyedRows.get?_set, if_neg (Ne.symm (h id List.mem_cons_self row hid))]

/-- **The last launcher that names an address** has its row. -/
lemma get?_sync_last {before after : List Bytes32} {id : Bytes32} {row : Row}
    (hbefore : ∀ id ∈ before, getNftByLauncherId env node id ≠ .abort)
    (hid : getNftByLauncherId env node id = .save row)
    (hafter : ∀ id ∈ after, ∀ row', getNftByLauncherId env node id = .save row' →
      row'.stakingAddress ≠ row.stakingAddress) :
    (syncMasternode env node table (before ++ id :: after)).get? row.stakingAddress = some row := by
  rw [sync_append hbefore, syncMasternode, hid]
  show (syncMasternode env node (KeyedRows.set _ row) after).get? row.stakingAddress = some row
  rw [get?_sync_of_forall hafter, KeyedRows.get?_set, if_pos rfl]

/-- A launcher that is visited before another one. -/
def VisitedBefore (launcherIds : List Bytes32) (first second : Bytes32) : Prop :=
  ∃ before after, launcherIds = before ++ first :: after ∧ second ∈ after

/-- The owner of a row, who gets the rewards. -/
def Row.owner (row : Row) : Bytes32 × String := (row.launcherId, row.receivedAddress)

/-- Launchers with well-formed data, one of which names an address, and a further launcher that names it too. -/
structure Contested (env : Env) (node : Node) (launcherIds : List Bytes32) (further owner : Bytes32) (row : Row) :
    Prop where
  nodup : (further :: launcherIds).Nodup
  wellFormed : ∀ id ∈ launcherIds, ∃ row, getNftByLauncherId env node id = .save row
  mem : owner ∈ launcherIds
  names : getNftByLauncherId env node owner = .save row
  unique : ∀ id ∈ launcherIds, ∀ row', getNftByLauncherId env node id = .save row' →
    row'.stakingAddress = row.stakingAddress → id = owner
  rival : ∀ row', getNftByLauncherId env node further = .save row' → row'.stakingAddress = row.stakingAddress

/-- The further launcher is not saved; or it is saved before the owner; or it ends the sync after the owner, or while
the table has the owner already. -/
def Undisturbed (env : Env) (node : Node) (table : Table) (visited : List Bytes32) (further owner : Bytes32)
    (row : Row) : Prop :=
  match getNftByLauncherId env node further with
  | .skip => True
  | .save _ => VisitedBefore visited further owner
  | .abort => VisitedBefore visited owner further ∨
    (table.get? row.stakingAddress).map Row.owner = some row.owner

variable {launcherIds visited : List Bytes32} {further owner : Bytes32} {row : Row}

lemma Contested.get?_sync (h : Contested env node launcherIds further owner row) (hvisited : visited.Perm launcherIds) :
    (syncMasternode env node table visited).get? row.stakingAddress = some row := by
  obtain ⟨before, after, rfl⟩ := List.append_of_mem (hvisited.mem_iff.mpr h.mem)
  have hnodup : (before ++ owner :: after).Nodup := hvisited.nodup_iff.mpr (List.nodup_cons.mp h.nodup).2
  refine get?_sync_last (fun id hid => ?_) h.names fun id hid row' hrow' haddress => ?_
  · obtain ⟨row', hrow'⟩ := h.wellFormed id (hvisited.mem_iff.mp (List.mem_append_left _ hid))
    rw [hrow']
    exact fun hfalse => (by cases hfalse)
  · have heq := h.unique id (hvisited.mem_iff.mp (by simp [hid])) row' hrow' haddress
    rw [heq] at hid
    exact (List.nodup_cons.mp (List.nodup_append.mp hnodup).2.1).1 hid

lemma visitedBefore_iff {before after : List Bytes32} {first second : Bytes32}
    (hnodup : (before ++ first :: after).Nodup) :
    VisitedBefore (before ++ first :: after) first second ↔ second ∈ after := by
  constructor
  · rintro ⟨before', after', heq, hmem⟩
    have hnotMem : ∀ {b a : List Bytes32}, (b ++ first :: a).Nodup → first ∉ b ∧ first ∉ a := by
      intro b a hba
      rw [List.nodup_append, List.nodup_cons] at hba
      exact ⟨fun hb => hba.2.2 first hb first List.mem_cons_self rfl, hba.2.1.1⟩
    obtain ⟨hb, ha⟩ := hnotMem hnodup
    obtain ⟨hb', ha'⟩ := hnotMem (heq ▸ hnodup)
    obtain ⟨-, -, rfl⟩ := (List.append_cons_inj_of_notMem hb ha).mp heq
    exact hmem
  · exact fun hmem => ⟨before, after, rfl, hmem⟩

/-- **Takeover**: with the further launcher, the row keeps its owner exactly if the condition holds. -/
theorem get?_sync_iff (h : Contested env node launcherIds further owner row)
    (hvisited : visited.Perm (further :: launcherIds)) :
    ((syncMasternode env node table visited).get? row.stakingAddress).map Row.owner = some row.owner ↔
      Undisturbed env node table visited further owner row := by
  obtain ⟨before, after, rfl⟩ := List.append_of_mem (hvisited.mem_iff.mpr List.mem_cons_self)
  have hnodup : (before ++ further :: after).Nodup := hvisited.nodup_iff.mpr h.nodup
  have hperm : (before ++ after).Perm launcherIds :=
    (List.perm_cons further).mp (List.perm_middle.symm.trans hvisited)
  have hne : owner ≠ further := fun heq => (List.nodup_cons.mp h.nodup).1 (heq ▸ h.mem)
  have hsaves : ∀ id ∈ before ++ after, getNftByLauncherId env node id ≠ .abort := by
    intro id hid
    obtain ⟨row', hrow'⟩ := h.wellFormed id (hperm.mem_iff.mp hid)
    rw [hrow']
    exact fun hfalse => (by cases hfalse)
  have hbefore : ∀ id ∈ before, getNftByLauncherId env node id ≠ .abort := fun id hid =>
    hsaves id (List.mem_append_left _ hid)
  have hothers : ∀ id ∈ before ++ after, ∀ row', getNftByLauncherId env node id = .save row' →
      row'.stakingAddress = row.stakingAddress → id = owner := fun id hid => h.unique id (hperm.mem_iff.mp hid)
  have howner : owner ∈ before ∨ owner ∈ after := List.mem_append.mp (hperm.mem_iff.mpr h.mem)
  rw [Undisturbed]
  cases hfurther : getNftByLauncherId env node further with
  | skip =>
    -- the sync is that of the other launchers
    have hsync : syncMasternode env node table (before ++ further :: after) =
        syncMasternode env node table (before ++ after) := by
      rw [sync_append hbefore, sync_append hbefore, syncMasternode, hfurther]
    rw [hsync, h.get?_sync hperm]
    exact ⟨fun _ => trivial, fun _ => rfl⟩
  | save row' =>
    have haddress := h.rival row' hfurther
    simp only
    rw [visitedBefore_iff hnodup]
    constructor
    · intro hkept
      by_contra hafter
      rw [← haddress, get?_sync_last hbefore hfurther (fun id hid row'' hrow'' heq =>
        hafter (hothers id (List.mem_append_right _ hid) row'' hrow'' (heq.trans haddress) ▸ hid))] at hkept
      have hids : row'.launcherId = row.launcherId := congrArg Prod.fst (Option.some.inj hkept)
      rw [launcherId_of_save hfurther, launcherId_of_save h.names] at hids
      exact hne hids.symm
    · intro hafter
      obtain ⟨middle, rest, rfl⟩ := List.append_of_mem hafter
      have hlast : (syncMasternode env node table ((before ++ further :: middle) ++ owner :: rest)).get?
          row.stakingAddress = some row := by
        refine get?_sync_last (fun id hid => ?_) h.names fun id hid row'' hrow'' heq => ?_
        · rcases List.mem_append.mp hid with hid | hid
          · exact hbefore id hid
          · rcases List.mem_cons.mp hid with rfl | hid
            · rw [hfurther]
              exact fun hfalse => (by cases hfalse)
            · exact hsaves id (by simp [hid])
        · have heq := hothers id (by simp [hid]) row'' hrow'' heq
          rw [heq] at hid
          have hrest := (List.nodup_cons.mp (List.nodup_append.mp hnodup).2.1).2
          exact (List.nodup_cons.mp (List.nodup_append.mp hrest).2.1).1 hid
      rw [List.append_assoc, List.cons_append] at hlast
      rw [hlast]
      rfl
  | abort =>
    have hsync : syncMasternode env node table (before ++ further :: after) =
        syncMasternode env node table before := by
      rw [sync_append hbefore, syncMasternode, hfurther]
    simp only
    rw [hsync]
    by_cases hmem : owner ∈ before
    · -- the owner is visited before the sync ends
      obtain ⟨b, c, rfl⟩ := List.append_of_mem hmem
      have hlast : (syncMasternode env node table (b ++ owner :: c)).get? row.stakingAddress = some row := by
        refine get?_sync_last (fun id hid => hbefore id (List.mem_append_left _ hid)) h.names
          fun id hid row'' hrow'' heq => ?_
        have heq := hothers id (by simp [hid]) row'' hrow'' heq
        rw [heq] at hid
        exact (List.nodup_cons.mp (List.nodup_append.mp (List.nodup_append.mp hnodup).1).2.1).1 hid
      rw [hlast]
      refine ⟨fun _ => .inl ⟨b, c ++ further :: after, by simp, by simp⟩, fun _ => rfl⟩
    · rw [get?_sync_of_forall fun id hid row'' hrow'' heq =>
        hmem (hothers id (List.mem_append_left _ hid) row'' hrow'' heq ▸ hid)]
      refine ⟨fun hkept => .inr hkept, fun hcases => hcases.resolve_left ?_⟩
      rintro ⟨b, c, heq, hc⟩
      -- the owner would be before the further launcher
      have hafter : owner ∈ after := howner.resolve_left hmem
      obtain ⟨m, r, rfl⟩ := List.append_of_mem hafter
      have heq' : (before ++ further :: m) ++ owner :: r = b ++ owner :: c := by
        rw [← heq, List.append_assoc, List.cons_append]
      have hnodup' : ((before ++ further :: m) ++ owner :: r).Nodup := by
        rw [List.append_assoc, List.cons_append]
        exact hnodup
      have hfalse := (visitedBefore_iff hnodup').mp ⟨b, c, heq', hc⟩
      have hrest := (List.nodup_cons.mp (List.nodup_append.mp hnodup).2.1).1
      exact hrest (by simp [hfalse])

/-! ## The order of the launchers -/

/-- No two launchers that are saved name one address, and if one ends the sync, the table has the rows of all. -/
structure OrderFree (env : Env) (node : Node) (table : Table) (launcherIds : List Bytes32) : Prop where
  distinct : ∀ id ∈ launcherIds, ∀ id' ∈ launcherIds, ∀ row row', getNftByLauncherId env node id = .save row →
    getNftByLauncherId env node id' = .save row' → row.stakingAddress = row'.stakingAddress → id = id'
  settled : ∀ id ∈ launcherIds, getNftByLauncherId env node id = .abort →
    ∀ id' ∈ launcherIds, ∀ row, getNftByLauncherId env node id' = .save row →
      table.get? row.stakingAddress = some row

lemma get?_sync_of_settled (h : ∀ id ∈ launcherIds, ∀ row, getNftByLauncherId env node id = .save row →
    table.get? row.stakingAddress = some row) (address : String) :
    (syncMasternode env node table launcherIds).get? address = table.get? address := by
  have hset : ∀ {row}, table.get? row.stakingAddress = some row → ∀ s, (table.set row).get? s = table.get? s := by
    intro row hrow s
    rw [KeyedRows.get?_set]
    split
    · rename_i hs
      rw [hs, hrow]
    · rfl
  -- all tables of the sync have the rows of the first one
  have hsame : ∀ (ids : List Bytes32), (∀ id ∈ ids, id ∈ launcherIds) → ∀ (t : Table),
      (∀ s, t.get? s = table.get? s) → (syncMasternode env node t ids).get? address = table.get? address := by
    intro ids
    induction ids with
    | nil => exact fun _ t ht => ht address
    | cons id ids ih =>
      intro hids t ht
      rw [syncMasternode]
      cases hid : getNftByLauncherId env node id with
      | skip => exact ih (fun id' hid' => hids id' (List.mem_cons_of_mem _ hid')) t ht
      | abort => exact ht address
      | save row =>
        refine ih (fun id' hid' => hids id' (List.mem_cons_of_mem _ hid')) (t.set row) fun s => ?_
        have hrow := h id (hids id List.mem_cons_self) row hid
        rw [KeyedRows.get?_set, ht, ← KeyedRows.get?_set, hset hrow]
  exact hsame launcherIds (fun _ hid => hid) table fun _ => rfl

lemma get?_sync_of_distinct (hnodup : launcherIds.Nodup)
    (hdistinct : ∀ id ∈ launcherIds, ∀ id' ∈ launcherIds, ∀ row row', getNftByLauncherId env node id = .save row →
      getNftByLauncherId env node id' = .save row' → row.stakingAddress = row'.stakingAddress → id = id')
    (habort : ∀ id ∈ launcherIds, getNftByLauncherId env node id ≠ .abort) {id : Bytes32} (hmem : id ∈ launcherIds)
    (hid : getNftByLauncherId env node id = .save row) :
    (syncMasternode env node table launcherIds).get? row.stakingAddress = some row := by
  obtain ⟨before, after, rfl⟩ := List.append_of_mem hmem
  refine get?_sync_last (fun id' hid' => habort id' (List.mem_append_left _ hid')) hid
    fun id' hid' row' hrow' haddress => ?_
  have heq := hdistinct id' (by simp [hid']) id hmem row' row hrow' hid haddress
  rw [heq] at hid'
  exact (List.nodup_cons.mp (List.nodup_append.mp hnodup).2.1).1 hid'

lemma exists_perm_concat_two {ids : List Bytes32} {a b : Bytes32} (ha : a ∈ ids) (hb : b ∈ ids)
    (hne : a ≠ b) : ∃ rest, (rest ++ [a, b]).Perm ids ∧ (rest ++ [b, a]).Perm ids := by
  have hb' : b ∈ ids.erase a := (List.mem_erase_of_ne hne.symm).mpr hb
  have hperm : (a :: b :: (ids.erase a).erase b).Perm ids :=
    ((List.perm_cons_erase hb').symm.cons a).trans (List.perm_cons_erase ha).symm
  refine ⟨(ids.erase a).erase b, ?_, ?_⟩
  · exact List.perm_append_comm.trans hperm
  · exact List.perm_append_comm.trans ((List.Perm.swap a b _).trans hperm)

/-- **Orders**: the table after a sync does not depend on the order of the launchers exactly if the condition holds. -/
theorem sync_perm_iff (hnodup : launcherIds.Nodup) :
    (∀ first second : List Bytes32, first.Perm launcherIds → second.Perm launcherIds → ∀ address,
      (syncMasternode env node table first).get? address = (syncMasternode env node table second).get? address) ↔
      OrderFree env node table launcherIds := by
  constructor
  · intro h
    have hsettled : ∀ id ∈ launcherIds, getNftByLauncherId env node id = .abort →
        ∀ id' ∈ launcherIds, ∀ row, getNftByLauncherId env node id' = .save row →
          table.get? row.stakingAddress = some row := by
      -- the sync ends at once, or after a single row
      intro id hid habort id' hid' row hrow
      have hne : id ≠ id' := by
        rintro rfl
        rw [habort] at hrow
        cases hrow
      obtain ⟨rest, hfirst, hsecond⟩ := exists_perm_concat_two hid hid' hne
      have hend : syncMasternode env node table (id :: id' :: rest) = table := by
        rw [syncMasternode, habort]
      have hone : syncMasternode env node table (id' :: id :: rest) = table.set row := by
        rw [syncMasternode, hrow]
        show syncMasternode env node (table.set row) (id :: rest) = _
        rw [syncMasternode, habort]
      have heq := h (id :: id' :: rest) (id' :: id :: rest)
        (List.perm_append_comm.trans hfirst) (List.perm_append_comm.trans hsecond) row.stakingAddress
      rw [hend, hone, KeyedRows.get?_set, if_pos rfl] at heq
      exact heq
    refine ⟨fun id hid id' hid' row row' hrow hrow' haddress => ?_, hsettled⟩
    have hids : row = row' → id = id' := by
      intro heq
      rw [← launcherId_of_save hrow, ← launcherId_of_save hrow', heq]
    by_cases habort : ∃ c ∈ launcherIds, getNftByLauncherId env node c = .abort
    · obtain ⟨c, hc, hcabort⟩ := habort
      have heq := hsettled c hc hcabort id hid row hrow
      have heq' := hsettled c hc hcabort id' hid' row' hrow'
      rw [haddress, heq'] at heq
      exact hids (Option.some.inj heq).symm
    · push Not at habort
      by_contra hne
      obtain ⟨rest, hfirst, hsecond⟩ := exists_perm_concat_two hid hid' hne
      have hlast : ∀ {a b : Bytes32} {r : Row}, (rest ++ [a, b]).Perm launcherIds →
          getNftByLauncherId env node b = .save r →
          (syncMasternode env node table (rest ++ [a, b])).get? r.stakingAddress = some r := by
        intro a b r hperm hr
        have hsplit : rest ++ [a, b] = (rest ++ [a]) ++ b :: [] := by simp
        rw [hsplit] at hperm ⊢
        exact get?_sync_last (fun x hx => habort x (hperm.mem_iff.mp (List.mem_append_left _ hx))) hr
          fun x hx => (by cases hx)
      have heq := h _ _ hfirst hsecond row.stakingAddress
      rw [hlast hsecond hrow, haddress, hlast hfirst hrow'] at heq
      exact hne (hids (Option.some.inj heq).symm)
  · intro h first second hfirst hsecond address
    by_cases habort : ∃ c ∈ launcherIds, getNftByLauncherId env node c = .abort
    · obtain ⟨c, hc, hcabort⟩ := habort
      rw [get?_sync_of_settled fun id hid => h.settled c hc hcabort id (hfirst.mem_iff.mp hid),
        get?_sync_of_settled fun id hid => h.settled c hc hcabort id (hsecond.mem_iff.mp hid)]
    · push Not at habort
      have hsync : ∀ {ids : List Bytes32}, ids.Perm launcherIds → ∀ {id row}, id ∈ launcherIds →
          getNftByLauncherId env node id = .save row →
          (syncMasternode env node table ids).get? row.stakingAddress = some row := by
        intro ids hperm id row hid hrow
        exact get?_sync_of_distinct (hperm.nodup_iff.mpr hnodup)
          (fun x hx y hy => h.distinct x (hperm.mem_iff.mp hx) y (hperm.mem_iff.mp hy))
          (fun x hx => habort x (hperm.mem_iff.mp hx)) (hperm.mem_iff.mpr hid) hrow
      by_cases hnamed : ∃ id ∈ launcherIds, ∃ row, getNftByLauncherId env node id = .save row ∧
          row.stakingAddress = address
      · obtain ⟨id, hid, row, hrow, rfl⟩ := hnamed
        rw [hsync hfirst hid hrow, hsync hsecond hid hrow]
      · push Not at hnamed
        rw [get?_sync_of_forall fun id hid row hrow => hnamed id (hfirst.mem_iff.mp hid) row hrow,
          get?_sync_of_forall fun id hid row hrow => hnamed id (hsecond.mem_iff.mp hid) row hrow]

/-- **Registrations**: a row keeps its owner, and the table does not depend on the order of the launchers, exactly under
the conditions. -/
theorem registrations_iff (env : Env) (node : Node) (table : Table) :
    (∀ (launcherIds first visited : List Bytes32) (further owner : Bytes32) (row : Row),
      Contested env node launcherIds further owner row → first.Perm launcherIds →
      visited.Perm (further :: launcherIds) →
      (((syncMasternode env node table visited).get? row.stakingAddress).map Row.owner =
          ((syncMasternode env node table first).get? row.stakingAddress).map Row.owner ↔
        Undisturbed env node table visited further owner row)) ∧
      ∀ launcherIds : List Bytes32, launcherIds.Nodup →
        ((∀ first second : List Bytes32, first.Perm launcherIds → second.Perm launcherIds → ∀ address,
          (syncMasternode env node table first).get? address =
            (syncMasternode env node table second).get? address) ↔ OrderFree env node table launcherIds) := by
  refine ⟨fun launcherIds first visited further owner row h hfirst hvisited => ?_, fun _ hnodup => sync_perm_iff hnodup⟩
  rw [h.get?_sync hfirst]
  exact get?_sync_iff h hvisited

end Sync

end Launchers

/-! ## Two launchers of one address -/

namespace Sample

/-- A staking address. -/
def address : String := "xcc1dr0leqc48k0k3ul7386ulxppf8ru5rmqx6gjffdsdff0tgxj4wqssewhcj"

/-- Its puzzle hash. -/
def puzzleHash : Bytes32 :=
  Bytes32.ofNat 47436285922174596946620224281405457261756336734385169785533812121479364651905

/-- Where a launcher wants its rewards. -/
def receivedAddress (k : ℕ) : String := if k = 1 then "xcc-of-the-owner" else "xcc-of-the-other"

/-- The text of a launcher. -/
def text (k : ℕ) : Bytes :=
  ("\x7b\"ReceivedAddress\": \"" ++ receivedAddress k ++ "\", \"StakingAddress\": \"" ++ address ++
    "\", \"StakingAmount\": \"NOT USE\", \"StakingPeriod\": 1, \"NodeName\": \"node\"\x7d").toList.map
    fun c => UInt8.ofNat c.toNat

/-- The object of the text. -/
def json (k : ℕ) : Json := .object fun name =>
  if name = "ReceivedAddress" then some (.string (receivedAddress k))
  else if name = "StakingAddress" then some (.string address)
  else if name = "StakingAmount" then some (.string "NOT USE")
  else if name = "StakingPeriod" then some (.number "1")
  else if name = "NodeName" then some (.string "node")
  else none

/-- One of two launchers, by what identifies it. -/
def find {α : Type} [DecidableEq α] (f : ℕ → α) (a : α) : Option ℕ := [1, 2].find? fun k => f k = a

/-- The functions, as they are on what is read here. -/
def env : Env where
  sha256 := fun b => Bytes32.ofNat (BigEndian.ofBytes b)
  loads := fun b => (find text b).map json
  render := fun
    | .number s => s
    | _ => ""
  decodePuzzleHash := fun s => if s = address then some puzzleHash else none
  innerMod := .atom [42]

/-- A launcher coin. -/
def launcherRecord (k : ℕ) : CoinRecord := ⟨⟨Bytes32.zero, Bytes32.zero, 100 + k⟩, 1, 2, false, 0⟩

/-- Its name. -/
def launcherId (k : ℕ) : Bytes32 := (launcherRecord k).coin.name env.sha256

/-- Its first coin. -/
def eveRecord (k : ℕ) : CoinRecord := ⟨⟨launcherId k, Bytes32.zero, 200 + k⟩, 2, 3, false, 0⟩

/-- The name of the first coin. -/
def eveId (k : ℕ) : Bytes32 := (eveRecord k).coin.name env.sha256

/-- A node that knows two launchers and a staked coin. -/
def node : Node where
  coinRecordsByParentId := fun id => some (((find launcherId id).map eveRecord).toList)
  coinRecordByName := fun id => (find launcherId id).map launcherRecord
  puzzleAndSolution := fun id _ =>
    match find eveId id with
    | some k => some (SExp.curry (.atom [7]) [.nil, SExp.curry env.innerMod [.nil]],
      SExp.ofList [.nil, SExp.ofList [SExp.ofList [.nil, .atom [UInt8.ofNat k]]]])
    | none => (find launcherId id).map fun k =>
      (.atom [1], SExp.ofList [.nil, .pair (.atom masterNodeNFT) (.atom (text k))])
  unspentCoinsByPuzzleHash := fun h =>
    some (if h = puzzleHash then [⟨⟨Bytes32.zero, puzzleHash, 10000000000000⟩, 1, 0, false, 9⟩] else [])

/-- The row of a launcher. -/
def row (k : ℕ) : Row :=
  ⟨launcherId k, [UInt8.ofNat k], 3, receivedAddress k, address, 10000000000000, "node", "1", some 9⟩

lemma text_eq : text = fun k =>
    ("\x7b\"ReceivedAddress\": \"".toList ++
      (if k = 1 then "xcc-of-the-owner".toList else "xcc-of-the-other".toList) ++
      "\", \"StakingAddress\": \"".toList ++ address.toList ++
      "\", \"StakingAmount\": \"NOT USE\", \"StakingPeriod\": 1, \"NodeName\": \"node\"\x7d".toList).map
    fun c => UInt8.ofNat c.toNat := by
  funext k
  unfold text receivedAddress
  simp only [String.toList_append, apply_ite String.toList]

lemma getNft_eq : getNftByLauncherId env node (launcherId 1) = .save (row 1) ∧
    getNftByLauncherId env node (launcherId 2) = .save (row 2) := by
  -- the kernel is slow on the characters of a text, so that they are given as lists
  have htext := text_eq
  unfold address at htext
  rw [String.toList_ofList, String.toList_ofList, String.toList_ofList, String.toList_ofList,
    String.toList_ofList, String.toList_ofList] at htext
  simp only [env, node, htext]
  decide +kernel

lemma contested : Contested env node [launcherId 1] (launcherId 2) (launcherId 1) (row 1) where
  nodup := by decide +kernel
  wellFormed := fun id hid => ⟨row 1, by rw [List.mem_singleton.mp hid]; exact getNft_eq.1⟩
  mem := List.mem_singleton_self _
  names := getNft_eq.1
  unique := fun id hid _ _ _ => List.mem_singleton.mp hid
  rival := fun row' hrow' => by
    rw [getNft_eq.2] at hrow'
    cases hrow'
    rfl

end Sample

theorem registrations_iff_sample :
    ((syncMasternode Sample.env Sample.node .empty [Sample.launcherId 2, Sample.launcherId 1]).get?
        Sample.address).map Row.owner =
      ((syncMasternode Sample.env Sample.node .empty [Sample.launcherId 1]).get? Sample.address).map Row.owner := by
  refine ((registrations_iff Sample.env Sample.node .empty).1 _ _ _ _ _ _ Sample.contested (.refl _) (.refl _)).mpr ?_
  rw [Undisturbed, Sample.getNft_eq.2]
  exact ⟨[], [Sample.launcherId 1], rfl, List.mem_singleton_self _⟩

/-- **A registration is taken over**: the launcher that is visited last has the row, and the order decides. -/
theorem not_registrations :
    ¬ ((∀ (env : Env) (node : Node) (table : Table) (launcherIds first visited : List Bytes32)
        (further owner : Bytes32) (row : Row), Contested env node launcherIds further owner row →
        first.Perm launcherIds → visited.Perm (further :: launcherIds) →
        ((syncMasternode env node table visited).get? row.stakingAddress).map Row.owner =
          ((syncMasternode env node table first).get? row.stakingAddress).map Row.owner) ∧
      ∀ (env : Env) (node : Node) (table : Table) (first second : List Bytes32), first.Nodup → first.Perm second →
        ∀ address, (syncMasternode env node table first).get? address =
          (syncMasternode env node table second).get? address) := by
  rintro ⟨h, -⟩
  have hkept := h _ _ .empty _ _ [Sample.launcherId 1, Sample.launcherId 2] _ _ _ Sample.contested (.refl _)
    (List.Perm.swap _ _ _)
  -- the row of the launcher that is visited last
  have hsecond : (syncMasternode Sample.env Sample.node .empty [Sample.launcherId 1, Sample.launcherId 2]).get?
      (Sample.row 1).stakingAddress = some (Sample.row 2) := by
    show (syncMasternode _ _ _ ([Sample.launcherId 1] ++ Sample.launcherId 2 :: [])).get? _ = _
    refine get?_sync_last (fun id hid => ?_) Sample.getNft_eq.2 (fun _ hid => nomatch hid)
    rw [List.mem_singleton.mp hid, Sample.getNft_eq.1]
    exact Outcome.noConfusion
  have hfirst : (syncMasternode Sample.env Sample.node .empty [Sample.launcherId 1]).get?
      (Sample.row 1).stakingAddress = some (Sample.row 1) := by
    rw [syncMasternode, Sample.getNft_eq.1]
    exact KeyedRows.get?_set _ _ _ |>.trans (if_pos rfl)
  have howner : (Sample.row 2).owner ≠ (Sample.row 1).owner := by decide +kernel
  rw [hsecond, hfirst, Option.map_some, Option.map_some] at hkept
  exact howner (Option.some.inj hkept)

/-! ## Launchers that stop a sync -/

section Stops

variable (env : Env) (node : Node)

/-- The first coin of a launcher was spent, with this solution, as a singleton around the puzzle of masternodes. -/
def SpentAsNft (launcherId : Bytes32) (solution : SExp) : Prop :=
  ∃ eve rest puzzleReveal inner, node.coinRecordsByParentId launcherId = some (eve :: rest) ∧ eve.spent = true ∧
    spendOf env node eve = some (puzzleReveal, solution) ∧ innerPuzzle puzzleReveal = some inner ∧
    (SExp.uncurry inner).1.treeHash env.sha256 = env.innerMod.treeHash env.sha256

/-- The data that a launcher was spent with. -/
def nftData (launcherId : Bytes32) : Option PyObject :=
  ((node.coinRecordByName launcherId).bind (spendOf env node)).bind fun spend => solutionLast spend.2

/-- A launcher without a coin; or one whose first coin was spent as something that is no singleton; or as one around the
puzzle of masternodes, where the state of the masternode or the data of the launcher cannot be taken apart. -/
def StopsSync (launcherId : Bytes32) : Prop :=
  node.coinRecordsByParentId launcherId = some [] ∨
    (∃ eve rest puzzleReveal solution, node.coinRecordsByParentId launcherId = some (eve :: rest) ∧
      eve.spent = true ∧ spendOf env node eve = some (puzzleReveal, solution) ∧ innerPuzzle puzzleReveal = none) ∨
    ∃ solution, SpentAsNft env node launcherId solution ∧
      ((solutionLast solution).bind PyObject.first = none ∨ (nftData env node launcherId).bind isMasternode = none)

/-- The data of a launcher is that of a masternode, with this object. -/
def HasData (launcherId : Bytes32) (data : Fields) : Prop :=
  ∃ pair b, nftData env node launcherId = some pair ∧ isMasternode pair = some true ∧
    pair.second = some (.bytes b) ∧ env.loads b = some (.object data)

/-- A launcher whose first coin was spent as a masternode, and whose data has the fields that `save_launcher` reads,
with this staking address. -/
def Registered (launcherId : Bytes32) (address : String) : Prop :=
  ∃ solution data, SpentAsNft env node launcherId solution ∧ HasData env node launcherId data ∧
    data "StakingAddress" = some (.string address) ∧ (env.decodePuzzleHash address).isSome ∧
    (data "ReceivedAddress").isSome ∧ (data "NodeName").isSome ∧ (data "StakingPeriod").isSome

/-- The data has the field `StakingAmount`, which is asked for and not used, and the key of the owner is made of
bytes. -/
def Complete (launcherId : Bytes32) : Prop :=
  ∃ solution data state, SpentAsNft env node launcherId solution ∧ HasData env node launcherId data ∧
    (solutionLast solution).bind PyObject.first = some state ∧ (data "StakingAmount").isSome ∧
    (state.last.bind PyObject.toBytes).isSome

/-- The node answers what it is asked about the launchers. -/
structure Answers (launcherIds : List Bytes32) : Prop where
  children : ∀ id ∈ launcherIds, (node.coinRecordsByParentId id).isSome
  launcher : ∀ id ∈ launcherIds, (node.coinRecordByName id).isSome
  spends : ∀ id ∈ launcherIds, ∀ eve rest, node.coinRecordsByParentId id = some (eve :: rest) →
    (eve.spent = true → (spendOf env node eve).isSome) ∧
      ((node.coinRecordByName id).bind (spendOf env node)).isSome
  unspent : ∀ puzzleHash, (node.unspentCoinsByPuzzleHash puzzleHash).isSome

variable {env node} {launcherIds : List Bytes32} {launcherId : Bytes32}

/-- The row is written if the fields are there and the staking address can be decoded. -/
lemma saves_saveLauncher (hunspent : ∀ puzzleHash, (node.unspentCoinsByPuzzleHash puzzleHash).isSome)
    (launcherId : Bytes32) (pk : PyObject) (height : ℕ) (data : Fields) (address : String) :
    (∃ row, saveLauncher env node launcherId pk height data = some row ∧ row.stakingAddress = address) ↔
      data "StakingAddress" = some (.string address) ∧ (env.decodePuzzleHash address).isSome ∧
        (data "ReceivedAddress").isSome ∧ (data "NodeName").isSome ∧ (data "StakingPeriod").isSome ∧
        pk.toBytes.isSome := by
  constructor
  · rintro ⟨row, h, rfl⟩
    simp only [saveLauncher, Option.bind_eq_bind, Option.bind_eq_some_iff, Option.some.injEq] at h
    obtain ⟨coins, hcoins, bytes, hbytes, received, hreceived, staking, hstaking, name, hname, period, hperiod, rfl⟩ := h
    rw [stakingCoins, hstaking] at hcoins
    cases staking with
    | string s =>
      obtain ⟨puzzleHash, hdecode, -⟩ := Option.bind_eq_some_iff.mp hcoins
      exact ⟨hstaking, Option.isSome_of_eq_some hdecode, Option.isSome_of_eq_some hreceived,
        Option.isSome_of_eq_some hname, Option.isSome_of_eq_some hperiod, Option.isSome_of_eq_some hbytes⟩
    | _ => cases hcoins
  · rintro ⟨hstaking, hdecode, hreceived, hname, hperiod, hbytes⟩
    obtain ⟨puzzleHash, hdecode⟩ := Option.isSome_iff_exists.mp hdecode
    obtain ⟨coins, hcoins⟩ := Option.isSome_iff_exists.mp (hunspent puzzleHash)
    obtain ⟨received, hreceived⟩ := Option.isSome_iff_exists.mp hreceived
    obtain ⟨name, hname⟩ := Option.isSome_iff_exists.mp hname
    obtain ⟨period, hperiod⟩ := Option.isSome_iff_exists.mp hperiod
    obtain ⟨bytes, hbytes⟩ := Option.isSome_iff_exists.mp hbytes
    have hstakingCoins : stakingCoins env node data = some coins := by
      rw [stakingCoins, hstaking]
      exact Option.bind_eq_some_iff.mpr ⟨puzzleHash, hdecode, hcoins⟩
    simp only [saveLauncher, Option.bind_eq_bind, Option.bind_eq_some_iff, Option.some.injEq]
    exact ⟨_, ⟨coins, hstakingCoins, bytes, hbytes, received, hreceived, _, hstaking, name, hname, period, hperiod, rfl⟩,
      rfl⟩

/-- **When the row of a launcher is written.** -/
lemma saves_tryLauncher (hunspent : ∀ puzzleHash, (node.unspentCoinsByPuzzleHash puzzleHash).isSome)
    (launcherId : Bytes32) {height : ℕ} (state pair : PyObject) (address : String) :
    (∃ row, tryLauncher env node launcherId state pair height = some row ∧ row.stakingAddress = address) ↔
      ∃ b data, pair.second = some (.bytes b) ∧ env.loads b = some (.object data) ∧
        data "StakingAddress" = some (.string address) ∧ (env.decodePuzzleHash address).isSome ∧
        (data "ReceivedAddress").isSome ∧ (data "NodeName").isSome ∧ (data "StakingPeriod").isSome ∧
        (data "StakingAmount").isSome ∧ (state.last.bind PyObject.toBytes).isSome := by
  constructor
  · rintro ⟨row, h, haddress⟩
    obtain ⟨text, hsecond, h⟩ := Option.bind_eq_some_iff.mp h
    split at h
    · rename_i b
      obtain ⟨json, hloads, h⟩ := Option.bind_eq_some_iff.mp h
      split at h
      · rename_i data
        split at h
        · next hfields =>
          obtain ⟨pk, hpk, h⟩ := Option.bind_eq_some_iff.mp h
          obtain ⟨hstaking, hdecode, hreceived, hname, hperiod, hbytes⟩ :=
            (saves_saveLauncher hunspent _ _ _ _ _).mp ⟨row, h, haddress⟩
          exact ⟨b, data, hsecond, hloads, hstaking, hdecode, hreceived, hname, hperiod, hfields.2.2.1, by
            rw [hpk]
            exact hbytes⟩
        · cases h
      · cases h
    · cases h
  · rintro ⟨b, data, hsecond, hloads, hstaking, hdecode, hreceived, hname, hperiod, hamount, hpk⟩
    obtain ⟨bytes, hbytes⟩ := Option.isSome_iff_exists.mp hpk
    obtain ⟨pk, hpk, hbytes⟩ := Option.bind_eq_some_iff.mp hbytes
    obtain ⟨row, hrow, haddress⟩ := (saves_saveLauncher hunspent launcherId pk height data address).mpr
      ⟨hstaking, hdecode, hreceived, hname, hperiod, Option.isSome_of_eq_some hbytes⟩
    refine ⟨row, ?_, haddress⟩
    rw [tryLauncher, hsecond, Option.bind_eq_bind, Option.bind_some]
    simp only [hloads, Option.bind_eq_bind, Option.bind_some]
    rw [if_pos ⟨hreceived, Option.isSome_of_eq_some hstaking, hamount, hname⟩, hpk]
    exact hrow

/-- **What one launcher does to a sync.** -/
lemma outcome_spec (h : Answers env node launcherIds) (hid : launcherId ∈ launcherIds) :
    (getNftByLauncherId env node launcherId = .abort ↔ StopsSync env node launcherId) ∧
      ∀ address, (∃ row, getNftByLauncherId env node launcherId = .save row ∧ row.stakingAddress = address) ↔
        Registered env node launcherId address ∧ Complete env node launcherId := by
  obtain ⟨children, hchildren⟩ := Option.isSome_iff_exists.mp (h.children _ hid)
  cases children with
  | nil => simp [getNftByLauncherId, StopsSync, Registered, SpentAsNft, hchildren]
  | cons eve rest =>
    obtain ⟨heve, hlauncher⟩ := h.spends _ hid eve rest hchildren
    cases hspent : eve.spent with
    | false => simp [getNftByLauncherId, StopsSync, Registered, SpentAsNft, hchildren, hspent]
    | true =>
      obtain ⟨⟨puzzleReveal, solution⟩, hspend⟩ := Option.isSome_iff_exists.mp (heve hspent)
      obtain ⟨⟨puzzle, launcherSolution⟩, hlauncher⟩ := Option.isSome_iff_exists.mp hlauncher
      obtain ⟨launcherRec, hrec, hlauncher⟩ := Option.bind_eq_some_iff.mp hlauncher
      have hnft : nftData env node launcherId = solutionLast launcherSolution := by
        rw [nftData, hrec, Option.bind_some, hlauncher, Option.bind_some]
      have hspentAs : ∀ s, SpentAsNft env node launcherId s ↔ s = solution ∧ ∃ inner,
          innerPuzzle puzzleReveal = some inner ∧
            (SExp.uncurry inner).1.treeHash env.sha256 = env.innerMod.treeHash env.sha256 := by
        intro s
        simp only [SpentAsNft, hchildren, Option.some.injEq, List.cons.injEq]
        constructor
        · rintro ⟨_, _, _, inner, ⟨rfl, rfl⟩, -, hs, hinner⟩
          rw [hspend] at hs
          cases hs
          exact ⟨rfl, inner, hinner⟩
        · rintro ⟨rfl, inner, hinner⟩
          exact ⟨eve, rest, puzzleReveal, inner, ⟨rfl, rfl⟩, hspent, hspend, hinner⟩
      simp only [getNftByLauncherId, StopsSync, Registered, Complete, HasData, hspentAs, hnft, hchildren, hspent, visitEve,
        hspend, if_true]
      cases hinner : innerPuzzle puzzleReveal with
      | none => simp [hspent, hspend, hinner]
      | some inner =>
        by_cases hmod : (SExp.uncurry inner).1.treeHash env.sha256 = env.innerMod.treeHash env.sha256
        swap
        · simp [hspent, hspend, hinner, hmod]
        cases hstate : (solutionLast solution).bind PyObject.first with
        | none => simp [hspent, hspend, hinner, hmod, hstate]
        | some state =>
          simp only [visitLauncher, hrec, hlauncher, Option.bind_some]
          cases hpair : solutionLast launcherSolution with
          | none => simp [hspent, hspend, hinner, hmod, hstate]
          | some pair =>
            simp only [visitData]
            cases hmaster : isMasternode pair with
            | none => simp [hspent, hspend, hinner, hmod, hstate, hmaster]
            | some masternode =>
              cases masternode with
              | false => simp [hspent, hspend, hinner, hmod, hstate, hmaster]
              | true =>
                refine ⟨?_, fun address => ?_⟩
                · cases tryLauncher env node launcherId state pair eve.spentBlockIndex <;>
                    simp [hspent, hspend, hinner, hmod, hstate, hmaster]
                · have hsaves := @saves_tryLauncher env _ h.unspent launcherId eve.spentBlockIndex state pair address
                  refine Iff.trans ?_ (hsaves.trans ?_)
                  · cases tryLauncher env node launcherId state pair eve.spentBlockIndex <;> simp [hmod]
                  · constructor
                    · rintro ⟨b, data, hsecond, hloads, haddress, hdecode, hreceived, hname, hperiod, hamount, hpk⟩
                      exact ⟨⟨_, data, ⟨rfl, inner, rfl, hmod⟩, ⟨_, b, rfl, hmaster, hsecond, hloads⟩, haddress, hdecode,
                        hreceived, hname, hperiod⟩, _, data, state, ⟨rfl, inner, rfl, hmod⟩,
                        ⟨_, b, rfl, hmaster, hsecond, hloads⟩, hstate, hamount, hpk⟩
                    · rintro ⟨⟨_, data, -, ⟨_, b, hp, -, hsecond, hloads⟩, haddress, hdecode, hreceived, hname, hperiod⟩,
                        _, data', state', ⟨rfl, -⟩, ⟨_, b', hp', -, hsecond', hloads'⟩, hstate', hamount, hpk⟩
                      cases hp
                      cases hp'
                      rw [hsecond] at hsecond'
                      cases hsecond'
                      rw [hloads] at hloads'
                      cases hloads'
                      rw [hstate] at hstate'
                      cases hstate'
                      exact ⟨b, data, hsecond, hloads, haddress, hdecode, hreceived, hname, hperiod, hamount, hpk⟩

lemma isSome_get?_sync {table : Table} (habort : ∀ id ∈ launcherIds, getNftByLauncherId env node id ≠ .abort)
    (address : String) : ((syncMasternode env node table launcherIds).get? address).isSome ↔
      (table.get? address).isSome ∨ ∃ id ∈ launcherIds, ∃ row,
        getNftByLauncherId env node id = .save row ∧ row.stakingAddress = address := by
  induction launcherIds generalizing table with
  | nil => simp [syncMasternode]
  | cons id ids ih =>
    rw [List.forall_mem_cons] at habort
    rw [syncMasternode]
    cases hid : getNftByLauncherId env node id with
    | abort => exact absurd hid habort.1
    | skip => simp [ih habort.2, hid]
    | save row =>
      simp only [ih habort.2, KeyedRows.get?_set]
      by_cases haddress : address = row.stakingAddress
      · simp [haddress, hid]
      · simp [haddress, hid, Ne.symm haddress]

/-- A sync visits all launchers, and then every registered one has a row for its staking address. -/
def SyncsAll (env : Env) (node : Node) (table : Table) (launcherIds : List Bytes32) : Prop :=
  (∀ id ∈ launcherIds, getNftByLauncherId env node id ≠ .abort) ∧
    ∀ id ∈ launcherIds, ∀ address, Registered env node id address →
      ((syncMasternode env node table launcherIds).get? address).isSome

/-- **A sync is complete** exactly if no launcher stops it, and the address of every registered launcher has a row
already or comes with complete data from one of the launchers. -/
theorem syncsAll_iff (table : Table) (h : Answers env node launcherIds) :
    SyncsAll env node table launcherIds ↔ (∀ id ∈ launcherIds, ¬ StopsSync env node id) ∧
      ∀ id ∈ launcherIds, ∀ address, Registered env node id address → (table.get? address).isSome ∨
        ∃ id' ∈ launcherIds, Registered env node id' address ∧ Complete env node id' := by
  have habort : (∀ id ∈ launcherIds, getNftByLauncherId env node id ≠ .abort) ↔
      ∀ id ∈ launcherIds, ¬ StopsSync env node id :=
    forall₂_congr fun id hid => not_congr (outcome_spec h hid).1
  rw [SyncsAll, habort]
  refine and_congr_right fun hstops => forall₂_congr fun id _ => forall₂_congr fun address _ => ?_
  rw [isSome_get?_sync (habort.mpr hstops)]
  refine or_congr_right ⟨?_, ?_⟩
  · rintro ⟨id', hid', hrow⟩
    exact ⟨id', hid', ((outcome_spec h hid').2 address).mp hrow⟩
  · rintro ⟨id', hid', hregistered⟩
    exact ⟨id', hid', ((outcome_spec h hid').2 address).mpr hregistered⟩

end Stops

/-- A third launcher, which is not spent yet. -/
def Sample.unspentNode : Node :=
  { node with coinRecordByName := fun id =>
      if id = launcherId 3 then some { launcherRecord 3 with spentBlockIndex := 0 } else node.coinRecordByName id }

lemma Sample.answers_unspentNode : Answers env unspentNode [launcherId 3] where
  children := fun _ _ => rfl
  launcher := by decide +kernel
  spends := fun id hid eve rest h => by
    obtain rfl := List.mem_singleton.mp hid
    have hnone : unspentNode.coinRecordsByParentId (launcherId 3) = some [] := by decide +kernel
    rw [hnone] at h
    cases h
  unspent := fun _ => rfl

theorem syncsAll_iff_unspent :
    SyncsAll Sample.env Sample.unspentNode .empty [Sample.launcherId 3] ↔
      (∀ id ∈ [Sample.launcherId 3], ¬ StopsSync Sample.env Sample.unspentNode id) ∧
        ∀ id ∈ [Sample.launcherId 3], ∀ address, Registered Sample.env Sample.unspentNode id address →
          ((KeyedRows.empty : Table).get? address).isSome ∨ ∃ id' ∈ [Sample.launcherId 3],
            Registered Sample.env Sample.unspentNode id' address ∧ Complete Sample.env Sample.unspentNode id' :=
  syncsAll_iff .empty Sample.answers_unspentNode

/-- **A launcher that is not spent stops the sync**: the assertion that it has a coin fails. -/
theorem not_syncsAll : ¬ ∀ (env : Env) (node : Node) (table : Table) (launcherIds : List Bytes32),
    Answers env node launcherIds → SyncsAll env node table launcherIds := by
  intro h
  have habort : getNftByLauncherId Sample.env Sample.unspentNode (Sample.launcherId 3) = .abort := by decide +kernel
  exact (h _ _ .empty _ Sample.answers_unspentNode).1 _ (List.mem_singleton_self _) habort

end Masternode

end Chives
