import Millpond.Maintenance.ExpireSnapshots
import Mathlib.Data.List.Sort
import Mathlib.Algebra.Order.Ring.Int

set_option autoImplicit false

/-! # Dropping a partition leaf

`drop_partitions` ends the data files of one leaf in one short transaction on a direct Postgres
connection, as a DuckLake commit of its own: `_drop_leaf_txn`, and the retries around it. The two
`SET LOCAL` statements, the sleeps, the counters and the log are left out. -/

namespace Millpond.Maintenance

open Prog ReadCommitted

/-! ## Leaves -/

/-- `_LeafFile`. -/
structure LeafFile where
  dataFileId : ℕ
  recordCount : ℤ
  fileSizeBytes : ℤ
  beginSnapshot : ℕ
deriving DecidableEq, Repr

/-- What selects a leaf: the live partition spec and one value for each of its keys. -/
structure LeafTuple where
  partitionId : ℕ
  keys : List (ℕ × String)
  floorSnap : ℤ

/-- The `WHERE` of `_leaf_selection_sql`: live, on the live spec, not above the floor, and with
    exactly the partition values of the tuple. The subqueries go by the file id alone. -/
def LeafTuple.selects (tuple : LeafTuple) (tableId : ℕ) (c : Catalog) (f : DataFile) : Bool :=
  f.tableId = tableId ∧ f.endSnapshot = none ∧ f.partitionId = some tuple.partitionId ∧
    (f.beginSnapshot : ℤ) ≤ tuple.floorSnap ∧
    (c.filePartitionValues.filter fun v => v.dataFileId = f.dataFileId).length = tuple.keys.length ∧
    ∀ key ∈ tuple.keys, ∃ v ∈ c.filePartitionValues, v.dataFileId = f.dataFileId ∧
      v.partitionKeyIndex = key.1 ∧ v.partitionValue = some key.2

/-- A selected row; a NULL count is 0. -/
def DataFile.leafFile (f : DataFile) : LeafFile :=
  ⟨f.dataFileId, f.recordCount.getD 0, f.fileSizeBytes.getD 0, f.beginSnapshot⟩

/-- `_select_leaf_files`, for a leaf that is not oversized. -/
def selectLeafFiles (tuple : LeafTuple) (tableId : ℕ) (c : Catalog) : List LeafFile :=
  ((c.dataFiles.rows.filter (tuple.selects tableId c)).insertionSort
    fun f g => f.dataFileId ≤ g.dataFileId).map DataFile.leafFile

/-- One leaf to drop. `guarded` says that `guard_sql` is set. -/
structure LeafDrop where
  tableId : ℕ
  leafFiles : List LeafFile
  guarded : Bool
  message : String

def LeafDrop.ids (d : LeafDrop) : List ℕ := d.leafFiles.map LeafFile.dataFileId

/-! ## Errors -/

/-- `_DropAbort`, by what it reports. -/
inductive DropAbort where
  | isolation (got : String)
  | catalogVersion (got : List String)
  | liveVectors (n : ℕ)
  | emptyCatalog
  | missed (n : ℕ) (ids : List ℕ)
  | statsRows (got : ℕ) (rows bytes : ℤ) (current : List (ℤ × ℤ))
  | attempts
  | deadline
  | lockContended
deriving DecidableEq, Repr

/-- `_LeafSkip`, by what it reports. -/
inductive LeafSkip where
  | transientEligibility
  | ineligible (n : ℕ)
  | vanished
  | rewound (n : ℕ)
deriving DecidableEq, Repr

inductive DropError where
  | abort (reason : DropAbort)
  | skip (reason : LeafSkip)
  | lockContended
  | pg (e : PgError)
deriving DecidableEq, Repr

instance : Raises PgError DropError := ⟨DropError.pg⟩

/-- The statements of a drop. -/
inductive DropStatement where
  | connect
  | unlockAll
  | tryLock
  | showIsolation
  | catalogVersion
  | deleteVectors
  | baseline
  | insertSnapshot
  | endFiles
  | classify
  | recheck
  | rewindCheck
  | decrementStats
  | statsDiagnosis
  | insertChange
deriving DecidableEq, Repr

abbrev DropM := EStateM DropError (Session Catalog Write PgError DropStatement)

/-! ## The transaction -/

/-- `_DROP_CATALOG_VERSIONS`. -/
def dropCatalogVersions : List String := ["1.0", "1.1-dev1"]

/-- Exactly one version row, and a version this command is verified against. -/
def pinned : List String → Bool
  | [version] => version ∈ dropCatalogVersions
  | _ => false

/-- `_assert_catalog_version`. -/
def assertCatalogVersion : DropM PUnit := do
  let rows ← query .catalogVersion fun c => c.versions
  if pinned rows then pure ⟨⟩ else throw (.abort (.catalogVersion rows))

/-- `SELECT min(last_snapshot_id)`: NULLs do not count, and of no value it is NULL. -/
def minCursor (c : Catalog) : Option ℕ := (c.cursors.filterMap id).min?

/-- `_guard_predicate` in SQL's three values, `none` for NULL. -/
def guardPredicate (guarded : Bool) (c : Catalog) (beginSnapshot : ℕ) : Option Bool :=
  if guarded then (minCursor c).map fun m => decide (beginSnapshot < m) else some true

/-- A live delete vector of the table on a file of the leaf. -/
def LeafDrop.liveVectors (d : LeafDrop) (c : Catalog) : List DeleteFile :=
  c.deleteFiles.rows.filter fun v =>
    v.tableId = d.tableId ∧ v.endSnapshot = none ∧ v.dataFileId ∈ d.ids

/-- The `WHERE` of the ending `UPDATE`. -/
def LeafDrop.endable (d : LeafDrop) (c : Catalog) (f : DataFile) : Bool :=
  f.dataFileId ∈ d.ids ∧ f.endSnapshot = none ∧
    guardPredicate d.guarded c f.beginSnapshot = some true

def checkIsolation (isolation : String) (check : Bool) : DropM PUnit :=
  if check then do
    let iso ← query .showIsolation fun _ => isolation
    if iso = "read committed" then pure ⟨⟩ else throw (.abort (.isolation iso))
  else pure ⟨⟩

def assertNoLiveVectors (d : LeafDrop) : DropM PUnit := do
  let n ← query .deleteVectors fun c => (d.liveVectors c).length
  if n = 0 then pure ⟨⟩ else throw (.abort (.liveVectors n))

def readBaseline : DropM SnapshotRow := do
  let base ← query .baseline Catalog.newest
  match base with
  | none => throw (.abort .emptyCatalog)
  | some row => pure row

/-- The snapshot row of the drop. -/
def forgedSnapshot (base : SnapshotRow) (clock : ℤ) : SnapshotRow :=
  { base with
    snapshotId := base.snapshotId + 1, snapshotTime := clock, nextFileId := base.nextFileId + 1 }

/-- The snapshot `INSERT`; a taken id is a primary-key violation. -/
def insertSnapshot (base : SnapshotRow) (clock : ℤ) : DropM PUnit :=
  statement .insertSnapshot fun c =>
    if base.snapshotId + 1 ∈ c.snapshots.keys then .error (.pg ⟨some "23505", false⟩)
    else .ok (⟨⟩, [.insertSnapshot (forgedSnapshot base clock)])

/-- The ending `UPDATE .. RETURNING`. -/
def endLeafFiles (d : LeafDrop) (snap : ℕ) : DropM (List DataFile) :=
  statement .endFiles fun c =>
    let updated := c.dataFiles.rows.filter (d.endable c)
    .ok (updated, [.endDataFiles (updated.map DataFile.dataFileId) snap])

/-- The classification read: the skipped rows, with the guard evaluated now. -/
def skippedInfo (d : LeafDrop) (skipped : List ℕ) (c : Catalog) : List (DataFile × Option Bool) :=
  (c.dataFiles.rows.filter fun f => f.dataFileId ∈ skipped).map fun f =>
    (f, guardPredicate d.guarded c f.beginSnapshot)

/-- Skipped-id classification: only a member that others ended may be left out of a drop. -/
def classifySkipped (d : LeafDrop) (skipped : List ℕ) : DropM ℕ :=
  if skipped.isEmpty then pure 0
  else do
    let info ← query .classify (skippedInfo d skipped)
    let eligible := (info.filter fun r => r.1.endSnapshot = none ∧ r.2 = some true).map
      fun r => r.1.dataFileId
    -- NULL is not truthy
    let ineligible := info.filter fun r => r.1.endSnapshot = none ∧ ¬ r.2 = some true
    if !eligible.isEmpty then do
      let info2 ← query .recheck fun c => c.dataFiles.rows.filter fun f =>
        f.dataFileId ∈ eligible ∧ f.endSnapshot = none ∧
          guardPredicate d.guarded c f.beginSnapshot = some true
      if info2.isEmpty then throw (.skip .transientEligibility)
      else throw (.abort (.missed info2.length (eligible.take 5)))
    else if !ineligible.isEmpty then throw (.skip (.ineligible ineligible.length))
    else pure skipped.length

/-- The ended members the guard now excludes: `NOT` of NULL is not true. -/
def LeafDrop.rewoundFiles (d : LeafDrop) (snap : ℕ) (c : Catalog) : List DataFile :=
  c.dataFiles.rows.filter fun f =>
    f.dataFileId ∈ d.ids ∧ f.endSnapshot = some snap ∧
      (guardPredicate d.guarded c f.beginSnapshot).map not = some true

def verifyRewind (d : LeafDrop) (snap : ℕ) : DropM PUnit :=
  if d.guarded then do
    let rewound ← query .rewindCheck fun c => (d.rewoundFiles snap c).length
    if rewound = 0 then pure ⟨⟩ else throw (.skip (.rewound rewound))
  else pure ⟨⟩

/-- The relative decrement of the table's stats, which must hit one row. -/
def decrementStats (d : LeafDrop) (rows bytes : ℤ) : DropM PUnit := do
  let got ← statement .decrementStats fun c =>
    .ok ((c.tableStats.filter (·.decrementable d.tableId rows bytes)).length,
      [.decrementStats d.tableId rows bytes])
  if got = 1 then pure ⟨⟩
  else do
    let current ← query .statsDiagnosis fun c =>
      (c.tableStats.filter (·.tableId = d.tableId)).map fun r => (r.recordCount, r.fileSizeBytes)
    throw (.abort (.statsRows got rows bytes current))

/-- The conflict token of a drop. -/
def conflictToken (d : LeafDrop) (snap : ℕ) : SnapshotChange :=
  ⟨snap, "deleted_from_table:" ++ toString d.tableId, "drop-partitions", d.message⟩

/-- What a drop reports. -/
structure DropResult where
  snapshotId : ℕ
  files : ℕ
  rows : ℤ
  bytes : ℤ
  endedConcurrently : ℕ
  attempts : ℕ
deriving DecidableEq, Repr

/-- `sum(r or 0 for r in updated)`. -/
def sumOf (count : DataFile → Option ℤ) (files : List DataFile) : ℤ :=
  (files.map fun f => (count f).getD 0).sum

/-- From the baseline to the conflict token. -/
def endLeaf (d : LeafDrop) (base : SnapshotRow) (clock : ℤ) : DropM DropResult := do
  let snap := base.snapshotId + 1
  insertSnapshot base clock
  let updated ← endLeafFiles d snap
  let returned := updated.map DataFile.dataFileId
  let endedConcurrently ← classifySkipped d (d.ids.filter fun i => i ∉ returned)
  if updated.isEmpty then throw (.skip .vanished)
  else do
    verifyRewind d snap
    let rows := sumOf DataFile.recordCount updated
    let bytes := sumOf DataFile.fileSizeBytes updated
    decrementStats d rows bytes
    statement .insertChange fun _ => .ok (⟨⟩, [.insertChange (conflictToken d snap)])
    pure ⟨snap, updated.length, rows, bytes, endedConcurrently, 0⟩

/-- The statements of `_drop_leaf_txn`, in its order: the delete-vector assertion comes before the
    baseline read. -/
def dropLeafStatements (d : LeafDrop) (isolation : String) (clock : ℤ) (check : Bool) :
    DropM DropResult := do
  checkIsolation isolation check
  assertCatalogVersion
  assertNoLiveVectors d
  let base ← readBaseline
  endLeaf d base clock

/-- `_drop_leaf_txn`. -/
def dropLeafTxn (d : LeafDrop) (isolation : String) (clock : ℤ) (check : Bool) : DropM DropResult :=
  transaction (dropLeafStatements d isolation clock check)

/-! ## The retries -/

/-- `_DROP_RETRYABLE_SQLSTATES`. -/
def dropRetryableSqlstates : List String := ["23505", "40001", "55P03", "57014", "40P01"]

/-- The retry classes: the listed sqlstates, and any error of the connection. -/
def PgError.retryable (e : PgError) : Bool :=
  e.sqlstate.any (fun s => decide (s ∈ dropRetryableSqlstates)) || e.connection

/-- `_DROP_MAX_ATTEMPTS`. -/
def dropMaxAttempts : ℕ := 50

/-- `_DROP_LOCK_ATTEMPTS`. -/
def dropLockAttempts : ℕ := 30

/-- What the world answers at each attempt. -/
structure DropServer where
  isolation : String
  clock : ℕ → ℤ
  pastDeadline : ℕ → Bool
  closed : ℕ → Bool
  lockAcquired : ℕ → Bool

/-- A closed connection is replaced. -/
def reconnect (closed : Bool) : DropM PUnit :=
  if closed then query .connect fun _ => PUnit.unit else pure ⟨⟩

/-- `_lock_refresh`. -/
def lockRefresh (acquired : Bool) : DropM PUnit := do
  query .unlockAll fun _ => PUnit.unit
  let got ← query .tryLock fun _ => acquired
  if got then pure ⟨⟩ else throw .lockContended

/-- The `finally`: failures are suppressed. -/
def releaseLock : DropM PUnit :=
  tryCatch (query .unlockAll fun _ => PUnit.unit) fun _ => pure ⟨⟩

/-- The `try` of one attempt, with its `finally`. -/
def dropAttempt (d : LeafDrop) (server : DropServer) (attempt : ℕ) (check : Bool) :
    DropM DropResult := do
  let result ← tryCatch
    (do
      reconnect (server.closed attempt)
      lockRefresh (server.lockAcquired attempt)
      let result ← dropLeafTxn d server.isolation (server.clock attempt) check
      pure { result with attempts := attempt })
    fun e => do
      releaseLock
      throw e
  releaseLock
  pure result

/-- The loop of `_drop_leaf_with_retries`, with `left` attempts to go. A new session asserts its
    isolation again. -/
def dropAttempts (d : LeafDrop) (server : DropServer) :
    (left attempt lockAttempts : ℕ) → (check : Bool) → DropM DropResult
  | 0, _, _, _ => throw (.abort .attempts)
  | left + 1, attempt, lockAttempts, check =>
      if server.pastDeadline attempt then throw (.abort .deadline)
      else
        let check := check || server.closed attempt
        tryCatch (dropAttempt d server attempt check) fun
          | .lockContended =>
              if dropLockAttempts < lockAttempts + 1 then throw (.abort .lockContended)
              else dropAttempts d server left (attempt + 1) (lockAttempts + 1) check
          | .pg e =>
              if e.retryable then dropAttempts d server left (attempt + 1) lockAttempts check
              else throw (.pg e)
          | e => throw e

/-- `_drop_leaf_with_retries`. -/
def dropLeafWithRetries (d : LeafDrop) (server : DropServer) (check : Bool) : DropM DropResult :=
  dropAttempts d server dropMaxAttempts 1 0 check

/-- Any number of drops, of one leaf again or of several, each of which may end with an exception. -/
def dropLeaves : List (LeafDrop × DropServer × Bool) → DropM PUnit
  | [] => pure ⟨⟩
  | (d, server, check) :: rest => do
      let _ ← tryCatch (some <$> dropLeafWithRetries d server check) fun _ => pure none
      dropLeaves rest

end Millpond.Maintenance
