import Millpond.Lib.Autocommit
import Millpond.Lib.Trimming
import Millpond.Maintenance.Catalog
import Mathlib.Data.List.Dedup

set_option autoImplicit false

/-! # Cleaning up the deletion queue

`fsck`: `dedup-deletions`, `heal-orphans` and `cleanup-all` in a loop until the last one exits clean,
then the sweep of unreferenced objects. The two DuckLake calls are parameters. The log and the rate of
the cleanup are left out. -/

namespace Millpond.Maintenance

open Prog Autocommit

/-! ## The lake -/

/-- The catalog, the keys of the objects in the bucket, and whether this session holds the advisory
    lock. The rows of the queue are in the order of their `ctid`. -/
structure Lake where
  catalog : Catalog
  objects : List String
  locked : Bool

namespace Lake

/-- `ducklake_files_scheduled_for_deletion`. -/
def queue (l : Lake) : List Scheduled := l.catalog.filesScheduledForDeletion

def withQueue (rows : List Scheduled) (l : Lake) : Lake :=
  { l with catalog := { l.catalog with filesScheduledForDeletion := rows } }

@[simp] theorem queue_withQueue (rows : List Scheduled) (l : Lake) : (l.withQueue rows).queue = rows := rfl

@[simp] theorem objects_withQueue (rows : List Scheduled) (l : Lake) :
    (l.withQueue rows).objects = l.objects := rfl

@[simp] theorem locked_withQueue (rows : List Scheduled) (l : Lake) :
    (l.withQueue rows).locked = l.locked := rfl

@[simp] theorem dataFiles_withQueue (rows : List Scheduled) (l : Lake) :
    (l.withQueue rows).catalog.dataFiles = l.catalog.dataFiles := rfl

@[simp] theorem deleteFiles_withQueue (rows : List Scheduled) (l : Lake) :
    (l.withQueue rows).catalog.deleteFiles = l.catalog.deleteFiles := rfl

end Lake

/-! ## Paths -/

/-- `rtrim(data_path, '/')`. -/
def rtrimSlashes (dataPath : String) : String :=
  String.ofList (dataPath.toList.rdropWhile (· == '/'))

/-- `path LIKE 's3://%' OR path LIKE '/%'`. -/
def isAbsolute (path : String) : Bool :=
  "s3://".toList.isPrefixOf path.toList || "/".toList.isPrefixOf path.toList

/-- `rtrim(data_path, '/') || '/' || path`. -/
def rooted (root path : String) : String := root ++ "/" ++ path

/-- `abs_path` of the B1 gate. -/
def absPath (root path : String) : String := if isAbsolute path then path else rooted root path

/-- `glob(root || '/**/*.parquet')`. -/
def isListed (root file : String) : Bool :=
  (rooted root "").toList.isPrefixOf file.toList &&
    ".parquet".toList.isSuffixOf (file.toList.drop (rooted root "").length)

/-- The join of `find_catalog_orphans`: both storage forms of a path name a file. -/
def names (root path file : String) : Bool := file == path || file == rooted root path

/-- The macro `find_catalog_orphans`. -/
def findCatalogOrphans (root : String) (l : Lake) : List Scheduled :=
  l.queue.filter fun row => !l.objects.any fun file => isListed root file && names root row.path file

/-! ## Errors and surroundings -/

inductive FsckError where
  | noDataPath
  | lockHeld
  | vacuousCatalog
  | liveOrphans (wouldBeLive : ℕ)
  | deleteVectors (refs : ℕ)
  | exhausted (iterations : ℕ)
  /-- `duckdb.IOException`. -/
  | io
  /-- Any other error of a statement. -/
  | statement
deriving DecidableEq, Repr

abbrev FsckM := EStateM FsckError (Session Lake FsckError)

/-- What a run of `fsck` is started with, and what its surroundings answer. The cleanup names the
    objects it deleted, whether or not it then fails; so does the sweep. -/
structure FsckEnv where
  /-- `DUCKLAKE_DATA_PATH`. -/
  dataPath : Option String
  /-- Whether no other session holds the advisory lock. -/
  lockFree : Lake → Bool
  /-- `ducklake_cleanup_old_files(cleanup_all => true)` at an attempt. -/
  cleanupOldFiles : ℕ → Lake → List String × Except FsckError Unit
  /-- `ducklake_delete_orphaned_files`. -/
  deleteOrphanedFiles : Lake → List String × Except FsckError Unit

/-- The lake without some objects. -/
def Lake.without (keys : List String) (l : Lake) : Lake :=
  { l with objects := l.objects.filter fun key => decide (key ∉ keys) }

variable (env : FsckEnv)

/-- The data path as every statement trims it. -/
def FsckEnv.root (env : FsckEnv) : String := rtrimSlashes (env.dataPath.getD "")

/-- `_require("DUCKLAKE_DATA_PATH")`. -/
def requireDataPath : FsckM PUnit :=
  if (env.dataPath.getD "").isEmpty then throw .noDataPath else pure ⟨⟩

/-- `_acquire_advisory_lock`: it is granted again to the session that holds it. -/
def acquireAdvisoryLock : FsckM PUnit := do
  let held ← call fun l =>
    if l.locked || env.lockFree l then ({ l with locked := true }, .ok true) else (l, .ok false)
  if held then pure ⟨⟩ else throw .lockHeld

/-- `if not dry_run: _acquire_advisory_lock(conn)`. -/
def lockUnless (dryRun : Bool) : FsckM PUnit :=
  if dryRun then pure ⟨⟩ else acquireAdvisoryLock env

/-! ## Deduplication -/

/-- `count_pending_dups`. -/
def countPendingDups (l : Lake) : ℕ := l.queue.length - (l.queue.map Scheduled.path).dedup.length

/-- The first row of each path. -/
def keepFirst : List String → List Scheduled → List Scheduled
  | _, [] => []
  | seen, row :: rest =>
      if row.path ∈ seen then keepFirst seen rest else row :: keepFirst (row.path :: seen) rest

/-- `dedup_deletions`. -/
def dedupDeletions (dryRun : Bool) : FsckM PUnit := do
  let dups ← query countPendingDups
  if dryRun || dups == 0 then pure ⟨⟩
  else do
    acquireAdvisoryLock env
    exec fun l => l.withQueue (keepFirst [] l.queue)
    let _ ← query countPendingDups

/-! ## Healing -/

def liveDataFiles (l : Lake) : List DataFile := l.catalog.dataFiles.rows.filter (·.endSnapshot.isNone)

/-- `_heal_orphans_b1_counts`: `(total_live, would_be_live)`. -/
def healOrphansB1Counts (root : String) (orphans : List Scheduled) (l : Lake) : ℕ × ℕ :=
  ((liveDataFiles l).length,
    ((liveDataFiles l).filter fun f =>
      decide (absPath root f.path ∈ orphans.map fun row => absPath root row.path)).length)

/-- The live delete vectors that point at an orphan. -/
def deleteVectorRefs (orphans : List Scheduled) (l : Lake) : ℕ :=
  (l.catalog.deleteFiles.rows.filter fun f =>
    f.endSnapshot.isNone && decide (f.dataFileId ∈ orphans.map Scheduled.dataFileId)).length

/-- The queue without some paths. -/
def Lake.unscheduled (paths : List String) (l : Lake) : Lake :=
  l.withQueue (l.queue.filter fun row => decide (row.path ∉ paths))

/-- `heal_orphans`. -/
def healOrphans (dryRun : Bool) : FsckM PUnit := do
  requireDataPath env
  lockUnless env dryRun
  let orphans ← query (findCatalogOrphans env.root)
  if orphans.isEmpty then pure ⟨⟩
  else do
    let (totalLive, wouldBeLive) ← query (healOrphansB1Counts env.root orphans)
    if totalLive == 0 then throw .vacuousCatalog
    else if 0 < wouldBeLive then throw (.liveOrphans wouldBeLive)
    else do
      let refs ← query (deleteVectorRefs orphans)
      if 0 < refs then throw (.deleteVectors refs)
      else if dryRun then pure ⟨⟩
      else do
        exec (Lake.unscheduled (orphans.map Scheduled.path))
        let _ ← query fun l => (l.queue.filter fun row =>
          decide (row.path ∈ orphans.map Scheduled.path)).length

/-! ## Cleanup -/

/-- What the cleanup leaves: a failed one rolls the queue back, the objects stay deleted. -/
def Lake.cleaned (result : List String × Except FsckError Unit) (l : Lake) :
    Lake × Except FsckError Unit :=
  match result.2 with
  | .ok _ => ((l.withQueue []).without result.1, .ok ⟨⟩)
  | .error e => (l.without result.1, .error e)

/-- `cleanup_all`. -/
def cleanupAll (attempt : ℕ) : FsckM PUnit := do
  acquireAdvisoryLock env
  call fun l => l.cleaned (env.cleanupOldFiles attempt l)
  let _ ← query fun l => l.queue.length

/-- The attempts of `cleanup_all_safe`. -/
def cleanupAttempts (maxIterations : ℕ) : (attempt left : ℕ) → FsckM PUnit
  | _, 0 => throw (.exhausted maxIterations)
  | attempt, left + 1 => do
      dedupDeletions env false
      healOrphans env false
      let clean ← tryCatch (do cleanupAll env attempt; pure true) fun
        | .io => pure false
        | e => throw e
      if clean then pure ⟨⟩ else cleanupAttempts maxIterations (attempt + 1) left

/-- `cleanup_all_safe`. -/
def cleanupAllSafe (maxIterations : ℕ) : FsckM PUnit := do
  acquireAdvisoryLock env
  cleanupAttempts env maxIterations 1 maxIterations

/-- `orphans`. -/
def orphans (dryRun : Bool) : FsckM PUnit := do
  lockUnless env dryRun
  let deleted (l : Lake) := if dryRun then [] else (env.deleteOrphanedFiles l).1
  call fun l => (l.without (deleted l), (env.deleteOrphanedFiles l).2)

/-- `fsck`. -/
def fsck (dryRun : Bool) (maxIterations : ℕ) : FsckM PUnit := do
  if dryRun then do
    dedupDeletions env true
    healOrphans env true
    orphans env true
  else do
    cleanupAllSafe env maxIterations
    orphans env false

end Millpond.Maintenance
