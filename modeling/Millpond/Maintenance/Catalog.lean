import Millpond.Lib.Table
import Millpond.Lib.ReadCommitted
import Mathlib.Data.List.MinMax
import Mathlib.Data.Int.Order.Basic

set_option autoImplicit false

/-! # The DuckLake catalog

The Postgres tables the maintenance commands read and write, the writes their SQL makes, and the
commits of other DuckLake sessions. Columns that no modelled statement uses are left out. -/

namespace Millpond.Maintenance

/-! ## Rows -/

/-- `ducklake_snapshot`. Times are in microseconds. -/
structure SnapshotRow where
  snapshotId : ℕ
  snapshotTime : ℤ
  schemaVersion : ℕ
  nextCatalogId : ℕ
  nextFileId : ℕ
deriving DecidableEq, Repr

/-- `ducklake_data_file`. -/
structure DataFile where
  dataFileId : ℕ
  tableId : ℕ
  beginSnapshot : ℕ
  endSnapshot : Option ℕ
  path : String
  pathIsRelative : Bool
  partitionId : Option ℕ
  recordCount : Option ℤ
  fileSizeBytes : Option ℤ
deriving DecidableEq, Repr

/-- `ducklake_delete_file`: a delete vector. -/
structure DeleteFile where
  deleteFileId : ℕ
  tableId : ℕ
  dataFileId : ℕ
  beginSnapshot : ℕ
  endSnapshot : Option ℕ
  path : String
  pathIsRelative : Bool
deriving DecidableEq, Repr

/-- `ducklake_files_scheduled_for_deletion`, which has no key. -/
structure Scheduled where
  dataFileId : ℕ
  path : String
  pathIsRelative : Bool
deriving DecidableEq, Repr

/-- `ducklake_file_partition_value`, which has no key. -/
structure PartitionValue where
  dataFileId : ℕ
  tableId : ℕ
  partitionKeyIndex : ℕ
  partitionValue : Option String
deriving DecidableEq, Repr

/-- `ducklake_snapshot_changes`. -/
structure SnapshotChange where
  snapshotId : ℕ
  changesMade : String
  author : String
  commitMessage : String
deriving DecidableEq, Repr

/-- `ducklake_table_stats`. -/
structure TableStats where
  tableId : ℕ
  recordCount : ℤ
  fileSizeBytes : ℤ
deriving DecidableEq, Repr

instance : Keyed SnapshotRow := ⟨SnapshotRow.snapshotId⟩
instance : Keyed DataFile := ⟨DataFile.dataFileId⟩
instance : Keyed DeleteFile := ⟨DeleteFile.deleteFileId⟩

/-- The catalog. The stats tables of a file are the file ids of their rows; `versions` are the
    `version` rows of `ducklake_metadata`; `cursors` is `last_snapshot_id` of viaduck's state. -/
structure Catalog where
  snapshots : Table SnapshotRow
  dataFiles : Table DataFile
  deleteFiles : Table DeleteFile
  filesScheduledForDeletion : List Scheduled
  fileColumnStats : List ℕ
  filePartitionValues : List PartitionValue
  fileVariantStats : List ℕ
  snapshotChanges : List SnapshotChange
  tableStats : List TableStats
  versions : List String
  cursors : List (Option ℕ)
deriving DecidableEq

/-! ## The writes of the maintenance commands -/

/-- What one SQL statement of the maintenance commands writes. -/
inductive Write where
  | insertSnapshot (row : SnapshotRow)
  | insertChange (row : SnapshotChange)
  | endDataFiles (ids : List ℕ) (snapshot : ℕ)
  | decrementStats (tableId : ℕ) (rows bytes : ℤ)
  | schedule (rows : List Scheduled)
  | deleteColumnStats (ids : List ℕ)
  | deletePartitionValues (ids : List ℕ)
  | deleteVariantStats (ids : List ℕ)
  | deleteDataFiles (ids : List ℕ)
  | deleteDeleteFiles (ids : List ℕ)
  | deleteChanges (ids : List ℕ)
  | deleteSnapshots (ids : List ℕ)
deriving DecidableEq

/-- `SET end_snapshot`, for the files in `ids`. -/
def DataFile.ended (ids : List ℕ) (snapshot : ℕ) (f : DataFile) : DataFile :=
  if f.dataFileId ∈ ids then { f with endSnapshot := some snapshot } else f

@[simp] theorem ended_key (ids : List ℕ) (snapshot : ℕ) (f : DataFile) :
    Keyed.key (f.ended ids snapshot) = Keyed.key f := by
  unfold DataFile.ended
  split <;> rfl

/-- The `WHERE` of the stats decrement. -/
def TableStats.decrementable (tableId : ℕ) (rows bytes : ℤ) (r : TableStats) : Bool :=
  r.tableId = tableId ∧ rows ≤ r.recordCount ∧ bytes ≤ r.fileSizeBytes ∧ 0 < r.recordCount - rows

/-- The stats decrement on one row. -/
def TableStats.decremented (tableId : ℕ) (rows bytes : ℤ) (r : TableStats) : TableStats :=
  if r.decrementable tableId rows bytes then
    { r with recordCount := r.recordCount - rows, fileSizeBytes := r.fileSizeBytes - bytes }
  else r

def Write.apply : Write → Catalog → Catalog
  | .insertSnapshot row, c => { c with snapshots := c.snapshots.insert row }
  | .insertChange row, c => { c with snapshotChanges := c.snapshotChanges ++ [row] }
  | .endDataFiles ids snapshot, c =>
      { c with dataFiles := c.dataFiles.update (·.ended ids snapshot) (ended_key ids snapshot) }
  | .decrementStats tableId rows bytes, c =>
      { c with tableStats := c.tableStats.map (·.decremented tableId rows bytes) }
  | .schedule rows, c =>
      { c with filesScheduledForDeletion := c.filesScheduledForDeletion ++ rows }
  | .deleteColumnStats ids, c =>
      { c with fileColumnStats := c.fileColumnStats.filter (· ∉ ids) }
  | .deletePartitionValues ids, c =>
      { c with filePartitionValues := c.filePartitionValues.filter (·.dataFileId ∉ ids) }
  | .deleteVariantStats ids, c =>
      { c with fileVariantStats := c.fileVariantStats.filter (· ∉ ids) }
  | .deleteDataFiles ids, c =>
      { c with dataFiles := c.dataFiles.delete fun f => decide (f.dataFileId ∈ ids) }
  | .deleteDeleteFiles ids, c =>
      { c with deleteFiles := c.deleteFiles.delete fun f => decide (f.deleteFileId ∈ ids) }
  | .deleteChanges ids, c =>
      { c with snapshotChanges := c.snapshotChanges.filter (·.snapshotId ∉ ids) }
  | .deleteSnapshots ids, c =>
      { c with snapshots := c.snapshots.delete fun r => decide (r.snapshotId ∈ ids) }

instance : ReadCommitted.Writes Write Catalog := ⟨Write.apply⟩

/-! ## Other sessions -/

/-- `SET end_snapshot` by a DuckLake commit: only a live file is ended. -/
def DataFile.endedLive (ids : List ℕ) (snapshot : ℕ) (f : DataFile) : DataFile :=
  if f.endSnapshot.isNone then f.ended ids snapshot else f

def DeleteFile.endedLive (ids : List ℕ) (snapshot : ℕ) (f : DeleteFile) : DeleteFile :=
  if f.endSnapshot.isNone ∧ f.deleteFileId ∈ ids then { f with endSnapshot := some snapshot } else f

@[simp] theorem dataFile_endedLive_key (ids : List ℕ) (snapshot : ℕ) (f : DataFile) :
    Keyed.key (f.endedLive ids snapshot) = Keyed.key f := by
  unfold DataFile.endedLive
  split
  · exact ended_key ids snapshot f
  · rfl

@[simp] theorem deleteFile_endedLive_key (ids : List ℕ) (snapshot : ℕ) (f : DeleteFile) :
    Keyed.key (f.endedLive ids snapshot) = Keyed.key f := by
  unfold DeleteFile.endedLive
  split <;> rfl

/-- A DuckLake commit of another session: a snapshot with the files it adds and ends. -/
structure Commit where
  snapshot : SnapshotRow
  dataFiles : List DataFile
  deleteFiles : List DeleteFile
  endedDataFiles : List ℕ
  endedDeleteFiles : List ℕ
  tableStats : List TableStats
  change : SnapshotChange

/-- The catalog with the commit in it. -/
def Commit.apply (k : Commit) (c : Catalog) : Catalog :=
  { c with
    snapshots := c.snapshots.insert k.snapshot
    dataFiles := (c.dataFiles.update (·.endedLive k.endedDataFiles k.snapshot.snapshotId)
      (dataFile_endedLive_key _ _)).insertAll k.dataFiles
    deleteFiles := (c.deleteFiles.update (·.endedLive k.endedDeleteFiles k.snapshot.snapshotId)
      (deleteFile_endedLive_key _ _)).insertAll k.deleteFiles
    tableStats := k.tableStats
    snapshotChanges := c.snapshotChanges ++ [k.change] }

/-- The commit adds a snapshot above all others, and files that are live. -/
structure Commit.Above (k : Commit) (c : Catalog) : Prop where
  above : ∀ s ∈ c.snapshots.rows, s.snapshotId < k.snapshot.snapshotId
  liveData : ∀ f ∈ k.dataFiles, f.endSnapshot = none
  liveDelete : ∀ f ∈ k.deleteFiles, f.endSnapshot = none

instance (k : Commit) (c : Catalog) : Decidable (k.Above c) :=
  decidable_of_iff ((∀ s ∈ c.snapshots.rows, s.snapshotId < k.snapshot.snapshotId) ∧
      (∀ f ∈ k.dataFiles, f.endSnapshot = none) ∧ ∀ f ∈ k.deleteFiles, f.endSnapshot = none)
    ⟨fun ⟨h₁, h₂, h₃⟩ => ⟨h₁, h₂, h₃⟩, fun ⟨h₁, h₂, h₃⟩ => ⟨h₁, h₂, h₃⟩⟩

/-- The newest snapshot row. -/
def Catalog.newest (c : Catalog) : Option SnapshotRow :=
  c.snapshots.rows.argmax SnapshotRow.snapshotId

theorem key_notMem {k : Commit} {c : Catalog} (h : k.Above c) :
    Keyed.key k.snapshot ∉ c.snapshots.keys := by
  intro hmem
  obtain ⟨s, hs, hkey⟩ := Table.mem_keys.1 hmem
  have hlt := h.above s hs
  have heq : s.snapshotId = k.snapshot.snapshotId := hkey
  omega

end Millpond.Maintenance
