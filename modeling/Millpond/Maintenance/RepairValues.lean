import Mathlib.Data.List.Sort
import Millpond.Maintenance.Enumeration
import Millpond.Maintenance.LiveTables

set_option autoImplicit false

/-! # The repair of partition values

`repair-partition-values` states one scope three times: in the pre-flight over all tables, in the count
for one table, and in the repair. Locks, timeouts, the log and the loop over the plan are left out. -/

namespace Millpond.Maintenance

/-! ## Texts -/

/-- `LIKE`, with the backslash as escape. -/
def sqlLike : List Char → List Char → Bool
  | [], text => text.isEmpty
  | '%' :: pattern, text => text.tails.any (sqlLike pattern)
  | '_' :: pattern, text => !text.isEmpty && sqlLike pattern text.tail
  | '\\' :: c :: pattern, text => text.head? == some c && sqlLike pattern text.tail
  | c :: pattern, text => text.head? == some c && sqlLike pattern text.tail

/-- `text LIKE pattern`. -/
def like (text pattern : String) : Bool := sqlLike pattern.toList text.toList

/-- `[0-9]`. -/
def isAsciiDigit (c : Char) : Bool := '0' ≤ c ∧ c ≤ '9'

/-- `<column>=[0-9]+`: the digits. -/
def segmentDigits (column : String) (segment : List Char) : Option (List Char) :=
  let digits := segment.drop (column.length + 1)
  if (column ++ "=").toList.isPrefixOf segment ∧ digits ≠ [] ∧ digits.all isAsciiDigit = true then
    some digits
  else none

/-- `[^/]+\.parquet`, of a text without slashes. -/
def isParquetName (name : List Char) : Bool := ".parquet".toList.isSuffixOf name && 8 < name.length

/-- The digits of the columns, the innermost directory first; a slash is before the outermost. -/
def readSegments : List String → List (List Char) → Option (List (List Char))
  | [], dirs => if dirs = [] then none else some []
  | _ :: _, [] => none
  | column :: columns, segment :: dirs =>
      (segmentDigits column segment).bind fun digits => (readSegments columns dirs).map (digits :: ·)

/-- The digits of the hive segments that end a path of the expected layout, in the order of the
    columns. -/
def hiveDigits (columns : List String) (path : String) : Option (List (List Char)) :=
  match (path.toList.splitOn '/').reverse with
  | [] => none
  | name :: dirs =>
      if isParquetName name then (readSegments columns.reverse dirs).map List.reverse else none

/-- `substring(path from '<column>=([0-9]+)')`: the digits of the first match, wherever it is. -/
def firstDigits (column : List Char) : List Char → Option (List Char)
  | [] => none
  | c :: rest =>
      let digits := ((c :: rest).drop column.length).takeWhile isAsciiDigit
      if column.isPrefixOf (c :: rest) ∧ digits ≠ [] then some digits else firstDigits column rest

/-! ## The catalog -/

inductive RepairKind where
  | events
  | persons
deriving DecidableEq, Repr

namespace RepairKind

def name : RepairKind → String
  | .events => "events"
  | .persons => "persons"

/-- The columns of `_REPAIR_PARTITION_VALUE_SPEC`, in the order of their key indexes. -/
def columns : RepairKind → List String
  | .events => ["year", "month", "day"]
  | .persons => ["year", "month"]

/-- `_REPAIR_PARTITION_VALUE_SPEC`. -/
def spec (kind : RepairKind) : List (ℕ × String) := kind.columns.zipIdx.map fun p => (p.2, p.1)

end RepairKind

/-- `_repair_partition_values_path_shape_predicate`. -/
def pathShape (kind : RepairKind) (path : String) : Bool := (hiveDigits kind.columns path).isSome

/-- `ducklake_partition_info`. -/
structure PartitionInfo where
  partitionId : ℕ
  tableId : ℕ
  endSnapshot : Option ℕ
deriving DecidableEq, Repr

/-- `ducklake_partition_column`. -/
structure PartitionColumn where
  partitionId : ℕ
  tableId : ℕ
  partitionKeyIndex : ℕ
  transform : String
deriving DecidableEq, Repr

structure RepairCatalog where
  catalog : Catalog
  tables : List TableRow
  schemas : List SchemaRow
  partitionInfo : List PartitionInfo
  partitionColumns : List PartitionColumn

namespace RepairCatalog

/-- The live tables of the live schema `posthog`, a row for each pair that joins. -/
def posthogTables (c : RepairCatalog) : List TableRow :=
  (c.tables.filter fun t => t.endSnapshot.isNone).flatMap fun t =>
    (c.schemas.filter fun s => s.schemaId == t.schemaId && s.endSnapshot.isNone &&
      s.schemaName == "posthog").map fun _ => t

/-- The same, joined to their live partition specs. -/
def partitionedTables (c : RepairCatalog) : List (TableRow × PartitionInfo) :=
  c.posthogTables.flatMap fun t =>
    (c.partitionInfo.filter fun pi => pi.tableId == t.tableId && pi.endSnapshot.isNone).map (t, ·)

end RepairCatalog

/-- `t.table_name = '<kind>' OR t.table_name LIKE '<kind>\_%' ESCAPE '\'`. -/
def namedLike (kind : RepairKind) (name : String) : Bool :=
  name == kind.name || like name (kind.name ++ "\\_%")

/-- `name == kind or name.startswith(kind + "_")`. -/
def startsLike (kind : RepairKind) (name : String) : Bool :=
  name == kind.name || (kind.name ++ "_").toList.isPrefixOf name.toList

def kindOf (name : String) : Option RepairKind :=
  if startsLike .events name then some .events
  else if startsLike .persons name then some .persons
  else none

/-- `_repair_partition_values_discover_tables`. -/
def discoverTables (c : RepairCatalog) : List (RepairKind × String) :=
  let names := (c.posthogTables.map TableRow.tableName).filter fun name =>
    namedLike .events name || namedLike .persons name
  (((names.insertionSort (· ≤ ·)).filter isCatalogTableName).filterMap fun name =>
    (kindOf name).map (·, name))

inductive RepairError where
  | severalSpecs (n : ℕ)
  | specDrift (actual : List (ℕ × String))
  | outOfRange
  | postCondition (wrongIndexes nullValues : ℕ)
deriving DecidableEq, Repr

/-- `_repair_partition_values_resolve`: `(table_id, partition_id)`. -/
def resolveTable (c : RepairCatalog) (kind : RepairKind) (name : String) :
    Except RepairError (Option (ℕ × ℕ)) :=
  match (c.partitionedTables.filter fun p => p.1.tableName == name).map fun p =>
      (p.1.tableId, p.2.partitionId) with
  | [] => .ok none
  | [(tableId, partitionId)] =>
      let rows := (c.partitionColumns.filter fun col =>
        col.partitionId == partitionId && col.tableId == tableId).insertionSort
          fun a b => a.partitionKeyIndex ≤ b.partitionKeyIndex
      let actual := rows.map fun col => (col.partitionKeyIndex, col.transform)
      if actual = kind.spec then .ok (some (tableId, partitionId)) else .error (.specDrift actual)
  | rows => .error (.severalSpecs rows.length)

/-! ## Broken files -/

/-- The index set aggregate, over the rows of a group. -/
def indexSet (values : List PartitionValue) : List ℕ :=
  (values.map PartitionValue.partitionKeyIndex).insertionSort (· ≤ ·)

/-- `BOOL_OR(fpv.partition_value IS NULL)`; a file without rows has one row of NULLs in the join. -/
def hasNull (values : List PartitionValue) : Bool :=
  values.isEmpty || values.any fun v => v.partitionValue.isNone

/-- The array of the spec's key indexes. -/
def expectedIndexes (kind : RepairKind) : List ℕ := kind.spec.map Prod.fst

/-- What all three statements ask of a file: live, of the kind's hive layout, not under `/full/`. -/
def inHiveLayout (kind : RepairKind) (f : DataFile) : Bool :=
  f.endSnapshot.isNone && !like f.path "%/full/%" && pathShape kind f.path

/-- `df.path LIKE 's3://%'`, which only the pre-flight asks. -/
def isS3 (f : DataFile) : Bool := like f.path "s3://%"

/-- What the count and the repair ask, and the pre-flight does not: the live partition, or none on a
    legacy path. -/
def inPartition (kind : RepairKind) (partitionId : ℕ) (f : DataFile) : Bool :=
  f.partitionId == some partitionId ||
    (f.partitionId.isNone && like f.path ("%/backfill/" ++ kind.name ++ "/team_id=%"))

/-- The names under which the pre-flight's joins have a file, once for each joined row. -/
def joinedNames (c : RepairCatalog) (f : DataFile) : List String :=
  (c.partitionedTables.filter fun p => p.1.tableId == f.tableId).map fun p => p.1.tableName

/-- The `WHERE` of the pre-flight, under one of the names. -/
def preFlightScope (name : String) (f : DataFile) : Bool :=
  f.endSnapshot.isNone && isCatalogTableName name && isS3 f && !like f.path "%/full/%" &&
    ((namedLike .events name && pathShape .events f.path) ||
      (namedLike .persons name && pathShape .persons f.path))

/-- The `HAVING` of the pre-flight, on a group of so many joined rows for each partition value. -/
def preFlightRot (name : String) (copies : ℕ) (values : List PartitionValue) : Bool :=
  let indexes := indexSet (List.replicate copies values).flatten
  (like name "events%" && indexes != expectedIndexes .events) ||
    (like name "persons%" && indexes != expectedIndexes .persons) || hasNull values

/-- `_repair_partition_values_pre_flight_any_rot`. -/
def preFlightAnyRot (c : RepairCatalog) : Bool :=
  c.catalog.dataFiles.rows.any fun f =>
    (joinedNames c f).dedup.any fun name =>
      preFlightScope name f &&
        preFlightRot name ((joinedNames c f).count name) (ownValues f.tableId c.catalog f.dataFileId)

/-- `targets`, in the count and in the repair. -/
def repairTargets (c : Catalog) (kind : RepairKind) (tableId partitionId : ℕ) : List DataFile :=
  c.dataFiles.rows.filter fun f =>
    f.tableId == tableId && inHiveLayout kind f && inPartition kind partitionId f

/-- Wrong indexes and NULL values among some files of a table. -/
def countStates (c : Catalog) (kind : RepairKind) (tableId : ℕ) (ids : List ℕ) : ℕ × ℕ :=
  ((ids.filter fun id => indexSet (ownValues tableId c id) != expectedIndexes kind).length,
    (ids.filter fun id => hasNull (ownValues tableId c id)).length)

/-- `_repair_partition_values_count_broken`. -/
def countBroken (c : Catalog) (kind : RepairKind) (tableId partitionId : ℕ) : ℕ × ℕ :=
  countStates c kind tableId ((repairTargets c kind tableId partitionId).map DataFile.dataFileId)

/-! ## The repair -/

/-- `(substring(t.path from '<column>=([0-9]+)'))::INT::TEXT`. -/
def pathValue (column path : String) : Except RepairError (Option String) :=
  match firstDigits (column ++ "=").toList path.toList with
  | none => .ok none
  | some digits =>
      let value := Nat.ofDigitChars 10 digits 0
      if 2147483647 < value then .error .outOfRange else .ok (some value.repr)

/-- The rows of the `INSERT`, one branch for each column. -/
def repairRows (kind : RepairKind) (tableId : ℕ) (targets : List DataFile) :
    Except RepairError (List PartitionValue) :=
  (kind.spec.flatMap fun col => targets.map (col, ·)).mapM fun p =>
    (pathValue p.1.2 p.2.path).map fun value => ⟨p.2.dataFileId, tableId, p.1.1, value⟩

/-- `relabel`. -/
def DataFile.relabelled (ids : List ℕ) (partitionId : ℕ) (f : DataFile) : DataFile :=
  if f.dataFileId ∈ ids ∧ f.partitionId = none then { f with partitionId := some partitionId } else f

@[simp] theorem relabelled_key (ids : List ℕ) (partitionId : ℕ) (f : DataFile) :
    Keyed.key (f.relabelled ids partitionId) = Keyed.key f := by
  unfold DataFile.relabelled
  split <;> rfl

/-- `_repair_partition_values_execute`: the transaction, or the error that rolls it back. -/
def executeRepair (kind : RepairKind) (tableId partitionId : ℕ) (c : Catalog) :
    Except RepairError Catalog := do
  let targets := repairTargets c kind tableId partitionId
  let ids := targets.map DataFile.dataFileId
  let rows ← repairRows kind tableId targets
  let c' : Catalog :=
    { c with
      dataFiles := c.dataFiles.update (DataFile.relabelled ids partitionId) (relabelled_key ids partitionId)
      filePartitionValues :=
        (c.filePartitionValues.filter fun v => !(v.tableId == tableId && decide (v.dataFileId ∈ ids)))
          ++ rows }
  let (wrong, nulls) := countStates c' kind tableId ids
  if 0 < wrong ∨ 0 < nulls then .error (.postCondition wrong nulls) else .ok c'

end Millpond.Maintenance
