import Millpond.Ducklake.Schema

set_option autoImplicit false

/-! # Writing a batch to DuckLake

`ducklake.write`: companion names are stripped, the table is ensured, evolved and given its VARIANT
companions, and the batch goes in with `INSERT .. BY NAME`; a value that does not shred is retried
string-only. Values are left out: what the code reads off them is which string columns hold an
integer that `sanitize_variant_sources` rewrites. -/

namespace Millpond.Ducklake

open Prog ReadCommitted

variable {lower : String → String}

/-- An Arrow table: its fields, its length, and the columns with a value to sanitize. -/
structure Batch where
  fields : List Field
  numRows : ℕ
  unshreddable : List String
deriving DecidableEq, Repr

def Batch.names (batch : Batch) : List String := batch.fields.map Field.name

/-- `RESERVED_COLUMNS`. -/
def reservedColumns : List String := ["_inserted_at", "year", "month", "day", "hour"]

/-- What the sink is configured with. -/
structure WriteConfig where
  variantColumns : List String
  partitioned : Bool

/-! ## Companions in the payload -/

/-- `_drop_protected_columns`. -/
def dropProtectedColumns (lower : String → String) (protectedLower : List String)
    (batch : Batch) : Batch :=
  { batch with fields := batch.fields.filter fun field => lower field.name ∉ protectedLower }

/-- `drop_variant_companion_columns`. -/
def dropVariantCompanionColumns (lower : String → String) (variantColumns : List String)
    (batch : Batch) : Batch :=
  dropProtectedColumns lower (variantColumns.map fun source => lower (variantColumnName source)) batch

/-! ## The table -/

/-- `_table_exists`. -/
def tableExists : SinkM lower Bool := readLake .tableExists Option.isSome

/-- `_schema_batch` and `_inserted_at`, as the columns `CREATE TABLE .. AS` makes of them. -/
def createdColumns (batch : Batch) : List Column :=
  (batch.fields.map fun field => ⟨field.name, arrowTypeToDuckdb field.type⟩) ++
    [⟨"_inserted_at", "TIMESTAMP WITH TIME ZONE"⟩]

/-- A failed statement is forgiven when the table is there. -/
def orTableExists (x : SinkM lower PUnit) (failed : DuckdbError → WriteError) :
    SinkM lower PUnit :=
  tryCatch x fun
    | .duckdb e => do
        let present ← tableExists
        if present then pure ⟨⟩ else throw (failed e)
    | e => throw e

/-- `SET PARTITIONED BY`, which leaves the columns alone. -/
def setPartitionedBy (partitioned : Bool) : SinkM lower PUnit :=
  if partitioned then orTableExists (readLake .setPartitionedBy fun _ => PUnit.unit) .partitionFailed
  else pure ⟨⟩

/-- `_ensure_table`. -/
def ensureTable (cfg : WriteConfig) (batch : Batch) : SinkM lower PUnit := do
  let s ← get
  if s.tableEnsured then pure ⟨⟩
  else do
    let present ← tableExists
    if present then modify fun s => { s with tableEnsured := true }
    else do
      orTableExists (runDdl .createTable (.createTable (createdColumns batch))) .createFailed
      setPartitionedBy cfg.partitioned
      modify fun s => { s with tableEnsured := true }

/-- `pa.uuid()`. -/
def uuidType : ArrowType := ⟨"extension<arrow.uuid>", some "arrow.uuid", .other⟩

/-- `_align_uuid_columns`: text of a live UUID column is parsed. -/
def alignUuidColumns (batch : Batch) : SinkM lower Batch := do
  let liveUuid ← liveColumnNames "UUID"
  pure { batch with
    fields := batch.fields.map fun field =>
      if lower field.name ∈ liveUuid ∧ field.type.kind = .text then
        { field with type := uuidType }
      else field }

/-! ## The projection -/

/-- `_VARIANT_SRC_PREFIX` and a source. -/
def variantSrcName (source : String) : String := "__millpond_variant_src_" ++ source

/-- The sources that `sanitize_variant_sources` gives a hidden column: of the fields that go by the
    source's name the last counts, and it must be text with a value to rewrite. -/
def sanitizes (lower : String → String) (batch : Batch) (source : String) : Bool :=
  ((batch.fields.filter fun field => lower field.name = lower source).getLast?).any fun field =>
    decide (field.type.kind = .text ∧ field.name ∈ batch.unshreddable)

/-- `sanitize_variant_sources`: the batch with its hidden columns, and the source of each. -/
def sanitizeVariantSources (lower : String → String) (sources : List String) (batch : Batch) :
    Batch × List (String × String) :=
  let sanitized := sources.filter (sanitizes lower batch)
  ({ batch with
      fields := batch.fields ++ sanitized.map fun source =>
        ⟨variantSrcName source, "string", none, .text⟩ },
    sanitized.map fun source => (source, variantSrcName source))

/-- One item of a SELECT list. -/
inductive SelectItem where
  | star
  | column (name : String)
  | companion (source name : String)
  | insertedAt
deriving DecidableEq, Repr

/-- The configured source a column feeds: of two that only differ in case, the last. -/
def activeSource (lower : String → String) (sources : List String) (name : String) :
    Option String :=
  (sources.filter fun source => lower source = lower name).getLast?

/-- The items of the columns, each source projected once. -/
def selectColumns (lower : String → String) (sources : List String)
    (variantSrc : List (String × String)) (projected : List String) : List String → List SelectItem
  | [] => []
  | name :: rest =>
      match activeSource lower sources name with
      | none => .column name :: selectColumns lower sources variantSrc projected rest
      | some source =>
          if source ∈ projected then
            .column name :: selectColumns lower sources variantSrc projected rest
          else
            .column name ::
              .companion ((lookupName variantSrc source).getD name) (variantColumnName source) ::
              selectColumns lower sources variantSrc (source :: projected) rest

/-- The columns of a batch that are not hidden. -/
def presentNames (columnNames : List String) (variantSrc : List (String × String)) : List String :=
  columnNames.filter fun name => name ∉ variantSrc.map Prod.snd

/-- `build_insert_select_sql`. -/
def buildInsertSelect (lower : String → String) (columnNames : List String)
    (variantColumns : Option (List String)) (variantSrc : List (String × String)) :
    List SelectItem :=
  let sources := variantColumns.getD []
  let present := presentNames columnNames variantSrc
  if variantSrc.isEmpty ∧ ∀ name ∈ present, activeSource lower sources name = none then
    [.star, .insertedAt]
  else selectColumns lower sources variantSrc [] present ++ [.insertedAt]

/-- The columns an item puts out. -/
def SelectItem.outputs (columnNames : List String) : SelectItem → List String
  | .star => columnNames
  | .column name => [name]
  | .companion _ name => [name]
  | .insertedAt => ["_inserted_at"]

/-! ## The write -/

/-- What the flush will insert. -/
structure InsertPlan where
  batch : Batch
  readySources : Option (List String)
  variantSrc : List (String × String)

/-- The output columns of the `INSERT`. -/
def InsertPlan.outputs (lower : String → String) (plan : InsertPlan) : List String :=
  (buildInsertSelect lower plan.batch.names plan.readySources plan.variantSrc).flatMap
    (SelectItem.outputs plan.batch.names)

/-- The output columns of the string-only `INSERT`. -/
def InsertPlan.fallbackOutputs (lower : String → String) (plan : InsertPlan) : List String :=
  (buildInsertSelect lower plan.batch.names none plan.variantSrc).flatMap
    (SelectItem.outputs plan.batch.names)

/-- `tuple(..) or None`. -/
def orNone (sources : List String) : Option (List String) :=
  if sources.isEmpty then none else some sources

/-- The ready sources in configured order; without configured sources nothing is asked. -/
def readyVariants (cfg : WriteConfig) (batch : Batch) : SinkM lower (Option (List String)) :=
  if cfg.variantColumns.isEmpty then pure none
  else do
    let ready ← ensureVariantColumns cfg.variantColumns batch.names
    pure (orNone (cfg.variantColumns.filter fun source => source ∈ ready))

/-- From `_ensure_table` to the SELECT list. -/
def planInsert (cfg : WriteConfig) (batch : Batch) : SinkM lower InsertPlan := do
  ensureTable cfg batch
  let aligned ← alignUuidColumns batch
  evolve aligned.fields
  let ready ← readyVariants cfg aligned
  let sanitized := sanitizeVariantSources lower (ready.getD []) aligned
  pure ⟨sanitized.1, ready, sanitized.2⟩

/-- `write` up to its `INSERT`; `none` for a batch that is skipped whole. -/
def prepareWrite (cfg : WriteConfig) (batch : Batch) : SinkM lower (Option InsertPlan) := do
  let collisions := batch.names.filter fun name => name ∈ reservedColumns
  if !collisions.isEmpty then throw (.reservedCollision collisions)
  else do
    let stripped := dropVariantCompanionColumns lower cfg.variantColumns batch
    let liveVariant ← liveColumnNames "VARIANT"
    let kept := dropProtectedColumns lower liveVariant stripped
    if !batch.fields.isEmpty && kept.fields.isEmpty then pure none
    else some <$> planInsert cfg kept

/-- `INSERT .. BY NAME`: refused when an output column is not a column of the table. -/
def insertByName (outputs : List String) : SinkM lower PUnit :=
  execute (transaction (statement (.insert outputs) fun lake =>
    if ∀ name ∈ outputs, NamedIn lower (lake.columns.getD []) name then .ok (⟨⟩, [])
    else .error (.duckdb ⟨false, false⟩)))

/-- The `INSERT`, and string-only once more when a value did not shred. -/
def insertPlan (plan : InsertPlan) : SinkM lower PUnit :=
  tryCatch (insertByName (plan.outputs lower)) fun
    | .duckdb e =>
        if plan.readySources.isSome && e.unshreddable then
          insertByName (plan.fallbackOutputs lower)
        else throw (.duckdb e)
    | e => throw e

/-- `write`. -/
def write (cfg : WriteConfig) (batch : Batch) : SinkM lower ℕ := do
  let plan ← prepareWrite cfg batch
  match plan with
  | none => pure 0
  | some plan => do
      insertPlan plan
      pure plan.batch.numRows

/-- `reset_caches`. -/
def resetCaches : SinkM lower PUnit := do
  modify fun s => { s with tableEnsured := false }
  invalidate

/-- What main asks of the sink. -/
inductive SinkCall where
  | write (batch : Batch)
  | resetCaches

/-- Any calls, each of which may end with an exception. -/
def sinkCalls (cfg : WriteConfig) : List SinkCall → SinkM lower PUnit
  | [] => pure ⟨⟩
  | .write batch :: rest => do
      let _ ← tryCatch (some <$> write cfg batch) fun _ => pure none
      sinkCalls cfg rest
  | .resetCaches :: rest => do
      resetCaches
      sinkCalls cfg rest

end Millpond.Ducklake
