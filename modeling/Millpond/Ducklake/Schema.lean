import Millpond.Hoglake.Batch
import Millpond.Lib.ReadCommitted

set_option autoImplicit false

/-! # The live schema of a DuckLake table

`schema.SchemaManager`: a cache of the table's columns and the DDL that reconciles the table with a
batch. Identifiers are compared through `lower`, which stands both for `str.lower` and for DuckDB's
own case-insensitive match. Metrics and the log are left out. -/

namespace Millpond.Ducklake

open Prog ReadCommitted

/-! ## The lake -/

/-- A column: its name as the catalog has it, and its DuckDB type. -/
structure Column where
  name : String
  type : String
deriving DecidableEq, Repr

/-- The columns of the table, `none` before it is created. -/
abbrev Columns := Option (List Column)

/-- The table, with the case folding of its identifiers. -/
structure Lake (lower : String → String) where
  columns : Columns
deriving DecidableEq

/-- Two identifiers DuckDB does not tell apart. -/
def Same (lower : String → String) (a b : String) : Prop := lower a = lower b

instance (lower : String → String) (a b : String) : Decidable (Same lower a b) :=
  inferInstanceAs (Decidable (_ = _))

/-- Some column goes by the name. -/
def NamedIn (lower : String → String) (columns : List Column) (name : String) : Prop :=
  ∃ c ∈ columns, Same lower c.name name

instance (lower : String → String) (columns : List Column) (name : String) :
    Decidable (NamedIn lower columns name) :=
  inferInstanceAs (Decidable (∃ c ∈ columns, Same lower c.name name))

/-- `ADD COLUMN IF NOT EXISTS`. -/
def addMissing (lower : String → String) (columns : List Column) (c : Column) : List Column :=
  if NamedIn lower columns c.name then columns else columns ++ [c]

/-- The DDL of this writer. -/
inductive Ddl where
  | createTable (columns : List Column)
  | addColumn (column : Column)
  | setDataType (name type : String)
deriving DecidableEq, Repr

def Ddl.apply (lower : String → String) : Ddl → Columns → Columns
  | .createTable columns, none => some columns
  | .createTable _, some live => some live
  | .addColumn _, none => none
  | .addColumn c, some live => some (addMissing lower live c)
  | .setDataType name type, live => live.map fun columns => columns.map fun c =>
      if Same lower c.name name then { c with type := type } else c

instance (lower : String → String) : ReadCommitted.Writes Ddl (Lake lower) :=
  ⟨fun ddl lake => ⟨ddl.apply lower lake.columns⟩⟩

/-- Other pods create columns, and the table with them when it is not there. -/
def createColumns (lower : String → String) (new : List Column) (live : Columns) : Columns :=
  if new.isEmpty then live else some (new.foldl (addMissing lower) (live.getD []))

/-! ## Errors and statements -/

/-- A `duckdb.Error`: whether it is a `CatalogException`, and whether it has the shape of an
    unshreddable value. -/
structure DuckdbError where
  catalog : Bool
  unshreddable : Bool
deriving DecidableEq, Repr

inductive WriteError where
  | duckdb (e : DuckdbError)
  | reservedCollision (names : List String)
  | createFailed (e : DuckdbError)
  | partitionFailed (e : DuckdbError)
deriving DecidableEq, Repr

instance : Raises DuckdbError WriteError := ⟨WriteError.duckdb⟩

/-- The statements of the sink. -/
inductive DuckStatement where
  | loadSchema
  | tableExists
  | createTable
  | setPartitionedBy
  | addColumn (name : String)
  | setDataType (name : String)
  | insert (outputs : List String)
deriving DecidableEq, Repr

/-- The sink: its connection, the cache of `SchemaManager`, and whether the table is in
    `tables_ensured`. -/
structure DuckLakeSink (lower : String → String) where
  session : Session (Lake lower) Ddl DuckdbError DuckStatement
  knownColumns : List (String × String)
  initialized : Bool
  tableEnsured : Bool
  /-- A record beside the code: the rows of the last schema read that returned any. Nothing reads
      it. -/
  lastRead : Option (List Column)

variable {lower : String → String} {α : Type}

abbrev SinkM (lower : String → String) := EStateM WriteError (DuckLakeSink lower)

/-- The live columns. -/
def DuckLakeSink.live (s : DuckLakeSink lower) : Columns := s.session.committed.columns

/-- A statement of the connection. -/
def execute (x : EStateM WriteError (Session (Lake lower) Ddl DuckdbError DuckStatement) α) :
    SinkM lower α :=
  zoom DuckLakeSink.session (fun session s => { s with session := session }) x

/-- A read of the catalog. -/
def readLake (label : DuckStatement) (read : Columns → α) : SinkM lower α :=
  execute (query label fun lake => read lake.columns)

/-- An `ALTER TABLE`. -/
def Ddl.alters : Ddl → Bool
  | .createTable _ => false
  | .addColumn _ => true
  | .setDataType _ _ => true

/-- A DDL statement, which commits by itself. There must be a table to alter. -/
def runDdl (label : DuckStatement) (ddl : Ddl) : SinkM lower PUnit :=
  execute (transaction (statement label fun lake =>
    if lake.columns.isNone && ddl.alters then .error (.duckdb ⟨true, false⟩) else .ok (⟨⟩, [ddl])))

/-! ## Types -/

/-- What `pa.types` tells of a type. -/
inductive TypeKind where
  | text
  | fixedSizeBinary
  | nested
  | other
deriving DecidableEq, Repr

/-- An Arrow type: how it prints, its extension name, and its kind. -/
structure ArrowType where
  printed : String
  extensionName : Option String
  kind : TypeKind
deriving DecidableEq, Repr

/-- `_ARROW_TO_DUCKDB`. -/
def arrowToDuckdb : List (String × String) :=
  [("bool", "BOOLEAN"), ("int8", "TINYINT"), ("int16", "SMALLINT"), ("int32", "INTEGER"),
    ("int64", "BIGINT"), ("uint8", "UTINYINT"), ("uint16", "USMALLINT"), ("uint32", "UINTEGER"),
    ("uint64", "UBIGINT"), ("float16", "FLOAT"), ("float", "FLOAT"), ("double", "DOUBLE"),
    ("string", "VARCHAR"), ("large_string", "VARCHAR"), ("utf8", "VARCHAR"),
    ("large_utf8", "VARCHAR"), ("binary", "BLOB"), ("large_binary", "BLOB"), ("date32", "DATE"),
    ("timestamp[ns]", "TIMESTAMP"), ("timestamp[us]", "TIMESTAMP"), ("timestamp[ms]", "TIMESTAMP"),
    ("timestamp[s]", "TIMESTAMP"), ("timestamp[ns, tz=UTC]", "TIMESTAMPTZ"),
    ("timestamp[us, tz=UTC]", "TIMESTAMPTZ"), ("timestamp[ms, tz=UTC]", "TIMESTAMPTZ"),
    ("timestamp[s, tz=UTC]", "TIMESTAMPTZ")]

/-- `_ARROW_EXTENSION_TO_DUCKDB`. -/
def arrowExtensionToDuckdb : List (String × String) := [("arrow.uuid", "UUID")]

/-- The value a table has under a key. -/
def lookupName (table : List (String × String)) (key : String) : Option String :=
  (table.find? fun entry => entry.1 = key).map Prod.snd

/-- `_arrow_type_to_duckdb`. -/
def arrowTypeToDuckdb (t : ArrowType) : String :=
  ((t.extensionName.bind (lookupName arrowExtensionToDuckdb)).or
    (lookupName arrowToDuckdb t.printed)).getD
      (if t.kind = .fixedSizeBinary then "BLOB" else if t.kind = .nested then "JSON" else "VARCHAR")

/-- `_normalize_duckdb_type`. -/
def normalizeDuckdbType (typeName : String) : String :=
  if typeName = "TIMESTAMP WITH TIME ZONE" then "TIMESTAMPTZ"
  else if typeName.toUpper = "VARIANT" then "VARIANT" else typeName

/-! ## `SchemaManager` -/

/-- `_load_table_schema`. Without the table the read has no rows, or raises a catalog error. -/
def loadTableSchema : SinkM lower PUnit :=
  tryCatch
    (do
      let rows ← readLake .loadSchema fun live => live.getD []
      modify fun s =>
        { s with
          knownColumns := rows.map fun c => (c.name, normalizeDuckdbType c.type)
          initialized := true
          lastRead := some rows })
    fun
      | .duckdb ⟨true, _⟩ => modify fun s => { s with knownColumns := [], initialized := true }
      | e => throw e

/-- Load once more if the cache is empty. -/
def reloadIfEmpty : SinkM lower Bool := do
  let s ← get
  if s.knownColumns.isEmpty then do
    loadTableSchema
    let s ← get
    pure (!s.knownColumns.isEmpty)
  else pure true

/-- `_ensure_schema_loaded`. -/
def ensureSchemaLoaded : SinkM lower Bool := do
  let s ← get
  if s.initialized then reloadIfEmpty
  else do
    loadTableSchema
    reloadIfEmpty

/-- `_column_type`, case-insensitively. -/
def columnType (lower : String → String) (known : List (String × String)) (name : String) :
    Option String :=
  (known.find? fun entry => lower entry.1 = lower name).map Prod.snd

/-- `_set_column_type`, under the key that is there. -/
def setColumnType (lower : String → String) (name type : String) :
    List (String × String) → List (String × String)
  | [] => [(name, type)]
  | entry :: rest =>
      if lower entry.1 = lower name then (entry.1, type) :: rest
      else entry :: setColumnType lower name type rest

/-- `except duckdb.Error`: whether the program got through. -/
def succeeded (x : SinkM lower PUnit) : SinkM lower Bool :=
  tryCatch
    (do
      x
      pure true)
    fun
      | .duckdb _ => pure false
      | e => throw e

/-- What `_add_column` makes of the schema it reads again. -/
def verifyAdded (name type : String) (requireVerified reread : Bool) : SinkM lower Bool := do
  let s ← get
  if !reread then
    if requireVerified then pure false
    else do
      modify fun s => { s with knownColumns := setColumnType lower name type s.knownColumns }
      pure true
  else pure (columnType lower s.knownColumns name = some type)

/-- `_add_column`. -/
def addColumn (name type : String) (requireVerified : Bool) : SinkM lower Bool := do
  let added ← succeeded (runDdl (.addColumn name) (.addColumn ⟨name, type⟩))
  if !added then pure false
  else do
    let reread ← succeeded loadTableSchema
    verifyAdded name type requireVerified reread

/-- The widening of one column. -/
def widenColumn (name type : String) : SinkM lower PUnit := do
  let widened ← succeeded (runDdl (.setDataType name) (.setDataType name type))
  if widened then
    modify fun s => { s with knownColumns := setColumnType lower name type s.knownColumns }
  else pure ⟨⟩

structure Field where
  name : String
  type : ArrowType
deriving DecidableEq, Repr

/-- One field of the loop of `evolve`: an unsafe name is skipped, and whether a column could be
    added does not matter. -/
def evolveField (field : Field) : SinkM lower PUnit := do
  if field.name = "_inserted_at" then pure ⟨⟩
  else if !Hoglake.matchesSafeIdentifier field.name then pure ⟨⟩
  else do
    let s ← get
    if columnType lower s.knownColumns field.name = none then do
      let _ ← addColumn field.name (arrowTypeToDuckdb field.type) false
      pure ⟨⟩
    else if columnType lower s.knownColumns field.name ≠ some (arrowTypeToDuckdb field.type) then
      widenColumn field.name (arrowTypeToDuckdb field.type)
    else pure ⟨⟩

def evolveFields : List Field → SinkM lower PUnit
  | [] => pure ⟨⟩
  | field :: rest => do
      evolveField field
      evolveFields rest

/-- `evolve`. -/
def evolve (fields : List Field) : SinkM lower PUnit := do
  let loaded ← ensureSchemaLoaded
  if loaded then evolveFields fields else pure ⟨⟩

/-- `live_variant_column_names` and `live_uuid_column_names`: the names of a type, lowered. -/
def liveColumnNames (type : String) : SinkM lower (List String) := do
  let loaded ← ensureSchemaLoaded
  let s ← get
  if loaded then
    pure ((s.knownColumns.filter fun entry => entry.2 = type).map fun entry => lower entry.1)
  else pure []

/-- `variant_column_name`. -/
def variantColumnName (source : String) : String := source ++ "_variant"

/-- One source of `ensure_variant_columns`: whether its companion is ready. -/
def ensureVariantColumn (present : List String) (source : String) : SinkM lower Bool := do
  let s ← get
  if lower source ∉ present.map lower then pure false
  else if !Hoglake.matchesSafeIdentifier source then pure false
  else if columnType lower s.knownColumns (variantColumnName source) = some "VARIANT" then pure true
  else if columnType lower s.knownColumns (variantColumnName source) ≠ none then pure false
  else addColumn (variantColumnName source) "VARIANT" true

def ensureVariantSources (present : List String) : List String → SinkM lower (List String)
  | [] => pure []
  | source :: rest => do
      let ready ← ensureVariantColumn present source
      let others ← ensureVariantSources present rest
      pure (if ready then source :: others else others)

/-- `ensure_variant_columns`: the sources that may be projected. -/
def ensureVariantColumns (sources present : List String) : SinkM lower (List String) :=
  if sources.isEmpty then pure []
  else do
    let loaded ← ensureSchemaLoaded
    if loaded then ensureVariantSources present sources else pure []

/-- `invalidate`. -/
def invalidate : SinkM lower PUnit := modify fun s => { s with initialized := false }

end Millpond.Ducklake
