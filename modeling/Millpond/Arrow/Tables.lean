import Millpond.Arrow.Converter
import Millpond.Arrow.Uuid
import Millpond.Lib.Options

set_option autoImplicit false

/-! # From bytes to a table with its cells

`arrow_converter.convert` on message values: what the LZ4 stream, orjson and pyarrow answer decides
which messages become rows, and the values decide the columns, their types and whether pyarrow takes
them. A column converts or does not by its own values, and a row by its own record. -/

namespace Millpond.Arrow

open ArrowConverter (Value Record ColType Schema Backend keysOf column sampleType sampleInferrable
  inferrable buildSchema rowsUnder conflictingKeys stringify floatify patchMixedTypes
  dropNullTypedColumns)

/-! ## Messages -/

/-- A value of a parsed JSON object. An object or array has a nesting depth, and the text that
    `orjson.dumps` gives for it if it does. -/
inductive Loaded (F : Type) where
  | null
  | bool (b : Bool)
  | int (n : ℤ)
  | float (f : F)
  | str (s : String)
  | nested (depth : ℕ) (text : String)

/-- A Python dict. -/
structure Dict (F : Type) where
  items : List (String × Loaded F)
  distinct : (items.map Prod.fst).Nodup

/-- What `orjson.loads` returns. -/
inductive Document (F : Type) where
  | object (dict : Dict F)
  | other

/-- What the converter takes from pyarrow, orjson and Python. -/
structure Libs (F : Type) where
  /-- What the reads of a value's LZ4 stream answer, `none` for an `OSError`. -/
  reads : Bytes → List (Option Bytes)
  /-- `orjson.loads`, `none` for a `JSONDecodeError`. -/
  loads : Bytes → Option (Document F)
  /-- `float(n)`. -/
  ofInt : ℤ → F
  /-- `str(f)`. -/
  floatStr : F → String
  /-- What pyarrow makes of a bool in a double column, if it takes it. -/
  boolToFloat : Bool → Option F

variable {F : Type} (libs : Libs F)

/-- `_LZ4_FRAME_MAGIC`. -/
def lz4FrameMagic : Bytes := [0x04, 0x22, 0x4d, 0x18]

/-- `MAX_DECODED_VALUE_BYTES`. -/
def maxDecodedValueBytes : ℕ := 33554432

/-- The loop of `_decode_value`: `none` for an `OSError` or an `OversizedValueError`. -/
def readChunks (limit : ℕ) : List (Option Bytes) → List Bytes → ℕ → Option Bytes
  | [], chunks, _ => some chunks.flatten
  | none :: _, _, _ => none
  | some chunk :: rest, chunks, total =>
      if chunk.isEmpty then some chunks.flatten
      else if limit < total + chunk.length then none
      else readChunks limit rest (chunks ++ [chunk]) (total + chunk.length)

/-- `_decode_value`. -/
def decodeValue (raw : Bytes) : Option Bytes :=
  if raw.take 4 = lz4FrameMagic then readChunks maxDecodedValueBytes (libs.reads raw) [] 0
  else some raw

/-- The object a message decodes to, if it does. -/
def decodes (raw : Bytes) : Option (Dict F) :=
  match (decodeValue libs raw).bind libs.loads with
  | some (.object dict) => some dict
  | _ => none

/-- The first loop of `convert`. -/
def objects (messages : List Bytes) : List (Dict F) := messages.filterMap (decodes libs)

/-! ## Nested values -/

/-- The depth above which `orjson.dumps` refuses a value. -/
def dumpsLimit : ℕ := 254

def Loaded.flatten : Loaded F → Option (Value F)
  | .null => some .null
  | .bool b => some (.bool b)
  | .int n => some (.int n)
  | .float f => some (.float f)
  | .str s => some (.str s)
  | .nested depth text => if depth ≤ dumpsLimit then some (.str text) else none

def Dict.flatten (dict : Dict F) : Option (Record F) :=
  dict.items.mapM fun item => item.2.flatten.map (item.1, ·)

/-- `_flatten_nested_to_json`, `none` for a `JSONEncodeError`. -/
def flattenNestedToJson (dicts : List (Dict F)) : Option (List (Record F)) :=
  dicts.mapM Dict.flatten

/-! ## Cells -/

/-- A value that is not null in an Arrow column; a timestamp counts microseconds. -/
inductive Cell (F : Type) where
  | bool (b : Bool)
  | int (n : ℤ)
  | float (f : F)
  | str (s : String)
  | timestamp (micros : ℤ)
  | uuid (uuid : Uuid)
deriving DecidableEq

/-- The cells of a row by column name. -/
abbrev Row (F : Type) := String → Option (Cell F)

structure Table (F : Type) where
  fields : Schema
  rows : List (Row F)

def inInt64 (n : ℤ) : Bool := -9223372036854775808 ≤ n && n ≤ 9223372036854775807

def inUint64 (n : ℤ) : Bool := 0 ≤ n && n ≤ 18446744073709551615

/-- What pyarrow makes of a Python value in a column of a type; `none` is its refusal. Integers in a
    double column are floats by then. -/
def toCell : ColType → Value F → Option (Option (Cell F))
  | _, .null => some none
  | .bool, .bool b => some (some (.bool b))
  | .int64, .int n => if inInt64 n then some (some (.int n)) else none
  | .uint64, .int n => if inUint64 n then some (some (.int n)) else none
  | .float64, .float f => some (some (.float f))
  | .float64, .bool b => (libs.boolToFloat b).map fun f => some (.float f)
  | .string, .str s => some (some (.str s))
  | _, _ => none

@[simp] theorem toCell_null (type : ColType) : toCell libs type .null = some none := by
  cases type <;> rfl

/-- The row of a record: `record.get(name)` for each field. -/
def rowOf (schema : Schema) (record : Record F) : Option (Row F) :=
  (schema.mapM fun field =>
    (toCell libs field.2 ((record.lookup field.1).getD .null)).map (field.1, ·)).map
      fun cells name => (cells.lookup name).join

/-- `pa.Table.from_pylist`. -/
def fromPylist (records : List (Record F)) (schema : Schema) : Option (Table F) :=
  (records.mapM (rowOf libs schema)).map fun rows => ⟨schema, rowsUnder schema rows⟩

/-- The cast of a column to int64 returns. -/
def castsToInt64 (rows : List (Row F)) (name : String) : Bool :=
  rows.all fun row => match row name with
    | some (.int n) => inInt64 n
    | _ => true

/-- `_normalize_numeric_types`. -/
def normalizeNumericTypes (table : Table F) : Option (Table F) :=
  if table.fields.all fun field => field.2 ≠ .uint64 || castsToInt64 table.rows field.1 then
    some { table with fields := ArrowConverter.normalizeNumericTypes table.fields }
  else none

/-- Python's floats, for the steps that work on records. -/
def Libs.backend : Backend F where
  ofInt := libs.ofInt
  floatStr := libs.floatStr
  fromPylist := fun records schema => (fromPylist libs records schema).isSome
  castInt64 := fun records name => records.all fun record => match record.lookup name with
    | some (.int n) => inInt64 n
    | _ => true
  castImplemented := fun _ _ => true

/-- How a call of `convert` ends. -/
inductive Converted (F : Type) where
  | raised
  | none
  | table (table : Table F)

/-- The part of `convert` from the flattened records on. -/
def tableOf (records : List (Record F)) : Option (Table F) := do
  if !inferrable records then none
  let schema := (patchMixedTypes libs.backend records).2
  let patched := floatify libs.backend (patchMixedTypes libs.backend records).1 schema
  let table ← fromPylist libs patched schema
  let table ← normalizeNumericTypes table
  pure { table with fields := dropNullTypedColumns table.fields }

/-- `convert`. -/
def convert (messages : List Bytes) : Converted F :=
  let records := objects libs messages
  if records.isEmpty then .none
  else match (flattenNestedToJson records).bind (tableOf libs) with
    | none => .raised
    | some table => .table table

/-! ## A column by its own values -/

/-- A value contradicts the sample's type. -/
def mixed (values : List (Value F)) : Bool :=
  values.any fun v => !v.isNull && !(sampleType values).accepts v

/-- The type of a column before integers are normalized. -/
def finalType (values : List (Value F)) : ColType :=
  if mixed values then .string else sampleType values

/-- `_floatify_integers_in_float_fields` on one value. -/
def floated : ColType → Value F → Value F
  | .float64, .int n => .float (libs.ofInt n)
  | _, v => v

@[simp] theorem floated_null (type : ColType) : floated libs type .null = .null := by
  cases type <;> rfl

/-- What `from_pylist` gets for a value of a column. -/
def patchedValue (values : List (Value F)) (v : Value F) : Value F :=
  if mixed values then v.stringified libs.backend else floated libs (sampleType values) v

/-- The cell of a value in a column with these values. -/
def cellOf (values : List (Value F)) (v : Value F) : Option (Option (Cell F)) :=
  toCell libs (finalType values) (patchedValue libs values v)

/-- pyarrow takes the column: its sample, and then each of its values. -/
def Fits (values : List (Value F)) : Prop :=
  sampleInferrable values = true ∧ ∀ v ∈ values, (cellOf libs values v).isSome

/-- The row of a record among others. -/
def convertedRow (records : List (Record F)) (record : Record F) : Row F := fun name =>
  ((record.lookup name).bind (cellOf libs (column name records))).join

variable {libs}

theorem mem_column {name : String} {v : Value F} {records : List (Record F)} :
    v ∈ column name records ↔ ∃ record ∈ records, (name, v) ∈ record := by
  unfold column
  simp only [List.mem_filterMap, List.mem_flatten]
  constructor
  · rintro ⟨⟨k, w⟩, ⟨record, hrecord, hitem⟩, hif⟩
    split at hif
    · next hk =>
        obtain rfl : k = name := hk
        obtain rfl : w = v := by simpa using hif
        exact ⟨record, hrecord, hitem⟩
    · exact absurd hif (by simp)
  · rintro ⟨record, hrecord, hitem⟩
    exact ⟨(name, v), ⟨record, hrecord, hitem⟩, by simp⟩

/-- A column mixes types when its key conflicts. -/
theorem mixed_iff {name : String} {records : List (Record F)} :
    mixed (column name records) = true ↔
      name ∈ conflictingKeys records (buildSchema records) := by
  rw [ArrowConverter.mem_conflictingKeys]
  unfold mixed
  simp

/-- Whether or not fields mix types, the records and the schema are those of the patch. -/
theorem patchMixedTypes_eq (be : Backend F) (records : List (Record F)) :
    patchMixedTypes be records
      = (stringify be (conflictingKeys records (buildSchema records)) records,
        buildSchema (stringify be (conflictingKeys records (buildSchema records)) records)) := by
  unfold patchMixedTypes
  cases hempty : (conflictingKeys records (buildSchema records)).isEmpty with
  | false => simp [hempty]
  | true =>
      have hsame : stringify be [] records = records := by simp [stringify]
      simp [List.isEmpty_iff.1 hempty, hsame]

theorem patchMixedTypes_schema (be : Backend F) (records : List (Record F)) :
    (patchMixedTypes be records).2
      = (keysOf records).map fun key => (key, finalType (column key records)) := by
  rw [patchMixedTypes_eq]
  show buildSchema (stringify be _ records) = _
  rw [ArrowConverter.buildSchema_eq (stringify be _ records), ArrowConverter.keysOf_stringify]
  refine List.map_congr_left fun key _ => ?_
  rw [ArrowConverter.column_stringify]
  unfold finalType
  by_cases hkey : key ∈ conflictingKeys records (buildSchema records)
  · obtain ⟨v, hv, hnull, -⟩ := ArrowConverter.mem_conflictingKeys.1 hkey
    have hstring := ArrowConverter.sampleType_stringified be ⟨v, hv, hnull⟩
    rw [if_pos (mixed_iff.2 hkey)]
    simp only [hkey, if_true, hstring]
  · rw [if_neg (mt mixed_iff.1 hkey)]
    simp [hkey]

/-- The records that `from_pylist` gets, value by value. -/
theorem floatify_patched (records : List (Record F)) :
    floatify libs.backend (patchMixedTypes libs.backend records).1
        (patchMixedTypes libs.backend records).2
      = records.map fun record => record.map fun item =>
          (item.1, patchedValue libs (column item.1 records) item.2) := by
  rw [patchMixedTypes_schema, patchMixedTypes_eq]
  unfold floatify stringify
  rw [List.map_map]
  refine List.map_congr_left fun record hrecord => ?_
  rw [Function.comp_apply, List.map_map]
  refine List.map_congr_left fun item hitem => ?_
  obtain ⟨key, v⟩ := item
  have hkey : key ∈ keysOf records :=
    ArrowConverter.mem_keysOf.2 ⟨v, mem_column.2 ⟨record, hrecord, hitem⟩⟩
  have hlook : ((keysOf records).map fun key => (key, finalType (column key records))).lookup key
      = some (finalType (column key records)) := by
    rw [ArrowConverter.lookup_map_self, if_pos hkey]
  unfold patchedValue
  cases hmixed : mixed (column key records) with
  | true =>
      -- a string field: the value is stringified and left alone
      have htype : finalType (column key records) = .string := by rw [finalType, hmixed, if_pos rfl]
      cases v <;> simp [mixed_iff.1 hmixed, hlook, htype, Value.isNull, Value.stringified]
  | false =>
      have hnot : key ∉ conflictingKeys records (buildSchema records) := by
        rw [← mixed_iff, hmixed]
        exact Bool.false_ne_true
      have htype : finalType (column key records) = sampleType (column key records) := by
        rw [finalType, hmixed, if_neg Bool.false_ne_true]
      cases hsample : sampleType (column key records) <;> cases v <;>
        simp [hnot, hlook, htype, hsample, Libs.backend, floated]

/-! ## The rows -/

/-- The row of a record whose values all have cells. -/
theorem rowOf_patched {records : List (Record F)} {record : Record F}
    (hfits : ∀ key ∈ keysOf records, Fits libs (column key records)) (hrecord : record ∈ records) :
    rowOf libs ((keysOf records).map fun key => (key, finalType (column key records)))
        (record.map fun item => (item.1, patchedValue libs (column item.1 records) item.2))
      = some (convertedRow libs records record) := by
  have hcell : ∀ key ∈ keysOf records,
      toCell libs (finalType (column key records))
          (((record.map fun item => (item.1, patchedValue libs (column item.1 records) item.2)).lookup
            key).getD .null)
        = some (convertedRow libs records record key) := by
    intro key hkey
    rw [lookup_map_values (fun name v => patchedValue libs (column name records) v)]
    unfold convertedRow
    cases hv : record.lookup key with
    | none => rfl
    | some v =>
        have hmem : v ∈ column key records :=
          mem_column.2 ⟨record, hrecord, mem_of_lookup_eq_some hv⟩
        obtain ⟨cell, hcell⟩ := Option.isSome_iff_exists.1 ((hfits key hkey).2 v hmem)
        simp only [Option.map_some, Option.getD_some, Option.bind_some, hcell, Option.join_some]
        exact hcell
  have hcells := mapM_eq_some_map (f := fun field : String × ColType =>
      (toCell libs field.2 (((record.map fun item =>
        (item.1, patchedValue libs (column item.1 records) item.2)).lookup field.1).getD .null)).map
          (field.1, ·))
    (g := fun field => (field.1, convertedRow libs records record field.1))
    (l := (keysOf records).map fun key => (key, finalType (column key records))) (by
      intro field hfield
      obtain ⟨key, hkey, rfl⟩ := List.mem_map.1 hfield
      simp only [hcell key hkey, Option.map_some])
  unfold rowOf
  rw [hcells, Option.map_some, List.map_map]
  refine congrArg some (funext fun name => ?_)
  show (((keysOf records).map fun key => (key, convertedRow libs records record key)).lookup name).join
    = _
  rw [ArrowConverter.lookup_map_self]
  by_cases hname : name ∈ keysOf records
  · rw [if_pos hname, Option.join_some]
  · have hnone : record.lookup name = none := by
      by_contra hsome
      obtain ⟨v, hv⟩ := Option.ne_none_iff_exists'.1 hsome
      exact hname (ArrowConverter.mem_keysOf.2
        ⟨v, mem_column.2 ⟨record, hrecord, mem_of_lookup_eq_some hv⟩⟩)
    rw [if_neg hname]
    unfold convertedRow
    rw [hnone]
    rfl

theorem keysOf_nodup (records : List (Record F)) : (keysOf records).Nodup := by
  have hkeeps : ∀ (items : List (String × Value F)) (scan : ArrowConverter.Scan F),
      scan.allKeys.Nodup → (items.foldl ArrowConverter.Scan.item scan).allKeys.Nodup := by
    intro items
    induction items with
    | nil => exact fun _ h => h
    | cons item rest ih =>
        intro scan h
        refine ih _ ?_
        unfold ArrowConverter.Scan.item
        by_cases hk : item.1 ∈ scan.allKeys
        · simpa only [hk, if_true] using h
        · simp only [hk, if_false]
          rw [List.nodup_append]
          exact ⟨h, List.nodup_singleton _, fun a ha b hb heq =>
            hk (List.mem_singleton.1 hb ▸ heq ▸ ha)⟩
  exact hkeeps records.flatten ⟨[], []⟩ List.nodup_nil

/-- A row that was built has every cell of its record. -/
theorem rowOf_cells {schema : Schema} {record : Record F} {row : Row F}
    (hdistinct : (schema.map Prod.fst).Nodup) (h : rowOf libs schema record = some row) :
    ∀ field ∈ schema, toCell libs field.2 ((record.lookup field.1).getD .null)
      = some (row field.1) := by
  unfold rowOf at h
  obtain ⟨cells, hcells, rfl⟩ := Option.map_eq_some_iff.1 h
  have hnames : cells.map Prod.fst = schema.map Prod.fst := by
    rw [← List.forall₂_eq_eq_eq, List.forall₂_map_left_iff, List.forall₂_map_right_iff]
    refine (mapM_eq_some_iff.1 hcells).flip.imp fun cell field hcell => ?_
    obtain ⟨c, -, rfl⟩ := Option.map_eq_some_iff.1 hcell
    rfl
  intro field hfield
  obtain ⟨cell, hmem, hcell⟩ := exists_of_mapM hcells hfield
  obtain ⟨c, hc, rfl⟩ := Option.map_eq_some_iff.1 hcell
  show _ = some (cells.lookup field.1).join
  rw [lookup_of_mem (hnames ▸ hdistinct) hmem, Option.join_some]
  exact hc

theorem finalType_ne_null (values : List (Value F)) : finalType values ≠ .null := by
  unfold finalType
  split
  · exact fun h => by cases h
  · exact ArrowConverter.sampleType_ne_null values

theorem finalType_ne_uint64 (values : List (Value F)) : finalType values ≠ .uint64 := by
  unfold finalType
  split
  · exact fun h => by cases h
  · exact ArrowConverter.sampleType_ne_uint64 values

/-! ## What `convert` returns -/

variable {messages : List Bytes} {records : List (Record F)}

/-- The columns of a batch whose columns all convert. -/
def tableFields (records : List (Record F)) : Schema :=
  (keysOf records).map fun key => (key, finalType (column key records))

theorem tableFields_distinct (records : List (Record F)) :
    ((tableFields records).map Prod.fst).Nodup := by
  unfold tableFields
  rw [List.map_map]
  exact (List.map_id' _).symm ▸ keysOf_nodup records

theorem tableFields_ne_uint64 (records : List (Record F)) :
    ∀ field ∈ tableFields records, field.2 ≠ .uint64 := by
  intro field hfield
  obtain ⟨key, -, rfl⟩ := List.mem_map.1 hfield
  exact finalType_ne_uint64 _

/-- Numbers are inferred in their normal types. -/
theorem normalize_tableFields (records : List (Record F)) :
    ArrowConverter.normalizeNumericTypes (tableFields records) = tableFields records := by
  unfold ArrowConverter.normalizeNumericTypes
  refine (List.map_congr_left fun field hfield => ?_).trans (List.map_id' _)
  rw [if_neg (tableFields_ne_uint64 records field hfield)]

theorem dropNull_tableFields (records : List (Record F)) :
    dropNullTypedColumns (tableFields records) = tableFields records := by
  refine List.filter_eq_self.2 fun field hfield => ?_
  obtain ⟨key, -, rfl⟩ := List.mem_map.1 hfield
  simpa using finalType_ne_null _

theorem normalizeNumericTypes_tableFields (records : List (Record F)) (rows : List (Row F)) :
    normalizeNumericTypes ⟨tableFields records, rows⟩ = some ⟨tableFields records, rows⟩ := by
  have hall : (tableFields records).all (fun field => field.2 ≠ .uint64 ||
      castsToInt64 rows field.1) = true := by
    rw [List.all_eq_true]
    intro field hfield
    simp [tableFields_ne_uint64 records field hfield]
  unfold normalizeNumericTypes
  rw [if_pos hall, normalize_tableFields]

/-- What is left of `tableOf`: the samples and the cells. -/
theorem tableOf_eq (records : List (Record F)) :
    tableOf libs records = if inferrable records then
        fromPylist libs (records.map fun record => record.map fun item =>
          (item.1, patchedValue libs (column item.1 records) item.2)) (tableFields records)
      else none := by
  unfold tableOf
  simp only [floatify_patched]
  rw [patchMixedTypes_schema]
  cases inferrable records with
  | false => rfl
  | true =>
      show Option.bind (fromPylist libs _ (tableFields records)) _ = fromPylist libs _ _
      unfold fromPylist
      cases List.mapM (rowOf libs (tableFields records)) _ with
      | none => rfl
      | some rows =>
          simp only [Option.map_some, Option.bind_eq_bind, Option.bind_some,
            normalizeNumericTypes_tableFields, dropNull_tableFields]
          rfl

theorem fromPylist_fits (hfits : ∀ key ∈ keysOf records, Fits libs (column key records)) :
    fromPylist libs (records.map fun record => record.map fun item =>
        (item.1, patchedValue libs (column item.1 records) item.2)) (tableFields records)
      = some ⟨tableFields records,
          rowsUnder (tableFields records) (records.map (convertedRow libs records))⟩ := by
  have hrows : (records.map fun record => record.map fun item =>
        (item.1, patchedValue libs (column item.1 records) item.2)).mapM
          (rowOf libs (tableFields records))
      = some (records.map (convertedRow libs records)) := by
    rw [mapM_eq_some_iff, List.forall₂_map_left_iff, List.forall₂_map_right_iff,
      List.forall₂_same]
    exact fun record hrecord => rowOf_patched hfits hrecord
  unfold fromPylist
  rw [hrows, Option.map_some]

theorem inferrable_of_fits (hfits : ∀ key ∈ keysOf records, Fits libs (column key records)) :
    inferrable records = true := ArrowConverter.inferrable_iff.2 fun key hkey => (hfits key hkey).1

/-- **Columns that fit convert**, each by its own values. -/
theorem tableOf_fits (hfits : ∀ key ∈ keysOf records, Fits libs (column key records)) :
    tableOf libs records = some ⟨tableFields records,
      rowsUnder (tableFields records) (records.map (convertedRow libs records))⟩ := by
  rw [tableOf_eq, if_pos (inferrable_of_fits hfits), fromPylist_fits hfits]

/-- A column that does not fit raises. -/
theorem tableOf_unfit (hdistinct : ∀ record ∈ records, (record.map Prod.fst).Nodup) {key : String}
    (hkey : key ∈ keysOf records) (hunfit : ¬ Fits libs (column key records)) :
    tableOf libs records = none := by
  rw [tableOf_eq]
  cases hinfer : inferrable records with
  | false => rfl
  | true =>
      rw [if_pos rfl]
      unfold fromPylist
      cases hrows : (records.map fun record => record.map fun item =>
          (item.1, patchedValue libs (column item.1 records) item.2)).mapM
            (rowOf libs (tableFields records)) with
      | none => rfl
      | some rows =>
          have hfield : (key, finalType (column key records)) ∈ tableFields records :=
            List.mem_map_of_mem hkey
          refine absurd ⟨ArrowConverter.inferrable_iff.1 hinfer key hkey, fun v hv => ?_⟩ hunfit
          -- the row of a value holds its cell
          obtain ⟨record, hrecord, hitem⟩ := mem_column.1 hv
          obtain ⟨row, -, hbuilt⟩ := exists_of_mapM hrows (List.mem_map_of_mem hrecord)
          have hcell := rowOf_cells (tableFields_distinct records) hbuilt _ hfield
          rw [lookup_map_values (fun name v => patchedValue libs (column name records) v),
            lookup_of_mem (hdistinct record hrecord) hitem] at hcell
          exact Option.isSome_iff_exists.2 ⟨row key, hcell⟩

end Millpond.Arrow
