import Mathlib.Data.List.Basic
import Mathlib.Data.Int.Notation
import Mathlib.Data.Nat.Notation

set_option autoImplicit false

/-! # From messages to a typed Arrow table

`arrow_converter.convert` and `coerce_typed_columns`, as far as they decide which columns a batch
has and of which type. Floats are a parameter (`F`, with Python's `float(n)` and `str(f)`), and so
is whether pyarrow accepts the values it is given; rows stand for the records they came from. -/

namespace Millpond.ArrowConverter

/-! ## Values and types -/

/-- A value of a decoded JSON object. A nested object or array carries its `orjson.dumps`. -/
inductive Json (F : Type) where
  | null
  | bool (b : Bool)
  | int (n : ℤ)
  | float (f : F)
  | str (s : String)
  | nested (dump : String)

/-- What `orjson.loads` makes of a message value, once `_decode_value` went through. The keys of a
    dict are distinct. -/
inductive Parsed (F : Type) where
  | object (items : List (String × Json F)) (distinct : (items.map Prod.fst).Nodup)
  | other

/-- A value after `_flatten_nested_to_json`. -/
inductive Value (F : Type) where
  | null
  | bool (b : Bool)
  | int (n : ℤ)
  | float (f : F)
  | str (s : String)
deriving DecidableEq

/-- A flattened record, as its items. -/
abbrev Record (F : Type) := List (String × Value F)

/-- The Arrow types a column can have here. -/
inductive ColType where
  | null
  | bool
  | int64
  | uint64
  | float64
  | string
  | timestamptz
  | uuid
deriving DecidableEq, Repr

abbrev Schema := List (String × ColType)

structure Table (F : Type) where
  fields : Schema
  rows : List (Record F)

variable {F : Type}

def Value.isNull : Value F → Bool
  | .null => true
  | _ => false

/-- `pa.array([sample]).type`, of a sample it takes. -/
def Value.arrowType : Value F → ColType
  | .null => .null
  | .bool _ => .bool
  | .int _ => .int64
  | .float _ => .float64
  | .str _ => .string

/-- `pa.array([sample])` returns: an integer that int64 does not hold is an `OverflowError`. -/
def Value.inferrable : Value F → Bool
  | .int n => -9223372036854775808 ≤ n && n ≤ 9223372036854775807
  | _ => true

/-- `type_checks[name]` and the `isinstance` test against it; a `bool` is an `int` in Python. -/
def ColType.accepts : ColType → Value F → Bool
  | .bool, .bool _ => true
  | .int64, .int _ | .int64, .bool _ => true
  | .uint64, .int _ | .uint64, .bool _ => true
  | .float64, .int _ | .float64, .float _ | .float64, .bool _ => true
  | .string, .str _ => true
  | .null, _ | .timestamptz, _ | .uuid, _ => true
  | _, _ => false

/-- What the converter takes from Python's floats and from pyarrow. -/
structure Backend (F : Type) where
  /-- `float(n)`. -/
  ofInt : ℤ → F
  /-- `str(f)`. -/
  floatStr : F → String
  /-- `pa.Table.from_pylist` returns on these records and schema. -/
  fromPylist : List (Record F) → Schema → Bool
  /-- The cast of an integer column to int64 returns. -/
  castInt64 : List (Record F) → String → Bool
  /-- Arrow has a cast between the two types; without one `_coerce_or_null` lets the
      `ArrowNotImplementedError` through. -/
  castImplemented : ColType → ColType → Bool

variable (be : Backend F)

/-- Python's `str(v)`. -/
def Value.pyStr : Value F → String
  | .null => "None"
  | .bool true => "True"
  | .bool false => "False"
  | .int n => toString n
  | .float f => be.floatStr f
  | .str s => s

/-! ## The steps of `convert` -/

def Json.flatten : Json F → Value F
  | .null => .null
  | .bool b => .bool b
  | .int n => .int n
  | .float f => .float f
  | .str s => .str s
  | .nested dump => .str dump

/-- The records of a batch: the messages that decode to an object, flattened. A message that does
    not decode is `none`. -/
def recordsOf (messages : List (Option (Parsed F))) : List (Record F) :=
  messages.filterMap fun
    | some (.object items _) => some (items.map fun item => (item.1, item.2.flatten))
    | _ => none

/-- The two dicts of `_build_schema`. -/
structure Scan (F : Type) where
  allKeys : List String
  firstNonNull : List (String × Value F)

def Scan.item (scan : Scan F) (item : String × Value F) : Scan F where
  allKeys := if item.1 ∈ scan.allKeys then scan.allKeys else scan.allKeys ++ [item.1]
  firstNonNull :=
    if item.2.isNull then scan.firstNonNull
    else match scan.firstNonNull.lookup item.1 with
      | none => scan.firstNonNull ++ [item]
      | some _ => scan.firstNonNull

def scanRecords (records : List (Record F)) : Scan F :=
  records.flatten.foldl Scan.item ⟨[], []⟩

/-- `pa.array` takes every sample of `_build_schema`. -/
def inferrable (records : List (Record F)) : Bool :=
  (scanRecords records).allKeys.all fun key =>
    match (scanRecords records).firstNonNull.lookup key with
    | none => true
    | some sample => sample.inferrable

/-- `_build_schema`, when `pa.array` takes its samples. Flattened records hold no dicts, so its rule
    for dict samples never applies. -/
def buildSchema (records : List (Record F)) : Schema :=
  (scanRecords records).allKeys.map fun key =>
    (key, match (scanRecords records).firstNonNull.lookup key with
      | none => .string
      | some sample => sample.arrowType)

/-- A value of this record contradicts the field's type. -/
def conflicts (schema : Schema) (item : String × Value F) : Bool :=
  !item.2.isNull && match schema.lookup item.1 with
    | none => false
    | some type => !type.accepts item.2

/-- `conflicting_keys`. -/
def conflictingKeys (records : List (Record F)) (schema : Schema) : List String :=
  (records.flatten.filter (conflicts schema)).map Prod.fst

/-- The patched records of `_stringify_mixed_type_values`. -/
def stringify (keys : List String) (records : List (Record F)) : List (Record F) :=
  records.map fun record => record.map fun item =>
    if item.1 ∈ keys ∧ item.2.isNull = false then (item.1, .str (item.2.pyStr be)) else item

/-- `_floatify_integers_in_float_fields`. -/
def floatify (records : List (Record F)) (schema : Schema) : List (Record F) :=
  records.map fun record => record.map fun item =>
    match schema.lookup item.1, item.2 with
    | some .float64, .int n => (item.1, .float (be.ofInt n))
    | _, _ => item

/-- `_normalize_numeric_types`, on the types. -/
def normalizeNumericTypes (fields : Schema) : Schema :=
  fields.map fun field => (field.1, if field.2 = .uint64 then .int64 else field.2)

/-- `_drop_null_typed_columns`. -/
def dropNullTypedColumns (fields : Schema) : Schema := fields.filter (·.2 ≠ .null)

/-- How a call ends. -/
inductive Converted (F : Type) where
  | raised
  | none
  | table (table : Table F)

/-- The rows of `pa.Table.from_pylist`: a table without columns has none. -/
def rowsUnder {α : Type} (schema : Schema) (rows : List α) : List α :=
  if schema.isEmpty then [] else rows

/-- The records and schema after `_stringify_mixed_type_values`: both are redone when some field
    mixes types, and then the stringified samples are strings. -/
def patchMixedTypes (records : List (Record F)) : List (Record F) × Schema :=
  let keys := conflictingKeys records (buildSchema records)
  if keys.isEmpty then (records, buildSchema records)
  else (stringify be keys records, buildSchema (stringify be keys records))

/-- `convert`. -/
def convert (messages : List (Option (Parsed F))) : Converted F :=
  let records := recordsOf messages
  if records.isEmpty then .none
  else if !inferrable records then .raised
  else
    let schema := (patchMixedTypes be records).2
    let patched := floatify be (patchMixedTypes be records).1 schema
    if !be.fromPylist patched schema then .raised
    else if schema.any (fun field => field.2 = .uint64 && !be.castInt64 patched field.1) then .raised
    else .table ⟨dropNullTypedColumns (normalizeNumericTypes schema), rowsUnder schema records⟩

/-! ## Typed columns -/

/-- The names of `COERCIBLE_TYPES`. -/
inductive TypeName where
  | timestamptz
  | bigint
  | double
  | boolean
  | varchar
  | uuid
deriving DecidableEq, Repr

/-- The Arrow type of a `_COERCERS` entry. -/
def TypeName.arrowType : TypeName → ColType
  | .timestamptz => .timestamptz
  | .bigint => .int64
  | .double => .float64
  | .boolean => .bool
  | .varchar => .string
  | .uuid => .uuid

/-- `dict(typed_columns).get(name)`: the last pair of a name wins. -/
def targetType (typedColumns : List (String × TypeName)) (name : String) : Option TypeName :=
  typedColumns.reverse.lookup name

/-- The type a field has after the typed columns are pinned. -/
def pinnedType (typedColumns : List (String × TypeName)) (field : String × ColType) : ColType :=
  match targetType typedColumns field.1 with
  | none => field.2
  | some target => target.arrowType

/-- `coerce_typed_columns`: a present, configured column gets its target type. -/
def coerceTypedColumns (typedColumns : List (String × TypeName)) (table : Table F) : Converted F :=
  if table.fields.all (fun field => be.castImplemented field.2 (pinnedType typedColumns field)) then
    .table ⟨table.fields.map fun field => (field.1, pinnedType typedColumns field), table.rows⟩
  else .raised

/-! ## The type of a converted column -/

/-- The values a batch has for a field. -/
def column (name : String) (records : List (Record F)) : List (Value F) :=
  records.flatten.filterMap fun item => if item.1 = name then some item.2 else none

/-- The type inferred for a field, from its values alone: that of the first non-null value if the
    others fit it, `string` if they do not or there is none. -/
def inferredType (values : List (Value F)) : ColType :=
  match values.find? (!·.isNull) with
  | none => .string
  | some sample =>
      if values.all (fun v => v.isNull || sample.arrowType.accepts v) then
        if sample.arrowType = .uint64 then .int64 else sample.arrowType
      else .string

/-- One pass keeps, for each key, the first non-null value. -/
theorem lookup_foldl_item (name : String) (items : List (String × Value F)) :
    ∀ scan : Scan F, (items.foldl Scan.item scan).firstNonNull.lookup name
      = match scan.firstNonNull.lookup name with
        | some v => some v
        | none => (items.filterMap fun item => if item.1 = name then some item.2 else none).find?
            (!·.isNull) := by
  induction items with
  | nil =>
      intro scan
      cases h : scan.firstNonNull.lookup name <;> simp [h]
  | cons item rest ih =>
      intro scan
      obtain ⟨k, v⟩ := item
      rw [List.foldl_cons, ih]
      by_cases hnull : v.isNull
      · -- a null changes no sample
        have hitem : (scan.item (k, v)).firstNonNull = scan.firstNonNull := by
          simp [Scan.item, hnull]
        rw [hitem]
        by_cases hk : k = name <;> simp [hk, hnull]
      · by_cases hk : k = name
        · subst hk
          cases hold : scan.firstNonNull.lookup k with
          | none => simp [Scan.item, hnull, hold, List.lookup_append]
          | some w => simp [Scan.item, hnull, hold]
        · have hne : ¬ name = k := fun h => hk h.symm
          have hlook : (scan.item (k, v)).firstNonNull.lookup name
              = scan.firstNonNull.lookup name := by
            cases hold : scan.firstNonNull.lookup k with
            | none =>
                simp only [Scan.item, hnull, hold, Bool.false_eq_true, if_false,
                  List.lookup_append]
                have hbeq : (name == k) = false := by simpa using hne
                cases scan.firstNonNull.lookup name <;> simp [List.lookup_cons, hbeq]
            | some w => simp [Scan.item, hnull, hold]
          rw [hlook]
          simp [hk]

theorem mem_foldl_item (name : String) (items : List (String × Value F)) :
    ∀ scan : Scan F, name ∈ (items.foldl Scan.item scan).allKeys ↔
      name ∈ scan.allKeys ∨ ∃ v, (name, v) ∈ items := by
  induction items with
  | nil => simp
  | cons item rest ih =>
      intro scan
      obtain ⟨k, v⟩ := item
      have hkeys : name ∈ (scan.item (k, v)).allKeys ↔ name ∈ scan.allKeys ∨ name = k := by
        unfold Scan.item
        by_cases hk : k ∈ scan.allKeys
        · simp only [hk, if_true]
          exact ⟨Or.inl, fun h => h.elim id (fun he => he ▸ hk)⟩
        · simp [hk]
      rw [List.foldl_cons, ih, hkeys]
      simp only [List.mem_cons, Prod.mk.injEq]
      constructor
      · rintro ((h | rfl) | ⟨w, hw⟩)
        · exact Or.inl h
        · exact Or.inr ⟨v, Or.inl ⟨rfl, rfl⟩⟩
        · exact Or.inr ⟨w, Or.inr hw⟩
      · rintro (h | ⟨w, ⟨rfl, rfl⟩ | hw⟩)
        · exact Or.inl (Or.inl h)
        · exact Or.inl (Or.inr rfl)
        · exact Or.inr ⟨w, hw⟩

/-- The type of a field before the other values are looked at. -/
def sampleType (values : List (Value F)) : ColType :=
  match values.find? (!·.isNull) with
  | none => .string
  | some sample => sample.arrowType

/-- The keys of a batch, in the order they first appear. -/
def keysOf (records : List (Record F)) : List String := (scanRecords records).allKeys

theorem mem_keysOf {name : String} {records : List (Record F)} :
    name ∈ keysOf records ↔ ∃ v, v ∈ column name records := by
  unfold keysOf scanRecords column
  rw [mem_foldl_item]
  simp only [List.not_mem_nil, false_or, List.mem_filterMap]
  constructor
  · rintro ⟨v, hv⟩
    exact ⟨v, (name, v), hv, by simp⟩
  · rintro ⟨v, ⟨k, w⟩, hmem, hif⟩
    split at hif
    · next hk =>
        obtain rfl : k = name := hk
        exact ⟨w, hmem⟩
    · exact absurd hif (by simp)

theorem buildSchema_eq (records : List (Record F)) :
    buildSchema records
      = (keysOf records).map fun key => (key, sampleType (column key records)) := by
  unfold buildSchema keysOf
  refine List.map_congr_left (fun key _ => ?_)
  unfold scanRecords
  rw [lookup_foldl_item key records.flatten ⟨[], []⟩]
  rfl

/-- `pa.array` takes the sample among these values, if there is one. -/
def sampleInferrable (values : List (Value F)) : Bool :=
  match values.find? (!·.isNull) with
  | none => true
  | some sample => sample.inferrable

theorem inferrable_iff {records : List (Record F)} : inferrable records = true ↔
    ∀ key ∈ keysOf records, sampleInferrable (column key records) = true := by
  unfold inferrable
  rw [List.all_eq_true]
  refine forall₂_congr fun key _ => ?_
  unfold scanRecords
  rw [lookup_foldl_item key records.flatten ⟨[], []⟩]
  rfl

theorem lookup_map_self {α : Type} (f : String → α) (name : String) (keys : List String) :
    (keys.map fun key => (key, f key)).lookup name = if name ∈ keys then some (f name) else none := by
  induction keys with
  | nil => rfl
  | cons key rest ih =>
      by_cases h : name = key
      · subst h
        simp
      · have hbeq : (name == key) = false := by simpa using h
        simp only [List.map_cons, List.lookup_cons, hbeq, ih, List.mem_cons, h, false_or]

/-- A field conflicts when one of its non-null values does not fit the sample's type. -/
theorem mem_conflictingKeys {name : String} {records : List (Record F)} :
    name ∈ conflictingKeys records (buildSchema records) ↔
      ∃ v ∈ column name records,
        v.isNull = false ∧ (sampleType (column name records)).accepts v = false := by
  unfold conflictingKeys
  simp only [List.mem_map, List.mem_filter]
  constructor
  · rintro ⟨⟨k, v⟩, ⟨hmem, hconf⟩, rfl⟩
    have hcol : v ∈ column k records :=
      List.mem_filterMap.2 ⟨(k, v), hmem, by simp⟩
    have hkey : k ∈ keysOf records := mem_keysOf.2 ⟨v, hcol⟩
    unfold conflicts at hconf
    rw [buildSchema_eq, lookup_map_self, if_pos hkey] at hconf
    simp only [Bool.and_eq_true, Bool.not_eq_true'] at hconf
    exact ⟨v, hcol, hconf.1, hconf.2⟩
  · rintro ⟨v, hcol, hnull, hacc⟩
    have hkey : name ∈ keysOf records := mem_keysOf.2 ⟨v, hcol⟩
    have hmem : (name, v) ∈ records.flatten := by
      obtain ⟨⟨k, w⟩, hmem, hif⟩ := List.mem_filterMap.1 hcol
      split at hif
      · next hk =>
          obtain rfl : k = name := hk
          obtain rfl : w = v := by simpa using hif
          exact hmem
      · exact absurd hif (by simp)
    refine ⟨(name, v), ⟨hmem, ?_⟩, rfl⟩
    unfold conflicts
    rw [buildSchema_eq, lookup_map_self, if_pos hkey]
    simp [hnull, hacc]

/-! ## Stringified fields -/

/-- The value `stringify` leaves in a conflicting field. -/
def Value.stringified (v : Value F) : Value F := if v.isNull then v else .str (v.pyStr be)

theorem flatten_stringify (keys : List String) (records : List (Record F)) :
    (stringify be keys records).flatten = records.flatten.map fun item =>
      if item.1 ∈ keys ∧ item.2.isNull = false then (item.1, .str (item.2.pyStr be)) else item := by
  unfold stringify
  rw [List.map_flatten]

theorem column_stringify (keys : List String) (name : String) (records : List (Record F)) :
    column name (stringify be keys records)
      = (column name records).map fun v => if name ∈ keys then v.stringified be else v := by
  unfold column
  rw [flatten_stringify, List.filterMap_map, List.map_filterMap]
  refine List.filterMap_congr (fun item _ => ?_)
  obtain ⟨k, v⟩ := item
  by_cases hk : k = name
  · subst hk
    by_cases hkeys : k ∈ keys
    · cases hnull : v.isNull <;> simp [hkeys, hnull, Value.stringified]
    · simp [hkeys]
  · by_cases hc : k ∈ keys ∧ v.isNull = false <;> simp [hc, hk]

theorem keysOf_stringify (keys : List String) (records : List (Record F)) :
    keysOf (stringify be keys records) = keysOf records := by
  have hkeys : ∀ (items : List (String × Value F)) (scan scan' : Scan F),
      scan.allKeys = scan'.allKeys →
      ((items.map fun item => if item.1 ∈ keys ∧ item.2.isNull = false
          then (item.1, Value.str (item.2.pyStr be)) else item).foldl Scan.item scan).allKeys
        = (items.foldl Scan.item scan').allKeys := by
    intro items
    induction items with
    | nil => exact fun _ _ h => h
    | cons item rest ih =>
        intro scan scan' h
        refine ih _ _ ?_
        have hname : (if item.1 ∈ keys ∧ item.2.isNull = false
            then (item.1, Value.str (item.2.pyStr be)) else item).1 = item.1 := by
          split <;> rfl
        simp only [Scan.item, hname, h]
  unfold keysOf scanRecords
  rw [flatten_stringify]
  exact hkeys _ _ _ rfl

theorem sampleType_stringified {values : List (Value F)} (h : ∃ v ∈ values, v.isNull = false) :
    sampleType (values.map (Value.stringified be)) = .string := by
  obtain ⟨v, hv, hnull⟩ := h
  unfold sampleType
  cases hfind : (values.map (Value.stringified be)).find? (!·.isNull) with
  | none => rfl
  | some w =>
      obtain ⟨u, -, rfl⟩ := List.mem_map.1 (List.mem_of_find?_eq_some hfind)
      have hw := List.find?_some hfind
      cases hu : u.isNull with
      | true => simp [Value.stringified, hu] at hw
      | false => simp [Value.stringified, hu, Value.arrowType]

/-! ## What `convert` infers -/

theorem sampleType_ne_null (values : List (Value F)) : sampleType values ≠ .null := by
  unfold sampleType
  cases hfind : values.find? (!·.isNull) with
  | none => simp
  | some sample =>
      have hnull := List.find?_some hfind
      cases sample with
      | null => simp [Value.isNull] at hnull
      | int n => simp [Value.arrowType]
      | bool b => simp [Value.arrowType]
      | float f => simp [Value.arrowType]
      | str s => simp [Value.arrowType]

/-- No column is inferred uint64. -/
theorem sampleType_ne_uint64 (values : List (Value F)) : sampleType values ≠ .uint64 := by
  unfold sampleType
  cases values.find? (!·.isNull) with
  | none => simp
  | some sample => cases sample <;> simp [Value.arrowType]

/-- `_normalize_numeric_types` on one type. -/
def normalized (type : ColType) : ColType := if type = .uint64 then .int64 else type

theorem normalized_ne_null {type : ColType} (h : type ≠ .null) : normalized type ≠ .null := by
  unfold normalized
  split
  · simp
  · exact h

/-- Without a conflict a field's type is its sample's, in normal form. -/
theorem inferredType_of_fits {values : List (Value F)}
    (h : ∀ v ∈ values, v.isNull = false → (sampleType values).accepts v = true) :
    inferredType values = normalized (sampleType values) := by
  unfold inferredType sampleType normalized at *
  cases hfind : values.find? (!·.isNull) with
  | none => rfl
  | some sample =>
      rw [hfind] at h
      have hall : values.all (fun v => v.isNull || sample.arrowType.accepts v) = true := by
        rw [List.all_eq_true]
        intro v hv
        cases hnull : v.isNull with
        | true => rfl
        | false => simpa using h v hv hnull
      simp [hall]

theorem inferredType_of_conflict {values : List (Value F)}
    (h : ∃ v ∈ values, v.isNull = false ∧ (sampleType values).accepts v = false) :
    inferredType values = .string := by
  obtain ⟨v, hv, hnull, hacc⟩ := h
  unfold inferredType sampleType at *
  cases hfind : values.find? (!·.isNull) with
  | none => rfl
  | some sample =>
      rw [hfind] at hacc
      have hall : ¬ values.all (fun v => v.isNull || sample.arrowType.accepts v) = true := by
        rw [List.all_eq_true]
        intro hall
        have := hall v hv
        simp [hnull, hacc] at this
      simp [hall]

/-- The schema `convert` ends with, whichever way the conflict scan goes. -/
theorem final_schema (records : List (Record F)) :
    normalizeNumericTypes (patchMixedTypes be records).2
      = (keysOf records).map fun key => (key, inferredType (column key records)) := by
  have hmap : ∀ (f : String → ColType), normalizeNumericTypes
      ((keysOf records).map fun key => (key, f key))
        = (keysOf records).map fun key => (key, normalized (f key)) := by
    intro f
    simp [normalizeNumericTypes, normalized, Function.comp_def]
  -- out of conflict, the sample decides
  have hfits : ∀ key, key ∉ conflictingKeys records (buildSchema records) →
      inferredType (column key records) = normalized (sampleType (column key records)) := by
    intro key hkey
    refine inferredType_of_fits (fun v hv hnull => ?_)
    by_contra hacc
    exact hkey (mem_conflictingKeys.2 ⟨v, hv, hnull, by simpa using hacc⟩)
  cases hempty : (conflictingKeys records (buildSchema records)).isEmpty with
  | true =>
      have hpatch : patchMixedTypes be records = (records, buildSchema records) := by
        simp [patchMixedTypes, hempty]
      rw [hpatch]
      show normalizeNumericTypes (buildSchema records) = _
      rw [buildSchema_eq, hmap]
      refine List.map_congr_left (fun key _ => ?_)
      rw [hfits key (by simp [List.isEmpty_iff.1 hempty])]
  | false =>
      -- the scan is repeated over texts: in a conflicting key the sample is one now
      obtain ⟨keys, hkeys⟩ : ∃ keys, keys = conflictingKeys records (buildSchema records) := ⟨_, rfl⟩
      rw [← hkeys] at hempty hfits
      have hpatch : patchMixedTypes be records
          = (stringify be keys records, buildSchema (stringify be keys records)) := by
        simp [patchMixedTypes, ← hkeys, hempty]
      rw [hpatch]
      show normalizeNumericTypes (buildSchema (stringify be keys records)) = _
      rw [buildSchema_eq, keysOf_stringify, hmap]
      refine List.map_congr_left (fun key _ => ?_)
      rw [column_stringify]
      by_cases hkey : key ∈ keys
      · have hconf := mem_conflictingKeys.1 (hkeys ▸ hkey)
        have hsome : ∃ v ∈ column key records, v.isNull = false := by
          obtain ⟨v, hv, hnull, -⟩ := hconf
          exact ⟨v, hv, hnull⟩
        have hstr : sampleType ((column key records).map (Value.stringified be)) = .string :=
          sampleType_stringified be hsome
        simp only [hkey, if_true]
        rw [inferredType_of_conflict hconf, hstr]
        simp [normalized]
      · simp only [hkey, if_false, List.map_id']
        rw [hfits key hkey]

theorem inferredType_ne_null (values : List (Value F)) : inferredType values ≠ .null := by
  by_cases h : ∃ v ∈ values, v.isNull = false ∧ (sampleType values).accepts v = false
  · rw [inferredType_of_conflict h]
    simp
  · rw [inferredType_of_fits]
    · exact normalized_ne_null (sampleType_ne_null values)
    · intro v hv hnull
      by_contra hacc
      exact h ⟨v, hv, hnull, by simpa using hacc⟩

/-- **The columns of a converted batch**: its keys, each with the type inferred from its values. -/
theorem convert_fields {messages : List (Option (Parsed F))} {table : Table F}
    (h : convert be messages = .table table) :
    table.fields = (keysOf (recordsOf messages)).map
        fun key => (key, inferredType (column key (recordsOf messages))) := by
  unfold convert at h
  simp only at h
  split at h
  · exact absurd h (by simp)
  · split at h
    · exact absurd h (by simp)
    · split at h
      · exact absurd h (by simp)
      · split at h
        · exact absurd h (by simp)
        · simp only [Converted.table.injEq] at h
          subst h
          show dropNullTypedColumns (normalizeNumericTypes (patchMixedTypes be _).2) = _
          rw [final_schema]
          unfold dropNullTypedColumns
          refine List.filter_eq_self.2 (fun field hfield => ?_)
          obtain ⟨key, -, rfl⟩ := List.mem_map.1 hfield
          simpa using inferredType_ne_null _

end Millpond.ArrowConverter
