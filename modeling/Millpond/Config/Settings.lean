import Millpond.Arrow.Converter
import Millpond.Arrow.Uuid
import Millpond.Config.PartitionBy
import Millpond.IncludeValues.Served

set_option autoImplicit false

/-! # One setting at a time

The readers of `config.py` for the settings both destinations share: the filters, the column lists,
the include-values group and the numbers. Each reads the environment and either returns a checked
value or says which setting it refuses. -/

namespace Millpond.Config

open Millpond.Maintenance (isSpace pyInt digitOf)
open Millpond.Hoglake (isIdentifierStart matchesSafeIdentifier)
open Millpond.IncludeValues (Scalar Values Mode)
open Millpond.Arrow (uuidBytes)
open Millpond.ArrowConverter (TypeName targetType)

/-! ## The environment -/

/-- `os.environ`. -/
structure Environ where
  items : List (String × String)
  distinct : (items.map Prod.fst).Nodup

/-- `os.environ.get(name)`. -/
def Environ.get? (env : Environ) (name : String) : Option String := env.items.lookup name

/-- `os.environ.get(name, default)`. -/
def Environ.getD (env : Environ) (name default_ : String) : String := (env.get? name).getD default_

/-- `os.environ.get(name, "").strip()`. -/
def Environ.stripped (env : Environ) (name : String) : String :=
  String.ofList (strip (env.getD name "").toList)

/-- `text or None`. -/
def orNone (text : String) : Option String := if text = "" then none else some text

/-- A `float`. Between finite values the arithmetic is exact. -/
inductive PyFloat where
  | nan
  | inf (negative : Bool)
  | finite (value : ℚ)
deriving DecidableEq, Repr

/-- `x <= bound`. -/
def PyFloat.atMost : PyFloat → ℚ → Bool
  | .nan, _ => false
  | .inf negative, _ => negative
  | .finite value, bound => value ≤ bound

/-- `x >= bound`. -/
def PyFloat.atLeast : PyFloat → ℚ → Bool
  | .nan, _ => false
  | .inf negative, _ => !negative
  | .finite value, bound => bound ≤ value

/-- An increasing function of a float. -/
def PyFloat.map (f : ℚ → ℚ) : PyFloat → PyFloat
  | .nan => .nan
  | .inf negative => .inf negative
  | .finite value => .finite (f value)

/-- What `config.py` takes from Python and from the packages it imports. -/
structure Python where
  /-- `str.lower`. -/
  lower : String → String
  /-- `float(text)`, `none` for its `ValueError`. -/
  float : String → Option PyFloat
  /-- `pyhoglake.parquet_write_options(codec, level)`: the message it refuses them with. -/
  parquetWriteOptions : String → Option ℤ → Option String
  /-- `Table.prepare_append_tables` takes `deferred_stats`. -/
  takesDeferredStats : Bool
  /-- `_default_service_version()`. -/
  serviceVersion : String

/-- What `load` raises. -/
inductive LoadError where
  /-- `Required environment variable … is not set`. -/
  | required (name : String)
  /-- The `ValueError` of an `int()` or a `float()` nobody catches. -/
  | valueError (text : String)
  /-- `Cannot parse ordinal from pod name: …`. -/
  | podName (name : String)
  /-- `Ordinal … >= REPLICA_COUNT …`. -/
  | ordinal (ordinal : ℕ) (replicaCount : ℤ)
  /-- `MILLPOND_DESTINATION … must be one of: ducklake, hoglake`. -/
  | destination (name : String)
  /-- `… contains unsafe characters`, or is no valid hoglake name. -/
  | unsafeName (name value : String)
  /-- `… column … contains unsafe characters`. -/
  | unsafeColumn (name column : String)
  /-- `… must be a positive integer`, or a positive number. -/
  | notPositive (name value : String)
  /-- `… must be a number, got …`. -/
  | notNumber (name raw : String)
  /-- `DUCKLAKE_RETRY_BACKOFF=… must be >= 1.0`. -/
  | backoff (value : PyFloat)
  /-- `DUCKLAKE_MAX_RETRY_COUNT=… with DUCKLAKE_RETRY_WAIT_MS=… and … allows a single flush to …`. -/
  | ducklakeBudget (maxRetries waitMs : ℤ) (backoff : PyFloat)
  /-- `HOGLAKE_MAX_RETRY_COUNT=… with HOGLAKE_REQUEST_TIMEOUT_S=… allows a single flush to …`. -/
  | hoglakeBudget (maxRetries : ℤ) (timeoutS : PyFloat)
  /-- `PYHOGLAKE_UPLOAD_CONCURRENCY must be a positive integer, got …`. -/
  | uploadConcurrency (raw : String)
  /-- `HOGLAKE_COMPRESSION_LEVEL must be an integer, got …`. -/
  | compressionLevel (raw : String)
  /-- `HOGLAKE_COMPRESSION=… HOGLAKE_COMPRESSION_LEVEL=… is refused by pyhoglake: …`. -/
  | compression (codec : String) (level : Option ℤ) (message : String)
  /-- `HOGLAKE_DEFERRED_STATS=… must be true or false`. -/
  | deferredStats (raw : String)
  /-- `HOGLAKE_DEFERRED_STATS needs a pyhoglake whose …`. -/
  | oldClient
  /-- `HOGLAKE_DATA_PATH … is not an s3:// URI`. -/
  | dataPath (raw : String)
  /-- `HOGLAKE_S3_ACCESS_KEY and HOGLAKE_S3_SECRET_KEY must be set together, and … is not set`. -/
  | s3Keys (missing : String)
  /-- `DUCKLAKE_PARTITION_BY is set but MILLPOND_DESTINATION=hoglake reads HOGLAKE_PARTITION_BY`. -/
  | partitionByOfOther
  | partitionBy (error : PartitionByError)
  /-- `MILLPOND_FILTER_VALUES / MILLPOND_FILTER_DROP_VALUES must contain at least one value`. -/
  | noFilterValues
  /-- `… must be set together with …`. -/
  | together (name other : String)
  /-- `Filter field name … contains unsafe characters`. -/
  | unsafeField (name : String)
  /-- `… entry … is not a UUID, but MILLPOND_TYPED_COLUMNS pins …`. -/
  | notUuid (name : String) (value : Scalar) (field : String)
  /-- `… requires …`, or is set without it. -/
  | requires (name other : String)
  /-- `MILLPOND_INCLUDE_VALUES_MODE must be 'shadow' or 'authoritative', got …`. -/
  | includeMode (mode : String)
  /-- `MILLPOND_TYPED_COLUMNS entry … must be 'column:type'`. -/
  | typedEntry (token : String)
  /-- `MILLPOND_TYPED_COLUMNS type … for column … must be one of …`. -/
  | typedType (typeName column : String)
  /-- `MILLPOND_TYPED_COLUMNS maps … to both … and …`. -/
  | typedTwice (column : String) (first second : TypeName)
  /-- `MILLPOND_VARIANT_COLUMNS column … already ends with '_variant'`. -/
  | variantSuffix (column : String)
  /-- `MILLPOND_VARIANT_COLUMNS is not supported with MILLPOND_DESTINATION=hoglake`. -/
  | variantOnHoglake
  /-- `KAFKA_AUTO_OFFSET_RESET=… must be one of …`. -/
  | autoOffsetReset (raw : String)
  /-- `KAFKA_CONSUMER_AUTO_OFFSET_RESET is not honored`. -/
  | overrideNotHonored
  /-- `MILLPOND_HTTP_PORT … is not an integer`, or is out of range. -/
  | httpPort (raw : String)
deriving DecidableEq, Repr

abbrev Loaded (α : Type) := Except LoadError α

/-! ## Names -/

/-- A `$` also matches before a final newline. -/
def withoutFinalNewline (text : List Char) : List Char :=
  if text.getLast? = some '\n' then text.dropLast else text

/-- `^[first][rest]{0,bound}$`. -/
def matchesName (first rest : Char → Bool) (bound : ℕ) (name : String) : Bool :=
  match withoutFinalNewline name.toList with
  | [] => false
  | c :: tail => first c && tail.all rest && tail.length ≤ bound

/-- `[a-z]`. -/
def isLowerLetter (c : Char) : Bool := 'a' ≤ c && c ≤ 'z'

/-- `_HOGLAKE_IDENTIFIER`. -/
def matchesHoglakeIdentifier (name : String) : Bool :=
  matchesName isIdentifierStart (fun c => isIdentifierChar c || c = '-') 127 name

/-- `_HOGLAKE_CATALOG_NAME`. -/
def matchesHoglakeCatalogName (name : String) : Bool :=
  matchesName isLowerLetter (fun c => isLowerLetter c || c.isDigit || c = '_' || c = '-') 62 name

/-- `SAFE_PARTITION_EXPR`. -/
def matchesPartitionExpr (text : String) : Bool :=
  !text.toList.isEmpty && text.toList.all fun c =>
    c.isAlpha || c.isDigit || isSpace c || c ∈ ['_', '(', ')', ',']

/-- The bucket of an `s3://` URI. -/
def matchesBucket (bucket : List Char) : Bool :=
  let isEnd : Char → Bool := fun c => isLowerLetter c || c.isDigit
  3 ≤ bucket.length && bucket.length ≤ 63 && bucket.head?.any isEnd && bucket.getLast?.any isEnd &&
    bucket.all fun c => isEnd c || c = '.' || c = '-'

/-- `_S3_URI`. -/
def matchesS3Uri (text : String) : Bool :=
  let body := withoutFinalNewline text.toList
  let rest := body.drop 5
  body.take 5 == "s3://".toList && matchesBucket (rest.takeWhile (· ≠ '/')) &&
    '\n' ∉ rest.dropWhile (· ≠ '/')

/-! ## Readers -/

/-- `_require`. -/
def require (env : Environ) (name : String) : Loaded String :=
  match env.get? name with
  | none => .error (.required name)
  | some value => if value = "" then .error (.required name) else .ok value

/-- `int(os.environ.get(name, default))`. -/
def intOr (env : Environ) (name default_ : String) : Loaded ℤ :=
  match pyInt (env.getD name default_) with
  | none => .error (.valueError (env.getD name default_))
  | some n => .ok n

/-- `_positive_int`. -/
def positiveInt (env : Environ) (name : String) (default_ : ℤ) : Loaded ℤ :=
  if env.stripped name = "" then .ok default_
  else
    match pyInt (env.stripped name) with
    | none => .error (.notPositive name (env.stripped name))
    | some n => if n ≤ 0 then .error (.notPositive name (toString n)) else .ok n

/-- `_positive_float`. A NaN is not refused here. -/
def positiveFloat (py : Python) (env : Environ) (name : String) (default_ : ℚ) : Loaded PyFloat :=
  if env.stripped name = "" then .ok (.finite default_)
  else
    match py.float (env.stripped name) with
    | none => .error (.notPositive name (env.stripped name))
    | some x => if x.atMost 0 then .error (.notPositive name (env.stripped name)) else .ok x

/-- The stripped tokens between the commas, without the empty ones. -/
def commaTokens (raw : String) : List String :=
  (((raw.toList.splitOn ',').map strip).filter (!·.isEmpty)).map String.ofList

/-- `_parse_ordinal`. -/
def parseOrdinal (podName : String) : Loaded ℕ :=
  let text := withoutFinalNewline podName.toList
  let isDecimal : Char → Bool := fun c => (digitOf c).isSome
  let digits := text.rtakeWhile isDecimal
  if digits.isEmpty || (text.rdropWhile isDecimal).getLast? ≠ some '-' then .error (.podName podName)
  else
    match pyInt (String.ofList digits) with
    | none => .error (.valueError (String.ofList digits))
    | some n => .ok n.toNat

/-- The checks of `_load_http_port`. -/
def checkPort (raw : String) : Loaded ℤ :=
  match pyInt raw with
  | none => .error (.httpPort raw)
  | some port => if 0 ≤ port ∧ port ≤ 65535 then .ok port else .error (.httpPort raw)

/-- `_load_http_port`. -/
def loadHttpPort (env : Environ) : Loaded ℤ :=
  checkPort ((orNone (env.stripped "MILLPOND_HTTP_PORT")).getD "8000")

/-- `KAFKA_AUTO_OFFSET_RESET`. -/
inductive OffsetReset where
  | earliest
  | latest
deriving DecidableEq, Repr

/-- `_load_auto_offset_reset`. -/
def loadAutoOffsetReset (py : Python) (env : Environ) : Loaded OffsetReset :=
  let raw := py.lower (String.ofList (strip (env.getD "KAFKA_AUTO_OFFSET_RESET" "earliest").toList))
  if raw = "earliest" then .ok .earliest
  else if raw = "latest" then .ok .latest
  else .error (.autoOffsetReset raw)

/-! ## Filters -/

/-- The tokens as ints, if each of them is one. -/
def intTokens (tokens : List String) : Option (List ℤ) := tokens.mapM pyInt

/-- `_parse_filter_values`. -/
def parseFilterValues (raw : String) : Loaded Values :=
  if (commaTokens raw).isEmpty then .error .noFilterValues
  else
    match intTokens (commaTokens raw) with
    | some ns => .ok ⟨ns.map .int, by simp [Scalar.type]⟩
    | none => .ok ⟨(commaTokens raw).map .str, by simp [Scalar.type]⟩

/-- What `_load_filter_fields` returns. -/
structure FilterFields where
  keepField : Option String
  dropField : Option String
  values : Option Values
  dropValues : Option Values

/-- The field of a direction and the text of its values. -/
def checkFilterPair (field raw : Option String) (valuesVar fieldVar : String) : Loaded Unit :=
  if field.isSome = raw.isSome then .ok () else .error (.together valuesVar fieldVar)

def checkFilterField (field : Option String) : Loaded Unit :=
  match field with
  | none => .ok ()
  | some name => if matchesSafeIdentifier name then .ok () else .error (.unsafeField name)

/-- `_parse_filter_values(raw) if field else None`. -/
def filterValuesOf (field : Option String) (raw : String) : Loaded (Option Values) :=
  match field with
  | none => .ok none
  | some _ => (parseFilterValues raw).map some

/-- `_load_filter_fields`. -/
def loadFilterFields (env : Environ) : Loaded FilterFields := do
  let keep := orNone (env.stripped "MILLPOND_FILTER_KEEP_FIELD_NAME")
  let drop := orNone (env.stripped "MILLPOND_FILTER_DROP_FIELD_NAME")
  let valuesRaw := env.stripped "MILLPOND_FILTER_VALUES"
  let dropValuesRaw := env.stripped "MILLPOND_FILTER_DROP_VALUES"
  checkFilterPair keep (orNone valuesRaw) "MILLPOND_FILTER_VALUES" "MILLPOND_FILTER_KEEP_FIELD_NAME"
  checkFilterPair drop (orNone dropValuesRaw) "MILLPOND_FILTER_DROP_VALUES"
    "MILLPOND_FILTER_DROP_FIELD_NAME"
  checkFilterField keep
  checkFilterField drop
  let values ← filterValuesOf keep valuesRaw
  let dropValues ← filterValuesOf drop dropValuesRaw
  pure ⟨keep, drop, values, dropValues⟩

/-- `uuid_bytes` takes the value. -/
def isUuid : Scalar → Bool
  | .int _ => false
  | .str text => (uuidBytes text).isSome

/-- `_require_uuid_filter_values`. -/
def requireUuidFilterValues (typedColumns : Option (List (String × TypeName))) (field : Option String)
    (values : Option Values) (valuesVar : String) : Loaded Unit :=
  match typedColumns, field, values with
  | some typedColumns, some field, some values =>
      if targetType typedColumns field = some .uuid then
        match values.toList.find? (!isUuid ·) with
        | none => .ok ()
        | some value => .error (.notUuid valuesVar value field)
      else .ok ()
  | _, _, _ => .ok ()

/-! ## Columns -/

/-- The loop of `_parse_column_list`; `seen` are the names before. -/
def columnsLoop (setting : String) (seen : List String) : List String → Loaded (List String)
  | [] => .ok []
  | name :: rest =>
      if matchesSafeIdentifier name then
        if name ∈ seen then columnsLoop setting seen rest
        else (columnsLoop setting (name :: seen) rest).map (name :: ·)
      else .error (.unsafeColumn setting name)

/-- `tuple(items) or None`. -/
def orNoneList {α : Type} (items : List α) : Option (List α) :=
  if items.isEmpty then none else some items

/-- `_parse_column_list`. -/
def parseColumnList (env : Environ) (setting : String) : Loaded (Option (List String)) :=
  (columnsLoop setting [] (commaTokens (env.stripped setting))).map orNoneList

/-- `_load_sort_by`. -/
def loadSortBy (env : Environ) : Loaded (Option (List String)) := parseColumnList env "MILLPOND_SORT_BY"

/-- A key of `COERCIBLE_TYPES`. -/
def coercibleType (name : String) : Option TypeName :=
  [("timestamptz", TypeName.timestamptz), ("bigint", .bigint), ("double", .double),
    ("boolean", .boolean), ("varchar", .varchar), ("uuid", .uuid)].lookup name

/-- `token.partition(":")`, stripped and lowered, with its checks. -/
def typedPair (py : Python) (token : String) : Loaded (String × TypeName) :=
  let before := token.toList.takeWhile (· ≠ ':')
  let after := (token.toList.dropWhile (· ≠ ':')).drop 1
  let name := String.ofList (strip before)
  let typeName := py.lower (String.ofList (strip after))
  if ':' ∉ token.toList then .error (.typedEntry token)
  else if !matchesSafeIdentifier name then .error (.unsafeColumn "MILLPOND_TYPED_COLUMNS" name)
  else
    match coercibleType typeName with
    | none => .error (.typedType typeName name)
    | some type => .ok (name, type)

/-- The loop of `_load_typed_columns`. -/
def typedLoop (py : Python) (seen : List (String × TypeName)) :
    List String → Loaded (List (String × TypeName))
  | [] => .ok []
  | token :: rest =>
      match typedPair py token with
      | .error e => .error e
      | .ok (name, type) =>
          match seen.lookup name with
          | some first =>
              if first = type then typedLoop py seen rest else .error (.typedTwice name first type)
          | none => (typedLoop py ((name, type) :: seen) rest).map ((name, type) :: ·)

/-- `_load_typed_columns`. -/
def loadTypedColumns (py : Python) (env : Environ) : Loaded (Option (List (String × TypeName))) :=
  (typedLoop py [] (commaTokens (env.stripped "MILLPOND_TYPED_COLUMNS"))).map orNoneList

/-- `name.lower().endswith(VARIANT_COLUMN_SUFFIX)`. -/
def endsWithVariant (py : Python) (name : String) : Bool :=
  "_variant".toList.isSuffixOf (py.lower name).toList

/-- `_load_variant_columns`. -/
def loadVariantColumns (py : Python) (env : Environ) : Loaded (Option (List String)) := do
  let columns ← parseColumnList env "MILLPOND_VARIANT_COLUMNS"
  match (columns.getD []).find? (endsWithVariant py) with
  | none => pure columns
  | some name => throw (.variantSuffix name)

/-! ## Include values -/

/-- The dict `_load_include_values_config` returns. -/
structure IncludeFields where
  url : Option String
  mode : Mode
  pollIntervalS : PyFloat
  removalPolls : ℤ
  requestTimeoutS : PyFloat
  startupTimeoutS : PyFloat
  authHeaderName : Option String
  authToken : Option String

/-- Without a dynamic source. -/
def staticInclude : IncludeFields where
  url := none
  mode := .static
  pollIntervalS := .finite 60
  removalPolls := 5
  requestTimeoutS := .finite 10
  startupTimeoutS := .finite 60
  authHeaderName := none
  authToken := none

/-- `_parse_number` with one of its casts. -/
def parseNumber {α : Type} (cast_ : String → Option α) (env : Environ) (name default_ : String) :
    Loaded α :=
  match cast_ (env.getD name default_) with
  | none => .error (.notNumber name (env.getD name default_))
  | some x => .ok x

/-- `MILLPOND_INCLUDE_VALUES_MODE` when there is a URL. -/
def includeMode (mode : String) : Loaded Mode :=
  if mode = "shadow" then .ok .shadow
  else if mode = "authoritative" then .ok .authoritative
  else .error (.includeMode mode)

/-- Raise unless the condition holds. -/
def ensure (condition : Bool) (error : LoadError) : Loaded Unit :=
  if condition then .ok () else .error error

/-- The branch of `_load_include_values_config` without a URL. -/
def includeWithoutUrl (modeRaw : String) (headerName token : Option String) : Loaded IncludeFields := do
  ensure (modeRaw = "") (.requires "MILLPOND_INCLUDE_VALUES_MODE" "MILLPOND_INCLUDE_VALUES_URL")
  ensure (headerName.isNone && token.isNone)
    (.requires "MILLPOND_INCLUDE_VALUES_AUTH_*" "MILLPOND_INCLUDE_VALUES_URL")
  pure staticInclude

/-- The numbers of `_load_include_values_config`. -/
def includeNumbers (py : Python) (env : Environ) (url : String) (mode : Mode)
    (headerName token : Option String) : Loaded IncludeFields := do
  let pollInterval ← parseNumber py.float env "MILLPOND_INCLUDE_VALUES_POLL_INTERVAL_S" "60"
  let removalPolls ← parseNumber pyInt env "MILLPOND_INCLUDE_VALUES_REMOVAL_POLLS" "5"
  let requestTimeout ← parseNumber py.float env "MILLPOND_INCLUDE_VALUES_REQUEST_TIMEOUT_S" "10"
  let startupTimeout ← parseNumber py.float env "MILLPOND_INCLUDE_VALUES_STARTUP_TIMEOUT_S" "60"
  ensure (!pollInterval.atMost 0) (.notPositive "MILLPOND_INCLUDE_VALUES_POLL_INTERVAL_S" "")
  ensure (1 ≤ removalPolls) (.notPositive "MILLPOND_INCLUDE_VALUES_REMOVAL_POLLS" "")
  ensure (!requestTimeout.atMost 0 && !startupTimeout.atMost 0)
    (.notPositive "MILLPOND_INCLUDE_VALUES_*_TIMEOUT_S" "")
  pure ⟨some url, mode, pollInterval, removalPolls, requestTimeout, startupTimeout, headerName, token⟩

/-- `_load_include_values_config`. -/
def loadIncludeValuesConfig (py : Python) (env : Environ) (keepField : Option String)
    (values : Option Values) : Loaded IncludeFields := do
  let url := orNone (env.stripped "MILLPOND_INCLUDE_VALUES_URL")
  let modeRaw := py.lower (env.stripped "MILLPOND_INCLUDE_VALUES_MODE")
  let headerName := orNone (env.stripped "MILLPOND_INCLUDE_VALUES_AUTH_HEADER_NAME")
  let token := orNone (env.stripped "MILLPOND_INCLUDE_VALUES_AUTH_TOKEN")
  match url with
  | none => includeWithoutUrl modeRaw headerName token
  | some url =>
      let mode ← includeMode (if modeRaw = "" then "shadow" else modeRaw)
      ensure keepField.isSome
        (.requires "MILLPOND_INCLUDE_VALUES_URL" "MILLPOND_FILTER_KEEP_FIELD_NAME")
      ensure (mode ≠ .shadow || values.isSome)
        (.requires "MILLPOND_INCLUDE_VALUES_MODE=shadow" "MILLPOND_FILTER_VALUES")
      ensure (headerName.isSome = token.isSome)
        (.together "MILLPOND_INCLUDE_VALUES_AUTH_HEADER_NAME" "MILLPOND_INCLUDE_VALUES_AUTH_TOKEN")
      includeNumbers py env url mode headerName token

end Millpond.Config
