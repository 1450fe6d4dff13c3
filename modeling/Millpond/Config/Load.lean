import Millpond.Config.LivenessBudget
import Millpond.Config.Settings

set_option autoImplicit false
set_option linter.dupNamespace false

/-! # config.load

The environment becomes one frozen `Config`: the settings both destinations share, and the group of
the destination the pod writes to. The group of the other one is all `None`. -/

namespace Millpond.Config

open Millpond.Maintenance (isSpace pyInt)
open Millpond.Hoglake (matchesSafeIdentifier)
open Millpond.IncludeValues (Values)
open Millpond.ArrowConverter (TypeName)

/-- Which backend this pod writes to. -/
inductive Destination where
  | ducklake
  | hoglake
deriving DecidableEq, Repr

def Destination.name : Destination → String
  | .ducklake => "ducklake"
  | .hoglake => "hoglake"

/-! ## DuckLake -/

/-- The DuckLake group; `None` throughout when the destination is another. -/
structure DucklakeFields where
  schema : Option String
  table : Option String
  dataPath : Option String
  connection : Option String
  rdsHost : Option String
  rdsPort : Option String
  rdsDatabase : Option String
  rdsUsername : Option String
  rdsPassword : Option String
  partitionBy : Option String
  maxRetryCount : Option ℤ
  retryWaitMs : Option ℤ
  retryBackoff : Option PyFloat
  memoryLimit : Option String

/-- `_NONE_DUCKLAKE_FIELDS`. -/
def noneDucklakeFields : DucklakeFields where
  schema := none
  table := none
  dataPath := none
  connection := none
  rdsHost := none
  rdsPort := none
  rdsDatabase := none
  rdsUsername := none
  rdsPassword := none
  partitionBy := none
  maxRetryCount := none
  retryWaitMs := none
  retryBackoff := none
  memoryLimit := none

/-- `_DUCKLAKE_OUTER_ATTEMPTS`. -/
def ducklakeOuterAttempts : ℕ := 3

/-- `sum(min(_BACKOFF_BASE_S * (2**attempt), _BACKOFF_CAP_S) for attempt in range(n))`. -/
def ladder (n : ℕ) : ℚ := ((List.range n).map backoffStep).sum

/-- `_ducklake_worst_case_flush_s` under a finite backoff. -/
def ducklakeWorstCaseFlushS (maxRetries : ℕ) (waitMs backoff : ℚ) : ℚ :=
  let inner := ((List.range maxRetries).map fun n => waitMs / 1000 * backoff ^ n).sum
  ducklakeOuterAttempts * inner + ladder (ducklakeOuterAttempts - 1) * (1 + backoffJitter)

/-- `_ducklake_worst_case_flush_s`. An infinite backoff raised to 0 is 1. -/
def ducklakeWorstCase (maxRetries : ℕ) (waitMs : ℚ) : PyFloat → PyFloat
  | .finite backoff => .finite (ducklakeWorstCaseFlushS maxRetries waitMs backoff)
  | .inf negative =>
      if maxRetries ≤ 1 then .finite (ducklakeWorstCaseFlushS maxRetries waitMs 1) else .inf negative
  | .nan => if maxRetries ≤ 1 then .finite (ducklakeWorstCaseFlushS maxRetries waitMs 1) else .nan

/-- `_check_ducklake_liveness_budget`. -/
def checkDucklakeLivenessBudget (maxRetries waitMs : ℤ) (backoff : PyFloat) : Loaded Unit :=
  ensure ((ducklakeWorstCase maxRetries.toNat waitMs backoff).atMost livenessBudgetS)
    (.ducklakeBudget maxRetries waitMs backoff)

/-- `_SAFE_TABLE_NAME.match(value)`, which is `SAFE_IDENTIFIER` again. -/
def checkTableName (name value : String) : Loaded Unit :=
  ensure (matchesSafeIdentifier value) (.unsafeName name value)

/-- `float(os.environ.get("DUCKLAKE_RETRY_BACKOFF", "1.0"))`. -/
def loadBackoff (py : Python) (env : Environ) : Loaded PyFloat :=
  match py.float (env.getD "DUCKLAKE_RETRY_BACKOFF" "1.0") with
  | none => .error (.valueError (env.getD "DUCKLAKE_RETRY_BACKOFF" "1.0"))
  | some x => if x.atLeast 1 then .ok x else .error (.backoff x)

/-- `int(os.environ.get(name, default))`, refused unless positive. -/
def positiveIntOr (env : Environ) (name default_ : String) : Loaded ℤ := do
  let n ← intOr env name default_
  ensure (0 < n) (.notPositive name (toString n))
  pure n

/-- `_load_ducklake_fields`. -/
def loadDucklakeFields (py : Python) (env : Environ) : Loaded DucklakeFields := do
  let table ← require env "DUCKLAKE_TABLE"
  checkTableName "DUCKLAKE_TABLE" table
  let schema := (orNone (env.stripped "DUCKLAKE_SCHEMA")).getD "main"
  checkTableName "DUCKLAKE_SCHEMA" schema
  let partitionBy := orNone (env.stripped "DUCKLAKE_PARTITION_BY")
  ensure (partitionBy.all matchesPartitionExpr)
    (.unsafeName "DUCKLAKE_PARTITION_BY" (partitionBy.getD ""))
  let maxRetryCount ← positiveIntOr env "DUCKLAKE_MAX_RETRY_COUNT" "100"
  let retryWaitMs ← positiveIntOr env "DUCKLAKE_RETRY_WAIT_MS" "250"
  let retryBackoff ← loadBackoff py env
  checkDucklakeLivenessBudget maxRetryCount retryWaitMs retryBackoff
  let dataPath ← require env "DUCKLAKE_DATA_PATH"
  let connection ← require env "DUCKLAKE_CONNECTION"
  let rdsHost ← require env "DUCKLAKE_RDS_HOST"
  let rdsPassword ← require env "DUCKLAKE_RDS_PASSWORD"
  pure
    { schema := some schema
      table := some table
      dataPath := some dataPath
      connection := some connection
      rdsHost := some rdsHost
      rdsPort := some (env.getD "DUCKLAKE_RDS_PORT" "5432")
      rdsDatabase := some (env.getD "DUCKLAKE_RDS_DATABASE" "ducklake")
      rdsUsername := some (env.getD "DUCKLAKE_RDS_USERNAME" "ducklake")
      rdsPassword := some rdsPassword
      partitionBy := partitionBy
      maxRetryCount := some maxRetryCount
      retryWaitMs := some retryWaitMs
      retryBackoff := some retryBackoff
      memoryLimit := orNone (env.getD "DUCKDB_MEMORY_LIMIT" "") }

/-! ## Hoglake -/

/-- The hoglake group; `None` throughout when the destination is another. -/
structure HoglakeFields where
  url : Option String
  catalog : Option String
  namespace_ : Option String
  table : Option String
  dataPath : Option String
  s3Endpoint : Option String
  s3AccessKey : Option String
  s3SecretKey : Option String
  s3Region : Option String
  partitionBy : Option (List PartitionTriple)
  maxRetryCount : Option ℤ
  requestTimeoutS : Option PyFloat
  compression : Option String
  compressionLevel : Option ℤ
  deferredStats : Option Bool

/-- `_NONE_HOGLAKE_FIELDS`. -/
def noneHoglakeFields : HoglakeFields where
  url := none
  catalog := none
  namespace_ := none
  table := none
  dataPath := none
  s3Endpoint := none
  s3AccessKey := none
  s3SecretKey := none
  s3Region := none
  partitionBy := none
  maxRetryCount := none
  requestTimeoutS := none
  compression := none
  compressionLevel := none
  deferredStats := none

/-- `_check_hoglake_liveness_budget`. The worst case grows with the timeout. -/
def checkHoglakeLivenessBudget (maxRetries : ℤ) (timeoutS : PyFloat) : Loaded Unit :=
  ensure ((timeoutS.map (hoglakeWorstCaseFlushS maxRetries.toNat)).atMost livenessBudgetS)
    (.hoglakeBudget maxRetries timeoutS)

/-- `_check_upload_concurrency`. -/
def checkUploadConcurrency (env : Environ) : Loaded Unit :=
  let raw := env.stripped "PYHOGLAKE_UPLOAD_CONCURRENCY"
  ensure (raw = "" || (pyInt raw).any (1 ≤ ·)) (.uploadConcurrency raw)

/-- The level of `_hoglake_compression`. -/
def compressionLevelOf (env : Environ) (codec : String) : Loaded (Option ℤ) :=
  let raw := env.stripped "HOGLAKE_COMPRESSION_LEVEL"
  if raw = "" then .ok (if codec = "zstd" then some 3 else none)
  else
    match pyInt raw with
    | none => .error (.compressionLevel raw)
    | some level => .ok (some level)

/-- `_hoglake_compression`. -/
def hoglakeCompression (py : Python) (env : Environ) : Loaded (String × Option ℤ) := do
  let codec := (orNone (py.lower (env.stripped "HOGLAKE_COMPRESSION"))).getD "zstd"
  let level ← compressionLevelOf env codec
  match py.parquetWriteOptions codec level with
  | none => pure (codec, level)
  | some message => throw (.compression codec level message)

/-- `_hoglake_deferred_stats`. -/
def hoglakeDeferredStats (py : Python) (env : Environ) : Loaded Bool := do
  let raw := env.stripped "HOGLAKE_DEFERRED_STATS"
  ensure (raw = "" || py.lower raw = "true" || py.lower raw = "false") (.deferredStats raw)
  ensure py.takesDeferredStats .oldClient
  pure (raw = "" || py.lower raw = "true")

/-- `_hoglake_data_path`. -/
def hoglakeDataPath (env : Environ) : Loaded (Option String) := do
  let raw := env.stripped "HOGLAKE_DATA_PATH"
  ensure (raw = "" || matchesS3Uri raw) (.dataPath raw)
  pure (orNone raw)

/-- `_hoglake_s3_keys`. -/
def hoglakeS3Keys (env : Environ) : Loaded (Option String × Option String) := do
  let accessKey := orNone (env.stripped "HOGLAKE_S3_ACCESS_KEY")
  let secretKey := orNone (env.stripped "HOGLAKE_S3_SECRET_KEY")
  ensure (accessKey.isSome = secretKey.isSome)
    (.s3Keys (if accessKey.isNone then "HOGLAKE_S3_ACCESS_KEY" else "HOGLAKE_S3_SECRET_KEY"))
  pure (accessKey, secretKey)

/-- `_parse_hoglake_partition_by(partition_raw) if partition_raw else None`. -/
def hoglakePartitionBy (raw : String) : Loaded (Option (List PartitionTriple)) :=
  if raw = "" then .ok none
  else
    match parseHoglakePartitionBy raw with
    | .error e => .error (.partitionBy e)
    | .ok fields => .ok (some fields)

/-- The catalog, the namespace and the table, each a name the server takes. -/
def hoglakeNames (env : Environ) : Loaded (String × String × String) := do
  let catalog ← require env "HOGLAKE_CATALOG"
  ensure (matchesHoglakeCatalogName catalog) (.unsafeName "HOGLAKE_CATALOG" catalog)
  let namespace_ ← require env "HOGLAKE_NAMESPACE"
  ensure (matchesHoglakeIdentifier namespace_) (.unsafeName "HOGLAKE_NAMESPACE" namespace_)
  let table ← require env "HOGLAKE_TABLE"
  ensure (matchesHoglakeIdentifier table) (.unsafeName "HOGLAKE_TABLE" table)
  pure (catalog, namespace_, table)

/-- `_load_hoglake_fields`. -/
def loadHoglakeFields (py : Python) (env : Environ) : Loaded HoglakeFields := do
  let (catalog, namespace_, table) ← hoglakeNames env
  let maxRetries ← positiveInt env "HOGLAKE_MAX_RETRY_COUNT" 6
  let timeoutS ← positiveFloat py env "HOGLAKE_REQUEST_TIMEOUT_S" 45
  checkHoglakeLivenessBudget maxRetries timeoutS
  checkUploadConcurrency env
  let partitionRaw := env.stripped "HOGLAKE_PARTITION_BY"
  ensure (partitionRaw ≠ "" || env.stripped "DUCKLAKE_PARTITION_BY" = "") .partitionByOfOther
  let (s3AccessKey, s3SecretKey) ← hoglakeS3Keys env
  let (compression, compressionLevel) ← hoglakeCompression py env
  let deferredStats ← hoglakeDeferredStats py env
  let url ← require env "HOGLAKE_URL"
  let dataPath ← hoglakeDataPath env
  let partitionBy ← hoglakePartitionBy partitionRaw
  pure
    { url := some url
      catalog := some catalog
      namespace_ := some namespace_
      table := some table
      dataPath := dataPath
      s3Endpoint := orNone (env.stripped "HOGLAKE_S3_ENDPOINT")
      s3AccessKey := s3AccessKey
      s3SecretKey := s3SecretKey
      s3Region := orNone (env.stripped "HOGLAKE_S3_REGION")
      partitionBy := partitionBy
      maxRetryCount := some maxRetries
      requestTimeoutS := some timeoutS
      compression := some compression
      compressionLevel := compressionLevel
      deferredStats := some deferredStats }

/-! ## The whole -/

/-- `_default_group_id`. -/
def defaultGroupId (destination : Destination) (topic destTable : String) : String :=
  match destination with
  | .ducklake => "millpond-" ++ topic ++ "-" ++ destTable
  | .hoglake => "millpond-" ++ destination.name ++ "-" ++ topic ++ "-" ++ destTable

/-- `_KAFKA_CONSUMER_PREFIX`. -/
def kafkaConsumerPrefix : List Char := "KAFKA_CONSUMER_".toList

/-- A `KAFKA_CONSUMER_*` variable as a librdkafka setting. -/
def kafkaOverride (py : Python) (item : String × String) : Option (String × String) :=
  if kafkaConsumerPrefix.isPrefixOf item.1.toList then
    let key := py.lower (String.ofList (item.1.toList.drop kafkaConsumerPrefix.length))
    some (key.map fun c => if c = '_' then '.' else c, item.2)
  else none

def kafkaOverrides (py : Python) (env : Environ) : List (String × String) :=
  env.items.filterMap (kafkaOverride py)

/-- `Config`. -/
structure Config where
  destination : Destination
  bootstrapServers : String
  topic : String
  groupId : String
  replicaCount : ℤ
  ordinal : ℕ
  ducklake : DucklakeFields
  hoglake : HoglakeFields
  flushSize : ℤ
  flushIntervalMs : ℤ
  fetchMinBytes : ℤ
  fetchMaxWaitMs : ℤ
  consumeBatchSize : ℤ
  statsIntervalMs : ℤ
  autoOffsetReset : OffsetReset
  brokerSource : String
  httpPort : ℤ
  filter : FilterFields
  includeValues : IncludeFields
  sortBy : Option (List String)
  typedColumns : Option (List (String × TypeName))
  variantColumns : Option (List String)
  kafkaConfigOverrides : List (String × String)
  posthogProjectToken : Option String
  posthogLogsEndpoint : String
  serviceNamespace : String
  serviceInstanceId : Option String
  serviceVersion : String

/-- `Config.table_label`. -/
def Config.tableLabel (cfg : Config) : String :=
  match cfg.destination with
  | .hoglake => (cfg.hoglake.table.bind orNone).getD "unknown"
  | .ducklake => (cfg.ducklake.table.bind orNone).getD "unknown"

/-- `MILLPOND_DESTINATION`. -/
def loadDestination (py : Python) (env : Environ) : Loaded Destination :=
  let name := (orNone (py.lower (env.stripped "MILLPOND_DESTINATION"))).getD "ducklake"
  if name = "ducklake" then .ok .ducklake
  else if name = "hoglake" then .ok .hoglake
  else .error (.destination name)

/-- `os.environ.get("POD_NAME") or os.environ.get("HOSTNAME", "millpond-0")`. -/
def podName (env : Environ) : String :=
  (orNone (env.getD "POD_NAME" "")).getD (env.getD "HOSTNAME" "millpond-0")

/-- The ordinal and the replica count. -/
def loadReplica (env : Environ) : Loaded (ℕ × ℤ) := do
  let ordinal ← parseOrdinal (podName env)
  let text ← require env "REPLICA_COUNT"
  match pyInt text with
  | none => throw (.valueError text)
  | some replicaCount =>
      if replicaCount ≤ ordinal then throw (.ordinal ordinal replicaCount)
      else pure (ordinal, replicaCount)

/-- The two destination groups and the destination's table. -/
def loadDestinationFields (py : Python) (env : Environ) (destination : Destination) :
    Loaded (DucklakeFields × HoglakeFields × String) :=
  match destination with
  | .hoglake => do
      let fields ← loadHoglakeFields py env
      pure (noneDucklakeFields, fields, fields.table.getD "")
  | .ducklake => do
      let fields ← loadDucklakeFields py env
      pure (fields, noneHoglakeFields, fields.table.getD "")

/-- `_load_variant_columns` and the refusal of its setting on hoglake. -/
def loadVariantColumnsFor (py : Python) (env : Environ) (destination : Destination) :
    Loaded (Option (List String)) := do
  let variantColumns ← loadVariantColumns py env
  ensure (destination ≠ .hoglake || variantColumns.isNone) .variantOnHoglake
  pure variantColumns

/-- The numbers of the flush triggers and of the consumer. -/
structure Tuning where
  flushSize : ℤ
  flushIntervalMs : ℤ
  fetchMinBytes : ℤ
  fetchMaxWaitMs : ℤ
  consumeBatchSize : ℤ
  statsIntervalMs : ℤ

def loadTuning (env : Environ) : Loaded Tuning := do
  let flushSize ← intOr env "FLUSH_SIZE" "104857600"
  let flushIntervalMs ← intOr env "FLUSH_INTERVAL_MS" "60000"
  let fetchMinBytes ← intOr env "FETCH_MIN_BYTES" "1048576"
  let fetchMaxWaitMs ← intOr env "FETCH_MAX_WAIT_MS" "500"
  let consumeBatchSize ← intOr env "CONSUME_BATCH_SIZE" "1000"
  let statsIntervalMs ← intOr env "STATS_INTERVAL_MS" "5000"
  pure ⟨flushSize, flushIntervalMs, fetchMinBytes, fetchMaxWaitMs, consumeBatchSize, statsIntervalMs⟩

/-- `load`. -/
def load (py : Python) (env : Environ) : Loaded Config := do
  let topic ← require env "KAFKA_TOPIC"
  let destination ← loadDestination py env
  let (ordinal, replicaCount) ← loadReplica env
  let (ducklake, hoglake, destTable) ← loadDestinationFields py env destination
  let groupId := (orNone (env.getD "GROUP_ID" "")).getD (defaultGroupId destination topic destTable)
  let overrides := kafkaOverrides py env
  ensure (overrides.all (·.1 ≠ "auto.offset.reset")) .overrideNotHonored
  let filter ← loadFilterFields env
  let sortBy ← loadSortBy env
  let typedColumns ← loadTypedColumns py env
  requireUuidFilterValues typedColumns filter.keepField filter.values "MILLPOND_FILTER_VALUES"
  requireUuidFilterValues typedColumns filter.dropField filter.dropValues "MILLPOND_FILTER_DROP_VALUES"
  let variantColumns ← loadVariantColumnsFor py env destination
  let bootstrapServers ← require env "KAFKA_BOOTSTRAP_SERVERS"
  let tuning ← loadTuning env
  let autoOffsetReset ← loadAutoOffsetReset py env
  let httpPort ← loadHttpPort env
  let includeValues ← loadIncludeValuesConfig py env filter.keepField filter.values
  pure
    { destination := destination
      bootstrapServers := bootstrapServers
      topic := topic
      groupId := groupId
      replicaCount := replicaCount
      ordinal := ordinal
      ducklake := ducklake
      hoglake := hoglake
      flushSize := tuning.flushSize
      flushIntervalMs := tuning.flushIntervalMs
      fetchMinBytes := tuning.fetchMinBytes
      fetchMaxWaitMs := tuning.fetchMaxWaitMs
      consumeBatchSize := tuning.consumeBatchSize
      statsIntervalMs := tuning.statsIntervalMs
      autoOffsetReset := autoOffsetReset
      brokerSource := py.lower (env.stripped "BROKER_SOURCE")
      httpPort := httpPort
      filter := filter
      includeValues := includeValues
      sortBy := sortBy
      typedColumns := typedColumns
      variantColumns := variantColumns
      kafkaConfigOverrides := overrides
      posthogProjectToken := orNone (env.getD "POSTHOG_PROJECT_TOKEN" "")
      posthogLogsEndpoint := env.getD "POSTHOG_LOGS_ENDPOINT" "https://us.i.posthog.com/i/v1/logs"
      serviceNamespace := env.getD "MILLPOND_SERVICE_NAMESPACE" "millpond"
      serviceInstanceId := orNone (env.getD "MILLPOND_SERVICE_INSTANCE_ID" "")
      serviceVersion := env.getD "MILLPOND_SERVICE_VERSION" py.serviceVersion }

end Millpond.Config
