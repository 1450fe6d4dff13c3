import Millpond.Config.Load
import Millpond.Config.PartitionByGrammar

set_option autoImplicit false

/-! # What load accepts

The rest of the process reads the `Config` without a check of its own. What it may rely on is one
predicate, and `load` returns no configuration without it. -/

namespace Millpond.Config

open Millpond.Maintenance (isSpace pyInt)
open Millpond.Hoglake (matchesSafeIdentifier)
open Millpond.IncludeValues (Scalar Values Mode)
open Millpond.ArrowConverter (TypeName targetType)

/-! ## The property -/

/-- A list of column names that generated SQL may name, each once. -/
structure SafeColumns (columns : List String) : Prop where
  nonempty : columns ≠ []
  safe : ∀ column ∈ columns, matchesSafeIdentifier column = true
  distinct : columns.Nodup

/-- Each direction has a safe field and values, or neither. -/
structure FilterFields.Paired (filter : FilterFields) : Prop where
  keep : filter.keepField.isSome = filter.values.isSome
  drop : filter.dropField.isSome = filter.dropValues.isSome
  safe : ∀ field, filter.keepField = some field ∨ filter.dropField = some field →
    matchesSafeIdentifier field = true
  nonempty : ∀ values, filter.values = some values ∨ filter.dropValues = some values →
    values.toList ≠ []

/-- The values of a field pinned to `uuid` are UUIDs. -/
def UuidValues (typedColumns : Option (List (String × TypeName))) (field : Option String)
    (values : Option Values) : Prop :=
  ∀ columns ∈ typedColumns, ∀ name ∈ field, targetType columns name = some .uuid →
    ∀ vs ∈ values, ∀ v ∈ vs.toList, isUuid v = true

/-- The include-values group: static without a URL, and with one a mode that the filter can serve. -/
structure IncludeFields.Ready (fields : IncludeFields) (filter : FilterFields) : Prop where
  static : fields.url = none → fields = staticInclude
  dynamic : fields.url.isSome = true → fields.mode ≠ .static ∧ filter.keepField.isSome = true
  shadow : fields.mode = .shadow → filter.values.isSome = true
  auth : fields.authHeaderName.isSome = fields.authToken.isSome
  removalPolls : 0 < fields.removalPolls
  positive : fields.pollIntervalS.atMost 0 = false ∧ fields.requestTimeoutS.atMost 0 = false ∧
    fields.startupTimeoutS.atMost 0 = false

/-- The DuckLake group of a pod that writes to DuckLake. -/
structure DucklakeFields.Ready (fields : DucklakeFields) : Prop where
  names : ∀ name, fields.schema = some name ∨ fields.table = some name →
    matchesSafeIdentifier name = true
  present : ∀ field ∈ [fields.schema, fields.table, fields.dataPath, fields.connection, fields.rdsHost,
    fields.rdsPort, fields.rdsDatabase, fields.rdsUsername, fields.rdsPassword], field.isSome = true
  partitionBy : ∀ text ∈ fields.partitionBy, matchesPartitionExpr text = true
  budget : ∃ (maxRetries waitMs : ℕ) (backoff : PyFloat), fields.maxRetryCount = some (maxRetries : ℤ) ∧
    fields.retryWaitMs = some (waitMs : ℤ) ∧ fields.retryBackoff = some backoff ∧ 0 < maxRetries ∧
    0 < waitMs ∧ backoff.atLeast 1 = true ∧
    (ducklakeWorstCase maxRetries waitMs backoff).atMost livenessBudgetS = true

/-- The hoglake group of a pod that writes to hoglake. -/
structure HoglakeFields.Ready (py : Python) (fields : HoglakeFields) : Prop where
  catalog : ∃ name, fields.catalog = some name ∧ matchesHoglakeCatalogName name = true
  names : ∃ namespace_ table, fields.namespace_ = some namespace_ ∧ fields.table = some table ∧
    matchesHoglakeIdentifier namespace_ = true ∧ matchesHoglakeIdentifier table = true
  url : ∃ url, fields.url = some url ∧ url ≠ ""
  dataPath : ∀ path ∈ fields.dataPath, matchesS3Uri path = true
  keys : fields.s3AccessKey.isSome = fields.s3SecretKey.isSome
  retry : ∃ retry : HoglakeRetry, fields.maxRetryCount = some (retry.maxRetries : ℤ) ∧
    fields.requestTimeoutS = some (.finite retry.timeoutS)
  compression : ∃ codec, fields.compression = some codec ∧
    py.parquetWriteOptions codec fields.compressionLevel = none
  deferredStats : fields.deferredStats.isSome = true ∧ py.takesDeferredStats = true
  partitionBy : ∀ triples ∈ fields.partitionBy, triples ≠ [] ∧ triples.Nodup ∧
    ∀ t ∈ triples, matchesSafeIdentifier t.1 = true ∧ t.2.1 ∈ hoglakeTransforms ∧
      (t.2.1 = "bucket" ↔ t.2.2.isSome = true) ∧ ∀ n ∈ t.2.2, 0 < n

/-- What the process may rely on. -/
structure Accepted (py : Python) (cfg : Config) : Prop where
  kafka : cfg.topic ≠ "" ∧ cfg.bootstrapServers ≠ "" ∧ cfg.groupId ≠ ""
  ordinal : (cfg.ordinal : ℤ) < cfg.replicaCount
  ducklake : cfg.destination = .ducklake → cfg.ducklake.Ready ∧ cfg.hoglake = noneHoglakeFields
  hoglake : cfg.destination = .hoglake → cfg.hoglake.Ready py ∧ cfg.ducklake = noneDucklakeFields ∧
    cfg.variantColumns = none
  filter : cfg.filter.Paired
  uuids : UuidValues cfg.typedColumns cfg.filter.keepField cfg.filter.values ∧
    UuidValues cfg.typedColumns cfg.filter.dropField cfg.filter.dropValues
  includeValues : cfg.includeValues.Ready cfg.filter
  sortBy : ∀ columns ∈ cfg.sortBy, SafeColumns columns
  typedColumns : ∀ columns ∈ cfg.typedColumns, SafeColumns (columns.map Prod.fst)
  variantColumns : ∀ columns ∈ cfg.variantColumns, SafeColumns columns ∧
    ∀ column ∈ columns, endsWithVariant py column = false
  overrides : ∀ entry ∈ cfg.kafkaConfigOverrides, entry.1 ≠ "auto.offset.reset"
  httpPort : 0 ≤ cfg.httpPort ∧ cfg.httpPort ≤ 65535

/-! ## Readers -/

theorem ensure_eq_ok {condition : Bool} {error : LoadError} {u : Unit} :
    ensure condition error = .ok u ↔ condition = true := by
  unfold ensure
  split <;> simp [*]

theorem require_eq_ok {env : Environ} {name value : String} (h : require env name = .ok value) :
    env.get? name = some value ∧ value ≠ "" := by
  unfold require at h
  cases hget : env.get? name with
  | none => simp [hget] at h
  | some text =>
      simp only [hget] at h
      split_ifs at h with hempty
      obtain rfl := Except.ok.inj h
      exact ⟨rfl, hempty⟩

theorem orNone_eq_some {text value : String} (h : orNone text = some value) : text = value ∧ value ≠ "" := by
  unfold orNone at h
  split_ifs at h with hempty
  obtain rfl := Option.some.inj h
  exact ⟨rfl, hempty⟩

theorem checkPort_ok {raw : String} {port : ℤ} (h : checkPort raw = .ok port) :
    0 ≤ port ∧ port ≤ 65535 := by
  unfold checkPort at h
  cases hint : pyInt raw with
  | none => simp [hint] at h
  | some n =>
      simp only [hint] at h
      split_ifs at h with hrange
      obtain rfl := Except.ok.inj h
      exact hrange

theorem loadReplica_ok {env : Environ} {ordinal : ℕ} {replicaCount : ℤ}
    (h : loadReplica env = .ok (ordinal, replicaCount)) : (ordinal : ℤ) < replicaCount := by
  obtain ⟨o, -, h⟩ := bind_eq_ok.1 h
  obtain ⟨text, -, h⟩ := bind_eq_ok.1 h
  cases hint : pyInt text with
  | none =>
      rw [hint] at h
      cases h
  | some n =>
      simp only [hint] at h
      split_ifs at h with hle
      obtain ⟨rfl, rfl⟩ := Prod.mk.inj (Except.ok.inj h)
      exact not_le.1 hle

/-! ## Columns -/

theorem columnsLoop_ok {setting : String} {names : List String} :
    ∀ {seen columns : List String}, columnsLoop setting seen names = .ok columns →
      (∀ c ∈ columns, matchesSafeIdentifier c = true ∧ c ∉ seen) ∧ columns.Nodup := by
  induction names with
  | nil =>
      intro seen columns h
      obtain rfl := Except.ok.inj h
      simp
  | cons name rest ih =>
      intro seen columns h
      unfold columnsLoop at h
      split_ifs at h with hsafe hseen
      · exact ih h
      · obtain ⟨others, hothers, rfl⟩ := map_eq_ok.1 h
        obtain ⟨hall, hnodup⟩ := ih hothers
        refine ⟨fun c hc => ?_, List.nodup_cons.2 ⟨fun hmem => ?_, hnodup⟩⟩
        · rcases List.mem_cons.1 hc with rfl | hc
          · exact ⟨hsafe, hseen⟩
          · exact ⟨(hall c hc).1, fun hmem => (hall c hc).2 (List.mem_cons_of_mem _ hmem)⟩
        · exact (hall name hmem).2 List.mem_cons_self

theorem orNoneList_eq_some {α : Type} {items items' : List α} (h : orNoneList items = some items') :
    items = items' ∧ items' ≠ [] := by
  unfold orNoneList at h
  split_ifs at h with hempty
  obtain rfl := Option.some.inj h
  exact ⟨rfl, by simpa using hempty⟩

theorem parseColumnList_ok {env : Environ} {setting : String} {result : Option (List String)}
    (h : parseColumnList env setting = .ok result) : ∀ columns ∈ result, SafeColumns columns := by
  obtain ⟨loaded, hloop, rfl⟩ := map_eq_ok.1 h
  intro columns hcolumns
  obtain ⟨rfl, hne⟩ := orNoneList_eq_some hcolumns
  obtain ⟨hall, hnodup⟩ := columnsLoop_ok hloop
  exact ⟨hne, fun c hc => (hall c hc).1, hnodup⟩

theorem typedPair_ok {py : Python} {token : String} {pair : String × TypeName}
    (h : typedPair py token = .ok pair) : matchesSafeIdentifier pair.1 = true := by
  unfold typedPair at h
  simp only at h
  split_ifs at h with hcolon hsafe
  split at h
  · cases h
  · obtain rfl := Except.ok.inj h
    simpa using hsafe

theorem lookup_isNone_iff {seen : List (String × TypeName)} {name : String} :
    seen.lookup name = none ↔ name ∉ seen.map Prod.fst := by
  rw [List.lookup_eq_none_iff]
  constructor
  · intro h hmem
    obtain ⟨entry, hentry, rfl⟩ := List.mem_map.1 hmem
    simpa using h entry hentry
  · intro h entry hentry
    have hne : name ≠ entry.1 := fun heq => h (heq ▸ List.mem_map_of_mem hentry)
    simpa using hne

theorem typedLoop_ok {py : Python} {tokens : List String} :
    ∀ {seen columns : List (String × TypeName)}, typedLoop py seen tokens = .ok columns →
      (∀ c ∈ columns, matchesSafeIdentifier c.1 = true ∧ c.1 ∉ seen.map Prod.fst) ∧
        (columns.map Prod.fst).Nodup := by
  induction tokens with
  | nil =>
      intro seen columns h
      obtain rfl := Except.ok.inj h
      simp
  | cons token rest ih =>
      intro seen columns h
      unfold typedLoop at h
      cases hpair : typedPair py token with
      | error e => simp [hpair] at h
      | ok pair =>
          obtain ⟨name, type⟩ := pair
          simp only [hpair] at h
          cases hseen : seen.lookup name with
          | some first =>
              simp only [hseen] at h
              split_ifs at h
              exact ih h
          | none =>
              simp only [hseen] at h
              obtain ⟨others, hothers, rfl⟩ := map_eq_ok.1 h
              obtain ⟨hall, hnodup⟩ := ih hothers
              refine ⟨fun c hc => ?_, ?_⟩
              · rcases List.mem_cons.1 hc with rfl | hc
                · exact ⟨typedPair_ok hpair, lookup_isNone_iff.1 hseen⟩
                · exact ⟨(hall c hc).1, fun hmem => (hall c hc).2 (List.mem_cons_of_mem _ hmem)⟩
              · refine List.nodup_cons.2 ⟨fun hmem => ?_, hnodup⟩
                obtain ⟨c, hc, hname⟩ := List.mem_map.1 hmem
                exact (hall c hc).2 (List.mem_cons.2 (Or.inl hname))

theorem loadTypedColumns_ok {py : Python} {env : Environ} {result : Option (List (String × TypeName))}
    (h : loadTypedColumns py env = .ok result) :
    ∀ columns ∈ result, SafeColumns (columns.map Prod.fst) := by
  obtain ⟨loaded, hloop, rfl⟩ := map_eq_ok.1 h
  intro columns hcolumns
  obtain ⟨rfl, hne⟩ := orNoneList_eq_some hcolumns
  obtain ⟨hall, hnodup⟩ := typedLoop_ok hloop
  refine ⟨by simpa using hne, fun c hc => ?_, hnodup⟩
  obtain ⟨pair, hpair, rfl⟩ := List.mem_map.1 hc
  exact (hall pair hpair).1

theorem loadVariantColumns_ok {py : Python} {env : Environ} {result : Option (List String)}
    (h : loadVariantColumns py env = .ok result) :
    ∀ columns ∈ result, SafeColumns columns ∧ ∀ c ∈ columns, endsWithVariant py c = false := by
  obtain ⟨columns, hcolumns, h⟩ := bind_eq_ok.1 h
  cases hfind : (columns.getD []).find? (endsWithVariant py) with
  | some name =>
      rw [hfind] at h
      cases h
  | none =>
      rw [hfind] at h
      obtain rfl := Except.ok.inj h
      rintro names rfl
      exact ⟨parseColumnList_ok hcolumns names rfl,
        fun c hc => by simpa using List.find?_eq_none.1 hfind c hc⟩

/-! ## Filters -/

theorem checkFilterField_ok {field : Option String} {u : Unit} (h : checkFilterField field = .ok u) :
    ∀ name ∈ field, matchesSafeIdentifier name = true := by
  rintro name rfl
  unfold checkFilterField at h
  simp only at h
  split_ifs at h with hsafe
  exact hsafe

theorem parseFilterValues_ok {raw : String} {values : Values} (h : parseFilterValues raw = .ok values) :
    values.toList ≠ [] := by
  unfold parseFilterValues at h
  split_ifs at h with hempty
  have htokens : commaTokens raw ≠ [] := by simpa using hempty
  cases hints : intTokens (commaTokens raw) with
  | none =>
      simp only [hints] at h
      obtain rfl := Except.ok.inj h
      simpa using htokens
  | some ns =>
      simp only [hints] at h
      obtain rfl := Except.ok.inj h
      have hlength : (commaTokens raw).length = ns.length := (mapM_eq_some_iff.1 hints).length_eq
      intro hnil
      rw [List.map_eq_nil_iff.1 hnil] at hlength
      exact htokens (List.length_eq_zero_iff.1 hlength)

theorem filterValuesOf_ok {field : Option String} {raw : String} {result : Option Values}
    (h : filterValuesOf field raw = .ok result) :
    field.isSome = result.isSome ∧ ∀ values ∈ result, values.toList ≠ [] := by
  cases field with
  | none =>
      obtain rfl := Except.ok.inj h
      simp
  | some name =>
      obtain ⟨values, hvalues, rfl⟩ := map_eq_ok.1 h
      refine ⟨rfl, fun values' hvalues' => ?_⟩
      obtain rfl := Option.some.inj hvalues'
      exact parseFilterValues_ok hvalues

theorem loadFilterFields_ok {env : Environ} {filter : FilterFields}
    (h : loadFilterFields env = .ok filter) : filter.Paired := by
  unfold loadFilterFields at h
  generalize orNone (env.stripped "MILLPOND_FILTER_KEEP_FIELD_NAME") = keep at h
  generalize orNone (env.stripped "MILLPOND_FILTER_DROP_FIELD_NAME") = drop at h
  obtain ⟨_, -, h⟩ := bind_eq_ok.1 h
  obtain ⟨_, -, h⟩ := bind_eq_ok.1 h
  obtain ⟨_, hkeep, h⟩ := bind_eq_ok.1 h
  obtain ⟨_, hdrop, h⟩ := bind_eq_ok.1 h
  obtain ⟨values, hvalues, h⟩ := bind_eq_ok.1 h
  obtain ⟨dropValues, hdropValues, h⟩ := bind_eq_ok.1 h
  obtain rfl := Except.ok.inj h
  obtain ⟨hsome, hne⟩ := filterValuesOf_ok hvalues
  obtain ⟨hdropSome, hdropNe⟩ := filterValuesOf_ok hdropValues
  refine ⟨hsome, hdropSome, fun field hfield => ?_, fun vs hvs => hvs.elim (hne vs) (hdropNe vs)⟩
  exact hfield.elim (checkFilterField_ok hkeep field) (checkFilterField_ok hdrop field)

theorem requireUuidFilterValues_ok {typedColumns : Option (List (String × TypeName))}
    {field : Option String} {values : Option Values} {valuesVar : String} {u : Unit}
    (h : requireUuidFilterValues typedColumns field values valuesVar = .ok u) :
    UuidValues typedColumns field values := by
  rintro columns rfl name rfl htype vs rfl v hv
  unfold requireUuidFilterValues at h
  simp only [htype, if_true] at h
  cases hfind : vs.toList.find? (!isUuid ·) with
  | some value => simp [hfind] at h
  | none => simpa using List.find?_eq_none.1 hfind v hv

/-! ## Include values -/

theorem includeNumbers_ok {py : Python} {env : Environ} {url : String} {mode : Mode}
    {headerName token : Option String} {fields : IncludeFields}
    (h : includeNumbers py env url mode headerName token = .ok fields) :
    fields.url = some url ∧ fields.mode = mode ∧ fields.authHeaderName = headerName ∧
      fields.authToken = token ∧ 0 < fields.removalPolls ∧ fields.pollIntervalS.atMost 0 = false ∧
      fields.requestTimeoutS.atMost 0 = false ∧ fields.startupTimeoutS.atMost 0 = false := by
  obtain ⟨pollInterval, -, h⟩ := bind_eq_ok.1 h
  obtain ⟨removalPolls, -, h⟩ := bind_eq_ok.1 h
  obtain ⟨requestTimeout, -, h⟩ := bind_eq_ok.1 h
  obtain ⟨startupTimeout, -, h⟩ := bind_eq_ok.1 h
  obtain ⟨_, hpoll, h⟩ := bind_eq_ok.1 h
  obtain ⟨_, hremoval, h⟩ := bind_eq_ok.1 h
  obtain ⟨_, htimeouts, h⟩ := bind_eq_ok.1 h
  obtain rfl := Except.ok.inj h
  rw [ensure_eq_ok] at hpoll hremoval htimeouts
  have hremoval : 1 ≤ removalPolls := by simpa using hremoval
  have htimeouts : requestTimeout.atMost 0 = false ∧ startupTimeout.atMost 0 = false := by
    simpa using htimeouts
  exact ⟨rfl, rfl, rfl, rfl, show 0 < removalPolls by omega, by simpa using hpoll, htimeouts⟩

theorem includeMode_ok {text : String} {mode : Mode} (h : includeMode text = .ok mode) :
    mode ≠ .static := by
  unfold includeMode at h
  split_ifs at h <;>
    · obtain rfl := Except.ok.inj h
      decide

theorem staticInclude_ready (filter : FilterFields) : staticInclude.Ready filter where
  static := fun _ => rfl
  dynamic := fun h => by cases h
  shadow := fun h => by cases h
  auth := rfl
  removalPolls := by decide
  positive := by decide

theorem loadIncludeValuesConfig_ok {py : Python} {env : Environ} {filter : FilterFields}
    {fields : IncludeFields}
    (h : loadIncludeValuesConfig py env filter.keepField filter.values = .ok fields) :
    fields.Ready filter := by
  unfold loadIncludeValuesConfig at h
  simp only at h
  cases hurl : orNone (env.stripped "MILLPOND_INCLUDE_VALUES_URL") with
  | none =>
      rw [hurl] at h
      obtain ⟨_, -, h⟩ := bind_eq_ok.1 h
      obtain ⟨_, -, h⟩ := bind_eq_ok.1 h
      obtain rfl := Except.ok.inj h
      exact staticInclude_ready filter
  | some url =>
      rw [hurl] at h
      obtain ⟨mode, hmode, h⟩ := bind_eq_ok.1 h
      obtain ⟨_, hkeep, h⟩ := bind_eq_ok.1 h
      obtain ⟨_, hshadow, h⟩ := bind_eq_ok.1 h
      obtain ⟨_, hauth, h⟩ := bind_eq_ok.1 h
      obtain ⟨hfieldsUrl, rfl, hheader, htoken, hremoval, hpositive⟩ := includeNumbers_ok h
      rw [ensure_eq_ok] at hkeep hshadow hauth
      refine ⟨fun hnone => ?_, fun _ => ⟨includeMode_ok hmode, hkeep⟩, fun heq => ?_, ?_, hremoval,
        hpositive⟩
      · rw [hfieldsUrl] at hnone
        cases hnone
      · simpa [heq] using hshadow
      · rw [hheader, htoken]
        exact of_decide_eq_true hauth

/-! ## The groups -/

theorem positiveIntOr_ok {env : Environ} {name default_ : String} {n : ℤ}
    (h : positiveIntOr env name default_ = .ok n) : 0 < n := by
  obtain ⟨m, -, h⟩ := bind_eq_ok.1 h
  obtain ⟨_, hpos, h⟩ := bind_eq_ok.1 h
  obtain rfl := Except.ok.inj h
  simpa using ensure_eq_ok.1 hpos

theorem loadBackoff_ok {py : Python} {env : Environ} {backoff : PyFloat}
    (h : loadBackoff py env = .ok backoff) : backoff.atLeast 1 = true := by
  unfold loadBackoff at h
  cases hfloat : py.float (env.getD "DUCKLAKE_RETRY_BACKOFF" "1.0") with
  | none => simp [hfloat] at h
  | some x =>
      simp only [hfloat] at h
      split_ifs at h with hge
      obtain rfl := Except.ok.inj h
      exact hge

theorem loadDucklakeFields_ok {py : Python} {env : Environ} {fields : DucklakeFields}
    (h : loadDucklakeFields py env = .ok fields) : fields.Ready := by
  unfold loadDucklakeFields at h
  generalize (orNone (env.stripped "DUCKLAKE_SCHEMA")).getD "main" = schema at h
  generalize orNone (env.stripped "DUCKLAKE_PARTITION_BY") = partitionBy at h
  obtain ⟨table, -, h⟩ := bind_eq_ok.1 h
  obtain ⟨_, htable, h⟩ := bind_eq_ok.1 h
  obtain ⟨_, hschema, h⟩ := bind_eq_ok.1 h
  obtain ⟨_, hpartition, h⟩ := bind_eq_ok.1 h
  obtain ⟨maxRetries, hmax, h⟩ := bind_eq_ok.1 h
  obtain ⟨waitMs, hwait, h⟩ := bind_eq_ok.1 h
  obtain ⟨backoff, hbackoff, h⟩ := bind_eq_ok.1 h
  obtain ⟨_, hbudget, h⟩ := bind_eq_ok.1 h
  obtain ⟨dataPath, -, h⟩ := bind_eq_ok.1 h
  obtain ⟨connection, -, h⟩ := bind_eq_ok.1 h
  obtain ⟨rdsHost, -, h⟩ := bind_eq_ok.1 h
  obtain ⟨rdsPassword, -, h⟩ := bind_eq_ok.1 h
  obtain rfl := Except.ok.inj h
  have hmax := positiveIntOr_ok hmax
  have hwait := positiveIntOr_ok hwait
  rw [checkTableName, ensure_eq_ok] at htable hschema
  rw [ensure_eq_ok] at hpartition
  rw [checkDucklakeLivenessBudget, ensure_eq_ok] at hbudget
  refine ⟨fun name hname => ?_, by simp, fun text htext => ?_, ?_⟩
  · rcases hname with hname | hname
    · rwa [← Option.some.inj hname]
    · rwa [← Option.some.inj hname]
  · obtain rfl : partitionBy = some text := htext
    simpa using hpartition
  · lift maxRetries to ℕ using hmax.le
    lift waitMs to ℕ using hwait.le
    exact ⟨maxRetries, waitMs, backoff, rfl, rfl, rfl, by exact_mod_cast hmax, by exact_mod_cast hwait,
      loadBackoff_ok hbackoff, by simpa using hbudget⟩

theorem hoglakeNames_ok {env : Environ} {catalog namespace_ table : String}
    (h : hoglakeNames env = .ok (catalog, namespace_, table)) :
    matchesHoglakeCatalogName catalog = true ∧ matchesHoglakeIdentifier namespace_ = true ∧
      matchesHoglakeIdentifier table = true := by
  obtain ⟨c, -, h⟩ := bind_eq_ok.1 h
  obtain ⟨_, hcatalog, h⟩ := bind_eq_ok.1 h
  obtain ⟨n, -, h⟩ := bind_eq_ok.1 h
  obtain ⟨_, hnamespace, h⟩ := bind_eq_ok.1 h
  obtain ⟨t, -, h⟩ := bind_eq_ok.1 h
  obtain ⟨_, htable, h⟩ := bind_eq_ok.1 h
  obtain ⟨rfl, heq⟩ := Prod.mk.inj (Except.ok.inj h)
  obtain ⟨rfl, rfl⟩ := Prod.mk.inj heq
  exact ⟨ensure_eq_ok.1 hcatalog, ensure_eq_ok.1 hnamespace, ensure_eq_ok.1 htable⟩

theorem positiveInt_ok {env : Environ} {name : String} {default_ n : ℤ} (hdefault : 0 < default_)
    (h : positiveInt env name default_ = .ok n) : 0 < n := by
  unfold positiveInt at h
  split_ifs at h with hempty
  · obtain rfl := Except.ok.inj h
    exact hdefault
  · cases hint : pyInt (env.stripped name) with
    | none => simp [hint] at h
    | some m =>
        simp only [hint] at h
        split_ifs at h with hle
        obtain rfl := Except.ok.inj h
        exact not_le.1 hle

theorem positiveFloat_ok {py : Python} {env : Environ} {name : String} {default_ : ℚ} {x : PyFloat}
    (hdefault : 0 < default_) (h : positiveFloat py env name default_ = .ok x) : x.atMost 0 = false := by
  unfold positiveFloat at h
  split_ifs at h with hempty
  · obtain rfl := Except.ok.inj h
    exact decide_eq_false (not_le.2 hdefault)
  · cases hfloat : py.float (env.stripped name) with
    | none => simp [hfloat] at h
    | some y =>
        simp only [hfloat] at h
        split_ifs at h with hle
        obtain rfl := Except.ok.inj h
        simpa using hle

/-- The budget check leaves finite timeouts only: a NaN and an infinity pass `_positive_float`. -/
theorem exists_hoglakeRetry {maxRetries : ℤ} {timeoutS : PyFloat} {u : Unit} (hmax : 0 < maxRetries)
    (htimeout : timeoutS.atMost 0 = false)
    (h : checkHoglakeLivenessBudget maxRetries timeoutS = .ok u) :
    ∃ retry : HoglakeRetry, maxRetries = retry.maxRetries ∧ timeoutS = .finite retry.timeoutS := by
  rw [checkHoglakeLivenessBudget, ensure_eq_ok] at h
  lift maxRetries to ℕ using hmax.le
  cases timeoutS with
  | nan => cases h
  | inf negative =>
      obtain rfl : negative = true := h
      cases htimeout
  | finite value =>
      have hvalue : 0 < value := not_le.1 (of_decide_eq_false htimeout)
      exact ⟨⟨maxRetries, value, by exact_mod_cast hmax, hvalue, of_decide_eq_true h⟩, rfl, rfl⟩

theorem hoglakeCompression_ok {py : Python} {env : Environ} {codec : String} {level : Option ℤ}
    (h : hoglakeCompression py env = .ok (codec, level)) : py.parquetWriteOptions codec level = none := by
  unfold hoglakeCompression at h
  generalize (orNone (py.lower (env.stripped "HOGLAKE_COMPRESSION"))).getD "zstd" = c at h
  obtain ⟨l, -, h⟩ := bind_eq_ok.1 h
  cases hoptions : py.parquetWriteOptions c l with
  | some message =>
      rw [hoptions] at h
      cases h
  | none =>
      rw [hoptions] at h
      obtain ⟨rfl, rfl⟩ := Prod.mk.inj (Except.ok.inj h)
      exact hoptions

theorem hoglakePartitionBy_ok {raw : String} {result : Option (List PartitionTriple)}
    (h : hoglakePartitionBy raw = .ok result) : ∀ triples ∈ result, triples ≠ [] ∧ triples.Nodup ∧
      ∀ t ∈ triples, matchesSafeIdentifier t.1 = true ∧ t.2.1 ∈ hoglakeTransforms ∧
        (t.2.1 = "bucket" ↔ t.2.2.isSome = true) ∧ ∀ n ∈ t.2.2, 0 < n := by
  unfold hoglakePartitionBy at h
  split_ifs at h with hempty
  · obtain rfl := Except.ok.inj h
    simp
  · cases hparse : parseHoglakePartitionBy raw with
    | error e => simp [hparse] at h
    | ok triples =>
        simp only [hparse] at h
        obtain rfl := Except.ok.inj h
        intro triples' htriples'
        obtain rfl := Option.some.inj htriples'
        obtain ⟨pieces, -, hall, hne, hnodup⟩ := parseHoglakePartitionBy_eq_ok.1 hparse
        refine ⟨hne, hnodup, fun t ht => ?_⟩
        obtain ⟨entry, -, hentry⟩ := exists_of_forall₂_right hall ht
        cases hentry with
        | column hcol => exact ⟨matches_of_isSafeBody hcol, by simp [hoglakeTransforms], by simp, by simp⟩
        | @call _ _ _ _ _ transform _ htransform _ _ hcol _ =>
            have hother : transform ≠ "bucket" := by
              rintro rfl
              exact absurd htransform (by decide)
            exact ⟨matches_of_isSafeBody hcol, List.mem_of_mem_dropLast htransform, by simp [hother],
              by simp⟩
        | bucket _ _ _ hcol _ _ hcount _ =>
            refine ⟨matches_of_isSafeBody hcol, by simp [hoglakeTransforms], by simp, fun n hn => ?_⟩
            obtain rfl := Option.some.inj hn
            exact hcount.pos

theorem hoglakeDataPath_ok {env : Environ} {path : Option String}
    (h : hoglakeDataPath env = .ok path) : ∀ p ∈ path, matchesS3Uri p = true := by
  unfold hoglakeDataPath at h
  generalize env.stripped "HOGLAKE_DATA_PATH" = raw at h
  obtain ⟨_, hvalid, h⟩ := bind_eq_ok.1 h
  obtain rfl := Except.ok.inj h
  intro p hp
  obtain ⟨rfl, hne⟩ := orNone_eq_some hp
  simpa [hne] using ensure_eq_ok.1 hvalid

theorem hoglakeS3Keys_ok {env : Environ} {accessKey secretKey : Option String}
    (h : hoglakeS3Keys env = .ok (accessKey, secretKey)) : accessKey.isSome = secretKey.isSome := by
  unfold hoglakeS3Keys at h
  generalize orNone (env.stripped "HOGLAKE_S3_ACCESS_KEY") = a at h
  generalize orNone (env.stripped "HOGLAKE_S3_SECRET_KEY") = b at h
  obtain ⟨_, hboth, h⟩ := bind_eq_ok.1 h
  obtain ⟨rfl, rfl⟩ := Prod.mk.inj (Except.ok.inj h)
  exact of_decide_eq_true (ensure_eq_ok.1 hboth)

theorem hoglakeDeferredStats_ok {py : Python} {env : Environ} {value : Bool}
    (h : hoglakeDeferredStats py env = .ok value) : py.takesDeferredStats = true := by
  unfold hoglakeDeferredStats at h
  generalize env.stripped "HOGLAKE_DEFERRED_STATS" = raw at h
  obtain ⟨_, -, h⟩ := bind_eq_ok.1 h
  obtain ⟨_, htakes, -⟩ := bind_eq_ok.1 h
  exact ensure_eq_ok.1 htakes

theorem loadHoglakeFields_ok {py : Python} {env : Environ} {fields : HoglakeFields}
    (h : loadHoglakeFields py env = .ok fields) : fields.Ready py := by
  unfold loadHoglakeFields at h
  generalize env.stripped "HOGLAKE_PARTITION_BY" = partitionRaw at h
  generalize env.stripped "DUCKLAKE_PARTITION_BY" = otherRaw at h
  generalize orNone (env.stripped "HOGLAKE_S3_ENDPOINT") = endpoint at h
  generalize orNone (env.stripped "HOGLAKE_S3_REGION") = region at h
  obtain ⟨⟨catalog, namespace_, table⟩, hnames, h⟩ := bind_eq_ok.1 h
  obtain ⟨maxRetries, hmax, h⟩ := bind_eq_ok.1 h
  obtain ⟨timeoutS, htimeout, h⟩ := bind_eq_ok.1 h
  obtain ⟨_, hbudget, h⟩ := bind_eq_ok.1 h
  obtain ⟨_, -, h⟩ := bind_eq_ok.1 h
  obtain ⟨_, -, h⟩ := bind_eq_ok.1 h
  obtain ⟨⟨accessKey, secretKey⟩, hkeys, h⟩ := bind_eq_ok.1 h
  obtain ⟨⟨codec, level⟩, hcompression, h⟩ := bind_eq_ok.1 h
  obtain ⟨deferredStats, hdeferred, h⟩ := bind_eq_ok.1 h
  obtain ⟨url, hurl, h⟩ := bind_eq_ok.1 h
  obtain ⟨dataPath, hpath, h⟩ := bind_eq_ok.1 h
  obtain ⟨partitionBy, hpartition, h⟩ := bind_eq_ok.1 h
  obtain rfl := Except.ok.inj h
  obtain ⟨hcatalog, hnamespace, htable⟩ := hoglakeNames_ok hnames
  obtain ⟨retry, hretries, hfinite⟩ := exists_hoglakeRetry (positiveInt_ok (by decide) hmax)
    (positiveFloat_ok (by decide) htimeout) hbudget
  refine ⟨⟨catalog, rfl, hcatalog⟩, ⟨namespace_, table, rfl, rfl, hnamespace, htable⟩,
    ⟨url, rfl, (require_eq_ok hurl).2⟩, hoglakeDataPath_ok hpath, hoglakeS3Keys_ok hkeys,
    ⟨retry, congrArg some hretries, congrArg some hfinite⟩, ⟨codec, rfl, hoglakeCompression_ok hcompression⟩,
    ⟨rfl, hoglakeDeferredStats_ok hdeferred⟩, hoglakePartitionBy_ok hpartition⟩

/-! ## The whole -/

theorem groupId_ne_empty (text : String) (destination : Destination) (topic table : String) :
    (orNone text).getD (defaultGroupId destination topic table) ≠ "" := by
  cases htext : orNone text with
  | some value => exact (orNone_eq_some htext).2
  | none =>
      intro hempty
      have hlength := congrArg String.length hempty
      cases destination <;> simp [defaultGroupId, String.length_append] at hlength

theorem loadDestinationFields_ok {py : Python} {env : Environ} {destination : Destination}
    {ducklake : DucklakeFields} {hoglake : HoglakeFields} {table : String}
    (h : loadDestinationFields py env destination = .ok (ducklake, hoglake, table)) :
    (destination = .ducklake → ducklake.Ready ∧ hoglake = noneHoglakeFields) ∧
      (destination = .hoglake → hoglake.Ready py ∧ ducklake = noneDucklakeFields) := by
  cases destination with
  | ducklake =>
      obtain ⟨fields, hfields, h⟩ := bind_eq_ok.1 h
      obtain ⟨rfl, heq⟩ := Prod.mk.inj (Except.ok.inj h)
      obtain ⟨rfl, -⟩ := Prod.mk.inj heq
      exact ⟨fun _ => ⟨loadDucklakeFields_ok hfields, rfl⟩, fun h => absurd h (by decide)⟩
  | hoglake =>
      obtain ⟨fields, hfields, h⟩ := bind_eq_ok.1 h
      obtain ⟨rfl, heq⟩ := Prod.mk.inj (Except.ok.inj h)
      obtain ⟨rfl, -⟩ := Prod.mk.inj heq
      exact ⟨fun h => absurd h (by decide), fun _ => ⟨loadHoglakeFields_ok hfields, rfl⟩⟩

theorem loadVariantColumnsFor_ok {py : Python} {env : Environ} {destination : Destination}
    {result : Option (List String)} (h : loadVariantColumnsFor py env destination = .ok result) :
    (destination = .hoglake → result = none) ∧
      ∀ columns ∈ result, SafeColumns columns ∧ ∀ c ∈ columns, endsWithVariant py c = false := by
  obtain ⟨columns, hcolumns, h⟩ := bind_eq_ok.1 h
  obtain ⟨_, hnone, h⟩ := bind_eq_ok.1 h
  obtain rfl := Except.ok.inj h
  rw [ensure_eq_ok] at hnone
  refine ⟨?_, loadVariantColumns_ok hcolumns⟩
  rintro rfl
  simpa using hnone

/-- How `load` came to a configuration: each reader returned its part. -/
structure ReadFrom (py : Python) (env : Environ) (cfg : Config) : Prop where
  topic : require env "KAFKA_TOPIC" = .ok cfg.topic
  destination : loadDestination py env = .ok cfg.destination
  replica : loadReplica env = .ok (cfg.ordinal, cfg.replicaCount)
  fields : ∃ table, loadDestinationFields py env cfg.destination = .ok (cfg.ducklake, cfg.hoglake, table) ∧
    cfg.groupId =
      (orNone (env.getD "GROUP_ID" "")).getD (defaultGroupId cfg.destination cfg.topic table)
  overrides : ∀ entry ∈ cfg.kafkaConfigOverrides, entry.1 ≠ "auto.offset.reset"
  filter : loadFilterFields env = .ok cfg.filter
  sortBy : loadSortBy env = .ok cfg.sortBy
  typedColumns : loadTypedColumns py env = .ok cfg.typedColumns
  keepUuids : requireUuidFilterValues cfg.typedColumns cfg.filter.keepField cfg.filter.values
    "MILLPOND_FILTER_VALUES" = .ok ()
  dropUuids : requireUuidFilterValues cfg.typedColumns cfg.filter.dropField cfg.filter.dropValues
    "MILLPOND_FILTER_DROP_VALUES" = .ok ()
  variantColumns : loadVariantColumnsFor py env cfg.destination = .ok cfg.variantColumns
  bootstrapServers : require env "KAFKA_BOOTSTRAP_SERVERS" = .ok cfg.bootstrapServers
  httpPort : loadHttpPort env = .ok cfg.httpPort
  includeValues : loadIncludeValuesConfig py env cfg.filter.keepField cfg.filter.values =
    .ok cfg.includeValues

theorem load_readFrom {py : Python} {env : Environ} {cfg : Config} (h : load py env = .ok cfg) :
    ReadFrom py env cfg := by
  unfold load at h
  obtain ⟨topic, htopic, h⟩ := bind_eq_ok.1 h
  obtain ⟨destination, hdestination, h⟩ := bind_eq_ok.1 h
  obtain ⟨⟨ordinal, replicaCount⟩, hreplica, h⟩ := bind_eq_ok.1 h
  obtain ⟨⟨ducklake, hoglake, table⟩, hfields, h⟩ := bind_eq_ok.1 h
  obtain ⟨_, hoverrides, h⟩ := bind_eq_ok.1 h
  obtain ⟨filter, hfilter, h⟩ := bind_eq_ok.1 h
  obtain ⟨sortBy, hsort, h⟩ := bind_eq_ok.1 h
  obtain ⟨typedColumns, htyped, h⟩ := bind_eq_ok.1 h
  obtain ⟨_, hkeep, h⟩ := bind_eq_ok.1 h
  obtain ⟨_, hdrop, h⟩ := bind_eq_ok.1 h
  obtain ⟨variantColumns, hvariant, h⟩ := bind_eq_ok.1 h
  obtain ⟨bootstrapServers, hbootstrap, h⟩ := bind_eq_ok.1 h
  obtain ⟨tuning, -, h⟩ := bind_eq_ok.1 h
  obtain ⟨autoOffsetReset, -, h⟩ := bind_eq_ok.1 h
  obtain ⟨httpPort, hport, h⟩ := bind_eq_ok.1 h
  obtain ⟨includeValues, hinclude, h⟩ := bind_eq_ok.1 h
  obtain rfl := Except.ok.inj h
  refine ⟨htopic, hdestination, hreplica, ⟨table, hfields, rfl⟩, fun entry hentry => ?_, hfilter, hsort,
    htyped, hkeep, hdrop, hvariant, hbootstrap, hport, hinclude⟩
  simpa using List.all_eq_true.1 (ensure_eq_ok.1 hoverrides) entry hentry

/-- **What `load` returns, the process may rely on.** Identifiers are safe, column lists have no double,
    filters are complete, the other destination's group is empty, and the retry budget of the active one
    fits the liveness deadline. -/
theorem load_accepted (py : Python) (env : Environ) (cfg : Config) (h : load py env = .ok cfg) :
    Accepted py cfg := by
  have hread := load_readFrom h
  obtain ⟨table, hfields, hgroup⟩ := hread.fields
  obtain ⟨hducklake, hhoglake⟩ := loadDestinationFields_ok hfields
  obtain ⟨hnone, hcolumns⟩ := loadVariantColumnsFor_ok hread.variantColumns
  have hgroupId : cfg.groupId ≠ "" := hgroup ▸ groupId_ne_empty _ _ _ _
  exact
    { kafka := ⟨(require_eq_ok hread.topic).2, (require_eq_ok hread.bootstrapServers).2, hgroupId⟩
      ordinal := loadReplica_ok hread.replica
      ducklake := hducklake
      hoglake := fun hdest => ⟨(hhoglake hdest).1, (hhoglake hdest).2, hnone hdest⟩
      filter := loadFilterFields_ok hread.filter
      uuids := ⟨requireUuidFilterValues_ok hread.keepUuids, requireUuidFilterValues_ok hread.dropUuids⟩
      includeValues := loadIncludeValuesConfig_ok hread.includeValues
      sortBy := parseColumnList_ok hread.sortBy
      typedColumns := loadTypedColumns_ok hread.typedColumns
      variantColumns := hcolumns
      overrides := hread.overrides
      httpPort := checkPort_ok hread.httpPort }

/-- The functions as they answer on plain settings. -/
def plainPython : Python where
  lower := String.toLower
  float := fun text => if text = "1.0" then some (.finite 1) else none
  parquetWriteOptions := fun codec level =>
    if codec = "zstd" && level.any (fun n => 1 ≤ n && n ≤ 9) || level.isNone && codec ∈ ["snappy", "none"]
    then none else some "unsupported codec or level"
  takesDeferredStats := true
  serviceVersion := "unknown"

/-- A hoglake pod, the second of three, with a bucketed table and a filter on a uuid column. -/
def hoglakeEnviron : Environ where
  items :=
    [("KAFKA_TOPIC", "events"), ("KAFKA_BOOTSTRAP_SERVERS", "kafka:9092"), ("POD_NAME", "millpond-events-1"),
      ("REPLICA_COUNT", "3"), ("MILLPOND_DESTINATION", " Hoglake "), ("HOGLAKE_CATALOG", "prod"),
      ("HOGLAKE_NAMESPACE", "posthog"), ("HOGLAKE_TABLE", "events"), ("HOGLAKE_URL", "http://hoglake:8080"),
      ("HOGLAKE_PARTITION_BY", "day(timestamp), bucket(team_id, 16)"),
      ("MILLPOND_TYPED_COLUMNS", "uuid:uuid, team_id:bigint"), ("MILLPOND_SORT_BY", "team_id,timestamp"),
      ("MILLPOND_FILTER_DROP_FIELD_NAME", "uuid"),
      ("MILLPOND_FILTER_DROP_VALUES", "01234567-89ab-cdef-0123-456789abcdef")]
  distinct := by decide

theorem hoglakeEnviron_accepted :
    ∃ cfg, load plainPython hoglakeEnviron = .ok cfg ∧ cfg.hoglake.partitionBy =
      some [("timestamp", "day", none), ("team_id", "bucket", some 16)] ∧ Accepted plainPython cfg := by
  have hok : (load plainPython hoglakeEnviron).toOption.map (·.hoglake.partitionBy) =
      some (some [("timestamp", "day", none), ("team_id", "bucket", some 16)]) := by decide +kernel
  cases hload : load plainPython hoglakeEnviron with
  | error e =>
      rw [hload] at hok
      cases hok
  | ok cfg =>
      rw [hload] at hok
      exact ⟨cfg, rfl, Option.some.inj hok, load_accepted _ _ _ hload⟩

end Millpond.Config
