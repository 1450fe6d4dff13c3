import Millpond.Config.Accepted

set_option autoImplicit false

/-! # What load reads

Every reader looks at a fixed list of variables. The lists together show that the variables of the
destination a pod does not write to change nothing, and that two pods of one topic share a default
group id only when they write to the same table. -/

namespace Millpond.Config

open Millpond.Maintenance (isSpace)
open Millpond.Hoglake (isIdentifierStart matchesSafeIdentifier matchesSafeIdentifier_iff isSafeBody)
open Millpond.IncludeValues (Values)

/-! ## Footprints -/

/-- The two environments agree on these variables. -/
def Same (names : List String) (env env' : Environ) : Prop :=
  ∀ name ∈ names, env.get? name = env'.get? name

section Same

variable {names : List String} {env env' : Environ} {name : String}

theorem Same.mono {names' : List String} (h : Same names env env') (hsub : names' ⊆ names) :
    Same names' env env' :=
  fun name hname => h name (hsub hname)

theorem Same.getD (h : Same names env env') (hname : name ∈ names) (default_ : String) :
    env.getD name default_ = env'.getD name default_ := by
  rw [Environ.getD, Environ.getD, h name hname]

theorem Same.stripped (h : Same names env env') (hname : name ∈ names) :
    env.stripped name = env'.stripped name := by
  rw [Environ.stripped, Environ.stripped, h.getD hname]

theorem Same.require (h : Same names env env') (hname : name ∈ names) :
    require env name = require env' name := by
  rw [Config.require, Config.require, h name hname]

theorem Same.intOr (h : Same names env env') (hname : name ∈ names) (default_ : String) :
    intOr env name default_ = intOr env' name default_ := by
  rw [Config.intOr, Config.intOr, h.getD hname]

theorem Same.positiveIntOr (h : Same names env env') (hname : name ∈ names) (default_ : String) :
    positiveIntOr env name default_ = positiveIntOr env' name default_ := by
  rw [Config.positiveIntOr, Config.positiveIntOr, h.intOr hname]

theorem Same.positiveInt (h : Same names env env') (hname : name ∈ names) (default_ : ℤ) :
    positiveInt env name default_ = positiveInt env' name default_ := by
  rw [Config.positiveInt, Config.positiveInt, h.stripped hname]

theorem Same.positiveFloat (h : Same names env env') (hname : name ∈ names) (py : Python)
    (default_ : ℚ) : positiveFloat py env name default_ = positiveFloat py env' name default_ := by
  rw [Config.positiveFloat, Config.positiveFloat, h.stripped hname]

theorem Same.parseNumber {α : Type} (h : Same names env env') (hname : name ∈ names)
    (cast_ : String → Option α) (default_ : String) :
    parseNumber cast_ env name default_ = parseNumber cast_ env' name default_ := by
  rw [Config.parseNumber, Config.parseNumber, h.getD hname]

theorem Same.parseColumnList (h : Same names env env') (hname : name ∈ names) :
    parseColumnList env name = parseColumnList env' name := by
  rw [Config.parseColumnList, Config.parseColumnList, h.stripped hname]

end Same

/-- The variables both destinations read. -/
def sharedVariables : List String :=
  ["KAFKA_TOPIC", "MILLPOND_DESTINATION", "POD_NAME", "HOSTNAME", "REPLICA_COUNT", "GROUP_ID",
    "MILLPOND_FILTER_KEEP_FIELD_NAME", "MILLPOND_FILTER_DROP_FIELD_NAME", "MILLPOND_FILTER_VALUES",
    "MILLPOND_FILTER_DROP_VALUES", "MILLPOND_SORT_BY", "MILLPOND_TYPED_COLUMNS",
    "MILLPOND_VARIANT_COLUMNS", "KAFKA_BOOTSTRAP_SERVERS", "FLUSH_SIZE", "FLUSH_INTERVAL_MS",
    "FETCH_MIN_BYTES", "FETCH_MAX_WAIT_MS", "CONSUME_BATCH_SIZE", "STATS_INTERVAL_MS",
    "KAFKA_AUTO_OFFSET_RESET", "BROKER_SOURCE", "MILLPOND_HTTP_PORT", "MILLPOND_INCLUDE_VALUES_URL",
    "MILLPOND_INCLUDE_VALUES_MODE", "MILLPOND_INCLUDE_VALUES_AUTH_HEADER_NAME",
    "MILLPOND_INCLUDE_VALUES_AUTH_TOKEN", "MILLPOND_INCLUDE_VALUES_POLL_INTERVAL_S",
    "MILLPOND_INCLUDE_VALUES_REMOVAL_POLLS", "MILLPOND_INCLUDE_VALUES_REQUEST_TIMEOUT_S",
    "MILLPOND_INCLUDE_VALUES_STARTUP_TIMEOUT_S", "POSTHOG_PROJECT_TOKEN", "POSTHOG_LOGS_ENDPOINT",
    "MILLPOND_SERVICE_NAMESPACE", "MILLPOND_SERVICE_INSTANCE_ID", "MILLPOND_SERVICE_VERSION"]

/-- The variables of the DuckLake group. -/
def ducklakeVariables : List String :=
  ["DUCKLAKE_TABLE", "DUCKLAKE_SCHEMA", "DUCKLAKE_PARTITION_BY", "DUCKLAKE_MAX_RETRY_COUNT",
    "DUCKLAKE_RETRY_WAIT_MS", "DUCKLAKE_RETRY_BACKOFF", "DUCKLAKE_DATA_PATH", "DUCKLAKE_CONNECTION",
    "DUCKLAKE_RDS_HOST", "DUCKLAKE_RDS_PORT", "DUCKLAKE_RDS_DATABASE", "DUCKLAKE_RDS_USERNAME",
    "DUCKLAKE_RDS_PASSWORD", "DUCKDB_MEMORY_LIMIT"]

/-- The variables of the hoglake group. -/
def hoglakeVariables : List String :=
  ["HOGLAKE_CATALOG", "HOGLAKE_NAMESPACE", "HOGLAKE_TABLE", "HOGLAKE_MAX_RETRY_COUNT",
    "HOGLAKE_REQUEST_TIMEOUT_S", "PYHOGLAKE_UPLOAD_CONCURRENCY", "HOGLAKE_PARTITION_BY",
    "HOGLAKE_S3_ACCESS_KEY", "HOGLAKE_S3_SECRET_KEY", "HOGLAKE_COMPRESSION",
    "HOGLAKE_COMPRESSION_LEVEL", "HOGLAKE_DEFERRED_STATS", "HOGLAKE_URL", "HOGLAKE_DATA_PATH",
    "HOGLAKE_S3_ENDPOINT", "HOGLAKE_S3_REGION"]

section Readers

variable {py : Python} {env env' : Environ}

theorem loadFilterFields_congr (h : Same sharedVariables env env') :
    loadFilterFields env = loadFilterFields env' := by
  simp (disch := decide) only [loadFilterFields, h.stripped]

theorem loadIncludeValuesConfig_congr (h : Same sharedVariables env env') (keepField : Option String)
    (values : Option Values) : loadIncludeValuesConfig py env keepField values =
      loadIncludeValuesConfig py env' keepField values := by
  simp (disch := decide) only [loadIncludeValuesConfig, includeNumbers, h.stripped, h.parseNumber]

theorem loadReplica_congr (h : Same sharedVariables env env') : loadReplica env = loadReplica env' := by
  simp (disch := decide) only [loadReplica, podName, h.getD, h.require]

theorem loadTuning_congr (h : Same sharedVariables env env') : loadTuning env = loadTuning env' := by
  simp (disch := decide) only [loadTuning, h.intOr]

theorem loadAutoOffsetReset_congr (h : Same sharedVariables env env') :
    loadAutoOffsetReset py env = loadAutoOffsetReset py env' := by
  rw [loadAutoOffsetReset, loadAutoOffsetReset, h.getD (by decide)]

theorem loadHttpPort_congr (h : Same sharedVariables env env') : loadHttpPort env = loadHttpPort env' := by
  rw [loadHttpPort, loadHttpPort, h.stripped (by decide)]

theorem loadTypedColumns_congr (h : Same sharedVariables env env') :
    loadTypedColumns py env = loadTypedColumns py env' := by
  rw [loadTypedColumns, loadTypedColumns, h.stripped (by decide)]

theorem loadVariantColumns_congr (h : Same sharedVariables env env') :
    loadVariantColumns py env = loadVariantColumns py env' := by
  rw [loadVariantColumns, loadVariantColumns, h.parseColumnList (by decide)]

theorem loadDucklakeFields_congr (h : Same ducklakeVariables env env') :
    loadDucklakeFields py env = loadDucklakeFields py env' := by
  simp (disch := decide) only [loadDucklakeFields, loadBackoff, h.getD, h.stripped, h.require,
    h.positiveIntOr]

/-- DUCKLAKE_PARTITION_BY is looked at too, but only without HOGLAKE_PARTITION_BY. -/
theorem loadHoglakeFields_congr (h : Same hoglakeVariables env env')
    (hother : env'.stripped "HOGLAKE_PARTITION_BY" = "" →
      env.stripped "DUCKLAKE_PARTITION_BY" = env'.stripped "DUCKLAKE_PARTITION_BY") :
    loadHoglakeFields py env = loadHoglakeFields py env' := by
  have hensure : (env'.stripped "HOGLAKE_PARTITION_BY" ≠ "" ||
      env.stripped "DUCKLAKE_PARTITION_BY" = "" : Bool) =
      (env'.stripped "HOGLAKE_PARTITION_BY" ≠ "" || env'.stripped "DUCKLAKE_PARTITION_BY" = "" : Bool) := by
    by_cases hempty : env'.stripped "HOGLAKE_PARTITION_BY" = ""
    · rw [hother hempty]
    · simp [hempty]
  simp (disch := decide) only [loadHoglakeFields, hoglakeNames, checkUploadConcurrency, hoglakeS3Keys,
    hoglakeCompression, compressionLevelOf, hoglakeDeferredStats, hoglakeDataPath, h.stripped, h.require,
    h.positiveInt, h.positiveFloat, hensure]

end Readers

/-! ## The other destination -/

/-- A variable of the other destination's group, under any name of its prefix. -/
def isForeign (destination : Destination) (name : String) : Bool :=
  match destination with
  | .ducklake => "HOGLAKE_".toList.isPrefixOf name.toList || name = "PYHOGLAKE_UPLOAD_CONCURRENCY"
  | .hoglake => "DUCKLAKE_".toList.isPrefixOf name.toList || name = "DUCKDB_MEMORY_LIMIT"

/-- The environment without the other destination's variables. -/
def Environ.own (env : Environ) (destination : Destination) : List (String × String) :=
  env.items.filter fun item => !isForeign destination item.1

/-- Filtering by a name leaves the lookup of every name the filter keeps. -/
theorem lookup_filter {p : String → Bool} {name : String} (hp : p name = true)
    (items : List (String × String)) :
    (items.filter fun item => p item.1).lookup name = items.lookup name := by
  induction items with
  | nil => rfl
  | cons item rest ih =>
      obtain ⟨key, value⟩ := item
      by_cases hkey : name = key
      · subst hkey
        simp [hp, List.lookup_cons_self]
      · -- an item of another name is passed over, whether the filter keeps it or not
        have hne : (name == key) = false := beq_eq_false_iff_ne.2 hkey
        have hskip (more : List (String × String)) :
            ((key, value) :: more).lookup name = more.lookup name := by
          simp only [List.lookup_cons, hne]
        rw [List.filter_cons, hskip]
        split
        · rw [hskip, ih]
        · exact ih

/-- Two names with different first letters have no prefix in common. -/
theorem not_isPrefixOf_of_head {a b text : List Char} (ha : a.isPrefixOf text = true)
    (hb : b ≠ []) (hne : a.head? ≠ b.head?) (hnil : a ≠ []) : b.isPrefixOf text = false := by
  obtain ⟨rest, rfl⟩ := List.isPrefixOf_iff_prefix.1 ha
  cases a with
  | nil => exact absurd rfl hnil
  | cons x xs =>
      cases b with
      | nil => exact absurd rfl hb
      | cons y ys =>
          have hxy : y ≠ x := fun heq => hne (by rw [heq]; rfl)
          simp [List.isPrefixOf, hxy]

theorem kafkaOverride_foreign {py : Python} {destination : Destination} {item : String × String}
    (h : isForeign destination item.1 = true) : kafkaOverride py item = none := by
  have hnot : kafkaConsumerPrefix.isPrefixOf item.1.toList = false := by
    cases destination with
    | ducklake =>
        rcases Bool.or_eq_true_iff.1 h with hprefix | hname
        · exact not_isPrefixOf_of_head hprefix (by decide) (by decide) (by decide)
        · rw [of_decide_eq_true hname]
          decide
    | hoglake =>
        rcases Bool.or_eq_true_iff.1 h with hprefix | hname
        · exact not_isPrefixOf_of_head hprefix (by decide) (by decide) (by decide)
        · rw [of_decide_eq_true hname]
          decide
  unfold kafkaOverride
  rw [if_neg (by rw [hnot]; decide)]

/-- The overrides come from the pod's own variables. -/
theorem kafkaOverrides_own (py : Python) (env : Environ) (destination : Destination) :
    kafkaOverrides py env = (env.own destination).filterMap (kafkaOverride py) := by
  unfold kafkaOverrides Environ.own
  induction env.items with
  | nil => rfl
  | cons item rest ih =>
      cases hforeign : isForeign destination item.1 with
      | true => simp [hforeign, kafkaOverride_foreign hforeign, ih]
      | false => simp [hforeign, ih, List.filterMap_cons]

theorem same_of_own {env env' : Environ} {destination : Destination} {names : List String}
    (h : env.own destination = env'.own destination)
    (hnames : ∀ name ∈ names, isForeign destination name = false) : Same names env env' := by
  intro name hname
  have hown : (!isForeign destination name) = true := by simp [hnames name hname]
  have hlookup : ∀ e : Environ, e.get? name = (e.own destination).lookup name :=
    fun e => (lookup_filter (p := fun n => !isForeign destination n) hown e.items).symm
  rw [hlookup, hlookup, h]

theorem sharedVariables_own (destination : Destination) :
    ∀ name ∈ sharedVariables, isForeign destination name = false := by
  cases destination <;> decide +kernel

theorem loadDestination_congr {py : Python} {env env' : Environ} (h : Same sharedVariables env env') :
    loadDestination py env = loadDestination py env' := by
  simp (disch := decide) only [loadDestination, h.stripped]

theorem loadDestinationFields_congr {py : Python} {env env' : Environ} {destination : Destination}
    (h : env.own destination = env'.own destination)
    (htrap : destination = .hoglake → env'.stripped "HOGLAKE_PARTITION_BY" = "" →
      env.stripped "DUCKLAKE_PARTITION_BY" = env'.stripped "DUCKLAKE_PARTITION_BY") :
    loadDestinationFields py env destination = loadDestinationFields py env' destination := by
  cases destination with
  | ducklake =>
      have hsame : Same ducklakeVariables env env' := same_of_own h (by decide +kernel)
      simp only [loadDestinationFields, loadDucklakeFields_congr hsame]
  | hoglake =>
      have hsame : Same hoglakeVariables env env' := same_of_own h (by decide +kernel)
      simp only [loadDestinationFields, loadHoglakeFields_congr hsame (htrap rfl)]

/-- **Stray variables of the other destination change nothing.** Two environments that differ in the
    other destination's group only, under any names of its prefix, load to the same configuration or
    to the same error. The one exception is deliberate: a hoglake pod without HOGLAKE_PARTITION_BY
    refuses a DUCKLAKE_PARTITION_BY. -/
theorem load_ignores_other_destination (py : Python) (env env' : Environ) (destination : Destination)
    (hdestination : loadDestination py env = .ok destination)
    (h : env.own destination = env'.own destination)
    (htrap : destination = .hoglake → env'.stripped "HOGLAKE_PARTITION_BY" = "" →
      env.stripped "DUCKLAKE_PARTITION_BY" = env'.stripped "DUCKLAKE_PARTITION_BY") :
    load py env = load py env' := by
  have hshared : Same sharedVariables env env' := same_of_own h (sharedVariables_own destination)
  have hdestination' : loadDestination py env' = .ok destination := by
    rw [← loadDestination_congr hshared]
    exact hdestination
  have hoverrides : kafkaOverrides py env = kafkaOverrides py env' := by
    rw [kafkaOverrides_own py env destination, h, ← kafkaOverrides_own]
  have hfields : loadDestinationFields py env destination = loadDestinationFields py env' destination :=
    loadDestinationFields_congr h htrap
  unfold load
  simp (disch := decide) only [hdestination, hdestination', ok_bind, hfields, hoverrides, loadSortBy,
    loadVariantColumnsFor, hshared.require, hshared.getD, hshared.stripped, hshared.parseColumnList,
    loadReplica_congr hshared, loadFilterFields_congr hshared, loadTypedColumns_congr hshared,
    loadVariantColumns_congr hshared, loadTuning_congr hshared, loadAutoOffsetReset_congr hshared,
    loadHttpPort_congr hshared, loadIncludeValuesConfig_congr hshared]

/-- The hoglake pod with DuckLake settings left over, one of them no number. -/
def strayEnviron : Environ where
  items := ("DUCKLAKE_TABLE", "events; drop") :: ("DUCKLAKE_MAX_RETRY_COUNT", "many") ::
    ("DUCKLAKE_PARTITION_BY", "year(timestamp)") :: hoglakeEnviron.items
  distinct := by decide

theorem strayEnviron_ignored : load plainPython strayEnviron = load plainPython hoglakeEnviron :=
  load_ignores_other_destination _ _ _ .hoglake (by decide +kernel) (by decide +kernel)
    fun _ h => absurd h (by decide +kernel)

/-! ## Group ids -/

theorem dash_notMem_of_safe {name : String} (h : matchesSafeIdentifier name = true) :
    '-' ∉ name.toList := by
  have hbody : ∀ body, isSafeBody body = true → '-' ∉ body :=
    fun body hbody hmem => absurd (isIdentifierChar_of_mem hbody '-' hmem) (by decide)
  rcases matchesSafeIdentifier_iff.1 h with h | ⟨body, heq, h⟩
  · exact hbody _ h
  · rw [heq]
    intro hmem
    rcases List.mem_append.1 hmem with hmem | hmem
    · exact hbody _ h hmem
    · exact absurd hmem (by decide)

theorem ne_empty_of_safe {name : String} (h : matchesSafeIdentifier name = true) : name ≠ "" := by
  rintro rfl
  exact absurd h (by decide)

theorem ne_empty_of_identifier {name : String} (h : matchesHoglakeIdentifier name = true) : name ≠ "" := by
  rintro rfl
  exact absurd h (by decide)

/-- What follows the last dash is known. -/
theorem append_dash_inj {a a' b b' : List Char} (hb : '-' ∉ b) (hb' : '-' ∉ b')
    (h : a ++ '-' :: b = a' ++ '-' :: b') : a = a' ∧ b = b' := by
  rcases List.append_eq_append_iff.1 h with ⟨front, hfront, hrest⟩ | ⟨front, hfront, hrest⟩
  · cases front with
    | nil => exact ⟨by simpa using hfront.symm, by simpa using hrest⟩
    | cons c rest =>
        rw [List.cons_append] at hrest
        have hmem : '-' ∈ b := by
          rw [(List.cons.inj hrest).2]
          exact List.mem_append_right _ List.mem_cons_self
        exact absurd hmem hb
  · cases front with
    | nil => exact ⟨by simpa using hfront, by simpa using hrest.symm⟩
    | cons c rest =>
        rw [List.cons_append] at hrest
        have hmem : '-' ∈ b' := by
          rw [(List.cons.inj hrest).2]
          exact List.mem_append_right _ List.mem_cons_self
        exact absurd hmem hb'

/-- Nothing shifted to the right ends in a part without a dash. -/
theorem append_dash_ne_shifted {shift a b b' : List Char} (hshift : shift ≠ []) (hb : '-' ∉ b) :
    a ++ '-' :: b ≠ shift ++ a ++ '-' :: b' := by
  intro h
  rcases List.append_eq_append_iff.1 h with ⟨front, hfront, hrest⟩ | ⟨front, hfront, -⟩
  · have hlength := congrArg List.length hfront
    have hpos := List.length_pos_iff.2 hshift
    simp only [List.length_append] at hlength
    cases front with
    | nil =>
        simp only [List.length_nil] at hlength
        omega
    | cons c rest =>
        rw [List.cons_append] at hrest
        refine hb ?_
        rw [(List.cons.inj hrest).2]
        exact List.mem_append_right _ List.mem_cons_self
  · have hlength := congrArg List.length hfront
    have hpos := List.length_pos_iff.2 hshift
    simp only [List.length_append] at hlength
    omega

theorem toList_defaultGroupId_ducklake (topic table : String) :
    (defaultGroupId .ducklake topic table).toList
      = "millpond-".toList ++ (topic.toList ++ '-' :: table.toList) := by
  simp [defaultGroupId]

theorem toList_defaultGroupId_hoglake (topic table : String) :
    (defaultGroupId .hoglake topic table).toList
      = "millpond-".toList ++ ("hoglake-".toList ++ topic.toList ++ '-' :: table.toList) := by
  simp [defaultGroupId, Destination.name]

/-- The table of a DuckLake pod's group id has no dash in it. -/
theorem defaultGroupId_ducklake_inj {topic topic' table table' : String}
    (htable : matchesSafeIdentifier table = true) (htable' : matchesSafeIdentifier table' = true)
    (h : defaultGroupId .ducklake topic table = defaultGroupId .ducklake topic' table') :
    topic = topic' ∧ table = table' := by
  have hlist := congrArg String.toList h
  rw [toList_defaultGroupId_ducklake, toList_defaultGroupId_ducklake] at hlist
  obtain ⟨htopics, htables⟩ := append_dash_inj (dash_notMem_of_safe htable)
    (dash_notMem_of_safe htable') (List.append_cancel_left hlist)
  exact ⟨String.toList_inj.1 htopics, String.toList_inj.1 htables⟩

theorem defaultGroupId_hoglake_inj {topic table table' : String}
    (h : defaultGroupId .hoglake topic table = defaultGroupId .hoglake topic table') :
    table = table' := by
  have hlist := congrArg String.toList h
  rw [toList_defaultGroupId_hoglake, toList_defaultGroupId_hoglake] at hlist
  exact String.toList_inj.1 (List.cons.inj (List.append_cancel_left (List.append_cancel_left hlist))).2

theorem defaultGroupId_ne {topic table table' : String} (htable : matchesSafeIdentifier table = true) :
    defaultGroupId .ducklake topic table ≠ defaultGroupId .hoglake topic table' := by
  intro h
  have hlist := congrArg String.toList h
  rw [toList_defaultGroupId_ducklake, toList_defaultGroupId_hoglake] at hlist
  exact append_dash_ne_shifted (by decide) (dash_notMem_of_safe htable) (List.append_cancel_left hlist)

/-- The table in the group id is the one `table_label` names. -/
theorem destinationTable {py : Python} {env : Environ} {cfg : Config} {table : String}
    (haccepted : Accepted py cfg)
    (h : loadDestinationFields py env cfg.destination = .ok (cfg.ducklake, cfg.hoglake, table)) :
    table = cfg.tableLabel ∧
      (cfg.destination = .ducklake → matchesSafeIdentifier cfg.tableLabel = true) := by
  unfold Config.tableLabel
  cases hdest : cfg.destination with
  | ducklake =>
      rw [hdest] at h
      obtain ⟨fields, -, h⟩ := bind_eq_ok.1 h
      obtain ⟨hfields, heq⟩ := Prod.mk.inj (Except.ok.inj h)
      obtain ⟨-, htable⟩ := Prod.mk.inj heq
      have hready := (haccepted.ducklake hdest).1
      obtain ⟨name, hname⟩ := Option.isSome_iff_exists.1 (hready.present cfg.ducklake.table (by simp))
      have hsafe := hready.names name (Or.inr hname)
      rw [hfields, hname] at htable
      simp only [hname, Option.bind_some, orNone, ne_empty_of_safe hsafe, if_false, Option.getD_some]
      exact ⟨htable.symm, fun _ => hsafe⟩
  | hoglake =>
      rw [hdest] at h
      obtain ⟨fields, -, h⟩ := bind_eq_ok.1 h
      obtain ⟨-, heq⟩ := Prod.mk.inj (Except.ok.inj h)
      obtain ⟨hfields, htable⟩ := Prod.mk.inj heq
      obtain ⟨-, name, -, hname, -, hmatch⟩ := (haccepted.hoglake hdest).1.names
      rw [hfields, hname] at htable
      simp only [hname, Option.bind_some, orNone, ne_empty_of_identifier hmatch, if_false,
        Option.getD_some]
      exact ⟨htable.symm, fun h => absurd h (by decide)⟩

/-- The group id of a pod without a GROUP_ID. -/
theorem load_groupId {py : Python} {env : Environ} {cfg : Config} (h : load py env = .ok cfg)
    (hdefault : env.getD "GROUP_ID" "" = "") :
    cfg.groupId = defaultGroupId cfg.destination cfg.topic cfg.tableLabel ∧
      (cfg.destination = .ducklake → matchesSafeIdentifier cfg.tableLabel = true) := by
  obtain ⟨table, hfields, hgroup⟩ := (load_readFrom h).fields
  obtain ⟨rfl, hsafe⟩ := destinationTable (load_accepted py env cfg h) hfields
  rw [hdefault] at hgroup
  exact ⟨hgroup, hsafe⟩

/-- **Default group ids keep pipelines apart.** Two pods without a GROUP_ID that consume one topic
    share their offsets only if they write to one destination and to tables of one name, so a shadow
    deployment on the other destination, or with a table of another name, never splits the stream with
    the pipeline it shadows. On DuckLake the group id tells the topic and the table's name, whatever the
    topics are. -/
theorem default_groups_apart (py : Python) (env env' : Environ) (cfg cfg' : Config)
    (h : load py env = .ok cfg) (h' : load py env' = .ok cfg')
    (hdefault : env.getD "GROUP_ID" "" = "") (hdefault' : env'.getD "GROUP_ID" "" = "")
    (hgroup : cfg.groupId = cfg'.groupId) :
    (cfg.topic = cfg'.topic → cfg.destination = cfg'.destination ∧ cfg.tableLabel = cfg'.tableLabel) ∧
      (cfg.destination = .ducklake → cfg'.destination = .ducklake →
        cfg.topic = cfg'.topic ∧ cfg.tableLabel = cfg'.tableLabel) := by
  obtain ⟨hid, hsafe⟩ := load_groupId h hdefault
  obtain ⟨hid', hsafe'⟩ := load_groupId h' hdefault'
  rw [hid, hid'] at hgroup
  constructor
  · intro htopic
    rw [htopic] at hgroup
    cases hdest : cfg.destination with
    | ducklake =>
        cases hdest' : cfg'.destination with
        | ducklake =>
            rw [hdest, hdest'] at hgroup
            exact ⟨rfl, (defaultGroupId_ducklake_inj (hsafe hdest) (hsafe' hdest') hgroup).2⟩
        | hoglake =>
            rw [hdest, hdest'] at hgroup
            exact absurd hgroup (defaultGroupId_ne (hsafe hdest))
    | hoglake =>
        cases hdest' : cfg'.destination with
        | ducklake =>
            rw [hdest, hdest'] at hgroup
            exact absurd hgroup.symm (defaultGroupId_ne (hsafe' hdest'))
        | hoglake =>
            rw [hdest, hdest'] at hgroup
            exact ⟨rfl, defaultGroupId_hoglake_inj hgroup⟩
  · intro hdest hdest'
    rw [hdest, hdest'] at hgroup
    exact defaultGroupId_ducklake_inj (hsafe hdest) (hsafe' hdest') hgroup

/-- A DuckLake pod. -/
def ducklakeEnviron (podName : String) : Environ where
  items :=
    [("KAFKA_TOPIC", "events"), ("KAFKA_BOOTSTRAP_SERVERS", "kafka:9092"), ("POD_NAME", podName),
      ("REPLICA_COUNT", "3"), ("DUCKLAKE_TABLE", "events"), ("DUCKLAKE_DATA_PATH", "s3://bucket/"),
      ("DUCKLAKE_CONNECTION", "ducklake"), ("DUCKLAKE_RDS_HOST", "rds"), ("DUCKLAKE_RDS_PASSWORD", "secret")]
  distinct := by simp

/-- Two replicas of one pipeline share their group. -/
theorem ducklake_replicas_share_group :
    ∃ cfg cfg', load plainPython (ducklakeEnviron "millpond-events-0") = .ok cfg ∧
      load plainPython (ducklakeEnviron "millpond-events-2") = .ok cfg' ∧
      cfg.groupId = "millpond-events-events" ∧ cfg'.groupId = "millpond-events-events" ∧
      cfg.tableLabel = cfg'.tableLabel := by
  have hok : ∀ podName ∈ ["millpond-events-0", "millpond-events-2"],
      (load plainPython (ducklakeEnviron podName)).toOption.map (fun cfg => (cfg.groupId, cfg.topic)) =
        some ("millpond-events-events", "events") := by decide +kernel
  have hfirst := hok "millpond-events-0" (by simp)
  have hlast := hok "millpond-events-2" (by simp)
  cases hload : load plainPython (ducklakeEnviron "millpond-events-0") with
  | error e =>
      rw [hload] at hfirst
      cases hfirst
  | ok cfg =>
      cases hload' : load plainPython (ducklakeEnviron "millpond-events-2") with
      | error e =>
          rw [hload'] at hlast
          cases hlast
      | ok cfg' =>
          rw [hload] at hfirst
          rw [hload'] at hlast
          obtain ⟨hgroup, htopic⟩ := Prod.mk.inj (Option.some.inj hfirst)
          obtain ⟨hgroup', htopic'⟩ := Prod.mk.inj (Option.some.inj hlast)
          exact ⟨cfg, cfg', rfl, rfl, hgroup, hgroup', ((default_groups_apart _ _ _ _ _ hload hload'
            (by decide +kernel) (by decide +kernel) (hgroup.trans hgroup'.symm)).1
              (htopic.trans htopic'.symm)).2⟩

end Millpond.Config
