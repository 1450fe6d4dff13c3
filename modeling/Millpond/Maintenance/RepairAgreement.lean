import Mathlib.Data.List.Infix
import Millpond.Lib.Outcomes
import Millpond.Lib.Rendering
import Millpond.Maintenance.RepairValues

set_option autoImplicit false

/-! # The scopes of the repair of partition values

The pre-flight asks for the scheme `s3://` and not for the partition; the count and the repair ask for
the partition and not for the scheme. -/

namespace Millpond.Maintenance

variable {c : RepairCatalog} {kind : RepairKind} {name : String} {tableId partitionId : ℕ}

/-! ## Agreement -/

/-- No discovered table has another live partition spec than the repair writes. -/
def SpecsMatch (c : RepairCatalog) : Prop :=
  ∀ p ∈ discoverTables c, ∃ found, resolveTable c p.1 p.2 = .ok found

/-- The discovered tables that the plan counts and repairs. -/
structure Planned (c : RepairCatalog) (kind : RepairKind) (name : String) (tableId partitionId : ℕ) :
    Prop where
  discovered : (kind, name) ∈ discoverTables c
  resolved : resolveTable c kind name = .ok (some (tableId, partitionId))

/-- The values of a file are not one non-NULL value at each index of the spec. -/
def brokenValues (kind : RepairKind) (values : List PartitionValue) : Bool :=
  indexSet values != expectedIndexes kind || hasNull values

/-- A file, with the planned table it is looked at for. -/
structure PlannedFile where
  kind : RepairKind
  name : String
  tableId : ℕ
  partitionId : ℕ
  file : DataFile

/-- A live file of a planned table, of the kind's hive layout, with broken values. -/
structure Rotten (c : RepairCatalog) (x : PlannedFile) : Prop extends
    Planned c x.kind x.name x.tableId x.partitionId where
  live : x.file ∈ c.catalog.dataFiles.rows
  table : x.file.tableId = x.tableId
  layout : inHiveLayout x.kind x.file = true
  broken : brokenValues x.kind (ownValues x.tableId c.catalog x.file.dataFileId) = true

/-- What the pre-flight asks for besides. -/
def PlannedFile.underS3 (x : PlannedFile) : Bool := isS3 x.file

/-- What the count and the repair ask for besides. -/
def PlannedFile.ofPartition (x : PlannedFile) : Bool := inPartition x.kind x.partitionId x.file

/-- The number of the first match of a column in a path. -/
def firstNumber (path column : String) : Option ℕ :=
  (firstDigits (column ++ "=").toList path.toList).map fun digits => Nat.ofDigitChars 10 digits 0

/-- The numbers of the hive segments that end a path. -/
def hiveNumbers (kind : RepairKind) (path : String) : Option (List ℕ) :=
  (hiveDigits kind.columns path).map fun segments =>
    segments.map fun digits => Nat.ofDigitChars 10 digits 0

/-- For each column the first match in a path is as good as the hive segment. -/
def FirstIsHive (kind : RepairKind) (path : String) : Prop :=
  some (kind.columns.map (firstNumber path)) = (hiveNumbers kind path).map (List.map some)

/-- Every first match in a target's path is a number that `INT` can hold. -/
def Repairable (c : Catalog) (kind : RepairKind) (tableId partitionId : ℕ) : Prop :=
  ∀ f ∈ repairTargets c kind tableId partitionId, ∀ column ∈ kind.columns,
    ∃ n ≤ 2147483647, firstNumber f.path column = some n

/-- The values of a file are the numbers in its path, each at the index of its column. -/
def FromPath (kind : RepairKind) (tableId : ℕ) (c : Catalog) (f : DataFile) : Prop :=
  ∃ numbers, hiveNumbers kind f.path = some numbers ∧
    ((ownValues tableId c f.dataFileId).map fun v => (v.partitionKeyIndex, v.partitionValue)).Perm
      (numbers.zipIdx.map fun n => (n.2, some n.1.repr))

/-- The pre-flight and the counts agree, and a committed repair leaves nothing to count and the values
    that are in the paths. -/
structure RepairAgrees (c : RepairCatalog) : Prop where
  preFlight : preFlightAnyRot c = true ↔ ∃ kind name tableId partitionId,
    Planned c kind name tableId partitionId ∧ countBroken c.catalog kind tableId partitionId ≠ (0, 0)
  counted : ∀ kind name tableId partitionId c', Planned c kind name tableId partitionId →
    executeRepair kind tableId partitionId c.catalog = .ok c' →
      countBroken c' kind tableId partitionId = (0, 0)
  written : ∀ kind name tableId partitionId c', Planned c kind name tableId partitionId →
    executeRepair kind tableId partitionId c.catalog = .ok c' →
      ∀ f ∈ repairTargets c.catalog kind tableId partitionId, FromPath kind tableId c' f

/-- A broken file is in both scopes, or there is one in the pre-flight's alone exactly if there is one
    in the repair's alone. -/
def OneVerdict (c : RepairCatalog) : Prop :=
  (∃ x, Rotten c x ∧ x.underS3 = true ∧ x.ofPartition = true) ∨
    ((∃ x, Rotten c x ∧ x.underS3 = true ∧ x.ofPartition = false) ↔
      ∃ x, Rotten c x ∧ x.underS3 = false ∧ x.ofPartition = true)

/-- Where a repair does not fail, its matches are those of the hive segments. -/
def HiveFirst (c : RepairCatalog) : Prop :=
  ∀ kind name tableId partitionId, Planned c kind name tableId partitionId →
    Repairable c.catalog kind tableId partitionId →
      ∀ f ∈ repairTargets c.catalog kind tableId partitionId, FirstIsHive kind f.path

/-! ## Names -/

/-- A character that `LIKE` takes as it is. -/
def isPlain (c : Char) : Bool := c != '%' && c != '_' && c != '\\'

theorem sqlLike_append {lit : List Char} (hlit : lit.all isPlain = true) (pattern text : List Char) :
    sqlLike (lit ++ pattern) text = true ↔ ∃ rest, lit ++ rest = text ∧ sqlLike pattern rest = true := by
  induction lit generalizing text with
  | nil => simp
  | cons c lit ih =>
      obtain ⟨hc, hrest⟩ := Bool.and_eq_true_iff.1 hlit
      have hplain : c ≠ '%' ∧ c ≠ '_' ∧ c ≠ '\\' := by simpa [isPlain, and_assoc] using hc
      cases text with
      | nil => simp [sqlLike, hplain]
      | cons d text => simp [sqlLike, hplain, ih hrest, eq_comm (a := d), and_assoc]

theorem sqlLike_escape (c : Char) (pattern text : List Char) :
    sqlLike ('\\' :: c :: pattern) text = true ↔
      ∃ rest, c :: rest = text ∧ sqlLike pattern rest = true := by
  cases text with
  | nil => simp [sqlLike]
  | cons d text => simp [sqlLike, eq_comm (a := d)]

theorem sqlLike_any (text : List Char) : sqlLike ['%'] text = true := by
  simp only [sqlLike, List.any_eq_true, List.mem_tails]
  exact ⟨[], List.nil_suffix, rfl⟩

/-- `LIKE '<lit>%'`. -/
theorem sqlLike_prefix {lit : List Char} (hlit : lit.all isPlain = true) (text : List Char) :
    sqlLike (lit ++ ['%']) text = lit.isPrefixOf text := by
  rw [Bool.eq_iff_iff, sqlLike_append hlit, List.isPrefixOf_iff_prefix]
  exact ⟨fun ⟨rest, h, _⟩ => ⟨rest, h⟩, fun ⟨rest, h⟩ => ⟨rest, h, sqlLike_any rest⟩⟩

theorem RepairKind.name_plain (kind : RepairKind) : kind.name.toList.all isPlain = true := by
  cases kind <;> decide

/-- The discovery by SQL and the discovery in Python agree on a name. -/
theorem namedLike_eq_startsLike (kind : RepairKind) (name : String) :
    namedLike kind name = startsLike kind name := by
  unfold namedLike startsLike like
  congr 1
  rw [Bool.eq_iff_iff, String.toList_append, sqlLike_append kind.name_plain, String.toList_append,
    List.isPrefixOf_iff_prefix]
  constructor
  · rintro ⟨rest, hrest, hlike⟩
    obtain ⟨tail, rfl, -⟩ := (sqlLike_escape '_' ['%'] rest).1 hlike
    exact ⟨tail, by rw [← hrest, List.append_assoc]; rfl⟩
  · rintro ⟨tail, htail⟩
    exact ⟨'_' :: tail, by rw [← htail, List.append_assoc]; rfl,
      (sqlLike_escape '_' ['%'] _).2 ⟨tail, rfl, sqlLike_any tail⟩⟩

/-- A name of the kind starts with it. -/
theorem prefix_of_startsLike (h : startsLike kind name = true) :
    kind.name.toList <+: name.toList := by
  rcases Bool.or_eq_true_iff.1 h with heq | hstart
  · rw [eq_of_beq heq]
  · rw [List.isPrefixOf_iff_prefix, String.toList_append] at hstart
    exact (List.prefix_append _ _).trans hstart

/-- The kinds start with different characters. -/
theorem kind_eq_of_prefix {other : RepairKind} (h : kind.name.toList <+: name.toList)
    (h' : other.name.toList <+: name.toList) : kind = other := by
  obtain ⟨rest, hrest⟩ := h
  obtain ⟨rest', hrest'⟩ := h'
  have hhead := congrArg List.head? (hrest.trans hrest'.symm)
  cases kind <;> cases other <;> first | rfl | simp [RepairKind.name] at hhead

theorem kindOf_eq_some_iff :
    kindOf name = some kind ↔ startsLike kind name = true := by
  have hone : ∀ k k', startsLike k name = true → startsLike k' name = true → k = k' :=
    fun k k' h h' => kind_eq_of_prefix (prefix_of_startsLike h) (prefix_of_startsLike h')
  unfold kindOf
  split_ifs with hevents hpersons
  · exact ⟨fun h => Option.some.inj h ▸ hevents, fun h => by rw [hone kind .events h hevents]⟩
  · exact ⟨fun h => Option.some.inj h ▸ hpersons, fun h => by rw [hone kind .persons h hpersons]⟩
  · cases kind <;> simp [hevents, hpersons]

/-- `LIKE '<kind>%'` of the `HAVING`. -/
theorem like_kind (h : startsLike kind name = true)
    (other : RepairKind) : like name (other.name ++ "%") = decide (other = kind) := by
  have hlike : like name (other.name ++ "%") = other.name.toList.isPrefixOf name.toList := by
    rw [like, String.toList_append]
    exact sqlLike_prefix other.name_plain _
  rw [hlike, Bool.eq_iff_iff, List.isPrefixOf_iff_prefix, decide_eq_true_iff]
  constructor
  · exact fun hother => kind_eq_of_prefix hother (prefix_of_startsLike h)
  · rintro rfl
    exact prefix_of_startsLike h

/-! ## The pre-flight -/

theorem mem_discoverTables : (kind, name) ∈ discoverTables c ↔
    name ∈ c.posthogTables.map TableRow.tableName ∧ isCatalogTableName name = true ∧
      startsLike kind name = true := by
  have hany : startsLike kind name = true →
      (namedLike .events name || namedLike .persons name) = true := by
    intro h
    rw [namedLike_eq_startsLike, namedLike_eq_startsLike]
    cases kind <;> simp [h]
  simp only [discoverTables, List.mem_filterMap, List.mem_filter, List.mem_insertionSort,
    Option.map_eq_some_iff, Prod.mk.injEq, kindOf_eq_some_iff]
  constructor
  · rintro ⟨_, ⟨⟨hmem, -⟩, hcatalog⟩, _, hkind, rfl, rfl⟩
    exact ⟨hmem, hcatalog, hkind⟩
  · rintro ⟨hmem, hcatalog, hkind⟩
    exact ⟨name, ⟨⟨hmem, hany hkind⟩, hcatalog⟩, kind, hkind, rfl, rfl⟩

theorem resolveTable_rows {found : Option (ℕ × ℕ)} (h : resolveTable c kind name = .ok found) :
    ((c.partitionedTables.filter fun p => p.1.tableName == name).map fun p =>
      (p.1.tableId, p.2.partitionId)) = found.toList := by
  unfold resolveTable at h
  split at h
  · rename_i hrows
    rw [hrows, ← Except.ok.inj h]
    rfl
  · rename_i hrows
    dsimp only at h
    split at h
    · rw [hrows, ← Except.ok.inj h]
      rfl
    · cases h
  · cases h

/-- A table is joined to its files once if it resolves, and else never. -/
theorem count_joinedNames {found : Option (ℕ × ℕ)} (h : resolveTable c kind name = .ok found)
    (f : DataFile) :
    (joinedNames c f).count name = found.toList.countP fun p => p.1 == f.tableId := by
  rw [← resolveTable_rows h, List.countP_map, List.countP_filter, joinedNames, List.count,
    List.countP_map, List.countP_filter]
  exact List.countP_congr fun p _ => by simp [and_comm]

theorem mem_posthogTables_of_joined {f : DataFile} (h : name ∈ joinedNames c f) :
    name ∈ c.posthogTables.map TableRow.tableName := by
  obtain ⟨p, hp, rfl⟩ := List.mem_map.1 h
  obtain ⟨t, ht, hinfo⟩ := List.mem_flatMap.1 (List.mem_filter.1 hp).1
  obtain ⟨info, -, rfl⟩ := List.mem_map.1 hinfo
  exact List.mem_map_of_mem ht

/-- A discovered name is joined to the files of the table that it resolves to, once to each. -/
theorem joined_iff_planned (hspec : SpecsMatch c) (hdisc : (kind, name) ∈ discoverTables c)
    (f : DataFile) :
    name ∈ joinedNames c f ↔ ∃ partitionId, Planned c kind name f.tableId partitionId := by
  obtain ⟨found, hfound⟩ := hspec _ hdisc
  rw [← List.count_pos_iff, count_joinedNames hfound]
  constructor
  · intro hpos
    obtain ⟨p, hp, htable⟩ := List.countP_pos_iff.1 hpos
    have hsome : found = some p := Option.mem_toList.1 hp
    exact ⟨p.2, hdisc, by rw [hfound, hsome, ← eq_of_beq htable]⟩
  · rintro ⟨partitionId, -, hresolved⟩
    obtain rfl := Except.ok.inj (hfound.symm.trans hresolved)
    simp

theorem Planned.count_joinedNames (h : Planned c kind name tableId partitionId) {f : DataFile}
    (hf : f.tableId = tableId) : (joinedNames c f).count name = 1 := by
  rw [Maintenance.count_joinedNames h.resolved, hf]
  simp

/-- The `HAVING` is about the kind of the name. -/
theorem preFlightRot_eq (h : startsLike kind name = true) (values : List PartitionValue) :
    preFlightRot name 1 values = brokenValues kind values := by
  have hevents : like name "events%" = decide (RepairKind.events = kind) := like_kind h .events
  have hpersons : like name "persons%" = decide (RepairKind.persons = kind) := like_kind h .persons
  unfold preFlightRot brokenValues
  rw [hevents, hpersons]
  cases kind <;> simp

/-- The `WHERE` is the layout of the name's kind and the scheme. -/
theorem preFlightScope_iff (h : startsLike kind name = true) (f : DataFile) :
    preFlightScope name f = true ↔
      isCatalogTableName name = true ∧ inHiveLayout kind f = true ∧ isS3 f = true := by
  have hother : ∀ other, namedLike other name = decide (other = kind) := fun other => by
    rw [namedLike_eq_startsLike, Bool.eq_iff_iff, decide_eq_true_iff]
    exact ⟨fun hother => kind_eq_of_prefix (prefix_of_startsLike hother) (prefix_of_startsLike h),
      fun heq => heq ▸ h⟩
  unfold preFlightScope inHiveLayout
  rw [hother, hother]
  cases kind <;> simp <;> tauto

theorem startsLike_of_scope {f : DataFile} (h : preFlightScope name f = true) :
    ∃ kind, startsLike kind name = true := by
  unfold preFlightScope at h
  simp only [Bool.and_eq_true, Bool.or_eq_true, namedLike_eq_startsLike] at h
  rcases h.2 with ⟨hevents, -⟩ | ⟨hpersons, -⟩
  · exact ⟨.events, hevents⟩
  · exact ⟨.persons, hpersons⟩

/-- The pre-flight finds a broken file under `s3://`, in whatever partition spec. -/
theorem preFlightAnyRot_iff (hspec : SpecsMatch c) :
    preFlightAnyRot c = true ↔ ∃ x, Rotten c x ∧ x.underS3 = true := by
  simp only [preFlightAnyRot, List.any_eq_true, List.mem_dedup, Bool.and_eq_true]
  constructor
  · rintro ⟨f, hf, name, hjoined, hscope, hrot⟩
    obtain ⟨kind, hkind⟩ := startsLike_of_scope hscope
    obtain ⟨hcatalog, hlayout, hs3⟩ := (preFlightScope_iff hkind f).1 hscope
    have hdisc := mem_discoverTables.2 ⟨mem_posthogTables_of_joined hjoined, hcatalog, hkind⟩
    obtain ⟨partitionId, hplan⟩ := (joined_iff_planned hspec hdisc f).1 hjoined
    rw [hplan.count_joinedNames rfl, preFlightRot_eq hkind] at hrot
    exact ⟨⟨kind, name, f.tableId, partitionId, f⟩, ⟨hplan, hf, rfl, hlayout, hrot⟩, hs3⟩
  · rintro ⟨⟨kind, name, tableId, partitionId, f⟩, ⟨hplan, hf, htable, hlayout, hbroken⟩, hs3⟩
    obtain ⟨-, hcatalog, hkind⟩ := mem_discoverTables.1 hplan.discovered
    obtain rfl : f.tableId = tableId := htable
    refine ⟨f, hf, name, (joined_iff_planned hspec hplan.discovered f).2 ⟨_, hplan⟩, ?_, ?_⟩
    · exact (preFlightScope_iff hkind f).2 ⟨hcatalog, hlayout, hs3⟩
    · rw [hplan.count_joinedNames rfl, preFlightRot_eq hkind]
      exact hbroken

/-! ## The count -/

theorem mem_repairTargets {c : Catalog} {f : DataFile} : f ∈ repairTargets c kind tableId partitionId ↔
    f ∈ c.dataFiles.rows ∧ f.tableId = tableId ∧ inHiveLayout kind f = true ∧
      inPartition kind partitionId f = true := by
  simp [repairTargets, and_assoc]

theorem countStates_eq_zero_iff {c : Catalog} {ids : List ℕ} : countStates c kind tableId ids = (0, 0) ↔
    ∀ id ∈ ids, brokenValues kind (ownValues tableId c id) = false := by
  simp only [countStates, Prod.mk.injEq, List.length_eq_zero_iff, List.filter_eq_nil_iff, brokenValues,
    Bool.or_eq_false_iff, Bool.not_eq_true]
  exact ⟨fun h id hid => ⟨h.1 id hid, h.2 id hid⟩, fun h => ⟨fun id hid => (h id hid).1, fun id hid =>
    (h id hid).2⟩⟩

/-- The count finds a broken file of the live partition spec, under whatever scheme. -/
theorem exists_countBroken_iff : (∃ kind name tableId partitionId, Planned c kind name tableId partitionId ∧
    countBroken c.catalog kind tableId partitionId ≠ (0, 0)) ↔ ∃ x, Rotten c x ∧ x.ofPartition = true := by
  simp only [Ne, countBroken, countStates_eq_zero_iff, List.forall_mem_map, not_forall, Bool.not_eq_false]
  constructor
  · rintro ⟨kind, name, tableId, partitionId, hplan, f, hf, hbroken⟩
    obtain ⟨hmem, htable, hlayout, hpartition⟩ := mem_repairTargets.1 hf
    exact ⟨⟨kind, name, tableId, partitionId, f⟩, ⟨hplan, hmem, htable, hlayout, hbroken⟩, hpartition⟩
  · rintro ⟨x, hrotten, hpartition⟩
    exact ⟨x.kind, x.name, x.tableId, x.partitionId, hrotten.toPlanned, x.file,
      mem_repairTargets.2 ⟨hrotten.live, hrotten.table, hrotten.layout, hpartition⟩, hrotten.broken⟩

/-! ## The repair -/

/-- The rows that the repair writes for a file. -/
def repairedValues (kind : RepairKind) (tableId : ℕ) (f : DataFile) : List PartitionValue :=
  kind.spec.map fun col => ⟨f.dataFileId, tableId, col.1, (firstNumber f.path col.2).map Nat.repr⟩

theorem pathValue_eq_ok_iff {column path : String} {value : Option String} :
    pathValue column path = .ok value ↔
      (∀ n ∈ firstNumber path column, n ≤ 2147483647) ∧
        value = (firstNumber path column).map Nat.repr := by
  unfold pathValue firstNumber
  cases firstDigits (column ++ "=").toList path.toList with
  | none => simp [eq_comm]
  | some digits =>
      simp only [Option.map_some, Option.mem_def, Option.some.injEq, forall_eq']
      split_ifs with h
      · simp [h]
      · simp [not_lt.1 h, eq_comm]

section Execute

variable {c : Catalog} {f : DataFile}

/-- The rows that the repair writes. -/
def repairedRows (kind : RepairKind) (tableId : ℕ) (targets : List DataFile) : List PartitionValue :=
  kind.spec.flatMap fun col => targets.map fun f =>
    ⟨f.dataFileId, tableId, col.1, (firstNumber f.path col.2).map Nat.repr⟩

/-- The catalog after a repair. -/
def repaired (kind : RepairKind) (tableId partitionId : ℕ) (c : Catalog) : Catalog :=
  let targets := repairTargets c kind tableId partitionId
  let ids := targets.map DataFile.dataFileId
  { c with
    dataFiles := c.dataFiles.update (DataFile.relabelled ids partitionId) (relabelled_key ids partitionId)
    filePartitionValues :=
      (c.filePartitionValues.filter fun v => !(v.tableId == tableId && decide (v.dataFileId ∈ ids)))
        ++ repairedRows kind tableId targets }

theorem repairRows_eq_ok_iff {targets : List DataFile} {rows : List PartitionValue} :
    repairRows kind tableId targets = .ok rows ↔
      (∀ f ∈ targets, ∀ col ∈ kind.spec, ∀ n ∈ firstNumber f.path col.2, n ≤ 2147483647) ∧
        rows = repairedRows kind tableId targets := by
  have hrow : ∀ (p : (ℕ × String) × DataFile) row,
      ((pathValue p.1.2 p.2.path).map fun value => (⟨p.2.dataFileId, tableId, p.1.1, value⟩ :
        PartitionValue)) = .ok row ↔
        (∀ n ∈ firstNumber p.2.path p.1.2, n ≤ 2147483647) ∧
          row = ⟨p.2.dataFileId, tableId, p.1.1, (firstNumber p.2.path p.1.2).map Nat.repr⟩ := by
    intro p row
    cases hvalue : pathValue p.1.2 p.2.path with
    | error e =>
        refine ⟨fun h => (by cases h), fun ⟨hfits, _⟩ => ?_⟩
        rw [pathValue_eq_ok_iff.2 ⟨hfits, rfl⟩] at hvalue
        cases hvalue
    | ok value =>
        obtain ⟨hfits, rfl⟩ := pathValue_eq_ok_iff.1 hvalue
        exact ⟨fun h => ⟨hfits, (Except.ok.inj h).symm⟩, fun h => congrArg Except.ok h.2.symm⟩
  unfold repairRows repairedRows
  rw [mapM_eq_ok_map_iff hrow, List.map_flatMap]
  simp only [List.map_map, List.mem_flatMap, List.mem_map]
  refine and_congr ⟨fun h f hf col hcol => h (col, f) ⟨col, hcol, f, hf, rfl⟩, ?_⟩ Iff.rfl
  rintro h _ ⟨col, hcol, f, hf, rfl⟩
  exact h f hf col hcol

/-- The repair writes the values of a target, and no others. -/
theorem ownValues_repaired (h : f ∈ repairTargets c kind tableId partitionId) :
    ownValues tableId (repaired kind tableId partitionId c) f.dataFileId
      = repairedValues kind tableId f := by
  let targets := repairTargets c kind tableId partitionId
  have hone : (targets.filter fun g => g.dataFileId = f.dataFileId) = [f] := by
    have hnodup : targets.Nodup := c.dataFiles.rows_nodup.filter _
    refine List.perm_singleton.1 ((List.perm_ext_iff_of_nodup (hnodup.filter _)
      (List.nodup_singleton f)).2 fun g => ?_)
    rw [List.mem_filter, List.mem_singleton, decide_eq_true_iff]
    constructor
    · exact fun ⟨hg, hid⟩ => Table.eq_of_key (mem_repairTargets.1 hg).1 (mem_repairTargets.1 h).1 hid
    · rintro rfl
      exact ⟨h, rfl⟩
  have hold : ∀ v ∈ c.filePartitionValues.filter fun v =>
      !(v.tableId == tableId && decide (v.dataFileId ∈ targets.map DataFile.dataFileId)),
      ¬(v.tableId = tableId ∧ v.dataFileId = f.dataFileId) := by
    rintro v hv ⟨rfl, hid⟩
    have hmem : f.dataFileId ∈ targets.map DataFile.dataFileId := List.mem_map_of_mem h
    obtain ⟨-, hout⟩ := List.mem_filter.1 hv
    rw [hid, decide_eq_true hmem] at hout
    simp at hout
  have hnew : ∀ col : ℕ × String,
      ((targets.map fun g => (⟨g.dataFileId, tableId, col.1,
        (firstNumber g.path col.2).map Nat.repr⟩ : PartitionValue)).filter fun v =>
          decide (v.tableId = tableId ∧ v.dataFileId = f.dataFileId))
        = [⟨f.dataFileId, tableId, col.1, (firstNumber f.path col.2).map Nat.repr⟩] := by
    intro col
    rw [List.filter_map]
    have hpred : ((fun v : PartitionValue => decide (v.tableId = tableId ∧ v.dataFileId = f.dataFileId)) ∘
        fun g : DataFile => (⟨g.dataFileId, tableId, col.1,
          (firstNumber g.path col.2).map Nat.repr⟩ : PartitionValue))
        = fun g => decide (g.dataFileId = f.dataFileId) := by
      funext g
      simp
    rw [hpred, hone, List.map_singleton]
  unfold ownValues repaired repairedRows repairedValues
  rw [List.filter_append, List.filter_eq_nil_iff.2 fun v hv => by simpa using hold v hv,
    List.nil_append, List.filter_flatMap]
  rw [List.map_eq_flatMap]
  exact List.flatMap_congr fun col _ => hnew col

theorem forall_spec_iff {P : String → Prop} :
    (∀ col ∈ kind.spec, P col.2) ↔ ∀ column ∈ kind.columns, P column := by
  have hsnd : kind.spec.map Prod.snd = kind.columns := by cases kind <;> rfl
  rw [← hsnd, List.forall_mem_map]

/-- What the repair wrote is not broken, but for columns that are not in the path. -/
theorem brokenValues_repairedValues :
    brokenValues kind (repairedValues kind tableId f) = false ↔
      ∀ column ∈ kind.columns, (firstNumber f.path column).isSome = true := by
  have hindexes : indexSet (repairedValues kind tableId f) = expectedIndexes kind := by
    cases kind <;> rfl
  have hne : (repairedValues kind tableId f).isEmpty = false := by cases kind <;> rfl
  rw [← forall_spec_iff, brokenValues, hindexes, hasNull, hne]
  simp [repairedValues, Option.isSome_iff_ne_none]

/-- The repair commits exactly if every first match in a target's path is an `INT`. -/
theorem executeRepair_eq_ok_iff {c' : Catalog} :
    executeRepair kind tableId partitionId c = .ok c' ↔
      Repairable c kind tableId partitionId ∧ repaired kind tableId partitionId c = c' := by
  have hcount : countStates (repaired kind tableId partitionId c) kind tableId
      ((repairTargets c kind tableId partitionId).map DataFile.dataFileId) = (0, 0) ↔
        ∀ f ∈ repairTargets c kind tableId partitionId, ∀ column ∈ kind.columns,
          (firstNumber f.path column).isSome = true := by
    rw [countStates_eq_zero_iff, List.forall_mem_map]
    refine forall₂_congr fun f hf => ?_
    rw [ownValues_repaired hf, brokenValues_repairedValues]
  have hrepairable : Repairable c kind tableId partitionId ↔
      (∀ f ∈ repairTargets c kind tableId partitionId, ∀ col ∈ kind.spec,
        ∀ n ∈ firstNumber f.path col.2, n ≤ 2147483647) ∧
      ∀ f ∈ repairTargets c kind tableId partitionId, ∀ column ∈ kind.columns,
        (firstNumber f.path column).isSome = true := by
    rw [← forall₂_and]
    refine forall₂_congr fun f hf => ?_
    rw [forall_spec_iff (P := fun column => ∀ n ∈ firstNumber f.path column, n ≤ 2147483647),
      ← forall₂_and]
    refine forall₂_congr fun column _ => ?_
    cases firstNumber f.path column <;> simp
  unfold executeRepair
  rw [bind_eq_ok, hrepairable, ← hcount]
  constructor
  · rintro ⟨rows, hrows, hpost⟩
    obtain ⟨hfits, rfl⟩ := repairRows_eq_ok_iff.1 hrows
    dsimp only at hpost
    split_ifs at hpost with hstates
    obtain ⟨hwrong, hnulls⟩ := not_or.1 hstates
    exact ⟨⟨hfits, Prod.ext (Nat.eq_zero_of_not_pos hwrong) (Nat.eq_zero_of_not_pos hnulls)⟩,
      Except.ok.inj hpost⟩
  · rintro ⟨⟨hfits, hstates⟩, rfl⟩
    have hok : ¬(0 < (countStates (repaired kind tableId partitionId c) kind tableId
        ((repairTargets c kind tableId partitionId).map DataFile.dataFileId)).1 ∨
        0 < (countStates (repaired kind tableId partitionId c) kind tableId
          ((repairTargets c kind tableId partitionId).map DataFile.dataFileId)).2) := by
      rw [hstates]
      simp
    exact ⟨_, repairRows_eq_ok_iff.2 ⟨hfits, rfl⟩, if_neg hok⟩

theorem perm_zipIdx_iff {β : Type} {l₁ l₂ : List β} :
    (l₁.zipIdx.map Prod.swap).Perm (l₂.zipIdx.map Prod.swap) ↔ l₁ = l₂ := by
  have hsorted : ∀ l : List β, (l.zipIdx.map Prod.swap).Pairwise fun a b => a.1 < b.1 := by
    intro l
    have hfst : (l.zipIdx.map Prod.swap).map Prod.fst = List.range' 0 l.length := by
      rw [List.map_map]
      exact List.zipIdx_map_snd 0 l
    exact List.pairwise_map.1 (hfst ▸ List.pairwise_lt_range')
  constructor
  · intro h
    have heq := h.eq_of_pairwise (fun a b _ _ hab hba => absurd hab (by omega)) (hsorted _) (hsorted _)
    rw [← List.zipIdx_map_fst 0 l₁, List.map_injective_iff.2 Prod.swap_injective heq,
      List.zipIdx_map_fst]
  · rintro rfl
    exact List.Perm.refl _

/-- After the repair the values are those of the hive segments exactly if these are the first
    matches. -/
theorem fromPath_repaired_iff (h : f ∈ repairTargets c kind tableId partitionId) :
    FromPath kind tableId (repaired kind tableId partitionId c) f ↔ FirstIsHive kind f.path := by
  have hrepr : ∀ m n : ℕ, m.repr = n.repr ↔ m = n :=
    fun m n => ⟨fun h => repr_inj (congrArg String.toList h), fun h => by rw [h]⟩
  have hpairs : (repairedValues kind tableId f).map (fun v => (v.partitionKeyIndex, v.partitionValue))
      = ((kind.columns.map fun column => (firstNumber f.path column).map Nat.repr).zipIdx.map
          Prod.swap) := by
    cases kind <;> rfl
  have hnumbers : ∀ numbers : List ℕ, (numbers.zipIdx.map fun n => (n.2, some n.1.repr))
      = (numbers.map fun n => some n.repr).zipIdx.map Prod.swap := fun numbers => by
    rw [List.zipIdx_map, List.map_map]
    rfl
  unfold FromPath FirstIsHive
  rw [ownValues_repaired h, hpairs]
  simp only [hnumbers, perm_zipIdx_iff]
  cases hiveNumbers kind f.path with
  | none => simp
  | some numbers =>
      have hinj : Function.Injective (Option.map Nat.repr) :=
        Option.map_injective fun m n => (hrepr m n).1
      have hsome : (numbers.map fun n => some n.repr) = (numbers.map some).map (Option.map Nat.repr) := by
        rw [List.map_map]
        rfl
      have hcols : (kind.columns.map fun column => (firstNumber f.path column).map Nat.repr)
          = (kind.columns.map (firstNumber f.path)).map (Option.map Nat.repr) := by
        rw [List.map_map]
        rfl
      simp only [Option.some.injEq, exists_eq_left', Option.map_some, hsome, hcols,
        (List.map_injective_iff.2 hinj).eq_iff]

/-- The repair leaves the targets targets, and makes no others. -/
theorem repairTargets_repaired :
    (repairTargets (repaired kind tableId partitionId c) kind tableId partitionId).map
        DataFile.dataFileId = (repairTargets c kind tableId partitionId).map DataFile.dataFileId := by
  let relabel := DataFile.relabelled
    ((repairTargets c kind tableId partitionId).map DataFile.dataFileId) partitionId
  have hkeep : ∀ f ∈ c.dataFiles.rows,
      ((relabel f).tableId == tableId && inHiveLayout kind (relabel f) &&
          inPartition kind partitionId (relabel f))
        = (f.tableId == tableId && inHiveLayout kind f && inPartition kind partitionId f) := by
    intro f hf
    unfold relabel DataFile.relabelled
    split_ifs with h
    · obtain ⟨g, hg, hid⟩ := List.mem_map.1 h.1
      obtain ⟨hmem, rfl, hlayout, hpartition⟩ := mem_repairTargets.1 hg
      obtain rfl := Table.eq_of_key hmem hf hid
      have hlayout' : inHiveLayout kind { g with partitionId := some partitionId } = true := hlayout
      have hpartition' : inPartition kind partitionId { g with partitionId := some partitionId } = true := by
        simp [inPartition]
      rw [hlayout, hpartition, hlayout', hpartition']
    · rfl
  have hrows : (repaired kind tableId partitionId c).dataFiles.rows = c.dataFiles.rows.map relabel := rfl
  unfold repairTargets
  rw [hrows, List.filter_map, List.map_map]
  refine (congrArg _ (List.filter_congr hkeep)).trans ?_
  exact List.map_congr_left fun f _ => relabelled_key _ _ f

theorem countBroken_repaired (h : Repairable c kind tableId partitionId) :
    countBroken (repaired kind tableId partitionId c) kind tableId partitionId = (0, 0) := by
  rw [countBroken, repairTargets_repaired, countStates_eq_zero_iff, List.forall_mem_map]
  intro f hf
  rw [ownValues_repaired hf, brokenValues_repairedValues]
  intro column hcolumn
  obtain ⟨n, -, hn⟩ := h f hf column hcolumn
  rw [hn]
  rfl

end Execute

/-! ## Agreement of the three scopes -/

/-- Two filters over the same elements both find one, or neither does: some element passes both, or
    what passes the first alone is there exactly if what passes the second alone is. -/
theorem exists_iff_exists_iff {α : Type} {r : α → Prop} {p q : α → Bool} :
    ((∃ x, r x ∧ p x = true) ↔ ∃ x, r x ∧ q x = true) ↔
      (∃ x, r x ∧ p x = true ∧ q x = true) ∨
        ((∃ x, r x ∧ p x = true ∧ q x = false) ↔ ∃ x, r x ∧ p x = false ∧ q x = true) := by
  by_cases hboth : ∃ x, r x ∧ p x = true ∧ q x = true
  · obtain ⟨x, hr, hp, hq⟩ := hboth
    exact iff_of_true (iff_of_true ⟨x, hr, hp⟩ ⟨x, hr, hq⟩) (Or.inl ⟨x, hr, hp, hq⟩)
  · have hleft : (∃ x, r x ∧ p x = true) ↔ ∃ x, r x ∧ p x = true ∧ q x = false :=
      ⟨fun ⟨x, hr, hp⟩ => ⟨x, hr, hp, Bool.eq_false_iff.2 fun hq => hboth ⟨x, hr, hp, hq⟩⟩,
        fun ⟨x, hr, hp, _⟩ => ⟨x, hr, hp⟩⟩
    have hright : (∃ x, r x ∧ q x = true) ↔ ∃ x, r x ∧ p x = false ∧ q x = true :=
      ⟨fun ⟨x, hr, hq⟩ => ⟨x, hr, Bool.eq_false_iff.2 fun hp => hboth ⟨x, hr, hp, hq⟩, hq⟩,
        fun ⟨x, hr, _, hq⟩ => ⟨x, hr, hq⟩⟩
    rw [hleft, hright, or_iff_right hboth]

theorem preFlight_iff_oneVerdict (hspec : SpecsMatch c) :
    (preFlightAnyRot c = true ↔ ∃ kind name tableId partitionId,
      Planned c kind name tableId partitionId ∧
        countBroken c.catalog kind tableId partitionId ≠ (0, 0)) ↔ OneVerdict c := by
  rw [preFlightAnyRot_iff hspec, exists_countBroken_iff]
  exact exists_iff_exists_iff

/-- Pre-flight, count and repair agree exactly if no broken file is in one scope without another
    verdict, and if the repair's matches are those of the hive segments. -/
theorem repairAgrees_iff (hspec : SpecsMatch c) : RepairAgrees c ↔ OneVerdict c ∧ HiveFirst c := by
  constructor
  · intro h
    refine ⟨(preFlight_iff_oneVerdict hspec).1 h.preFlight, ?_⟩
    intro kind name tableId partitionId hplan hrepairable f hf
    exact (fromPath_repaired_iff hf).1 (h.written kind name tableId partitionId _ hplan
      (executeRepair_eq_ok_iff.2 ⟨hrepairable, rfl⟩) f hf)
  · rintro ⟨hverdict, hfirst⟩
    constructor
    · exact (preFlight_iff_oneVerdict hspec).2 hverdict
    · intro kind name tableId partitionId c' hplan hok
      obtain ⟨hrepairable, rfl⟩ := executeRepair_eq_ok_iff.1 hok
      exact countBroken_repaired hrepairable
    · intro kind name tableId partitionId c' hplan hok f hf
      obtain ⟨hrepairable, rfl⟩ := executeRepair_eq_ok_iff.1 hok
      exact (fromPath_repaired_iff hf).2
        (hfirst kind name tableId partitionId hplan hrepairable f hf)

/-- A table that was partitioned anew, with a file of its old spec that lacks a value. -/
def repartitioned : RepairCatalog where
  catalog :=
    { snapshots := Table.empty
      dataFiles :=
        ⟨[⟨10, 4, 1, none, "s3://lake/events/year=2024/month=1/day=2/a.parquet", false, some 5, none, none⟩],
          by decide⟩
      deleteFiles := Table.empty
      filesScheduledForDeletion := []
      fileColumnStats := []
      filePartitionValues := [⟨10, 4, 0, some "2024"⟩, ⟨10, 4, 1, some "1"⟩]
      fileVariantStats := []
      snapshotChanges := []
      tableStats := []
      versions := []
      cursors := [] }
  tables := [⟨4, 1, "events", none⟩]
  schemas := [⟨1, "posthog", none⟩]
  partitionInfo := [⟨5, 4, some 3⟩, ⟨6, 4, none⟩]
  partitionColumns := [⟨6, 4, 0, "year"⟩, ⟨6, 4, 1, "month"⟩, ⟨6, 4, 2, "day"⟩]

theorem repartitioned_discovered : discoverTables repartitioned = [(.events, "events")] := by decide

theorem repartitioned_resolved :
    resolveTable repartitioned .events "events" = .ok (some (4, 6)) := by decide

theorem repartitioned_specs : SpecsMatch repartitioned := by
  intro p hp
  rw [repartitioned_discovered, List.mem_singleton] at hp
  obtain rfl := hp
  exact ⟨_, repartitioned_resolved⟩

theorem repartitioned_iff :
    RepairAgrees repartitioned ↔ OneVerdict repartitioned ∧ HiveFirst repartitioned :=
  repairAgrees_iff repartitioned_specs

/-- The pre-flight fires over a file that no count sees and no repair touches. -/
theorem repartitioned_fires : SpecsMatch repartitioned ∧ ¬RepairAgrees repartitioned := by
  refine ⟨repartitioned_specs, fun h => ?_⟩
  have hfires : preFlightAnyRot repartitioned = true := by decide
  obtain ⟨kind, name, tableId, partitionId, hplan, hcount⟩ := h.preFlight.1 hfires
  have hdisc := hplan.discovered
  rw [repartitioned_discovered, List.mem_singleton] at hdisc
  obtain ⟨rfl, rfl⟩ := Prod.mk.inj hdisc
  have hids := Option.some.inj (Except.ok.inj (hplan.resolved.symm.trans repartitioned_resolved))
  obtain ⟨rfl, rfl⟩ := Prod.mk.inj hids
  exact hcount (by decide)

end Millpond.Maintenance
