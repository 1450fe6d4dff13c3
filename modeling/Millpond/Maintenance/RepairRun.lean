import Millpond.Lib.Autocommit
import Millpond.Maintenance.RepairAgreement

set_option autoImplicit false

/-! # Runs of the repair of partition values

`repair-partition-values` with its calls: the plan of the broken tables, and a transaction for each of
them whose failure does not stop the others. The log is left out. -/

namespace Millpond.Maintenance

open Prog Autocommit

/-! ## The run -/

inductive RepairRunError where
  | lockHeld
  /-- What a call found against the repair. -/
  | repair (e : RepairError)
  /-- Any other error of a call. -/
  | statement
  | allFailed (tables : List String)
deriving DecidableEq, Repr

abbrev RepairM := EStateM RepairRunError (Session RepairCatalog RepairRunError)

/-- A table of the plan. -/
structure RepairTask where
  kind : RepairKind
  name : String
  tableId : ℕ
  partitionId : ℕ
  wrongIndexes : ℕ
  nullValues : ℕ
deriving DecidableEq, Repr

def RepairCatalog.withCatalog (c : RepairCatalog) (catalog : Catalog) : RepairCatalog :=
  { c with catalog }

@[simp] theorem RepairCatalog.withCatalog_catalog (c : RepairCatalog) (catalog : Catalog) :
    (c.withCatalog catalog).catalog = catalog := rfl

/-- `_acquire_advisory_lock`. -/
def acquireRepairLock (lockFree : RepairCatalog → Bool) : RepairM PUnit :=
  call fun c => (c, if lockFree c then .ok ⟨⟩ else .error .lockHeld)

/-- `if not dry_run: _acquire_advisory_lock(conn)`. -/
def lockRepairUnless (lockFree : RepairCatalog → Bool) (dryRun : Bool) : RepairM PUnit :=
  if dryRun then pure ⟨⟩ else acquireRepairLock lockFree

/-- A call that reads, and may refuse what it read. -/
def inspect {α : Type} (read : RepairCatalog → Except RepairError α) : RepairM α :=
  call fun c => (c, (read c).mapError .repair)

/-- The lookup of `_repair_partition_values_resolve`. -/
def lookupTable (name : String) (c : RepairCatalog) : Except RepairError (Option (ℕ × ℕ)) :=
  match (c.partitionedTables.filter fun p => p.1.tableName == name).map fun p =>
      (p.1.tableId, p.2.partitionId) with
  | [] => .ok none
  | [found] => .ok (some found)
  | rows => .error (.severalSpecs rows.length)

/-- Its check of the live spec. -/
def checkSpec (kind : RepairKind) (tableId partitionId : ℕ) (c : RepairCatalog) :
    Except RepairError Unit :=
  let rows := (c.partitionColumns.filter fun col =>
    col.partitionId == partitionId && col.tableId == tableId).insertionSort
      fun a b => a.partitionKeyIndex ≤ b.partitionKeyIndex
  let actual := rows.map fun col => (col.partitionKeyIndex, col.transform)
  if actual = kind.spec then .ok ⟨⟩ else .error (.specDrift actual)

/-- `_repair_partition_values_resolve`, a call for each of its queries. -/
def resolveCalls (kind : RepairKind) (name : String) : RepairM (Option (ℕ × ℕ)) := do
  let found ← inspect (lookupTable name)
  match found with
  | none => pure none
  | some (tableId, partitionId) => do
      inspect (checkSpec kind tableId partitionId)
      pure (some (tableId, partitionId))

/-- The plan for a table, if it resolves and has broken files. -/
def planTable (kind : RepairKind) (name : String) : RepairM (Option RepairTask) := do
  let resolved ← resolveCalls kind name
  match resolved with
  | none => pure none
  | some (tableId, partitionId) => do
      let (wrong, nulls) ← query fun c => countBroken c.catalog kind tableId partitionId
      pure (if 0 < wrong ∨ 0 < nulls then some ⟨kind, name, tableId, partitionId, wrong, nulls⟩ else none)

/-- The loop of the plan: a table whose planning fails is skipped. -/
def planTables : List (RepairKind × String) → RepairM (List RepairTask)
  | [] => pure []
  | (kind, name) :: rest => do
      let task ← tryCatch (planTable kind name) fun _ => pure none
      let tasks ← planTables rest
      pure (task.toList ++ tasks)

/-- `_repair_partition_values_execute`, one transaction. -/
def executeCall (t : RepairTask) : RepairM PUnit :=
  call fun c => match executeRepair t.kind t.tableId t.partitionId c.catalog with
    | .ok catalog => (c.withCatalog catalog, .ok ⟨⟩)
    | .error e => (c, .error (.repair e))

/-- The repair of a table, with the count after it. -/
def repairTable (t : RepairTask) : RepairM PUnit := do
  executeCall t
  let _ ← query fun c => countBroken c.catalog t.kind t.tableId t.partitionId

/-- The loop of the repair: the tables that failed. -/
def repairTables : List RepairTask → RepairM (List String)
  | [] => pure []
  | t :: rest => do
      let failed ← tryCatch (do repairTable t; pure false) fun _ => pure true
      let others ← repairTables rest
      pure (if failed then t.name :: others else others)

/-- `repair_partition_values`. -/
def repairPartitionValues (lockFree : RepairCatalog → Bool) (dryRun : Bool) : RepairM PUnit := do
  lockRepairUnless lockFree dryRun
  let discovered ← query discoverTables
  if discovered.isEmpty then pure ⟨⟩
  else do
    let rot ← query preFlightAnyRot
    if !rot then pure ⟨⟩
    else do
      -- the outliers, which are only logged
      query fun _ => ()
      let plan ← planTables discovered
      if plan.isEmpty || dryRun then pure ⟨⟩
      else do
        let failed ← repairTables plan
        if !failed.isEmpty && failed.length == plan.length then throw (.allFailed failed)
        else pure ⟨⟩

/-! ## One repair -/

variable {c d : RepairCatalog} {kind other : RepairKind} {tableId partitionId id : ℕ}

theorem resolveTable_eq {name : String} : resolveTable c kind name =
    (lookupTable name c).bind fun found => match found with
      | none => .ok none
      | some (tableId, partitionId) =>
          (checkSpec kind tableId partitionId c).map fun _ => some (tableId, partitionId) := by
  unfold resolveTable lookupTable
  split
  · next hrows => rw [hrows]; rfl
  · next tableId partitionId hrows =>
      rw [hrows]
      dsimp only [Except.bind, checkSpec]
      split_ifs <;> rfl
  · next hnil hone =>
      split
      · next hrows => exact absurd hrows hnil
      · next found hrows => exact absurd hrows (hone found.1 found.2)
      · rfl

/-- A committed repair of a table. -/
def Repairs (dryRun : Bool) (c d : RepairCatalog) : Prop := dryRun = false ∧
  ∃ kind tableId partitionId, Repairable c.catalog kind tableId partitionId ∧
    d = c.withCatalog (repaired kind tableId partitionId c.catalog)

/-- The innermost directory of a path of the layout is that of the last column. -/
theorem exists_innermost {path : String} (h : pathShape kind path = true) :
    ∃ segment, (path.toList.splitOn '/').reverse[1]? = some segment ∧
      ((kind.columns.getLast (by cases kind <;> decide)) ++ "=").toList <+: segment := by
  have hsome : (hiveDigits kind.columns path).isSome = true := h
  unfold hiveDigits at hsome
  split at hsome
  · cases hsome
  · next name dirs hsplit =>
      split_ifs at hsome with hname
      · rw [hsplit]
        cases kind <;> cases dirs with
        | nil => cases hsome
        | cons segment dirs =>
            refine ⟨segment, rfl, ?_⟩
            simp only [RepairKind.columns, Option.isSome_map, List.reverse_cons, List.reverse_nil,
              List.nil_append, List.cons_append, readSegments, Option.isSome_bind] at hsome
            obtain ⟨digits, hdigits, -⟩ := (Option.any_eq_true _ _).1 hsome
            unfold segmentDigits at hdigits
            dsimp only at hdigits
            split_ifs at hdigits with hprefix
            exact List.isPrefixOf_iff_prefix.1 hprefix.1
      · cases hsome

/-- No path is of both layouts. -/
theorem kind_eq_of_pathShape {path : String} (h : pathShape kind path = true)
    (hother : pathShape other path = true) : kind = other := by
  obtain ⟨segment, hsegment, rest, hrest⟩ := exists_innermost h
  obtain ⟨segment', hsegment', rest', hrest'⟩ := exists_innermost hother
  obtain rfl := Option.some.inj (hsegment.symm.trans hsegment')
  have hhead := congrArg List.head? (hrest.trans hrest'.symm)
  cases kind <;> cases other <;> first | rfl | simp [RepairKind.columns] at hhead

/-- The repair leaves the values of a file alone that is not among its targets. -/
theorem ownValues_repaired_of_not_mem {c : Catalog} (table : ℕ)
    (h : id ∉ (repairTargets c kind tableId partitionId).map DataFile.dataFileId) :
    ownValues table (repaired kind tableId partitionId c) id = ownValues table c id := by
  unfold ownValues repaired
  rw [List.filter_append, List.filter_filter]
  have hnew : (repairedRows kind tableId (repairTargets c kind tableId partitionId)).filter
      (fun v => decide (v.tableId = table ∧ v.dataFileId = id)) = [] := by
    refine List.filter_eq_nil_iff.2 fun v hv heq => h ?_
    obtain ⟨col, -, hrow⟩ := List.mem_flatMap.1 hv
    obtain ⟨f, hf, rfl⟩ := List.mem_map.1 hrow
    exact List.mem_map.2 ⟨f, hf, (of_decide_eq_true heq).2⟩
  rw [hnew, List.append_nil]
  refine List.filter_congr fun v _ => ?_
  by_cases hv : v.tableId = table ∧ v.dataFileId = id
  · obtain ⟨-, hid⟩ := hv
    simp [hid, h]
  · simp [hv]

/-- A row after the repair: that of before, but for its partition. -/
theorem exists_of_mem_repaired {c : Catalog} {g : DataFile}
    (hg : g ∈ (repaired kind tableId partitionId c).dataFiles.rows) : ∃ f ∈ c.dataFiles.rows,
      g = f.relabelled ((repairTargets c kind tableId partitionId).map DataFile.dataFileId) partitionId := by
  obtain ⟨f, hf, rfl⟩ := List.mem_map.1 hg
  exact ⟨f, hf, rfl⟩

section Relabelled

variable (ids : List ℕ) (f : DataFile)

@[simp] theorem relabelled_dataFileId : (f.relabelled ids partitionId).dataFileId = f.dataFileId :=
  relabelled_key ids partitionId f

@[simp] theorem relabelled_path : (f.relabelled ids partitionId).path = f.path := by
  unfold DataFile.relabelled
  split <;> rfl

@[simp] theorem relabelled_tableId : (f.relabelled ids partitionId).tableId = f.tableId := by
  unfold DataFile.relabelled
  split <;> rfl

@[simp] theorem relabelled_endSnapshot : (f.relabelled ids partitionId).endSnapshot = f.endSnapshot := by
  unfold DataFile.relabelled
  split <;> rfl

theorem relabelled_of_not_mem (h : f.dataFileId ∉ ids) : f.relabelled ids partitionId = f :=
  if_neg fun hmem => h hmem.1

end Relabelled

/-- A row with the id of a target is the target. -/
theorem mem_repairTargets_of_id {c : Catalog} {f : DataFile} (hf : f ∈ c.dataFiles.rows)
    (h : f.dataFileId ∈ (repairTargets c kind tableId partitionId).map DataFile.dataFileId) :
    f ∈ repairTargets c kind tableId partitionId := by
  obtain ⟨g, hg, hid⟩ := List.mem_map.1 h
  obtain rfl := Table.eq_of_key (mem_repairTargets.1 hg).1 hf hid
  exact hg

/-! ## Runs of repairs -/

section Safety

variable {R : RepairCatalog → RepairCatalog → Prop}
  {s : Session RepairCatalog RepairRunError} {lockFree : RepairCatalog → Bool} {dryRun : Bool}

theorem goes_inspect {α : Type} {read : RepairCatalog → Except RepairError α} (hw : s.Within R) :
    Goes R (Repairs dryRun) (inspect read) (fun _ _ => True) s :=
  goes_call hw (fun _ _ _ _ => trivial) (J := fun _ => True) trivial (fun _ _ => .refl)
    fun _ _ _ _ _ => trivial

theorem goes_read {α : Type} {read : RepairCatalog → α} (hw : s.Within R) :
    Goes R (Repairs dryRun) (query read) (fun _ _ => True) s :=
  goes_query hw (fun _ _ _ _ => trivial) (J := fun _ => True) trivial fun _ _ => trivial

theorem goes_planTable (hw : s.Within R) (name : String) :
    Goes R (Repairs dryRun) (planTable kind name) (fun _ _ => True) s := by
  refine goes_bind (J := fun _ _ => True) (goes_bind (J := fun _ _ => True) (goes_inspect hw)
    fun found s₁ hs₁ _ => ?_) fun resolved s₂ hs₂ _ => ?_
  · cases found with
    | none => exact goes_pure hs₁ trivial
    | some found =>
        exact goes_bind (J := fun _ _ => True) (goes_inspect hs₁) fun _ _ hs _ => goes_pure hs trivial
  · cases resolved with
    | none => exact goes_pure hs₂ trivial
    | some found =>
        exact goes_bind (J := fun _ _ => True) (goes_read hs₂) fun _ _ hs _ => goes_pure hs trivial

theorem goes_planTables (tables : List (RepairKind × String)) : ∀ {s : Session RepairCatalog RepairRunError},
    s.Within R → Goes R (Repairs dryRun) (planTables tables) (fun _ _ => True) s := by
  induction tables with
  | nil => exact fun hw => goes_pure hw trivial
  | cons table rest ih =>
      intro s hw
      refine goes_bind (J := fun _ _ => True) (goes_tryCatch (goes_planTable hw table.2)
        fun _ _ hs _ => goes_pure hs trivial) fun _ _ hs _ => ?_
      exact goes_bind (J := fun _ _ => True) (ih hs) fun _ _ hs _ => goes_pure hs trivial

/-- The repair of a table commits one repair or nothing. -/
theorem goes_repairTable (hw : s.Within R) (t : RepairTask) :
    Goes R (Repairs false) (repairTable t) (fun _ _ => True) s := by
  refine goes_bind (J := fun _ _ => True) (goes_call hw (J := fun _ => True) (fun _ _ _ _ => trivial)
    trivial (fun c _ => ?_) fun _ _ _ _ _ => trivial) fun _ _ hs _ => ?_
  · cases hexecute : executeRepair t.kind t.tableId t.partitionId c.catalog with
    | error e => exact .refl
    | ok catalog =>
        obtain ⟨hfits, rfl⟩ := executeRepair_eq_ok_iff.1 hexecute
        exact moves_own ⟨rfl, _, _, _, hfits, rfl⟩
  · exact goes_bind (J := fun _ _ => True) (goes_read hs) fun _ _ hs _ => goes_pure hs trivial

theorem goes_repairTables (plan : List RepairTask) : ∀ {s : Session RepairCatalog RepairRunError},
    s.Within R → Goes R (Repairs false) (repairTables plan) (fun _ _ => True) s := by
  induction plan with
  | nil => exact fun hw => goes_pure hw trivial
  | cons t rest ih =>
      intro s hw
      refine goes_bind (J := fun _ _ => True) (goes_tryCatch (goes_bind (J := fun _ _ => True)
        (goes_repairTable hw t) fun _ _ hs _ => goes_pure hs trivial)
        fun _ _ hs _ => goes_pure hs trivial) fun _ _ hs _ => ?_
      exact goes_bind (J := fun _ _ => True) (ih hs) fun _ _ hs _ => goes_pure hs trivial

/-- However a run ends, it went through committed repairs, and through none if it is dry. -/
theorem goes_repairPartitionValues (hw : s.Within R) :
    Goes R (Repairs dryRun) (repairPartitionValues lockFree dryRun) (fun _ _ => True) s := by
  have hlock : Goes R (Repairs dryRun) (lockRepairUnless lockFree dryRun) (fun _ _ => True) s :=
    goes_ite (fun _ => goes_pure hw trivial) fun _ => goes_call hw (J := fun _ => True)
      (fun _ _ _ _ => trivial) trivial (fun _ _ => .refl) fun _ _ _ _ _ => trivial
  refine goes_bind (J := fun _ _ => True) hlock fun _ s₁ hs₁ _ => ?_
  refine goes_bind (J := fun _ _ => True) (goes_read hs₁) fun discovered s₂ hs₂ _ => ?_
  refine goes_ite (fun _ => goes_pure hs₂ trivial) fun _ => ?_
  refine goes_bind (J := fun _ _ => True) (goes_read hs₂) fun rot s₃ hs₃ _ => ?_
  refine goes_ite (fun _ => goes_pure hs₃ trivial) fun _ => ?_
  refine goes_bind (J := fun _ _ => True) (goes_read hs₃) fun _ s₄ hs₄ _ => ?_
  refine goes_bind (J := fun _ _ => True) (goes_planTables discovered hs₄) fun plan s₅ hs₅ _ => ?_
  refine goes_ite (fun _ => goes_pure hs₅ trivial) fun hexecute => ?_
  obtain rfl : dryRun = false := by
    cases dryRun with
    | false => rfl
    | true => simp at hexecute
  refine goes_bind (J := fun _ _ => True) (goes_repairTables plan hs₅) fun failed s₆ hs₆ _ => ?_
  exact goes_ite (fun _ => goes_throw hs₆ _) fun _ => goes_pure hs₆ trivial

end Safety

/-! ## Values that are right -/

/-- The values of a file, with their indexes. -/
def valuesOf (c : RepairCatalog) (f : DataFile) : List (ℕ × Option String) :=
  (ownValues f.tableId c.catalog f.dataFileId).map fun v => (v.partitionKeyIndex, v.partitionValue)

/-- From `c` to `d` the file went, or kept its path, its table and its values. -/
def SameFile (f : DataFile) (c d : RepairCatalog) : Prop :=
  ∀ g ∈ d.catalog.dataFiles.rows, g.dataFileId = f.dataFileId →
    (∃ g' ∈ c.catalog.dataFiles.rows, g'.dataFileId = f.dataFileId ∧ g.path = g'.path ∧
      g.tableId = g'.tableId) ∧ (valuesOf d f).Perm (valuesOf c f)

/-- If the path of a file is of a layout that the repair takes, its first matches are those of the hive
    segments, and the values of the file are theirs. -/
def Right (c : RepairCatalog) (f : DataFile) : Prop :=
  ∀ kind, pathShape kind f.path = true → like f.path "%/full/%" = false →
    FirstIsHive kind f.path ∧ FromPath kind f.tableId c.catalog f

theorem SameFile.refl (f : DataFile) (c : RepairCatalog) : SameFile f c c :=
  fun g hg hid => ⟨⟨g, hg, hid, rfl, rfl⟩, .refl _⟩

theorem SameFile.trans {f : DataFile} {c d e : RepairCatalog} (h : SameFile f c d)
    (h' : SameFile f d e) : SameFile f c e := by
  intro g hg hid
  obtain ⟨⟨g', hg', hid', hpath, htable⟩, hvalues⟩ := h' g hg hid
  obtain ⟨⟨g'', hg'', hid'', hpath', htable'⟩, hvalues'⟩ := h g' hg' hid'
  exact ⟨⟨g'', hg'', hid'', hpath.trans hpath', htable.trans htable'⟩, hvalues.trans hvalues'⟩

/-- A repair of any table leaves a file that was right as it was. -/
theorem SameFile.repairs {f : DataFile} {start : RepairCatalog} {dryRun : Bool}
    (hf : f ∈ start.catalog.dataFiles.rows) (hright : Right start f) (h : SameFile f start c)
    (hrepairs : Repairs dryRun c d) : SameFile f start d := by
  obtain ⟨-, kind, tableId, partitionId, -, rfl⟩ := hrepairs
  intro g hg hid
  obtain ⟨g', hg', rfl⟩ := exists_of_mem_repaired hg
  rw [relabelled_dataFileId] at hid
  obtain ⟨⟨f', hmem, hid', hpath, htable⟩, hvalues⟩ := h g' hg' hid
  obtain rfl : f = f' := Table.eq_of_key hf hmem hid'.symm
  refine ⟨⟨f, hf, rfl, by simpa using hpath, by simpa using htable⟩, ?_⟩
  by_cases htarget : g'.dataFileId ∈ (repairTargets c.catalog kind tableId partitionId).map
      DataFile.dataFileId
  · -- what the repair wrote is what the path says, and so is what was there
    have hg'' := mem_repairTargets_of_id hg' htarget
    obtain ⟨-, rfl, hlayout, -⟩ := mem_repairTargets.1 hg''
    simp only [inHiveLayout, Bool.and_eq_true, Bool.not_eq_true'] at hlayout
    obtain ⟨hfirst, numbers, hnumbers, hold⟩ :=
      hright kind (hpath ▸ hlayout.2) (hpath ▸ hlayout.1.2)
    obtain ⟨numbers', hnumbers', hnew⟩ := (fromPath_repaired_iff hg'').2 (hpath ▸ hfirst)
    obtain rfl := Option.some.inj (hnumbers.symm.trans (hpath ▸ hnumbers'))
    have hvalues' : valuesOf (c.withCatalog (repaired kind g'.tableId partitionId c.catalog)) f
        = (ownValues g'.tableId (repaired kind g'.tableId partitionId c.catalog) g'.dataFileId).map
          fun v => (v.partitionKeyIndex, v.partitionValue) := by
      unfold valuesOf
      rw [htable, hid]
      rfl
    rw [hvalues']
    exact hnew.trans hold.symm
  · have hkept := ownValues_repaired_of_not_mem f.tableId htarget
    unfold valuesOf at hvalues ⊢
    rw [hid] at hkept
    rw [RepairCatalog.withCatalog_catalog, hkept]
    exact hvalues

/-- **The repair of partition values leaves right files alone.** Whatever calls of a run fail, dry or
    not, and whatever other sessions do between its calls that leaves a file its path and its values:
    if the hive segments of the path have these values and hold its first matches, or the path is of no
    layout that the repair takes, the run leaves them to it as well. -/
theorem repair_keeps_values {R : RepairCatalog → RepairCatalog → Prop} {f : DataFile}
    (hR : ∀ c d, R c d → SameFile f c d) (s : Session RepairCatalog RepairRunError)
    (hw : s.Within R) (hf : f ∈ s.state.catalog.dataFiles.rows) (hright : Right s.state f)
    (lockFree : RepairCatalog → Bool) (dryRun : Bool) :
    SameFile f s.state (final (repairPartitionValues lockFree dryRun) s).state :=
  (goes_repairPartitionValues hw).final.moves.invariant (fun _ _ h hother => h.trans (hR _ _ hother))
    (fun _ _ h hown => h.repairs hf hright hown) (SameFile.refl f s.state)

/-! ## Values that are broken -/

/-- What the backfill and other writers do between two calls: they add files, whose paths have numbers
    that fit, and they end files. The maintenance lock keeps those out that remove rows. -/
structure Appends (c d : RepairCatalog) : Prop where
  tables : ∃ catalog, d = c.withCatalog catalog
  kept : ∀ f ∈ c.catalog.dataFiles.rows, ∃ ended, { f with endSnapshot := ended } ∈
    d.catalog.dataFiles.rows ∧ (ended = none → f.endSnapshot = none)
  fresh : ∀ g ∈ d.catalog.dataFiles.rows, g.dataFileId ∉ c.catalog.dataFiles.keys →
    ∀ kind, pathShape kind g.path = true → ∀ column ∈ kind.columns,
      ∃ n ≤ 2147483647, firstNumber g.path column = some n
  values : ∀ id ∈ c.catalog.dataFiles.keys, ∀ tableId,
    ownValues tableId d.catalog id = ownValues tableId c.catalog id

/-- The file's row, as long as it is live, has the values that the repair writes. -/
def Mended (x : PlannedFile) (c : RepairCatalog) : Prop :=
  ∀ g ∈ c.catalog.dataFiles.rows, g.dataFileId = x.file.dataFileId → g.endSnapshot = none →
    g.path = x.file.path ∧ ownValues x.tableId c.catalog g.dataFileId = repairedValues x.kind x.tableId g

/-- A broken file of a planned table that can be repaired, or one that was. -/
structure Owed (x : PlannedFile) (c : RepairCatalog) : Prop where
  planned : Planned c x.kind x.name x.tableId x.partitionId
  fits : Repairable c.catalog x.kind x.tableId x.partitionId
  row : ∃ g ∈ c.catalog.dataFiles.rows, g.dataFileId = x.file.dataFileId ∧ g.path = x.file.path ∧
    g.tableId = x.tableId ∧
    (ownValues x.tableId c.catalog g.dataFileId = repairedValues x.kind x.tableId g ∨
      inPartition x.kind x.partitionId g = true ∧
        brokenValues x.kind (ownValues x.tableId c.catalog g.dataFileId) = true)

/-- Owed, and mended unless it is to come. -/
def Owes (x : PlannedFile) (due : Prop) (c : RepairCatalog) : Prop :=
  Owed x c ∧ (Mended x c ∨ due)

/-- The path of the file is of the layout, and not under `/full/`. -/
def PlannedFile.shaped (x : PlannedFile) : Prop :=
  pathShape x.kind x.file.path = true ∧ like x.file.path "%/full/%" = false

section Progress

variable {x : PlannedFile} {due : Prop}

theorem Owes.mono {due' : Prop} (h : Owes x due c) (himp : due → due') : Owes x due' c :=
  ⟨h.1, h.2.imp_right himp⟩

theorem Planned.withCatalog {name : String} (h : Planned c kind name tableId partitionId)
    (catalog : Catalog) : Planned (c.withCatalog catalog) kind name tableId partitionId :=
  ⟨h.discovered, h.resolved⟩

theorem mended_iff {g : DataFile} (hg : g ∈ c.catalog.dataFiles.rows)
    (hid : g.dataFileId = x.file.dataFileId) (hpath : g.path = x.file.path) : Mended x c ↔
      (g.endSnapshot = none →
        ownValues x.tableId c.catalog g.dataFileId = repairedValues x.kind x.tableId g) := by
  constructor
  · exact fun hmended hlive => (hmended g hg hid hlive).2
  · intro hwritten g' hg' hid' hlive
    obtain rfl : g = g' := Table.eq_of_key hg hg' (hid.trans hid'.symm)
    exact ⟨hpath, hwritten hlive⟩

/-- What is still owed is a live target of the repair. -/
theorem Owed.mended_or (hx : x.shaped) (h : Owed x c) : Mended x c ∨
    ∃ g ∈ repairTargets c.catalog x.kind x.tableId x.partitionId,
      g.dataFileId = x.file.dataFileId ∧ g.path = x.file.path ∧
        brokenValues x.kind (ownValues x.tableId c.catalog g.dataFileId) = true := by
  obtain ⟨g, hg, hid, hpath, htable, hwritten | ⟨hpartition, hbroken⟩⟩ := h.row
  · exact Or.inl ((mended_iff hg hid hpath).2 fun _ => hwritten)
  · cases hend : g.endSnapshot with
    | some n =>
        refine Or.inl ((mended_iff hg hid hpath).2 fun hlive => ?_)
        rw [hend] at hlive
        cases hlive
    | none =>
        refine Or.inr ⟨g, mem_repairTargets.2 ⟨hg, htable, ?_, hpartition⟩, hid, hpath, hbroken⟩
        simp [inHiveLayout, hend, hpath, hx.1, hx.2]

/-! ### The others -/

theorem Owed.appends (h : Owed x c) (happends : Appends c d) : Owed x d := by
  obtain ⟨catalog, rfl⟩ := happends.tables
  refine ⟨h.planned.withCatalog catalog, fun g hg => ?_, ?_⟩
  · obtain ⟨hmem, htable, hlayout, hpartition⟩ := mem_repairTargets.1 hg
    by_cases hkey : g.dataFileId ∈ c.catalog.dataFiles.keys
    · obtain ⟨f, hf, hid⟩ := Table.mem_keys.1 hkey
      obtain ⟨ended, hended, hlive⟩ := happends.kept f hf
      obtain rfl : ({ f with endSnapshot := ended } : DataFile) = g := Table.eq_of_key hended hmem hid
      simp only [inHiveLayout, Bool.and_eq_true, Option.isNone_iff_eq_none] at hlayout
      refine h.fits f (mem_repairTargets.2 ⟨hf, htable, ?_, hpartition⟩)
      simp only [inHiveLayout, Bool.and_eq_true, Option.isNone_iff_eq_none]
      exact ⟨⟨hlive hlayout.1.1, hlayout.1.2⟩, hlayout.2⟩
    · simp only [inHiveLayout, Bool.and_eq_true] at hlayout
      exact happends.fresh g hmem hkey x.kind hlayout.2
  · obtain ⟨f, hf, hid, hpath, htable, hvalues⟩ := h.row
    obtain ⟨ended, hended, -⟩ := happends.kept f hf
    refine ⟨_, hended, hid, hpath, htable, ?_⟩
    have hsame := happends.values f.dataFileId (Table.mem_keys.2 ⟨f, hf, rfl⟩) x.tableId
    have hvalues' := hvalues
    rw [← hsame] at hvalues'
    exact hvalues'

theorem Owes.appends (c d : RepairCatalog) (h : Owes x due c) (happends : Appends c d) : Owes x due d := by
  refine ⟨h.1.appends happends, h.2.imp_left fun hmended => ?_⟩
  obtain ⟨f, hf, hid, hpath, htable, -⟩ := h.1.row
  obtain ⟨ended, hended, hlive⟩ := happends.kept f hf
  refine (mended_iff hended hid hpath).2 fun hlive' => ?_
  rw [happends.values f.dataFileId (Table.mem_keys.2 ⟨f, hf, rfl⟩) x.tableId]
  exact (mended_iff hf hid hpath).1 hmended (hlive hlive')

/-! ### The repairs -/

/-- A repair of any table keeps what is owed, and one of the file's own table pays it. -/
theorem Owed.repaired (hx : x.shaped) (h : Owed x c) (hfits : Repairable c.catalog kind tableId partitionId) :
    Owed x (c.withCatalog (Maintenance.repaired kind tableId partitionId c.catalog)) := by
  refine ⟨h.planned.withCatalog _, fun g hg => ?_, ?_⟩
  · obtain ⟨hmem, htable, hlayout, hpartition⟩ := mem_repairTargets.1 hg
    obtain ⟨f, hf, rfl⟩ := exists_of_mem_repaired hmem
    by_cases htarget : f.dataFileId ∈ (repairTargets c.catalog kind tableId partitionId).map
        DataFile.dataFileId
    · have hf' := mem_repairTargets_of_id hf htarget
      have hlayout' := (mem_repairTargets.1 hf').2.2.1
      simp only [inHiveLayout, Bool.and_eq_true, relabelled_path] at hlayout hlayout'
      obtain rfl := kind_eq_of_pathShape hlayout'.2 hlayout.2
      rw [relabelled_path]
      exact hfits f hf'
    · rw [relabelled_of_not_mem _ _ htarget] at hlayout hpartition htable ⊢
      exact h.fits f (mem_repairTargets.2 ⟨hf, htable, hlayout, hpartition⟩)
  · obtain ⟨f, hf, hid, hpath, htable, hvalues⟩ := h.row
    refine ⟨_, List.mem_map_of_mem hf, by simpa using hid, by simpa using hpath, by simpa using htable, ?_⟩
    by_cases htarget : f.dataFileId ∈ (repairTargets c.catalog kind tableId partitionId).map
        DataFile.dataFileId
    · have hf' := mem_repairTargets_of_id hf htarget
      obtain ⟨-, rfl, hlayout, -⟩ := mem_repairTargets.1 hf'
      simp only [inHiveLayout, Bool.and_eq_true] at hlayout
      obtain rfl := kind_eq_of_pathShape hlayout.2 (hpath ▸ hx.1)
      left
      rw [relabelled_dataFileId, ← htable]
      exact (ownValues_repaired hf').trans (by simp [repairedValues])
    · rw [relabelled_of_not_mem _ _ htarget]
      have hkept := ownValues_repaired_of_not_mem x.tableId htarget
      rw [RepairCatalog.withCatalog_catalog, hkept]
      exact hvalues

theorem Owes.repaired (hx : x.shaped) (h : Owes x due c) (hfits : Repairable c.catalog kind tableId partitionId) :
    Owes x due (c.withCatalog (Maintenance.repaired kind tableId partitionId c.catalog)) := by
  refine ⟨h.1.repaired hx hfits, h.2.imp_left fun hmended g hg hid hlive => ?_⟩
  obtain ⟨f, hf, rfl⟩ := exists_of_mem_repaired hg
  rw [relabelled_dataFileId] at hid
  rw [relabelled_endSnapshot] at hlive
  obtain ⟨hpath, hwritten⟩ := hmended f hf hid hlive
  refine ⟨by simpa using hpath, ?_⟩
  have hsame : repairedValues x.kind x.tableId (f.relabelled ((repairTargets c.catalog kind tableId
      partitionId).map DataFile.dataFileId) partitionId) = repairedValues x.kind x.tableId f := by
    simp [repairedValues]
  rw [RepairCatalog.withCatalog_catalog, hsame, relabelled_dataFileId]
  by_cases htarget : f.dataFileId ∈ (repairTargets c.catalog kind tableId partitionId).map
      DataFile.dataFileId
  · have hf' := mem_repairTargets_of_id hf htarget
    obtain ⟨-, rfl, hlayout, -⟩ := mem_repairTargets.1 hf'
    simp only [inHiveLayout, Bool.and_eq_true] at hlayout
    obtain rfl := kind_eq_of_pathShape hlayout.2 (hpath ▸ hx.1)
    obtain ⟨g', hg', hid', -, htable, -⟩ := h.1.row
    obtain rfl : f = g' := Table.eq_of_key hf hg' (hid.trans hid'.symm)
    rw [← htable]
    exact ownValues_repaired hf'
  · rw [ownValues_repaired_of_not_mem x.tableId htarget]
    exact hwritten

/-- The repair of the file's own table pays what is owed. -/
theorem Owed.mended_repaired (hx : x.shaped) (h : Owed x c) :
    Mended x (c.withCatalog (Maintenance.repaired x.kind x.tableId x.partitionId c.catalog)) := by
  rcases h.mended_or hx with hmended | ⟨g, hg, hid, hpath, -⟩
  -- mended already: a repair keeps it so
  · have howes : Owes x False c := ⟨h, Or.inl hmended⟩
    exact (howes.repaired hx h.fits).2.resolve_right id
  · have hrow := List.mem_map_of_mem (f := DataFile.relabelled ((repairTargets c.catalog x.kind x.tableId
      x.partitionId).map DataFile.dataFileId) x.partitionId) (mem_repairTargets.1 hg).1
    refine (mended_iff hrow (by simpa using hid) (by simpa using hpath)).2 fun _ => ?_
    rw [relabelled_dataFileId]
    exact (ownValues_repaired hg).trans (by simp [repairedValues])

/-! ### The plan -/

/-- The pre-flight fires over what is owed under `s3://`. -/
theorem Owed.preFlight (hx : x.shaped) (hs3 : like x.file.path "s3://%" = true) (h : Owed x c) :
    Mended x c ∨ preFlightAnyRot c = true := by
  rcases h.mended_or hx with hmended | ⟨g, hg, -, hpath, hbroken⟩
  · exact Or.inl hmended
  · obtain ⟨hmem, htable, hlayout, -⟩ := mem_repairTargets.1 hg
    obtain ⟨-, hcatalog, hkind⟩ := mem_discoverTables.1 h.planned.discovered
    have hcount := h.planned.count_joinedNames htable
    simp only [preFlightAnyRot, List.any_eq_true, List.mem_dedup, Bool.and_eq_true]
    refine Or.inr ⟨g, hmem, x.name, List.count_pos_iff.1 (by omega),
      (preFlightScope_iff hkind g).2 ⟨hcatalog, hlayout, by rw [isS3, hpath]; exact hs3⟩, ?_⟩
    rw [hcount, preFlightRot_eq hkind, htable]
    exact hbroken

/-- The count of the file's table counts what is owed. -/
theorem Owed.counted (hx : x.shaped) (h : Owed x c) : Mended x c ∨
    0 < (countBroken c.catalog x.kind x.tableId x.partitionId).1 ∨
      0 < (countBroken c.catalog x.kind x.tableId x.partitionId).2 := by
  refine (h.mended_or hx).imp_right fun ⟨g, hg, _, _, hbroken⟩ => ?_
  by_contra hzero
  rw [not_or, Nat.not_lt, Nat.not_lt, Nat.le_zero, Nat.le_zero] at hzero
  have hcount : countStates c.catalog x.kind x.tableId ((repairTargets c.catalog x.kind x.tableId
      x.partitionId).map DataFile.dataFileId) = (0, 0) := Prod.ext hzero.1 hzero.2
  rw [countStates_eq_zero_iff.1 hcount _ (List.mem_map_of_mem hg)] at hbroken
  cases hbroken

/-- The planned task is that of the file's table. -/
def RepairTask.Repays (x : PlannedFile) (t : RepairTask) : Prop :=
  t.kind = x.kind ∧ t.tableId = x.tableId ∧ t.partitionId = x.partitionId

variable {s : Session RepairCatalog RepairRunError}

/-- The queries of a planned table find what it was planned with. -/
theorem Owed.resolves (h : Owed x c) : lookupTable x.name c = .ok (some (x.tableId, x.partitionId)) ∧
    checkSpec x.kind x.tableId x.partitionId c = .ok ⟨⟩ := by
  have hresolved := h.planned.resolved
  rw [resolveTable_eq] at hresolved
  obtain ⟨found, hfound, hrest⟩ := bind_eq_ok.1 hresolved
  cases found with
  | none => cases hrest
  | some found =>
      obtain ⟨table, partition⟩ := found
      obtain ⟨⟨⟩, hcheck, hids⟩ := map_eq_ok.1 hrest
      obtain ⟨rfl, rfl⟩ := Prod.mk.inj (Option.some.inj hids)
      exact ⟨hfound, hcheck⟩

theorem ends_inspect {α : Type} {read : RepairCatalog → Except RepairError α} (hs : s.Calm Appends)
    (h : Owes x due s.state) (own : Prop) (good : α → Prop)
    (hgood : own → ∀ c, Owed x c → ∃ a, read c = .ok a ∧ good a) :
    Ends Appends (inspect read) (fun a c => Owes x due c ∧ (own → good a))
      (fun _ c => Owes x due c ∧ ¬own) s := by
  refine ends_call hs Owes.appends h (fun c a d hc hrun => ?_) fun c e d hc hrun => ?_
  · obtain ⟨rfl, hread⟩ := Prod.mk.inj hrun
    refine ⟨hc, fun hown => ?_⟩
    obtain ⟨a', ha', hgood'⟩ := hgood hown c hc.1
    rw [ha'] at hread
    obtain rfl := Except.ok.inj hread
    exact hgood'
  · obtain ⟨rfl, hread⟩ := Prod.mk.inj hrun
    refine ⟨hc, fun hown => ?_⟩
    obtain ⟨a', ha', -⟩ := hgood hown c hc.1
    rw [ha'] at hread
    cases hread

theorem ends_resolveCalls (hs : s.Calm Appends) (h : Owes x due s.state) {name : String} :
    Ends Appends (resolveCalls kind name)
      (fun found c => Owes x due c ∧
        (kind = x.kind ∧ name = x.name → found = some (x.tableId, x.partitionId)))
      (fun _ c => Owes x due c ∧ ¬(kind = x.kind ∧ name = x.name)) s := by
  refine ends_bind (ends_inspect hs h (kind = x.kind ∧ name = x.name)
    (fun found => found = some (x.tableId, x.partitionId)) fun hown c hc => ?_)
    fun found s₁ hs₁ ⟨h₁, hfound⟩ => ?_
  · obtain ⟨rfl, rfl⟩ := hown
    exact ⟨_, hc.resolves.1, rfl⟩
  · cases found with
    | none => exact ends_pure hs₁ ⟨h₁, hfound⟩
    | some found =>
        obtain ⟨table, partition⟩ := found
        refine ends_bind (ends_inspect hs₁ h₁ (kind = x.kind ∧ name = x.name)
          (fun _ => True) fun hown c hc => ?_) fun _ s₂ hs₂ h₂ => ends_pure hs₂ ⟨h₂.1, hfound⟩
        obtain ⟨rfl, rfl⟩ := Prod.mk.inj (Option.some.inj (hfound hown))
        obtain ⟨rfl, rfl⟩ := hown
        exact ⟨_, hc.resolves.2, trivial⟩

/-- The plan has a task for the file's table. -/
theorem ends_planTable (hx : x.shaped) (hs : s.Calm Appends) (h : Owes x due s.state) {name : String} :
    Ends Appends (tryCatch (planTable kind name) fun _ => pure none)
      (fun task c => Owes x (due ∧ (kind = x.kind ∧ name = x.name → ∃ t ∈ task, t.Repays x)) c)
      (fun _ _ => False) s := by
  have hplan : Ends Appends (planTable kind name)
      (fun task c => Owes x (due ∧ (kind = x.kind ∧ name = x.name → ∃ t ∈ task, t.Repays x)) c)
      (fun _ c => Owes x due c ∧ ¬(kind = x.kind ∧ name = x.name)) s := by
    refine ends_bind (ends_resolveCalls hs h) fun resolved s₁ hs₁ ⟨h₁, hresolved⟩ => ?_
    cases resolved with
    | none => exact ends_pure hs₁ (h₁.mono fun hdue => ⟨hdue, fun hown => by cases hresolved hown⟩)
    | some found =>
        obtain ⟨table, partition⟩ := found
        refine ends_bind (J := fun counts c => Owes x (due ∧
            (kind = x.kind ∧ name = x.name → 0 < counts.1 ∨ 0 < counts.2)) c)
          (ends_query hs₁ Owes.appends h₁ fun c hc => ⟨hc.1, ?_⟩) fun counts s₂ hs₂ h₂ =>
            ends_pure hs₂ (h₂.mono fun ⟨hdue, hcounts⟩ => ⟨hdue, fun hown => ?_⟩)
        -- the count is of the file's own table, and finds it, or is of another table
        · rcases hc.2 with hmended | hdue
          · exact Or.inl hmended
          · by_cases hown : kind = x.kind ∧ name = x.name
            · obtain ⟨rfl, rfl⟩ := Prod.mk.inj (Option.some.inj (hresolved hown))
              obtain ⟨rfl, rfl⟩ := hown
              exact (hc.1.counted hx).imp_right fun hcount => ⟨hdue, fun _ => hcount⟩
            · exact Or.inr ⟨hdue, fun h => absurd h hown⟩
        · rw [if_pos (hcounts hown)]
          obtain ⟨rfl, rfl⟩ := Prod.mk.inj (Option.some.inj (hresolved hown))
          exact ⟨_, rfl, hown.1, rfl, rfl⟩
  exact ends_tryCatch hplan fun _ _ hs' h' =>
    ends_pure hs' (h'.1.mono fun hdue => ⟨hdue, fun hown => absurd hown h'.2⟩)

theorem ends_planTables (hx : x.shaped) (tables : List (RepairKind × String)) :
    ∀ {s : Session RepairCatalog RepairRunError} {due : Prop}, s.Calm Appends → Owes x due s.state →
      Ends Appends (planTables tables)
        (fun plan c => Owes x (due ∧ ((x.kind, x.name) ∈ tables → ∃ t ∈ plan, t.Repays x)) c)
        (fun _ _ => False) s := by
  induction tables with
  | nil => exact fun hs h => ends_pure hs (h.mono fun hdue => ⟨hdue, fun hmem => absurd hmem List.not_mem_nil⟩)
  | cons table rest ih =>
      intro s due hs h
      refine ends_bind (ends_planTable hx hs h) fun task s₁ hs₁ h₁ => ?_
      refine ends_bind (ih hs₁ h₁) fun tasks s₂ hs₂ h₂ => ends_pure hs₂ (h₂.mono ?_)
      rintro ⟨⟨hdue, hhead⟩, htail⟩
      refine ⟨hdue, fun hmem => ?_⟩
      rcases List.mem_cons.1 hmem with heq | hrest
      · obtain ⟨t, ht, hrepays⟩ := hhead ⟨by rw [← heq], by rw [← heq]⟩
        exact ⟨t, List.mem_append_left _ (Option.mem_toList.2 ht), hrepays⟩
      · obtain ⟨t, ht, hrepays⟩ := htail hrest
        exact ⟨t, List.mem_append_right _ ht, hrepays⟩

/-! ### The loop -/

/-- The repair of one table, which pays if it is the file's. -/
theorem ends_repairTable (due : Prop) (hx : x.shaped) (hs : s.Calm Appends) {t : RepairTask}
    (h : Owes x (t.Repays x ∨ due) s.state) :
    Ends Appends (tryCatch (do repairTable t; pure false) fun _ => pure true)
      (fun _ c => Owes x due c) (fun _ _ => False) s := by
  have hrepair : Ends Appends (do repairTable t; pure false) (fun _ c => Owes x due c)
      (fun _ c => Owes x due c) s := by
    refine ends_bind (J := fun _ c => Owes x due c) (ends_bind (J := fun _ c => Owes x due c)
      (ends_call hs Owes.appends h (fun c a d hc hrun => ?_) fun c e d hc hrun => ?_)
      fun _ s₁ hs₁ h₁ => ends_bind (J := fun _ c => Owes x due c)
        (ends_query hs₁ Owes.appends h₁ fun _ hc => hc) fun _ _ hs' h' => ends_pure hs' h')
      fun _ _ hs' h' => ends_pure hs' h'
    · cases hexecute : executeRepair t.kind t.tableId t.partitionId c.catalog with
      | error e =>
          rw [hexecute] at hrun
          cases hrun
      | ok catalog =>
          rw [hexecute] at hrun
          obtain ⟨hfits, rfl⟩ := executeRepair_eq_ok_iff.1 hexecute
          obtain ⟨rfl, -⟩ := Prod.mk.inj hrun
          -- every repair keeps what is owed; that of the file's own table pays it
          have hrepaired := hc.repaired hx hfits
          rcases hrepaired.2 with hmended | hrepays | hdue
          · exact ⟨hrepaired.1, Or.inl hmended⟩
          · obtain ⟨hkind, htable, hpartition⟩ := hrepays
            refine ⟨hrepaired.1, Or.inl ?_⟩
            rw [hkind, htable, hpartition]
            exact hc.1.mended_repaired hx
          · exact ⟨hrepaired.1, Or.inr hdue⟩
    · cases hexecute : executeRepair t.kind t.tableId t.partitionId c.catalog with
      | ok catalog =>
          rw [hexecute] at hrun
          cases hrun
      | error e' =>
          rw [hexecute] at hrun
          obtain ⟨rfl, -⟩ := Prod.mk.inj hrun
          refine ⟨hc.1, hc.2.imp_right fun hor => hor.resolve_left fun hrepays => ?_⟩
          -- the file's own table does not fail
          obtain ⟨hkind, htable, hpartition⟩ := hrepays
          rw [hkind, htable, hpartition, executeRepair_eq_ok_iff.2 ⟨hc.1.fits, rfl⟩] at hexecute
          cases hexecute
  exact ends_tryCatch hrepair fun _ _ hs' h' => ends_pure hs' h'

theorem ends_repairTables (hx : x.shaped) (plan : List RepairTask) :
    ∀ {s : Session RepairCatalog RepairRunError}, s.Calm Appends →
      Owes x (∃ t ∈ plan, t.Repays x) s.state →
        Ends Appends (repairTables plan) (fun _ c => Mended x c) (fun _ _ => False) s := by
  induction plan with
  | nil =>
      refine fun hs h => ends_pure hs (h.2.resolve_right ?_)
      rintro ⟨t, ht, -⟩
      exact List.not_mem_nil ht
  | cons t rest ih =>
      intro s hs h
      refine ends_bind (ends_repairTable (∃ t ∈ rest, t.Repays x) hx hs (h.mono ?_))
        fun failed s₁ hs₁ h₁ => ends_bind (ih hs₁ h₁) fun others s₂ hs₂ h₂ => ends_pure hs₂ h₂
      rintro ⟨t', ht', hrepays⟩
      rcases List.mem_cons.1 ht' with rfl | hrest
      · exact Or.inl hrepays
      · exact Or.inr ⟨t', hrest, hrepays⟩

end Progress

theorem ends_repairPartitionValues (lockFree : RepairCatalog → Bool) (hfree : ∀ c, lockFree c = true)
    (s : Session RepairCatalog RepairRunError) (hs : s.Calm Appends) (x : PlannedFile)
    (hrotten : Rotten s.state x) (hs3 : x.underS3 = true) (hpartition : x.ofPartition = true)
    (hfits : Repairable s.state.catalog x.kind x.tableId x.partitionId) :
    Ends Appends (repairPartitionValues lockFree false) (fun _ c => Mended x c)
      (fun e c => Mended x c ∧ ∃ tables, e = .allFailed tables) s := by
  have hlayout := hrotten.layout
  simp only [inHiveLayout, Bool.and_eq_true, Bool.not_eq_true'] at hlayout
  have hx : x.shaped := ⟨hlayout.2, hlayout.1.2⟩
  have howes : Owes x True s.state := ⟨⟨hrotten.toPlanned, hfits, x.file, hrotten.live, rfl, rfl,
    hrotten.table, Or.inr ⟨hpartition, hrotten.broken⟩⟩, Or.inr trivial⟩
  have hlock : Ends Appends (acquireRepairLock lockFree) (fun _ c => Owes x True c)
      (fun e c => Mended x c ∧ ∃ tables, e = .allFailed tables) s := by
    refine ends_call hs Owes.appends howes (fun c a d hc hrun => ?_) fun c e d _ hrun => ?_
    · obtain ⟨rfl, -⟩ := Prod.mk.inj hrun
      exact hc
    · rw [hfree] at hrun
      cases hrun
  refine ends_bind hlock fun _ s₁ hs₁ h₁ => ?_
  refine ends_bind (J := fun discovered c => Owes x True c ∧ (x.kind, x.name) ∈ discovered)
    (ends_query hs₁ Owes.appends h₁ fun c hc => ⟨hc, hc.1.planned.discovered⟩)
    fun discovered s₂ hs₂ ⟨h₂, hdiscovered⟩ => ?_
  refine ends_ite (fun hempty => ?_) fun _ => ?_
  · rw [List.isEmpty_iff.1 hempty] at hdiscovered
    exact absurd hdiscovered List.not_mem_nil
  refine ends_bind (J := fun rot c => Owes x (rot = true) c)
    (ends_query hs₂ Owes.appends h₂ fun c hc => ⟨hc.1, hc.1.preFlight hx hs3⟩) fun rot s₃ hs₃ h₃ => ?_
  refine ends_ite (fun hclean => ends_pure hs₃ (h₃.2.resolve_right fun hrot => ?_)) fun _ => ?_
  · rw [hrot] at hclean
    cases hclean
  refine ends_bind (J := fun _ c => Owes x (rot = true) c)
    (ends_query hs₃ Owes.appends h₃ fun _ hc => hc) fun _ s₄ hs₄ h₄ => ?_
  refine ends_bind (J := fun plan c => Owes x (∃ t ∈ plan, t.Repays x) c) ?_ fun plan s₅ hs₅ h₅ => ?_
  · exact wp_mono (ends_planTables hx discovered hs₄ h₄)
      (fun plan t h => ⟨h.1, h.2.mono fun hplan => hplan.2 hdiscovered⟩) fun _ _ h => h.2.elim
  refine ends_ite (fun hempty => ends_pure hs₅ (h₅.2.resolve_right ?_)) fun _ => ?_
  · rw [Bool.or_false, List.isEmpty_iff] at hempty
    rw [hempty]
    rintro ⟨t, ht, -⟩
    exact List.not_mem_nil ht
  refine ends_bind (J := fun _ c => Mended x c) ?_ fun failed s₆ hs₆ h₆ => ?_
  · exact wp_mono (ends_repairTables hx plan hs₅ h₅) (fun _ _ h => h) fun _ _ h => h.2.elim
  exact ends_ite (fun _ => ends_throw hs₆ ⟨h₆, _, rfl⟩) fun _ => ends_pure hs₆ h₆

/-- **The repair of partition values heals what is broken.** In a run in which no call fails on its own,
    while other sessions add files whose paths fit and end files: whatever becomes of other tables, a
    file that is broken at the start, under `s3://` and in the live partition spec, has the values of
    the first matches in its path at the end, or is no longer live. Such a run raises only that all
    tables failed. -/
theorem repair_heals (lockFree : RepairCatalog → Bool) (hfree : ∀ c, lockFree c = true)
    (s : Session RepairCatalog RepairRunError) (hs : s.Calm Appends) (x : PlannedFile)
    (hrotten : Rotten s.state x) (hs3 : x.underS3 = true) (hpartition : x.ofPartition = true)
    (hfits : Repairable s.state.catalog x.kind x.tableId x.partitionId) :
    Mended x (final (repairPartitionValues lockFree false) s).state ∧
      ∀ e t, repairPartitionValues lockFree false s = .error e t → ∃ tables, e = .allFailed tables := by
  have hends := ends_repairPartitionValues lockFree hfree s hs x hrotten hs3 hpartition hfits
  exact ⟨final_of_wp (P := fun t => Mended x t.state) (wp_mono hends (fun _ _ h => h.2) fun _ _ h => h.2.1),
    fun e t herror => ((wp_of_error herror).1 hends).2.2⟩

theorem Appends.refl (c : RepairCatalog) : Appends c c where
  tables := ⟨c.catalog, rfl⟩
  kept f hf := ⟨f.endSnapshot, hf, id⟩
  fresh g hg hkey := absurd (Table.mem_keys.2 ⟨g, hg, rfl⟩) hkey
  values _ _ _ := rfl

/-- A table with a file that lacks the value of the day, and one that lacks nothing. -/
def undated : RepairCatalog where
  catalog :=
    { snapshots := Table.empty
      dataFiles :=
        ⟨[⟨10, 4, 1, none, "s3://lake/events/year=2024/month=01/day=02/a.parquet", false, some 6, none, none⟩,
          ⟨11, 4, 1, none, "s3://lake/events/year=2024/month=01/day=03/b.parquet", false, some 6, none, none⟩],
          by decide⟩
      deleteFiles := Table.empty
      filesScheduledForDeletion := []
      fileColumnStats := []
      filePartitionValues := [⟨10, 4, 0, some "2024"⟩, ⟨10, 4, 1, some "1"⟩,
        ⟨11, 4, 2, some "3"⟩, ⟨11, 4, 1, some "1"⟩, ⟨11, 4, 0, some "2024"⟩]
      fileVariantStats := []
      snapshotChanges := []
      tableStats := []
      versions := []
      cursors := [] }
  tables := [⟨4, 1, "events", none⟩]
  schemas := [⟨1, "posthog", none⟩]
  partitionInfo := [⟨6, 4, none⟩]
  partitionColumns := [⟨6, 4, 0, "year"⟩, ⟨6, 4, 1, "month"⟩, ⟨6, 4, 2, "day"⟩]

/-- A session on it in which nothing else happens. -/
def undatedSession : Session RepairCatalog RepairRunError where
  state := undated
  others _ c := c
  fates _ := none
  clock := 0

/-- The file without a day. -/
def undatedFile : PlannedFile where
  kind := .events
  name := "events"
  tableId := 4
  partitionId := 6
  file := ⟨10, 4, 1, none, "s3://lake/events/year=2024/month=01/day=02/a.parquet", false, some 6, none, none⟩

theorem undatedFile_rotten : Rotten undated undatedFile where
  discovered := by decide +kernel
  resolved := by decide +kernel
  live := by decide +kernel
  table := rfl
  layout := by decide +kernel
  broken := by decide +kernel

theorem undated_repairable : Repairable undated.catalog .events 4 6 := by
  intro f hf column hcolumn
  have hrows : f ∈ undated.catalog.dataFiles.rows := (mem_repairTargets.1 hf).1
  simp only [undated, List.mem_cons, List.not_mem_nil, or_false] at hrows
  simp only [RepairKind.columns, List.mem_cons, List.not_mem_nil, or_false] at hcolumn
  rcases hrows with rfl | rfl <;> rcases hcolumn with rfl | rfl | rfl
  · exact ⟨2024, by omega, by decide +kernel⟩
  · exact ⟨1, by omega, by decide +kernel⟩
  · exact ⟨2, by omega, by decide +kernel⟩
  · exact ⟨2024, by omega, by decide +kernel⟩
  · exact ⟨1, by omega, by decide +kernel⟩
  · exact ⟨3, by omega, by decide +kernel⟩

theorem undated_heals :
    Mended undatedFile (final (repairPartitionValues (fun _ => true) false) undatedSession).state ∧
      ∀ e t, repairPartitionValues (fun _ => true) false undatedSession = .error e t →
        ∃ tables, e = .allFailed tables :=
  repair_heals (fun _ => true) (fun _ => rfl) undatedSession ⟨fun _ c => .refl c, fun _ => rfl⟩
    undatedFile undatedFile_rotten (by decide +kernel) (by decide +kernel) undated_repairable

/-- The file that lacks nothing. -/
def datedFile : DataFile :=
  ⟨11, 4, 1, none, "s3://lake/events/year=2024/month=01/day=03/b.parquet", false, some 6, none, none⟩

theorem datedFile_right : Right undated datedFile := by
  intro kind hshape _
  cases kind with
  | events =>
      refine ⟨?_, [2024, 1, 3], by decide +kernel, by decide +kernel⟩
      unfold FirstIsHive
      decide +kernel
  | persons => exact absurd hshape (by decide +kernel)

theorem undated_keeps_dated : SameFile datedFile undated
    (final (repairPartitionValues (fun _ => true) false) undatedSession).state :=
  repair_keeps_values (fun c _ h => h ▸ .refl datedFile c) undatedSession
    (R := fun c d => c = d) (fun _ _ => rfl) (by decide +kernel) datedFile_right (fun _ => true) false

end Millpond.Maintenance
