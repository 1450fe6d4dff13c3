import Millpond.Ducklake.VariantCompanions

set_option autoImplicit false

/-! # What a flush projects into its companions

`write` asks for the companions after it has evolved the table, and builds the SELECT list from the
sources that were ready. Every companion in it was verified by the last read of the schema. -/

namespace Millpond.Ducklake

open Prog ReadCommitted

variable {lower : String → String} {cfg : WriteConfig} {schedule : ℕ → List Column}
  {s t : DuckLakeSink lower}

/-! ## The SELECT list -/

/-- The companion that an item projects. -/
def SelectItem.companionName : SelectItem → Option String
  | .companion _ name => some name
  | .star => none
  | .column _ => none
  | .insertedAt => none

/-- The companions in the SELECT list over a batch, for the sources that are given. -/
def projectedCompanions (lower : String → String) (columnNames : List String)
    (variantColumns : Option (List String)) (variantSrc : List (String × String)) : List String :=
  (buildInsertSelect lower columnNames variantColumns variantSrc).filterMap SelectItem.companionName

/-- The companions of the `INSERT`. -/
def InsertPlan.companions (lower : String → String) (plan : InsertPlan) : List String :=
  projectedCompanions lower plan.batch.names plan.readySources plan.variantSrc

/-- The companions of the string-only `INSERT`. -/
def InsertPlan.fallbackCompanions (lower : String → String) (plan : InsertPlan) : List String :=
  projectedCompanions lower plan.batch.names none plan.variantSrc

/-- Of the sources that only differ in case one is active. -/
theorem activeSource_inj {sources : List String} {name name' a b : String}
    (ha : activeSource lower sources name = some a) (hb : activeSource lower sources name' = some b)
    (hsame : lower a = lower b) : a = b := by
  have hlower : ∀ {name source : String}, activeSource lower sources name = some source →
      lower source = lower name := fun h =>
    of_decide_eq_true (List.mem_filter.1 (List.mem_of_getLast? h)).2
  have hnames : lower name = lower name' := (hlower ha).symm.trans (hsame.trans (hlower hb))
  unfold activeSource at ha hb
  rw [hnames] at ha
  exact Option.some.inj (ha.symm.trans hb)

/-- The companions of an expanded list are those of active sources, none twice: by induction on the
    columns. -/
theorem companions_selectColumns (lower : String → String) (sources : List String)
    (variantSrc : List (String × String)) (present : List String) : ∀ projected,
      ∃ active : List String,
        (selectColumns lower sources variantSrc projected present).filterMap SelectItem.companionName
          = active.map variantColumnName ∧
        active.Nodup ∧ ∀ source ∈ active, source ∉ projected ∧
          ∃ name, activeSource lower sources name = some source := by
  induction present with
  | nil => exact fun _ => ⟨[], rfl, List.nodup_nil, fun _ h => absurd h List.not_mem_nil⟩
  | cons name rest ih =>
      intro projected
      unfold selectColumns
      split
      · exact ih projected
      · rename_i source hsource
        split
        · exact ih projected
        · rename_i hnew
          obtain ⟨active, hnames, hnodup, hactive⟩ := ih (source :: projected)
          refine ⟨source :: active, ?_, ?_, ?_⟩
          · show variantColumnName source :: List.filterMap _ _ = _
            rw [hnames]
            rfl
          · exact List.nodup_cons.2 ⟨fun h => (hactive source h).1 List.mem_cons_self, hnodup⟩
          · intro other hother
            rcases List.mem_cons.1 hother with rfl | hother
            · exact ⟨hnew, name, hsource⟩
            · obtain ⟨hout, hname⟩ := hactive other hother
              exact ⟨fun h => hout (List.mem_cons_of_mem _ h), hname⟩

/-- The companions in a SELECT list. -/
theorem projectedCompanions_spec (lower : String → String) (columnNames : List String)
    (ready : Option (List String)) (variantSrc : List (String × String)) :
    ∃ active : List String,
      projectedCompanions lower columnNames ready variantSrc = active.map variantColumnName ∧
      active.Nodup ∧ ∀ source ∈ active, ∃ name, activeSource lower (ready.getD []) name = some source := by
  unfold projectedCompanions buildInsertSelect
  dsimp only
  split
  · exact ⟨[], rfl, List.nodup_nil, fun _ h => absurd h List.not_mem_nil⟩
  · obtain ⟨active, hnames, hnodup, hactive⟩ := companions_selectColumns lower (ready.getD [])
      variantSrc (presentNames columnNames variantSrc) []
    refine ⟨active, ?_, hnodup, fun source h => (hactive source h).2⟩
    rw [List.filterMap_append, hnames]
    exact List.append_nil _

/-- Without ready sources nothing is projected. -/
theorem projectedCompanions_none (lower : String → String) (columnNames : List String)
    (variantSrc : List (String × String)) :
    projectedCompanions lower columnNames none variantSrc = [] := by
  obtain ⟨active, hnames, -, hactive⟩ := projectedCompanions_spec lower columnNames none variantSrc
  rw [hnames, List.map_eq_nil_iff]
  refine List.eq_nil_iff_forall_not_mem.2 fun source h => ?_
  obtain ⟨name, hname⟩ := hactive source h
  exact absurd (mem_of_activeSource hname) List.not_mem_nil

/-- Companions of active sources that are safe identifiers differ in more than case. -/
theorem caseDistinct_companions
    (hlower : ∀ source, Hoglake.matchesSafeIdentifier source = true →
      lower (variantColumnName source) = lower source ++ "_variant")
    {sources active : List String} (hnodup : active.Nodup)
    (hactive : ∀ source ∈ active, ∃ name, activeSource lower sources name = some source)
    (hsafe : ∀ source ∈ active, Hoglake.matchesSafeIdentifier source = true) :
    CaseDistinct lower (active.map variantColumnName) := by
  unfold CaseDistinct
  rw [List.map_map]
  refine List.Nodup.map_on (fun a ha b hb heq => ?_) hnodup
  obtain ⟨name, hname⟩ := hactive a ha
  obtain ⟨name', hname'⟩ := hactive b hb
  have heq : lower (variantColumnName a) = lower (variantColumnName b) := heq
  rw [hlower a (hsafe a ha), hlower b (hsafe b hb)] at heq
  exact activeSource_inj hname hname' ((String.append_left_inj _).1 heq)

/-! ## The flush -/

theorem verifies_ensureTable (hs : Sound cfg schedule s) (batch : Batch) :
    Verifies cfg schedule s (ensureTable cfg batch) (fun _ _ => True) := by
  refine along_ensureTable rely_advances ?_ (fun t ht => ?_) (fun t ht => ?_) hs
  · exact fun label read t ht => (verifies_readLake ht label read).mono fun _ _ _ _ => trivial
  · exact verifies_runDdl ht _ _ fun _ _ h => nomatch h
  · exact verifies_modify ht rfl rfl (fun _ hentry _ => hentry) fun h => h

theorem verifies_alignUuidColumns (hs : Sound cfg schedule s) (batch : Batch) :
    Verifies cfg schedule s (alignUuidColumns batch)
      (fun aligned _ => aligned.names = batch.names) :=
  along_alignUuidColumns rely_advances (verifies_liveColumnNames hs _) batch

/-- What the flush projects: the companions were VARIANT in the last read, none is there twice, no
    column of the batch goes by the name of one, and the string-only `INSERT` has none. -/
structure ProjectsVerified (plan : InsertPlan) (t : DuckLakeSink lower) : Prop where
  verified : ∀ name ∈ plan.companions lower, ReadAsVariant t name
  once : CaseDistinct lower (plan.companions lower)
  alone : ∀ name ∈ plan.companions lower,
    ∀ column ∈ presentNames plan.batch.names plan.variantSrc, ¬Same lower column name
  fallback : plan.fallbackCompanions lower = []

variable (hlower : ∀ source, Hoglake.matchesSafeIdentifier source = true →
  lower (variantColumnName source) = lower source ++ "_variant")

include hlower in
theorem projectsVerified_of_read {plan : InsertPlan}
    (hread : CompanionsRead cfg (plan.readySources.getD []) t)
    (hpresent : ∀ column ∈ presentNames plan.batch.names plan.variantSrc,
      ¬Companion lower cfg column) : ProjectsVerified plan t := by
  obtain ⟨active, hnames, hnodup, hactive⟩ := projectedCompanions_spec lower plan.batch.names
    plan.readySources plan.variantSrc
  have hready : ∀ source ∈ active, source ∈ plan.readySources.getD [] := by
    intro source h
    obtain ⟨name, hname⟩ := hactive source h
    exact mem_of_activeSource hname
  have hcompanion : ∀ name ∈ plan.companions lower,
      ∃ source ∈ active, name = variantColumnName source := by
    intro name hname
    have hname : name ∈ active.map variantColumnName := hnames ▸ hname
    obtain ⟨source, hsource, rfl⟩ := List.mem_map.1 hname
    exact ⟨source, hsource, rfl⟩
  refine ⟨fun name hname => ?_, ?_, fun name hname column hcolumn hsame => ?_,
    projectedCompanions_none _ _ _⟩
  · obtain ⟨source, hsource, rfl⟩ := hcompanion name hname
    exact (hread source (hready source hsource)).2.2
  · show CaseDistinct lower (projectedCompanions _ _ _ _)
    rw [hnames]
    exact caseDistinct_companions hlower hnodup hactive
      fun source hsource => (hread source (hready source hsource)).2.1
  · obtain ⟨source, hsource, rfl⟩ := hcompanion name hname
    have hmem : Companion lower cfg (variantColumnName source) :=
      companion_of_mem (hread source (hready source hsource)).1
    unfold Companion at hpresent hmem
    rw [← show lower column = lower (variantColumnName source) from hsame] at hmem
    exact hpresent column hcolumn hmem

include hlower in
theorem verifies_planInsert (hs : Sound cfg schedule s) {batch : Batch}
    (hbatch : ∀ name ∈ batch.names, ¬Companion lower cfg name) :
    Verifies cfg schedule s (planInsert cfg batch) ProjectsVerified := by
  refine verifies_bind (verifies_ensureTable hs batch) fun _ t ht _ => ?_
  refine verifies_bind (verifies_alignUuidColumns ht.sound batch) fun aligned u hu hnames => ?_
  have hfields : ∀ field ∈ aligned.fields, ¬Companion lower cfg field.name := fun field hfield =>
    hbatch field.name (hnames ▸ List.mem_map_of_mem hfield)
  refine verifies_bind (verifies_evolve hu.sound hfields) fun _ v hv _ => ?_
  refine verifies_bind (verifies_readyVariants hv.sound aligned) fun ready w hw hready => ?_
  refine verifies_pure hw.sound (projectsVerified_of_read hlower hready fun column hcolumn => ?_)
  -- what is not hidden is a column of the batch
  obtain ⟨hmem, hshown⟩ := List.mem_filter.1 hcolumn
  refine hbatch column (hnames ▸ ?_)
  have hmem : column ∈ ((sanitizeVariantSources lower (ready.getD []) aligned).1).names := hmem
  simp only [sanitizeVariantSources, Batch.names, List.map_append, List.map_map, List.mem_append]
    at hmem hshown ⊢
  refine hmem.resolve_right fun hhidden => of_decide_eq_true hshown ?_
  exact hhidden

include hlower in
theorem verifies_prepareWrite (hs : Sound cfg schedule s) (batch : Batch) :
    Verifies cfg schedule s (prepareWrite cfg batch)
      (fun plan t => ∀ p, plan = some p → ProjectsVerified p t) := by
  refine verifies_ite (fun _ => verifies_throw hs _) fun _ => ?_
  refine verifies_bind (verifies_liveColumnNames hs _) fun liveVariant t ht _ => ?_
  refine verifies_ite (fun _ => verifies_pure ht.sound fun p h => nomatch h) fun _ => ?_
  have hkept : ∀ name ∈ (dropProtectedColumns lower liveVariant
      (dropVariantCompanionColumns lower cfg.variantColumns batch)).names,
        ¬Companion lower cfg name := by
    rw [names_dropProtectedColumns, dropVariantCompanionColumns, names_dropProtectedColumns]
    intro name hname
    unfold Companion
    exact of_decide_eq_true (List.mem_filter.1 (List.mem_filter.1 hname).1).2
  refine along_map ((verifies_planInsert hlower ht.sound hkept).mono fun plan u _ hplan p hp => ?_)
  exact Option.some.inj hp ▸ hplan

theorem verifies_insertPlan (hs : Sound cfg schedule s) (plan : InsertPlan) :
    Verifies cfg schedule s (insertPlan plan) (fun _ _ => True) := by
  refine verifies_tryCatch (verifies_insertByName hs _) fun e t ht => ?_
  cases e with
  | duckdb e =>
      exact verifies_ite (fun _ => verifies_insertByName ht.sound _) fun _ => verifies_throw ht.sound _
  | reservedCollision names => exact verifies_throw ht.sound _
  | createFailed e => exact verifies_throw ht.sound _
  | partitionFailed e => exact verifies_throw ht.sound _

include hlower in
theorem verifies_write (hs : Sound cfg schedule s) (batch : Batch) :
    Verifies cfg schedule s (write cfg batch) (fun _ _ => True) := by
  refine verifies_bind (verifies_prepareWrite hlower hs batch) fun plan t ht _ => ?_
  cases plan with
  | none => exact verifies_pure ht.sound trivial
  | some plan =>
      exact verifies_bind (verifies_insertPlan ht.sound plan) fun _ u hu _ =>
        verifies_pure hu.sound trivial

/-! ## A run of the sink -/

include hlower in
/-- Any calls leave the sink sound; what they raise is caught. -/
theorem sinkCalls_sound (calls : List SinkCall) :
    ∀ {s : DuckLakeSink lower}, Sound cfg schedule s →
      wp (sinkCalls cfg calls) (fun _ t => Sound cfg schedule t) (fun _ _ => False) s := by
  induction calls with
  | nil => exact fun hs => hs
  | cons call rest ih =>
      intro s hs
      cases call with
      | write batch =>
          unfold sinkCalls
          rw [wp_bind, wp_tryCatch, wp_map]
          exact wp_mono (verifies_write hlower hs batch) (fun _ t h => ih h.1.sound)
            fun _ t h => ih h.sound
      | resetCaches =>
          unfold sinkCalls
          rw [wp_bind]
          have hreset : wp resetCaches (fun _ t => Sound cfg schedule t) (fun _ _ => False) s :=
            ⟨hs.pods, hs.own, hs.cached, hs.kept, hs.distinct⟩
          exact wp_mono hreset (fun _ t h => ih h) fun _ _ h => h

theorem freshSink_sound (cfg : WriteConfig) (table : Columns) (schedule : ℕ → List Column)
    (fates : ℕ → Fate DuckdbError) : Sound cfg schedule (freshSink lower table schedule fates) :=
  ⟨rfl, rfl, fun _ h => absurd h List.not_mem_nil, fun _ h => absurd h List.not_mem_nil,
    fun _ => List.nodup_nil⟩

/-- If the last read of the catalog told all names apart by more than case, the cache does. -/
def CacheDistinct (s : DuckLakeSink lower) : Prop :=
  CaseDistinct lower ((s.lastRead.getD []).map Column.name) →
    CaseDistinct lower (s.knownColumns.map Prod.fst)

/-- **Companions are only projected verified.** For every configuration, after any calls of the sink,
    whatever the batches, the columns that other pods create and the statements that fail: every
    companion in the SELECT list of the next flush was a VARIANT in the last read of the schema that
    succeeded, each is there once and no column of the batch beside it goes by its name, and the cache
    of the schema never tells names apart that only differ in case unless the catalog does. -/
theorem companions_projected_verified (cfg : WriteConfig) (calls : List SinkCall) (table : Columns)
    (schedule : ℕ → List Column) (fates : ℕ → Fate DuckdbError) (batch : Batch)
    (hlower : ∀ source, Hoglake.matchesSafeIdentifier source = true →
      lower (variantColumnName source) = lower source ++ "_variant") :
    wp (sinkCalls cfg calls)
      (fun _ s => CacheDistinct s ∧
        wp (prepareWrite cfg batch)
          (fun plan t => CacheDistinct t ∧ ∀ p, plan = some p → ProjectsVerified p t)
          (fun _ t => CacheDistinct t) s)
      (fun _ _ => False) (freshSink lower table schedule fates) := by
  refine wp_mono (sinkCalls_sound hlower calls (freshSink_sound cfg table schedule fates))
    (fun _ s hs => ⟨hs.distinct, ?_⟩) fun _ _ h => h
  exact wp_mono (verifies_prepareWrite hlower hs batch)
    (fun plan t h => ⟨h.1.sound.distinct, h.2⟩) fun _ t h => h.sound.distinct

theorem toLower_companion (source : String) :
    (variantColumnName source).toLower = source.toLower ++ "_variant" := by
  unfold variantColumnName String.toLower
  apply String.toList_injective
  simp

/-- A batch with a source of VARIANT. -/
def propertiesBatch : Batch := ⟨[⟨"event", "string", none, .text⟩, ⟨"Properties", "string", none, .text⟩], 1, []⟩

/-- Another pod creates the companion of one source as text before the third statement. -/
def otherCompanion : ℕ → List Column := fun n => if n = 2 then [⟨"EVENT_variant", "VARCHAR"⟩] else []

theorem companions_projected_verified_properties :
    wp (sinkCalls ⟨["event", "properties"], false⟩ [.write propertiesBatch, .resetCaches])
      (fun _ s => CacheDistinct s ∧
        wp (prepareWrite ⟨["event", "properties"], false⟩ propertiesBatch)
          (fun plan t => CacheDistinct t ∧ ∀ p, plan = some p → ProjectsVerified p t)
          (fun _ t => CacheDistinct t) s)
      (fun _ _ => False)
      (freshSink String.toLower none otherCompanion fun _ => .runs) :=
  companions_projected_verified _ _ _ _ _ _ fun source _ => toLower_companion source

-- a companion that can be added and verified is projected
example : wp (prepareWrite ⟨["p"], false⟩ ⟨[⟨"p", "string", none, .text⟩], 1, []⟩)
    (fun plan _ => plan.map (InsertPlan.companions id) = some ["p_variant"])
    (fun _ _ => False) (freshSink id none (fun _ => []) fun _ => .runs) := by
  decide +kernel

end Millpond.Ducklake
