import Millpond.Ducklake.AddedColumns

set_option autoImplicit false

/-! # What is evolved and what is inserted

`evolve` decides which columns the table gets; `write` projects the batch on its own. This module
says exactly when every output column of the `INSERT` is a column of the table: from the names of the
batch, the table that `evolve` finds, what becomes of its `ADD COLUMN`s, and what other pods create. -/

namespace Millpond.Ducklake

open Prog ReadCommitted

variable {lower : String → String} {schedule : ℕ → List Column} {spared : String → Prop}
  {s t : DuckLakeSink lower}

/-! ## The write -/

section Carried

variable {I : DuckLakeSink lower → Prop} {G : DuckLakeSink lower → DuckLakeSink lower → Prop}

theorem along_orTableExists (hG : Rely I G)
    (hread : ∀ s, I s → Along G tableExists (fun _ _ => True) s) {x : SinkM lower PUnit}
    {failed : DuckdbError → WriteError} (hx : Along G x (fun _ _ => True) s) :
    Along G (orTableExists x failed) (fun _ _ => True) s := by
  refine hG.tryCatch hx fun e t ht => ?_
  cases e with
  | duckdb e =>
      refine hG.bind (hread t ht) fun present u hu _ _ => ?_
      exact along_ite (fun _ => hG.pure hu trivial) fun _ => hG.throw hu _
  | reservedCollision names => exact hG.throw ht _
  | createFailed e => exact hG.throw ht _
  | partitionFailed e => exact hG.throw ht _

/-- The table is ensured along any relation that its three kinds of statement keep. -/
theorem along_ensureTable (hG : Rely I G) {cfg : WriteConfig} {batch : Batch}
    (hread : ∀ {β : Type} (label : DuckStatement) (read : Columns → β) (s : DuckLakeSink lower), I s →
      Along G (readLake label read) (fun _ _ => True) s)
    (hcreate : ∀ s, I s →
      Along G (runDdl .createTable (.createTable (createdColumns batch))) (fun _ _ => True) s)
    (hensured : ∀ s, I s →
      Along G (modify (fun s => { s with tableEnsured := true }) : SinkM lower PUnit)
        (fun _ _ => True) s) (hs : I s) :
    Along G (ensureTable cfg batch) (fun _ _ => True) s := by
  refine along_get_bind (along_ite (fun _ => hG.pure hs trivial) fun _ => ?_)
  refine hG.bind (hread _ _ s hs) fun present t ht _ _ => ?_
  refine along_ite (fun _ => hensured t ht) fun _ => ?_
  refine hG.bind (along_orTableExists hG (hread _ _) (hcreate t ht)) fun _ u hu _ _ => ?_
  have hpartition : Along G (setPartitionedBy cfg.partitioned) (fun _ _ => True) u :=
    along_ite (fun _ => along_orTableExists hG (hread _ _) (hread _ _ u hu)) fun _ => hG.pure hu trivial
  exact hG.bind hpartition fun _ v hv _ _ => hensured v hv

/-- Parsing text to UUIDs keeps the names. -/
theorem along_alignUuidColumns (hG : Rely I G) {P : List String → DuckLakeSink lower → Prop}
    (hnames : Along G (liveColumnNames "UUID") P s) (batch : Batch) :
    Along G (alignUuidColumns batch) (fun aligned _ => aligned.names = batch.names) s := by
  refine hG.bind hnames fun liveUuid t ht _ _ => hG.pure ht ?_
  unfold Batch.names
  rw [List.map_map]
  refine List.map_congr_left fun field _ => ?_
  simp only [Function.comp_apply]
  split
  · rfl
  · rfl

end Carried

theorem does_ensureTable (hs : Standing schedule s) (cfg : WriteConfig) (batch : Batch) :
    Does schedule noName s (ensureTable cfg batch) (fun _ _ => True) := by
  refine along_ensureTable rely_goes ?_ (fun t ht => ?_) (fun t ht => does_setKnown ht rfl ht.known) hs
  · exact fun label read t ht => (does_readLake ht label read).mono fun _ _ _ _ => trivial
  · exact (does_runDdl ht _ (spares_noName _)).mono fun _ _ _ _ => trivial

theorem does_alignUuidColumns (hs : Standing schedule s) (batch : Batch) :
    Does schedule spared s (alignUuidColumns batch) (fun aligned _ => aligned.names = batch.names) :=
  along_alignUuidColumns rely_goes (does_liveColumnNames hs _) batch

theorem does_readyVariants (hs : Standing schedule s) {cfg : WriteConfig}
    (hspared : ∀ source ∈ cfg.variantColumns, ∀ name, spared name →
      ¬ Same lower (variantColumnName source) name) (batch : Batch) :
    Does schedule spared s (readyVariants cfg batch)
      (fun ready => CompanionsLive (ready.getD [])) := by
  refine does_ite (fun _ => ?_) fun _ => ?_
  · exact does_pure hs fun source hsource => absurd hsource List.not_mem_nil
  · refine does_bind (does_ensureVariantColumns hs hspared _) fun ready t hgoes hready => ?_
    refine does_pure hgoes.standing fun source hsource => hready source ?_
    simpa using (List.mem_filter.1 (mem_orNone.1 hsource)).2

/-! ## Up to `evolve` -/

/-- `write` up to `evolve`: the batch that is evolved, `none` for one that is skipped whole. -/
def untilEvolve (cfg : WriteConfig) (batch : Batch) : SinkM lower (Option Batch) := do
  let collisions := batch.names.filter fun name => name ∈ reservedColumns
  if !collisions.isEmpty then throw (.reservedCollision collisions)
  else do
    let stripped := dropVariantCompanionColumns lower cfg.variantColumns batch
    let liveVariant ← liveColumnNames "VARIANT"
    let kept := dropProtectedColumns lower liveVariant stripped
    if !batch.fields.isEmpty && kept.fields.isEmpty then pure none
    else do
      ensureTable cfg kept
      some <$> alignUuidColumns kept

/-- `write` from `evolve` to the SELECT list. -/
def planAligned (cfg : WriteConfig) (aligned : Batch) : SinkM lower InsertPlan := do
  evolve aligned.fields
  let ready ← readyVariants cfg aligned
  let sanitized := sanitizeVariantSources lower (ready.getD []) aligned
  pure ⟨sanitized.1, ready, sanitized.2⟩

/-- A batch that is skipped whole is not evolved. -/
def planKept (cfg : WriteConfig) : Option Batch → SinkM lower (Option InsertPlan)
  | none => pure none
  | some aligned => some <$> planAligned cfg aligned

theorem prepareWrite_eq (cfg : WriteConfig) (batch : Batch) :
    (prepareWrite cfg batch : SinkM lower (Option InsertPlan)) =
      untilEvolve cfg batch >>= planKept cfg := by
  unfold prepareWrite untilEvolve planInsert
  dsimp only
  split
  · rfl
  · rw [bind_assoc]
    refine bind_congr fun liveVariant => ?_
    split
    · rw [pure_bind]
      rfl
    · rw [bind_assoc, map_bind]
      refine bind_congr fun _ => ?_
      rw [map_bind, bind_map_left]
      rfl

/-- The names of a batch that are not those of configured companions. -/
def uncompanioned (lower : String → String) (cfg : WriteConfig) (batch : Batch) : List String :=
  batch.names.filter fun name =>
    lower name ∉ cfg.variantColumns.map fun source => lower (variantColumnName source)

theorem names_dropProtectedColumns (protectedLower : List String) (batch : Batch) :
    (dropProtectedColumns lower protectedLower batch).names =
      batch.names.filter fun name => lower name ∉ protectedLower := by
  unfold dropProtectedColumns Batch.names
  rw [List.filter_map]
  rfl

/-- What is left of the names of a batch when it is evolved: none is reserved, and those that were
    stripped are configured companions' or live. -/
structure Aligned (cfg : WriteConfig) (batch aligned : Batch) (s : DuckLakeSink lower) : Prop where
  free : "_inserted_at" ∉ batch.names
  kept : ∀ name ∈ aligned.names, name ∈ uncompanioned lower cfg batch
  left : ∀ name ∈ uncompanioned lower cfg batch, name ∈ aligned.names ∨ Named lower s.live name

theorem does_untilEvolve (hs : Standing schedule s) (cfg : WriteConfig) (batch : Batch) :
    Does schedule noName s (untilEvolve cfg batch)
      (fun kept t => ∀ aligned, kept = some aligned → Aligned cfg batch aligned t) := by
  refine does_ite (fun _ => does_throw hs _) fun hfree => ?_
  have hfree : "_inserted_at" ∉ batch.names := by
    intro hmem
    have hcollides : "_inserted_at" ∈ batch.names.filter fun name => name ∈ reservedColumns :=
      List.mem_filter.2 ⟨hmem, by decide⟩
    simp only [Bool.not_eq_true, Bool.not_eq_false', List.isEmpty_iff] at hfree
    rw [hfree] at hcollides
    exact List.not_mem_nil hcollides
  refine does_bind (does_liveColumnNames hs _) fun liveVariant t hgoes hvariant => ?_
  refine does_ite (fun _ => does_pure hgoes.standing (by simp)) fun _ => ?_
  refine does_bind (does_ensureTable hgoes.standing cfg _) fun _ u hgoes' _ => ?_
  refine does_map ((does_alignUuidColumns hgoes'.standing _).mono fun aligned v hgoes'' hnames => ?_)
  rintro _ ⟨⟩
  have hkept : aligned.names =
      (uncompanioned lower cfg batch).filter fun name => lower name ∉ liveVariant := by
    rw [hnames, names_dropProtectedColumns, dropVariantCompanionColumns, names_dropProtectedColumns]
    rfl
  refine ⟨hfree, fun name hname => ?_, fun name hname => ?_⟩
  · rw [hkept] at hname
    exact (List.mem_filter.1 hname).1
  · by_cases hlive : lower name ∈ liveVariant
    · exact Or.inr (hgoes''.grows (hgoes'.grows (hvariant name hlive)))
    · rw [hkept]
      exact Or.inl (List.mem_filter.2 ⟨hname, by simpa using hlive⟩)

/-! ## From `evolve` on -/

/-- The flush hides a column of the name: that of a source which it readies and whose text it
    rewrites. -/
def Hides (cfg : WriteConfig) (aligned : Batch) (s : DuckLakeSink lower) (name : String) : Prop :=
  ∃ source s', name = variantSrcName source ∧ sanitizes lower aligned source = true ∧
    evolve aligned.fields s = .ok ⟨⟩ s' ∧ ReadiedFrom cfg.variantColumns aligned.names s' source

/-- What `planAligned` makes of the names of a batch and of the table. -/
structure Planned (schedule : ℕ → List Column) (cfg : WriteConfig) (aligned : Batch)
    (s : DuckLakeSink lower) (plan : InsertPlan) (t : DuckLakeSink lower) : Prop where
  names : plan.batch.names = aligned.names ++ plan.variantSrc.map Prod.snd
  companions : CompanionsLive (plan.readySources.getD []) t
  hidden : ∀ name, name ∈ plan.variantSrc.map Prod.snd ↔ Hides cfg aligned s name
  gains : ∀ name, (∀ source ∈ cfg.variantColumns, ¬ Same lower (variantColumnName source) name) →
    Gains schedule name (∃ field s', EvolvesAt aligned.fields s field s' ∧
      Same lower field.name name ∧ Adds field s') s t

theorem planAligned_planned (hs : Standing schedule s) (cfg : WriteConfig) (aligned : Batch) :
    wp (planAligned cfg aligned) (Planned schedule cfg aligned s) (fun _ _ => True) s := by
  unfold planAligned
  rw [wp_bind]
  refine wp_mono (wp_run _ s) (fun _ t hevolve => ?_) fun _ _ _ => trivial
  have hgains := fun name => (wp_of_ok hevolve).1 (evolve_gains hs aligned.fields name)
  have ht : Standing schedule t := (hgains "").goes.standing
  rw [wp_bind]
  refine wp_mono (wp_run _ t) (fun ready u hready => ?_) fun _ _ _ => trivial
  have hreadied := fun source => (wp_of_ok hready).1 (readyVariants_readied ht cfg aligned source)
  have hcompanions : Does schedule noName t (readyVariants cfg aligned)
      (fun ready => CompanionsLive (ready.getD [])) :=
    does_readyVariants ht (fun _ _ _ hname => hname.elim) aligned
  have hlive := (wp_of_ok hready).1 hcompanions
  refine ⟨?_, hlive.2, fun name => ?_, fun name hname => ?_⟩
  · simp [sanitizeVariantSources, Batch.names, Function.comp_def]
  · simp only [sanitizeVariantSources, List.map_map, List.mem_map, List.mem_filter, hreadied]
    constructor
    · rintro ⟨source, ⟨hsource, hsanitizes⟩, rfl⟩
      exact ⟨source, t, rfl, hsanitizes, hevolve, hsource⟩
    · rintro ⟨source, s', rfl, hsanitizes, hevolve', hsource⟩
      obtain ⟨-, rfl⟩ := EStateM.Result.ok.inj (hevolve.symm.trans hevolve')
      exact ⟨source, ⟨hsource, hsanitizes⟩, rfl⟩
  · have hspares : Does schedule (Eq name) t (readyVariants cfg aligned)
        (fun ready => CompanionsLive (ready.getD [])) := by
      refine does_readyVariants ht ?_ aligned
      rintro source hsource _ rfl
      exact hname source hsource
    exact (hgains name).spare ((wp_of_ok hready).1 hspares).1

theorem does_planAligned (hs : Standing schedule s) (cfg : WriteConfig) (aligned : Batch) :
    Does schedule noName s (planAligned cfg aligned) (fun _ _ => True) := by
  refine does_bind (does_evolve hs _) fun _ t hgoes _ => ?_
  refine does_bind (does_readyVariants hgoes.standing (fun _ _ _ hname => hname.elim) aligned)
    fun ready u hgoes' _ => does_pure hgoes'.standing trivial

theorem does_prepareWrite (hs : Standing schedule s) (cfg : WriteConfig) (batch : Batch) :
    Does schedule noName s (prepareWrite cfg batch) (fun _ _ => True) := by
  rw [prepareWrite_eq]
  refine does_bind (does_untilEvolve hs cfg batch) fun kept t hgoes _ => ?_
  cases kept with
  | none => exact does_pure hgoes.standing trivial
  | some aligned =>
      exact does_map ((does_planAligned hgoes.standing cfg aligned).mono fun _ _ _ _ => trivial)

theorem does_insertByName (hs : Standing schedule s) (outputs : List String) :
    Does schedule noName s (insertByName outputs) (fun _ _ => True) := by
  unfold Does insertByName execute
  rw [wp_zoom]
  refine wp_transaction (wp_statement (fun e => goes_refused hs _) fun _ writes hrun => ?_)
  · -- the rows are no part of the model: there is nothing to write
    have hidle : writes = [] := by
      split at hrun
      · simp only [Except.ok.injEq, Prod.mk.injEq, true_and] at hrun
        exact hrun.symm
      · exact absurd hrun (by simp)
    subst hidle
    let q : DuckSession lower := (s.session.reading (.insert outputs) s.session.next).writing []
    have hq : Tracks schedule noName s.session q :=
      (tracks_reading hs (.insert outputs)).trans (tracks_same rfl rfl)
    have hown : q.own = [] := by
      show s.session.own ++ [] = []
      rw [hs.own]
      rfl
    have hnext : q.next = ⟨createColumns lower (schedule q.clock) q.committed.columns⟩ :=
      next_eq hs.pods
    have hdone : Tracks schedule noName q (q.committing q.next) := by
      refine tracks_statement rfl ?_
      show overlay q.own q.next = _
      rw [hown, hnext]
      rfl
    have hundone : Tracks schedule noName q (q.uncommitted q.next) :=
      tracks_statement rfl hnext
    have hgoes : Goes schedule noName s { s with session := q.committing q.next } :=
      goes_session hs rfl rfl (hq.trans hdone)
    exact ⟨⟨hgoes, trivial⟩, fun _ => hgoes, fun _ => goes_session hs rfl rfl (hq.trans hundone)⟩

theorem does_insertPlan (hs : Standing schedule s) (plan : InsertPlan) :
    Does schedule noName s (insertPlan plan) (fun _ _ => True) := by
  refine does_tryCatch (does_insertByName hs _) fun e t hgoes => ?_
  cases e with
  | duckdb e =>
      exact does_ite (fun _ => does_insertByName hgoes.standing _) fun _ =>
        does_throw hgoes.standing _
  | reservedCollision names => exact does_throw hgoes.standing _
  | createFailed e => exact does_throw hgoes.standing _
  | partitionFailed e => exact does_throw hgoes.standing _

theorem does_write (hs : Standing schedule s) (cfg : WriteConfig) (batch : Batch) :
    Does schedule noName s (write cfg batch) (fun _ _ => True) := by
  refine does_bind (does_prepareWrite hs cfg batch) fun plan t hgoes _ => ?_
  cases plan with
  | none => exact does_pure hgoes.standing trivial
  | some plan =>
      exact does_bind (does_insertPlan hgoes.standing plan) fun _ u hgoes' _ =>
        does_pure hgoes'.standing trivial

/-- No call of the sink ends the pod: what it raises is caught. -/
theorem sinkCalls_goes (cfg : WriteConfig) (calls : List SinkCall) :
    ∀ {s : DuckLakeSink lower}, Standing schedule s →
      wp (sinkCalls cfg calls) (fun _ t => Goes schedule noName s t) (fun _ _ => False) s := by
  induction calls with
  | nil => exact fun hs => Goes.refl hs
  | cons call rest ih =>
      intro s hs
      cases call with
      | write batch =>
          unfold sinkCalls
          rw [wp_bind, wp_tryCatch, wp_map]
          refine wp_mono (does_write hs cfg batch) (fun _ t h => ?_) (fun _ t h => ?_)
          · exact wp_mono (ih h.1.standing) (fun _ _ h' => h.1.trans h') (fun _ _ h' => h')
          · rw [wp_pure]
            exact wp_mono (ih h.standing) (fun _ _ h' => h.trans h') (fun _ _ h' => h')
      | resetCaches =>
          unfold sinkCalls
          rw [wp_bind]
          have hreset : wp resetCaches (fun _ t => Goes schedule noName s t) (fun _ _ => False) s :=
            ⟨⟨hs.pods, hs.own, hs.known⟩, Tracks.refl _⟩
          refine wp_mono hreset (fun _ t h => ?_) (fun _ _ h => h)
          exact wp_mono (ih h.standing) (fun _ _ h' => h.trans h') (fun _ _ h' => h')

/-! ## What the `INSERT` puts out -/

theorem mem_of_activeSource {sources : List String} {name source : String}
    (h : activeSource lower sources name = some source) : source ∈ sources :=
  (List.mem_filter.1 (List.mem_of_getLast? h)).1

/-- An expanded list puts out every column, and else only companions of the sources. -/
theorem outputs_selectColumns (lower : String → String) (sources : List String) (variantSrc : List (String × String))
    (names present : List String) : ∀ projected,
      (∀ name ∈ present, name ∈ (selectColumns lower sources variantSrc projected present).flatMap
        (SelectItem.outputs names)) ∧
      ∀ o ∈ (selectColumns lower sources variantSrc projected present).flatMap
        (SelectItem.outputs names), o ∈ present ∨ ∃ source ∈ sources, o = variantColumnName source := by
  induction present with
  | nil => exact fun _ => ⟨fun _ h => absurd h List.not_mem_nil, fun _ h => absurd h List.not_mem_nil⟩
  | cons name rest ih =>
      intro projected
      -- the column is projected whether its companion is or not
      have hplain : ∀ projected : List String,
          (∀ n ∈ name :: rest, n ∈ (SelectItem.column name ::
            selectColumns lower sources variantSrc projected rest).flatMap
              (SelectItem.outputs names)) ∧
          ∀ o ∈ (SelectItem.column name ::
            selectColumns lower sources variantSrc projected rest).flatMap
              (SelectItem.outputs names),
            o ∈ name :: rest ∨ ∃ source ∈ sources, o = variantColumnName source := by
        intro projected
        obtain ⟨hall, honly⟩ := ih projected
        rw [List.flatMap_cons]
        constructor
        · intro n hn
          rcases List.mem_cons.1 hn with rfl | hn
          · exact List.mem_append_left _ (List.mem_singleton.2 rfl)
          · exact List.mem_append_right _ (hall n hn)
        · intro o ho
          rcases List.mem_append.1 ho with ho | ho
          · exact Or.inl (List.mem_singleton.1 ho ▸ List.mem_cons_self)
          · exact (honly o ho).imp (List.mem_cons_of_mem _) id
      unfold selectColumns
      split
      · exact hplain projected
      · next source hsource =>
          split
          · exact hplain projected
          · obtain ⟨hall, honly⟩ := hplain (source :: projected)
            simp only [List.flatMap_cons, List.mem_append] at hall honly ⊢
            constructor
            · exact fun n hn => (hall n hn).imp id Or.inr
            · rintro o (ho | ho | ho)
              · exact honly o (Or.inl ho)
              · exact Or.inr ⟨source, mem_of_activeSource hsource, List.mem_singleton.1 ho⟩
              · exact honly o (Or.inr ho)

/-- The output columns of the SELECT list over a batch. -/
theorem outputs_buildInsertSelect (lower : String → String) (columnNames : List String) (ready : Option (List String))
    (variantSrc : List (String × String)) :
    (∀ name ∈ presentNames columnNames variantSrc,
      name ∈ (buildInsertSelect lower columnNames ready variantSrc).flatMap
        (SelectItem.outputs columnNames)) ∧
    ∀ o ∈ (buildInsertSelect lower columnNames ready variantSrc).flatMap
        (SelectItem.outputs columnNames),
      o ∈ presentNames columnNames variantSrc ∨
        (∃ source ∈ ready.getD [], o = variantColumnName source) ∨ o = "_inserted_at" := by
  unfold buildInsertSelect
  dsimp only
  split
  · next hstar =>
      have hall : presentNames columnNames variantSrc = columnNames := by
        rw [List.isEmpty_iff.1 hstar.1]
        simp [presentNames]
      rw [hall]
      simp only [List.flatMap_cons, List.flatMap_nil, List.append_nil, List.mem_append]
      constructor
      · exact fun name hname => Or.inl hname
      · rintro o (ho | ho)
        · exact Or.inl ho
        · exact Or.inr (Or.inr (List.mem_singleton.1 ho))
  · obtain ⟨hall, honly⟩ := outputs_selectColumns lower (ready.getD []) variantSrc
      columnNames (presentNames columnNames variantSrc) []
    rw [List.flatMap_append]
    simp only [List.mem_append]
    constructor
    · exact fun name hname => Or.inl (hall name hname)
    · rintro o (ho | ho)
      · exact (honly o ho).imp id Or.inl
      · rw [List.flatMap_cons, List.flatMap_nil, List.append_nil] at ho
        exact Or.inr (Or.inr (List.mem_singleton.1 ho))

/-- `INSERT .. BY NAME` knows every output column. -/
def Accepted (lower : String → String) (live : Columns) (outputs : List String) : Prop :=
  ∀ o ∈ outputs, o = "_inserted_at" ∨ Named lower live o

instance (lower : String → String) (live : Columns) (outputs : List String) :
    Decidable (Accepted lower live outputs) :=
  inferInstanceAs (Decidable (∀ o ∈ outputs, o = "_inserted_at" ∨ Named lower live o))

/-- Given that the ready companions are live, only the batch's own columns decide. -/
theorem accepted_iff {live : Columns} {columnNames : List String} {ready : Option (List String)}
    {variantSrc : List (String × String)}
    (hcompanions : ∀ source ∈ ready.getD [], Named lower live (variantColumnName source))
    (hfree : "_inserted_at" ∉ presentNames columnNames variantSrc) :
    Accepted lower live ((buildInsertSelect lower columnNames ready variantSrc).flatMap
        (SelectItem.outputs columnNames)) ↔
      ∀ name ∈ presentNames columnNames variantSrc, Named lower live name := by
  obtain ⟨hall, honly⟩ := outputs_buildInsertSelect lower columnNames ready variantSrc
  constructor
  · intro h name hname
    rcases h name (hall name hname) with rfl | hlive
    · exact absurd hname hfree
    · exact hlive
  · intro h o ho
    rcases honly o ho with hname | ⟨source, hsource, rfl⟩ | rfl
    · exact Or.inr (h o hname)
    · exact Or.inr (hcompanions source hsource)
    · exact Or.inl rfl

/-! ## When the two agree -/

/-- A pod that has done nothing yet. -/
def freshSink (lower : String → String) (table : Columns) (schedule : ℕ → List Column)
    (fates : ℕ → Fate DuckdbError) : DuckLakeSink lower where
  session :=
    { committed := ⟨table⟩
      own := []
      others := fun n _ lake => ⟨createColumns lower (schedule n) lake.columns⟩
      fates := fates
      clock := 0
      seen := [] }
  knownColumns := []
  initialized := false
  tableEnsured := false
  lastRead := none

theorem freshSink_standing (table : Columns) (schedule : ℕ → List Column)
    (fates : ℕ → Fate DuckdbError) :
    Standing schedule (freshSink lower table schedule fates) :=
  ⟨rfl, rfl, fun _ hentry => absurd hentry List.not_mem_nil⟩

/-- Every column of the batch that is not a configured companion's is in the table that `evolve`
    finds, is created by another pod before the `INSERT`, is added by an `ADD COLUMN` that `evolve`
    issues for a field of its name and that takes effect, or is hidden. -/
def Covered (cfg : WriteConfig) (batch aligned : Batch) (schedule : ℕ → List Column)
    (s : DuckLakeSink lower) (till : ℕ) : Prop :=
  ∀ name ∈ uncompanioned lower cfg batch,
    Named lower s.live name ∨ OthersCreated lower schedule s.session.clock till name ∨
      (∃ field s', EvolvesAt aligned.fields s field s' ∧ Same lower field.name name ∧ Adds field s') ∨
      Hides cfg aligned s name

/-- What the `INSERT` projects is what is aligned and not hidden. -/
theorem Planned.present_iff {cfg : WriteConfig} {aligned : Batch} {p : InsertPlan}
    (h : Planned schedule cfg aligned s p t) (name : String) :
    name ∈ presentNames p.batch.names p.variantSrc ↔ name ∈ aligned.names ∧ ¬ Hides cfg aligned s name := by
  unfold presentNames
  rw [List.mem_filter, h.names, decide_eq_true_iff, ← h.hidden, List.mem_append, or_and_right,
    and_not_self_iff, or_false]

/-- What is left of the batch is live at the end just when the account of its names says so. -/
theorem Planned.covered_iff {cfg : WriteConfig} {batch aligned : Batch} {p : InsertPlan}
    (h : Planned schedule cfg aligned s p t) (haligned : Aligned cfg batch aligned s) :
    (∀ name ∈ presentNames p.batch.names p.variantSrc, Named lower t.live name) ↔
      Covered cfg batch aligned schedule s t.session.clock := by
  obtain ⟨-, hkept, hleft⟩ := haligned
  -- a name that is no companion's becomes live in three ways only
  have hgains : ∀ name ∈ uncompanioned lower cfg batch, Gains schedule name
      (∃ field s', EvolvesAt aligned.fields s field s' ∧ Same lower field.name name ∧
        Adds field s') s t := by
    intro name hname
    refine h.gains name fun source hsource hsame => ?_
    exact of_decide_eq_true (List.mem_filter.1 hname).2 (List.mem_map.2 ⟨source, hsource, hsame⟩)
  constructor
  · intro hlive name hname
    by_cases hhidden : Hides cfg aligned s name
    · exact Or.inr (Or.inr (Or.inr hhidden))
    · rcases hleft name hname with hmem | hnamed
      · exact ((hgains name hname).iff.1 (hlive name ((h.present_iff name).2 ⟨hmem, hhidden⟩))).imp id
          (Or.imp id Or.inl)
      · exact Or.inl hnamed
  · intro hcovered name hname
    obtain ⟨hmem, hshown⟩ := (h.present_iff name).1 hname
    refine (hgains name (hkept name hmem)).iff.2 ?_
    rcases hcovered name (hkept name hmem) with hlive | hothers | hadded | hhidden
    · exact Or.inl hlive
    · exact Or.inr (Or.inl hothers)
    · exact Or.inr (Or.inr hadded)
    · exact absurd hhidden hshown

end Millpond.Ducklake
