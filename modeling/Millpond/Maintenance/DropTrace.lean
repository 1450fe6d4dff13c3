import Millpond.Maintenance.DropPartitions

set_option autoImplicit false

/-! # What a leaf drop that reaches its `COMMIT` has seen

Every statement of `dropLeafStatements` ran and every check passed. One lemma inverts the whole
transaction; the properties of a drop are read off the catalogs it names. -/

namespace Millpond.Maintenance

open Prog ReadCommitted

variable {R : List Write → Catalog → Catalog → Prop}
variable {s : Session Catalog Write PgError DropStatement}

/-! ## The checks -/

theorem checkIsolation_reads (hw : s.Within R) (isolation : String) (check : Bool) :
    wp (checkIsolation isolation check) (fun _ t => Reads R [.showIsolation] s t)
      (fun _ _ => True) s := by
  unfold checkIsolation
  cases check with
  | false => exact Reads.refl hw
  | true =>
      simp only [if_true, wp_bind]
      refine wp_mono (wp_query_did hw) (fun iso t h => ?_) (fun _ _ _ => trivial)
      rw [wp_ite]
      exact ⟨fun _ => h.2.reads (List.mem_singleton.2 rfl), fun _ => trivial⟩

theorem assertCatalogVersion_reads (hw : s.Within R) :
    wp assertCatalogVersion (fun _ t => Reads R [.catalogVersion] s t) (fun _ _ => True) s := by
  unfold assertCatalogVersion
  simp only [wp_bind]
  refine wp_mono (wp_query_did hw) (fun rows t h => ?_) (fun _ _ _ => trivial)
  rw [wp_ite]
  exact ⟨fun _ => h.2.reads (List.mem_singleton.2 rfl), fun _ => trivial⟩

theorem assertNoLiveVectors_did (hw : s.Within R) (d : LeafDrop) :
    wp (assertNoLiveVectors d)
      (fun _ t => d.liveVectors (overlay s.own t.committed) = [] ∧ Did R .deleteVectors [] s t)
      (fun _ _ => True) s := by
  unfold assertNoLiveVectors
  simp only [wp_bind]
  refine wp_mono (wp_query_did hw) (fun n t h => ?_) (fun _ _ _ => trivial)
  obtain ⟨rfl, hdid⟩ := h
  rw [wp_ite]
  exact ⟨fun hzero => ⟨List.eq_nil_of_length_eq_zero hzero, hdid⟩, fun _ => trivial⟩

theorem readBaseline_did (hw : s.Within R) :
    wp readBaseline
      (fun row t => (overlay s.own t.committed).newest = some row ∧ Did R .baseline [] s t)
      (fun _ _ => True) s := by
  unfold readBaseline
  simp only [wp_bind]
  refine wp_mono (wp_query_did hw) (fun base t h => ?_) (fun _ _ _ => trivial)
  obtain ⟨hbase, hdid⟩ := h
  cases base with
  | none => trivial
  | some row => exact ⟨hbase.symm, hdid⟩

theorem insertSnapshot_did (hw : s.Within R) (base : SnapshotRow) (clock : ℤ) :
    wp (insertSnapshot base clock)
      (fun _ t => base.snapshotId + 1 ∉ (overlay s.own t.committed).snapshots.keys ∧
        Did R .insertSnapshot [.insertSnapshot (forgedSnapshot base clock)] s t)
      (fun _ _ => True) s := by
  refine wp_mono (wp_statement_did hw) (fun _ t h => ?_) (fun _ _ h => h)
  obtain ⟨writes, hrun, hdid⟩ := h
  split at hrun
  · exact absurd hrun (by simp)
  · next hfresh =>
      simp only [Except.ok.injEq, Prod.mk.injEq, true_and] at hrun
      exact ⟨hfresh, hrun ▸ hdid⟩

theorem endLeafFiles_did (hw : s.Within R) (d : LeafDrop) (snap : ℕ) :
    wp (endLeafFiles d snap)
      (fun updated t =>
        updated = (overlay s.own t.committed).dataFiles.rows.filter
          (d.endable (overlay s.own t.committed)) ∧
        Did R .endFiles [.endDataFiles (updated.map DataFile.dataFileId) snap] s t)
      (fun _ _ => True) s := by
  refine wp_mono (wp_statement_did hw) (fun updated t h => ?_) (fun _ _ h => h)
  obtain ⟨writes, hrun, hdid⟩ := h
  simp only [Except.ok.injEq, Prod.mk.injEq] at hrun
  obtain ⟨rfl, rfl⟩ := hrun
  exact ⟨rfl, hdid⟩

/-- A live row of the classification is eligible or not. -/
theorem eligible_or_ineligible (d : LeafDrop) (skipped : List ℕ) (c : Catalog)
    (heligible : (skippedInfo d skipped c).filter
      (fun r => r.1.endSnapshot = none ∧ r.2 = some true) = [])
    (hineligible : (skippedInfo d skipped c).filter
      (fun r => r.1.endSnapshot = none ∧ ¬ r.2 = some true) = []) :
    ∀ f ∈ c.dataFiles.rows, f.dataFileId ∈ skipped → f.endSnapshot ≠ none := by
  intro f hf hskipped hlive
  have hmem : (f, guardPredicate d.guarded c f.beginSnapshot) ∈ skippedInfo d skipped c :=
    List.mem_map.2 ⟨f, List.mem_filter.2 ⟨hf, by simpa using hskipped⟩, rfl⟩
  rw [List.filter_eq_nil_iff] at heligible hineligible
  have hyes := heligible _ hmem
  have hno := hineligible _ hmem
  simp only [hlive, true_and, decide_eq_true_eq] at hyes hno
  exact hno hyes

/-- The classification passes when no skipped member is live. -/
theorem classifySkipped_reads (hw : s.Within R) (d : LeafDrop) (skipped : List ℕ) :
    wp (classifySkipped d skipped)
      (fun _ t => Reads R [.classify] s t ∧
        ∀ f ∈ (overlay s.own t.committed).dataFiles.rows, f.dataFileId ∈ skipped →
          f.endSnapshot ≠ none)
      (fun _ _ => True) s := by
  unfold classifySkipped
  rw [wp_ite]
  constructor
  · intro hnone
    rw [List.isEmpty_iff.1 hnone]
    exact ⟨Reads.refl hw, fun f _ hmem => absurd hmem List.not_mem_nil⟩
  · intro _
    simp only [wp_bind]
    refine wp_mono (wp_query_did hw) (fun info t h => ?_) (fun _ _ _ => trivial)
    obtain ⟨rfl, hdid⟩ := h
    rw [wp_ite]
    constructor
    · intro _
      -- eligible members left out: every way on from here raises
      simp only [wp_bind]
      refine wp_mono (wp_query_did hdid.within) (fun info2 u _ => ?_) (fun _ _ _ => trivial)
      rw [wp_ite]
      exact ⟨fun _ => trivial, fun _ => trivial⟩
    · intro heligible
      rw [wp_ite]
      refine ⟨fun _ => trivial, fun hineligible => ?_⟩
      simp only [Bool.not_eq_true', Bool.not_eq_false, List.isEmpty_iff, List.map_eq_nil_iff]
        at heligible hineligible
      exact ⟨hdid.reads (List.mem_singleton.2 rfl),
        eligible_or_ineligible d skipped _ heligible hineligible⟩

theorem verifyRewind_reads (hw : s.Within R) (d : LeafDrop) (snap : ℕ) :
    wp (verifyRewind d snap)
      (fun _ t => Reads R [.rewindCheck] s t ∧
        (d.guarded = true → d.rewoundFiles snap (overlay s.own t.committed) = [] ∧
          views .rewindCheck t.seen =
            overlay s.own t.committed :: views .rewindCheck s.seen))
      (fun _ _ => True) s := by
  unfold verifyRewind
  rw [wp_ite]
  constructor
  · intro _
    simp only [wp_bind]
    refine wp_mono (wp_query_did hw) (fun n t h => ?_) (fun _ _ _ => trivial)
    obtain ⟨rfl, hdid⟩ := h
    rw [wp_ite]
    refine ⟨fun hzero => ⟨hdid.reads (List.mem_singleton.2 rfl), fun _ => ⟨?_, hdid.view⟩⟩,
      fun _ => trivial⟩
    exact List.eq_nil_of_length_eq_zero hzero
  · intro hoff
    exact ⟨Reads.refl hw, fun hon => absurd hon hoff⟩

theorem decrementStats_did (hw : s.Within R) (d : LeafDrop) (rows bytes : ℤ) :
    wp (decrementStats d rows bytes)
      (fun _ t => ((overlay s.own t.committed).tableStats.filter
          (·.decrementable d.tableId rows bytes)).length = 1 ∧
        Did R .decrementStats [.decrementStats d.tableId rows bytes] s t)
      (fun _ _ => True) s := by
  unfold decrementStats
  simp only [wp_bind]
  refine wp_mono (wp_statement_did hw) (fun got t h => ?_) (fun _ _ _ => trivial)
  obtain ⟨writes, hrun, hdid⟩ := h
  simp only [Except.ok.injEq, Prod.mk.injEq] at hrun
  obtain ⟨rfl, rfl⟩ := hrun
  rw [wp_ite]
  refine ⟨fun hone => ⟨hone, hdid⟩, fun _ => ?_⟩
  simp only [wp_bind]
  exact wp_mono (wp_query_did hdid.within) (fun _ _ _ => trivial) (fun _ _ _ => trivial)

theorem insertChange_did (hw : s.Within R) (d : LeafDrop) (snap : ℕ) :
    wp (statement .insertChange fun _ =>
        (.ok (⟨⟩, [.insertChange (conflictToken d snap)]) : Except DropError (PUnit × List Write)))
      (fun _ t => Did R .insertChange [.insertChange (conflictToken d snap)] s t)
      (fun _ _ => True) s := by
  refine wp_mono (wp_statement_did hw) (fun _ t h => ?_) (fun _ _ h => h)
  obtain ⟨writes, hrun, hdid⟩ := h
  simp only [Except.ok.injEq, Prod.mk.injEq, true_and] at hrun
  exact hrun ▸ hdid

/-! ## The whole transaction -/

/-- The committed catalogs the statements of a drop ran on. -/
structure DropRun where
  clock : ℤ
  vectors : Catalog
  baseline : Catalog
  base : SnapshotRow
  inserted : Catalog
  updated : Catalog
  classified : Catalog
  rewound : Catalog
  decremented : Catalog
  changed : Catalog

namespace DropRun

def snap (r : DropRun) : ℕ := r.base.snapshotId + 1

/-- The files the drop ended. -/
def ended (d : LeafDrop) (r : DropRun) : List DataFile :=
  r.updated.dataFiles.rows.filter (d.endable r.updated)

def endedIds (d : LeafDrop) (r : DropRun) : List ℕ := (r.ended d).map DataFile.dataFileId

def insertWrites (r : DropRun) : List Write := [.insertSnapshot (forgedSnapshot r.base r.clock)]

def endWrites (d : LeafDrop) (r : DropRun) : List Write :=
  r.insertWrites ++ [.endDataFiles (r.endedIds d) r.snap]

def statsWrites (d : LeafDrop) (r : DropRun) : List Write :=
  r.endWrites d ++ [.decrementStats d.tableId (sumOf DataFile.recordCount (r.ended d))
    (sumOf DataFile.fileSizeBytes (r.ended d))]

/-- The writes of a drop at its `COMMIT`. -/
def writes (d : LeafDrop) (r : DropRun) : List Write :=
  r.statsWrites d ++ [.insertChange (conflictToken d r.snap)]

/-- How the catalogs follow each other, and what each check found. -/
structure Holds (R : List Write → Catalog → Catalog → Prop) (d : LeafDrop) (start : Catalog)
    (r : DropRun) : Prop where
  toVectors : Relation.ReflTransGen (R []) start r.vectors
  noVectors : d.liveVectors r.vectors = []
  toBaseline : R [] r.vectors r.baseline
  newest : r.baseline.newest = some r.base
  toInserted : R [] r.baseline r.inserted
  fresh : r.snap ∉ r.inserted.snapshots.keys
  toUpdated : R r.insertWrites r.inserted r.updated
  toClassified : Relation.ReflTransGen (R (r.endWrites d)) r.updated r.classified
  complete : ∀ f ∈ (overlay (r.endWrites d) r.classified).dataFiles.rows, f.dataFileId ∈ d.ids →
    f.dataFileId ∉ r.endedIds d → f.endSnapshot ≠ none
  some : r.ended d ≠ []
  toRewound : Relation.ReflTransGen (R (r.endWrites d)) r.classified r.rewound
  unrewound : d.guarded = true → d.rewoundFiles r.snap (overlay (r.endWrites d) r.rewound) = []
  toDecremented : R (r.endWrites d) r.rewound r.decremented
  oneRow : (r.decremented.tableStats.filter (·.decrementable d.tableId
    (sumOf DataFile.recordCount (r.ended d)) (sumOf DataFile.fileSizeBytes (r.ended d)))).length = 1
  toChanged : R (r.statsWrites d) r.decremented r.changed

variable {d : LeafDrop} {start : Catalog} {r : DropRun}

theorem Holds.drift_updated (h : r.Holds R d start) : Drift R start r.updated :=
  (drift_of_moves h.toVectors).trans (((drift_of_moves (.single h.toBaseline)).trans
    (drift_of_moves (.single h.toInserted))).trans (drift_of_moves (.single h.toUpdated)))

theorem Holds.drift_decremented (h : r.Holds R d start) : Drift R start r.decremented :=
  h.drift_updated.trans (((drift_of_moves h.toClassified).trans (drift_of_moves h.toRewound)).trans
    (drift_of_moves (.single h.toDecremented)))

/-- What every step keeps while at least `own` is held, holds at the `COMMIT`. -/
theorem Holds.keep_updated (h : r.Holds R d start) {I : Catalog → Prop} {before : Catalog}
    (hkeep : ∀ own c c', r.endWrites d <+: own → R own c c' → I c → I c')
    (hlast : R (r.writes d) r.changed before) (hI : I r.updated) : I before := by
  have moves : ∀ {c c' : Catalog}, Relation.ReflTransGen (R (r.endWrites d)) c c' → I c → I c' := by
    intro c c' hmoves hc
    induction hmoves with
    | refl => exact hc
    | tail _ hstep ih => exact hkeep _ _ _ (List.prefix_refl _) hstep ih
  have hstats : r.endWrites d <+: r.statsWrites d := List.prefix_append _ _
  have decremented := hkeep _ _ _ (List.prefix_refl _) h.toDecremented
    (moves h.toRewound (moves h.toClassified hI))
  exact hkeep _ _ _ (hstats.trans (List.prefix_append _ _)) hlast
    (hkeep _ _ _ hstats h.toChanged decremented)

/-- What the log of the session gained. -/
structure Logged (d : LeafDrop) (r : DropRun) (s t : Session Catalog Write PgError DropStatement) :
    Prop where
  vectors : views .deleteVectors t.seen = r.vectors :: views .deleteVectors s.seen
  baseline : views .baseline t.seen = r.baseline :: views .baseline s.seen
  updated : views .endFiles t.seen = overlay r.insertWrites r.updated :: views .endFiles s.seen
  rewound : d.guarded = true → views .rewindCheck t.seen =
    overlay (r.endWrites d) r.rewound :: views .rewindCheck s.seen

end DropRun

/-- The snapshot ids that uncommitted writes have taken. -/
def heldSnapshots (own : List Write) : List ℕ :=
  own.filterMap fun
    | .insertSnapshot row => some row.snapshotId
    | _ => none

/-- The data files a transaction's writes end. -/
def endedIn (own : List Write) : List ℕ :=
  own.flatMap fun
    | .endDataFiles ids _ => ids
    | _ => []

theorem snap_mem_heldSnapshots {r : DropRun} {own : List Write} (h : r.insertWrites <+: own) :
    r.snap ∈ heldSnapshots own := by
  obtain ⟨rest, rfl⟩ := h
  simp [heldSnapshots, DropRun.insertWrites, DropRun.snap, forgedSnapshot]

theorem endedIds_subset_endedIn {d : LeafDrop} {r : DropRun} {own : List Write}
    (h : r.endWrites d <+: own) : r.endedIds d ⊆ endedIn own := by
  obtain ⟨rest, rfl⟩ := h
  intro id hid
  simp [endedIn, DropRun.endWrites, DropRun.insertWrites, hid]

theorem endedIn_writes (d : LeafDrop) (r : DropRun) : endedIn (r.writes d) = r.endedIds d := by
  simp [endedIn, DropRun.writes, DropRun.statsWrites, DropRun.endWrites, DropRun.insertWrites]

theorem overlay_endWrites (d : LeafDrop) (r : DropRun) (c : Catalog) :
    (overlay (r.endWrites d) c).dataFiles =
      c.dataFiles.update (·.ended (r.endedIds d) r.snap) (ended_key _ _) := rfl

/-- The inversion of a drop up to its `COMMIT`. -/
theorem dropLeafStatements_run (hw : s.Within R) (hown : s.own = []) (d : LeafDrop)
    (isolation : String) (clock : ℤ) (check : Bool) :
    wp (dropLeafStatements d isolation clock check)
      (fun _ t => ∃ r : DropRun, r.Holds R d s.committed ∧ r.Logged d s t ∧ t.Within R ∧
        t.own = r.writes d ∧ t.committed = r.changed)
      (fun _ _ => True) s := by
  unfold dropLeafStatements endLeaf
  simp only [wp_bind]
  refine wp_mono (checkIsolation_reads hw _ _) (fun _ s₁ h₁ => ?_) (fun _ _ _ => trivial)
  refine wp_mono (assertCatalogVersion_reads h₁.within) (fun _ s₂ h₂ => ?_) (fun _ _ _ => trivial)
  have own₂ : s₂.own = [] := (h₂.own.trans h₁.own).trans hown
  refine wp_mono (assertNoLiveVectors_did h₂.within d) (fun _ s₃ h₃ => ?_) (fun _ _ _ => trivial)
  obtain ⟨hvectors, h₃⟩ := h₃
  have own₃ : s₃.own = [] := by rw [h₃.own, own₂, List.append_nil]
  refine wp_mono (readBaseline_did h₃.within) (fun base s₄ h₄ => ?_) (fun _ _ _ => trivial)
  obtain ⟨hbase, h₄⟩ := h₄
  have own₄ : s₄.own = [] := by rw [h₄.own, own₃, List.append_nil]
  refine wp_mono (insertSnapshot_did h₄.within base clock) (fun _ s₅ h₅ => ?_)
    (fun _ _ _ => trivial)
  obtain ⟨hfresh, h₅⟩ := h₅
  refine wp_mono (endLeafFiles_did h₅.within d _) (fun updated s₆ h₆ => ?_) (fun _ _ _ => trivial)
  obtain ⟨hupdated, h₆⟩ := h₆
  refine wp_mono (classifySkipped_reads h₆.within d _) (fun _ s₇ h₇ => ?_) (fun _ _ _ => trivial)
  obtain ⟨h₇, hcomplete⟩ := h₇
  rw [wp_ite]
  refine ⟨fun _ => trivial, fun hsome => ?_⟩
  simp only [wp_bind, wp_pure]
  refine wp_mono (verifyRewind_reads h₇.within d _) (fun _ s₈ h₈ => ?_) (fun _ _ _ => trivial)
  obtain ⟨h₈, hrewound⟩ := h₈
  refine wp_mono (decrementStats_did h₈.within d _ _) (fun _ s₉ h₉ => ?_) (fun _ _ _ => trivial)
  obtain ⟨hone, h₉⟩ := h₉
  refine wp_mono (insertChange_did h₉.within d _) (fun _ t h => ?_) (fun _ _ _ => trivial)
  let r : DropRun :=
    { clock := clock, vectors := s₃.committed, baseline := s₄.committed, base := base,
      inserted := s₅.committed, updated := s₆.committed, classified := s₇.committed,
      rewound := s₈.committed, decremented := s₉.committed, changed := t.committed }
  have own₅ : s₅.own = r.insertWrites := by rw [h₅.own, own₄]; rfl
  rw [own₅] at hupdated
  have hended : updated = r.ended d := hupdated
  subst hended
  have own₆ : s₆.own = r.endWrites d := by rw [h₆.own, own₅]; rfl
  have own₇ : s₇.own = r.endWrites d := h₇.own.trans own₆
  have own₈ : s₈.own = r.endWrites d := h₈.own.trans own₇
  have own₉ : s₉.own = r.statsWrites d := by rw [h₉.own, own₈]; rfl
  have start := (hown ▸ h₁.moves).trans ((h₁.own.trans hown) ▸ h₂.moves)
  rw [own₂] at hvectors
  rw [own₃] at hbase
  rw [own₄] at hfresh
  rw [own₆] at hcomplete
  rw [own₇] at hrewound
  rw [own₈] at hone
  refine ⟨r, ?_, ?_, h.within, by rw [h.own, own₉]; rfl, rfl⟩
  · exact
      { toVectors := start.tail (own₂ ▸ h₃.step)
        noVectors := hvectors
        toBaseline := own₃ ▸ h₄.step
        newest := hbase
        toInserted := own₄ ▸ h₅.step
        fresh := hfresh
        toUpdated := own₅ ▸ h₆.step
        toClassified := own₆ ▸ h₇.moves
        complete := fun f hf hid hnot => hcomplete f hf (List.mem_filter.2 ⟨hid, decide_eq_true hnot⟩)
        some := fun hnil => hsome (List.isEmpty_iff.2 hnil)
        toRewound := own₇ ▸ h₈.moves
        unrewound := fun hon => (hrewound hon).1
        toDecremented := own₈ ▸ h₉.step
        oneRow := hone
        toChanged := own₉ ▸ h.step }
  · -- each label is logged by one statement only, and the others leave its views alone
    have late : ∀ l, .insertChange ≠ l → .decrementStats ≠ l → l ∉ [DropStatement.rewindCheck] →
        l ∉ [DropStatement.classify] → views l t.seen = views l s₆.seen := fun l hl hl' hl₈ hl₇ =>
      ((h.frame l hl).trans (h₉.frame l hl')).trans ((h₈.views l hl₈).trans (h₇.views l hl₇))
    have early : ∀ l, l ∉ [DropStatement.catalogVersion] → l ∉ [DropStatement.showIsolation] →
        views l s₂.seen = views l s.seen := fun l hl hl' => (h₂.views l hl).trans (h₁.views l hl')
    constructor
    · rw [late _ (by decide) (by decide) (by decide) (by decide), h₆.frame _ (by decide),
        h₅.frame _ (by decide), h₄.frame _ (by decide), h₃.view, early _ (by decide) (by decide),
        own₂]
      rfl
    · rw [late _ (by decide) (by decide) (by decide) (by decide), h₆.frame _ (by decide),
        h₅.frame _ (by decide), h₄.view, h₃.frame _ (by decide), early _ (by decide) (by decide),
        own₃]
      rfl
    · rw [late _ (by decide) (by decide) (by decide) (by decide), h₆.view, h₅.frame _ (by decide),
        h₄.frame _ (by decide), h₃.frame _ (by decide), early _ (by decide) (by decide), own₅]
    · intro hon
      rw [h.frame _ (by decide), h₉.frame _ (by decide), (hrewound hon).2, h₇.views _ (by decide),
        h₆.frame _ (by decide), h₅.frame _ (by decide), h₄.frame _ (by decide),
        h₃.frame _ (by decide), early _ (by decide) (by decide)]

/-! ## The commit -/

theorem inside_query {α : Type} (label : DropStatement) (read : Catalog → α) :
    Inside R (query label read : DropM α) := inside_statement label _

theorem inside_checkIsolation (isolation : String) (check : Bool) :
    Inside R (checkIsolation isolation check) :=
  .ite ((inside_query _ _).bind fun _ => .ite (inside_pure _) (inside_throw _)) (inside_pure _)

theorem inside_readBaseline : Inside R readBaseline := by
  refine (inside_query _ _).bind fun base => ?_
  cases base with
  | none => exact inside_throw _
  | some row => exact inside_pure row

theorem inside_classifySkipped (d : LeafDrop) (skipped : List ℕ) :
    Inside R (classifySkipped d skipped) :=
  .ite (inside_pure _) ((inside_query _ _).bind fun _ =>
    .ite ((inside_query _ _).bind fun _ => .ite (inside_throw _) (inside_throw _))
      (.ite (inside_throw _) (inside_pure _)))

theorem inside_verifyRewind (d : LeafDrop) (snap : ℕ) : Inside R (verifyRewind d snap) :=
  .ite ((inside_query _ _).bind fun _ => .ite (inside_pure _) (inside_throw _)) (inside_pure _)

theorem inside_decrementStats (d : LeafDrop) (rows bytes : ℤ) :
    Inside R (decrementStats d rows bytes) :=
  (inside_statement _ _).bind fun _ =>
    .ite (inside_pure _) ((inside_query _ _).bind fun _ => inside_throw _)

theorem inside_endLeaf (d : LeafDrop) (base : SnapshotRow) (clock : ℤ) :
    Inside R (endLeaf d base clock) := by
  refine (inside_statement _ _).bind fun _ => (inside_statement _ _).bind fun updated => ?_
  refine (inside_classifySkipped d _).bind fun _ => .ite (inside_throw _) ?_
  refine (inside_verifyRewind d _).bind fun _ => (inside_decrementStats d _ _).bind fun _ => ?_
  exact (inside_statement _ _).bind fun _ => inside_pure _

theorem inside_dropLeafStatements (d : LeafDrop) (isolation : String) (clock : ℤ) (check : Bool) :
    Inside R (dropLeafStatements d isolation clock check) := by
  refine (inside_checkIsolation _ _).bind fun _ => Inside.bind ?_ fun _ => Inside.bind ?_ fun _ => ?_
  · exact (inside_query _ _).bind fun _ => .ite (inside_pure _) (inside_throw _)
  · exact (inside_query _ _).bind fun _ => .ite (inside_pure _) (inside_throw _)
  · exact inside_readBaseline.bind fun base => inside_endLeaf d base clock

/-- Without a commit in the log, the others alone moved the committed state. -/
theorem dropLeafTxn_drift (hw : s.Within R) (hown : s.own = []) (d : LeafDrop) (isolation : String)
    (clock : ℤ) (check : Bool)
    (hnone : commits (final (dropLeafTxn d isolation clock check) s).seen = []) :
    Drift R s.committed (final (dropLeafTxn d isolation clock check) s).committed := by
  have hout : Outside R (fun _ _ => True) (fun _ => True) (dropLeafTxn d isolation clock check) :=
    outside_transaction (inside_dropLeafStatements d isolation clock check) fun t _ _ _ =>
      wp_true _ t
  have hran : Ran R (fun _ _ => True) s (final (dropLeafTxn d isolation clock check) s) :=
    final_of_wp (hout s hw hown trivial)
  obtain ⟨added, hseen, hev, -⟩ := hran.log
  rw [hseen, commits_append] at hnone
  rw [(List.append_eq_nil_iff.1 hnone).1] at hev
  exact drift_of_evolves_nil hev

/-- What is known of a drop that committed `own` into `before`. -/
def DropCommitted (R : List Write → Catalog → Catalog → Prop) (d : LeafDrop)
    (s t : Session Catalog Write PgError DropStatement) (own : List Write) (before : Catalog) :
    Prop :=
  ∃ r : DropRun, r.Holds R d s.committed ∧ r.Logged d s t ∧ own = r.writes d ∧
    R own r.changed before

/-- A drop that commits is a whole run of its statements. -/
theorem dropLeafTxn_commits (hw : s.Within R) (hown : s.own = []) (hseen : commits s.seen = [])
    (d : LeafDrop) (isolation : String) (clock : ℤ) (check : Bool) :
    ∀ entry ∈ commits (final (dropLeafTxn d isolation clock check) s).seen,
      DropCommitted R d s (final (dropLeafTxn d isolation clock check) s) entry.1 entry.2 := by
  refine final_of_wp (P := fun t => ∀ entry ∈ commits t.seen,
    DropCommitted R d s t entry.1 entry.2) (wp_transaction (wp_mono (wp_and
      (inside_dropLeafStatements d isolation clock check s hw)
      (dropLeafStatements_run hw hown d isolation clock check)) (fun _ t h => ?_)
      (fun _ t h => ?_)))
  · obtain ⟨hfollows, r, hholds, hlogged, hwithin, howns, hchanged⟩ := h
    obtain ⟨added, hadded, hnone⟩ := hfollows.log
    have hcommits : commits t.seen = [] := by rw [hadded, commits_append, hnone, hseen]; rfl
    have hdone : ∀ entry ∈ commits (t.committing t.next).seen,
        DropCommitted R d s (t.committing t.next) entry.1 entry.2 := by
      intro entry hentry
      have hentry : entry ∈ (t.own, t.next) :: commits t.seen := hentry
      rw [hcommits, List.mem_singleton] at hentry
      subst hentry
      refine ⟨r, hholds, ⟨?_, ?_, ?_, ?_⟩, howns, hchanged ▸ within_next hwithin⟩
      · exact hlogged.vectors
      · exact hlogged.baseline
      · exact hlogged.updated
      · exact hlogged.rewound
    refine ⟨hdone, fun _ => hdone, fun _ => ?_⟩
    intro entry hentry
    have hentry : entry ∈ commits t.seen := hentry
    rw [hcommits] at hentry
    exact absurd hentry List.not_mem_nil
  · obtain ⟨hfollows, -⟩ := h
    obtain ⟨added, hadded, hnone⟩ := hfollows.log
    intro entry hentry
    have hentry : entry ∈ commits t.seen := hentry
    rw [hadded, commits_append, hnone, hseen] at hentry
    exact absurd hentry List.not_mem_nil

end Millpond.Maintenance
