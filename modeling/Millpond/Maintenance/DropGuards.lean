import Millpond.Maintenance.DropTrace
import Mathlib.Data.List.MinMax

set_option autoImplicit false

/-! # Delete vectors and viaduck's cursors

A leaf drop against sessions that commit to DuckLake and move viaduck's cursors between any two of
its statements. From the baseline read on, the snapshot id it will insert keeps the rest of the
catalog still; the delete-vector check comes before that read, and the cursors never stand still. -/

namespace Millpond.Maintenance

open Prog ReadCommitted

/-! ## The other sessions -/

/-- A transaction of another session: a DuckLake commit, or new contents of the cursor store. -/
inductive OtherTx where
  | commit (k : Commit)
  | cursors (rows : List (Option ℕ))

/-- A DuckLake commit inserts the snapshot above the newest. -/
def Commit.Next (k : Commit) (c : Catalog) : Prop :=
  c.newest.map (fun s => s.snapshotId + 1) = some k.snapshot.snapshotId

instance (k : Commit) (c : Catalog) : Decidable (k.Next c) :=
  inferInstanceAs (Decidable (_ = _))

/-- What a transaction makes of the committed state, while `own` is held: a commit has to win its
    snapshot id. -/
def land (own : List Write) (c : Catalog) : OtherTx → Catalog
  | .commit k =>
      if k.Next c ∧ k.snapshot.snapshotId ∉ heldSnapshots own then k.apply c else c
  | .cursors rows => { c with cursors := rows }

/-- Any transactions of the others, one after the other. -/
def OthersCommit (own : List Write) (c c' : Catalog) : Prop :=
  ∃ txs : List OtherTx, c' = txs.foldl (land own) c

/-- A session on a catalog, with the transactions of the others before each of its statements. -/
def dropSession (c : Catalog) (schedule : ℕ → List OtherTx) (fates : ℕ → Fate PgError) :
    Session Catalog Write PgError DropStatement where
  committed := c
  own := []
  others n own c := (schedule n).foldl (land own) c
  fates := fates
  clock := 0
  seen := []

theorem dropSession_within (c : Catalog) (schedule : ℕ → List OtherTx)
    (fates : ℕ → Fate PgError) : (dropSession c schedule fates).Within OthersCommit :=
  fun n _ _ => ⟨schedule n, rfl⟩

/-! ## The snapshot id keeps the catalog still -/

/-- Nothing but viaduck's cursors changed. -/
def CursorsOnly (c c' : Catalog) : Prop := c' = { c with cursors := c'.cursors }

theorem CursorsOnly.refl (c : Catalog) : CursorsOnly c c := rfl

theorem CursorsOnly.trans {c₁ c₂ c₃ : Catalog} (h : CursorsOnly c₁ c₂) (h' : CursorsOnly c₂ c₃) :
    CursorsOnly c₁ c₃ := by
  unfold CursorsOnly at h h' ⊢
  rw [h', h]

theorem CursorsOnly.dataFiles {c c' : Catalog} (h : CursorsOnly c c') :
    c'.dataFiles = c.dataFiles := by rw [h]

theorem CursorsOnly.deleteFiles {c c' : Catalog} (h : CursorsOnly c c') :
    c'.deleteFiles = c.deleteFiles := by rw [h]

theorem CursorsOnly.newest {c c' : Catalog} (h : CursorsOnly c c') : c'.newest = c.newest := by
  rw [h]
  rfl

/-- Until the id above `base` is taken, by a commit, only cursors move. -/
theorem land_cursorsOnly {own : List Write} {c c' : Catalog} {base : SnapshotRow}
    (hnewest : c.newest = some base) (tx : OtherTx)
    (h : CursorsOnly c c' ∨
      base.snapshotId + 1 ∈ c'.snapshots.keys ∧ base.snapshotId + 1 ∉ heldSnapshots own) :
    CursorsOnly c (land own c' tx) ∨
      base.snapshotId + 1 ∈ (land own c' tx).snapshots.keys ∧
        base.snapshotId + 1 ∉ heldSnapshots own := by
  cases tx with
  | cursors rows =>
      rcases h with h | ⟨hkey, hfree⟩
      · have hmove : CursorsOnly c' (land own c' (.cursors rows)) := rfl
        exact Or.inl (h.trans hmove)
      · exact Or.inr ⟨hkey, hfree⟩
  | commit k =>
      simp only [land]
      split
      · next hlands =>
          obtain ⟨hnext, hfree⟩ := hlands
          right
          rcases h with h | ⟨hkey, hfree'⟩
          · -- the commit that ends the standstill takes the id itself
            have hid : base.snapshotId + 1 = k.snapshot.snapshotId := by
              unfold Commit.Next at hnext
              rw [h.newest, hnewest] at hnext
              exact Option.some.inj hnext
            rw [hid]
            refine ⟨?_, hfree⟩
            by_cases hkey : Keyed.key k.snapshot ∈ c'.snapshots.keys
            · obtain ⟨row, hrow, hrowKey⟩ := Table.mem_keys.1 hkey
              exact Table.mem_keys.2 ⟨row, Table.mem_insert_of_mem hrow, hrowKey⟩
            · exact Table.mem_keys.2 ⟨k.snapshot, Table.mem_insert_self hkey, rfl⟩
          · obtain ⟨row, hrow, hrowKey⟩ := Table.mem_keys.1 hkey
            exact ⟨Table.mem_keys.2 ⟨row, Table.mem_insert_of_mem hrow, hrowKey⟩, hfree'⟩
      · exact h

theorem othersCommit_cursorsOnly {own : List Write} {c c' : Catalog} {base : SnapshotRow}
    (hnewest : c.newest = some base) (h : OthersCommit own c c')
    (hnot : base.snapshotId + 1 ∈ heldSnapshots own ∨ base.snapshotId + 1 ∉ c'.snapshots.keys) :
    CursorsOnly c c' := by
  obtain ⟨txs, rfl⟩ := h
  have hall : ∀ (txs : List OtherTx) (d : Catalog), (CursorsOnly c d ∨
      base.snapshotId + 1 ∈ d.snapshots.keys ∧ base.snapshotId + 1 ∉ heldSnapshots own) →
      (CursorsOnly c (txs.foldl (land own) d) ∨
        base.snapshotId + 1 ∈ (txs.foldl (land own) d).snapshots.keys ∧
          base.snapshotId + 1 ∉ heldSnapshots own) := by
    intro txs
    induction txs with
    | nil => exact fun d hd => hd
    | cons tx rest ih => exact fun d hd => ih _ (land_cursorsOnly hnewest tx hd)
  rcases hall txs c (Or.inl (.refl c)) with h | ⟨hkey, hfree⟩
  · exact h
  · exact hnot.elim (fun hheld => absurd hheld hfree) (fun hnone => absurd hkey hnone)

/-- While the id is held, any number of steps of the others only moves cursors. -/
theorem held_cursorsOnly {own : List Write} {c c' : Catalog} {base : SnapshotRow}
    (hnewest : c.newest = some base) (hheld : base.snapshotId + 1 ∈ heldSnapshots own)
    (h : Relation.ReflTransGen (OthersCommit own) c c') : CursorsOnly c c' := by
  induction h with
  | refl => exact .refl c
  | tail _ hstep ih =>
      exact ih.trans (othersCommit_cursorsOnly (ih.newest.trans hnewest) hstep (Or.inl hheld))

/-- From the baseline read to the `COMMIT`, only cursors move. -/
structure Still (r : DropRun) (before : Catalog) : Prop where
  updated : CursorsOnly r.baseline r.updated
  classified : CursorsOnly r.baseline r.classified
  rewound : CursorsOnly r.baseline r.rewound
  before : CursorsOnly r.baseline before

theorem still_of_holds {d : LeafDrop} {c : Catalog} {r : DropRun} {before : Catalog}
    (h : r.Holds OthersCommit d c) (hlast : OthersCommit (r.writes d) r.changed before) :
    Still r before := by
  have step : ∀ {own : List Write} {c₁ c₂ : Catalog}, CursorsOnly r.baseline c₁ →
      r.insertWrites <+: own → Relation.ReflTransGen (OthersCommit own) c₁ c₂ →
      CursorsOnly r.baseline c₂ := fun h₁ hown hmoves =>
    h₁.trans (held_cursorsOnly (h₁.newest.trans h.newest) (snap_mem_heldSnapshots hown) hmoves)
  have hend : r.insertWrites <+: r.endWrites d := List.prefix_append _ _
  have hstats : r.insertWrites <+: r.statsWrites d := hend.trans (List.prefix_append _ _)
  have hwrites : r.insertWrites <+: r.writes d := hstats.trans (List.prefix_append _ _)
  have inserted := othersCommit_cursorsOnly h.newest h.toInserted (Or.inr h.fresh)
  have updated := step inserted (List.prefix_refl _) (.single h.toUpdated)
  have classified := step updated hend h.toClassified
  have rewound := step classified hend h.toRewound
  have decremented := step rewound hend (.single h.toDecremented)
  have changed := step decremented hstats (.single h.toChanged)
  exact ⟨updated, classified, rewound, step changed hwrites (.single hlast)⟩

/-! ## What a drop ends -/

/-- The live members of a leaf. -/
def LeafDrop.members (d : LeafDrop) (c : Catalog) : List DataFile :=
  c.dataFiles.rows.filter fun f => f.dataFileId ∈ d.ids ∧ f.endSnapshot = none

/-- A live member that the `UPDATE` left out would have been classified. -/
theorem ended_eq_members {d : LeafDrop} {c : Catalog} {r : DropRun} {before : Catalog}
    (h : r.Holds OthersCommit d c) (hstill : Still r before) :
    r.ended d = d.members r.updated := by
  unfold DropRun.ended LeafDrop.members
  refine List.filter_congr fun f hf => ?_
  unfold LeafDrop.endable
  by_cases hlive : f.dataFileId ∈ d.ids ∧ f.endSnapshot = none
  · by_contra hguard
    have hguard : guardPredicate d.guarded r.updated f.beginSnapshot ≠ some true := by
      simpa [hlive] using hguard
    have hnot : f.dataFileId ∉ r.endedIds d := by
      intro hmem
      obtain ⟨g, hg, hid⟩ := List.mem_map.1 hmem
      obtain ⟨hgrow, hendable⟩ := List.mem_filter.1 hg
      have heq : g = f := Table.eq_of_key hgrow hf hid
      subst heq
      simp [LeafDrop.endable, hguard] at hendable
    have hrows : r.classified.dataFiles = r.updated.dataFiles :=
      hstill.classified.dataFiles.trans hstill.updated.dataFiles.symm
    have hrow : f ∈ (overlay (r.endWrites d) r.classified).dataFiles.rows := by
      rw [overlay_endWrites, Table.mem_update]
      refine ⟨f, hrows ▸ hf, ?_⟩
      unfold DataFile.ended
      rw [if_neg hnot]
    exact h.complete f hrow hlive.1 hnot hlive.2
  · rw [Bool.decide_and, Bool.decide_and, ← Bool.and_assoc, ← Bool.decide_and, decide_eq_false hlive,
      Bool.false_and]

/-! ## Delete vectors -/

/-- No live delete vector is on a file that `own` ended. -/
def NoOrphanVector (own : List Write) (c : Catalog) : Prop :=
  ∀ v ∈ c.deleteFiles.rows, v.endSnapshot = none → v.dataFileId ∉ endedIn own

/-- Every live delete vector on a live member of the leaf, at the baseline read, was there for the
    check before it. -/
def VectorsSettled (d : LeafDrop) (checked baseline : Catalog) : Prop :=
  ∀ v ∈ baseline.deleteFiles.rows, v.endSnapshot = none →
    v.dataFileId ∈ (d.members baseline).map DataFile.dataFileId → v ∈ d.liveVectors checked

/-- The session after one leaf drop on `c`. -/
def afterDrop (d : LeafDrop) (isolation : String) (clock : ℤ) (check : Bool) (c : Catalog)
    (schedule : ℕ → List OtherTx) (fates : ℕ → Fate PgError) :
    Session Catalog Write PgError DropStatement :=
  final (dropLeafTxn d isolation clock check) (dropSession c schedule fates)

theorem noOrphanVector_iff {d : LeafDrop} {c : Catalog} {r : DropRun} {before : Catalog}
    (h : r.Holds OthersCommit d c) (hstill : Still r before) :
    NoOrphanVector (r.writes d) (overlay (r.writes d) before) ↔
      VectorsSettled d r.vectors r.baseline := by
  have hvectors : (overlay (r.writes d) before).deleteFiles = r.baseline.deleteFiles :=
    hstill.before.deleteFiles
  have hmembers : d.members r.updated = d.members r.baseline := by
    unfold LeafDrop.members
    rw [hstill.updated.dataFiles]
  have hended : endedIn (r.writes d) = (d.members r.baseline).map DataFile.dataFileId := by
    rw [endedIn_writes, DropRun.endedIds, ended_eq_members h hstill, hmembers]
  unfold NoOrphanVector VectorsSettled
  rw [hvectors, hended]
  constructor
  · intro hnone v hv hlive hmember
    exact absurd hmember (hnone v hv hlive)
  · intro hsettled v hv hlive hmember
    have hseen := hsettled v hv hlive hmember
    rw [h.noVectors] at hseen
    exact List.not_mem_nil hseen

/-- **Dropping and delete vectors.** On every catalog, for every leaf and every placement of the
    others' transactions: a drop that commits leaves no live delete vector on a file it ended, if
    and only if none came onto a live member between the check and the baseline read. -/
theorem drop_orphans_no_vector_iff (d : LeafDrop) (isolation : String) (clock : ℤ) (check : Bool)
    (c : Catalog) (schedule : ℕ → List OtherTx) (fates : ℕ → Fate PgError)
    (entry : List Write × Catalog)
    (hcommit : entry ∈ commits (afterDrop d isolation clock check c schedule fates).seen) :
    ∃ checked baseline,
      views .deleteVectors (afterDrop d isolation clock check c schedule fates).seen = [checked] ∧
      views .baseline (afterDrop d isolation clock check c schedule fates).seen = [baseline] ∧
      (NoOrphanVector entry.1 (overlay entry.1 entry.2) ↔ VectorsSettled d checked baseline) := by
  obtain ⟨r, hholds, hlogged, hown, hlast⟩ := dropLeafTxn_commits
    (dropSession_within c schedule fates) rfl rfl d isolation clock check entry hcommit
  rw [hown] at hlast
  rw [hown]
  exact ⟨r.vectors, r.baseline, hlogged.vectors, hlogged.baseline,
    noOrphanVector_iff hholds (still_of_holds hholds hlast)⟩

instance (own : List Write) (c : Catalog) : Decidable (NoOrphanVector own c) :=
  inferInstanceAs (Decidable (∀ v ∈ c.deleteFiles.rows, v.endSnapshot = none →
    v.dataFileId ∉ endedIn own))

/-- Two live files of one table, and stats that agree. -/
def twoFiles (cursors : List (Option ℕ)) : Catalog where
  snapshots := ⟨[⟨1, 0, 0, 0, 9⟩], by decide⟩
  dataFiles := ⟨[⟨7, 1, 1, none, "a.parquet", true, some 2, some 4, some 40⟩,
    ⟨8, 1, 1, none, "b.parquet", true, some 2, some 6, some 60⟩], by decide⟩
  deleteFiles := .empty
  filesScheduledForDeletion := []
  fileColumnStats := [7, 8]
  filePartitionValues := [⟨7, 1, 0, some "2026"⟩, ⟨8, 1, 0, some "2027"⟩]
  fileVariantStats := []
  snapshotChanges := []
  tableStats := [⟨1, 10, 100⟩]
  versions := ["1.0"]
  cursors := cursors

/-- The drop of the leaf that holds the first file. -/
def firstLeaf : LeafDrop := ⟨1, [⟨7, 4, 40, 1⟩], true, "drop-partitions table=t leaf=2026"⟩

/-- A `DELETE` on the first file. -/
def addsVector : Commit where
  snapshot := ⟨2, 0, 0, 0, 10⟩
  dataFiles := []
  deleteFiles := [⟨9, 1, 7, 2, none, "v.parquet", true⟩]
  endedDataFiles := []
  endedDeleteFiles := []
  tableStats := [⟨1, 10, 100⟩]
  change := ⟨2, "deleted_from_table:1", "", ""⟩

/-- What the others do before the statement with this number, and nothing else. -/
def only (n : ℕ) (tx : OtherTx) : ℕ → List OtherTx := fun m => if m = n then [tx] else []

/-- A drop of the first leaf that nothing fails. -/
def dropFirstLeaf (cursors : List (Option ℕ)) (schedule : ℕ → List OtherTx) :
    Session Catalog Write PgError DropStatement :=
  afterDrop firstLeaf "read committed" 0 false (twoFiles cursors) schedule fun _ => .runs

/-- The commit of that drop. -/
def firstLeafCommit (cursors : List (Option ℕ)) : List Write × Catalog :=
  ([.insertSnapshot ⟨2, 0, 0, 0, 10⟩, .endDataFiles [7] 2, .decrementStats 1 4 40,
    .insertChange ⟨2, "deleted_from_table:1", "drop-partitions",
      "drop-partitions table=t leaf=2026"⟩], twoFiles cursors)

theorem quiet_drop_orphans_iff :
    ∃ checked baseline,
      views .deleteVectors (dropFirstLeaf [some 5] fun _ => []).seen = [checked] ∧
      views .baseline (dropFirstLeaf [some 5] fun _ => []).seen = [baseline] ∧
      (NoOrphanVector (firstLeafCommit [some 5]).1
          (overlay (firstLeafCommit [some 5]).1 (firstLeafCommit [some 5]).2) ↔
        VectorsSettled firstLeaf checked baseline) :=
  drop_orphans_no_vector_iff firstLeaf "read committed" 0 false (twoFiles [some 5]) (fun _ => [])
    (fun _ => .runs) (firstLeafCommit [some 5]) (by decide +kernel)

/-- The vector comes between the check and the baseline read. The drop takes the id above its
    snapshot and commits. -/
theorem late_vector_orphaned :
    ∃ entry ∈ commits (dropFirstLeaf [some 5] (only 2 (.commit addsVector))).seen,
      ¬ NoOrphanVector entry.1 (overlay entry.1 entry.2) := by
  decide +kernel

/-! ## Viaduck's cursors -/

/-- On this catalog the guard lets all of `files` go: no cursor row is NULL or at or below one of
    them, and the predicate is true of each. -/
structure GuardKept (files : List DataFile) (c : Catalog) : Prop where
  ahead : ∀ f ∈ files, ∀ cursor ∈ c.cursors, ∃ m, cursor = some m ∧ f.beginSnapshot < m
  eligible : ∀ f ∈ files, guardPredicate true c f.beginSnapshot = some true

/-- Without NULL cursors the predicate speaks for every row. -/
theorem ahead_of_eligible {c : Catalog} {beginSnapshot : ℕ} (hnull : none ∉ c.cursors)
    (h : guardPredicate true c beginSnapshot = some true) :
    ∀ cursor ∈ c.cursors, ∃ m, cursor = some m ∧ beginSnapshot < m := by
  intro cursor hcursor
  cases cursor with
  | none => exact absurd hcursor hnull
  | some m =>
      have hmem : m ∈ c.cursors.filterMap id := List.mem_filterMap.2 ⟨some m, hcursor, rfl⟩
      simp only [guardPredicate, if_true, Option.map_eq_some_iff, decide_eq_true_eq] at h
      obtain ⟨low, hlow, hlt⟩ := h
      have hle : low ≤ m := (List.min?_eq_some_iff.1 hlow).2 m hmem
      exact ⟨m, rfl, by omega⟩

/-- The predicate is not NULL as soon as one cursor is not. -/
theorem guardPredicate_ne_none {c : Catalog} (hnull : none ∉ c.cursors) (hrows : c.cursors ≠ [])
    (beginSnapshot : ℕ) : guardPredicate true c beginSnapshot ≠ none := by
  obtain ⟨cursor, hcursor⟩ := List.exists_mem_of_ne_nil _ hrows
  cases cursor with
  | none => exact absurd hcursor hnull
  | some m =>
      have hmem : m ∈ c.cursors.filterMap id := List.mem_filterMap.2 ⟨some m, hcursor, rfl⟩
      intro h
      simp only [guardPredicate, if_true, Option.map_eq_none_iff, minCursor] at h
      rw [List.min?_eq_none_iff.1 h] at hmem
      exact List.not_mem_nil hmem

/-- A predicate that is true of some file has a cursor behind it. -/
theorem cursors_ne_nil_of_eligible {c : Catalog} {beginSnapshot : ℕ}
    (h : guardPredicate true c beginSnapshot = some true) : c.cursors ≠ [] := by
  intro hnil
  simp [guardPredicate, minCursor, hnil] at h

theorem GuardKept.none_notMem {files : List DataFile} {c : Catalog} (h : GuardKept files c)
    (hsome : files ≠ []) : none ∉ c.cursors := by
  intro hnull
  obtain ⟨f, hf⟩ := List.exists_mem_of_ne_nil _ hsome
  obtain ⟨m, hm, -⟩ := h.ahead f hf none hnull
  exact absurd hm (by simp)

/-- What the two statements that evaluate the guard let through. -/
theorem guardKept_iff {files : List DataFile} {updated rewound : Catalog} (hsome : files ≠ [])
    (heligible : ∀ f ∈ files, guardPredicate true updated f.beginSnapshot = some true)
    (hrewound : ∀ f ∈ files, guardPredicate true rewound f.beginSnapshot ≠ some false) :
    (GuardKept files updated ∧ GuardKept files rewound) ↔
      none ∉ updated.cursors ∧ none ∉ rewound.cursors ∧ rewound.cursors ≠ [] := by
  constructor
  · intro ⟨hupdated, hrew⟩
    obtain ⟨f, hf⟩ := List.exists_mem_of_ne_nil _ hsome
    exact ⟨hupdated.none_notMem hsome, hrew.none_notMem hsome,
      cursors_ne_nil_of_eligible (hrew.eligible f hf)⟩
  · intro ⟨hnull, hnull', hrows⟩
    have heligible' : ∀ f ∈ files, guardPredicate true rewound f.beginSnapshot = some true := by
      intro f hf
      have hnone := guardPredicate_ne_none hnull' hrows f.beginSnapshot
      have hfalse := hrewound f hf
      cases hguard : guardPredicate true rewound f.beginSnapshot with
      | none => exact absurd hguard hnone
      | some verdict =>
          cases verdict with
          | false => exact absurd hguard hfalse
          | true => rfl
    exact ⟨⟨fun f hf => ahead_of_eligible hnull (heligible f hf), heligible⟩,
      ⟨fun f hf => ahead_of_eligible hnull' (heligible' f hf), heligible'⟩⟩

/-- What the rewind check found no fault with. -/
theorem unrewound_of_holds {d : LeafDrop} {c : Catalog} {r : DropRun} {before : Catalog}
    (h : r.Holds OthersCommit d c) (hstill : Still r before) (hguarded : d.guarded = true) :
    ∀ f ∈ d.members r.updated, guardPredicate true r.rewound f.beginSnapshot ≠ some false := by
  intro f hf hfalse
  have hrows : r.rewound.dataFiles = r.updated.dataFiles :=
    hstill.rewound.dataFiles.trans hstill.updated.dataFiles.symm
  obtain ⟨hfrow, hmember⟩ := List.mem_filter.1 hf
  simp only [Bool.decide_and, Bool.and_eq_true, decide_eq_true_eq] at hmember
  have hid : f.dataFileId ∈ r.endedIds d := by
    rw [DropRun.endedIds, ended_eq_members h hstill]
    exact List.mem_map_of_mem hf
  -- the member's row as the check saw it, ended by this drop
  have hrow : f.ended (r.endedIds d) r.snap ∈
      (overlay (r.endWrites d) r.rewound).dataFiles.rows := by
    rw [overlay_endWrites, Table.mem_update]
    exact ⟨f, hrows ▸ hfrow, rfl⟩
  have hended : f.ended (r.endedIds d) r.snap = { f with endSnapshot := some r.snap } := by
    unfold DataFile.ended
    rw [if_pos hid]
  have hcursors : (overlay (r.endWrites d) r.rewound).cursors = r.rewound.cursors := rfl
  have hnone := h.unrewound hguarded
  unfold LeafDrop.rewoundFiles at hnone
  rw [List.filter_eq_nil_iff] at hnone
  refine hnone _ hrow ?_
  rw [hended]
  have hguard : guardPredicate d.guarded (overlay (r.endWrites d) r.rewound) f.beginSnapshot =
      some false := by
    rw [hguarded, ← hfalse]
    rfl
  simp [hmember.1, hguard]

/-- **Dropping and viaduck's cursors.** With the guard on, for every leaf and every placement of the
    others' transactions: a drop that does not commit leaves the catalog to the others; one that
    commits ended every live member of the leaf, and the guard held of all of them at the `UPDATE`
    and again at the rewind check, if and only if neither statement saw a NULL cursor and the second
    saw a cursor at all. -/
theorem drop_guard_kept_iff (d : LeafDrop) (isolation : String) (clock : ℤ) (check : Bool)
    (c : Catalog) (schedule : ℕ → List OtherTx) (fates : ℕ → Fate PgError)
    (hguarded : d.guarded = true) :
    (commits (afterDrop d isolation clock check c schedule fates).seen = [] →
      Drift OthersCommit c (afterDrop d isolation clock check c schedule fates).committed) ∧
    ∀ entry ∈ commits (afterDrop d isolation clock check c schedule fates).seen,
      ∃ updated rewound,
        views .endFiles (afterDrop d isolation clock check c schedule fates).seen = [updated] ∧
        views .rewindCheck (afterDrop d isolation clock check c schedule fates).seen = [rewound] ∧
        endedIn entry.1 = (d.members updated).map DataFile.dataFileId ∧
        ((GuardKept (d.members updated) updated ∧ GuardKept (d.members updated) rewound) ↔
          none ∉ updated.cursors ∧ none ∉ rewound.cursors ∧ rewound.cursors ≠ []) := by
  have hw := dropSession_within c schedule fates
  refine ⟨fun hnone => dropLeafTxn_drift hw rfl d isolation clock check hnone, fun entry hentry => ?_⟩
  obtain ⟨r, hholds, hlogged, hown, hlast⟩ :=
    dropLeafTxn_commits hw rfl rfl d isolation clock check entry hentry
  rw [hown] at hlast
  have hstill := still_of_holds hholds hlast
  have hended := ended_eq_members hholds hstill
  refine ⟨overlay r.insertWrites r.updated, overlay (r.endWrites d) r.rewound, hlogged.updated,
    hlogged.rewound hguarded, ?_, ?_⟩
  · rw [hown, endedIn_writes, DropRun.endedIds, hended]
    rfl
  · have heligible : ∀ f ∈ d.members r.updated,
        guardPredicate true r.updated f.beginSnapshot = some true := by
      intro f hf
      rw [← hended] at hf
      have hendable := (List.mem_filter.1 hf).2
      simp only [LeafDrop.endable, hguarded, decide_eq_true_eq] at hendable
      exact hendable.2.2
    exact guardKept_iff (hended ▸ hholds.some) heligible
      (unrewound_of_holds hholds hstill hguarded)

theorem quiet_drop_guard_kept_iff :
    (commits (dropFirstLeaf [some 5] fun _ => []).seen = [] →
      Drift OthersCommit (twoFiles [some 5]) (dropFirstLeaf [some 5] fun _ => []).committed) ∧
    ∀ entry ∈ commits (dropFirstLeaf [some 5] fun _ => []).seen,
      ∃ updated rewound,
        views .endFiles (dropFirstLeaf [some 5] fun _ => []).seen = [updated] ∧
        views .rewindCheck (dropFirstLeaf [some 5] fun _ => []).seen = [rewound] ∧
        endedIn entry.1 = (firstLeaf.members updated).map DataFile.dataFileId ∧
        ((GuardKept (firstLeaf.members updated) updated ∧
            GuardKept (firstLeaf.members updated) rewound) ↔
          none ∉ updated.cursors ∧ none ∉ rewound.cursors ∧ rewound.cursors ≠ []) :=
  drop_guard_kept_iff firstLeaf "read committed" 0 false (twoFiles [some 5]) (fun _ => [])
    (fun _ => .runs) rfl

/-- One of two cursors is nulled before the `UPDATE`: `min` passes over it, and the file is ended
    although that consumer has read nothing. -/
theorem nulled_cursor_passed :
    ∃ entry ∈ commits (dropFirstLeaf [some 5, some 5] (only 4 (.cursors [some 5, none]))).seen,
      ∃ updated ∈ views .endFiles
          (dropFirstLeaf [some 5, some 5] (only 4 (.cursors [some 5, none]))).seen,
        endedIn entry.1 = [7] ∧ ¬ GuardKept (firstLeaf.members updated) updated := by
  have hrun : ∃ entry ∈
      commits (dropFirstLeaf [some 5, some 5] (only 4 (.cursors [some 5, none]))).seen,
      ∃ updated ∈ views .endFiles
          (dropFirstLeaf [some 5, some 5] (only 4 (.cursors [some 5, none]))).seen,
        endedIn entry.1 = [7] ∧ none ∈ updated.cursors ∧ firstLeaf.members updated ≠ [] := by
    decide +kernel
  obtain ⟨entry, hentry, updated, hupdated, hended, hnull, hsome⟩ := hrun
  exact ⟨entry, hentry, updated, hupdated, hended, fun hkept => hkept.none_notMem hsome hnull⟩

end Millpond.Maintenance
