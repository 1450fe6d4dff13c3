import Millpond.Maintenance.ExpireSnapshots

set_option autoImplicit false

/-! # What expiry removes, and what it leaves

A batch removes a file row only when no snapshot it leaves can read the file. It examines the files
that end in the batch and no others: a file that outlives its own end, because an older snapshot
still reads it, is never examined again. -/

namespace Millpond.Maintenance

open Prog ReadCommitted

/-! ## Safety -/

/-- A snapshot reads a file from `beginSnapshot` on, and before `endSnapshot`. -/
def Catalog.Reads (c : Catalog) (beginSnapshot endSnapshot : ℕ) : Prop :=
  ∃ s ∈ c.snapshots.rows, beginSnapshot ≤ s.snapshotId ∧ s.snapshotId < endSnapshot

/-- A row with these columns may go: it ended in the batch, and no snapshot left reads the file. -/
def MayGo (ids : List ℕ) (after : Catalog) (beginSnapshot : ℕ) (endSnapshot : Option ℕ) : Prop :=
  ∃ e ∈ ids, endSnapshot = some e ∧ ¬ after.Reads beginSnapshot e

/-- An entry of the queue is that of a row the batch removed. -/
def OfRemoved (before after : Catalog) (q : Scheduled) : Prop :=
  (∃ f ∈ before.dataFiles.rows, f ∉ after.dataFiles.rows ∧ f.scheduled = q) ∨
    ∃ f ∈ before.deleteFiles.rows, f ∉ after.deleteFiles.rows ∧ f.scheduled = q

/-- What one batch does to the catalog. -/
structure SafeBatch (ids : List ℕ) (before after : Catalog) : Prop where
  whole : ∀ s, s ∈ after.snapshots.rows ↔ s ∈ before.snapshots.rows ∧ s.snapshotId ∉ ids
  newest : ∀ s, before.newest = some s → s ∈ after.snapshots.rows
  data : ∀ f ∈ before.dataFiles.rows, f ∈ after.dataFiles.rows ∨
    MayGo ids after f.beginSnapshot f.endSnapshot
  vectors : ∀ f ∈ before.deleteFiles.rows, f ∈ after.deleteFiles.rows ∨
    MayGo ids after f.beginSnapshot f.endSnapshot
  noneAdded : (∀ f ∈ after.dataFiles.rows, f ∈ before.dataFiles.rows) ∧
    ∀ f ∈ after.deleteFiles.rows, f ∈ before.deleteFiles.rows
  onlyQueued : ∃ added, after.filesScheduledForDeletion = before.filesScheduledForDeletion ++ added ∧
    ∀ q ∈ added, OfRemoved before after q
  idQueued : (∀ f ∈ before.dataFiles.rows, f ∉ after.dataFiles.rows →
      f.dataFileId ∈ after.filesScheduledForDeletion.map Scheduled.dataFileId) ∧
    ∀ f ∈ before.deleteFiles.rows, f ∉ after.deleteFiles.rows →
      f.deleteFileId ∈ after.filesScheduledForDeletion.map Scheduled.dataFileId
  dataQueued : ∀ f ∈ before.dataFiles.rows, f ∉ after.dataFiles.rows →
    (∀ q ∈ before.filesScheduledForDeletion, q.dataFileId = f.dataFileId → q = f.scheduled) →
    f.scheduled ∈ after.filesScheduledForDeletion
  vectorsQueued : ∀ f ∈ before.deleteFiles.rows, f ∉ after.deleteFiles.rows →
    (∀ q ∈ before.filesScheduledForDeletion, q.dataFileId = f.deleteFileId → q = f.scheduled) →
    (∀ g ∈ before.dataFiles.rows, g ∉ after.dataFiles.rows → g.dataFileId = f.deleteFileId →
      g.scheduled = f.scheduled) →
    f.scheduled ∈ after.filesScheduledForDeletion

section Batch

variable {ids : List ℕ} {c : Catalog}

theorem mayGo_of_dead {beginSnapshot : ℕ} {endSnapshot : Option ℕ}
    (h : deadWhere ids c beginSnapshot endSnapshot = true) :
    MayGo ids (afterBatch ids c) beginSnapshot endSnapshot := by
  obtain ⟨e, he, hend, hno⟩ := dead_unreadable h
  exact ⟨e, he, hend, fun ⟨s, hs, hread⟩ => hno s hs hread⟩

theorem dead_of_removed_data {f : DataFile} (hf : f ∈ c.dataFiles.rows)
    (hgone : f ∉ (afterBatch ids c).dataFiles.rows) : f.dead ids c = true := by
  by_contra hlive
  exact hgone (mem_afterBatch_dataFiles.2 ⟨hf, by simpa using hlive⟩)

theorem dead_of_removed_vector {f : DeleteFile} (hf : f ∈ c.deleteFiles.rows)
    (hgone : f ∉ (afterBatch ids c).deleteFiles.rows) : f.dead ids c = true := by
  by_contra hlive
  exact hgone (mem_afterBatch_deleteFiles.2 ⟨hf, by simpa using hlive⟩)

theorem removed_data_of_dead {f : DataFile} (hdead : f.dead ids c = true) :
    f ∉ (afterBatch ids c).dataFiles.rows := fun hin =>
  Bool.false_ne_true ((mem_afterBatch_dataFiles.1 hin).2.symm.trans hdead)

theorem removed_vector_of_dead {f : DeleteFile} (hdead : f.dead ids c = true) :
    f ∉ (afterBatch ids c).deleteFiles.rows := fun hin =>
  Bool.false_ne_true ((mem_afterBatch_deleteFiles.1 hin).2.symm.trans hdead)

/-- A batch queues rows it removes, and nothing else. -/
theorem ofRemoved_of_queued {q : Scheduled}
    (hq : q ∈ expireDeadData ids c ∨ q ∈ expireDeadDv ids c) : OfRemoved c (afterBatch ids c) q := by
  rcases hq with hq | hq
  · obtain ⟨f, hf, rfl⟩ := List.mem_map.1 hq
    obtain ⟨hf, hdead⟩ := List.mem_filter.1 hf
    exact Or.inl ⟨f, hf, removed_data_of_dead hdead, rfl⟩
  · obtain ⟨f, hf, rfl⟩ := List.mem_map.1 hq
    obtain ⟨hf, hdead⟩ := List.mem_filter.1 hf
    exact Or.inr ⟨f, hf, removed_vector_of_dead hdead, rfl⟩

/-- The queue has every dead row's id, and the row itself where the id was free or its own. -/
theorem queued_of_dead {dead queue : List Scheduled} {d : Scheduled} (hd : d ∈ dead) :
    let after := queue ++ dead.filter fun x => x.dataFileId ∉ queue.map Scheduled.dataFileId
    d.dataFileId ∈ after.map Scheduled.dataFileId ∧
      ((∀ q ∈ queue, q.dataFileId = d.dataFileId → q = d) → d ∈ after) := by
  intro after
  by_cases hin : d.dataFileId ∈ queue.map Scheduled.dataFileId
  · obtain ⟨q, hq, hid⟩ := List.mem_map.1 hin
    refine ⟨List.mem_map.2 ⟨q, List.mem_append_left _ hq, hid⟩, fun hsame => ?_⟩
    exact List.mem_append_left _ (hsame q hq hid ▸ hq)
  · have hmem : d ∈ after :=
      List.mem_append_right _ (List.mem_filter.2 ⟨hd, by simpa using hin⟩)
    exact ⟨List.mem_map.2 ⟨d, hmem, rfl⟩, fun _ => hmem⟩

theorem safeBatch_afterBatch (h : BatchIn ids c) : SafeBatch ids c (afterBatch ids c) := by
  have hdata : ∀ f ∈ c.dataFiles.rows, f ∉ (afterBatch ids c).dataFiles.rows →
      f.scheduled ∈ expireDeadData ids c := fun f hf hgone =>
    List.mem_map.2 ⟨f, List.mem_filter.2 ⟨hf, dead_of_removed_data hf hgone⟩, rfl⟩
  have hvector : ∀ f ∈ c.deleteFiles.rows, f ∉ (afterBatch ids c).deleteFiles.rows →
      f.scheduled ∈ expireDeadDv ids c := fun f hf hgone =>
    List.mem_map.2 ⟨f, List.mem_filter.2 ⟨hf, dead_of_removed_vector hf hgone⟩, rfl⟩
  refine ⟨fun s => mem_afterBatch_snapshots, fun s hs => ?_, fun f hf => ?_, fun f hf => ?_,
    ⟨fun f hf => (mem_afterBatch_dataFiles.1 hf).1, fun f hf => (mem_afterBatch_deleteFiles.1 hf).1⟩,
    ⟨_, (List.append_assoc _ _ _), fun q hq => ofRemoved_of_queued ?_⟩,
    ⟨fun f hf hgone => ?_, fun f hf hgone => ?_⟩, fun f hf hgone hsame => ?_,
    fun f hf hgone hsame hdistinct => ?_⟩
  · refine mem_afterBatch_snapshots.2 ⟨List.argmax_mem hs, fun hin => ?_⟩
    obtain ⟨t, ht, hlt⟩ := h.spared
    have hle := List.le_of_mem_argmax ht hs
    have := hlt _ hin
    omega
  · by_cases hdead : f.dead ids c = true
    · exact Or.inr (mayGo_of_dead hdead)
    · exact Or.inl (mem_afterBatch_dataFiles.2 ⟨hf, by simpa using hdead⟩)
  · by_cases hdead : f.dead ids c = true
    · exact Or.inr (mayGo_of_dead hdead)
    · exact Or.inl (mem_afterBatch_deleteFiles.2 ⟨hf, by simpa using hdead⟩)
  · exact (List.mem_append.1 hq).imp List.mem_of_mem_filter List.mem_of_mem_filter
  · rw [afterBatch_queue, List.map_append]
    exact List.mem_append_left _ (queued_of_dead (hdata f hf hgone)).1
  · exact (queued_of_dead (hvector f hf hgone)).1
  · rw [afterBatch_queue]
    exact List.mem_append_left _ ((queued_of_dead (hdata f hf hgone)).2 hsame)
  · refine (queued_of_dead (hvector f hf hgone)).2 fun q hq hid => ?_
    -- the entry was there before, or is that of a data file of this batch
    rcases List.mem_append.1 hq with hq | hq
    · exact hsame q hq hid
    · obtain ⟨g, hg, rfl⟩ := List.mem_map.1 (List.mem_of_mem_filter hq)
      obtain ⟨hg, hdead⟩ := List.mem_filter.1 hg
      exact hdistinct g hg (removed_data_of_dead hdead) hid

end Batch

/-- **Expiry is safe.** Through any number of runs, with any failures and any commits of others that
    only add snapshots above the maximum, the catalog changes by those commits and by whole batches
    alone. A batch keeps the newest snapshot and removes a file row only if the row ended in it and
    no surviving snapshot reads the file; it queues such rows and no others. The row's file id is in
    the deletion queue then, and its path too unless the queue has that id for another path. -/
theorem expire_safe (c : Catalog) (schedule : ℕ → List Commit) (fates : ℕ → Fate PgError)
    (runs : List (ExpireRun × ℕ)) :
    Evolves AddsAbove c (commits (final (expireRuns runs) (expireSession c schedule fates)).seen)
      (final (expireRuns runs) (expireSession c schedule fates)).committed ∧
    ∀ entry ∈ commits (final (expireRuns runs) (expireSession c schedule fates)).seen,
      ∃ ids, SafeBatch ids entry.2 (overlay entry.1 entry.2) := by
  obtain ⟨added, hseen, hev, hbatch⟩ := (expireRuns_ran c schedule fates runs).log
  have hadded : (final (expireRuns runs) (expireSession c schedule fates)).seen = added := by
    rw [hseen]
    exact List.append_nil _
  rw [hadded]
  refine ⟨hev, fun entry he => ?_⟩
  obtain ⟨ids, hin, hown⟩ := hbatch entry he
  rw [hown]
  exact ⟨ids, safeBatch_afterBatch hin⟩

/-- A catalog with three snapshots, one data file that ended at the second, and a queue. -/
def endedFile (times : ℕ → ℤ) (queue : List Scheduled) : Catalog where
  snapshots := ⟨[⟨1, times 1, 0, 0, 0⟩, ⟨2, times 2, 0, 0, 0⟩, ⟨3, times 3, 0, 0, 0⟩],
    by simp [Keyed.key]⟩
  dataFiles := ⟨[⟨7, 1, 1, some 2, "a.parquet", true, none, none, none⟩], by decide⟩
  deleteFiles := .empty
  filesScheduledForDeletion := queue
  fileColumnStats := []
  filePartitionValues := []
  fileVariantStats := []
  snapshotChanges := []
  tableStats := []
  versions := []
  cursors := []

/-- A run with this cutoff, one batch of everything. -/
def runUntil (cutoff : ℤ) : ExpireRun × ℕ :=
  (⟨0, 10, none, false, true, cutoff⟩, 2)

/-- The catalog after runs with these cutoffs, nothing else happening. -/
def afterRuns (c : Catalog) (cutoffs : List ℤ) : Catalog :=
  (final (expireRuns (cutoffs.map runUntil)) (expireSession c (fun _ => []) fun _ => .runs)).committed

/-- With the file's id queued for another path, the row goes and its path is not queued. -/
theorem queued_id_hides_path :
    (afterRuns (endedFile (fun i => i) [⟨7, "b.parquet", true⟩]) [3]).dataFiles.rows = [] ∧
    "a.parquet" ∉ (afterRuns (endedFile (fun i => i) [⟨7, "b.parquet", true⟩])
      [3]).filesScheduledForDeletion.map Scheduled.path := by
  decide +kernel

/-! ## Leaks -/

/-- The snapshot ids a commit of the tool deletes. -/
def deletedSnapshots (own : List Write) : List ℕ :=
  own.flatMap fun
    | .deleteSnapshots ids => ids
    | _ => []

/-- The snapshot ids the tool deleted in these commits. -/
def deletedIn (entries : List (List Write × Catalog)) : List ℕ :=
  entries.flatMap fun entry => deletedSnapshots entry.1

/-- Every remaining row whose end the tool deleted is still read by a snapshot. -/
structure NoLeak (deleted : List ℕ) (c : Catalog) : Prop where
  data : ∀ f ∈ c.dataFiles.rows, ∀ e ∈ deleted, f.endSnapshot = some e → c.Reads f.beginSnapshot e
  vectors : ∀ f ∈ c.deleteFiles.rows, ∀ e ∈ deleted, f.endSnapshot = some e →
    c.Reads f.beginSnapshot e

/-- A snapshot outside the batch reads from `beginSnapshot` on, and before `endSnapshot`. -/
def SparedReads (ids : List ℕ) (c : Catalog) (beginSnapshot endSnapshot : ℕ) : Prop :=
  ∃ s ∈ c.snapshots.rows, s.snapshotId ∉ ids ∧ beginSnapshot ≤ s.snapshotId ∧ s.snapshotId < endSnapshot

/-- The batch does not take the last reader of a file whose end is gone already. -/
structure SparesLastReader (ids : List ℕ) (c : Catalog) : Prop where
  data : ∀ f ∈ c.dataFiles.rows, ∀ e, f.endSnapshot = some e → e ∉ c.snapshots.keys →
    c.Reads f.beginSnapshot e → SparedReads ids c f.beginSnapshot e
  vectors : ∀ f ∈ c.deleteFiles.rows, ∀ e, f.endSnapshot = some e → e ∉ c.snapshots.keys →
    c.Reads f.beginSnapshot e → SparedReads ids c f.beginSnapshot e

/-- Every end is present or was deleted by the tool; what the tool deleted is gone, and below a
    snapshot that is there. -/
structure EndsKnown (deleted : List ℕ) (c : Catalog) : Prop where
  data : ∀ f ∈ c.dataFiles.rows, ∀ e, f.endSnapshot = some e → e ∈ c.snapshots.keys ∨ e ∈ deleted
  vectors : ∀ f ∈ c.deleteFiles.rows, ∀ e, f.endSnapshot = some e →
    e ∈ c.snapshots.keys ∨ e ∈ deleted
  gone : ∀ d ∈ deleted, d ∉ c.snapshots.keys
  below : ∀ d ∈ deleted, ∃ s ∈ c.snapshots.rows, d < s.snapshotId

section Batch

variable {ids deleted : List ℕ} {c : Catalog}

theorem keys_afterBatch {i : ℕ} :
    i ∈ (afterBatch ids c).snapshots.keys ↔ i ∈ c.snapshots.keys ∧ i ∉ ids := by
  rw [Table.mem_keys, Table.mem_keys]
  constructor
  · rintro ⟨s, hs, rfl⟩
    obtain ⟨hs, hnot⟩ := mem_afterBatch_snapshots.1 hs
    exact ⟨⟨s, hs, rfl⟩, hnot⟩
  · rintro ⟨⟨s, hs, rfl⟩, hnot⟩
    exact ⟨s, mem_afterBatch_snapshots.2 ⟨hs, hnot⟩, rfl⟩

theorem reads_afterBatch {b e : ℕ} : (afterBatch ids c).Reads b e ↔ SparedReads ids c b e := by
  constructor
  · rintro ⟨s, hs, hread⟩
    obtain ⟨hs, hnot⟩ := mem_afterBatch_snapshots.1 hs
    exact ⟨s, hs, hnot, hread⟩
  · rintro ⟨s, hs, hnot, hread⟩
    exact ⟨s, mem_afterBatch_snapshots.2 ⟨hs, hnot⟩, hread⟩

/-- A row that ends in the batch and outlives it has a reader outside it. -/
theorem sparedReads_of_not_dead {b e : ℕ} (he : e ∈ ids) (h : deadWhere ids c b (some e) = false) :
    SparedReads ids c b e := by
  simp only [deadWhere, he, true_and, decide_eq_false_iff_not, not_not, Catalog.bridged,
    List.any_eq_true, decide_eq_true_eq] at h
  obtain ⟨s, hs, hb, hlt, hnot⟩ := h
  exact ⟨s, hs, hnot, hb, hlt⟩

/-- One step of the argument, for either kind of row. -/
theorem reads_of_spared {b e : ℕ} (hdead : deadWhere ids c b (some e) = false)
    (he : e ∈ ids ++ deleted) (hgone : ∀ d ∈ deleted, d ∉ c.snapshots.keys)
    (hread : e ∈ deleted → c.Reads b e)
    (hspares : e ∉ c.snapshots.keys → c.Reads b e → SparedReads ids c b e) :
    (afterBatch ids c).Reads b e := by
  rw [reads_afterBatch]
  rcases List.mem_append.1 he with he | he
  · exact sparedReads_of_not_dead he hdead
  · exact hspares (hgone e he) (hread he)

theorem spared_of_reads {b e : ℕ} (hin : BatchIn ids c) (hends : e ∈ c.snapshots.keys ∨ e ∈ deleted)
    (hgone : e ∉ c.snapshots.keys)
    (hread : deadWhere ids c b (some e) = false → e ∈ ids ++ deleted → (afterBatch ids c).Reads b e) :
    SparedReads ids c b e := by
  have hids : e ∉ ids := fun he => hgone (hin.present e he)
  have hdeleted : e ∈ deleted := hends.resolve_left hgone
  exact reads_afterBatch.1 (hread (by simp [deadWhere, hids]) (List.mem_append_right _ hdeleted))

/-- A batch leaks nothing exactly when it spares the last readers. -/
theorem noLeak_afterBatch_iff (hin : BatchIn ids c) (hends : EndsKnown deleted c)
    (hleak : NoLeak deleted c) :
    NoLeak (ids ++ deleted) (afterBatch ids c) ↔ SparesLastReader ids c := by
  constructor
  · intro h
    refine ⟨fun f hf e hend hgone _ => ?_, fun f hf e hend hgone _ => ?_⟩
    · refine spared_of_reads hin (hends.data f hf e hend) hgone fun hdead he => ?_
      refine h.data f (mem_afterBatch_dataFiles.2 ⟨hf, ?_⟩) e he hend
      rw [DataFile.dead, hend]
      exact hdead
    · refine spared_of_reads hin (hends.vectors f hf e hend) hgone fun hdead he => ?_
      refine h.vectors f (mem_afterBatch_deleteFiles.2 ⟨hf, ?_⟩) e he hend
      rw [DeleteFile.dead, hend]
      exact hdead
  · intro h
    refine ⟨fun f hf e he hend => ?_, fun f hf e he hend => ?_⟩
    · obtain ⟨hf, hdead⟩ := mem_afterBatch_dataFiles.1 hf
      rw [DataFile.dead, hend] at hdead
      exact reads_of_spared hdead he hends.gone (fun he => hleak.data f hf e he hend)
        (h.data f hf e hend)
    · obtain ⟨hf, hdead⟩ := mem_afterBatch_deleteFiles.1 hf
      rw [DeleteFile.dead, hend] at hdead
      exact reads_of_spared hdead he hends.gone (fun he => hleak.vectors f hf e he hend)
        (h.vectors f hf e hend)

theorem endsKnown_afterBatch (hin : BatchIn ids c) (h : EndsKnown deleted c) :
    EndsKnown (ids ++ deleted) (afterBatch ids c) := by
  have hkeys : ∀ e, e ∈ c.snapshots.keys ∨ e ∈ deleted →
      e ∈ (afterBatch ids c).snapshots.keys ∨ e ∈ ids ++ deleted := by
    intro e he
    by_cases hids : e ∈ ids
    · exact Or.inr (List.mem_append_left _ hids)
    · exact he.imp (fun hk => keys_afterBatch.2 ⟨hk, hids⟩) (List.mem_append_right _)
  refine ⟨fun f hf e hend => hkeys e (h.data f (mem_afterBatch_dataFiles.1 hf).1 e hend),
    fun f hf e hend => hkeys e (h.vectors f (mem_afterBatch_deleteFiles.1 hf).1 e hend), ?_, ?_⟩
  · intro d hd hmem
    obtain ⟨hkey, hnot⟩ := keys_afterBatch.1 hmem
    exact (List.mem_append.1 hd).elim hnot fun hdel => h.gone d hdel hkey
  · -- the snapshot that stays is above the whole batch, so above whatever it replaces
    intro d hd
    obtain ⟨top, htop, hlt⟩ := hin.spared
    have hstays : top ∈ (afterBatch ids c).snapshots.rows :=
      mem_afterBatch_snapshots.2 ⟨htop, fun hin' => Nat.lt_irrefl _ (hlt _ hin')⟩
    rcases List.mem_append.1 hd with hd | hd
    · exact ⟨top, hstays, hlt d hd⟩
    · obtain ⟨s, hs, hds⟩ := h.below d hd
      by_cases hids : s.snapshotId ∈ ids
      · exact ⟨top, hstays, hds.trans (hlt _ hids)⟩
      · exact ⟨s, mem_afterBatch_snapshots.2 ⟨hs, hids⟩, hds⟩

end Batch

/-! ## Leaks and the commits of others -/

section Others

variable {deleted : List ℕ} {c : Catalog} {k : Commit}

theorem reads_apply {b e : ℕ} (h : c.Reads b e) : (k.apply c).Reads b e := by
  obtain ⟨s, hs, hread⟩ := h
  exact ⟨s, Table.mem_insert_of_mem hs, hread⟩

theorem keys_apply (hk : k.Above c) {i : ℕ} :
    i ∈ (k.apply c).snapshots.keys ↔ i ∈ c.snapshots.keys ∨ i = k.snapshot.snapshotId := by
  show i ∈ (c.snapshots.insert k.snapshot).keys ↔ _
  unfold Table.keys
  rw [Table.insert_rows (key_notMem hk)]
  simp [Keyed.key]

/-- An ended row after the commit was there before, or ends with the commit's snapshot. -/
theorem ended_data_apply (hk : k.Above c) {f : DataFile} {e : ℕ}
    (hf : f ∈ (k.apply c).dataFiles.rows) (hend : f.endSnapshot = some e) :
    f ∈ c.dataFiles.rows ∨ e = k.snapshot.snapshotId := by
  rcases Table.mem_of_mem_insertAll hf with hf | hf
  · obtain ⟨g, hg, rfl⟩ := Table.mem_update.1 hf
    cases hlive : g.endSnapshot with
    | some _ =>
        simp only [DataFile.endedLive, hlive, Option.isNone_some, Bool.false_eq_true, if_false]
        exact Or.inl hg
    | none =>
        simp only [DataFile.endedLive, hlive, Option.isNone_none, if_true, DataFile.ended] at hend
        split at hend
        · exact Or.inr (Option.some.inj hend).symm
        · exact absurd (hlive.symm.trans hend) (by simp)
  · exact absurd ((hk.liveData f hf).symm.trans hend) (by simp)

theorem ended_vector_apply (hk : k.Above c) {f : DeleteFile} {e : ℕ}
    (hf : f ∈ (k.apply c).deleteFiles.rows) (hend : f.endSnapshot = some e) :
    f ∈ c.deleteFiles.rows ∨ e = k.snapshot.snapshotId := by
  rcases Table.mem_of_mem_insertAll hf with hf | hf
  · obtain ⟨g, hg, rfl⟩ := Table.mem_update.1 hf
    cases hlive : g.endSnapshot with
    | some _ =>
        simp only [DeleteFile.endedLive, hlive, Option.isNone_some, Bool.false_eq_true, false_and,
          if_false]
        exact Or.inl hg
    | none =>
        simp only [DeleteFile.endedLive, hlive, Option.isNone_none, true_and] at hend
        split at hend
        · exact Or.inr (Option.some.inj hend).symm
        · exact absurd (hlive.symm.trans hend) (by simp)
  · exact absurd ((hk.liveDelete f hf).symm.trans hend) (by simp)

theorem snapshot_notMem_deleted (hk : k.Above c) (h : EndsKnown deleted c) :
    k.snapshot.snapshotId ∉ deleted := by
  intro hmem
  obtain ⟨s, hs, hlt⟩ := h.below _ hmem
  have := hk.above s hs
  omega

theorem endsKnown_apply (hk : k.Above c) (h : EndsKnown deleted c) :
    EndsKnown deleted (k.apply c) := by
  refine ⟨fun f hf e hend => ?_, fun f hf e hend => ?_, fun d hd hmem => ?_, fun d hd => ?_⟩
  · rw [keys_apply hk]
    rcases ended_data_apply hk hf hend with hf | rfl
    · exact (h.data f hf e hend).imp_left Or.inl
    · exact Or.inl (Or.inr rfl)
  · rw [keys_apply hk]
    rcases ended_vector_apply hk hf hend with hf | rfl
    · exact (h.vectors f hf e hend).imp_left Or.inl
    · exact Or.inl (Or.inr rfl)
  · rcases (keys_apply hk).1 hmem with hmem | rfl
    · exact h.gone d hd hmem
    · exact snapshot_notMem_deleted hk h hd
  · obtain ⟨s, hs, hlt⟩ := h.below d hd
    exact ⟨s, Table.mem_insert_of_mem hs, hlt⟩

theorem noLeak_apply (hk : k.Above c) (hends : EndsKnown deleted c) (h : NoLeak deleted c) :
    NoLeak deleted (k.apply c) := by
  refine ⟨fun f hf e he hend => ?_, fun f hf e he hend => ?_⟩
  · rcases ended_data_apply hk hf hend with hf | rfl
    · exact reads_apply (h.data f hf e he hend)
    · exact absurd he (snapshot_notMem_deleted hk hends)
  · rcases ended_vector_apply hk hf hend with hf | rfl
    · exact reads_apply (h.vectors f hf e he hend)
    · exact absurd he (snapshot_notMem_deleted hk hends)

end Others

/-! ## Leaks over whole runs -/

/-- No leak in any state the tool's commits left. -/
def NoLeakThroughout : List (List Write × Catalog) → Prop
  | [] => True
  | (own, before) :: rest =>
      NoLeak (deletedIn ((own, before) :: rest)) (overlay own before) ∧ NoLeakThroughout rest

/-- What is known of the tool's commits `entries` and the state `c` they led to. -/
structure Tracked (entries : List (List Write × Catalog)) (c : Catalog) : Prop where
  ends : EndsKnown (deletedIn entries) c
  iff : NoLeakThroughout entries ↔
    ∀ entry ∈ entries, SparesLastReader (deletedSnapshots entry.1) entry.2
  noLeak : NoLeakThroughout entries → NoLeak (deletedIn entries) c

theorem deletedSnapshots_expireWrites (ids : List ℕ) (c : Catalog) :
    deletedSnapshots (expireWrites ids c) = ids := by
  simp [deletedSnapshots, expireWrites]

theorem tracked_apply {entries : List (List Write × Catalog)} {c : Catalog} {k : Commit}
    (hk : k.Above c) (h : Tracked entries c) : Tracked entries (k.apply c) :=
  ⟨endsKnown_apply hk h.ends, h.iff, fun hall => noLeak_apply hk h.ends (h.noLeak hall)⟩

theorem tracked_batch {entries : List (List Write × Catalog)} {own : List Write} {c : Catalog}
    (hown : IsBatch own c) (h : Tracked entries c) :
    Tracked ((own, c) :: entries) (overlay own c) := by
  obtain ⟨ids, hin, rfl⟩ := hown
  have hdeleted : deletedIn ((expireWrites ids c, c) :: entries) = ids ++ deletedIn entries := by
    show deletedSnapshots _ ++ deletedIn entries = _
    rw [deletedSnapshots_expireWrites]
  refine ⟨?_, ?_, fun hall => hall.1⟩
  · rw [hdeleted]
    exact endsKnown_afterBatch hin h.ends
  · show (NoLeak (deletedIn ((expireWrites ids c, c) :: entries)) (afterBatch ids c) ∧
      NoLeakThroughout entries) ↔ _
    rw [hdeleted, List.forall_mem_cons, deletedSnapshots_expireWrites, ← h.iff]
    constructor
    · intro ⟨hleak, hall⟩
      exact ⟨(noLeak_afterBatch_iff hin h.ends (h.noLeak hall)).1 hleak, hall⟩
    · intro ⟨hspares, hall⟩
      exact ⟨(noLeak_afterBatch_iff hin h.ends (h.noLeak hall)).2 hspares, hall⟩

/-- Each ended file's end is the id of a snapshot that is there. -/
structure EndsPresent (c : Catalog) : Prop where
  data : ∀ f ∈ c.dataFiles.rows, ∀ e, f.endSnapshot = some e → e ∈ c.snapshots.keys
  vectors : ∀ f ∈ c.deleteFiles.rows, ∀ e, f.endSnapshot = some e → e ∈ c.snapshots.keys

/-- The tool's commits of some runs, newest first. -/
def runCommits (c : Catalog) (schedule : ℕ → List Commit) (fates : ℕ → Fate PgError)
    (runs : List (ExpireRun × ℕ)) : List (List Write × Catalog) :=
  commits (final (expireRuns runs) (expireSession c schedule fates)).seen

/-- **When expiry leaks nothing.** From a catalog in which each ended file's end is present, any
    number of runs, whatever the snapshot times: no state the runs reach has a row whose end the
    tool deleted and that no snapshot reads, if and only if no batch takes the last reader of a file
    whose end is gone already. -/
theorem expire_leaks_nothing_iff (c : Catalog) (schedule : ℕ → List Commit)
    (fates : ℕ → Fate PgError) (runs : List (ExpireRun × ℕ)) (hends : EndsPresent c) :
    (NoLeakThroughout (runCommits c schedule fates runs) ∧
      NoLeak (deletedIn (runCommits c schedule fates runs))
        (final (expireRuns runs) (expireSession c schedule fates)).committed) ↔
    ∀ entry ∈ runCommits c schedule fates runs,
      SparesLastReader (deletedSnapshots entry.1) entry.2 := by
  obtain ⟨added, hseen, hev, hbatch⟩ := (expireRuns_ran c schedule fates runs).log
  have hadded : runCommits c schedule fates runs = commits added := by
    unfold runCommits
    rw [hseen]
    exact congrArg commits (List.append_nil _)
  rw [hadded]
  have hstart : Tracked [] c := by
    refine ⟨⟨fun f hf e hend => Or.inl (hends.data f hf e hend),
      fun f hf e hend => Or.inl (hends.vectors f hf e hend), by simp [deletedIn],
      by simp [deletedIn]⟩, by simp [NoLeakThroughout], fun _ => ?_⟩
    exact ⟨by simp [deletedIn], by simp [deletedIn]⟩
  -- kept by the commits of the others and by each batch
  have htracked : Tracked (commits added)
      (final (expireRuns runs) (expireSession c schedule fates)).committed := by
    refine hev.invariant (I := Tracked) hstart (fun _ _ _ _ h hR => ?_) fun own d rest hsuf h => ?_
    · exact addsAbove_invariant (fun _ _ hk hd => tracked_apply hk hd) hR h
    · exact tracked_batch (hbatch _ (hsuf.subset List.mem_cons_self)) h
  exact ⟨fun h => htracked.iff.1 h.1, fun h => ⟨htracked.iff.2 h, htracked.noLeak (htracked.iff.2 h)⟩⟩

/-- Clocks that agree with the ids. -/
theorem agreeing_clocks_leaks_nothing_iff :
    (NoLeakThroughout (runCommits (endedFile (fun i => i) []) (fun _ => []) (fun _ => .runs)
        [runUntil 2, runUntil 3]) ∧
      NoLeak (deletedIn (runCommits (endedFile (fun i => i) []) (fun _ => []) (fun _ => .runs)
          [runUntil 2, runUntil 3]))
        (final (expireRuns [runUntil 2, runUntil 3])
          (expireSession (endedFile (fun i => i) []) (fun _ => []) fun _ => .runs)).committed) ↔
    ∀ entry ∈ runCommits (endedFile (fun i => i) []) (fun _ => []) (fun _ => .runs)
        [runUntil 2, runUntil 3],
      SparesLastReader (deletedSnapshots entry.1) entry.2 :=
  expire_leaks_nothing_iff _ _ _ _
    ⟨by simp [endedFile, Table.keys, Keyed.key], by simp [endedFile]⟩

/-- The first snapshot's writer had a clock ahead of the second's. -/
def skewed : Catalog := endedFile (fun i => if i = 2 then 10 else 100 * i) []

/-- The first run expires the second snapshot, where the file ended; the first snapshot still reads
    it. The second run expires that one, and nothing looks at the file again. -/
theorem skewed_clocks_leak : EndsPresent skewed ∧
    ¬ NoLeak (deletedIn (runCommits skewed (fun _ => []) (fun _ => .runs) [runUntil 50, runUntil 150]))
      (afterRuns skewed [50, 150]) := by
  refine ⟨⟨by simp [skewed, endedFile, Table.keys, Keyed.key], by simp [skewed, endedFile]⟩, ?_⟩
  intro h
  have hfile : (⟨7, 1, 1, some 2, "a.parquet", true, none, none, none⟩ : DataFile) ∈
      (afterRuns skewed [50, 150]).dataFiles.rows := by decide +kernel
  have hdeleted : 2 ∈ deletedIn (runCommits skewed (fun _ => []) (fun _ => .runs)
      [runUntil 50, runUntil 150]) := by decide +kernel
  have hnone : ∀ s ∈ (afterRuns skewed [50, 150]).snapshots.rows,
      ¬ (1 ≤ s.snapshotId ∧ s.snapshotId < 2) := by decide +kernel
  obtain ⟨s, hs, hread⟩ := h.data _ hfile 2 hdeleted rfl
  exact hnone s hs hread

end Millpond.Maintenance
