import Millpond.Maintenance.DropGuards
import Mathlib.Data.List.Perm.Basic
import Mathlib.Algebra.BigOperators.Group.List.Basic
import Mathlib.Algebra.Order.Ring.Int

set_option autoImplicit false

/-! # The stats of a table under leaf drops

Drops that are retried after any error, and whose `COMMIT` may land unacknowledged, against writers
that keep the stats of every table equal to its live files. What carries the argument is that the
decrement is relative and that the rows a drop ended stay locked until it commits. -/

namespace Millpond.Maintenance

open Prog ReadCommitted

/-! ## Stats that agree -/

/-- The live files of a table. -/
def Catalog.liveFiles (c : Catalog) (tableId : ℕ) : List DataFile :=
  c.dataFiles.rows.filter fun f => f.tableId = tableId ∧ f.endSnapshot = none

/-- A stats row says what the live files of its table add up to. -/
structure TableStats.Agrees (r : TableStats) (c : Catalog) : Prop where
  recordCount : r.recordCount = sumOf DataFile.recordCount (c.liveFiles r.tableId)
  fileSizeBytes : r.fileSizeBytes = sumOf DataFile.fileSizeBytes (c.liveFiles r.tableId)

def StatsAgree (c : Catalog) : Prop := ∀ r ∈ c.tableStats, r.Agrees c

/-- The tables whose stats the writes decrement. -/
def decrementedIn (own : List Write) : List ℕ :=
  own.filterMap fun
    | .decrementStats tableId _ _ => some tableId
    | _ => none

/-- What other writers do to a catalog while `own` is held: they keep the stats in agreement, they
    only take from `members`, and they stay off the rows that `own` locks and the snapshot id it
    took. -/
structure Respects (members : List ℕ) (own : List Write) (c c' : Catalog) : Prop where
  agree : StatsAgree c → StatsAgree c'
  shrink : ∀ f ∈ c'.dataFiles.rows, f.dataFileId ∈ members → f.endSnapshot = none →
    f ∈ c.dataFiles.rows
  fileRows : ∀ f ∈ c.dataFiles.rows, f.dataFileId ∈ endedIn own → f ∈ c'.dataFiles.rows
  statsRows : ∀ tableId ∈ decrementedIn own,
    c'.tableStats.filter (·.tableId = tableId) = c.tableStats.filter (·.tableId = tableId)
  snapshotId : ∀ i ∈ heldSnapshots own, i ∉ c.snapshots.keys → i ∉ c'.snapshots.keys

/-- The live rows of a leaf belong to its table. -/
def LeafDrop.Of (d : LeafDrop) (c : Catalog) : Prop :=
  ∀ f ∈ c.dataFiles.rows, f.dataFileId ∈ d.ids → f.endSnapshot = none → f.tableId = d.tableId

/-! ## Sums over files -/

theorem sumOf_perm {count : DataFile → Option ℤ} {files files' : List DataFile}
    (h : files.Perm files') : sumOf count files = sumOf count files' := (h.map _).sum_eq

@[simp] theorem sumOf_append (count : DataFile → Option ℤ) (files files' : List DataFile) :
    sumOf count (files ++ files') = sumOf count files + sumOf count files' := by
  simp [sumOf]

/-- A sum splits along a filter. -/
theorem sumOf_filter_add (count : DataFile → Option ℤ) (files : List DataFile)
    (p : DataFile → Bool) :
    sumOf count (files.filter p) + sumOf count (files.filter fun f => !p f) = sumOf count files := by
  rw [← sumOf_append]
  exact sumOf_perm (List.filter_append_perm p files)

/-! ## One drop -/

/-- The writes of a drop of `ended` under the snapshot `row`. -/
def dropWrites (d : LeafDrop) (row : SnapshotRow) (ended : List DataFile) : List Write :=
  [.insertSnapshot row, .endDataFiles (ended.map DataFile.dataFileId) row.snapshotId,
    .decrementStats d.tableId (sumOf DataFile.recordCount ended)
      (sumOf DataFile.fileSizeBytes ended),
    .insertChange (conflictToken d row.snapshotId)]

/-- What holds where a drop commits. -/
structure IsDrop (d : LeafDrop) (row : SnapshotRow) (ended : List DataFile) (before : Catalog) :
    Prop where
  present : ∀ f ∈ ended, f ∈ before.dataFiles.rows
  members : ∀ f ∈ ended, f.dataFileId ∈ d.ids
  live : ∀ f ∈ ended, f.endSnapshot = none
  table : ∀ f ∈ ended, f.tableId = d.tableId
  once : ended.Nodup
  decrements : ∀ r ∈ before.tableStats, r.tableId = d.tableId →
    r.decrementable d.tableId (sumOf DataFile.recordCount ended)
      (sumOf DataFile.fileSizeBytes ended) = true
  fresh : row.snapshotId ∉ before.snapshots.keys

variable {d : LeafDrop} {row : SnapshotRow} {ended : List DataFile} {c before : Catalog}

/-- A row with an ended file's id is that file. -/
theorem IsDrop.eq_of_id (h : IsDrop d row ended before) {f : DataFile}
    (hf : f ∈ before.dataFiles.rows) (hid : f.dataFileId ∈ ended.map DataFile.dataFileId) :
    f ∈ ended := by
  obtain ⟨g, hg, hgid⟩ := List.mem_map.1 hid
  have heq : g = f := Table.eq_of_key (h.present g hg) hf hgid
  exact heq ▸ hg

/-- Under the ids of the ended files are the ended files. -/
theorem IsDrop.filter_perm (h : IsDrop d row ended before) :
    (before.dataFiles.rows.filter fun f => f.dataFileId ∈ ended.map DataFile.dataFileId).Perm
      ended := by
  refine (List.perm_ext_iff_of_nodup (before.dataFiles.rows_nodup.filter _) h.once).2 fun f => ?_
  rw [List.mem_filter, decide_eq_true_eq]
  constructor
  · intro ⟨hf, hid⟩
    exact h.eq_of_id hf hid
  · intro hf
    exact ⟨h.present f hf, List.mem_map_of_mem hf⟩

/-- The live files after a drop: those before it that it did not end. -/
theorem liveFiles_drop (d : LeafDrop) (row : SnapshotRow) (ended : List DataFile)
    (before : Catalog) (tableId : ℕ) :
    (overlay (dropWrites d row ended) before).liveFiles tableId =
      (before.liveFiles tableId).filter
        fun f => !decide (f.dataFileId ∈ ended.map DataFile.dataFileId) := by
  have hrows : (overlay (dropWrites d row ended) before).dataFiles = before.dataFiles.update
      (·.ended (ended.map DataFile.dataFileId) row.snapshotId) (ended_key _ _) := rfl
  unfold Catalog.liveFiles
  rw [hrows, List.filter_filter]
  refine Table.filter_update (fun f _ => ?_) (fun f _ hf => ?_)
  · unfold DataFile.ended
    by_cases hid : f.dataFileId ∈ ended.map DataFile.dataFileId
    · simp [hid]
    · simp [hid]
  · unfold DataFile.ended
    simp only [Bool.and_eq_true, Bool.not_eq_true', decide_eq_false_iff_not] at hf
    rw [if_neg hf.1]

/-- What a drop takes from the live files of a table. -/
theorem sumOf_liveFiles_drop (h : IsDrop d row ended before) (count : DataFile → Option ℤ)
    (tableId : ℕ) :
    sumOf count ((overlay (dropWrites d row ended) before).liveFiles tableId) =
      sumOf count (before.liveFiles tableId) -
        if tableId = d.tableId then sumOf count ended else 0 := by
  have hsplit := sumOf_filter_add count (before.liveFiles tableId)
    fun f => decide (f.dataFileId ∈ ended.map DataFile.dataFileId)
  rw [liveFiles_drop, ← hsplit]
  have htaken : sumOf count ((before.liveFiles tableId).filter fun f =>
      decide (f.dataFileId ∈ ended.map DataFile.dataFileId)) =
      if tableId = d.tableId then sumOf count ended else 0 := by
    split
    · next htable =>
        have hsame : (before.liveFiles tableId).filter (fun f =>
            decide (f.dataFileId ∈ ended.map DataFile.dataFileId)) =
            before.dataFiles.rows.filter fun f =>
              f.dataFileId ∈ ended.map DataFile.dataFileId := by
          unfold Catalog.liveFiles
          rw [List.filter_filter]
          refine List.filter_congr fun f hf => ?_
          by_cases hid : f.dataFileId ∈ ended.map DataFile.dataFileId
          · have hmem := h.eq_of_id hf hid
            simp [hid, h.live f hmem, h.table f hmem, htable]
          · simp [hid]
        rw [hsame]
        exact sumOf_perm h.filter_perm
    · next htable =>
        have hnil : (before.liveFiles tableId).filter (fun f =>
            decide (f.dataFileId ∈ ended.map DataFile.dataFileId)) = [] := by
          rw [List.filter_eq_nil_iff]
          intro f hf hid
          obtain ⟨hrow, hlive⟩ := List.mem_filter.1 hf
          have hmem := h.eq_of_id hrow (of_decide_eq_true hid)
          simp only [Bool.decide_and, Bool.and_eq_true, decide_eq_true_eq] at hlive
          exact htable (hlive.1.symm.trans (h.table f hmem))
        rw [hnil]
        rfl
  rw [htaken]
  omega

/-- The relative decrement is what the drop took. -/
theorem statsAgree_drop (h : IsDrop d row ended before) (hagree : StatsAgree before) :
    StatsAgree (overlay (dropWrites d row ended) before) := by
  have hstats : (overlay (dropWrites d row ended) before).tableStats = before.tableStats.map
      (·.decremented d.tableId (sumOf DataFile.recordCount ended)
        (sumOf DataFile.fileSizeBytes ended)) := rfl
  intro r' hr'
  rw [hstats] at hr'
  obtain ⟨r, hr, rfl⟩ := List.mem_map.1 hr'
  have hbefore := hagree r hr
  by_cases htable : r.tableId = d.tableId
  · have hdecremented : r.decremented d.tableId (sumOf DataFile.recordCount ended)
        (sumOf DataFile.fileSizeBytes ended) =
        { r with
          recordCount := r.recordCount - sumOf DataFile.recordCount ended
          fileSizeBytes := r.fileSizeBytes - sumOf DataFile.fileSizeBytes ended } := by
      unfold TableStats.decremented
      rw [if_pos (h.decrements r hr htable)]
    rw [hdecremented]
    constructor
    · rw [sumOf_liveFiles_drop h, if_pos htable, hbefore.recordCount]
    · rw [sumOf_liveFiles_drop h, if_pos htable, hbefore.fileSizeBytes]
  · have hdecremented : r.decremented d.tableId (sumOf DataFile.recordCount ended)
        (sumOf DataFile.fileSizeBytes ended) = r := by
      unfold TableStats.decremented
      rw [if_neg]
      simp [TableStats.decrementable, htable]
    rw [hdecremented]
    constructor
    · rw [sumOf_liveFiles_drop h, if_neg htable, hbefore.recordCount, sub_zero]
    · rw [sumOf_liveFiles_drop h, if_neg htable, hbefore.fileSizeBytes, sub_zero]

/-! ## A drop among the others -/

variable {members : List ℕ} {start : Catalog} {r : DropRun}

theorem writes_eq_dropWrites (d : LeafDrop) (r : DropRun) :
    r.writes d = dropWrites d (forgedSnapshot r.base r.clock) (r.ended d) := rfl

/-- The others keep the rows of a leaf in its table. -/
theorem of_respects (hmembers : d.ids ⊆ members) {own : List Write} {c c' : Catalog}
    (h : d.Of c) (hr : Respects members own c c') : d.Of c' := by
  intro f hf hid hlive
  exact h f (hr.shrink f hf (hmembers hid) hlive) hid hlive

/-- In agreement, the rows of one table say the same. -/
theorem decrementable_of_one (hagree : StatsAgree c) {rows bytes : ℤ}
    (hone : (c.tableStats.filter (·.decrementable d.tableId rows bytes)).length = 1)
    {r : TableStats} (hr : r ∈ c.tableStats) (htable : r.tableId = d.tableId) :
    r.decrementable d.tableId rows bytes = true := by
  obtain ⟨r₀, hr₀⟩ := List.length_eq_one_iff.1 hone
  have hmem : r₀ ∈ c.tableStats.filter (·.decrementable d.tableId rows bytes) := by
    rw [hr₀]
    exact List.mem_singleton.2 rfl
  obtain ⟨hrow, hdec⟩ := List.mem_filter.1 hmem
  have htable₀ : r₀.tableId = d.tableId := by
    simp only [TableStats.decrementable, decide_eq_true_eq] at hdec
    exact hdec.1
  have hcount : r.recordCount = r₀.recordCount := by
    rw [(hagree r hr).recordCount, (hagree r₀ hrow).recordCount, htable, htable₀]
  have hbytes : r.fileSizeBytes = r₀.fileSizeBytes := by
    rw [(hagree r hr).fileSizeBytes, (hagree r₀ hrow).fileSizeBytes, htable, htable₀]
  unfold TableStats.decrementable at hdec ⊢
  rw [htable₀] at hdec
  rw [htable, hcount, hbytes]
  exact hdec

/-- A drop that reaches its `COMMIT` commits onto a catalog where its writes are right. -/
theorem isDrop_of_holds (h : r.Holds (Respects members) d start) (hmembers : d.ids ⊆ members)
    (hagree : StatsAgree start) (hof : d.Of start)
    (hlast : Respects members (r.writes d) r.changed before) :
    IsDrop d (forgedSnapshot r.base r.clock) (r.ended d) before := by
  have hofUpdated : d.Of r.updated :=
    drift_invariant (I := d.Of) (fun _ _ _ hc hr => of_respects hmembers hc hr) h.drift_updated hof
  have hagreeDecremented : StatsAgree r.decremented :=
    drift_invariant (I := StatsAgree) (fun _ _ _ hc hr => hr.agree hc) h.drift_decremented hagree
  have hended : ∀ f ∈ r.ended d, f ∈ r.updated.dataFiles.rows ∧ f.dataFileId ∈ d.ids ∧
      f.endSnapshot = none := by
    intro f hf
    obtain ⟨hrow, hendable⟩ := List.mem_filter.1 hf
    simp only [LeafDrop.endable, decide_eq_true_eq] at hendable
    exact ⟨hrow, hendable.1, hendable.2.1⟩
  constructor
  · -- the ended rows stay locked
    intro f hf
    refine h.keep_updated (I := fun c => f ∈ c.dataFiles.rows) (fun own c c' hown hr hc => ?_) hlast
      (hended f hf).1
    exact hr.fileRows f hc (endedIds_subset_endedIn hown (List.mem_map_of_mem hf))
  · exact fun f hf => (hended f hf).2.1
  · exact fun f hf => (hended f hf).2.2
  · exact fun f hf => hofUpdated f (hended f hf).1 (hended f hf).2.1 (hended f hf).2.2
  · exact r.updated.dataFiles.rows_nodup.filter _
  · -- and so do the stats rows, from the decrement on
    intro stats hstats htable
    have hheld : d.tableId ∈ decrementedIn (r.statsWrites d) := by
      simp [decrementedIn, DropRun.statsWrites]
    have hheld' : d.tableId ∈ decrementedIn (r.writes d) := by
      simp [decrementedIn, DropRun.writes, DropRun.statsWrites]
    have hsame := (hlast.statsRows _ hheld').trans (h.toChanged.statsRows _ hheld)
    have hmem : stats ∈ before.tableStats.filter (·.tableId = d.tableId) :=
      List.mem_filter.2 ⟨hstats, decide_eq_true htable⟩
    rw [hsame] at hmem
    exact decrementable_of_one hagreeDecremented h.oneRow (List.mem_filter.1 hmem).1 htable
  · -- the id was free at the `INSERT`, and nobody else gets it
    refine h.keep_updated (I := fun c => r.snap ∉ c.snapshots.keys) (fun own c c' hown hr hc => ?_)
      hlast ?_
    · have hprefix : r.insertWrites <+: own := (List.prefix_append _ _).trans hown
      exact hr.snapshotId _ (snap_mem_heldSnapshots hprefix) hc
    · exact h.toUpdated.snapshotId _ (snap_mem_heldSnapshots (List.prefix_refl _)) h.fresh

/-! ## Runs of drops -/

/-- The calls of a run: a leaf, what the world answers, and whether to check the isolation level. -/
abbrev DropCalls := List (LeafDrop × DropServer × Bool)

/-- The files that any of the calls may end. -/
def memberIds (calls : DropCalls) : List ℕ := calls.flatMap fun call => call.1.ids

/-- A commit of a run is the drop of one of its leaves. -/
def DropOf (calls : DropCalls) (own : List Write) (before : Catalog) : Prop :=
  ∃ call ∈ calls, ∃ row ended, own = dropWrites call.1 row ended ∧ IsDrop call.1 row ended before

/-- What holds between the drops of a run. -/
structure Ready (calls : DropCalls) (c : Catalog) : Prop where
  agree : StatsAgree c
  leaves : ∀ call ∈ calls, call.1.Of c

theorem ids_subset_memberIds {calls : DropCalls} {call : LeafDrop × DropServer × Bool}
    (h : call ∈ calls) : call.1.ids ⊆ memberIds calls :=
  fun _ hid => List.mem_flatMap.2 ⟨call, h, hid⟩

/-- A row after a drop: as before it, or ended. -/
theorem row_after_drop {f : DataFile}
    (hf : f ∈ (overlay (dropWrites d row ended) before).dataFiles.rows) :
    (f ∈ before.dataFiles.rows ∧ f.dataFileId ∉ ended.map DataFile.dataFileId) ∨
      f.endSnapshot = some row.snapshotId := by
  have hrows : (overlay (dropWrites d row ended) before).dataFiles = before.dataFiles.update
      (·.ended (ended.map DataFile.dataFileId) row.snapshotId) (ended_key _ _) := rfl
  rw [hrows, Table.mem_update] at hf
  obtain ⟨g, hg, rfl⟩ := hf
  unfold DataFile.ended
  by_cases hid : g.dataFileId ∈ ended.map DataFile.dataFileId
  · rw [if_pos hid]
    exact Or.inr rfl
  · rw [if_neg hid]
    exact Or.inl ⟨hg, hid⟩

theorem keeps_ready (calls : DropCalls) :
    Keeps (Respects (memberIds calls)) (DropOf calls) (Ready calls) := by
  constructor
  · intro own c c' hready hr
    exact ⟨hr.agree hready.agree, fun call hcall =>
      of_respects (ids_subset_memberIds hcall) (hready.leaves call hcall) hr⟩
  · intro own c hready hdrop
    obtain ⟨call, _, row, ended, rfl, hisDrop⟩ := hdrop
    refine ⟨statsAgree_drop hisDrop hready.agree, fun other hother f hf hid hlive => ?_⟩
    rcases row_after_drop hf with ⟨hrow, -⟩ | hended
    · exact hready.leaves other hother f hrow hid hlive
    · rw [hended] at hlive
      exact absurd hlive (by simp)

section Runs

variable {calls : DropCalls} {call : LeafDrop × DropServer × Bool}

theorem outside_dropLeafTxn (hcall : call ∈ calls) (isolation : String) (clock : ℤ)
    (check : Bool) :
    Outside (Respects (memberIds calls)) (DropOf calls) (Ready calls)
      (dropLeafTxn call.1 isolation clock check) := by
  refine outside_transaction (inside_dropLeafStatements _ _ _ _) fun s hw hown hready => ?_
  refine wp_mono (dropLeafStatements_run hw hown call.1 isolation clock check) (fun _ t h => ?_)
    (fun _ _ _ => trivial)
  obtain ⟨r, hholds, -, hwithin, howns, hchanged⟩ := h
  have hlast : Respects (memberIds calls) (r.writes call.1) r.changed t.next := by
    rw [← howns, ← hchanged]
    exact within_next hwithin
  rw [howns]
  exact ⟨call, hcall, _, _, writes_eq_dropWrites call.1 r, isDrop_of_holds hholds
    (ids_subset_memberIds hcall) hready.agree (hready.leaves call hcall) hlast⟩

theorem outside_releaseLock :
    Outside (Respects (memberIds calls)) (DropOf calls) (Ready calls) releaseLock := by
  unfold releaseLock
  exact outside_tryCatch_keeps (keeps_ready calls) (outside_query _ _) fun _ => outside_pure _

theorem outside_reconnect (closed : Bool) :
    Outside (Respects (memberIds calls)) (DropOf calls) (Ready calls) (reconnect closed) :=
  .ite (outside_query _ _) (outside_pure _)

theorem outside_lockRefresh (acquired : Bool) :
    Outside (Respects (memberIds calls)) (DropOf calls) (Ready calls) (lockRefresh acquired) := by
  unfold lockRefresh
  refine outside_bind_keeps (keeps_ready calls) (outside_query _ _) fun _ => ?_
  exact outside_bind_keeps (keeps_ready calls) (outside_query _ _) fun _ =>
    .ite (outside_pure _) (outside_throw _)

theorem outside_dropAttempt (hcall : call ∈ calls) (server : DropServer) (attempt : ℕ)
    (check : Bool) :
    Outside (Respects (memberIds calls)) (DropOf calls) (Ready calls)
      (dropAttempt call.1 server attempt check) := by
  have hkeeps := keeps_ready calls
  unfold dropAttempt
  refine outside_bind_keeps hkeeps (outside_tryCatch_keeps hkeeps ?_ fun e => ?_) fun result => ?_
  · refine outside_bind_keeps hkeeps (outside_reconnect _) fun _ => ?_
    refine outside_bind_keeps hkeeps (outside_lockRefresh _) fun _ => ?_
    exact outside_bind_keeps hkeeps (outside_dropLeafTxn hcall _ _ _) fun _ => outside_pure _
  · exact outside_bind_keeps hkeeps outside_releaseLock fun _ => outside_throw _
  · exact outside_bind_keeps hkeeps outside_releaseLock fun _ => outside_pure _

theorem outside_dropAttempts (hcall : call ∈ calls) (server : DropServer) (left : ℕ) :
    ∀ (attempt lockAttempts : ℕ) (check : Bool),
      Outside (Respects (memberIds calls)) (DropOf calls) (Ready calls)
        (dropAttempts call.1 server left attempt lockAttempts check) := by
  induction left with
  | zero => exact fun _ _ _ => outside_throw _
  | succ left ih =>
      intro attempt lockAttempts check
      unfold dropAttempts
      refine .ite (outside_throw _) ?_
      refine outside_tryCatch_keeps (keeps_ready calls) (outside_dropAttempt hcall _ _ _) fun e => ?_
      cases e with
      | abort reason => exact outside_throw _
      | skip reason => exact outside_throw _
      | lockContended => exact .ite (outside_throw _) (ih _ _ _)
      | pg e => exact .ite (ih _ _ _) (outside_throw _)

theorem outside_dropLeaves (rest : DropCalls) (hrest : rest ⊆ calls) :
    Outside (Respects (memberIds calls)) (DropOf calls) (Ready calls) (dropLeaves rest) := by
  induction rest with
  | nil => exact outside_pure _
  | cons call rest ih =>
      obtain ⟨d, server, check⟩ := call
      have hcall : (d, server, check) ∈ calls := hrest List.mem_cons_self
      have hkeeps := keeps_ready calls
      unfold dropLeaves
      refine outside_bind_keeps hkeeps (outside_tryCatch_keeps hkeeps ?_ fun _ => outside_pure _)
        fun _ => ih fun call hmem => hrest (List.mem_cons_of_mem _ hmem)
      exact outside_map (outside_dropAttempts hcall server _ _ _ _)

end Runs

/-! ## Accounts -/

/-- The rows the writes take off the stats. -/
def rowsTaken (own : List Write) : ℤ :=
  (own.map fun
    | .decrementStats _ rows _ => rows
    | _ => 0).sum

/-- The bytes the writes take off the stats. -/
def bytesTaken (own : List Write) : ℤ :=
  (own.map fun
    | .decrementStats _ _ bytes => bytes
    | _ => 0).sum

/-- The files a commit ended, as they were before it. -/
def endedFiles (entry : List Write × Catalog) : List DataFile :=
  entry.2.dataFiles.rows.filter fun f => f.dataFileId ∈ endedIn entry.1

/-- All ids the commits ended. -/
def endedIds (entries : List (List Write × Catalog)) : List ℕ :=
  entries.flatMap fun entry => endedIn entry.1

/-- The commit left its snapshot with the conflict token of one of the leaves. -/
def HasToken (calls : DropCalls) (entry : List Write × Catalog) : Prop :=
  ∃ call ∈ calls, ∃ row ∈ (overlay entry.1 entry.2).snapshots.rows,
    Write.insertSnapshot row ∈ entry.1 ∧
      conflictToken call.1 row.snapshotId ∈ (overlay entry.1 entry.2).snapshotChanges

/-- The books of a run: its commits, newest first, and the state they led to. -/
structure Accounts (calls : DropCalls) (entries : List (List Write × Catalog)) (c : Catalog) :
    Prop where
  agree : StatsAgree c
  agreeing : ∀ entry ∈ entries, StatsAgree entry.2 ∧ StatsAgree (overlay entry.1 entry.2)
  once : (endedIds entries).Nodup
  gone : ∀ f ∈ c.dataFiles.rows, f.dataFileId ∈ endedIds entries → f.endSnapshot ≠ none
  members : endedIds entries ⊆ memberIds calls
  rows : (entries.map fun entry => rowsTaken entry.1).sum =
    sumOf DataFile.recordCount (entries.flatMap endedFiles)
  bytes : (entries.map fun entry => bytesTaken entry.1).sum =
    sumOf DataFile.fileSizeBytes (entries.flatMap endedFiles)
  tokens : ∀ entry ∈ entries, HasToken calls entry

theorem endedIn_dropWrites (d : LeafDrop) (row : SnapshotRow) (ended : List DataFile) :
    endedIn (dropWrites d row ended) = ended.map DataFile.dataFileId := by
  simp [endedIn, dropWrites]

theorem hasToken_drop {calls : DropCalls} {call : LeafDrop × DropServer × Bool}
    (hcall : call ∈ calls) (h : IsDrop call.1 row ended before) :
    HasToken calls (dropWrites call.1 row ended, before) := by
  have hsnapshots : (overlay (dropWrites call.1 row ended) before).snapshots =
      before.snapshots.insert row := rfl
  have hchanges : (overlay (dropWrites call.1 row ended) before).snapshotChanges =
      before.snapshotChanges ++ [conflictToken call.1 row.snapshotId] := rfl
  refine ⟨call, hcall, row, ?_, List.mem_cons_self, ?_⟩
  · rw [hsnapshots]
    exact Table.mem_insert_self h.fresh
  · rw [hchanges]
    exact List.mem_append_right _ List.mem_cons_self

theorem accounts_others {calls : DropCalls} {entries : List (List Write × Catalog)}
    {own : List Write} {c c' : Catalog} (h : Accounts calls entries c)
    (hr : Respects (memberIds calls) own c c') : Accounts calls entries c' :=
  { h with
    agree := hr.agree h.agree
    gone := fun f hf hid hlive =>
      h.gone f (hr.shrink f hf (h.members hid) hlive) hid hlive }

/-- A drop ends files that no drop before it ended. -/
theorem accounts_drop {calls : DropCalls} {entries : List (List Write × Catalog)}
    {own : List Write} {c : Catalog} (hdrop : DropOf calls own c) (h : Accounts calls entries c) :
    Accounts calls ((own, c) :: entries) (overlay own c) := by
  obtain ⟨call, hcall, row, ended, rfl, hisDrop⟩ := hdrop
  have hids : endedIds ((dropWrites call.1 row ended, c) :: entries) =
      ended.map DataFile.dataFileId ++ endedIds entries := by
    unfold endedIds
    rw [List.flatMap_cons, endedIn_dropWrites]
  have hfiles : (endedFiles (dropWrites call.1 row ended, c)).Perm ended := by
    unfold endedFiles
    rw [endedIn_dropWrites]
    exact hisDrop.filter_perm
  have hnodup : (ended.map DataFile.dataFileId).Nodup := by
    have hsub : List.Sublist ((c.dataFiles.rows.filter fun f =>
        f.dataFileId ∈ ended.map DataFile.dataFileId).map DataFile.dataFileId)
        (c.dataFiles.rows.map DataFile.dataFileId) := List.filter_sublist.map _
    exact (hisDrop.filter_perm.map _).nodup_iff.1 (hsub.nodup c.dataFiles.once)
  have hagree := statsAgree_drop hisDrop h.agree
  constructor
  · exact hagree
  · exact List.forall_mem_cons.2 ⟨⟨h.agree, hagree⟩, h.agreeing⟩
  · rw [hids]
    refine List.nodup_append.2 ⟨hnodup, h.once, ?_⟩
    rintro id hnew _ hold rfl
    obtain ⟨f, hf, rfl⟩ := List.mem_map.1 hnew
    exact h.gone f (hisDrop.present f hf) hold (hisDrop.live f hf)
  · rw [hids]
    intro f hf hid hlive
    rcases row_after_drop hf with ⟨hrow, hnot⟩ | hended
    · exact h.gone f hrow ((List.mem_append.1 hid).resolve_left hnot) hlive
    · rw [hended] at hlive
      exact absurd hlive (by simp)
  · rw [hids]
    intro id hid
    rcases List.mem_append.1 hid with hnew | hold
    · obtain ⟨f, hf, rfl⟩ := List.mem_map.1 hnew
      exact ids_subset_memberIds hcall (hisDrop.members f hf)
    · exact h.members hold
  · have htaken : rowsTaken (dropWrites call.1 row ended) = sumOf DataFile.recordCount ended := by
      simp [rowsTaken, dropWrites]
    rw [List.map_cons, List.sum_cons, List.flatMap_cons, sumOf_append, h.rows, htaken,
      sumOf_perm hfiles]
  · have htaken : bytesTaken (dropWrites call.1 row ended) =
        sumOf DataFile.fileSizeBytes ended := by
      simp [bytesTaken, dropWrites]
    rw [List.map_cons, List.sum_cons, List.flatMap_cons, sumOf_append, h.bytes, htaken,
      sumOf_perm hfiles]
  · exact List.forall_mem_cons.2 ⟨hasToken_drop hcall hisDrop, h.tokens⟩

/-! ## Selection -/

/-- The leaf was selected from the catalog some time ago. -/
def LeafDrop.Selected (members : List ℕ) (d : LeafDrop) (c : Catalog) : Prop :=
  ∃ tuple earlier, d.leafFiles = selectLeafFiles tuple d.tableId earlier ∧
    Drift (Respects members) earlier c

theorem of_selected {members : List ℕ} (hmembers : d.ids ⊆ members) (h : d.Selected members c) :
    d.Of c := by
  obtain ⟨tuple, earlier, hfiles, hdrift⟩ := h
  refine drift_invariant (I := d.Of) (fun _ _ _ hc hr => of_respects hmembers hc hr) hdrift ?_
  intro f hf hid _
  unfold LeafDrop.ids at hid
  rw [hfiles] at hid
  simp only [selectLeafFiles, List.mem_map, List.mem_insertionSort, List.mem_filter] at hid
  obtain ⟨leafFile, ⟨g, ⟨hg, hselects⟩, rfl⟩, hgid⟩ := hid
  have heq : g = f := Table.eq_of_key hg hf hgid
  subst heq
  simp only [LeafTuple.selects, decide_eq_true_eq] at hselects
  exact hselects.1

/-! ## The attempts that come to nothing -/

/-- An attempt that aborts or skips commits nothing: the catalog is the others'. -/
theorem attempt_undone {R : List Write → Catalog → Catalog → Prop}
    {s : Session Catalog Write PgError DropStatement} (hw : s.Within R) (d : LeafDrop)
    (isolation : String) (clock : ℤ) (check : Bool) :
    wp (dropLeafTxn d isolation clock check) (fun _ _ => True)
      (fun e t => (∀ p, e ≠ .pg p) →
        commits t.seen = commits s.seen ∧ Drift R s.committed t.committed) s := by
  refine wp_transaction (wp_mono (inside_dropLeafStatements d isolation clock check s hw)
    (fun _ t _ => ?_) (fun e t h _ => ?_))
  · -- an error of the `COMMIT` itself is a database error
    exact ⟨trivial, fun p hne => absurd rfl (hne p), fun p hne => absurd rfl (hne p)⟩
  · obtain ⟨added, hseen, hnone⟩ := h.log
    refine ⟨?_, h.drift⟩
    show commits t.seen = commits s.seen
    rw [hseen, commits_append, hnone]
    rfl

/-- **Dropping conserves the stats.** Any number of drops, retried on any errors, against writers
    that keep the stats in agreement and only take from the leaves: the run moves the catalog by its
    commits alone, the stats agree after every one of them and in the end, no file is ended twice,
    the decrements add up to the files the run ended, and each commit has its conflict token. An
    attempt that aborts or skips leaves nothing behind. -/
theorem drop_conserves_stats (calls : DropCalls)
    (s : Session Catalog Write PgError DropStatement)
    (hothers : s.Within (Respects (memberIds calls))) (hown : s.own = [])
    (hagree : StatsAgree s.committed)
    (hselected : ∀ call ∈ calls, call.1.Selected (memberIds calls) s.committed) :
    (∃ added, (final (dropLeaves calls) s).seen = added ++ s.seen ∧
      Evolves (Respects (memberIds calls)) s.committed (commits added)
        (final (dropLeaves calls) s).committed ∧
      Accounts calls (commits added) (final (dropLeaves calls) s).committed) ∧
    ∀ call ∈ calls, ∀ (t : Session Catalog Write PgError DropStatement) (isolation : String)
      (clock : ℤ) (check : Bool), t.Within (Respects (memberIds calls)) →
      wp (dropLeafTxn call.1 isolation clock check) (fun _ _ => True)
        (fun e t' => (∀ p, e ≠ .pg p) → commits t'.seen = commits t.seen ∧
          Drift (Respects (memberIds calls)) t.committed t'.committed) t := by
  have hready : Ready calls s.committed := ⟨hagree, fun call hcall =>
    of_selected (ids_subset_memberIds hcall) (hselected call hcall)⟩
  have hran : Ran (Respects (memberIds calls)) (DropOf calls) s (final (dropLeaves calls) s) :=
    final_of_wp (outside_dropLeaves calls (List.Subset.refl _) s hothers hown hready)
  obtain ⟨added, hseen, hev, hdrops⟩ := hran.log
  have hstart : Accounts calls [] s.committed :=
    ⟨hagree, by simp, List.nodup_nil, by simp [endedIds], by simp [endedIds], by simp [sumOf],
      by simp [sumOf], by simp⟩
  refine ⟨⟨added, hseen, hev, ?_⟩, fun call _ t isolation clock check ht =>
    attempt_undone ht call.1 isolation clock check⟩
  exact hev.invariant (I := Accounts calls) hstart (fun _ _ _ _ h hr => accounts_others h hr)
    fun own before rest hsuffix h =>
      accounts_drop (hdrops (own, before) (hsuffix.subset List.mem_cons_self)) h

theorem respects_refl (members : List ℕ) (own : List Write) (c : Catalog) :
    Respects members own c c :=
  ⟨id, fun _ hf _ _ => hf, fun _ hf _ => hf, fun _ _ => rfl, fun _ _ h => h⟩

/-- The first leaf, by its tuple. -/
def firstLeafTuple : LeafTuple := ⟨2, [(0, "2026")], 1⟩

def firstLeafCalls : DropCalls :=
  [(firstLeaf, ⟨"read committed", fun _ => 0, fun _ => false, fun _ => false, fun _ => true⟩, true)]

/-- The connection is lost when the first attempt commits, after the commit. -/
def lostAcknowledgement : Session Catalog Write PgError DropStatement :=
  { dropSession (twoFiles [some 5]) (fun _ => []) (fun n =>
      if n = 11 then .unacknowledged ⟨none, true⟩ else .runs) with
    others := fun _ _ c => c }

theorem lostAcknowledgement_conserves :
    ∃ added, (final (dropLeaves firstLeafCalls) lostAcknowledgement).seen =
        added ++ lostAcknowledgement.seen ∧
      Evolves (Respects (memberIds firstLeafCalls)) lostAcknowledgement.committed (commits added)
        (final (dropLeaves firstLeafCalls) lostAcknowledgement).committed ∧
      Accounts firstLeafCalls (commits added)
        (final (dropLeaves firstLeafCalls) lostAcknowledgement).committed :=
  (drop_conserves_stats firstLeafCalls lostAcknowledgement (fun _ own c => respects_refl _ own c) rfl
    (by
      intro r hr
      have hr : r = ⟨1, 10, 100⟩ := List.mem_singleton.1 hr
      subst hr
      exact ⟨by decide, by decide⟩)
    (by
      intro call hcall
      have hcall : call = _ := List.mem_singleton.1 hcall
      subst hcall
      exact ⟨firstLeafTuple, twoFiles [some 5], by decide +kernel, .refl⟩)).1

/-- The retry finds the file ended and takes nothing more. -/
example : endedIds (commits (final (dropLeaves firstLeafCalls) lostAcknowledgement).seen) = [7] ∧
    (final (dropLeaves firstLeafCalls) lostAcknowledgement).committed.tableStats = [⟨1, 6, 60⟩] := by
  decide +kernel

end Millpond.Maintenance
