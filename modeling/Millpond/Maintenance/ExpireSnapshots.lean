import Millpond.Maintenance.Catalog
import Mathlib.Data.List.Sort

set_option autoImplicit false

/-! # Expiring snapshots

`expire_snapshots`: batches of expired snapshot ids in ascending order, never the newest. One
transaction for each batch queues the paths of the dead files, deletes their rows and deletes the
snapshots. The two `SET LOCAL` statements, counts that are only logged and the log itself are left
out. -/

namespace Millpond.Maintenance

open Prog ReadCommitted

/-! ## The statements -/

/-- A database error: its sqlstate, and whether the connection is at fault. -/
structure PgError where
  sqlstate : Option String
  connection : Bool
deriving DecidableEq, Repr

inductive ExpireError where
  | lockHeld
  | negativeLimit
  | pg (e : PgError)
deriving DecidableEq, Repr

instance : Raises PgError ExpireError := ⟨ExpireError.pg⟩

/-- The statements of a run. -/
inductive ExpireStatement where
  | advisoryLock
  | cutoff
  | dryRunCount
  | batchSelect
  | deadData
  | deadDeleteVectors
  | queueData
  | queueDeleteVectors
  | columnStats
  | partitionValues
  | variantStats
  | dataFiles
  | deleteFiles
  | snapshotChanges
  | snapshots
deriving DecidableEq, Repr

abbrev ExpireM := EStateM ExpireError (Session Catalog Write PgError ExpireStatement)

/-- The snapshots older than the cutoff, the head guard applied. -/
def Catalog.expired (cutoff : ℤ) (c : Catalog) : List ℕ :=
  (c.snapshots.rows.filter fun s =>
    s.snapshotTime < cutoff ∧ c.newest.map SnapshotRow.snapshotId ≠ some s.snapshotId).map
      SnapshotRow.snapshotId

/-- `batch_select`: the lowest of them. -/
def batchSelect (cutoff : ℤ) (batchSize : ℕ) (c : Catalog) : List ℕ :=
  ((c.expired cutoff).insertionSort (· ≤ ·)).take batchSize

/-- A snapshot in `[begin, end)` that is not in the batch. -/
def Catalog.bridged (ids : List ℕ) (c : Catalog) (beginSnapshot endSnapshot : ℕ) : Bool :=
  c.snapshots.rows.any fun live =>
    beginSnapshot ≤ live.snapshotId ∧ live.snapshotId < endSnapshot ∧ live.snapshotId ∉ ids

/-- `_dead_where`; a NULL `end_snapshot` is in no batch. -/
def deadWhere (ids : List ℕ) (c : Catalog) (beginSnapshot : ℕ) : Option ℕ → Bool
  | none => false
  | some endSnapshot => endSnapshot ∈ ids ∧ ¬ c.bridged ids beginSnapshot endSnapshot

def DataFile.dead (ids : List ℕ) (c : Catalog) (f : DataFile) : Bool :=
  deadWhere ids c f.beginSnapshot f.endSnapshot

def DeleteFile.dead (ids : List ℕ) (c : Catalog) (f : DeleteFile) : Bool :=
  deadWhere ids c f.beginSnapshot f.endSnapshot

def DataFile.scheduled (f : DataFile) : Scheduled := ⟨f.dataFileId, f.path, f.pathIsRelative⟩

/-- A delete vector is queued under its own file id. -/
def DeleteFile.scheduled (f : DeleteFile) : Scheduled := ⟨f.deleteFileId, f.path, f.pathIsRelative⟩

/-- `_expire_dead_data`. -/
def expireDeadData (ids : List ℕ) (c : Catalog) : List Scheduled :=
  (c.dataFiles.rows.filter (·.dead ids c)).map DataFile.scheduled

/-- `_expire_dead_dv`. -/
def expireDeadDv (ids : List ℕ) (c : Catalog) : List Scheduled :=
  (c.deleteFiles.rows.filter (·.dead ids c)).map DeleteFile.scheduled

/-- The rows whose file id is not in the queue yet. -/
def unscheduled (dead : List Scheduled) (c : Catalog) : List Scheduled :=
  dead.filter fun d => d.dataFileId ∉ c.filesScheduledForDeletion.map Scheduled.dataFileId

/-! ## The runs -/

/-- The transaction of one batch. -/
def expireBatch (ids : List ℕ) : ExpireM PUnit := do
  let data ← query .deadData (expireDeadData ids)
  let vectors ← query .deadDeleteVectors (expireDeadDv ids)
  statement .queueData fun c => .ok (⟨⟩, [.schedule (unscheduled data c)])
  statement .queueDeleteVectors fun c => .ok (⟨⟩, [.schedule (unscheduled vectors c)])
  statement .columnStats fun _ => .ok (⟨⟩, [.deleteColumnStats (data.map Scheduled.dataFileId)])
  statement .partitionValues fun _ =>
    .ok (⟨⟩, [.deletePartitionValues (data.map Scheduled.dataFileId)])
  statement .variantStats fun _ => .ok (⟨⟩, [.deleteVariantStats (data.map Scheduled.dataFileId)])
  statement .dataFiles fun _ => .ok (⟨⟩, [.deleteDataFiles (data.map Scheduled.dataFileId)])
  statement .deleteFiles fun _ => .ok (⟨⟩, [.deleteDeleteFiles (vectors.map Scheduled.dataFileId)])
  statement .snapshotChanges fun _ => .ok (⟨⟩, [.deleteChanges ids])
  statement .snapshots fun _ => .ok (⟨⟩, [.deleteSnapshots ids])

/-- The batch loop, at most `fuel` iterations of it. -/
def expireLoop (cutoff : ℤ) (batchSize : ℤ) (numBatches : Option ℤ) : (fuel batchNum : ℕ) → ExpireM PUnit
  | 0, _ => pure ⟨⟩
  | fuel + 1, batchNum =>
      if batchSize < 0 then throw .negativeLimit
      else do
        let ids ← query .batchSelect (batchSelect cutoff batchSize.toNat)
        if ids.isEmpty then pure ⟨⟩
        else if numBatches.any fun n => decide (n ≤ (batchNum : ℤ)) then pure ⟨⟩
        else do
          transaction (expireBatch ids)
          expireLoop cutoff batchSize numBatches fuel (batchNum + 1)

/-- The arguments of one run, with what the server answers to the lock and to `NOW()`. -/
structure ExpireRun where
  days : ℤ
  batchSize : ℤ
  numBatches : Option ℤ
  dryRun : Bool
  lockAcquired : Bool
  now : ℤ

/-- `NOW() - INTERVAL '{days} days'`. -/
def ExpireRun.cutoff (run : ExpireRun) : ℤ := run.now - run.days * 86400000000

/-- `expire_snapshots`. -/
def expireSnapshots (run : ExpireRun) (fuel : ℕ) : ExpireM PUnit := do
  let held ← query .advisoryLock fun _ => run.lockAcquired
  if !held then throw .lockHeld
  else do
    let cutoff ← query .cutoff fun _ => run.cutoff
    if run.dryRun then do
      let _ ← query .dryRunCount fun c => (c.expired cutoff).length
      pure ⟨⟩
    else expireLoop cutoff run.batchSize run.numBatches fuel 0

/-- Any number of runs, each of which may end with an exception. -/
def expireRuns : List (ExpireRun × ℕ) → ExpireM PUnit
  | [] => pure ⟨⟩
  | (run, fuel) :: rest => do
      tryCatch (expireSnapshots run fuel) fun _ => pure ⟨⟩
      expireRuns rest

/-! ## The other sessions -/

/-- A commit lands if its snapshot is above the present ones. -/
def landAbove (c : Catalog) (k : Commit) : Catalog := if k.Above c then k.apply c else c

/-- Others that only add snapshots above the current maximum. -/
def AddsAbove (_ : List Write) (c c' : Catalog) : Prop :=
  ∃ ks : List Commit, c' = ks.foldl landAbove c

/-- A session on a catalog, with the commits of the others before each of its statements. -/
def expireSession (c : Catalog) (schedule : ℕ → List Commit) (fates : ℕ → Fate PgError) :
    Session Catalog Write PgError ExpireStatement where
  committed := c
  own := []
  others n _ c := (schedule n).foldl landAbove c
  fates := fates
  clock := 0
  seen := []

theorem expireSession_within (c : Catalog) (schedule : ℕ → List Commit) (fates : ℕ → Fate PgError) :
    (expireSession c schedule fates).Within AddsAbove :=
  fun n _ _ => ⟨schedule n, rfl⟩

/-- What every commit above the maximum keeps, the others keep. -/
theorem addsAbove_invariant {I : Catalog → Prop} (hI : ∀ c (k : Commit), k.Above c → I c → I (k.apply c))
    {own : List Write} {c c' : Catalog} (h : AddsAbove own c c') (hc : I c) : I c' := by
  obtain ⟨ks, rfl⟩ := h
  induction ks generalizing c with
  | nil => exact hc
  | cons k rest ih =>
      refine ih ?_
      unfold landAbove
      split
      · next habove => exact hI c k habove hc
      · exact hc

/-! ## What a batch depends on does not move -/

/-- The ids of a batch are present and below a snapshot that stays. -/
structure BatchIn (ids : List ℕ) (c : Catalog) : Prop where
  present : ∀ i ∈ ids, i ∈ c.snapshots.keys
  spared : ∃ s ∈ c.snapshots.rows, ∀ i ∈ ids, i < s.snapshotId

theorem mem_expired {cutoff : ℤ} {c : Catalog} {i : ℕ} : i ∈ c.expired cutoff ↔
    ∃ s ∈ c.snapshots.rows, (s.snapshotTime < cutoff ∧
      c.newest.map SnapshotRow.snapshotId ≠ some s.snapshotId) ∧ s.snapshotId = i := by
  simp only [Catalog.expired, List.mem_map, List.mem_filter, decide_eq_true_eq, and_assoc]

theorem mem_of_mem_batchSelect {cutoff : ℤ} {batchSize : ℕ} {c : Catalog} {i : ℕ}
    (h : i ∈ batchSelect cutoff batchSize c) : i ∈ c.expired cutoff :=
  (List.mem_insertionSort _).1 (List.mem_of_mem_take h)

/-- The select takes ids that are present, and not the newest. -/
theorem batchSelect_batchIn (cutoff : ℤ) (batchSize : ℕ) (c : Catalog)
    (h : batchSelect cutoff batchSize c ≠ []) : BatchIn (batchSelect cutoff batchSize c) c := by
  have hex : ∀ i ∈ batchSelect cutoff batchSize c, ∃ s ∈ c.snapshots.rows,
      (s.snapshotTime < cutoff ∧ c.newest.map SnapshotRow.snapshotId ≠ some s.snapshotId) ∧
        s.snapshotId = i := fun i hi => mem_expired.1 (mem_of_mem_batchSelect hi)
  constructor
  · intro i hi
    obtain ⟨s, hs, -, rfl⟩ := hex i hi
    exact Table.mem_keys.2 ⟨s, hs, rfl⟩
  · cases hnewest : c.newest with
    | none =>
        obtain ⟨i, hi⟩ := List.exists_mem_of_ne_nil _ h
        obtain ⟨s, hs, -, -⟩ := hex i hi
        rw [List.argmax_eq_none.1 hnewest] at hs
        exact absurd hs List.not_mem_nil
    | some top =>
        refine ⟨top, List.argmax_mem hnewest, fun i hi => ?_⟩
        obtain ⟨s, hs, ⟨-, hne⟩, rfl⟩ := hex i hi
        have hle := List.le_of_mem_argmax hs hnewest
        rw [hnewest, Option.map_some] at hne
        have hneq : top.snapshotId ≠ s.snapshotId := fun heq => hne (by rw [heq])
        omega

theorem batchIn_apply {ids : List ℕ} {c : Catalog} {k : Commit} (h : BatchIn ids c) :
    BatchIn ids (k.apply c) := by
  constructor
  · intro i hi
    obtain ⟨s, hs, hkey⟩ := Table.mem_keys.1 (h.present i hi)
    exact Table.mem_keys.2 ⟨s, Table.mem_insert_of_mem hs, hkey⟩
  · obtain ⟨s, hs, hlt⟩ := h.spared
    exact ⟨s, Table.mem_insert_of_mem hs, hlt⟩

/-- A snapshot above all others bridges no file that ends in the batch. -/
theorem bridged_apply {ids : List ℕ} {c : Catalog} {k : Commit} (hk : k.Above c) (h : BatchIn ids c)
    {beginSnapshot endSnapshot : ℕ} (hend : endSnapshot ∈ ids) :
    (k.apply c).bridged ids beginSnapshot endSnapshot = c.bridged ids beginSnapshot endSnapshot := by
  obtain ⟨s, hs, hkey⟩ := Table.mem_keys.1 (h.present _ hend)
  have hlt := hk.above s hs
  have hkey : s.snapshotId = endSnapshot := hkey
  have hnot : ¬ k.snapshot.snapshotId < endSnapshot := by omega
  simp [Catalog.bridged, Commit.apply, Table.insert_rows (key_notMem hk), hnot]

theorem deadWhere_apply {ids : List ℕ} {c : Catalog} {k : Commit} (hk : k.Above c)
    (h : BatchIn ids c) (beginSnapshot : ℕ) (endSnapshot : Option ℕ) :
    deadWhere ids (k.apply c) beginSnapshot endSnapshot = deadWhere ids c beginSnapshot endSnapshot := by
  cases endSnapshot with
  | none => rfl
  | some e =>
      simp only [deadWhere]
      by_cases he : e ∈ ids
      · rw [bridged_apply hk h he]
      · simp [he]

/-- A row the commit ends was live, and ends above the batch. -/
theorem notMem_ids_of_above {ids : List ℕ} {c : Catalog} {k : Commit} (hk : k.Above c)
    (h : BatchIn ids c) : k.snapshot.snapshotId ∉ ids := by
  intro hmem
  obtain ⟨s, hs, hkey⟩ := Table.mem_keys.1 (h.present _ hmem)
  have hlt := hk.above s hs
  have hkey : s.snapshotId = k.snapshot.snapshotId := hkey
  omega

theorem expireDeadData_apply {ids : List ℕ} {c : Catalog} {k : Commit} (hk : k.Above c)
    (h : BatchIn ids c) : expireDeadData ids (k.apply c) = expireDeadData ids c := by
  unfold expireDeadData
  refine congrArg _ ((Table.filter_insertAll fun f hf => ?_).trans (Table.filter_update ?_ ?_))
  · rw [DataFile.dead, hk.liveData f hf]
    rfl
  · intro f _
    rw [DataFile.dead, deadWhere_apply hk h, DataFile.dead]
    cases hend : f.endSnapshot with
    | none =>
        simp only [DataFile.endedLive, hend, Option.isNone_none, if_true, DataFile.ended]
        split
        · simp [deadWhere, notMem_ids_of_above hk h]
        · rw [hend]
    | some e => simp [DataFile.endedLive, hend]
  · intro f _ hdead
    cases hend : f.endSnapshot with
    | none => simp [DataFile.dead, deadWhere, hend] at hdead
    | some e => simp [DataFile.endedLive, hend]

theorem expireDeadDv_apply {ids : List ℕ} {c : Catalog} {k : Commit} (hk : k.Above c)
    (h : BatchIn ids c) : expireDeadDv ids (k.apply c) = expireDeadDv ids c := by
  unfold expireDeadDv
  refine congrArg _ ((Table.filter_insertAll fun f hf => ?_).trans (Table.filter_update ?_ ?_))
  · rw [DeleteFile.dead, hk.liveDelete f hf]
    rfl
  · intro f _
    rw [DeleteFile.dead, deadWhere_apply hk h, DeleteFile.dead]
    cases hend : f.endSnapshot with
    | none =>
        simp only [DeleteFile.endedLive, hend, Option.isNone_none, true_and]
        split
        · simp [deadWhere, notMem_ids_of_above hk h]
        · rw [hend]
    | some e => simp [DeleteFile.endedLive, hend]
  · intro f _ hdead
    cases hend : f.endSnapshot with
    | none => simp [DeleteFile.dead, deadWhere, hend] at hdead
    | some e => simp [DeleteFile.endedLive, hend]

/-! ## The commit of a batch -/

/-- What the transaction of a batch writes, from the state it is committed into. -/
def expireWrites (ids : List ℕ) (c : Catalog) : List Write :=
  let data := expireDeadData ids c
  let vectors := expireDeadDv ids c
  let queued := unscheduled data c
  [.schedule queued, .schedule (unscheduled vectors (Write.apply (.schedule queued) c)),
    .deleteColumnStats (data.map Scheduled.dataFileId),
    .deletePartitionValues (data.map Scheduled.dataFileId),
    .deleteVariantStats (data.map Scheduled.dataFileId),
    .deleteDataFiles (data.map Scheduled.dataFileId),
    .deleteDeleteFiles (vectors.map Scheduled.dataFileId), .deleteChanges ids,
    .deleteSnapshots ids]

/-- A commit of the tool is a whole batch. -/
def IsBatch (own : List Write) (before : Catalog) : Prop :=
  ∃ ids, BatchIn ids before ∧ own = expireWrites ids before

/-- What no other session changes while a batch runs. -/
structure Stable (ids : List ℕ) (data vectors queue : List Scheduled) (c : Catalog) : Prop where
  batchIn : BatchIn ids c
  data : expireDeadData ids c = data
  vectors : expireDeadDv ids c = vectors
  queue : c.filesScheduledForDeletion = queue

theorem stable_addsAbove {ids : List ℕ} {data vectors queue : List Scheduled} (own : List Write)
    (c c' : Catalog) (h : Stable ids data vectors queue c) (hR : AddsAbove own c c') :
    Stable ids data vectors queue c' := by
  refine addsAbove_invariant (fun d k hk hd => ?_) hR h
  exact ⟨batchIn_apply hd.batchIn, (expireDeadData_apply hk hd.batchIn).trans hd.data,
    (expireDeadDv_apply hk hd.batchIn).trans hd.vectors, hd.queue⟩

theorem unscheduled_congr {dead : List Scheduled} {c c' : Catalog}
    (h : c.filesScheduledForDeletion = c'.filesScheduledForDeletion) :
    unscheduled dead c = unscheduled dead c' := by
  unfold unscheduled
  rw [h]

theorem inside_expireBatch (ids : List ℕ) : Inside AddsAbove (expireBatch ids) :=
  (inside_statement _ _).bind fun _ => (inside_statement _ _).bind fun _ =>
  (inside_statement _ _).bind fun _ => (inside_statement _ _).bind fun _ =>
  (inside_statement _ _).bind fun _ => (inside_statement _ _).bind fun _ =>
  (inside_statement _ _).bind fun _ => (inside_statement _ _).bind fun _ =>
  (inside_statement _ _).bind fun _ => (inside_statement _ _).bind fun _ => inside_statement _ _

/-- Whatever the others do between its statements, a batch commits as one. -/
theorem expireBatch_isBatch (ids : List ℕ) (s : Session Catalog Write PgError ExpireStatement)
    (hw : s.Within AddsAbove) (hown : s.own = []) (hin : BatchIn ids s.committed) :
    wp (expireBatch ids) (fun _ t => IsBatch t.own t.next) (fun _ _ => True) s := by
  have hstart : Stable ids (expireDeadData ids s.committed) (expireDeadDv ids s.committed)
      s.committed.filesScheduledForDeletion s.committed := ⟨hin, rfl, rfl, rfl⟩
  generalize expireDeadData ids s.committed = data at hstart
  generalize expireDeadDv ids s.committed = vectors at hstart
  generalize s.committed.filesScheduledForDeletion = queue at hstart
  have hI : ∀ own c c', Stable ids data vectors queue c → AddsAbove own c c' →
      Stable ids data vectors queue c' := stable_addsAbove
  unfold expireBatch
  simp only [wp_bind]
  have h₁ : Stable ids data vectors queue s.next := hI _ _ _ hstart (within_next hw)
  refine wp_query (fun _ => trivial) ?_
  rw [show overlay s.own s.next = s.next by rw [hown]; rfl, h₁.data]
  generalize hs₁ : s.reading ExpireStatement.deadData s.next = s₁
  have hw₁ : s₁.Within AddsAbove := hs₁ ▸ hw
  have hown₁ : s₁.own = [] := hs₁ ▸ hown
  have hst₁ : Stable ids data vectors queue s₁.committed := hs₁ ▸ h₁
  have h₂ : Stable ids data vectors queue s₁.next := hI _ _ _ hst₁ (within_next hw₁)
  refine wp_query (fun _ => trivial) ?_
  rw [show overlay s₁.own s₁.next = s₁.next by rw [hown₁]; rfl, h₂.vectors]
  generalize hs₂ : s₁.reading ExpireStatement.deadDeleteVectors s₁.next = s₂
  have hw₂ : s₂.Within AddsAbove := hs₂ ▸ hw₁
  have hown₂ : s₂.own = [] := hs₂ ▸ hown₁
  have hst₂ : Stable ids data vectors queue s₂.committed := hs₂ ▸ h₂
  refine wp_write hI hw₂ hst₂ fun s₃ hw₃ hst₃ hown₃ => ?_
  refine wp_write hI hw₃ hst₃ fun s₄ hw₄ hst₄ hown₄ => ?_
  refine wp_write hI hw₄ hst₄ fun s₅ hw₅ hst₅ hown₅ => ?_
  refine wp_write hI hw₅ hst₅ fun s₆ hw₆ hst₆ hown₆ => ?_
  refine wp_write hI hw₆ hst₆ fun s₇ hw₇ hst₇ hown₇ => ?_
  refine wp_write hI hw₇ hst₇ fun s₈ hw₈ hst₈ hown₈ => ?_
  refine wp_write hI hw₈ hst₈ fun s₉ hw₉ hst₉ hown₉ => ?_
  refine wp_write hI hw₉ hst₉ fun s₁₀ hw₁₀ hst₁₀ hown₁₀ => ?_
  refine wp_write hI hw₁₀ hst₁₀ fun s₁₁ hw₁₁ hst₁₁ hown₁₁ => ?_
  have hbefore : Stable ids data vectors queue s₁₁.next := hI _ _ _ hst₁₁ (within_next hw₁₁)
  refine ⟨ids, hbefore.batchIn, ?_⟩
  obtain ⟨c₃, hc₃, hown₃⟩ := hown₃
  obtain ⟨c₄, hc₄, hown₄⟩ := hown₄
  obtain ⟨_, _, hown₅⟩ := hown₅
  obtain ⟨_, _, hown₆⟩ := hown₆
  obtain ⟨_, _, hown₇⟩ := hown₇
  obtain ⟨_, _, hown₈⟩ := hown₈
  obtain ⟨_, _, hown₉⟩ := hown₉
  obtain ⟨_, _, hown₁₀⟩ := hown₁₀
  obtain ⟨_, _, hown₁₁⟩ := hown₁₁
  -- the queue is the same at all of them
  have hqueued : unscheduled data c₃ = unscheduled data s₁₁.next :=
    unscheduled_congr (hc₃.queue.trans hbefore.queue.symm)
  have hqueued' : unscheduled vectors (overlay s₃.own c₄) =
      unscheduled vectors (Write.apply (.schedule (unscheduled data s₁₁.next)) s₁₁.next) := by
    rw [hown₃, hown₂, ← hqueued]
    refine unscheduled_congr ?_
    show c₄.filesScheduledForDeletion ++ _ = s₁₁.next.filesScheduledForDeletion ++ _
    rw [hc₄.queue, hbefore.queue]
    rfl
  simp only [hown₁₁, hown₁₀, hown₉, hown₈, hown₇, hown₆, hown₅, hown₄, hqueued']
  rw [hown₃, hown₂]
  simp only [expireWrites, hbefore.data, hbefore.vectors, ← hqueued]
  rfl

/-- Every commit of every run is a batch. -/
theorem outside_expireLoop (cutoff batchSize : ℤ) (numBatches : Option ℤ) (fuel : ℕ) :
    ∀ batchNum, Outside AddsAbove IsBatch (fun _ => True)
      (expireLoop cutoff batchSize numBatches fuel batchNum) := by
  induction fuel with
  | zero => exact fun _ => outside_pure _
  | succ fuel ih =>
      intro batchNum
      unfold expireLoop
      refine Outside.ite (outside_throw _) (outside_query_bind
        (J := fun ids c => ids ≠ [] → BatchIn ids c)
        (fun _ c' _ _ => batchSelect_batchIn cutoff batchSize.toNat c') fun ids => ?_)
      by_cases hids : ids = []
      · rw [if_pos (by simp [hids])]
        exact outside_pure _
      · rw [if_neg (by simp [hids])]
        refine Outside.ite (outside_pure _) (Outside.bind ?_ fun _ => ih _)
        exact outside_transaction (inside_expireBatch ids) fun s hw hown hpre =>
          expireBatch_isBatch ids s hw hown (hpre hids)

theorem outside_expireSnapshots (run : ExpireRun) (fuel : ℕ) :
    Outside AddsAbove IsBatch (fun _ => True) (expireSnapshots run fuel) := by
  unfold expireSnapshots
  refine outside_query_bind (J := fun _ _ => True) (fun _ _ _ _ => trivial) fun held => ?_
  refine Outside.ite (outside_throw _) ?_
  refine outside_query_bind (J := fun _ _ => True) (fun _ _ _ _ => trivial) fun cutoff => ?_
  refine Outside.ite ?_ (outside_expireLoop _ _ _ _ _)
  exact outside_query_bind (J := fun _ _ => True) (fun _ _ _ _ => trivial) fun _ => outside_pure _

theorem outside_expireRuns (runs : List (ExpireRun × ℕ)) :
    Outside AddsAbove IsBatch (fun _ => True) (expireRuns runs) := by
  induction runs with
  | nil => exact outside_pure _
  | cons run rest ih =>
      exact ((outside_expireSnapshots run.1 run.2).tryCatch fun _ => outside_pure _).bind fun _ => ih

/-- The session after the runs: its own commits are batches, and the others did the rest. -/
theorem expireRuns_ran (c : Catalog) (schedule : ℕ → List Commit) (fates : ℕ → Fate PgError)
    (runs : List (ExpireRun × ℕ)) : Ran AddsAbove IsBatch (expireSession c schedule fates)
      (final (expireRuns runs) (expireSession c schedule fates)) :=
  final_of_wp (outside_expireRuns runs _ (expireSession_within c schedule fates) rfl trivial)

/-! ## What a batch does -/

section Batch

variable {ids : List ℕ} {c : Catalog}

theorem mem_expireDeadData_ids {f : DataFile} (hf : f ∈ c.dataFiles.rows) :
    f.dataFileId ∈ (expireDeadData ids c).map Scheduled.dataFileId ↔ f.dead ids c = true := by
  simp only [expireDeadData, List.map_map, List.mem_map, List.mem_filter, Function.comp_apply]
  constructor
  · rintro ⟨g, ⟨hg, hdead⟩, hid⟩
    rwa [← Table.eq_of_key hg hf hid]
  · exact fun hdead => ⟨f, ⟨hf, hdead⟩, rfl⟩

theorem mem_expireDeadDv_ids {f : DeleteFile} (hf : f ∈ c.deleteFiles.rows) :
    f.deleteFileId ∈ (expireDeadDv ids c).map Scheduled.dataFileId ↔ f.dead ids c = true := by
  simp only [expireDeadDv, List.map_map, List.mem_map, List.mem_filter, Function.comp_apply]
  constructor
  · rintro ⟨g, ⟨hg, hdead⟩, hid⟩
    rwa [← Table.eq_of_key hg hf hid]
  · exact fun hdead => ⟨f, ⟨hf, hdead⟩, rfl⟩

/-- The catalog after a batch went into `c`. -/
def afterBatch (ids : List ℕ) (c : Catalog) : Catalog := overlay (expireWrites ids c) c

theorem mem_afterBatch_snapshots {s : SnapshotRow} :
    s ∈ (afterBatch ids c).snapshots.rows ↔ s ∈ c.snapshots.rows ∧ s.snapshotId ∉ ids := by
  show s ∈ (c.snapshots.delete fun r => decide (r.snapshotId ∈ ids)).rows ↔ _
  rw [Table.mem_delete, decide_eq_false_iff_not]

theorem mem_afterBatch_dataFiles {f : DataFile} :
    f ∈ (afterBatch ids c).dataFiles.rows ↔ f ∈ c.dataFiles.rows ∧ f.dead ids c = false := by
  show f ∈ (c.dataFiles.delete fun g =>
    decide (g.dataFileId ∈ (expireDeadData ids c).map Scheduled.dataFileId)).rows ↔ _
  rw [Table.mem_delete, decide_eq_false_iff_not]
  refine and_congr_right fun hf => ?_
  rw [mem_expireDeadData_ids hf, Bool.not_eq_true]

theorem mem_afterBatch_deleteFiles {f : DeleteFile} :
    f ∈ (afterBatch ids c).deleteFiles.rows ↔ f ∈ c.deleteFiles.rows ∧ f.dead ids c = false := by
  show f ∈ (c.deleteFiles.delete fun g =>
    decide (g.deleteFileId ∈ (expireDeadDv ids c).map Scheduled.dataFileId)).rows ↔ _
  rw [Table.mem_delete, decide_eq_false_iff_not]
  refine and_congr_right fun hf => ?_
  rw [mem_expireDeadDv_ids hf, Bool.not_eq_true]

theorem afterBatch_queue : (afterBatch ids c).filesScheduledForDeletion =
    c.filesScheduledForDeletion ++ unscheduled (expireDeadData ids c) c ++
      unscheduled (expireDeadDv ids c)
        (Write.apply (.schedule (unscheduled (expireDeadData ids c) c)) c) := rfl

/-- A dead file ends in the batch, and no snapshot the batch leaves can read it. -/
theorem dead_unreadable {beginSnapshot : ℕ} {endSnapshot : Option ℕ}
    (h : deadWhere ids c beginSnapshot endSnapshot = true) :
    ∃ e ∈ ids, endSnapshot = some e ∧ ∀ s ∈ (afterBatch ids c).snapshots.rows,
      ¬ (beginSnapshot ≤ s.snapshotId ∧ s.snapshotId < e) := by
  cases endSnapshot with
  | none => simp [deadWhere] at h
  | some e =>
      simp only [deadWhere, Catalog.bridged, List.any_eq_true, decide_eq_true_eq] at h
      refine ⟨e, h.1, rfl, fun s hs hread => h.2 ⟨s, (mem_afterBatch_snapshots.1 hs).1, ?_⟩⟩
      exact ⟨hread.1, hread.2, (mem_afterBatch_snapshots.1 hs).2⟩

end Batch

end Millpond.Maintenance
