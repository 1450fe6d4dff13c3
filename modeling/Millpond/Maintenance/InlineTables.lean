import Millpond.Maintenance.DropPartitions

set_option autoImplicit false

/-! # Dropping orphaned inline tables

`drop_orphan_inline_tables` drops the inlined-data tables, and the registry rows, of DuckLake
tables that no retained snapshot can reach: keyset pages of the registry, one transaction for each.
The transactions run under READ COMMITTED, the server's default, which the command leaves alone. The
two `SET LOCAL` statements, the sleeps, the totals, the gauges and the log are left out. -/

namespace Millpond.Maintenance

open Prog ReadCommitted

/-! ## The catalog -/

/-- `ducklake_table`: one version of a table. -/
structure TableVersion where
  tableId : ℕ
  beginSnapshot : ℕ
  endSnapshot : Option ℕ
deriving DecidableEq, Repr

/-- `ducklake_inlined_data_tables`: the registry. -/
structure RegistryRow where
  tableId : ℕ
  schemaVersion : ℕ
  tableName : Option String
deriving DecidableEq, Repr

/-- A table of the catalog schema in `pg_class`, and how many rows it holds. -/
structure PgTable where
  name : String
  rows : ℕ
deriving DecidableEq, Repr

/-- What the command reads and writes. A table version comes with the snapshot it begins at, and
    the newest snapshot is never expired. -/
structure InlineCatalog where
  /-- The ids of `ducklake_snapshot`. -/
  snapshots : List ℕ
  versions : List TableVersion
  registry : List RegistryRow
  pgClass : List PgTable
  begun : ∀ v ∈ versions, ∃ s ∈ snapshots, v.beginSnapshot ≤ s

/-- A version that overlaps the retained snapshots: the `EXISTS` of `_inline_orphan_predicate`. Of
    no snapshot the bounds are NULL, and a comparison with NULL is not true. -/
def TableVersion.reachable (c : InlineCatalog) (v : TableVersion) : Bool :=
  (c.snapshots.max?).any (fun newest => decide (v.beginSnapshot ≤ newest)) &&
    (v.endSnapshot.isNone ||
      (c.snapshots.min?).any fun oldest => v.endSnapshot.any fun e => decide (oldest < e))

/-- `_inline_orphan_predicate`. -/
def InlineCatalog.orphaned (c : InlineCatalog) (tableId : ℕ) : Bool :=
  !c.versions.any fun v => v.tableId == tableId && v.reachable c

/-- The `LEFT JOIN pg_class`. -/
def InlineCatalog.present (c : InlineCatalog) (r : RegistryRow) : Bool :=
  r.tableName.any fun name => c.pgClass.any fun t => t.name == name

/-! ## The writes -/

/-- What identifies a registry row in the `DELETE`. -/
abbrev RegistryKey := ℕ × ℕ × String

/-- The row has the three columns of the key. -/
def RegistryRow.hasKey (r : RegistryRow) (key : RegistryKey) : Bool :=
  r.tableId = key.1 ∧ r.schemaVersion = key.2.1 ∧ r.tableName = some key.2.2

/-- What a statement of the command writes, and the locks it takes: a lock changes nothing and is
    held until the transaction ends. -/
inductive InlineWrite where
  | lockRows (rows : List RegistryRow)
  | lockTable (name : String)
  | dropTable (name : String)
  | deleteRegistry (keys : List RegistryKey)
deriving DecidableEq

def InlineWrite.apply : InlineWrite → InlineCatalog → InlineCatalog
  | .lockRows _, c => c
  | .lockTable _, c => c
  | .dropTable name, c => { c with pgClass := c.pgClass.filter fun t => t.name ≠ name }
  | .deleteRegistry keys, c =>
      { c with registry := c.registry.filter fun r => !keys.any r.hasKey }

instance : Writes InlineWrite InlineCatalog := ⟨InlineWrite.apply⟩

/-! ## The batch -/

inductive InlineError where
  | emptySnapshots
  | negativeLimit
  | lockContended
  | pg (e : PgError)
deriving DecidableEq, Repr

instance : Raises PgError InlineError := ⟨InlineError.pg⟩

/-- The statements of a run. -/
inductive InlineStatement where
  | lockBudget
  | toRegclass
  | snapshotCount
  | orphanCounts
  | unlockAll
  | tryLock
  | batchSelect
  | lockTable
  | hasRows
  | dropTable
  | deleteRegistry
  | remaining
deriving DecidableEq, Repr

abbrev InlineM := EStateM InlineError (Session InlineCatalog InlineWrite PgError InlineStatement)

/-- `relation does not exist`. -/
def undefinedTable : InlineError := .pg ⟨some "42P01", false⟩

/-- `_INLINE_TABLE_NAME_RE`, used with `fullmatch`. -/
def inlineTableNameRe (name : String) : Bool :=
  let stem := "ducklake_inlined_data_".toList
  let ids := name.toList.drop stem.length
  stem.isPrefixOf name.toList && !(ids.takeWhile Char.isDigit).isEmpty &&
    match ids.dropWhile Char.isDigit with
    | [] => false
    | c :: version => c == '_' && !version.isEmpty && version.all Char.isDigit

/-- `(table_id, schema_version) > (%s, %s)`. -/
def RegistryRow.after (r : RegistryRow) (key : ℤ × ℤ) : Bool :=
  key.1 < r.tableId ∨ key.1 = r.tableId ∧ key.2 < r.schemaVersion

/-- `ORDER BY table_id, schema_version`. -/
def RegistryRow.le (a b : RegistryRow) : Prop :=
  a.tableId < b.tableId ∨ a.tableId = b.tableId ∧ a.schemaVersion ≤ b.schemaVersion

instance : DecidableRel RegistryRow.le := fun a b =>
  inferInstanceAs (Decidable (a.tableId < b.tableId ∨
    a.tableId = b.tableId ∧ a.schemaVersion ≤ b.schemaVersion))

/-- `_inline_orphan_batch_sql`, with the rows that others have locked. -/
def inlineOrphanBatch (after : ℤ × ℤ) (batchSize : ℕ) (skipLocked : RegistryRow → Bool)
    (c : InlineCatalog) : List (RegistryRow × Bool) :=
  (((c.registry.filter fun r => r.after after && c.orphaned r.tableId && !skipLocked r).insertionSort
    RegistryRow.le).take batchSize).map fun r => (r, c.present r)

/-- The page of a batch; in execute mode its rows are locked, and none is skipped in a dry run. -/
def selectBatch (dryRun : Bool) (after : ℤ × ℤ) (batchSize : ℤ) (skipLocked : RegistryRow → Bool) :
    InlineM (List (RegistryRow × Bool)) :=
  statement .batchSelect fun c =>
    if batchSize < 0 then .error .negativeLimit
    else if dryRun then .ok (inlineOrphanBatch after batchSize.toNat (fun _ => false) c, [])
    else
      let page := inlineOrphanBatch after batchSize.toNat skipLocked c
      .ok (page, [.lockRows (page.map Prod.fst)])

/-- `_inline_table_has_rows`. -/
def inlineTableHasRows (name : String) : InlineM Bool :=
  statement .hasRows fun c =>
    if c.pgClass.any fun t => t.name == name then
      .ok (c.pgClass.any fun t => t.name == name && t.rows != 0, [])
    else .error undefinedTable

/-- `LOCK TABLE .. IN ACCESS EXCLUSIVE MODE`. -/
def lockTable (name : String) : InlineM PUnit :=
  statement .lockTable fun c =>
    if c.pgClass.any fun t => t.name == name then .ok (⟨⟩, [.lockTable name])
    else .error undefinedTable

/-- `DROP TABLE IF EXISTS`. -/
def dropTable (name : String) : InlineM PUnit :=
  statement .dropTable fun _ => .ok (⟨⟩, [.dropTable name])

/-- What became of a row of the page. -/
inductive RowFate where
  | invalidName
  | nonempty
  | dropped (name : String)
  | missing (name : String)
deriving DecidableEq, Repr

/-- `if not dry_run`. -/
def unlessDry (dryRun : Bool) (x : InlineM PUnit) : InlineM PUnit := if dryRun then pure ⟨⟩ else x

/-- One row of the page, once the deadline has let it through. -/
def dropRow (dryRun : Bool) (row : RegistryRow) (present : Bool) : InlineM RowFate :=
  match row.tableName.filter inlineTableNameRe with
  | none => pure .invalidName
  | some name =>
      if present then do
        unlessDry dryRun (lockTable name)
        let hasRows ← inlineTableHasRows name
        if hasRows then pure .nonempty
        else do
          unlessDry dryRun (dropTable name)
          pure (.dropped name)
      else pure (.missing name)

/-- `_InlineBatchResult`. -/
structure InlineBatchResult where
  truncated : Bool
  rows : ℕ
  dropped : ℕ
  registryDeleted : ℕ
  missing : ℕ
  skippedNonempty : ℕ
  skippedInvalid : ℕ
  lastKey : Option (ℕ × ℕ)
deriving DecidableEq, Repr

/-- The result so far, and `to_delete`. -/
structure BatchProgress where
  result : InlineBatchResult
  toDelete : List RegistryKey
deriving DecidableEq, Repr

/-- The bookkeeping of one row. -/
def BatchProgress.record (p : BatchProgress) (row : RegistryRow) : RowFate → BatchProgress
  | .invalidName =>
      ⟨{ p.result with
          lastKey := some (row.tableId, row.schemaVersion),
          skippedInvalid := p.result.skippedInvalid + 1 }, p.toDelete⟩
  | .nonempty =>
      ⟨{ p.result with
          lastKey := some (row.tableId, row.schemaVersion),
          skippedNonempty := p.result.skippedNonempty + 1 }, p.toDelete⟩
  | .dropped name =>
      ⟨{ p.result with
          lastKey := some (row.tableId, row.schemaVersion), dropped := p.result.dropped + 1 },
        p.toDelete ++ [(row.tableId, row.schemaVersion, name)]⟩
  | .missing name =>
      ⟨{ p.result with
          lastKey := some (row.tableId, row.schemaVersion), missing := p.result.missing + 1 },
        p.toDelete ++ [(row.tableId, row.schemaVersion, name)]⟩

/-- The loop over the page. `late` is what the deadline check finds before each row; the first row
    is never turned away. -/
def dropRows (dryRun : Bool) (late : ℕ → Bool) :
    ℕ → List (RegistryRow × Bool) → BatchProgress → InlineM BatchProgress
  | _, [], p => pure p
  | i, (row, present) :: rest, p =>
      if p.result.lastKey.isSome && late i then
        pure ⟨{ p.result with truncated := true }, p.toDelete⟩
      else do
        let fate ← dropRow dryRun row present
        dropRows dryRun late (i + 1) rest (p.record row fate)

/-- `rows` of a truncated batch is the work it took on. -/
def InlineBatchResult.settled (r : InlineBatchResult) : InlineBatchResult :=
  if r.truncated then
    { r with rows := r.dropped + r.missing + r.skippedNonempty + r.skippedInvalid }
  else r

/-- The `DELETE` of the processed registry rows. -/
def deleteRegistry (toDelete : List RegistryKey) : InlineM ℕ :=
  statement .deleteRegistry fun c =>
    .ok ((c.registry.filter fun r => toDelete.any r.hasKey).length, [.deleteRegistry toDelete])

/-- What the world decides in one attempt at a batch. -/
structure BatchWorld where
  skipLocked : RegistryRow → Bool
  late : ℕ → Bool
  lateRetry : Bool

/-- The statements of `_drop_inline_batch`. -/
def inlineBatchStatements (dryRun : Bool) (after : ℤ × ℤ) (batchSize : ℤ) (world : BatchWorld) :
    InlineM InlineBatchResult := do
  let page ← selectBatch dryRun after batchSize world.skipLocked
  let p ← dropRows dryRun world.late 0 page ⟨⟨false, page.length, 0, 0, 0, 0, 0, none⟩, []⟩
  if !p.toDelete.isEmpty && !dryRun then do
    let deleted ← deleteRegistry p.toDelete
    pure { p.result.settled with registryDeleted := deleted }
  else pure p.result.settled

/-- `_drop_inline_batch`. -/
def dropInlineBatch (dryRun : Bool) (after : ℤ × ℤ) (batchSize : ℤ) (world : BatchWorld) :
    InlineM InlineBatchResult :=
  transaction (inlineBatchStatements dryRun after batchSize world)

/-! ## The run -/

/-- `_DROP_INLINE_RETRYABLE_SQLSTATES`. -/
def dropInlineRetryableSqlstates : List String := dropRetryableSqlstates ++ ["42P01", "53200"]

/-- `_is_retryable_inline_error`. -/
def isRetryableInlineError (e : PgError) : Bool :=
  e.sqlstate.any fun s => decide (s ∈ dropInlineRetryableSqlstates)

def dropInlineMaxAttempts : ℕ := 5
def dropInlineMinBatchSize : ℤ := 10
def dropInlineMaxBatchSize : ℤ := 2000
def dropInlineRegrowAfterBatches : ℕ := 10

/-- The server's answers to a run. -/
structure InlineServer where
  maxLocksPerTransaction : ℕ
  maxConnections : ℕ
  maxPreparedTransactions : ℕ
  registryExists : Bool
  lockAcquired : Bool
  /-- For a batch and an attempt at it. -/
  world : ℕ → ℕ → BatchWorld
  /-- The deadline check after a batch. -/
  lateAfter : ℕ → Bool

/-- `_inline_lock_budget`: a quarter of the lock table, five entries for each drop. -/
def InlineServer.batchSize (server : InlineServer) (requested : ℤ) : ℤ :=
  let capacity := server.maxLocksPerTransaction *
    (server.maxConnections + server.maxPreparedTransactions)
  min requested (max dropInlineMinBatchSize (min ((capacity / 20 : ℕ) : ℤ) dropInlineMaxBatchSize))

/-- The batch size after an error. -/
def shrunk (batchSize : ℤ) (e : PgError) : ℤ :=
  if e.sqlstate = some "53200" then
    min batchSize (max dropInlineMinBatchSize (batchSize / 2))
  else batchSize

/-- The attempts at one batch: its result, unless the run budget ends the retries, the batch size
    and the attempt it took. -/
def retryBatch (dryRun : Bool) (after : ℤ × ℤ) (world : ℕ → BatchWorld) :
    (left attempt : ℕ) → (batchSize : ℤ) → InlineM (Option InlineBatchResult × ℤ × ℕ)
  | 0, attempt, batchSize => pure (none, batchSize, attempt)
  | left + 1, attempt, batchSize =>
      tryCatch
        (do
          let result ← dropInlineBatch dryRun after batchSize (world attempt)
          pure (some result, batchSize, attempt)) fun
        | .pg e =>
            if !isRetryableInlineError e || decide (dropInlineMaxAttempts ≤ attempt) then
              throw (.pg e)
            else if (world attempt).lateRetry then pure (none, shrunk batchSize e, attempt)
            else retryBatch dryRun after world left (attempt + 1) (shrunk batchSize e)
        | e => throw e

/-- The arguments of one run; without a budget the deadline checks never hold. -/
structure InlineRun where
  dryRun : Bool
  batchSize : ℤ
  maxBatches : Option ℤ

/-- Where the next page starts. -/
def nextKey (after : ℤ × ℤ) (lastKey : Option (ℕ × ℕ)) : ℤ × ℤ :=
  lastKey.elim after fun key => (key.1, key.2)

/-- The batch loop, at most `fuel` iterations of it. -/
def inlineLoop (run : InlineRun) (server : InlineServer) (ceiling : ℤ) :
    (fuel batches cleanBatches : ℕ) → (batchSize : ℤ) → (after : ℤ × ℤ) → InlineM PUnit
  | 0, _, _, _, _ => pure ⟨⟩
  | fuel + 1, batches, cleanBatches, batchSize, after =>
      if run.maxBatches.any fun n => decide (n ≤ (batches : ℤ)) then pure ⟨⟩
      else do
        let (result, batchSize, attempt) ←
          retryBatch run.dryRun after (server.world batches) dropInlineMaxAttempts 1 batchSize
        match result with
        | none => pure ⟨⟩
        | some res =>
            if res.rows = 0 then pure ⟨⟩
            else
              let cleanBatches := if attempt = 1 then cleanBatches + 1 else 0
              let after := nextKey after res.lastKey
              if res.truncated || decide ((res.rows : ℤ) < batchSize) || server.lateAfter batches then
                pure ⟨⟩
              else if dropInlineRegrowAfterBatches ≤ cleanBatches ∧ batchSize < ceiling then
                inlineLoop run server ceiling fuel (batches + 1) 0 (min ceiling (batchSize * 2)) after
              else inlineLoop run server ceiling fuel (batches + 1) cleanBatches batchSize after

/-- The advisory lock, which a dry run does not take. -/
def acquireLock (run : InlineRun) (server : InlineServer) : InlineM PUnit :=
  if run.dryRun then pure ⟨⟩
  else do
    query .unlockAll fun _ => PUnit.unit
    let got ← query .tryLock fun _ => server.lockAcquired
    if got then pure ⟨⟩ else throw .lockContended

/-- `drop_orphan_inline_tables`. -/
def dropOrphanInlineTables (run : InlineRun) (server : InlineServer) (fuel : ℕ) : InlineM PUnit := do
  let ceiling ← query .lockBudget fun _ => server.batchSize run.batchSize
  let registry ← query .toRegclass fun _ => server.registryExists
  if !registry then pure ⟨⟩
  else do
    let snapshots ← query .snapshotCount fun c => c.snapshots.length
    if snapshots = 0 then throw .emptySnapshots
    else do
      let orphaned ← query .orphanCounts fun c =>
        (c.registry.filter fun r => c.orphaned r.tableId).length
      if orphaned = 0 then pure ⟨⟩
      else do
        acquireLock run server
        inlineLoop run server ceiling fuel 0 0 ceiling (-1, -1)
        query .remaining fun _ => PUnit.unit

/-- Any number of runs, each of which may end with an exception. -/
def inlineRuns : List (InlineRun × InlineServer × ℕ) → InlineM PUnit
  | [] => pure ⟨⟩
  | (run, server, fuel) :: rest => do
      tryCatch (dropOrphanInlineTables run server fuel) fun _ => pure ⟨⟩
      inlineRuns rest

end Millpond.Maintenance
