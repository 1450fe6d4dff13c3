import Millpond.Maintenance.Enumeration
import Millpond.Maintenance.DropGuards

set_option autoImplicit false

/-! # A drop campaign

`drop_partitions` over its work list: for each leaf the cutoff, the cursor guard, the selection, the
pre-check against the guard, and the drop. Other sessions commit and move cursors at every point of
the run. How the work list is read, the counters, the pacing and the log are left out. -/

namespace Millpond.Maintenance

open Prog ReadCommitted

/-! ## The cursor guard -/

/-- `_DROP_FLOOR_HOURS`, in microseconds. -/
def dropFloorMicros : ℤ := 48 * 3600000000

/-- `_NO_GUARD`. -/
def noGuard : ℕ := 9223372036854775807

/-- What ends a run, by what it reports: the aborts of the set-up, the guard and the selection, and
    the errors of the drop and of the connection. -/
inductive RunError where
  | plan (e : PlanAbort)
  | unsafeIdentifier (name : Option String) (value : String)
  | emptySnapshots
  | noStore (qualified : String)
  | emptyStore (qualified : String)
  | lagging (rows : ℕ) (worst : List (Option ℕ))
  | oversized (n : ℕ)
  | drop (e : DropError)
  | pg (e : PgError)
deriving DecidableEq, Repr

/-- `_SAFE_IDENTIFIER_RE.match`; its `$` also matches before a final newline. -/
def isSafeIdentifier (value : String) : Bool :=
  let isWord := fun c : Char => c.isAlpha || c == '_'
  let body :=
    if value.toList.getLast? = some '\n' then value.toList.dropLast else value.toList
  body.head?.any isWord && body.tail.all fun c => isWord c || c.isDigit

/-- `_Guard`. -/
structure Guard where
  snapshotId : ℕ
  cursorRows : ℕ
  oldestCursorTime : Option ℤ
  overridden : Bool
deriving DecidableEq, Repr

/-- A row of the cursor store with the time of its snapshot. -/
structure CursorRow where
  lastSnapshotId : Option ℕ
  snapshotTime : Option ℤ
deriving DecidableEq, Repr

/-- The store, left joined to the snapshots. -/
def cursorRows (c : Catalog) : List CursorRow :=
  c.cursors.map fun last =>
    ⟨last, (c.snapshots.rows.find? fun s => some s.snapshotId == last).map SnapshotRow.snapshotTime⟩

/-- Behind the floor, never committed, or with its snapshot gone. -/
def CursorRow.lags (floorTime : ℤ) (r : CursorRow) : Bool :=
  r.lastSnapshotId.isNone || r.snapshotTime.all (· < floorTime)

/-- `_cursor_guard`; `table` says that the store exists. -/
def cursorGuard (stateSchema stateTable : String) (floorTime : ℤ) (allowOverride table : Bool)
    (c : Catalog) : Except RunError Guard :=
  if !isSafeIdentifier stateSchema then
    .error (.unsafeIdentifier (some "viaduck-state-schema") stateSchema)
  else if !isSafeIdentifier stateTable then
    .error (.unsafeIdentifier (some "viaduck-state-table") stateTable)
  else
    let qualified := stateSchema ++ "." ++ stateTable
    let rows := if table then cursorRows c else []
    if rows.isEmpty then
      if allowOverride then .ok ⟨noGuard, 0, none, true⟩
      else if table then .error (.emptyStore qualified)
      else .error (.noStore qualified)
    else
      let lagging := rows.filter (·.lags floorTime)
      if !lagging.isEmpty && !allowOverride then
        .error (.lagging lagging.length ((lagging.take 5).map CursorRow.lastSnapshotId))
      else
        .ok
          { snapshotId := (rows.filterMap CursorRow.lastSnapshotId).min?.getD 0
            cursorRows := rows.length
            oldestCursorTime := (rows.filterMap CursorRow.snapshotTime).min?
            overridden := allowOverride }

/-- `_floor_snapshot`. -/
def floorSnapshot (cutoff : ℤ) (c : Catalog) : Except RunError ℤ :=
  let surviving := c.snapshots.rows.map SnapshotRow.snapshotId
  let old := (c.snapshots.rows.filter fun s => s.snapshotTime < cutoff + dropFloorMicros).map
    SnapshotRow.snapshotId
  match old.max?, surviving.min? with
  | some newest, _ => .ok newest
  | none, some oldest => .ok (oldest - 1)
  | none, none => .error .emptySnapshots

/-! ## One leaf -/

/-- The arguments of a run, with what it resolved of the table. -/
structure DropArgs where
  tableId : ℕ
  schemaName : String
  tableName : String
  spec : PartitionSpec
  cutoff : ℤ
  manifest : Bool
  maxFiles : ℤ
  execute : Bool
  noViaduckGuard : Bool
  stateSchema : String
  stateTable : String
  campaign : String

/-- What the world does in one turn of the loop: the clock, the reads that fail, what the others
    commit before each statement, and how the drop fares. -/
structure TurnWorld where
  overBudget : Bool
  cursorTable : Bool
  beforeGuard : List OtherTx
  guardFails : Option PgError
  beforeSelection : List OtherTx
  selectionFails : Option PgError
  schedule : ℕ → List OtherTx
  fates : ℕ → Fate PgError
  server : DropServer

/-- The catalog the guard is read from. -/
def TurnWorld.guardView (w : TurnWorld) (c : Catalog) : Catalog := w.beforeGuard.foldl (land []) c

/-- The catalog the files are selected from. -/
def TurnWorld.view (w : TurnWorld) (c : Catalog) : Catalog :=
  w.beforeSelection.foldl (land []) (w.guardView c)

/-- What became of a leaf. -/
inductive TurnOutcome where
  | notBelow
  | oversized (n : ℕ)
  | nothingLive
  | blocked (n files guard : ℕ)
  | dryRun (files : List LeafFile) (guard : Guard)
  | skipped (reason : LeafSkip)
  | dropped (result : DropResult)
  | raised (e : RunError)
deriving DecidableEq, Repr

/-- The run ends with this leaf. -/
def TurnOutcome.isRaised : TurnOutcome → Bool
  | .raised _ => true
  | _ => false

/-- What a leaf comes to before its drop: it stays, or its files go. -/
inductive Prepared where
  | stays (outcome : TurnOutcome)
  | drops (files : List LeafFile)
deriving DecidableEq, Repr

/-- A read that the connection may fail. -/
def readOr {α : Type} (fails : Option PgError) (read : Except RunError α) : Except RunError α :=
  fails.elim read fun e => .error (.pg e)

/-- The guard as the turn reads it. -/
def DropArgs.readGuard (args : DropArgs) (w : TurnWorld) (c : Catalog) : Except RunError Guard :=
  readOr w.guardFails (cursorGuard args.stateSchema args.stateTable
    (args.cutoff + dropFloorMicros) args.noViaduckGuard w.cursorTable (w.guardView c))

/-- The files of the leaf as the turn selects them. -/
def DropArgs.select (args : DropArgs) (floorSnap : ℤ) (tupleMap : TupleMap) (w : TurnWorld)
    (c : Catalog) : Except RunError (List LeafFile) := do
  let tuple ← (leafTuple args.spec floorSnap tupleMap).mapError .plan
  readOr w.selectionFails (.ok (selectLeafFiles tuple args.tableId (w.view c)))

/-- `guard_blocked`. -/
def Guard.blocks (guard : Guard) (files : List LeafFile) : List LeafFile :=
  files.filter fun f => guard.snapshotId ≤ f.beginSnapshot

/-- From the selected files to the drop. -/
def DropArgs.check (args : DropArgs) (guard : Guard) (files : List LeafFile) :
    Except RunError Prepared :=
  if args.maxFiles < files.length then
    if args.manifest then .ok (.stays (.oversized files.length))
    else .error (.oversized files.length)
  else if files.isEmpty then .ok (.stays .nothingLive)
  else if !(guard.blocks files).isEmpty then
    .ok (.stays (.blocked (guard.blocks files).length files.length guard.snapshotId))
  else if !args.execute then .ok (.stays (.dryRun files guard))
  else .ok (.drops files)

/-- One turn of the loop, up to the drop. -/
def DropArgs.prepare (args : DropArgs) (floorSnap : ℤ) (tupleMap : TupleMap) (w : TurnWorld)
    (c : Catalog) : Except RunError Prepared := do
  let partTs ← (composePartTs args.spec tupleMap).mapError .plan
  if partTs.all (args.cutoff ≤ ·) then pure (.stays .notBelow)
  else do
    let guard ← args.readGuard w c
    let files ← args.select floorSnap tupleMap w c
    args.check guard files

/-- The commit message of a leaf. -/
def DropArgs.message (args : DropArgs) (partition : String) (files : List LeafFile) : String :=
  "drop-partitions table=" ++ args.schemaName ++ "." ++ args.tableName ++ " leaf=" ++ partition ++
    " campaign=" ++ (if args.campaign.isEmpty then "-" else args.campaign) ++
    " files=" ++ toString files.length

/-- The drop of a leaf; `guard_sql` is set unless the guard is off. -/
def DropArgs.leafDrop (args : DropArgs) (partition : String) (files : List LeafFile) : LeafDrop :=
  ⟨args.tableId, files, !args.noViaduckGuard, args.message partition files⟩

/-! ## The loop -/

/-- One leaf of the work list, the catalog its turn began with and what became of it: the files whose
    drop was attempted, and the writes of every commit of the turn, newest first. -/
structure Turn where
  partition : String
  tupleMap : TupleMap
  before : Catalog
  outcome : TurnOutcome
  attempted : List LeafFile
  commits : List (List Write)

/-- A turn, whether `first_txn` is still set, and the catalog it left. -/
structure TurnEnd where
  turn : Turn
  firstTxn : Bool
  catalog : Catalog

/-- The drop of a turn. -/
def DropArgs.dropTurn (args : DropArgs) (leaf : String × TupleMap) (files : List LeafFile)
    (w : TurnWorld) (firstTxn : Bool) (c : Catalog) : TurnEnd :=
  let drop := dropLeafWithRetries (args.leafDrop leaf.1 files) w.server firstTxn
  let turn := fun (outcome : TurnOutcome) (s : Session Catalog Write PgError DropStatement) =>
    (⟨leaf.1, leaf.2, c, outcome, files, (commits s.seen).map Prod.fst⟩ : Turn)
  match drop (dropSession (w.view c) w.schedule w.fates) with
  | .ok result s => ⟨turn (.dropped result) s, false, s.committed⟩
  | .error (.skip reason) s => ⟨turn (.skipped reason) s, firstTxn, s.committed⟩
  | .error e s => ⟨turn (.raised (.drop e)) s, firstTxn, s.committed⟩

/-- One turn of the loop. -/
def DropArgs.runTurn (args : DropArgs) (floorSnap : ℤ) (leaf : String × TupleMap) (w : TurnWorld)
    (firstTxn : Bool) (c : Catalog) : TurnEnd :=
  match args.prepare floorSnap leaf.2 w c with
  | .error e => ⟨⟨leaf.1, leaf.2, c, .raised e, [], []⟩, firstTxn, w.view c⟩
  | .ok (.stays outcome) => ⟨⟨leaf.1, leaf.2, c, outcome, [], []⟩, firstTxn, w.view c⟩
  | .ok (.drops files) => args.dropTurn leaf files w firstTxn c

/-- The turns of a run, and the catalog it left. -/
structure Run where
  turns : List Turn
  catalog : Catalog

def Run.cons (turn : Turn) (run : Run) : Run := ⟨turn :: run.turns, run.catalog⟩

/-- The loop over the work list: an exhausted budget or an error ends it. -/
def DropArgs.loop (args : DropArgs) (floorSnap : ℤ) (world : ℕ → TurnWorld) :
    List (String × TupleMap) → ℕ → Bool → Catalog → Run
  | [], _, _, c => ⟨[], c⟩
  | leaf :: rest, n, firstTxn, c =>
      if (world n).overBudget then ⟨[], c⟩
      else
        let done := args.runTurn floorSnap leaf (world n) firstTxn c
        if done.turn.outcome.isRaised then ⟨[done.turn], done.catalog⟩
        else (args.loop floorSnap world rest (n + 1) done.firstTxn done.catalog).cons done.turn

/-- The state identifiers go into SQL: they are checked once up front. -/
def DropArgs.checkIdentifiers (args : DropArgs) : Except RunError Unit :=
  if !isSafeIdentifier args.stateSchema then .error (.unsafeIdentifier none args.stateSchema)
  else if !isSafeIdentifier args.stateTable then .error (.unsafeIdentifier none args.stateTable)
  else .ok ⟨⟩

/-- `drop_partitions`. -/
def dropPartitions (args : DropArgs) (work : List (String × TupleMap)) (world : ℕ → TurnWorld)
    (c : Catalog) : Except RunError Run := do
  (assertNoUnageableFiles args.tableId c).mapError .plan
  args.checkIdentifiers
  let floorSnap ← floorSnapshot args.cutoff c
  pure (args.loop floorSnap world work 0 true c)

/-- The files a turn ended. -/
def Turn.ended (turn : Turn) : List ℕ := turn.commits.flatMap endedIn

/-- The leaves that were dropped, each with the files it lost. -/
def Run.drops (run : Run) : List (String × List ℕ) :=
  (run.turns.filter fun turn => !turn.ended.isEmpty).map fun turn => (turn.partition, turn.ended)

/-- The leaves whose drop was attempted, each with its files. -/
def Run.attempts (run : Run) : List (String × List LeafFile) :=
  run.turns.map fun turn => (turn.partition, turn.attempted)

end Millpond.Maintenance
