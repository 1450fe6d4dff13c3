import Millpond.Hoglake.Client
import Mathlib.Data.List.Sort

set_option autoImplicit false

/-! # The hoglake sink

`HoglakeSink.write`, `reset_caches` and `close`, with everything they call. Logging and metrics are
left out, except what the log of events records. -/

namespace Millpond.Hoglake

open Prog

variable {ρ V : Type}

/-- `try x except HoglakeError as e: handler`. -/
def tryHoglake {α : Type} (x : M ρ α) (handler : HoglakeError → M ρ α) : M ρ α :=
  tryCatch x fun r =>
    match r.error with
    | .hoglake e => handler e
    | _ => throw r

/-! ## The cached shape -/

/-- `_adopt_columns`. -/
def adoptColumns (columns : List Column) : M ρ PUnit :=
  onSink fun sink => { sink with liveColumns := columns }

/-- `_adopt_info`. -/
def adoptInfo (info : TableInfo) (declared : Bool) : M ρ PUnit := do
  let now := (← get).world.net.now
  onSink fun sink => { sink with
    liveInfo := some info, liveInfoReadAt := some now, liveColumns := info.shape.columns }
  emit (.adopted info declared)

/-- `_drop_cached_shape`. -/
def dropCachedShape : M ρ PUnit := do
  onSink fun sink => { sink with liveInfo := none, liveInfoReadAt := none, reconciledSpecs := none }
  emit .dropped

/-- `reset_caches`. -/
def resetCaches : M ρ PUnit := do
  onSink fun sink => { sink with table := false, tableUuid := none, liveColumns := [] }
  dropCachedShape

variable (cfg : SinkConfig)

/-- `_live_info_ttl_s`: a quarter of the retention. -/
def liveInfoTtlS : Option ℚ := cfg.retention.map (· / 4)

/-- `_live_info_is_fresh`. -/
def liveInfoIsFresh (s : St ρ) : Bool :=
  match s.sink.liveInfo, s.sink.liveInfoReadAt, liveInfoTtlS cfg with
  | some _, some _, none => true
  | some _, some readAt, some ttl => s.world.net.now - readAt < ttl
  | _, _, _ => false

/-! ## Spec reconciliation -/

/-- `_spec_identity`. -/
def specIdentity (info : TableInfo) : SpecIdentity := (info.shape.partitionSpec, info.shape.sortSpec)

/-- `_want_partition_fields`, `none` when a configured column is missing. -/
def wantPartitionFields (liveColumns : List Column) : Option (List PartitionField) :=
  cfg.partitionBy.mapM fun entry =>
    (liveColumns.find? (·.name = entry.1)).map fun c => ⟨c.fieldId, entry.2.1, entry.2.2⟩

/-- `_want_sort_fields`, `none` when a sort field is missing. -/
def wantSortFields (liveColumns : List Column) : Option (List SortField) :=
  cfg.sortBy.mapM fun name =>
    (liveColumns.find? (·.name = name)).map fun c => ⟨c.fieldId, "asc", "nulls_last"⟩

/-- `_want_partition_fields`, raising. -/
def getWantPartition : M ρ (List PartitionField) := do
  match wantPartitionFields cfg (← get).sink.liveColumns with
  | none => raise (.sink false)
  | some fields => pure fields

/-- `_want_sort_fields`; a missing field is no error. -/
def getWantSort : M ρ (Option (List SortField)) := do
  pure (wantSortFields cfg (← get).sink.liveColumns)

/-- `_spec_ops`. -/
def specOps (partition : Bool) : M ρ (List AlterOp) := do
  let partitionFields ← if partition then getWantPartition cfg else pure []
  let sortFields := (← getWantSort cfg).getD []
  pure ((if partitionFields.isEmpty then [] else [.setPartitionSpec partitionFields]) ++
    (if sortFields.isEmpty then [] else [.setSortOrder sortFields]))

/-- `_verify_specs`. -/
def verifySpecs (info : TableInfo) : M ρ PUnit := do
  let wantPartition ← getWantPartition cfg
  if !wantPartition.isEmpty && info.shape.partitionSpec ≠ wantPartition then raise (.sink false)
  let wantSort := (← getWantSort cfg).getD []
  if !wantSort.isEmpty && info.shape.sortSpec ≠ wantSort then raise (.sink false)

/-- `_declare_specs`: one alter, or the state another writer's alter left, then verified. -/
def declareSpecs (partition : Bool) : M ρ PUnit := do
  let ops ← specOps cfg partition
  if ops.isEmpty then pure ⟨⟩
  else do
    -- the loser of a race takes the winner's table, which `verifySpecs` judges
    let info ← tryHoglake (tableAlter ops) fun e =>
      if e.is .commitConflict then tableRead else raise (.hoglake e)
    adoptInfo info true
    verifySpecs cfg info

/-- The comparison of `_reconcile_specs`: what it declares, if anything. -/
inductive Reconciliation where
  | nothing
  | declare (partition : Bool)
deriving DecidableEq, Repr

/-- The comparison of `_reconcile_specs`, `none` when config and table disagree. -/
def compareSpecs (info : TableInfo) (wantPartition : List PartitionField)
    (wantSort : Option (List SortField)) : Option Reconciliation :=
  let livePartition := info.shape.partitionSpec
  let liveSort := info.shape.sortSpec
  -- with a sort field missing, the live sort order is not judged
  let sortKnown := cfg.sortBy.isEmpty || wantSort.isSome
  if !livePartition.isEmpty && livePartition ≠ wantPartition then none
  else if sortKnown && !liveSort.isEmpty && liveSort ≠ wantSort.getD [] then none
  else if !wantPartition.isEmpty && livePartition.isEmpty then some (.declare true)
  else if !(wantSort.getD []).isEmpty && liveSort.isEmpty then some (.declare false)
  else some .nothing

/-- The verdict of `_reconcile_specs`, recorded on the shape the next flush builds from. -/
def recordVerdict (info : TableInfo) : M ρ PUnit := do
  let shape := (← get).sink.liveInfo.getD info
  onSink fun sink => { sink with reconciledSpecs := some (specIdentity shape) }
  emit (.reconciled shape)

/-- `_reconcile_specs` on a shape in hand. -/
def reconcileSpecs (info : TableInfo) : M ρ PUnit := do
  let wantPartition ← getWantPartition cfg
  let wantSort ← getWantSort cfg
  match compareSpecs cfg info wantPartition wantSort with
  | none => raise (.sink false)
  | some .nothing => recordVerdict info
  | some (.declare partition) => do
      declareSpecs cfg partition
      recordVerdict info

/-- `_reconcile_specs` without one: read it first. -/
def readAndReconcile : M ρ PUnit := do
  let info ← tableRead
  adoptInfo info false
  reconcileSpecs cfg info

/-- `_table_info`. -/
def tableInfo : M ρ TableInfo := do
  let s ← get
  match s.sink.liveInfo, liveInfoIsFresh cfg s with
  | some info, true =>
      -- an alter's receipt is adopted without a verdict on its specs
      if s.sink.reconciledSpecs ≠ some (specIdentity info) then reconcileSpecs cfg info
      pure ((← get).sink.liveInfo.getD info)
  | _, _ => do
      let info ← tableRead
      adoptInfo info false
      reconcileSpecs cfg info
      pure ((← get).sink.liveInfo.getD info)

/-! ## Resolving the table -/

/-- `table_schema_for_batch`, `none` when a column has no hoglake type. -/
def tableSchemaForBatch (batch : Batch ρ V) : Option (List (String × HogType)) :=
  (batch.columns.mapM fun (c : BatchColumn ρ V) =>
    c.type.coltype.map fun type => (c.name, type)).map fun fields =>
    if insertedAt ∈ batch.names then fields else fields ++ [(insertedAt, .timestamptz)]

/-- The namespace, created if need be. -/
def ensureNamespace : M ρ PUnit :=
  tryHoglake readNamespace fun e =>
    if e.is .notFound then
      tryHoglake createNamespace fun e =>
        if e.is .alreadyExists then readNamespace else raise (.hoglake e)
    else raise (.hoglake e)

/-- An existing table: take its columns and reconcile its specs. -/
def adoptTable : M ρ PUnit := do
  let info ← resolveTable
  adoptColumns info.shape.columns
  readAndReconcile cfg

/-- `_create_table`. -/
def createAndDeclare (batch : Batch ρ V) : M ρ PUnit :=
  match tableSchemaForBatch batch with
  | none => raise .value
  | some fields => do
      let created ← tryHoglake (some <$> createTable fields) fun e =>
        if e.is .alreadyExists then pure none else raise (.hoglake e)
      match created with
      -- another pod created it in between
      | none => adoptTable cfg
      | some info => do
          adoptColumns info.shape.columns
          declareSpecs cfg true

/-- `self._table = table`, with the incarnation it was resolved as. -/
def attachTable : M ρ PUnit := do
  let uuid := (← get).world.handle.info.uuid
  onSink fun sink => { sink with table := true, tableUuid := some uuid }

/-- `_ensure_table`. -/
def ensureTable (batch : Batch ρ V) : M ρ PUnit := do
  if (← get).sink.table then pure ⟨⟩
  else do
    ensureNamespace
    tryHoglake (adoptTable cfg) fun e =>
      if e.is .notFound then createAndDeclare cfg batch else raise (.hoglake e)
    attachTable

/-! ## Schema evolution -/

/-- `_PROMOTIONS`. -/
def promotions : List ((HogType × HogType) × HogType) :=
  [((.int, .long), .long), ((.float, .double), .double)]

/-- `_UUID_REWRITES`. -/
def uuidRewrites : List (HogType × HogType) := [(.string, .uuid), (.uuid, .string)]

def liveColumn (name : String) (sink : Sink) : Option Column :=
  sink.liveColumns.find? (·.name = name)

/-- `_add_column`: whether the column is live afterwards. -/
def addColumn (name : String) (type : HogType) : M ρ Bool :=
  tryHoglake
    (do
      let info ← tableAlter [.addColumn name type]
      adoptInfo info false
      pure true)
    fun e =>
      -- about the table and not about this column: fatal to the flush
      if e.is .idlessFilesPresent then raise (.sink false)
      -- another writer's DDL came first, perhaps with this very column
      else if e.is .commitConflict then do
        let info ← tableRead
        adoptInfo info false
        pure (liveColumn name (← get).sink).isSome
      else pure false

/-- The per-column loop of `_add_columns`: the names that are not live afterwards. -/
def addEach : List (String × HogType) → M ρ (List String)
  | [] => pure []
  | (name, type) :: rest => do
      let live ← addColumn name type
      let failed ← addEach rest
      pure (if live then failed else name :: failed)

/-- The one alter `_add_columns` tries first: whether it added them all. -/
def addBatched (addable : List (String × HogType)) : M ρ Bool :=
  if 1 < addable.length then
    tryHoglake
      (do
        let info ← tableAlter (addable.map fun f => .addColumn f.1 f.2)
        adoptInfo info false
        pure true)
      fun e => if e.is .idlessFilesPresent then raise (.sink false) else pure false
  else pure false

/-- `_add_columns`: one alter, then column by column; the names still not live. -/
def addColumns (fields : List (BatchColumn ρ V)) : M ρ (List String) := do
  let unmapped := (fields.filter (·.type.coltype.isNone)).map (·.name)
  let addable := fields.filterMap fun c => c.type.coltype.map fun type => (c.name, type)
  if addable.isEmpty then pure unmapped
  else do
    let batched ← addBatched addable
    if batched then pure unmapped
    else do
      let failed ← addEach addable
      pure (unmapped ++ failed)

/-- `_promote_column`. -/
def promoteColumn (name : String) (toType : HogType) : M ρ PUnit :=
  tryHoglake
    (do
      let info ← tableAlter [.promoteColumn name toType]
      adoptInfo info false)
    fun e =>
      if e.is .commitConflict then do
        let info ← tableRead
        adoptInfo info false
      else pure ⟨⟩

/-- One turn of the loop of `_evolve_and_align`: the name goes among the failed ones for want of a type
    mapping, or among the uuid rewrites. -/
def evolveColumn (c : BatchColumn ρ V) : M ρ (List String × List (String × HogType)) := do
  match liveColumn c.name (← get).sink, c.type.coltype with
  | none, _ => pure ([], [])
  | some _, none => pure ([c.name], [])
  | some live, some want =>
    if live.type = want then pure ([], [])
    else match promotions.lookup (live.type, want) with
      | some promoted => do
          promoteColumn c.name promoted
          pure ([], [])
      -- any other pair of types is left to the cast of the append
      | none => pure ([], if (live.type, want) ∈ uuidRewrites then [(c.name, want)] else [])

/-- The loop of `_evolve_and_align` over the batch's fields. -/
def evolveColumns : List (BatchColumn ρ V) → M ρ (List String × List (String × HogType))
  | [] => pure ([], [])
  | c :: rest => do
      let turn ← evolveColumn c
      let others ← evolveColumns rest
      pure (turn.1 ++ others.1, turn.2 ++ others.2)

variable (be : Backend ρ V)

/-- The rewrites, one after the other. -/
def rewriteColumns : List (String × HogType) → Batch ρ V → M ρ (Batch ρ V)
  | [], batch => pure batch
  | (name, want) :: rest, batch =>
    match rewriteColumn be name want batch with
    | none => raise .value
    | some batch => rewriteColumns rest batch

/-- `_evolve_and_align`. -/
def evolveAndAlign (batch : Batch ρ V) : M ρ (Batch ρ V) := do
  let sink := (← get).sink
  let added ← addColumns (batch.columns.filter fun c => (liveColumn c.name sink).isNone)
  let (failed, rewrites) ← evolveColumns batch.columns
  match batch.dropColumns (added ++ failed) with
  | none => raise .value
  | some batch => do
      let batch ← rewriteColumns be rewrites batch
      pure (nullFillMissing (← get).sink.liveColumns batch)

/-! ## The prepared payload -/

/-- `_count_orphans`. -/
def countOrphans (uris : List Uri) (reason : OrphanReason) : M ρ PUnit :=
  if uris.isEmpty then pure ⟨⟩ else emit (.orphans uris reason)

/-- `_clear_prepared`. -/
def clearPrepared : M ρ PUnit :=
  onSink fun sink => { sink with
    prepared := none, preparedRows := 0, preparedOffsets := none, preparedSends := 0 }

/-- `_discard_prepared`. -/
def discardPrepared (reason : OrphanReason) : M ρ PUnit := do
  match (← get).sink.prepared with
  | none => pure ⟨⟩
  | some payload => do
      emit (.discarded payload reason ((← get).world.atRisk payload))
      countOrphans payload.uris reason
      clearPrepared

/-- Lexicographic order of `(topic, partition, first, last)`. -/
def quadLe (a b : (String × ℕ) × (ℕ × ℕ)) : Bool :=
  if a.1.1 ≠ b.1.1 then decide (a.1.1 ≤ b.1.1)
  else if a.1.2 ≠ b.1.2 then decide (a.1.2 ≤ b.1.2)
  else if a.2.1 ≠ b.2.1 then decide (a.2.1 ≤ b.2.1)
  else decide (a.2.2 ≤ b.2.2)

/-- `topic:partition:first-last`. -/
def rangeText (quad : (String × ℕ) × (ℕ × ℕ)) : String :=
  quad.1.1 ++ ":" ++ toString quad.1.2 ++ ":" ++ toString quad.2.1 ++ "-" ++ toString quad.2.2

/-- The name `_flush_key` hashes. -/
def flushName (tableUuid : Option Uuid) (offsets : Identity) : String :=
  let uuid := match tableUuid with
    | none => "None"
    | some uuid => toString uuid
  "\n".intercalate
    ((cfg.catalog ++ "/" ++ cfg.namespace_ ++ "/" ++ cfg.table ++ "/" ++ uuid) ::
      (offsets.insertionSort (quadLe · ·)).map rangeText)

/-- `_flush_key`: derived from the incarnation and the offset ranges, random without them. -/
def flushKey (tableUuid : Option Uuid) (identity : Option Identity) : M ρ Key := do
  match identity with
  | some offsets => pure (.uuid5 (flushName cfg tableUuid offsets))
  | none => do
      let n := (← get).world.nextUuid4
      onWorld fun w => { w with nextUuid4 := n + 1 }
      pure (.uuid4 n)

/-- `_FlushFacts`. -/
structure FlushFacts where
  kafkaOffsets : Identity
  arrowBytes : ℕ
  trigger : Option String

/-- Objects that are there now. -/
def noteUploaded (info : TableInfo) (uris : List Uri) : M ρ PUnit :=
  if uris.isEmpty then pure ⟨⟩ else emit (.uploaded info uris)

/-- The `except` arm around the uploads. A process that dies reports nothing. -/
def uploadsFailed {α : Type} (info : TableInfo) (r : Raised) : M ρ α := do
  noteUploaded info r.uploadedUris
  match r.error with
  | .killed => throw r
  | _ => do
      countOrphans r.uploadedUris .prepareFailed
      throw r

/-- The commit request of a prepare. -/
def commitRequest (sink : Sink) (aligned : Batch ρ V) (groups : List (PartitionValues × Batch ρ V))
    (key : Key) (facts : FlushFacts) (files : List DataFile) (read : TableInfo) : Payload where
  idempotencyKey := key
  expectedTableUuid := sink.tableUuid.getD read.uuid
  readSnapshot := read.snapshot
  files := files
  author := cfg.author
  message := {
    records := aligned.numRows
    files := groups.length
    partitions := (groups.filter (·.1.isSome)).length
    arrowBytes := facts.arrowBytes
    trigger := facts.trigger
    tableUuid := sink.tableUuid
    kafkaOffsets := facts.kafkaOffsets }

/-- `_prepare`: the commit request for a batch, its objects uploaded. -/
def prepare (batch : Batch ρ V) (key : Key) (facts : FlushFacts) : M ρ Payload := do
  let info ← tableInfo cfg
  let sink := (← get).sink
  match align be info.shape.columns (nullFillMissing sink.liveColumns batch) with
  | none => raise .arrow
  | some aligned =>
    match partitionGroups be info.shape aligned with
    | none => raise (.sink false)
    | some groups => do
        let (files, read) ← tryCatch
          (prepareAppendTables cfg.retention sink.tableUuid aligned groups) (uploadsFailed info)
        noteUploaded info (files.map (·.path))
        let payload := commitRequest cfg sink aligned groups key facts files read
        emit (.prepared payload info)
        pure payload

/-! ## Committing -/

/-- `_accept_already_published`. -/
def acceptAlreadyPublished (payload : Payload) : M ρ ℕ := do
  emit (.alreadyPublished payload)
  countOrphans payload.uris .alreadyPublished
  clearPrepared
  pure 0

/-- The `reason` of `_destination_moved`. -/
def movedReason (refused : HoglakeError) : OrphanReason :=
  if refused.is .incarnationChanged then .tableRecreated
  else if refused.is .readSnapshotExpired then .readSnapshotExpired
  else .ddlSinceReadSnapshot

/-- What `_destination_moved` forgets: the table with its caches, or the shape alone. -/
def forgetDestination (refused : HoglakeError) : M ρ PUnit :=
  if refused.is .incarnationChanged then resetCaches else dropCachedShape

/-- `_destination_moved`, and the exception it makes raised. -/
def destinationMoved (refused : HoglakeError) : M ρ ℕ := do
  discardPrepared (movedReason refused)
  forgetDestination refused
  raise (.sink true)

/-- The payload of an answered refusal is not kept. -/
def discardRefused (e : HoglakeError) : M ρ PUnit :=
  if e.isAnsweredRefusal then discardPrepared .commitRefused else pure ⟨⟩

/-- The refusal arm of `_commit_prepared`. -/
def commitRefused (payload : Payload) (e : HoglakeError) : M ρ ℕ := do
  dropCachedShape
  if e.isReusedKey then acceptAlreadyPublished payload
  else if e.isDestinationMoved then destinationMoved e
  else do
    discardRefused e
    raise (.hoglake e)

/-- The request went through. -/
def commitAnswered : M ρ ℕ := do
  let rows := (← get).sink.preparedRows
  clearPrepared
  pure rows

/-- `_commit_prepared`. -/
def commitPrepared : M ρ ℕ := do
  match (← get).sink.prepared with
  | none => raise (.sink false)
  | some payload => do
      onSink fun sink => { sink with preparedSends := sink.preparedSends + 1 }
      emit (.sent payload)
      let hasTable := (← get).sink.table
      let refused ← tryHoglake
        (do
          commitPreparedCall payload hasTable
          pure none)
        fun e => pure (some e)
      match refused with
      | some e => commitRefused payload e
      | none => commitAnswered

/-! ## The sink's interface -/

/-- The arguments of one `write`. -/
structure Flush (ρ V : Type) where
  batch : Batch ρ V
  kafkaOffsets : Option Identity
  trigger : Option String

/-- `tuple(kafka_offsets) if kafka_offsets else None`. -/
def Flush.identity (flush : Flush ρ V) : Option Identity :=
  match flush.kafkaOffsets with
  | some (quad :: rest) => some (quad :: rest)
  | _ => none

/-- The two markers of `_is_alignment_refusal`. -/
def alignmentRefusals : List String :=
  [schemaDiffers, "prepared Parquet columns differ from destination"]

/-- `_is_alignment_refusal`. -/
def isAlignmentRefusal (e : HoglakeError) : Bool :=
  e.is .validation && alignmentRefusals.any fun marker => contains e.message marker

/-- `_prepare` with the one refresh and retry after an alignment refusal. -/
def prepareHealing (batch : Batch ρ V) (key : Key) (facts : FlushFacts) : M ρ Payload :=
  tryHoglake (prepare cfg be batch key facts) fun e =>
    if isAlignmentRefusal e then do
      let info ← tableRead
      adoptInfo info false
      prepare cfg be (nullFillMissing (← get).sink.liveColumns batch) key facts
    else raise (.hoglake e)

/-- Build a new payload for a batch and hold it. -/
def buildPayload (flush : Flush ρ V) : M ρ PUnit := do
  let now := (← get).world.net.now
  let stamped := stampInsertedAt be now (dropUnwritableColumns flush.batch)
  ensureTable cfg stamped
  let key ← flushKey cfg (← get).sink.tableUuid flush.identity
  let batch ← evolveAndAlign be stamped
  let payload ← prepareHealing cfg be batch key
    ⟨flush.identity.getD [], be.nbytes flush.batch, flush.trigger⟩
  onSink fun sink => { sink with
    prepared := some payload, preparedRows := batch.numRows
    preparedOffsets := flush.identity, preparedSends := 0 }

/-- The held payload is for this identity: the write is a retry. -/
def isReplay (flush : Flush ρ V) (sink : Sink) : Bool :=
  flush.identity.isSome && sink.prepared.isSome && sink.preparedOffsets = flush.identity

/-- `write`. -/
def write (flush : Flush ρ V) : M ρ ℕ := do
  if flush.batch.names.any (· ∈ reservedColumns) then raise .value
  else if isSkipped flush.batch then pure 0
  else if isReplay flush (← get).sink then commitPrepared
  else do
    discardPrepared .superseded
    buildPayload cfg be flush
    commitPrepared

/-- `close`. -/
def close : M ρ PUnit := discardPrepared .shutdown

/-! ## Runs -/

/-- What happens to a sink. -/
inductive Call (ρ V : Type) where
  | write (flush : Flush ρ V)
  | resetCaches
  | close
  | others (moves : List Move)

/-- One call, and the state it leaves; `none` when the process died in it. -/
def perform (s : St ρ) : Call ρ V → Option (St ρ)
  | .write flush =>
    match write cfg be flush s with
    | .ok _ s' => some s'
    | .error r s' => if r.error = .killed then none else some s'
  | .resetCaches => some (final resetCaches s)
  | .close => some (final close s)
  | .others moves => some { s with world := { s.world with net := s.world.net.moves moves } }

/-- **A run of a sink**: the state after these calls, while the process lives. -/
def run (s : St ρ) (calls : List (Call ρ V)) : Option (St ρ) := calls.foldlM (perform cfg be) s

/-- The fields `__init__` sets. -/
def Sink.new : Sink where
  table := false
  tableUuid := none
  liveColumns := []
  liveInfo := none
  liveInfoReadAt := none
  reconciledSpecs := none
  prepared := none
  preparedRows := 0
  preparedOffsets := none
  preparedSends := 0
  retryAfter := none

/-- A new sink in a world. -/
def St.new (world : World ρ) : St ρ := ⟨Sink.new, world, []⟩

end Millpond.Hoglake
