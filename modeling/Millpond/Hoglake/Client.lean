import Millpond.Lib.Prog
import Millpond.Hoglake.Batch

set_option autoImplicit false

/-! # The pyhoglake client

The calls the sink makes, against an environment that decides everything outside the pod: before
each call others make their moves, and the call is answered, refused, fails with or without having
been handled, or is the moment the process dies. The client's `Table` keeps the last read and a
writer cache that goes stale at half the catalog's snapshot retention. -/

namespace Millpond.Hoglake

open Prog

/-! ## The environment -/

/-- When the server handles a request whose caller gets no answer. -/
inductive Handling where
  | now
  | later
  | never
deriving DecidableEq

/-- An HTTP error that is no verdict of the server: a gateway's, a 5xx, a 429, or one without a
    status. -/
structure GatewayError where
  error : HoglakeError
  notReusedKey : error.isReusedKey = false
  notMoved : error.isDestinationMoved = false
  notAnswered : error.isAnsweredRefusal = false

/-- What becomes of a call. -/
inductive Fate where
  | answered
  /-- Refused; a commit only for a reason the model does not derive. -/
  | refused (e : HoglakeError)
  /-- A transport error. -/
  | lost (handling : Handling)
  | failed (error : GatewayError) (handling : Handling)
  /-- The process dies. -/
  | killed (handling : Handling)

/-- Exceptions, as far as the sink tells them apart. -/
inductive Error where
  | hoglake (e : HoglakeError)
  /-- `httpx.HTTPError` or `OSError`. -/
  | transport
  /-- A pyarrow error. -/
  | arrow
  /-- `ValueError`, `KeyError` or `TypeError`. -/
  | value
  /-- `HoglakeSinkError`. -/
  | sink (retryable : Bool)
  /-- No exception: the process is gone. -/
  | killed
deriving DecidableEq

/-- An exception with the `uploaded_uris` pyhoglake stamps on it. -/
structure Raised where
  error : Error
  uploadedUris : List Uri
deriving DecidableEq

/-- What a fanout that raises leaves of one of its uploads. -/
inductive UploadEnd where
  | absent
  /-- Its close failed over a truncated object. -/
  | torn
  | closed
deriving DecidableEq

/-- How the uploads of one prepare go: all of them, or an exception with some of them done. -/
inductive Uploads where
  | all
  | failing (ends : ℕ → UploadEnd) (error : Error)

/-- One turn of the environment. -/
structure Turn where
  moves : List Move
  fate : Fate
  /-- The `Retry-After` of the response, if it has one. -/
  retryAfter : Option ℚ
  /-- The time between the sink's own freshness check and the client's, when this is a prepare. -/
  localWork : ℚ
  localWork_nonneg : 0 ≤ localWork
  uploads : Uploads
  /-- The client drops its writer cache on a commit error. -/
  dropsCache : Bool

/-- A pyhoglake `Table`: the last read, and the writer cache with the time it was seeded. -/
structure Handle where
  info : TableInfo
  cache : Option (TableInfo × ℚ)
deriving DecidableEq

/-- The layout of a flush: `(partition, sort)` tuples. -/
abbrev SpecIdentity := List PartitionField × List SortField

/-- The fields of `HoglakeSink`. `table` says whether `_table` is set; the handle itself lives in
    the world. -/
structure Sink where
  table : Bool
  tableUuid : Option Uuid
  liveColumns : List Column
  liveInfo : Option TableInfo
  liveInfoReadAt : Option ℚ
  reconciledSpecs : Option SpecIdentity
  prepared : Option Payload
  preparedRows : ℕ
  preparedOffsets : Option Identity
  preparedSends : ℕ
  retryAfter : Option ℚ

/-- Why objects are reported as orphans (the `reason` label). -/
inductive OrphanReason where
  | prepareFailed
  | superseded
  | shutdown
  | commitRefused
  | alreadyPublished
  | tableRecreated
  | readSnapshotExpired
  | ddlSinceReadSnapshot
deriving DecidableEq, Repr

/-- What an observer of the sink sees. -/
inductive Event where
  /-- `_adopt_info`; `declared` when the info is the receipt of a spec declaration. -/
  | adopted (info : TableInfo) (declared : Bool)
  /-- `_reconciled_specs` was recorded on this shape. -/
  | reconciled (info : TableInfo)
  /-- The cached shape and its verdict were dropped. -/
  | dropped
  /-- Objects of a flush fanned out under this info were uploaded. -/
  | uploaded (info : TableInfo) (uris : List Uri)
  /-- A commit request was built; its partition values were computed under `info`. -/
  | prepared (payload : Payload) (info : TableInfo)
  /-- `_discard_prepared` of this payload; `atRisk` when its request was applied or is on its way. -/
  | discarded (payload : Payload) (reason : OrphanReason) (atRisk : Bool)
  /-- `_count_orphans`. -/
  | orphans (uris : List Uri) (reason : OrphanReason)
  /-- The held payload was sent. -/
  | sent (payload : Payload)
  /-- `_accept_already_published`. -/
  | alreadyPublished (payload : Payload)
deriving DecidableEq

/-- Everything outside the sink's own fields. -/
structure World (ρ : Type) where
  net : Net
  /-- The object store: the rows of each uploaded object. -/
  objects : List (Uri × List ρ)
  /-- What uploads that failed left in the store: no exception names it. -/
  torn : List Uri
  nextUri : ℕ
  nextUuid4 : ℕ
  /-- The pyhoglake table resolved last; the sink can reach no other. -/
  handle : Handle
  turns : ℕ → Turn
  turn : ℕ

/-- The request was applied or is still on its way. -/
def World.atRisk {ρ : Type} (w : World ρ) (payload : Payload) : Bool :=
  (w.net.server.ledger.lookup payload.idempotencyKey).any (·.request = payload) ||
    decide (payload ∈ w.net.inFlight)

structure St (ρ : Type) where
  sink : Sink
  world : World ρ
  /-- Newest event first. -/
  log : List Event

/-- The part of `Config` the sink reads, and the catalog's snapshot retention as both the sink and
    the client use it (`none` when snapshots never expire). -/
structure SinkConfig where
  catalog : String
  namespace_ : String
  table : String
  author : String
  partitionBy : List (String × String × Option ℕ)
  sortBy : List String
  retention : Option ℚ
  retention_pos : ∀ r ∈ retention, 0 < r

abbrev M (ρ : Type) := EStateM Raised (St ρ)

variable {ρ V : Type}

/-! ## Steps on the state -/

def raise {α : Type} (e : Error) : M ρ α := throw ⟨e, []⟩

def emit (e : Event) : M ρ PUnit := modify fun s => { s with log := e :: s.log }

def onSink (f : Sink → Sink) : M ρ PUnit := modify fun s => { s with sink := f s.sink }

def onWorld (f : World ρ → World ρ) : M ρ PUnit := modify fun s => { s with world := f s.world }

def World.onServer (f : Server → Server) (w : World ρ) : World ρ :=
  { w with net := w.net.onServer f }

/-- The others move, and the next call meets its fate. -/
def World.nextTurn (w : World ρ) : World ρ :=
  { w with net := w.net.moves (w.turns w.turn).moves, turn := w.turn + 1 }

/-- `_RETRY_AFTER_STATUS`. -/
def retryAfterStatus : List ℕ := [429, 503]

/-- `_note_response`: a response with one of these statuses may leave a hint. -/
def noteResponse (turn : Turn) (old : Option ℚ) : Option ℚ :=
  let status := match turn.fate with
    | .refused e => e.statusCode
    | .failed e _ => e.error.statusCode
    | _ => none
  match status, turn.retryAfter with
  | some code, some hint => if code ∈ retryAfterStatus then some hint else old
  | _, _ => old

/-- Take the next turn. -/
def takeTurn : M ρ Turn := do
  let turn := (← get).world.turns (← get).world.turn
  onWorld World.nextTurn
  onSink fun sink => { sink with retryAfter := noteResponse turn sink.retryAfter }
  pure turn

/-! ## Reads and DDL -/

/-- What a call leaves that is handled, or is not, while its caller gets no answer. DDL that is
    handled later is as good as another writer's. -/
def settle {α : Type} (handling : Handling) (handled : Except HoglakeError (α × World ρ)) :
    M ρ PUnit :=
  match handling, handled with
  | .now, .ok (_, w) => onWorld fun _ => w
  | _, _ => pure ⟨⟩

/-- The server's answer reaches the client. -/
def deliverAnswer {α : Type} (handled : Except HoglakeError (α × World ρ)) : M ρ α :=
  match handled with
  | .error e => raise (.hoglake e)
  | .ok r => do
      onWorld fun _ => r.2
      pure r.1

/-- A call that is no commit: `handle` is what the server does with it and answers. -/
def call {α : Type} (handle : World ρ → Except HoglakeError (α × World ρ)) : M ρ α := do
  let turn ← takeTurn
  let handled := handle (← get).world
  match turn.fate with
  | .answered => deliverAnswer handled
  -- refused before the server does anything
  | .refused e => raise (.hoglake e)
  | .lost handling => do
      settle handling handled
      raise .transport
  | .failed e handling => do
      settle handling handled
      raise (.hoglake e.error)
  | .killed handling => do
      settle handling handled
      raise .killed

/-- The part of a read that happens in the client: the handle takes the info and, for `info()` and
    `alter()`, the writer cache is seeded. -/
def seedHandle (info : TableInfo) : M ρ PUnit :=
  onWorld fun w => { w with handle := ⟨info, some (info, w.net.now)⟩ }

/-- `catalog.namespace(name)`. -/
def readNamespace : M ρ PUnit :=
  call fun w => if w.net.server.namespaceExists then .ok (⟨⟩, w) else .error notFoundError

/-- `catalog.create_namespace(name)`. -/
def createNamespace : M ρ PUnit :=
  call fun w =>
    if w.net.server.namespaceExists then .error alreadyExistsError
    else .ok (⟨⟩, w.onServer Server.createNamespace)

/-- What the server answers to a read of the table. -/
def answerRead (w : World ρ) : Except HoglakeError (TableInfo × World ρ) :=
  match w.net.server.read with
  | none => .error notFoundError
  | some info => .ok (info, w)

/-- `ns.table(name)`: a new handle. -/
def resolveTable : M ρ TableInfo := do
  let info ← call answerRead
  onWorld fun w => { w with handle := ⟨info, none⟩ }
  pure info

/-- The columns of a created table, with the field ids from `fieldId` on. -/
def newColumns (fieldId : ℕ) : List (String × HogType) → List Column
  | [] => []
  | (name, type) :: rest => ⟨name, fieldId, type⟩ :: newColumns (fieldId + 1) rest

/-- What the server answers to `create_table`. -/
def answerCreate (fields : List (String × HogType)) (w : World ρ) :
    Except HoglakeError (TableInfo × World ρ) :=
  if w.net.server.table.isSome then .error alreadyExistsError
  else
    let shape : Shape := ⟨newColumns w.net.server.nextFieldId fields, [], []⟩
    .ok (⟨w.net.server.nextUuid, w.net.server.snapshot + 1, shape⟩,
      w.onServer (Server.createTable shape))

/-- `ns.create_table(name, schema)`: a new handle. -/
def createTable (fields : List (String × HogType)) : M ρ TableInfo := do
  let info ← call (answerCreate fields)
  onWorld fun w => { w with handle := ⟨info, none⟩ }
  pure info

/-- `table.info(totals=False)`. -/
def tableRead : M ρ TableInfo := do
  let info ← call answerRead
  seedHandle info
  pure info

/-- What the server answers to an alter: its receipt is the altered table. -/
def answerAlter (ops : List AlterOp) (w : World ρ) : Except HoglakeError (TableInfo × World ρ) :=
  match w.net.server.alter ops with
  | none => .error validationError
  | some server =>
    match server.read with
    | none => .error validationError
    | some info => .ok (info, w.onServer fun _ => server)

/-- `table.alter(ops)`. -/
def tableAlter (ops : List AlterOp) : M ρ TableInfo := do
  let info ← call (answerAlter ops)
  seedHandle info
  pure info

/-! ## Preparing an append -/

/-- `Table._cache_is_usable`: the cache is younger than half the retention. -/
def cacheIsUsable (retention : Option ℚ) (w : World ρ) : Bool :=
  match w.handle.cache, retention with
  | none, _ => false
  | some _, none => true
  | some (_, seededAt), some r => w.net.now - seededAt < r / 2

/-- `Table._prepared_read`: the read a prepare is based on. -/
def preparedRead (retention : Option ℚ) : M ρ TableInfo := do
  let w := (← get).world
  match w.handle.cache with
  | some (info, _) => if cacheIsUsable retention w then pure info else tableRead
  | none => tableRead

/-- Upload one object for each group that lands. -/
def uploadGroups (landed : ℕ → Bool) (groups : List (PartitionValues × Batch ρ V)) (w : World ρ) :
    List DataFile × World ρ :=
  let up := groups.zipIdx.filter fun g => landed g.2
  (up.map fun g => ⟨.own (w.nextUri + g.2), g.1.2.numRows, g.1.1⟩,
    { w with
      -- an upload that fails has used its name, too
      nextUri := w.nextUri + groups.length
      objects := w.objects ++ up.map fun g => (.own (w.nextUri + g.2), g.1.2.rows) })

/-- What the uploads of a fanout that ended this way leave behind. -/
def tornUris (ends : ℕ → UploadEnd) (groups : List (PartitionValues × Batch ρ V)) (w : World ρ) :
    List Uri :=
  (groups.zipIdx.filter fun g => ends g.2 = .torn).map fun g => .own (w.nextUri + g.2)

def World.tear (uris : List Uri) (w : World ρ) : World ρ := { w with torn := w.torn ++ uris }

/-- Every object the pod has put into the store, whole or not. -/
def World.stored (w : World ρ) : List Uri := w.objects.map Prod.fst ++ w.torn

/-- The columns of the prepared files are those of the destination. -/
def columnsMatch (data : Batch ρ V) (shape : Shape) : Bool :=
  data.columns.map (fun c => (c.name, c.type))
    = shape.columns.map fun c => (c.name, ArrowType.of c.type)

/-- The first of `_ALIGNMENT_REFUSALS`. -/
def schemaDiffers : String := "prepared Parquet schema/field IDs differ from destination"

def alignmentError : HoglakeError := ⟨.validation, none, schemaDiffers, none⟩

def arityError : HoglakeError :=
  ⟨.validation, none, "partition values do not fit the partition spec", none⟩

/-- The client's own finding that the table is another incarnation. -/
def recreatedError : HoglakeError := ⟨.incarnationChanged, none, "table was recreated", none⟩

/-- The time between the sink's own freshness check and the client's. -/
def passLocalWork : M ρ PUnit :=
  onWorld fun w => { w with net := { w.net with now := w.net.now + (w.turns w.turn).localWork } }

/-- The checks before the first byte. -/
def refusedBeforeUpload (expectedTableUuid : Option Uuid) (data : Batch ρ V)
    (groups : List (PartitionValues × Batch ρ V)) (info : TableInfo) : Option HoglakeError :=
  if expectedTableUuid ≠ some info.uuid then some recreatedError
  else if !columnsMatch data info.shape then some alignmentError
  else if groups.any fun g => !Server.fits info.shape.partitionSpec ⟨.own 0, 0, g.1⟩ then
    some arityError
  else none

/-- The fanout: one object for each group. An exception names the uploads that closed cleanly and no
    other. -/
def uploadFanout (groups : List (PartitionValues × Batch ρ V)) : M ρ (List DataFile) := do
  let turn ← takeTurn
  let w := (← get).world
  match turn.uploads with
  | .all => do
      onWorld fun _ => (uploadGroups (fun _ => true) groups w).2
      pure (uploadGroups (fun _ => true) groups w).1
  | .failing ends error => do
      onWorld fun _ => (uploadGroups (ends · = .closed) groups w).2.tear (tornUris ends groups w)
      throw ⟨error, (uploadGroups (ends · = .closed) groups w).1.map (·.path)⟩

/-- `table.prepare_append_tables`: the read it is based on, the checks and the uploads. It returns
    the registered files and the read. -/
def prepareAppendTables (retention : Option ℚ) (expectedTableUuid : Option Uuid)
    (data : Batch ρ V) (groups : List (PartitionValues × Batch ρ V)) :
    M ρ (List DataFile × TableInfo) := do
  passLocalWork
  let info ← preparedRead retention
  match refusedBeforeUpload expectedTableUuid data groups info with
  | some e => raise (.hoglake e)
  | none => do
      let files ← uploadFanout groups
      pure (files, info)

/-! ## Committing -/

/-- The server handles a commit request now, or it stays on its way, or is lost. -/
def World.dispatch (handling : Handling) (payload : Payload) (w : World ρ) : World ρ :=
  match handling with
  | .now => w.onServer fun s => (s.commit none payload).2
  | .later => { w with net := { w.net with inFlight := w.net.inFlight ++ [payload] } }
  | .never => w

/-- The client's reaction to an error of a commit whose `table=` is this handle. -/
def dropCache (drops hasTable : Bool) : M ρ PUnit :=
  if drops && hasTable then onWorld fun w => { w with handle := { w.handle with cache := none } }
  else pure ⟨⟩

/-- The server handles a commit request, and its answer reaches the client. -/
def answerCommit (turn : Turn) (payload : Payload) (hasTable : Bool) (refusal : Option Refusal) :
    M ρ PUnit := do
  let (e, server) := (← get).world.net.server.commit refusal payload
  onWorld (World.onServer fun _ => server)
  match e with
  | none => pure ⟨⟩
  | some e => do
      dropCache turn.dropsCache hasTable
      raise (.hoglake e)

/-- `catalog.commit_prepared(payload, table=...)`. -/
def commitPreparedCall (payload : Payload) (hasTable : Bool) : M ρ PUnit := do
  let turn ← takeTurn
  match turn.fate with
  | .answered => answerCommit turn payload hasTable none
  | .refused e => answerCommit turn payload hasTable (Refusal.of e)
  | .lost handling => do
      onWorld (World.dispatch handling payload)
      raise .transport
  | .failed e handling => do
      onWorld (World.dispatch handling payload)
      dropCache turn.dropsCache hasTable
      raise (.hoglake e.error)
  | .killed handling => do
      onWorld (World.dispatch handling payload)
      raise .killed

end Millpond.Hoglake
