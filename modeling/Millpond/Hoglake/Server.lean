import Millpond.Lib.Ledger
import Mathlib.Algebra.Order.Ring.Rat

set_option autoImplicit false

/-! # The hoglake catalog

The server the sink writes to, as far as one table name goes: table incarnations and their DDL, the
commit with its receipts, and the requests still on their way. The commit is one transaction; its
receipt is written in it, so receipts and applied commits are one ledger. -/

namespace Millpond.Hoglake

/-! ## Tables -/

abbrev Uuid := ℕ

/-- The column types of hoglake, by name. -/
inductive HogType where
  | boolean
  | int
  | long
  | float
  | double
  | string
  | timestamptz
  | uuid
  | other (name : String)
deriving DecidableEq

structure Column where
  name : String
  fieldId : ℕ
  type : HogType
deriving DecidableEq

structure PartitionField where
  sourceFieldId : ℕ
  transform : String
  transformParam : Option ℕ
deriving DecidableEq

structure SortField where
  sourceFieldId : ℕ
  direction : String
  nullOrder : String
deriving DecidableEq

/-- What DDL defines of a table. A missing spec is an empty one. -/
structure Shape where
  columns : List Column
  partitionSpec : List PartitionField
  sortSpec : List SortField
deriving DecidableEq

/-- A read of the table: its incarnation, its shape and the snapshot it was resolved at. -/
structure TableInfo where
  uuid : Uuid
  snapshot : ℕ
  shape : Shape
deriving DecidableEq

inductive AlterOp where
  | addColumn (name : String) (type : HogType)
  | promoteColumn (name : String) (type : HogType)
  | setPartitionSpec (fields : List PartitionField)
  | setSortOrder (fields : List SortField)
deriving DecidableEq

/-- One op of an alter, `none` when the server cannot apply it. A new column gets `fieldId`. -/
def Shape.applyOp (fieldId : ℕ) (shape : Shape) : AlterOp → Option Shape
  | .addColumn name type =>
      if shape.columns.any (·.name = name) then none
      else some { shape with columns := shape.columns ++ [⟨name, fieldId, type⟩] }
  | .promoteColumn name type =>
      if shape.columns.any (·.name = name) then
        some { shape with
          columns := shape.columns.map fun c => if c.name = name then { c with type := type } else c }
      else none
  | .setPartitionSpec fields =>
      if fields.all fun f => shape.columns.any (·.fieldId = f.sourceFieldId) then
        some { shape with partitionSpec := fields }
      else none
  | .setSortOrder fields =>
      if fields.all fun f => shape.columns.any (·.fieldId = f.sourceFieldId) then
        some { shape with sortSpec := fields }
      else none

/-- The ops of one alter in order, all or none of them. -/
def Shape.applyOps (fieldId : ℕ) (shape : Shape) : List AlterOp → Option Shape
  | [] => some shape
  | op :: ops =>
    match shape.applyOp fieldId op with
    | none => none
    | some shape' => shape'.applyOps (fieldId + 1) ops

/-! ## Commit requests -/

/-- An object in the lake: uploaded by this pod, or by another writer. -/
inductive Uri where
  | own (n : ℕ)
  | other (n : ℕ)
deriving DecidableEq

/-- An idempotency key: the UUIDv5 of a name, or a random UUIDv4. -/
inductive Key where
  | uuid5 (name : String)
  | uuid4 (n : ℕ)
deriving DecidableEq

/-- The registration of one parquet object. -/
structure DataFile where
  path : Uri
  recordCount : ℕ
  partitionValues : Option (List (Option String))
deriving DecidableEq

/-- `(topic, partition, first, last)` quadruples. -/
abbrev Identity := List ((String × ℕ) × (ℕ × ℕ))

/-- What `format_commit_message` renders. -/
structure CommitMessage where
  records : ℕ
  files : ℕ
  partitions : ℕ
  arrowBytes : ℕ
  trigger : Option String
  tableUuid : Option Uuid
  kafkaOffsets : Identity
deriving DecidableEq

/-- A commit request: one append of prepared files. -/
structure Payload where
  idempotencyKey : Key
  expectedTableUuid : Uuid
  readSnapshot : ℕ
  files : List DataFile
  author : String
  message : CommitMessage
deriving DecidableEq

def Payload.uris (payload : Payload) : List Uri := payload.files.map (·.path)

/-- An applied commit: the request, and the shape of the table at that moment. -/
structure Commit where
  request : Payload
  shape : Shape
deriving DecidableEq

/-! ## Errors -/

/-- The exception classes of pyhoglake. -/
inductive ErrorClass where
  | hoglake
  | validation
  | notFound
  | alreadyExists
  | commitConflict
  | ddlSinceReadSnapshot
  | incarnationChanged
  | idlessFilesPresent
  | expired
  | readSnapshotExpired
  | malformedResponse
deriving DecidableEq

/-- `issubclass`. -/
def ErrorClass.isSubclass : ErrorClass → ErrorClass → Bool
  | _, .hoglake => true
  | .ddlSinceReadSnapshot, .commitConflict => true
  | .readSnapshotExpired, .expired => true
  | c, c' => c = c'

structure HoglakeError where
  cls : ErrorClass
  statusCode : Option ℕ
  message : String
  detail : Option String
deriving DecidableEq

def HoglakeError.is (e : HoglakeError) (cls : ErrorClass) : Bool := e.cls.isSubclass cls

/-- `_error_text`. -/
def errorText (e : HoglakeError) : String := (e.message ++ " " ++ e.detail.getD "").toLower

/-- `_REUSED_KEY_MARKER`. -/
def reusedKeyMarker : String := "idempotency_key reused"

def containsChars (marker : List Char) : List Char → Bool
  | [] => marker.isEmpty
  | c :: rest => marker.isPrefixOf (c :: rest) || containsChars marker rest

/-- `marker in text`. -/
def contains (text marker : String) : Bool := containsChars marker.toList text.toList

/-- The refusal of a request whose key has the receipt of another one. -/
def HoglakeError.isReusedKey (e : HoglakeError) : Bool :=
  e.is .validation && contains (errorText e) reusedKeyMarker

/-- `_DESTINATION_MOVED`. -/
def HoglakeError.isDestinationMoved (e : HoglakeError) : Bool :=
  e.is .ddlSinceReadSnapshot || e.is .incarnationChanged || e.is .readSnapshotExpired

/-- `_is_answered_refusal`. -/
def HoglakeError.isAnsweredRefusal (e : HoglakeError) : Bool :=
  e.statusCode = some 409 || e.statusCode = some 410 || e.statusCode = some 422

def notFoundError : HoglakeError := ⟨.notFound, some 404, "not_found", none⟩

def alreadyExistsError : HoglakeError := ⟨.alreadyExists, some 409, "already_exists", none⟩

def validationError : HoglakeError := ⟨.validation, some 422, "validation", none⟩

def reusedKeyError : HoglakeError :=
  ⟨.validation, some 422, "validation", some "idempotency_key reused with a different request"⟩

def incarnationChangedError : HoglakeError :=
  ⟨.incarnationChanged, some 409, "table_recreated", none⟩

def readSnapshotExpiredError : HoglakeError :=
  ⟨.readSnapshotExpired, some 410, "expired", none⟩

def ddlSinceReadSnapshotError : HoglakeError :=
  ⟨.ddlSinceReadSnapshot, some 409, "ddl_since_read_snapshot", none⟩

/-- A refusal for a reason the model does not derive. The reused key and the moved destination are
    derived, so it is neither. -/
structure Refusal where
  error : HoglakeError
  notReusedKey : error.isReusedKey = false
  notMoved : error.isDestinationMoved = false

/-- An error as such a reason. -/
def Refusal.of (e : HoglakeError) : Option Refusal :=
  if h : e.isReusedKey = false ∧ e.isDestinationMoved = false then some ⟨e, h.1, h.2⟩ else none

/-! ## The server -/

/-- The live incarnation, with the snapshot of its creation or last alter. -/
structure LiveTable where
  uuid : Uuid
  shape : Shape
  alteredAt : ℕ
deriving DecidableEq

structure Server where
  snapshot : ℕ
  namespaceExists : Bool
  table : Option LiveTable
  nextUuid : Uuid
  nextFieldId : ℕ
  ledger : Ledger Key Commit
  expiryFloor : ℕ
  uuid_lt : ∀ t ∈ table, t.uuid < nextUuid
  altered_le : ∀ t ∈ table, t.alteredAt ≤ snapshot
  keyed : ∀ entry ∈ ledger.entries, entry.1 = entry.2.request.idempotencyKey

namespace Server

/-- What a read of the table answers. -/
def read (s : Server) : Option TableInfo :=
  s.table.map fun t => ⟨t.uuid, s.snapshot, t.shape⟩

/-- A commit to another table of the catalog. -/
def bump (s : Server) : Server :=
  { s with
    snapshot := s.snapshot + 1
    altered_le := fun t ht => Nat.le_succ_of_le (s.altered_le t ht) }

def createNamespace (s : Server) : Server := { s with namespaceExists := true }

/-- Raise the floor below which snapshots are gone. -/
def expire (floor : ℕ) (s : Server) : Server := { s with expiryFloor := max s.expiryFloor floor }

def dropTable (s : Server) : Server :=
  { s with
    snapshot := s.snapshot + 1
    table := none
    uuid_lt := fun _ ht => absurd ht (by simp)
    altered_le := fun _ ht => absurd ht (by simp) }

/-- A new incarnation under the name; the uuid was never used before. -/
def createTable (shape : Shape) (s : Server) : Server :=
  { s with
    snapshot := s.snapshot + 1
    table := some ⟨s.nextUuid, shape, s.snapshot + 1⟩
    nextUuid := s.nextUuid + 1
    nextFieldId := s.nextFieldId + shape.columns.length
    uuid_lt := fun t ht => by
      obtain rfl : _ = t := by simpa using ht
      exact Nat.lt_succ_self _
    altered_le := fun t ht => by
      obtain rfl : _ = t := by simpa using ht
      exact Nat.le_refl _ }

/-- DDL that gives the live table another shape. -/
def alterTo (shape : Shape) (s : Server) : Server :=
  match h : s.table with
  | none => s
  | some t =>
    { s with
      snapshot := s.snapshot + 1
      table := some { t with shape := shape, alteredAt := s.snapshot + 1 }
      uuid_lt := fun t' ht => by
        obtain rfl : _ = t' := by simpa using ht
        exact s.uuid_lt t h
      altered_le := fun t' ht => by
        obtain rfl : _ = t' := by simpa using ht
        exact Nat.le_refl _ }

/-- An alter sent by a client; `none` when it does not apply. -/
def alter (ops : List AlterOp) (s : Server) : Option Server :=
  match s.table with
  | none => none
  | some t => (t.shape.applyOps s.nextFieldId ops).map fun shape =>
      { (s.alterTo shape) with nextFieldId := s.nextFieldId + ops.length }

/-! ## Commits -/

/-- The structure of a registration fits the spec: no values without one, else one for each field. -/
def fits (spec : List PartitionField) (file : DataFile) : Bool :=
  match file.partitionValues with
  | none => spec.isEmpty
  | some values => !spec.isEmpty && values.length = spec.length

/-- The conflict checks of a request that has no receipt. -/
def judge (s : Server) (payload : Payload) : Option HoglakeError :=
  match s.table with
  | none => some notFoundError
  | some t =>
    if t.uuid ≠ payload.expectedTableUuid then some incarnationChangedError
    else if payload.readSnapshot < s.expiryFloor then some readSnapshotExpiredError
    else if payload.readSnapshot < t.alteredAt then some ddlSinceReadSnapshotError
    else if payload.files.all (fits t.shape.partitionSpec) then none
    else some validationError

/-- Apply a request and write its receipt. -/
def apply (payload : Payload) (s : Server) : Server :=
  match s.table with
  | none => s
  | some t =>
    { s with
      snapshot := s.snapshot + 1
      ledger := s.ledger.record payload.idempotencyKey ⟨payload, t.shape⟩
      altered_le := fun t' ht => Nat.le_succ_of_le (s.altered_le t' ht)
      keyed := fun entry hentry => by
        by_cases h : s.ledger.lookup payload.idempotencyKey = none
        · rcases (Ledger.mem_record h).1 hentry with hold | rfl
          · exact s.keyed entry hold
          · rfl
        · exact s.keyed entry (by simpa [Ledger.record, h] using hentry) }

/-- A commit: the receipt first, then the refusal of `refusal` if there is one, then the conflict
    checks. The answer is the error, or `none` for success. -/
def commit (refusal : Option Refusal) (payload : Payload) (s : Server) :
    Option HoglakeError × Server :=
  match s.ledger.lookup payload.idempotencyKey with
  | some receipt => (if receipt.request = payload then none else some reusedKeyError, s)
  | none =>
    match refusal with
    | some r => (some r.error, s)
    | none =>
      match s.judge payload with
      | some e => (some e, s)
      | none => (none, s.apply payload)

end Server

/-! ## The network and the other writers -/

/-- The server, the commit requests still on their way to it, and the clock. -/
structure Net where
  server : Server
  inFlight : List Payload
  now : ℚ

/-- What happens without this pod: time, other writers, the server's own jobs, late requests. -/
inductive Move where
  | elapse (d : ℚ) (nonneg : 0 ≤ d)
  | createNamespace
  | createTable (shape : Shape)
  | dropTable
  | alterTable (shape : Shape)
  | commit (payload : Payload) (foreign : ∀ uri ∈ payload.uris, ∃ n, uri = .other n)
  | bump
  | expire (floor : ℕ)
  /-- The `i`-th request on its way arrives. -/
  | deliver (i : ℕ)
  | lose (i : ℕ)

def Net.onServer (f : Server → Server) (net : Net) : Net := { net with server := f net.server }

def Net.move (net : Net) : Move → Net
  | .elapse d _ => { net with now := net.now + d }
  | .createNamespace => net.onServer Server.createNamespace
  | .createTable shape =>
      if net.server.table.isNone then net.onServer (Server.createTable shape) else net
  | .dropTable => net.onServer Server.dropTable
  | .alterTable shape => net.onServer (Server.alterTo shape)
  | .commit payload _ => net.onServer fun s => (s.commit none payload).2
  | .bump => net.onServer Server.bump
  | .expire floor => net.onServer (Server.expire floor)
  | .deliver i =>
    match net.inFlight[i]? with
    | none => net
    | some payload =>
      { net with
        server := (net.server.commit none payload).2
        inFlight := net.inFlight.eraseIdx i }
  | .lose i => { net with inFlight := net.inFlight.eraseIdx i }

def Net.moves (net : Net) (moves : List Move) : Net := moves.foldl Net.move net

end Millpond.Hoglake
