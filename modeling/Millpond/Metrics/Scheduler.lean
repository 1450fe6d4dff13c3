import Mathlib.Algebra.Order.Field.Rat
import Mathlib.Data.List.Sort

set_option autoImplicit false

/-! # The metrics daemon

Which queries `load_queries` returns, when `_scheduler_loop` runs them, and what `_liveness_status`
answers meanwhile. What a query reads and the gauges it sets are left out, and so are the fields of
a query that only these use. -/

namespace Millpond.Metrics

/-! ## The queries -/

/-- A YAML value, by what `_validate_interval_mins` asks of it. -/
inductive Yaml where
  | int (v : ℤ)
  | bool (b : Bool)
  | other
deriving DecidableEq, Repr

inductive QueryError where
  | badName (name : String)
  | intervalType (v : Yaml)
  | intervalBelow (v : ℤ)
deriving DecidableEq, Repr

/-- `_MIN_INTERVAL_MINS`. -/
def minIntervalMins : ℤ := 1

/-- `_validate_interval_mins`: minutes in, seconds out. A `bool` is no integer here. -/
def validateIntervalMins : Yaml → Except QueryError ℕ
  | .int v => if v < minIntervalMins then .error (.intervalBelow v) else .ok (v.toNat * 60)
  | v => .error (.intervalType v)

structure Query where
  name : String
  intervalSeconds : ℕ
deriving DecidableEq, Repr

/-- `_NAME_RE`: a letter or an underscore, then letters, digits and underscores; `$` also matches
    before a trailing newline. -/
def nameRe (name : String) : Bool :=
  match name.toList with
  | [] => false
  | c :: rest =>
      let body := if rest.getLast? = some '\n' then rest.dropLast else rest
      (c.isAlpha || c == '_') && body.all fun c => c.isAlphanum || c == '_'

/-- `_query_from_dict` on the two fields that matter to the scheduler. -/
def queryFromDict (d : String × Yaml) : Except QueryError Query :=
  if nameRe d.1 then (validateIntervalMins d.2).map (⟨d.1, ·⟩) else .error (.badName d.1)

/-- `by_name[q.name] = q`: a name keeps its place. -/
def setByName (q : Query) : List Query → List Query
  | [] => [q]
  | r :: rest => if r.name = q.name then q :: rest else r :: setByName q rest

/-- The queries of one document, merged into those before it. -/
def mergeDoc (doc : List (String × Yaml)) (byName : List Query) : Except QueryError (List Query) :=
  doc.foldlM (fun acc d => (queryFromDict d).map (setByName · acc)) byName

/-- `load_queries`: the built-in document, the user's, and without the disabled names. -/
def loadQueries (builtin user : List (String × Yaml)) (disable : List String) :
    Except QueryError (List Query) := do
  let byName ← mergeDoc builtin []
  let byName ← mergeDoc user byName
  pure (byName.filter fun q => q.name ∉ disable)

/-- `BUILTIN_YAML`. -/
def builtinYaml : List (String × Yaml) :=
  [("ducklake_pending_deletes", .int 5), ("ducklake_data_files", .int 5),
    ("ducklake_delete_files", .int 5), ("ducklake_files_per_band", .int 5),
    ("ducklake_mergeable_files_per_band", .int 15), ("ducklake_snapshots", .int 5),
    ("ducklake_inlined_data_tables", .int 5), ("ducklake_unreachable_inline_tables", .int 5),
    ("ducklake_tables", .int 5), ("ducklake_files_per_partition_top20", .int 5),
    ("ducklake_metadata_live_file_lookup", .int 60),
    ("ducklake_metadata_partition_value_lookup", .int 60),
    ("ducklake_metadata_file_column_stats_lookup", .int 60), ("ducklake_catalog", .int 60),
    ("ducklake_config", .int 5), ("ducklake_pg_catalog_size", .int 5)]

/-! ## The probe -/

/-- `_Liveness`. Instants are readings of `time.monotonic()`, in seconds. -/
structure Liveness where
  timeout : ℚ
  schedulerStarted : Bool
  currentQueryStart : ℚ
  lastTick : ℚ
deriving DecidableEq, Repr

/-- The `LIVENESS_REASON_*` codes. -/
inductive Reason where
  | starting
  | inFlight
  | staleTick
  | ok
deriving DecidableEq, Repr

/-- `_liveness_status`, without the message for humans. -/
def livenessStatus (liveness : Option Liveness) (now : ℚ) : Bool × Reason :=
  match liveness with
  | none => (true, .starting)
  | some l =>
      if l.schedulerStarted = false then (true, .starting)
      else if 0 < l.currentQueryStart ∧ l.timeout < now - l.currentQueryStart then (false, .inFlight)
      else if 0 < l.lastTick ∧ l.timeout < now - l.lastTick then (false, .staleTick)
      else (true, .ok)

/-! ## The loop -/

/-- An entry of the heap. -/
structure Due where
  next : ℚ
  seq : ℕ
  idx : ℕ
deriving DecidableEq, Repr

/-- The order of the tuples `(next, seq, idx)`; `seq` decides before `idx` is compared. -/
def Due.le (a b : Due) : Prop := a.next < b.next ∨ a.next = b.next ∧ a.seq ≤ b.seq

instance : DecidableRel Due.le := fun a b =>
  inferInstanceAs (Decidable (a.next < b.next ∨ a.next = b.next ∧ a.seq ≤ b.seq))

/-- `heapq.heappush`, on a heap kept as the list of its entries in order. -/
def heappush (heap : List Due) (d : Due) : List Due := heap.orderedInsert Due.le d

/-- The loop between two of its iterations. -/
structure Scheduler where
  now : ℚ
  heap : List Due
  seq : ℕ
  consecutiveFailures : ℕ
  liveness : Liveness
deriving DecidableEq, Repr

/-- `CONSECUTIVE_FAILURE_THRESHOLD`. -/
def consecutiveFailureThreshold : ℕ := 10

inductive SchedulerError where
  | emptyHeap
  | reconnectNeeded (failures : ℕ)
deriving DecidableEq, Repr

/-- Before the loop: every query is due now, in the order of the list. -/
def startScheduler (queries : List Query) (liveness : Liveness) (now : ℚ) : Scheduler where
  now := now
  heap := (List.range queries.length).map fun idx => ⟨now, idx, idx⟩
  seq := queries.length
  consecutiveFailures := 0
  liveness := { liveness with schedulerStarted := true }

/-- What the world decides in one iteration: how much after its time the query starts, how long it
    runs, whether it succeeds, and what passes until its next run is put on the heap. -/
structure Turn where
  late : ℚ
  duration : ℚ
  succeeds : Bool
  spent : ℚ
deriving DecidableEq, Repr

/-- When the query `due` starts: at its time, or at once if that is over. -/
def Scheduler.startOf (s : Scheduler) (due : Due) (turn : Turn) : ℚ := max s.now due.next + turn.late

/-- `_run_query`'s last word on the liveness state. -/
def Liveness.ticked (l : Liveness) (now : ℚ) : Liveness :=
  { l with lastTick := now, currentQueryStart := 0 }

/-- One iteration of `_scheduler_loop`. -/
def Scheduler.step (queries : List Query) (s : Scheduler) (turn : Turn) :
    Except SchedulerError Scheduler :=
  match s.heap with
  | [] => .error .emptyHeap
  | due :: rest =>
      let finish := s.startOf due turn + turn.duration
      let failures := if turn.succeeds then 0 else s.consecutiveFailures + 1
      if consecutiveFailureThreshold ≤ failures then .error (.reconnectNeeded failures)
      else
        let interval := (queries[due.idx]?.map Query.intervalSeconds).getD 0
        .ok
          { now := finish + turn.spent
            heap := heappush rest ⟨finish + turn.spent + interval, s.seq, due.idx⟩
            seq := s.seq + 1
            consecutiveFailures := failures
            liveness := s.liveness.ticked finish }

/-! ## What a probe can see -/

/-- From one instant to another the probe reads the same liveness state. -/
structure Span where
  start : ℚ
  finish : ℚ
  liveness : Liveness
deriving DecidableEq, Repr

/-- The spans of one iteration: until the query starts, while it runs, the instant at which the
    tick is written and the query is still marked, and the rest. -/
def Scheduler.spans (s : Scheduler) (turn : Turn) : List Span :=
  match s.heap with
  | [] => []
  | due :: _ =>
      let start := s.startOf due turn
      let finish := start + turn.duration
      let running := { s.liveness with currentQueryStart := start }
      [⟨s.now, start, s.liveness⟩, ⟨start, finish, running⟩,
        ⟨finish, finish, { running with lastTick := finish }⟩,
        ⟨finish, finish + turn.spent, s.liveness.ticked finish⟩]

/-- The spans of a run: some iterations, and then `lastWait` seconds of waiting. -/
def observed (queries : List Query) (lastWait : ℚ) : Scheduler → List Turn → List Span
  | s, [] => [⟨s.now, s.now + lastWait, s.liveness⟩]
  | s, turn :: turns =>
      s.spans turn ++
        match s.step queries turn with
        | .ok s' => observed queries lastWait s' turns
        | .error _ => []

/-- The run needs no reconnect. -/
def Connected (queries : List Query) : Scheduler → List Turn → Prop
  | _, [] => True
  | s, turn :: turns => ∃ s', s.step queries turn = .ok s' ∧ Connected queries s' turns

end Millpond.Metrics
