import Millpond.Main.Runtime

set_option autoImplicit false

/-! # The consume/flush loop

`main()` from the loop to the final flush, with `_flush`, `_write_with_retry` and their helpers.
Logging is left out, and so are the metrics that cannot end an iteration early. -/

namespace Millpond.Main

open Prog

variable {ε W : Type}

/-! ## Constants -/

def lagSampleIntervalS : ℚ := 60
def consumeMaxBlockS : ℚ := 60
def writeMaxRetries : ℕ := 3
def writeBaseDelayS : ℚ := 1
def commitMaxRetries : ℕ := 3
def commitBaseDelayS : ℚ := 1 / 2
def retryAfterMaxS : ℚ := 30
def retryJitter : ℚ := 1 / 4
def minBatchSize : ℕ := 10

/-! ## Polling -/

/-- `_consume_timeout`. -/
def consumeTimeout (remaining : ℚ) : ℚ := min (max remaining (1 / 10)) consumeMaxBlockS

/-- `backpressure.compute_batch_size`, after `backpressure.init`. -/
def computeBatchSize (cfg : LoopConfig) (pendingBytes : ℕ) : ℕ :=
  let maxBatch := max cfg.consumeBatchSize minBatchSize
  -- no flush size, no backpressure
  if cfg.flushSize ≤ 0 then maxBatch.toNat
  else max minBatchSize (⌊(maxBatch : ℚ) * (1 - pendingBytes / cfg.flushSize)⌋.toNat)

/-! ## Converting and filtering one consumed batch -/

variable (rt : Runtime ε W) (cfg : LoopConfig)

/-- The value becomes a row: it decodes to an object, and some object of the batch has a key. A table
    without columns has no rows. -/
def becomesRow (values : List Msg) (m : Msg) : Bool :=
  rt.decodes m && (values.filter rt.decodes).any rt.hasKeys

/-- `_convert_batch`, or None without any object. -/
def convertBatch (values : List Msg) : M ε W (Option Table) := do
  external .convert (rt.attempt .convert)
  pure (if (values.filter rt.decodes).isEmpty then none else some (values.filter (becomesRow rt values)))

/-- `_coerce_columns`: types change, rows do not. -/
def coerceColumns (table : Table) : M ε W Table := do
  external .coerce (rt.attempt .coerce)
  pure table

/-- The rows the keep-filter counts under one reason. -/
def noteKeepFilter (w : W) (table : Table) (reason : KeepReason) : M ε W PUnit :=
  note (.skipped (table.filter (rt.keepVerdict w table · = some reason)) (.keepFilter reason))

/-- `_apply_filter` under the include set in force now. -/
def applyFilter (table : Table) : M ε W Table := do
  external .filter (rt.attempt .filter)
  let w := (← get).world
  noteKeepFilter rt w table .fieldMissing
  noteKeepFilter rt w table .valueInvalid
  noteKeepFilter rt w table .excluded
  pure (table.filter (rt.keepVerdict w table · = none))

/-- `_apply_drop_filter`. -/
def applyDropFilter (table : Table) : M ε W Table := do
  external .dropFilter (rt.attempt .dropFilter)
  note (.skipped (table.filter (rt.dropVerdict table ·)) .filterDropped)
  pure (table.filter (!rt.dropVerdict table ·))

/-- `pending.append(table)` and its two counters, for a table with rows. -/
def appendPending (table : Table) : M ε W PUnit :=
  if 0 < table.length then
    modify fun s => { s with
      pending := s.pending ++ [table]
      pendingBytes := s.pendingBytes + rt.nbytes table
      pendingRecords := s.pendingRecords + table.length }
  else pure ⟨⟩

/-- Count the values that became no row, when there are any. -/
def noteJsonParse (values converted : List Msg) : M ε W PUnit :=
  if converted.length < values.length then
    note (.skipped (values.filter (!becomesRow rt values ·)) .jsonParse)
  else pure ⟨⟩

/-- The `if values:` block. -/
def ingest (values : List Msg) : M ε W PUnit := do
  match ← convertBatch rt values with
  | none => note (.skipped values .jsonParse)
  | some converted =>
      let coerced ← coerceColumns rt converted
      let kept ← applyFilter rt coerced
      let table ← applyDropFilter rt kept
      appendPending rt table
      noteJsonParse rt values converted

/-! ## Writing -/

/-- `_write_retry_budget`. -/
def retryBudget : ℕ × ℚ := rt.writeRetryBudget.getD (writeMaxRetries, writeBaseDelayS)

/-- `_retry_delay`: the backoff, floored by the server's hint, clamped, with jitter. -/
def retryDelay (attempt : ℕ) (base : ℚ) : M ε W ℚ := do
  let backoff := min (base * 2 ^ attempt) retryAfterMaxS
  let w := (← get).world
  let (seconds, w') := match rt.retryAfterHint with
    | none => (none, w)
    | some hint => hint w
  let delay := match seconds with
    | none => backoff
    | some seconds => max backoff (min seconds retryAfterMaxS)
  let (jitter, w'') := rt.uniform (delay * retryJitter) w'
  onWorld (fun _ => w'')
  pure (min (delay + jitter) retryAfterMaxS)

/-- The time `_write_with_retry` would be at after the next attempt, against its budget. -/
def deadlineExceeded (started now delay : ℚ) : Bool :=
  match rt.writeFlushDeadline with
  | none => false
  | some (budget, attemptCost) => budget < (now - started) + delay + attemptCost

/-- The `except` block of `_write_with_retry`. -/
def afterWriteFailure (maxAttempts : ℕ) (base started : ℚ) (attempt : ℕ) :
    Exn ε → M ε W PUnit
  | .killed => throw .killed
  | .raised failure => do
      let w := (← get).world
      let permanent := match rt.isRetryable with
        | none => false
        | some retryable => !retryable w failure.error
      -- the mark is what makes the shutdown skip the final flush
      if permanent then
        throw (.raised { failure with permanent := rt.canMark failure.error })
      else if attempt + 1 = maxAttempts then throw (.raised failure)
      else
        let delay ← retryDelay rt attempt base
        let now := rt.now (← get).world
        if deadlineExceeded rt started now delay then throw (.raised failure)
        else
          onWorld rt.resetCaches
          onWorld (rt.sleep delay)

/-- `_write_with_retry`. -/
def writeWithRetry (batch : Table) (args : Option WriteArgs) : M ε W ℕ := do
  let (maxAttempts, base) := retryBudget rt
  let started := rt.now (← get).world
  retry 0
    (fun _ => do
      let count ← external .write (rt.write batch args)
      note (.wrote batch count)
      pure count)
    (afterWriteFailure rt maxAttempts base started) 0 maxAttempts

/-- `_sink_write_kwargs`. -/
def sinkWriteKwargs (offsets : Offsets) (trigger : Trigger) : Option WriteArgs :=
  if cfg.hoglake then
    some { kafkaOffsets := offsets.insertionSort (offsetLe · ·), trigger := trigger }
  else none

/-! ## Flushing -/

/-- The `except` block of the offset commit. -/
def afterCommitFailure (attempt : ℕ) : Exn ε → M ε W PUnit
  | .killed => throw .killed
  | .raised failure =>
      if attempt + 1 = commitMaxRetries then throw (.raised failure)
      else onWorld (rt.sleep (commitBaseDelayS * 2 ^ attempt))

/-- The offset commit of `_flush`. -/
def commitOffsets (offsets : List (Key × ℕ)) : M ε W PUnit :=
  retry ⟨⟩
    (fun _ => do
      note (.commit offsets)
      let _ ← external .commit (rt.commit offsets)
      pure ⟨⟩)
    (afterCommitFailure rt) 0 commitMaxRetries

/-- `pa.concat_tables(pending)`. -/
def concatPending : M ε W Table := do
  let _ ← external .concat (rt.attempt .concat)
  pure (← get).pending.flatten

/-- `_flush`. -/
def flush (consolidated : Table) (trigger : Trigger) : M ε W PUnit := do
  let _ ← external .sort (rt.attempt .sort)
  let offsets := (← get).offsets
  -- write first, commit after: a crash between the two writes again
  let _ ← writeWithRetry rt (rt.sorted consolidated) (sinkWriteKwargs cfg offsets trigger)
  commitOffsets rt (tpOffsets offsets)
  let _ ← external .flushMetrics (rt.attempt .flushMetrics)

/-- The lag sampling after a flush. -/
def sampleLag : M ε W PUnit := do
  let s ← get
  if lagSampleIntervalS ≤ rt.now s.world - s.lastLagSample then
    let _ ← external .lagSample (rt.attempt .lagSample)
    modify fun s' => { s' with lastLagSample := rt.now s.world }

/-- `pending.clear()` and the rest of the reset after a flush. -/
def clearPending : M ε W PUnit :=
  modify fun s => { s with
    pending := [], pendingBytes := 0, pendingRecords := 0, offsets := []
    lastFlush := rt.now s.world }

/-- What triggers a flush now, if anything does. -/
def flushTrigger (s : St W) : Option Trigger :=
  let sizeTriggered := cfg.flushSize ≤ s.pendingBytes
  let timeTriggered := cfg.flushIntervalS ≤ rt.now s.world - s.lastFlush
  if 0 < s.pendingRecords ∧ (sizeTriggered ∨ timeTriggered) then
    some (if sizeTriggered then .size else .time)
  else none

/-- The flush of one iteration, with everything up to `last_flush = time.monotonic()`. -/
def flushPending (trigger : Trigger) : M ε W PUnit := do
  let consolidated ← concatPending rt
  flush rt cfg consolidated trigger
  sampleLag rt
  clearPending rt

/-! ## The loop -/

/-- `kafka.consume` and `health.record_poll()`. -/
def poll : M ε W (List Msg) := do
  let s ← get
  let remaining := cfg.flushIntervalS - (rt.now s.world - s.lastFlush)
  let msgs ← external .consume
    (rt.consume (computeBatchSize cfg s.pendingBytes) (consumeTimeout remaining))
  let polledAt := rt.now (← get).world
  modify fun s => { s with lastPoll := polledAt }
  note (.polled polledAt)
  pure msgs

/-- The `if msgs:` block. -/
def receive (msgs : List Msg) : M ε W PUnit := do
  note (.consumed (msgs.filter (!·.error)))
  let s ← get
  let (values, offsets) := takeMessages msgs s.offsets
  -- the offsets are taken up before the values are converted
  modify fun s => { s with offsets := offsets }
  if values.isEmpty then pure ⟨⟩ else ingest rt values

/-- One iteration of `while not shutdown`. -/
def iteration : M ε W PUnit := do
  let msgs ← poll rt cfg
  receive rt msgs
  match flushTrigger rt cfg (← get) with
  | none => pure ⟨⟩
  | some trigger => flushPending rt cfg trigger

/-- At most `n` iterations of the loop. -/
def loop (n : ℕ) : M ε W PUnit :=
  whileLoop (fun s => !rt.shutdown s.world) (iteration rt cfg) n

/-! ## Shutdown -/

/-- What the shutdown path does with the pending buffer. -/
inductive FinalFlush where
  | none
  | skip
  | flush
deriving DecidableEq, Repr

/-- `_final_flush_decision`. -/
def finalFlushDecision (pendingRecords : ℕ) (loopError : Option (Failure ε)) (started : Bool) :
    FinalFlush :=
  if pendingRecords = 0 then .none
  else if loopError.any (·.permanent) then .skip
  else if started then .flush else .none

/-- The `finally` block: the final flush, whose own exception is logged and dropped. -/
def shutDown (loopError : Option (Failure ε)) : M ε W PUnit := do
  match finalFlushDecision (← get).pendingRecords loopError true with
  | .flush =>
      tryCatch
        (do
          let consolidated ← concatPending rt
          flush rt cfg consolidated .final)
        (fun
          | .killed => throw .killed
          | .raised _ => pure ⟨⟩)
  | _ => pure ⟨⟩

/-- The state in which the loop is entered: nothing pending, `mark_started` just called. -/
def St.init (w : W) : St W where
  pending := []
  pendingBytes := 0
  pendingRecords := 0
  offsets := []
  lastFlush := rt.now w
  lastLagSample := 0
  lastPoll := rt.now w
  world := w
  trace := []

/-- **A run of `main()`**: at most `n` iterations and, when the loop is over by then, the
    `finally` block. A killed process stops where it is. -/
def runMain (w : W) (n : ℕ) : St W :=
  match loop rt cfg n (St.init rt w) with
  | .ok _ s => if rt.shutdown s.world then final (shutDown rt cfg none) s else s
  | .error (.raised failure) s => final (shutDown rt cfg (some failure)) s
  | .error .killed s => s

/-- The exception that ended the loop and the state it left, if one did. -/
def loopFailure (w : W) (n : ℕ) : Option (Failure ε × St W) :=
  match loop rt cfg n (St.init rt w) with
  | .error (.raised failure) s => some (failure, s)
  | _ => none

end Millpond.Main
