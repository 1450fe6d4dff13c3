import Millpond.Main.Loop
import Millpond.Hoglake.Sink
import Millpond.Config.LivenessBudget

set_option autoImplicit false

/-! # A pod and its lifetimes

The loop of `main()` over a `HoglakeSink`, as one process after another of the same pod. Kafka, the
filters and Arrow answer from an environment that every call may change; what a process held in
memory dies with it, the catalog, the object store and the broker's offsets stay. Closing the
consumer, the sink and the health server is left out: nothing is written or committed after it. -/

namespace Millpond.Restart

open Main (Msg Offsets Runtime LoopConfig KeepReason Outcome)

/-! ## The process -/

/-- `_RETRYABLE_CLIENT_STATUS`. -/
def retryableClientStatus : List ℕ := [408, 429]

/-- `is_retryable`. -/
def isRetryable : Hoglake.Error → Bool
  | .sink retryable => retryable
  | .hoglake e =>
      if e.is .commitConflict || e.is .incarnationChanged then true
      else if e.is .malformedResponse || e.is .validation || e.is .alreadyExists || e.is .expired then
        false
      else
        match e.statusCode with
        | none => true
        | some status =>
            if status ∈ retryableClientStatus then true
            else if 400 ≤ status ∧ status < 500 then e.is .notFound
            else true
  | .transport => true
  | .arrow => false
  | .value => false
  -- no exception, so nobody asks
  | .killed => true

/-- How a call ends, the environment it leaves and the time it takes. -/
structure Reply (E α : Type) where
  outcome : Outcome Hoglake.Raised α
  env : E
  elapsed : ℚ
  elapsed_nonneg : 0 ≤ elapsed

/-- A pod: its configuration, and what its surroundings answer. -/
structure Pod (E V : Type) where
  sink : Hoglake.SinkConfig
  backend : Hoglake.Backend Msg V
  retry : Config.HoglakeRetry
  loop : LoopConfig
  hoglake : loop.hoglake = true
  /-- The Arrow table with these rows. -/
  batch : Main.Table → Hoglake.Batch Msg V
  batch_rows : ∀ table, (batch table).rows = table
  uniform : ℚ → E → ℚ × E
  shutdown : E → Bool
  consume : ℕ → ℚ → E → Reply E (List Msg)
  attempt : Main.Call → E → Reply E Unit
  commit : List (Main.Key × ℕ) → E → Reply E Unit
  /-- Whether the broker takes the offsets of a commit that does not return. -/
  takes : List (Main.Key × ℕ) → E → Bool
  decodes : Msg → Bool
  hasKeys : Msg → Bool
  keepVerdict : E → Main.Table → Msg → Option KeepReason
  dropVerdict : Main.Table → Msg → Bool
  sorted : Main.Table → Main.Table
  sorted_perm : ∀ table, (sorted table).Perm table

/-- What a process runs on, with a record of the calls it made. -/
structure State (E V : Type) where
  env : E
  sink : Hoglake.St Msg
  /-- The committed offset of each partition. -/
  broker : Main.Key → ℕ
  /-- The calls of `sink.write`, each with the state it found. -/
  writes : List (Hoglake.Flush Msg V × Hoglake.St Msg)
  /-- The world at each call of `kafka.commit`. -/
  commits : List (Hoglake.World Msg)

variable {E V : Type}

/-- Time passes. -/
def State.elapse (d : ℚ) (nonneg : 0 ≤ d) (s : State E V) : State E V :=
  { s with sink := { s.sink with
      world := { s.sink.world with net := s.sink.world.net.move (.elapse d nonneg) } } }

/-- A call of the surroundings is over. -/
def State.after {α : Type} (reply : Reply E α) (s : State E V) : State E V :=
  { s.elapse reply.elapsed reply.elapsed_nonneg with env := reply.env }

/-- The offsets of a commit in the broker. -/
def storeOffsets (offsets : List (Main.Key × ℕ)) (broker : Main.Key → ℕ) : Main.Key → ℕ :=
  fun key => (offsets.lookup key).getD (broker key)

def returned {ε α : Type} : Outcome ε α → Bool
  | .ok _ => true
  | _ => false

/-- The `trigger` label as text. -/
def triggerText : Main.Trigger → String
  | .size => "size"
  | .time => "time"
  | .final => "final"

variable (pod : Pod E V)

/-- The flush that `sink.write` is called for. -/
def Pod.flushOf (table : Main.Table) (args : Option Main.WriteArgs) : Hoglake.Flush Msg V where
  batch := pod.batch table
  kafkaOffsets := args.map (·.kafkaOffsets)
  trigger := args.map (triggerText ·.trigger)

/-- `sink.write`. -/
def Pod.write (table : Main.Table) (args : Option Main.WriteArgs) (s : State E V) :
    Outcome Hoglake.Raised ℕ × State E V :=
  let flush := pod.flushOf table args
  let writes := s.writes ++ [(flush, s.sink)]
  match Hoglake.write pod.sink pod.backend flush s.sink with
  | .ok count sink => (.ok count, { s with sink := sink, writes := writes })
  | .error r sink =>
      (if r.error = .killed then .killed else .raised r, { s with sink := sink, writes := writes })

/-- `kafka.commit`. -/
def Pod.commitOffsets (offsets : List (Main.Key × ℕ)) (s : State E V) :
    Outcome Hoglake.Raised Unit × State E V :=
  let reply := pod.commit offsets s.env
  let taken := returned reply.outcome || pod.takes offsets s.env
  (reply.outcome, { s.after reply with
    broker := if taken then storeOffsets offsets s.broker else s.broker
    commits := s.commits ++ [s.sink.world] })

/-- The runtime of the loop. -/
def Pod.runtime : Runtime Hoglake.Raised (State E V) where
  now := fun s => s.sink.world.net.now
  sleep := fun delay s => s.elapse (max delay 0) (le_max_right delay 0)
  uniform := fun upper s => ((pod.uniform upper s.env).1, { s with env := (pod.uniform upper s.env).2 })
  shutdown := fun s => pod.shutdown s.env
  consume := fun count timeout s =>
    ((pod.consume count timeout s.env).outcome, s.after (pod.consume count timeout s.env))
  attempt := fun call s => ((pod.attempt call s.env).outcome, s.after (pod.attempt call s.env))
  decodes := pod.decodes
  hasKeys := pod.hasKeys
  keepVerdict := fun s => pod.keepVerdict s.env
  dropVerdict := pod.dropVerdict
  nbytes := fun table => pod.backend.nbytes (pod.batch table)
  sorted := pod.sorted
  sorted_perm := pod.sorted_perm
  write := pod.write
  resetCaches := fun s => { s with sink := Prog.final Hoglake.resetCaches s.sink }
  isRetryable := some fun _ r => isRetryable r.error
  canMark := fun _ => true
  writeRetryBudget := some (pod.retry.maxRetries, Main.writeBaseDelayS)
  writeRetryBudget_pos := by
    rintro _ ⟨⟩
    exact pod.retry.maxRetries_pos
  retryAfterHint := some fun s =>
    (s.sink.sink.retryAfter,
      { s with sink := { s.sink with sink := { s.sink.sink with retryAfter := none } } })
  writeFlushDeadline := some (Config.hoglakeFlushDeadline pod.retry.timeoutS)
  commit := pod.commitOffsets

/-! ## One process after another -/

/-- The state in which a process enters its loop, with a new sink. -/
def State.boot (env : E) (broker : Main.Key → ℕ) (world : Hoglake.World Msg) : State E V where
  env := env
  sink := Hoglake.St.new world
  broker := broker
  writes := []
  commits := []

/-- A process: what it starts on, and the most iterations it gets to. -/
structure Lifetime (E V : Type) where
  start : State E V
  iterations : ℕ

/-- The life of a process. It ends when the loop does, in any call that does not return, or between
    two iterations. -/
def Pod.live (life : Lifetime E V) : Main.St (State E V) :=
  Main.runMain pod.runtime pod.loop life.start life.iterations

/-- The world without the client that died with its process. -/
def withoutClient (world : Hoglake.World Msg) : Hoglake.World Msg :=
  { world with handle := { world.handle with cache := none } }

/-- The lifetimes of a pod, from the environments its processes find. -/
def Pod.lifetimes (pod : Pod E V) (broker : Main.Key → ℕ) (world : Hoglake.World Msg) :
    List (E × ℕ) → List (Lifetime E V)
  | [] => []
  | (env, iterations) :: rest =>
      let life : Lifetime E V := ⟨.boot env broker world, iterations⟩
      let last := (pod.live life).world
      life :: pod.lifetimes last.broker (withoutClient last.sink.world) rest

end Millpond.Restart
