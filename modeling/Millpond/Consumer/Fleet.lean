import Millpond.Consumer.Recovery
import Millpond.Main.Positions

set_option autoImplicit false

/-! # The fleet and its topic

All pods of a consumer group on one broker, of any replica counts and at any time: a resize is pods that
stop and pods that start, and two generations may overlap. A pod reads offsets and watermarks one after
the other while everything else goes on, commits its recovery, and then goes through the events of its
loop. -/

namespace Millpond.Consumer

open Main (Msg Key Event Runtime LoopConfig)
open PartitionLog (Reset)

/-! ## Pods -/

/-- How far a pod has come, with what it read. -/
inductive Phase where
  | created
  | asked (committed : Option (List TopicPartition))
  | sawStarts (committed : Option (List TopicPartition)) (earliest : Futures)
  | sawEnds (replies : StartupReplies)
  | running

/-- A pod: its partitions, where it fetches each next once it fetches it, and the events of its loop. -/
structure Pod where
  partitions : List ℕ
  phase : Phase
  position : Key → Option ℕ
  past : List Event
  future : List Event

/-- The events are those of a run of `main()` in which no stage raises with rows pending. -/
def RunsLoop (events : List Event) : Prop :=
  ∃ (ε W : Type) (rt : Runtime ε W) (cfg : LoopConfig) (w : W) (n : ℕ),
    ¬ Main.LosesBatch rt cfg w n ∧ events = (Main.runMain rt cfg w n).trace

/-- The pod of an ordinal. -/
def Pod.new (partitionCount replicaCount ordinal : ℕ) (events : List Event) : Pod where
  partitions := computeAssignment partitionCount replicaCount ordinal
  phase := .created
  position _ := none
  past := []
  future := events

/-- Fetching goes on after the message. -/
def fetched (position : Key → Option ℕ) (m : Msg) : Key → Option ℕ :=
  Function.update position m.key (some (max ((position m.key).getD 0) (m.offset + 1)))

def advance (msgs : List Msg) (position : Key → Option ℕ) : Key → Option ℕ :=
  msgs.foldl fetched position

/-! ## The fleet -/

/-- The broker, the committed offsets of the group, the pods, and for good: the records a returned write
    had in its batch, those counted as skipped, and those a reset to `latest` passed over. -/
structure Fleet where
  broker : PartitionLog Msg
  committed : Key → Option ℕ
  pods : ℕ → Option Pod
  written : List Msg
  skipped : List Msg
  waived : List Msg

/-- No pod has run yet. -/
structure Fleet.Fresh (f : Fleet) : Prop where
  committed : ∀ k, f.committed k = none
  pods : ∀ i, f.pods i = none
  waived : f.waived = []

def Fleet.withPod (f : Fleet) (i : ℕ) (pod : Pod) : Fleet :=
  { f with pods := Function.update f.pods i (some pod) }

/-- What the broker has of a partition before `n`, if a reset passes over it. -/
def passedOver (reset : Reset) (b : PartitionLog Msg) (k : Key) (n : ℕ) : List Msg :=
  match reset with
  | .latest => b.retained.filter fun m => decide (m.key = k ∧ m.offset < n)
  | .earliest => []

/-- The commit of the recovery. -/
def Fleet.recover (topic : String) (reset : Reset) (f : Fleet) (replies : StartupReplies)
    (takes : ℕ → Bool) : Fleet :=
  let toRecover := (recoverStaleCommittedOffsets reset replies).toRecover
  { f with
    committed := afterRecovery topic f.committed toRecover takes
    waived := f.waived ++ toRecover.flatMap fun (p, offset) =>
      passedOver reset f.broker (topic, p) offset.toNat }

/-- Fetching of a partition starts, or starts again when the log has moved past it. -/
def Fleet.seek (reset : Reset) (f : Fleet) (i : ℕ) (pod : Pod) (k : Key) : Fleet :=
  let stored := if (pod.position k).isNone then f.committed k else none
  let offset := f.broker.resolve reset k stored
  { f.withPod i { pod with position := Function.update pod.position k (some offset) } with
    waived := f.waived ++ if stored = some offset then [] else passedOver reset f.broker k offset }

/-- The offsets of a commit of which the broker takes some. -/
def storeOffsets (offsets : List (Key × ℕ)) (takes : Key → Bool) (committed : Key → Option ℕ)
    (k : Key) : Option ℕ :=
  if takes k then (offsets.lookup k).or (committed k) else committed k

/-- The next event of a pod happens. -/
def Fleet.happen (f : Fleet) (i : ℕ) (pod : Pod) (takes : Key → Bool) (e : Event) (rest : List Event) :
    Fleet :=
  let pod := { pod with past := pod.past ++ [e], future := rest }
  match e with
  | .polled _ => f.withPod i pod
  | .consumed msgs => f.withPod i { pod with position := advance msgs pod.position }
  | .skipped msgs _ => { f.withPod i pod with skipped := f.skipped ++ msgs }
  | .wrote batch _ => { f.withPod i pod with written := f.written ++ batch }
  | .commit offsets => { f.withPod i pod with committed := storeOffsets offsets takes f.committed }

/-- What `consume` returns: of a partition that is fetched, all that the log has up to the last message. -/
def Delivers (b : PartitionLog Msg) (pod : Pod) (msgs : List Msg) : Prop :=
  ∀ m ∈ msgs, ∃ n, pod.position m.key = some n ∧ m.offset < b.next m.key ∧
    ∀ m' ∈ b.retained, m'.error = false → m'.key = m.key → n ≤ m'.offset → m'.offset ≤ m.offset →
      m' ∈ msgs

/-- The futures tell these offsets, where they tell any. -/
def Tells (topic : String) (futures : Futures) (offsets : Key → ℕ) : Prop :=
  ∀ told, futures = some told → ∀ p offset, told p = some offset → offset = offsets (topic, p)

/-- One step of the fleet, its broker or its orchestrator. -/
inductive Step (topic : String) (reset : Reset) : Fleet → Fleet → Prop where
  | broker (f : Fleet) (b : PartitionLog Msg) (moves : f.broker.Moves b) :
      Step topic reset f { f with broker := b }
  | start (f : Fleet) (i partitionCount replicaCount ordinal : ℕ) (events : List Event)
      (runs : RunsLoop events) :
      Step topic reset f (f.withPod i (Pod.new partitionCount replicaCount ordinal events))
  | stop (f : Fleet) (i : ℕ) :
      Step topic reset f { f with pods := Function.update f.pods i none }
  | ask (f : Fleet) (i : ℕ) (pod : Pod) (here : f.pods i = some pod) (phase : pod.phase = .created)
      (committed : Option (List TopicPartition))
      (tells : ∀ tps, committed = some tps → tps.map TopicPartition.partition = pod.partitions ∧
        ∀ tp ∈ tps, tp.error = false → tp.offset = storedOffset (f.committed (topic, tp.partition))) :
      Step topic reset f (f.withPod i { pod with phase := .asked committed })
  | seeStarts (f : Fleet) (i : ℕ) (pod : Pod) (here : f.pods i = some pod)
      (committed : Option (List TopicPartition)) (phase : pod.phase = .asked committed)
      (earliest : Futures) (tells : Tells topic earliest f.broker.start) :
      Step topic reset f (f.withPod i { pod with phase := .sawStarts committed earliest })
  | seeEnds (f : Fleet) (i : ℕ) (pod : Pod) (here : f.pods i = some pod)
      (committed : Option (List TopicPartition)) (earliest : Futures)
      (phase : pod.phase = .sawStarts committed earliest)
      (latest : Futures) (tells : Tells topic latest f.broker.next) (commitRaises : Bool) :
      Step topic reset f
        (f.withPod i { pod with phase := .sawEnds ⟨committed, earliest, latest, commitRaises⟩ })
  | recover (f : Fleet) (i : ℕ) (pod : Pod) (here : f.pods i = some pod) (replies : StartupReplies)
      (phase : pod.phase = .sawEnds replies) (takes : ℕ → Bool) :
      Step topic reset f
        ((f.recover topic reset replies takes).withPod i { pod with phase := .running })
  | seek (f : Fleet) (i : ℕ) (pod : Pod) (here : f.pods i = some pod) (phase : pod.phase = .running)
      (p : ℕ) (mine : p ∈ pod.partitions)
      (lost : ∀ n, pod.position (topic, p) = some n → n < f.broker.start (topic, p)) :
      Step topic reset f (f.seek reset i pod (topic, p))
  | event (f : Fleet) (i : ℕ) (pod : Pod) (here : f.pods i = some pod) (phase : pod.phase = .running)
      (e : Event) (rest : List Event) (next : pod.future = e :: rest)
      (delivers : ∀ msgs, e = .consumed msgs → Delivers f.broker pod msgs) (takes : Key → Bool) :
      Step topic reset f (f.happen i pod takes e rest)

end Millpond.Consumer
