import Millpond.Lib.PartitionLog
import Millpond.Main.Runtime
import Mathlib.Data.Int.CardIntervalMod
import Mathlib.Data.List.Perm.Lattice

set_option autoImplicit false

/-! # How a pod comes to its partitions

`consumer.py`: the static assignment, the recovery of stale offsets before it, the gauges seeded by it,
and the periodic sample of the lag. Partitions are those of the one topic. What librdkafka and the
broker answer are parameters; the client settings and the statistics callback are left out. -/

namespace Millpond.Consumer

open PartitionLog (Reset)

/-! ## Assignment -/

inductive CreateError where
  | topicNotFound
  | topicError
  | noPartitions (ordinal partitionCount replicaCount : ℕ)
deriving DecidableEq, Repr

/-- What the broker says of the topic. -/
structure TopicMeta where
  error : Bool
  partitions : ℕ

/-- `discover_partition_count`. -/
def discoverPartitionCount : Option TopicMeta → Except CreateError ℕ
  | none => .error .topicNotFound
  | some topicMeta => if topicMeta.error then .error .topicError else .ok topicMeta.partitions

/-- `compute_assignment`. -/
def computeAssignment (partitionCount replicaCount ordinal : ℕ) : List ℕ :=
  (List.range partitionCount).filter fun p => p % replicaCount == ordinal

/-! ## Watermarks -/

/-- `OFFSET_INVALID`. -/
def offsetInvalid : ℤ := -1001

structure TopicPartition where
  partition : ℕ
  offset : ℤ
  error : Bool
deriving DecidableEq, Repr

/-- The futures of one `list_offsets` call, if it was dispatched. -/
abbrev Futures := Option (ℕ → Option ℤ)

/-- The pair of a partition, if both of its futures have a value. -/
def watermark (low high : ℕ → Option ℤ) (p : ℕ) : Option (ℕ × (ℤ × ℤ)) := do
  let l ← low p
  let h ← high p
  some (p, (l, h))

/-- `query_watermarks`. A future that raises is one without a value. -/
def queryWatermarks (earliest latest : Futures) (tps : List ℕ) : List (ℕ × (ℤ × ℤ)) :=
  if tps.isEmpty then []
  else
    match earliest, latest with
    | some low, some high => tps.filterMap (watermark low high)
    | _, _ => []

/-- `high if cfg.auto_offset_reset == "latest" else low`. -/
def resetTarget (reset : Reset) (low high : ℤ) : ℤ :=
  match reset with
  | .latest => high
  | .earliest => low

/-! ## Recovery -/

/-- What the clients answer at startup. Without `committed` the call raised. -/
structure StartupReplies where
  committed : Option (List TopicPartition)
  earliest : Futures
  latest : Futures
  commitRaises : Bool

/-- What the startup does: the offsets it commits, and the gauges it sets, as the lag and the position
    of a partition. -/
structure Recovery where
  toRecover : List (ℕ × ℤ)
  gauges : List (ℕ × (ℤ × ℤ))
deriving DecidableEq, Repr

/-- Read from a dict built of these entries: the last one of a key. -/
def dictGet {α : Type} (entries : List (ℕ × α)) (p : ℕ) : Option α := entries.reverse.lookup p

/-- The committed offset of the partition, if it has one. -/
def TopicPartition.isCommitted (tp : TopicPartition) : Bool := !tp.error && tp.offset != offsetInvalid

/-- The partition was never committed. -/
def TopicPartition.isFresh (tp : TopicPartition) : Bool := !tp.error && tp.offset == offsetInvalid

/-- The position `_seed_startup_gauges` gives a partition. -/
def seededPosition (reset : Reset) (committed : List TopicPartition) (recovered : List (ℕ × ℤ)) (p : ℕ)
    (low high : ℤ) : ℤ :=
  match dictGet recovered p with
  | some offset => offset
  | none =>
      match dictGet (committed.map fun tp => (tp.partition, tp)) p with
      | some tp => if tp.isCommitted && low ≤ tp.offset then tp.offset else resetTarget reset low high
      | none => resetTarget reset low high

/-- `_seed_startup_gauges`. -/
def seedStartupGauges (reset : Reset) (committed : List TopicPartition)
    (watermarks : List (ℕ × (ℤ × ℤ))) (recovered : List (ℕ × ℤ)) : List (ℕ × (ℤ × ℤ)) :=
  watermarks.map fun (p, (low, high)) =>
    let position := seededPosition reset committed recovered p low high
    (p, (high - position, position))

/-- The offset a stale partition is moved to. -/
def recoveredOffset (reset : Reset) (watermarks : List (ℕ × (ℤ × ℤ))) (tp : TopicPartition) :
    Option (ℕ × ℤ) :=
  match dictGet watermarks tp.partition with
  | none => none
  | some (low, high) =>
      if low ≤ tp.offset then none else some (tp.partition, resetTarget reset low high)

/-- `_recover_stale_committed_offsets`, for some partitions. -/
def recoverStaleCommittedOffsets (reset : Reset) (replies : StartupReplies) : Recovery :=
  match replies.committed with
  | none => ⟨[], []⟩
  | some committed =>
      let needsWatermark := committed.filter TopicPartition.isCommitted
      let fresh := committed.filter TopicPartition.isFresh
      let watermarks := queryWatermarks replies.earliest replies.latest
        ((needsWatermark ++ fresh).map TopicPartition.partition)
      let toRecover := needsWatermark.filterMap (recoveredOffset reset watermarks)
      let recovered := if !toRecover.isEmpty && replies.commitRaises then [] else toRecover
      ⟨toRecover, seedStartupGauges reset committed watermarks recovered⟩

/-- `create`: the partitions it assigns at their stored offsets, after the recovery. -/
def create (topicMeta : Option TopicMeta) (replicaCount ordinal : ℕ) (reset : Reset)
    (replies : List ℕ → StartupReplies) : Except CreateError (List ℕ × Recovery) := do
  let partitionCount ← discoverPartitionCount topicMeta
  let myPartitions := computeAssignment partitionCount replicaCount ordinal
  if myPartitions.isEmpty then .error (.noPartitions ordinal partitionCount replicaCount)
  else .ok (myPartitions, recoverStaleCommittedOffsets reset (replies myPartitions))

/-! ## The assignments of a generation -/

theorem mem_computeAssignment {partitionCount replicaCount ordinal p : ℕ} :
    p ∈ computeAssignment partitionCount replicaCount ordinal ↔
      p < partitionCount ∧ p % replicaCount = ordinal := by
  simp [computeAssignment]

theorem nodup_computeAssignment (partitionCount replicaCount ordinal : ℕ) :
    (computeAssignment partitionCount replicaCount ordinal).Nodup :=
  List.nodup_range.filter _

theorem length_computeAssignment_eq_count {replicaCount ordinal : ℕ} (h : ordinal < replicaCount)
    (partitionCount : ℕ) : (computeAssignment partitionCount replicaCount ordinal).length =
      Nat.count (· ≡ ordinal [MOD replicaCount]) partitionCount := by
  induction partitionCount with
  | zero => rfl
  | succ n ih =>
      rw [Nat.count_succ, ← ih]
      simp only [computeAssignment, List.range_succ, List.filter_append, List.length_append]
      by_cases hmod : n % replicaCount = ordinal
      · simp [hmod, Nat.ModEq, Nat.mod_eq_of_lt h]
      · simp [hmod, Nat.ModEq, Nat.mod_eq_of_lt h]

/-- The share of an ordinal: an equal part, or one more for the first ones. -/
theorem length_computeAssignment {partitionCount replicaCount ordinal : ℕ}
    (h : ordinal < replicaCount) : (computeAssignment partitionCount replicaCount ordinal).length =
      partitionCount / replicaCount + if ordinal < partitionCount % replicaCount then 1 else 0 := by
  rw [length_computeAssignment_eq_count h, Nat.count_modEq_card _ (Nat.zero_lt_of_lt h),
    Nat.mod_eq_of_lt h]

theorem create_refuses_iff {partitionCount replicaCount ordinal : ℕ} (h : ordinal < replicaCount)
    (reset : Reset) (replies : List ℕ → StartupReplies) :
    create (some ⟨false, partitionCount⟩) replicaCount ordinal reset replies =
      .error (.noPartitions ordinal partitionCount replicaCount) ↔ partitionCount ≤ ordinal := by
  have hempty : (computeAssignment partitionCount replicaCount ordinal).isEmpty = true ↔
      partitionCount ≤ ordinal := by
    rw [List.isEmpty_iff, List.eq_nil_iff_forall_not_mem]
    constructor
    · intro hnone
      by_contra hlt
      exact hnone ordinal (mem_computeAssignment.2 ⟨by omega, Nat.mod_eq_of_lt h⟩)
    · intro hle p hp
      obtain ⟨hlt, hmod⟩ := mem_computeAssignment.1 hp
      have := Nat.mod_le p replicaCount
      omega
  rw [← hempty]
  have hcreate : create (some ⟨false, partitionCount⟩) replicaCount ordinal reset replies =
      if (computeAssignment partitionCount replicaCount ordinal).isEmpty then
        .error (.noPartitions ordinal partitionCount replicaCount)
      else .ok (computeAssignment partitionCount replicaCount ordinal, recoverStaleCommittedOffsets reset
        (replies (computeAssignment partitionCount replicaCount ordinal))) := rfl
  rw [hcreate]
  split <;> simp [*]

/-- **A generation shares the topic out.** The assignments of the ordinals of a replica count name
    every partition exactly once, their sizes differ by at most one, and `create` refuses exactly the
    ordinals that no partition is left for. -/
theorem assignments_share_topic (partitionCount replicaCount : ℕ) (h : 0 < replicaCount) :
    ((List.range replicaCount).flatMap (computeAssignment partitionCount replicaCount)).Perm
        (List.range partitionCount) ∧
      (∀ o < replicaCount, ∀ o' < replicaCount,
        (computeAssignment partitionCount replicaCount o).length ≤
          (computeAssignment partitionCount replicaCount o').length + 1) ∧
      ∀ o < replicaCount, ∀ reset replies,
        create (some ⟨false, partitionCount⟩) replicaCount o reset replies =
          .error (.noPartitions o partitionCount replicaCount) ↔ partitionCount ≤ o := by
  refine ⟨?_, fun o ho o' ho' => ?_, fun o ho reset replies => create_refuses_iff ho reset replies⟩
  · rw [List.perm_ext_iff_of_nodup ?_ List.nodup_range]
    · intro p
      simp only [List.mem_flatMap, mem_computeAssignment, List.mem_range]
      exact ⟨fun ⟨_, _, hp, _⟩ => hp, fun hp => ⟨_, Nat.mod_lt p h, hp, rfl⟩⟩
    · refine List.nodup_flatMap.2 ⟨fun o _ => nodup_computeAssignment _ _ o, ?_⟩
      refine List.nodup_range.imp fun hne p hp hp' => hne ?_
      exact (mem_computeAssignment.1 hp).2.symm.trans (mem_computeAssignment.1 hp').2
  · rw [length_computeAssignment ho, length_computeAssignment ho']
    split <;> split <;> omega

theorem eight_partitions_three_replicas :
    ((List.range 3).flatMap (computeAssignment 8 3)).Perm (List.range 8) ∧
      (∀ o < 3, ∀ o' < 3, (computeAssignment 8 3 o).length ≤ (computeAssignment 8 3 o').length + 1) ∧
      ∀ o < 3, ∀ reset replies, create (some ⟨false, 8⟩) 3 o reset replies =
        .error (.noPartitions o 8 3) ↔ 8 ≤ o :=
  assignments_share_topic 8 3 (by decide)

end Millpond.Consumer
