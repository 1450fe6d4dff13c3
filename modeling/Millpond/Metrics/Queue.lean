import Mathlib.Algebra.BigOperators.Group.Finset.Basic
import Mathlib.Algebra.Order.BigOperators.Group.Finset
import Mathlib.Tactic.Ring
import Millpond.Metrics.Liveness

set_option autoImplicit false

/-! # The queue of the scheduler

Every query stands on the heap exactly once. An iteration takes the first entry off and puts the
query back, due its interval after it ended; what is said about the order of the runs comes from
there. -/

namespace Millpond.Metrics

variable {queries : List Query} {s s' : Scheduler} {turn : Turn}

/-! ## One iteration -/

/-- An iteration that can happen: no overhead and no run takes negative time. -/
structure Turn.Possible (turn : Turn) : Prop where
  late : 0 ≤ turn.late
  duration : 0 ≤ turn.duration
  spent : 0 ≤ turn.spent

instance (turn : Turn) : Decidable turn.Possible :=
  decidable_of_iff (0 ≤ turn.late ∧ 0 ≤ turn.duration ∧ 0 ≤ turn.spent)
    ⟨fun ⟨h₁, h₂, h₃⟩ => ⟨h₁, h₂, h₃⟩, fun ⟨h₁, h₂, h₃⟩ => ⟨h₁, h₂, h₃⟩⟩

/-- What an iteration takes from the moment its query may start. -/
def Turn.elapsed (turn : Turn) : ℚ := turn.late + turn.duration + turn.spent

theorem Turn.Possible.elapsed_nonneg (h : turn.Possible) : 0 ≤ turn.elapsed :=
  add_nonneg (add_nonneg h.late h.duration) h.spent

/-- `q.interval_seconds` of a query on the heap. -/
def intervalOf (queries : List Query) (idx : ℕ) : ℕ :=
  (queries[idx]?.map Query.intervalSeconds).getD 0

theorem intervalOf_eq {idx : ℕ} {q : Query} (h : queries[idx]? = some q) :
    intervalOf queries idx = q.intervalSeconds := by
  rw [intervalOf, h]
  rfl

/-- When the iteration that takes `due` ends. -/
def Scheduler.endOf (s : Scheduler) (due : Due) (turn : Turn) : ℚ :=
  max s.now due.next + turn.elapsed

/-- The entry with which the query comes back. -/
def Scheduler.requeue (queries : List Query) (s : Scheduler) (due : Due) (turn : Turn) : Due :=
  ⟨s.endOf due turn + intervalOf queries due.idx, s.seq, due.idx⟩

/-- All that an iteration does, if it does not ask for a reconnect. -/
structure Stepped (queries : List Query) (s : Scheduler) (turn : Turn) (due : Due) (rest : List Due)
    (s' : Scheduler) : Prop where
  heap : s.heap = due :: rest
  now : s'.now = s.endOf due turn
  requeued : s'.heap = heappush rest (s.requeue queries due turn)
  seq : s'.seq = s.seq + 1
  failures : s'.consecutiveFailures = if turn.succeeds then 0 else s.consecutiveFailures + 1

theorem step_stepped (h : s.step queries turn = .ok s') :
    ∃ due rest, Stepped queries s turn due rest s' := by
  unfold Scheduler.step at h
  cases hheap : s.heap with
  | nil =>
      rw [hheap] at h
      cases h
  | cons due rest =>
      rw [hheap] at h
      simp only at h
      have hend : s.startOf due turn + turn.duration + turn.spent = s.endOf due turn := by
        unfold Scheduler.startOf Scheduler.endOf Turn.elapsed
        ring
      rw [hend] at h
      generalize hcount : (if turn.succeeds then 0 else s.consecutiveFailures + 1) = failures at h
      split_ifs at h with hfailures
      obtain rfl := Except.ok.inj h
      exact ⟨due, rest, hheap, rfl, rfl, rfl, hcount.symm⟩

/-- The only other ends of an iteration. -/
theorem step_error (e : SchedulerError) (h : s.step queries turn = .error e) :
    s.heap = [] ∨ turn.succeeds = false ∧
      consecutiveFailureThreshold ≤ s.consecutiveFailures + 1 := by
  unfold Scheduler.step at h
  cases hheap : s.heap with
  | nil => exact .inl rfl
  | cons due rest =>
      rw [hheap] at h
      simp only at h
      cases hsucceeds : turn.succeeds with
      | true => simp [hsucceeds, consecutiveFailureThreshold] at h
      | false =>
          simp only [hsucceeds, Bool.false_eq_true, if_false] at h
          split_ifs at h with hfailures
          exact .inr ⟨rfl, hfailures⟩

namespace Stepped

variable {due : Due} {rest : List Due}

theorem mem_heap (h : Stepped queries s turn due rest s') {d : Due} :
    d ∈ s'.heap ↔ d = s.requeue queries due turn ∨ d ∈ rest := by
  rw [h.requeued, heappush, List.mem_orderedInsert]

theorem mem_old (h : Stepped queries s turn due rest s') {d : Due} (hd : d ∈ rest) : d ∈ s.heap := by
  rw [h.heap]
  exact List.mem_cons_of_mem _ hd

theorem due_mem (h : Stepped queries s turn due rest s') : due ∈ s.heap := by
  rw [h.heap]
  exact List.mem_cons_self

end Stepped

theorem now_le_endOf (s : Scheduler) (due : Due) (hturn : turn.Possible) : s.now ≤ s.endOf due turn :=
  le_add_of_le_of_nonneg (le_max_left _ _) hturn.elapsed_nonneg

theorem next_le_endOf (s : Scheduler) (due : Due) (hturn : turn.Possible) :
    due.next ≤ s.endOf due turn :=
  le_add_of_le_of_nonneg (le_max_right _ _) hturn.elapsed_nonneg

theorem endOf_le_requeue (s : Scheduler) (due : Due) :
    s.endOf due turn ≤ (s.requeue queries due turn).next :=
  le_add_of_nonneg_right (Nat.cast_nonneg _)

/-! ## The heap -/

/-- The heap between two iterations: in order, every query on it once, and nothing on it that was
    pushed after the next entry will be. -/
structure Queued (queries : List Query) (s : Scheduler) : Prop where
  sorted : s.heap.Pairwise Due.le
  each : (s.heap.map Due.idx).Perm (List.range queries.length)
  older : ∀ d ∈ s.heap, d.seq < s.seq

theorem queued_startScheduler (queries : List Query) (liveness : Liveness) (now : ℚ) :
    Queued queries (startScheduler queries liveness now) := by
  refine ⟨(scheduled_startScheduler liveness now).sorted, ?_, fun d hd => ?_⟩
  · have hids : (startScheduler queries liveness now).heap.map Due.idx = List.range queries.length := by
      unfold startScheduler
      rw [List.map_map]
      exact List.map_id _
    rw [hids]
  · obtain ⟨idx, hidx, rfl⟩ := List.mem_map.1 hd
    exact List.mem_range.1 hidx

namespace Queued

variable {due : Due} {rest : List Due}

theorem first_le (hq : Queued queries s) (h : s.heap = due :: rest) {d : Due} (hd : d ∈ rest) :
    due.le d := by
  have hsorted := hq.sorted
  rw [h] at hsorted
  exact List.rel_of_pairwise_cons hsorted hd

/-- The other entries are of other queries. -/
theorem idx_ne (hq : Queued queries s) (h : s.heap = due :: rest) {d : Due} (hd : d ∈ rest) :
    d.idx ≠ due.idx := by
  have hnodup : (s.heap.map Due.idx).Nodup := hq.each.nodup_iff.2 List.nodup_range
  rw [h, List.map_cons, List.nodup_cons] at hnodup
  exact fun heq => hnodup.1 (heq ▸ List.mem_map_of_mem hd)

theorem idx_lt (hq : Queued queries s) {d : Due} (hd : d ∈ s.heap) : d.idx < queries.length :=
  List.mem_range.1 (hq.each.subset (List.mem_map_of_mem hd))

theorem entry (hq : Queued queries s) {idx : ℕ} (h : idx < queries.length) :
    ∃ d ∈ s.heap, d.idx = idx :=
  List.mem_map.1 (hq.each.symm.subset (List.mem_range.2 h))

theorem stepped (hq : Queued queries s) (h : Stepped queries s turn due rest s') :
    Queued queries s' := by
  have hsorted := hq.sorted
  have heach := hq.each
  rw [h.heap] at hsorted heach
  refine ⟨?_, ?_, fun d hd => ?_⟩
  · rw [h.requeued]
    exact (List.Pairwise.of_cons hsorted).orderedInsert _ _
  · rw [h.requeued]
    exact ((List.perm_orderedInsert Due.le _ _).map Due.idx).trans heach
  · rw [h.seq]
    rcases h.mem_heap.1 hd with rfl | hrest
    · exact Nat.lt_succ_self _
    · exact Nat.lt_succ_of_lt (hq.older d (h.mem_old hrest))

end Queued

end Millpond.Metrics
