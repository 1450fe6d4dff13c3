import Millpond.Metrics.Queue

set_option autoImplicit false

/-! # How late a query starts

A query that is overdue stands before everything that is put on the heap after its due time. So the
runs between its due time and its start are of different queries, and none is its own. -/

namespace Millpond.Metrics

variable {queries : List Query} {s s' : Scheduler} {turn : Turn} {turns : List Turn}

/-! ## The runs of a scheduler -/

/-- One run of a query: the entry it was taken with, when it started, and what it took. -/
structure Event where
  due : Due
  start : ℚ
  turn : Turn
deriving DecidableEq, Repr

namespace Event

def idx (run : Event) : ℕ := run.due.idx

def elapsed (run : Event) : ℚ := run.turn.elapsed

/-- When the query is back on the heap. -/
def ended (run : Event) : ℚ := run.start + run.turn.duration + run.turn.spent

end Event

/-- The runs of a sequence of iterations, the one that asks for a reconnect included. -/
def log (queries : List Query) : Scheduler → List Turn → List Event
  | _, [] => []
  | s, turn :: turns =>
      match s.heap with
      | [] => []
      | due :: _ =>
          ⟨due, s.startOf due turn, turn⟩ ::
            match s.step queries turn with
            | .ok s' => log queries s' turns
            | .error _ => []

/-- The runs that ended when a query due at `next` was already overdue. -/
def overdueRuns (next : ℚ) (past : List Event) : List Event :=
  past.filter fun run => next < run.ended

/-- A run starts in time: while its query was overdue no query ran twice, and it starts no later
    than its due time plus what these runs took, at most one run of each other query. -/
structure InTime (queries : List Query) (past : List Event) (run : Event) : Prop where
  once : ((overdueRuns run.due.next past).map Event.idx).Nodup
  others : ∀ other ∈ overdueRuns run.due.next past, other.idx ≠ run.idx
  start : run.start ≤
    run.due.next + ((overdueRuns run.due.next past).map Event.elapsed).sum + run.turn.late
  total : ∀ cost : ℕ → ℚ, (∀ idx, 0 ≤ cost idx) →
    (∀ other ∈ overdueRuns run.due.next past, other.elapsed ≤ cost other.idx) →
    run.start ≤
      run.due.next + ∑ idx ∈ (Finset.range queries.length).erase run.idx, cost idx + run.turn.late

/-! ## The invariant -/

/-- What the runs so far say of an entry on the heap: since it was due each other query ran at most
    once and stands behind it now, and the time that passed is what these runs took. -/
structure Standing (past : List Event) (s : Scheduler) (d : Due) : Prop where
  once : ((overdueRuns d.next past).map Event.idx).Nodup
  others : ∀ run ∈ overdueRuns d.next past, run.idx ≠ d.idx
  behind : ∀ run ∈ overdueRuns d.next past, ∀ e ∈ s.heap, e.idx = run.idx → d.next < e.next
  waited : s.now ≤ d.next + ((overdueRuns d.next past).map Event.elapsed).sum

structure Punctual (queries : List Query) (past : List Event) (s : Scheduler) : Prop where
  ended : ∀ run ∈ past, run.ended ≤ s.now
  known : ∀ run ∈ past, run.idx < queries.length
  possible : ∀ run ∈ past, run.turn.Possible
  standing : ∀ d ∈ s.heap, Standing past s d

theorem overdueRuns_of_ended {next : ℚ} {past : List Event} (h : ∀ run ∈ past, run.ended ≤ next) :
    overdueRuns next past = [] :=
  List.filter_eq_nil_iff.2 fun run hrun => by simpa using h run hrun

theorem overdueRuns_append {next : ℚ} (past : List Event) {run : Event} (h : next < run.ended) :
    overdueRuns next (past ++ [run]) = overdueRuns next past ++ [run] := by
  unfold overdueRuns
  rw [List.filter_append, List.filter_cons_of_pos (by simpa using h), List.filter_nil]

/-- An entry that is not overdue. -/
theorem standing_of_nil {past : List Event} {d : Due} (hnil : overdueRuns d.next past = [])
    (hnow : s.now ≤ d.next) : Standing past s d := by
  refine ⟨?_, ?_, ?_, ?_⟩
  · rw [hnil]
    exact List.nodup_nil
  · rw [hnil]
    exact nofun
  · rw [hnil]
    exact nofun
  · rw [hnil]
    exact hnow.trans (add_zero _).ge

theorem punctual_startScheduler (queries : List Query) (liveness : Liveness) (now : ℚ) :
    Punctual queries [] (startScheduler queries liveness now) := by
  refine ⟨nofun, nofun, nofun, fun d hd => standing_of_nil rfl ?_⟩
  obtain ⟨idx, -, rfl⟩ := List.mem_map.1 hd
  exact le_rfl

/-- The run of one iteration. -/
def Scheduler.event (s : Scheduler) (due : Due) (turn : Turn) : Event :=
  ⟨due, s.startOf due turn, turn⟩

theorem ended_event (s : Scheduler) (due : Due) (turn : Turn) :
    (s.event due turn).ended = s.endOf due turn := by
  show max s.now due.next + turn.late + turn.duration + turn.spent = _
  unfold Scheduler.endOf Turn.elapsed
  ring

section Step

variable {past : List Event} {due : Due} {rest : List Due}

/-- What an iteration makes of the overdue runs of an entry that stays. -/
theorem Punctual.overdueRuns_step (hp : Punctual queries past s) (hturn : turn.Possible)
    (due d : Due) :
    overdueRuns d.next (past ++ [s.event due turn]) = overdueRuns d.next past ++ [s.event due turn] ∧
        d.next < s.endOf due turn ∨
      overdueRuns d.next (past ++ [s.event due turn]) = [] ∧ s.endOf due turn ≤ d.next := by
  rcases lt_or_ge d.next (s.endOf due turn) with hlt | hge
  · exact .inl ⟨overdueRuns_append past (by rwa [ended_event]), hlt⟩
  · refine .inr ⟨overdueRuns_of_ended fun run hrun => ?_, hge⟩
    rcases List.mem_append.1 hrun with hold | hnew
    · exact ((hp.ended run hold).trans (now_le_endOf s due hturn)).trans hge
    · rw [List.mem_singleton.1 hnew, ended_event]
      exact hge

/-- The query that comes back is due after every run so far. -/
theorem Punctual.overdueRuns_requeue (hp : Punctual queries past s) (hturn : turn.Possible) :
    overdueRuns (s.requeue queries due turn).next (past ++ [s.event due turn]) = [] := by
  have hend : s.endOf due turn ≤ (s.requeue queries due turn).next := endOf_le_requeue s due
  refine overdueRuns_of_ended fun run hrun => ?_
  rcases List.mem_append.1 hrun with hold | hnew
  · exact ((hp.ended run hold).trans (now_le_endOf s due hturn)).trans hend
  · rw [List.mem_singleton.1 hnew, ended_event]
    exact hend

/-- The query taken off the heap did not run while one behind it was overdue. -/
theorem Punctual.idx_ne_due (hp : Punctual queries past s) (hq : Queued queries s)
    (h : s.heap = due :: rest) {d : Due} (hd : d ∈ rest) {run : Event}
    (hrun : run ∈ overdueRuns d.next past) : run.idx ≠ due.idx := by
  intro hidx
  have hmem : d ∈ s.heap := by
    rw [h]
    exact List.mem_cons_of_mem _ hd
  have hfirst : due ∈ s.heap := by
    rw [h]
    exact List.mem_cons_self
  have hlt := (hp.standing d hmem).behind run hrun due hfirst hidx.symm
  exact absurd (next_le_of_le (hq.first_le h hd)) (not_le.2 hlt)

theorem Punctual.sum_nonneg (hp : Punctual queries past s) (next : ℚ) :
    0 ≤ ((overdueRuns next past).map Event.elapsed).sum := by
  refine List.sum_nonneg fun x hx => ?_
  obtain ⟨run, hrun, rfl⟩ := List.mem_map.1 hx
  exact (hp.possible run (List.mem_filter.1 hrun).1).elapsed_nonneg

/-- Waiting for the first entry takes an overdue one no further than what it waited before. -/
theorem Punctual.wake_le (hp : Punctual queries past s) (hq : Queued queries s)
    (h : s.heap = due :: rest) {d : Due} (hd : d ∈ s.heap) :
    max s.now due.next ≤ d.next + ((overdueRuns d.next past).map Event.elapsed).sum := by
  have hsum := hp.sum_nonneg d.next
  have hfirst : due.next ≤ d.next := by
    rw [h] at hd
    rcases List.mem_cons.1 hd with rfl | hrest
    · exact le_rfl
    · exact next_le_of_le (hq.first_le h hrest)
  exact max_le (hp.standing d hd).waited (by linarith)

/-- An iteration seen from an entry behind the one it takes. -/
theorem Punctual.standing_step (hp : Punctual queries past s) (hq : Queued queries s)
    (hturn : turn.Possible) (h : Stepped queries s turn due rest s') {d : Due} (hd : d ∈ rest) :
    Standing (past ++ [s.event due turn]) s' d := by
  have hstanding := hp.standing d (h.mem_old hd)
  rcases hp.overdueRuns_step hturn due d with ⟨hruns, hlt⟩ | ⟨hruns, hge⟩
  · refine ⟨?_, ?_, ?_, ?_⟩
    · rw [hruns, List.map_append, List.nodup_append]
      refine ⟨hstanding.once, List.nodup_singleton _, fun idx hidx idx' hidx' => ?_⟩
      obtain ⟨run, hrun, rfl⟩ := List.mem_map.1 hidx
      rw [List.mem_singleton.1 hidx']
      exact hp.idx_ne_due hq h.heap hd hrun
    · rw [hruns]
      intro run hrun
      rcases List.mem_append.1 hrun with hold | hnew
      · exact hstanding.others run hold
      · rw [List.mem_singleton.1 hnew]
        exact (hq.idx_ne h.heap hd).symm
    · rw [hruns]
      intro run hrun e he hidx
      rcases h.mem_heap.1 he with rfl | hrest
      · -- the query that ran is back, due after it ended
        exact hlt.trans_le (endOf_le_requeue s due)
      · rcases List.mem_append.1 hrun with hold | hnew
        · exact hstanding.behind run hold e (h.mem_old hrest) hidx
        · rw [List.mem_singleton.1 hnew] at hidx
          exact absurd hidx (hq.idx_ne h.heap hrest)
    · rw [hruns, h.now, List.map_append, List.sum_append, List.map_singleton, List.sum_singleton,
        ← add_assoc]
      exact add_le_add (hp.wake_le hq h.heap (h.mem_old hd)) le_rfl
  · refine standing_of_nil hruns ?_
    rw [h.now]
    exact hge

theorem Punctual.step (hp : Punctual queries past s) (hq : Queued queries s) (hturn : turn.Possible)
    (h : Stepped queries s turn due rest s') :
    Punctual queries (past ++ [s.event due turn]) s' := by
  refine ⟨fun run hrun => ?_, fun run hrun => ?_, fun run hrun => ?_, fun d hd => ?_⟩
  · rw [h.now]
    rcases List.mem_append.1 hrun with hold | hnew
    · exact (hp.ended run hold).trans (now_le_endOf s due hturn)
    · rw [List.mem_singleton.1 hnew, ended_event]
  · rcases List.mem_append.1 hrun with hold | hnew
    · exact hp.known run hold
    · rw [List.mem_singleton.1 hnew]
      exact hq.idx_lt h.due_mem
  · rcases List.mem_append.1 hrun with hold | hnew
    · exact hp.possible run hold
    · rw [List.mem_singleton.1 hnew]
      exact hturn
  · rcases h.mem_heap.1 hd with rfl | hrest
    · refine standing_of_nil (hp.overdueRuns_requeue hturn) ?_
      rw [h.now]
      exact endOf_le_requeue s due
    · exact hp.standing_step hq hturn h hrest

/-! ## The run of an iteration -/

/-- Runs of different queries cost no more than one run of each. -/
theorem sum_elapsed_le {runs : List Event} {idx n : ℕ} (hnodup : (runs.map Event.idx).Nodup)
    (hknown : ∀ run ∈ runs, run.idx < n) (hothers : ∀ run ∈ runs, run.idx ≠ idx) {cost : ℕ → ℚ}
    (hcost : ∀ idx, 0 ≤ cost idx) (hruns : ∀ run ∈ runs, run.elapsed ≤ cost run.idx) :
    (runs.map Event.elapsed).sum ≤ ∑ other ∈ (Finset.range n).erase idx, cost other := by
  calc (runs.map Event.elapsed).sum
      ≤ (runs.map fun run => cost run.idx).sum := List.sum_le_sum hruns
    _ = ∑ other ∈ (runs.map Event.idx).toFinset, cost other := by
        rw [List.sum_toFinset cost hnodup, List.map_map]
        rfl
    _ ≤ ∑ other ∈ (Finset.range n).erase idx, cost other := by
        refine Finset.sum_le_sum_of_subset_of_nonneg (fun other hother => ?_) fun j _ _ => hcost j
        obtain ⟨run, hrun, rfl⟩ := List.mem_map.1 (List.mem_toFinset.1 hother)
        exact Finset.mem_erase.2 ⟨hothers run hrun, Finset.mem_range.2 (hknown run hrun)⟩

theorem Punctual.inTime (hp : Punctual queries past s) (hq : Queued queries s)
    (h : s.heap = due :: rest) : InTime queries past (s.event due turn) := by
  have hdue : due ∈ s.heap := by
    rw [h]
    exact List.mem_cons_self
  have hstanding := hp.standing due hdue
  have hwake := hp.wake_le hq h hdue
  have hstart : (s.event due turn).start = max s.now due.next + turn.late := rfl
  refine ⟨hstanding.once, hstanding.others, ?_, fun cost hcost hruns => ?_⟩
  · rw [hstart]
    exact add_le_add hwake le_rfl
  · have htotal := sum_elapsed_le hstanding.once
      (fun run hrun => hp.known run (List.mem_filter.1 hrun).1) hstanding.others hcost hruns
    rw [hstart]
    exact add_le_add (hwake.trans (add_le_add le_rfl htotal)) le_rfl

end Step

theorem log_inTime {past before later : List Event} {run : Event} (hp : Punctual queries past s)
    (hq : Queued queries s) (hturns : ∀ turn ∈ turns, turn.Possible)
    (h : log queries s turns = before ++ run :: later) : InTime queries (past ++ before) run := by
  induction turns generalizing s past before with
  | nil => simp [log] at h
  | cons turn turns ih =>
      unfold log at h
      cases hheap : s.heap with
      | nil => simp [hheap] at h
      | cons due rest =>
          simp only [hheap] at h
          cases before with
          | nil =>
              obtain ⟨rfl, -⟩ := List.cons.inj h
              rw [List.append_nil]
              exact hp.inTime hq hheap
          | cons first before =>
              obtain ⟨rfl, htail⟩ := List.cons.inj h
              cases hstep : s.step queries turn with
              | error e => simp [hstep] at htail
              | ok s' =>
                  simp only [hstep] at htail
                  obtain ⟨due', rest', hstepped⟩ := step_stepped hstep
                  obtain ⟨rfl, rfl⟩ := List.cons.inj (hheap.symm.trans hstepped.heap)
                  have hturn := hturns turn List.mem_cons_self
                  have hrest := ih (hp.step hq hturn hstepped) (hq.stepped hstepped)
                    (fun t ht => hturns t (List.mem_cons_of_mem _ ht)) htail
                  rwa [List.append_assoc] at hrest

/-- **Lateness.** In every run of the loop, for any queries and any durations, each query starts no
    later than its due time plus what one run of each other query takes: while it was overdue no
    other query ran twice, and it did not run itself. -/
theorem scheduler_lateness (queries : List Query) (liveness : Liveness) (now : ℚ)
    (turns : List Turn) (hturns : ∀ turn ∈ turns, turn.Possible) {past later : List Event}
    {run : Event}
    (h : log queries (startScheduler queries liveness now) turns = past ++ run :: later) :
    InTime queries past run :=
  log_inTime (punctual_startScheduler queries liveness now)
    (queued_startScheduler queries liveness now) hturns h

/-- Two queries; the first takes longer than the interval of either. -/
def slowPair : List Query := [⟨"a", 60⟩, ⟨"b", 60⟩]

def firstRun : Event := ⟨⟨0, 0, 0⟩, 0, ⟨0, 100, true, 0⟩⟩

def secondRun : Event := ⟨⟨0, 1, 1⟩, 100, ⟨0, 1, true, 0⟩⟩

theorem secondRun_inTime : InTime slowPair [firstRun] secondRun := by
  have hlog : log slowPair (startScheduler slowPair (connectedAt 0) 0)
      [firstRun.turn, secondRun.turn] = [firstRun] ++ secondRun :: [] := by decide +kernel
  exact scheduler_lateness slowPair (connectedAt 0) 0 [firstRun.turn, secondRun.turn] (by decide) hlog

end Millpond.Metrics
