import Millpond.Metrics.Scheduler
import Mathlib.Tactic.Linarith
import Mathlib.Tactic.NormNum

set_option autoImplicit false

/-! # When the probe reports a working daemon dead

Only a query that ends moves `last_tick`, so the probe measures from the end of one query to the
end of the next: the time the scheduler sleeps counts, and so does the time the next query runs. -/

namespace Millpond.Metrics

variable {queries : List Query} {s s' : Scheduler} {turn : Turn} {turns : List Turn} {lastWait : ℚ}

/-! ## The probe -/

/-- Healthy at every instant of the span. -/
def Span.Healthy (span : Span) : Prop :=
  ∀ now, span.start ≤ now → now ≤ span.finish →
    (livenessStatus (some span.liveness) now).1 = true

/-- The last tick is not too long ago. -/
def Liveness.Fresh (l : Liveness) (now : ℚ) : Prop := 0 < l.lastTick → now - l.lastTick ≤ l.timeout

/-- No query runs too long. -/
def Liveness.Brisk (l : Liveness) (now : ℚ) : Prop :=
  0 < l.currentQueryStart → now - l.currentQueryStart ≤ l.timeout

theorem livenessStatus_healthy_iff {l : Liveness} (h : l.schedulerStarted = true) (now : ℚ) :
    (livenessStatus (some l) now).1 = true ↔ l.Brisk now ∧ l.Fresh now := by
  unfold livenessStatus Liveness.Brisk Liveness.Fresh
  simp only [h, Bool.true_eq_false, if_false]
  by_cases hbrisk : 0 < l.currentQueryStart ∧ l.timeout < now - l.currentQueryStart
  · simp only [hbrisk, and_self, if_true, Bool.false_eq_true, false_iff, not_and]
    exact fun h' => absurd (h' trivial) (not_le.2 hbrisk.2)
  · rw [if_neg hbrisk]
    by_cases hfresh : 0 < l.lastTick ∧ l.timeout < now - l.lastTick
    · simp only [hfresh, and_self, if_true, Bool.false_eq_true, false_iff, not_and]
      exact fun _ h' => absurd (h' trivial) (not_le.2 hfresh.2)
    · rw [if_neg hfresh]
      simp only [true_iff]
      exact ⟨fun hp => not_lt.1 fun hlt => hbrisk ⟨hp, hlt⟩,
        fun hp => not_lt.1 fun hlt => hfresh ⟨hp, hlt⟩⟩

/-- Both ages grow, so the last instant of a span decides. -/
theorem span_healthy_iff {span : Span} (h : span.liveness.schedulerStarted = true)
    (hle : span.start ≤ span.finish) :
    span.Healthy ↔ span.liveness.Brisk span.finish ∧ span.liveness.Fresh span.finish := by
  constructor
  · intro hall
    exact (livenessStatus_healthy_iff h _).1 (hall _ hle le_rfl)
  · rintro ⟨hbrisk, hfresh⟩ now - hnow
    refine (livenessStatus_healthy_iff h now).2 ⟨fun hp => ?_, fun hp => ?_⟩
    · have := hbrisk hp
      linarith
    · have := hfresh hp
      linarith

/-! ## The loop between two iterations -/

/-- Between two iterations: the loop has started, no query is marked, and some query is due. -/
structure Idle (s : Scheduler) : Prop where
  started : s.liveness.schedulerStarted = true
  unmarked : s.liveness.currentQueryStart = 0
  due : s.heap ≠ []
  now_pos : 0 < s.now

/-- The iteration is one that can happen, and its query ends within the timeout. -/
structure Turn.Within (turn : Turn) (timeout : ℚ) : Prop where
  late : 0 ≤ turn.late
  duration : 0 ≤ turn.duration
  spent : 0 ≤ turn.spent
  timely : turn.duration ≤ timeout

instance (turn : Turn) (timeout : ℚ) : Decidable (turn.Within timeout) :=
  decidable_of_iff (0 ≤ turn.late ∧ 0 ≤ turn.duration ∧ 0 ≤ turn.spent ∧ turn.duration ≤ timeout)
    ⟨fun ⟨h₁, h₂, h₃, h₄⟩ => ⟨h₁, h₂, h₃, h₄⟩, fun ⟨h₁, h₂, h₃, h₄⟩ => ⟨h₁, h₂, h₃, h₄⟩⟩

/-- When the next query may start. -/
def Scheduler.wake (s : Scheduler) : ℚ := (s.heap.head?.map fun due => max s.now due.next).getD s.now

theorem now_le_wake (s : Scheduler) : s.now ≤ s.wake := by
  unfold Scheduler.wake
  cases s.heap with
  | nil => exact le_rfl
  | cons due rest => exact le_max_left _ _

/-- The next query ends at most `timeout` after the last one did: the scheduler's sleep and the
    query's own time together. A daemon that has not ticked yet has all the time. -/
def Prompt (s : Scheduler) (turn : Turn) : Prop :=
  0 < s.liveness.lastTick →
    (s.wake - s.liveness.lastTick) + (turn.late + turn.duration) ≤ s.liveness.timeout

/-- Every iteration of a run is prompt, and the last wait is shorter than the timeout. -/
def PromptRun (queries : List Query) (lastWait : ℚ) : Scheduler → List Turn → Prop
  | s, [] => 0 < s.liveness.lastTick → (s.now - s.liveness.lastTick) + lastWait ≤ s.liveness.timeout
  | s, turn :: turns =>
      Prompt s turn ∧ ∀ s', s.step queries turn = .ok s' → PromptRun queries lastWait s' turns

/-! ## One iteration -/

/-- What one iteration does, as far as the probe is concerned. -/
theorem step_spec (hs : Idle s) (hturn : turn.Within s.liveness.timeout)
    (h : s.step queries turn = .ok s') :
    Idle s' ∧ s'.liveness = s.liveness.ticked (s.wake + turn.late + turn.duration) ∧
      s'.now = s.wake + turn.late + turn.duration + turn.spent := by
  unfold Scheduler.step at h
  cases hheap : s.heap with
  | nil => exact absurd hheap hs.due
  | cons due rest =>
      have hwake : s.wake = max s.now due.next := by simp [Scheduler.wake, hheap]
      rw [hheap] at h
      simp only [Scheduler.startOf, ← hwake] at h
      generalize (if turn.succeeds then 0 else s.consecutiveFailures + 1) = failures at h
      split_ifs at h with hfailures
      obtain rfl := Except.ok.inj h
      refine ⟨⟨hs.started, rfl, ?_, ?_⟩, rfl, rfl⟩
      · intro hnil
        have hlen := congrArg List.length hnil
        rw [heappush, List.orderedInsert_length] at hlen
        exact absurd hlen (Nat.succ_ne_zero _)
      · have hle := now_le_wake s
        have hpos := hs.now_pos
        have := hturn.late
        have := hturn.duration
        have := hturn.spent
        show 0 < s.wake + turn.late + turn.duration + turn.spent
        linarith

/-- The spans of an iteration are healthy exactly when it is prompt and not much is spent after
    it. -/
theorem spans_healthy_iff (hs : Idle s) (hturn : turn.Within s.liveness.timeout) :
    (∀ span ∈ s.spans turn, span.Healthy) ↔ Prompt s turn ∧ turn.spent ≤ s.liveness.timeout := by
  have hlate := hturn.late
  have hduration := hturn.duration
  have hspent := hturn.spent
  have htimely := hturn.timely
  have hnow := hs.now_pos
  have hwake := now_le_wake s
  unfold Scheduler.spans
  cases hheap : s.heap with
  | nil => exact absurd hheap hs.due
  | cons due rest =>
      have hmax : max s.now due.next = s.wake := by simp [Scheduler.wake, hheap]
      have hpos : 0 < s.wake + turn.late + turn.duration := by linarith
      simp only [Scheduler.startOf, hmax, List.forall_mem_cons, List.not_mem_nil,
        false_implies, implies_true, and_true]
      rw [span_healthy_iff hs.started (by show s.now ≤ s.wake + turn.late; linarith),
        span_healthy_iff hs.started (by show s.wake + turn.late ≤ _ + turn.duration; linarith),
        span_healthy_iff hs.started le_rfl,
        span_healthy_iff hs.started
          (by show s.wake + turn.late + turn.duration ≤ _ + turn.spent; linarith)]
      simp only [Liveness.Brisk, Liveness.Fresh, Liveness.ticked, Prompt, hs.unmarked, hpos,
        lt_irrefl, false_implies, true_and, true_implies]
      constructor
      · rintro ⟨-, ⟨-, hrunning⟩, -, hafter⟩
        refine ⟨fun hp => ?_, by linarith⟩
        have := hrunning hp
        linarith
      · rintro ⟨hprompt, hafter⟩
        refine ⟨fun hp => ?_, ⟨fun _ => by linarith, fun hp => ?_⟩, ⟨fun _ => by linarith, ?_⟩, ?_⟩
        · have := hprompt hp
          linarith
        · have := hprompt hp
          linarith
        · linarith
        · linarith

/-! ## Runs -/

/-- What is left of a prompt run begins soon after the last tick. -/
theorem PromptRun.soon (hprompt : PromptRun queries lastWait s turns)
    (hturns : ∀ turn ∈ turns, turn.Within s.liveness.timeout) (hwait : 0 ≤ lastWait)
    (htick : 0 < s.liveness.lastTick) : s.now - s.liveness.lastTick ≤ s.liveness.timeout := by
  cases turns with
  | nil =>
      have := hprompt htick
      linarith
  | cons turn rest =>
      have hturn := hturns turn List.mem_cons_self
      have := hprompt.1 htick
      have := now_le_wake s
      have := hturn.late
      have := hturn.duration
      linarith

theorem observed_healthy_iff (hs : Idle s) (hconnected : Connected queries s turns)
    (hturns : ∀ turn ∈ turns, turn.Within s.liveness.timeout) (hwait : 0 ≤ lastWait) :
    (∀ span ∈ observed queries lastWait s turns, span.Healthy) ↔
      PromptRun queries lastWait s turns := by
  induction turns generalizing s with
  | nil =>
      simp only [observed, List.mem_singleton, forall_eq]
      rw [span_healthy_iff hs.started (by show s.now ≤ s.now + lastWait; linarith)]
      simp only [Liveness.Brisk, Liveness.Fresh, hs.unmarked, lt_irrefl, false_implies, true_and,
        PromptRun]
      rw [add_sub_right_comm]
  | cons turn rest ih =>
      obtain ⟨s', hstep, hrest⟩ := hconnected
      have hturn := hturns turn List.mem_cons_self
      obtain ⟨hs', hliveness, hnow⟩ := step_spec hs hturn hstep
      have htimeout : s'.liveness.timeout = s.liveness.timeout := by rw [hliveness]; rfl
      have hturns' : ∀ turn ∈ rest, turn.Within s'.liveness.timeout := fun t ht =>
        htimeout ▸ hturns t (List.mem_cons_of_mem _ ht)
      have hrec := ih hs' hrest hturns'
      have hlist : observed queries lastWait s (turn :: rest) =
          s.spans turn ++ observed queries lastWait s' rest := by
        rw [observed, hstep]
      have hpromptIff : PromptRun queries lastWait s (turn :: rest) ↔
          Prompt s turn ∧ PromptRun queries lastWait s' rest := by
        simp only [PromptRun, hstep, Except.ok.injEq, forall_eq']
      rw [hlist, hpromptIff, List.forall_mem_append, spans_healthy_iff hs hturn, hrec]
      constructor
      · rintro ⟨⟨hprompt, -⟩, hrun⟩
        exact ⟨hprompt, hrun⟩
      · rintro ⟨hprompt, hrun⟩
        refine ⟨⟨hprompt, ?_⟩, hrun⟩
        -- the time spent after the query counts into the next gap
        have htick : s'.liveness.lastTick = s.wake + turn.late + turn.duration := by
          rw [hliveness]; rfl
        have hpos : 0 < s'.liveness.lastTick := by
          have := now_le_wake s
          have := hs.now_pos
          have := hturn.late
          have := hturn.duration
          rw [htick]
          linarith
        have hsoon := hrun.soon hturns' hwait hpos
        rw [hnow, htick, htimeout] at hsoon
        linarith

theorem idle_startScheduler {liveness : Liveness} {now : ℚ} (hqueries : queries ≠ [])
    (hnow : 0 < now) (hunmarked : liveness.currentQueryStart = 0) :
    Idle (startScheduler queries liveness now) := by
  refine ⟨rfl, hunmarked, ?_, hnow⟩
  intro hnil
  have hlen := congrArg List.length hnil
  simp only [startScheduler, List.length_map, List.length_range, List.length_nil] at hlen
  exact hqueries (List.length_eq_zero_iff.1 hlen)

/-! ## Which intervals are short enough -/

instance : Std.Total Due.le := ⟨fun a b => by unfold Due.le; grind⟩

instance : IsTrans Due Due.le := ⟨fun a b c => by unfold Due.le; grind⟩

/-- The heap is in order, and every query is on it, due at most its interval from now. -/
structure Scheduled (queries : List Query) (s : Scheduler) : Prop where
  sorted : s.heap.Pairwise Due.le
  soon : ∀ idx q, queries[idx]? = some q →
    ∃ due ∈ s.heap, due.idx = idx ∧ due.next ≤ s.now + q.intervalSeconds

theorem next_le_of_le {a b : Due} (h : a.le b) : a.next ≤ b.next :=
  h.elim le_of_lt fun h => h.1.le

/-- The scheduler sleeps no longer than the shortest interval. -/
theorem Scheduled.wake_le (hs : Scheduled queries s) {idx : ℕ} {q : Query}
    (hq : queries[idx]? = some q) : s.wake ≤ s.now + q.intervalSeconds := by
  obtain ⟨due, hdue, -, hnext⟩ := hs.soon idx q hq
  have hinterval : (0 : ℚ) ≤ q.intervalSeconds := Nat.cast_nonneg _
  unfold Scheduler.wake
  cases hheap : s.heap with
  | nil =>
      rw [hheap] at hdue
      exact absurd hdue List.not_mem_nil
  | cons first rest =>
      have hsorted := hs.sorted
      rw [hheap] at hdue hsorted
      have hfirst : first.next ≤ due.next := by
        rcases List.mem_cons.1 hdue with rfl | hrest
        · exact le_rfl
        · exact next_le_of_le (List.rel_of_pairwise_cons hsorted hrest)
      exact max_le (by linarith) (by linarith)

theorem scheduled_startScheduler (liveness : Liveness) (now : ℚ) :
    Scheduled queries (startScheduler queries liveness now) := by
  constructor
  · show ((List.range queries.length).map _).Pairwise Due.le
    rw [List.pairwise_map]
    exact List.pairwise_lt_range.imp fun hlt => Or.inr ⟨rfl, hlt.le⟩
  · intro idx q hq
    have hlt : idx < queries.length := (List.getElem?_eq_some_iff.1 hq).1
    refine ⟨⟨now, idx, idx⟩, List.mem_map.2 ⟨idx, List.mem_range.2 hlt, rfl⟩, rfl, ?_⟩
    exact le_add_of_nonneg_right (Nat.cast_nonneg _)

/-- A query that ran is due its interval after it ran; the others stay where they are. -/
theorem Scheduled.step (hidle : Idle s) (hs : Scheduled queries s)
    (hturn : turn.Within s.liveness.timeout) (h : s.step queries turn = .ok s') :
    Scheduled queries s' := by
  have hnow : s.now ≤ s'.now := by
    obtain ⟨-, -, hnow⟩ := step_spec hidle hturn h
    have := now_le_wake s
    have := hturn.late
    have := hturn.duration
    have := hturn.spent
    linarith
  have hsorted := hs.sorted
  have hsoon := hs.soon
  unfold Scheduler.step at h
  cases hheap : s.heap with
  | nil => exact absurd hheap hidle.due
  | cons due rest =>
      rw [hheap] at h hsorted hsoon
      simp only at h
      generalize (if turn.succeeds then 0 else s.consecutiveFailures + 1) = failures at h
      split_ifs at h with hfailures
      obtain rfl := Except.ok.inj h
      refine ⟨(List.Pairwise.of_cons hsorted).orderedInsert _ _, fun idx q hq => ?_⟩
      obtain ⟨d, hd, hidx, hnext⟩ := hsoon idx q hq
      by_cases hdue : due.idx = idx
      · refine ⟨_, (List.mem_orderedInsert _).2 (Or.inl rfl), hdue, ?_⟩
        rw [hdue, hq]
        exact le_rfl
      · have hrest : d ∈ rest := (List.mem_cons.1 hd).resolve_left fun heq => hdue (heq ▸ hidx)
        exact ⟨d, (List.mem_orderedInsert _).2 (Or.inr hrest), hidx, by linarith⟩

/-- One query whose interval, with what a run costs before and after it, fits the timeout keeps the
    probe healthy, whatever the other queries' intervals are. -/
theorem promptRun_of_interval {idx : ℕ} {q : Query} {before after : ℚ}
    (hq : queries[idx]? = some q) (hidle : Idle s) (hs : Scheduled queries s)
    (hturns : ∀ turn ∈ turns, turn.Within s.liveness.timeout ∧
      turn.late + turn.duration ≤ before ∧ turn.spent ≤ after)
    (htick : s.now - s.liveness.lastTick ≤ after) (hwait : lastWait ≤ q.intervalSeconds + before)
    (hfits : after + q.intervalSeconds + before ≤ s.liveness.timeout) :
    PromptRun queries lastWait s turns := by
  induction turns generalizing s with
  | nil =>
      intro _
      linarith
  | cons turn rest ih =>
      obtain ⟨hwithin, hbefore, hafter⟩ := hturns turn List.mem_cons_self
      refine ⟨fun _ => ?_, fun s' hstep => ?_⟩
      · have := hs.wake_le hq
        linarith
      · obtain ⟨hidle', hliveness, hnow⟩ := step_spec hidle hwithin hstep
        have htimeout : s'.liveness.timeout = s.liveness.timeout := by rw [hliveness]; rfl
        have htick' : s'.liveness.lastTick = s.wake + turn.late + turn.duration := by
          rw [hliveness]; rfl
        refine ih hidle' (hs.step hidle hwithin hstep) ?_ ?_ ?_
        · rw [htimeout]
          exact fun t ht => hturns t (List.mem_cons_of_mem _ ht)
        · rw [hnow, htick']
          linarith
        · rw [htimeout]
          exact hfits

/-- A daemon with such a query, started soon after it connected, is healthy at every instant. -/
theorem healthy_of_interval {liveness : Liveness} {now before after : ℚ} {idx : ℕ} {q : Query}
    (hq : queries[idx]? = some q) (hnow : 0 < now) (hunmarked : liveness.currentQueryStart = 0)
    (hturns : ∀ turn ∈ turns, turn.Within liveness.timeout ∧
      turn.late + turn.duration ≤ before ∧ turn.spent ≤ after)
    (hconnected : Connected queries (startScheduler queries liveness now) turns)
    (htick : now - liveness.lastTick ≤ after) (hwait : 0 ≤ lastWait)
    (hlast : lastWait ≤ q.intervalSeconds + before)
    (hfits : after + q.intervalSeconds + before ≤ liveness.timeout) :
    ∀ span ∈ observed queries lastWait (startScheduler queries liveness now) turns,
      span.Healthy := by
  have hqueries : queries ≠ [] := by
    rintro rfl
    simp at hq
  have hidle := idle_startScheduler hqueries hnow hunmarked
  refine (observed_healthy_iff hidle hconnected (fun turn ht => (hturns turn ht).1) hwait).2 ?_
  exact promptRun_of_interval hq hidle (scheduled_startScheduler liveness now) hturns htick hlast
    hfits

/-- **When a working daemon is never reported dead.** For any queries, timeout and schedule of
    query durations within it, without a reconnect: the probe is healthy at every instant of the run
    if and only if no query ends later than the timeout after the one before, the time the
    scheduler slept in between included. -/
theorem healthy_iff_promptRun (queries : List Query) (liveness : Liveness) (now lastWait : ℚ)
    (turns : List Turn) (hqueries : queries ≠ []) (hnow : 0 < now)
    (hunmarked : liveness.currentQueryStart = 0) (hwait : 0 ≤ lastWait)
    (hturns : ∀ turn ∈ turns, turn.Within liveness.timeout)
    (hconnected : Connected queries (startScheduler queries liveness now) turns) :
    (∀ span ∈ observed queries lastWait (startScheduler queries liveness now) turns,
      span.Healthy) ↔
    PromptRun queries lastWait (startScheduler queries liveness now) turns :=
  observed_healthy_iff (idle_startScheduler hqueries hnow hunmarked) hconnected hturns hwait

/-- The built-in queries with all but one disabled. -/
def onlyConfig : List String :=
  (builtinYaml.map Prod.fst).filter (· ≠ "ducklake_config")

/-- It runs every five minutes, which is what the default timeout is. -/
def configQuery : Query := ⟨"ducklake_config", 300⟩

/-- The daemon ticked when it connected. -/
def connectedAt (now : ℚ) : Liveness := ⟨300, false, 0, now⟩

/-- A query that takes one second. -/
def oneSecond : Turn := ⟨0, 1, true, 0⟩

/-- The first run of the query, and a minute of the sleep after it. -/
theorem configQuery_healthy_iff :
    (∀ span ∈ observed [configQuery] 60 (startScheduler [configQuery] (connectedAt 10) 12)
      [oneSecond], span.Healthy) ↔
    PromptRun [configQuery] 60 (startScheduler [configQuery] (connectedAt 10) 12) [oneSecond] :=
  healthy_iff_promptRun [configQuery] (connectedAt 10) 12 60 [oneSecond] (by decide) (by decide) rfl
    (by decide) (by decide) ⟨_, rfl, trivial⟩

/-- Its second run is reported dead while it runs, one second after it started. -/
theorem configQuery_reported_dead :
    loadQueries builtinYaml [] onlyConfig = .ok [configQuery] ∧
    (∀ turn ∈ [oneSecond, oneSecond], turn.Within (connectedAt 10).timeout) ∧
    Connected [configQuery] (startScheduler [configQuery] (connectedAt 10) 12)
      [oneSecond, oneSecond] ∧
    ¬ ∀ span ∈ observed [configQuery] 0 (startScheduler [configQuery] (connectedAt 10) 12)
      [oneSecond, oneSecond], span.Healthy := by
  refine ⟨by decide +kernel, by decide, ⟨_, rfl, _, rfl, trivial⟩, fun hall => ?_⟩
  have hspan : (⟨313, 314, ⟨300, true, 313, 13⟩⟩ : Span) ∈
      observed [configQuery] 0 (startScheduler [configQuery] (connectedAt 10) 12)
        [oneSecond, oneSecond] := by decide +kernel
  have hhealthy := hall _ hspan 314 (by norm_num) le_rfl
  exact absurd hhealthy (by decide +kernel)

end Millpond.Metrics
