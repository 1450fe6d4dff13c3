import Millpond.Metrics.Queue

set_option autoImplicit false

/-! # One query that always fails

The failures are counted over all queries, and any success resets the count. A single failing query
reaches the threshold when it comes round ten times before any other query does, and that depends
on the intervals alone. -/

namespace Millpond.Metrics

variable {queries : List Query} {f : ℕ} {s s' : Scheduler} {turn : Turn} {turns : List Turn}

/-- The query at `f` fails whenever it runs, and no other query does. -/
def FailsAlone (queries : List Query) (f : ℕ) : Scheduler → List Turn → Prop
  | _, [] => True
  | s, turn :: turns =>
      (turn.succeeds = true ↔ s.heap.head?.map Due.idx ≠ some f) ∧
        ∀ s', s.step queries turn = .ok s' → FailsAlone queries f s' turns

instance decidableConnected : ∀ (s : Scheduler) (turns : List Turn),
    Decidable (Connected queries s turns)
  | _, [] => .isTrue trivial
  | s, turn :: turns =>
      match h : s.step queries turn with
      | .error e => .isFalse (by
          rintro ⟨s', hok, -⟩
          rw [h] at hok
          cases hok)
      | .ok s' =>
          have := decidableConnected s' turns
          decidable_of_iff (Connected queries s' turns) (by
            constructor
            · exact fun hrest => ⟨s', h, hrest⟩
            · rintro ⟨s'', hok, hrest⟩
              obtain rfl := Except.ok.inj (h.symm.trans hok)
              exact hrest)

instance decidableFailsAlone : ∀ (s : Scheduler) (turns : List Turn),
    Decidable (FailsAlone queries f s turns)
  | _, [] => .isTrue trivial
  | s, turn :: turns =>
      match h : s.step queries turn with
      | .error e =>
          decidable_of_iff (turn.succeeds = true ↔ s.heap.head?.map Due.idx ≠ some f) (by
            refine ⟨fun hmatch => ⟨hmatch, fun s' hok => ?_⟩, And.left⟩
            rw [h] at hok
            cases hok)
      | .ok s' =>
          have := decidableFailsAlone s' turns
          decidable_of_iff ((turn.succeeds = true ↔ s.heap.head?.map Due.idx ≠ some f) ∧
              FailsAlone queries f s' turns) (by
            refine and_congr_right fun _ => ⟨fun hrest s'' hok => ?_, fun hrest => hrest s' h⟩
            obtain rfl := Except.ok.inj (h.symm.trans hok)
            exact hrest)

theorem succeeds_iff {due : Due} {rest : List Due} (h : s.heap = due :: rest) :
    (turn.succeeds = true ↔ s.heap.head?.map Due.idx ≠ some f) ↔
      (turn.succeeds = true ↔ due.idx ≠ f) := by
  rw [h]
  simp

/-! ## A query that comes round often enough -/

/-- Since the last success, at `since` or later, the failing query came round once for every failure,
    an interval apart, and the others wait where they were put before. -/
structure Streak (queries : List Query) (f : ℕ) (since : ℚ) (s : Scheduler) : Prop where
  begun : since ≤ s.now
  others : ∀ d ∈ s.heap, d.idx ≠ f → d.next ≤ since + intervalOf queries d.idx
  failed : 0 < s.consecutiveFailures → ∀ d ∈ s.heap, d.idx = f →
    since + s.consecutiveFailures * intervalOf queries f ≤ d.next ∧
      ∀ e ∈ s.heap, e.idx ≠ f → e.seq < d.seq

theorem streak_startScheduler (queries : List Query) (f : ℕ) (liveness : Liveness) (now : ℚ) :
    Streak queries f now (startScheduler queries liveness now) := by
  refine ⟨le_rfl, fun d hd _ => ?_, fun hfailures => absurd hfailures (lt_irrefl 0)⟩
  obtain ⟨idx, -, rfl⟩ := List.mem_map.1 hd
  exact le_add_of_nonneg_right (Nat.cast_nonneg _)

section Step

variable {due : Due} {rest : List Due} {since : ℚ}

/-- A success begins a new streak, at its end. -/
theorem Streak.step_success (hs : Streak queries f since s) (hturn : turn.Possible)
    (hsucceeds : turn.succeeds = true) (h : Stepped queries s turn due rest s') :
    Streak queries f s'.now s' := by
  have hnow : since ≤ s'.now := by
    rw [h.now]
    exact hs.begun.trans (now_le_endOf s due hturn)
  refine ⟨le_rfl, fun d hd hidx => ?_, fun hfailures => ?_⟩
  · rcases h.mem_heap.1 hd with rfl | hrest
    · rw [h.now]
      exact le_rfl
    · exact (hs.others d (h.mem_old hrest) hidx).trans (add_le_add hnow le_rfl)
  · rw [h.failures, if_pos hsucceeds] at hfailures
    exact absurd hfailures (lt_irrefl 0)

/-- A failure goes on with it, or begins it where the query was taken off the heap. -/
theorem Streak.step_failure (hs : Streak queries f since s) (hq : Queued queries s)
    (hturn : turn.Possible) (hfails : turn.succeeds ≠ true) (hdue : due.idx = f)
    (h : Stepped queries s turn due rest s') :
    ∃ since', Streak queries f since' s' := by
  have hcount : s'.consecutiveFailures = s.consecutiveFailures + 1 := by
    rw [h.failures, if_neg hfails]
  -- the end of the run is an interval before the query is due again
  have hnext : ∀ since', since' + s.consecutiveFailures * intervalOf queries f ≤ s.endOf due turn →
      since' + s'.consecutiveFailures * intervalOf queries f ≤ (s.requeue queries due turn).next := by
    intro since' hend
    have hrequeue : (s.requeue queries due turn).next = s.endOf due turn + intervalOf queries f := by
      rw [← hdue]
      rfl
    rw [hrequeue, hcount]
    push_cast
    linarith
  have hothers : ∀ since', since ≤ since' → ∀ d ∈ s'.heap, d.idx ≠ f →
      d.next ≤ since' + intervalOf queries d.idx := by
    intro since' hle d hd hidx
    rcases h.mem_heap.1 hd with rfl | hrest
    · exact absurd hdue hidx
    · exact (hs.others d (h.mem_old hrest) hidx).trans (add_le_add hle le_rfl)
  have hown : ∀ since', since' + s.consecutiveFailures * intervalOf queries f ≤ s.endOf due turn →
      ∀ d ∈ s'.heap, d.idx = f →
        since' + s'.consecutiveFailures * intervalOf queries f ≤ d.next ∧
          ∀ e ∈ s'.heap, e.idx ≠ f → e.seq < d.seq := by
    intro since' hend d hd hidx
    rcases h.mem_heap.1 hd with rfl | hrest
    · refine ⟨hnext since' hend, fun e he hother => ?_⟩
      rcases h.mem_heap.1 he with rfl | hold
      · exact absurd hdue hother
      · exact hq.older e (h.mem_old hold)
    · exact absurd (hidx.trans hdue.symm) (hq.idx_ne h.heap hrest)
  have hnow : s.now ≤ s'.now := by
    rw [h.now]
    exact now_le_endOf s due hturn
  rcases Nat.eq_zero_or_pos s.consecutiveFailures with hzero | hpos
  · refine ⟨s.now, hnow, hothers s.now hs.begun, fun _ => hown s.now ?_⟩
    rw [hzero, Nat.cast_zero, zero_mul, add_zero]
    exact now_le_endOf s due hturn
  · refine ⟨since, hs.begun.trans hnow, hothers since le_rfl, fun _ => hown since ?_⟩
    exact ((hs.failed hpos due h.due_mem hdue).1).trans (next_le_endOf s due hturn)

/-- A query that is due within nine intervals of the failing one comes before its tenth failure. -/
theorem Streak.failures_lt (hs : Streak queries f since s) (hq : Queued queries s)
    (hheap : s.heap = due :: rest) (hdue : due.idx = f) {j : ℕ} (hj : j < queries.length)
    (hne : j ≠ f) (hinterval : intervalOf queries j ≤ 9 * intervalOf queries f) :
    s.consecutiveFailures + 1 < consecutiveFailureThreshold := by
  by_contra hfailures
  have hnine : 9 ≤ s.consecutiveFailures := by
    unfold consecutiveFailureThreshold at hfailures
    omega
  obtain ⟨d, hd, rfl⟩ := hq.entry hj
  have hfirst : due ∈ s.heap := by
    rw [hheap]
    exact List.mem_cons_self
  obtain ⟨hnext, hseq⟩ := hs.failed (by omega) due hfirst hdue
  have hother := hs.others d hd hne
  have hle : due.le d := by
    rw [hheap] at hd
    rcases List.mem_cons.1 hd with rfl | hrest
    · exact absurd hdue hne
    · exact hq.first_le hheap hrest
  have hbound : (intervalOf queries d.idx : ℚ) ≤ s.consecutiveFailures * intervalOf queries f := by
    exact_mod_cast hinterval.trans (Nat.mul_le_mul_right _ hnine)
  rcases hle with hlt | ⟨-, hseq'⟩
  · linarith
  · exact absurd (hseq d hd hne) (not_lt.2 hseq')

end Step

theorem connected_of_interval {since : ℚ} {j : ℕ} (hj : j < queries.length) (hne : j ≠ f)
    (hinterval : intervalOf queries j ≤ 9 * intervalOf queries f) (hq : Queued queries s)
    (hs : Streak queries f since s) (hturns : ∀ turn ∈ turns, turn.Possible)
    (hfails : FailsAlone queries f s turns) : Connected queries s turns := by
  induction turns generalizing s since with
  | nil => trivial
  | cons turn turns ih =>
      have hturn := hturns turn List.mem_cons_self
      obtain ⟨hmatch, hrest⟩ := hfails
      cases hstep : s.step queries turn with
      | error e =>
          exfalso
          rcases step_error e hstep with hnil | ⟨hfail, hthreshold⟩
          · obtain ⟨d, hd, -⟩ := hq.entry hj
            rw [hnil] at hd
            exact absurd hd List.not_mem_nil
          · cases hheap : s.heap with
            | nil =>
                obtain ⟨d, hd, -⟩ := hq.entry hj
                rw [hheap] at hd
                exact absurd hd List.not_mem_nil
            | cons due rest =>
                have hdue : due.idx = f := by
                  by_contra hother
                  rw [((succeeds_iff hheap).1 hmatch).2 hother] at hfail
                  cases hfail
                exact absurd (hs.failures_lt hq hheap hdue hj hne hinterval) (not_lt.2 hthreshold)
      | ok s' =>
          obtain ⟨due, rest, hstepped⟩ := step_stepped hstep
          have hmatch' := (succeeds_iff hstepped.heap).1 hmatch
          have hstreak : ∃ since', Streak queries f since' s' := by
            by_cases hsucceeds : turn.succeeds = true
            · exact ⟨s'.now, hs.step_success hturn hsucceeds hstepped⟩
            · have hdue : due.idx = f := by
                by_contra hother
                exact hsucceeds (hmatch'.2 hother)
              exact hs.step_failure hq hturn hsucceeds hdue hstepped
          obtain ⟨since', hs'⟩ := hstreak
          exact ⟨s', hstep, ih (hq.stepped hstepped) hs'
            (fun t ht => hturns t (List.mem_cons_of_mem _ ht)) (hrest s' hstep)⟩

/-! ## A query that does not -/

/-- Some run from here in which only the query at `f` fails asks for a reconnect. -/
def Doomed (queries : List Query) (f : ℕ) (s : Scheduler) : Prop :=
  ∃ turns, (∀ turn ∈ turns, turn.Possible) ∧ FailsAlone queries f s turns ∧
    ¬ Connected queries s turns

/-- One iteration more: it asks for the reconnect itself, or what follows it does. -/
theorem doomed_of_next (turn : Turn) (hturn : turn.Possible)
    (hmatch : turn.succeeds = true ↔ s.heap.head?.map Due.idx ≠ some f)
    (h : ∀ s', s.step queries turn = .ok s' → Doomed queries f s') : Doomed queries f s := by
  cases hstep : s.step queries turn with
  | error e =>
      refine ⟨[turn], fun t ht => ?_, ⟨hmatch, fun s' hok => ?_⟩, fun hconnected => ?_⟩
      · rw [List.mem_singleton.1 ht]
        exact hturn
      · rw [hstep] at hok
        cases hok
      · obtain ⟨s', hok, -⟩ := hconnected
        rw [hstep] at hok
        cases hok
  | ok s' =>
      obtain ⟨turns, hturns, hfails, hconnected⟩ := h s' hstep
      have hsame : ∀ s'', s.step queries turn = .ok s'' → s'' = s' := fun s'' hok =>
        (Except.ok.inj (hstep.symm.trans hok)).symm
      refine ⟨turn :: turns, List.forall_mem_cons.2 ⟨hturn, hturns⟩, ⟨hmatch, fun s'' hok => ?_⟩, ?_⟩
      · rw [hsame s'' hok]
        exact hfails
      · rintro ⟨s'', hok, hrest⟩
        rw [hsame s'' hok] at hrest
        exact hconnected hrest

/-- The first entry is the one of `f` if no other is due as early. -/
theorem head_of_lt (hq : Queued queries s) {d : Due} (hd : d ∈ s.heap)
    (h : ∀ e ∈ s.heap, e.idx ≠ d.idx → d.next < e.next) :
    ∃ due rest, s.heap = due :: rest ∧ due.idx = d.idx := by
  cases hheap : s.heap with
  | nil =>
      rw [hheap] at hd
      exact absurd hd List.not_mem_nil
  | cons due rest =>
      refine ⟨due, rest, rfl, ?_⟩
      by_contra hother
      rw [hheap] at hd h
      rcases List.mem_cons.1 hd with rfl | hrest
      · exact hother rfl
      · exact absurd (next_le_of_le (hq.first_le hheap hrest))
          (not_le.2 (h due List.mem_cons_self hother))

/-- The entry of `f` is due at `next`, which is not over yet. -/
structure FailingAt (f : ℕ) (next : ℚ) (s : Scheduler) : Prop where
  ahead : s.now ≤ next
  entry : ∀ d ∈ s.heap, d.idx = f → d.next = next

/-- A run that takes no time. -/
def atOnce (succeeds : Bool) : Turn := ⟨0, 0, succeeds, 0⟩

theorem possible_atOnce (succeeds : Bool) : (atOnce succeeds).Possible := ⟨le_rfl, le_rfl, le_rfl⟩

theorem endOf_atOnce (s : Scheduler) (due : Due) (succeeds : Bool) :
    s.endOf due (atOnce succeeds) = max s.now due.next := by
  simp [Scheduler.endOf, Turn.elapsed, atOnce]

/-- Failure after failure: `n` more intervals before any other query is due are enough if the
    threshold is no further. -/
theorem doomed_of_streak (hf : f < queries.length) (n : ℕ) {next : ℚ} (hq : Queued queries s)
    (hat : FailingAt f next s)
    (hothers : ∀ e ∈ s.heap, e.idx ≠ f → next + n * intervalOf queries f < e.next)
    (hthreshold : consecutiveFailureThreshold ≤ s.consecutiveFailures + 1 + n) :
    Doomed queries f s := by
  induction n generalizing s next with
  | zero =>
      obtain ⟨d, hd, rfl⟩ := hq.entry hf
      obtain ⟨due, rest, hheap, hidx⟩ := head_of_lt hq hd fun e he hne => by
        have hlt := hothers e he hne
        have hnext := hat.entry d hd rfl
        simp only [Nat.cast_zero, zero_mul, add_zero] at hlt
        rwa [hnext]
      refine doomed_of_next (atOnce false) (possible_atOnce false) ?_ fun s' hstep => ?_
      · simp [hheap, hidx, atOnce]
      · -- the count is at the threshold
        exfalso
        unfold Scheduler.step at hstep
        rw [hheap] at hstep
        simp only [atOnce, Bool.false_eq_true, if_false] at hstep
        rw [if_pos hthreshold] at hstep
        cases hstep
  | succ n ih =>
      have hinterval : (0 : ℚ) ≤ intervalOf queries f := Nat.cast_nonneg _
      obtain ⟨d, hd, rfl⟩ := hq.entry hf
      obtain ⟨due, rest, hheap, hidx⟩ := head_of_lt hq hd fun e he hne => by
        have hlt := hothers e he hne
        have hnext := hat.entry d hd rfl
        have hmore : (0 : ℚ) ≤ (n + 1 : ℕ) * intervalOf queries d.idx := by positivity
        rw [hnext]
        linarith
      refine doomed_of_next (atOnce false) (possible_atOnce false) ?_ fun s' hstep => ?_
      · simp [hheap, hidx, atOnce]
      · obtain ⟨due', rest', h⟩ := step_stepped hstep
        obtain ⟨rfl, rfl⟩ := List.cons.inj (hheap.symm.trans h.heap)
        have hdue := hat.entry due h.due_mem hidx
        have hend : s.endOf due (atOnce false) = next := by
          rw [endOf_atOnce, hdue]
          exact max_eq_right hat.ahead
        have hrequeue : (s.requeue queries due (atOnce false)).next =
            next + intervalOf queries d.idx := by
          rw [← hidx, ← hend]
          rfl
        have hat' : FailingAt d.idx (next + intervalOf queries d.idx) s' := by
          refine ⟨?_, fun e he hown => ?_⟩
          · rw [h.now, hend]
            exact le_add_of_nonneg_right hinterval
          · rcases h.mem_heap.1 he with rfl | hrest
            · exact hrequeue
            · exact absurd (hown.trans hidx.symm) (hq.idx_ne hheap hrest)
        refine ih (hq.stepped h) hat' (fun e he hother => ?_) ?_
        · rcases h.mem_heap.1 he with rfl | hrest
          · exact absurd hidx hother
          · have hlt := hothers e (h.mem_old hrest) hother
            push_cast at hlt
            linarith
        · rw [h.failures]
          simp only [atOnce, Bool.false_eq_true, if_false]
          omega

/-- The queries before `f` on the heap run at once, until `f` is first. `Q` is what the others keep;
    an entry put back at `next` has it. -/
theorem doomed_of_drained (hf : f < queries.length) {next : ℚ} (Q : Due → Prop)
    (hback : ∀ e : Due, e.next = next + intervalOf queries e.idx → Q e)
    (hpositive : ∀ j < queries.length, j ≠ f → 0 < intervalOf queries j)
    (hfirst : ∀ s : Scheduler, Queued queries s → s.now = next → (∃ due rest, s.heap = due :: rest ∧
        due.idx = f) → (∀ e ∈ s.heap, e.idx = f → e.next = next) →
      (∀ e ∈ s.heap, e.idx ≠ f → Q e) → Doomed queries f s)
    (hq : Queued queries s) (hnow : s.now = next) (hown : ∀ e ∈ s.heap, e.idx = f → e.next = next)
    (hothers : ∀ e ∈ s.heap, e.idx ≠ f → Q e) : Doomed queries f s := by
  induction hcount : s.heap.countP (fun e => e.next ≤ next) using Nat.strongRecOn generalizing s with
  | ind count ih =>
      obtain ⟨d, hd, hidx⟩ := hq.entry hf
      cases hheap : s.heap with
      | nil =>
          rw [hheap] at hd
          exact absurd hd List.not_mem_nil
      | cons due rest =>
          by_cases hdue : due.idx = f
          · exact hfirst s hq hnow ⟨due, rest, hheap, hdue⟩ hown hothers
          · refine doomed_of_next (atOnce true) (possible_atOnce true) ?_ fun s' hstep => ?_
            · simp [hheap, hdue, atOnce]
            · obtain ⟨due', rest', h⟩ := step_stepped hstep
              obtain ⟨rfl, rfl⟩ := List.cons.inj (hheap.symm.trans h.heap)
              have hle : due.next ≤ next := by
                rw [← hown d hd hidx]
                rw [hheap] at hd
                rcases List.mem_cons.1 hd with rfl | hrest
                · exact le_rfl
                · exact next_le_of_le (hq.first_le hheap hrest)
              have hend : s.endOf due (atOnce true) = next := by
                rw [endOf_atOnce, hnow]
                exact max_eq_left hle
              have hrequeue : (s.requeue queries due (atOnce true)).next =
                  next + intervalOf queries due.idx := by
                rw [← hend]
                rfl
              have hlate : ¬ (s.requeue queries due (atOnce true)).next ≤ next := by
                have hpos : (0 : ℚ) < intervalOf queries due.idx := by
                  exact_mod_cast hpositive due.idx (hq.idx_lt h.due_mem) hdue
                rw [hrequeue]
                linarith
              refine ih _ ?_ (hq.stepped h) (h.now.trans hend) (fun e he hf' => ?_)
                (fun e he hother => ?_) rfl
              · -- one entry less is due by now
                rw [h.requeued, heappush, (List.perm_orderedInsert Due.le _ _).countP_eq,
                  List.countP_cons_of_neg (by simpa using hlate), ← hcount, hheap,
                  List.countP_cons_of_pos (by simpa using hle)]
                exact Nat.lt_succ_self _
              · rcases h.mem_heap.1 he with rfl | hrest
                · exact absurd hf' hdue
                · exact hown e (h.mem_old hrest) hf'
              · rcases h.mem_heap.1 he with rfl | hrest
                · exact hback _ hrequeue
                · exact hothers e (h.mem_old hrest) hother

section Schedule

variable (hf : f < queries.length)
  (hlong : ∀ j < queries.length, j ≠ f → 9 * intervalOf queries f < intervalOf queries j)

include hf hlong

/-- Every other query ran just now, or is overdue and runs now; then the failing one has the heap to
    itself. -/
theorem doomed_of_others_run {next : ℚ} (hq : Queued queries s) (hnow : s.now = next)
    (hown : ∀ e ∈ s.heap, e.idx = f → e.next = next)
    (hothers : ∀ e ∈ s.heap, e.idx ≠ f → e.next < next ∨ e.next = next + intervalOf queries e.idx) :
    Doomed queries f s := by
  refine doomed_of_drained hf (fun e => e.next < next ∨ e.next = next + intervalOf queries e.idx)
    (fun _ => Or.inr) (fun j hj hne => Nat.zero_lt_of_lt (hlong j hj hne)) ?_ hq hnow hown hothers
  rintro t ht htnow ⟨due, rest, hheap, hdue⟩ htown htothers
  refine doomed_of_streak hf 9 ht ⟨htnow.le, htown⟩ (fun e he hne => ?_) (by
    unfold consecutiveFailureThreshold
    omega)
  have hfirst : due.next ≤ e.next := by
    have hmem := he
    rw [hheap] at hmem
    rcases List.mem_cons.1 hmem with rfl | hrest
    · exact le_rfl
    · exact next_le_of_le (ht.first_le hheap hrest)
  have hduenext : due.next = next := htown due (by rw [hheap]; exact List.mem_cons_self) hdue
  have hinterval : (9 * intervalOf queries f : ℚ) < intervalOf queries e.idx := by
    exact_mod_cast hlong e.idx (ht.idx_lt he) hne
  rcases htothers e he hne with hlt | heq
  · exact absurd hlt (not_lt.2 (hduenext ▸ hfirst))
  · rw [heq]
    push_cast
    linarith

/-- All others are overdue: one of them takes until the failing query is due. -/
theorem doomed_of_overdue {now : ℚ} (htwo : 2 ≤ queries.length) (hq : Queued queries s)
    (hnow : s.now = now) (hown : ∀ e ∈ s.heap, e.idx = f → e.next = now + intervalOf queries f)
    (hothers : ∀ e ∈ s.heap, e.idx ≠ f → e.next < now) : Doomed queries f s := by
  have hinterval : (0 : ℚ) ≤ intervalOf queries f := Nat.cast_nonneg _
  obtain ⟨j, hj, hne⟩ : ∃ j < queries.length, j ≠ f := by
    rcases Nat.eq_zero_or_pos f with rfl | hpos
    · exact ⟨1, htwo, one_ne_zero⟩
    · exact ⟨0, by omega, hpos.ne⟩
  obtain ⟨d, hd, rfl⟩ := hq.entry hj
  cases hheap : s.heap with
  | nil =>
      rw [hheap] at hd
      exact absurd hd List.not_mem_nil
  | cons due rest =>
      have hfirst : due ∈ s.heap := by
        rw [hheap]
        exact List.mem_cons_self
      have hdue : due.idx ≠ f := by
        intro heq
        have hlt := hothers d hd hne
        have hnext := hown due hfirst heq
        rw [hheap] at hd
        rcases List.mem_cons.1 hd with rfl | hrest
        · exact hne heq
        · have hle := next_le_of_le (hq.first_le hheap hrest)
          linarith
      refine doomed_of_next ⟨0, intervalOf queries f, true, 0⟩ ⟨le_rfl, hinterval, le_rfl⟩ ?_
        fun s' hstep => ?_
      · simp [hheap, hdue]
      · obtain ⟨due', rest', h⟩ := step_stepped hstep
        obtain ⟨rfl, rfl⟩ := List.cons.inj (hheap.symm.trans h.heap)
        have hend : s.endOf due ⟨0, intervalOf queries f, true, 0⟩ = now + intervalOf queries f := by
          simp only [Scheduler.endOf, Turn.elapsed, zero_add, add_zero]
          rw [hnow, max_eq_left (hothers due hfirst hdue).le]
        refine doomed_of_others_run hf hlong (hq.stepped h) (h.now.trans hend) (fun e he heq => ?_)
          fun e he hother => ?_
        · rcases h.mem_heap.1 he with rfl | hrest
          · exact absurd heq hdue
          · exact hown e (h.mem_old hrest) heq
        · rcases h.mem_heap.1 he with rfl | hrest
          · right
            rw [← hend]
            rfl
          · left
            have hlt := hothers e (h.mem_old hrest) hother
            linarith

/-- From the start: the others before it run at once, and then the failing query takes so long that
    every other is overdue. -/
theorem doomed_startScheduler (htwo : 2 ≤ queries.length) (liveness : Liveness) (now : ℚ) :
    Doomed queries f (startScheduler queries liveness now) := by
  have hnext : ∀ e ∈ (startScheduler queries liveness now).heap, e.next = now := by
    intro e he
    obtain ⟨idx, -, rfl⟩ := List.mem_map.1 he
    rfl
  refine doomed_of_drained hf (fun e => e.next ≤ now + intervalOf queries e.idx) (fun _ => le_of_eq)
    (fun j hj hne => Nat.zero_lt_of_lt (hlong j hj hne)) ?_ (queued_startScheduler queries liveness now)
    rfl (fun e he _ => hnext e he) fun e he _ => ?_
  · rintro s hq hnow ⟨due, rest, hheap, hdue⟩ hown hothers
    let longest : ℕ := (queries.map Query.intervalSeconds).sum + 1
    have hlongest : ∀ idx, intervalOf queries idx < longest := by
      intro idx
      refine Nat.lt_succ_of_le ?_
      cases hidx : queries[idx]? with
      | none => simp [intervalOf, hidx]
      | some q =>
          rw [intervalOf_eq hidx]
          exact List.le_sum_of_mem (List.mem_map_of_mem (List.mem_of_getElem? hidx))
    refine doomed_of_next ⟨0, longest, false, 0⟩ ⟨le_rfl, Nat.cast_nonneg _, le_rfl⟩ ?_
      fun s' hstep => ?_
    · simp [hheap, hdue]
    · obtain ⟨due', rest', h⟩ := step_stepped hstep
      obtain ⟨rfl, rfl⟩ := List.cons.inj (hheap.symm.trans h.heap)
      have hend : s.endOf due ⟨0, longest, false, 0⟩ = now + longest := by
        simp only [Scheduler.endOf, Turn.elapsed, zero_add, add_zero]
        rw [hnow, hown due h.due_mem hdue, max_self]
      refine doomed_of_overdue hf hlong htwo (hq.stepped h) (h.now.trans hend) (fun e he heq => ?_)
        fun e he hother => ?_
      · rcases h.mem_heap.1 he with rfl | hrest
        · rw [← hend, ← hdue]
          rfl
        · exact absurd (heq.trans hdue.symm) (hq.idx_ne hheap hrest)
      · rcases h.mem_heap.1 he with rfl | hrest
        · exact absurd hdue hother
        · have hlt : (intervalOf queries e.idx : ℚ) < longest := by exact_mod_cast hlongest e.idx
          exact (hothers e (h.mem_old hrest) hother).trans_lt (by linarith)
  · rw [hnext e he]
    exact le_add_of_nonneg_right (Nat.cast_nonneg _)

end Schedule

/-- **When one failing query forces no reconnect.** Of at least two queries one always fails and the
    others never do: no run asks for a reconnect, whatever the durations, if and only if some other
    query has an interval of at most nine times that of the failing one. -/
theorem neverReconnects_iff (queries : List Query) (htwo : 2 ≤ queries.length) (f : ℕ)
    (hf : f < queries.length) :
    (∀ (liveness : Liveness) (now : ℚ) (turns : List Turn), (∀ turn ∈ turns, turn.Possible) →
      FailsAlone queries f (startScheduler queries liveness now) turns →
      Connected queries (startScheduler queries liveness now) turns) ↔
    ∃ j < queries.length, j ≠ f ∧ intervalOf queries j ≤ 9 * intervalOf queries f := by
  constructor
  · intro hnever
    by_contra hnone
    have hlong : ∀ j < queries.length, j ≠ f → 9 * intervalOf queries f < intervalOf queries j :=
      fun j hj hne => not_le.1 fun hle => hnone ⟨j, hj, hne, hle⟩
    obtain ⟨turns, hturns, hfails, hconnected⟩ :=
      doomed_startScheduler hf hlong htwo ⟨300, false, 0, 0⟩ 0
    exact hconnected (hnever _ 0 turns hturns hfails)
  · rintro ⟨j, hj, hne, hinterval⟩ liveness now turns hturns hfails
    exact connected_of_interval hj hne hinterval (queued_startScheduler queries liveness now)
      (streak_startScheduler queries f liveness now) hturns hfails

/-- A query that runs every minute, and one that runs every hour. -/
def minuteAndHour : List Query := [⟨"ducklake_tables", 60⟩, ⟨"ducklake_catalog", 3600⟩]

theorem minuteAndHour_iff :
    (∀ (liveness : Liveness) (now : ℚ) (turns : List Turn), (∀ turn ∈ turns, turn.Possible) →
      FailsAlone minuteAndHour 0 (startScheduler minuteAndHour liveness now) turns →
      Connected minuteAndHour (startScheduler minuteAndHour liveness now) turns) ↔
    ∃ j < minuteAndHour.length, j ≠ 0 ∧
      intervalOf minuteAndHour j ≤ 9 * intervalOf minuteAndHour 0 :=
  neverReconnects_iff minuteAndHour (by decide) 0 (by decide)

/-- Ten failures of the one query in the ten minutes in which the other is not due. -/
theorem minuteAndHour_reconnects :
    ∃ turns, (∀ turn ∈ turns, turn.Possible) ∧
      FailsAlone minuteAndHour 0 (startScheduler minuteAndHour (connectedAt 0) 1) turns ∧
      ¬ Connected minuteAndHour (startScheduler minuteAndHour (connectedAt 0) 1) turns :=
  ⟨atOnce false :: atOnce true :: List.replicate 10 (atOnce false), by decide, by decide +kernel,
    by decide +kernel⟩

end Millpond.Metrics
