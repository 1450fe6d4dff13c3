import Millpond.Main.Liveness

set_option autoImplicit false

/-! # The slowest healthy flush

A schedule that spends exactly `longestFlushS` in one flush and then blocks a whole consume. With it
the bound of the previous file is exact: the accepted configurations under which the probe never
kills a healthy pod are those where the two fit below the probe's limit. -/

namespace Millpond.Main

open Prog Millpond.Config

/-! ## A schedule that uses the whole budget -/

/-- How long each failing attempt of the schedule takes, so that the last one, at full length,
    ends the flush after exactly `longestFlushS`. -/
def slowAttemptS (retry : HoglakeRetry) : ℚ :=
  if retry.maxRetries = 1 then 0
  else min retry.attemptS ((retry.deadlineS - retry.attemptS) / (retry.maxRetries - 1) - backoffCapS)

structure SlowWorld where
  clock : ℚ
  polls : ℕ
  attempts : ℕ

/-- One record at once, a flush whose attempts all fail but the last, with a hint of 30 s after
    each, and then a consume that blocks for its whole timeout. -/
def slowRuntime (retry : HoglakeRetry) (cfg : LoopConfig) : Runtime Unit SlowWorld where
  now := SlowWorld.clock
  sleep := fun delay w => { w with clock := w.clock + delay }
  uniform := fun _ w => (0, w)
  shutdown := fun _ => false
  consume := fun _ timeout w =>
    if w.polls = 0 then (.ok [Script.record 0], { w with polls := 1 })
    else (.ok [], { w with clock := w.clock + timeout, polls := w.polls + 1 })
  attempt := fun _ w => (.ok (), w)
  decodes := fun _ => true
  hasKeys := fun _ => true
  keepVerdict := fun _ _ _ => none
  dropVerdict := fun _ _ => false
  nbytes := fun _ => cfg.flushSize.toNat
  sorted := id
  sorted_perm := fun table => List.Perm.refl table
  write := fun _ _ w =>
    if w.attempts + 1 < retry.maxRetries then
      (.raised (), { w with clock := w.clock + slowAttemptS retry, attempts := w.attempts + 1 })
    else (.ok 1, { w with clock := w.clock + retry.attemptS, attempts := w.attempts + 1 })
  resetCaches := id
  isRetryable := none
  canMark := fun _ => true
  writeRetryBudget := some (retry.maxRetries, writeBaseDelayS)
  writeRetryBudget_pos := by
    rintro _ ⟨⟩
    exact retry.maxRetries_pos
  retryAfterHint := some fun w => (some backoffCapS, w)
  writeFlushDeadline := some (hoglakeFlushDeadline retry.timeoutS)
  commit := fun _ w => (.ok (), w)

theorem slowAttemptS_bounds (retry : HoglakeRetry) :
    0 ≤ slowAttemptS retry ∧ slowAttemptS retry ≤ retry.attemptS := by
  have hcost := attemptS_nonneg retry
  unfold slowAttemptS
  split
  · exact ⟨le_rfl, hcost⟩
  · next hne =>
      have hR : (0 : ℚ) < retry.maxRetries - 1 := by
        have hpos := retry.maxRetries_pos
        have : (2 : ℚ) ≤ retry.maxRetries := by exact_mod_cast (by omega : 2 ≤ retry.maxRetries)
        linarith
      refine ⟨le_min hcost ?_, min_le_left _ _⟩
      have hfit := retry.gaps_fit hne
      have : backoffCapS ≤ (retry.deadlineS - retry.attemptS) / (retry.maxRetries - 1) := by
        rw [le_div_iff₀ hR]
        linarith
      linarith

/-- The schedule's flush takes exactly `longestFlushS`. -/
theorem slow_total (retry : HoglakeRetry) :
    (retry.maxRetries - 1) * (slowAttemptS retry + backoffCapS) + retry.attemptS
      = retry.longestFlushS := by
  unfold slowAttemptS HoglakeRetry.longestFlushS
  split
  · next hone => rw [hone]; norm_num
  · next hne =>
      have hR : (0 : ℚ) < retry.maxRetries - 1 := by
        have hpos := retry.maxRetries_pos
        have : (2 : ℚ) ≤ retry.maxRetries := by exact_mod_cast (by omega : 2 ≤ retry.maxRetries)
        linarith
      have hdiv : (retry.maxRetries - 1 : ℚ) *
          ((retry.deadlineS - retry.attemptS) / (retry.maxRetries - 1))
            = retry.deadlineS - retry.attemptS := mul_div_cancel₀ _ hR.ne'
      rcases min_cases retry.attemptS
        ((retry.deadlineS - retry.attemptS) / (retry.maxRetries - 1) - backoffCapS) with
        ⟨hmin, hle⟩ | ⟨hmin, hlt⟩
      · rw [hmin, min_eq_right]
        · ring
        · have := mul_le_mul_of_nonneg_left hle hR.le
          nlinarith
      · rw [hmin, min_eq_left]
        · linarith
        · have := mul_lt_mul_of_pos_left hlt hR
          nlinarith

theorem slow_timely (retry : HoglakeRetry) (cfg : LoopConfig) :
    Timely (slowRuntime retry cfg) retry := by
  obtain ⟨h0, hle⟩ := slowAttemptS_bounds retry
  have hcost := attemptS_nonneg retry
  refine ⟨rfl, rfl, fun n timeout w ht => ?_, fun _ _ => rfl, fun batch args w => ?_,
    fun _ w => ⟨w, rfl, rfl⟩, fun _ _ _ => rfl, fun upper w h => ⟨le_rfl, h, rfl⟩, ?_, fun _ => rfl⟩
  · simp only [slowRuntime]
    split
    · exact ⟨le_rfl, by simpa using ht⟩
    · exact ⟨by simpa using ht, le_rfl⟩
  · simp only [slowRuntime]
    split
    · exact ⟨by simpa using h0, by simpa using hle⟩
    · exact ⟨by simpa using hcost, le_rfl⟩
  · rintro _ ⟨⟩ w
    rfl

/-- Where the schedule stands before an attempt. -/
def slowState (retry : HoglakeRetry) (s : St SlowWorld) (attempt : ℕ) : St SlowWorld :=
  { s with world :=
    ⟨s.world.clock + attempt * (slowAttemptS retry + backoffCapS), s.world.polls, attempt⟩ }

theorem slow_write_fails (retry : HoglakeRetry) (cfg : LoopConfig) (batch : Table)
    (args : Option WriteArgs) (s : St SlowWorld) {attempt : ℕ}
    (hlast : attempt + 1 < retry.maxRetries) :
    (slowRuntime retry cfg).write batch args (slowState retry s attempt).world
      = (.raised (), ⟨s.world.clock + attempt * (slowAttemptS retry + backoffCapS)
          + slowAttemptS retry, s.world.polls, attempt + 1⟩) := by
  simp [slowRuntime, slowState, hlast]

theorem slow_write_lasts (retry : HoglakeRetry) (cfg : LoopConfig) (batch : Table)
    (args : Option WriteArgs) (s : St SlowWorld) {attempt : ℕ}
    (hlast : attempt + 1 = retry.maxRetries) :
    (slowRuntime retry cfg).write batch args (slowState retry s attempt).world
      = (.ok 1, ⟨s.world.clock + retry.longestFlushS, s.world.polls, retry.maxRetries⟩) := by
  have htotal := slow_total retry
  have hcast : (retry.maxRetries : ℚ) - 1 = attempt := by
    rw [← hlast]
    push_cast
    ring
  rw [hcast] at htotal
  have hclock : s.world.clock + attempt * (slowAttemptS retry + backoffCapS) + retry.attemptS
      = s.world.clock + retry.longestFlushS := by linarith
  simp [slowRuntime, slowState, hlast, hclock]

/-- The gap after a failing attempt is the cap, and the next attempt fits the deadline. -/
theorem slow_room (retry : HoglakeRetry) (cfg : LoopConfig) (clock : ℚ) {attempt : ℕ}
    (hlast : attempt + 1 < retry.maxRetries) :
    deadlineExceeded (slowRuntime retry cfg) clock
      (clock + attempt * (slowAttemptS retry + backoffCapS) + slowAttemptS retry)
      backoffCapS = false := by
  have htotal := slow_total retry
  have hL : retry.longestFlushS ≤ retry.deadlineS := by
    unfold HoglakeRetry.longestFlushS
    rw [if_neg (by omega)]
    exact min_le_left _ _
  have hcast : (attempt : ℚ) + 1 ≤ retry.maxRetries - 1 := by
    have : (attempt : ℚ) + 1 + 1 ≤ retry.maxRetries := by exact_mod_cast hlast
    linarith
  have hstep : 0 ≤ slowAttemptS retry + backoffCapS := by
    have := (slowAttemptS_bounds retry).1
    unfold backoffCapS
    linarith
  have hmul := mul_le_mul_of_nonneg_right hcast hstep
  have hdead : (slowRuntime retry cfg).writeFlushDeadline
      = some (retry.deadlineS, retry.attemptS) := rfl
  simp only [deadlineExceeded, hdead, decide_eq_false_iff_not, not_lt]
  linarith

theorem slow_delay (retry : HoglakeRetry) (cfg : LoopConfig) (attempt : ℕ) (s : St SlowWorld) :
    wp (retryDelay (slowRuntime retry cfg) attempt writeBaseDelayS)
      (fun delay s' => delay = backoffCapS ∧ s' = s) (fun _ _ => False) s := by
  have hdelay : min (max (min (writeBaseDelayS * 2 ^ attempt) retryAfterMaxS)
      (min backoffCapS retryAfterMaxS) + 0) retryAfterMaxS = backoffCapS := by
    have h30 : min backoffCapS retryAfterMaxS = retryAfterMaxS := by
      norm_num [backoffCapS, retryAfterMaxS]
    rw [h30, add_zero, max_eq_right (min_le_right _ _), min_self]
    rfl
  exact ⟨hdelay, rfl⟩

theorem slow_write (retry : HoglakeRetry) (cfg : LoopConfig) (batch : Table)
    (args : Option WriteArgs) (s : St SlowWorld) (hfresh : s.world.attempts = 0) :
    wp (writeWithRetry (slowRuntime retry cfg) batch args)
      (fun _ s' => s' = { s with
        world := ⟨s.world.clock + retry.longestFlushS, s.world.polls, retry.maxRetries⟩
        trace := s.trace ++ [.wrote batch 1] })
      (fun _ _ => False) s := by
  have hfirst : s = slowState retry s 0 := by
    obtain ⟨a, b, c, d, e, f, g, ⟨clock, polls, attempts⟩, h⟩ := s
    obtain rfl : attempts = 0 := hfresh
    simp [slowState]
  unfold writeWithRetry
  simp only [wp_bind, wp_get]
  refine wp_retry (I := fun attempt s' => attempt < retry.maxRetries ∧
    s' = slowState retry s attempt) ?_ (fun s' h => absurd h.1 (Nat.lt_irrefl _)) _ 0 s
    (Nat.zero_add _) ⟨retry.maxRetries_pos, hfirst⟩
  rintro attempt _ ⟨hlt, rfl⟩
  simp only [wp_bind, wp_note, wp_pure]
  -- every attempt but the last fails at its timeout and leaves room for one more
  rcases Nat.lt_or_eq_of_le (Nat.succ_le_of_lt hlt) with hlast | hlast
  · have hwrite := slow_write_fails retry cfg batch args s hlast
    refine wp_external (fun a w hf => ?_) (fun e w hf => ?_) (fun w hf => ?_)
    · rw [hwrite] at hf
      cases hf
    · rw [hwrite, Prod.mk.injEq] at hf
      obtain ⟨-, rfl⟩ := hf
      unfold afterWriteFailure
      simp only [wp_bind, wp_get, wp_ite, wp_throw, wp_onWorld]
      refine ⟨fun h => absurd h Bool.false_ne_true, fun _ =>
        ⟨fun h => absurd h (Nat.ne_of_lt hlast), fun _ => ?_⟩⟩
      refine wp_mono (slow_delay retry cfg attempt _) ?_ (fun _ _ h => h)
      rintro _ _ ⟨rfl, rfl⟩
      refine ⟨fun h => ?_, fun _ => ⟨hlast, ?_⟩⟩
      · have hroom := slow_room retry cfg s.world.clock hlast
        exact absurd (hroom.symm.trans h) (by simp)
      · simp only [slowState, slowRuntime, id]
        congr 2
        push_cast
        ring
    · rw [hwrite] at hf
      cases hf
  · have hwrite := slow_write_lasts retry cfg batch args s hlast
    refine wp_external (fun a w hf => ?_) (fun e w hf => ?_) (fun w hf => ?_)
    · rw [hwrite, Prod.mk.injEq] at hf
      obtain ⟨ha, rfl⟩ := hf
      cases ha
      rfl
    · rw [hwrite] at hf
      cases hf
    · rw [hwrite] at hf
      cases hf

/-- The state after the first poll of the schedule: its record fills the buffer. -/
def slowFilled (cfg : LoopConfig) : St SlowWorld where
  pending := [[Script.record 0]]
  pendingBytes := 0 + cfg.flushSize.toNat
  pendingRecords := 1
  offsets := [(("events", 0), (0, 0))]
  lastFlush := 0
  lastLagSample := 0
  lastPoll := 0
  world := ⟨0, 1, 0⟩
  trace := [.polled 0, .consumed [Script.record 0], .skipped [] (.keepFilter .fieldMissing),
    .skipped [] (.keepFilter .valueInvalid), .skipped [] (.keepFilter .excluded),
    .skipped [] .filterDropped]

theorem slow_receive (retry : HoglakeRetry) (cfg : LoopConfig) :
    wp (do
        let msgs ← poll (slowRuntime retry cfg) cfg
        receive (slowRuntime retry cfg) msgs)
      (fun _ s => s = slowFilled cfg) (fun _ _ => False)
      (St.init (slowRuntime retry cfg) ⟨0, 0, 0⟩) := by
  exact (rfl : slowFilled cfg = slowFilled cfg)

/-- What the slow flush leaves: an empty buffer, and `longestFlushS` on the clock. -/
structure SlowFlushed (retry : HoglakeRetry) (s : St SlowWorld) : Prop where
  pendingRecords : s.pendingRecords = 0
  lastFlush : s.lastFlush = retry.longestFlushS
  clock : s.world.clock = retry.longestFlushS
  polled : s.world.polls = 1
  polls : pollTimes s.trace = [0]

theorem slow_commit (retry : HoglakeRetry) (cfg : LoopConfig) (offsets : List (Key × ℕ))
    (s : St SlowWorld) :
    wp (commitOffsets (slowRuntime retry cfg) offsets)
      (fun _ s' => s' = { s with trace := s.trace ++ [.commit offsets] }) (fun _ _ => False) s :=
  rfl

theorem slow_flush (retry : HoglakeRetry) (cfg : LoopConfig) :
    wp (flushPending (slowRuntime retry cfg) cfg .size) (fun _ s => SlowFlushed retry s)
      (fun _ _ => False) (slowFilled cfg) := by
  have hclock : (0 : ℚ) + retry.longestFlushS = retry.longestFlushS := zero_add _
  unfold flushPending flush concatPending
  simp only [wp_bind, wp_get, wp_pure]
  refine wp_external_ok rfl (wp_external_ok rfl ?_)
  refine wp_mono (slow_write retry cfg _ _ _ rfl) ?_ (fun _ _ h => h)
  rintro count _ rfl
  refine wp_mono (slow_commit retry cfg _ _) ?_ (fun _ _ h => h)
  rintro _ _ rfl
  refine wp_external_ok rfl ?_
  unfold sampleLag clearPending
  simp only [wp_bind, wp_get, wp_ite, wp_modify, wp_pure]
  exact ⟨fun _ => wp_external_ok rfl ⟨rfl, hclock, hclock, rfl, rfl⟩,
    fun _ => ⟨rfl, hclock, hclock, rfl, rfl⟩⟩

/-- The iteration after it: a consume that blocks for its whole timeout and returns nothing. -/
theorem slow_idle (retry : HoglakeRetry) (cfg : LoopConfig) {s : St SlowWorld}
    (h : SlowFlushed retry s) :
    wp (iteration (slowRuntime retry cfg) cfg)
      (fun _ s' => pollTimes s'.trace
        = [0, retry.longestFlushS + consumeTimeout cfg.flushIntervalS])
      (fun _ _ => False) s := by
  have hconsume : ∀ n timeout, (slowRuntime retry cfg).consume n timeout s.world
      = (.ok [], { s.world with
          clock := s.world.clock + timeout, polls := s.world.polls + 1 }) := by
    intro n timeout
    simp [slowRuntime, h.polled]
  have htimeout : cfg.flushIntervalS - ((slowRuntime retry cfg).now s.world - s.lastFlush)
      = cfg.flushIntervalS := by
    have hnow : (slowRuntime retry cfg).now s.world = s.lastFlush := h.clock.trans h.lastFlush.symm
    rw [hnow, sub_self, sub_zero]
  unfold iteration poll receive
  simp only [wp_bind, wp_get, wp_modify, wp_note, wp_pure]
  refine wp_external_ok (hconsume _ _) ?_
  rw [htimeout]
  have hidle : ∀ s' : St SlowWorld, s'.pendingRecords = 0 →
      flushTrigger (slowRuntime retry cfg) cfg s' = none := by
    intro s' hs'
    simp [flushTrigger, hs']
  rw [wp_ite]
  refine ⟨fun _ => ?_, fun hne => absurd rfl hne⟩
  simp only [wp_pure]
  rw [hidle]
  · have htrace : ∀ t, pollTimes (s.trace ++ [.polled t] ++ [.consumed []])
        = pollTimes s.trace ++ [t] := fun t => by simp [pollTimes]
    refine (htrace _).trans ?_
    rw [h.polls]
    exact congrArg (fun t => [0, t + consumeTimeout cfg.flushIntervalS]) h.clock
  · exact h.pendingRecords

/-- Two iterations of the schedule poll at zero, and after the longest flush and a full consume. -/
theorem slow_polls (retry : HoglakeRetry) (cfg : LoopConfig) :
    pollTimes (loopState (slowRuntime retry cfg) cfg ⟨0, 0, 0⟩ 2).trace
      = [0, retry.longestFlushS + consumeTimeout cfg.flushIntervalS] := by
  have htrigger : flushTrigger (slowRuntime retry cfg) cfg (slowFilled cfg) = some .size := by
    simp [flushTrigger, slowFilled]
  have hfirst : wp (iteration (slowRuntime retry cfg) cfg) (fun _ s => SlowFlushed retry s)
      (fun _ _ => False) (St.init (slowRuntime retry cfg) ⟨0, 0, 0⟩) := by
    have hreceive := slow_receive retry cfg
    unfold iteration
    simp only [wp_bind, wp_get] at hreceive ⊢
    refine wp_mono hreceive (fun _ s h => wp_mono h ?_ (fun _ _ h => h)) (fun _ _ h => h)
    rintro _ _ rfl
    rw [htrigger]
    exact slow_flush retry cfg
  have hloop : wp (loop (slowRuntime retry cfg) cfg 2)
      (fun _ s' => pollTimes s'.trace
        = [0, retry.longestFlushS + consumeTimeout cfg.flushIntervalS])
      (fun _ _ => False) (St.init (slowRuntime retry cfg) ⟨0, 0, 0⟩) := by
    unfold loop whileLoop whileLoop whileLoop
    simp only [wp_bind, wp_get, wp_ite, wp_pure]
    refine ⟨fun _ => wp_mono hfirst (fun _ s h => ⟨fun _ => ?_, fun hc => ?_⟩) (fun _ _ h => h),
      fun hc => ?_⟩
    · exact wp_mono (slow_idle retry cfg h) (fun _ _ h => h) (fun _ _ h => h)
    · exact absurd rfl hc
    · exact absurd rfl hc
  exact final_of_wp (P := fun s => pollTimes s.trace
    = [0, retry.longestFlushS + consumeTimeout cfg.flushIntervalS])
    (wp_mono hloop (fun _ _ h => h) (fun _ _ h => h.elim))

/-! ## When the probe is safe -/

/-- Past the limit the schedule puts two polls too far apart. -/
theorem not_staysAlive_of_budget (retry : HoglakeRetry) (cfg : LoopConfig)
    (h : maxPollAgeS ≤ retry.longestFlushS + consumeTimeout cfg.flushIntervalS) :
    ¬ StaysAlive (slowRuntime retry cfg) cfg ⟨0, 0, 0⟩ 2 := by
  rintro ⟨hgaps, -⟩
  rw [slow_polls, List.isChain_cons_cons, sub_zero] at hgaps
  exact absurd hgaps.1 (not_lt.2 h)

/-- **When no healthy pod is killed for a slow flush.** For an accepted configuration, every timely
    run keeps the probe alive exactly when the longest flush and one consume timeout together stay
    below the probe's limit. -/
theorem staysAlive_iff_budget (retry : HoglakeRetry) (cfg : LoopConfig) :
    (∀ (ε W : Type) (rt : Runtime ε W), Timely rt retry → ∀ w n, StaysAlive rt cfg w n) ↔
      retry.longestFlushS + consumeTimeout cfg.flushIntervalS < maxPollAgeS := by
  constructor
  · intro hall
    by_contra hge
    exact not_staysAlive_of_budget retry cfg (not_lt.1 hge)
      (hall _ _ _ (slow_timely retry cfg) _ _)
  · exact fun hbudget ε W rt ht w n => staysAlive_of_budget ht hbudget w n

/-- The defaults: six attempts, a 45 s request timeout. -/
def defaultRetry : HoglakeRetry where
  maxRetries := 6
  timeoutS := 45
  maxRetries_pos := by decide
  timeoutS_pos := by norm_num
  withinBudget := by
    norm_num [hoglakeWorstCaseFlushS, prepareAllowanceS, backoffJitter, livenessBudgetS,
      Finset.sum_range_succ, backoffStep, backoffBaseS, backoffCapS]

/-- The default flush interval and size. -/
def defaultLoop : LoopConfig where
  flushIntervalS := 60
  flushSize := 104857600
  consumeBatchSize := 1000
  hoglake := true

/-- Under the defaults a flush of 450 s and a consume of 60 s starve the probe. -/
theorem default_not_staysAlive :
    ¬ ∀ (ε W : Type) (rt : Runtime ε W), Timely rt defaultRetry →
      ∀ w n, StaysAlive rt defaultLoop w n := by
  intro hall
  refine not_staysAlive_of_budget defaultRetry defaultLoop ?_
    (hall _ _ _ (slow_timely defaultRetry defaultLoop) _ _)
  have hlongest : defaultRetry.longestFlushS = 450 := by
    unfold HoglakeRetry.longestFlushS
    rw [if_neg (by decide), defaultRetry.deadlineS_eq, defaultRetry.attemptS_eq]
    norm_num [defaultRetry, backoffCapS]
  have htimeout : consumeTimeout defaultLoop.flushIntervalS = 60 := by
    norm_num [consumeTimeout, defaultLoop, consumeMaxBlockS]
  rw [hlongest, htimeout]
  norm_num [maxPollAgeS]

end Millpond.Main
