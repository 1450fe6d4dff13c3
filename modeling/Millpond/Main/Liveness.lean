import Millpond.Main.Loop
import Millpond.Config.LivenessBudget
import Mathlib.Data.List.Chain

set_option autoImplicit false

/-! # The liveness probe and the flush

`health.record_poll()` runs once an iteration, after `kafka.consume` returns, so the time between
two polls is one flush plus one consume. The runtime deadline bounds the flush by 450 s; what is
left of the 480 s is half of what a consume may block. -/

namespace Millpond.Main

open Prog Millpond.Config

variable {ε W : Type} {rt : Runtime ε W} {cfg : LoopConfig} {retry : HoglakeRetry}

/-! ## The probe -/

def maxPollAgeS : ℚ := 480

/-- `_HealthState`, as far as `is_alive` reads it. -/
structure Health where
  started : Bool
  lastPoll : ℚ

/-- `is_alive`. -/
def Health.isAlive (health : Health) (now : ℚ) : Bool :=
  health.started && now - health.lastPoll < maxPollAgeS

/-- The times of the `record_poll` calls. -/
def pollTimes (trace : List Event) : List ℚ :=
  trace.filterMap fun
    | .polled t => some t
    | _ => none

/-- The probe's state at time `t`: started at `start`, last poll the latest one by then. -/
def healthAt (start : ℚ) (trace : List Event) (t : ℚ) : Health where
  started := true
  lastPoll := ((pollTimes trace).filter (· ≤ t)).getLastD start

/-- The state the loop is in after at most `n` iterations, an exception included. -/
def loopState (rt : Runtime ε W) (cfg : LoopConfig) (w : W) (n : ℕ) : St W :=
  final (loop rt cfg n) (St.init rt w)

/-- Consecutive polls are less than the probe's limit apart, and `is_alive` is true at every
    instant of the loop. -/
def StaysAlive (rt : Runtime ε W) (cfg : LoopConfig) (w : W) (n : ℕ) : Prop :=
  (pollTimes (loopState rt cfg w n).trace).IsChain (fun a b => b - a < maxPollAgeS) ∧
    ∀ t, rt.now w ≤ t → t ≤ rt.now (loopState rt cfg w n).world →
      (healthAt (rt.now w) (loopState rt cfg w n).trace t).isAlive t = true

/-! ## The environment of a healthy pod -/

/-- A hoglake sink whose attempts stay within the reservation, a consume that blocks at most its
    timeout, an offset commit that returns at once, and no other call that takes time. -/
structure Timely (rt : Runtime ε W) (retry : HoglakeRetry) : Prop where
  budget : rt.writeRetryBudget = some (retry.maxRetries, writeBaseDelayS)
  deadline : rt.writeFlushDeadline = some (hoglakeFlushDeadline retry.timeoutS)
  consume : ∀ n timeout w, 0 ≤ timeout → rt.now w ≤ rt.now (rt.consume n timeout w).2 ∧
    rt.now (rt.consume n timeout w).2 ≤ rt.now w + timeout
  attempt : ∀ call w, rt.now (rt.attempt call w).2 = rt.now w
  write : ∀ batch args w, rt.now w ≤ rt.now (rt.write batch args w).2 ∧
    rt.now (rt.write batch args w).2 ≤ rt.now w + retry.attemptS
  commit : ∀ offsets w, ∃ w', rt.commit offsets w = (.ok (), w') ∧ rt.now w' = rt.now w
  sleep : ∀ delay w, 0 ≤ delay → rt.now (rt.sleep delay w) = rt.now w + delay
  uniform : ∀ upper w, 0 ≤ upper → 0 ≤ (rt.uniform upper w).1 ∧ (rt.uniform upper w).1 ≤ upper ∧
    rt.now (rt.uniform upper w).2 = rt.now w
  hint : ∀ hint ∈ rt.retryAfterHint, ∀ w, rt.now (hint w).2 = rt.now w
  resetCaches : ∀ w, rt.now (rt.resetCaches w) = rt.now w

/-! ## Time a program takes -/

/-- At most `d` seconds pass, and no poll is recorded. -/
structure Elapses (rt : Runtime ε W) (d : ℚ) (s s' : St W) : Prop where
  le : rt.now s.world ≤ rt.now s'.world
  bound : rt.now s'.world ≤ rt.now s.world + d
  lastPoll : s'.lastPoll = s.lastPoll
  polls : pollTimes s'.trace = pollTimes s.trace

theorem Elapses.trans {d d' : ℚ} {s s' s'' : St W} (h : Elapses rt d s s')
    (h' : Elapses rt d' s' s'') : Elapses rt (d + d') s s'' where
  le := h.le.trans h'.le
  bound := by linarith [h.bound, h'.bound]
  lastPoll := h'.lastPoll.trans h.lastPoll
  polls := h'.polls.trans h.polls

theorem Elapses.mono {d d' : ℚ} {s s' : St W} (h : Elapses rt d s s') (hd : d ≤ d') :
    Elapses rt d' s s' where
  le := h.le
  bound := by linarith [h.bound]
  lastPoll := h.lastPoll
  polls := h.polls

/-- However the program ends, it took at most `d` seconds. -/
abbrev Takes (rt : Runtime ε W) (d : ℚ) {α : Type} (x : M ε W α) : Prop := Within (Elapses rt d) x

theorem Takes.bind {α β : Type} {d d' : ℚ} {x : M ε W α} {f : α → M ε W β} (hx : Takes rt d x)
    (hd' : 0 ≤ d') (hf : ∀ a, Takes rt d' (f a)) : Takes rt (d + d') (x >>= f) :=
  Within.bind hx hf (fun _ _ h => h.mono (by linarith)) (fun _ _ _ h h' => h.trans h')

/-- Two instantaneous steps in a row. -/
theorem Takes.bind_zero {α β : Type} {d : ℚ} {x : M ε W α} {f : α → M ε W β}
    (hx : Takes rt 0 x) (hd : 0 ≤ d) (hf : ∀ a, Takes rt d (f a)) : Takes rt d (x >>= f) := by
  have := hx.bind hd hf
  rwa [zero_add] at this

/-- A state change that leaves the clock and the polls alone. -/
theorem elapses_zero {s s' : St W} (hnow : rt.now s'.world = rt.now s.world)
    (hpoll : s'.lastPoll = s.lastPoll) (htrace : pollTimes s'.trace = pollTimes s.trace) :
    Elapses rt 0 s s' :=
  ⟨hnow.ge, by rw [hnow, add_zero], hpoll, htrace⟩

theorem takes_pure {α : Type} (a : α) : Takes rt 0 (pure a : M ε W α) :=
  fun _ => elapses_zero rfl rfl rfl

theorem takes_get : Takes rt 0 (get : M ε W (St W)) := fun _ => elapses_zero rfl rfl rfl

theorem takes_note {e : Event} (he : pollTimes [e] = []) : Takes rt 0 (note e : M ε W PUnit) := by
  intro s
  refine elapses_zero rfl rfl ?_
  simp only [pollTimes, List.filterMap_append] at he ⊢
  rw [he, List.append_nil]

/-- A call out of the process takes what its world function takes. -/
theorem takes_external {α : Type} {origin : Call} {f : W → Outcome ε α × W} {d : ℚ}
    (h : ∀ w, rt.now w ≤ rt.now (f w).2 ∧ rt.now (f w).2 ≤ rt.now w + d) :
    Takes rt d (external origin f) := by
  intro s
  have hs := h s.world
  refine wp_external (fun a w hf => ?_) (fun e w hf => ?_) (fun w hf => ?_)
  all_goals
    rw [hf] at hs
    exact ⟨hs.1, hs.2, rfl, rfl⟩

theorem takes_attempt (ht : Timely rt retry) (call : Call) :
    Takes rt 0 (external call (rt.attempt call)) :=
  takes_external fun w => by simp [ht.attempt call w]

/-! ## Converting and filtering take no time -/

theorem takes_ingest (ht : Timely rt retry) (values : List Msg) : Takes rt 0 (ingest rt values) := by
  have hnote : ∀ msgs reason, Takes rt 0 (note (.skipped msgs reason) : M ε W PUnit) :=
    fun _ _ => takes_note rfl
  have hconvert : Takes rt 0 (convertBatch rt values) :=
    (takes_attempt ht _).bind_zero le_rfl fun _ => takes_pure _
  have hcoerce : ∀ table, Takes rt 0 (coerceColumns rt table) :=
    fun table => (takes_attempt ht _).bind_zero le_rfl fun _ => takes_pure _
  have hfilter : ∀ table, Takes rt 0 (applyFilter rt table) := fun table =>
    (takes_attempt ht _).bind_zero le_rfl fun _ => takes_get.bind_zero le_rfl fun _ =>
      (hnote _ _).bind_zero le_rfl fun _ => (hnote _ _).bind_zero le_rfl fun _ =>
        (hnote _ _).bind_zero le_rfl fun _ => takes_pure _
  have hdrop : ∀ table, Takes rt 0 (applyDropFilter rt table) := fun table =>
    (takes_attempt ht _).bind_zero le_rfl fun _ => (hnote _ _).bind_zero le_rfl fun _ =>
      takes_pure _
  have happend : ∀ table, Takes rt 0 (appendPending rt table) := by
    intro table s
    unfold appendPending
    rw [wp_ite]
    exact ⟨fun _ => elapses_zero rfl rfl rfl, fun _ => elapses_zero rfl rfl rfl⟩
  have hjson : ∀ converted, Takes rt 0 (noteJsonParse rt values converted) := by
    intro converted s
    unfold noteJsonParse
    rw [wp_ite]
    exact ⟨fun _ => hnote _ _ s, fun _ => elapses_zero rfl rfl rfl⟩
  refine hconvert.bind_zero le_rfl fun result => ?_
  cases result with
  | none => exact hnote _ _
  | some converted =>
      exact (hcoerce _).bind_zero le_rfl fun _ => (hfilter _).bind_zero le_rfl fun _ =>
        (hdrop _).bind_zero le_rfl fun _ => (happend _).bind_zero le_rfl fun _ => hjson _

theorem takes_receive (ht : Timely rt retry) (msgs : List Msg) : Takes rt 0 (receive rt msgs) := by
  refine (takes_note rfl).bind_zero le_rfl fun _ => takes_get.bind_zero le_rfl fun s => ?_
  refine Takes.bind_zero (fun _ => elapses_zero rfl rfl rfl) le_rfl fun _ => ?_
  split
  · exact takes_pure _
  · exact takes_ingest ht _

/-! ## A flush takes at most `longestFlushS` -/

theorem attemptS_nonneg (retry : HoglakeRetry) : 0 ≤ retry.attemptS := by
  rw [retry.attemptS_eq]
  linarith [retry.timeoutS_pos]

theorem longestFlushS_nonneg (retry : HoglakeRetry) : 0 ≤ retry.longestFlushS := by
  have hcost := attemptS_nonneg retry
  have hpos : (1 : ℚ) ≤ retry.maxRetries := by exact_mod_cast retry.maxRetries_pos
  unfold HoglakeRetry.longestFlushS
  split
  · exact hcost
  · rw [retry.deadlineS_eq]
    refine le_min (by norm_num) ?_
    unfold backoffCapS
    have := mul_nonneg (zero_le_one.trans hpos) hcost
    linarith

/-- An attempt may start `elapsed` seconds into its flush: at the start, or with the deadline's
    check behind it. -/
structure MayStart (retry : HoglakeRetry) (attempt : ℕ) (elapsed : ℚ) : Prop where
  last : attempt < retry.maxRetries
  ladder : elapsed ≤ attempt * (retry.attemptS + backoffCapS)
  checked : attempt = 0 ∨ elapsed + retry.attemptS ≤ retry.deadlineS

/-- An attempt that may start ends by `longestFlushS`. -/
theorem MayStart.ends {attempt : ℕ} {elapsed : ℚ} (h : MayStart retry attempt elapsed) :
    elapsed + retry.attemptS ≤ retry.longestFlushS := by
  have hcost := attemptS_nonneg retry
  have hlast : (attempt : ℚ) + 1 ≤ retry.maxRetries := by exact_mod_cast h.last
  have hladder := h.ladder
  unfold HoglakeRetry.longestFlushS
  split
  · next hone =>
      have hzero : attempt = 0 := by have := h.last; omega
      subst hzero
      simp only [Nat.cast_zero, zero_mul] at hladder
      linarith
  · next hne =>
      have hmul : (attempt : ℚ) * (retry.attemptS + backoffCapS)
          ≤ (retry.maxRetries - 1) * (retry.attemptS + backoffCapS) := by
        refine mul_le_mul_of_nonneg_right (by linarith) ?_
        unfold backoffCapS
        linarith
      refine le_min ?_ (by linarith)
      rcases h.checked with hzero | hchecked
      · subst hzero
        have hfit := retry.gaps_fit hne
        have hpos : (1 : ℚ) ≤ retry.maxRetries := by exact_mod_cast retry.maxRetries_pos
        simp only [Nat.cast_zero, zero_mul] at hladder
        unfold backoffCapS at hfit
        linarith
      · exact hchecked

/-- `_retry_delay` is instantaneous and answers at most the cap. -/
theorem retryDelay_spec (ht : Timely rt retry) (attempt : ℕ) (s : St W) :
    wp (retryDelay rt attempt writeBaseDelayS)
      (fun delay s' => 0 ≤ delay ∧ delay ≤ backoffCapS ∧ Elapses rt 0 s s')
      (fun _ _ => False) s := by
  unfold retryDelay
  simp only [wp_bind, wp_get, wp_onWorld, wp_pure]
  have hbackoff : (0 : ℚ) ≤ min (writeBaseDelayS * 2 ^ attempt) retryAfterMaxS :=
    le_min (by unfold writeBaseDelayS; positivity) (by norm_num [retryAfterMaxS])
  have hfinish : ∀ delay w, 0 ≤ delay → rt.now w = rt.now s.world →
      0 ≤ min (delay + (rt.uniform (delay * retryJitter) w).1) retryAfterMaxS ∧
        min (delay + (rt.uniform (delay * retryJitter) w).1) retryAfterMaxS ≤ backoffCapS ∧
        Elapses rt 0 s { s with world := (rt.uniform (delay * retryJitter) w).2 } := by
    intro delay w hdelay hw
    have hjit : 0 ≤ delay * retryJitter := mul_nonneg hdelay (by norm_num [retryJitter])
    obtain ⟨h0, -, hnow⟩ := ht.uniform _ w hjit
    exact ⟨le_min (by linarith) (by norm_num [retryAfterMaxS]), min_le_right _ _,
      elapses_zero (hnow.trans hw) rfl rfl⟩
  cases hhint : rt.retryAfterHint with
  | none => exact hfinish _ _ hbackoff rfl
  | some hint =>
      have hnow := ht.hint hint (by simp [hhint]) s.world
      cases hsec : (hint s.world).1 with
      | none =>
          have := hfinish _ (hint s.world).2 hbackoff hnow
          simpa only [hsec] using this
      | some seconds =>
          have := hfinish (max _ (min seconds retryAfterMaxS)) (hint s.world).2
            (le_max_of_le_left hbackoff) hnow
          simpa only [hsec] using this

/-- `_write_with_retry` takes at most `longestFlushS`. -/
theorem takes_writeWithRetry (ht : Timely rt retry) (batch : Table) (args : Option WriteArgs) :
    Takes rt retry.longestFlushS (writeWithRetry rt batch args) := by
  intro s
  have hbudget : retryBudget rt = (retry.maxRetries, writeBaseDelayS) := by
    simp [retryBudget, ht.budget]
  unfold writeWithRetry
  simp only [wp_bind, wp_get, hbudget]
  -- the clock before each attempt, `elapsed` seconds after the flush began
  refine wp_retry (I := fun attempt s' => ∃ elapsed, MayStart retry attempt elapsed ∧
    Elapses rt elapsed s s') ?_
    (fun s' ⟨_, h, _⟩ => absurd h.last (Nat.lt_irrefl _)) _ 0 s (Nat.zero_add _)
    ⟨0, ⟨retry.maxRetries_pos, by simp, Or.inl rfl⟩, elapses_zero rfl rfl rfl⟩
  rintro attempt s₁ ⟨elapsed, hstart, hs₁⟩
  simp only [wp_bind, wp_note, wp_pure]
  have hwrite : ∀ w, (rt.write batch args s₁.world).2 = w →
      Elapses rt (elapsed + retry.attemptS) s { s₁ with world := w } := by
    rintro w rfl
    obtain ⟨hle, hbound⟩ := ht.write batch args s₁.world
    exact hs₁.trans ⟨hle, hbound, rfl, rfl⟩
  refine wp_external (fun count w hf => ?_) (fun e w hf => ?_) (fun w hf => ?_)
  · have hs₂ : Elapses rt retry.longestFlushS s { s₁ with world := w } :=
      (hwrite w (by rw [hf])).mono hstart.ends
    have hnote : Elapses rt 0 { s₁ with world := w }
        { s₁ with world := w, trace := s₁.trace ++ [.wrote batch count] } :=
      elapses_zero rfl rfl (by simp [pollTimes])
    simpa using hs₂.trans hnote
  · have hs₂ := hwrite w (by rw [hf])
    unfold afterWriteFailure
    simp only [wp_bind, wp_get, wp_ite, wp_throw, wp_onWorld]
    refine ⟨fun _ => hs₂.mono hstart.ends, fun _ => ⟨fun _ => hs₂.mono hstart.ends, fun hne => ?_⟩⟩
    refine wp_mono (retryDelay_spec ht attempt _) ?_ (fun _ _ h => h.elim)
    rintro delay s₃ ⟨h0, hcap, hs₃⟩
    have hs₃' : Elapses rt (elapsed + retry.attemptS) s s₃ := by simpa using hs₂.trans hs₃
    refine ⟨fun _ => hs₃'.mono hstart.ends, fun hroom => ?_⟩
    have hnow : rt.now (rt.sleep delay (rt.resetCaches s₃.world)) = rt.now s₃.world + delay := by
      rw [ht.sleep delay _ h0, ht.resetCaches]
    -- the check: time spent, this sleep and one more attempt fit the deadline
    have hroom' : (rt.now s₃.world - rt.now s.world) + delay + retry.attemptS
        ≤ retry.deadlineS := by
      have : deadlineExceeded rt (rt.now s.world) (rt.now s₃.world) delay = false := by
        simpa using hroom
      simp only [deadlineExceeded, ht.deadline, decide_eq_false_iff_not, not_lt] at this
      exact this
    refine ⟨rt.now s₃.world - rt.now s.world + delay,
      ⟨by have := hstart.last; omega, ?_, Or.inr hroom'⟩,
      ⟨?_, ?_, hs₃'.lastPoll, hs₃'.polls⟩⟩
    · have hladder := hstart.ladder
      have hb := hs₃'.bound
      push_cast
      linarith
    · rw [hnow]
      linarith [hs₃'.le]
    · rw [hnow]
      linarith
  · exact (hwrite w (by rw [hf])).mono hstart.ends

theorem takes_commitOffsets (ht : Timely rt retry) (offsets : List (Key × ℕ)) :
    Takes rt 0 (commitOffsets rt offsets) := by
  intro s
  unfold commitOffsets
  refine wp_retry (I := fun _ s' => Elapses rt 0 s s') ?_ ?_ _ 0 s (Nat.zero_add _)
    (elapses_zero rfl rfl rfl)
  swap
  · exact fun _ h => h
  intro attempt s₁ hs₁
  obtain ⟨w', hcommit, hnow⟩ := ht.commit offsets s₁.world
  simp only [wp_bind, wp_note, wp_pure]
  refine wp_external (fun a w hf => ?_) (fun e w hf => ?_) (fun w hf => ?_)
  · rw [hcommit, Prod.mk.injEq] at hf
    obtain ⟨-, rfl⟩ := hf
    have hstep : Elapses rt 0 s₁
        { s₁ with world := w', trace := s₁.trace ++ [.commit offsets] } :=
      elapses_zero hnow rfl (by simp [pollTimes])
    simpa using hs₁.trans hstep
  · rw [hcommit] at hf
    cases hf
  · rw [hcommit] at hf
    cases hf

theorem takes_concatPending (ht : Timely rt retry) : Takes rt 0 (concatPending rt) :=
  (takes_attempt ht _).bind_zero le_rfl fun _ => takes_get.bind_zero le_rfl fun _ => takes_pure _

theorem takes_flush (ht : Timely rt retry) (consolidated : Table) (trigger : Trigger) :
    Takes rt retry.longestFlushS (flush rt cfg consolidated trigger) := by
  have hL := longestFlushS_nonneg retry
  refine (takes_attempt ht _).bind_zero hL fun _ => takes_get.bind_zero hL fun s => ?_
  have hrest : Takes rt 0 (do
      commitOffsets rt (tpOffsets s.offsets)
      let _ ← external .flushMetrics (rt.attempt .flushMetrics)) :=
    (takes_commitOffsets ht _).bind_zero le_rfl fun _ =>
      (takes_attempt ht _).bind_zero le_rfl fun _ => takes_pure _
  have := (takes_writeWithRetry ht (rt.sorted consolidated)
    (sinkWriteKwargs cfg s.offsets trigger)).bind le_rfl fun _ => hrest
  rwa [add_zero] at this

theorem takes_sampleLag (ht : Timely rt retry) : Takes rt 0 (sampleLag rt) := by
  refine takes_get.bind_zero le_rfl fun s => ?_
  split
  · exact (takes_attempt ht _).bind_zero le_rfl fun _ => fun _ => elapses_zero rfl rfl rfl
  · exact takes_pure _

/-- A flush that goes through resets `last_flush` to the time it ends. -/
theorem flushPending_elapses (ht : Timely rt retry) (trigger : Trigger) (s : St W) :
    wp (flushPending rt cfg trigger)
      (fun _ s' => Elapses rt retry.longestFlushS s s' ∧ s'.lastFlush = rt.now s'.world)
      (fun _ s' => Elapses rt retry.longestFlushS s s') s := by
  have hL := longestFlushS_nonneg retry
  unfold flushPending
  rw [wp_bind]
  refine wp_mono (takes_concatPending ht s) (fun table s₁ h₁ => ?_) (fun _ _ h => h.mono hL)
  rw [wp_bind]
  refine wp_mono (takes_flush ht table trigger s₁) (fun _ s₂ h₂ => ?_)
    (fun _ _ h => by simpa using h₁.trans h)
  have h₁₂ : Elapses rt retry.longestFlushS s s₂ := by simpa using h₁.trans h₂
  rw [wp_bind]
  refine wp_mono (takes_sampleLag ht s₂) (fun _ s₃ h₃ => ?_)
    (fun _ _ h => by simpa using h₁₂.trans h)
  have h₁₃ : Elapses rt retry.longestFlushS s s₃ := by simpa using h₁₂.trans h₃
  exact ⟨⟨h₁₃.le, h₁₃.bound, h₁₃.lastPoll, h₁₃.polls⟩, rfl⟩

/-! ## The pace of the loop -/

/-- Polls so far are in order and close together; the last one is `lastPoll`. -/
structure PollsKept (rt : Runtime ε W) (start : ℚ) (s : St W) : Prop where
  chain : (start :: pollTimes s.trace).IsChain (fun a b => a ≤ b ∧ b - a < maxPollAgeS)
  last : (pollTimes s.trace).getLastD start = s.lastPoll
  le : s.lastPoll ≤ rt.now s.world

/-- The probe would find the loop alive now. -/
structure Recent (rt : Runtime ε W) (start : ℚ) (s : St W) : Prop extends PollsKept rt start s where
  recent : rt.now s.world - s.lastPoll < maxPollAgeS

/-- Between iterations: no time has passed since the last poll, or one flush has and it reset
    `last_flush`. -/
structure Paced (rt : Runtime ε W) (retry : HoglakeRetry) (start : ℚ) (s : St W) : Prop
    extends PollsKept rt start s where
  slack : rt.now s.world = s.lastPoll ∨
    s.lastFlush = rt.now s.world ∧ rt.now s.world ≤ s.lastPoll + retry.longestFlushS

theorem consumeTimeout_pos (remaining : ℚ) : 0 < consumeTimeout remaining :=
  lt_min (lt_max_of_lt_right (by norm_num)) (by norm_num [consumeMaxBlockS])

theorem PollsKept.elapses {d start : ℚ} {s s' : St W} (h : PollsKept rt start s)
    (he : Elapses rt d s s') : PollsKept rt start s' where
  chain := by rw [he.polls]; exact h.chain
  last := by rw [he.polls, he.lastPoll]; exact h.last
  le := by rw [he.lastPoll]; exact h.le.trans he.le

/-- The slack of a paced loop and its next consume stay below the probe's limit. -/
theorem Paced.consume {start : ℚ} {s : St W} (h : Paced rt retry start s)
    (hbudget : retry.longestFlushS + consumeTimeout cfg.flushIntervalS < maxPollAgeS) :
    rt.now s.world - s.lastPoll +
      consumeTimeout (cfg.flushIntervalS - (rt.now s.world - s.lastFlush)) < maxPollAgeS := by
  rcases h.slack with hnow | ⟨hflush, hnow⟩
  · rw [hnow, sub_self, zero_add]
    refine lt_of_le_of_lt (min_le_right _ _) (by norm_num [consumeMaxBlockS, maxPollAgeS])
  · rw [hflush, sub_self, sub_zero]
    linarith

theorem iteration_paced (ht : Timely rt retry)
    (hbudget : retry.longestFlushS + consumeTimeout cfg.flushIntervalS < maxPollAgeS)
    {start : ℚ} (s : St W) (h : Paced rt retry start s) :
    wp (iteration rt cfg) (fun _ => Paced rt retry start) (fun _ => Recent rt start) s := by
  have hL := longestFlushS_nonneg retry
  have hτ := consumeTimeout_pos cfg.flushIntervalS
  have hgap := h.consume hbudget
  unfold iteration poll
  simp only [wp_bind, wp_get, wp_modify, wp_note, wp_pure]
  have hconsume := fun n => ht.consume n _ s.world
    (consumeTimeout_pos (cfg.flushIntervalS - (rt.now s.world - s.lastFlush))).le
  have hdead : ∀ w, (rt.consume (computeBatchSize cfg s.pendingBytes)
      (consumeTimeout (cfg.flushIntervalS - (rt.now s.world - s.lastFlush))) s.world).2 = w →
      Recent rt start { s with world := w } := by
    rintro w rfl
    obtain ⟨hle, hbound⟩ := hconsume (computeBatchSize cfg s.pendingBytes)
    exact ⟨⟨h.chain, h.last, h.le.trans hle⟩, by show rt.now _ - s.lastPoll < _; linarith⟩
  refine wp_external (fun msgs w hf => ?_) (fun e w hf => hdead w (by rw [hf]))
    (fun w hf => hdead w (by rw [hf]))
  -- the poll is recorded at the time the consume returned
  have hpolled : PollsKept rt start { s with
      world := w, lastPoll := rt.now w, trace := s.trace ++ [.polled (rt.now w)] } := by
    have hrec := hdead w (by rw [hf])
    have htimes : pollTimes (s.trace ++ [.polled (rt.now w)])
        = pollTimes s.trace ++ [rt.now w] := by simp [pollTimes]
    refine ⟨?_, by rw [htimes, List.getLastD_concat], le_rfl⟩
    rw [htimes, ← List.cons_append, List.isChain_append]
    refine ⟨h.chain, List.isChain_singleton _, fun a ha b hb => ?_⟩
    simp only [List.head?_cons, Option.mem_def, Option.some.injEq] at hb
    have ha' : s.lastPoll = a := by
      rw [← h.last, List.getLastD_eq_getLast?]
      rw [List.getLast?_cons, Option.mem_def, Option.some.injEq] at ha
      exact ha
    rw [← ha', ← hb]
    exact ⟨hrec.le, hrec.recent⟩
  have hnow₁ : rt.now w = rt.now w := rfl
  refine wp_mono (takes_receive ht msgs _) ?_ ?_
  · intro _ s₂ h₂
    have hkept := hpolled.elapses h₂
    have hnow : rt.now s₂.world = s₂.lastPoll := by
      have hb := h₂.bound
      rw [add_zero] at hb
      rw [h₂.lastPoll]
      exact le_antisymm hb h₂.le
    cases flushTrigger rt cfg s₂ with
    | none => exact ⟨hkept, Or.inl hnow⟩
    | some trigger =>
        refine wp_mono (flushPending_elapses ht trigger s₂) ?_ ?_
        · rintro _ s₃ ⟨h₃, hflush⟩
          refine ⟨hkept.elapses h₃, Or.inr ⟨hflush, ?_⟩⟩
          rw [h₃.lastPoll, ← hnow]
          exact h₃.bound
        · intro _ s₃ h₃
          refine ⟨hkept.elapses h₃, ?_⟩
          have hb := h₃.bound
          rw [h₃.lastPoll, ← hnow]
          linarith
  · intro _ s₂ h₂
    refine ⟨hpolled.elapses h₂, ?_⟩
    have hb := h₂.bound
    rw [add_zero] at hb
    rw [h₂.lastPoll]
    show rt.now s₂.world - rt.now w < maxPollAgeS
    have hb : rt.now s₂.world ≤ rt.now w := hb
    have : (0 : ℚ) < maxPollAgeS := by norm_num [maxPollAgeS]
    linarith

/-- With polls close together up to `stop`, the latest poll before any instant is recent. -/
theorem latest_recent {polls : List ℚ} {stop : ℚ} :
    ∀ {start : ℚ}, (start :: polls).IsChain (fun a b => a ≤ b ∧ b - a < maxPollAgeS) →
      stop - polls.getLastD start < maxPollAgeS → ∀ t, start ≤ t → t ≤ stop →
        t - (polls.filter (· ≤ t)).getLastD start < maxPollAgeS := by
  induction polls with
  | nil =>
      intro start _ hstop t _ hle
      simp only [List.getLastD_nil, List.filter_nil] at hstop ⊢
      linarith
  | cons p rest ih =>
      intro start hchain hstop t hstart hle
      obtain ⟨⟨hsp, hgap⟩, hrest⟩ := List.isChain_cons_cons.1 hchain
      by_cases hpt : p ≤ t
      · have hfilter : ((p :: rest).filter (· ≤ t)).getLastD start
            = (rest.filter (· ≤ t)).getLastD p := by
          rw [List.filter_cons_of_pos (by simpa using hpt), List.getLastD_cons]
        rw [hfilter]
        exact ih hrest (by rwa [List.getLastD_cons] at hstop) t hpt hle
      · -- the next poll is still to come, and it is less than the limit after `start`
        have hlater : ∀ q ∈ p :: rest, ¬ q ≤ t := by
          intro q hq hqt
          have hpq : p ≤ q := by
            rcases List.mem_cons.1 hq with rfl | hq
            · exact le_rfl
            · have hpair := (List.isChain_iff_pairwise.1
                (hrest.imp fun a b (h : a ≤ b ∧ b - a < maxPollAgeS) => h.1))
              exact (List.pairwise_cons.1 hpair).1 q hq
          exact hpt (hpq.trans hqt)
        rw [List.filter_eq_nil_iff.2 (by simpa using hlater), List.getLastD_nil]
        linarith

/-- A loop that leaves polls kept and recent stayed alive. -/
theorem Recent.staysAlive {w : W} {n : ℕ}
    (h : Recent rt (rt.now w) (loopState rt cfg w n)) : StaysAlive rt cfg w n := by
  refine ⟨(h.chain.tail).imp fun a b hab => hab.2, fun t hstart hstop => ?_⟩
  have hlatest := latest_recent h.chain (by rw [h.last]; exact h.recent) t hstart hstop
  simpa [Health.isAlive, healthAt] using hlatest

/-- If the longest flush and one consume fit below the limit, every timely run stays alive. -/
theorem staysAlive_of_budget (ht : Timely rt retry)
    (hbudget : retry.longestFlushS + consumeTimeout cfg.flushIntervalS < maxPollAgeS)
    (w : W) (n : ℕ) : StaysAlive rt cfg w n := by
  have hinit : Paced rt retry (rt.now w) (St.init rt w) :=
    ⟨⟨List.isChain_singleton _, rfl, le_rfl⟩, Or.inl rfl⟩
  have hτ := consumeTimeout_pos cfg.flushIntervalS
  have hloop : wp (loop rt cfg n) (fun _ => Paced rt retry (rt.now w))
      (fun _ => Recent rt (rt.now w)) (St.init rt w) :=
    wp_whileLoop (fun s hI _ => iteration_paced ht hbudget s hI) n _ hinit
  refine Recent.staysAlive (final_of_wp (wp_mono hloop (fun _ s hpaced => ?_) (fun _ _ h => h)))
  refine ⟨hpaced.toPollsKept, ?_⟩
  have hL := longestFlushS_nonneg retry
  rcases hpaced.slack with hnow | ⟨-, hnow⟩
  · rw [hnow, sub_self]
    norm_num [maxPollAgeS]
  · linarith

end Millpond.Main
