import Millpond.Main.CallLog
import Mathlib.Data.List.Chain
import Mathlib.Tactic.Linarith
import Mathlib.Tactic.Positivity

set_option autoImplicit false

/-! # The retry loop

What the log of a `_write_with_retry` says: how many attempts, what lies between two of them, when the
loop gives up and what it ends with. One failed attempt and the wait after it are appended at a time;
`Going` is what holds of the log before an attempt. -/

namespace Millpond.Main

open Prog

variable {ε W : Type}

/-! ## Reading a log -/

/-- The outcome of a write. -/
def OutCall.outcome : OutCall ε → Option (Outcome ε ℕ)
  | .write _ _ outcome _ => some outcome
  | _ => none

/-- A write that the sink calls a permanent failure. -/
def OutCall.isPermanent : OutCall ε → Bool
  | .write _ _ _ permanent => permanent
  | _ => false

inductive Turn where
  | attempt
  | reset
deriving DecidableEq, Repr

def OutCall.turn : OutCall ε → Option Turn
  | .write .. => some .attempt
  | .resetCaches => some .reset
  | _ => none

/-- How long a call takes at most, when an attempt takes at most `cost`, a sleep its delay, and nothing
    else takes time. -/
def OutCall.mayTake (cost : ℚ) : OutCall ε → ℚ
  | .write .. => cost
  | .sleep delay => delay
  | _ => 0

/-- What the attempts came to, in order. -/
def attempts (log : Log ε W) : List (Outcome ε ℕ) := log.filterMap (·.call.outcome)

/-- The attempts and the resets, in order. -/
def turns (log : Log ε W) : List Turn := log.filterMap (·.call.turn)

/-- Each sleep, with the hint that was read since the attempt before it. -/
def delays : Option ℚ → Log ε W → List (Option ℚ × ℚ)
  | _, [] => []
  | _, ⟨.write .., _, _⟩ :: rest => delays none rest
  | _, ⟨.hint seconds, _, _⟩ :: rest => delays seconds rest
  | hint, ⟨.sleep delay, _, _⟩ :: rest => (hint, delay) :: delays none rest
  | hint, _ :: rest => delays hint rest

/-- Each call finds the world that the one before it left. -/
def Linked : W → Log ε W → W → Prop
  | w, [], w' => w = w'
  | w, i :: rest, w' => i.before = w ∧ Linked i.after rest w'

variable (rt : Runtime ε W)

/-- The delay that `_retry_delay` may answer after attempt `k`, counted from zero. -/
def DelayBounds (k : ℕ) (hint : Option ℚ) (delay : ℚ) : Prop :=
  min ((retryBudget rt).2 * 2 ^ k) retryAfterMaxS ≤ delay ∧
    (∀ seconds ∈ hint, min seconds retryAfterMaxS ≤ delay) ∧ delay ≤ retryAfterMaxS

/-- The flush deadline, if there is one, leaves room for this sleep and an attempt after it. -/
def HasRoom (started : W) (w : W) (delay : ℚ) : Prop :=
  ∀ budget cost, rt.writeFlushDeadline = some (budget, cost) →
    rt.now w - rt.now started + delay + cost ≤ budget

/-- How the loop ends, to its caller. -/
def Exn.outcome : Exn ε → Outcome ε ℕ
  | .raised failure => .raised failure.error
  | .killed => .killed

/-- **The retry loop, from `started` to `ended`.** -/
structure RetriesWell (batch : Table) (args : Option WriteArgs) (started ended : W)
    (outcome : Outcome ε ℕ) (log : Log ε W) : Prop where
  /-- The log is complete. -/
  linked : Linked started log ended
  /-- At most `max_attempts` calls of `write`, -/
  atMost : (attempts log).length ≤ (retryBudget rt).1
  /-- all with the same batch and arguments. -/
  same : ∀ i ∈ log, ∀ batch' args' outcome' permanent,
    i.call = .write batch' args' outcome' permanent → batch' = batch ∧ args' = args
  /-- One `reset_caches` before each retry and none after the last attempt. -/
  resets : ∃ retries, turns log = (List.replicate retries [.attempt, .reset]).flatten ++ [.attempt]
  /-- Nothing at all follows a permanent failure. -/
  permanent : log.IsChain fun i _ => i.call.isPermanent = false
  /-- Before a sleep, the deadline was checked by the clock of then. -/
  room : log.IsChain fun i j => ∀ delay, j.call = .sleep delay → HasRoom rt started i.before delay
  first : ∃ i rest, log = i :: rest ∧ i.call.turn = some .attempt
  /-- The loop ends as its last attempt did, and all before it raised. -/
  outcome : ∃ failed, attempts log = failed ++ [outcome] ∧ ∀ o ∈ failed, ∃ e, o = .raised e
  delays : ∀ k hint delay, (delays none log)[k]? = some (hint, delay) → DelayBounds rt k hint delay
  time : ∀ budget cost, rt.writeFlushDeadline = some (budget, cost) →
    (∀ i ∈ log, rt.now i.after - rt.now i.before ≤ i.call.mayTake cost) →
      rt.now ended - rt.now started ≤ max cost budget

/-! ## Logs in a row -/

theorem attempts_append (log log' : Log ε W) : attempts (log ++ log') = attempts log ++ attempts log' :=
  List.filterMap_append

theorem turns_append (log log' : Log ε W) : turns (log ++ log') = turns log ++ turns log' :=
  List.filterMap_append

theorem Linked.append {log log' : Log ε W} {w w' w'' : W} (h : Linked w log w')
    (h' : Linked w' log' w'') : Linked w (log ++ log') w'' := by
  induction log generalizing w with
  | nil =>
      obtain rfl : w = w' := h
      exact h'
  | cons i rest ih => exact ⟨h.1, ih h.2⟩

/-- No more time passes than the calls take. -/
theorem Linked.time {log : Log ε W} {w w' : W} (h : Linked w log w') {cost : ℚ}
    (htakes : ∀ i ∈ log, rt.now i.after - rt.now i.before ≤ i.call.mayTake cost) :
    rt.now w' - rt.now w ≤ (log.map fun i => i.call.mayTake cost).sum := by
  induction log generalizing w with
  | nil =>
      obtain rfl : w = w' := h
      simp
  | cons i rest ih =>
      have hhead := htakes i List.mem_cons_self
      have hrest := ih h.2 fun j hj => htakes j (List.mem_cons_of_mem _ hj)
      rw [h.1] at hhead
      rw [List.map_cons, List.sum_cons]
      linarith

/-! ## Asking -/

variable {rt}

/-- The calls of `_retry_delay`. -/
def OutCall.asks : OutCall ε → Bool
  | .hint _ => true
  | .uniform _ => true
  | _ => false

theorem attempts_of_asks {log : Log ε W} (h : ∀ i ∈ log, i.call.asks = true) : attempts log = [] := by
  refine List.filterMap_eq_nil_iff.2 fun i hi => ?_
  have hasks := h i hi
  cases hcall : i.call <;> rw [hcall] at hasks <;> first | rfl | cases hasks

theorem turns_of_asks {log : Log ε W} (h : ∀ i ∈ log, i.call.asks = true) : turns log = [] := by
  refine List.filterMap_eq_nil_iff.2 fun i hi => ?_
  have hasks := h i hi
  cases hcall : i.call <;> rw [hcall] at hasks <;> first | rfl | cases hasks

theorem delays_of_asks {log : Log ε W} (h : ∀ i ∈ log, i.call.asks = true) :
    ∀ hint, delays hint log = [] := by
  induction log with
  | nil => exact fun _ => rfl
  | cons i rest ih =>
      intro hint
      have hhead := h i List.mem_cons_self
      have hrest := ih fun j hj => h j (List.mem_cons_of_mem _ hj)
      rcases i with ⟨call, before, after⟩
      cases call <;> first | exact hrest _ | cases hhead

theorem not_isPermanent_of_asks {call : OutCall ε} (h : call.asks = true) : call.isPermanent = false := by
  cases call <;> first | rfl | cases h

theorem ne_sleep_of_asks {call : OutCall ε} (h : call.asks = true) (delay : ℚ) : call ≠ .sleep delay := by
  rintro rfl
  cases h

theorem mayTake_of_asks {call : OutCall ε} (h : call.asks = true) (cost : ℚ) : call.mayTake cost = 0 := by
  cases call <;> first | rfl | cases h

/-- What `_retry_delay` asks after attempt `k` and what it answers. -/
structure Asked (rt : Runtime ε W) (k : ℕ) (w w' : W) (delay : ℚ) (log : Log ε W) : Prop where
  asks : ∀ i ∈ log, i.call.asks = true
  linked : Linked w log w'
  delay : ∃ hint, (∀ rest, delays none (log ++ rest) = delays hint rest) ∧ DelayBounds rt k hint delay

/-- What is relied on of `random.uniform`, and of the sink's budget. -/
structure Runtime.Backoff (rt : Runtime ε W) : Prop where
  base_nonneg : 0 ≤ (retryBudget rt).2
  uniform_nonneg : ∀ upper w, 0 ≤ upper → 0 ≤ (rt.uniform upper w).1

theorem backoff_nonneg (hrt : rt.Backoff) (k : ℕ) :
    0 ≤ min ((retryBudget rt).2 * 2 ^ k) retryAfterMaxS :=
  le_min (mul_nonneg hrt.base_nonneg (by positivity)) (by norm_num [retryAfterMaxS])

/-- A floor between zero and the clamp, spread upward and clamped again. -/
theorem delayBounds_of_floor (hrt : rt.Backoff) {k : ℕ} {hint : Option ℚ} {floor : ℚ} (w : W)
    (hbackoff : min ((retryBudget rt).2 * 2 ^ k) retryAfterMaxS ≤ floor)
    (hhint : ∀ seconds ∈ hint, min seconds retryAfterMaxS ≤ floor) (hclamped : floor ≤ retryAfterMaxS) :
    DelayBounds rt k hint (min (floor + (rt.uniform (floor * retryJitter) w).1) retryAfterMaxS) := by
  have hfloor : 0 ≤ floor := (backoff_nonneg hrt k).trans hbackoff
  have hjitter := hrt.uniform_nonneg (floor * retryJitter) w
    (mul_nonneg hfloor (by norm_num [retryJitter]))
  have hspread : floor ≤ min (floor + (rt.uniform (floor * retryJitter) w).1) retryAfterMaxS :=
    le_min (le_add_of_nonneg_right hjitter) hclamped
  exact ⟨hbackoff.trans hspread, fun seconds hs => (hhint seconds hs).trans hspread, min_le_right _ _⟩

theorem retryDelay_asked (hrt : rt.Backoff) (k : ℕ) (s : St (W × Log ε W))
    {E : Exn ε → St (W × Log ε W) → Prop} :
    wp (retryDelay rt.logged k (retryBudget rt).2)
      (fun delay s' => ∃ w log, Asked rt k s.world.1 w delay log ∧
        s' = { s with world := (w, s.world.2 ++ log) }) E s := by
  unfold retryDelay
  simp only [wp_bind, wp_get, wp_onWorld, wp_pure]
  cases hhint : rt.retryAfterHint with
  | none =>
      simp only [Runtime.logged, hhint, Option.map_none]
      refine ⟨_, [_], ?_, rfl⟩
      refine ⟨?_, ⟨rfl, rfl⟩, none, fun rest => rfl, ?_⟩
      · intro i hi
        rw [List.mem_singleton.1 hi]
        rfl
      · exact delayBounds_of_floor hrt _ le_rfl (by simp) (min_le_right _ _)
  | some hint =>
      simp only [Runtime.logged, hhint, Option.map_some, List.append_assoc]
      refine ⟨_, [_, _], ?_, rfl⟩
      refine ⟨?_, ⟨rfl, rfl, rfl⟩, (hint s.world.1).1, fun rest => rfl, ?_⟩
      · intro i hi
        rcases List.mem_pair.1 hi with rfl | rfl <;> rfl
      · cases hseconds : (hint s.world.1).1 with
        | none => exact delayBounds_of_floor hrt _ le_rfl (by simp) (min_le_right _ _)
        | some seconds =>
            refine delayBounds_of_floor hrt _ (le_max_left _ _) ?_
              (max_le (min_le_right _ _) (min_le_right _ _))
            rintro _ ⟨rfl⟩
            exact le_max_right _ _

/-! ## One failure -/

/-- An attempt from `w`. -/
def attemptFrom (rt : Runtime ε W) (batch : Table) (args : Option WriteArgs) (w : W) :
    Interaction ε W where
  call := .write batch args (rt.write batch args w).1
    (rt.permanent (rt.write batch args w).2 (rt.write batch args w).1)
  before := w
  after := (rt.write batch args w).2

/-- The reset and the sleep before a retry. -/
def waited (rt : Runtime ε W) (w : W) (delay : ℚ) : Log ε W :=
  [⟨.resetCaches, w, rt.resetCaches w⟩,
    ⟨.sleep delay, rt.resetCaches w, rt.sleep delay (rt.resetCaches w)⟩]

/-- The handler waits: the failure was not permanent, the attempt not the last, and there was room. -/
def Waits (rt : Runtime ε W) (started : W) (k : ℕ) (error : ε) (s s' : St (W × Log ε W)) : Prop :=
  k + 1 ≠ (retryBudget rt).1 ∧ rt.permanent s.world.1 (.raised error) = false ∧
    ∃ w delay log, Asked rt k s.world.1 w delay log ∧ HasRoom rt started w delay ∧
      s' = { s with
        world := (rt.sleep delay (rt.resetCaches w), s.world.2 ++ (log ++ waited rt w delay)) }

/-- The handler gives up, at once if the failure was permanent. -/
def GivesUp (rt : Runtime ε W) (error : ε) (s : St (W × Log ε W)) (e : Exn ε)
    (s' : St (W × Log ε W)) : Prop :=
  e.outcome = .raised error ∧ ∃ w log, (∀ i ∈ log, i.call.asks = true) ∧ Linked s.world.1 log w ∧
    (rt.permanent s.world.1 (.raised error) = true → log = []) ∧
      s' = { s with world := (w, s.world.2 ++ log) }

theorem hasRoom_of_deadline {started w : W} {delay : ℚ}
    (h : deadlineExceeded rt (rt.now started) (rt.now w) delay = false) :
    HasRoom rt started w delay := by
  intro budget cost hdeadline
  rw [deadlineExceeded, hdeadline] at h
  exact not_lt.1 (of_decide_eq_false h)

/-- Giving up before anything was asked. -/
theorem givesUp_at_once (error : ε) (s : St (W × Log ε W)) {e : Exn ε} (he : e.outcome = .raised error) :
    GivesUp rt error s e s :=
  ⟨he, s.world.1, [], fun i hi => absurd hi List.not_mem_nil, rfl, fun _ => rfl, by rw [List.append_nil]⟩

theorem afterWriteFailure_logged (hrt : rt.Backoff) (started : W) (k : ℕ) (failure : Failure ε)
    (s : St (W × Log ε W)) :
    wp (afterWriteFailure rt.logged (retryBudget rt).1 (retryBudget rt).2 (rt.now started) k
        (.raised failure))
      (fun _ s' => Waits rt started k failure.error s s') (GivesUp rt failure.error s) s := by
  have hrest : rt.permanent s.world.1 (.raised failure.error) = false →
      wp (if k + 1 = (retryBudget rt).1 then throw (.raised failure) else do
          let delay ← retryDelay rt.logged k (retryBudget rt).2
          let now := rt.logged.now (← get).world
          if deadlineExceeded rt.logged (rt.now started) now delay then throw (.raised failure)
          else
            onWorld rt.logged.resetCaches
            onWorld (rt.logged.sleep delay))
        (fun _ s' => Waits rt started k failure.error s s') (GivesUp rt failure.error s) s := by
    intro hpermanent
    simp only [wp_bind, wp_get, wp_ite, wp_throw, wp_onWorld]
    refine ⟨fun _ => givesUp_at_once failure.error s rfl, fun hlast => ?_⟩
    refine wp_mono (retryDelay_asked hrt k s) ?_ (fun _ _ h => h)
    rintro delay _ ⟨w, log, hasked, rfl⟩
    refine ⟨fun _ => ⟨rfl, w, log, hasked.asks, hasked.linked, ?_, rfl⟩, fun hroom => ?_⟩
    · rw [hpermanent]
      exact fun h => Bool.noConfusion h
    · refine ⟨hlast, hpermanent, w, delay, log, hasked, ?_, ?_⟩
      · exact hasRoom_of_deadline (Bool.eq_false_iff.2 hroom)
      · simp only [Runtime.logged, waited, List.append_assoc, List.cons_append, List.nil_append]
  unfold afterWriteFailure
  rw [wp_bind, wp_get]
  cases hretryable : rt.isRetryable with
  | none =>
      simp only [Runtime.logged, hretryable, Option.map_none, Bool.false_eq_true, if_false] at hrest ⊢
      exact hrest (by rw [Runtime.permanent, hretryable]; rfl)
  | some retryable =>
      have hverdict : rt.permanent s.world.1 (.raised failure.error)
          = !retryable s.world.1 failure.error := by rw [Runtime.permanent, hretryable]; rfl
      simp only [Runtime.logged, hretryable, Option.map_some] at hrest ⊢
      rw [wp_ite]
      refine ⟨fun _ => givesUp_at_once failure.error s rfl, fun hno => hrest ?_⟩
      rw [hverdict]
      exact Bool.eq_false_iff.2 hno

/-! ## One attempt after another -/

/-- No failure was permanent, and a sleep comes after a check. -/
def Follows (rt : Runtime ε W) (started : W) (i j : Interaction ε W) : Prop :=
  i.call.isPermanent = false ∧ ∀ delay, j.call = .sleep delay → HasRoom rt started i.before delay

/-- The log before attempt `k`, counted from zero. -/
structure Going (rt : Runtime ε W) (batch : Table) (args : Option WriteArgs) (started : W) (k : ℕ)
    (w : W) (log : Log ε W) : Prop where
  linked : Linked started log w
  failed : (attempts log).length = k ∧ ∀ o ∈ attempts log, ∃ e, o = .raised e
  same : ∀ i ∈ log, ∀ batch' args' outcome' permanent,
    i.call = .write batch' args' outcome' permanent → batch' = batch ∧ args' = args
  resets : turns log = (List.replicate k [.attempt, .reset]).flatten
  follows : log.IsChain (Follows rt started)
  last : ∀ i ∈ log.getLast?, i.call.isPermanent = false
  first : log = [] ∨ ∃ i rest, log = i :: rest ∧ i.call.turn = some .attempt
  delays_append : ∀ rest, delays none (log ++ rest) = delays none log ++ delays none rest
  bounds : (delays none log).length = k ∧
    ∀ k hint delay, (delays none log)[k]? = some (hint, delay) → DelayBounds rt k hint delay
  time : ∀ budget cost, rt.writeFlushDeadline = some (budget, cost) →
    (∀ i ∈ log, rt.now i.after - rt.now i.before ≤ i.call.mayTake cost) →
      k = 0 ∧ w = started ∨ rt.now w - rt.now started + cost ≤ budget

variable {batch : Table} {args : Option WriteArgs} {started w : W} {k : ℕ} {log : Log ε W}

theorem Going.start : Going rt batch args started 0 started ([] : Log ε W) where
  linked := rfl
  failed := ⟨rfl, fun o ho => absurd ho List.not_mem_nil⟩
  same := fun i hi => absurd hi List.not_mem_nil
  resets := rfl
  follows := .nil
  last := fun i hi => absurd hi (Option.not_mem_none i)
  first := Or.inl rfl
  delays_append := fun _ => rfl
  bounds := ⟨rfl, fun _ _ _ h => by simp [delays] at h⟩
  time := fun _ _ _ _ => Or.inl ⟨rfl, rfl⟩

/-- No call of these sleeps, and none of them is a permanent failure. -/
theorem follows_of_quiet {log : Log ε W} (hpermanent : ∀ i ∈ log, i.call.isPermanent = false)
    (hsleep : ∀ i ∈ log, ∀ delay, i.call ≠ .sleep delay) : log.IsChain (Follows rt started) := by
  induction log with
  | nil => exact .nil
  | cons i rest ih =>
      have hrest := ih (fun j hj => hpermanent j (List.mem_cons_of_mem _ hj))
        fun j hj => hsleep j (List.mem_cons_of_mem _ hj)
      refine List.isChain_cons.2 ⟨fun j hj => ⟨hpermanent i List.mem_cons_self, fun delay hdelay => ?_⟩, hrest⟩
      exact absurd hdelay (hsleep j (List.mem_cons_of_mem _ (List.mem_of_mem_head? hj)) delay)

/-- An attempt and what is asked after it, which is nothing if it failed permanently. -/
theorem follows_attempt_asks {asked : Log ε W} (hasks : ∀ i ∈ asked, i.call.asks = true)
    (hpermanent : (attemptFrom rt batch args w).call.isPermanent = true → asked = []) :
    (attemptFrom rt batch args w :: asked).IsChain (Follows rt started) := by
  cases hverdict : (attemptFrom rt batch args w).call.isPermanent with
  | true =>
      rw [hpermanent hverdict]
      exact List.isChain_singleton _
  | false =>
      refine follows_of_quiet ?_ ?_
      · intro i hi
        rcases List.mem_cons.1 hi with rfl | hi
        · exact hverdict
        · exact not_isPermanent_of_asks (hasks i hi)
      · intro i hi delay
        rcases List.mem_cons.1 hi with rfl | hi
        · intro hcall
          cases hcall
        · exact ne_sleep_of_asks (hasks i hi) delay

/-- An attempt after what went before. -/
theorem Going.follows_attempt (h : Going rt batch args started k w log) {rest : Log ε W}
    (hrest : (attemptFrom rt batch args w :: rest).IsChain (Follows rt started)) :
    (log ++ attemptFrom rt batch args w :: rest).IsChain (Follows rt started) := by
  refine List.isChain_append.2 ⟨h.follows, hrest, fun i hi j hj => ⟨h.last i hi, fun delay hdelay => ?_⟩⟩
  rw [List.head?_cons, Option.mem_some_iff] at hj
  rw [← hj] at hdelay
  cases hdelay

theorem Going.first_attempt (h : Going rt batch args started k w log) (rest : Log ε W) :
    ∃ i rest', log ++ attemptFrom rt batch args w :: rest = i :: rest' ∧
      i.call.turn = some .attempt := by
  rcases h.first with rfl | ⟨i, rest', rfl, hi⟩
  · exact ⟨_, rest, rfl, rfl⟩
  · exact ⟨i, _, rfl, hi⟩

/-- All attempts are with the same batch and arguments. -/
theorem Going.same_attempt (h : Going rt batch args started k w log) {rest : Log ε W}
    (hrest : attempts rest = []) : ∀ i ∈ log ++ attemptFrom rt batch args w :: rest,
      ∀ batch' args' outcome' permanent, i.call = .write batch' args' outcome' permanent →
        batch' = batch ∧ args' = args := by
  intro i hi batch' args' outcome' permanent hcall
  rcases List.mem_append.1 hi with hi | hi
  · exact h.same i hi batch' args' outcome' permanent hcall
  · rcases List.mem_cons.1 hi with rfl | hi
    · cases hcall
      exact ⟨rfl, rfl⟩
    · have hnone := List.filterMap_eq_nil_iff.1 hrest i hi
      rw [hcall] at hnone
      cases hnone

/-- **A failed attempt and the wait after it.** -/
theorem Going.wait (h : Going rt batch args started k w log) {e : ε} {w' : W} {delay : ℚ}
    {asked : Log ε W} (hraised : (rt.write batch args w).1 = .raised e)
    (hpermanent : (attemptFrom rt batch args w).call.isPermanent = false)
    (hasked : Asked rt k (rt.write batch args w).2 w' delay asked) (hroom : HasRoom rt started w' delay) :
    Going rt batch args started (k + 1) (rt.sleep delay (rt.resetCaches w'))
      (log ++ attemptFrom rt batch args w :: (asked ++ waited rt w' delay)) := by
  have hlinked : Linked started (log ++ attemptFrom rt batch args w :: (asked ++ waited rt w' delay))
      (rt.sleep delay (rt.resetCaches w')) :=
    h.linked.append ⟨rfl, hasked.linked.append ⟨rfl, rfl, rfl⟩⟩
  have hattempts : attempts (log ++ attemptFrom rt batch args w :: (asked ++ waited rt w' delay))
      = attempts log ++ [.raised e] := by
    rw [attempts_append, ← List.singleton_append, attempts_append, attempts_append,
      attempts_of_asks hasked.asks, ← hraised]
    rfl
  have hrounds : turns (log ++ attemptFrom rt batch args w :: (asked ++ waited rt w' delay))
      = turns log ++ [.attempt, .reset] := by
    rw [turns_append, ← List.singleton_append, turns_append, turns_append, turns_of_asks hasked.asks]
    rfl
  obtain ⟨hint, hdelays, hbounds⟩ := hasked.delay
  have hround : ∀ rest, delays none (attemptFrom rt batch args w :: (asked ++ waited rt w' delay) ++ rest)
      = (hint, delay) :: delays none rest := by
    intro rest
    rw [List.cons_append, List.append_assoc]
    exact hdelays (waited rt w' delay ++ rest)
  have hlog : delays none (log ++ attemptFrom rt batch args w :: (asked ++ waited rt w' delay))
      = delays none log ++ [(hint, delay)] := by
    have hnil := hround []
    rw [List.append_nil] at hnil
    rw [h.delays_append, hnil]
    rfl
  refine ⟨hlinked, ⟨?_, ?_⟩, h.same_attempt ?_, ?_, h.follows_attempt ?_, ?_,
    Or.inr (h.first_attempt _), ?_, ⟨?_, ?_⟩, ?_⟩
  case refine_1 => rw [hattempts, List.length_append, h.failed.1, List.length_singleton]
  case refine_2 =>
    intro o ho
    rw [hattempts] at ho
    rcases List.mem_append.1 ho with ho | ho
    · exact h.failed.2 o ho
    · exact ⟨e, List.mem_singleton.1 ho⟩
  case refine_3 =>
    rw [attempts_append, attempts_of_asks hasked.asks]
    rfl
  case refine_4 => rw [hrounds, h.resets, List.replicate_succ', List.flatten_append]; rfl
  case refine_5 =>
    -- the sleep comes after the reset, and the reset at the time of the check
    have hwaited : (waited rt w' delay).IsChain (Follows rt started) := by
      refine List.isChain_pair.2 ⟨rfl, fun d hd => ?_⟩
      obtain rfl : delay = d := OutCall.sleep.inj hd
      exact hroom
    have hquiet : (attemptFrom rt batch args w :: asked).IsChain (Follows rt started) :=
      follows_attempt_asks hasked.asks fun hno => Bool.noConfusion (hpermanent.symm.trans hno)
    rw [← List.cons_append]
    refine List.isChain_append.2 ⟨hquiet, hwaited, fun i hi j hj => ⟨?_, fun d hd => ?_⟩⟩
    · rcases List.mem_cons.1 (List.mem_of_getLast? hi) with rfl | hi
      · exact hpermanent
      · exact not_isPermanent_of_asks (hasked.asks i hi)
    · rw [waited, List.head?_cons, Option.mem_some_iff] at hj
      rw [← hj] at hd
      cases hd
  case refine_6 =>
    intro i hi
    rw [waited, ← List.cons_append, ← List.append_assoc,
      List.getLast?_append_of_ne_nil _ (List.cons_ne_nil _ _)] at hi
    obtain rfl := Option.mem_some_iff.1 hi
    rfl
  case refine_7 =>
    intro rest
    rw [hlog, List.append_assoc, h.delays_append, hround, List.append_assoc]
    rfl
  case refine_8 => rw [hlog, List.length_append, h.bounds.1, List.length_singleton]
  case refine_9 =>
    intro k' hint' delay' hget
    rw [hlog] at hget
    rcases Nat.lt_or_ge k' k with hlt | hge
    · rw [List.getElem?_append_left (h.bounds.1.symm ▸ hlt)] at hget
      exact h.bounds.2 k' hint' delay' hget
    · rw [List.getElem?_append_right (h.bounds.1.symm ▸ hge), h.bounds.1] at hget
      have hk : k' - k = 0 := by
        by_contra hpos
        rw [List.getElem?_eq_none (by rw [List.length_singleton]; omega)] at hget
        cases hget
      rw [hk] at hget
      have hpair := Prod.mk.inj (Option.some.inj hget)
      rw [show k' = k by omega, ← hpair.1, ← hpair.2]
      exact hbounds
  case refine_10 =>
    intro budget cost hdeadline htakes
    have hsteps : ∀ i ∈ waited rt w' delay, rt.now i.after - rt.now i.before ≤ i.call.mayTake cost :=
      fun i hi => htakes i (List.mem_append_right _ (List.mem_cons_of_mem _ (List.mem_append_right _ hi)))
    have hreset := hsteps _ List.mem_cons_self
    have hsleep := hsteps _ (List.mem_cons_of_mem _ List.mem_cons_self)
    have hchecked := hroom budget cost hdeadline
    simp only [OutCall.mayTake] at hreset hsleep
    exact Or.inr (by linarith)

/-- **The last attempt.** -/
theorem Going.finish (h : Going rt batch args started k w log) (hk : k < (retryBudget rt).1)
    {asked : Log ε W} {w' : W} (hasks : ∀ i ∈ asked, i.call.asks = true)
    (hlinked : Linked (rt.write batch args w).2 asked w')
    (hpermanent : (attemptFrom rt batch args w).call.isPermanent = true → asked = []) :
    RetriesWell rt batch args started w' (rt.write batch args w).1
      (log ++ attemptFrom rt batch args w :: asked) := by
  have hattempts : attempts (log ++ attemptFrom rt batch args w :: asked)
      = attempts log ++ [(rt.write batch args w).1] := by
    rw [attempts_append, ← List.singleton_append, attempts_append, attempts_of_asks hasks]
    rfl
  have hchain := h.follows_attempt (follows_attempt_asks hasks hpermanent)
  have hwhole : Linked started (log ++ attemptFrom rt batch args w :: asked) w' :=
    h.linked.append ⟨rfl, hlinked⟩
  refine ⟨hwhole, ?_, h.same_attempt (attempts_of_asks hasks), ⟨k, ?_⟩, hchain.imp fun _ _ hf => hf.1,
    hchain.imp fun _ _ hf => hf.2, h.first_attempt _, ⟨attempts log, hattempts, h.failed.2⟩, ?_, ?_⟩
  · rw [hattempts, List.length_append, h.failed.1, List.length_singleton]
    omega
  · have hturns : turns (attemptFrom rt batch args w :: asked) = [.attempt] := by
      rw [← List.singleton_append, turns_append, turns_of_asks hasks]
      rfl
    rw [turns_append, h.resets, hturns]
  · have hdelays : delays none (log ++ attemptFrom rt batch args w :: asked) = delays none log := by
      have hround : delays none (attemptFrom rt batch args w :: asked) = [] := delays_of_asks hasks none
      rw [h.delays_append, hround, List.append_nil]
    rw [hdelays]
    exact h.bounds.2
  · intro budget cost hdeadline htakes
    have htail : ∀ i ∈ attemptFrom rt batch args w :: asked,
        rt.now i.after - rt.now i.before ≤ i.call.mayTake cost :=
      fun i hi => htakes i (List.mem_append_right _ hi)
    have hattempt := htail _ List.mem_cons_self
    have hasked := hlinked.time rt fun i hi => htail i (List.mem_cons_of_mem _ hi)
    have hzero : (asked.map fun i => i.call.mayTake cost).sum = 0 :=
      List.sum_eq_zero fun d hd => by
        obtain ⟨i, hi, rfl⟩ := List.mem_map.1 hd
        exact mayTake_of_asks (hasks i hi) cost
    rw [hzero] at hasked
    simp only [attemptFrom, OutCall.mayTake] at hattempt
    rcases h.time budget cost hdeadline fun i hi => htakes i (List.mem_append_left _ hi) with
      ⟨-, rfl⟩ | hroom
    · exact le_max_of_le_left (by linarith)
    · exact le_max_of_le_right (by linarith)

/-- The loop on the logged runtime. -/
theorem writeWithRetry_logged (hrt : rt.Backoff) (batch : Table) (args : Option WriteArgs)
    (s : St W) :
    wp (writeWithRetry rt.logged batch args)
      (fun count s' => RetriesWell rt batch args s.world s'.world.1 (.ok count) s'.world.2)
      (fun e s' => RetriesWell rt batch args s.world s'.world.1 e.outcome s'.world.2) s.record := by
  have hpos : 0 < (retryBudget rt).1 := by
    unfold retryBudget
    cases hb : rt.writeRetryBudget with
    | none => simp [writeMaxRetries]
    | some budget => exact rt.writeRetryBudget_pos budget (by simp [hb])
  unfold writeWithRetry
  simp only [wp_bind, wp_get]
  refine wp_retry (I := fun k s' => k < (retryBudget rt).1 ∧
    Going rt batch args s.world k s'.world.1 s'.world.2) ?_
    (fun s' h => absurd h.1 (Nat.lt_irrefl _)) _ 0 s.record (Nat.zero_add _) ⟨hpos, .start⟩
  rintro k s' ⟨hk, hgoing⟩
  simp only [wp_bind, wp_note, wp_pure]
  refine wp_external (fun count w' heq => ?_) (fun e w' heq => ?_) (fun w' heq => ?_)
  all_goals
    obtain ⟨houtcome, rfl⟩ := Prod.mk.inj heq
    have houtcome : (rt.write batch args s'.world.1).1 = _ := houtcome
  · have hfinish := hgoing.finish hk (fun i hi => absurd hi List.not_mem_nil) rfl fun _ => rfl
    rw [houtcome] at hfinish
    exact hfinish
  · have hverdict : (attemptFrom rt batch args s'.world.1).call.isPermanent
        = rt.permanent (rt.write batch args s'.world.1).2 (.raised e) := by
      rw [← houtcome]
      rfl
    refine wp_mono (afterWriteFailure_logged hrt s.world k ⟨.write, e, false⟩ _) ?_ ?_
    · rintro _ _ ⟨hlast, hpermanent, w, delay, log, hasked, hroom, rfl⟩
      have hwait := hgoing.wait houtcome (hverdict.trans hpermanent) hasked hroom
      rw [List.append_cons] at hwait
      exact ⟨by omega, hwait⟩
    · rintro e' _ ⟨he', w, log, hasks, hlinked, hpermanent, rfl⟩
      have hfinish := hgoing.finish hk hasks hlinked fun hverdict' =>
        hpermanent (hverdict.symm.trans hverdict')
      rw [houtcome, ← he', List.append_cons] at hfinish
      exact hfinish
  · have hfinish := hgoing.finish hk (fun i hi => absurd hi List.not_mem_nil) rfl fun _ => rfl
    rw [houtcome] at hfinish
    exact hfinish

/-- The calls of a `_write_with_retry`. -/
def callsOf (rt : Runtime ε W) (batch : Table) (args : Option WriteArgs) (s : St W) : Log ε W :=
  (final (writeWithRetry rt.logged batch args) s.record).world.2

theorem Script.runtime_backoff : Script.runtime.Backoff :=
  ⟨by decide, fun _ _ _ => le_rfl⟩

end Millpond.Main
