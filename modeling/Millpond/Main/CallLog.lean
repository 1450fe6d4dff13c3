import Millpond.Main.Loop

set_option autoImplicit false

/-! # A log of the calls around a write

A runtime that also writes down what the retry loop asks of the sink, the clock and the random
generator: each call with the world it found and the world it left. What a program does on it is what
it does on the runtime itself. -/

namespace Millpond.Main

open Prog

variable {ε W : Type}

/-- A call of the retry loop. A write is logged with its outcome, and whether the sink calls the
    failure permanent. -/
inductive OutCall (ε : Type) where
  | write (batch : Table) (args : Option WriteArgs) (outcome : Outcome ε ℕ) (permanent : Bool)
  | hint (seconds : Option ℚ)
  | uniform (upper : ℚ)
  | resetCaches
  | sleep (delay : ℚ)

/-- A call, the world it found and the world it left. -/
structure Interaction (ε W : Type) where
  call : OutCall ε
  before : W
  after : W

abbrev Log (ε W : Type) := List (Interaction ε W)

/-- The sink calls this outcome a permanent failure. -/
def Runtime.permanent (rt : Runtime ε W) (w : W) : Outcome ε ℕ → Bool
  | .raised e => rt.isRetryable.any fun retryable => !retryable w e
  | _ => false

/-- The runtime with a log beside its world. -/
def Runtime.logged (rt : Runtime ε W) : Runtime ε (W × Log ε W) where
  now := fun s => rt.now s.1
  sleep := fun delay s => (rt.sleep delay s.1, s.2 ++ [⟨.sleep delay, s.1, rt.sleep delay s.1⟩])
  uniform := fun upper s =>
    ((rt.uniform upper s.1).1, (rt.uniform upper s.1).2,
      s.2 ++ [⟨.uniform upper, s.1, (rt.uniform upper s.1).2⟩])
  shutdown := fun s => rt.shutdown s.1
  consume := fun count timeout s =>
    ((rt.consume count timeout s.1).1, (rt.consume count timeout s.1).2, s.2)
  attempt := fun call s => ((rt.attempt call s.1).1, (rt.attempt call s.1).2, s.2)
  decodes := rt.decodes
  hasKeys := rt.hasKeys
  keepVerdict := fun s => rt.keepVerdict s.1
  dropVerdict := rt.dropVerdict
  nbytes := rt.nbytes
  sorted := rt.sorted
  sorted_perm := rt.sorted_perm
  write := fun batch args s =>
    let written := rt.write batch args s.1
    (written.1, written.2,
      s.2 ++ [⟨.write batch args written.1 (rt.permanent written.2 written.1), s.1, written.2⟩])
  resetCaches := fun s => (rt.resetCaches s.1, s.2 ++ [⟨.resetCaches, s.1, rt.resetCaches s.1⟩])
  isRetryable := rt.isRetryable.map fun retryable s e => retryable s.1 e
  canMark := rt.canMark
  writeRetryBudget := rt.writeRetryBudget
  writeRetryBudget_pos := rt.writeRetryBudget_pos
  retryAfterHint := rt.retryAfterHint.map fun hint s =>
    ((hint s.1).1, (hint s.1).2, s.2 ++ [⟨.hint (hint s.1).1, s.1, (hint s.1).2⟩])
  writeFlushDeadline := rt.writeFlushDeadline
  commit := fun offsets s => ((rt.commit offsets s.1).1, (rt.commit offsets s.1).2, s.2)

/-- The state with an empty log. -/
def St.record (s : St W) : St (W × Log ε W) where
  pending := s.pending
  pendingBytes := s.pendingBytes
  pendingRecords := s.pendingRecords
  offsets := s.offsets
  lastFlush := s.lastFlush
  lastLagSample := s.lastLagSample
  lastPoll := s.lastPoll
  world := (s.world, [])
  trace := s.trace

/-- The state without its log. -/
def St.erase (s : St (W × Log ε W)) : St W where
  pending := s.pending
  pendingBytes := s.pendingBytes
  pendingRecords := s.pendingRecords
  offsets := s.offsets
  lastFlush := s.lastFlush
  lastLagSample := s.lastLagSample
  lastPoll := s.lastPoll
  world := s.world.1
  trace := s.trace

/-! ## The log changes nothing -/

/-- `x` on the logged world does what `y` does. -/
def Erases {α : Type} (x : M ε (W × Log ε W) α) (y : M ε W α) : Prop :=
  ∀ s, wp x (fun a s' => y s.erase = .ok a s'.erase) (fun e s' => y s.erase = .error e s'.erase) s

variable {α β : Type}

theorem Erases.pure (a : α) : Erases (pure a : M ε (W × Log ε W) α) (pure a) := fun _ => rfl

theorem Erases.throw (e : Exn ε) : Erases (throw e : M ε (W × Log ε W) α) (throw e) := fun _ => rfl

theorem Erases.bind {x : M ε (W × Log ε W) α} {y : M ε W α} {f : α → M ε (W × Log ε W) β}
    {g : α → M ε W β} (hx : Erases x y) (hf : ∀ a, Erases (f a) (g a)) :
    Erases (x >>= f) (y >>= g) := by
  intro s
  rw [wp_bind]
  refine wp_mono (hx s) (fun a s' hy => ?_) (fun e s' hy => ?_)
  · have hrun : (y >>= g) s.erase = g a s'.erase := by
      show EStateM.bind y g s.erase = _
      rw [EStateM.bind, hy]
    simp only [hrun]
    exact hf a s'
  · show EStateM.bind y g s.erase = _
    rw [EStateM.bind, hy]

theorem Erases.get_bind {f : St (W × Log ε W) → M ε (W × Log ε W) β} {g : St W → M ε W β}
    (hf : ∀ s, Erases (f s) (g s.erase)) : Erases (get >>= f) (get >>= g) :=
  fun s => hf s s

theorem Erases.ite {c : Prop} [Decidable c] {x x' : M ε (W × Log ε W) α} {y y' : M ε W α}
    (h : Erases x y) (h' : Erases x' y') : Erases (if c then x else x') (if c then y else y') := by
  split
  · exact h
  · exact h'

theorem erases_tryCatch {x : M ε (W × Log ε W) α} {y : M ε W α}
    {f : Exn ε → M ε (W × Log ε W) α} {g : Exn ε → M ε W α} (hx : Erases x y)
    (hf : ∀ e, Erases (f e) (g e)) : Erases (tryCatch x f) (tryCatch y g) := by
  intro s
  rw [wp_tryCatch]
  refine wp_mono (hx s) (fun a s' hy => ?_) (fun e s' hy => ?_)
  · show EStateM.tryCatch y g s.erase = _
    rw [EStateM.tryCatch, hy]
  · have hrun : (tryCatch y g : M ε W α) s.erase = g e s'.erase := by
      show EStateM.tryCatch y g s.erase = _
      rw [EStateM.tryCatch, hy]
      rfl
    simp only [hrun]
    exact hf e s'

theorem Erases.retry {fallThrough : α} {x : ℕ → M ε (W × Log ε W) α} {y : ℕ → M ε W α}
    {f : ℕ → Exn ε → M ε (W × Log ε W) PUnit} {g : ℕ → Exn ε → M ε W PUnit}
    (hx : ∀ attempt, Erases (x attempt) (y attempt))
    (hf : ∀ attempt e, Erases (f attempt e) (g attempt e)) (left : ℕ) : ∀ attempt,
    Erases (Prog.retry fallThrough x f attempt left) (Prog.retry fallThrough y g attempt left) := by
  induction left with
  | zero => exact fun _ => .pure _
  | succ left ih =>
      intro attempt
      exact erases_tryCatch (hx attempt) fun e => (hf attempt e).bind fun _ => ih (attempt + 1)

theorem erases_note (e : Event) : Erases (note e : M ε (W × Log ε W) PUnit) (note e) := fun _ => rfl

/-- A change of the world that only adds to the log. -/
theorem erases_onWorld {f : W × Log ε W → W × Log ε W} {g : W → W} (h : ∀ s, (f s).1 = g s.1) :
    Erases (onWorld f : M ε (W × Log ε W) PUnit) (onWorld g) := by
  intro s
  rw [wp_onWorld]
  simp only [onWorld, St.erase, h]
  rfl

theorem erases_external {origin : Call} {f : W × Log ε W → Outcome ε α × (W × Log ε W)}
    {g : W → Outcome ε α × W} (h : ∀ s, ((f s).1, (f s).2.1) = g s.1) :
    Erases (external origin f) (external origin g) := by
  intro s
  have hworld := h s.world
  refine wp_external (fun a w hf => ?_) (fun e w hf => ?_) (fun w hf => ?_)
  all_goals
    rw [hf] at hworld
    simp only [external, St.erase, ← hworld]

variable {rt : Runtime ε W}

theorem erases_retryDelay (attempt : ℕ) (base : ℚ) :
    Erases (retryDelay rt.logged attempt base) (retryDelay rt attempt base) := by
  refine Erases.get_bind fun s => ?_
  cases hhint : rt.retryAfterHint with
  | none =>
      simp only [Runtime.logged, hhint, Option.map_none]
      exact (erases_onWorld fun _ => rfl).bind fun _ => .pure _
  | some hint =>
      simp only [Runtime.logged, hhint, Option.map_some]
      exact (erases_onWorld fun _ => rfl).bind fun _ => .pure _

theorem erases_afterWriteFailure (maxAttempts : ℕ) (base started : ℚ) (attempt : ℕ) (e : Exn ε) :
    Erases (afterWriteFailure rt.logged maxAttempts base started attempt e)
      (afterWriteFailure rt maxAttempts base started attempt e) := by
  cases e with
  | killed => exact .throw _
  | raised failure =>
      refine Erases.get_bind fun s => ?_
      have hrest : Erases
          (if attempt + 1 = maxAttempts then throw (.raised failure) else do
            let delay ← retryDelay rt.logged attempt base
            let now := rt.logged.now (← get).world
            if deadlineExceeded rt.logged started now delay then throw (.raised failure)
            else
              onWorld rt.logged.resetCaches
              onWorld (rt.logged.sleep delay))
          (if attempt + 1 = maxAttempts then throw (.raised failure) else do
            let delay ← retryDelay rt attempt base
            let now := rt.now (← get).world
            if deadlineExceeded rt started now delay then throw (.raised failure)
            else
              onWorld rt.resetCaches
              onWorld (rt.sleep delay)) := by
        refine Erases.ite (.throw _) ((erases_retryDelay attempt base).bind fun delay => ?_)
        refine Erases.get_bind fun s' => Erases.ite (.throw _) ?_
        exact (erases_onWorld fun _ => rfl).bind fun _ => erases_onWorld fun _ => rfl
      cases hretryable : rt.isRetryable with
      | none =>
          simp only [Runtime.logged, hretryable, Option.map_none] at hrest ⊢
          exact Erases.ite (.throw _) hrest
      | some retryable =>
          simp only [Runtime.logged, hretryable, Option.map_some] at hrest ⊢
          exact Erases.ite (.throw _) hrest

/-- **On the logged runtime `_write_with_retry` does what it does without the log.** -/
theorem erases_writeWithRetry (batch : Table) (args : Option WriteArgs) :
    Erases (writeWithRetry rt.logged batch args) (writeWithRetry rt batch args) := by
  refine Erases.get_bind fun s => Erases.retry (fun attempt => ?_) (fun attempt e => ?_) _ 0
  · refine (erases_external fun _ => rfl).bind fun count => ?_
    exact (erases_note _).bind fun _ => .pure _
  · exact erases_afterWriteFailure _ _ _ _ _

/-! ## The whole run -/

variable {cfg : LoopConfig}

theorem erases_attempt (call : Call) :
    Erases (external call (rt.logged.attempt call)) (external call (rt.attempt call)) :=
  erases_external fun _ => rfl

theorem erases_modify {f : St (W × Log ε W) → St (W × Log ε W)} {g : St W → St W}
    (h : ∀ s, (f s).erase = g s.erase) :
    Erases (modify f : M ε (W × Log ε W) PUnit) (modify g) := by
  intro s
  show EStateM.Result.ok _ (g s.erase) = _
  rw [← h]

theorem erases_applyFilter (table : Table) :
    Erases (applyFilter rt.logged table) (applyFilter rt table) := by
  refine (erases_attempt _).bind fun _ => Erases.get_bind fun s => ?_
  refine (erases_note _).bind fun _ => (erases_note _).bind fun _ => ?_
  exact (erases_note _).bind fun _ => .pure _

theorem erases_applyDropFilter (table : Table) :
    Erases (applyDropFilter rt.logged table) (applyDropFilter rt table) :=
  (erases_attempt _).bind fun _ => (erases_note _).bind fun _ => .pure _

theorem erases_ingest (values : List Msg) : Erases (ingest rt.logged values) (ingest rt values) := by
  have hconvert : Erases (convertBatch rt.logged values) (convertBatch rt values) :=
    (erases_attempt _).bind fun _ => .pure _
  refine hconvert.bind fun converted => ?_
  cases converted with
  | none => exact erases_note _
  | some converted =>
      have hcoerce : Erases (coerceColumns rt.logged converted) (coerceColumns rt converted) :=
        (erases_attempt _).bind fun _ => .pure _
      refine hcoerce.bind fun coerced => (erases_applyFilter coerced).bind fun kept => ?_
      refine (erases_applyDropFilter kept).bind fun table => ?_
      have happend : Erases (appendPending rt.logged table) (appendPending rt table) :=
        Erases.ite (erases_modify fun _ => rfl) (.pure _)
      exact happend.bind fun _ => Erases.ite (erases_note _) (.pure _)

theorem erases_commitOffsets (offsets : List (Key × ℕ)) :
    Erases (commitOffsets rt.logged offsets) (commitOffsets rt offsets) := by
  refine Erases.retry (fun attempt => ?_) (fun attempt e => ?_) _ 0
  · exact (erases_note _).bind fun _ => (erases_external fun _ => rfl).bind fun _ => .pure _
  · cases e with
    | killed => exact .throw _
    | raised failure => exact Erases.ite (.throw _) (erases_onWorld fun _ => rfl)

theorem erases_concatPending : Erases (concatPending rt.logged) (concatPending rt) :=
  (erases_attempt _).bind fun _ => Erases.get_bind fun _ => .pure _

theorem erases_flush (consolidated : Table) (trigger : Trigger) :
    Erases (flush rt.logged cfg consolidated trigger) (flush rt cfg consolidated trigger) := by
  refine (erases_attempt _).bind fun _ => Erases.get_bind fun s => ?_
  refine (erases_writeWithRetry _ _).bind fun _ => (erases_commitOffsets _).bind fun _ => ?_
  exact (erases_attempt _).bind fun _ => .pure _

theorem erases_sampleLag : Erases (sampleLag rt.logged) (sampleLag rt) := by
  refine Erases.get_bind fun s => Erases.ite ?_ (.pure _)
  exact (erases_attempt _).bind fun _ => erases_modify fun _ => rfl

theorem erases_flushPending (trigger : Trigger) :
    Erases (flushPending rt.logged cfg trigger) (flushPending rt cfg trigger) := by
  refine erases_concatPending.bind fun consolidated => (erases_flush consolidated trigger).bind fun _ => ?_
  exact erases_sampleLag.bind fun _ => erases_modify fun _ => rfl

theorem erases_iteration : Erases (iteration rt.logged cfg) (iteration rt cfg) := by
  have hpoll : Erases (poll rt.logged cfg) (poll rt cfg) := by
    refine Erases.get_bind fun s => (erases_external fun _ => rfl).bind fun msgs => ?_
    refine Erases.get_bind fun s' => (erases_modify fun _ => rfl).bind fun _ => ?_
    exact (erases_note _).bind fun _ => .pure _
  have hreceive : ∀ msgs, Erases (receive rt.logged msgs) (receive rt msgs) := by
    intro msgs
    refine (erases_note _).bind fun _ => Erases.get_bind fun s => ?_
    refine (erases_modify fun _ => rfl).bind fun _ => Erases.ite (.pure _) (erases_ingest _)
  refine hpoll.bind fun msgs => (hreceive msgs).bind fun _ => Erases.get_bind fun s => ?_
  have htrigger : flushTrigger rt.logged cfg s = flushTrigger rt cfg s.erase := rfl
  rw [htrigger]
  cases flushTrigger rt cfg s.erase with
  | none => exact .pure _
  | some trigger => exact erases_flushPending trigger

theorem erases_loop (n : ℕ) : Erases (loop rt.logged cfg n) (loop rt cfg n) := by
  induction n with
  | zero => exact .pure _
  | succ n ih =>
      refine Erases.get_bind fun s => ?_
      exact Erases.ite (erases_iteration.bind fun _ => ih) (.pure _)

theorem erases_shutDown (loopError : Option (Failure ε)) :
    Erases (shutDown rt.logged cfg loopError) (shutDown rt cfg loopError) := by
  refine Erases.get_bind fun s => ?_
  have hdecision : finalFlushDecision s.pendingRecords loopError true
      = finalFlushDecision s.erase.pendingRecords loopError true := rfl
  rw [hdecision]
  cases finalFlushDecision s.erase.pendingRecords loopError true with
  | none => exact .pure _
  | skip => exact .pure _
  | flush =>
      refine erases_tryCatch ?_ fun e => ?_
      · exact erases_concatPending.bind fun consolidated => erases_flush consolidated .final
      · cases e with
        | killed => exact .throw _
        | raised failure => exact .pure _

/-- The state that is left, with and without the log. -/
theorem Erases.final {x : M ε (W × Log ε W) α} {y : M ε W α} (h : Erases x y)
    (s : St (W × Log ε W)) : (Prog.final x s).erase = Prog.final y s.erase := by
  unfold Prog.final
  cases hx : x s with
  | ok a s' => rw [(wp_of_ok hx).1 (h s)]
  | error e s' => rw [(wp_of_error hx).1 (h s)]

/-- **A run of `main()` on the logged runtime is the run without the log.** -/
theorem runMain_logged (w : W) (n : ℕ) :
    (runMain rt.logged cfg (w, []) n).erase = runMain rt cfg w n := by
  have hloop : wp (loop rt.logged cfg n) (fun _ s => loop rt cfg n (St.init rt w) = .ok ⟨⟩ s.erase)
      (fun e s => loop rt cfg n (St.init rt w) = .error e s.erase) (St.init rt.logged (w, [])) :=
    erases_loop n (St.init rt.logged (w, []))
  unfold runMain
  cases hrun : loop rt.logged cfg n (St.init rt.logged (w, [])) with
  | ok _ s =>
      rw [(wp_of_ok hrun).1 hloop]
      have hshutdown : rt.logged.shutdown s.world = rt.shutdown s.erase.world := rfl
      simp only [hshutdown]
      split
      · exact (erases_shutDown none).final s
      · rfl
  | error e s =>
      rw [(wp_of_error hrun).1 hloop]
      cases e with
      | killed => rfl
      | raised failure => exact (erases_shutDown (some failure)).final s

end Millpond.Main
