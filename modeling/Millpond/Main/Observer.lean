import Millpond.Main.NoLoss

set_option autoImplicit false

/-! # What an observer sees of a run

Relations between the trace and the world that every call of the loop keeps hold after every run,
also of a process that dies on the way. The calls that matter are `write`, which the loop makes
with the offsets it is about to commit, and `commit`; all others stand aside. -/

namespace Millpond.Main

open Prog

variable {ε W : Type}

/-! ## Calls and events -/

/-- The calls that neither write nor commit, as changes of the world. -/
inductive Runtime.Aside (rt : Runtime ε W) : W → W → Prop where
  | sleep (delay : ℚ) (w : W) : Aside rt w (rt.sleep delay w)
  | uniform (upper : ℚ) (w : W) : Aside rt w (rt.uniform upper w).2
  | consume (count : ℕ) (timeout : ℚ) (w : W) : Aside rt w (rt.consume count timeout w).2
  | attempt (call : Call) (w : W) : Aside rt w (rt.attempt call w).2
  | resetCaches (w : W) : Aside rt w (rt.resetCaches w)
  | hint {hint : W → Option ℚ × W} (some_ : rt.retryAfterHint = some hint) (w : W) :
      Aside rt w (hint w).2

/-- No write and no commit. -/
def Event.Aside : Event → Prop
  | .wrote .. => False
  | .commit _ => False
  | _ => True

/-- How a call ends. -/
def Ends {α : Type} (r : Outcome ε α × W) (ok : α → W → Prop) (raised killed : W → Prop) : Prop :=
  match r with
  | (.ok a, w) => ok a w
  | (.raised _, w) => raised w
  | (.killed, w) => killed w

/-- `I` relates trace and world while the process lives, `K` when it may be dead. Of a flush `F` is
    known: what it writes and commits, with the trace of that moment. -/
structure Observer (rt : Runtime ε W) (cfg : LoopConfig) (F : List Event → Table → Offsets → Prop)
    (I K : List Event → W → Prop) : Prop where
  weaken : ∀ trace w, I trace w → K trace w
  aside : ∀ trace w w', rt.Aside w w' → I trace w → I trace w'
  event : ∀ trace w (e : Event), e.Aside → I trace w → I (trace ++ [e]) w
  write : ∀ trace w batch offsets trigger, F trace batch offsets → I trace w →
    Ends (rt.write batch (sinkWriteKwargs cfg offsets trigger) w)
      (fun count => I (trace ++ [.wrote batch count])) (I trace) (K trace)
  commit : ∀ trace w offsets, I trace w →
    Ends (rt.commit offsets w) (fun _ => I (trace ++ [.commit offsets]))
      (I (trace ++ [.commit offsets])) (K (trace ++ [.commit offsets]))

/-! ## States -/

/-- `I` holds of trace and world. -/
def Seen (I : List Event → W → Prop) (s : St W) : Prop := I s.trace s.world

/-- An exception leaves the state as it should be, the kill leaves what `K` says. -/
def SeenEnd (I K : List Event → W → Prop) : Exn ε → St W → Prop
  | .raised _, s => I s.trace s.world
  | .killed, s => K s.trace s.world

/-- A program that keeps `Seen`. -/
def Keeps (I K : List Event → W → Prop) {α : Type} (x : M ε W α) : Prop :=
  ∀ s, Seen I s → wp x (fun _ => Seen I) (SeenEnd I K) s

variable {rt : Runtime ε W} {cfg : LoopConfig} {F : List Event → Table → Offsets → Prop}
  {I K : List Event → W → Prop} {α β : Type}

theorem Keeps.pure (a : α) : Keeps I K (pure a : M ε W α) := fun _ h => h

theorem Keeps.get : Keeps I K (get : M ε W (St W)) := fun _ h => h

theorem Keeps.bind {x : M ε W α} {f : α → M ε W β} (hx : Keeps I K x)
    (hf : ∀ a, Keeps I K (f a)) : Keeps I K (x >>= f) := by
  intro s h
  rw [wp_bind]
  exact wp_mono (hx s h) (fun a s' h' => hf a s' h') (fun _ _ h' => h')

theorem Keeps.ite {c : Prop} [Decidable c] {x y : M ε W α} (hx : Keeps I K x)
    (hy : Keeps I K y) : Keeps I K (if c then x else y) := by
  split
  · exact hx
  · exact hy

namespace Observer

variable (h : Observer rt cfg F I K)

include h

theorem keeps_throw (e : Exn ε) : Keeps I K (throw e : M ε W α) := by
  intro s hs
  cases e with
  | raised failure => exact hs
  | killed => exact h.weaken _ _ hs

theorem keeps_skipped (msgs : List Msg) (reason : SkipReason) :
    Keeps I K (note (.skipped msgs reason) : M ε W PUnit) :=
  fun _ hs => h.event _ _ _ trivial hs

theorem keeps_onWorld {f : W → W} (hf : ∀ w, rt.Aside w (f w)) :
    Keeps I K (onWorld f : M ε W PUnit) := fun _ hs => h.aside _ _ _ (hf _) hs

theorem keeps_external {origin : Call} {f : W → Outcome ε α × W}
    (hf : ∀ w, rt.Aside w (f w).2) : Keeps I K (external origin f) := by
  intro s hs
  have hI : I s.trace (f s.world).2 := h.aside _ _ _ (hf _) hs
  refine wp_external (fun a w heq => ?_) (fun e w heq => ?_) (fun w heq => ?_)
  all_goals rw [heq] at hI
  · exact hI
  · exact hI
  · exact h.weaken _ _ hI

theorem keeps_attempt (call : Call) : Keeps I K (external call (rt.attempt call)) :=
  h.keeps_external fun w => .attempt call w

/-! ## Converting and filtering -/

theorem keeps_convertBatch (values : List Msg) : Keeps I K (convertBatch rt values) :=
  (h.keeps_attempt .convert).bind fun _ => .pure _

theorem keeps_coerceColumns (table : Table) : Keeps I K (coerceColumns rt table) :=
  (h.keeps_attempt .coerce).bind fun _ => .pure _

theorem keeps_applyFilter (table : Table) : Keeps I K (applyFilter rt table) := by
  refine (h.keeps_attempt .filter).bind fun _ => Keeps.get.bind fun s => ?_
  refine (h.keeps_skipped _ _).bind fun _ => (h.keeps_skipped _ _).bind fun _ => ?_
  exact (h.keeps_skipped _ _).bind fun _ => .pure _

theorem keeps_applyDropFilter (table : Table) : Keeps I K (applyDropFilter rt table) :=
  (h.keeps_attempt .dropFilter).bind fun _ => (h.keeps_skipped _ _).bind fun _ => .pure _

omit h in
theorem keeps_appendPending (table : Table) : Keeps I K (appendPending rt table) :=
  .ite (fun _ hs => hs) (.pure _)

theorem keeps_noteJsonParse (values converted : List Msg) :
    Keeps I K (noteJsonParse rt values converted) :=
  .ite (h.keeps_skipped _ _) (.pure _)

theorem keeps_ingest (values : List Msg) : Keeps I K (ingest rt values) := by
  refine (h.keeps_convertBatch values).bind fun converted => ?_
  cases converted with
  | none => exact h.keeps_skipped _ _
  | some converted =>
      refine (h.keeps_coerceColumns converted).bind fun coerced => ?_
      refine (h.keeps_applyFilter coerced).bind fun kept => ?_
      refine (h.keeps_applyDropFilter kept).bind fun table => ?_
      exact (keeps_appendPending table).bind fun _ => h.keeps_noteJsonParse values converted

/-! ## Writing and committing -/

theorem keeps_retryDelay (attempt : ℕ) (base : ℚ) : Keeps I K (retryDelay rt attempt base) := by
  intro s hs
  unfold retryDelay
  simp only [wp_bind, wp_get, wp_onWorld, wp_pure]
  refine h.aside _ _ _ (.uniform _ _) ?_
  cases hhint : rt.retryAfterHint with
  | none => exact hs
  | some hint => exact h.aside _ _ _ (.hint hhint _) hs

theorem keeps_afterWriteFailure (maxAttempts : ℕ) (base started : ℚ) (attempt : ℕ) (e : Exn ε) :
    Keeps I K (afterWriteFailure rt maxAttempts base started attempt e) := by
  cases e with
  | killed => exact h.keeps_throw _
  | raised failure =>
      refine Keeps.get.bind fun s => .ite (h.keeps_throw _) (.ite (h.keeps_throw _) ?_)
      refine (h.keeps_retryDelay attempt base).bind fun delay => Keeps.get.bind fun s' => ?_
      refine .ite (h.keeps_throw _) ((h.keeps_onWorld fun w => .resetCaches w).bind fun _ => ?_)
      exact h.keeps_onWorld fun w => .sleep delay w

/-- Every attempt is a write of this batch with these offsets, and leaves the trace as it was. -/
theorem writeWithRetry_seen {batch : Table} {offsets : Offsets} (trigger : Trigger) {s : St W}
    (hF : F s.trace batch offsets) (hs : Seen I s) :
    wp (writeWithRetry rt batch (sinkWriteKwargs cfg offsets trigger)) (fun _ => Seen I)
      (SeenEnd I K) s := by
  unfold writeWithRetry
  simp only [wp_bind, wp_get]
  -- an attempt that raises leaves no event: the next one is for the same window
  refine wp_retry (I := fun _ s' => s'.trace = s.trace ∧ Seen I s') ?_ ?_ _ 0 s rfl ⟨rfl, hs⟩
  case refine_2 => exact fun _ h' => h'.2
  rintro attempt s' ⟨htrace, hs'⟩
  simp only [wp_bind, wp_note, wp_pure]
  have hwrite := h.write _ _ batch offsets trigger (htrace ▸ hF) hs'
  refine wp_external (fun count w heq => ?_) (fun e w heq => ?_) (fun w heq => ?_)
  all_goals rw [heq] at hwrite
  · exact hwrite
  · have hseen : Seen I { s' with world := w } := hwrite
    refine wp_mono (wp_and (afterWriteFailure_spec _ _ _ _ _ _)
      (h.keeps_afterWriteFailure _ _ _ _ _ _ hseen)) ?_ (fun _ _ h' => h'.2)
    rintro _ s'' ⟨⟨-, w'', rfl⟩, hs''⟩
    exact ⟨htrace, hs''⟩
  · exact hwrite

theorem keeps_commitOffsets (offsets : List (Key × ℕ)) :
    Keeps I K (commitOffsets rt offsets) := by
  intro s hs
  unfold commitOffsets
  refine wp_retry (I := fun _ => Seen I) ?_ ?_ _ 0 s rfl hs
  case refine_2 => exact fun _ h' => h'
  intro attempt s' hs'
  simp only [wp_bind, wp_note, wp_pure]
  have hcommit := h.commit _ _ offsets hs'
  refine wp_external (fun _ w heq => ?_) (fun e w heq => ?_) (fun w heq => ?_)
  all_goals rw [show rt.commit offsets s'.world = _ from heq] at hcommit
  · exact hcommit
  · have hafter : Keeps I K (afterCommitFailure rt attempt (.raised ⟨.commit, e, false⟩)) :=
      .ite (h.keeps_throw _) (h.keeps_onWorld fun w => .sleep _ w)
    exact hafter _ hcommit
  · exact hcommit

/-! ## Flushing -/

theorem keeps_concatPending : Keeps I K (concatPending rt) :=
  (h.keeps_attempt .concat).bind fun _ => Keeps.get.bind fun _ => .pure _

theorem flush_seen {consolidated : Table} (trigger : Trigger) {s s₀ : St W}
    (hF : F s.trace (rt.sorted consolidated) s.offsets) (hworld : ∃ w, s₀ = { s with world := w })
    (hs : Seen I s₀) :
    wp (flush rt cfg consolidated trigger) (fun _ => Seen I) (SeenEnd I K) s₀ := by
  obtain ⟨w₀, rfl⟩ := hworld
  unfold flush
  rw [wp_bind]
  -- the sort touches the world only, so the offsets are still those of the buffer
  have hsort : wp (external .sort (rt.attempt .sort))
      (fun _ s' => ∃ w, s' = { s with world := w }) (fun _ _ => True) { s with world := w₀ } :=
    wp_external_world (fun _ w => ⟨w, rfl⟩) fun _ _ _ => trivial
  refine wp_mono (wp_and hsort (h.keeps_attempt .sort _ hs)) ?_ (fun _ _ h' => h'.2)
  rintro _ _ ⟨⟨w₁, rfl⟩, h₁⟩
  simp only [wp_bind, wp_get]
  refine wp_mono (h.writeWithRetry_seen trigger hF h₁) (fun _ s₂ h₂ => ?_) (fun _ _ h' => h')
  refine wp_mono (h.keeps_commitOffsets _ s₂ h₂) (fun _ s₃ h₃ => ?_) (fun _ _ h' => h')
  exact h.keeps_attempt .flushMetrics s₃ h₃

theorem keeps_sampleLag : Keeps I K (sampleLag rt) := by
  refine Keeps.get.bind fun s => .ite ?_ (.pure _)
  exact (h.keeps_attempt .lagSample).bind fun _ _ hs => hs

/-- The rows of the buffer are concatenated and flushed. -/
theorem concatFlush_seen (trigger : Trigger) {s : St W}
    (hF : ∀ batch : Table, batch.Perm s.pending.flatten → F s.trace batch s.offsets) (hs : Seen I s) :
    wp (do
        let consolidated ← concatPending rt
        flush rt cfg consolidated trigger) (fun _ => Seen I) (SeenEnd I K) s := by
  rw [wp_bind]
  refine wp_mono (wp_and (concatPending_spec s) (h.keeps_concatPending s hs)) ?_ (fun _ _ h' => h'.2)
  rintro _ s₁ ⟨⟨rfl, hworld⟩, h₁⟩
  exact h.flush_seen trigger (hF _ (rt.sorted_perm _)) hworld h₁

theorem flushPending_seen (trigger : Trigger) {s : St W}
    (hF : ∀ batch : Table, batch.Perm s.pending.flatten → F s.trace batch s.offsets) (hs : Seen I s) :
    wp (flushPending rt cfg trigger) (fun _ => Seen I) (SeenEnd I K) s := by
  have hflush := h.concatFlush_seen trigger hF hs
  unfold flushPending clearPending
  rw [wp_bind] at hflush ⊢
  refine wp_mono hflush (fun table s₁ h₁ => ?_) (fun _ _ h' => h')
  rw [wp_bind]
  refine wp_mono h₁ (fun _ s₂ h₂ => ?_) (fun _ _ h' => h')
  rw [wp_bind]
  exact wp_mono (h.keeps_sampleLag s₂ h₂) (fun _ _ h₃ => h₃) (fun _ _ h' => h')

/-! ## The loop -/

theorem keeps_poll : Keeps I K (poll rt cfg) := by
  refine Keeps.get.bind fun s => ?_
  refine (h.keeps_external fun w => .consume _ _ w).bind fun msgs => Keeps.get.bind fun s' => ?_
  have hmark : Keeps I K (modify fun s : St W => { s with lastPoll := rt.now s'.world } :
      M ε W PUnit) := fun _ hs => hs
  have hpolled : Keeps I K (note (.polled (rt.now s'.world)) : M ε W PUnit) :=
    fun _ hs => h.event _ _ _ trivial hs
  exact hmark.bind fun _ => hpolled.bind fun _ => .pure _

theorem keeps_receive (msgs : List Msg) : Keeps I K (receive rt msgs) := by
  have hconsumed : Keeps I K (note (.consumed (msgs.filter (!·.error))) : M ε W PUnit) :=
    fun _ hs => h.event _ _ _ trivial hs
  refine hconsumed.bind fun _ s hs => ?_
  simp only [wp_bind, wp_get, wp_modify]
  rw [wp_ite]
  exact ⟨fun _ => hs, fun _ => h.keeps_ingest _ _ hs⟩

end Observer

/-! ## The buffer -/

/-- The state of the buffer that the parts of an iteration keep, and what it says of a flush. -/
structure BufferInvariant (F : List Event → Table → Offsets → Prop) (J : St W → Prop) : Prop where
  polled : ∀ s s', J s → Polled s s' → J s'
  received : ∀ msgs s s', J s → Received msgs s s' → J s'
  wrote : ∀ s s', J s → Wrote s s' → J s'
  flushed : ∀ s s', J s → Flushed s s' → J s'
  same : ∀ s s', J s → SameBuffer s s' → s'.trace = s.trace → J s'
  flush : ∀ s batch, J s → 0 < s.pendingRecords → batch.Perm s.pending.flatten →
    F s.trace batch s.offsets

/-- Nothing need be known of a flush. -/
theorem bufferInvariant_any : BufferInvariant (W := W) (fun _ _ _ => True) fun _ => True :=
  ⟨fun _ _ _ _ => trivial, fun _ _ _ _ _ => trivial, fun _ _ _ _ => trivial, fun _ _ _ _ => trivial,
    fun _ _ _ _ _ => trivial, fun _ _ _ _ _ => trivial⟩

theorem BufferInvariant.flushFailed {J : St W → Prop} (hJ : BufferInvariant F J) {s s' : St W} {e : Exn ε} (hs : J s)
    (hf : FlushFailed s e s') : J s' := by
  cases hf with
  | unwritten same trace _ => exact hJ.same s s' hs same trace
  | written wrote _ => exact hJ.wrote s s' hs wrote

theorem flushTrigger_records {s : St W} {trigger : Trigger}
    (htrigger : flushTrigger rt cfg s = some trigger) : 0 < s.pendingRecords := by
  unfold flushTrigger at htrigger
  simp only at htrigger
  split at htrigger
  · next hdue => exact hdue.1
  · exact absurd htrigger (by simp)

/-- An exception leaves the buffer as it should be, unless a stage raised it. -/
def BufferEnd (J : St W → Prop) (e : Exn ε) (s : St W) : Prop := J s ∨ e.from stages

namespace Observer

variable (h : Observer rt cfg F I K) {J : St W → Prop} (hJ : BufferInvariant F J)

include h hJ

theorem iteration_seen (s : St W) (hs : Seen I s ∧ J s) :
    wp (iteration rt cfg) (fun _ s' => Seen I s' ∧ J s')
      (fun e s' => SeenEnd I K e s' ∧ BufferEnd J e s') s := by
  unfold iteration
  rw [wp_bind]
  refine wp_mono (wp_and (h.keeps_poll s hs.1) (poll_spec s)) ?_ ?_
  · rintro msgs s₁ ⟨h₁, hpolled⟩
    have hJ₁ := hJ.polled s s₁ hs.2 hpolled
    rw [wp_bind]
    refine wp_mono (wp_and (h.keeps_receive msgs s₁ h₁) (receive_spec msgs s₁)) ?_ ?_
    · rintro _ s₂ ⟨h₂, hreceived⟩
      have hJ₂ := hJ.received msgs s₁ s₂ hJ₁ hreceived
      simp only [wp_bind, wp_get]
      cases htrigger : flushTrigger rt cfg s₂ with
      | none => exact ⟨h₂, hJ₂⟩
      | some trigger =>
          have hF := fun batch => hJ.flush s₂ batch hJ₂ (flushTrigger_records htrigger)
          refine wp_mono (wp_and (h.flushPending_seen trigger hF h₂) (flushPending_spec trigger s₂)) ?_ ?_
          · exact fun _ s₃ h₃ => ⟨h₃.1, hJ.flushed s₂ s₃ hJ₂ h₃.2⟩
          · exact fun e s₃ h₃ => ⟨h₃.1, Or.inl (hJ.flushFailed hJ₂ h₃.2)⟩
    · exact fun e s₂ h₂ => ⟨h₂.1, Or.inr h₂.2.origin⟩
  · rintro e _ ⟨hend, -, w, rfl⟩
    exact ⟨hend, Or.inl (hJ.same s _ hs.2 ⟨rfl, rfl, rfl⟩ rfl)⟩

theorem shutDown_seen (loopError : Option (Failure ε)) (s : St W) (hs : Seen I s)
    (hbuffer : J s ∨ s.pendingRecords = 0) :
    wp (shutDown rt cfg loopError) (fun _ => Seen I) (SeenEnd I K) s := by
  unfold shutDown
  simp only [wp_bind, wp_get]
  cases hdecision : finalFlushDecision s.pendingRecords loopError true with
  | none => exact hs
  | skip => exact hs
  | flush =>
      -- the shutdown flushes only what is pending
      have hpos : 0 < s.pendingRecords := by
        by_contra hzero
        simp [finalFlushDecision, Nat.eq_zero_of_not_pos hzero] at hdecision
      have hbuffer := hbuffer.resolve_right (Nat.pos_iff_ne_zero.1 hpos)
      have hF := fun batch => hJ.flush s batch hbuffer hpos
      rw [wp_tryCatch]
      refine wp_mono (h.concatFlush_seen .final hF hs) (fun _ _ h' => h') (fun e s' h' => ?_)
      cases e with
      | raised failure => exact h'
      | killed => exact h'

/-- **What every call keeps holds after every run**, however it ended, if no stage raises with rows
    pending or nothing need be known of a flush. -/
theorem runMain (w : W) (n : ℕ) (hw : I [] w) (hinit : J (St.init rt w))
    (hstages : (∀ s, J s) ∨ ¬ LosesBatch rt cfg w n) :
    K (Main.runMain rt cfg w n).trace (Main.runMain rt cfg w n).world := by
  have hloop : wp (loop rt cfg n) (fun _ s => Seen I s ∧ J s)
      (fun e s => SeenEnd I K e s ∧ BufferEnd J e s) (St.init rt w) :=
    wp_whileLoop (fun s hs _ => h.iteration_seen hJ s hs) n _ ⟨hw, hinit⟩
  have hfinal : ∀ (loopError : Option (Failure ε)) (s : St W), Seen I s →
      J s ∨ s.pendingRecords = 0 →
      K (final (shutDown rt cfg loopError) s).trace (final (shutDown rt cfg loopError) s).world := by
    intro loopError s hs hbuffer
    refine final_of_wp (P := fun s' => K s'.trace s'.world)
      (wp_mono (h.shutDown_seen hJ loopError s hs hbuffer) (fun _ s' h' => h.weaken s'.trace s'.world h') ?_)
    intro e s' h'
    cases e with
    | raised failure => exact h.weaken _ _ h'
    | killed => exact h'
  refine runMain_rule (P := fun s => K s.trace s.world) hloop (fun s hs => h.weaken _ _ hs.1)
    (fun s hs => hfinal none s hs.1 (Or.inl hs.2)) (fun s hend => hend.1) ?_
  rintro failure s hfailure ⟨hs, hbuffer | hstage⟩
  · exact hfinal (some failure) s hs (Or.inl hbuffer)
  -- a stage that raised left the offsets ahead of the buffer; then nothing may be pending
  · exact hfinal (some failure) s hs
      (hstages.imp (fun hall => hall s) fun hloses => pendingRecords_eq_zero hloses hfailure hstage)

omit h hJ in
/-- In every run, of a relation that needs to know nothing of a flush. -/
theorem runMain_any (h : Observer rt cfg (fun _ _ _ => True) I K) (w : W) (n : ℕ) (hw : I [] w) :
    K (Main.runMain rt cfg w n).trace (Main.runMain rt cfg w n).world :=
  h.runMain bufferInvariant_any w n hw trivial (Or.inl fun _ => trivial)

end Observer

end Millpond.Main
