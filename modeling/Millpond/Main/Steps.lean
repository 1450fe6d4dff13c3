import Millpond.Main.Loop

set_option autoImplicit false

/-! # What each part of the loop can do

One lemma per function: how it may end, what it adds to the trace and which of `main()`'s variables
it changes. The run-level results cite these and never unfold the program again. -/

namespace Millpond.Main

open Prog

variable {ε W : Type} {rt : Runtime ε W} {cfg : LoopConfig}

/-- The variables of `main()` that only `ingest` and the reset after a flush change. -/
structure SameBuffer (s s' : St W) : Prop where
  pending : s'.pending = s.pending
  pendingRecords : s'.pendingRecords = s.pendingRecords
  offsets : s'.offsets = s.offsets

theorem SameBuffer.refl (s : St W) : SameBuffer s s := ⟨rfl, rfl, rfl⟩

theorem SameBuffer.trans {s₁ s₂ s₃ : St W} (h : SameBuffer s₁ s₂) (h' : SameBuffer s₂ s₃) :
    SameBuffer s₁ s₃ :=
  ⟨h'.pending.trans h.pending, h'.pendingRecords.trans h.pendingRecords,
    h'.offsets.trans h.offsets⟩

/-- An exception is the kill, or was raised by one of these calls. -/
def Exn.from (e : Exn ε) (calls : List Call) : Prop :=
  ∀ f, e = .raised f → f.origin ∈ calls

theorem Exn.from_killed (calls : List Call) : (Exn.killed : Exn ε).from calls := by
  intro f hf
  cases hf

theorem Exn.from_raised {f : Failure ε} {calls : List Call} :
    (Exn.raised f).from calls ↔ f.origin ∈ calls := by
  constructor
  · exact fun h => h f rfl
  · intro h f' hf'
    cases hf'
    exact h

theorem Exn.from_mono {e : Exn ε} {calls calls' : List Call} (h : e.from calls)
    (hsub : ∀ c ∈ calls, c ∈ calls') : e.from calls' :=
  fun f hf => hsub _ (h f hf)

/-- A call out of the process changes the world only. -/
theorem wp_external_world {α : Type} {origin : Call} {f : W → Outcome ε α × W}
    {Q : α → St W → Prop} {E : Exn ε → St W → Prop} {s : St W}
    (hok : ∀ a w, Q a { s with world := w })
    (hfail : ∀ e w, e.from [origin] → E e { s with world := w }) :
    wp (external origin f) Q E s :=
  wp_external (fun a w _ => hok a w)
    (fun _ w _ => hfail _ w (Exn.from_raised.2 List.mem_cons_self))
    (fun w _ => hfail _ w (Exn.from_killed _))

/-! ## Converting and filtering -/

/-- The calls between reading a batch's offsets and appending its rows. -/
def stages : List Call := [.convert, .coerce, .filter, .dropFilter]

/-- All of these events are counted skips. -/
def OnlySkips (events : List Event) : Prop :=
  ∀ e ∈ events, ∃ msgs reason, e = .skipped msgs reason

/-- One of these events counts `m` as skipped. -/
def SkippedIn (events : List Event) (m : Msg) : Prop :=
  ∃ msgs reason, Event.skipped msgs reason ∈ events ∧ m ∈ msgs

/-- `ingest` went through: every value is a row of the buffer now, or was counted. -/
structure Ingested (values : List Msg) (s s' : St W) : Prop where
  offsets : s'.offsets = s.offsets
  rows : ∃ events table tables, s'.trace = s.trace ++ events ∧ OnlySkips events ∧
    s'.pending = s.pending ++ tables ∧ tables.flatten = table ∧
    s'.pendingRecords = s.pendingRecords + table.length ∧ table.Sublist values ∧
    ∀ m ∈ values, m ∈ table ∨ SkippedIn events m

/-- `ingest` raised in one of the stages: the values are nowhere. -/
structure IngestFailed (s : St W) (e : Exn ε) (s' : St W) : Prop where
  same : SameBuffer s s'
  trace : ∃ events, s'.trace = s.trace ++ events ∧ OnlySkips events
  origin : e.from stages

theorem convertBatch_spec (values : List Msg) (s : St W) :
    wp (convertBatch rt values)
      (fun result s' => result = (if (values.filter rt.decodes).isEmpty then none
          else some (values.filter (becomesRow rt values))) ∧ ∃ w, s' = { s with world := w })
      (fun e s' => e.from stages ∧ ∃ w, s' = { s with world := w }) s := by
  unfold convertBatch
  simp only [wp_bind, wp_pure]
  exact wp_external_world (fun _ w => ⟨trivial, w, rfl⟩)
    (fun e w he => ⟨Exn.from_mono he (by simp [stages]), w, rfl⟩)

theorem coerceColumns_spec (table : Table) (s : St W) :
    wp (coerceColumns rt table)
      (fun result s' => result = table ∧ ∃ w, s' = { s with world := w })
      (fun e s' => e.from stages ∧ ∃ w, s' = { s with world := w }) s := by
  unfold coerceColumns
  simp only [wp_bind, wp_pure]
  exact wp_external_world (fun _ w => ⟨trivial, w, rfl⟩)
    (fun e w he => ⟨Exn.from_mono he (by simp [stages]), w, rfl⟩)

/-- A filter keeps a sublist and counts every row it drops. -/
def Filtered (table : Table) (s : St W) (kept : Table) (s' : St W) : Prop :=
  ∃ w events, s' = { s with world := w, trace := s.trace ++ events } ∧ OnlySkips events ∧
    kept.Sublist table ∧ ∀ m ∈ table, m ∈ kept ∨ SkippedIn events m

theorem applyFilter_spec (table : Table) (s : St W) :
    wp (applyFilter rt table) (Filtered table s)
      (fun e s' => e.from stages ∧ ∃ w, s' = { s with world := w }) s := by
  unfold applyFilter noteKeepFilter
  simp only [wp_bind, wp_pure, wp_get, wp_note]
  refine wp_external_world (fun _ w => ?_)
    (fun e w he => ⟨Exn.from_mono he (by simp [stages]), w, rfl⟩)
  refine ⟨w, _, by simp only [List.append_assoc]; rfl, ?_, List.filter_sublist, fun m hm => ?_⟩
  · intro e he
    simp only [List.cons_append, List.nil_append, List.mem_cons, List.not_mem_nil, or_false] at he
    rcases he with rfl | rfl | rfl <;> exact ⟨_, _, rfl⟩
  · cases hv : rt.keepVerdict w table m with
    | none => exact Or.inl (List.mem_filter.2 ⟨hm, by simp [hv]⟩)
    | some reason =>
        refine Or.inr ⟨table.filter (rt.keepVerdict w table · = some reason), .keepFilter reason,
          ?_, List.mem_filter.2 ⟨hm, by simp [hv]⟩⟩
        cases reason <;> simp

theorem applyDropFilter_spec (table : Table) (s : St W) :
    wp (applyDropFilter rt table) (Filtered table s)
      (fun e s' => e.from stages ∧ ∃ w, s' = { s with world := w }) s := by
  unfold applyDropFilter
  simp only [wp_bind, wp_pure, wp_note]
  refine wp_external_world (fun _ w => ?_)
    (fun e w he => ⟨Exn.from_mono he (by simp [stages]), w, rfl⟩)
  refine ⟨w, _, rfl, ?_, List.filter_sublist, fun m hm => ?_⟩
  · intro e he
    exact ⟨_, _, List.mem_singleton.1 he⟩
  · cases hv : rt.dropVerdict table m with
    | false => exact Or.inl (List.mem_filter.2 ⟨hm, by simp [hv]⟩)
    | true => exact Or.inr ⟨_, _, List.mem_singleton.2 rfl, List.mem_filter.2 ⟨hm, hv⟩⟩

theorem OnlySkips.append {events events' : List Event} (h : OnlySkips events)
    (h' : OnlySkips events') : OnlySkips (events ++ events') :=
  fun e he => (List.mem_append.1 he).elim (h e) (h' e)

theorem SkippedIn.append_left {events : List Event} {m : Msg} (h : SkippedIn events m)
    (events' : List Event) : SkippedIn (events ++ events') m := by
  obtain ⟨msgs, reason, he, hm⟩ := h
  exact ⟨msgs, reason, List.mem_append.2 (Or.inl he), hm⟩

theorem SkippedIn.append_right {events : List Event} {m : Msg} (h : SkippedIn events m)
    (events' : List Event) : SkippedIn (events' ++ events) m := by
  obtain ⟨msgs, reason, he, hm⟩ := h
  exact ⟨msgs, reason, List.mem_append.2 (Or.inr he), hm⟩

/-- Two filters in a row. -/
theorem Filtered.trans {table kept kept' : Table} {s s' s'' : St W} (h : Filtered table s kept s')
    (h' : Filtered kept s' kept' s'') : Filtered table s kept' s'' := by
  obtain ⟨w, events, rfl, hskip, hsub, hrows⟩ := h
  obtain ⟨w', events', rfl, hskip', hsub', hrows'⟩ := h'
  refine ⟨w', events ++ events', by simp, hskip.append hskip', hsub'.trans hsub, fun m hm => ?_⟩
  rcases hrows m hm with hkept | hskipped
  · exact (hrows' m hkept).imp id (·.append_right events)
  · exact Or.inr (hskipped.append_left events')

theorem appendPending_spec (table : Table) (s : St W) {E : Exn ε → St W → Prop} :
    wp (appendPending rt table)
      (fun _ s' => s'.trace = s.trace ∧ s'.offsets = s.offsets ∧
        s'.pendingRecords = s.pendingRecords + table.length ∧
        ∃ tables, s'.pending = s.pending ++ tables ∧ tables.flatten = table) E s := by
  unfold appendPending
  rw [wp_ite]
  refine ⟨fun _ => ⟨rfl, rfl, rfl, [table], rfl, by simp⟩, fun hnil => ?_⟩
  obtain rfl : table = [] := List.length_eq_zero_iff.1 (Nat.eq_zero_of_not_pos hnil)
  exact ⟨rfl, rfl, rfl, [], by simp, rfl⟩

/-- The end of `ingest`, once the filters have left `table`. -/
theorem ingest_append {values table : Table} {s s' : St W} {E : Exn ε → St W → Prop}
    (h : Filtered (values.filter (becomesRow rt values)) s table s') :
    wp (do
        appendPending rt table
        noteJsonParse rt values (values.filter (becomesRow rt values)) : M ε W PUnit)
      (fun _ s'' => Ingested values s s'') E s' := by
  obtain ⟨w, events, rfl, hskip, hsub, hrows⟩ := h
  rw [wp_bind]
  refine wp_mono (appendPending_spec table _) ?_ (fun _ _ h => h)
  rintro _ s₁ ⟨htr, hoff, hrec, tables, hpend, htab⟩
  unfold noteJsonParse
  rw [wp_ite]
  refine ⟨fun _ => ?_, fun hlen => ?_⟩
  · refine ⟨hoff, events ++ [.skipped (values.filter (!becomesRow rt values ·)) .jsonParse], table, tables,
      by simp [htr], hskip.append fun e he => ⟨_, _, List.mem_singleton.1 he⟩, hpend, htab, hrec,
      hsub.trans List.filter_sublist, fun m hm => ?_⟩
    cases hd : becomesRow rt values m with
    | true => exact (hrows m (List.mem_filter.2 ⟨hm, hd⟩)).imp id (·.append_left _)
    | false =>
        exact Or.inr ⟨values.filter (!becomesRow rt values ·), .jsonParse, by simp,
          List.mem_filter.2 ⟨hm, by simp [hd]⟩⟩
  · refine ⟨hoff, events, table, tables, htr, hskip, hpend, htab, hrec,
      hsub.trans List.filter_sublist, fun m hm => hrows m ?_⟩
    have hall : (values.filter (becomesRow rt values)).length = values.length :=
      Nat.le_antisymm (List.length_filter_le _ _) (Nat.not_lt.1 hlen)
    exact List.mem_filter.2 ⟨hm, List.length_filter_eq_length_iff.1 hall m hm⟩

theorem ingest_spec (values : List Msg) (s : St W) :
    wp (ingest rt values) (fun _ s' => Ingested values s s') (IngestFailed s) s := by
  have hfailed : ∀ {e : Exn ε} {w : W} {events : List Event}, OnlySkips events → e.from stages →
      IngestFailed s e { s with world := w, trace := s.trace ++ events } :=
    fun hskip he => ⟨⟨rfl, rfl, rfl⟩, ⟨_, rfl, hskip⟩, he⟩
  have hquiet : ∀ {e : Exn ε} {w : W}, e.from stages → IngestFailed s e { s with world := w } :=
    fun he => ⟨⟨rfl, rfl, rfl⟩, ⟨[], by simp, fun _ h => by simp at h⟩, he⟩
  unfold ingest
  rw [wp_bind]
  refine wp_mono (convertBatch_spec values s) ?_ ?_
  · rintro result _ ⟨rfl, w, rfl⟩
    by_cases hnone : (values.filter rt.decodes).isEmpty
    · simp only [hnone, if_true, wp_note]
      refine ⟨rfl, [.skipped values .jsonParse], [], [], rfl,
        fun e he => ⟨_, _, List.mem_singleton.1 he⟩, by simp, rfl, rfl, List.nil_sublist _, ?_⟩
      exact fun m hm => Or.inr ⟨values, .jsonParse, by simp, hm⟩
    · simp only [hnone, Bool.false_eq_true, if_false]
      rw [wp_bind]
      refine wp_mono (coerceColumns_spec _ _) ?_ ?_
      · rintro coerced _ ⟨rfl, w', rfl⟩
        rw [wp_bind]
        refine wp_mono (applyFilter_spec _ _) ?_ ?_
        · intro kept s₂ hkept
          rw [wp_bind]
          have hkept' : Filtered (values.filter (becomesRow rt values)) s kept s₂ := by
            obtain ⟨w₂, events, rfl, h⟩ := hkept
            exact ⟨w₂, events, rfl, h⟩
          refine wp_mono (applyDropFilter_spec kept s₂) ?_ ?_
          · exact fun table s₃ htable => ingest_append (hkept'.trans htable)
          · rintro e _ ⟨he, w₃, rfl⟩
            obtain ⟨w₂, events, rfl, hskip, -⟩ := hkept'
            exact hfailed hskip he
        · rintro e _ ⟨he, w₂, rfl⟩
          exact hquiet he
      · rintro e _ ⟨he, w', rfl⟩
        exact hquiet he
  · rintro e _ ⟨he, w, rfl⟩
    exact hquiet he

/-! ## Writing and committing -/

/-- The handler of a failed write passes the same failure on, or changes the world only. -/
theorem afterWriteFailure_spec (maxAttempts : ℕ) (base started : ℚ) (attempt : ℕ) (e : Exn ε)
    (s : St W) :
    wp (afterWriteFailure rt maxAttempts base started attempt e)
      (fun _ s' => attempt + 1 ≠ maxAttempts ∧ ∃ w, s' = { s with world := w })
      (fun e' s' => (∀ calls, e.from calls → e'.from calls) ∧ ∃ w, s' = { s with world := w }) s := by
  cases e with
  | killed => exact ⟨fun _ h => h, s.world, rfl⟩
  | raised failure =>
      unfold afterWriteFailure retryDelay
      simp only [wp_bind, wp_get, wp_ite, wp_throw, wp_onWorld, wp_pure]
      have hpass : ∀ (f : Failure ε) (w : W), f.origin = failure.origin →
          (∀ calls, (Exn.raised failure).from calls → (Exn.raised f).from calls) ∧
            ∃ w', { s with world := w } = { s with world := w' } :=
        fun f w hf => ⟨fun calls h => Exn.from_raised.2 (hf ▸ Exn.from_raised.1 h), w, rfl⟩
      refine ⟨fun _ => hpass _ _ rfl, fun _ => ⟨fun _ => hpass _ _ rfl, fun hne => ?_⟩⟩
      exact ⟨fun _ => hpass _ _ rfl, fun _ => ⟨hne, _, rfl⟩⟩

/-- `_write_with_retry` returns after exactly one write returned; failed attempts leave no event. -/
theorem writeWithRetry_spec (batch : Table) (args : Option WriteArgs) (s : St W) :
    wp (writeWithRetry rt batch args)
      (fun count s' => ∃ w,
        s' = { s with world := w, trace := s.trace ++ [.wrote batch count] })
      (fun e s' => e.from [.write] ∧ ∃ w, s' = { s with world := w }) s := by
  have hpos : 0 < (retryBudget rt).1 := by
    unfold retryBudget
    cases hb : rt.writeRetryBudget with
    | none => simp [writeMaxRetries]
    | some budget => exact rt.writeRetryBudget_pos budget (by simp [hb])
  unfold writeWithRetry
  simp only [wp_bind, wp_get]
  -- an attempt that starts finds only the world changed, and is not past the last one
  refine wp_retry (I := fun attempt s' => attempt < (retryBudget rt).1 ∧
    ∃ w, s' = { s with world := w }) ?_ (fun s' h => absurd h.1 (Nat.lt_irrefl _)) _ 0 s
    (Nat.zero_add _) ⟨hpos, s.world, rfl⟩
  rintro attempt _ ⟨hlt, w, rfl⟩
  simp only [wp_bind, wp_note, wp_pure]
  refine wp_external_world (fun count w' => ⟨w', rfl⟩) (fun e w' he => ?_)
  refine wp_mono (afterWriteFailure_spec _ _ _ _ _ _) ?_ ?_
  · rintro _ _ ⟨hne, w'', rfl⟩
    exact ⟨by omega, w'', rfl⟩
  · rintro e' _ ⟨hfrom, w'', rfl⟩
    exact ⟨hfrom _ he, w'', rfl⟩

/-- The offset commit: one event for each call made. -/
theorem commitOffsets_spec (offsets : List (Key × ℕ)) (s : St W) :
    wp (commitOffsets rt offsets)
      (fun _ s' => ∃ w n,
        s' = { s with world := w, trace := s.trace ++ List.replicate n (.commit offsets) })
      (fun e s' => e.from [.commit] ∧ ∃ w n,
        s' = { s with world := w, trace := s.trace ++ List.replicate n (.commit offsets) }) s := by
  unfold commitOffsets
  refine wp_retry (I := fun attempt s' => attempt < commitMaxRetries ∧ ∃ w n,
    s' = { s with world := w, trace := s.trace ++ List.replicate n (.commit offsets) }) ?_
    (fun s' h => absurd h.1 (Nat.lt_irrefl _)) _ 0 s (Nat.zero_add _)
    ⟨by decide, s.world, 0, by simp⟩
  rintro attempt _ ⟨hlt, w, n, rfl⟩
  simp only [wp_bind, wp_note, wp_pure, List.append_assoc, ← List.replicate_succ']
  refine wp_external_world (fun _ w' => ⟨w', n + 1, rfl⟩) (fun e w' he => ?_)
  cases e with
  | killed => exact ⟨Exn.from_killed _, w', n + 1, rfl⟩
  | raised failure =>
      unfold afterCommitFailure
      simp only [wp_ite, wp_throw, wp_onWorld]
      exact ⟨fun _ => ⟨he, w', n + 1, rfl⟩, fun hne => ⟨by omega, _, n + 1, rfl⟩⟩

/-! ## Flushing -/

/-- The write of the whole buffer returned, and some offset commits were sent after it. -/
structure Wrote (s s' : St W) : Prop where
  same : SameBuffer s s'
  trace : ∃ batch count n, batch.Perm s.pending.flatten ∧
    s'.trace = s.trace ++ .wrote batch count :: List.replicate n (.commit (tpOffsets s.offsets))

/-- A flush that raised: before its write returned, or after. -/
inductive FlushFailed (s : St W) (e : Exn ε) (s' : St W) : Prop where
  | unwritten (same : SameBuffer s s') (trace : s'.trace = s.trace)
      (origin : e.from [.concat, .sort, .write])
  | written (wrote : Wrote s s') (origin : e.from [.commit, .flushMetrics, .lagSample])

/-- The flush went through and the buffer was cleared. -/
structure Flushed (s s' : St W) : Prop where
  pending : s'.pending = []
  pendingRecords : s'.pendingRecords = 0
  offsets : s'.offsets = []
  trace : ∃ batch count n, batch.Perm s.pending.flatten ∧
    s'.trace = s.trace ++ .wrote batch count :: List.replicate n (.commit (tpOffsets s.offsets))

theorem flush_spec {consolidated : Table} {trigger : Trigger} {s s₀ : St W}
    (hperm : consolidated.Perm s.pending.flatten) (hworld : ∃ w, s₀ = { s with world := w }) :
    wp (flush rt cfg consolidated trigger) (fun _ s' => Wrote s s')
      (fun e s' => FlushFailed s e s') s₀ := by
  obtain ⟨w₀, rfl⟩ := hworld
  have hbatch : (rt.sorted consolidated).Perm s.pending.flatten :=
    (rt.sorted_perm consolidated).trans hperm
  unfold flush
  simp only [wp_bind, wp_get]
  refine wp_external_world (fun _ w₁ => ?_) (fun e w₁ he => ?_)
  · refine wp_mono (writeWithRetry_spec _ _ _) ?_ ?_
    · rintro count _ ⟨w₂, rfl⟩
      refine wp_mono (commitOffsets_spec _ _) ?_ ?_
      · rintro _ _ ⟨w₃, n, rfl⟩
        have hwrote : ∀ w₄, Wrote s { s with
            world := w₄,
            trace := s.trace ++ [.wrote (rt.sorted consolidated) count] ++
              List.replicate n (.commit (tpOffsets s.offsets)) } :=
          fun _ => ⟨⟨rfl, rfl, rfl⟩, _, count, n, hbatch, by simp⟩
        exact wp_external_world (fun _ w₄ => hwrote w₄)
          (fun e w₄ he => .written (hwrote w₄) (Exn.from_mono he (by simp)))
      · rintro e _ ⟨he, w₃, n, rfl⟩
        exact .written ⟨⟨rfl, rfl, rfl⟩, _, count, n, hbatch, by simp⟩
          (Exn.from_mono he (by simp))
    · rintro e _ ⟨he, w₂, rfl⟩
      exact .unwritten ⟨rfl, rfl, rfl⟩ rfl (Exn.from_mono he (by simp))
  · exact .unwritten ⟨rfl, rfl, rfl⟩ rfl (Exn.from_mono he (by simp))

theorem concatPending_spec (s : St W) :
    wp (concatPending rt)
      (fun table s' => table = s.pending.flatten ∧ ∃ w, s' = { s with world := w })
      (fun e s' => e.from [.concat] ∧ ∃ w, s' = { s with world := w }) s := by
  unfold concatPending
  simp only [wp_bind, wp_get, wp_pure]
  exact wp_external_world (fun _ w => ⟨rfl, w, rfl⟩) (fun e w he => ⟨he, w, rfl⟩)

theorem flushPending_spec (trigger : Trigger) (s : St W) :
    wp (flushPending rt cfg trigger) (fun _ s' => Flushed s s')
      (fun e s' => FlushFailed s e s') s := by
  unfold flushPending
  rw [wp_bind]
  refine wp_mono (concatPending_spec s) ?_ ?_
  · rintro _ s₁ ⟨rfl, hworld⟩
    rw [wp_bind]
    refine wp_mono (flush_spec (List.Perm.refl _) hworld) ?_ (fun _ _ h => h)
    intro _ s₂ hwrote
    unfold sampleLag clearPending
    simp only [wp_bind, wp_get, wp_ite, wp_modify, wp_pure]
    have hflushed : ∀ w l l', Flushed s { s₂ with
        pending := [], pendingBytes := 0, pendingRecords := 0, offsets := [],
        lastFlush := l, lastLagSample := l', world := w } :=
      fun _ _ _ => ⟨rfl, rfl, rfl, hwrote.trace⟩
    refine ⟨fun _ => ?_, fun _ => hflushed _ _ _⟩
    refine wp_external_world (fun _ w => hflushed _ _ _) (fun e w he => ?_)
    exact .written ⟨⟨hwrote.same.pending, hwrote.same.pendingRecords, hwrote.same.offsets⟩,
      hwrote.trace⟩ (Exn.from_mono he (by simp))
  · rintro e _ ⟨he, w, rfl⟩
    exact .unwritten ⟨rfl, rfl, rfl⟩ rfl (Exn.from_mono he (by simp))

/-! ## One iteration -/

/-- A consume call returned and the poll was recorded. -/
structure Polled (s s' : St W) : Prop where
  same : SameBuffer s s'
  trace : ∃ t, s'.trace = s.trace ++ [.polled t]

/-- The messages of one poll are in: consumed, and the records among them rows or counted. -/
structure Received (msgs : List Msg) (s s' : St W) : Prop where
  offsets : s'.offsets = (takeMessages msgs s.offsets).2
  rows : ∃ events table tables,
    s'.trace = s.trace ++ .consumed (msgs.filter (!·.error)) :: events ∧ OnlySkips events ∧
    s'.pending = s.pending ++ tables ∧ tables.flatten = table ∧
    s'.pendingRecords = s.pendingRecords + table.length ∧
    table.Sublist (msgs.filter Msg.isRecord) ∧
    ∀ m ∈ msgs.filter Msg.isRecord, m ∈ table ∨ SkippedIn events m

/-- A stage raised: the offsets already cover the messages, the buffer does not hold them. -/
structure ReceiveFailed (msgs : List Msg) (s : St W) (e : Exn ε) (s' : St W) : Prop where
  pending : s'.pending = s.pending
  pendingRecords : s'.pendingRecords = s.pendingRecords
  trace : ∃ events, s'.trace = s.trace ++ .consumed (msgs.filter (!·.error)) :: events ∧
    OnlySkips events
  origin : e.from stages

theorem poll_spec (s : St W) :
    wp (poll rt cfg) (fun _ s' => Polled s s')
      (fun e s' => e.from [.consume] ∧ ∃ w, s' = { s with world := w }) s := by
  unfold poll
  simp only [wp_bind, wp_get, wp_modify, wp_note, wp_pure]
  exact wp_external_world (fun _ w => ⟨⟨rfl, rfl, rfl⟩, _, rfl⟩) (fun e w he => ⟨he, w, rfl⟩)

theorem receive_spec (msgs : List Msg) (s : St W) :
    wp (receive rt msgs) (fun _ s' => Received msgs s s')
      (fun e s' => ReceiveFailed msgs s e s') s := by
  unfold receive
  simp only [wp_bind, wp_note, wp_get, wp_modify, wp_ite, wp_pure, takeMessages_values]
  refine ⟨fun hnil => ?_, fun _ => ?_⟩
  · refine ⟨rfl, [], [], [], rfl, fun _ h => by simp at h, by simp, rfl, rfl,
      List.nil_sublist _, ?_⟩
    rw [List.isEmpty_iff.1 hnil]
    exact fun m hm => absurd hm List.not_mem_nil
  · refine wp_mono (ingest_spec _ _) ?_ ?_
    · rintro _ s' ⟨hoff, events, table, tables, htr, hskip, hpend, htab, hrec, hsub, hrows⟩
      exact ⟨hoff, events, table, tables, by simpa using htr, hskip, hpend, htab, hrec, hsub, hrows⟩
    · rintro e s' ⟨hsame, ⟨events, htr, hskip⟩, he⟩
      exact ⟨hsame.pending, hsame.pendingRecords, ⟨events, by simpa using htr, hskip⟩, he⟩

/-- The rule for one iteration: a poll, its messages, and perhaps a flush. -/
theorem wp_iteration {I J : St W → Prop} {E : Exn ε → St W → Prop} {s : St W}
    (hpoll : ∀ s', Polled s s' → J s')
    (hpollFailed : ∀ e w, e.from [.consume] → E e { s with world := w })
    (hreceive : ∀ msgs s₁ s₂, J s₁ → Received msgs s₁ s₂ → I s₂)
    (hreceiveFailed : ∀ msgs s₁ e s₂, J s₁ → ReceiveFailed msgs s₁ e s₂ → E e s₂)
    (hflush : ∀ s₁ s₂, I s₁ → Flushed s₁ s₂ → I s₂)
    (hflushFailed : ∀ s₁ e s₂, I s₁ → FlushFailed s₁ e s₂ → E e s₂) :
    wp (iteration rt cfg) (fun _ => I) E s := by
  unfold iteration
  rw [wp_bind]
  refine wp_mono (poll_spec s) ?_ ?_
  · intro msgs s₁ hpolled
    rw [wp_bind]
    refine wp_mono (receive_spec msgs s₁) ?_ (fun e s₂ h => hreceiveFailed msgs s₁ e s₂
      (hpoll s₁ hpolled) h)
    intro _ s₂ hreceived
    have hI : I s₂ := hreceive msgs s₁ s₂ (hpoll s₁ hpolled) hreceived
    simp only [wp_bind, wp_get]
    cases flushTrigger rt cfg s₂ with
    | none => exact hI
    | some trigger =>
        exact wp_mono (flushPending_spec trigger s₂) (fun _ s₃ h => hflush s₂ s₃ hI h)
          (fun e s₃ h => hflushFailed s₂ e s₃ hI h)
  · rintro e _ ⟨he, w, rfl⟩
    exact hpollFailed e w he

/-! ## Shutdown -/

/-- What the `finally` block can do: nothing, or one flush whose exception it swallows. -/
inductive ShutDown (s s' : St W) : Prop where
  | idle (same : SameBuffer s s') (trace : s'.trace = s.trace)
  | flushed (pending : 0 < s.pendingRecords) (wrote : Wrote s s')

theorem shutDown_spec (loopError : Option (Failure ε)) (s : St W) :
    wp (shutDown rt cfg loopError) (fun _ s' => ShutDown s s') (fun _ s' => ShutDown s s') s := by
  unfold shutDown
  simp only [wp_bind, wp_get]
  have hidle : ShutDown s s := .idle (SameBuffer.refl s) rfl
  cases hdec : finalFlushDecision s.pendingRecords loopError true with
  | none => exact hidle
  | skip => exact hidle
  | flush =>
      have hpos : 0 < s.pendingRecords := by
        by_contra hzero
        simp [finalFlushDecision, Nat.eq_zero_of_not_pos hzero] at hdec
      simp only [wp_tryCatch, wp_bind]
      refine wp_mono (concatPending_spec s) ?_ ?_
      · rintro _ s₁ ⟨rfl, hworld⟩
        refine wp_mono (flush_spec (List.Perm.refl _) hworld)
          (fun _ s₂ hwrote => .flushed hpos hwrote) ?_
        intro e s₂ hfail
        have hshut : ShutDown s s₂ := by
          cases hfail with
          | unwritten same trace _ => exact .idle same trace
          | written wrote _ => exact .flushed hpos wrote
        cases e <;> exact hshut
      · rintro e _ ⟨-, w, rfl⟩
        cases e <;> exact .idle ⟨rfl, rfl, rfl⟩ rfl

/-- **The rule for a run.** The loop ends by itself or by an exception, and the `finally` block follows;
    or the process is killed, or not done yet. -/
theorem runMain_rule {J P : St W → Prop} {E : Exn ε → St W → Prop} {w : W} {n : ℕ}
    (hloop : wp (loop rt cfg n) (fun _ => J) E (St.init rt w)) (hgoing : ∀ s, J s → P s)
    (hdone : ∀ s, J s → P (final (shutDown rt cfg none) s)) (hkilled : ∀ s, E .killed s → P s)
    (hraised : ∀ failure s, loopFailure rt cfg w n = some (failure, s) → E (.raised failure) s →
      P (final (shutDown rt cfg (some failure)) s)) : P (runMain rt cfg w n) := by
  unfold loopFailure at hraised
  unfold runMain
  cases hrun : loop rt cfg n (St.init rt w) with
  | ok _ s =>
      have hloop := (wp_of_ok hrun).1 hloop
      dsimp only
      split
      · exact hdone s hloop
      · exact hgoing s hloop
  | error e s =>
      rw [hrun] at hraised
      have hloop := (wp_of_error hrun).1 hloop
      cases e with
      | killed => exact hkilled s hloop
      | raised failure => exact hraised failure s rfl hloop

end Millpond.Main
