import Millpond.Main.Duplicates

set_option autoImplicit false

/-! # The books of the loop

Every record that is consumed is counted once: as skipped, as a row of a returned write, or as a row of
the buffer. The buffer's counters are what they count, and a full buffer is never polled on. -/

namespace Millpond.Main

open Prog

variable {ε W : Type} {rt : Runtime ε W} {cfg : LoopConfig}

/-! ## Counting -/

/-- The records consumed. -/
def records (trace : List Event) : List Msg := (consumed trace).filter Msg.isRecord

/-- The messages counted as skipped. -/
def skippedRows (trace : List Event) : List Msg :=
  trace.flatMap fun
    | .skipped msgs _ => msgs
    | _ => []

theorem skippedRows_append (trace events : List Event) :
    skippedRows (trace ++ events) = skippedRows trace ++ skippedRows events := by
  simp [skippedRows]

theorem records_append (trace events : List Event) :
    records (trace ++ events) = records trace ++ records events := by
  simp [records, consumed_append]

theorem skippedRows_commits (offsets : List (Key × ℕ)) (n : ℕ) :
    skippedRows (List.replicate n (.commit offsets)) = [] :=
  List.flatMap_eq_nil_iff.2 fun e he => by
    obtain rfl := List.eq_of_mem_replicate he
    rfl

theorem count_filter_eq (p : Msg → Bool) (l : List Msg) (m : Msg) :
    (l.filter p).count m = if p m then l.count m else 0 := by
  split
  · next h => exact List.count_filter h
  · next h => exact List.count_eq_zero.2 fun hm => h (List.mem_filter.1 hm).2

/-! ## One batch -/

/-- A filter keeps each row or counts it once. -/
def Sifts (table : Table) (s : St W) (kept : Table) (s' : St W) : Prop :=
  ∃ w events, s' = { s with world := w, trace := s.trace ++ events } ∧ OnlySkips events ∧
    ∀ m, table.count m = kept.count m + (skippedRows events).count m

theorem Sifts.trans {table kept kept' : Table} {s s' s'' : St W} (h : Sifts table s kept s')
    (h' : Sifts kept s' kept' s'') : Sifts table s kept' s'' := by
  obtain ⟨w, events, rfl, hskip, hcount⟩ := h
  obtain ⟨w', events', rfl, hskip', hcount'⟩ := h'
  refine ⟨w', events ++ events', by simp, hskip.append hskip', fun m => ?_⟩
  rw [skippedRows_append, List.count_append, hcount m, hcount' m]
  omega

theorem applyFilter_sifts (table : Table) (s : St W) :
    wp (applyFilter rt table) (Sifts table s) (fun _ _ => True) s := by
  unfold applyFilter noteKeepFilter
  simp only [wp_bind, wp_pure, wp_get, wp_note]
  refine wp_external_world (fun _ w => ?_) fun _ _ _ => trivial
  refine ⟨w, _, by simp only [List.append_assoc]; rfl, ?_, fun m => ?_⟩
  · intro e he
    simp only [List.cons_append, List.nil_append, List.mem_cons, List.not_mem_nil, or_false] at he
    rcases he with rfl | rfl | rfl <;> exact ⟨_, _, rfl⟩
  · simp only [List.cons_append, List.nil_append, skippedRows, List.flatMap_cons, List.flatMap_nil,
      List.append_nil, List.count_append, count_filter_eq, decide_eq_true_eq]
    -- the verdict is one of the four
    cases rt.keepVerdict w table m with
    | none => simp
    | some reason => cases reason <;> simp

theorem applyDropFilter_sifts (table : Table) (s : St W) :
    wp (applyDropFilter rt table) (Sifts table s) (fun _ _ => True) s := by
  unfold applyDropFilter
  simp only [wp_bind, wp_pure, wp_note]
  refine wp_external_world (fun _ w => ⟨w, _, rfl, ?_, fun m => ?_⟩) fun _ _ _ => trivial
  · exact fun e he => ⟨_, _, List.mem_singleton.1 he⟩
  · simp only [skippedRows, List.flatMap_cons, List.flatMap_nil, List.append_nil, count_filter_eq]
    cases rt.dropVerdict table m <;> simp

/-- What `ingest` made of the values: a table for the buffer, if any row is left, and counted skips. -/
structure Buffers (rt : Runtime ε W) (values : List Msg) (s s' : St W) : Prop where
  rows : ∃ events tables, s'.trace = s.trace ++ events ∧ OnlySkips events ∧
    s'.pending = s.pending ++ tables ∧ (∀ table ∈ tables, table ≠ []) ∧
    s'.pendingBytes = s.pendingBytes + (tables.map rt.nbytes).sum ∧
    s'.pendingRecords = s.pendingRecords + tables.flatten.length ∧
    ∀ m, values.count m = tables.flatten.count m + (skippedRows events).count m

/-- The rows of a table go to the buffer, if there are any. -/
theorem appendPending_buffers {values table : Table} {events : List Event} {s₀ s : St W}
    {E : Exn ε → St W → Prop} (htrace : s.trace = s₀.trace ++ events) (hskip : OnlySkips events)
    (hpending : s.pending = s₀.pending) (hbytes : s.pendingBytes = s₀.pendingBytes)
    (hrecords : s.pendingRecords = s₀.pendingRecords)
    (hcount : ∀ m, values.count m = table.count m + (skippedRows events).count m) :
    wp (appendPending rt table) (fun _ s' => Buffers rt values s₀ s') E s := by
  unfold appendPending
  rw [wp_ite]
  refine ⟨fun hpos => ?_, fun hnil => ?_⟩
  · refine ⟨events, [table], htrace, hskip, ?_, fun t ht => ?_, ?_, ?_, ?_⟩
    · rw [← hpending]
    · obtain rfl := List.mem_singleton.1 ht
      exact List.ne_nil_of_length_pos hpos
    · simp [hbytes]
    · simp [hrecords]
    · simpa using hcount
  · obtain rfl : table = [] := List.length_eq_zero_iff.1 (Nat.eq_zero_of_not_pos hnil)
    exact ⟨events, [], htrace, hskip, by simp [hpending], by simp, by simp [hbytes], by simp [hrecords],
      by simpa using hcount⟩

theorem count_becomesRow (rt : Runtime ε W) (values : List Msg) (m : Msg) : values.count m =
    (values.filter (becomesRow rt values)).count m
      + (values.filter (!becomesRow rt values ·)).count m := by
  rw [count_filter_eq, count_filter_eq]
  cases becomesRow rt values m <;> simp

/-- The values that became no row are counted, when there are any. -/
theorem noteJsonParse_buffers {values : List Msg} {s s' : St W} {E : Exn ε → St W → Prop}
    (h : Buffers rt (values.filter (becomesRow rt values)) s s') :
    wp (noteJsonParse rt values (values.filter (becomesRow rt values)))
      (fun _ s'' => Buffers rt values s s'') E s' := by
  obtain ⟨events, tables, htrace, hskip, hpending, hne, hbytes, hrecords, hcount⟩ := h
  unfold noteJsonParse
  rw [wp_ite]
  refine ⟨fun _ => ?_, fun hlen => ?_⟩
  · refine ⟨events ++ [.skipped (values.filter (!becomesRow rt values ·)) .jsonParse], tables, by simp [htrace],
      hskip.append fun e he => ⟨_, _, List.mem_singleton.1 he⟩, hpending, hne, hbytes, hrecords,
      fun m => ?_⟩
    rw [skippedRows_append, List.count_append, count_becomesRow rt values m, hcount m]
    simp [skippedRows, Nat.add_assoc]
  · have hall : (values.filter (becomesRow rt values)).length = values.length :=
      Nat.le_antisymm (List.length_filter_le _ _) (Nat.not_lt.1 hlen)
    rw [List.filter_eq_self.2 (List.length_filter_eq_length_iff.1 hall)] at hcount
    exact ⟨events, tables, htrace, hskip, hpending, hne, hbytes, hrecords, hcount⟩

theorem ingest_buffers (values : List Msg) (s : St W) :
    wp (ingest rt values) (fun _ s' => Buffers rt values s s') (fun _ _ => True) s := by
  unfold ingest
  rw [wp_bind]
  refine wp_mono (convertBatch_spec values s) ?_ fun _ _ _ => trivial
  rintro result _ ⟨rfl, w, rfl⟩
  by_cases hnone : (values.filter rt.decodes).isEmpty
  · simp only [hnone, if_true, wp_note]
    exact ⟨[.skipped values .jsonParse], [], rfl, fun e he => ⟨_, _, List.mem_singleton.1 he⟩, by simp,
      by simp, by simp, by simp, by simp [skippedRows]⟩
  · simp only [hnone, Bool.false_eq_true, if_false]
    rw [wp_bind]
    refine wp_mono (coerceColumns_spec _ _) ?_ fun _ _ _ => trivial
    rintro coerced _ ⟨rfl, w', rfl⟩
    rw [wp_bind]
    refine wp_mono (applyFilter_sifts _ _) (fun kept s₂ hkept => ?_) fun _ _ _ => trivial
    rw [wp_bind]
    refine wp_mono (applyDropFilter_sifts kept s₂) (fun table s₃ htable => ?_) fun _ _ _ => trivial
    obtain ⟨w₃, events, rfl, hskip, hcount⟩ := hkept.trans htable
    rw [wp_bind]
    have happend : wp (appendPending rt table)
        (fun _ => Buffers rt (values.filter (becomesRow rt values)) s) (fun _ _ => True)
        { s with world := w₃, trace := s.trace ++ events } :=
      appendPending_buffers rfl hskip rfl rfl rfl hcount
    exact wp_mono happend (fun _ _ h => noteJsonParse_buffers h) fun _ _ _ => trivial

/-- The messages of a poll are in. -/
theorem receive_buffers (msgs : List Msg) (s : St W) :
    wp (receive rt msgs) (fun _ s' => Buffers rt (msgs.filter Msg.isRecord)
      { s with trace := s.trace ++ [.consumed (msgs.filter (!·.error))] } s') (fun _ _ => True) s := by
  unfold receive
  simp only [wp_bind, wp_note, wp_get, wp_modify, wp_ite, wp_pure, takeMessages_values]
  refine ⟨fun hnil => ?_, fun _ => ?_⟩
  · rw [List.isEmpty_iff.1 hnil]
    exact ⟨[], [], by simp, fun _ h => absurd h List.not_mem_nil, by simp, by simp, by simp, by simp,
      by simp [skippedRows]⟩
  · refine wp_mono (ingest_buffers _ _) (fun _ s' h => ?_) fun _ _ _ => trivial
    exact ⟨h.rows⟩

/-! ## The loop -/

/-- The books: what was consumed is skipped, written or pending, and the counters count the buffer. -/
structure Booked (rt : Runtime ε W) (s : St W) : Prop where
  counts : ∀ m, (records s.trace).count m = (skippedRows s.trace).count m +
    (written s.trace).flatten.count m + s.pending.flatten.count m
  tables : ∀ table ∈ s.pending, table ≠ []
  bytes : s.pendingBytes = (s.pending.map rt.nbytes).sum
  rows : s.pendingRecords = s.pending.flatten.length

/-- The books between two iterations: a buffer with rows is below the flush size. -/
structure Balanced (rt : Runtime ε W) (cfg : LoopConfig) (s : St W) : Prop extends Booked rt s where
  room : s.pending = [] ∨ (s.pendingBytes : ℤ) < cfg.flushSize

theorem records_consumed (msgs : List Msg) :
    records [.consumed (msgs.filter (!·.error))] = msgs.filter Msg.isRecord := by
  simp only [records, consumed, List.flatMap_cons, List.flatMap_nil, List.append_nil, List.filter_filter]
  refine List.filter_congr fun m _ => ?_
  cases herror : m.error <;> simp [Msg.isRecord, herror]

theorem pending_eq_nil_iff {pending : List Table} (h : ∀ table ∈ pending, table ≠ []) :
    pending.flatten.length = 0 ↔ pending = [] := by
  rw [List.length_eq_zero_iff, List.flatten_eq_nil_iff]
  constructor
  · intro hall
    refine List.eq_nil_iff_forall_not_mem.2 fun table htable => ?_
    exact h table htable (hall table htable)
  · rintro rfl table htable
    exact absurd htable List.not_mem_nil

/-- A recorded poll changes no book. -/
theorem poll_balanced (s : St W) (h : Balanced rt cfg s) :
    wp (poll rt cfg) (fun _ => Balanced rt cfg) (fun _ _ => True) s := by
  unfold poll
  simp only [wp_bind, wp_get, wp_modify, wp_note, wp_pure]
  refine wp_external_world (fun _ w => ⟨⟨fun m => ?_, h.tables, h.bytes, h.rows⟩, h.room⟩)
    fun _ _ _ => trivial
  rw [records_append, skippedRows_append, written_append]
  simpa [records, consumed, skippedRows, written] using h.counts m

theorem Balanced.receive {s s' : St W} {msgs : List Msg} (h : Balanced rt cfg s)
    (hb : Buffers rt (msgs.filter Msg.isRecord)
      { s with trace := s.trace ++ [.consumed (msgs.filter (!·.error))] } s') : Booked rt s' := by
  obtain ⟨events, tables, htrace, hskip, hpending, hne, hbytes, hrecords, hcount⟩ := hb
  refine ⟨fun m => ?_, fun table ht => ?_, ?_, ?_⟩
  · have hskipped : skippedRows [.consumed (msgs.filter (!·.error))] = [] := rfl
    have hwritten : written [.consumed (msgs.filter (!·.error))] = [] := rfl
    rw [htrace, hpending, records_append, records_append, records_consumed, skippedRows_append,
      skippedRows_append, hskipped, written_append, written_append, hwritten, hskip.written]
    have hrecords : records events = [] := by simp [records, hskip.consumed]
    simp only [hrecords, List.append_nil, List.count_append, List.flatten_append, h.counts m, hcount m]
    omega
  · rw [hpending] at ht
    exact (List.mem_append.1 ht).elim (h.tables table) (hne table)
  · rw [hbytes, hpending, List.map_append, List.sum_append, ← h.bytes]
  · rw [hrecords, hpending, List.flatten_append, List.length_append, ← h.rows]

/-- Without a trigger the buffer is empty or below the flush size. -/
theorem Booked.untriggered {s : St W} (h : Booked rt s) (hnone : flushTrigger rt cfg s = none) :
    Balanced rt cfg s := by
  refine ⟨h, ?_⟩
  rw [← pending_eq_nil_iff h.tables, ← h.rows]
  unfold flushTrigger at hnone
  by_contra hfull
  rw [not_or, not_lt] at hfull
  simp [Nat.pos_of_ne_zero hfull.1, hfull.2] at hnone

theorem flushPending_empties (trigger : Trigger) (s : St W) :
    wp (flushPending rt cfg trigger) (fun _ s' => s'.pendingBytes = 0) (fun _ _ => True) s := by
  unfold flushPending clearPending
  simp only [wp_bind, wp_modify]
  refine wp_mono (wp_true _ _) (fun _ s₁ _ => ?_) fun _ _ _ => trivial
  refine wp_mono (wp_true _ _) (fun _ s₂ _ => ?_) fun _ _ _ => trivial
  exact wp_mono (wp_true _ _) (fun _ _ _ => trivial) fun _ _ _ => trivial

/-- The rows of a flushed buffer move from the pending column to the written one. -/
theorem Booked.counts_wrote {s : St W} {trace : List Event} {batch : Table} {count n : ℕ}
    {offsets : List (Key × ℕ)} (h : Booked rt s) (hbatch : batch.Perm s.pending.flatten)
    (htrace : trace = s.trace ++ .wrote batch count :: List.replicate n (.commit offsets)) (m : Msg) :
    (records trace).count m = (skippedRows trace).count m + (written trace).flatten.count m := by
  have hrecords : records (.wrote batch count :: List.replicate n (.commit offsets)) = [] := by
    show (consumed (List.replicate n (.commit offsets))).filter Msg.isRecord = []
    rw [consumed_commits]
    rfl
  have hskipped : skippedRows (.wrote batch count :: List.replicate n (.commit offsets)) = [] :=
    skippedRows_commits offsets n
  have hwritten : written (.wrote batch count :: List.replicate n (.commit offsets))
      = batch :: written (List.replicate n (.commit offsets)) := rfl
  rw [htrace, records_append, hrecords, skippedRows_append, hskipped, written_append, hwritten,
    written_commits]
  simp only [List.append_nil, List.flatten_append, List.flatten_cons, List.flatten_nil,
    List.count_append, h.counts m, hbatch.count_eq]
  omega

theorem Booked.flushed {s s' : St W} (h : Booked rt s) (hf : Flushed s s')
    (hbytes : s'.pendingBytes = 0) : Balanced rt cfg s' := by
  obtain ⟨hpending, hrecords, -, batch, count, n, hbatch, htrace⟩ := hf
  refine ⟨⟨fun m => ?_, ?_, ?_, ?_⟩, Or.inl hpending⟩
  · rw [hpending, List.flatten_nil, List.count_nil, Nat.add_zero]
    exact h.counts_wrote hbatch htrace m
  · simp [hpending]
  · simp [hpending, hbytes]
  · simp [hpending, hrecords]

theorem iteration_balanced (s : St W) (h : Balanced rt cfg s) :
    wp (iteration rt cfg) (fun _ => Balanced rt cfg) (fun _ _ => True) s := by
  unfold iteration
  rw [wp_bind]
  refine wp_mono (poll_balanced s h) (fun msgs s₁ h₁ => ?_) fun _ _ _ => trivial
  rw [wp_bind]
  refine wp_mono (receive_buffers msgs s₁) (fun _ s₂ hb => ?_) fun _ _ _ => trivial
  have h₂ : Booked rt s₂ := h₁.receive hb
  simp only [wp_bind, wp_get]
  cases htrigger : flushTrigger rt cfg s₂ with
  | none => exact h₂.untriggered htrigger
  | some trigger =>
      refine wp_mono (wp_and (flushPending_spec trigger s₂) (flushPending_empties trigger s₂)) ?_
        fun _ _ _ => trivial
      exact fun _ s₃ hf => h₂.flushed hf.1 hf.2

theorem loop_balanced (n : ℕ) (w : W) :
    wp (loop rt cfg n) (fun _ => Balanced rt cfg) (fun _ _ => True) (St.init rt w) :=
  wp_whileLoop (fun s hI _ => iteration_balanced s hI) n _
    ⟨⟨fun _ => rfl, fun _ h => absurd h List.not_mem_nil, rfl, rfl⟩, Or.inl rfl⟩

/-! ## Batch sizes -/

/-- The most messages a poll asks for. -/
def maxBatchSize (cfg : LoopConfig) : ℕ := (max cfg.consumeBatchSize minBatchSize).toNat

theorem minBatchSize_le_maxBatchSize (cfg : LoopConfig) : minBatchSize ≤ maxBatchSize cfg := by
  unfold maxBatchSize
  omega

theorem minBatchSize_le_computeBatchSize (cfg : LoopConfig) (bytes : ℕ) :
    minBatchSize ≤ computeBatchSize cfg bytes := by
  unfold computeBatchSize
  split
  · exact minBatchSize_le_maxBatchSize cfg
  · exact le_max_left _ _

theorem computeBatchSize_le (cfg : LoopConfig) (bytes : ℕ) :
    computeBatchSize cfg bytes ≤ maxBatchSize cfg := by
  unfold computeBatchSize
  split
  · exact le_rfl
  next hpos =>
    refine max_le (minBatchSize_le_maxBatchSize cfg) (Int.toNat_le_toNat ?_)
    have hflush : (0 : ℚ) < cfg.flushSize := by exact_mod_cast not_le.1 hpos
    have hfull : (0 : ℚ) ≤ bytes / cfg.flushSize := by positivity
    have hmax : (0 : ℚ) ≤ (max cfg.consumeBatchSize minBatchSize : ℤ) := by
      exact_mod_cast le_max_of_le_right (Int.natCast_nonneg minBatchSize)
    refine (Int.floor_le_floor ?_).trans_eq (Int.floor_intCast _)
    nlinarith

/-- A fuller buffer never asks for more. -/
theorem computeBatchSize_antitone (cfg : LoopConfig) {bytes bytes' : ℕ} (h : bytes ≤ bytes') :
    computeBatchSize cfg bytes' ≤ computeBatchSize cfg bytes := by
  unfold computeBatchSize
  split
  · exact le_rfl
  next hpos =>
    refine max_le_max le_rfl (Int.toNat_le_toNat (Int.floor_le_floor ?_))
    have hflush : (0 : ℚ) < cfg.flushSize := by exact_mod_cast not_le.1 hpos
    have hmax : (0 : ℚ) ≤ (max cfg.consumeBatchSize minBatchSize : ℤ) := by
      exact_mod_cast le_max_of_le_right (Int.natCast_nonneg minBatchSize)
    gcongr

/-! ## Runs -/

/-- **The books balance between any two iterations.** After every number of iterations that all
    returned, each record consumed so far is counted exactly once, as a skipped row, a written row or
    a pending row. The buffer's counters are what they count, a buffer with rows is below the flush
    size, and the next poll asks for a batch between the two bounds. -/
theorem loop_books_balance (rt : Runtime ε W) (cfg : LoopConfig) (w : W) (n : ℕ) (s : St W)
    (h : loop rt cfg n (St.init rt w) = .ok ⟨⟩ s) :
    Balanced rt cfg s ∧ minBatchSize ≤ computeBatchSize cfg s.pendingBytes ∧
      computeBatchSize cfg s.pendingBytes ≤ maxBatchSize cfg :=
  ⟨(wp_of_ok h).1 (loop_balanced n w), minBatchSize_le_computeBatchSize cfg _,
    computeBatchSize_le cfg _⟩

/-- Two polls below the flush size; the second one's message has no value. -/
def twoPolls : Script where
  upcoming := [[Script.record 0], [{ Script.record 1 with value := none }]]
  raising := []
  polled := 0

theorem twoPolls_balance :
    ∃ s, loop Script.runtime lossConfig 2 (St.init Script.runtime twoPolls) = .ok ⟨⟩ s ∧
      s.pendingRecords = 1 ∧ Balanced Script.runtime lossConfig s := by
  have hok : wp (loop Script.runtime lossConfig 2) (fun _ s => s.pendingRecords = 1)
      (fun _ _ => False) (St.init Script.runtime twoPolls) := by decide +kernel
  cases hrun : loop Script.runtime lossConfig 2 (St.init Script.runtime twoPolls) with
  | ok _ s => exact ⟨s, rfl, (wp_of_ok hrun).1 hok, (loop_books_balance _ _ _ _ _ hrun).1⟩
  | error e s => exact ((wp_of_error hrun).1 hok).elim

/-- How a run that ends by itself leaves its books. -/
inductive Closed (s s' : St W) : Prop where
  /-- Every record was skipped or written, once. -/
  | settled (counts : ∀ m, (records s'.trace).count m = (skippedRows s'.trace).count m +
      (written s'.trace).flatten.count m)
  /-- The final flush wrote nothing, and nothing was committed for the rows that were pending. -/
  | unwritten (pending : s.pending ≠ []) (trace : s'.trace = s.trace)

theorem shutDown_closed {s : St W} (h : Booked rt s) (loopError : Option (Failure ε)) :
    Closed s (final (shutDown rt cfg loopError) s) := by
  refine final_of_wp (P := Closed s)
    (wp_mono (shutDown_spec loopError s) (fun _ s' hs => ?_) (fun _ s' hs => ?_))
  all_goals
    cases hs with
    | idle _ trace =>
        by_cases hnil : s.pending = []
        · refine .settled fun m => ?_
          rw [trace, h.counts m, hnil, List.flatten_nil, List.count_nil, Nat.add_zero]
        · exact .unwritten hnil trace
    | flushed _ wrote =>
        obtain ⟨-, batch, count, n, hbatch, htrace⟩ := wrote
        exact .settled (h.counts_wrote hbatch htrace)

/-- **A signalled shutdown closes the books.** When the loop ends because the flag was set, every
    record consumed in the whole run was skipped or written exactly once, or the final flush wrote
    nothing and committed nothing, so that the pending rows are consumed again. -/
theorem shutdown_closes_books (rt : Runtime ε W) (cfg : LoopConfig) (w : W) (n : ℕ) (s : St W)
    (h : loop rt cfg n (St.init rt w) = .ok ⟨⟩ s) (hstop : rt.shutdown s.world = true) :
    Closed s (runMain rt cfg w n) := by
  unfold runMain
  rw [h]
  simp only [hstop, if_true]
  exact shutDown_closed ((wp_of_ok h).1 (loop_balanced n w)).toBooked none

theorem twoPolls_close :
    ∃ s, Closed s (runMain Script.runtime lossConfig twoPolls 2) ∧
      written (runMain Script.runtime lossConfig twoPolls 2).trace = [[Script.record 0]] := by
  have hok : wp (loop Script.runtime lossConfig 2)
      (fun _ s => Script.runtime.shutdown s.world = true) (fun _ _ => False)
      (St.init Script.runtime twoPolls) := by decide +kernel
  cases hrun : loop Script.runtime lossConfig 2 (St.init Script.runtime twoPolls) with
  | ok _ s =>
      have hstop := (wp_of_ok hrun).1 hok
      exact ⟨s, shutdown_closes_books _ _ _ _ _ hrun hstop, by decide +kernel⟩
  | error e s => exact ((wp_of_error hrun).1 hok).elim

end Millpond.Main
