import Millpond.Maintenance.InlinePages

set_option autoImplicit false

/-! # What a run of drop-orphan-inline-tables covers

The statements before the batch loop read the registry and the lock budget; the loop then pages from
the head of the registry. A run that comes to its own end leaves no orphan behind, and none is taken
on twice. -/

namespace Millpond.Maintenance

open Prog ReadCommitted

/-- `_InlineLockBudget.cap`. -/
def InlineServer.cap (server : InlineServer) : ℤ :=
  let capacity := server.maxLocksPerTransaction *
    (server.maxConnections + server.maxPreparedTransactions)
  max dropInlineMinBatchSize (min ((capacity / 20 : ℕ) : ℤ) dropInlineMaxBatchSize)

theorem InlineServer.batchSize_le_cap (server : InlineServer) (requested : ℤ) :
    server.batchSize requested ≤ server.cap := min_le_right _ _

theorem InlineServer.one_le_batchSize (server : InlineServer) {requested : ℤ} (h : 1 ≤ requested) :
    1 ≤ server.batchSize requested := by
  refine le_min h (le_max_of_le_left ?_)
  unfold dropInlineMinBatchSize
  omega

/-- What a whole run left, as a result. -/
def InlineTrace.ended (t : InlineTrace) : EStateM.Result InlineError InlineSession PUnit :=
  match t.ending with
  | .fatal e => .error e t.session
  | .nothing => .ok ⟨⟩ t.session
  | _ => query .remaining (fun _ => PUnit.unit) t.session

/-! ## Before the loop -/

section Start

variable {keys : Finset (ℕ × ℕ)} {stays : RegistryRow → Prop} {s t u : InlineSession}
  {run : InlineRun} {server : InlineServer}

/-- Between transactions, with the rows that stay still there. -/
structure Later (keys : Finset (ℕ × ℕ)) (stays : RegistryRow → Prop) (s t : InlineSession) : Prop where
  ready : InlineReady keys stays t
  waits : ∀ r, stays r → Waits r s.committed → Waits r t.committed

theorem Later.refl (h : InlineReady keys stays s) : Later keys stays s s := ⟨h, fun _ _ hr => hr⟩

theorem Later.trans (h : Later keys stays s t) (h' : Later keys stays t u) : Later keys stays s u :=
  ⟨h'.ready, fun r hr hr' => h'.waits r hr (h.waits r hr hr')⟩

theorem wp_query_later {α : Type} (label : InlineStatement) (read : InlineCatalog → α)
    (h : InlineReady keys stays s) :
    wp (query label read : InlineM α) (fun a t => a = read t.committed ∧ Later keys stays s t)
      (fun _ _ => True) s := by
  have hview : overlay s.own s.next = s.next := by
    rw [h.own]
    rfl
  refine wp_query (fun _ => trivial) ⟨by rw [hview]; rfl, ⟨h.within, h.own, ?_, h.lost⟩, ?_⟩
  · exact (within_next h.within).tended h.tended
  · exact fun r hr => (within_next h.within).waits r hr

theorem wp_acquireLock_later (h : InlineReady keys stays s) :
    wp (acquireLock run server) (fun _ t => Later keys stays s t) (fun _ _ => True) s := by
  unfold acquireLock
  rw [wp_ite]
  refine ⟨fun _ => Later.refl h, fun _ => ?_⟩
  rw [wp_bind]
  refine wp_mono (wp_query_later .unlockAll _ h) (fun _ t ht => ?_) fun _ _ h => h
  rw [wp_bind]
  refine wp_mono (wp_query_later .tryLock _ ht.2.ready) (fun got u hu => ?_) fun _ _ h => h
  rw [wp_ite]
  exact ⟨fun _ => ht.2.trans hu.2, fun _ => trivial⟩

/-- The statements before the loop: there is nothing to do only without a registry or an orphan. -/
theorem wp_inlineStart (h : InlineReady keys stays s)
    (hregistry : server.registryExists = true ∨ s.committed.registry = []) :
    wp (inlineStart run server)
      (fun ceiling t => Later keys stays s t ∧
        (ceiling = some (server.batchSize run.batchSize) ∨
          ceiling = none ∧ ∀ r, stays r → ¬Waits r s.committed)) (fun _ _ => True) s := by
  unfold inlineStart
  rw [wp_bind]
  refine wp_mono (wp_query_later .lockBudget _ h) (fun ceiling s₁ h₁ => ?_) fun _ _ h => h
  obtain ⟨rfl, h₁⟩ := h₁
  rw [wp_bind]
  refine wp_mono (wp_query_later .toRegclass _ h₁.ready) (fun registry s₂ h₂ => ?_) fun _ _ h => h
  obtain ⟨rfl, h₂⟩ := h₂
  have h₂ := h₁.trans h₂
  rw [wp_ite]
  refine ⟨fun hnone => ⟨h₂, Or.inr ⟨rfl, fun r _ hr => ?_⟩⟩, fun _ => ?_⟩
  · -- without a registry no row waits in it
    have hempty := hregistry.resolve_left fun hexists => by simp [hexists] at hnone
    have hmem := hr.1
    rw [hempty] at hmem
    cases hmem
  rw [wp_bind]
  refine wp_mono (wp_query_later .snapshotCount _ h₂.ready) (fun snapshots s₃ h₃ => ?_) fun _ _ h => h
  have h₃ := h₂.trans h₃.2
  rw [wp_ite]
  refine ⟨fun _ => trivial, fun _ => ?_⟩
  rw [wp_bind]
  refine wp_mono (wp_query_later .orphanCounts _ h₃.ready) (fun orphaned s₄ h₄ => ?_) fun _ _ h => h
  obtain ⟨rfl, h₄⟩ := h₄
  have h₄ := h₃.trans h₄
  rw [wp_ite]
  refine ⟨fun hnone => ⟨h₄, Or.inr ⟨rfl, fun r hstays hr => ?_⟩⟩, fun _ => ?_⟩
  · -- a row that waits is counted
    obtain ⟨hmem, horphaned⟩ := h₄.waits r hstays hr
    have hcounted : r ∈ s₄.committed.registry.filter fun r => s₄.committed.orphaned r.tableId :=
      List.mem_filter.2 ⟨hmem, horphaned⟩
    rw [List.length_eq_zero_iff.1 hnone] at hcounted
    cases hcounted
  · rw [wp_bind]
    exact wp_mono (wp_acquireLock_later h₄.ready) (fun _ t ht => ⟨h₄.trans ht, Or.inl rfl⟩)
      fun _ _ h => h

end Start

/-! ## The run -/

/-- A loop that was begun had something to do. -/
theorem traceLoop_ending (run : InlineRun) (server : InlineServer) (ceiling : ℤ) (fuel : ℕ) :
    ∀ batches cleanBatches batchSize after s,
      (traceLoop run server ceiling fuel batches cleanBatches batchSize after s).ending ≠ .nothing := by
  induction fuel with
  | zero => simp [traceLoop]
  | succ fuel ih =>
      intro batches cleanBatches batchSize after s
      unfold traceLoop
      split
      · simp
      · dsimp only
        split
        · simp
        · simp
        · split
          · split <;> simp
          · split
            · simp
            · split
              · simp
              · split
                · simp
                · exact ih _ _ _ _ _

/-- A run does what its trace says. -/
theorem dropOrphanInlineTables_eq_ended (run : InlineRun) (server : InlineServer) (fuel : ℕ)
    (s : InlineSession) :
    dropOrphanInlineTables run server fuel s = (traceRun run server fuel s).ended := by
  rw [dropOrphanInlineTables_eq]
  unfold traceRun
  cases hstart : inlineStart run server s with
  | error e t =>
      rw [bind_apply_error hstart]
      rfl
  | ok ceiling t =>
      rw [bind_apply_ok hstart]
      cases ceiling with
      | none => rfl
      | some ceiling =>
          have hloop := inlineLoop_eq_outcome run server ceiling fuel 0 0 ceiling (-1, -1) t
          have hbegun := traceLoop_ending run server ceiling fuel 0 0 ceiling (-1, -1) t
          show (inlineLoop run server ceiling fuel 0 0 ceiling (-1, -1) >>= fun _ => _) t
            = (traceLoop run server ceiling fuel 0 0 ceiling (-1, -1) t).ended
          generalize traceLoop run server ceiling fuel 0 0 ceiling (-1, -1) t = trace at hloop hbegun
          unfold InlineTrace.outcome at hloop
          unfold InlineTrace.ended
          cases hending : trace.ending with
          | fatal e =>
              rw [hending] at hloop
              exact bind_apply_error hloop
          | nothing => exact absurd hending hbegun
          | finished | budget | maxBatches | outOfFuel =>
              rw [hending] at hloop
              exact bind_apply_ok hloop

/-- What is true of a run among others that leave the rows that stay. -/
structure RunTrace (keys : Finset (ℕ × ℕ)) (stays : RegistryRow → Prop) (run : InlineRun)
    (server : InlineServer) (s : InlineSession) (t : InlineTrace) : Prop where
  /-- The sizes of all attempts, up to the one that the run starts with. -/
  sizes : ∀ size ∈ t.sizes, 1 ≤ size ∧ size ≤ server.batchSize run.batchSize
  pages : ∀ b ∈ t.batches, 1 ≤ b.batchSize ∧ b.batchSize ≤ server.batchSize run.batchSize
  capped : server.batchSize run.batchSize ≤ server.cap
  increasing : t.processed.Pairwise fun a b => KeyLt a.key b.key
  /-- A batch, stopped by the deadline or not, took on a row, and the next page begins behind the
      last of them. -/
  cursor : ∀ b ∈ t.batches, ∃ last, b.processed.getLast? = some last ∧ b.next = cursorOf last.key
  terminates : t.ending ≠ .outOfFuel
  complete : t.ending ≠ .budget → t.ending ≠ .maxBatches → (∀ e, t.ending ≠ .fatal e) →
    ∀ r, stays r → Free server r → Waits r s.committed → r ∈ t.processed

section Run

variable {keys : Finset (ℕ × ℕ)} {stays : RegistryRow → Prop} {s t : InlineSession}
  {run : InlineRun} {server : InlineServer} {fuel : ℕ}

/-- A run without a batch. -/
theorem runTrace_stop {ending : InlineEnding} (hends : ending ≠ .outOfFuel)
    (hcomplete : (∀ e, ending ≠ .fatal e) → ∀ r, stays r → ¬Waits r s.committed) :
    RunTrace keys stays run server s ⟨[], [], ending, t⟩ :=
  ⟨List.forall_mem_nil _, List.forall_mem_nil _, server.batchSize_le_cap _, List.Pairwise.nil,
    List.forall_mem_nil _, hends,
    fun _ _ hfatal r hr _ hwaits => (hcomplete hfatal r hr hwaits).elim⟩

/-- Every row is behind the head of the registry. -/
theorem after_head (r : RegistryRow) : r.after (-1, -1) = true := by
  simp only [RegistryRow.after, decide_eq_true_eq]
  omega

/-- A run is its loop, begun at the head of the registry. -/
theorem LoopTrace.runTrace {trace : InlineTrace} (hlater : Later keys stays s t)
    (h : LoopTrace keys stays server (server.batchSize run.batchSize) fuel (-1, -1) t trace)
    (hbegun : trace.ending ≠ .nothing) (hfuel : keys.card < fuel) :
    RunTrace keys stays run server s trace := by
  have hends : trace.ending ≠ .outOfFuel :=
    h.ends (Nat.lt_of_le_of_lt (Finset.card_filter_le _ _) hfuel)
  refine ⟨h.sizes, h.pages, server.batchSize_le_cap _, h.increasing, h.cursor, hends, ?_⟩
  intro hbudget hmax hfatal r hr hfree hwaits
  refine h.complete ?_ r hr hfree (hlater.waits r hr hwaits) (after_head r)
  cases hending : trace.ending with
  | finished => rfl
  | nothing => exact absurd hending hbegun
  | budget => exact absurd hending hbudget
  | maxBatches => exact absurd hending hmax
  | fatal e => exact absurd hending (hfatal e)
  | outOfFuel => exact absurd hending hends

/-- **A run pages through the whole registry.** Among any others that keep the keys of the registry
    apart and leave the rows that stay, whatever the server's settings, the deadline, the row locks
    and the errors: every attempt asks for between one row and the size that the run starts with,
    which is at most the server's cap; the committed batches take on rows of strictly increasing
    keys, each at least one, and leave the cursor at the last one they took on; the run ends; and
    unless the budget, `max_batches` or an error ended it, it took on every row that stayed and that
    no other session had locked. -/
theorem drop_orphan_inline_tables_covers (hready : InlineReady keys stays s) (hsize : 1 ≤ run.batchSize)
    (hregistry : server.registryExists = true ∨ s.committed.registry = []) (hfuel : keys.card < fuel) :
    dropOrphanInlineTables run server fuel s = (traceRun run server fuel s).ended ∧
      RunTrace keys stays run server s (traceRun run server fuel s) := by
  refine ⟨dropOrphanInlineTables_eq_ended run server fuel s, ?_⟩
  have hstarted : wp (inlineStart run server) _ _ s := wp_inlineStart hready hregistry
  unfold traceRun
  cases hstart : inlineStart run server s with
  | error e t => exact runTrace_stop (by simp) fun hfatal => absurd rfl (hfatal e)
  | ok ceiling t =>
      obtain ⟨hlater, rfl | ⟨rfl, hnone⟩⟩ := (wp_of_ok hstart).1 hstarted
      · exact (traceLoop_spec fuel 0 0 _ (-1, -1) t hlater.ready (server.one_le_batchSize hsize)
          le_rfl).runTrace hlater (traceLoop_ending _ _ _ _ _ _ _ _ _) hfuel
      · exact runTrace_stop (by simp) fun _ => hnone

end Run

/-- The dropped table of `oneOrphan`, with more rows in the registry. -/
def orphansOf (registry : List RegistryRow) : InlineCatalog :=
  ⟨[2, 3], droppedVersions, registry, [], droppedVersions_begun⟩

/-- Two inline tables of one table. -/
def twoOrphans : List RegistryRow :=
  [⟨4, 2, some "ducklake_inlined_data_4_2"⟩, ⟨4, 1, some "ducklake_inlined_data_4_1"⟩]

theorem two_orphans_ready (stays : RegistryRow → Prop) :
    InlineReady {(4, 1), (4, 2)} stays (inlineSession (orphansOf twoOrphans) (fun _ => []) fun _ => .runs) :=
  ⟨fun _ _ _ => ⟨id, fun _ _ h => h⟩, rfl, ⟨by decide, by decide⟩, fun _ _ h => nomatch h⟩

theorem two_orphans_covered :
    RunTrace {(4, 1), (4, 2)} (fun _ => True) ⟨false, 1, none⟩ stockServer
      (inlineSession (orphansOf twoOrphans) (fun _ => []) fun _ => .runs)
      (traceRun ⟨false, 1, none⟩ stockServer 3
        (inlineSession (orphansOf twoOrphans) (fun _ => []) fun _ => .runs)) :=
  (drop_orphan_inline_tables_covers (two_orphans_ready _) (by decide) (Or.inl rfl) (by decide)).2

/-- Two rows of one key. -/
def twinOrphans : List RegistryRow :=
  [⟨4, 1, some "ducklake_inlined_data_4_1"⟩, ⟨4, 1, some "ducklake_inlined_data_4_01"⟩]

/-- A page that ends between them leaves the second behind the cursor, and the run finishes. -/
theorem twin_orphans_missed :
    (traceRun ⟨false, 1, none⟩ stockServer 3
        (inlineSession (orphansOf twinOrphans) (fun _ => []) fun _ => .runs)).ending = .finished ∧
      ∃ r, Waits r (orphansOf twinOrphans) ∧ Free stockServer r ∧
        r ∉ (traceRun ⟨false, 1, none⟩ stockServer 3
          (inlineSession (orphansOf twinOrphans) (fun _ => []) fun _ => .runs)).processed :=
  ⟨by decide +kernel, ⟨4, 1, some "ducklake_inlined_data_4_01"⟩, ⟨by decide, by decide +kernel⟩,
    fun _ _ => rfl, by decide +kernel⟩

end Millpond.Maintenance
