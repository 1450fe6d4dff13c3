import Millpond.Maintenance.InlineSafety

set_option autoImplicit false

/-! # The batches of a run of drop-orphan-inline-tables

A run as a list of its committed batches, with the sizes that all its attempts used and the way it
ended. It executes the batches of the model and is the run's own loop beside what it writes down. -/

namespace Millpond.Maintenance

open Prog ReadCommitted

/-- `(table_id, schema_version)`. -/
def RegistryRow.key (r : RegistryRow) : ℕ × ℕ := (r.tableId, r.schemaVersion)

/-- A batch that committed: where its page began, how many rows it asked for and got, and what it
    returned. -/
structure CommittedBatch where
  after : ℤ × ℤ
  batchSize : ℤ
  page : List RegistryRow
  result : InlineBatchResult

namespace CommittedBatch

/-- The rows that the batch took on. -/
def processed (b : CommittedBatch) : List RegistryRow := b.page.take b.result.rows

/-- Where a page after this one begins. -/
def next (b : CommittedBatch) : ℤ × ℤ := nextKey b.after b.result.lastKey

end CommittedBatch

/-- How a run ends; `nothing` is without a registry or an orphan in it. -/
inductive InlineEnding where
  | nothing
  | finished
  | budget
  | maxBatches
  | fatal (e : InlineError)
  | outOfFuel
deriving DecidableEq, Repr

structure InlineTrace where
  /-- The batch sizes of all attempts. -/
  sizes : List ℤ
  batches : List CommittedBatch
  ending : InlineEnding
  session : InlineSession

/-- The rows that the page of an attempt leaves to others. -/
def BatchWorld.skips (world : BatchWorld) (dryRun : Bool) : RegistryRow → Bool :=
  if dryRun then fun _ => false else world.skipLocked

/-- The page that the last selection found. -/
def lastPage (dryRun : Bool) (after : ℤ × ℤ) (batchSize : ℤ) (world : BatchWorld)
    (s : InlineSession) : List RegistryRow :=
  ((views .batchSelect s.seen).head?.elim [] fun view =>
    inlineOrphanBatch after batchSize.toNat (world.skips dryRun) view).map Prod.fst

/-- The batch sizes of the attempts at one batch. -/
def retrySizes (dryRun : Bool) (after : ℤ × ℤ) (world : ℕ → BatchWorld) :
    (left attempt : ℕ) → (batchSize : ℤ) → InlineSession → List ℤ
  | 0, _, _, _ => []
  | left + 1, attempt, batchSize, s =>
      batchSize ::
        match dropInlineBatch dryRun after batchSize (world attempt) s with
        | .error (.pg e) s' =>
            if !isRetryableInlineError e || decide (dropInlineMaxAttempts ≤ attempt) ||
                (world attempt).lateRetry then []
            else retrySizes dryRun after world left (attempt + 1) (shrunk batchSize e) s'
        | _ => []

/-- The clean batches and the batch size that the next batch starts with. -/
def regrown (ceiling : ℤ) (cleanBatches : ℕ) (batchSize : ℤ) : ℕ × ℤ :=
  if dropInlineRegrowAfterBatches ≤ cleanBatches ∧ batchSize < ceiling then
    (0, min ceiling (batchSize * 2))
  else (cleanBatches, batchSize)

/-- A batch that was not the last. -/
def InlineTrace.prepend (sizes : List ℤ) (batch : CommittedBatch) (t : InlineTrace) : InlineTrace :=
  { t with sizes := sizes ++ t.sizes, batches := batch :: t.batches }

/-- The batch loop, written down. -/
def traceLoop (run : InlineRun) (server : InlineServer) (ceiling : ℤ) :
    (fuel batches cleanBatches : ℕ) → (batchSize : ℤ) → (after : ℤ × ℤ) → InlineSession → InlineTrace
  | 0, _, _, _, _, s => ⟨[], [], .outOfFuel, s⟩
  | fuel + 1, batches, cleanBatches, batchSize, after, s =>
      if run.maxBatches.any fun n => decide (n ≤ (batches : ℤ)) then ⟨[], [], .maxBatches, s⟩
      else
        let sizes := retrySizes run.dryRun after (server.world batches) dropInlineMaxAttempts 1 batchSize s
        match retryBatch run.dryRun after (server.world batches) dropInlineMaxAttempts 1 batchSize s with
        | .error e s' => ⟨sizes, [], .fatal e, s'⟩
        | .ok (none, _, _) s' => ⟨sizes, [], .budget, s'⟩
        | .ok (some res, batchSize, attempt) s' =>
            if res.rows = 0 then ⟨sizes, [], if res.truncated then .budget else .finished, s'⟩
            else
              let cleanBatches := if attempt = 1 then cleanBatches + 1 else 0
              let page := lastPage run.dryRun after batchSize (server.world batches attempt) s'
              let batch : CommittedBatch := ⟨after, batchSize, page, res⟩
              if res.truncated then ⟨sizes, [batch], .budget, s'⟩
              else if (res.rows : ℤ) < batchSize then ⟨sizes, [batch], .finished, s'⟩
              else if server.lateAfter batches then ⟨sizes, [batch], .budget, s'⟩
              else
                let next := regrown ceiling cleanBatches batchSize
                (traceLoop run server ceiling fuel (batches + 1) next.1 next.2 batch.next s').prepend
                  sizes batch

/-- What the loop left, as a result. -/
def InlineTrace.outcome (t : InlineTrace) : EStateM.Result InlineError InlineSession PUnit :=
  match t.ending with
  | .fatal e => .error e t.session
  | _ => .ok ⟨⟩ t.session

/-- The statements before the loop: the size it starts with, if there is something to do. -/
def inlineStart (run : InlineRun) (server : InlineServer) : InlineM (Option ℤ) := do
  let ceiling ← query .lockBudget fun _ => server.batchSize run.batchSize
  let registry ← query .toRegclass fun _ => server.registryExists
  if !registry then pure none
  else do
    let snapshots ← query .snapshotCount fun c => c.snapshots.length
    if snapshots = 0 then throw .emptySnapshots
    else do
      let orphaned ← query .orphanCounts fun c =>
        (c.registry.filter fun r => c.orphaned r.tableId).length
      if orphaned = 0 then pure none
      else do
        acquireLock run server
        pure (some ceiling)

/-- `drop_orphan_inline_tables` up to its last count, written down. -/
def traceRun (run : InlineRun) (server : InlineServer) (fuel : ℕ) (s : InlineSession) : InlineTrace :=
  match inlineStart run server s with
  | .error e s' => ⟨[], [], .fatal e, s'⟩
  | .ok none s' => ⟨[], [], .nothing, s'⟩
  | .ok (some ceiling) s' => traceLoop run server ceiling fuel 0 0 ceiling (-1, -1) s'

/-! ## The run beside its trace -/

/-- The loop does what its trace says. -/
theorem inlineLoop_eq_outcome (run : InlineRun) (server : InlineServer) (ceiling : ℤ) (fuel : ℕ) :
    ∀ batches cleanBatches batchSize after s,
      inlineLoop run server ceiling fuel batches cleanBatches batchSize after s
        = (traceLoop run server ceiling fuel batches cleanBatches batchSize after s).outcome := by
  induction fuel with
  | zero => exact fun _ _ _ _ _ => rfl
  | succ fuel ih =>
      intro batches cleanBatches batchSize after s
      unfold inlineLoop traceLoop
      split
      · rfl
      · cases hretry : retryBatch run.dryRun after (server.world batches) dropInlineMaxAttempts 1
            batchSize s with
        | error e t =>
            rw [bind_apply_error hretry]
            rfl
        | ok r t =>
            obtain ⟨result, size, attempt⟩ := r
            rw [bind_apply_ok hretry]
            cases result with
            | none => rfl
            | some res =>
                dsimp only
                split
                · cases res.truncated <;> rfl
                · cases htruncated : res.truncated with
                  | true => rfl
                  | false =>
                      by_cases hshort : (res.rows : ℤ) < size
                      · simp only [hshort, decide_true, Bool.true_or, Bool.or_true, if_true]
                        rfl
                      · cases hlate : server.lateAfter batches with
                        | true =>
                            simp only [hshort, Bool.or_true, if_true]
                            rfl
                        | false =>
                            simp only [hshort, decide_false, Bool.or_self, Bool.false_eq_true, if_false]
                            generalize (if attempt = 1 then cleanBatches + 1 else 0) = clean
                            unfold regrown
                            by_cases hgrow : dropInlineRegrowAfterBatches ≤ clean ∧ size < ceiling
                            · rw [if_pos hgrow, if_pos hgrow]
                              exact ih _ _ _ _ _
                            · rw [if_neg hgrow, if_neg hgrow]
                              exact ih _ _ _ _ _

/-- The loop, and the last count of the run. -/
def inlineRest (run : InlineRun) (server : InlineServer) (fuel : ℕ) (ceiling : ℤ) : InlineM PUnit := do
  inlineLoop run server ceiling fuel 0 0 ceiling (-1, -1)
  query .remaining fun _ => PUnit.unit

/-- A run is its start and then, if there is something to do, the loop and the last count. -/
theorem dropOrphanInlineTables_eq (run : InlineRun) (server : InlineServer) (fuel : ℕ) :
    dropOrphanInlineTables run server fuel = inlineStart run server >>= fun ceiling =>
      ceiling.elim (pure ⟨⟩) (inlineRest run server fuel) := by
  unfold dropOrphanInlineTables inlineStart
  simp only [bind_assoc]
  refine bind_congr fun ceiling => bind_congr fun registry => ?_
  cases registry with
  | false => rfl
  | true =>
      simp only [Bool.not_true, Bool.false_eq_true, if_false, bind_assoc]
      refine bind_congr fun snapshots => ?_
      split
      · rfl
      · rw [bind_assoc]
        refine bind_congr fun orphaned => ?_
        split
        · rfl
        · rw [bind_assoc]
          rfl

end Millpond.Maintenance
