import Millpond.Hoglake.Sink
import Millpond.Lib.Counting

set_option autoImplicit false

/-! # What a flush counts

`HoglakeSink.write` with the two counters that account for columns: `records_skipped_total` with
`reason="unsafe_field_name"`, and `errors_total` with `type="schema"`. Without the counters it is the
`write` of the sink. -/

namespace Millpond.Hoglake

open Prog Counting

variable {ρ V : Type}

/-- An increment, with the column it is about; a batch skipped whole is counted by its rows. -/
inductive Tally where
  | unsafeFieldName (column : String)
  | unsafeBatch (rows : ℕ)
  | schema (column : String)
deriving DecidableEq, Repr

abbrev CountedM (ρ : Type) := Metered Raised (St ρ) Tally

/-- `tryHoglake`, counting. -/
def tryCounted {α : Type} (x : CountedM ρ α) (handler : HoglakeError → CountedM ρ α) :
    CountedM ρ α :=
  tryCatch x fun r =>
    match r.error with
    | .hoglake e => handler e
    | _ => throw r

/-! ## Evolution -/

/-- `_add_column`: every way out with `False` is counted. -/
def addColumnCounted (name : String) (type : HogType) : CountedM ρ Bool := do
  let live ← uncounted (addColumn name type)
  if live then pure true
  else do
    count [.schema name]
    pure false

/-- The per-column loop of `_add_columns`. -/
def addEachCounted : List (String × HogType) → CountedM ρ (List String)
  | [] => pure []
  | (name, type) :: rest => do
      let live ← addColumnCounted name type
      let failed ← addEachCounted rest
      pure (if live then failed else name :: failed)

/-- `_add_columns`: a column without a type mapping is counted before any alter. -/
def addColumnsCounted (fields : List (BatchColumn ρ V)) : CountedM ρ (List String) := do
  let unmapped := (fields.filter (·.type.coltype.isNone)).map (·.name)
  let addable := fields.filterMap fun c => c.type.coltype.map fun type => (c.name, type)
  count (unmapped.map .schema)
  if addable.isEmpty then pure unmapped
  else do
    let batched ← uncounted (addBatched addable)
    if batched then pure unmapped
    else do
      let failed ← addEachCounted addable
      pure (unmapped ++ failed)

/-- After a conflict: promoted by another writer, or counted. -/
def countUnpromoted (name : String) (toType : HogType) : CountedM ρ PUnit := do
  let s ← get
  count (if (liveColumn name s.1.sink).any (·.type = toType) then [] else [.schema name])

/-- `_promote_column`. -/
def promoteColumnCounted (name : String) (toType : HogType) : CountedM ρ PUnit :=
  tryCounted
    (uncounted do
      let info ← tableAlter [.promoteColumn name toType]
      adoptInfo info false)
    fun e =>
      if e.is .commitConflict then do
        uncounted do
          let info ← tableRead
          adoptInfo info false
        countUnpromoted name toType
      else count [.schema name]

/-- One turn of the loop of `_evolve_and_align`: a column without a type mapping is counted. -/
def evolveColumnCounted (c : BatchColumn ρ V) :
    CountedM ρ (List String × List (String × HogType)) := do
  let s ← get
  match liveColumn c.name s.1.sink, c.type.coltype with
  | none, _ => pure ([], [])
  | some _, none => do
      count [.schema c.name]
      pure ([c.name], [])
  | some live, some want =>
    if live.type = want then pure ([], [])
    else match promotions.lookup (live.type, want) with
      | some promoted => do
          promoteColumnCounted c.name promoted
          pure ([], [])
      | none => pure ([], if uuidRewrites.contains (live.type, want) then [(c.name, want)] else [])

/-- The loop of `_evolve_and_align`. -/
def evolveColumnsCounted :
    List (BatchColumn ρ V) → CountedM ρ (List String × List (String × HogType))
  | [] => pure ([], [])
  | c :: rest => do
      let turn ← evolveColumnCounted c
      let others ← evolveColumnsCounted rest
      pure (turn.1 ++ others.1, turn.2 ++ others.2)

variable (cfg : SinkConfig) (be : Backend ρ V)

/-- The rewrites: each is counted. -/
def rewriteColumnsCounted : List (String × HogType) → Batch ρ V → CountedM ρ (Batch ρ V)
  | [], batch => pure batch
  | (name, want) :: rest, batch =>
    match rewriteColumn be name want batch with
    | none => throw ⟨.value, []⟩
    | some batch => do
        count [.schema name]
        rewriteColumnsCounted rest batch

/-- `_evolve_and_align`. -/
def evolveAndAlignCounted (batch : Batch ρ V) : CountedM ρ (Batch ρ V) := do
  let s ← get
  let added ←
    addColumnsCounted (batch.columns.filter fun c => (liveColumn c.name s.1.sink).isNone)
  let (failed, rewrites) ← evolveColumnsCounted batch.columns
  match batch.dropColumns (added ++ failed) with
  | none => throw ⟨.value, []⟩
  | some batch => do
      let batch ← rewriteColumnsCounted be rewrites batch
      let s ← get
      pure (nullFillMissing s.1.sink.liveColumns batch)

/-! ## Up to the commit -/

/-- Build a new payload for a batch and hold it. -/
def buildPayloadCounted (flush : Flush ρ V) : CountedM ρ PUnit := do
  let s ← get
  let stamped := stampInsertedAt be s.1.world.net.now (dropUnwritableColumns flush.batch)
  uncounted (ensureTable cfg stamped)
  let s ← get
  let key ← uncounted (flushKey cfg s.1.sink.tableUuid flush.identity)
  let batch ← evolveAndAlignCounted be stamped
  let payload ← uncounted (prepareHealing cfg be batch key
    ⟨flush.identity.getD [], be.nbytes flush.batch, flush.trigger⟩)
  uncounted (onSink fun sink => { sink with
    prepared := some payload, preparedRows := batch.numRows
    preparedOffsets := flush.identity, preparedSends := 0 })

/-- What `_drop_unwritable_columns` counts, and the rows of a batch it leaves nothing of. -/
def unwritableTallies (batch : Batch ρ V) : List Tally :=
  (if !batch.columns.isEmpty && (dropUnwritableColumns batch).columns.isEmpty then
    [.unsafeBatch batch.numRows] else []) ++
  (batch.names.filter (!isWritable ·)).map .unsafeFieldName

/-- `write` up to its commit: whether there is a payload to send. -/
def holdPayload (flush : Flush ρ V) : CountedM ρ Bool := do
  if flush.batch.names.any (· ∈ reservedColumns) then throw ⟨.value, []⟩
  else do
    count (unwritableTallies flush.batch)
    if isSkipped flush.batch then pure false
    else do
      let s ← get
      if isReplay flush s.1.sink then pure true
      else do
        uncounted (discardPrepared .superseded)
        buildPayloadCounted cfg be flush
        pure true

/-- `write`. -/
def writeCounted (flush : Flush ρ V) : CountedM ρ ℕ := do
  let held ← holdPayload cfg be flush
  if held then uncounted commitPrepared else pure 0

/-! ## Without the counters -/

theorem erases_tryCounted {α : Type} {x : CountedM ρ α} {y : M ρ α}
    {f : HoglakeError → CountedM ρ α} {g : HoglakeError → M ρ α} (hx : Erases x y)
    (hf : ∀ e, Erases (f e) (g e)) : Erases (tryCounted x f) (tryHoglake y g) := by
  refine hx.tryCatch fun r => ?_
  cases r.error with
  | hoglake e => exact hf e
  | _ => exact erases_throw _

theorem erases_addColumn (name : String) (type : HogType) :
    Erases (addColumnCounted name type : CountedM ρ Bool) (addColumn name type) := by
  have hsame : (addColumn name type : M ρ Bool) = addColumn name type >>= pure :=
    (bind_pure _).symm
  rw [hsame]
  refine (erases_uncounted _).bind fun live => ?_
  cases live with
  | true => exact erases_pure _
  | false => exact (erases_pure _).count_bind _

theorem erases_addEach (fields : List (String × HogType)) :
    Erases (addEachCounted fields : CountedM ρ (List String)) (addEach fields) := by
  induction fields with
  | nil => exact erases_pure _
  | cons field rest ih =>
      exact (erases_addColumn field.1 field.2).bind fun live => ih.bind fun failed => erases_pure _

theorem erases_addColumns (fields : List (BatchColumn ρ V)) :
    Erases (addColumnsCounted fields) (addColumns fields) := by
  refine Erases.count_bind _ (Erases.ite (erases_pure _) ?_)
  refine (erases_uncounted _).bind fun batched => Erases.ite (erases_pure _) ?_
  exact (erases_addEach _).bind fun failed => erases_pure _

theorem erases_countUnpromoted (name : String) (toType : HogType) :
    Erases (countUnpromoted name toType : CountedM ρ PUnit) (pure ⟨⟩) := fun _ _ => rfl

theorem erases_promoteColumn (name : String) (toType : HogType) :
    Erases (promoteColumnCounted name toType : CountedM ρ PUnit) (promoteColumn name toType) := by
  refine erases_tryCounted (erases_uncounted _) fun e => Erases.ite ?_ (erases_count _)
  exact (erases_uncounted _).bind_erased fun _ => erases_countUnpromoted name toType

theorem erases_evolveColumn (c : BatchColumn ρ V) :
    Erases (evolveColumnCounted c) (evolveColumn c) := by
  simp only [evolveColumnCounted, evolveColumn, List.contains_iff_mem]
  refine Erases.get_bind fun s counts => ?_
  dsimp only
  cases liveColumn c.name s.sink with
  | none => exact erases_pure _
  | some live =>
      cases c.type.coltype with
      | none => exact (erases_pure _).count_bind _
      | some want =>
          refine Erases.ite (erases_pure _) ?_
          cases promotions.lookup (live.type, want) with
          | none => exact erases_pure _
          | some promoted => exact (erases_promoteColumn _ _).bind fun _ => erases_pure _

theorem erases_evolveColumns (columns : List (BatchColumn ρ V)) :
    Erases (evolveColumnsCounted columns) (evolveColumns columns) := by
  induction columns with
  | nil => exact erases_pure _
  | cons c rest ih =>
      exact (erases_evolveColumn c).bind fun turn => ih.bind fun others => erases_pure _

theorem erases_rewriteColumns (rewrites : List (String × HogType)) (batch : Batch ρ V) :
    Erases (rewriteColumnsCounted be rewrites batch) (rewriteColumns be rewrites batch) := by
  induction rewrites generalizing batch with
  | nil => exact erases_pure _
  | cons r rest ih =>
      unfold rewriteColumnsCounted rewriteColumns
      cases rewriteColumn be r.1 r.2 batch with
      | none => exact erases_throw _
      | some batch => exact (ih batch).count_bind _

theorem erases_evolveAndAlign (batch : Batch ρ V) :
    Erases (evolveAndAlignCounted be batch) (evolveAndAlign be batch) := by
  refine Erases.get_bind fun s counts => (erases_addColumns _).bind fun added => ?_
  refine (erases_evolveColumns _).bind fun r => ?_
  obtain ⟨failed, rewrites⟩ := r
  dsimp only
  cases batch.dropColumns (added ++ failed) with
  | none => exact erases_throw _
  | some dropped =>
      refine (erases_rewriteColumns be rewrites _).bind fun _ => ?_
      exact Erases.get_bind fun s counts => erases_pure _

theorem erases_buildPayload (flush : Flush ρ V) :
    Erases (buildPayloadCounted cfg be flush) (buildPayload cfg be flush) := by
  refine Erases.get_bind fun s counts => (erases_uncounted _).bind fun _ => ?_
  refine Erases.get_bind fun s counts => (erases_uncounted _).bind fun key => ?_
  refine (erases_evolveAndAlign be _).bind fun batch => (erases_uncounted _).bind fun payload => ?_
  exact erases_uncounted _

theorem ite_bind {ε σ α β : Type} (c : Prop) [Decidable c] (x y : EStateM ε σ α)
    (f : α → EStateM ε σ β) : (if c then x else y) >>= f = if c then x >>= f else y >>= f := by
  split
  · rfl
  · rfl

/-- **The counters change nothing.** -/
theorem erases_write (flush : Flush ρ V) :
    Erases (writeCounted cfg be flush) (write cfg be flush) := by
  unfold writeCounted holdPayload write
  simp only [ite_bind, bind_assoc, pure_bind]
  refine Erases.ite (erases_throw _) (Erases.count_bind _ (Erases.ite (erases_pure _) ?_))
  refine Erases.get_bind fun s counts => Erases.ite (erases_uncounted _) ?_
  refine (erases_uncounted _).bind fun _ => ?_
  exact (erases_buildPayload cfg be flush).bind fun _ => erases_uncounted _

end Millpond.Hoglake
