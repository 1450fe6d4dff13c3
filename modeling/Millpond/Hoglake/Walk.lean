import Millpond.Hoglake.Provenance

set_option autoImplicit false

/-! # A walk through a write

A relation between the states before and after holds over everything a `write` does, however it ends,
when it holds over the few kinds of steps a write is made of: a request and its response, changes of
the sink's fields, of the log, and of the world apart from its commits, and commits themselves. -/

namespace Millpond.Hoglake

open Prog

variable {ρ V : Type}

/-- The worlds differ in nothing that commits and turns are about. -/
structure World.Quiet (w w' : World ρ) : Prop where
  ledger : w'.net.server.ledger = w.net.server.ledger
  inFlight : w'.net.inFlight = w.net.inFlight
  turns : w'.turns = w.turns
  turn : w'.turn = w.turn

/-- The state after a response. -/
def St.responded (s : St ρ) : St ρ where
  sink := { s.sink with retryAfter := noteResponse (s.world.turns s.world.turn) s.sink.retryAfter }
  world := s.world.nextTurn
  log := s.log

/-- `R` holds over the steps of a write that commits only what `own` says. -/
structure Tracks (R : St ρ → St ρ → Prop) (own : Payload → Prop) : Prop where
  refl : ∀ s, R s s
  trans : ∀ s s' s'', R s s' → R s' s'' → R s s''
  turn : ∀ s : St ρ, R s s.responded
  sink : ∀ (s : St ρ) (f : Sink → Sink), (∀ sink, (f sink).retryAfter = sink.retryAfter) →
    R s { s with sink := f s.sink }
  logs : ∀ (s : St ρ) (e : Event), R s { s with log := e :: s.log }
  world : ∀ (s : St ρ) (w : World ρ), s.world.Quiet w → R s { s with world := w }
  commit : ∀ (s : St ρ) refusal payload, own payload →
    R s { s with world := s.world.onServer fun server => (server.commit refusal payload).2 }
  enqueue : ∀ (s : St ρ) payload, own payload →
    R s { s with world := s.world.dispatch .later payload }

namespace Tracks

variable {R : St ρ → St ρ → Prop} {own : Payload → Prop} (hR : Tracks R own)

include hR

section

variable {α β : Type}

theorem walk_pure (a : α) : Within R (pure a : M ρ α) := hR.refl

theorem walk_throw (r : Raised) : Within R (throw r : M ρ α) := hR.refl

theorem walk_raise (e : Error) : Within R (raise e : M ρ α) := hR.refl

theorem walk_get : Within R (get : M ρ (St ρ)) := hR.refl

theorem walk_emit (e : Event) : Within R (emit e : M ρ PUnit) := fun s => hR.logs s e

theorem walk_onSink {f : Sink → Sink} (hf : ∀ sink, (f sink).retryAfter = sink.retryAfter) :
    Within R (onSink f : M ρ PUnit) := fun s => hR.sink s f hf

theorem walk_onWorld {f : World ρ → World ρ} (hf : ∀ w : World ρ, w.Quiet (f w)) :
    Within R (onWorld f : M ρ PUnit) := fun s => hR.world s (f s.world) (hf s.world)

theorem walk_bind {x : M ρ α} {f : α → M ρ β} (hx : Within R x) (hf : ∀ a, Within R (f a)) :
    Within R (x >>= f) :=
  Within.bind hx hf (fun _ _ h => h) hR.trans

omit hR in
theorem walk_map (f : α → β) {x : M ρ α} (hx : Within R x) : Within R (f <$> x) := by
  intro s
  rw [wp_map]
  exact hx s

theorem walk_tryCatch {x : M ρ α} {handler : Raised → M ρ α} (hx : Within R x)
    (hhandler : ∀ r, Within R (handler r)) : Within R (tryCatch x handler) := by
  intro s
  rw [wp_tryCatch]
  refine wp_mono (hx s) (fun _ _ h => h) (fun r s₁ h₁ => ?_)
  exact wp_mono (hhandler r s₁) (fun _ _ h => hR.trans _ _ _ h₁ h) (fun _ _ h => hR.trans _ _ _ h₁ h)

theorem walk_tryHoglake {x : M ρ α} {handler : HoglakeError → M ρ α} (hx : Within R x)
    (hhandler : ∀ e, Within R (handler e)) : Within R (tryHoglake x handler) := by
  refine hR.walk_tryCatch hx fun r => ?_
  cases r.error with
  | hoglake e => exact hhandler e
  | _ => exact hR.walk_throw r

end

/-! ## Calls -/

theorem walk_takeTurn : Within R (takeTurn : M ρ Turn) := hR.turn

/-- What a call that is no commit leaves on the server is quiet. -/
theorem walk_call {α : Type} {handle : World ρ → Except HoglakeError (α × World ρ)}
    (hhandle : ∀ w a w', handle w = .ok (a, w') → w.Quiet w') :
    Within R (call handle) := by
  have hsettle : ∀ (handling : Handling) (s : St ρ),
      wp (settle handling (handle s.world)) (fun _ => R s) (fun _ => R s) s := by
    intro handling s
    unfold settle
    cases handling with
    | now =>
        cases hh : handle s.world with
        | error _ => exact hR.refl s
        | ok r => exact hR.world s r.2 (hhandle s.world r.1 r.2 hh)
    | later => exact hR.refl s
    | never => exact hR.refl s
  have hraise : ∀ (handling : Handling) (e : Error) (s : St ρ),
      wp (do
          settle handling (handle s.world)
          Hoglake.raise e : M ρ α) (fun _ => R s) (fun _ => R s) s := by
    intro handling e s
    simp only [wp_bind, wp_raise]
    exact hsettle handling s
  refine hR.walk_bind hR.walk_takeTurn fun turn s => ?_
  simp only [wp_bind, wp_get]
  cases turn.fate with
  | answered =>
      show wp (deliverAnswer (handle s.world)) _ _ s
      unfold deliverAnswer
      cases hh : handle s.world with
      | error _ => exact hR.refl s
      | ok r => exact hR.world s r.2 (hhandle s.world r.1 r.2 hh)
  | refused _ => exact hR.refl s
  | lost handling => exact hraise handling _ s
  | failed e handling => exact hraise handling _ s
  | killed handling => exact hraise handling _ s

theorem walk_answerRead : Within R (call answerRead : M ρ TableInfo) :=
  hR.walk_call fun w info w' h => by rw [(answerRead_ok h).1]; exact ⟨rfl, rfl, rfl, rfl⟩

/-- A new handle. -/
theorem walk_newHandle (info : TableInfo) : Within R (do
    onWorld fun w => { w with handle := ⟨info, none⟩ }
    pure info : M ρ TableInfo) := by
  have hset : Within R (onWorld fun w => { w with handle := ⟨info, none⟩ } : M ρ PUnit) :=
    hR.walk_onWorld fun _ => ⟨rfl, rfl, rfl, rfl⟩
  exact hR.walk_bind hset fun _ => hR.walk_pure _

theorem walk_resolveTable : Within R (resolveTable : M ρ TableInfo) :=
  hR.walk_bind hR.walk_answerRead hR.walk_newHandle

theorem walk_seedHandle (info : TableInfo) : Within R (seedHandle info : M ρ PUnit) :=
  hR.walk_onWorld fun _ => ⟨rfl, rfl, rfl, rfl⟩

theorem walk_tableRead : Within R (tableRead : M ρ TableInfo) :=
  hR.walk_bind hR.walk_answerRead fun _ => hR.walk_bind (hR.walk_seedHandle _) fun _ => hR.walk_pure _

theorem walk_tableAlter (ops : List AlterOp) : Within R (tableAlter ops : M ρ TableInfo) := by
  have hcall : Within R (call (answerAlter ops) : M ρ TableInfo) := by
    refine hR.walk_call fun w info w' h => ?_
    unfold answerAlter at h
    cases halter : w.net.server.alter ops with
    | none => simp [halter] at h
    | some server =>
        cases hread : server.read with
        | none => simp [halter, hread] at h
        | some i =>
            simp only [halter, hread, Except.ok.injEq, Prod.mk.injEq] at h
            obtain ⟨-, rfl⟩ := h
            exact ⟨Server.alter_ledger halter, rfl, rfl, rfl⟩
  exact hR.walk_bind hcall fun _ => hR.walk_bind (hR.walk_seedHandle _) fun _ => hR.walk_pure _

theorem walk_createTable (fields : List (String × HogType)) :
    Within R (createTable fields : M ρ TableInfo) := by
  have hcall : Within R (call (answerCreate fields) : M ρ TableInfo) := by
    refine hR.walk_call fun w info w' h => ?_
    unfold answerCreate at h
    split at h
    · exact absurd h (by simp)
    · simp only [Except.ok.injEq, Prod.mk.injEq] at h
      obtain ⟨-, rfl⟩ := h
      exact ⟨rfl, rfl, rfl, rfl⟩
  exact hR.walk_bind hcall hR.walk_newHandle

theorem walk_readNamespace : Within R (readNamespace : M ρ PUnit) := by
  refine hR.walk_call fun w a w' h => ?_
  split at h
  · simp only [Except.ok.injEq, Prod.mk.injEq] at h
    rw [← h.2]
    exact ⟨rfl, rfl, rfl, rfl⟩
  · exact absurd h (by simp)

theorem walk_createNamespace : Within R (createNamespace : M ρ PUnit) := by
  refine hR.walk_call fun w a w' h => ?_
  split at h
  · exact absurd h (by simp)
  · simp only [Except.ok.injEq, Prod.mk.injEq] at h
    rw [← h.2]
    exact ⟨rfl, rfl, rfl, rfl⟩

/-! ## Reconciling and resolving -/

variable {cfg : SinkConfig} {be : Backend ρ V}

theorem walk_adoptColumns (columns : List Column) :
    Within R (adoptColumns columns : M ρ PUnit) := hR.walk_onSink fun _ => rfl

theorem walk_adoptInfo (info : TableInfo) (declared : Bool) :
    Within R (adoptInfo info declared : M ρ PUnit) :=
  hR.walk_bind hR.walk_get fun _ => hR.walk_bind (hR.walk_onSink fun _ => rfl) fun _ => hR.walk_emit _

/-- Read the table and adopt what was read. -/
theorem walk_refresh {α : Type} {f : TableInfo → M ρ α} (hf : ∀ info, Within R (f info)) :
    Within R (do
      let info ← tableRead
      adoptInfo info false
      f info) :=
  hR.walk_bind hR.walk_tableRead fun info => hR.walk_bind (hR.walk_adoptInfo info false) fun _ => hf info

theorem walk_getWantPartition : Within R (getWantPartition cfg : M ρ (List PartitionField)) := by
  refine hR.walk_bind hR.walk_get fun s => ?_
  cases wantPartitionFields cfg s.sink.liveColumns with
  | none => exact hR.walk_raise _
  | some fields => exact hR.walk_pure _

theorem walk_getWantSort : Within R (getWantSort cfg : M ρ (Option (List SortField))) :=
  hR.walk_bind hR.walk_get fun _ => hR.walk_pure _

theorem walk_specOps (partition : Bool) : Within R (specOps cfg partition : M ρ (List AlterOp)) := by
  have hrest : ∀ fields : List PartitionField, Within R (do
      let sortFields := (← getWantSort cfg).getD []
      pure ((if fields.isEmpty then [] else [.setPartitionSpec fields]) ++
        (if sortFields.isEmpty then [] else [.setSortOrder sortFields])) : M ρ (List AlterOp)) :=
    fun _ => hR.walk_bind hR.walk_getWantSort fun _ => hR.walk_pure _
  cases partition with
  | true => exact hR.walk_bind hR.walk_getWantPartition hrest
  | false => exact hrest []

theorem walk_verifySpecs (info : TableInfo) : Within R (verifySpecs cfg info : M ρ PUnit) := by
  refine hR.walk_bind hR.walk_getWantPartition fun fields => .ite (hR.walk_raise _) ?_
  exact hR.walk_bind hR.walk_getWantSort fun _ => .ite (hR.walk_raise _) (hR.walk_pure _)

theorem walk_declareSpecs (partition : Bool) :
    Within R (declareSpecs cfg partition : M ρ PUnit) := by
  refine hR.walk_bind (hR.walk_specOps partition) fun ops => .ite (hR.walk_pure _) ?_
  have halter : Within R (tryHoglake (tableAlter ops) fun e =>
      if e.is .commitConflict then tableRead else raise (.hoglake e) : M ρ TableInfo) :=
    hR.walk_tryHoglake (hR.walk_tableAlter ops) fun _ => .ite hR.walk_tableRead (hR.walk_raise _)
  exact hR.walk_bind halter fun info => hR.walk_bind (hR.walk_adoptInfo info true) fun _ =>
    hR.walk_verifySpecs info

theorem walk_recordVerdict (info : TableInfo) : Within R (recordVerdict info : M ρ PUnit) :=
  hR.walk_bind hR.walk_get fun _ => hR.walk_bind (hR.walk_onSink fun _ => rfl) fun _ => hR.walk_emit _

theorem walk_reconcileSpecs (info : TableInfo) :
    Within R (reconcileSpecs cfg info : M ρ PUnit) := by
  refine hR.walk_bind hR.walk_getWantPartition fun wantPartition => ?_
  refine hR.walk_bind hR.walk_getWantSort fun wantSort => ?_
  cases compareSpecs cfg info wantPartition wantSort with
  | none => exact hR.walk_raise _
  | some verdict =>
      cases verdict with
      | nothing => exact hR.walk_recordVerdict info
      | declare partition =>
          exact hR.walk_bind (hR.walk_declareSpecs partition) fun _ => hR.walk_recordVerdict info

theorem walk_tableInfo : Within R (tableInfo cfg : M ρ TableInfo) := by
  have hread : Within R (do
      let info ← tableRead
      adoptInfo info false
      reconcileSpecs cfg info
      pure ((← get).sink.liveInfo.getD info) : M ρ TableInfo) :=
    hR.walk_refresh fun info => hR.walk_bind (hR.walk_reconcileSpecs info) fun _ =>
      hR.walk_bind hR.walk_get fun _ => hR.walk_pure _
  refine hR.walk_bind hR.walk_get fun s => ?_
  cases s.sink.liveInfo with
  | none => exact hread
  | some info =>
      cases liveInfoIsFresh cfg s with
      | false => exact hread
      | true =>
          have hrest : Within R (do pure ((← get).sink.liveInfo.getD info) : M ρ TableInfo) :=
            hR.walk_bind hR.walk_get fun _ => hR.walk_pure _
          exact .ite (hR.walk_bind (hR.walk_reconcileSpecs info) fun _ => hrest) hrest

theorem walk_adoptTable : Within R (adoptTable cfg : M ρ PUnit) :=
  hR.walk_bind hR.walk_resolveTable fun _ => hR.walk_bind (hR.walk_adoptColumns _) fun _ =>
    hR.walk_refresh hR.walk_reconcileSpecs

theorem walk_ensureNamespace : Within R (ensureNamespace : M ρ PUnit) := by
  refine hR.walk_tryHoglake hR.walk_readNamespace fun e => .ite ?_ (hR.walk_raise _)
  exact hR.walk_tryHoglake hR.walk_createNamespace fun e => .ite hR.walk_readNamespace (hR.walk_raise _)

theorem walk_createAndDeclare (batch : Batch ρ V) :
    Within R (createAndDeclare cfg batch : M ρ PUnit) := by
  unfold createAndDeclare
  cases tableSchemaForBatch batch with
  | none => exact hR.walk_raise _
  | some fields =>
      have hcreate : Within R (tryHoglake (some <$> createTable fields) fun e =>
          if e.is .alreadyExists then pure none else raise (.hoglake e) : M ρ (Option TableInfo)) :=
        hR.walk_tryHoglake (walk_map some (hR.walk_createTable fields)) fun _ =>
          .ite (hR.walk_pure _) (hR.walk_raise _)
      refine hR.walk_bind hcreate fun created => ?_
      cases created with
      | none => exact hR.walk_adoptTable
      | some info => exact hR.walk_bind (hR.walk_adoptColumns _) fun _ => hR.walk_declareSpecs true

theorem walk_ensureTable (batch : Batch ρ V) :
    Within R (ensureTable cfg batch : M ρ PUnit) := by
  refine hR.walk_bind hR.walk_get fun s => .ite (hR.walk_pure _) ?_
  refine hR.walk_bind hR.walk_ensureNamespace fun _ => ?_
  have hadopt : Within R (tryHoglake (adoptTable cfg) fun e =>
      if e.is .notFound then createAndDeclare cfg batch else raise (.hoglake e) : M ρ PUnit) :=
    hR.walk_tryHoglake hR.walk_adoptTable fun _ => .ite (hR.walk_createAndDeclare batch) (hR.walk_raise _)
  exact hR.walk_bind hadopt fun _ => hR.walk_bind hR.walk_get fun _ => hR.walk_onSink fun _ => rfl

/-! ## Evolution -/

theorem walk_addColumn (name : String) (type : HogType) :
    Within R (addColumn name type : M ρ Bool) := by
  refine hR.walk_tryHoglake ?_ fun e => .ite (hR.walk_raise _) (.ite ?_ (hR.walk_pure _))
  · exact hR.walk_bind (hR.walk_tableAlter _) fun info =>
      hR.walk_bind (hR.walk_adoptInfo info false) fun _ => hR.walk_pure _
  · exact hR.walk_refresh fun _ => hR.walk_bind hR.walk_get fun _ => hR.walk_pure _

theorem walk_addEach (fields : List (String × HogType)) :
    Within R (addEach fields : M ρ (List String)) := by
  induction fields with
  | nil => exact hR.walk_pure _
  | cons field rest ih =>
      exact hR.walk_bind (hR.walk_addColumn field.1 field.2) fun _ => hR.walk_bind ih fun _ => hR.walk_pure _

theorem walk_addColumns (fields : List (BatchColumn ρ V)) :
    Within R (addColumns fields : M ρ (List String)) := by
  refine .ite (hR.walk_pure _) ?_
  have hbatched : ∀ addable, Within R (addBatched addable : M ρ Bool) := by
    intro addable
    refine .ite (hR.walk_tryHoglake ?_ fun e => .ite (hR.walk_raise _) (hR.walk_pure _)) (hR.walk_pure _)
    exact hR.walk_bind (hR.walk_tableAlter _) fun info =>
      hR.walk_bind (hR.walk_adoptInfo info false) fun _ => hR.walk_pure _
  refine hR.walk_bind (hbatched _) fun _ => .ite (hR.walk_pure _) ?_
  exact hR.walk_bind (hR.walk_addEach _) fun _ => hR.walk_pure _

theorem walk_promoteColumn (name : String) (toType : HogType) :
    Within R (promoteColumn name toType : M ρ PUnit) := by
  refine hR.walk_tryHoglake ?_ fun e => .ite ?_ (hR.walk_pure _)
  · exact hR.walk_bind (hR.walk_tableAlter _) fun info => hR.walk_adoptInfo info false
  · exact hR.walk_bind hR.walk_tableRead fun info => hR.walk_adoptInfo info false

theorem walk_evolveColumn (c : BatchColumn ρ V) :
    Within R (evolveColumn c : M ρ (List String × List (String × HogType))) := by
  unfold evolveColumn
  refine hR.walk_bind hR.walk_get fun s => ?_
  cases liveColumn c.name s.sink with
  | none => exact hR.walk_pure _
  | some live =>
      cases c.type.coltype with
      | none => exact hR.walk_pure _
      | some want =>
          refine .ite (hR.walk_pure _) ?_
          cases promotions.lookup (live.type, want) with
          | none => exact hR.walk_pure _
          | some promoted => exact hR.walk_bind (hR.walk_promoteColumn _ _) fun _ => hR.walk_pure _

theorem walk_evolveColumns (columns : List (BatchColumn ρ V)) :
    Within R (evolveColumns columns : M ρ (List String × List (String × HogType))) := by
  induction columns with
  | nil => exact hR.walk_pure _
  | cons c rest ih =>
      exact hR.walk_bind (hR.walk_evolveColumn c) fun _ => hR.walk_bind ih fun _ => hR.walk_pure _

theorem walk_rewriteColumns (rewrites : List (String × HogType)) (batch : Batch ρ V) :
    Within R (rewriteColumns be rewrites batch : M ρ (Batch ρ V)) := by
  induction rewrites generalizing batch with
  | nil => exact hR.walk_pure _
  | cons r rest ih =>
      unfold rewriteColumns
      cases rewriteColumn be r.1 r.2 batch with
      | none => exact hR.walk_raise _
      | some batch => exact ih batch

theorem walk_evolveAndAlign (batch : Batch ρ V) :
    Within R (evolveAndAlign be batch : M ρ (Batch ρ V)) := by
  refine hR.walk_bind hR.walk_get fun _ => hR.walk_bind (hR.walk_addColumns _) fun added =>
    hR.walk_bind (hR.walk_evolveColumns _) fun r => ?_
  obtain ⟨failed, rewrites⟩ := r
  dsimp only
  cases batch.dropColumns (added ++ failed) with
  | none => exact hR.walk_raise _
  | some dropped =>
      exact hR.walk_bind (hR.walk_rewriteColumns _ _) fun _ =>
        hR.walk_bind hR.walk_get fun _ => hR.walk_pure _

/-! ## Preparing -/

theorem walk_flushKey (tableUuid : Option Uuid) (identity : Option Identity) :
    Within R (flushKey cfg tableUuid identity : M ρ Key) := by
  unfold flushKey
  cases identity with
  | some offsets => exact hR.walk_pure _
  | none =>
      refine hR.walk_bind hR.walk_get fun s => ?_
      have hcount : Within R (onWorld fun w => { w with nextUuid4 := s.world.nextUuid4 + 1 } :
          M ρ PUnit) := hR.walk_onWorld fun _ => ⟨rfl, rfl, rfl, rfl⟩
      exact hR.walk_bind hcount fun _ => hR.walk_pure _

theorem walk_preparedRead (retention : Option ℚ) :
    Within R (preparedRead retention : M ρ TableInfo) := by
  refine hR.walk_bind hR.walk_get fun s => ?_
  dsimp only
  cases s.world.handle.cache with
  | none => exact hR.walk_tableRead
  | some read => exact .ite (hR.walk_pure _) hR.walk_tableRead

theorem walk_uploadFanout (groups : List (PartitionValues × Batch ρ V)) :
    Within R (uploadFanout groups : M ρ (List DataFile)) := by
  refine hR.walk_bind hR.walk_takeTurn fun turn s => ?_
  simp only [wp_bind, wp_get]
  cases turn.uploads with
  | all =>
      exact hR.world s (uploadGroups (fun _ => true) groups s.world).2 ⟨rfl, rfl, rfl, rfl⟩
  | failing ends error =>
      exact hR.world s ((uploadGroups (ends · = .closed) groups s.world).2.tear
        (tornUris ends groups s.world)) ⟨rfl, rfl, rfl, rfl⟩

theorem walk_prepareAppendTables (retention : Option ℚ) (uuid : Option Uuid) (data : Batch ρ V)
    (groups : List (PartitionValues × Batch ρ V)) :
    Within R (prepareAppendTables retention uuid data groups) := by
  have hpass : Within R (passLocalWork : M ρ PUnit) := hR.walk_onWorld fun _ => ⟨rfl, rfl, rfl, rfl⟩
  refine hR.walk_bind hpass fun _ => hR.walk_bind (hR.walk_preparedRead retention) fun info => ?_
  cases refusedBeforeUpload uuid data groups info with
  | some e => exact hR.walk_raise _
  | none => exact hR.walk_bind (hR.walk_uploadFanout groups) fun _ => hR.walk_pure _

theorem walk_noteUploaded (info : TableInfo) (uris : List Uri) :
    Within R (noteUploaded info uris : M ρ PUnit) := .ite (hR.walk_pure _) (hR.walk_emit _)

theorem walk_countOrphans (uris : List Uri) (reason : OrphanReason) :
    Within R (countOrphans uris reason : M ρ PUnit) := .ite (hR.walk_pure _) (hR.walk_emit _)

theorem walk_uploadsFailed {α : Type} (info : TableInfo) (r : Raised) :
    Within R (uploadsFailed info r : M ρ α) := by
  refine hR.walk_bind (hR.walk_noteUploaded _ _) fun _ => ?_
  cases r.error with
  | killed => exact hR.walk_throw r
  | _ => exact hR.walk_bind (hR.walk_countOrphans _ _) fun _ => hR.walk_throw r

theorem walk_prepare (batch : Batch ρ V) (key : Key) (facts : FlushFacts) :
    Within R (prepare cfg be batch key facts) := by
  refine hR.walk_bind hR.walk_tableInfo fun info => hR.walk_bind hR.walk_get fun s => ?_
  dsimp only
  cases align be info.shape.columns (nullFillMissing s.sink.liveColumns batch) with
  | none => exact hR.walk_raise _
  | some aligned =>
      dsimp only
      cases partitionGroups be info.shape aligned with
      | none => exact hR.walk_raise _
      | some groups =>
          have hprepare : Within R
              (prepareAppendTables cfg.retention s.sink.tableUuid aligned groups) :=
            hR.walk_prepareAppendTables cfg.retention s.sink.tableUuid aligned groups
          have htry := hR.walk_tryCatch hprepare (hR.walk_uploadsFailed info)
          exact hR.walk_bind htry fun _ => hR.walk_bind (hR.walk_noteUploaded _ _) fun _ =>
            hR.walk_bind (hR.walk_emit _) fun _ => hR.walk_pure _

theorem walk_prepareHealing (batch : Batch ρ V) (key : Key) (facts : FlushFacts) :
    Within R (prepareHealing cfg be batch key facts) := by
  refine hR.walk_tryHoglake (hR.walk_prepare batch key facts) fun e => .ite ?_ (hR.walk_raise _)
  exact hR.walk_refresh fun _ => hR.walk_bind hR.walk_get fun _ => hR.walk_prepare _ key facts

theorem walk_discardPrepared (reason : OrphanReason) :
    Within R (discardPrepared reason : M ρ PUnit) := by
  refine hR.walk_bind hR.walk_get fun s => ?_
  cases s.sink.prepared with
  | none => exact hR.walk_pure _
  | some payload =>
      exact hR.walk_bind hR.walk_get fun _ => hR.walk_bind (hR.walk_emit _) fun _ =>
        hR.walk_bind (hR.walk_countOrphans _ _) fun _ => hR.walk_onSink fun _ => rfl

/-- **Building a payload requests nothing.** -/
theorem walk_buildPayload (flush : Flush ρ V) : Within R (buildPayload cfg be flush) := by
  refine hR.walk_bind hR.walk_get fun s => hR.walk_bind (hR.walk_ensureTable _) fun _ => ?_
  refine hR.walk_bind hR.walk_get fun s' => ?_
  refine hR.walk_bind (hR.walk_flushKey _ _) fun key => ?_
  refine hR.walk_bind (hR.walk_evolveAndAlign _) fun batch => ?_
  exact hR.walk_bind (hR.walk_prepareHealing batch key _) fun _ => hR.walk_onSink fun _ => rfl

theorem walk_dropCache (drops hasTable : Bool) :
    Within R (dropCache drops hasTable : M ρ PUnit) :=
  .ite (hR.walk_onWorld fun _ => ⟨rfl, rfl, rfl, rfl⟩) (hR.walk_pure _)

theorem walk_answerCommit (turn : Turn) {payload : Payload} (hown : own payload) (hasTable : Bool)
    (refusal : Option Refusal) :
    Within R (answerCommit turn payload hasTable refusal : M ρ PUnit) := by
  intro s
  unfold answerCommit
  simp only [wp_bind, wp_get, wp_onWorld]
  have hcommit := hR.commit s refusal payload hown
  cases (s.world.net.server.commit refusal payload).1 with
  | none => exact hcommit
  | some e =>
      have hdrop : Within R (do
          dropCache turn.dropsCache hasTable
          raise (.hoglake e) : M ρ PUnit) :=
        hR.walk_bind (hR.walk_dropCache _ _) fun _ => hR.walk_raise _
      exact wp_mono (hdrop _) (fun _ _ h => hR.trans _ _ _ hcommit h)
        (fun _ _ h => hR.trans _ _ _ hcommit h)

theorem walk_dispatch {payload : Payload} (hown : own payload) (handling : Handling) :
    Within R (onWorld (World.dispatch handling payload) : M ρ PUnit) := by
  intro s
  cases handling with
  | now => exact hR.commit s none payload hown
  | later => exact hR.enqueue s payload hown
  | never => exact hR.refl s

theorem walk_commitPreparedCall {payload : Payload} (hown : own payload) (hasTable : Bool) :
    Within R (commitPreparedCall payload hasTable : M ρ PUnit) := by
  refine hR.walk_bind hR.walk_takeTurn fun turn => ?_
  cases turn.fate with
  | answered => exact hR.walk_answerCommit _ hown _ _
  | refused r => exact hR.walk_answerCommit _ hown _ _
  | lost handling => exact hR.walk_bind (hR.walk_dispatch hown handling) fun _ => hR.walk_raise _
  | failed e handling =>
      exact hR.walk_bind (hR.walk_dispatch hown handling) fun _ =>
        hR.walk_bind (hR.walk_dropCache _ _) fun _ => hR.walk_raise _
  | killed handling => exact hR.walk_bind (hR.walk_dispatch hown handling) fun _ => hR.walk_raise _

theorem walk_clearPrepared : Within R (clearPrepared : M ρ PUnit) := hR.walk_onSink fun _ => rfl

theorem walk_dropCachedShape : Within R (dropCachedShape : M ρ PUnit) :=
  hR.walk_bind (hR.walk_onSink fun _ => rfl) fun _ => hR.walk_emit _

theorem walk_resetCaches : Within R (resetCaches : M ρ PUnit) :=
  hR.walk_bind (hR.walk_onSink fun _ => rfl) fun _ => hR.walk_dropCachedShape

theorem walk_commitRefused (payload : Payload) (e : HoglakeError) :
    Within R (commitRefused payload e : M ρ ℕ) := by
  refine hR.walk_bind hR.walk_dropCachedShape fun _ => .ite ?_ (.ite ?_ ?_)
  · exact hR.walk_bind (hR.walk_emit _) fun _ => hR.walk_bind (hR.walk_countOrphans _ _) fun _ =>
      hR.walk_bind hR.walk_clearPrepared fun _ => hR.walk_pure _
  · have hforget : Within R (forgetDestination e : M ρ PUnit) :=
      .ite hR.walk_resetCaches hR.walk_dropCachedShape
    exact hR.walk_bind (hR.walk_discardPrepared _) fun _ => hR.walk_bind hforget fun _ => hR.walk_raise _
  · have hdiscard : Within R (discardRefused e : M ρ PUnit) :=
      .ite (hR.walk_discardPrepared _) (hR.walk_pure _)
    exact hR.walk_bind hdiscard fun _ => hR.walk_raise _

/-- The commit of the payload that is held, if there is one. -/
theorem walk_commitPrepared {s : St ρ} (hown : ∀ payload ∈ s.sink.prepared, own payload) :
    wp (commitPrepared : M ρ ℕ) (fun _ => R s) (fun _ => R s) s := by
  unfold commitPrepared
  rw [wp_bind, wp_get]
  cases held : s.sink.prepared with
  | none =>
      simp only [held]
      exact hR.refl s
  | some payload =>
      simp only [held]
      refine hR.walk_bind (hR.walk_onSink ?_) (fun _ => hR.walk_bind (hR.walk_emit _) fun _ =>
        hR.walk_bind hR.walk_get fun s' => ?_) s
      · exact fun _ => rfl
      have hcall := hR.walk_commitPreparedCall (hown payload held) s'.sink.table
      have htry : Within R (tryHoglake
          (do
            commitPreparedCall payload s'.sink.table
            pure none)
          fun e => pure (some e) : M ρ (Option HoglakeError)) :=
        hR.walk_tryHoglake (hR.walk_bind hcall fun _ => hR.walk_pure _) fun _ => hR.walk_pure _
      refine hR.walk_bind htry fun refused => ?_
      cases refused with
      | some e => exact hR.walk_commitRefused payload e
      | none =>
          exact hR.walk_bind hR.walk_get fun _ => hR.walk_bind hR.walk_clearPrepared fun _ =>
            hR.walk_pure _

end Tracks

/-- **A relation over the steps holds over a write**, when it does not ask what is committed. -/
theorem Tracks.walk_write {R : St ρ → St ρ → Prop} (hR : Tracks R fun _ => True) {cfg : SinkConfig}
    {be : Backend ρ V} (flush : Flush ρ V) : Within R (write cfg be flush) := by
  have hcommit : Within R (commitPrepared : M ρ ℕ) :=
    fun s => hR.walk_commitPrepared fun _ _ => trivial
  refine .ite (hR.walk_raise _) (.ite (hR.walk_pure _) ?_)
  refine hR.walk_bind hR.walk_get fun s => .ite hcommit ?_
  exact hR.walk_bind (hR.walk_discardPrepared _) fun _ => hR.walk_bind (hR.walk_buildPayload flush) fun _ =>
    hcommit

end Millpond.Hoglake
