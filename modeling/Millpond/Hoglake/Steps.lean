import Millpond.Hoglake.Sink
import Millpond.Hoglake.Window
import Mathlib.Logic.Relation

set_option autoImplicit false

/-! # The steps of the sink

What the sink can do to its own fields, the client's handle, the object store and the log, as one
step relation with everything each step may rely on. The run-level results are invariants of these
steps; that the program takes no others is shown in the modules after this one. -/

namespace Millpond.Hoglake

open Prog

variable {ρ V : Type} (cfg : SinkConfig)

/-! ## The world between uploads -/

/-- Others moved, calls were made, DDL was applied: nothing was uploaded or sent. -/
structure World.Evolves (w w' : World ρ) : Prop where
  net : w.net.Evolves w'.net
  objects : w'.objects = w.objects
  nextUri : w'.nextUri = w.nextUri
  handle : w'.handle = w.handle
  turns : w'.turns = w.turns

theorem World.Evolves.refl (w : World ρ) : w.Evolves w := ⟨.refl _, rfl, rfl, rfl, rfl⟩

theorem World.Evolves.trans {w w' w'' : World ρ} (h : w.Evolves w') (h' : w'.Evolves w'') :
    w.Evolves w'' :=
  ⟨h.net.trans h'.net, h'.objects.trans h.objects, h'.nextUri.trans h.nextUri,
    h'.handle.trans h.handle, h'.turns.trans h.turns⟩

/-- What a failed upload leaves behind is nothing that a commit could name. -/
theorem World.Evolves.tear {w w' : World ρ} (h : w.Evolves w') (uris : List Uri) :
    w.Evolves (w'.tear uris) :=
  ⟨h.net, h.objects, h.nextUri, h.handle, h.turns⟩

/-- What every step keeps of the world, and the death of the process too. -/
structure World.Grows (w w' : World ρ) : Prop where
  server : w.net.server.Evolves w'.net.server
  objects : ∀ object ∈ w.objects, object ∈ w'.objects

theorem World.Grows.refl (w : World ρ) : w.Grows w := ⟨.refl _, fun _ h => h⟩

theorem World.Grows.trans {w w' w'' : World ρ} (h : w.Grows w') (h' : w'.Grows w'') :
    w.Grows w'' :=
  ⟨h.server.trans h'.server, fun o ho => h'.objects o (h.objects o ho)⟩

theorem World.Evolves.grows {w w' : World ρ} (h : w.Evolves w') : w.Grows w' :=
  ⟨h.net.server, fun o ho => by rw [h.objects]; exact ho⟩

/-! ## The effects of the steps -/

namespace St

/-- The world moved on; a response may have left a retry hint. -/
def moved (s : St ρ) (w : World ρ) (retryAfter : Option ℚ) : St ρ :=
  { s with world := w, sink := { s.sink with retryAfter := retryAfter } }

/-- A new handle, without a writer cache. -/
def resolve (s : St ρ) (info : TableInfo) : St ρ :=
  { s with
    world := { s.world with handle := ⟨info, none⟩ }
    sink := { s.sink with liveColumns := info.shape.columns } }

/-- The handle took a read and seeded its cache. -/
def seed (s : St ρ) (info : TableInfo) : St ρ :=
  { s with world := { s.world with handle := ⟨info, some (info, s.world.net.now)⟩ } }

/-- The handle and the sink took a read together. -/
def adopt (s : St ρ) (info : TableInfo) (declared : Bool) : St ρ :=
  { sink := { s.sink with
      liveInfo := some info, liveInfoReadAt := some s.world.net.now
      liveColumns := info.shape.columns }
    world := (s.seed info).world
    log := .adopted info declared :: s.log }

/-- The verdict of a reconciliation. -/
def record (s : St ρ) (info : TableInfo) : St ρ :=
  { s with
    sink := { s.sink with reconciledSpecs := some (specIdentity info) }
    log := .reconciled info :: s.log }

/-- The resolved table becomes the sink's. -/
def attach (s : St ρ) : St ρ :=
  { s with
    sink := { s.sink with table := true, tableUuid := some s.world.handle.info.uuid } }

/-- The cached shape is dropped, and perhaps the client's cache before it. -/
def dropShape (s : St ρ) (cache : Option (TableInfo × ℚ)) : St ρ :=
  { sink := { s.sink with liveInfo := none, liveInfoReadAt := none, reconciledSpecs := none }
    world := { s.world with handle := { s.world.handle with cache := cache } }
    log := .dropped :: s.log }

/-- `reset_caches`. -/
def reset (s : St ρ) : St ρ :=
  { s with
    sink := { s.sink with
      table := false, tableUuid := none, liveColumns := [], liveInfo := none
      liveInfoReadAt := none, reconciledSpecs := none }
    log := .dropped :: s.log }

/-- Objects were uploaded, of `n` that were tried. -/
def upload (s : St ρ) (info : TableInfo) (n : ℕ) (objects : List (Uri × List ρ)) : St ρ :=
  { s with
    world := { s.world with nextUri := s.world.nextUri + n, objects := s.world.objects ++ objects }
    log := if objects.isEmpty then s.log else .uploaded info (objects.map Prod.fst) :: s.log }

/-- A payload is held. -/
def hold (s : St ρ) (payload : Payload) (info : TableInfo) (rows : ℕ)
    (offsets : Option Identity) : St ρ :=
  { s with
    sink := { s.sink with
      prepared := some payload, preparedRows := rows, preparedOffsets := offsets, preparedSends := 0 }
    log := .prepared payload info :: s.log }

/-- The held payload goes out. -/
def send (s : St ρ) (payload : Payload) : St ρ :=
  { s with
    sink := { s.sink with preparedSends := s.sink.preparedSends + 1 }
    log := .sent payload :: s.log }

/-- The held payload is let go. -/
def clear (s : St ρ) : St ρ :=
  { s with sink := { s.sink with
      prepared := none, preparedRows := 0, preparedOffsets := none, preparedSends := 0 } }

/-- Objects are reported, if there are any. -/
def report (s : St ρ) (uris : List Uri) (reason : OrphanReason) : St ρ :=
  if uris.isEmpty then s else { s with log := .orphans uris reason :: s.log }

/-- An event is recorded. -/
def note (s : St ρ) (e : Event) : St ρ := { s with log := e :: s.log }

end St

/-! ## What the steps rely on -/

/-- The sink's shape is the one the client's cache was seeded with, at the same time. -/
def Current (s : St ρ) : Prop :=
  ∀ info, s.sink.liveInfo = some info → s.sink.liveColumns = info.shape.columns ∧
    ∃ t, s.sink.liveInfoReadAt = some t ∧ s.world.handle.cache = some (info, t)

/-- Config and `info` agree: HOGLAKE_PARTITION_BY resolves to its partition spec. -/
def Agrees (columns : List Column) (info : TableInfo) : Prop :=
  wantPartitionFields cfg columns = some info.shape.partitionSpec

/-- Why a verdict is recorded: the comparison passed, or a declaration was verified. -/
inductive Verdict (s : St ρ) (info : TableInfo) : Prop where
  | compared (agrees : Agrees cfg s.sink.liveColumns info)
  | declared (current : Current s) (log : ∃ rest, s.log = .adopted info true :: rest)
      (agrees : cfg.partitionBy = [] ∨ Agrees cfg info.shape.columns info)

/-- The shape a prepare works from: adopted, reconciled and fresh when it was checked. -/
structure Working (s : St ρ) (info : TableInfo) : Prop where
  table : s.sink.table = true
  live : s.sink.liveInfo = some info
  reconciled : s.sink.reconciledSpecs = some (specIdentity info)

/-- The sink's freshness check passed at most the turn's local work ago. -/
def CheckedFresh (s : St ρ) : Prop :=
  ∃ t, s.sink.liveInfoReadAt = some t ∧ ∀ r, cfg.retention = some r →
    s.world.net.now - t < r / 4 + (s.world.turns s.world.turn).localWork

/-- What an upload is made for: the shape the tuples were computed under, and the client's read the
    request will carry. -/
structure UploadReady (s : St ρ) (info read : TableInfo) : Prop where
  working : Working s info
  held : s.sink.prepared = none
  cache : ∃ t, s.world.handle.cache = some (read, t)
  uuid : s.sink.tableUuid = some read.uuid

/-- A request built from an upload. -/
structure Payload.BuiltFrom (payload : Payload) (nextUri n : ℕ) (info read : TableInfo) :
    Prop where
  uuid : payload.expectedTableUuid = read.uuid
  snapshot : payload.readSnapshot = read.snapshot
  uris : payload.uris = (List.range n).map fun i => .own (nextUri + i)
  nonempty : 0 < n
  fits : ∀ file ∈ payload.files, Server.fits read.shape.partitionSpec file = true
  tuples : ∀ file ∈ payload.files,
    file.partitionValues = none ↔ info.shape.partitionSpec = []

/-- Why a held payload is let go with its objects reported. -/
inductive Discardable (s : St ρ) (payload : Payload) : OrphanReason → Prop where
  /-- A new flush came. -/
  | superseded : Discardable s payload .superseded
  /-- The sink closes. -/
  | shutdown : Discardable s payload .shutdown
  /-- The server refused the request. -/
  | refused (fresh : s.world.net.server.ledger.lookup payload.idempotencyKey = none) :
      Discardable s payload .commitRefused
  /-- The server refused it because the destination moved. -/
  | moved (e : HoglakeError)
      (fresh : s.world.net.server.ledger.lookup payload.idempotencyKey = none)
      (verdict : s.world.net.server.judge payload = some e)
      (moved : e.isDestinationMoved = true) : Discardable s payload (movedReason e)

/-! ## The steps -/

inductive Step : St ρ → St ρ → Prop where
  /-- Others move, and this pod reads or alters. -/
  | world {s : St ρ} (w : World ρ) (retryAfter : Option ℚ) (evolves : s.world.Evolves w) :
      Step s (s.moved w retryAfter)
  /-- `ns.table` or `create_table`, and its columns. -/
  | resolve {s : St ρ} (info : TableInfo) (table : s.sink.table = false)
      (reconciled : s.sink.reconciledSpecs = none) (honest : s.world.net.server.Honest info) :
      Step s (s.resolve info)
  /-- A read or a receipt is adopted. -/
  | adopt {s : St ρ} (info : TableInfo) (declared : Bool)
      (honest : s.world.net.server.Honest info) : Step s (s.adopt info declared)
  /-- A verdict on the sink's table. -/
  | record {s : St ρ} (info : TableInfo) (table : s.sink.table = true)
      (live : s.sink.liveInfo = some info) (verdict : Verdict cfg s info) : Step s (s.record info)
  /-- A created table is taken, its specs declared. -/
  | attachCreated {s : St ρ} (table : s.sink.table = false)
      (reconciled : s.sink.reconciledSpecs = none)
      (declared : Current s ∨ cfg.partitionBy = []) : Step s s.attach
  /-- An existing table is taken, reconciled. -/
  | attachReconciled {s : St ρ} (info : TableInfo) (table : s.sink.table = false)
      (live : s.sink.liveInfo = some info) (current : Current s) (verdict : Verdict cfg s info) :
      Step s (s.record info).attach
  /-- The cached shape goes; the client's cache goes with it or stays. -/
  | dropShape {s : St ρ} (cache : Option (TableInfo × ℚ))
      (cache_eq : cache = s.world.handle.cache ∨ cache = none) : Step s (s.dropShape cache)
  | reset {s : St ρ} : Step s s.reset
  /-- The client reads the table on its own, because its cache is too old. -/
  | reread {s : St ρ} (w : World ρ) (retryAfter : Option ℚ) (info read : TableInfo)
      (working : Working s info) (fresh : CheckedFresh cfg s)
      (stale : cacheIsUsable cfg.retention s.world = false) (evolves : s.world.Evolves w)
      (honest : w.net.server.Honest read) : Step s ((s.moved w retryAfter).seed read)
  /-- All objects of a flush are uploaded and its payload is held. -/
  | prepare {s : St ρ} (info read : TableInfo) (payload : Payload)
      (objects : List (Uri × List ρ)) (rows : ℕ) (offsets : Option Identity)
      (ready : UploadReady s info read)
      (built : payload.BuiltFrom s.world.nextUri objects.length info read)
      (objects_eq : objects.map Prod.fst = payload.uris) :
      Step s ((s.upload info objects.length objects).hold payload info rows offsets)
  /-- Some uploads failed; those that landed are reported. -/
  | uploadFailed {s : St ρ} (info read : TableInfo) (n : ℕ) (objects : List (Uri × List ρ))
      (ready : UploadReady s info read)
      (landed : (objects.map Prod.fst).Sublist
        ((List.range n).map fun i => .own (s.world.nextUri + i))) :
      Step s ((s.upload info n objects).report (objects.map Prod.fst) .prepareFailed)
  /-- The held payload goes out. -/
  | send {s : St ρ} (payload : Payload) (held : s.sink.prepared = some payload) :
      Step s (s.send payload)
  /-- The server handles the held payload. -/
  | commit {s : St ρ} (payload : Payload) (refusal : Option Refusal)
      (held : s.sink.prepared = some payload) :
      Step s { s with world := s.world.onServer fun server => (server.commit refusal payload).2 }
  /-- The held payload stays on its way. -/
  | queue {s : St ρ} (payload : Payload) (held : s.sink.prepared = some payload) :
      Step s { s with world := s.world.dispatch .later payload }
  /-- The server answered that the request stands. -/
  | published {s : St ρ} (payload : Payload) (commit : Commit)
      (held : s.sink.prepared = some payload)
      (receipt : s.world.net.server.ledger.lookup payload.idempotencyKey = some commit)
      (same : commit.request = payload) : Step s s.clear
  /-- The server answered that the key belongs to another request. -/
  | alreadyPublished {s : St ρ} (payload : Payload) (commit : Commit)
      (held : s.sink.prepared = some payload)
      (receipt : s.world.net.server.ledger.lookup payload.idempotencyKey = some commit)
      (other : commit.request ≠ payload) :
      Step s ((s.note (.alreadyPublished payload)).report payload.uris .alreadyPublished).clear
  | discard {s : St ρ} (payload : Payload) (reason : OrphanReason)
      (held : s.sink.prepared = some payload) (why : Discardable s payload reason) :
      Step s ((s.note (.discarded payload reason (s.world.atRisk payload))).report payload.uris
        reason).clear

/-- Any number of steps. -/
abbrev Steps : St ρ → St ρ → Prop := Relation.ReflTransGen (Step cfg)

variable {cfg}

/-- An invariant of the steps. -/
theorem Steps.invariant {I : St ρ → Prop} (hstep : ∀ s s', Step cfg s s' → I s → I s') {s s' : St ρ}
    (h : Steps cfg s s') (hI : I s) : I s' := by
  induction h with
  | refl => exact hI
  | tail _ hlast ih => exact hstep _ _ hlast ih

@[simp] theorem St.report_sink (s : St ρ) (uris : List Uri) (reason : OrphanReason) :
    (s.report uris reason).sink = s.sink := by
  unfold St.report
  split <;> rfl

@[simp] theorem St.report_world (s : St ρ) (uris : List Uri) (reason : OrphanReason) :
    (s.report uris reason).world = s.world := by
  unfold St.report
  split <;> rfl

theorem Step.grows {s s' : St ρ} (h : Step cfg s s') : s.world.Grows s'.world := by
  cases h with
  | world w _ evolves => exact evolves.grows
  | reread w _ _ _ _ _ _ evolves _ => exact ⟨evolves.grows.server, evolves.grows.objects⟩
  | prepare => exact ⟨.refl _, fun o ho => List.mem_append_left _ ho⟩
  | uploadFailed =>
      rw [St.report_world]
      exact ⟨.refl _, fun o ho => List.mem_append_left _ ho⟩
  | commit payload refusal _ => exact ⟨Server.evolves_commit refusal payload _, fun _ h => h⟩
  | alreadyPublished =>
      show s.world.Grows (St.report _ _ _).world
      rw [St.report_world]
      exact .refl _
  | discard =>
      show s.world.Grows (St.report _ _ _).world
      rw [St.report_world]
      exact .refl _
  | _ => exact ⟨.refl _, fun _ h => h⟩

theorem Steps.grows {s s' : St ρ} (h : Steps cfg s s') : s.world.Grows s'.world := by
  induction h with
  | refl => exact .refl _
  | tail _ hlast ih => exact ih.trans hlast.grows

theorem St.report_log_suffix (s : St ρ) (uris : List Uri) (reason : OrphanReason) :
    s.log <:+ (s.report uris reason).log := by
  unfold St.report
  split
  · exact List.suffix_refl _
  · exact List.suffix_cons _ _

theorem St.upload_log_suffix (s : St ρ) (info : TableInfo) (n : ℕ) (objects : List (Uri × List ρ)) :
    s.log <:+ (s.upload info n objects).log := by
  show s.log <:+ (if objects.isEmpty then s.log else _)
  split
  · exact List.suffix_refl _
  · exact List.suffix_cons _ _

/-- Nothing is struck from the log. -/
theorem Step.log_suffix {s s' : St ρ} (h : Step cfg s s') : s.log <:+ s'.log := by
  cases h with
  | adopt info declared => exact List.suffix_cons _ _
  | record info => exact List.suffix_cons _ _
  | attachReconciled info => exact List.suffix_cons _ _
  | dropShape cache => exact List.suffix_cons _ _
  | reset => exact List.suffix_cons _ _
  | prepare info read payload objects =>
      exact (s.upload_log_suffix info _ objects).trans (List.suffix_cons _ _)
  | uploadFailed info read n objects =>
      exact (s.upload_log_suffix info n objects).trans (St.report_log_suffix _ _ _)
  | send payload => exact List.suffix_cons _ _
  | alreadyPublished payload => exact (List.suffix_cons _ _).trans (St.report_log_suffix (s.note _) _ _)
  | discard payload => exact (List.suffix_cons _ _).trans (St.report_log_suffix (s.note _) _ _)
  | _ => exact List.suffix_refl _

theorem Steps.log_suffix {s s' : St ρ} (h : Steps cfg s s') : s.log <:+ s'.log := by
  induction h with
  | refl => exact List.suffix_refl _
  | tail _ hlast ih => exact ih.trans hlast.log_suffix

/-- A sink without a table has no verdict. -/
def NoVerdict (s : St ρ) : Prop := s.sink.table = false → s.sink.reconciledSpecs = none

theorem Step.noVerdict {s s' : St ρ} (h : Step cfg s s') (hs : NoVerdict s) : NoVerdict s' := by
  cases h with
  | record info table _ _ => exact fun hfalse => absurd (table.symm.trans hfalse) (by simp)
  | attachCreated => exact fun hfalse => absurd hfalse (by simp [St.attach])
  | attachReconciled => exact fun hfalse => absurd hfalse (by simp [St.attach])
  | dropShape => exact fun _ => rfl
  | reset => exact fun _ => rfl
  | uploadFailed =>
      unfold NoVerdict
      rw [St.report_sink]
      exact hs
  | alreadyPublished =>
      unfold NoVerdict St.clear
      simp only [St.report_sink]
      exact hs
  | discard =>
      unfold NoVerdict St.clear
      simp only [St.report_sink]
      exact hs
  | _ => exact hs

end Millpond.Hoglake
