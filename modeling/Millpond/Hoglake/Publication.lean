import Millpond.Hoglake.Provenance

set_option autoImplicit false

/-! # Publication of a flush

A `write` that returns has published its flush under one key: the ledger has one commit there and
keeps it, whatever arrives later. The commit may be an earlier attempt's that arrived late; the
write then counts no rows of its own. -/

namespace Millpond.Hoglake

open Prog

variable {ρ V : Type} (cfg : SinkConfig) (be : Backend ρ V)

/-- A write of `flush` from `before` to `s` that counted `count` rows sent `payload`, which holds the
    rows of the flush under the key of its identity. One commit has the key from here on, and the count
    says whether it is the payload's own. -/
structure PublishedOnce (flush : Flush ρ V) (offsets : Identity) (count : ℕ) (before s : St ρ)
    (payload : Payload) (commit : Commit) : Prop where
  sent : ∃ events, s.log = events ++ before.log ∧ .sent payload ∈ events
  key : payload.idempotencyKey = .uuid5 (flushName cfg (some payload.expectedTableUuid) offsets)
  covers : payload.Covers s.world.objects flush.batch.rows
  once : ∀ later s', run cfg be s later = some s' →
    s'.world.net.server.ledger.under payload.idempotencyKey = [commit]
  counts : commit.request = payload ∧ count = flush.batch.rows.length ∨
    commit.request ≠ payload ∧ count = 0

variable {cfg be}

/-- A receipt is the only commit of its key in every later state. -/
theorem under_after_run {flushes : Flush ρ V → Prop} {s : St ρ} {key : Key} {c : Commit}
    (hs : Sound cfg flushes s) (hc : s.world.net.server.ledger.lookup key = some c)
    (later : List (Call ρ V)) (s' : St ρ) (h : run cfg be s later = some s') :
    s'.world.net.server.ledger.under key = [c] := by
  have hall : Sound cfg (fun _ : Flush ρ V => True) s := hs.mono fun _ _ => trivial
  have hsteps := (run_keeping (fun _ _ => trivial) hall h).steps
  exact Ledger.under_eq_singleton (hsteps.grows.server.receipts key c hc)

/-- **Exactly once.** After any run of a new sink in which the writes of an identity carry one batch,
    a write of that identity that returns leaves exactly one commit under the key of the payload it
    sent, for good; it returns the rows of the batch when that commit is its payload's, and zero
    when the server answered that the key was another request's. -/
theorem write_publishedOnce {world : World ρ} {calls : List (Call ρ V)} {flush : Flush ρ V}
    {offsets : Identity} {s s' : St ρ} {count : ℕ}
    (hrun : run cfg be (St.new world) calls = some s) (hidentity : flush.identity = some offsets)
    (hbatch : ∀ earlier, .write earlier ∈ calls → earlier.identity = some offsets →
      earlier.batch = flush.batch)
    (hskip : isSkipped flush.batch = false) (hwrite : write cfg be flush s = .ok count s') :
    ∃ payload commit, PublishedOnce cfg be flush offsets count s s' payload commit := by
  have hsound : Sound cfg (fun f : Flush ρ V => .write f ∈ calls ∨ f = flush) s :=
    (run_keeping (fun _ h => Or.inl h) (sound_new world) hrun).sound
  have hreturns := (wp_of_ok hwrite).1 (write_spec be flush (Or.inr rfl) hsound)
  have hsound' := (hreturns.keeping hsound).sound
  cases hreturns with
  | skipped skip => exact absurd (hskip.symm.trans skip) (by simp)
  | answered s₁ flush' payload steps known same holds returned sent =>
      have hsame : flush'.identity = some offsets ∧ flush'.batch = flush.batch := by
        rcases same with rfl | ⟨-, hid⟩
        · exact ⟨hidentity, rfl⟩
        · rcases known with hmem | rfl
          · exact ⟨hid.trans hidentity, hbatch flush' hmem (hid.trans hidentity)⟩
          · exact ⟨hidentity, rfl⟩
      obtain ⟨c, hc, hcounts⟩ := returned.receipt
      refine ⟨payload, c, ?_, holds.key offsets hsame.1, ?_, under_after_run hsound' hc, ?_⟩
      · obtain ⟨late, hlate⟩ := sent
        obtain ⟨early, hearly⟩ := steps.log_suffix
        refine ⟨late ++ .sent payload :: early, ?_, by simp⟩
        rw [← hlate, ← hearly, List.append_assoc, List.cons_append]
      · exact hsame.2 ▸ holds.covers.grow returned.steps.grows.objects
      · have hrows : s₁.sink.preparedRows = flush'.batch.rows.length :=
          congrArg (fun held => held.2.1) holds.held
        rwa [hrows, hsame.2] at hcounts

/-! ## A late first attempt -/

/-- A sink without partitioning, in front of a catalog without retention. -/
def demoCfg : SinkConfig where
  catalog := "lake"
  namespace_ := "events"
  table := "clicks"
  author := "millpond"
  partitionBy := []
  sortBy := []
  retention := none
  retention_pos := fun _ h => absurd h (by simp)

/-- Rows and values are numbers, and every cast succeeds. -/
def demoBackend : Backend ℕ ℕ where
  cast := fun _ _ v => some v
  transform := fun _ _ _ v => v.map toString
  uuidText := id
  uuidBytes := some
  timestamp := fun _ => 0
  nbytes := fun _ => 0

def demoColumns : List Column := [⟨"v", 1, .long⟩, ⟨insertedAt, 2, .timestamptz⟩]

/-- A catalog with one table. -/
def demoServer (shape : Shape) : Server where
  snapshot := 0
  namespaceExists := true
  table := some ⟨0, shape, 0⟩
  nextUuid := 1
  nextFieldId := 10
  ledger := .empty
  expiryFloor := 0
  uuid_lt := by simp
  altered_le := by simp
  keyed := by simp [Ledger.empty]

/-- A call that is answered, with these moves before it. -/
def demoTurn (moves : List Move) (fate : Fate) : Turn where
  moves := moves
  fate := fate
  retryAfter := none
  localWork := 0
  localWork_nonneg := le_refl 0
  uploads := .all
  dropsCache := true

/-- These turns, then turns without incident. -/
def demoWorld (shape : Shape) (turns : List Turn) : World ℕ where
  net := ⟨demoServer shape, [], 0⟩
  objects := []
  torn := []
  nextUri := 0
  nextUuid4 := 0
  handle := ⟨⟨0, 0, ⟨[], [], []⟩⟩, none⟩
  turns := fun n => turns[n]?.getD (demoTurn [] .answered)
  turn := 0

theorem demoWorld_valid (shape : Shape) (turns : List Turn) : (demoWorld shape turns).Valid := by
  refine ⟨⟨fun request hr n hn => ?_, fun o ho => absurd ho (by simp [demoWorld])⟩,
    fun read t hc => absurd hc (by simp [demoWorld])⟩
  rcases hr with ⟨key, c, hc, -⟩ | hflight
  · exact absurd hc (by simp [demoWorld, demoServer, Ledger.lookup, Ledger.empty])
  · exact absurd hflight (by simp [demoWorld])

def demoFlush (rows : List ℕ) (first last : ℕ) : Flush ℕ ℕ where
  batch := ⟨rows, [⟨"v", .of .long, some⟩]⟩
  kafkaOffsets := some [(("clicks", 0), (first, last))]
  trigger := none

/-- A plain conflict. -/
def demoConflict : Refusal where
  error := ⟨.commitConflict, some 409, "commit_conflict", none⟩
  notReusedKey := by decide +kernel
  notMoved := by decide +kernel

def answered : Turn := demoTurn [] .answered

/-- The first attempt's response is lost with the request still on its way, the second attempt is
    refused, and the first request arrives just before the third. -/
def lateFirstSend : World ℕ :=
  demoWorld ⟨demoColumns, [], []⟩ [answered, answered, answered, answered,
    demoTurn [] (.lost .later), demoTurn [] (.refused demoConflict.error), answered, answered,
    demoTurn [.deliver 0] .answered]

/-- The uploads of a log. -/
def uploadsOf (log : List Event) : List (TableInfo × List Uri) :=
  log.filterMap fun
    | .uploaded info uris => some (info, uris)
    | _ => none

/-- The requests of a log, each with the shape its partition values were computed under. -/
def preparedOf (log : List Event) : List (Payload × TableInfo) :=
  log.filterMap fun
    | .prepared payload info => some (payload, info)
    | _ => none

theorem mem_uploadsOf {log : List Event} {info : TableInfo} {uris : List Uri} :
    (info, uris) ∈ uploadsOf log ↔ .uploaded info uris ∈ log := by
  unfold uploadsOf
  rw [List.mem_filterMap]
  constructor
  · rintro ⟨e, he, heq⟩
    cases e <;> simp at heq
    obtain ⟨rfl, rfl⟩ := heq
    exact he
  · exact fun h => ⟨_, h, rfl⟩

theorem mem_preparedOf {log : List Event} {payload : Payload} {info : TableInfo} :
    (payload, info) ∈ preparedOf log ↔ .prepared payload info ∈ log := by
  unfold preparedOf
  rw [List.mem_filterMap]
  constructor
  · rintro ⟨e, he, heq⟩
    cases e <;> simp at heq
    obtain ⟨rfl, rfl⟩ := heq
    exact he
  · exact fun h => ⟨_, h, rfl⟩

/-- The count a write returns, if it returns. -/
def returned {ρ V : Type} (cfg : SinkConfig) (be : Backend ρ V) (flush : Flush ρ V) (s : St ρ) :
    Option ℕ :=
  match write cfg be flush s with
  | .ok count _ => some count
  | .error _ _ => none

/-- The third attempt of a flush of two rows returns zero. -/
theorem lateFirstSend_counts_zero :
    (run demoCfg demoBackend (St.new lateFirstSend)
      [.write (demoFlush [7, 8] 0 1), .write (demoFlush [7, 8] 0 1)]).bind
        (returned demoCfg demoBackend (demoFlush [7, 8] 0 1)) = some 0 ∧
      isSkipped (demoFlush [7, 8] 0 1).batch = false ∧ (demoFlush [7, 8] 0 1).batch.rows.length = 2 := by
  decide +kernel

/-- The third attempt, by the theorem. -/
theorem lateFirstSend_publishedOnce : ∃ count before s payload commit,
    PublishedOnce demoCfg demoBackend (demoFlush [7, 8] 0 1) [(("clicks", 0), (0, 1))] count before s
      payload commit := by
  have hreturns : ((run demoCfg demoBackend (St.new lateFirstSend)
      [.write (demoFlush [7, 8] 0 1), .write (demoFlush [7, 8] 0 1)]).bind
        (returned demoCfg demoBackend (demoFlush [7, 8] 0 1))).isSome = true := by
    decide +kernel
  obtain ⟨count, hcount⟩ := Option.isSome_iff_exists.1 hreturns
  obtain ⟨s, hrun, hwrite⟩ := Option.bind_eq_some_iff.1 hcount
  unfold returned at hwrite
  cases hw : write demoCfg demoBackend (demoFlush [7, 8] 0 1) s with
  | error r s' => simp [hw] at hwrite
  | ok n s' =>
      refine ⟨n, s, s', write_publishedOnce hrun rfl ?_ (by decide +kernel) hw⟩
      intro earlier hmem _
      simp only [List.mem_cons, Call.write.injEq, List.not_mem_nil, or_false, or_self] at hmem
      rw [hmem]

end Millpond.Hoglake
