import Millpond.Hoglake.Server

set_option autoImplicit false

/-! # The conflict window

What stays true of a read and of a request while the server moves on: a shape that was read is the
live one until an alter or a recreation, a request refused for good is never accepted, and the
receipt written first under a key stays. Every server transition is an `Evolves`, and the rest of
the development uses nothing else of them. -/

namespace Millpond.Hoglake

namespace Server

/-! ## What a read is worth later -/

/-- `info` was read earlier: it is still the live shape of its incarnation unless that was altered
    after the read. -/
structure Honest (s : Server) (info : TableInfo) : Prop where
  uuid : info.uuid < s.nextUuid
  snapshot : info.snapshot ≤ s.snapshot
  shape : ∀ t, s.table = some t → t.uuid = info.uuid → t.alteredAt ≤ info.snapshot →
    t.shape = info.shape

/-- The server will never accept this request: its basis expired, or its incarnation is gone or was
    altered after the read. -/
structure Doomed (s : Server) (payload : Payload) : Prop where
  uuid : payload.expectedTableUuid < s.nextUuid
  snapshot : payload.readSnapshot ≤ s.snapshot
  refused : payload.readSnapshot < s.expiryFloor ∨
    ∀ t, s.table = some t → t.uuid = payload.expectedTableUuid → payload.readSnapshot < t.alteredAt

/-- As far as `s` can tell, `commit` may be applied from here on. -/
structure Accepts (s : Server) (commit : Commit) : Prop where
  fresh : s.ledger.lookup commit.request.idempotencyKey = none
  notDoomed : ¬ s.Doomed commit.request
  shape : ∀ info, s.Honest info → info.uuid = commit.request.expectedTableUuid →
    info.snapshot = commit.request.readSnapshot → commit.shape = info.shape
  fits : commit.request.files.all (Server.fits commit.shape.partitionSpec) = true

/-- What every transition of the server keeps. -/
structure Evolves (s s' : Server) : Prop where
  snapshot : s.snapshot ≤ s'.snapshot
  nextUuid : s.nextUuid ≤ s'.nextUuid
  expiryFloor : s.expiryFloor ≤ s'.expiryFloor
  table : ∀ t, s'.table = some t →
    s.table = some t ∨ s.nextUuid ≤ t.uuid ∨ s.snapshot < t.alteredAt
  receipts : ∀ key commit, s.ledger.lookup key = some commit → s'.ledger.lookup key = some commit
  applied : ∀ key commit, s'.ledger.lookup key = some commit →
    s.ledger.lookup key = some commit ∨ s.Accepts commit

variable {s s' s'' : Server}

theorem Evolves.refl (s : Server) : s.Evolves s :=
  ⟨Nat.le_refl _, Nat.le_refl _, Nat.le_refl _, fun _ h => Or.inl h, fun _ _ h => h,
    fun _ _ h => Or.inl h⟩

theorem Honest.evolves {info : TableInfo} (h : s.Honest info) (he : s.Evolves s') :
    s'.Honest info := by
  refine ⟨Nat.lt_of_lt_of_le h.uuid he.nextUuid, h.snapshot.trans he.snapshot, ?_⟩
  intro t ht huuid hle
  rcases he.table t ht with hold | hnew | haltered
  · exact h.shape t hold huuid hle
  · exact absurd h.uuid (Nat.not_lt.2 (huuid ▸ hnew))
  · exact absurd h.snapshot (by omega)

theorem Doomed.evolves {payload : Payload} (h : s.Doomed payload) (he : s.Evolves s') :
    s'.Doomed payload := by
  refine ⟨Nat.lt_of_lt_of_le h.uuid he.nextUuid, h.snapshot.trans he.snapshot, ?_⟩
  rcases h.refused with hexp | htable
  · exact Or.inl (Nat.lt_of_lt_of_le hexp he.expiryFloor)
  · refine Or.inr (fun t ht huuid => ?_)
    rcases he.table t ht with hold | hnew | haltered
    · exact htable t hold huuid
    · exact absurd h.uuid (Nat.not_lt.2 (huuid ▸ hnew))
    · exact Nat.lt_of_le_of_lt h.snapshot haltered

/-- A commit that may come later may come from an earlier state's point of view. -/
theorem Accepts.earlier {commit : Commit} (h : s'.Accepts commit) (he : s.Evolves s') :
    s.Accepts commit := by
  refine ⟨?_, fun hd => h.notDoomed (hd.evolves he), fun info hi => h.shape info (hi.evolves he),
    h.fits⟩
  cases hold : s.ledger.lookup commit.request.idempotencyKey with
  | none => rfl
  | some c => exact absurd (he.receipts _ c hold) (by simp [h.fresh])

theorem Evolves.trans (h : s.Evolves s') (h' : s'.Evolves s'') : s.Evolves s'' := by
  refine ⟨h.snapshot.trans h'.snapshot, h.nextUuid.trans h'.nextUuid,
    h.expiryFloor.trans h'.expiryFloor, ?_, fun key c hc => h'.receipts key c (h.receipts key c hc),
    ?_⟩
  · intro t ht
    rcases h'.table t ht with hold | hnew | haltered
    · exact h.table t hold
    · exact Or.inr (Or.inl (h.nextUuid.trans hnew))
    · exact Or.inr (Or.inr (Nat.lt_of_le_of_lt h.snapshot haltered))
  · intro key c hc
    rcases h'.applied key c hc with hold | hacc
    · exact h.applied key c hold
    · exact Or.inr (hacc.earlier h)

/-! ## Every transition evolves -/

/-- A transition that leaves the ledger alone. -/
theorem Evolves.of_ledger_eq (hsnap : s.snapshot ≤ s'.snapshot) (hnext : s.nextUuid ≤ s'.nextUuid)
    (hfloor : s.expiryFloor ≤ s'.expiryFloor)
    (htable : ∀ t, s'.table = some t →
      s.table = some t ∨ s.nextUuid ≤ t.uuid ∨ s.snapshot < t.alteredAt)
    (hledger : s'.ledger = s.ledger) : s.Evolves s' :=
  ⟨hsnap, hnext, hfloor, htable, fun _ _ h => by rw [hledger]; exact h,
    fun _ _ h => Or.inl (by rw [hledger] at h; exact h)⟩

theorem evolves_bump (s : Server) : s.Evolves s.bump :=
  .of_ledger_eq (Nat.le_succ _) (Nat.le_refl _) (Nat.le_refl _) (fun _ h => Or.inl h) rfl

theorem evolves_createNamespace (s : Server) : s.Evolves s.createNamespace :=
  .of_ledger_eq (Nat.le_refl _) (Nat.le_refl _) (Nat.le_refl _) (fun _ h => Or.inl h) rfl

theorem evolves_expire (floor : ℕ) (s : Server) : s.Evolves (s.expire floor) :=
  .of_ledger_eq (Nat.le_refl _) (Nat.le_refl _) (Nat.le_max_left _ _) (fun _ h => Or.inl h) rfl

theorem evolves_dropTable (s : Server) : s.Evolves s.dropTable :=
  .of_ledger_eq (Nat.le_succ _) (Nat.le_refl _) (Nat.le_refl _)
    (fun _ h => absurd h (by simp [dropTable])) rfl

theorem evolves_createTable (shape : Shape) (s : Server) : s.Evolves (s.createTable shape) := by
  refine .of_ledger_eq (Nat.le_succ _) (Nat.le_succ _) (Nat.le_refl _) ?_ rfl
  intro t ht
  obtain rfl : (⟨s.nextUuid, shape, s.snapshot + 1⟩ : LiveTable) = t := by
    simpa [createTable] using ht
  exact Or.inr (Or.inl (Nat.le_refl _))

theorem alterTo_none {shape : Shape} (h : s.table = none) : s.alterTo shape = s := by
  unfold alterTo
  split
  · rfl
  · next h' => exact absurd h' (by simp [h])

theorem alterTo_some (shape : Shape) {t : LiveTable} (h : s.table = some t) :
    (s.alterTo shape).snapshot = s.snapshot + 1 ∧ (s.alterTo shape).nextUuid = s.nextUuid ∧
      (s.alterTo shape).expiryFloor = s.expiryFloor ∧ (s.alterTo shape).ledger = s.ledger ∧
      (s.alterTo shape).table = some ⟨t.uuid, shape, s.snapshot + 1⟩ := by
  unfold alterTo
  split
  · next h' => exact absurd h' (by simp [h])
  · next t' h' =>
      obtain rfl : t = t' := by simpa [h] using h'
      exact ⟨rfl, rfl, rfl, rfl, rfl⟩

theorem evolves_alterTo (shape : Shape) (s : Server) : s.Evolves (s.alterTo shape) := by
  cases h : s.table with
  | none =>
      rw [alterTo_none h]
      exact .refl s
  | some t =>
      obtain ⟨hsnap, hnext, hfloor, hledger, htable⟩ := alterTo_some shape h
      refine .of_ledger_eq (by omega) (le_of_eq hnext.symm) (by omega) ?_ hledger
      intro t' ht'
      rw [htable] at ht'
      obtain rfl : _ = t' := by simpa using ht'
      exact Or.inr (Or.inr (Nat.lt_succ_self _))

/-- What a client's alter does: the shape changes, at a new snapshot, and nothing else. -/
theorem alter_spec {ops : List AlterOp} (h : s.alter ops = some s') :
    s.Evolves s' ∧ ∃ t shape, s.table = some t ∧ t.shape.applyOps s.nextFieldId ops = some shape ∧
      s'.table = some ⟨t.uuid, shape, s'.snapshot⟩ := by
  unfold alter at h
  cases htable : s.table with
  | none => simp [htable] at h
  | some t =>
      simp only [htable, Option.map_eq_some_iff] at h
      obtain ⟨shape, hshape, rfl⟩ := h
      obtain ⟨hsnap, hnext, hfloor, hledger, htab⟩ := alterTo_some shape htable
      refine ⟨?_, t, shape, rfl, hshape, by simp only [htab, hsnap]⟩
      have he := evolves_alterTo shape s
      exact ⟨he.snapshot, he.nextUuid, he.expiryFloor, he.table, he.receipts, he.applied⟩

/-- A request that passes the conflict checks is not doomed, and finds the shape it was read at. -/
theorem accepts_of_judge {payload : Payload} {t : LiveTable} (htable : s.table = some t)
    (hjudge : s.judge payload = none) (hfresh : s.ledger.lookup payload.idempotencyKey = none) :
    s.Accepts ⟨payload, t.shape⟩ := by
  unfold judge at hjudge
  rw [htable] at hjudge
  simp only at hjudge
  split at hjudge
  · exact absurd hjudge (by simp)
  · next huuid =>
      split at hjudge
      · exact absurd hjudge (by simp)
      · next hfloor =>
          split at hjudge
          · exact absurd hjudge (by simp)
          · next haltered =>
              split at hjudge
              · next hfits =>
                  have huuid' : t.uuid = payload.expectedTableUuid := by simpa using huuid
                  refine ⟨hfresh, ?_, ?_, hfits⟩
                  · intro hd
                    rcases hd.refused with hexp | hddl
                    · exact hfloor hexp
                    · exact haltered (hddl t htable huuid')
                  · intro info hi hiu his
                    refine hi.shape t htable (huuid'.trans hiu.symm) ?_
                    rw [his]
                    exact Nat.not_lt.1 haltered
              · exact absurd hjudge (by simp)

theorem apply_eq (payload : Payload) {t : LiveTable} (htable : s.table = some t) :
    (s.apply payload).snapshot = s.snapshot + 1 ∧ (s.apply payload).nextUuid = s.nextUuid ∧
      (s.apply payload).expiryFloor = s.expiryFloor ∧ (s.apply payload).table = s.table ∧
      (s.apply payload).ledger = s.ledger.record payload.idempotencyKey ⟨payload, t.shape⟩ := by
  unfold apply
  split
  · next h' => exact absurd h' (by simp [htable])
  · next t' h' =>
      obtain rfl : t = t' := by simpa [htable] using h'
      exact ⟨rfl, rfl, rfl, rfl, rfl⟩

/-- How a commit ends. -/
inductive CommitEnds (s : Server) (payload : Payload) : Option HoglakeError → Server → Prop where
  /-- There is a receipt for this very request. -/
  | replayed (commit : Commit) (receipt : s.ledger.lookup payload.idempotencyKey = some commit)
      (same : commit.request = payload) : CommitEnds s payload none s
  /-- The key has the receipt of another request. -/
  | reused (commit : Commit) (receipt : s.ledger.lookup payload.idempotencyKey = some commit)
      (other : commit.request ≠ payload) : CommitEnds s payload (some reusedKeyError) s
  /-- Refused for a reason of the server's own. -/
  | refused (refusal : Refusal) (fresh : s.ledger.lookup payload.idempotencyKey = none) :
      CommitEnds s payload (some refusal.error) s
  /-- Refused by the conflict checks. -/
  | judged (e : HoglakeError) (fresh : s.ledger.lookup payload.idempotencyKey = none)
      (verdict : s.judge payload = some e) : CommitEnds s payload (some e) s
  | applied (t : LiveTable) (table : s.table = some t)
      (accepts : s.Accepts ⟨payload, t.shape⟩) : CommitEnds s payload none (s.apply payload)

theorem commit_ends (refusal : Option Refusal) (payload : Payload) (s : Server) :
    CommitEnds s payload (s.commit refusal payload).1 (s.commit refusal payload).2 := by
  unfold commit
  cases hreceipt : s.ledger.lookup payload.idempotencyKey with
  | some receipt =>
      by_cases h : receipt.request = payload
      · simp only [h, if_true]
        exact .replayed receipt hreceipt h
      · simp only [h, if_false]
        exact .reused receipt hreceipt h
  | none =>
      cases refusal with
      | some r => exact .refused r hreceipt
      | none =>
          simp only
          cases hjudge : s.judge payload with
          | some e => exact .judged e hreceipt hjudge
          | none =>
              cases htable : s.table with
              | none => simp [judge, htable] at hjudge
              | some t => exact .applied t htable (accepts_of_judge htable hjudge hreceipt)

theorem evolves_apply {payload : Payload} {t : LiveTable} (htable : s.table = some t)
    (hacc : s.Accepts ⟨payload, t.shape⟩) : s.Evolves (s.apply payload) := by
  obtain ⟨hsnap, hnext, hfloor, htab, hledger⟩ := apply_eq payload htable
  refine ⟨by omega, le_of_eq hnext.symm, by omega, fun t' ht' => Or.inl (by rwa [htab] at ht'),
    ?_, ?_⟩
  · intro key c hc
    rw [hledger]
    exact Ledger.lookup_record hc
  · intro key c hc
    rw [hledger, Ledger.lookup_eq_some, Ledger.mem_record hacc.fresh] at hc
    rcases hc with hold | hnew
    · exact Or.inl (Ledger.lookup_eq_some.2 hold)
    · obtain rfl : c = ⟨payload, t.shape⟩ := by
        simp only [Prod.mk.injEq] at hnew
        exact hnew.2
      exact Or.inr hacc

theorem CommitEnds.evolves {payload : Payload} {answer : Option HoglakeError}
    (h : CommitEnds s payload answer s') : s.Evolves s' := by
  cases h with
  | replayed => exact .refl s
  | reused => exact .refl s
  | refused => exact .refl s
  | judged => exact .refl s
  | applied t htable hacc => exact evolves_apply htable hacc

theorem evolves_commit (refusal : Option Refusal) (payload : Payload) (s : Server) :
    s.Evolves (s.commit refusal payload).2 :=
  (commit_ends refusal payload s).evolves

/-- A commit adds at most the receipt of its own request. -/
theorem CommitEnds.request {payload : Payload} {answer : Option HoglakeError}
    (h : CommitEnds s payload answer s') {key : Key} {c : Commit}
    (hc : s'.ledger.lookup key = some c) :
    s.ledger.lookup key = some c ∨ c.request = payload := by
  cases h with
  | replayed => exact Or.inl hc
  | reused => exact Or.inl hc
  | refused => exact Or.inl hc
  | judged => exact Or.inl hc
  | applied t htable hacc =>
      rw [(apply_eq _ htable).2.2.2.2, Ledger.lookup_eq_some, Ledger.mem_record hacc.fresh] at hc
      rcases hc with hold | hnew
      · exact Or.inl (Ledger.lookup_eq_some.2 hold)
      · simp only [Prod.mk.injEq] at hnew
        exact Or.inr (by rw [hnew.2])

/-- A success means the request stands under its key. -/
theorem CommitEnds.stands {payload : Payload} (h : CommitEnds s payload none s') :
    ∃ c, s'.ledger.lookup payload.idempotencyKey = some c ∧ c.request = payload := by
  cases h with
  | replayed c hc hsame => exact ⟨c, hc, hsame⟩
  | applied t htable hacc =>
      refine ⟨⟨payload, t.shape⟩, ?_, rfl⟩
      rw [(apply_eq _ htable).2.2.2.2]
      exact Ledger.lookup_record_self hacc.fresh

/-- A read of the live table is honest. -/
theorem honest_of_table {t : LiveTable} (h : s.table = some t) {snapshot : ℕ}
    (hle : snapshot ≤ s.snapshot) : s.Honest ⟨t.uuid, snapshot, t.shape⟩ := by
  refine ⟨s.uuid_lt t h, hle, fun t' ht' _ _ => ?_⟩
  obtain rfl : t = t' := by simpa [h] using ht'
  rfl

theorem honest_read {info : TableInfo} (h : s.read = some info) : s.Honest info := by
  obtain ⟨t, ht, rfl⟩ := Option.map_eq_some_iff.1 h
  exact honest_of_table ht (Nat.le_refl _)

/-- The typed refusals of the conflict checks are for good. -/
theorem doomed_of_judge {payload : Payload} {e : HoglakeError} (h : s.judge payload = some e)
    (hmoved : e.isDestinationMoved = true) (huuid : payload.expectedTableUuid < s.nextUuid)
    (hsnap : payload.readSnapshot ≤ s.snapshot) : s.Doomed payload := by
  unfold judge at h
  cases htable : s.table with
  | none =>
      obtain rfl : notFoundError = e := by simpa [htable] using h
      exact absurd hmoved (by decide)
  | some t =>
      simp only [htable] at h
      refine ⟨huuid, hsnap, ?_⟩
      split at h
      · next hother =>
          refine Or.inr (fun t' ht' hu => ?_)
          obtain rfl : t = t' := by simpa [htable] using ht'
          exact absurd hu hother
      · split at h
        · next hexp => exact Or.inl hexp
        · split at h
          · next hddl =>
              refine Or.inr (fun t' ht' _ => ?_)
              obtain rfl : t = t' := by simpa [htable] using ht'
              exact hddl
          · split at h
            · exact absurd h (by simp)
            · obtain rfl : validationError = e := by simpa using h
              exact absurd hmoved (by decide)

theorem not_reusedKey_of_judge {payload : Payload} {e : HoglakeError}
    (h : s.judge payload = some e) : e.isReusedKey = false := by
  have hcases : e = notFoundError ∨ e = incarnationChangedError ∨ e = readSnapshotExpiredError ∨
      e = ddlSinceReadSnapshotError ∨ e = validationError := by
    unfold judge at h
    cases htable : s.table with
    | none => simp_all
    | some t =>
        simp only [htable] at h
        split at h
        · simp_all
        · split at h
          · simp_all
          · split at h
            · simp_all
            · split at h
              · simp_all
              · simp_all
  rcases hcases with rfl | rfl | rfl | rfl | rfl <;> decide +kernel

end Server

/-! ## The network -/

namespace Net

/-- What the moves of others keep. New receipts are for requests on their way or for objects of
    other writers. -/
structure Evolves (net net' : Net) : Prop where
  server : net.server.Evolves net'.server
  inFlight : net'.inFlight ⊆ net.inFlight
  now : net.now ≤ net'.now
  requests : ∀ key c, net'.server.ledger.lookup key = some c →
    net.server.ledger.lookup key = some c ∨ c.request ∈ net.inFlight ∨
      ∀ uri ∈ c.request.uris, ∃ n, uri = .other n

variable {net net' net'' : Net}

theorem Evolves.refl (net : Net) : net.Evolves net :=
  ⟨.refl _, List.Subset.refl _, le_refl _, fun _ _ h => Or.inl h⟩

theorem Evolves.trans (h : net.Evolves net') (h' : net'.Evolves net'') : net.Evolves net'' := by
  refine ⟨h.server.trans h'.server, List.Subset.trans h'.inFlight h.inFlight,
    le_trans h.now h'.now, ?_⟩
  intro key c hc
  rcases h'.requests key c hc with hold | hflight | hforeign
  · exact h.requests key c hold
  · exact Or.inr (Or.inl (h.inFlight hflight))
  · exact Or.inr (Or.inr hforeign)

/-- A transition of the server alone that leaves the ledger alone. -/
theorem Evolves.of_server {f : Server → Server} (h : net.server.Evolves (f net.server))
    (hledger : (f net.server).ledger = net.server.ledger) : net.Evolves (net.onServer f) :=
  ⟨h, List.Subset.refl _, le_refl _, fun _ _ hc => Or.inl (by rw [← hledger]; exact hc)⟩

theorem evolves_move (net : Net) (move : Move) : net.Evolves (net.move move) := by
  cases move with
  | elapse d nonneg =>
      exact ⟨.refl _, List.Subset.refl _, le_add_of_nonneg_right nonneg, fun _ _ h => Or.inl h⟩
  | createNamespace => exact .of_server (Server.evolves_createNamespace _) rfl
  | createTable shape =>
      show net.Evolves (if net.server.table.isNone then net.onServer (Server.createTable shape) else net)
      split
      · exact .of_server (Server.evolves_createTable shape _) rfl
      · exact .refl net
  | dropTable => exact .of_server (Server.evolves_dropTable _) rfl
  | alterTable shape =>
      refine .of_server (Server.evolves_alterTo shape _) ?_
      cases h : net.server.table with
      | none => rw [Server.alterTo_none h]
      | some t => exact (Server.alterTo_some _ h).2.2.2.1
  | commit payload foreign =>
      refine ⟨Server.evolves_commit none payload _, List.Subset.refl _, le_refl _, ?_⟩
      intro key c hc
      rcases (Server.commit_ends none payload net.server).request hc with hold | hreq
      · exact Or.inl hold
      · exact Or.inr (Or.inr (by rw [hreq]; exact foreign))
  | bump => exact .of_server (Server.evolves_bump _) rfl
  | expire floor => exact .of_server (Server.evolves_expire floor _) rfl
  | deliver i =>
      cases h : net.inFlight[i]? with
      | none =>
          have hmove : net.move (.deliver i) = net := by simp only [Net.move, h]
          rw [hmove]
          exact .refl net
      | some payload =>
          have hmove : net.move (.deliver i) = { net with
              server := (net.server.commit none payload).2
              inFlight := net.inFlight.eraseIdx i } := by
            simp only [Net.move, h]
          rw [hmove]
          refine ⟨Server.evolves_commit none payload _, List.eraseIdx_subset, le_refl _, ?_⟩
          intro key c hc
          rcases (Server.commit_ends none payload net.server).request hc with hold | hreq
          · exact Or.inl hold
          · exact Or.inr (Or.inl (by rw [hreq]; exact List.mem_of_getElem? h))
  | lose i => exact ⟨.refl _, List.eraseIdx_subset, le_refl _, fun _ _ h => Or.inl h⟩

theorem evolves_moves (moves : List Move) : ∀ net : Net, net.Evolves (net.moves moves) := by
  induction moves with
  | nil => exact fun net => .refl net
  | cons move rest ih => exact fun net => (evolves_move net move).trans (ih (net.move move))

end Net

end Millpond.Hoglake
