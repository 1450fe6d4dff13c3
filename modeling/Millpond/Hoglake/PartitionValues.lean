import Millpond.Hoglake.Publication

set_option autoImplicit false

/-! # Partition values

The shape the sink computes tuples under is the one the client's cache holds, read at the same time,
or it has no partition spec. With the local work shorter than a quarter of the retention the client
never reads past it, so the conflict window of a request covers the spec of its values. -/

namespace Millpond.Hoglake

open Prog

variable {ρ V : Type} {cfg : SinkConfig} {be : Backend ρ V}

/-- The sink's shape is in the client's cache, seeded when the sink read it. -/
def Paired (s : St ρ) (info : TableInfo) : Prop :=
  ∃ t, s.sink.liveInfoReadAt = some t ∧ s.world.handle.cache = some (info, t)

variable (cfg) in
/-- The work between the two freshness checks takes less than a quarter of the retention. -/
def Punctual (turns : ℕ → Turn) : Prop :=
  ∀ n r, cfg.retention = some r → (turns n).localWork < r / 4

/-- The tuples of a request were computed under the spec of the read it carries. -/
def Stamped (server : Server) (payload : Payload) (info : TableInfo) : Prop :=
  ∃ read, server.Honest read ∧ payload.expectedTableUuid = read.uuid ∧
    payload.readSnapshot = read.snapshot ∧ info.shape.partitionSpec = read.shape.partitionSpec

variable (cfg) in
/-- The two caches agree, and the requests built so far are stamped. -/
structure InStep (s : St ρ) : Prop where
  punctual : Punctual cfg s.world.turns
  adopted : s.sink.table = true → ∀ info, s.sink.liveInfo = some info →
    Paired s info ∨ cfg.partitionBy = [] ∨ info.shape.partitionSpec = []
  reconciled : s.sink.reconciledSpecs ≠ none → ∀ info, s.sink.liveInfo = some info →
    Paired s info ∨ info.shape.partitionSpec = []
  stamped : ∀ payload info, .prepared payload info ∈ s.log →
    Stamped s.world.net.server payload info
  applied : ∀ payload info, .prepared payload info ∈ s.log → ∀ key c,
    s.world.net.server.ledger.lookup key = some c → c.request = payload →
      c.shape.partitionSpec = info.shape.partitionSpec

theorem Stamped.evolves {server server' : Server} {payload : Payload} {info : TableInfo}
    (h : Stamped server payload info) (he : server.Evolves server') :
    Stamped server' payload info := by
  obtain ⟨read, hhonest, hrest⟩ := h
  exact ⟨read, hhonest.evolves he, hrest⟩

/-- A commit that is accepted finds the spec its values were computed under. -/
theorem Stamped.of_accepts {server : Server} {c : Commit} {info : TableInfo}
    (h : Stamped server c.request info) (haccepts : server.Accepts c) :
    c.shape.partitionSpec = info.shape.partitionSpec := by
  obtain ⟨read, hhonest, huuid, hsnapshot, hspec⟩ := h
  rw [haccepts.shape read hhonest huuid.symm hsnapshot.symm, hspec]

/-- Requests and commits while the server moves on. -/
theorem InStep.commits {s : St ρ} (h : InStep cfg s) {server : Server}
    (he : s.world.net.server.Evolves server) :
    (∀ payload info, .prepared payload info ∈ s.log → Stamped server payload info) ∧
      ∀ payload info, .prepared payload info ∈ s.log → ∀ key c, server.ledger.lookup key = some c →
        c.request = payload → c.shape.partitionSpec = info.shape.partitionSpec := by
  refine ⟨fun payload info hi => (h.stamped payload info hi).evolves he,
    fun payload info hi key c hc hsame => ?_⟩
  subst hsame
  rcases he.applied key c hc with hold | haccepts
  · exact h.applied _ info hi key c hold rfl
  · exact (h.stamped _ info hi).of_accepts haccepts

/-- Steps that build no request. -/
theorem InStep.keep {s s' : St ρ} (h : InStep cfg s) (hturns : s'.world.turns = s.world.turns)
    (hserver : s.world.net.server.Evolves s'.world.net.server)
    (hlog : ∀ payload info, .prepared payload info ∈ s'.log → .prepared payload info ∈ s.log)
    (hadopted : s'.sink.table = true → ∀ info, s'.sink.liveInfo = some info →
      Paired s' info ∨ cfg.partitionBy = [] ∨ info.shape.partitionSpec = [])
    (hreconciled : s'.sink.reconciledSpecs ≠ none → ∀ info, s'.sink.liveInfo = some info →
      Paired s' info ∨ info.shape.partitionSpec = []) : InStep cfg s' := by
  obtain ⟨hstamped, happlied⟩ := h.commits hserver
  exact ⟨hturns ▸ h.punctual, hadopted, hreconciled,
    fun payload info hi => hstamped payload info (hlog payload info hi),
    fun payload info hi => happlied payload info (hlog payload info hi)⟩

/-- Letting a payload go, with a note and a report. -/
theorem InStep.letGo {s : St ρ} (h : InStep cfg s) {e : Event} (uris : List Uri)
    (reason : OrphanReason) (he : ∀ payload info, .prepared payload info ≠ e) :
    InStep cfg (((s.note e).report uris reason).clear) := by
  have hworld : ((s.note e).report uris reason).clear.world = s.world := St.report_world (s.note e) _ _
  have hlive : ((s.note e).report uris reason).sink = s.sink := St.report_sink (s.note e) _ _
  refine h.keep (by rw [hworld]) (by rw [hworld]; exact .refl _) (fun payload info hi => ?_) ?_ ?_
  · have hi' : .prepared payload info ∈ (s.note e).log := St.prepared_mem_report.1 hi
    rcases List.mem_cons.1 hi' with heq | hold
    · exact absurd heq (he payload info)
    · exact hold
  · unfold Paired
    rw [hworld]
    unfold St.clear
    simp only [hlive]
    exact h.adopted
  · unfold Paired
    rw [hworld]
    unfold St.clear
    simp only [hlive]
    exact h.reconciled

/-- A comparison that passed with nothing configured found no spec. -/
theorem Agrees.spec_nil {columns : List Column} {info : TableInfo} (h : Agrees cfg columns info)
    (hnil : cfg.partitionBy = []) : info.shape.partitionSpec = [] :=
  (wantPartitionFields_nil_iff h).2 hnil

/-- While the sink's copy is fresh the client does not read past it. -/
theorem Paired.usable {s : St ρ} {info : TableInfo} (h : Paired s info)
    (hpunctual : Punctual cfg s.world.turns) (hfresh : CheckedFresh cfg s) :
    cacheIsUsable cfg.retention s.world = true := by
  obtain ⟨t, hreadAt, hcache⟩ := h
  obtain ⟨t', hreadAt', hage⟩ := hfresh
  obtain rfl : t = t' := by simpa [hreadAt] using hreadAt'
  unfold cacheIsUsable
  rw [hcache]
  cases hr : cfg.retention with
  | none => rfl
  | some r =>
      have hage := hage r hr
      have hwork := hpunctual s.world.turn r hr
      simp only [decide_eq_true_eq]
      linarith

/-- A request is stamped when it is built. -/
theorem UploadReady.stamped {s : St ρ} {start : ℕ} {info read : TableInfo} {payload : Payload}
    {nextUri n : ℕ} (hready : UploadReady s info read) (h : InStep cfg s) (htraced : Traced start s)
    (hbuilt : payload.BuiltFrom nextUri n info read) :
    Stamped s.world.net.server payload info := by
  obtain ⟨t, hcache⟩ := hready.cache
  refine ⟨read, htraced.cache read t hcache, hbuilt.uuid, hbuilt.snapshot, ?_⟩
  have hrec : s.sink.reconciledSpecs ≠ none := by
    rw [hready.working.reconciled]
    exact Option.some_ne_none _
  rcases h.reconciled hrec info hready.working.live with ⟨t', -, hcache'⟩ | hnil
  · have heq : some (read, t) = some (info, t') := hcache.symm.trans hcache'
    simp only [Option.some.injEq, Prod.mk.injEq] at heq
    rw [heq.1]
  · -- no spec in hand: the files carry no values, and they fit the spec of the read
    have hne : payload.files ≠ [] := by
      intro hempty
      have huris : payload.uris = [] := by simp [Payload.uris, hempty]
      have hlen := congrArg List.length (hbuilt.uris.symm.trans huris)
      have hpos := hbuilt.nonempty
      simp only [List.length_map, List.length_range, List.length_nil] at hlen
      omega
    obtain ⟨file, hfile⟩ := List.exists_mem_of_ne_nil _ hne
    have hvalues := (hbuilt.tuples file hfile).2 hnil
    have hfits := hbuilt.fits file hfile
    unfold Server.fits at hfits
    rw [hvalues] at hfits
    rw [hnil, List.isEmpty_iff.1 hfits]

/-- **Every step keeps the caches in step.** -/
theorem Step.inStep {s s' : St ρ} {start : ℕ} (hstep : Step cfg s s') (htraced : Traced start s)
    (h : InStep cfg s) : InStep cfg s' := by
  have hserver := hstep.grows.server
  cases hstep with
  | world w retryAfter evolves =>
      refine h.keep evolves.turns hserver (fun _ _ hi => hi) ?_ ?_
      · intro htable info hinfo
        refine (h.adopted htable info hinfo).imp_left ?_
        rintro ⟨t, hreadAt, hcache⟩
        exact ⟨t, hreadAt, (congrArg Handle.cache evolves.handle).trans hcache⟩
      · intro hrec info hinfo
        refine (h.reconciled hrec info hinfo).imp_left ?_
        rintro ⟨t, hreadAt, hcache⟩
        exact ⟨t, hreadAt, (congrArg Handle.cache evolves.handle).trans hcache⟩
  | resolve info table reconciled honest =>
      refine h.keep rfl hserver (fun _ _ hi => hi) ?_ ?_
      · exact fun htable => absurd (table.symm.trans htable) (by simp)
      · exact fun hrec => absurd reconciled hrec
  | adopt info declared honest =>
      have hpaired : ∀ i, (s.adopt info declared).sink.liveInfo = some i →
          Paired (s.adopt info declared) i := by
        intro i hi
        obtain rfl : info = i := by simpa [St.adopt] using hi
        exact ⟨_, rfl, rfl⟩
      exact h.keep rfl hserver (by simp [St.adopt]) (fun _ i hi => Or.inl (hpaired i hi))
        fun _ i hi => Or.inl (hpaired i hi)
  | record info table live verdict =>
      refine h.keep rfl hserver (by simp [St.record]) h.adopted (fun _ i hi => ?_)
      obtain rfl : info = i := by simpa [live] using (show s.sink.liveInfo = some i from hi)
      cases verdict with
      | compared agrees =>
          rcases h.adopted table info live with hpaired | hby | hnil
          · exact Or.inl hpaired
          · exact Or.inr (agrees.spec_nil hby)
          · exact Or.inr hnil
      | declared current log agrees =>
          obtain ⟨-, t, hreadAt, hcache⟩ := current info live
          exact Or.inl ⟨t, hreadAt, hcache⟩
  | attachCreated table reconciled declared =>
      refine h.keep rfl hserver (fun _ _ hi => hi) (fun _ i hi => ?_)
        (fun hrec => absurd reconciled hrec)
      rcases declared with current | hby
      · obtain ⟨-, t, hreadAt, hcache⟩ := current i hi
        exact Or.inl ⟨t, hreadAt, hcache⟩
      · exact Or.inr (Or.inl hby)
  | attachReconciled info table live current verdict =>
      have hpaired : ∀ i, s.sink.liveInfo = some i → Paired (s.record info).attach i := by
        intro i hi
        obtain ⟨-, t, hreadAt, hcache⟩ := current i hi
        exact ⟨t, hreadAt, hcache⟩
      exact h.keep rfl hserver (by simp [St.record, St.attach]) (fun _ i hi => Or.inl (hpaired i hi))
        fun _ i hi => Or.inl (hpaired i hi)
  | dropShape cache cache_eq =>
      refine h.keep rfl hserver (by simp [St.dropShape]) ?_ ?_
      · exact fun _ i hi => absurd hi (by simp [St.dropShape])
      · exact fun _ i hi => absurd hi (by simp [St.dropShape])
  | reset =>
      refine h.keep rfl hserver (by simp [St.reset]) ?_ ?_
      · exact fun _ i hi => absurd hi (by simp [St.reset])
      · exact fun _ i hi => absurd hi (by simp [St.reset])
  | reread w retryAfter info read working fresh stale evolves honest =>
      -- only a shape without a spec can be read past
      have hnil : info.shape.partitionSpec = [] := by
        have hrec : s.sink.reconciledSpecs ≠ none := by
          rw [working.reconciled]
          exact Option.some_ne_none _
        rcases h.reconciled hrec info working.live with hpaired | hnil
        · exact absurd (hpaired.usable h.punctual fresh) (by simp [stale])
        · exact hnil
      have hlive : ∀ i, ((s.moved w retryAfter).seed read).sink.liveInfo = some i →
          i.shape.partitionSpec = [] := by
        intro i hi
        obtain rfl : info = i := by
          simpa [working.live] using (show s.sink.liveInfo = some i from hi)
        exact hnil
      exact h.keep evolves.turns hserver (fun _ _ hi => hi) (fun _ i hi => Or.inr (Or.inr (hlive i hi)))
        fun _ i hi => Or.inr (hlive i hi)
  | prepare info read payload objects rows offsets ready built objects_eq =>
      have hold : ∀ payload' info',
          .prepared payload' info' ∈ (s.upload info objects.length objects).log →
          .prepared payload' info' ∈ s.log := fun _ _ => St.prepared_mem_upload.1
      refine ⟨h.punctual, h.adopted, h.reconciled, fun payload' info' hi => ?_,
        fun payload' info' hi key c hc hsame => ?_⟩
      · rcases List.mem_cons.1 hi with heq | hmem
        · obtain ⟨rfl, rfl⟩ : payload' = payload ∧ info' = info := by simpa using heq
          exact ready.stamped h htraced built
        · exact h.stamped payload' info' (hold payload' info' hmem)
      · rcases List.mem_cons.1 hi with heq | hmem
        · -- the names of the new request are in no commit yet
          obtain ⟨rfl, rfl⟩ : payload' = payload ∧ info' = info := by simpa using heq
          have hin : .own (s.world.nextUri + 0) ∈ c.request.uris := by
            rw [hsame, built.uris]
            exact List.mem_map.2 ⟨0, List.mem_range.2 built.nonempty, rfl⟩
          exact absurd hin (htraced.fresh (Or.inl ⟨key, c, hc, rfl⟩) 0)
        · exact h.applied payload' info' (hold payload' info' hmem) key c hc hsame
  | uploadFailed info read n objects ready landed =>
      have hlog : ∀ payload' info', .prepared payload' info' ∈
          ((s.upload info n objects).report (objects.map Prod.fst) .prepareFailed).log →
          .prepared payload' info' ∈ s.log :=
        fun _ _ hmem => St.prepared_mem_upload.1 (St.prepared_mem_report.1 hmem)
      refine h.keep (by rw [St.report_world]; rfl) hserver hlog ?_ ?_
      · simp only [St.report_sink, Paired, St.report_world]
        exact h.adopted
      · simp only [St.report_sink, Paired, St.report_world]
        exact h.reconciled
  | send payload => exact h.keep rfl hserver (by simp [St.send]) h.adopted h.reconciled
  | commit => exact h.keep rfl hserver (fun _ _ hi => hi) h.adopted h.reconciled
  | queue => exact h.keep rfl hserver (fun _ _ hi => hi) h.adopted h.reconciled
  | published => exact h.keep rfl hserver (fun _ _ hi => hi) h.adopted h.reconciled
  | alreadyPublished payload => exact h.letGo payload.uris .alreadyPublished (by simp)
  | discard payload reason => exact h.letGo payload.uris reason (by simp)

theorem inStep_new {world : World ρ} (h : Punctual cfg world.turns) : InStep cfg (St.new world) :=
  ⟨h, fun ht => absurd ht (by simp [St.new, Sink.new]),
    fun hr => absurd rfl hr, fun _ _ hi => absurd hi (by simp [St.new]),
    fun _ _ hi => absurd hi (by simp [St.new])⟩

/-- **No mis-stamped partition values.** In every run whose local work stays under a quarter of the
    retention, a commit the server applies finds the table under the spec the partition values of
    its files were computed under. -/
theorem applied_under_spec {world : World ρ} {calls : List (Call ρ V)} {s : St ρ}
    (hworld : world.Valid) (hpunctual : Punctual cfg world.turns)
    (hrun : run cfg be (St.new world) calls = some s) {payload : Payload} {info : TableInfo}
    (hprepared : .prepared payload info ∈ s.log) {key : Key} {c : Commit}
    (happlied : s.world.net.server.ledger.lookup key = some c) (hrequest : c.request = payload) :
    c.shape.partitionSpec = info.shape.partitionSpec := by
  have hsteps := run_steps hrun
  have hinv : Traced world.nextUri s ∧ InStep cfg s := by
    have hstep : ∀ s s' : St ρ, Step cfg s s' → Traced world.nextUri s ∧ InStep cfg s →
        Traced world.nextUri s' ∧ InStep cfg s' :=
      fun _ _ hstep h => ⟨hstep.traced h.1, hstep.inStep h.1 h.2⟩
    exact hsteps.invariant hstep ⟨traced_new hworld, inStep_new hpunctual⟩
  exact hinv.2.applied payload info hprepared key c happlied hrequest

/-- A catalog whose snapshots expire, and a table partitioned by `v`. -/
def expiringCfg : SinkConfig where
  catalog := "lake"
  namespace_ := "events"
  table := "clicks"
  author := "millpond"
  partitionBy := [("v", "identity", none)]
  sortBy := []
  retention := some 4
  retention_pos := fun r hr => by
    obtain rfl : (4 : ℚ) = r := by simpa using hr
    exact four_pos

def partitionedByV : Shape := ⟨demoColumns, [⟨1, "identity", none⟩], []⟩

theorem expiring_applied_under_spec : ∃ s payload info c, .prepared payload info ∈ (s : St ℕ).log ∧
    (s.world.net.server.ledger.lookup payload.idempotencyKey = some c ∧ c.request = payload) ∧
    info.shape.partitionSpec ≠ [] ∧ c.shape.partitionSpec = info.shape.partitionSpec := by
  have hrun : ((run expiringCfg demoBackend (St.new (demoWorld partitionedByV []))
      [.write (demoFlush [7, 8] 0 1)]).bind fun s => (preparedOf s.log).head?.bind fun p =>
        (s.world.net.server.ledger.lookup p.1.idempotencyKey).map fun c =>
          decide (c.request = p.1 ∧ p.2.shape.partitionSpec ≠ [])) = some true := by
    decide +kernel
  obtain ⟨s, hs, hlog⟩ := Option.bind_eq_some_iff.1 hrun
  obtain ⟨⟨payload, info⟩, hhead, hledger⟩ := Option.bind_eq_some_iff.1 hlog
  obtain ⟨c, hc, hdec⟩ := Option.map_eq_some_iff.1 hledger
  obtain ⟨hsame, hne⟩ := of_decide_eq_true hdec
  have hi : .prepared payload info ∈ s.log := mem_preparedOf.1 (List.mem_of_head? hhead)
  refine ⟨s, payload, info, c, hi, ⟨hc, hsame⟩, hne, ?_⟩
  refine applied_under_spec (demoWorld_valid _ _) (fun n r hr => ?_) hs hi hc hsame
  obtain rfl : (4 : ℚ) = r := by simpa [expiringCfg] using hr
  have hwork : ((demoWorld partitionedByV []).turns n).localWork = 0 := by
    simp [demoWorld, demoTurn]
  rw [hwork]
  exact div_pos four_pos four_pos

end Millpond.Hoglake
