import Millpond.Hoglake.Publication

set_option autoImplicit false

/-! # Orphan reports

What `_count_orphans` names: no object twice, no object the table uses or will use, as long as no
payload is given up while its own request may still be applied, and every object that is neither
held nor registered, as long as no upload that fails leaves one behind. -/

namespace Millpond.Hoglake

open Prog

variable {ρ V : Type} {cfg : SinkConfig} {be : Backend ρ V}

/-! ## Reports -/

/-- The objects a log reports: those a count of orphans is about. The log line of a count names the
    first `_ORPHAN_URIS_LOGGED` of them. -/
def reported : List Event → List Uri
  | [] => []
  | .orphans uris _ :: rest => uris ++ reported rest
  | _ :: rest => reported rest

/-- The reasons that come from a typed refusal. -/
def OrphanReason.isTyped : OrphanReason → Bool
  | .tableRecreated | .readSnapshotExpired | .ddlSinceReadSnapshot => true
  | _ => false

/-- The event gives up no payload whose request was applied or is on its way, except for a refusal
    that rules the request out. -/
def Event.isCareful : Event → Bool
  | .discarded _ reason atRisk => !atRisk || reason.isTyped
  | _ => true

/-- No payload was given up while its own request could still be applied. -/
def Careful (log : List Event) : Prop := ∀ e ∈ log, e.isCareful = true

instance (log : List Event) : Decidable (Careful log) :=
  inferInstanceAs (Decidable (∀ e ∈ log, e.isCareful = true))

theorem Careful.suffix {log log' : List Event} (h : Careful log') (hsuffix : log <:+ log') :
    Careful log :=
  fun e hmem => h e (hsuffix.subset hmem)

@[simp] theorem reported_report (s : St ρ) (uris : List Uri) (reason : OrphanReason) :
    reported (s.report uris reason).log = uris ++ reported s.log := by
  unfold St.report
  cases uris <;> rfl

@[simp] theorem reported_upload (s : St ρ) (info : TableInfo) (n : ℕ) (objects : List (Uri × List ρ)) :
    reported (s.upload info n objects).log = reported s.log := by
  show reported (if objects.isEmpty then s.log else _) = _
  split <;> rfl

/-! ## Dead objects -/

/-- The server will not accept the request: it never will, or its key has a receipt. -/
def Server.Barred (server : Server) (request : Payload) : Prop :=
  server.Doomed request ∨ ∃ c, server.ledger.lookup request.idempotencyKey = some c

theorem Server.Barred.evolves {s s' : Server} {request : Payload} (h : s.Barred request)
    (he : s.Evolves s') : s'.Barred request :=
  h.imp (fun hd => hd.evolves he) fun ⟨c, hc⟩ => ⟨c, he.receipts _ c hc⟩

theorem Server.Barred.not_accepts {s : Server} {c : Commit} (h : s.Barred c.request) :
    ¬ s.Accepts c := by
  intro haccepts
  rcases h with hd | ⟨c', hc'⟩
  · exact haccepts.notDoomed hd
  · exact absurd (haccepts.fresh.symm.trans hc') (by simp)

/-- No commit names the object, and no request on its way that could still be applied. -/
structure Dead (net : Net) (uri : Uri) : Prop where
  ledger : ∀ key c, net.server.ledger.lookup key = some c → uri ∉ c.request.uris
  inFlight : ∀ request ∈ net.inFlight, uri ∈ request.uris → net.server.Barred request

/-- Dead objects stay dead while others move. -/
theorem Dead.evolves {net net' : Net} {n : ℕ} (h : Dead net (.own n)) (he : net.Evolves net') :
    Dead net' (.own n) := by
  refine ⟨fun key c hc hmem => ?_, fun request hr hmem => ?_⟩
  · rcases he.server.applied key c hc with hold | haccepts
    · exact h.ledger key c hold hmem
    · rcases he.requests key c hc with hold | hflight | hforeign
      · exact h.ledger key c hold hmem
      · exact (h.inFlight c.request hflight hmem).not_accepts haccepts
      · obtain ⟨k, hk⟩ := hforeign _ hmem
        exact absurd hk (by simp)
  · exact (h.inFlight request (he.inFlight hr) hmem).evolves he.server

/-- A commit of another payload leaves the object dead. -/
theorem Dead.commit {net : Net} {uri : Uri} (h : Dead net uri) {payload : Payload}
    (hother : uri ∉ payload.uris) (refusal : Option Refusal) :
    Dead (net.onServer fun server => (server.commit refusal payload).2) uri := by
  have hends := Server.commit_ends refusal payload net.server
  refine ⟨fun key c hc hmem => ?_, fun request hr hmem => ?_⟩
  · rcases hends.request hc with hold | hnew
    · exact h.ledger key c hold hmem
    · exact hother (hnew ▸ hmem)
  · exact (h.inFlight request hr hmem).evolves hends.evolves

/-- Another payload on its way leaves the object dead. -/
theorem Dead.queue {net : Net} {uri : Uri} (h : Dead net uri) {payload : Payload}
    (hother : uri ∉ payload.uris) :
    Dead { net with inFlight := net.inFlight ++ [payload] } uri := by
  refine ⟨h.ledger, fun request hr hmem => ?_⟩
  rcases List.mem_append.1 hr with hold | hnew
  · exact h.inFlight request hold hmem
  · obtain rfl : request = payload := List.mem_singleton.1 hnew
    exact absurd hmem hother

variable {start : ℕ}

/-- An entry is under the key of its request. -/
theorem Server.key_of_lookup {server : Server} {key : Key} {c : Commit}
    (h : server.ledger.lookup key = some c) : key = c.request.idempotencyKey :=
  server.keyed (key, c) (Ledger.lookup_eq_some.1 h)

/-- The objects of a payload whose request has no receipt of its own, and is barred if it is on its
    way. -/
theorem Traced.dead {s : St ρ} (h : Traced start s) {payload : Payload}
    (held : s.sink.prepared = some payload)
    (hreceipt : ∀ c, s.world.net.server.ledger.lookup payload.idempotencyKey = some c →
      c.request ≠ payload)
    (hflight : payload ∈ s.world.net.inFlight → s.world.net.server.Barred payload) :
    ∀ uri ∈ payload.uris, Dead s.world.net uri := by
  obtain ⟨info, hinfo⟩ := h.held payload held
  intro uri huri
  refine ⟨fun key c hc hmem => ?_, fun request hr hmem => ?_⟩
  · have hsame : c.request = payload :=
      h.owner payload info hinfo c.request (Or.inl ⟨key, c, hc, rfl⟩) uri huri hmem
    have hkey := Server.key_of_lookup hc
    rw [hkey, hsame] at hc
    exact hreceipt c hc hsame
  · obtain rfl : request = payload :=
      h.owner payload info hinfo request (Or.inr hr) uri huri hmem
    exact hflight hr

/-- The objects of a payload that may be given up are dead. -/
theorem Discardable.dead {s : St ρ} {payload : Payload} {reason : OrphanReason}
    (hwhy : Discardable s payload reason) (h : Traced start s)
    (held : s.sink.prepared = some payload)
    (hcareful : s.world.atRisk payload = true → reason.isTyped = true) :
    ∀ uri ∈ payload.uris, Dead s.world.net uri := by
  by_cases hrisk : s.world.atRisk payload = true
  · -- only a typed refusal remains, and it rules the request out
    have htyped := hcareful hrisk
    cases hwhy with
    | superseded => exact absurd htyped (by decide)
    | shutdown => exact absurd htyped (by decide)
    | refused => exact absurd htyped (by decide)
    | moved e fresh verdict moved =>
        obtain ⟨info, hinfo⟩ := h.held payload held
        obtain ⟨read, base, n, hhonest, -, -, hbuilt⟩ := h.sources payload info hinfo
        have hdoomed : s.world.net.server.Doomed payload := by
          refine Server.doomed_of_judge verdict moved ?_ ?_
          · rw [hbuilt.uuid]
            exact hhonest.uuid
          · rw [hbuilt.snapshot]
            exact hhonest.snapshot
        exact h.dead held (fun c hc => absurd (fresh.symm.trans hc) (by simp))
          fun _ => Or.inl hdoomed
  · unfold World.atRisk at hrisk
    simp only [Bool.or_eq_true, decide_eq_true_eq, not_or] at hrisk
    refine h.dead held (fun c hc hsame => hrisk.1 ?_) (fun hflight => absurd hflight hrisk.2)
    simp [hc, hsame]

/-! ## The books -/

/-- What the reports of a run satisfy. -/
structure Booked (start : ℕ) (s : St ρ) : Prop where
  traced : Traced start s
  once : (reported s.log).Nodup
  own : ∀ uri ∈ reported s.log, ∃ n, uri = .own n ∧ n < s.world.nextUri
  held : ∀ payload, s.sink.prepared = some payload → ∀ uri ∈ payload.uris, uri ∉ reported s.log
  dead : Careful s.log → ∀ uri ∈ reported s.log, Dead s.world.net uri
  accounted : ∀ o ∈ s.world.objects, ∀ n, o.1 = .own n → start ≤ n →
    (∃ payload, s.sink.prepared = some payload ∧ o.1 ∈ payload.uris) ∨
    (∃ key c, s.world.net.server.ledger.lookup key = some c ∧ o.1 ∈ c.request.uris) ∨
    o.1 ∈ reported s.log

/-- Steps that report nothing and let nothing go. -/
theorem Booked.keep {s s' : St ρ} (h : Booked start s) (htraced : Traced start s')
    (hreported : reported s'.log = reported s.log) (hnext : s.world.nextUri ≤ s'.world.nextUri)
    (hheld : s'.sink.prepared = s.sink.prepared) (hobjects : s'.world.objects = s.world.objects)
    (hserver : s.world.net.server.Evolves s'.world.net.server) (hsuffix : s.log <:+ s'.log)
    (hdead : ∀ uri ∈ reported s.log, Dead s.world.net uri → Dead s'.world.net uri) :
    Booked start s' := by
  refine ⟨htraced, hreported ▸ h.once, fun uri huri => ?_, fun payload hp uri huri => ?_,
    fun hcareful uri huri => ?_, fun o ho n hn hstart => ?_⟩
  · rw [hreported] at huri
    obtain ⟨n, hn, hlt⟩ := h.own uri huri
    exact ⟨n, hn, Nat.lt_of_lt_of_le hlt hnext⟩
  · rw [hreported]
    exact h.held payload (hheld ▸ hp) uri huri
  · rw [hreported] at huri
    exact hdead uri huri (h.dead (hcareful.suffix hsuffix) uri huri)
  · rw [hreported, hheld]
    rcases h.accounted o (hobjects ▸ ho) n hn hstart with hp | ⟨key, c, hc, hmem⟩ | hr
    · exact Or.inl hp
    · exact Or.inr (Or.inl ⟨key, c, hserver.receipts key c hc, hmem⟩)
    · exact Or.inr (Or.inr hr)

/-- The payload is let go and its objects are reported. -/
theorem Booked.letGo {s s' : St ρ} (h : Booked start s) (htraced : Traced start s')
    {payload : Payload} (held : s.sink.prepared = some payload)
    (hreported : reported s'.log = payload.uris ++ reported s.log)
    (hworld : s'.world = s.world) (hnone : s'.sink.prepared = none) (hsuffix : s.log <:+ s'.log)
    (hdead : Careful s'.log → ∀ uri ∈ payload.uris, Dead s.world.net uri) : Booked start s' := by
  obtain ⟨info, hinfo⟩ := h.traced.held payload held
  have hsource := h.traced.sources payload info hinfo
  refine ⟨htraced, ?_, ?_, ?_, ?_, ?_⟩
  · rw [hreported, List.nodup_append]
    refine ⟨hsource.nodup, h.once, fun uri huri uri' huri' heq => ?_⟩
    exact h.held payload held uri huri (heq ▸ huri')
  · intro uri huri
    rw [hreported] at huri
    rw [hworld]
    rcases List.mem_append.1 huri with hnew | hold
    · obtain ⟨n, hn, -, hlt⟩ := hsource.own hnew
      exact ⟨n, hn, hlt⟩
    · exact h.own uri hold
  · intro payload' hp
    exact absurd (hnone.symm.trans hp) (by simp)
  · intro hcareful uri huri
    rw [hreported] at huri
    rw [hworld]
    rcases List.mem_append.1 huri with hnew | hold
    · exact hdead hcareful uri hnew
    · exact h.dead (hcareful.suffix hsuffix) uri hold
  · intro o ho n hn hstart
    rw [hworld] at ho ⊢
    rw [hreported]
    rcases h.accounted o ho n hn hstart with ⟨payload', hp, hmem⟩ | hc | hr
    · obtain rfl : payload = payload' := by simpa [held] using hp
      exact Or.inr (Or.inr (List.mem_append_left _ hmem))
    · exact Or.inr (Or.inl hc)
    · exact Or.inr (Or.inr (List.mem_append_right _ hr))

/-- Reported names are below the new ones. -/
theorem Booked.new_not_reported {s : St ρ} (h : Booked start s) (i : ℕ) :
    .own (s.world.nextUri + i) ∉ reported s.log := by
  intro hmem
  obtain ⟨n, hn, hlt⟩ := h.own _ hmem
  obtain rfl : s.world.nextUri + i = n := by simpa using hn
  omega

theorem Booked.prepare {s : St ρ} (h : Booked start s) {info read : TableInfo} {payload : Payload}
    {objects : List (Uri × List ρ)} (rows : ℕ) (offsets : Option Identity)
    (hready : UploadReady s info read)
    (hbuilt : payload.BuiltFrom s.world.nextUri objects.length info read)
    (hobjects : objects.map Prod.fst = payload.uris) :
    Booked start ((s.upload info objects.length objects).hold payload info rows offsets) := by
  have hreported : reported ((s.upload info objects.length objects).hold payload info rows offsets).log =
      reported s.log := reported_upload s info _ objects
  refine ⟨h.traced.prepare rows offsets hready hbuilt hobjects, hreported ▸ h.once, ?_, ?_, ?_, ?_⟩
  · intro uri huri
    rw [hreported] at huri
    obtain ⟨n, hn, hlt⟩ := h.own uri huri
    exact ⟨n, hn, Nat.lt_of_lt_of_le hlt (Nat.le_add_right _ _)⟩
  · intro payload' hp uri huri
    obtain rfl : payload = payload' := by simpa [St.hold] using hp
    rw [hreported]
    rw [hbuilt.uris] at huri
    obtain ⟨i, -, rfl⟩ := List.mem_map.1 huri
    exact h.new_not_reported i
  · intro hcareful uri huri
    rw [hreported] at huri
    have hsuffix : s.log <:+ ((s.upload info objects.length objects).hold payload info rows offsets).log :=
      (St.upload_log_suffix s info _ objects).trans (List.suffix_cons _ _)
    exact h.dead (hcareful.suffix hsuffix) uri huri
  · intro o ho n hn hstart
    rw [hreported]
    rcases List.mem_append.1 ho with hold | hnew
    · rcases h.accounted o hold n hn hstart with ⟨payload', hp, -⟩ | hc | hr
      · exact absurd (hready.held.symm.trans hp) (by simp)
      · exact Or.inr (Or.inl hc)
      · exact Or.inr (Or.inr hr)
    · exact Or.inl ⟨payload, rfl, hobjects ▸ List.mem_map_of_mem hnew⟩

theorem Booked.uploadFailed {s : St ρ} (h : Booked start s) {info read : TableInfo} {n : ℕ}
    {objects : List (Uri × List ρ)} (hready : UploadReady s info read)
    (hlanded : (objects.map Prod.fst).Sublist
      ((List.range n).map fun i => .own (s.world.nextUri + i))) :
    Booked start ((s.upload info n objects).report (objects.map Prod.fst) .prepareFailed) := by
  have hreported : reported ((s.upload info n objects).report (objects.map Prod.fst) .prepareFailed).log =
      objects.map Prod.fst ++ reported s.log := by
    rw [reported_report, reported_upload]
  -- the names of a fanout are new, so nothing has reported them and no request has them
  have hnew : ∀ uri ∈ objects.map Prod.fst, ∃ i, i < n ∧ uri = .own (s.world.nextUri + i) := by
    intro uri huri
    obtain ⟨i, hi, rfl⟩ := List.mem_map.1 (hlanded.subset huri)
    exact ⟨i, List.mem_range.1 hi, rfl⟩
  have hsuffix : s.log <:+ ((s.upload info n objects).report (objects.map Prod.fst) .prepareFailed).log :=
    (St.upload_log_suffix s info n objects).trans (St.report_log_suffix _ _ _)
  refine ⟨(h.traced.upload info hlanded).report _ _, ?_, ?_, ?_, ?_, ?_⟩
  · rw [hreported, List.nodup_append]
    refine ⟨hlanded.nodup (List.Nodup.map (fun i j hij => ?_) List.nodup_range), h.once, ?_⟩
    · have heq : s.world.nextUri + i = s.world.nextUri + j := by simpa using hij
      omega
    · intro uri huri uri' huri' heq
      obtain ⟨i, -, rfl⟩ := hnew uri huri
      exact h.new_not_reported i (heq ▸ huri')
  · intro uri huri
    rw [hreported] at huri
    rw [St.report_world]
    rcases List.mem_append.1 huri with hmem | hold
    · obtain ⟨i, hi, rfl⟩ := hnew uri hmem
      exact ⟨_, rfl, Nat.add_lt_add_left hi _⟩
    · obtain ⟨k, hk, hlt⟩ := h.own uri hold
      exact ⟨k, hk, Nat.lt_of_lt_of_le hlt (Nat.le_add_right _ _)⟩
  · intro payload hp
    rw [St.report_sink] at hp
    exact absurd (hready.held.symm.trans hp) (by simp)
  · intro hcareful uri huri
    rw [hreported] at huri
    rw [St.report_world]
    rcases List.mem_append.1 huri with hmem | hold
    · obtain ⟨i, -, rfl⟩ := hnew uri hmem
      refine ⟨fun key c hc hin => ?_, fun request hr hin => ?_⟩
      · exact absurd hin (h.traced.fresh (Or.inl ⟨key, c, hc, rfl⟩) i)
      · exact absurd hin (h.traced.fresh (Or.inr hr) i)
    · exact h.dead (hcareful.suffix hsuffix) uri hold
  · intro o ho k hk hstart
    rw [St.report_world] at ho ⊢
    rw [hreported]
    rcases List.mem_append.1 ho with hold | hnew'
    · rcases h.accounted o hold k hk hstart with ⟨payload, hp, -⟩ | hc | hr
      · exact absurd (hready.held.symm.trans hp) (by simp)
      · exact Or.inr (Or.inl hc)
      · exact Or.inr (Or.inr (List.mem_append_right _ hr))
    · exact Or.inr (Or.inr (List.mem_append_left _ (List.mem_map_of_mem hnew')))

theorem Booked.published {s : St ρ} (h : Booked start s) {payload : Payload} {c : Commit}
    (held : s.sink.prepared = some payload)
    (hreceipt : s.world.net.server.ledger.lookup payload.idempotencyKey = some c)
    (hsame : c.request = payload) : Booked start s.clear := by
  refine ⟨h.traced.clear, h.once, h.own, fun _ hp => absurd hp (by simp [St.clear]), h.dead, ?_⟩
  intro o ho n hn hstart
  rcases h.accounted o ho n hn hstart with ⟨payload', hp, hmem⟩ | hrest
  · obtain rfl : payload = payload' := by simpa [held] using hp
    exact Or.inr (Or.inl ⟨_, c, hreceipt, hsame ▸ hmem⟩)
  · exact Or.inr hrest

/-- **Every step keeps the books.** -/
theorem Step.booked {s s' : St ρ} (hstep : Step cfg s s') (h : Booked start s) : Booked start s' := by
  have htraced := hstep.traced h.traced
  have hsuffix := hstep.log_suffix
  have hserver := hstep.grows.server
  have hown : ∀ net', s.world.net.Evolves net' → ∀ uri ∈ reported s.log, Dead s.world.net uri →
      Dead net' uri := by
    intro net' he uri huri hdead
    obtain ⟨n, rfl, -⟩ := h.own uri huri
    exact hdead.evolves he
  cases hstep with
  | world w retryAfter evolves =>
      exact h.keep htraced rfl (le_of_eq evolves.nextUri.symm) rfl evolves.objects hserver hsuffix
        (hown _ evolves.net)
  | reread w retryAfter info read working fresh stale evolves honest =>
      exact h.keep htraced rfl (le_of_eq evolves.nextUri.symm) rfl evolves.objects hserver hsuffix
        (hown _ evolves.net)
  | commit payload refusal held =>
      refine h.keep htraced rfl (Nat.le_refl _) rfl rfl hserver hsuffix (fun uri huri hdead => ?_)
      exact hdead.commit (fun hmem => h.held payload held uri hmem huri) refusal
  | queue payload held =>
      refine h.keep htraced rfl (Nat.le_refl _) rfl rfl hserver hsuffix (fun uri huri hdead => ?_)
      exact hdead.queue fun hmem => h.held payload held uri hmem huri
  | prepare info read payload objects rows offsets ready built objects_eq =>
      exact h.prepare rows offsets ready built objects_eq
  | uploadFailed info read n objects ready landed => exact h.uploadFailed ready landed
  | published payload c held receipt same => exact h.published held receipt same
  | alreadyPublished payload c held receipt other =>
      refine h.letGo htraced held ?_ (by simp [St.clear, St.note]) rfl hsuffix (fun _ => ?_)
      · show reported (St.report _ _ _).log = _
        rw [reported_report]
        rfl
      · refine h.traced.dead held (fun c' hc' hsame => ?_) (fun _ => Or.inr ⟨c, receipt⟩)
        obtain rfl : c = c' := by simpa [receipt] using hc'
        exact other hsame
  | discard payload reason held why =>
      have hreported : reported (((s.note (.discarded payload reason (s.world.atRisk payload))).report
          payload.uris reason).clear).log = payload.uris ++ reported s.log := by
        show reported (St.report _ _ _).log = _
        rw [reported_report]
        rfl
      refine h.letGo htraced held hreported (by simp [St.clear, St.note]) rfl hsuffix (fun hcareful => ?_)
      refine why.dead h.traced held (fun hrisk => ?_)
      have hnoted : .discarded payload reason true ∈
          (s.note (.discarded payload reason (s.world.atRisk payload))).log := by
        rw [hrisk]
        exact List.mem_cons_self ..
      simpa [Event.isCareful] using hcareful _ ((St.report_log_suffix _ _ _).subset hnoted)
  | _ =>
      exact h.keep htraced rfl (Nat.le_refl _) rfl rfl hserver hsuffix (fun _ _ hdead => hdead)

theorem booked_new {world : World ρ} (h : world.Valid) : Booked world.nextUri (St.new world) := by
  refine ⟨traced_new h, List.nodup_nil, fun _ hu => absurd hu (by simp [St.new, reported]),
    fun _ hp => absurd hp (by simp [St.new, Sink.new]),
    fun _ _ hu => absurd hu (by simp [St.new, reported]), fun o ho n hn hstart => ?_⟩
  have hlt := h.numbered.objects o ho n hn
  omega

/-! ## The reports of a run -/

/-- What the reports say is true: no commit names a reported object, now or after whatever the
    others and the requests on their way still do; no object is reported twice; and an object put
    into the store since `start` is held, registered or reported. -/
structure ReportsHold (start : ℕ) (s : St ρ) : Prop where
  unused : ∀ uri ∈ reported s.log, ∀ moves key c,
    (s.world.net.moves moves).server.ledger.lookup key = some c → uri ∉ c.request.uris
  once : (reported s.log).Nodup
  accounted : ∀ n, start ≤ n → .own n ∈ s.world.stored →
    (∃ payload, s.sink.prepared = some payload ∧ .own n ∈ payload.uris) ∨
    (∃ key c, s.world.net.server.ledger.lookup key = some c ∧ .own n ∈ c.request.uris) ∨
    .own n ∈ reported s.log

/-- An object that was named before `start`. -/
def Uri.isBefore (start : ℕ) : Uri → Bool
  | .own n => n < start
  | .other _ => true

/-- No upload has failed over an object that is there, since `start`. -/
def World.Untorn (start : ℕ) (w : World ρ) : Prop := ∀ uri ∈ w.torn, uri.isBefore start = true

instance (start : ℕ) (w : World ρ) : Decidable (w.Untorn start) :=
  inferInstanceAs (Decidable (∀ uri ∈ w.torn, uri.isBefore start = true))

/-- **Orphan reports are true in every run that gives up no payload at risk and in which no failed
    upload leaves an object behind.** -/
theorem reports_hold {world : World ρ} {calls : List (Call ρ V)} {s : St ρ} (hworld : world.Valid)
    (hrun : run cfg be (St.new world) calls = some s) (hcareful : Careful s.log)
    (huntorn : s.world.Untorn world.nextUri) : ReportsHold world.nextUri s := by
  have hbooked : Booked world.nextUri s :=
    run_invariant (fun _ _ hstep h => hstep.booked h) (booked_new hworld) hrun
  refine ⟨fun uri huri moves key c hc hmem => ?_, hbooked.once, fun n hstart hstored => ?_⟩
  · obtain ⟨n, rfl, -⟩ := hbooked.own uri huri
    exact ((hbooked.dead hcareful _ huri).evolves (Net.evolves_moves moves _)).ledger key c hc hmem
  · rcases List.mem_append.1 hstored with hwhole | htorn
    · obtain ⟨o, ho, hname⟩ := List.mem_map.1 hwhole
      exact hname ▸ hbooked.accounted o ho n hname hstart
    · exact absurd (of_decide_eq_true (huntorn _ htorn)) (Nat.not_lt.2 hstart)

/-- The request of the first flush never arrives, and the sink closes. -/
def neverSent : World ℕ :=
  demoWorld ⟨demoColumns, [], []⟩ [answered, answered, answered, answered, demoTurn [] (.lost .never)]

theorem neverSent_reports_hold :
    ∃ s, reported s.log = [.own 0] ∧ ReportsHold neverSent.nextUri (s : St ℕ) := by
  have hrun : ((run demoCfg demoBackend (St.new neverSent)
      [.write (demoFlush [7, 8] 0 1), .close]).map fun s =>
        decide (reported s.log = [.own 0] ∧ Careful s.log ∧ s.world.Untorn 0)) = some true := by
    decide +kernel
  obtain ⟨s, hs, hdec⟩ := Option.map_eq_some_iff.1 hrun
  obtain ⟨hreported, hcareful, huntorn⟩ := of_decide_eq_true hdec
  exact ⟨s, hreported, reports_hold (demoWorld_valid _ _) hs hcareful huntorn⟩

/-- The one upload of the first flush fails over a truncated object. -/
def tornUpload : World ℕ :=
  demoWorld ⟨demoColumns, [], []⟩ [answered, answered, answered,
    { answered with uploads := .failing (fun _ => .torn) .transport }]

/-- The object is there, and neither a report nor a commit names it. -/
example : ((run demoCfg demoBackend (St.new tornUpload) [.write (demoFlush [7, 8] 0 1), .close]).map
    fun s => (s.world.stored, reported s.log, s.world.net.server.ledger.entries.isEmpty)) =
      some ([.own 0], [], true) := by
  decide +kernel

/-- The request of the first flush was applied and its answer lost. -/
def answerLost : World ℕ :=
  demoWorld ⟨demoColumns, [], []⟩ [answered, answered, answered, answered, demoTurn [] (.lost .now)]

/-- Closing then reports an object that the table uses. -/
theorem answerLost_reports_live :
    ((run demoCfg demoBackend (St.new answerLost) [.write (demoFlush [7, 8] 0 1), .close]).map
      fun s => (reported s.log, s.world.net.server.ledger.entries.map (·.2.request.uris))) =
        some ([.own 0], [[.own 0]]) := by
  decide +kernel

end Millpond.Hoglake
