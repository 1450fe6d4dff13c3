import Millpond.Hoglake.Commits

set_option autoImplicit false

/-! # Where requests come from

An invariant of the steps that the results about commits and objects share: object names are fresh,
the client's cache is honest, every request was built from an honest read, and no request but its
own names the objects of a payload. -/

namespace Millpond.Hoglake

open Prog

variable {ρ V : Type} {cfg : SinkConfig}

/-! ## Requests -/

/-- The request was applied, or is on its way. -/
def Net.Requests (net : Net) (request : Payload) : Prop :=
  (∃ key c, net.server.ledger.lookup key = some c ∧ c.request = request) ∨ request ∈ net.inFlight

/-- Objects of other writers only. -/
def Payload.Foreign (payload : Payload) : Prop := ∀ uri ∈ payload.uris, ∃ n, uri = .other n

theorem Net.Evolves.requests_old {net net' : Net} (h : net.Evolves net') {request : Payload}
    (hr : net'.Requests request) : net.Requests request ∨ request.Foreign := by
  rcases hr with ⟨key, c, hc, rfl⟩ | hflight
  · rcases h.requests key c hc with hold | hflight | hforeign
    · exact Or.inl (Or.inl ⟨key, c, hold, rfl⟩)
    · exact Or.inl (Or.inr hflight)
    · exact Or.inr hforeign
  · exact Or.inl (Or.inr (h.inFlight hflight))

/-- Names of objects are used once: what is named is below the next name. -/
structure World.Numbered (w : World ρ) : Prop where
  requests : ∀ request, w.net.Requests request → ∀ n, .own n ∈ request.uris → n < w.nextUri
  objects : ∀ o ∈ w.objects, ∀ n, o.1 = .own n → n < w.nextUri

/-- The payload was built from a read that is honest, for objects numbered from `start` on. -/
def Sourced (start : ℕ) (w : World ρ) (payload : Payload) (info : TableInfo) : Prop :=
  ∃ read base n, w.net.server.Honest read ∧ start ≤ base ∧ base + n ≤ w.nextUri ∧
    payload.BuiltFrom base n info read

theorem Sourced.evolves {start : ℕ} {w w' : World ρ} {payload : Payload} {info : TableInfo}
    (h : Sourced start w payload info) (hserver : w.net.server.Evolves w'.net.server)
    (hnext : w.nextUri ≤ w'.nextUri) : Sourced start w' payload info := by
  obtain ⟨read, base, n, hhonest, hstart, hle, hbuilt⟩ := h
  exact ⟨read, base, n, hhonest.evolves hserver, hstart, hle.trans hnext, hbuilt⟩

theorem Sourced.own {start : ℕ} {w : World ρ} {payload : Payload} {info : TableInfo}
    (h : Sourced start w payload info) {uri : Uri} (huri : uri ∈ payload.uris) :
    ∃ n, uri = .own n ∧ start ≤ n ∧ n < w.nextUri := by
  obtain ⟨read, base, n, -, hstart, hle, hbuilt⟩ := h
  rw [hbuilt.uris] at huri
  obtain ⟨i, hi, rfl⟩ := List.mem_map.1 huri
  have hlt := List.mem_range.1 hi
  exact ⟨base + i, rfl, by omega, by omega⟩

theorem Sourced.nodup {start : ℕ} {w : World ρ} {payload : Payload} {info : TableInfo}
    (h : Sourced start w payload info) : payload.uris.Nodup := by
  obtain ⟨read, base, n, -, -, -, hbuilt⟩ := h
  rw [hbuilt.uris]
  refine List.Nodup.map (fun i j hij => ?_) List.nodup_range
  have heq : base + i = base + j := by simpa using hij
  omega

/-! ## The invariant -/

/-- Where everything comes from. -/
structure Traced (start : ℕ) (s : St ρ) : Prop where
  start_le : start ≤ s.world.nextUri
  numbered : s.world.Numbered
  cache : ∀ read t, s.world.handle.cache = some (read, t) → s.world.net.server.Honest read
  held : ∀ payload, s.sink.prepared = some payload → ∃ info, .prepared payload info ∈ s.log
  sources : ∀ payload info, .prepared payload info ∈ s.log → Sourced start s.world payload info
  owner : ∀ payload info, .prepared payload info ∈ s.log → ∀ request, s.world.net.Requests request →
    ∀ uri ∈ payload.uris, uri ∈ request.uris → request = payload
  distinct : ∀ payload info payload' info', .prepared payload info ∈ s.log →
    .prepared payload' info' ∈ s.log → ∀ uri ∈ payload.uris, uri ∈ payload'.uris →
    payload' = payload ∧ info' = info

variable {start : ℕ}

/-- The numbering outlives the moves of others and a commit of the payload held. -/
theorem World.Numbered.evolves {w w' : World ρ} (h : w.Numbered)
    (hrequests : ∀ request, w'.net.Requests request → w.net.Requests request ∨ request.Foreign ∨
      ∀ n, .own n ∈ request.uris → n < w.nextUri)
    (hobjects : w'.objects = w.objects) (hnext : w'.nextUri = w.nextUri) : w'.Numbered := by
  refine ⟨fun request hr n hn => ?_, fun o ho n hn => ?_⟩
  · rw [hnext]
    rcases hrequests request hr with hold | hforeign | hlt
    · exact h.requests request hold n hn
    · obtain ⟨k, hk⟩ := hforeign _ hn
      exact absurd hk (by simp)
    · exact hlt n hn
  · rw [hnext]
    exact h.objects o (hobjects ▸ ho) n hn

/-- Steps that upload nothing. A request that is new is foreign or the payload held. -/
theorem Traced.keep {s s' : St ρ} (h : Traced start s)
    (hrequests : ∀ request, s'.world.net.Requests request → s.world.net.Requests request ∨
      request.Foreign ∨ s.sink.prepared = some request)
    (hserver : s.world.net.server.Evolves s'.world.net.server)
    (hobjects : s'.world.objects = s.world.objects) (hnext : s'.world.nextUri = s.world.nextUri)
    (hcache : ∀ read t, s'.world.handle.cache = some (read, t) → s'.world.net.server.Honest read)
    (hheld : ∀ payload, s'.sink.prepared = some payload → s.sink.prepared = some payload)
    (hlog : ∀ payload info, .prepared payload info ∈ s'.log → .prepared payload info ∈ s.log)
    (hsuffix : s.log <:+ s'.log) : Traced start s' := by
  refine ⟨hnext ▸ h.start_le, h.numbered.evolves (fun request hr => ?_) hobjects hnext, hcache, ?_, ?_,
    ?_, ?_⟩
  · rcases hrequests request hr with hold | hforeign | hpayload
    · exact Or.inl hold
    · exact Or.inr (Or.inl hforeign)
    · refine Or.inr (Or.inr fun n hn => ?_)
      obtain ⟨info, hinfo⟩ := h.held request hpayload
      obtain ⟨m, hm, -, hlt⟩ := (h.sources request info hinfo).own hn
      obtain rfl : n = m := by simpa using hm
      exact hlt
  · intro payload hpayload
    obtain ⟨info, hinfo⟩ := h.held payload (hheld payload hpayload)
    exact ⟨info, hsuffix.subset hinfo⟩
  · intro payload info hinfo
    exact (h.sources payload info (hlog payload info hinfo)).evolves hserver (le_of_eq hnext.symm)
  · intro payload info hinfo request hr uri huri hmem
    have hinfo' := hlog payload info hinfo
    rcases hrequests request hr with hold | hforeign | hpayload
    · exact h.owner payload info hinfo' request hold uri huri hmem
    · obtain ⟨n, hn, -⟩ := (h.sources payload info hinfo').own huri
      obtain ⟨k, hk⟩ := hforeign uri hmem
      exact absurd (hn.symm.trans hk) (by simp)
    · obtain ⟨info'', hinfo''⟩ := h.held request hpayload
      exact (h.distinct payload info request info'' hinfo' hinfo'' uri huri hmem).1
  · intro payload info payload' info' hinfo hinfo' uri huri huri'
    exact h.distinct payload info payload' info' (hlog payload info hinfo) (hlog payload' info' hinfo')
      uri huri huri'

/-- Steps that leave the network alone, too. -/
theorem Traced.stay {s s' : St ρ} (h : Traced start s) (hnet : s'.world.net = s.world.net)
    (hobjects : s'.world.objects = s.world.objects) (hnext : s'.world.nextUri = s.world.nextUri)
    (hcache : ∀ read t, s'.world.handle.cache = some (read, t) → s.world.net.server.Honest read)
    (hheld : ∀ payload, s'.sink.prepared = some payload → s.sink.prepared = some payload)
    (hlog : ∀ payload info, .prepared payload info ∈ s'.log → .prepared payload info ∈ s.log)
    (hsuffix : s.log <:+ s'.log) : Traced start s' := by
  refine h.keep (fun request hr => Or.inl (hnet ▸ hr)) ?_ hobjects hnext ?_ hheld hlog hsuffix
  · rw [hnet]
    exact .refl _
  · rw [hnet]
    exact hcache

/-- New names are above every name that is used. -/
theorem Traced.fresh {s : St ρ} (h : Traced start s) {request : Payload}
    (hr : s.world.net.Requests request) (i : ℕ) : .own (s.world.nextUri + i) ∉ request.uris := by
  intro hmem
  have := h.numbered.requests request hr _ hmem
  omega

theorem World.Numbered.uploaded {w : World ρ} (h : w.Numbered) {n : ℕ} {objects : List (Uri × List ρ)}
    (hsub : (objects.map Prod.fst).Sublist ((List.range n).map fun i => .own (w.nextUri + i))) :
    (w.uploaded n objects).Numbered := by
  refine ⟨fun request hr k hk => ?_, fun o ho k hk => ?_⟩
  · have := h.requests request hr k hk
    show k < w.nextUri + n
    omega
  · rcases List.mem_append.1 ho with hold | hnew
    · have := h.objects o hold k hk
      show k < w.nextUri + n
      omega
    · have hmem := hsub.subset (List.mem_map_of_mem hnew)
      obtain ⟨i, hi, heq⟩ := List.mem_map.1 hmem
      have hlt := List.mem_range.1 hi
      obtain rfl : w.nextUri + i = k := by simpa using heq.trans hk
      show w.nextUri + i < w.nextUri + n
      omega

/-- Uploads build no request. -/
@[simp] theorem St.prepared_mem_upload {s : St ρ} {info info' : TableInfo} {payload : Payload} {n : ℕ}
    {objects : List (Uri × List ρ)} :
    .prepared payload info' ∈ (s.upload info n objects).log ↔ .prepared payload info' ∈ s.log := by
  show .prepared payload info' ∈ (if objects.isEmpty then s.log else _ :: s.log) ↔ _
  split
  · rfl
  · simp

/-- Reports build no request. -/
@[simp] theorem St.prepared_mem_report {s : St ρ} {info : TableInfo} {payload : Payload}
    {uris : List Uri} {reason : OrphanReason} :
    .prepared payload info ∈ (s.report uris reason).log ↔ .prepared payload info ∈ s.log := by
  unfold St.report
  split
  · rfl
  · simp

/-- Objects that no request names yet. -/
theorem Traced.upload {s : St ρ} (h : Traced start s) (info : TableInfo) {n : ℕ}
    {objects : List (Uri × List ρ)}
    (hsub : (objects.map Prod.fst).Sublist ((List.range n).map fun i => .own (s.world.nextUri + i))) :
    Traced start (s.upload info n objects) := by
  have hlog : ∀ payload info', .prepared payload info' ∈ (s.upload info n objects).log →
      .prepared payload info' ∈ s.log := fun _ _ => St.prepared_mem_upload.1
  have hsuffix := s.upload_log_suffix info n objects
  refine ⟨h.start_le.trans (Nat.le_add_right _ _), h.numbered.uploaded hsub, h.cache, ?_, ?_, ?_, ?_⟩
  · intro payload hpayload
    obtain ⟨info', hinfo⟩ := h.held payload hpayload
    exact ⟨info', hsuffix.subset hinfo⟩
  · intro payload info' hinfo
    exact (h.sources payload info' (hlog payload info' hinfo)).evolves (.refl _) (Nat.le_add_right _ _)
  · exact fun payload info' hinfo => h.owner payload info' (hlog payload info' hinfo)
  · exact fun payload info' payload' info'' hinfo hinfo' =>
      h.distinct payload info' payload' info'' (hlog _ _ hinfo) (hlog _ _ hinfo')

@[simp] theorem St.upload_sink (s : St ρ) (info : TableInfo) (n : ℕ) (objects : List (Uri × List ρ)) :
    (s.upload info n objects).sink = s.sink := rfl

/-- A prepare: the new payload owns new names. -/
theorem Traced.prepare {s : St ρ} (h : Traced start s) {info read : TableInfo} {payload : Payload}
    {objects : List (Uri × List ρ)} (rows : ℕ) (offsets : Option Identity)
    (hready : UploadReady s info read)
    (hbuilt : payload.BuiltFrom s.world.nextUri objects.length info read)
    (hobjects : objects.map Prod.fst = payload.uris) :
    Traced start ((s.upload info objects.length objects).hold payload info rows offsets) := by
  have hup : Traced start (s.upload info objects.length objects) := by
    refine h.upload info ?_
    rw [hobjects, hbuilt.uris]
  have hnew : ∀ uri ∈ payload.uris, ∃ i, uri = .own (s.world.nextUri + i) := by
    intro uri huri
    rw [hbuilt.uris] at huri
    obtain ⟨i, -, rfl⟩ := List.mem_map.1 huri
    exact ⟨i, rfl⟩
  have hlog : ∀ payload' info', .prepared payload' info' ∈ (s.upload info objects.length objects).log →
      ∀ uri ∈ payload.uris, uri ∉ payload'.uris := by
    intro payload' info' hmem uri huri huri'
    have hmem' : .prepared payload' info' ∈ s.log := St.prepared_mem_upload.1 hmem
    obtain ⟨i, rfl⟩ := hnew uri huri
    obtain ⟨n, hn, -, hlt⟩ := (h.sources payload' info' hmem').own huri'
    obtain rfl : s.world.nextUri + i = n := by simpa using hn
    omega
  refine ⟨hup.start_le, ⟨hup.numbered.requests, hup.numbered.objects⟩, hup.cache, ?_, ?_, ?_, ?_⟩
  · intro payload' hpayload'
    obtain rfl : payload = payload' := by simpa [St.hold] using hpayload'
    exact ⟨info, List.mem_cons_self ..⟩
  · intro payload' info' hinfo'
    rcases List.mem_cons.1 hinfo' with heq | hold
    · obtain ⟨rfl, rfl⟩ : payload' = payload ∧ info' = info := by simpa using heq
      obtain ⟨t, hcache⟩ := hready.cache
      exact ⟨read, s.world.nextUri, objects.length, h.cache read t hcache, h.start_le,
        Nat.le_refl _, hbuilt⟩
    · exact hup.sources payload' info' hold
  · intro payload' info' hinfo' request hr uri huri hmem
    rcases List.mem_cons.1 hinfo' with heq | hold
    · obtain ⟨rfl, rfl⟩ : payload' = payload ∧ info' = info := by simpa using heq
      obtain ⟨i, rfl⟩ := hnew uri huri
      exact absurd hmem (h.fresh hr i)
    · exact hup.owner payload' info' hold request hr uri huri hmem
  · intro payload₁ info₁ payload₂ info₂ h₁ h₂ uri huri₁ huri₂
    rcases List.mem_cons.1 h₁ with heq₁ | hold₁
    · obtain ⟨rfl, rfl⟩ : payload₁ = payload ∧ info₁ = info := by simpa using heq₁
      rcases List.mem_cons.1 h₂ with heq₂ | hold₂
      · simpa using heq₂
      · exact absurd huri₂ (hlog payload₂ info₂ hold₂ uri huri₁)
    · rcases List.mem_cons.1 h₂ with heq₂ | hold₂
      · obtain ⟨rfl, rfl⟩ : payload₂ = payload ∧ info₂ = info := by simpa using heq₂
        exact absurd huri₁ (hlog payload₁ info₁ hold₁ uri huri₂)
      · exact hup.distinct payload₁ info₁ payload₂ info₂ hold₁ hold₂ uri huri₁ huri₂

/-- A report adds no request. -/
theorem Traced.report {s : St ρ} (h : Traced start s) (uris : List Uri) (reason : OrphanReason) :
    Traced start (s.report uris reason) := by
  unfold St.report
  split
  · exact h
  · exact h.stay rfl rfl rfl h.cache (fun _ hp => hp) (by simp) (List.suffix_cons _ _)

/-- Letting the payload go. -/
theorem Traced.clear {s : St ρ} (h : Traced start s) : Traced start s.clear :=
  h.stay rfl rfl rfl h.cache (fun _ hp => absurd hp (by simp [St.clear])) (fun _ _ hi => hi)
    (List.suffix_refl _)

theorem Traced.note {s : St ρ} (h : Traced start s) {e : Event}
    (he : ∀ payload info, .prepared payload info ≠ e) : Traced start (s.note e) := by
  refine h.stay rfl rfl rfl h.cache (fun _ hp => hp) (fun payload info hi => ?_) (List.suffix_cons _ _)
  rcases List.mem_cons.1 hi with heq | hold
  · exact absurd heq (he payload info)
  · exact hold

/-- **Every step keeps the trace.** -/
theorem Step.traced {s s' : St ρ} (h : Step cfg s s') (hs : Traced start s) : Traced start s' := by
  cases h with
  | world w retryAfter evolves =>
      refine hs.keep (fun request hr => ?_) evolves.net.server evolves.objects evolves.nextUri ?_
        (fun _ hp => hp) (fun _ _ hi => hi) (List.suffix_refl _)
      · exact (evolves.net.requests_old hr).imp id Or.inl
      · intro read t hcache
        have hcache' : w.handle.cache = some (read, t) := hcache
        rw [evolves.handle] at hcache'
        exact (hs.cache read t hcache').evolves evolves.net.server
  | resolve info table reconciled honest =>
      exact hs.stay rfl rfl rfl (fun _ _ hc => absurd hc (by simp [St.resolve])) (fun _ hp => hp)
        (fun _ _ hi => hi) (List.suffix_refl _)
  | adopt info declared honest =>
      refine hs.stay rfl rfl rfl (fun read t hc => ?_) (fun _ hp => hp) (by simp [St.adopt])
        (List.suffix_cons _ _)
      obtain ⟨rfl, -⟩ : info = read ∧ _ = t := by simpa [St.adopt, St.seed] using hc
      exact honest
  | record info =>
      exact hs.stay rfl rfl rfl hs.cache (fun _ hp => hp) (by simp [St.record]) (List.suffix_cons _ _)
  | attachCreated =>
      exact hs.stay rfl rfl rfl hs.cache (fun _ hp => hp) (fun _ _ hi => hi) (List.suffix_refl _)
  | attachReconciled info =>
      exact hs.stay rfl rfl rfl hs.cache (fun _ hp => hp) (by simp [St.record, St.attach])
        (List.suffix_cons _ _)
  | dropShape cache cache_eq =>
      refine hs.stay rfl rfl rfl (fun read t hc => ?_) (fun _ hp => hp) (by simp [St.dropShape])
        (List.suffix_cons _ _)
      have hc' : cache = some (read, t) := hc
      rcases cache_eq with rfl | rfl
      · exact hs.cache read t hc'
      · exact absurd hc' (by simp)
  | reset =>
      exact hs.stay rfl rfl rfl hs.cache (fun _ hp => hp) (by simp [St.reset]) (List.suffix_cons _ _)
  | reread w retryAfter info read working fresh stale evolves honest =>
      refine hs.keep (fun request hr => ?_) evolves.net.server evolves.objects evolves.nextUri ?_
        (fun _ hp => hp) (fun _ _ hi => hi) (List.suffix_refl _)
      · exact (evolves.net.requests_old hr).imp id Or.inl
      · intro read' t hcache
        obtain ⟨rfl, -⟩ : read = read' ∧ _ = t := by simpa [St.seed, St.moved] using hcache
        exact honest
  | prepare info read payload objects rows offsets ready built objects_eq =>
      exact hs.prepare rows offsets ready built objects_eq
  | uploadFailed info read n objects ready landed => exact (hs.upload info landed).report _ _
  | send payload =>
      exact hs.stay rfl rfl rfl hs.cache (fun _ hp => hp) (by simp [St.send]) (List.suffix_cons _ _)
  | commit payload refusal held =>
      have hends := Server.commit_ends refusal payload s.world.net.server
      refine hs.keep (fun request hr => ?_) (Server.evolves_commit refusal payload _) rfl rfl
        (fun read t hc => (hs.cache read t hc).evolves (Server.evolves_commit refusal payload _))
        (fun _ hp => hp) (fun _ _ hi => hi) (List.suffix_refl _)
      rcases hr with ⟨key, c, hc, rfl⟩ | hflight
      · rcases hends.request hc with hold | hnew
        · exact Or.inl (Or.inl ⟨key, c, hold, rfl⟩)
        · exact Or.inr (Or.inr (hnew ▸ held))
      · exact Or.inl (Or.inr hflight)
  | queue payload held =>
      refine hs.keep (fun request hr => ?_) (.refl _) rfl rfl hs.cache (fun _ hp => hp)
        (fun _ _ hi => hi) (List.suffix_refl _)
      rcases hr with hledger | hflight
      · exact Or.inl (Or.inl hledger)
      · rcases List.mem_append.1 hflight with hold | hnew
        · exact Or.inl (Or.inr hold)
        · exact Or.inr (Or.inr ((List.mem_singleton.1 hnew) ▸ held))
  | published => exact hs.clear
  | alreadyPublished payload => exact ((hs.note (by simp)).report _ _).clear
  | discard payload reason => exact ((hs.note (by simp)).report _ _).clear

/-- A world a sink may start in: no name from the next one on is used, and a handle left from an
    earlier sink holds what was read. -/
structure World.Valid (w : World ρ) : Prop where
  numbered : w.Numbered
  cache : ∀ read t, w.handle.cache = some (read, t) → w.net.server.Honest read

theorem traced_new {world : World ρ} (h : world.Valid) : Traced world.nextUri (St.new world) :=
  ⟨Nat.le_refl _, h.numbered, h.cache, fun _ hp => absurd hp (by simp [St.new, Sink.new]),
    fun _ _ hi => absurd hi (by simp [St.new]), fun _ _ hi => absurd hi (by simp [St.new]),
    fun _ _ _ _ hi => absurd hi (by simp [St.new])⟩

end Millpond.Hoglake
