import Millpond.Hoglake.Resolution
import Mathlib.Tactic.Linarith

set_option autoImplicit false

/-! # Preparing as steps

From the cached shape to a request: the client's own read, its checks before the first byte, the
uploads, and the request that names them. -/

namespace Millpond.Hoglake

open Prog

variable {ρ V : Type} {cfg : SinkConfig} {be : Backend ρ V}

/-! ## Rows stay -/

@[simp] theorem nullFillMissing_rows (liveColumns : List Column) (batch : Batch ρ V) :
    (nullFillMissing liveColumns batch).rows = batch.rows := by
  unfold nullFillMissing
  induction liveColumns generalizing batch with
  | nil => rfl
  | cons c rest ih =>
      rw [List.foldl_cons, ih]
      split <;> rfl

theorem rewriteColumn_rows {name : String} {want : HogType} {batch batch' : Batch ρ V}
    (h : rewriteColumn be name want batch = some batch') : batch'.rows = batch.rows := by
  unfold rewriteColumn at h
  obtain ⟨c, -, rfl⟩ := Option.map_eq_some_iff.1 h
  rfl

theorem align_rows {columns : List Column} {batch aligned : Batch ρ V}
    (h : align be columns batch = some aligned) : aligned.rows = batch.rows := by
  unfold align at h
  obtain ⟨cast, -, rfl⟩ := Option.map_eq_some_iff.1 h
  rfl

theorem rewriteColumns_rows (rewrites : List (String × HogType)) (batch : Batch ρ V) (s : St ρ) :
    wp (rewriteColumns be rewrites batch) (fun b _ => b.rows = batch.rows) (fun _ _ => True) s := by
  induction rewrites generalizing batch with
  | nil => exact rfl
  | cons r rest ih =>
      unfold rewriteColumns
      cases hr : rewriteColumn be r.1 r.2 batch with
      | none => trivial
      | some batch' =>
          exact wp_mono (ih batch') (fun b _ h => h.trans (rewriteColumn_rows hr)) (fun _ _ h => h)

/-- Evolution changes columns only. -/
theorem evolveAndAlign_rows (batch : Batch ρ V) (s : St ρ) :
    wp (evolveAndAlign be batch) (fun b _ => b.rows = batch.rows) (fun _ _ => True) s := by
  unfold evolveAndAlign
  simp only [wp_bind, wp_get]
  refine wp_mono (wp_true _ s) (fun added s₁ _ => ?_) (fun _ _ h => h)
  refine wp_mono (wp_true _ s₁) (fun r s₂ _ => ?_) (fun _ _ h => h)
  cases hdrop : batch.dropColumns (added ++ r.1) with
  | none => trivial
  | some dropped =>
      simp only [wp_bind, wp_get, wp_pure]
      refine wp_mono (rewriteColumns_rows r.2 _ s₂) (fun b s₃ h => ?_) (fun _ _ h => h)
      rw [nullFillMissing_rows, h, (Batch.dropColumns_sublist hdrop).1]

theorem evolveAndAlign_spec (cfg : SinkConfig) (batch : Batch ρ V) (s : St ρ) :
    wp (evolveAndAlign be batch) (fun b s' => Quiet cfg s s' ∧ b.rows = batch.rows)
      (Fails (Quiet cfg) s) s :=
  wp_mono (wp_and (does_evolveAndAlign be _ kept_true batch s trivial) (evolveAndAlign_rows batch s))
    (fun _ _ h => h) (fun _ _ h => h.1)

/-! ## The groups -/

theorem partitionGroups_tuples {shape : Shape} {data : Batch ρ V}
    {groups : List (PartitionValues × Batch ρ V)} (h : partitionGroups be shape data = some groups) :
    ∀ g ∈ groups, g.1 = none ↔ shape.partitionSpec = [] := by
  intro g hg
  unfold partitionGroups at h
  by_cases hspec : shape.partitionSpec = []
  · have hgroups : [(none, data)] = groups := by simpa [hspec] using h
    rw [← hgroups, List.mem_singleton] at hg
    simp [hg, hspec]
  · simp only [List.isEmpty_iff, hspec, if_false] at h
    obtain ⟨sources, -, rfl⟩ := Option.map_eq_some_iff.1 h
    obtain ⟨values, -, rfl⟩ := List.mem_map.1 hg
    simp [hspec]

/-- Every row is in a group. -/
theorem partitionGroups_covers {shape : Shape} {data : Batch ρ V}
    {groups : List (PartitionValues × Batch ρ V)} (h : partitionGroups be shape data = some groups) :
    ∀ row ∈ data.rows, ∃ g ∈ groups, row ∈ g.2.rows := by
  intro row hrow
  unfold partitionGroups at h
  by_cases hspec : shape.partitionSpec = []
  · have hgroups : [(none, data)] = groups := by simpa [hspec] using h
    exact ⟨(none, data), by simp [← hgroups], hrow⟩
  · simp only [List.isEmpty_iff, hspec, if_false] at h
    obtain ⟨sources, -, rfl⟩ := Option.map_eq_some_iff.1 h
    have hmem : partitionTuple be sources data row ∈
        (data.rows.map (partitionTuple be sources data)).eraseDups :=
      List.mem_eraseDups.2 (List.mem_map_of_mem hrow)
    exact ⟨_, List.mem_map_of_mem hmem, by simp [hrow]⟩

/-! ## Uploading -/

/-- What an upload of these groups leaves in the store. -/
def uploadedObjects (landed : ℕ → Bool) (groups : List (PartitionValues × Batch ρ V)) (nextUri : ℕ) :
    List (Uri × List ρ) :=
  (groups.zipIdx.filter fun g => landed g.2).map fun g => (.own (nextUri + g.2), g.1.2.rows)

/-- The world after an upload. -/
def World.uploaded (w : World ρ) (n : ℕ) (objects : List (Uri × List ρ)) : World ρ :=
  { w with nextUri := w.nextUri + n, objects := w.objects ++ objects }

theorem uploadGroups_paths (landed : ℕ → Bool) (groups : List (PartitionValues × Batch ρ V))
    (w : World ρ) : (uploadGroups landed groups w).1.map (·.path) =
      (uploadedObjects landed groups w.nextUri).map Prod.fst := by
  simp [uploadGroups, uploadedObjects, Function.comp_def]

theorem uploadGroups_values {landed : ℕ → Bool} {groups : List (PartitionValues × Batch ρ V)}
    {w : World ρ} {file : DataFile} (h : file ∈ (uploadGroups landed groups w).1) :
    ∃ g ∈ groups, file.partitionValues = g.1 := by
  obtain ⟨g, hg, rfl⟩ := List.mem_map.1 h
  exact ⟨g.1, (List.mem_zipIdx' (List.mem_filter.1 hg).1).2 ▸ List.getElem_mem _, rfl⟩

theorem zipIdx_uris (groups : List (PartitionValues × Batch ρ V)) (nextUri : ℕ) :
    groups.zipIdx.map (fun g => Uri.own (nextUri + g.2)) =
      (List.range groups.length).map fun i => .own (nextUri + i) := by
  have h : (groups.zipIdx.map Prod.snd).map (fun i => Uri.own (nextUri + i)) =
      (List.range groups.length).map fun i => .own (nextUri + i) := by
    rw [List.zipIdx_map_snd, List.range_eq_range']
  rw [← h, List.map_map]
  rfl

theorem uploadedObjects_sublist (landed : ℕ → Bool) (groups : List (PartitionValues × Batch ρ V))
    (nextUri : ℕ) : ((uploadedObjects landed groups nextUri).map Prod.fst).Sublist
      ((List.range groups.length).map fun i => .own (nextUri + i)) := by
  rw [← zipIdx_uris]
  unfold uploadedObjects
  rw [List.map_map]
  exact List.filter_sublist.map _

theorem uploadedObjects_all (groups : List (PartitionValues × Batch ρ V)) (nextUri : ℕ) :
    (uploadedObjects (fun _ => true) groups nextUri).map Prod.fst =
      (List.range groups.length).map fun i => .own (nextUri + i) := by
  rw [← zipIdx_uris]
  simp [uploadedObjects, Function.comp_def]

theorem uploadedObjects_length (groups : List (PartitionValues × Batch ρ V)) (nextUri : ℕ) :
    (uploadedObjects (fun _ => true) groups nextUri).length = groups.length := by
  simp [uploadedObjects]

theorem uploadedObjects_mem {groups : List (PartitionValues × Batch ρ V)} (nextUri : ℕ)
    {g : PartitionValues × Batch ρ V} (h : g ∈ groups) :
    ∃ o ∈ uploadedObjects (fun _ => true) groups nextUri, o.2 = g.2.rows := by
  obtain ⟨i, hi, rfl⟩ := List.getElem_of_mem h
  refine ⟨(.own (nextUri + i), groups[i].2.rows), List.mem_map.2 ⟨(groups[i], i), ?_, rfl⟩, rfl⟩
  simp [List.mem_zipIdx_iff_getElem?]

/-! ## The client's read -/

theorem Standing.fails {s s' : St ρ} {r : Raised} (h : Standing cfg s s') :
    Fails (Standing cfg) s r s' := .of h h.grows

theorem Standing.moved (s : St ρ) {w : World ρ} (h : s.world.Evolves w) (retryAfter : Option ℚ) :
    Standing cfg s (s.moved w retryAfter) := (Quiet.moved s h retryAfter).toStanding

/-- The read of a prepare is the one in the client's cache afterwards. -/
theorem preparedRead_spec {s : St ρ} {info : TableInfo} (hworking : Working s info)
    (hfresh : CheckedFresh cfg s) :
    wp (preparedRead cfg.retention)
      (fun read s' => Standing cfg s s' ∧ Working s' info ∧
        ∃ t, s'.world.handle.cache = some (read, t))
      (fun r s' => r.uploadedUris = [] ∧ Fails (Standing cfg) s r s') s := by
  have hread : cacheIsUsable cfg.retention s.world = false →
      wp (tableRead : M ρ TableInfo)
        (fun read s' => Standing cfg s s' ∧ Working s' info ∧
          ∃ t, s'.world.handle.cache = some (read, t))
        (fun r s' => r.uploadedUris = [] ∧ Fails (Standing cfg) s r s') s := by
    intro hstale
    unfold tableRead
    simp only [wp_bind, wp_seedHandle, wp_pure]
    refine wp_mono (call_spec answerRead_evolves s) ?_ ?_
    · rintro read _ ⟨w, w', hint, hw, hh, rfl⟩
      obtain ⟨rfl, hhonest⟩ := answerRead_ok hh
      exact ⟨⟨.single (.reread w' hint info read hworking hfresh hstale hw hhonest), rfl, rfl, rfl⟩,
        ⟨hworking.table, hworking.live, hworking.reconciled⟩, _, rfl⟩
    · rintro r _ ⟨huris, w, hint, hw, rfl⟩
      exact ⟨huris, (Standing.moved s hw hint).fails⟩
  unfold preparedRead
  simp only [wp_bind, wp_get]
  cases hcache : s.world.handle.cache with
  | none => exact hread (by simp [cacheIsUsable, hcache])
  | some seeded =>
      cases husable : cacheIsUsable cfg.retention s.world with
      | true => exact ⟨.refl s, hworking, seeded.2, hcache⟩
      | false => exact hread husable

/-! ## The client's prepare -/

/-- The local work passed. -/
def St.worked (s : St ρ) : St ρ :=
  s.moved { s.world with net := s.world.net.move (.elapse s.turn.localWork s.turn.localWork_nonneg) }
    s.sink.retryAfter

variable (cfg) in
/-- From a state that is ready, these groups were uploaded and nothing is recorded yet. -/
structure UploadsFrom (s s₁ : St ρ) (info read : TableInfo) (n : ℕ)
    (objects : List (Uri × List ρ)) (s' : St ρ) : Prop where
  standing : Standing cfg s s₁
  ready : UploadReady s₁ info read
  after : s' = { s₁ with world := s₁.world.uploaded n objects }

variable (cfg) in
/-- The uploads all landed, and the files fit the spec of the client's read. -/
def Prepared (s : St ρ) (info : TableInfo) (groups : List (PartitionValues × Batch ρ V))
    (result : List DataFile × TableInfo) (s' : St ρ) : Prop :=
  ∃ s₁, UploadsFrom cfg s s₁ info result.2 groups.length
      (uploadedObjects (fun _ => true) groups s₁.world.nextUri) s' ∧
    result.1 = (uploadGroups (fun _ => true) groups s₁.world).1 ∧
    ∀ g ∈ groups, Server.fits result.2.shape.partitionSpec ⟨.own 0, 0, g.1⟩ = true

variable (cfg) in
/-- The exception names the uploads that landed; before the first one there are none. -/
def PrepareFails (s : St ρ) (info : TableInfo) (r : Raised) (s' : St ρ) : Prop :=
  (r.uploadedUris = [] ∧ Fails (Standing cfg) s r s') ∨
    ∃ s₁ read n objects, UploadsFrom cfg s s₁ info read n objects s' ∧
      r.uploadedUris = objects.map Prod.fst ∧
      (objects.map Prod.fst).Sublist ((List.range n).map fun i => .own (s₁.world.nextUri + i))

theorem PrepareFails.after {s s₁ s' : St ρ} {info : TableInfo} {r : Raised}
    (h : PrepareFails cfg s₁ info r s') (hs : Standing cfg s s₁) :
    PrepareFails cfg s info r s' := by
  rcases h with ⟨huris, hfails⟩ | ⟨s₂, read, n, objects, hup, hrest⟩
  · exact Or.inl ⟨huris, hfails.after hs.grows hs.trans⟩
  · exact Or.inr ⟨s₂, read, n, objects, ⟨hs.trans hup.standing, hup.ready, hup.after⟩, hrest⟩

@[simp] theorem wp_passLocalWork {Q : PUnit → St ρ → Prop} {E : Raised → St ρ → Prop} :
    wp (passLocalWork : M ρ PUnit) Q E = fun s => Q ⟨⟩ s.worked := rfl

theorem St.standing_worked (s : St ρ) : Standing cfg s s.worked := by
  have hnet := Net.evolves_move s.world.net (.elapse s.turn.localWork s.turn.localWork_nonneg)
  refine Standing.moved s ?_ s.sink.retryAfter
  exact ⟨hnet, rfl, rfl, rfl, rfl⟩

theorem Working.worked {s : St ρ} {info : TableInfo} (h : Working s info) : Working s.worked info :=
  ⟨h.table, h.live, h.reconciled⟩

/-- The sink's check, as old as the local work. -/
theorem Informed.checkedFresh {s s' : St ρ} {info : TableInfo} (h : Informed cfg s info s') :
    CheckedFresh cfg s'.worked := by
  obtain ⟨t, hreadAt, hage⟩ := h.fresh
  refine ⟨t, hreadAt, fun r hr => ?_⟩
  have hlt := hage r hr
  show s'.world.net.now + s'.turn.localWork - t < r / 4 + s'.turn.localWork
  linarith

theorem of_refusedBeforeUpload_none {expected : Option Uuid} {data : Batch ρ V}
    {groups : List (PartitionValues × Batch ρ V)} {info : TableInfo}
    (h : refusedBeforeUpload expected data groups info = none) :
    expected = some info.uuid ∧
      ∀ g ∈ groups, Server.fits info.shape.partitionSpec ⟨.own 0, 0, g.1⟩ = true := by
  unfold refusedBeforeUpload at h
  by_cases huuid : expected = some info.uuid
  · refine ⟨huuid, ?_⟩
    by_cases hmatch : columnsMatch data info.shape = true
    · simpa [huuid, hmatch] using h
    · simp [huuid, hmatch] at h
  · simp [huuid] at h

theorem UploadReady.moved {s : St ρ} {info read : TableInfo} (h : UploadReady s info read)
    {w : World ρ} (hw : s.world.Evolves w) (retryAfter : Option ℚ) :
    UploadReady (s.moved w retryAfter) info read :=
  ⟨⟨h.working.table, h.working.live, h.working.reconciled⟩, h.held,
    h.cache.imp fun _ hcache => hw.handle ▸ hcache, h.uuid⟩

/-- The uploads, all or some of them. -/
theorem uploadFanout_spec {s : St ρ} {info read : TableInfo}
    (groups : List (PartitionValues × Batch ρ V)) (hready : UploadReady s info read) :
    wp (uploadFanout groups)
      (fun files s' => ∃ s₁, UploadsFrom cfg s s₁ info read groups.length
          (uploadedObjects (fun _ => true) groups s₁.world.nextUri) s' ∧
        files = (uploadGroups (fun _ => true) groups s₁.world).1)
      (PrepareFails cfg s info) s := by
  unfold uploadFanout
  simp only [wp_bind, wp_takeTurn, wp_get]
  have hmoved : ∀ w, s.world.Evolves w → ∀ objects,
      UploadsFrom cfg s (s.moved w (noteResponse s.turn s.sink.retryAfter)) info read groups.length
        objects { s.moved w (noteResponse s.turn s.sink.retryAfter) with
          world := w.uploaded groups.length objects } := fun w hw _ =>
    ⟨Standing.moved s hw _, hready.moved hw _, rfl⟩
  have hturn := s.world.evolves_nextTurn
  cases s.turn.uploads with
  | all => exact ⟨_, hmoved _ hturn _, rfl⟩
  | failing ends error =>
      -- to a step, what the failed uploads leave is there before the objects that are named
      exact Or.inr ⟨_, read, groups.length, uploadedObjects (ends · = .closed) groups _,
        hmoved _ (hturn.tear (tornUris ends groups s.world.nextTurn)) _,
        uploadGroups_paths _ groups _, uploadedObjects_sublist ..⟩

theorem prepareAppendTables_spec {s₀ s : St ρ} {info : TableInfo} (data : Batch ρ V)
    (groups : List (PartitionValues × Batch ρ V)) (hinformed : Informed cfg s₀ info s)
    (hnone : s.sink.prepared = none) :
    wp (prepareAppendTables cfg.retention s.sink.tableUuid data groups)
      (Prepared cfg s info groups) (PrepareFails cfg s info) s := by
  unfold prepareAppendTables
  simp only [wp_bind, wp_passLocalWork]
  have hstand : Standing cfg s (s.worked) := s.standing_worked
  refine wp_mono (preparedRead_spec (s := s.worked) hinformed.working.worked hinformed.checkedFresh) ?_
    (fun r _ h => Or.inl ⟨h.1, h.2.after hstand.grows hstand.trans⟩)
  rintro read s₁ ⟨hs₁, hworking, hcache⟩
  have hstand₁ := hstand.trans hs₁
  cases hrefused : refusedBeforeUpload s.sink.tableUuid data groups read with
  | some e => exact Or.inl ⟨rfl, hstand₁.fails⟩
  | none =>
      obtain ⟨huuid, hfits⟩ := of_refusedBeforeUpload_none hrefused
      have hready : UploadReady s₁ info read :=
        ⟨hworking, hstand₁.prepared.trans hnone, hcache, hstand₁.tableUuid.trans huuid⟩
      simp only [wp_bind, wp_pure]
      refine wp_mono (uploadFanout_spec groups hready) ?_ (fun r s' h => h.after hstand₁)
      rintro files s₂ ⟨s₃, hup, hfiles⟩
      exact ⟨s₃, ⟨hstand₁.trans hup.standing, hup.ready, hup.after⟩, hfiles, hfits⟩

/-! ## The request -/

@[simp] theorem wp_countOrphans (uris : List Uri) (reason : OrphanReason) {Q : PUnit → St ρ → Prop}
    {E : Raised → St ρ → Prop} :
    wp (countOrphans uris reason : M ρ PUnit) Q E = fun s => Q ⟨⟩ (s.report uris reason) := by
  unfold countOrphans St.report
  split <;> rfl

variable (cfg) in
/-- A request for these rows: its objects are uploaded, and it is not held yet. -/
structure Built (s : St ρ) (rows : List ρ) (key : Key) (payload : Payload) (s₁ : St ρ)
    (info read : TableInfo) (objects : List (Uri × List ρ)) : Prop where
  standing : Standing cfg s s₁
  ready : UploadReady s₁ info read
  built : payload.BuiltFrom s₁.world.nextUri objects.length info read
  objects_eq : objects.map Prod.fst = payload.uris
  key_eq : payload.idempotencyKey = key
  covers : ∀ row ∈ rows, ∃ o ∈ objects, row ∈ o.2

/-- The state after a prepare. -/
def St.built (s : St ρ) (info : TableInfo) (objects : List (Uri × List ρ)) (payload : Payload) : St ρ :=
  (s.upload info objects.length objects).note (.prepared payload info)

/-- Uploads that landed are seen. -/
theorem UploadsFrom.noted {s s₁ s' : St ρ} {info read : TableInfo} {n : ℕ}
    {objects : List (Uri × List ρ)} (h : UploadsFrom cfg s s₁ info read n objects s')
    {Q : PUnit → St ρ → Prop} {E : Raised → St ρ → Prop} (hQ : Q ⟨⟩ (s₁.upload info n objects)) :
    wp (noteUploaded info (objects.map Prod.fst)) Q E s' := by
  rw [h.after]
  unfold noteUploaded
  cases objects with
  | nil => exact hQ
  | cons o rest => exact hQ

/-- The arm around the uploads reports what landed. -/
theorem uploadsFailed_spec {α : Type} {s s' : St ρ} {info : TableInfo} {r : Raised}
    {Q : α → St ρ → Prop} (h : PrepareFails cfg s info r s') :
    wp (uploadsFailed info r : M ρ α) Q (Fails (Standing cfg) s) s' := by
  unfold uploadsFailed
  rw [wp_bind]
  rcases h with ⟨huris, hfails⟩ | ⟨s₁, read, n, objects, hup, huris, hsub⟩
  · have hnote : (noteUploaded info r.uploadedUris : M ρ PUnit) = pure ⟨⟩ := by
      rw [huris]
      rfl
    rw [hnote, wp_pure]
    cases hr : r.error with
    | killed => exact hfails
    | _ =>
        simp only [wp_bind, wp_countOrphans, wp_throw, huris]
        exact hfails
  · rw [huris]
    refine hup.noted ?_
    have hstep : Standing cfg s ((s₁.upload info n objects).report (objects.map Prod.fst)
        .prepareFailed) := by
      refine hup.standing.trans ⟨.single (.uploadFailed info read n objects hup.ready hsub), ?_, ?_, ?_⟩
      all_goals
        rw [St.report_sink]
        rfl
    cases hr : r.error with
    | killed =>
        have hgrows := hstep.grows
        rw [St.report_world] at hgrows
        simp only [wp_throw]
        unfold Fails
        rwa [if_pos hr]
    | _ =>
        simp only [wp_bind, wp_countOrphans, wp_throw]
        exact hstep.fails

/-- The request of a prepare whose uploads all landed. -/
theorem Prepared.builtFrom {s s₁ s' : St ρ} {info read : TableInfo} {shape : Shape}
    {data : Batch ρ V} {groups : List (PartitionValues × Batch ρ V)} {sink : Sink} {key : Key}
    {facts : FlushFacts} (hshape : shape = info.shape)
    (hup : UploadsFrom cfg s s₁ info read groups.length
      (uploadedObjects (fun _ => true) groups s₁.world.nextUri) s')
    (hfits : ∀ g ∈ groups, Server.fits read.shape.partitionSpec ⟨.own 0, 0, g.1⟩ = true)
    (hgroups : partitionGroups be shape data = some groups) (hrows : data.rows ≠ [])
    (huuid : sink.tableUuid = s₁.sink.tableUuid) :
    (commitRequest cfg sink data groups key facts
      (uploadGroups (fun _ => true) groups s₁.world).1 read).BuiltFrom s₁.world.nextUri
        (uploadedObjects (fun _ => true) groups s₁.world.nextUri).length info read := by
  subst hshape
  have hne : groups ≠ [] := by
    obtain ⟨row, hrow⟩ := List.exists_mem_of_ne_nil _ hrows
    obtain ⟨g, hg, -⟩ := partitionGroups_covers hgroups row hrow
    exact List.ne_nil_of_mem hg
  refine ⟨?_, rfl, ?_, ?_, ?_, ?_⟩
  · show sink.tableUuid.getD read.uuid = read.uuid
    rw [huuid, hup.ready.uuid]
    rfl
  · show (uploadGroups (fun _ => true) groups s₁.world).1.map (·.path) = _
    rw [uploadGroups_paths, uploadedObjects_all, uploadedObjects_length]
  · rw [uploadedObjects_length]
    exact List.length_pos_of_ne_nil hne
  · intro file hfile
    have hfile' : file ∈ (uploadGroups (fun _ => true) groups s₁.world).1 := hfile
    obtain ⟨g, hg, hvalues⟩ := uploadGroups_values hfile'
    have hfit := hfits g hg
    unfold Server.fits at hfit ⊢
    rwa [hvalues]
  · intro file hfile
    have hfile' : file ∈ (uploadGroups (fun _ => true) groups s₁.world).1 := hfile
    obtain ⟨g, hg, hvalues⟩ := uploadGroups_values hfile'
    rw [hvalues]
    exact partitionGroups_tuples hgroups g hg

/-- `_prepare` builds a request for the rows of the batch, or leaves none. -/
theorem prepare_spec {s : St ρ} {batch : Batch ρ V} (key : Key) (facts : FlushFacts)
    (htable : s.sink.table = true) (hnone : s.sink.prepared = none) (hrows : batch.rows ≠ []) :
    wp (prepare cfg be batch key facts)
      (fun payload s' => ∃ s₁ info read objects,
        Built cfg s batch.rows key payload s₁ info read objects ∧
        s' = s₁.built info objects payload)
      (Fails (Standing cfg) s) s := by
  unfold prepare
  rw [wp_bind]
  refine wp_mono (tableInfo_spec htable) ?_ (fun _ _ h => h.mono Quiet.toStanding)
  intro info s₁ hinformed
  simp only [wp_bind, wp_get]
  have hnone₁ := hinformed.standing.prepared.trans hnone
  cases halign : align be info.shape.columns (nullFillMissing s₁.sink.liveColumns batch) with
  | none => exact hinformed.standing.fails
  | some aligned =>
      have haligned : aligned.rows = batch.rows := by
        rw [align_rows halign, nullFillMissing_rows]
      simp only
      cases hgroups : partitionGroups be info.shape aligned with
      | none => exact hinformed.standing.fails
      | some groups =>
          simp only [wp_bind, wp_tryCatch]
          refine wp_mono (prepareAppendTables_spec aligned groups hinformed hnone₁) ?_
            (fun r s₂ h => uploadsFailed_spec (h.after hinformed.standing))
          rintro ⟨files, read⟩ s₂ ⟨s₃, hup, hfiles, hfits⟩
          obtain rfl : files = _ := hfiles
          have hpaths := uploadGroups_paths (fun _ => true) groups s₃.world
          show wp (noteUploaded info ((uploadGroups (fun _ => true) groups s₃.world).1.map (·.path)))
            _ _ s₂
          rw [hpaths]
          refine hup.noted ?_
          simp only [wp_emit, wp_pure]
          refine ⟨s₃, info, read, uploadedObjects (fun _ => true) groups s₃.world.nextUri,
            ⟨hinformed.standing.trans hup.standing, hup.ready, ?_, hpaths.symm, rfl, ?_⟩, ?_⟩
          · exact Prepared.builtFrom rfl hup hfits hgroups (haligned ▸ hrows)
              hup.standing.tableUuid.symm
          · intro row hrow
            obtain ⟨g, hg, hmem⟩ := partitionGroups_covers hgroups row (haligned ▸ hrow)
            obtain ⟨o, ho, heq⟩ := uploadedObjects_mem s₃.world.nextUri hg
            exact ⟨o, ho, heq ▸ hmem⟩
          · unfold St.built
            rw [uploadedObjects_length]

/-! ## Building a payload -/

/-- The self-heal re-reads once and prepares again. -/
theorem prepareHealing_spec {s : St ρ} {batch : Batch ρ V} (key : Key) (facts : FlushFacts)
    (htable : s.sink.table = true) (hnone : s.sink.prepared = none) (hrows : batch.rows ≠ []) :
    wp (prepareHealing cfg be batch key facts)
      (fun payload s' => ∃ s₁ info read objects,
        Built cfg s batch.rows key payload s₁ info read objects ∧
        s' = s₁.built info objects payload)
      (Fails (Standing cfg) s) s := by
  unfold prepareHealing
  rw [wp_tryHoglake]
  refine wp_mono (prepare_spec key facts htable hnone hrows) (fun _ _ h => h) ?_
  intro r s₁ hfails
  cases hr : r.error with
  | hoglake e =>
      have hs₁ : Standing cfg s s₁ := by
        unfold Fails at hfails
        rwa [if_neg (by simp [hr])] at hfails
      simp only [wp_ite, wp_bind, wp_raise]
      refine ⟨fun _ => ?_, fun _ => hs₁.fails⟩
      refine wp_mono (seeds_tableRead s₁) ?_
        (fun _ _ h => (h.mono Quiet.toStanding).after hs₁.grows hs₁.trans)
      rintro info _ ⟨s₂, hq, hhonest, rfl⟩
      refine wp_adoptInfo info false s₂ ?_
      have hs₂ : Standing cfg s (s₂.adopt info false) :=
        hs₁.trans (hq.trans (Quiet.adopt s₂ false hhonest)).toStanding
      simp only [wp_get]
      refine wp_mono (prepare_spec key facts (hs₂.table.trans htable) (hs₂.prepared.trans hnone)
        (by rwa [nullFillMissing_rows])) ?_ (fun _ _ h => h.after hs₂.grows hs₂.trans)
      rintro payload s' ⟨s₃, info', read, objects, hbuilt, hs'⟩
      rw [nullFillMissing_rows] at hbuilt
      exact ⟨s₃, info', read, objects, ⟨hs₂.trans hbuilt.standing, hbuilt.ready, hbuilt.built,
        hbuilt.objects_eq, hbuilt.key_eq, hbuilt.covers⟩, hs'⟩
  | _ => exact hfails

variable (cfg) in
/-- The key of a flush names the incarnation its request expects. -/
def Payload.KeyedFor (payload : Payload) (identity : Option Identity) : Prop :=
  ∀ offsets, identity = some offsets →
    payload.idempotencyKey = .uuid5 (flushName cfg (some payload.expectedTableUuid) offsets)

/-- The objects of the payload hold these rows. -/
def Payload.Covers (payload : Payload) (objects : List (Uri × List ρ)) (rows : List ρ) : Prop :=
  ∀ row ∈ rows, ∃ o ∈ objects, o.1 ∈ payload.uris ∧ row ∈ o.2

variable (cfg) in
/-- A payload for this flush is held. -/
structure Holds (flush : Flush ρ V) (payload : Payload) (s : St ρ) : Prop where
  held : s.sink.held = (some payload, flush.batch.rows.length, flush.identity)
  key : payload.KeyedFor cfg flush.identity
  covers : payload.Covers s.world.objects flush.batch.rows

theorem flushKey_spec (identity : Option Identity) (s : St ρ) :
    wp (flushKey cfg s.sink.tableUuid identity)
      (fun key s' => Standing cfg s s' ∧
        ∀ offsets, identity = some offsets → key = .uuid5 (flushName cfg s.sink.tableUuid offsets))
      (fun _ _ => False) s := by
  unfold flushKey
  cases identity with
  | some offsets =>
      refine ⟨.refl s, fun offsets' h => ?_⟩
      obtain rfl : offsets = offsets' := by simpa using h
      rfl
  | none =>
      have hworld : s.world.Evolves { s.world with nextUuid4 := s.world.nextUuid4 + 1 } :=
        ⟨.refl _, rfl, rfl, rfl, rfl⟩
      exact ⟨Standing.moved s hworld s.sink.retryAfter, fun _ h => absurd h (by simp)⟩

variable (cfg) in
/-- Steps that end without a payload. -/
structure Unheld (s s' : St ρ) : Prop where
  steps : Steps cfg s s'
  prepared : s'.sink.prepared = none

theorem Standing.unheld {s s' : St ρ} (h : Standing cfg s s') (hnone : s.sink.prepared = none) :
    Unheld cfg s s' := ⟨h.steps, h.prepared.trans hnone⟩

theorem Attached.prepared {s s' : St ρ} (h : Attached cfg s s') :
    s'.sink.prepared = s.sink.prepared := congrArg Prod.fst h.held

theorem Unheld.after {s s₁ s' : St ρ} (h : Unheld cfg s₁ s') (hs : Steps cfg s s₁) :
    Unheld cfg s s' := ⟨hs.trans h.steps, h.prepared⟩

theorem buildPayload_spec {s : St ρ} (flush : Flush ρ V) (hverdict : NoVerdict s)
    (hnone : s.sink.prepared = none) (hrows : flush.batch.rows ≠ []) :
    wp (buildPayload cfg be flush)
      (fun _ s' => Steps cfg s s' ∧ ∃ payload, Holds cfg flush payload s')
      (Fails (Unheld cfg) s) s := by
  unfold buildPayload
  simp only [wp_bind, wp_get]
  refine wp_mono (ensureTable_spec _ hverdict) ?_
    (fun _ _ h => h.mono fun hq => hq.toStanding.unheld hnone)
  intro _ s₁ hattached
  refine wp_mono (flushKey_spec flush.identity s₁) ?_ (fun _ _ h => h.elim)
  rintro key s₂ ⟨hs₂, hkey⟩
  refine wp_mono (evolveAndAlign_spec cfg _ s₂) ?_ ?_
  · rintro batch s₃ ⟨hq₃, hbatch⟩
    have hs₃ : Standing cfg s₁ s₃ := hs₂.trans hq₃.toStanding
    have hrows₃ : batch.rows = flush.batch.rows := hbatch
    have hnone₃ := hs₃.prepared.trans (hattached.prepared.trans hnone)
    refine wp_mono (prepareHealing_spec key _ (hs₃.table.trans hattached.table) hnone₃
      (hrows₃ ▸ hrows)) ?_ ?_
    · rintro payload _ ⟨s₄, info, read, objects, hbuilt, rfl⟩
      have hs₄ : Standing cfg s₁ s₄ := hs₃.trans hbuilt.standing
      simp only [wp_onSink]
      refine ⟨(hattached.steps.trans hs₄.steps).tail (.prepare info read payload objects
        batch.numRows flush.identity hbuilt.ready hbuilt.built hbuilt.objects_eq), payload, ?_, ?_, ?_⟩
      · show (some payload, batch.rows.length, flush.identity) = _
        rw [hrows₃]
      · intro offsets hoffsets
        rw [hbuilt.key_eq, hkey offsets hoffsets, hbuilt.built.uuid, ← hs₄.tableUuid,
          hbuilt.ready.uuid]
      · intro row hrow
        obtain ⟨o, ho, hmem⟩ := hbuilt.covers row (hrows₃ ▸ hrow)
        exact ⟨o, List.mem_append_right _ ho, hbuilt.objects_eq ▸ List.mem_map_of_mem ho, hmem⟩
    · intro r s₄ h
      have hgrows := hattached.steps.grows.trans hs₃.grows
      exact h.after hgrows fun hs₄ =>
        (hs₄.unheld hnone₃).after (hattached.steps.trans hs₃.steps)
  · intro r s₃ h
    have hnone₂ := hs₂.prepared.trans (hattached.prepared.trans hnone)
    exact h.after (hattached.steps.grows.trans hs₂.grows) fun hq =>
      (hq.toStanding.unheld hnone₂).after (hattached.steps.trans hs₂.steps)

end Millpond.Hoglake
