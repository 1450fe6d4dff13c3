import Millpond.Hoglake.PartitionValues

set_option autoImplicit false

/-! # The configured layout

`_table_info` compares config and table anew only when the spec tuples changed, so a shape with the
spec of the verdict but other columns under the configured names passes unseen. Without such a
shape, and without a declared sort order answered by a partitioned table, every upload is fanned out
under the configured layout. -/

namespace Millpond.Hoglake

open Prog

variable {ρ V : Type} {cfg : SinkConfig} {be : Backend ρ V}

/-! ## The shapes a run adopts -/

/-- The shape of the verdict in force, newest event first. -/
def verdictOf : List Event → Option TableInfo
  | [] => none
  | .reconciled info :: _ => some info
  | .dropped :: _ => none
  | _ :: rest => verdictOf rest

variable (cfg) in
/-- A shape with the spec tuples of the verdict resolves HOGLAKE_PARTITION_BY as the shape of the
    verdict did, and a declaration is not answered by a spec that config does not have. -/
def AdoptsSteadily (verdict : Option TableInfo) (info : TableInfo) (declared : Bool) : Prop :=
  (∀ r ∈ verdict, specIdentity info = specIdentity r →
    wantPartitionFields cfg info.shape.columns = wantPartitionFields cfg r.shape.columns) ∧
  (declared = true → cfg.partitionBy = [] → info.shape.partitionSpec = [])

instance (verdict : Option TableInfo) (info : TableInfo) (declared : Bool) :
    Decidable (AdoptsSteadily cfg verdict info declared) :=
  inferInstanceAs (Decidable (_ ∧ _))

variable (cfg) in
/-- Every read and every receipt of the log was adopted steadily. -/
def Steady : List Event → Prop
  | [] => True
  | .adopted info declared :: rest => AdoptsSteadily cfg (verdictOf rest) info declared ∧ Steady rest
  | _ :: rest => Steady rest

instance decidableSteady : (log : List Event) → Decidable (Steady cfg log)
  | [] => .isTrue trivial
  | .adopted info declared :: rest =>
      haveI := decidableSteady rest
      inferInstanceAs
        (Decidable (AdoptsSteadily cfg (verdictOf rest) info declared ∧ Steady cfg rest))
  | .reconciled _ :: rest => decidableSteady rest
  | .dropped :: rest => decidableSteady rest
  | .uploaded _ _ :: rest => decidableSteady rest
  | .prepared _ _ :: rest => decidableSteady rest
  | .discarded _ _ _ :: rest => decidableSteady rest
  | .orphans _ _ :: rest => decidableSteady rest
  | .sent _ :: rest => decidableSteady rest
  | .alreadyPublished _ :: rest => decidableSteady rest

theorem Steady.suffix {log log' : List Event} (h : Steady cfg log') (hsuffix : log <:+ log') :
    Steady cfg log := by
  obtain ⟨newer, rfl⟩ := hsuffix
  induction newer with
  | nil => exact h
  | cons e rest ih =>
      refine ih ?_
      cases e with
      | adopted => exact h.2
      | _ => exact h

/-! ## The invariant -/

variable (cfg) in
/-- The verdict and the shape in hand agree with config, and so did every upload. -/
structure Laid (s : St ρ) : Prop where
  columns : s.sink.table = true → ∀ info, s.sink.liveInfo = some info →
    s.sink.liveColumns = info.shape.columns ∨ cfg.partitionBy = []
  verdict : s.sink.reconciledSpecs = (verdictOf s.log).map specIdentity
  agrees : Steady cfg s.log → ∀ r, verdictOf s.log = some r → Agrees cfg r.shape.columns r
  live : Steady cfg s.log → ∀ info, s.sink.liveInfo = some info →
    s.sink.reconciledSpecs = some (specIdentity info) → Agrees cfg info.shape.columns info
  uploads : Steady cfg s.log → ∀ info uris, .uploaded info uris ∈ s.log →
    Agrees cfg info.shape.columns info

/-- Steps that change neither the shape in hand nor the events about it. -/
theorem Laid.keep {s s' : St ρ} (h : Laid cfg s) (htable : s'.sink.table = s.sink.table)
    (hinfo : s'.sink.liveInfo = s.sink.liveInfo) (hcolumns : s'.sink.liveColumns = s.sink.liveColumns)
    (hrec : s'.sink.reconciledSpecs = s.sink.reconciledSpecs)
    (hverdict : verdictOf s'.log = verdictOf s.log) (hsuffix : s.log <:+ s'.log)
    (huploads : Steady cfg s'.log → ∀ info uris, .uploaded info uris ∈ s'.log →
      .uploaded info uris ∈ s.log ∨ Agrees cfg info.shape.columns info) : Laid cfg s' := by
  refine ⟨?_, ?_, ?_, ?_, ?_⟩
  · rw [htable, hinfo, hcolumns]
    exact h.columns
  · rw [hrec, hverdict]
    exact h.verdict
  · intro hsteady
    rw [hverdict]
    exact h.agrees (hsteady.suffix hsuffix)
  · intro hsteady
    rw [hinfo, hrec]
    exact h.live (hsteady.suffix hsuffix)
  · intro hsteady info uris hmem
    rcases huploads hsteady info uris hmem with hold | hagrees
    · exact h.uploads (hsteady.suffix hsuffix) info uris hold
    · exact hagrees

/-- With nothing configured, agreement does not depend on the columns. -/
theorem Agrees.of_unset {columns columns' : List Column} {info : TableInfo}
    (h : Agrees cfg columns info) (hunset : cfg.partitionBy = []) : Agrees cfg columns' info := by
  unfold Agrees wantPartitionFields at h ⊢
  rw [hunset] at h ⊢
  exact h

theorem agrees_of_unset {columns : List Column} {info : TableInfo} (hunset : cfg.partitionBy = [])
    (hspec : info.shape.partitionSpec = []) : Agrees cfg columns info := by
  unfold Agrees wantPartitionFields
  rw [hunset, hspec]
  rfl

/-- A verdict on the shape in hand is about that shape's own columns. -/
theorem Verdict.agrees {s : St ρ} {info : TableInfo} (hverdict : Verdict cfg s info)
    (hcolumns : s.sink.liveColumns = info.shape.columns ∨ cfg.partitionBy = [])
    (hsteady : Steady cfg s.log) : Agrees cfg info.shape.columns info := by
  cases hverdict with
  | compared agrees =>
      rcases hcolumns with heq | hunset
      · exact heq ▸ agrees
      · exact agrees.of_unset hunset
  | declared current log agrees =>
      rcases agrees with hunset | hagrees
      · obtain ⟨rest, hlog⟩ := log
        rw [hlog] at hsteady
        exact agrees_of_unset hunset (hsteady.1.2 rfl hunset)
      · exact hagrees

/-- Recording a verdict on the shape in hand. -/
theorem Laid.record {s s' : St ρ} (h : Laid cfg s) {info : TableInfo}
    (live : s.sink.liveInfo = some info) (verdict : Verdict cfg s info)
    (hcolumns : s.sink.liveColumns = info.shape.columns ∨ cfg.partitionBy = [])
    (hsink : s'.sink.liveInfo = s.sink.liveInfo ∧ s'.sink.liveColumns = s.sink.liveColumns ∧
      s'.sink.reconciledSpecs = some (specIdentity info))
    (hlog : s'.log = .reconciled info :: s.log) : Laid cfg s' := by
  obtain ⟨hinfo, hcols, hrec⟩ := hsink
  have hagrees : Steady cfg s'.log → Agrees cfg info.shape.columns info := by
    intro hsteady
    rw [hlog] at hsteady
    exact verdict.agrees hcolumns hsteady
  have hlive : ∀ i, s'.sink.liveInfo = some i → info = i := by
    intro i hi
    simpa [live] using hinfo.symm.trans hi
  refine ⟨fun _ i hi => ?_, ?_, fun hsteady r hr => ?_, fun hsteady i hi _ => ?_,
    fun hsteady i uris hmem => ?_⟩
  · obtain rfl := hlive i hi
    rwa [hcols]
  · rw [hrec, hlog]
    rfl
  · obtain rfl : info = r := by simpa [hlog, verdictOf] using hr
    exact hagrees hsteady
  · obtain rfl := hlive i hi
    exact hagrees hsteady
  · have hsteady' : Steady cfg s.log := hsteady.suffix (hlog ▸ List.suffix_cons _ _)
    exact h.uploads hsteady' i uris (by simpa [hlog] using hmem)

/-- Dropping the shape, its verdict with it. -/
theorem Laid.drop {s s' : St ρ} (h : Laid cfg s) (hinfo : s'.sink.liveInfo = none)
    (hrec : s'.sink.reconciledSpecs = none) (hlog : s'.log = .dropped :: s.log) : Laid cfg s' := by
  refine ⟨fun _ i hi => absurd (hinfo.symm.trans hi) (by simp), ?_, fun _ r hr => ?_,
    fun _ i hi => absurd (hinfo.symm.trans hi) (by simp), fun hsteady i uris hmem => ?_⟩
  · rw [hrec, hlog]
    rfl
  · exact absurd hr (by simp [hlog, verdictOf])
  · have hsteady' : Steady cfg s.log := hsteady.suffix (hlog ▸ List.suffix_cons _ _)
    exact h.uploads hsteady' i uris (by simpa [hlog] using hmem)

/-- Adopting a shape: if the verdict covers it, it resolves the configured layout alike. -/
theorem Laid.adopt {s : St ρ} (h : Laid cfg s) (info : TableInfo) (declared : Bool) :
    Laid cfg (s.adopt info declared) := by
  have hlive : ∀ i, (s.adopt info declared).sink.liveInfo = some i → info = i := by
    intro i hi
    simpa [St.adopt] using hi
  refine ⟨fun _ i hi => ?_, h.verdict, fun hsteady => h.agrees hsteady.2, fun hsteady i hi hrec => ?_,
    fun hsteady i uris hmem => ?_⟩
  · obtain rfl := hlive i hi
    exact Or.inl rfl
  · obtain rfl := hlive i hi
    have hrec' : (verdictOf s.log).map specIdentity = some (specIdentity info) := h.verdict.symm.trans hrec
    obtain ⟨r, hr, hidentity⟩ := Option.map_eq_some_iff.1 hrec'
    have hr_agrees := h.agrees hsteady.2 r hr
    have hsame := hsteady.1.1 r hr hidentity.symm
    have hspec : r.shape.partitionSpec = info.shape.partitionSpec := congrArg Prod.fst hidentity
    unfold Agrees at hr_agrees ⊢
    rw [hsame, hr_agrees, hspec]
  · exact h.uploads hsteady.2 i uris (by simpa [St.adopt] using hmem)

/-- Uploads are made under a shape with a verdict. -/
theorem Laid.upload {s : St ρ} (h : Laid cfg s) {info read : TableInfo} (hready : UploadReady s info read)
    (n : ℕ) (objects : List (Uri × List ρ)) : Laid cfg (s.upload info n objects) := by
  refine h.keep rfl rfl rfl rfl ?_ (s.upload_log_suffix info n objects) (fun hsteady i uris hmem => ?_)
  · show verdictOf (if objects.isEmpty then s.log else _) = _
    split <;> rfl
  · have hmem' : .uploaded i uris ∈
        (if objects.isEmpty then s.log else .uploaded info (objects.map Prod.fst) :: s.log) := hmem
    split at hmem'
    · exact Or.inl hmem'
    · rcases List.mem_cons.1 hmem' with heq | hold
      · obtain ⟨rfl, -⟩ : i = info ∧ _ := by simpa using heq
        have hsteady' := hsteady.suffix (s.upload_log_suffix i n objects)
        exact Or.inr (h.live hsteady' i hready.working.live hready.working.reconciled)
      · exact Or.inl hold

theorem Laid.report {s : St ρ} (h : Laid cfg s) (uris : List Uri) (reason : OrphanReason) :
    Laid cfg (s.report uris reason) := by
  unfold St.report
  split
  · exact h
  · exact h.keep rfl rfl rfl rfl rfl (List.suffix_cons _ _) fun _ _ _ hmem => Or.inl (by simpa using hmem)

theorem Laid.clear {s : St ρ} (h : Laid cfg s) : Laid cfg s.clear :=
  h.keep rfl rfl rfl rfl rfl (List.suffix_refl _) fun _ _ _ hmem => Or.inl hmem

/-- **Every step keeps the layout.** -/
theorem Step.laid {s s' : St ρ} (hstep : Step cfg s s') (h : Laid cfg s) : Laid cfg s' := by
  cases hstep with
  | world w retryAfter evolves =>
      exact h.keep rfl rfl rfl rfl rfl (List.suffix_refl _) fun _ _ _ hmem => Or.inl hmem
  | resolve info table reconciled honest =>
      refine ⟨fun htable => absurd (table.symm.trans htable) (by simp), h.verdict, h.agrees,
        fun _ i _ hrec => absurd (reconciled.symm.trans hrec) (by simp), h.uploads⟩
  | adopt info declared honest => exact h.adopt info declared
  | record info table live verdict =>
      exact h.record live verdict (h.columns table info live) ⟨rfl, rfl, rfl⟩ rfl
  | attachCreated table reconciled declared =>
      refine ⟨fun _ i hi => ?_, h.verdict, h.agrees, h.live, h.uploads⟩
      rcases declared with current | hunset
      · exact Or.inl (current i hi).1
      · exact Or.inr hunset
  | attachReconciled info table live current verdict =>
      exact h.record live verdict (Or.inl (current info live).1) ⟨rfl, rfl, rfl⟩ rfl
  | dropShape cache cache_eq => exact h.drop rfl rfl rfl
  | reset => exact h.drop rfl rfl rfl
  | reread w retryAfter info read working fresh stale evolves honest =>
      exact h.keep rfl rfl rfl rfl rfl (List.suffix_refl _) fun _ _ _ hmem => Or.inl hmem
  | prepare info read payload objects rows offsets ready built objects_eq =>
      exact (h.upload ready objects.length objects).keep rfl rfl rfl rfl rfl (List.suffix_cons _ _)
        fun _ _ _ hmem => Or.inl (by simpa [St.hold] using hmem)
  | uploadFailed info read n objects ready landed => exact (h.upload ready n objects).report _ _
  | send payload =>
      exact h.keep rfl rfl rfl rfl rfl (List.suffix_cons _ _)
        fun _ _ _ hmem => Or.inl (by simpa [St.send] using hmem)
  | commit =>
      exact h.keep rfl rfl rfl rfl rfl (List.suffix_refl _) fun _ _ _ hmem => Or.inl hmem
  | queue => exact h.keep rfl rfl rfl rfl rfl (List.suffix_refl _) fun _ _ _ hmem => Or.inl hmem
  | published => exact h.clear
  | alreadyPublished payload =>
      have hnote : Laid cfg (s.note (.alreadyPublished payload)) :=
        h.keep rfl rfl rfl rfl rfl (List.suffix_cons _ _)
          fun _ _ _ hmem => Or.inl (by simpa [St.note] using hmem)
      exact (hnote.report _ _).clear
  | discard payload reason =>
      have hnote : Laid cfg (s.note (.discarded payload reason (s.world.atRisk payload))) :=
        h.keep rfl rfl rfl rfl rfl (List.suffix_cons _ _)
          fun _ _ _ hmem => Or.inl (by simpa [St.note] using hmem)
      exact (hnote.report _ _).clear

theorem laid_new (world : World ρ) : Laid cfg (St.new world) :=
  ⟨fun _ i hi => absurd hi (by simp [St.new, Sink.new]), rfl,
    fun _ r hr => absurd hr (by simp [St.new, verdictOf]),
    fun _ i hi => absurd hi (by simp [St.new, Sink.new]), fun _ i uris hmem => absurd hmem (by simp [St.new])⟩

/-- **The configured layout, while shapes are adopted steadily.** Objects are uploaded only under a
    shape whose partition spec is HOGLAKE_PARTITION_BY resolved against that shape's own columns. -/
theorem uploaded_under_layout {world : World ρ} {calls : List (Call ρ V)} {s : St ρ}
    (hrun : run cfg be (St.new world) calls = some s) (hsteady : Steady cfg s.log) {info : TableInfo}
    {uris : List Uri} (huploaded : .uploaded info uris ∈ s.log) :
    wantPartitionFields cfg info.shape.columns = some info.shape.partitionSpec := by
  have hlaid : Laid cfg s := run_invariant (fun _ _ hstep h => hstep.laid h) (laid_new world) hrun
  exact hlaid.uploads hsteady info uris huploaded

theorem expiring_uploaded_under_layout : ∃ s info uris, .uploaded info uris ∈ (s : St ℕ).log ∧
    wantPartitionFields expiringCfg info.shape.columns = some info.shape.partitionSpec := by
  have hrun : ((run expiringCfg demoBackend (St.new (demoWorld partitionedByV []))
      [.write (demoFlush [7, 8] 0 1)]).bind fun s => (uploadsOf s.log).head?.map fun _ =>
        decide (Steady expiringCfg s.log)) = some true := by
    decide +kernel
  obtain ⟨s, hs, hlog⟩ := Option.bind_eq_some_iff.1 hrun
  obtain ⟨⟨info, uris⟩, hhead, hdec⟩ := Option.map_eq_some_iff.1 hlog
  have hmem : .uploaded info uris ∈ s.log := mem_uploadsOf.1 (List.mem_of_head? hhead)
  exact ⟨s, info, uris, hmem, uploaded_under_layout hs (of_decide_eq_true hdec) hmem⟩

/-- The table after another writer renamed `v` to `w` and added a new `v`. -/
def renamedV : Shape :=
  ⟨[⟨"w", 1, .long⟩, ⟨insertedAt, 2, .timestamptz⟩, ⟨"v", 9, .long⟩], [⟨1, "identity", none⟩], []⟩

/-- A flush with a column the table does not have yet. -/
def widerFlush (rows : List ℕ) (first last : ℕ) : Flush ℕ ℕ where
  batch := ⟨rows, [⟨"v", .of .long, some⟩, ⟨"x", .of .long, some⟩]⟩
  kafkaOffsets := some [(("clicks", 0), (first, last))]
  trigger := none

/-- The receipt of adding `x` has the spec of the verdict, so nothing is compared: the second flush
    is fanned out, and committed, by `w` while HOGLAKE_PARTITION_BY names `v`. -/
theorem renamed_uploaded_off_layout :
    ((run expiringCfg demoBackend (St.new (demoWorld partitionedByV []))
      [.write (demoFlush [7, 8] 0 1), .others [.alterTable renamedV], .write (widerFlush [9] 2 2)]).map
      fun s => ((uploadsOf s.log).map fun u =>
          decide (wantPartitionFields expiringCfg u.1.shape.columns = some u.1.shape.partitionSpec),
        s.world.net.server.ledger.entries.length)) = some ([false, true], 2) := by
  decide +kernel

end Millpond.Hoglake
