import Millpond.Hoglake.Reads

set_option autoImplicit false

/-! # Reconciling and resolving as steps

The comparison of config and table, the declaration of missing specs, and the three places a shape
comes from: a fresh cache, a read, a new table. -/

namespace Millpond.Hoglake

open Prog

variable {ρ V : Type} {cfg : SinkConfig}

/-! ## The comparison -/

theorem mapM_eq_nil_iff {α β : Type} {f : α → Option β} {l : List α} {r : List β}
    (h : l.mapM f = some r) : r = [] ↔ l = [] := by
  cases l with
  | nil =>
      obtain rfl : r = [] := by simpa using h.symm
      simp
  | cons a rest =>
      rw [List.mapM_cons] at h
      cases ha : f a with
      | none => simp [ha] at h
      | some b =>
          cases hrest : rest.mapM f with
          | none => simp [ha, hrest] at h
          | some bs =>
              obtain rfl : b :: bs = r := by simpa [ha, hrest] using h
              simp

theorem wantPartitionFields_nil_iff {columns : List Column} {fields : List PartitionField}
    (h : wantPartitionFields cfg columns = some fields) : fields = [] ↔ cfg.partitionBy = [] :=
  mapM_eq_nil_iff h

/-- A comparison that declares no partition spec found the configured one. -/
theorem compareSpecs_partition {info : TableInfo} {wantPartition : List PartitionField}
    {wantSort : Option (List SortField)} {r : Reconciliation}
    (h : compareSpecs cfg info wantPartition wantSort = some r) (hr : r ≠ .declare true) :
    info.shape.partitionSpec = wantPartition := by
  unfold compareSpecs at h
  simp only at h
  split at h
  · exact absurd h (by simp)
  · next hpart =>
      split at h
      · exact absurd h (by simp)
      · split at h
        · obtain rfl : Reconciliation.declare true = r := by simpa using h
          exact absurd rfl hr
        · next hdecl =>
            simp only [Bool.and_eq_true, Bool.not_eq_true', List.isEmpty_eq_false_iff,
              ne_eq, decide_not, decide_eq_false_iff_not, not_and, not_not,
              List.isEmpty_iff] at hpart hdecl
            by_cases hlive : info.shape.partitionSpec = []
            · by_cases hwant : wantPartition = []
              · rw [hlive, hwant]
              · exact absurd hlive (hdecl hwant)
            · exact hpart hlive

theorem compareSpecs_declare {info : TableInfo} {wantPartition : List PartitionField}
    {wantSort : Option (List SortField)}
    (h : compareSpecs cfg info wantPartition wantSort = some (.declare true)) :
    wantPartition ≠ [] := by
  unfold compareSpecs at h
  simp only at h
  split at h
  · exact absurd h (by simp)
  · split at h
    · exact absurd h (by simp)
    · split at h
      · next hdecl =>
          simp only [Bool.and_eq_true, Bool.not_eq_true', List.isEmpty_eq_false_iff] at hdecl
          exact hdecl.1
      · split at h <;> simp at h

/-! ## Declaring -/

theorem wp_getWantPartition {Q : List PartitionField → St ρ → Prop} {E : Raised → St ρ → Prop}
    {s : St ρ} (hnone : E ⟨.sink false, []⟩ s)
    (hsome : ∀ fields, wantPartitionFields cfg s.sink.liveColumns = some fields → Q fields s) :
    wp (getWantPartition cfg) Q E s := by
  unfold getWantPartition
  simp only [wp_bind, wp_get]
  cases hwant : wantPartitionFields cfg s.sink.liveColumns with
  | none => exact hnone
  | some fields => exact hsome fields hwant

theorem specOps_spec (partition : Bool) (s : St ρ) :
    wp (specOps cfg partition)
      (fun ops s' => s' = s ∧ (partition = true → ops = [] → cfg.partitionBy = []))
      (fun _ s' => s' = s) s := by
  unfold specOps
  have hrest : ∀ fields : List PartitionField,
      (partition = true → fields = [] → cfg.partitionBy = []) →
      wp (do
        let sortFields := (← getWantSort cfg).getD []
        pure ((if fields.isEmpty then [] else [.setPartitionSpec fields]) ++
          (if sortFields.isEmpty then [] else [.setSortOrder sortFields])) : M ρ (List AlterOp))
        (fun ops s' => s' = s ∧ (partition = true → ops = [] → cfg.partitionBy = []))
        (fun _ s' => s' = s) s := by
    intro fields hfields
    unfold getWantSort
    simp only [wp_bind, wp_get, wp_pure]
    refine ⟨trivial, fun hpart hops => hfields hpart ?_⟩
    by_contra hne
    simp [hne] at hops
  cases partition with
  | true =>
      show wp (getWantPartition cfg >>= fun fields => _) _ _ s
      rw [wp_bind]
      exact wp_getWantPartition rfl
        fun fields hwant => hrest fields fun _ hnil => (wantPartitionFields_nil_iff hwant).1 hnil
  | false => exact hrest [] (by simp)

theorem verifySpecs_spec (info : TableInfo) (s : St ρ) :
    wp (verifySpecs cfg info)
      (fun _ s' => s' = s ∧ (cfg.partitionBy = [] ∨ Agrees cfg s.sink.liveColumns info))
      (fun _ s' => s' = s) s := by
  unfold verifySpecs
  rw [wp_bind]
  refine wp_getWantPartition rfl (fun fields hwant => ?_)
  have hagrees : ¬ (!fields.isEmpty && decide (info.shape.partitionSpec ≠ fields)) = true →
      cfg.partitionBy = [] ∨ Agrees cfg s.sink.liveColumns info := by
    intro hne
    by_cases hnil : fields = []
    · exact Or.inl ((wantPartitionFields_nil_iff hwant).1 hnil)
    · refine Or.inr ?_
      have heq : info.shape.partitionSpec = fields := by simpa [hnil] using hne
      unfold Agrees
      rw [heq, hwant]
  by_cases hbad : (!fields.isEmpty && decide (info.shape.partitionSpec ≠ fields)) = true
  · simp only [hbad, if_true]
    exact rfl
  · have hok := hagrees hbad
    simp only [hbad, if_false, Bool.false_eq_true]
    unfold getWantSort
    simp only [wp_bind, wp_get, wp_pure, wp_ite, wp_raise]
    exact ⟨fun _ => trivial, fun _ => ⟨trivial, hok⟩⟩

variable (cfg) in
/-- A declaration was adopted: what config asks for is what the table has now. -/
def Declared (s s' : St ρ) : Prop :=
  ∃ s₁ info, Quiet cfg s s₁ ∧ s₁.world.net.server.Honest info ∧ s' = s₁.adopt info true ∧
    (cfg.partitionBy = [] ∨ Agrees cfg info.shape.columns info)

theorem Declared.quiet {s s' : St ρ} (h : Declared cfg s s') : Quiet cfg s s' := by
  obtain ⟨s₁, info, hq, hhonest, rfl, -⟩ := h
  exact hq.trans (Quiet.adopt s₁ true hhonest)

theorem current_adopt (s : St ρ) (info : TableInfo) (declared : Bool) :
    Current (s.adopt info declared) := by
  intro i hi
  obtain rfl : info = i := by simpa [St.adopt] using hi
  exact ⟨rfl, s.world.net.now, rfl, rfl⟩

/-- A declaration changes nothing when there is nothing to declare. -/
theorem declareSpecs_spec (partition : Bool) (s : St ρ) :
    wp (declareSpecs cfg partition)
      (fun _ s' => (s' = s ∧ (partition = true → cfg.partitionBy = [])) ∨
        Declared cfg s s')
      (Fails (Quiet cfg) s) s := by
  unfold declareSpecs
  rw [wp_bind]
  refine wp_mono (specOps_spec partition s) ?_ ?_
  · intro ops s₀ hops
    obtain ⟨rfl, hnil⟩ := hops
    by_cases hempty : ops.isEmpty = true
    · simp only [hempty, if_true]
      exact Or.inl ⟨rfl, fun hp => hnil hp (List.isEmpty_iff.1 hempty)⟩
    · simp only [hempty, if_false, Bool.false_eq_true]
      have hseeds : Seeds cfg (tryHoglake (tableAlter ops) fun e =>
          if e.is .commitConflict then tableRead else raise (.hoglake e) : M ρ TableInfo) :=
        Seeds.tryHoglake (seeds_tableAlter ops) fun e => Seeds.ite seeds_tableRead (Seeds.raise _)
      rw [wp_bind]
      refine wp_mono (hseeds s₀) ?_ (fun _ _ h => h)
      rintro info _ ⟨s₁, hq, hhonest, rfl⟩
      rw [wp_bind]
      refine wp_adoptInfo info true s₁ ?_
      refine wp_mono (verifySpecs_spec info _) ?_ ?_
      · rintro _ _ ⟨rfl, hagrees⟩
        exact Or.inr ⟨s₁, info, hq, hhonest, rfl, hagrees⟩
      · rintro r _ rfl
        have hq' := hq.trans (Quiet.adopt s₁ true hhonest)
        exact .of hq' hq'.grows
  · rintro r _ rfl
    exact .of (.refl _) (.refl _)

/-! ## Reconciling -/

variable (cfg) in
/-- A verdict was reached on `info`: on the shape in hand, or on the one a declaration left. -/
structure Reconciled (s : St ρ) (info : TableInfo) (s' : St ρ) : Prop where
  from_ : s' = s ∨ Declared cfg s s'
  live : s'.sink.liveInfo = some info
  verdict : Verdict cfg s' info

theorem Reconciled.quiet {s s' : St ρ} {info : TableInfo}
    (h : Reconciled cfg s info s') : Quiet cfg s s' := by
  rcases h.from_ with rfl | hd
  · exact .refl _
  · exact hd.quiet

theorem Reconciled.current {s s' : St ρ} {info : TableInfo}
    (h : Reconciled cfg s info s') (hs : Current s) : Current s' := by
  rcases h.from_ with rfl | ⟨s₁, i, -, -, rfl, -⟩
  · exact hs
  · exact current_adopt s₁ i true

theorem wp_recordVerdict {info live : TableInfo} {s : St ρ} {Q : PUnit → St ρ → Prop}
    {E : Raised → St ρ → Prop} (hlive : s.sink.liveInfo = some live)
    (h : Q ⟨⟩ (s.record live)) : wp (recordVerdict info) Q E s := by
  unfold recordVerdict
  simp only [wp_bind, wp_get, wp_onSink, wp_emit]
  have hshape : s.sink.liveInfo.getD info = live := by
    rw [hlive]
    rfl
  rw [hshape]
  exact h

theorem Declared.reconciled {s s' : St ρ} (h : Declared cfg s s') :
    ∃ info, Reconciled cfg s info s' := by
  obtain ⟨s₁, info, hq, hhonest, rfl, hagrees⟩ := h
  exact ⟨info, Or.inr ⟨s₁, info, hq, hhonest, rfl, hagrees⟩, rfl,
    .declared (current_adopt s₁ info true) ⟨s₁.log, rfl⟩ hagrees⟩

theorem reconcileSpecs_spec {info : TableInfo} {s : St ρ} (hlive : s.sink.liveInfo = some info) :
    wp (reconcileSpecs cfg info)
      (fun _ s' => ∃ s₁ r, Reconciled cfg s r s₁ ∧ s' = s₁.record r)
      (Fails (Quiet cfg) s) s := by
  unfold reconcileSpecs
  rw [wp_bind]
  refine wp_getWantPartition (.of (.refl _) (.refl _)) (fun wantPartition hwant => ?_)
  unfold getWantSort
  simp only [wp_bind, wp_get, wp_pure]
  cases hcmp : compareSpecs cfg info wantPartition (wantSortFields cfg s.sink.liveColumns) with
  | none => exact .of (.refl _) (.refl _)
  | some outcome =>
      have hcompared : outcome ≠ .declare true → Reconciled cfg s info s := by
        intro hne
        refine ⟨Or.inl rfl, hlive, .compared ?_⟩
        unfold Agrees
        rw [hwant, compareSpecs_partition hcmp hne]
      cases outcome with
      | nothing => exact wp_recordVerdict hlive ⟨s, info, hcompared (by simp), rfl⟩
      | declare partition =>
          simp only [wp_bind]
          refine wp_mono (declareSpecs_spec partition s) ?_ (fun _ _ h => h)
          intro _ s₁ hs₁
          rcases hs₁ with ⟨rfl, hnone⟩ | hdecl
          · have hfalse : partition = false := by
              cases partition with
              | false => rfl
              | true =>
                  exact absurd ((wantPartitionFields_nil_iff hwant).2 (hnone rfl))
                    (compareSpecs_declare hcmp)
            subst hfalse
            exact wp_recordVerdict hlive ⟨s₁, info, hcompared (by simp), rfl⟩
          · obtain ⟨r, hr⟩ := hdecl.reconciled
            exact wp_recordVerdict hr.live ⟨s₁, r, hr, rfl⟩

/-- Read, adopt and reconcile. -/
theorem readAndReconcile_spec (cfg : SinkConfig) (s : St ρ) :
    wp (readAndReconcile cfg)
      (fun _ s' => ∃ s₁ r, Quiet cfg s s₁ ∧ s₁.sink.liveInfo = some r ∧ Current s₁ ∧
        Verdict cfg s₁ r ∧ s₁.sink.liveInfoReadAt = some s₁.world.net.now ∧ s' = s₁.record r)
      (Fails (Quiet cfg) s) s := by
  unfold readAndReconcile
  rw [wp_bind]
  refine wp_mono (seeds_tableRead s) ?_ (fun _ _ h => h)
  rintro info _ ⟨s₁, hq, hhonest, rfl⟩
  rw [wp_bind]
  refine wp_adoptInfo info false s₁ ?_
  have hq' : Quiet cfg s (s₁.adopt info false) := hq.trans (Quiet.adopt s₁ false hhonest)
  refine wp_mono (reconcileSpecs_spec rfl) ?_ (fun _ _ h => h.after hq'.grows hq'.trans)
  rintro _ _ ⟨s₂, r, hr, rfl⟩
  refine ⟨s₂, r, hq'.trans hr.quiet, hr.live, hr.current (current_adopt _ _ _), hr.verdict, ?_, rfl⟩
  rcases hr.from_ with rfl | ⟨s₃, i, -, -, rfl, -⟩
  · rfl
  · rfl

/-! ## The cached shape -/

variable (cfg) in
/-- What `_table_info` returns: a shape that is adopted, reconciled and fresh. -/
structure Informed (s : St ρ) (info : TableInfo) (s' : St ρ) : Prop where
  standing : Standing cfg s s'
  working : Working s' info
  fresh : ∃ t, s'.sink.liveInfoReadAt = some t ∧
    ∀ r, cfg.retention = some r → s'.world.net.now - t < r / 4

theorem Standing.record {s : St ρ} {info : TableInfo} (htable : s.sink.table = true)
    (hlive : s.sink.liveInfo = some info) (hverdict : Verdict cfg s info) :
    Standing cfg s (s.record info) :=
  ⟨.single (.record info htable hlive hverdict), rfl, rfl, rfl⟩

theorem justRead (s : St ρ) (h : s.sink.liveInfoReadAt = some s.world.net.now) :
    ∃ t, s.sink.liveInfoReadAt = some t ∧
      ∀ r, cfg.retention = some r → s.world.net.now - t < r / 4 := by
  refine ⟨_, h, fun r hr => ?_⟩
  have hpos : 0 < r := cfg.retention_pos r hr
  rw [sub_self]
  exact div_pos hpos four_pos

theorem tableInfo_spec {s : St ρ} (htable : s.sink.table = true) :
    wp (tableInfo cfg) (Informed cfg s) (Fails (Quiet cfg) s) s := by
  have hread : wp (do
      let info ← tableRead
      adoptInfo info false
      reconcileSpecs cfg info
      pure ((← get).sink.liveInfo.getD info) : M ρ TableInfo)
      (Informed cfg s) (Fails (Quiet cfg) s) s := by
    have h := readAndReconcile_spec cfg s
    unfold readAndReconcile at h
    simp only [wp_bind, wp_get, wp_pure] at h ⊢
    refine wp_mono h (fun info s₁ h₁ => wp_mono h₁ (fun _ s₂ h₂ => wp_mono h₂ ?_
      (fun _ _ h => h)) (fun _ _ h => h)) (fun _ _ h => h)
    rintro _ _ ⟨s₃, r, hq, hlive, -, hverdict, hreadAt, rfl⟩
    have htable₃ : s₃.sink.table = true := hq.table.trans htable
    have hresult : (s₃.record r).sink.liveInfo.getD info = r := by
      show s₃.sink.liveInfo.getD info = r
      rw [hlive]
      rfl
    rw [hresult]
    exact ⟨hq.toStanding.trans (.record htable₃ hlive hverdict), ⟨htable₃, hlive, rfl⟩,
      justRead s₃ hreadAt⟩
  unfold tableInfo
  rw [wp_bind, wp_get]
  beta_reduce
  cases hlive : s.sink.liveInfo with
  | none => exact hread
  | some info =>
      cases hfresh : liveInfoIsFresh cfg s with
      | false => exact hread
      | true =>
          have hage : ∃ t, s.sink.liveInfoReadAt = some t ∧
              ∀ r, cfg.retention = some r → s.world.net.now - t < r / 4 := by
            unfold liveInfoIsFresh liveInfoTtlS at hfresh
            rw [hlive] at hfresh
            cases hreadAt : s.sink.liveInfoReadAt with
            | none => simp [hreadAt] at hfresh
            | some t =>
                refine ⟨t, rfl, fun r hr => ?_⟩
                simpa [hreadAt, hr] using hfresh
          by_cases hrec : s.sink.reconciledSpecs = some (specIdentity info)
          · simp only [hrec, ne_eq, not_true_eq_false, if_false, wp_bind, wp_get, wp_pure, hlive,
              Option.getD_some]
            exact ⟨.refl s, ⟨htable, hlive, hrec⟩, hage⟩
          · simp only [ne_eq, hrec, not_false_eq_true, if_true, wp_bind, wp_get, wp_pure]
            refine wp_mono (reconcileSpecs_spec hlive) ?_ (fun _ _ h => h)
            rintro _ _ ⟨s₁, r, hr, rfl⟩
            have htable₁ : s₁.sink.table = true := hr.quiet.table.trans htable
            have hresult : (s₁.record r).sink.liveInfo.getD info = r := by
              show s₁.sink.liveInfo.getD info = r
              rw [hr.live]
              rfl
            rw [hresult]
            refine ⟨hr.quiet.toStanding.trans (.record htable₁ hr.live hr.verdict),
              ⟨htable₁, hr.live, rfl⟩, ?_⟩
            rcases hr.from_ with rfl | ⟨s₂, i, -, -, rfl, -⟩
            · exact hage
            · exact justRead (s₂.adopt i true) rfl

/-! ## Resolving the table -/

/-- No table is held and there is no verdict. -/
def Unattached (s : St ρ) : Prop := s.sink.table = false ∧ s.sink.reconciledSpecs = none

theorem kept_unattached : Kept cfg (Unattached (ρ := ρ)) :=
  fun _ _ hq h => ⟨hq.table.trans h.1, hq.reconciled.trans h.2⟩

theorem does_ensureNamespace (P : St ρ → Prop) (hP : Kept cfg P) :
    Does cfg P (ensureNamespace : M ρ PUnit) := by
  unfold ensureNamespace
  refine Does.tryHoglake hP (does_readNamespace P) fun e => Does.ite ?_ (Does.raise _)
  exact Does.tryHoglake hP (does_createNamespace P)
    fun e => Does.ite (does_readNamespace P) (Does.raise _)

variable (cfg) in
/-- A new handle is in place, and the sink is about to take its columns. -/
def Resolves (s : St ρ) (info : TableInfo) (s' : St ρ) : Prop :=
  ∃ s₁, Quiet cfg s s₁ ∧ s₁.world.net.server.Honest info ∧
    s' = { s₁ with world := { s₁.world with handle := ⟨info, none⟩ } }

theorem resolveTable_spec (s : St ρ) :
    wp (resolveTable : M ρ TableInfo) (Resolves cfg s) (Fails (Quiet cfg) s) s := by
  unfold resolveTable
  simp only [wp_bind, wp_onWorld, wp_pure]
  refine wp_mono (call_spec answerRead_evolves s) ?_ ?_
  · rintro info _ ⟨w, w', hint, hw, hh, rfl⟩
    obtain ⟨rfl, hhonest⟩ := answerRead_ok hh
    exact ⟨_, Quiet.moved s hw hint, hhonest, rfl⟩
  · rintro r _ ⟨-, w, hint, hw, rfl⟩
    exact .of (Quiet.moved s hw hint) hw.grows

theorem createTable_spec (cfg : SinkConfig) (fields : List (String × HogType)) (s : St ρ) :
    wp (createTable fields : M ρ TableInfo) (Resolves cfg s) (Fails (Quiet cfg) s) s := by
  unfold createTable
  simp only [wp_bind, wp_onWorld, wp_pure]
  refine wp_mono (call_spec (fun w a w' h => (answerCreate_ok h).1) s) ?_ ?_
  · rintro info _ ⟨w, w', hint, hw, hh, rfl⟩
    obtain ⟨hw', hhonest⟩ := answerCreate_ok hh
    exact ⟨_, Quiet.moved s (hw.trans hw') hint, hhonest, rfl⟩
  · rintro r _ ⟨-, w, hint, hw, rfl⟩
    exact .of (Quiet.moved s hw hint) hw.grows

/-- Taking the columns of the new handle makes it one quiet step. -/
theorem Resolves.quiet {s s' : St ρ} {info : TableInfo} (h : Resolves cfg s info s')
    (hs : Unattached s) :
    Quiet cfg s { s' with sink := { s'.sink with liveColumns := info.shape.columns } } := by
  obtain ⟨s₁, hq, hhonest, rfl⟩ := h
  have hs₁ : Unattached s₁ := kept_unattached _ _ hq hs
  exact hq.trans (Quiet.resolve s₁ hs₁.1 hs₁.2 hhonest)

variable (cfg) in
/-- An existing table was adopted and reconciled. -/
def AdoptedTable (s s' : St ρ) : Prop :=
  ∃ s₁ info, Quiet cfg s s₁ ∧ s₁.sink.liveInfo = some info ∧ Current s₁ ∧ Verdict cfg s₁ info ∧
    s' = s₁.record info

theorem adoptTable_spec {s : St ρ} (hs : Unattached s) :
    wp (adoptTable cfg) (fun _ s' => AdoptedTable cfg s s') (Fails (Quiet cfg) s) s := by
  unfold adoptTable adoptColumns
  simp only [wp_bind, wp_onSink]
  refine wp_mono (resolveTable_spec s) (fun info s₁ h₁ => ?_) (fun _ _ h => h)
  have hq := h₁.quiet hs
  refine wp_mono (readAndReconcile_spec cfg _) ?_ (fun _ _ h => h.after hq.grows hq.trans)
  rintro _ _ ⟨s₂, r, hq', hlive, hcurrent, hverdict, -, rfl⟩
  exact ⟨s₂, r, hq.trans hq', hlive, hcurrent, hverdict, rfl⟩

variable (cfg) in
/-- A created table is ready: its specs are declared, or there are none to declare. -/
def CreatedTable (s s' : St ρ) : Prop :=
  Quiet cfg s s' ∧ (Current s' ∨ cfg.partitionBy = [])

theorem createAndDeclare_spec (batch : Batch ρ V) {s : St ρ} (hs : Unattached s) :
    wp (createAndDeclare cfg batch)
      (fun _ s' => AdoptedTable cfg s s' ∨ CreatedTable cfg s s')
      (Fails (Quiet cfg) s) s := by
  unfold createAndDeclare
  cases tableSchemaForBatch batch with
  | none => exact .of (.refl _) (.refl _)
  | some fields =>
      simp only [wp_bind]
      rw [wp_tryHoglake, wp_map]
      refine wp_mono (createTable_spec cfg fields s) ?_ ?_
      · intro info s₁ h₁
        unfold adoptColumns
        simp only [wp_bind, wp_onSink]
        have hq := h₁.quiet hs
        refine wp_mono (declareSpecs_spec true _) ?_ (fun _ _ h => h.after hq.grows hq.trans)
        intro _ s₂ h₂
        rcases h₂ with ⟨rfl, hnone⟩ | hdecl
        · exact Or.inr ⟨hq, Or.inr (hnone rfl)⟩
        · refine Or.inr ⟨hq.trans hdecl.quiet, Or.inl ?_⟩
          obtain ⟨s₃, i, -, -, rfl, -⟩ := hdecl
          exact current_adopt s₃ i true
      · intro r s₁ h₁
        cases hr : r.error with
        | hoglake e =>
            have hq : Quiet cfg s s₁ := by
              unfold Fails at h₁
              rwa [if_neg (by simp [hr])] at h₁
            simp only [wp_ite, wp_pure, wp_raise]
            refine ⟨fun _ => ?_, fun _ => .of hq hq.grows⟩
            refine wp_mono (adoptTable_spec (kept_unattached _ _ hq hs)) ?_
              (fun _ _ h => h.after hq.grows hq.trans)
            rintro _ s₂ ⟨s₃, info, hq', hrest⟩
            exact Or.inl ⟨s₃, info, hq.trans hq', hrest⟩
        | _ => exact h₁

variable (cfg) in
/-- The table is held: steps that touch no payload. -/
structure Attached (s s' : St ρ) : Prop where
  steps : Steps cfg s s'
  table : s'.sink.table = true
  held : s'.sink.held = s.sink.held

theorem AdoptedTable.attach {s s' : St ρ} (h : AdoptedTable cfg s s')
    (hs : Unattached s) : Attached cfg s s'.attach := by
  obtain ⟨s₁, info, hq, hlive, hcurrent, hverdict, rfl⟩ := h
  exact ⟨hq.steps.tail (.attachReconciled info (hq.table.trans hs.1) hlive hcurrent hverdict), rfl,
    hq.held⟩

theorem CreatedTable.attach {s s' : St ρ} (h : CreatedTable cfg s s')
    (hs : Unattached s) : Attached cfg s s'.attach := by
  obtain ⟨hq, hdeclared⟩ := h
  exact ⟨hq.steps.tail (.attachCreated (hq.table.trans hs.1) (hq.reconciled.trans hs.2) hdeclared),
    rfl, hq.held⟩

theorem ensureTable_spec (batch : Batch ρ V) {s : St ρ} (hs : NoVerdict s) :
    wp (ensureTable cfg batch) (fun _ s' => Attached cfg s s') (Fails (Quiet cfg) s) s := by
  unfold ensureTable
  simp only [wp_bind, wp_get]
  rw [wp_ite]
  refine ⟨fun htable => ⟨.refl, htable, rfl⟩, fun htable => ?_⟩
  have hfalse : s.sink.table = false := by simpa using htable
  have hun : Unattached s := ⟨hfalse, hs hfalse⟩
  simp only [wp_bind]
  refine wp_mono (does_ensureNamespace Unattached kept_unattached s hun) ?_ (fun _ _ h => h)
  intro _ s₁ hq
  have hun₁ := kept_unattached _ _ hq hun
  have hattach : ∀ s₂, Attached cfg s₁ s₂.attach →
      wp (attachTable : M ρ PUnit) (fun _ s' => Attached cfg s s') (Fails (Quiet cfg) s) s₂ :=
    fun s₂ h => ⟨hq.steps.trans h.steps, h.table, h.held.trans hq.held⟩
  rw [wp_tryHoglake]
  refine wp_mono (adoptTable_spec hun₁) (fun _ s₂ h₂ => hattach s₂ (h₂.attach hun₁)) ?_
  intro r s₂ h₂
  cases hr : r.error with
  | hoglake e =>
      have hq₂ : Quiet cfg s₁ s₂ := by
        unfold Fails at h₂
        rwa [if_neg (by simp [hr])] at h₂
      have hun₂ := kept_unattached _ _ hq₂ hun₁
      have hq' := hq.trans hq₂
      simp only [wp_ite, wp_raise]
      refine ⟨fun _ => ?_, fun _ => .of hq' hq'.grows⟩
      refine wp_mono (createAndDeclare_spec batch hun₂) ?_
        (fun _ _ h => h.after hq'.grows hq'.trans)
      intro _ s₃ h₃
      have hatt : Attached cfg s₂ s₃.attach := h₃.elim (·.attach hun₂) (·.attach hun₂)
      exact hattach s₃ ⟨hq₂.steps.trans hatt.steps, hatt.table, hatt.held.trans hq₂.held⟩
  | _ => exact h₂.after hq.grows hq.trans

end Millpond.Hoglake
