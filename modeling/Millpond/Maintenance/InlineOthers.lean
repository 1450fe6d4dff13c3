import Millpond.Maintenance.InlineTables

set_option autoImplicit false

/-! # The other sessions of the catalog

What may commit between two statements of `drop_orphan_inline_tables`: snapshot expiry, DuckLake
commits that create tables under fresh ids or change live ones, inlined rows, and DuckLake's own
collection of inline tables. Locked rows and tables are out of their reach. -/

namespace Millpond.Maintenance

open ReadCommitted

/-! ## Locks -/

/-- The registry rows a transaction holds `FOR UPDATE`. -/
def rowsLocked (own : List InlineWrite) : List RegistryRow :=
  own.flatMap fun
    | .lockRows rows => rows
    | _ => []

/-- The tables a transaction holds in `ACCESS EXCLUSIVE`. -/
def tablesLocked (own : List InlineWrite) : List String :=
  own.flatMap fun
    | .lockTable name => [name]
    | _ => []

/-! ## What the others do -/

/-- A DuckLake commit: its snapshot, the tables it drops or alters, the tables it gives a new
    version, and the inline tables it registers and creates. -/
structure TableCommit where
  snapshot : ℕ
  ended : List ℕ
  begun : List ℕ
  registered : List RegistryRow
  created : List PgTable

/-- The table has a live version. -/
def InlineCatalog.live (c : InlineCatalog) (tableId : ℕ) : Bool :=
  c.versions.any fun v => v.tableId == tableId && v.endSnapshot.isNone

/-- No version and no inline table was ever registered under the id. -/
def InlineCatalog.fresh (c : InlineCatalog) (tableId : ℕ) : Bool :=
  c.versions.all (fun v => v.tableId != tableId) && c.registry.all fun r => r.tableId != tableId

/-- The commit comes after every snapshot, creates tables under fresh ids only, and names its inline
    tables after them. -/
structure TableCommit.Lands (k : TableCommit) (c : InlineCatalog) : Prop where
  above : ∀ s ∈ c.snapshots, s < k.snapshot
  tables : ∀ i ∈ k.begun, c.fresh i = true ∨ c.live i = true
  names : ∀ t ∈ k.created, ∀ r ∈ c.registry, r.tableName ≠ some t.name

instance (k : TableCommit) (c : InlineCatalog) : Decidable (k.Lands c) :=
  decidable_of_iff ((∀ s ∈ c.snapshots, s < k.snapshot) ∧
      (∀ i ∈ k.begun, c.fresh i = true ∨ c.live i = true) ∧
      ∀ t ∈ k.created, ∀ r ∈ c.registry, r.tableName ≠ some t.name)
    ⟨fun ⟨h₁, h₂, h₃⟩ => ⟨h₁, h₂, h₃⟩, fun ⟨h₁, h₂, h₃⟩ => ⟨h₁, h₂, h₃⟩⟩

/-- A live version of a table the commit drops or alters ends at its snapshot. -/
def TableCommit.endVersion (k : TableCommit) (v : TableVersion) : TableVersion :=
  if v.tableId ∈ k.ended ∧ v.endSnapshot = none then { v with endSnapshot := some k.snapshot } else v

theorem endVersion_eq (k : TableCommit) (v : TableVersion) :
    (k.endVersion v).tableId = v.tableId ∧ (k.endVersion v).beginSnapshot = v.beginSnapshot := by
  unfold TableCommit.endVersion
  split <;> exact ⟨rfl, rfl⟩

def TableCommit.apply (k : TableCommit) (c : InlineCatalog) : InlineCatalog where
  snapshots := c.snapshots ++ [k.snapshot]
  versions := c.versions.map k.endVersion ++ k.begun.map fun i => ⟨i, k.snapshot, none⟩
  registry := c.registry ++ k.registered
  pgClass := c.pgClass ++ k.created
  begun := by
    intro v hv
    rcases List.mem_append.1 hv with hv | hv
    · obtain ⟨w, hw, rfl⟩ := List.mem_map.1 hv
      obtain ⟨s, hs, hle⟩ := c.begun w hw
      exact ⟨s, List.mem_append_left _ hs, (endVersion_eq k w).2 ▸ hle⟩
    · obtain ⟨i, -, rfl⟩ := List.mem_map.1 hv
      exact ⟨k.snapshot, List.mem_append_right _ (List.mem_singleton_self _), le_rfl⟩

/-- Some snapshot stays that is newer than all that go: the head guard of every expiry. -/
def InlineCatalog.spares (c : InlineCatalog) (ids : List ℕ) : Prop :=
  ∀ s ∈ c.snapshots, ∃ t ∈ c.snapshots, t ∉ ids ∧ s ≤ t

instance (c : InlineCatalog) (ids : List ℕ) : Decidable (c.spares ids) :=
  inferInstanceAs (Decidable (∀ s ∈ c.snapshots, ∃ t ∈ c.snapshots, t ∉ ids ∧ s ≤ t))

/-- Snapshot expiry, with the table versions it sweeps. -/
def InlineCatalog.expire (c : InlineCatalog) (ids : List ℕ) (swept : List TableVersion)
    (h : c.spares ids) : InlineCatalog where
  snapshots := c.snapshots.filter (· ∉ ids)
  versions := c.versions.filter (· ∉ swept)
  registry := c.registry
  pgClass := c.pgClass
  begun := by
    intro v hv
    obtain ⟨s, hs, hle⟩ := c.begun v (List.mem_of_mem_filter hv)
    obtain ⟨t, ht, hstays, hst⟩ := h s hs
    exact ⟨t, List.mem_filter.2 ⟨ht, decide_eq_true hstays⟩, hle.trans hst⟩

/-- One transaction of another session. -/
inductive Action where
  | commit (k : TableCommit)
  | expire (ids : List ℕ) (swept : List TableVersion)
  | inline (name : String) (rows : ℕ)
  | collect (row : RegistryRow) (name : String)

/-- `INSERT` of inlined rows. -/
def PgTable.inlined (name : String) (rows : ℕ) (t : PgTable) : PgTable :=
  if t.name = name then { t with rows := t.rows + rows } else t

/-- The action commits, unless a lock keeps it waiting or it conflicts. -/
def Action.apply (own : List InlineWrite) (c : InlineCatalog) : Action → InlineCatalog
  | .commit k => if k.Lands c then k.apply c else c
  | .expire ids swept => if h : c.spares ids then c.expire ids swept h else c
  | .inline name rows =>
      if name ∈ tablesLocked own then c
      else { c with pgClass := c.pgClass.map (PgTable.inlined name rows) }
  | .collect row name =>
      if row ∈ rowsLocked own ∨ name ∈ tablesLocked own then c
      else
        { c with
          registry := c.registry.filter (· ≠ row)
          pgClass := c.pgClass.filter fun t => t.name ≠ name }

/-- The others make any number of such transactions. -/
def Concurrent (own : List InlineWrite) (c c' : InlineCatalog) : Prop :=
  ∃ actions : List Action, c' = actions.foldl (Action.apply own) c

/-- A session on a catalog, with the transactions of the others before each of its statements. -/
def inlineSession (c : InlineCatalog) (schedule : ℕ → List Action) (fates : ℕ → Fate PgError) :
    Session InlineCatalog InlineWrite PgError InlineStatement where
  committed := c
  own := []
  others n own c := (schedule n).foldl (Action.apply own) c
  fates := fates
  clock := 0
  seen := []

theorem inlineSession_within (c : InlineCatalog) (schedule : ℕ → List Action)
    (fates : ℕ → Fate PgError) : (inlineSession c schedule fates).Within Concurrent :=
  fun n _ _ => ⟨schedule n, rfl⟩

/-- What every action keeps, the others keep. -/
theorem concurrent_invariant {I : InlineCatalog → Prop} {own : List InlineWrite}
    (hI : ∀ c a, I c → I (Action.apply own c a)) {c c' : InlineCatalog} (h : Concurrent own c c')
    (hc : I c) : I c' := by
  obtain ⟨actions, rfl⟩ := h
  induction actions generalizing c with
  | nil => exact hc
  | cons a rest ih => exact ih (hI c a hc)

/-! ## What is orphaned stays orphaned -/

theorem reachable_iff {c : InlineCatalog} {v : TableVersion} (hv : v ∈ c.versions) :
    v.reachable c = true ↔ ∀ e, v.endSnapshot = some e → ∃ s ∈ c.snapshots, s < e := by
  obtain ⟨s, hs, hbegin⟩ := c.begun v hv
  have hne : c.snapshots ≠ [] := List.ne_nil_of_mem hs
  obtain ⟨newest, hnewest⟩ : ∃ m, c.snapshots.max? = some m :=
    Option.ne_none_iff_exists'.1 fun hnone => hne (List.max?_eq_none_iff.1 hnone)
  obtain ⟨oldest, holdest⟩ : ∃ m, c.snapshots.min? = some m :=
    Option.ne_none_iff_exists'.1 fun hnone => hne (List.min?_eq_none_iff.1 hnone)
  have hle : v.beginSnapshot ≤ newest := hbegin.trans ((List.max?_eq_some_iff.1 hnewest).2 s hs)
  have hleast := List.min?_eq_some_iff.1 holdest
  unfold TableVersion.reachable
  rw [hnewest, holdest]
  cases hend : v.endSnapshot with
  | none => simp [hle]
  | some e =>
      simp only [Option.any_some, hle, decide_true, Option.isNone_some, Bool.false_or, Bool.true_and,
        decide_eq_true_eq, Option.some.injEq, forall_eq']
      constructor
      · exact fun hlt => ⟨oldest, hleast.1, hlt⟩
      · rintro ⟨t, ht, hlt⟩
        exact (hleast.2 t ht).trans_lt hlt

/-- An orphan: each of its versions ended at or before every retained snapshot. -/
theorem orphaned_iff {c : InlineCatalog} {tableId : ℕ} : c.orphaned tableId = true ↔
    ∀ v ∈ c.versions, v.tableId = tableId →
      ∃ e, v.endSnapshot = some e ∧ ∀ s ∈ c.snapshots, e ≤ s := by
  unfold InlineCatalog.orphaned
  simp only [Bool.not_eq_true', List.any_eq_false, Bool.and_eq_true, beq_iff_eq, not_and]
  refine forall₂_congr fun v hv => imp_congr_right fun _ => ?_
  rw [reachable_iff hv]
  push Not
  rfl

theorem orphaned_commit {c : InlineCatalog} {k : TableCommit} (hk : k.Lands c) {r : RegistryRow}
    (hr : r ∈ c.registry) (h : c.orphaned r.tableId = true) :
    (k.apply c).orphaned r.tableId = true := by
  rw [orphaned_iff] at h ⊢
  intro v hv htable
  rcases List.mem_append.1 hv with hv | hv
  · obtain ⟨w, hw, rfl⟩ := List.mem_map.1 hv
    obtain ⟨e, hend, hle⟩ := h w hw ((endVersion_eq k w).1 ▸ htable)
    have hsame : k.endVersion w = w := by
      unfold TableCommit.endVersion
      rw [if_neg]
      simp [hend]
    refine ⟨e, hsame.symm ▸ hend, fun s hs => ?_⟩
    rcases List.mem_append.1 hs with hs | hs
    · exact hle s hs
    · obtain ⟨t, ht, -⟩ := c.begun w hw
      rw [List.mem_singleton.1 hs]
      exact (hle t ht).trans (hk.above t ht).le
  · -- a table that gets a new version is live, or its id was never registered
    obtain ⟨i, hi, rfl⟩ := List.mem_map.1 hv
    rcases hk.tables i hi with hfresh | hlive
    · simp only [InlineCatalog.fresh, Bool.and_eq_true, List.all_eq_true, bne_iff_ne] at hfresh
      exact absurd htable.symm (hfresh.2 r hr)
    · simp only [InlineCatalog.live, List.any_eq_true, Bool.and_eq_true, beq_iff_eq,
        Option.isNone_iff_eq_none] at hlive
      obtain ⟨w, hw, hid, hnone⟩ := hlive
      obtain ⟨e, hend, -⟩ := h w hw (hid.trans htable)
      rw [hnone] at hend
      exact absurd hend (by simp)

theorem orphaned_expire {c : InlineCatalog} {ids : List ℕ} {swept : List TableVersion}
    (hspares : c.spares ids) {tableId : ℕ} (h : c.orphaned tableId = true) :
    (c.expire ids swept hspares).orphaned tableId = true := by
  rw [orphaned_iff] at h ⊢
  intro v hv htable
  obtain ⟨e, hend, hle⟩ := h v (List.mem_of_mem_filter hv) htable
  exact ⟨e, hend, fun s hs => hle s (List.mem_of_mem_filter hs)⟩

/-- A registered orphan is beyond the others' reach. -/
theorem orphaned_action {own : List InlineWrite} {c : InlineCatalog} (a : Action) {r : RegistryRow}
    (hr : r ∈ c.registry) (h : c.orphaned r.tableId = true) :
    (Action.apply own c a).orphaned r.tableId = true := by
  cases a with
  | commit k =>
      simp only [Action.apply]
      split
      · next hk => exact orphaned_commit hk hr h
      · exact h
  | expire ids swept =>
      simp only [Action.apply]
      split
      · exact orphaned_expire _ h
      · exact h
  | inline name rows =>
      simp only [Action.apply]
      split <;> exact h
  | collect row name =>
      simp only [Action.apply]
      split <;> exact h

/-- No retained snapshot sees a version of the table. -/
def InlineCatalog.Unseen (c : InlineCatalog) (tableId : ℕ) : Prop :=
  ∀ v ∈ c.versions, v.tableId = tableId → ∀ s ∈ c.snapshots,
    ¬ (v.beginSnapshot ≤ s ∧ ∀ e, v.endSnapshot = some e → s < e)

theorem unseen_of_orphaned {c : InlineCatalog} {tableId : ℕ} (h : c.orphaned tableId = true) :
    c.Unseen tableId := by
  intro v hv htable s hs hseen
  obtain ⟨e, hend, hle⟩ := orphaned_iff.1 h v hv htable
  exact absurd (hseen.2 e hend) (not_lt.2 (hle s hs))

/-! ## What a lock protects -/

/-- A locked registry row stays. -/
theorem locked_row_stays {own : List InlineWrite} {c : InlineCatalog} (a : Action) {r : RegistryRow}
    (hlocked : r ∈ rowsLocked own) (hr : r ∈ c.registry) : r ∈ (Action.apply own c a).registry := by
  cases a with
  | commit k =>
      simp only [Action.apply]
      split
      · exact List.mem_append_left _ hr
      · exact hr
  | expire ids swept =>
      simp only [Action.apply]
      split <;> exact hr
  | inline name rows =>
      simp only [Action.apply]
      split <;> exact hr
  | collect row name =>
      simp only [Action.apply]
      split
      · exact hr
      · next hfree =>
          have hne : r ≠ row := fun heq => hfree (Or.inl (heq ▸ hlocked))
          exact List.mem_filter.2 ⟨hr, decide_eq_true hne⟩

/-- A table under a registered name: the others make none, and leave a locked one as it is. -/
theorem table_action {own : List InlineWrite} {c : InlineCatalog} (a : Action) {t : PgTable}
    (hregistered : ∃ r ∈ c.registry, r.tableName = some t.name)
    (ht : t ∈ (Action.apply own c a).pgClass) :
    ∃ u ∈ c.pgClass, u.name = t.name ∧ (t.name ∈ tablesLocked own → u = t) := by
  cases a with
  | commit k =>
      simp only [Action.apply] at ht
      split at ht
      · next hk =>
          rcases List.mem_append.1 ht with ht | ht
          · exact ⟨t, ht, rfl, fun _ => rfl⟩
          · obtain ⟨r, hr, hname⟩ := hregistered
            exact absurd hname (hk.names t ht r hr)
      · exact ⟨t, ht, rfl, fun _ => rfl⟩
  | expire ids swept =>
      simp only [Action.apply] at ht
      split at ht <;> exact ⟨t, ht, rfl, fun _ => rfl⟩
  | inline name rows =>
      simp only [Action.apply] at ht
      split at ht
      · exact ⟨t, ht, rfl, fun _ => rfl⟩
      · next hfree =>
          obtain ⟨u, hu, rfl⟩ := List.mem_map.1 ht
          unfold PgTable.inlined at hregistered ⊢
          split
          · next hname => exact ⟨u, hu, rfl, fun hlocked => absurd (hname ▸ hlocked) hfree⟩
          · exact ⟨u, hu, rfl, fun _ => rfl⟩
  | collect row name =>
      simp only [Action.apply] at ht
      split at ht
      · exact ⟨t, ht, rfl, fun _ => rfl⟩
      · exact ⟨t, List.mem_of_mem_filter ht, rfl, fun _ => rfl⟩

/-- A locked table stays. -/
theorem locked_table_stays {own : List InlineWrite} {c : InlineCatalog} (a : Action) {t : PgTable}
    (hlocked : t.name ∈ tablesLocked own) (ht : t ∈ c.pgClass) :
    t ∈ (Action.apply own c a).pgClass := by
  cases a with
  | commit k =>
      simp only [Action.apply]
      split
      · exact List.mem_append_left _ ht
      · exact ht
  | expire ids swept =>
      simp only [Action.apply]
      split <;> exact ht
  | inline name rows =>
      simp only [Action.apply]
      split
      · exact ht
      · next hfree =>
          have hne : t.name ≠ name := fun heq => hfree (heq ▸ hlocked)
          refine List.mem_map.2 ⟨t, ht, ?_⟩
          unfold PgTable.inlined
          rw [if_neg hne]
  | collect row name =>
      simp only [Action.apply]
      split
      · exact ht
      · next hfree =>
          have hne : t.name ≠ name := fun heq => hfree (Or.inr (heq ▸ hlocked))
          exact List.mem_filter.2 ⟨ht, decide_eq_true hne⟩

end Millpond.Maintenance
