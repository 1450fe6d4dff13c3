import Millpond.Lib.Autocommit
import Millpond.Maintenance.InlineTables
import Mathlib.Order.Basic
import Mathlib.Data.List.Basic

set_option autoImplicit false

/-! # Purging the stats of dropped tables

`purge_orphan_stats` deletes the global stats of tables without a live version, in one REPEATABLE READ
transaction: what it deletes is chosen on its snapshot and deleted at its commit, unless a row changed in
between. Table ids are never reused, so a table that is dead in the snapshot is dead at the commit. -/

namespace Millpond.Maintenance

open Prog Autocommit

/-! ## The stats tables -/

/-- A row version of one of the stats tables; its key may be NULL. -/
structure StatsRow where
  ctid : ℕ
  tableId : Option ℕ
deriving DecidableEq, Repr

/-- `ducklake_table`, `ducklake_table_stats` and `ducklake_table_column_stats`, with the next id a table
    gets. -/
structure GlobalStats where
  tables : List TableVersion
  tableStats : List StatsRow
  columnStats : List StatsRow
  nextCatalogId : ℕ
deriving DecidableEq, Repr

namespace GlobalStats

/-- The table has a live version. -/
def live (c : GlobalStats) (tableId : ℕ) : Bool :=
  c.tables.any fun t => t.tableId == tableId && t.endSnapshot.isNone

/-- `_orphan_stats_predicate`: a NULL key matches nothing, so `NOT EXISTS` holds. -/
def orphaned (c : GlobalStats) (tableId : Option ℕ) : Bool := !tableId.any c.live

end GlobalStats

/-! ## The command -/

inductive PurgeError where
  | lockHeld
  /-- `could not serialize access`. -/
  | serialization
  /-- Any other error of a statement. -/
  | statement
deriving DecidableEq, Repr

abbrev PurgeM := EStateM PurgeError (Session GlobalStats PurgeError)

/-- The two counts of `counts_sql`. -/
def orphanCounts (c : GlobalStats) : ℕ × ℕ :=
  ((c.tableStats.filter fun row => c.orphaned row.tableId).length,
    (c.columnStats.filter fun row => c.orphaned row.tableId).length)

/-- The commit of the two deletes, which saw `snapshot`. -/
def commitDeletes (snapshot c : GlobalStats) : GlobalStats × Except PurgeError Unit :=
  let tableRows := snapshot.tableStats.filter fun row => snapshot.orphaned row.tableId
  let columnRows := snapshot.columnStats.filter fun row => snapshot.orphaned row.tableId
  if (∀ row ∈ tableRows, row ∈ c.tableStats) ∧ ∀ row ∈ columnRows, row ∈ c.columnStats then
    ({ c with
      tableStats := c.tableStats.filter fun row => decide (row ∉ tableRows)
      columnStats := c.columnStats.filter fun row => decide (row ∉ columnRows) }, .ok ⟨⟩)
  else (c, .error .serialization)

/-- `purge_orphan_stats`. -/
def purgeOrphanStats (lockFree : GlobalStats → Bool) (dryRun : Bool) : PurgeM PUnit := do
  let counts ← query orphanCounts
  if dryRun || counts == (0, 0) then pure ⟨⟩
  else do
    call fun c => (c, if lockFree c then .ok ⟨⟩ else .error .lockHeld)
    let snapshot ← query id
    call (commitDeletes snapshot)
    let _ ← query orphanCounts

/-! ## The other sessions -/

/-- Every id in use was handed out. -/
structure Named (c : GlobalStats) : Prop where
  tables : ∀ t ∈ c.tables, t.tableId < c.nextCatalogId
  rows : ∀ row ∈ c.tableStats ++ c.columnStats, ∀ k ∈ row.tableId, k < c.nextCatalogId

/-- What the conflict check of a commit reads: no table stats without column stats. -/
def Joined (c : GlobalStats) : Prop :=
  ∀ row ∈ c.tableStats, ∀ k ∈ row.tableId, ∃ column ∈ c.columnStats, k ∈ column.tableId

/-- A commit of another session. A dead table stays dead, and no stats come for it. -/
structure Churn (c d : GlobalStats) : Prop where
  allocated : c.nextCatalogId ≤ d.nextCatalogId
  dead : ∀ k < c.nextCatalogId, c.live k = false → d.live k = false
  tableRows : ∀ row ∈ d.tableStats, row ∈ c.tableStats ∨ ∃ k ∈ row.tableId, d.live k = true
  columnRows : ∀ row ∈ d.columnStats, row ∈ c.columnStats ∨ ∃ k ∈ row.tableId, d.live k = true
  named : Named c → Named d
  joined : Joined c → Joined d

/-- Any number of commits. -/
def Churned : GlobalStats → GlobalStats → Prop := Relation.ReflTransGen Churn

/-- The purge of some tables that have no live version: all their rows go, and only theirs. -/
def Purge (c d : GlobalStats) : Prop :=
  ∃ gone : Option ℕ → Bool, (∀ k, gone k = true → c.orphaned k = true) ∧
    d = { c with
      tableStats := c.tableStats.filter fun row => !gone row.tableId
      columnStats := c.columnStats.filter fun row => !gone row.tableId }

/-- A step of the command; a dry run has none. -/
def PurgeStep (dryRun : Bool) (c d : GlobalStats) : Prop := dryRun = false ∧ Purge c d

variable {c d : GlobalStats}

theorem orphaned_none (c : GlobalStats) : c.orphaned none = true := rfl

theorem orphaned_some {k : ℕ} : c.orphaned (some k) = true ↔ c.live k = false := by
  simp [GlobalStats.orphaned]

theorem statsOrphaned_iff {tableId : Option ℕ} :
    c.orphaned tableId = true ↔ ∀ k ∈ tableId, c.live k = false := by
  cases tableId with
  | none => simp [orphaned_none]
  | some k => simp [orphaned_some]

/-- The key was handed out, if there is one. -/
def Allocated (c : GlobalStats) (tableId : Option ℕ) : Prop := ∀ k ∈ tableId, k < c.nextCatalogId

theorem Churned.named (h : Churned c d) (hc : Named c) : Named d := by
  induction h with
  | refl => exact hc
  | tail _ hstep ih => exact hstep.named ih

theorem Churned.joined (h : Churned c d) (hc : Joined c) : Joined d := by
  induction h with
  | refl => exact hc
  | tail _ hstep ih => exact hstep.joined ih

theorem Churn.orphaned (h : Churn c d) {tableId : Option ℕ} (hnamed : Allocated c tableId)
    (horphan : c.orphaned tableId = true) : Allocated d tableId ∧ d.orphaned tableId = true :=
  ⟨fun k hk => Nat.lt_of_lt_of_le (hnamed k hk) h.allocated, statsOrphaned_iff.2 fun k hk =>
    h.dead k (hnamed k hk) (statsOrphaned_iff.1 horphan k hk)⟩

/-- Orphans stay orphans, and no rows come for them. -/
theorem Churned.orphaned (h : Churned c d) {tableId : Option ℕ} (hnamed : Allocated c tableId)
    (horphan : c.orphaned tableId = true) : Allocated d tableId ∧ d.orphaned tableId = true ∧
      (∀ row ∈ d.tableStats, row.tableId = tableId → row ∈ c.tableStats) ∧
      ∀ row ∈ d.columnStats, row.tableId = tableId → row ∈ c.columnStats := by
  induction h with
  | refl => exact ⟨hnamed, horphan, fun _ h _ => h, fun _ h _ => h⟩
  | @tail _ d _ hstep ih =>
      obtain ⟨halloc, hdead, htable, hcolumn⟩ := ih
      obtain ⟨halloc', hdead'⟩ := hstep.orphaned halloc hdead
      have hlive : ∀ row : StatsRow, row.tableId = tableId →
          ¬ ∃ k ∈ row.tableId, d.live k = true := by
        rintro row rfl ⟨k, hk, hlive⟩
        rw [statsOrphaned_iff.1 hdead' k hk] at hlive
        cases hlive
      exact ⟨halloc', hdead',
        fun row hrow hkey => htable row ((hstep.tableRows row hrow).resolve_right (hlive row hkey)) hkey,
        fun row hrow hkey => hcolumn row ((hstep.columnRows row hrow).resolve_right (hlive row hkey)) hkey⟩

theorem Joined.purge (hc : Joined c) (h : Purge c d) : Joined d := by
  obtain ⟨gone, -, rfl⟩ := h
  intro row hrow k hk
  obtain ⟨hin, hstays⟩ := List.mem_filter.1 hrow
  obtain ⟨column, hcolumn, hk'⟩ := hc row hin k hk
  -- the rows of one table go together
  have hkey : column.tableId = row.tableId := (Option.mem_def.1 hk').trans (Option.mem_def.1 hk).symm
  exact ⟨column, List.mem_filter.2 ⟨hcolumn, by rw [hkey]; exact hstays⟩, hk'⟩

theorem Named.purge (hc : Named c) (h : Purge c d) : Named d := by
  obtain ⟨gone, -, rfl⟩ := h
  refine ⟨hc.tables, fun row hrow => hc.rows row ?_⟩
  exact (List.mem_append.1 hrow).elim (fun h => List.mem_append_left _ (List.mem_of_mem_filter h))
    fun h => List.mem_append_right _ (List.mem_of_mem_filter h)

/-! ## The transaction -/

/-- The tables that were dead in the snapshot. -/
def deadIn (snapshot : GlobalStats) (tableId : Option ℕ) : Bool :=
  snapshot.orphaned tableId && tableId.all (· < snapshot.nextCatalogId)

theorem deadIn_iff {snapshot : GlobalStats} {tableId : Option ℕ} : deadIn snapshot tableId = true ↔
    snapshot.orphaned tableId = true ∧ Allocated snapshot tableId := by
  cases tableId with
  | none => simp [deadIn, orphaned_none, Allocated]
  | some k => simp [deadIn, Allocated]

/-- What was chosen among the rows before is what is dead among the rows after. -/
theorem filter_notMem_chosen {before after : List StatsRow} {chosen dead : StatsRow → Bool}
    (hback : ∀ row ∈ after, dead row = true → row ∈ before)
    (hsame : ∀ row ∈ before, chosen row = dead row) :
    (after.filter fun row => decide (row ∉ before.filter chosen)) = after.filter fun row => !dead row := by
  refine List.filter_congr fun row hrow => ?_
  cases hdead : dead row with
  | true =>
      have hin := hback row hrow hdead
      simp [List.mem_filter, hin, hsame row hin, hdead]
  | false =>
      refine decide_eq_true fun hmem => ?_
      obtain ⟨hin, hchosen⟩ := List.mem_filter.1 hmem
      rw [hsame row hin, hdead] at hchosen
      cases hchosen

/-- What the transaction deletes at its commit is what belongs to the tables that were dead in its
    snapshot: others may have dropped tables since, but brought no rows of these. -/
theorem commitDeletes_spec {snapshot : GlobalStats} (h : Churned snapshot c) (hnamed : Named snapshot) :
    commitDeletes snapshot c = (c, .error .serialization) ∨
      ∃ d, commitDeletes snapshot c = (d, .ok ⟨⟩) ∧ Purge c d ∧
        ∀ row ∈ d.tableStats ++ d.columnStats, deadIn snapshot row.tableId = false := by
  have hsame : ∀ row ∈ snapshot.tableStats ++ snapshot.columnStats,
      snapshot.orphaned row.tableId = deadIn snapshot row.tableId := by
    intro row hrow
    rw [Bool.eq_iff_iff, deadIn_iff]
    exact (and_iff_left (hnamed.rows row hrow)).symm
  -- others bring no rows for a table that is dead
  have hback : ∀ {tableId : Option ℕ}, deadIn snapshot tableId = true →
      (∀ row ∈ c.tableStats, row.tableId = tableId → row ∈ snapshot.tableStats) ∧
        ∀ row ∈ c.columnStats, row.tableId = tableId → row ∈ snapshot.columnStats := by
    intro tableId hdead
    obtain ⟨horphan, halloc⟩ := deadIn_iff.1 hdead
    exact (h.orphaned halloc horphan).2.2
  have htable := filter_notMem_chosen (fun row hrow hdead => (hback hdead).1 row hrow rfl)
    fun row hrow => hsame row (List.mem_append_left _ hrow)
  have hcolumn := filter_notMem_chosen (fun row hrow hdead => (hback hdead).2 row hrow rfl)
    fun row hrow => hsame row (List.mem_append_right _ hrow)
  unfold commitDeletes
  dsimp only
  rw [htable, hcolumn]
  split
  · refine Or.inr ⟨_, rfl, ⟨deadIn snapshot, fun k hk => ?_, rfl⟩, fun row hrow => ?_⟩
    · obtain ⟨horphan, halloc⟩ := deadIn_iff.1 hk
      exact (h.orphaned halloc horphan).2.1
    · rcases List.mem_append.1 hrow with hrow | hrow
      · simpa using (List.mem_filter.1 hrow).2
      · simpa using (List.mem_filter.1 hrow).2
  · exact Or.inl rfl

/-! ## The run -/

/-- No row is left of the tables that were dead in `c`. -/
structure Purged (c d : GlobalStats) : Prop where
  dead : ∀ tableId, deadIn c tableId = true → deadIn d tableId = true
  rows : ∀ row ∈ d.tableStats ++ d.columnStats, deadIn c row.tableId = false

theorem deadIn_churned (h : Churned c d) (tableId : Option ℕ) (hdead : deadIn c tableId = true) :
    deadIn d tableId = true := by
  obtain ⟨horphan, halloc⟩ := deadIn_iff.1 hdead
  obtain ⟨halloc', horphan', -⟩ := h.orphaned halloc horphan
  exact deadIn_iff.2 ⟨horphan', halloc'⟩

theorem deadIn_purge (h : Purge c d) (tableId : Option ℕ) : deadIn d tableId = deadIn c tableId := by
  obtain ⟨gone, -, rfl⟩ := h
  rfl

theorem Purged.churned {e : GlobalStats} (hp : Purged c d) (h : Churned d e) : Purged c e := by
  refine ⟨fun tableId hdead => deadIn_churned h tableId (hp.dead tableId hdead), fun row hrow => ?_⟩
  by_contra hdead
  rw [Bool.not_eq_false] at hdead
  obtain ⟨horphan, halloc⟩ := deadIn_iff.1 (hp.dead _ hdead)
  obtain ⟨-, -, htable, hcolumn⟩ := h.orphaned halloc horphan
  have hold : row ∈ d.tableStats ++ d.columnStats := by
    rcases List.mem_append.1 hrow with hin | hin
    · exact List.mem_append_left _ (htable row hin rfl)
    · exact List.mem_append_right _ (hcolumn row hin rfl)
  rw [hp.rows row hold] at hdead
  cases hdead

/-- Without orphans there is nothing to purge. -/
theorem purged_of_orphanCounts (h : Churned c d) (hcounts : orphanCounts d = (0, 0)) : Purged c d := by
  obtain ⟨htable, hcolumn⟩ := Prod.mk.inj hcounts
  refine ⟨deadIn_churned h, fun row hrow => ?_⟩
  by_contra hdead
  rw [Bool.not_eq_false] at hdead
  obtain ⟨horphan, -⟩ := deadIn_iff.1 (deadIn_churned h _ hdead)
  rcases List.mem_append.1 hrow with hin | hin
  · exact List.filter_eq_nil_iff.1 (List.eq_nil_of_length_eq_zero htable) row hin horphan
  · exact List.filter_eq_nil_iff.1 (List.eq_nil_of_length_eq_zero hcolumn) row hin horphan

variable {s : Session GlobalStats PurgeError} {lockFree : GlobalStats → Bool}

theorem goes_purgeOrphanStats (dryRun : Bool) (hw : s.Within Churned) (hnamed : Named s.state) :
    Goes Churned (PurgeStep dryRun) (purgeOrphanStats lockFree dryRun)
      (fun _ c => dryRun = false → Purged s.state c) s := by
  have hstable : ∀ c d, Churned s.state c → Churned c d → Churned s.state d := fun _ _ => .trans
  unfold purgeOrphanStats
  refine goes_bind (J := fun counts c => Churned s.state c ∧ (counts = (0, 0) → Purged s.state c))
    (goes_query hw hstable .refl fun c hc => ⟨hc, purged_of_orphanCounts hc⟩)
    fun counts s₁ hw₁ ⟨h₁, hzero⟩ => goes_ite (fun hstop => goes_pure hw₁ fun hdry => ?_) fun hgoes => ?_
  · rw [hdry, Bool.false_or, beq_iff_eq] at hstop
    exact hzero hstop
  have hreal : dryRun = false := by
    simp only [Bool.or_eq_true, not_or, Bool.not_eq_true] at hgoes
    exact hgoes.1
  refine goes_bind (J := fun _ c => Churned s.state c) (goes_call hw₁ hstable h₁ (fun _ _ => .refl) ?_)
    fun _ s₂ hw₂ h₂ => ?_
  · intro c a d hc hrun
    obtain ⟨rfl, -⟩ := Prod.mk.inj hrun
    exact hc
  refine goes_bind (J := fun snapshot c => Churned s.state snapshot ∧ Churned snapshot c)
    (goes_query hw₂ hstable h₂ fun c hc => ⟨hc, .refl⟩) fun snapshot s₃ hw₃ ⟨h₃, hsince⟩ => ?_
  refine goes_bind (J := fun _ c => Purged s.state c) (goes_call hw₃
    (fun _ _ h h' => Relation.ReflTransGen.trans h h') hsince (fun c hc => ?_) fun c a d hc hrun => ?_)
    fun _ s₄ hw₄ h₄ => ?_
  · rcases commitDeletes_spec hc (h₃.named hnamed) with hfailed | ⟨d, hok, hpurge, -⟩
    · rw [hfailed]
      exact .refl
    · rw [hok]
      exact moves_own ⟨hreal, hpurge⟩
  · rcases commitDeletes_spec hc (h₃.named hnamed) with hfailed | ⟨d', hok, hpurge, hrows⟩
    · rw [hfailed] at hrun
      cases hrun
    · rw [hok] at hrun
      obtain ⟨rfl, -⟩ := Prod.mk.inj hrun
      refine ⟨fun tableId hdead => ?_, fun row hrow => ?_⟩
      · rw [deadIn_purge hpurge]
        exact deadIn_churned (h₃.trans hc) tableId hdead
      · by_contra hdead
        rw [Bool.not_eq_false] at hdead
        exact absurd (deadIn_churned h₃ _ hdead) (by simp [hrows row hrow])
  · exact goes_bind (goes_query hw₄ (fun _ _ h h' => h.churned h') h₄ fun _ h => h)
      fun _ t ht h => goes_pure ht fun _ => h

/-- **The purge takes orphans, all of them, and never tears the join.** However it ends and whatever other
    sessions commit meanwhile, a dry run changes nothing, and the only step of a real one deletes the rows
    of tables that have no live version at its commit; every state it leaves has the column stats that
    the table stats need. When a real run returns, no row is left of the tables that were dead when it
    started, those with a NULL key included. -/
theorem purge_takes_orphans (lockFree : GlobalStats → Bool) (dryRun : Bool)
    (s : Session GlobalStats PurgeError) (hw : s.Within Churned) (hnamed : Named s.state)
    (hjoined : Joined s.state) :
    wp (purgeOrphanStats lockFree dryRun)
      (fun _ t => Joined t.state ∧ Moves Churned (PurgeStep dryRun) s.state t.state ∧
        (dryRun = false → ∀ row ∈ t.state.tableStats ++ t.state.columnStats,
          ¬ (s.state.orphaned row.tableId = true ∧ Allocated s.state row.tableId)))
      (fun _ t => Joined t.state ∧ Moves Churned (PurgeStep dryRun) s.state t.state) s := by
  have hjoin : ∀ c, Moves Churned (PurgeStep dryRun) s.state c → Joined c := fun c h =>
    h.invariant (I := Joined) (fun _ _ hc h => h.joined hc) (fun _ _ hc h => hc.purge h.2) hjoined
  refine wp_mono (goes_purgeOrphanStats dryRun hw hnamed) (fun _ t h => ?_) fun _ t h => ?_
  · refine ⟨hjoin _ h.1.2.moves, h.1.2.moves, fun hdry row hrow ⟨horphan, halloc⟩ => ?_⟩
    exact absurd (deadIn_iff.2 ⟨horphan, halloc⟩) (by simp [(h.2 hdry).rows row hrow])
  · exact ⟨hjoin _ h.2.moves, h.2.moves⟩

/-- Table 1 was dropped, table 2 is live; two rows have a NULL key. -/
def droppedTable : Session GlobalStats PurgeError where
  state := {
    tables := [⟨1, 1, some 3⟩, ⟨2, 2, none⟩]
    tableStats := [⟨1, some 1⟩, ⟨2, some 2⟩, ⟨3, none⟩]
    columnStats := [⟨1, some 1⟩, ⟨2, some 2⟩, ⟨3, some 2⟩, ⟨4, none⟩]
    nextCatalogId := 3 }
  others _ c := c
  fates _ := none
  clock := 0

theorem droppedTable_purged : wp (purgeOrphanStats (fun _ => true) false)
    (fun _ t => Joined t.state ∧ Moves Churned (PurgeStep false) droppedTable.state t.state ∧
      (false = false → ∀ row ∈ t.state.tableStats ++ t.state.columnStats,
        ¬ (droppedTable.state.orphaned row.tableId = true ∧ Allocated droppedTable.state row.tableId)))
    (fun _ t => Joined t.state ∧ Moves Churned (PurgeStep false) droppedTable.state t.state) droppedTable :=
  purge_takes_orphans (fun _ => true) false droppedTable (fun _ _ => .refl)
    ⟨by decide, by decide⟩ (by unfold Joined; decide)

example : (final (purgeOrphanStats (fun _ => true) false) droppedTable).state.columnStats =
    [⟨2, some 2⟩, ⟨3, some 2⟩] := by decide +kernel

end Millpond.Maintenance
