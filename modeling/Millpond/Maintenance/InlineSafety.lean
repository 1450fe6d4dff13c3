import Millpond.Maintenance.InlineOthers

set_option autoImplicit false

/-! # What a run of drop-orphan-inline-tables may drop

A transaction that still holds its page knows of each of its rows what it knew when it selected it:
the row is there, its table id is orphaned, a table that was missing is missing still, and a table
it locked and found empty is empty still. So the commit drops what the selection meant. -/

namespace Millpond.Maintenance

open Prog ReadCommitted

/-! ## The writes of a transaction over the committed state -/

@[simp] theorem rowsLocked_append (own own' : List InlineWrite) :
    rowsLocked (own ++ own') = rowsLocked own ++ rowsLocked own' := List.flatMap_append

@[simp] theorem tablesLocked_append (own own' : List InlineWrite) :
    tablesLocked (own ++ own') = tablesLocked own ++ tablesLocked own' := List.flatMap_append

theorem mem_tablesLocked {own : List InlineWrite} {name : String} :
    name ∈ tablesLocked own ↔ .lockTable name ∈ own := by
  induction own with
  | nil => simp [tablesLocked]
  | cons w rest ih =>
      have hsplit : tablesLocked (w :: rest) = tablesLocked [w] ++ tablesLocked rest :=
        tablesLocked_append [w] rest
      rw [hsplit, List.mem_append, ih, List.mem_cons]
      cases w <;> simp [tablesLocked]

theorem mem_overlay_pgClass {own : List InlineWrite} {c : InlineCatalog} {t : PgTable} :
    t ∈ (overlay own c).pgClass ↔ t ∈ c.pgClass ∧ .dropTable t.name ∉ own := by
  induction own generalizing c with
  | nil => simp [overlay]
  | cons w rest ih =>
      show t ∈ (overlay rest (w.apply c)).pgClass ↔ _
      rw [ih]
      cases w <;> simp [InlineWrite.apply, and_assoc]

theorem mem_overlay_registry {own : List InlineWrite} {c : InlineCatalog} {r : RegistryRow} :
    r ∈ (overlay own c).registry ↔
      r ∈ c.registry ∧ ∀ keys, .deleteRegistry keys ∈ own → keys.any r.hasKey = false := by
  induction own generalizing c with
  | nil => simp [overlay]
  | cons w rest ih =>
      show r ∈ (overlay rest (w.apply c)).registry ↔ _
      rw [ih]
      cases w with
      | deleteRegistry keys =>
          simp only [InlineWrite.apply, List.mem_filter, Bool.not_eq_true', List.mem_cons,
            InlineWrite.deleteRegistry.injEq, forall_eq_or_imp, and_assoc]
      | lockRows | lockTable | dropTable => simp [InlineWrite.apply]

/-! ## What the transaction of a batch knows -/

/-- The table was locked before it was dropped. -/
def LockedFirst (own : List InlineWrite) (name : String) : Prop :=
  ∃ before after, own = before ++ .dropTable name :: after ∧ .lockTable name ∈ before

theorem LockedFirst.append {own : List InlineWrite} {name : String} (h : LockedFirst own name)
    (more : List InlineWrite) : LockedFirst (own ++ more) name := by
  obtain ⟨before, after, rfl, hlock⟩ := h
  exact ⟨before, after ++ more, by simp, hlock⟩

theorem LockedFirst.locked {own : List InlineWrite} {name : String} (h : LockedFirst own name) :
    name ∈ tablesLocked own := by
  obtain ⟨before, after, rfl, hlock⟩ := h
  exact mem_tablesLocked.2 (List.mem_append_left _ hlock)

/-- No row in any table of the name. -/
def InlineCatalog.Empty (c : InlineCatalog) (name : String) : Prop :=
  ∀ t ∈ c.pgClass, t.name = name → t.rows = 0

/-- No table of the name. -/
def InlineCatalog.Missing (c : InlineCatalog) (name : String) : Prop :=
  ∀ t ∈ c.pgClass, t.name ≠ name

/-- The name is registered by a row the transaction holds. -/
def Held (own : List InlineWrite) (name : String) : Prop :=
  ∃ r ∈ rowsLocked own, r.tableName = some name

theorem Held.append {own : List InlineWrite} {name : String} (h : Held own name)
    (more : List InlineWrite) : Held (own ++ more) name := by
  obtain ⟨r, hr, hname⟩ := h
  exact ⟨r, by rw [rowsLocked_append]; exact List.mem_append_left _ hr, hname⟩

/-- The invariant of a batch: `page` are the rows to come. -/
structure Holding (own : List InlineWrite) (page : List (RegistryRow × Bool))
    (toDelete : List RegistryKey) (c : InlineCatalog) : Prop where
  rows : ∀ r ∈ rowsLocked own, r ∈ c.registry ∧ c.orphaned r.tableId = true
  waiting : ∀ p ∈ page, p.1 ∈ rowsLocked own ∧
    (p.2 = false → ∀ name, p.1.tableName = some name → c.Missing name)
  dropped : ∀ name, .dropTable name ∈ own → inlineTableNameRe name = true ∧
    LockedFirst own name ∧ c.Empty name ∧ ∃ key ∈ toDelete, key.2.2 = name
  processed : ∀ key ∈ toDelete, (∃ r ∈ rowsLocked own, r.hasKey key = true) ∧
    (.dropTable key.2.2 ∈ own ∨ c.Missing key.2.2)
  deletes : ∀ keys, .deleteRegistry keys ∈ own → keys = toDelete ∧ page = []

section Others

variable {own : List InlineWrite} {page : List (RegistryRow × Bool)} {toDelete : List RegistryKey}
  {c c' : InlineCatalog}

theorem hasKey_name {r : RegistryRow} {key : RegistryKey} (h : r.hasKey key = true) :
    r.tableName = some key.2.2 := by
  simp only [RegistryRow.hasKey, decide_eq_true_eq] at h
  exact h.2.2

theorem registered_of_held {name : String} (hrows : ∀ r ∈ rowsLocked own, r ∈ c.registry)
    (h : Held own name) : ∃ r ∈ c.registry, r.tableName = some name := by
  obtain ⟨r, hr, hname⟩ := h
  exact ⟨r, hrows r hr, hname⟩

theorem missing_action {name : String} (hrows : ∀ r ∈ rowsLocked own, r ∈ c.registry)
    (hheld : Held own name) (a : Action) (h : c.Missing name) :
    (Action.apply own c a).Missing name := by
  intro t ht hname
  subst hname
  obtain ⟨u, hu, hsame, -⟩ := table_action a (registered_of_held hrows hheld) ht
  exact h u hu hsame

theorem empty_action {name : String} (hrows : ∀ r ∈ rowsLocked own, r ∈ c.registry)
    (hheld : Held own name) (hlocked : name ∈ tablesLocked own) (a : Action) (h : c.Empty name) :
    (Action.apply own c a).Empty name := by
  intro t ht hname
  subst hname
  obtain ⟨u, hu, hsame, heq⟩ := table_action a (registered_of_held hrows hheld) ht
  rw [← heq hlocked]
  exact h u hu hsame

theorem Holding.held_of_key (h : Holding own page toDelete c) {key : RegistryKey}
    (hkey : key ∈ toDelete) : Held own key.2.2 := by
  obtain ⟨⟨r, hr, hhas⟩, -⟩ := h.processed key hkey
  exact ⟨r, hr, hasKey_name hhas⟩

/-- One transaction of the others. -/
theorem Holding.action (h : Holding own page toDelete c) (a : Action) :
    Holding own page toDelete (Action.apply own c a) := by
  have hrows : ∀ r ∈ rowsLocked own, r ∈ c.registry := fun r hr => (h.rows r hr).1
  refine ⟨fun r hr => ?_, fun p hp => ?_, fun name hname => ?_, fun key hkey => ?_, h.deletes⟩
  · exact ⟨locked_row_stays a hr (hrows r hr), orphaned_action a (hrows r hr) (h.rows r hr).2⟩
  · obtain ⟨hlocked, hmissing⟩ := h.waiting p hp
    exact ⟨hlocked, fun habsent name hname =>
      missing_action hrows ⟨p.1, hlocked, hname⟩ a (hmissing habsent name hname)⟩
  · obtain ⟨hre, hfirst, hempty, key, hkey, rfl⟩ := h.dropped name hname
    exact ⟨hre, hfirst, empty_action hrows (h.held_of_key hkey) hfirst.locked a hempty, key, hkey,
      rfl⟩
  · obtain ⟨hrow, hgone⟩ := h.processed key hkey
    exact ⟨hrow, hgone.imp_right fun hmissing =>
      missing_action hrows (h.held_of_key hkey) a hmissing⟩

/-- Whatever the others do between two statements. -/
theorem Holding.concurrent (h : Holding own page toDelete c) (hR : Concurrent own c c') :
    Holding own page toDelete c' :=
  concurrent_invariant (I := Holding own page toDelete) (fun _ a hc => hc.action a) hR h

theorem empty_concurrent {name : String} (hheld : Held own name)
    (hlocked : name ∈ tablesLocked own) (h : Holding own page toDelete c) (hempty : c.Empty name)
    (hR : Concurrent own c c') : c'.Empty name :=
  (concurrent_invariant
    (I := fun d => Holding own page toDelete d ∧ d.Empty name)
    (fun _ a hd => ⟨hd.1.action a,
      empty_action (fun r hr => (hd.1.rows r hr).1) hheld hlocked a hd.2⟩) hR ⟨h, hempty⟩).2

/-! ## The statements of a batch -/

/-- The locks of the page. -/
theorem holding_select {rows : List RegistryRow} (hrows : ∀ r ∈ rows, r ∈ c.registry ∧
    c.orphaned r.tableId = true) :
    Holding [.lockRows rows] (rows.map fun r => (r, c.present r)) [] c := by
  have hlocked : rowsLocked [.lockRows rows] = rows := by simp [rowsLocked]
  refine ⟨fun r hr => hrows r (hlocked ▸ hr), fun p hp => ?_, by simp, by simp, by simp⟩
  obtain ⟨r, hr, rfl⟩ := List.mem_map.1 hp
  refine ⟨hlocked.symm ▸ hr, fun habsent name hname t ht heq => ?_⟩
  have hname : r.tableName = some name := hname
  simp only [InlineCatalog.present, hname, Option.any_some] at habsent
  have hne := List.any_eq_false.1 habsent t ht
  simp only [beq_iff_eq] at hne
  exact hne heq

/-- A lock on a table of the page. -/
theorem Holding.lockTable (h : Holding own page toDelete c) (name : String) :
    Holding (own ++ [.lockTable name]) page toDelete c := by
  have hlocked : rowsLocked (own ++ [.lockTable name]) = rowsLocked own := by
    rw [rowsLocked_append]
    simp [rowsLocked]
  refine ⟨by rw [hlocked]; exact h.rows, by rw [hlocked]; exact h.waiting, fun n hn => ?_, ?_, ?_⟩
  · have hn : .dropTable n ∈ own := by simpa using hn
    obtain ⟨hre, hfirst, hrest⟩ := h.dropped n hn
    exact ⟨hre, hfirst.append _, hrest⟩
  · intro key hkey
    rw [hlocked]
    exact ⟨(h.processed key hkey).1, (h.processed key hkey).2.imp_left (List.mem_append_left _)⟩
  · exact fun keys hkeys => h.deletes keys (by simpa using hkeys)

/-- A row that leaves nothing to delete. -/
theorem Holding.skip {p : RegistryRow × Bool} (h : Holding own (p :: page) toDelete c) :
    Holding own page toDelete c :=
  ⟨h.rows, fun q hq => h.waiting q (List.mem_cons_of_mem _ hq), h.dropped, h.processed,
    fun keys hkeys => absurd (h.deletes keys hkeys).2 (List.cons_ne_nil _ _)⟩

theorem hasKey_self {row : RegistryRow} {name : String} (hname : row.tableName = some name) :
    row.hasKey (row.tableId, row.schemaVersion, name) = true := by
  simp [RegistryRow.hasKey, hname]

/-- The row joins those to delete, its table dropped or missing. -/
theorem Holding.delete {row : RegistryRow} {present : Bool} {name : String}
    (h : Holding own ((row, present) :: page) toDelete c) (hname : row.tableName = some name)
    (hgone : .dropTable name ∈ own ∨ c.Missing name) :
    Holding own page (toDelete ++ [(row.tableId, row.schemaVersion, name)]) c := by
  refine ⟨h.rows, h.skip.waiting, fun n hn => ?_, fun key hkey => ?_, fun keys hkeys => ?_⟩
  · obtain ⟨hre, hfirst, hempty, key, hkey, heq⟩ := h.dropped n hn
    exact ⟨hre, hfirst, hempty, key, List.mem_append_left _ hkey, heq⟩
  · rcases List.mem_append.1 hkey with hkey | hkey
    · exact h.processed key hkey
    · obtain rfl := List.mem_singleton.1 hkey
      exact ⟨⟨row, (h.waiting _ List.mem_cons_self).1, hasKey_self hname⟩, hgone⟩
  · exact absurd (h.deletes keys hkeys).2 (List.cons_ne_nil _ _)

/-- The drop of a table that is locked and empty, with its row. -/
theorem Holding.drop {row : RegistryRow} {present : Bool} {name : String}
    (h : Holding own ((row, present) :: page) toDelete c) (hname : row.tableName = some name)
    (hre : inlineTableNameRe name = true) (hlock : .lockTable name ∈ own) (hempty : c.Empty name) :
    Holding (own ++ [.dropTable name]) page
      (toDelete ++ [(row.tableId, row.schemaVersion, name)]) c := by
  have hlocked : rowsLocked (own ++ [.dropTable name]) = rowsLocked own := by
    rw [rowsLocked_append]
    simp [rowsLocked]
  refine ⟨by rw [hlocked]; exact h.rows, by rw [hlocked]; exact h.skip.waiting, fun n hn => ?_,
    fun key hkey => ?_, fun keys hkeys => ?_⟩
  · rcases List.mem_append.1 hn with hn | hn
    · obtain ⟨hre, hfirst, hempty, key, hkey, heq⟩ := h.dropped n hn
      exact ⟨hre, hfirst.append _, hempty, key, List.mem_append_left _ hkey, heq⟩
    · simp only [List.mem_singleton, InlineWrite.dropTable.injEq] at hn
      subst hn
      exact ⟨hre, ⟨own, [], rfl, hlock⟩, hempty, _,
        List.mem_append_right _ (List.mem_singleton_self _), rfl⟩
  · rw [hlocked]
    rcases List.mem_append.1 hkey with hkey | hkey
    · exact ⟨(h.processed key hkey).1, (h.processed key hkey).2.imp_left (List.mem_append_left _)⟩
    · obtain rfl := List.mem_singleton.1 hkey
      exact ⟨⟨row, (h.waiting _ List.mem_cons_self).1, hasKey_self hname⟩, Or.inl (by simp)⟩
  · have hkeys : .deleteRegistry keys ∈ own := by simpa using hkeys
    exact absurd (h.deletes keys hkeys).2 (List.cons_ne_nil _ _)

/-- The end of the loop, with or without rows left. -/
theorem Holding.finish (h : Holding own page toDelete c)
    (hnone : ∀ keys, .deleteRegistry keys ∉ own) : Holding own [] toDelete c :=
  ⟨h.rows, by simp, h.dropped, h.processed, fun keys hkeys => absurd hkeys (hnone keys)⟩

/-- The `DELETE` of the processed rows. -/
theorem Holding.deleteRegistry (h : Holding own [] toDelete c)
    (hnone : ∀ keys, .deleteRegistry keys ∉ own) :
    Holding (own ++ [.deleteRegistry toDelete]) [] toDelete c := by
  have hlocked : rowsLocked (own ++ [.deleteRegistry toDelete]) = rowsLocked own := by
    rw [rowsLocked_append]
    simp [rowsLocked]
  refine ⟨by rw [hlocked]; exact h.rows, by simp, fun n hn => ?_, fun key hkey => ?_,
    fun keys hkeys => ⟨?_, rfl⟩⟩
  · have hn : .dropTable n ∈ own := by simpa using hn
    obtain ⟨hre, hfirst, hrest⟩ := h.dropped n hn
    exact ⟨hre, hfirst.append _, hrest⟩
  · rw [hlocked]
    exact ⟨(h.processed key hkey).1, (h.processed key hkey).2.imp_left (List.mem_append_left _)⟩
  · simpa [hnone keys] using hkeys

end Others

/-! ## A safe commit -/

/-- The commit of `own` into `before` may drop `t`: its name is an inline table's, it was locked
    before it was dropped and is empty, and a registry row that goes with it names it, whose table
    no retained snapshot sees. -/
structure SafelyDropped (own : List InlineWrite) (before : InlineCatalog) (t : PgTable) : Prop where
  name : inlineTableNameRe t.name = true
  locked : LockedFirst own t.name
  empty : t.rows = 0
  row : ∃ r ∈ before.registry, r.tableName = some t.name ∧ before.Unseen r.tableId ∧
    r ∉ (overlay own before).registry

/-- Every table the commit takes away may go, and every registry row it takes away is an orphan's
    whose table it dropped, or did not find. -/
structure SafeInlineBatch (own : List InlineWrite) (before : InlineCatalog) : Prop where
  dropped : ∀ t ∈ before.pgClass, t ∉ (overlay own before).pgClass → SafelyDropped own before t
  deleted : ∀ r ∈ before.registry, r ∉ (overlay own before).registry →
    before.Unseen r.tableId ∧ ∃ name, r.tableName = some name ∧
      (.dropTable name ∈ own ∨ before.Missing name)

theorem safeInlineBatch_nil (before : InlineCatalog) : SafeInlineBatch [] before :=
  ⟨fun _ ht hgone => absurd ht hgone, fun _ hr hgone => absurd hr hgone⟩

/-- What the transaction knows at its commit makes the commit safe. -/
theorem safeInlineBatch_of_holding {own : List InlineWrite} {toDelete : List RegistryKey}
    {before : InlineCatalog} (h : Holding own [] toDelete before)
    (hdelete : toDelete ≠ [] → .deleteRegistry toDelete ∈ own) : SafeInlineBatch own before := by
  constructor
  · intro t ht hgone
    have hdrop : .dropTable t.name ∈ own := by
      by_contra hnot
      exact hgone (mem_overlay_pgClass.2 ⟨ht, hnot⟩)
    obtain ⟨hre, hfirst, hempty, key, hkey, heq⟩ := h.dropped t.name hdrop
    obtain ⟨⟨r, hr, hhas⟩, -⟩ := h.processed key hkey
    obtain ⟨hregistered, horphaned⟩ := h.rows r hr
    refine ⟨hre, hfirst, hempty t ht rfl, r, hregistered, ?_, unseen_of_orphaned horphaned, ?_⟩
    · rw [hasKey_name hhas, heq]
    · intro hstays
      have hnone := (mem_overlay_registry.1 hstays).2 toDelete
        (hdelete (List.ne_nil_of_mem hkey))
      exact absurd hhas (by simpa using List.any_eq_false.1 hnone key hkey)
  · intro r hr hgone
    obtain ⟨keys, hkeys, hany⟩ : ∃ keys, .deleteRegistry keys ∈ own ∧ keys.any r.hasKey = true := by
      by_contra hnot
      push Not at hnot
      exact hgone (mem_overlay_registry.2 ⟨hr, fun keys hkeys => by simpa using hnot keys hkeys⟩)
    obtain ⟨rfl, -⟩ := h.deletes keys hkeys
    obtain ⟨key, hkey, hhas⟩ := List.any_eq_true.1 hany
    obtain ⟨⟨r', hr', hhas'⟩, hgone'⟩ := h.processed key hkey
    have htable : r.tableId = r'.tableId := by
      simp only [RegistryRow.hasKey, decide_eq_true_eq] at hhas hhas'
      exact hhas.1.trans hhas'.1.symm
    exact ⟨htable ▸ unseen_of_orphaned (h.rows r' hr').2, _, hasKey_name hhas, hgone'⟩

/-! ## The transaction -/

abbrev InlineSession := Session InlineCatalog InlineWrite PgError InlineStatement

/-- No registry row is deleted yet. -/
def Undeleted (own : List InlineWrite) : Prop := ∀ keys, .deleteRegistry keys ∉ own

/-- A transaction in the middle of its page. -/
structure Busy (page : List (RegistryRow × Bool)) (toDelete : List RegistryKey) (s : InlineSession) :
    Prop where
  within : s.Within Concurrent
  holding : Holding s.own page toDelete s.committed
  undeleted : Undeleted s.own

section Transaction

variable {s t : InlineSession} {page : List (RegistryRow × Bool)} {toDelete : List RegistryKey}
  {label : InlineStatement}

/-- A statement that writes nothing. -/
theorem Busy.read (h : Busy page toDelete s) (hdid : Did Concurrent label [] s t) :
    Busy page toDelete t := by
  have hown : t.own = s.own := hdid.own.trans (List.append_nil _)
  refine ⟨hdid.within, ?_, hown ▸ h.undeleted⟩
  rw [hown]
  exact h.holding.concurrent hdid.step

theorem wp_selectBatch (after : ℤ × ℤ) (batchSize : ℤ) (skipLocked : RegistryRow → Bool)
    (hw : s.Within Concurrent) (hown : s.own = []) :
    wp (selectBatch false after batchSize skipLocked) (fun page t => Busy page [] t)
      (fun _ _ => True) s := by
  refine wp_mono (wp_statement_did hw) (fun page t h => ?_) (fun _ _ h => h)
  obtain ⟨writes, hrun, hdid⟩ := h
  have hview : overlay s.own t.committed = t.committed := by rw [hown]; rfl
  simp only [hview, Bool.false_eq_true, if_false] at hrun
  split_ifs at hrun with hlimit
  obtain ⟨rfl, rfl⟩ := Prod.mk.inj (Except.ok.inj hrun)
  have htown := hdid.own
  rw [hown, List.nil_append] at htown
  refine ⟨hdid.within, ?_, by rw [htown]; intro keys; simp⟩
  rw [htown]
  unfold inlineOrphanBatch
  rw [List.map_map]
  refine (List.map_id' _).symm ▸ holding_select fun r hr => ?_
  have hmem := List.mem_filter.1 ((List.mem_insertionSort _).1 (List.mem_of_mem_take hr))
  simp only [Bool.and_eq_true] at hmem
  exact ⟨hmem.1, hmem.2.1.2⟩

/-- A table that was found empty under its lock is dropped, still empty. -/
theorem wp_dropTable {row : RegistryRow} {present : Bool} {name : String}
    (h : Busy ((row, present) :: page) toDelete s) (hname : row.tableName = some name)
    (hre : inlineTableNameRe name = true) (hlock : .lockTable name ∈ s.own)
    (hempty : s.committed.Empty name) :
    wp (dropTable name)
      (fun _ t => Busy page (toDelete ++ [(row.tableId, row.schemaVersion, name)]) t)
      (fun _ _ => True) s := by
  refine wp_mono (wp_statement_did h.within) (fun _ t ht => ?_) (fun _ _ h => h)
  obtain ⟨writes, hrun, hdid⟩ := ht
  obtain ⟨-, rfl⟩ := Prod.mk.inj (Except.ok.inj hrun)
  have hheld : Held s.own name := ⟨row, (h.holding.waiting _ List.mem_cons_self).1, hname⟩
  have hstill : t.committed.Empty name :=
    empty_concurrent hheld (mem_tablesLocked.2 hlock) h.holding hempty hdid.step
  have hundeleted := h.undeleted
  refine ⟨hdid.within, ?_, ?_⟩
  · rw [hdid.own]
    exact (h.holding.concurrent hdid.step).drop hname hre hlock hstill
  · rw [hdid.own]
    intro keys hkeys
    exact hundeleted keys (by simpa using hkeys)

theorem wp_lockTable {name : String} (h : Busy page toDelete s) :
    wp (lockTable name) (fun _ t => Busy page toDelete t ∧ .lockTable name ∈ t.own)
      (fun _ _ => True) s := by
  refine wp_mono (wp_statement_did h.within) (fun _ t ht => ?_) (fun _ _ h => h)
  obtain ⟨writes, hrun, hdid⟩ := ht
  split_ifs at hrun with hexists
  obtain ⟨-, rfl⟩ := Prod.mk.inj (Except.ok.inj hrun)
  have hundeleted := h.undeleted
  refine ⟨⟨hdid.within, ?_, ?_⟩, ?_⟩
  · rw [hdid.own]
    exact (h.holding.concurrent hdid.step).lockTable name
  · rw [hdid.own]
    intro keys hkeys
    exact hundeleted keys (by simpa using hkeys)
  · rw [hdid.own]
    exact List.mem_append_right _ (List.mem_singleton_self _)

/-- No row seen is no row there: a table the transaction dropped before was empty. -/
theorem wp_inlineTableHasRows {name : String} (h : Busy page toDelete s) :
    wp (inlineTableHasRows name)
      (fun hasRows t => Busy page toDelete t ∧ t.own = s.own ∧
        (hasRows = false → t.committed.Empty name))
      (fun _ _ => True) s := by
  refine wp_mono (wp_statement_did h.within) (fun hasRows t ht => ?_) (fun _ _ h => h)
  obtain ⟨writes, hrun, hdid⟩ := ht
  split_ifs at hrun with hexists
  obtain ⟨rfl, rfl⟩ := Prod.mk.inj (Except.ok.inj hrun)
  have hbusy := h.read hdid
  have hown : t.own = s.own := hdid.own.trans (List.append_nil _)
  refine ⟨hbusy, hown, fun hnone u hu heq => ?_⟩
  by_cases hdropped : .dropTable name ∈ s.own
  · exact (hbusy.holding.dropped name (hown.symm ▸ hdropped)).2.2.1 u hu heq
  · have hview : u ∈ (overlay s.own t.committed).pgClass :=
      mem_overlay_pgClass.2 ⟨hu, heq.symm ▸ hdropped⟩
    simpa [heq] using List.any_eq_false.1 hnone u hview

/-- One row of the page. -/
theorem wp_dropRow {row : RegistryRow} {present : Bool} {p : BatchProgress}
    (h : Busy ((row, present) :: page) p.toDelete s) :
    wp (dropRow false row present) (fun fate t => Busy page (p.record row fate).toDelete t)
      (fun _ _ => True) s := by
  have hskip : ∀ t : InlineSession, Busy ((row, present) :: page) p.toDelete t →
      Busy page p.toDelete t := fun t ht => ⟨ht.within, ht.holding.skip, ht.undeleted⟩
  unfold dropRow
  cases hvalid : row.tableName.filter inlineTableNameRe with
  | none => exact hskip s h
  | some name =>
      obtain ⟨hname, hre⟩ := Option.filter_eq_some_iff.1 hvalid
      cases present with
      | false =>
          have hmissing := (h.holding.waiting _ List.mem_cons_self).2 rfl name hname
          exact ⟨h.within, h.holding.delete hname (Or.inr hmissing), h.undeleted⟩
      | true =>
          simp only [if_true, unlessDry, Bool.false_eq_true, if_false, wp_bind]
          refine wp_mono (wp_lockTable h) (fun _ t₁ h₁ => ?_) (fun _ _ h => h)
          refine wp_mono (wp_inlineTableHasRows h₁.1) (fun hasRows t₂ h₂ => ?_) (fun _ _ h => h)
          obtain ⟨hbusy, hown, hempty⟩ := h₂
          cases hasRows with
          | true => exact hskip t₂ hbusy
          | false =>
              simp only [Bool.false_eq_true, if_false, wp_bind, wp_pure]
              exact wp_dropTable hbusy hname hre (hown.symm ▸ h₁.2) (hempty rfl)

/-- The loop over the page, by induction on it. -/
theorem wp_dropRows (late : ℕ → Bool) : ∀ (page : List (RegistryRow × Bool)) (i : ℕ)
    (p : BatchProgress) (s : InlineSession), Busy page p.toDelete s →
      wp (dropRows false late i page p) (fun p' t => Busy [] p'.toDelete t) (fun _ _ => True) s := by
  intro page
  induction page with
  | nil => exact fun _ _ _ h => h
  | cons entry rest ih =>
      intro i p s h
      obtain ⟨row, present⟩ := entry
      unfold dropRows
      rw [wp_ite]
      refine ⟨fun _ => ⟨h.within, h.holding.finish h.undeleted, h.undeleted⟩, fun _ => ?_⟩
      rw [wp_bind]
      exact wp_mono (wp_dropRow h) (fun fate t ht => ih (i + 1) (p.record row fate) t ht)
        (fun _ _ h => h)

theorem wp_inlineBatchStatements (after : ℤ × ℤ) (batchSize : ℤ) (world : BatchWorld)
    (hw : s.Within Concurrent) (hown : s.own = []) :
    wp (inlineBatchStatements false after batchSize world) (fun _ t => SafeInlineBatch t.own t.next)
      (fun _ _ => True) s := by
  unfold inlineBatchStatements
  simp only [wp_bind]
  refine wp_mono (wp_selectBatch after batchSize world.skipLocked hw hown) (fun page t₁ h₁ => ?_)
    (fun _ _ h => h)
  refine wp_mono (wp_dropRows world.late page 0 _ t₁ h₁) (fun p t₂ h₂ => ?_) (fun _ _ h => h)
  rw [wp_ite]
  constructor
  · intro hsome
    rw [wp_bind]
    refine wp_mono (wp_statement_did h₂.within) (fun n t₃ h₃ => ?_) (fun _ _ h => h)
    obtain ⟨writes, hrun, hdid⟩ := h₃
    obtain ⟨-, rfl⟩ := Prod.mk.inj (Except.ok.inj hrun)
    have hholding : Holding t₃.own [] p.toDelete t₃.committed := by
      rw [hdid.own]
      exact (h₂.holding.concurrent hdid.step).deleteRegistry h₂.undeleted
    refine safeInlineBatch_of_holding (hholding.concurrent (within_next hdid.within)) fun _ => ?_
    rw [hdid.own]
    exact List.mem_append_right _ (List.mem_singleton_self _)
  · intro hnone
    have hnil : p.toDelete = [] := by simpa using hnone
    refine safeInlineBatch_of_holding (h₂.holding.concurrent (within_next h₂.within)) fun hne => ?_
    exact absurd hnil hne

end Transaction

/-! ## The batch as a transaction -/

section Inside

variable {R : List InlineWrite → InlineCatalog → InlineCatalog → Prop}

theorem inside_dropRow (dryRun : Bool) (row : RegistryRow) (present : Bool) :
    Inside R (dropRow dryRun row present) := by
  unfold dropRow
  cases row.tableName.filter inlineTableNameRe with
  | none => exact inside_pure _
  | some name =>
      refine Inside.ite (Inside.bind ?_ fun _ => (inside_statement _ _).bind fun hasRows =>
        Inside.ite (inside_pure _) (Inside.bind ?_ fun _ => inside_pure _)) (inside_pure _)
      · exact Inside.ite (inside_pure _) (inside_statement _ _)
      · exact Inside.ite (inside_pure _) (inside_statement _ _)

theorem inside_dropRows (dryRun : Bool) (late : ℕ → Bool) : ∀ (page : List (RegistryRow × Bool))
    (i : ℕ) (p : BatchProgress), Inside R (dropRows dryRun late i page p) := by
  intro page
  induction page with
  | nil => exact fun _ _ => inside_pure _
  | cons entry rest ih =>
      intro i p
      obtain ⟨row, present⟩ := entry
      unfold dropRows
      exact Inside.ite (inside_pure _) ((inside_dropRow dryRun row present).bind fun _ => ih _ _)

theorem inside_inlineBatchStatements (dryRun : Bool) (after : ℤ × ℤ) (batchSize : ℤ)
    (world : BatchWorld) : Inside R (inlineBatchStatements dryRun after batchSize world) := by
  unfold inlineBatchStatements
  refine (inside_statement _ _).bind fun page => (inside_dropRows dryRun _ page _ _).bind fun p => ?_
  exact Inside.ite ((inside_statement _ _).bind fun _ => inside_pure _) (inside_pure _)

end Inside

/-! ## A dry run writes nothing -/

/-- A piece of a transaction that leaves no writes behind. -/
def WritesNothing {α : Type} (x : InlineM α) : Prop :=
  ∀ s, s.own = [] → wp x (fun _ t => t.own = []) (fun _ _ => True) s

theorem WritesNothing.bind {α β : Type} {x : InlineM α} {f : α → InlineM β} (hx : WritesNothing x)
    (hf : ∀ a, WritesNothing (f a)) : WritesNothing (x >>= f) := by
  intro s hown
  rw [wp_bind]
  exact wp_mono (hx s hown) (fun a t ht => hf a t ht) (fun _ _ h => h)

theorem writesNothing_pure {α : Type} (a : α) : WritesNothing (pure a : InlineM α) :=
  fun _ hown => hown

theorem writesNothing_statement {α : Type} {label : InlineStatement}
    {run : InlineCatalog → Except InlineError (α × List InlineWrite)}
    (hrun : ∀ c a writes, run c = .ok (a, writes) → writes = []) :
    WritesNothing (statement label run) := by
  intro s hown
  refine wp_statement (fun _ => trivial) fun a writes h => ?_
  obtain rfl := hrun _ _ _ h
  show s.own ++ [] = []
  rw [hown, List.append_nil]

theorem writesNothing_dropRow (row : RegistryRow) (present : Bool) :
    WritesNothing (dropRow true row present) := by
  unfold dropRow
  cases row.tableName.filter inlineTableNameRe with
  | none => exact writesNothing_pure _
  | some name =>
      cases present with
      | false => exact writesNothing_pure _
      | true =>
          refine WritesNothing.bind (writesNothing_pure PUnit.unit) fun _ =>
            WritesNothing.bind ?_ fun hasRows => ?_
          · refine writesNothing_statement fun c a writes h => ?_
            split_ifs at h
            exact (Prod.mk.inj (Except.ok.inj h)).2.symm
          · cases hasRows with
            | true => exact writesNothing_pure _
            | false => exact (writesNothing_pure _).bind fun _ => writesNothing_pure _

theorem writesNothing_dropRows (late : ℕ → Bool) : ∀ (page : List (RegistryRow × Bool)) (i : ℕ)
    (p : BatchProgress), WritesNothing (dropRows true late i page p) := by
  intro page
  induction page with
  | nil => exact fun _ _ => writesNothing_pure _
  | cons entry rest ih =>
      intro i p
      obtain ⟨row, present⟩ := entry
      unfold dropRows
      split
      · exact writesNothing_pure _
      · exact (writesNothing_dropRow row present).bind fun _ => ih _ _

theorem writesNothing_inlineBatchStatements (after : ℤ × ℤ) (batchSize : ℤ) (world : BatchWorld) :
    WritesNothing (inlineBatchStatements true after batchSize world) := by
  unfold inlineBatchStatements
  refine WritesNothing.bind ?_ fun page =>
    (writesNothing_dropRows world.late page _ _).bind fun p => ?_
  · refine writesNothing_statement fun c a writes h => ?_
    simp only [if_true] at h
    split_ifs at h
    exact (Prod.mk.inj (Except.ok.inj h)).2.symm
  · rw [Bool.not_true, Bool.and_false]
    exact writesNothing_pure _

/-! ## The runs -/

section Runs

variable {R : List InlineWrite → InlineCatalog → InlineCatalog → Prop}
  {P : List InlineWrite → InlineCatalog → Prop} {run : InlineRun}

/-- What is true of the commit of every batch of a run is true of all commits of the run. -/
theorem outside_retryBatch {dryRun : Bool}
    (hP : ∀ after batchSize world,
      Outside R P (fun _ => True) (dropInlineBatch dryRun after batchSize world))
    (after : ℤ × ℤ) (world : ℕ → BatchWorld) (left : ℕ) : ∀ attempt batchSize,
      Outside R P (fun _ => True) (retryBatch dryRun after world left attempt batchSize) := by
  induction left with
  | zero => exact fun _ _ => outside_pure _
  | succ left ih =>
      intro attempt batchSize
      unfold retryBatch
      refine ((hP after batchSize (world attempt)).bind fun _ => outside_pure _).tryCatch fun e => ?_
      cases e with
      | pg e => exact Outside.ite (outside_throw _) (Outside.ite (outside_pure _) (ih _ _))
      | emptySnapshots => exact outside_throw _
      | negativeLimit => exact outside_throw _
      | lockContended => exact outside_throw _

theorem outside_inlineLoop
    (hP : ∀ after batchSize world,
      Outside R P (fun _ => True) (dropInlineBatch run.dryRun after batchSize world))
    (server : InlineServer) (ceiling : ℤ) (fuel : ℕ) : ∀ batches cleanBatches batchSize after,
      Outside R P (fun _ => True)
        (inlineLoop run server ceiling fuel batches cleanBatches batchSize after) := by
  induction fuel with
  | zero => exact fun _ _ _ _ => outside_pure _
  | succ fuel ih =>
      intro batches cleanBatches batchSize after
      unfold inlineLoop
      refine Outside.ite (outside_pure _) ((outside_retryBatch hP after _ _ _ _).bind fun r => ?_)
      obtain ⟨result, size, attempt⟩ := r
      cases result with
      | none => exact outside_pure _
      | some res =>
          exact Outside.ite (outside_pure _) (Outside.ite (outside_pure _)
            (Outside.ite (ih _ _ _ _) (ih _ _ _ _)))

theorem outside_acquireLock (server : InlineServer) :
    Outside R P (fun _ => True) (acquireLock run server) := by
  unfold acquireLock
  exact Outside.ite (outside_pure _) ((outside_query _ _).bind fun _ =>
    (outside_query _ _).bind fun _ => Outside.ite (outside_pure _) (outside_throw _))

theorem outside_dropOrphanInlineTables
    (hP : ∀ after batchSize world,
      Outside R P (fun _ => True) (dropInlineBatch run.dryRun after batchSize world))
    (server : InlineServer) (fuel : ℕ) :
    Outside R P (fun _ => True) (dropOrphanInlineTables run server fuel) := by
  unfold dropOrphanInlineTables
  refine (outside_query _ _).bind fun ceiling => (outside_query _ _).bind fun registry => ?_
  refine Outside.ite (outside_pure _) ((outside_query _ _).bind fun snapshots => ?_)
  refine Outside.ite (outside_throw _) ((outside_query _ _).bind fun orphaned => ?_)
  refine Outside.ite (outside_pure _) ((outside_acquireLock server).bind fun _ => ?_)
  exact (outside_inlineLoop hP server ceiling fuel _ _ _ _).bind fun _ => outside_query _ _

/-- The transaction of a dry run commits no write. -/
theorem outside_dropInlineBatch_dry (after : ℤ × ℤ) (batchSize : ℤ) (world : BatchWorld) :
    Outside R (fun own _ => own = []) (fun _ => True)
      (dropInlineBatch true after batchSize world) :=
  outside_transaction (inside_inlineBatchStatements true after batchSize world) fun s _ hown _ =>
    writesNothing_inlineBatchStatements after batchSize world s hown

/-- The transaction of a batch commits safely. -/
theorem outside_dropInlineBatch (dryRun : Bool) (after : ℤ × ℤ) (batchSize : ℤ)
    (world : BatchWorld) :
    Outside Concurrent SafeInlineBatch (fun _ => True)
      (dropInlineBatch dryRun after batchSize world) := by
  cases dryRun with
  | true =>
      refine (outside_dropInlineBatch_dry after batchSize world).imp fun own before hown => ?_
      rw [hown]
      exact safeInlineBatch_nil before
  | false =>
      exact outside_transaction (inside_inlineBatchStatements false after batchSize world)
        fun s hw hown _ => wp_inlineBatchStatements after batchSize world hw hown

theorem outside_inlineRuns (runs : List (InlineRun × InlineServer × ℕ)) :
    Outside Concurrent SafeInlineBatch (fun _ => True) (inlineRuns runs) := by
  induction runs with
  | nil => exact outside_pure _
  | cons entry rest ih =>
      obtain ⟨run, server, fuel⟩ := entry
      exact ((outside_dropOrphanInlineTables (outside_dropInlineBatch run.dryRun) server
        fuel).tryCatch fun _ => outside_pure _).bind fun _ => ih

/-- A dry run leaves the catalog to the others, whoever they are. -/
theorem dry_run_drift (hdry : run.dryRun = true) (server : InlineServer) (fuel : ℕ)
    {s : InlineSession} (hw : s.Within R) (hown : s.own = []) :
    Drift R s.committed (final (dropOrphanInlineTables run server fuel) s).committed := by
  have hP : ∀ after batchSize world, Outside R (fun own _ => own = []) (fun _ => True)
      (dropInlineBatch run.dryRun after batchSize world) := by
    rw [hdry]
    exact outside_dropInlineBatch_dry
  have hran := final_of_wp (outside_dropOrphanInlineTables hP server fuel s hw hown trivial)
  obtain ⟨added, -, hev, hidle⟩ := hran.log
  exact drift_of_evolves_idle hev hidle

end Runs

/-- **Orphaned inline tables are dropped safely.** From any catalog, in any number of runs, whatever
    the batch sizes, deadlines, errors and retries, and whatever the other sessions commit in
    between: the committed state moves by the others and by whole batch transactions only; each of
    these takes away a table only if its name is an inline table's, it was locked and empty, and its
    registry row goes with it, whose table id no retained snapshot sees; it takes away a registry
    row only if it dropped the table or there was none; and a dry run, of any session and among any
    others, changes nothing. -/
theorem drop_orphan_inline_tables_safe (c : InlineCatalog) (schedule : ℕ → List Action)
    (fates : ℕ → Fate PgError) (runs : List (InlineRun × InlineServer × ℕ)) :
    Evolves Concurrent c
      (commits (final (inlineRuns runs) (inlineSession c schedule fates)).seen)
      (final (inlineRuns runs) (inlineSession c schedule fates)).committed ∧
    (∀ entry ∈ commits (final (inlineRuns runs) (inlineSession c schedule fates)).seen,
      SafeInlineBatch entry.1 entry.2) ∧
    ∀ run : InlineRun, run.dryRun = true → ∀ (server : InlineServer) (fuel : ℕ)
      (R : List InlineWrite → InlineCatalog → InlineCatalog → Prop) (s : InlineSession),
      s.Within R → s.own = [] →
      Drift R s.committed (final (dropOrphanInlineTables run server fuel) s).committed := by
  have hran := final_of_wp
    (outside_inlineRuns runs _ (inlineSession_within c schedule fates) rfl trivial)
  obtain ⟨added, hseen, hev, hsafe⟩ := hran.log
  have hadded : commits (final (inlineRuns runs) (inlineSession c schedule fates)).seen =
      commits added := by
    rw [hseen]
    exact congrArg commits (List.append_nil _)
  rw [hadded]
  exact ⟨hev, hsafe, fun run hdry server fuel R s hw hown => dry_run_drift hdry server fuel hw hown⟩

/-- A table dropped at snapshot 2, and its empty inline table. -/
def droppedVersions : List TableVersion := [⟨4, 1, some 2⟩]

theorem droppedVersions_begun : ∀ v ∈ droppedVersions, ∃ s ∈ [2, 3], v.beginSnapshot ≤ s := by
  decide

def oneOrphan : InlineCatalog where
  snapshots := [2, 3]
  versions := droppedVersions
  registry := [⟨4, 1, some "ducklake_inlined_data_4_1"⟩]
  pgClass := [⟨"ducklake_inlined_data_4_1", 0⟩]
  begun := droppedVersions_begun

/-- A stock server without a run budget. -/
def stockServer : InlineServer where
  maxLocksPerTransaction := 64
  maxConnections := 100
  maxPreparedTransactions := 0
  registryExists := true
  lockAcquired := true
  world := fun _ _ => ⟨fun _ => false, fun _ => false, false⟩
  lateAfter := fun _ => false

-- a run drops it, with its row
example : (final (inlineRuns [(⟨false, 500, none⟩, stockServer, 2)])
    (inlineSession oneOrphan (fun _ => []) fun _ => .runs)).committed.pgClass = [] := by
  decide +kernel

end Millpond.Maintenance
