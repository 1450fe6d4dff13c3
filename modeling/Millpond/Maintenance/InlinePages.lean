import Mathlib.Data.Finset.Card
import Millpond.Maintenance.InlineTrace

set_option autoImplicit false

/-! # Every orphan of the registry is paged through

A batch takes on its page, or the part of it that the deadline lets through, and the next page begins
behind the last row that was taken on. What is not behind a page was on it, as long as no two rows of
the registry have one key. -/

namespace Millpond.Maintenance

open Prog ReadCommitted

/-! ## Keys -/

/-- `(table_id, schema_version) < (table_id, schema_version)`. -/
def KeyLt (k k' : ℕ × ℕ) : Prop := k.1 < k'.1 ∨ k.1 = k'.1 ∧ k.2 < k'.2

theorem KeyLt.trans {a b c : ℕ × ℕ} (h : KeyLt a b) (h' : KeyLt b c) : KeyLt a c := by
  unfold KeyLt at *
  omega

theorem not_keyLt_self (k : ℕ × ℕ) : ¬KeyLt k k := by
  unfold KeyLt
  omega

/-- A key as the page is asked for. -/
def cursorOf (key : ℕ × ℕ) : ℤ × ℤ := (key.1, key.2)

theorem after_cursorOf {r : RegistryRow} {key : ℕ × ℕ} :
    r.after (cursorOf key) = true ↔ KeyLt key r.key := by
  simp [RegistryRow.after, cursorOf, KeyLt, RegistryRow.key]

theorem after_of_keyLt {r r' : RegistryRow} {after : ℤ × ℤ} (h : r.after after = true)
    (hlt : KeyLt r.key r'.key) : r'.after after = true := by
  simp only [RegistryRow.after, KeyLt, RegistryRow.key, decide_eq_true_eq] at *
  omega

/-! ## The registry -/

/-- No two rows of the registry have one key, and the keys are of a finite set. -/
structure Tended (keys : Finset (ℕ × ℕ)) (c : InlineCatalog) : Prop where
  once : (c.registry.map RegistryRow.key).Nodup
  known : ∀ r ∈ c.registry, r.key ∈ keys

/-- The row is there, of an orphaned table. -/
def Waits (r : RegistryRow) (c : InlineCatalog) : Prop :=
  r ∈ c.registry ∧ c.orphaned r.tableId = true

/-- What the others leave as it is: the keys of the registry, and the rows that stay. -/
structure Around (keys : Finset (ℕ × ℕ)) (stays : RegistryRow → Prop) (_own : List InlineWrite)
    (c c' : InlineCatalog) : Prop where
  tended : Tended keys c → Tended keys c'
  waits : ∀ r, stays r → Waits r c → Waits r c'

section Overlay

variable {own : List InlineWrite} {c : InlineCatalog} {keys : Finset (ℕ × ℕ)} {r : RegistryRow}

theorem overlay_registry_sublist (own : List InlineWrite) (c : InlineCatalog) :
    (overlay own c).registry.Sublist c.registry ∧ (overlay own c).snapshots = c.snapshots ∧
      (overlay own c).versions = c.versions := by
  induction own generalizing c with
  | nil => exact ⟨List.Sublist.refl _, rfl, rfl⟩
  | cons w rest ih =>
      obtain ⟨hsub, hsnapshots, hversions⟩ := ih (w.apply c)
      cases w with
      | deleteRegistry => exact ⟨hsub.trans List.filter_sublist, hsnapshots, hversions⟩
      | lockRows | lockTable | dropTable => exact ⟨hsub, hsnapshots, hversions⟩

theorem Tended.overlay (h : Tended keys c) (own : List InlineWrite) : Tended keys (overlay own c) := by
  obtain ⟨hsub, -, -⟩ := overlay_registry_sublist own c
  exact ⟨h.once.sublist (hsub.map _), fun r hr => h.known r (hsub.subset hr)⟩

theorem orphaned_overlay (own : List InlineWrite) (c : InlineCatalog) (tableId : ℕ) :
    (ReadCommitted.overlay own c).orphaned tableId = c.orphaned tableId := by
  obtain ⟨-, hsnapshots, hversions⟩ := overlay_registry_sublist own c
  unfold InlineCatalog.orphaned TableVersion.reachable
  rw [hsnapshots, hversions]

/-- A row that no `DELETE` of the transaction names is there after it. -/
theorem Waits.overlay (h : Waits r c)
    (hkept : ∀ keys, .deleteRegistry keys ∈ own → keys.any r.hasKey = false) :
    Waits r (ReadCommitted.overlay own c) :=
  ⟨mem_overlay_registry.2 ⟨h.1, hkept⟩, by rw [orphaned_overlay]; exact h.2⟩

end Overlay

/-! ## Pages -/

/-- The rows that a page without a limit would have. -/
def candidates (after : ℤ × ℤ) (skip : RegistryRow → Bool) (c : InlineCatalog) : List RegistryRow :=
  (c.registry.filter fun r => r.after after && c.orphaned r.tableId && !skip r).insertionSort
    RegistryRow.le

section Page

variable {after : ℤ × ℤ} {skip : RegistryRow → Bool} {c : InlineCatalog} {keys : Finset (ℕ × ℕ)}
  {r : RegistryRow}

theorem inlineOrphanBatch_rows (after : ℤ × ℤ) (n : ℕ) (skip : RegistryRow → Bool) (c : InlineCatalog) :
    (inlineOrphanBatch after n skip c).map Prod.fst = (candidates after skip c).take n := by
  unfold inlineOrphanBatch candidates
  rw [List.map_map]
  exact List.map_id' _

theorem mem_candidates : r ∈ candidates after skip c ↔
    Waits r c ∧ r.after after = true ∧ skip r = false := by
  unfold candidates Waits
  rw [List.mem_insertionSort, List.mem_filter]
  simp only [Bool.and_eq_true, Bool.not_eq_true']
  tauto

/-- The rows of a page are in the order of their keys, none twice. -/
theorem candidates_sorted (h : Tended keys c) :
    (candidates after skip c).Pairwise fun a b => KeyLt a.key b.key := by
  have htotal : Std.Total RegistryRow.le := ⟨fun a b => by unfold RegistryRow.le; omega⟩
  have htrans : IsTrans RegistryRow RegistryRow.le :=
    ⟨fun a b c hab hbc => by unfold RegistryRow.le at *; omega⟩
  have hsorted : (candidates after skip c).Pairwise RegistryRow.le := List.pairwise_insertionSort _ _
  have honce : ((candidates after skip c).map RegistryRow.key).Nodup :=
    ((List.perm_insertionSort _ _).map _).nodup_iff.2 (h.once.sublist (List.filter_sublist.map _))
  refine (hsorted.and (List.pairwise_map.1 honce)).imp fun {a b} hab => ?_
  obtain ⟨hle, hne⟩ := hab
  have hkeys : ¬(a.tableId = b.tableId ∧ a.schemaVersion = b.schemaVersion) :=
    fun heq => hne (Prod.ext heq.1 heq.2)
  simp only [RegistryRow.le, KeyLt, RegistryRow.key] at *
  omega

end Page

/-! ## The loop over a page -/

/-- What a piece of a batch after its selection leaves alone: no page is selected, and no registry row
    deleted. -/
structure Quiet (s t : InlineSession) : Prop where
  views : views .batchSelect t.seen = views .batchSelect s.seen
  undeleted : Undeleted s.own → Undeleted t.own
  fates : t.fates = s.fates

theorem Quiet.refl (s : InlineSession) : Quiet s s := ⟨rfl, id, rfl⟩

theorem Quiet.trans {s t u : InlineSession} (h : Quiet s t) (h' : Quiet t u) : Quiet s u :=
  ⟨h'.views.trans h.views, h'.undeleted ∘ h.undeleted, h'.fates.trans h.fates⟩

theorem quiet_pure {α : Type} (a : α) : Within Quiet (pure a : InlineM α) := fun s => Quiet.refl s

theorem quiet_bind {α β : Type} {x : InlineM α} {f : α → InlineM β} (hx : Within Quiet x)
    (hf : ∀ a, Within Quiet (f a)) : Within Quiet (x >>= f) :=
  hx.bind hf (fun _ _ h => h) fun _ _ _ => Quiet.trans

theorem quiet_statement {α : Type} {label : InlineStatement}
    {run : InlineCatalog → Except InlineError (α × List InlineWrite)} (hlabel : label ≠ .batchSelect)
    (hrun : ∀ c a writes, run c = .ok (a, writes) → Undeleted writes) :
    Within Quiet (statement label run) := by
  intro s
  have hviews : views .batchSelect (s.reading label s.next).seen = views .batchSelect s.seen :=
    (views_statement _ _ _ _).trans (if_neg hlabel)
  refine wp_statement (fun _ => ⟨hviews, id, rfl⟩) fun a writes hwrites => ⟨hviews, ?_, rfl⟩
  intro hown keys hmem
  rcases List.mem_append.1 hmem with hmem | hmem
  · exact hown keys hmem
  · exact hrun _ _ _ hwrites keys hmem

theorem quiet_lockTable (name : String) : Within Quiet (lockTable name) := by
  refine quiet_statement (by decide) fun c a writes h => ?_
  split_ifs at h
  obtain ⟨-, rfl⟩ := Prod.mk.inj (Except.ok.inj h)
  simp [Undeleted]

theorem quiet_inlineTableHasRows (name : String) : Within Quiet (inlineTableHasRows name) := by
  refine quiet_statement (by decide) fun c a writes h => ?_
  split_ifs at h
  obtain ⟨-, rfl⟩ := Prod.mk.inj (Except.ok.inj h)
  simp [Undeleted]

theorem quiet_dropTable (name : String) : Within Quiet (dropTable name) := by
  refine quiet_statement (by decide) fun c a writes h => ?_
  obtain ⟨-, rfl⟩ := Prod.mk.inj (Except.ok.inj h)
  simp [Undeleted]

theorem quiet_dropRow (dryRun : Bool) (row : RegistryRow) (present : Bool) :
    Within Quiet (dropRow dryRun row present) := by
  unfold dropRow
  cases row.tableName.filter inlineTableNameRe with
  | none => exact quiet_pure _
  | some name =>
      refine Within.ite (quiet_bind (Within.ite (quiet_pure _) (quiet_lockTable name)) fun _ =>
        quiet_bind (quiet_inlineTableHasRows name) fun hasRows => ?_) (quiet_pure _)
      exact Within.ite (quiet_pure _)
        (quiet_bind (Within.ite (quiet_pure _) (quiet_dropTable name)) fun _ => quiet_pure _)

/-- The rows that a batch took on so far. -/
def InlineBatchResult.taken (r : InlineBatchResult) : ℕ :=
  r.dropped + r.missing + r.skippedNonempty + r.skippedInvalid

/-- The table that goes with the row. -/
def RowFate.removed : RowFate → Option String
  | .invalidName => none
  | .nonempty => none
  | .dropped name => some name
  | .missing name => some name

/-- A fate names no other table than the row does. -/
theorem wp_dropRow_removed (dryRun : Bool) (row : RegistryRow) (present : Bool) (s : InlineSession) :
    wp (dropRow dryRun row present) (fun fate _ => ∀ name ∈ fate.removed, row.tableName = some name)
      (fun _ _ => True) s := by
  unfold dropRow
  cases hvalid : row.tableName.filter inlineTableNameRe with
  | none => simp [RowFate.removed]
  | some name =>
      obtain ⟨hname, -⟩ := Option.filter_eq_some_iff.1 hvalid
      have hgone : ∀ n ∈ some name, row.tableName = some n := fun n hn => Option.some.inj hn ▸ hname
      cases present with
      | false => exact hgone
      | true =>
          simp only [if_true, wp_bind]
          refine wp_mono (wp_true _ _) (fun _ t _ => ?_) fun _ _ h => h
          refine wp_mono (wp_true _ _) (fun hasRows u _ => ?_) fun _ _ h => h
          cases hasRows with
          | true => simp [RowFate.removed]
          | false =>
              simp only [Bool.false_eq_true, if_false, wp_bind]
              exact wp_mono (wp_true _ _) (fun _ _ _ => hgone) fun _ _ h => h

section Record

variable (p : BatchProgress) (row : RegistryRow) (fate : RowFate)

theorem record_taken : (p.record row fate).result.taken = p.result.taken + 1 := by
  cases fate <;> simp only [BatchProgress.record, InlineBatchResult.taken] <;> omega

theorem record_rows : (p.record row fate).result.rows = p.result.rows := by cases fate <;> rfl

theorem record_truncated : (p.record row fate).result.truncated = p.result.truncated := by
  cases fate <;> rfl

theorem record_lastKey : (p.record row fate).result.lastKey = some row.key := by cases fate <;> rfl

theorem record_toDelete (hname : ∀ name ∈ fate.removed, row.tableName = some name) :
    ∀ key ∈ (p.record row fate).toDelete, key ∈ p.toDelete ∨ row.hasKey key = true := by
  have hlast : ∀ name, row.tableName = some name →
      ∀ key ∈ p.toDelete ++ [(row.tableId, row.schemaVersion, name)],
        key ∈ p.toDelete ∨ row.hasKey key = true := by
    intro name hrow key hkey
    rcases List.mem_append.1 hkey with hkey | hkey
    · exact Or.inl hkey
    · exact Or.inr (List.mem_singleton.1 hkey ▸ hasKey_self hrow)
  cases fate with
  | invalidName => exact fun key => Or.inl
  | nonempty => exact fun key => Or.inl
  | dropped name => exact hlast name (hname name rfl)
  | missing name => exact hlast name (hname name rfl)

end Record

/-- What the loop made of the first `n` rows of the rest of a page. -/
structure Took (rest : List RegistryRow) (p p' : BatchProgress) (n : ℕ) : Prop where
  le : n ≤ rest.length
  taken : p'.result.taken = p.result.taken + n
  rows : p'.result.rows = p.result.rows
  lastKey : p'.result.lastKey = ((rest.take n).getLast?.map RegistryRow.key).or p.result.lastKey
  truncated : p'.result.truncated = decide (n < rest.length)
  started : n < rest.length → p'.result.lastKey.isSome = true
  toDelete : ∀ key ∈ p'.toDelete, key ∈ p.toDelete ∨ ∃ row ∈ rest.take n, row.hasKey key = true

theorem Took.cons {row : RegistryRow} {rest : List RegistryRow} {p p₁ p' : BatchProgress} {n : ℕ}
    (hlast : p₁.result.lastKey = some row.key) (htaken : p₁.result.taken = p.result.taken + 1)
    (hrows : p₁.result.rows = p.result.rows)
    (hdelete : ∀ key ∈ p₁.toDelete, key ∈ p.toDelete ∨ row.hasKey key = true)
    (h : Took rest p₁ p' n) : Took (row :: rest) p p' (n + 1) := by
  have htake : (row :: rest).take (n + 1) = row :: rest.take n := rfl
  refine ⟨Nat.succ_le_succ h.le, ?_, h.rows.trans hrows, ?_, ?_, ?_, ?_⟩
  · rw [h.taken, htaken]
    omega
  · rw [h.lastKey, hlast, htake]
    cases hlastRow : (rest.take n).getLast? with
    | none => simp [List.getLast?_eq_none_iff.1 hlastRow]
    | some last => simp [List.getLast?_cons, hlastRow]
  · rw [h.truncated]
    simp
  · exact fun hlt => h.started (Nat.lt_of_succ_lt_succ hlt)
  · intro key hkey
    rw [htake]
    rcases h.toDelete key hkey with hkey | ⟨r, hr, hhas⟩
    · exact (hdelete key hkey).imp_right fun hhas => ⟨row, List.mem_cons_self, hhas⟩
    · exact Or.inr ⟨r, List.mem_cons_of_mem _ hr, hhas⟩

/-- The loop over a page, by induction on it. -/
theorem wp_dropRows_took (dryRun : Bool) (late : ℕ → Bool) : ∀ (page : List (RegistryRow × Bool))
    (i : ℕ) (p : BatchProgress) (s : InlineSession), p.result.truncated = false →
      wp (dropRows dryRun late i page p)
        (fun p' t => (∃ n, Took (page.map Prod.fst) p p' n) ∧ Quiet s t) (fun _ t => Quiet s t) s := by
  intro page
  induction page with
  | nil =>
      intro i p s hgoing
      refine ⟨⟨0, Nat.le_refl 0, rfl, rfl, ?_, ?_, ?_, fun key => Or.inl⟩, Quiet.refl s⟩
      · rfl
      · exact hgoing
      · exact fun h => absurd h (Nat.lt_irrefl 0)
  | cons entry rest ih =>
      intro i p s hgoing
      obtain ⟨row, present⟩ := entry
      unfold dropRows
      rw [wp_ite]
      refine ⟨fun hlate => ?_, fun _ => ?_⟩
      · obtain ⟨hsome, -⟩ := Bool.and_eq_true_iff.1 hlate
        refine ⟨⟨0, Nat.zero_le _, rfl, rfl, rfl, ?_, fun _ => hsome, fun key => Or.inl⟩, Quiet.refl s⟩
        simp
      · rw [wp_bind]
        refine wp_mono (wp_and (quiet_dropRow dryRun row present s)
          (wp_dropRow_removed dryRun row present s)) (fun fate t h => ?_) (fun _ _ h => h.1)
        obtain ⟨hquiet, hremoved⟩ := h
        refine wp_mono (ih (i + 1) (p.record row fate) t ((record_truncated p row fate).trans hgoing))
          (fun p' u h' => ?_) (fun _ _ h' => hquiet.trans h')
        obtain ⟨⟨n, htook⟩, hquiet'⟩ := h'
        exact ⟨⟨n + 1, htook.cons (record_lastKey p row fate) (record_taken p row fate)
          (record_rows p row fate) (record_toDelete p row fate hremoved)⟩, hquiet.trans hquiet'⟩

/-! ## A batch -/

/-- What a batch returns of the page that it selected. -/
structure BatchOf (page : List RegistryRow) (res : InlineBatchResult) : Prop where
  le : res.rows ≤ page.length
  whole : res.truncated = false → res.rows = page.length
  started : res.truncated = true → 0 < res.rows
  lastKey : res.lastKey = (page.take res.rows).getLast?.map RegistryRow.key

/-- The loop's count is the batch's, whether the deadline stopped it or not. -/
theorem batchOf_settled {page : List RegistryRow} {p' : BatchProgress} {n : ℕ}
    (h : Took page ⟨⟨false, page.length, 0, 0, 0, 0, 0, none⟩, []⟩ p' n) :
    p'.result.settled.rows = n ∧ BatchOf page p'.result.settled := by
  have htaken : p'.result.taken = n := by
    rw [h.taken]
    exact Nat.zero_add n
  have hlast : p'.result.lastKey = (page.take n).getLast?.map RegistryRow.key := by
    rw [h.lastKey]
    exact Option.or_none
  have hsettled : p'.result.settled.truncated = p'.result.truncated ∧
      p'.result.settled.lastKey = p'.result.lastKey := by
    unfold InlineBatchResult.settled
    split <;> exact ⟨rfl, rfl⟩
  have hrows : p'.result.settled.rows = n := by
    unfold InlineBatchResult.settled
    split
    · exact htaken
    · rename_i hwhole
      rw [h.truncated, decide_eq_true_iff, not_lt] at hwhole
      rw [h.rows]
      exact Nat.le_antisymm hwhole h.le
  refine ⟨hrows, ⟨hrows ▸ h.le, fun hwhole => ?_, fun htruncated => ?_, ?_⟩⟩
  · rw [hsettled.1, h.truncated, decide_eq_false_iff_not, not_lt] at hwhole
    rw [hrows]
    exact Nat.le_antisymm h.le hwhole
  · rw [hsettled.1, h.truncated, decide_eq_true_iff] at htruncated
    have hsome := h.started htruncated
    rw [hrows]
    refine Nat.pos_of_ne_zero fun hzero => ?_
    rw [hlast, hzero] at hsome
    cases hsome
  · rw [hsettled.2, hlast, hrows]

/-- What the statements of a batch leave, begun between transactions. -/
structure Selected (dryRun : Bool) (after : ℤ × ℤ) (batchSize : ℤ) (world : BatchWorld)
    (s : InlineSession) (res : InlineBatchResult) (t : InlineSession) : Prop where
  view : (views .batchSelect t.seen).head? = some s.next
  batch : BatchOf ((candidates after (world.skips dryRun) s.next).take batchSize.toNat) res
  deleted : ∀ keys, .deleteRegistry keys ∈ t.own → ∀ key ∈ keys,
    ∃ row ∈ ((candidates after (world.skips dryRun) s.next).take batchSize.toNat).take res.rows,
      row.hasKey key = true
  fates : t.fates = s.fates

theorem wp_selectBatch_page (dryRun : Bool) (after : ℤ × ℤ) (batchSize : ℤ) (world : BatchWorld)
    {s : InlineSession} (hown : s.own = []) :
    wp (selectBatch dryRun after batchSize world.skipLocked)
      (fun page t => page.map Prod.fst = (candidates after (world.skips dryRun) s.next).take
          batchSize.toNat ∧
        views .batchSelect t.seen = s.next :: views .batchSelect s.seen ∧ Undeleted t.own ∧
        t.fates = s.fates) (fun _ t => t.fates = s.fates) s := by
  have hview : overlay s.own s.next = s.next := by
    rw [hown]
    rfl
  have hseen : views .batchSelect (s.reading .batchSelect s.next).seen
      = s.next :: views .batchSelect s.seen := by
    have hself : views .batchSelect (s.reading .batchSelect s.next).seen
        = overlay s.own s.next :: views .batchSelect s.seen :=
      (views_statement _ _ _ _).trans (if_pos rfl)
    rw [hself, hview]
  refine wp_statement (fun _ => rfl) fun page writes hrun => ?_
  rw [hview] at hrun
  split_ifs at hrun with hlimit hdry
  · obtain ⟨rfl, rfl⟩ := Prod.mk.inj (Except.ok.inj hrun)
    refine ⟨?_, hseen, ?_, rfl⟩
    · rw [inlineOrphanBatch_rows, BatchWorld.skips, if_pos hdry]
    · simp [Undeleted, Session.writing, Session.reading, hown]
  · obtain ⟨rfl, rfl⟩ := Prod.mk.inj (Except.ok.inj hrun)
    refine ⟨?_, hseen, ?_, rfl⟩
    · rw [inlineOrphanBatch_rows, BatchWorld.skips, if_neg hdry]
    · simp [Undeleted, Session.writing, Session.reading, hown]

theorem wp_inlineBatchStatements_selected (dryRun : Bool) (after : ℤ × ℤ) (batchSize : ℤ)
    (world : BatchWorld) {s : InlineSession} (hown : s.own = []) :
    wp (inlineBatchStatements dryRun after batchSize world)
      (fun res t => Selected dryRun after batchSize world s res t) (fun _ t => t.fates = s.fates) s := by
  unfold inlineBatchStatements
  simp only [wp_bind]
  refine wp_mono (wp_selectBatch_page dryRun after batchSize world hown) (fun page t h => ?_)
    (fun _ _ h => h)
  obtain ⟨hpage, hviews, hundeleted, hfates⟩ := h
  have hlength : page.length = (page.map Prod.fst).length := (List.length_map _).symm
  refine wp_mono (wp_dropRows_took dryRun world.late page 0 _ t rfl) (fun p u h => ?_)
    (fun _ _ h => h.fates.trans hfates)
  obtain ⟨⟨n, htook⟩, hquiet⟩ := h
  rw [hlength] at htook
  obtain ⟨hrows, hbatch⟩ := batchOf_settled htook
  rw [hpage] at htook hbatch
  rw [wp_ite]
  constructor
  · intro _
    rw [wp_bind]
    have hseen : (views .batchSelect (u.reading .deleteRegistry u.next).seen).head? = some s.next := by
      have hother : views .batchSelect (u.reading .deleteRegistry u.next).seen
          = views .batchSelect u.seen := (views_statement _ _ _ _).trans (if_neg (by decide))
      rw [hother, hquiet.views, hviews]
      rfl
    refine wp_statement (fun _ => hquiet.fates.trans hfates) fun deleted writes hrun => ?_
    obtain ⟨-, rfl⟩ := Prod.mk.inj (Except.ok.inj hrun)
    refine ⟨hseen, ⟨hbatch.le, hbatch.whole, hbatch.started, hbatch.lastKey⟩, ?_,
      hquiet.fates.trans hfates⟩
    intro keys hkeys key hkey
    rcases List.mem_append.1 hkeys with hkeys | hkeys
    · exact absurd hkeys (hquiet.undeleted hundeleted keys)
    · obtain rfl := InlineWrite.deleteRegistry.inj (List.mem_singleton.1 hkeys)
      obtain ⟨row, hrow, hhas⟩ := (htook.toDelete key hkey).resolve_left List.not_mem_nil
      exact ⟨row, hrows.symm ▸ hrow, hhas⟩
  · intro _
    refine ⟨?_, hbatch, ?_, hquiet.fates.trans hfates⟩
    · rw [hquiet.views, hviews]
      rfl
    · exact fun keys hkeys => absurd hkeys (hquiet.undeleted hundeleted keys)

/-! ## The transaction of a batch -/

/-- The key of the `DELETE` is the whole row. -/
theorem hasKey_inj {r r' : RegistryRow} {key : RegistryKey} (h : r.hasKey key = true)
    (h' : r'.hasKey key = true) : r' = r := by
  simp only [RegistryRow.hasKey, decide_eq_true_eq] at h h'
  cases r
  cases r'
  simp_all

/-- Between transactions: no key twice, the others around, and a commit that is reported lost is not
    one that would be tried again. -/
structure InlineReady (keys : Finset (ℕ × ℕ)) (stays : RegistryRow → Prop) (s : InlineSession) : Prop where
  within : s.Within (Around keys stays)
  own : s.own = []
  tended : Tended keys s.committed
  lost : ∀ n e, s.fates n = .unacknowledged e → isRetryableInlineError e = false

section Batch

variable {keys : Finset (ℕ × ℕ)} {stays : RegistryRow → Prop} {s t : InlineSession}

/-- Inside a transaction the others leave the keys and the rows that stay. -/
theorem InlineReady.follows (h : InlineReady keys stays s) (hfollows : Follows (Around keys stays) s t) :
    t.Within (Around keys stays) ∧ Tended keys t.committed ∧
      ∀ r, stays r → Waits r s.committed → Waits r t.committed :=
  ⟨h.within.of_others hfollows.others,
    drift_invariant (I := Tended keys) (fun _ _ _ hc hR => hR.tended hc) hfollows.drift h.tended,
    fun r hr => drift_invariant (I := Waits r) (fun _ _ _ hc hR => hR.waits r hr hc) hfollows.drift⟩

/-- The page of the last selection is the one that it found. -/
theorem lastPage_eq {dryRun : Bool} {after : ℤ × ℤ} {batchSize : ℤ} {world : BatchWorld}
    {view : InlineCatalog} (h : (views .batchSelect s.seen).head? = some view) :
    lastPage dryRun after batchSize world s
      = (candidates after (world.skips dryRun) view).take batchSize.toNat := by
  rw [lastPage, h]
  exact inlineOrphanBatch_rows _ _ _ _

/-- What a batch leaves of the session and of the rows that stay. -/
structure Batched (keys : Finset (ℕ × ℕ)) (stays : RegistryRow → Prop) (dryRun : Bool)
    (after : ℤ × ℤ) (batchSize : ℤ) (world : BatchWorld) (s : InlineSession)
    (res : InlineBatchResult) (t : InlineSession) : Prop where
  ready : InlineReady keys stays t
  view : ∃ view, Tended keys view ∧ (∀ r, stays r → Waits r s.committed → Waits r view) ∧
    lastPage dryRun after batchSize world t
      = (candidates after (world.skips dryRun) view).take batchSize.toNat
  batch : BatchOf (lastPage dryRun after batchSize world t) res
  waits : ∀ r, stays r → Waits r s.committed →
    r ∈ (lastPage dryRun after batchSize world t).take res.rows ∨ Waits r t.committed

theorem wp_dropInlineBatch_batched (dryRun : Bool) (after : ℤ × ℤ) (batchSize : ℤ)
    (world : BatchWorld) (h : InlineReady keys stays s) :
    wp (dropInlineBatch dryRun after batchSize world)
      (fun res t => Batched keys stays dryRun after batchSize world s res t)
      (fun e t => ∀ e', e = .pg e' → isRetryableInlineError e' = true →
        InlineReady keys stays t ∧ ∀ r, stays r → Waits r s.committed → Waits r t.committed) s := by
  have hinside : Inside (Around keys stays)
      (inlineBatchStatements dryRun after batchSize world) :=
    inside_inlineBatchStatements dryRun after batchSize world
  refine wp_transaction_fated (wp_mono (wp_and (hinside s h.within)
    (wp_inlineBatchStatements_selected dryRun after batchSize world h.own)) (fun res t hbody => ?_)
    (fun e t hbody => ?_))
  · obtain ⟨hfollows, hselected⟩ := hbody
    obtain ⟨hwithin, htended, hwaits⟩ := h.follows hfollows
    have hlost : ∀ n e, t.fates n = .unacknowledged e → isRetryableInlineError e = false :=
      hselected.fates.symm ▸ h.lost
    have hnext : Tended keys t.next := (within_next hwithin).tended htended
    have hstill : ∀ r, stays r → Waits r s.committed → Waits r t.next :=
      fun r hr hr' => (within_next hwithin).waits r hr (hwaits r hr hr')
    have hpage : lastPage dryRun after batchSize world (t.committing t.next)
        = (candidates after (world.skips dryRun) s.next).take batchSize.toNat :=
      lastPage_eq hselected.view
    refine ⟨fun _ => ⟨⟨hwithin, rfl, hnext.overlay t.own, hlost⟩, ⟨s.next, ?_, ?_, hpage⟩, ?_, ?_⟩,
      ?_, ?_⟩
    · exact (within_next h.within).tended h.tended
    · exact fun r hr => (within_next h.within).waits r hr
    · exact hpage.symm ▸ hselected.batch
    · intro r hr hr'
      rw [hpage]
      by_cases hdeleted : ∀ keys, .deleteRegistry keys ∈ t.own → keys.any r.hasKey = false
      · exact Or.inr ((hstill r hr hr').overlay hdeleted)
      · push Not at hdeleted
        obtain ⟨keys, hkeys, hany⟩ := hdeleted
        obtain ⟨key, hkey, hhas⟩ := List.any_eq_true.1 (Bool.eq_true_of_not_eq_false hany)
        obtain ⟨row, hrow, hrowKey⟩ := hselected.deleted keys hkeys key hkey
        exact Or.inl (hasKey_inj hhas hrowKey ▸ hrow)
    · rintro e hfate e' heq hretryable
      obtain rfl : e = e' := InlineError.pg.inj heq
      rw [hlost _ _ hfate] at hretryable
      cases hretryable
    · exact fun e _ e' _ _ => ⟨⟨hwithin, rfl, hnext, hlost⟩, hstill⟩
  · obtain ⟨hfollows, hfates⟩ := hbody
    obtain ⟨hwithin, htended, hwaits⟩ := h.follows hfollows
    exact fun e' _ _ => ⟨⟨hwithin, rfl, htended, hfates.symm ▸ h.lost⟩, hwaits⟩

/-- A batch after attempts that failed. -/
theorem Batched.of_waits {dryRun : Bool} {after : ℤ × ℤ} {batchSize : ℤ} {world : BatchWorld}
    {res : InlineBatchResult} {s' : InlineSession}
    (hwaits : ∀ r, stays r → Waits r s.committed → Waits r s'.committed)
    (h : Batched keys stays dryRun after batchSize world s' res t) :
    Batched keys stays dryRun after batchSize world s res t := by
  obtain ⟨view, htended, hseen, hpage⟩ := h.view
  exact ⟨h.ready, ⟨view, htended, fun r hr hr' => hseen r hr (hwaits r hr hr'), hpage⟩, h.batch,
    fun r hr hr' => h.waits r hr (hwaits r hr hr')⟩

theorem shrunk_bounds {batchSize : ℤ} (h : 1 ≤ batchSize) (e : PgError) :
    1 ≤ shrunk batchSize e ∧ shrunk batchSize e ≤ batchSize := by
  unfold shrunk dropInlineMinBatchSize
  split <;> omega

/-- The attempts at a batch: each at most as large as the one before, the last one its page's. -/
theorem wp_retryBatch_batched (dryRun : Bool) (after : ℤ × ℤ) (world : ℕ → BatchWorld) (left : ℕ) :
    ∀ attempt batchSize s, InlineReady keys stays s → 1 ≤ batchSize →
      wp (retryBatch dryRun after world left attempt batchSize)
        (fun r t => 1 ≤ r.2.1 ∧ r.2.1 ≤ batchSize ∧ ∀ res, r.1 = some res →
          Batched keys stays dryRun after r.2.1 (world r.2.2) s res t) (fun _ _ => True) s := by
  induction left with
  | zero => exact fun attempt batchSize s _ h => ⟨h, le_refl _, fun _ hres => absurd hres (by simp)⟩
  | succ left ih =>
      intro attempt batchSize s hready hsize
      unfold retryBatch
      rw [wp_tryCatch, wp_bind]
      refine wp_mono (wp_dropInlineBatch_batched dryRun after batchSize (world attempt) hready)
        (fun res t h => ?_) (fun e t h => ?_)
      · exact ⟨hsize, le_refl _, fun res' heq => Option.some.inj heq ▸ h⟩
      · cases e with
        | emptySnapshots | negativeLimit | lockContended => trivial
        | pg e =>
            obtain ⟨hpos, hle⟩ := shrunk_bounds hsize e
            dsimp only
            rw [wp_ite]
            refine ⟨fun _ => trivial, fun hretry => ?_⟩
            have hretryable : isRetryableInlineError e = true := by
              simpa using (Bool.or_eq_false_iff.1 (Bool.eq_false_iff.2 hretry)).1
            obtain ⟨hready', hwaits⟩ := h e rfl hretryable
            rw [wp_ite]
            refine ⟨fun _ => ⟨hpos, hle, fun _ hres => absurd hres (by simp)⟩, fun _ => ?_⟩
            refine wp_mono (ih (attempt + 1) (shrunk batchSize e) t hready' hpos) (fun r u hr => ?_)
              (fun _ _ h => h)
            obtain ⟨hpos', hle', hbatched⟩ := hr
            exact ⟨hpos', hle'.trans hle, fun res hres => (hbatched res hres).of_waits hwaits⟩

theorem retrySizes_bounds (dryRun : Bool) (after : ℤ × ℤ) (world : ℕ → BatchWorld) (left : ℕ) :
    ∀ attempt batchSize (s : InlineSession), 1 ≤ batchSize →
      ∀ size ∈ retrySizes dryRun after world left attempt batchSize s, 1 ≤ size ∧ size ≤ batchSize := by
  induction left with
  | zero => exact fun _ _ _ _ size hsize => absurd hsize List.not_mem_nil
  | succ left ih =>
      intro attempt batchSize s hpos size hsize
      rcases List.mem_cons.1 hsize with rfl | hsize
      · exact ⟨hpos, le_refl _⟩
      · split at hsize
        · rename_i e s' hfailed
          obtain ⟨hpos', hle⟩ := shrunk_bounds hpos e
          split at hsize
          · cases hsize
          · obtain ⟨hone, hsmall⟩ := ih _ _ _ hpos' size hsize
            exact ⟨hone, hsmall.trans hle⟩
        · cases hsize

end Batch

/-! ## The rows of a batch -/

section Rows

variable {keys : Finset (ℕ × ℕ)} {stays : RegistryRow → Prop} {s t : InlineSession} {dryRun : Bool}
  {after : ℤ × ℤ} {batchSize : ℤ} {world : BatchWorld} {res : InlineBatchResult} {r : RegistryRow}

theorem Batched.page_sorted (h : Batched keys stays dryRun after batchSize world s res t) :
    ((lastPage dryRun after batchSize world t).take res.rows).Pairwise
        (fun a b => KeyLt a.key b.key) ∧
      (∀ r ∈ (lastPage dryRun after batchSize world t).take res.rows, r.after after = true) ∧
      ∀ r ∈ (lastPage dryRun after batchSize world t).take res.rows, r.key ∈ keys := by
  obtain ⟨view, htended, -, hpage⟩ := h.view
  rw [hpage]
  have hmem : ∀ r ∈ ((candidates after (world.skips dryRun) view).take batchSize.toNat).take res.rows,
      Waits r view ∧ r.after after = true ∧ world.skips dryRun r = false :=
    fun r hr => mem_candidates.1 (List.mem_of_mem_take (List.mem_of_mem_take hr))
  refine ⟨?_, fun r hr => (hmem r hr).2.1, fun r hr => htended.known r (hmem r hr).1.1⟩
  exact ((candidates_sorted htended).sublist (List.take_sublist _ _)).sublist (List.take_sublist _ _)

/-- A row that stays is on the whole page, or the page is full and the row is behind it. -/
theorem Batched.covers (h : Batched keys stays dryRun after batchSize world s res t)
    (hwhole : res.truncated = false) (hstays : stays r) (hwaits : Waits r s.committed)
    (hafter : r.after after = true) (hfree : world.skips dryRun r = false) :
    r ∈ (lastPage dryRun after batchSize world t).take res.rows ∨
      batchSize.toNat ≤ res.rows ∧
        ∀ last, ((lastPage dryRun after batchSize world t).take res.rows).getLast? = some last →
          KeyLt last.key r.key := by
  obtain ⟨view, htended, hseen, hpage⟩ := h.view
  have hmem : r ∈ candidates after (world.skips dryRun) view :=
    mem_candidates.2 ⟨hseen r hstays hwaits, hafter, hfree⟩
  have hsorted : (candidates after (world.skips dryRun) view).Pairwise
      fun a b => KeyLt a.key b.key := candidates_sorted htended
  have hrows : res.rows
      = ((candidates after (world.skips dryRun) view).take batchSize.toNat).length :=
    hpage ▸ h.batch.whole hwhole
  rw [hpage, hrows, List.take_length]
  rw [← List.take_append_drop batchSize.toNat (candidates after (world.skips dryRun) view)]
    at hmem hsorted
  rcases List.mem_append.1 hmem with htaken | hleft
  · exact Or.inl htaken
  · refine Or.inr ⟨?_, fun last hlast => ?_⟩
    · rw [List.length_take]
      refine le_min (le_refl _) ?_
      by_contra hshort
      rw [List.drop_of_length_le (not_le.1 hshort).le] at hleft
      cases hleft
    · exact (List.pairwise_append.1 hsorted).2.2 last (List.mem_of_getLast? hlast) r hleft

end Rows

/-! ## The trace of a loop -/

/-- No other session has the row locked when a page is selected. -/
def Free (server : InlineServer) (r : RegistryRow) : Prop :=
  ∀ batches attempt, (server.world batches attempt).skipLocked r = false

theorem Free.skips {server : InlineServer} {r : RegistryRow} (h : Free server r) (dryRun : Bool)
    (batches attempt : ℕ) : (server.world batches attempt).skips dryRun r = false := by
  unfold BatchWorld.skips
  split
  · rfl
  · exact h batches attempt

/-- The rows that the committed batches took on, in order. -/
def InlineTrace.processed (t : InlineTrace) : List RegistryRow :=
  t.batches.flatMap CommittedBatch.processed

/-- The keys behind a cursor. -/
def keysAfter (keys : Finset (ℕ × ℕ)) (after : ℤ × ℤ) : Finset (ℕ × ℕ) :=
  keys.filter fun k => after.1 < k.1 ∨ after.1 = k.1 ∧ after.2 < k.2

theorem mem_keysAfter {keys : Finset (ℕ × ℕ)} {after : ℤ × ℤ} {r : RegistryRow} :
    r.key ∈ keysAfter keys after ↔ r.key ∈ keys ∧ r.after after = true := by
  simp [keysAfter, RegistryRow.after, RegistryRow.key]

/-- What is true of a loop that begins behind `after`, with fuel for so many turns. -/
structure LoopTrace (keys : Finset (ℕ × ℕ)) (stays : RegistryRow → Prop) (server : InlineServer)
    (ceiling : ℤ) (fuel : ℕ) (after : ℤ × ℤ) (s : InlineSession) (t : InlineTrace) : Prop where
  sizes : ∀ size ∈ t.sizes, 1 ≤ size ∧ size ≤ ceiling
  pages : ∀ b ∈ t.batches, 1 ≤ b.batchSize ∧ b.batchSize ≤ ceiling
  increasing : t.processed.Pairwise fun a b => KeyLt a.key b.key
  behind : ∀ r ∈ t.processed, r.after after = true
  cursor : ∀ b ∈ t.batches, ∃ last, b.processed.getLast? = some last ∧ b.next = cursorOf last.key
  complete : t.ending = .finished → ∀ r, stays r → Free server r → Waits r s.committed →
    r.after after = true → r ∈ t.processed
  ends : (keysAfter keys after).card < fuel → t.ending ≠ .outOfFuel

section Loop

variable {keys : Finset (ℕ × ℕ)} {stays : RegistryRow → Prop} {server : InlineServer} {ceiling : ℤ}
  {fuel : ℕ} {after : ℤ × ℤ}
  {s s' : InlineSession} {sizes : List ℤ} {batch : CommittedBatch} {ending : InlineEnding}

/-- A loop that ends without a batch. -/
theorem loopTrace_stop (hsizes : ∀ size ∈ sizes, 1 ≤ size ∧ size ≤ ceiling)
    (hcomplete : ending = .finished → ∀ r, stays r → Free server r → Waits r s.committed →
      r.after after = true → False) (hends : ending = .outOfFuel → fuel = 0) :
    LoopTrace keys stays server ceiling fuel after s ⟨sizes, [], ending, s'⟩ := by
  refine ⟨hsizes, List.forall_mem_nil _, List.Pairwise.nil, List.forall_mem_nil _,
    List.forall_mem_nil _, ?_, ?_⟩
  · exact fun hend r hr hfree hwaits hafter => (hcomplete hend r hr hfree hwaits hafter).elim
  · intro hfuel hend
    rw [hends hend] at hfuel
    exact absurd hfuel (Nat.not_lt_zero _)

/-- A loop that is cut short before a batch. -/
theorem loopTrace_cut (hsizes : ∀ size ∈ sizes, 1 ≤ size ∧ size ≤ ceiling)
    (hcut : ending ≠ .finished ∧ ending ≠ .outOfFuel) :
    LoopTrace keys stays server ceiling fuel after s ⟨sizes, [], ending, s'⟩ :=
  loopTrace_stop hsizes (fun hend => absurd hend hcut.1) fun hend => absurd hend hcut.2

/-- A batch that took on rows. -/
structure GoodBatch (keys : Finset (ℕ × ℕ)) (ceiling : ℤ) (after : ℤ × ℤ) (batch : CommittedBatch) :
    Prop where
  size : 1 ≤ batch.batchSize ∧ batch.batchSize ≤ ceiling
  increasing : batch.processed.Pairwise fun a b => KeyLt a.key b.key
  behind : ∀ r ∈ batch.processed, r.after after = true
  known : ∀ r ∈ batch.processed, r.key ∈ keys
  cursor : ∃ last, batch.processed.getLast? = some last ∧ batch.next = cursorOf last.key

/-- A loop that ends with its first batch. -/
theorem GoodBatch.loopTrace (h : GoodBatch keys ceiling after batch)
    (hsizes : ∀ size ∈ sizes, 1 ≤ size ∧ size ≤ ceiling)
    (hcomplete : ending = .finished → ∀ r, stays r → Free server r → Waits r s.committed →
      r.after after = true → r ∈ batch.processed) (hends : ending ≠ .outOfFuel) :
    LoopTrace keys stays server ceiling fuel after s ⟨sizes, [batch], ending, s'⟩ := by
  have hprocessed : InlineTrace.processed ⟨sizes, [batch], ending, s'⟩ = batch.processed :=
    List.flatMap_singleton _ _
  refine ⟨hsizes, ?_, ?_, ?_, ?_, ?_, fun _ => hends⟩
  · exact fun b hb => List.mem_singleton.1 hb ▸ h.size
  · rw [hprocessed]
    exact h.increasing
  · rw [hprocessed]
    exact h.behind
  · exact fun b hb => List.mem_singleton.1 hb ▸ h.cursor
  · rw [hprocessed]
    exact hcomplete

/-- A loop that is cut short after its first batch. -/
theorem GoodBatch.loopTrace_cut (h : GoodBatch keys ceiling after batch)
    (hsizes : ∀ size ∈ sizes, 1 ≤ size ∧ size ≤ ceiling)
    (hcut : ending ≠ .finished ∧ ending ≠ .outOfFuel) :
    LoopTrace keys stays server ceiling fuel after s ⟨sizes, [batch], ending, s'⟩ :=
  h.loopTrace hsizes (fun hend => absurd hend hcut.1) hcut.2

/-- All rows of a batch are up to its cursor. -/
theorem GoodBatch.keyLt_of_after (h : GoodBatch keys ceiling after batch) {r r' : RegistryRow}
    (hr : r ∈ batch.processed) (hr' : r'.after batch.next = true) : KeyLt r.key r'.key := by
  obtain ⟨last, hlast, hnext⟩ := h.cursor
  rw [hnext, after_cursorOf] at hr'
  obtain ⟨front, hfront⟩ := List.getLast?_eq_some_iff.1 hlast
  have hsorted := h.increasing
  rw [hfront] at hr hsorted
  rcases List.mem_append.1 hr with hmem | hmem
  · exact ((List.pairwise_append.1 hsorted).2.2 r hmem last (List.mem_singleton_self _)).trans hr'
  · rw [List.mem_singleton.1 hmem]
    exact hr'

/-- The keys that are left get fewer. -/
theorem GoodBatch.card_keysAfter (h : GoodBatch keys ceiling after batch) :
    (keysAfter keys batch.next).card < (keysAfter keys after).card := by
  obtain ⟨last, hlast, hnext⟩ := h.cursor
  have hmem := List.mem_of_getLast? hlast
  refine Finset.card_lt_card ⟨fun k hk => ?_, fun hsub => ?_⟩
  · have hafter := (mem_keysAfter (r := ⟨k.1, k.2, none⟩)).1 hk
    have hlt : KeyLt last.key k := after_cursorOf.1 (hnext ▸ hafter.2)
    exact (mem_keysAfter (r := ⟨k.1, k.2, none⟩)).2
      ⟨hafter.1, after_of_keyLt (h.behind last hmem) hlt⟩
  · have hself := hsub (mem_keysAfter.2 ⟨h.known last hmem, h.behind last hmem⟩)
    rw [hnext] at hself
    exact not_keyLt_self _ (after_cursorOf.1 (mem_keysAfter.1 hself).2)

/-- A loop that goes on after its first batch. -/
theorem GoodBatch.prepend (h : GoodBatch keys ceiling after batch) {t : InlineTrace}
    (hsizes : ∀ size ∈ sizes, 1 ≤ size ∧ size ≤ ceiling)
    (ht : LoopTrace keys stays server ceiling fuel batch.next s' t)
    (hwaits : ∀ r, stays r → Free server r → Waits r s.committed → r.after after = true →
      r ∈ batch.processed ∨ Waits r s'.committed ∧ r.after batch.next = true) :
    LoopTrace keys stays server ceiling (fuel + 1) after s (t.prepend sizes batch) := by
  have hprocessed : (t.prepend sizes batch).processed = batch.processed ++ t.processed := rfl
  refine ⟨?_, ?_, ?_, ?_, ?_, ?_, ?_⟩
  · exact fun size hsize => (List.mem_append.1 hsize).elim (hsizes size) (ht.sizes size)
  · exact List.forall_mem_cons.2 ⟨h.size, ht.pages⟩
  · rw [hprocessed, List.pairwise_append]
    exact ⟨h.increasing, ht.increasing, fun r hr r' hr' => h.keyLt_of_after hr (ht.behind r' hr')⟩
  · rw [hprocessed]
    intro r hr
    rcases List.mem_append.1 hr with hr | hr
    · exact h.behind r hr
    · obtain ⟨last, hlast, -⟩ := h.cursor
      have hlast := List.mem_of_getLast? hlast
      exact after_of_keyLt (h.behind last hlast) (h.keyLt_of_after hlast (ht.behind r hr))
  · exact List.forall_mem_cons.2 ⟨h.cursor, ht.cursor⟩
  · intro hend r hr hfree hr' hafter
    rw [hprocessed, List.mem_append]
    exact (hwaits r hr hfree hr' hafter).imp_right fun hlater =>
      ht.complete hend r hr hfree hlater.1 hlater.2
  · exact fun hfuel => ht.ends (Nat.lt_of_lt_of_le h.card_keysAfter (Nat.le_of_lt_succ hfuel))

end Loop

section TraceLoop

variable {keys : Finset (ℕ × ℕ)} {stays : RegistryRow → Prop} {run : InlineRun}
  {server : InlineServer} {ceiling : ℤ}

theorem regrown_bounds {cleanBatches : ℕ} {batchSize : ℤ} (h : 1 ≤ batchSize) (hle : batchSize ≤ ceiling) :
    1 ≤ (regrown ceiling cleanBatches batchSize).2 ∧
      (regrown ceiling cleanBatches batchSize).2 ≤ ceiling := by
  unfold regrown
  split
  · dsimp only
    omega
  · exact ⟨h, hle⟩

/-- A batch of the loop that took on rows. -/
theorem Batched.good {dryRun : Bool} {after : ℤ × ℤ} {batchSize : ℤ} {world : BatchWorld}
    {s t : InlineSession} {res : InlineBatchResult}
    (h : Batched keys stays dryRun after batchSize world s res t) (hsome : res.rows ≠ 0)
    (hpos : 1 ≤ batchSize) (hle : batchSize ≤ ceiling) :
    GoodBatch keys ceiling after ⟨after, batchSize, lastPage dryRun after batchSize world t, res⟩ := by
  obtain ⟨hsorted, hbehind, hknown⟩ := h.page_sorted
  refine ⟨⟨hpos, hle⟩, hsorted, hbehind, hknown, ?_⟩
  have hne : (lastPage dryRun after batchSize world t).take res.rows ≠ [] := by
    intro hnil
    have hlength := congrArg List.length hnil
    rw [List.length_take, Nat.min_eq_left h.batch.le] at hlength
    exact hsome hlength
  refine ⟨_, List.getLast?_eq_some_getLast hne, ?_⟩
  have hlast := h.batch.lastKey
  rw [List.getLast?_eq_some_getLast hne] at hlast
  show nextKey after res.lastKey = _
  rw [hlast]
  rfl

/-- The loop, by induction on its turns. -/
theorem traceLoop_spec (fuel : ℕ) : ∀ batches cleanBatches batchSize after s,
    InlineReady keys stays s → 1 ≤ batchSize → batchSize ≤ ceiling →
      LoopTrace keys stays server ceiling fuel after s
        (traceLoop run server ceiling fuel batches cleanBatches batchSize after s) := by
  induction fuel with
  | zero =>
      intro batches cleanBatches batchSize after s _ _ _
      exact loopTrace_stop (List.forall_mem_nil _) (by simp) fun _ => rfl
  | succ fuel ih =>
      intro batches cleanBatches batchSize after s hready hpos hle
      have hsizes : ∀ size ∈ retrySizes run.dryRun after (server.world batches) dropInlineMaxAttempts 1
          batchSize s, 1 ≤ size ∧ size ≤ ceiling := fun size hsize =>
        (retrySizes_bounds _ _ _ _ _ _ _ hpos size hsize).imp_right fun h => h.trans hle
      have hretried := wp_retryBatch_batched run.dryRun after (server.world batches)
        dropInlineMaxAttempts 1 batchSize s hready hpos
      unfold traceLoop
      split
      · exact loopTrace_cut (List.forall_mem_nil _) (by simp)
      · cases hretry : retryBatch run.dryRun after (server.world batches) dropInlineMaxAttempts 1
            batchSize s with
        | error e t => exact loopTrace_cut hsizes (by simp)
        | ok r t =>
            obtain ⟨result, size, attempt⟩ := r
            obtain ⟨hone, hsmall, hbatched⟩ := (wp_of_ok hretry).1 hretried
            cases result with
            | none => exact loopTrace_cut hsizes (by simp)
            | some res =>
                have hbatch := hbatched res rfl
                have hcovers : res.truncated = false → ∀ r, stays r → Free server r →
                    Waits r s.committed → r.after after = true → _ := fun hwhole r hr hfree hr' hafter =>
                  hbatch.covers hwhole hr hr' hafter (hfree.skips run.dryRun batches attempt)
                dsimp only at hone hsmall hbatch hcovers ⊢
                split
                · rename_i hzero
                  refine loopTrace_stop hsizes (fun hend r hr hfree hr' hafter => ?_) fun hend => ?_
                  rotate_left
                  · split at hend <;> cases hend
                  cases htruncated : res.truncated with
                  | true =>
                      rw [htruncated] at hend
                      cases hend
                  | false =>
                      rcases hcovers htruncated r hr hfree hr' hafter with hmem | ⟨hfull, -⟩
                      · rw [hzero] at hmem
                        cases hmem
                      · omega
                · rename_i hsome
                  have hgood := hbatch.good hsome hone (hsmall.trans hle)
                  split
                  · exact hgood.loopTrace_cut hsizes (by simp)
                  · rename_i hwhole
                    have hcovers := hcovers (Bool.eq_false_iff.2 hwhole)
                    split
                    · refine hgood.loopTrace hsizes (fun _ r hr hfree hr' hafter => ?_) (by simp)
                      exact (hcovers r hr hfree hr' hafter).resolve_right fun hfull => by omega
                    · split
                      · exact hgood.loopTrace_cut hsizes (by simp)
                      · obtain ⟨hone', hle'⟩ := regrown_bounds hone (hsmall.trans hle)
                        -- a whole page: a row it did not take waits behind the cursor of the next one
                        refine hgood.prepend hsizes (ih _ _ _ _ _ hbatch.ready hone' hle')
                          fun r hr hfree hr' hafter => ?_
                        rcases hcovers r hr hfree hr' hafter with hmem | ⟨-, hbehind⟩
                        · exact Or.inl hmem
                        · obtain ⟨last, hlast, hnext⟩ := hgood.cursor
                          refine (hbatch.waits r hr hr').imp_right fun hlater => ⟨hlater, ?_⟩
                          rw [hnext]
                          exact after_cursorOf.2 (hbehind last hlast)

end TraceLoop

end Millpond.Maintenance
