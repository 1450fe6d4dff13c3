import Mathlib.Data.List.Sort
import Millpond.Maintenance.Enumeration
import Millpond.Maintenance.LiveTables

set_option autoImplicit false

/-! # Which tables are compacted

`_enumerate_compaction_tables` groups the files of a band by one text a file, its partition values
joined with slashes. A slash in a value, or a NULL that `string_agg` leaves out, makes one text of
different tuples. -/

namespace Millpond.Maintenance

/-! ## The query -/

/-- A tier's band of file sizes. -/
structure Band where
  min : Option ℤ
  max : ℤ
deriving DecidableEq, Repr

def Band.contains (band : Band) (size : ℤ) : Bool := size < band.max ∧ band.min.all (· ≤ size)

/-- `band_files`: the live files of live tables in the band, without live delete files. -/
def bandFiles (band : Band) (c : Catalog) (l : LiveTables) : List DataFile :=
  c.dataFiles.rows.filter fun f =>
    f.endSnapshot.isNone && (l.nameOf f.tableId).isSome && f.fileSizeBytes.any band.contains &&
      !c.deleteFiles.rows.any fun d => d.dataFileId == f.dataFileId && d.endSnapshot.isNone

/-- The partition values of a file, `ORDER BY fpv.partition_key_index`. -/
def orderedRows (c : Catalog) (f : DataFile) : List PartitionValue :=
  (ownValues f.tableId c f.dataFileId).insertionSort fun a b => a.partitionKeyIndex ≤ b.partitionKeyIndex

/-- What `string_agg` gets; it leaves NULLs out. -/
def orderedValues (c : Catalog) (f : DataFile) : List String :=
  (orderedRows c f).filterMap PartitionValue.partitionValue

/-- `pk`. -/
def partitionKey (c : Catalog) (f : DataFile) : String := "/".intercalate (orderedValues c f)

/-- `file_groups`. -/
def fileGroups (band : Band) (c : Catalog) (l : LiveTables) : List (ℕ × String) :=
  (bandFiles band c l).map fun f => (f.tableId, partitionKey c f)

/-- `mergeable`, with `n_mergeable`. -/
def mergeable (band : Band) (c : Catalog) (l : LiveTables) : List ((ℕ × String) × ℕ) :=
  let groups := fileGroups band c l
  (groups.dedup.map fun g => (g, groups.count g)).filter fun m => 2 ≤ m.2

/-- `SUM(m.n_mergeable)` of the tables of one name. -/
def backlog (band : Band) (c : Catalog) (l : LiveTables) (name : String × String) : ℕ :=
  (((mergeable band c l).filter fun m => l.nameOf m.1.1 = some name).map Prod.snd).sum

/-- `_enumerate_compaction_tables`: the biggest backlog first, then by name. -/
def enumerateCompactionTables (band : Band) (c : Catalog) (l : LiveTables) : List (String × String) :=
  let names := ((mergeable band c l).filterMap fun m => l.nameOf m.1.1).dedup
  let sorted := names.insertionSort fun a b =>
    backlog band c l b < backlog band c l a ∨
      backlog band c l a = backlog band c l b ∧ (a.1 < b.1 ∨ a.1 = b.1 ∧ a.2 ≤ b.2)
  sorted.filter fun name => isCatalogTableName name.1 && isCatalogTableName name.2

/-! ## Tuples -/

/-- The partition-value tuple: the value at each key index, and none for a NULL. -/
def partitionTuple (c : Catalog) (f : DataFile) (index : ℕ) : List String :=
  ((orderedRows c f).filter fun v => v.partitionKeyIndex = index).filterMap PartitionValue.partitionValue

/-- Where a file has one row for a key index, its tuple has one value there or a NULL. -/
theorem length_partitionTuple_le {c : Catalog} {f : DataFile}
    (h : ((orderedRows c f).map PartitionValue.partitionKeyIndex).Nodup) (index : ℕ) :
    (partitionTuple c f index).length ≤ 1 := by
  let rows := (orderedRows c f).filter fun v => v.partitionKeyIndex = index
  have hall : ∀ i ∈ rows.map PartitionValue.partitionKeyIndex, i = index := by
    intro i hi
    obtain ⟨v, hv, rfl⟩ := List.mem_map.1 hi
    simpa using (List.mem_filter.1 hv).2
  have hnodup : (rows.map PartitionValue.partitionKeyIndex).Nodup :=
    h.sublist (List.filter_sublist.map _)
  rw [List.eq_replicate_of_mem hall, List.nodup_replicate, List.length_map] at hnodup
  exact (List.length_filterMap_le _ _).trans hnodup

/-- Two files of a band and of one table have one key exactly if they have one tuple. -/
def KeyFaithful (band : Band) (c : Catalog) (l : LiveTables) : Prop :=
  ∀ f ∈ bandFiles band c l, ∀ g ∈ bandFiles band c l, f.tableId = g.tableId →
    (partitionKey c f = partitionKey c g ↔ partitionTuple c f = partitionTuple c g)

/-- A table is enumerated exactly if two of its files in the band are in one partition. -/
def EnumerationFaithful (band : Band) (c : Catalog) (l : LiveTables) : Prop :=
  ∀ schema name, isCatalogTableName schema = true → isCatalogTableName name = true →
    ((schema, name) ∈ enumerateCompactionTables band c l ↔
      ∃ f ∈ bandFiles band c l, ∃ g ∈ bandFiles band c l, f ≠ g ∧ f.tableId = g.tableId ∧
        l.nameOf f.tableId = some (schema, name) ∧ partitionTuple c f = partitionTuple c g)

/-- The pieces of a tuple: its values without NULLs, cut at their slashes; one empty piece if there is
    no value. -/
def pieces (c : Catalog) (f : DataFile) : List (List Char) :=
  if orderedValues c f = [] then [[]]
  else (orderedValues c f).flatMap fun value => value.toList.splitOn '/'

/-! ## Keys and pieces -/

theorem splitOn_intercalate_flatMap {α : Type} [DecidableEq α] (sep : α) {values : List (List α)}
    (h : values ≠ []) :
    ([sep].intercalate values).splitOn sep = values.flatMap fun value => value.splitOn sep := by
  induction values with
  | nil => exact absurd rfl h
  | cons value rest ih =>
      cases rest with
      | nil => rw [List.intercalate_singleton, List.flatMap_cons, List.flatMap_nil, List.append_nil]
      | cons next rest =>
          rw [List.intercalate_cons_cons, List.append_assoc, List.singleton_append,
            List.splitOn_append_cons_self, ih (List.cons_ne_nil _ _)]
          rfl

theorem splitOn_injective {α : Type} [DecidableEq α] (sep : α) {a b : List α}
    (h : a.splitOn sep = b.splitOn sep) : a = b :=
  calc a = [sep].intercalate (a.splitOn sep) := (List.intercalate_splitOn sep).symm
    _ = [sep].intercalate (b.splitOn sep) := by rw [h]
    _ = b := List.intercalate_splitOn sep

/-- The key is the pieces. -/
theorem splitOn_partitionKey (c : Catalog) (f : DataFile) :
    (partitionKey c f).toList.splitOn '/' = pieces c f := by
  have htext : (partitionKey c f).toList = ['/'].intercalate ((orderedValues c f).map String.toList) :=
    String.toList_intercalate
  unfold pieces
  split
  · rename_i hnil
    rw [htext, hnil]
    rfl
  · rename_i hne
    rw [htext, splitOn_intercalate_flatMap '/' (fun hnil => hne (List.map_eq_nil_iff.1 hnil)),
      List.flatMap_map]

theorem partitionKey_eq_iff (c : Catalog) (f g : DataFile) :
    partitionKey c f = partitionKey c g ↔ pieces c f = pieces c g := by
  rw [← splitOn_partitionKey, ← splitOn_partitionKey]
  exact ⟨fun h => by rw [h], fun h => String.toList_inj.1 (splitOn_injective '/' h)⟩

/-! ## Tuples and keys -/

section Sorted

variable {α β : Type} {key : α → ℕ}

/-- A list in order falls into what is below a bound and the rest. -/
theorem filter_append_filter {l : List α} (h : l.Pairwise fun a b => key a ≤ key b) (n : ℕ) :
    (l.filter fun a => key a < n) ++ (l.filter fun a => n ≤ key a) = l := by
  induction l with
  | nil => rfl
  | cons a rest ih =>
      obtain ⟨hfirst, hrest⟩ := List.pairwise_cons.1 h
      by_cases ha : key a < n
      · rw [List.filter_cons_of_pos (by simpa using ha), List.filter_cons_of_neg (by simpa using ha),
          List.cons_append, ih hrest]
      · -- nothing behind `a` is below the bound
        have hnone : (a :: rest).filter (fun b => key b < n) = [] := by
          refine List.filter_eq_nil_iff.2 fun b hb => ?_
          have hle : key a ≤ key b := by
            rcases List.mem_cons.1 hb with rfl | hb
            · exact le_rfl
            · exact hfirst b hb
          simp only [decide_eq_true_eq]
          omega
        rw [hnone, List.nil_append, List.filter_eq_self]
        intro b hb
        have hle : key a ≤ key b := by
          rcases List.mem_cons.1 hb with rfl | hb
          · exact le_rfl
          · exact hfirst b hb
        simp only [decide_eq_true_eq]
        omega

/-- A list in order is what it has under each key, one key after the other. -/
theorem flatMap_range_filter {l : List α} (h : l.Pairwise fun a b => key a ≤ key b) {n : ℕ}
    (hbound : ∀ a ∈ l, key a < n) :
    ((List.range n).flatMap fun i => l.filter fun a => key a = i) = l := by
  induction n generalizing l with
  | zero =>
      cases l with
      | nil => rfl
      | cons a rest => exact absurd (hbound a List.mem_cons_self) (Nat.not_lt_zero _)
  | succ n ih =>
      have hbelow := ih (h.filter fun a => decide (key a < n)) fun a ha => by
        simpa using (List.mem_filter.1 ha).2
      have hlast : (l.filter fun a => n ≤ key a) = l.filter fun a => key a = n :=
        List.filter_congr fun a ha => by
          have hlt := hbound a ha
          simp only [decide_eq_decide]
          omega
      rw [List.range_succ, List.flatMap_append, List.flatMap_singleton]
      conv_rhs => rw [← filter_append_filter h n, hlast, ← hbelow]
      congr 1
      refine List.flatMap_congr fun i hi => ?_
      rw [List.filter_filter]
      refine List.filter_congr fun a _ => ?_
      have hlt := List.mem_range.1 hi
      simp only [← Bool.decide_and, decide_eq_decide]
      omega

end Sorted

theorem orderedRows_sorted (c : Catalog) (f : DataFile) :
    (orderedRows c f).Pairwise fun a b => a.partitionKeyIndex ≤ b.partitionKeyIndex := by
  have htotal : Std.Total fun a b : PartitionValue => a.partitionKeyIndex ≤ b.partitionKeyIndex :=
    ⟨fun a b => le_total _ _⟩
  have htrans : IsTrans PartitionValue fun a b => a.partitionKeyIndex ≤ b.partitionKeyIndex :=
    ⟨fun a b c => le_trans⟩
  exact List.pairwise_insertionSort _ _

/-- The values are those of the tuple, key index after key index. -/
theorem orderedValues_eq (c : Catalog) (f : DataFile) {n : ℕ}
    (hbound : ∀ v ∈ orderedRows c f, v.partitionKeyIndex < n) :
    orderedValues c f = (List.range n).flatMap (partitionTuple c f) := by
  unfold orderedValues
  conv_lhs => rw [← flatMap_range_filter (orderedRows_sorted c f) hbound, List.filterMap_flatMap]
  rfl

theorem exists_bound (rows : List PartitionValue) : ∃ n, ∀ v ∈ rows, v.partitionKeyIndex < n := by
  induction rows with
  | nil => exact ⟨0, nofun⟩
  | cons v rest ih =>
      obtain ⟨n, hn⟩ := ih
      refine ⟨max n (v.partitionKeyIndex + 1), List.forall_mem_cons.2 ⟨by omega, fun w hw => ?_⟩⟩
      exact lt_max_of_lt_left (hn w hw)

/-- Files of one tuple have one key. -/
theorem partitionKey_of_tuple {c : Catalog} {f g : DataFile}
    (h : partitionTuple c f = partitionTuple c g) : partitionKey c f = partitionKey c g := by
  obtain ⟨n, hn⟩ := exists_bound (orderedRows c f ++ orderedRows c g)
  have hf := orderedValues_eq c f fun v hv => hn v (List.mem_append_left _ hv)
  have hg := orderedValues_eq c g fun v hv => hn v (List.mem_append_right _ hv)
  rw [partitionKey, partitionKey, hf, hg, h]

/-- The key tells the tuples of a band apart exactly where their pieces do. -/
theorem keyFaithful_iff (band : Band) (c : Catalog) (l : LiveTables) :
    KeyFaithful band c l ↔
      ∀ f ∈ bandFiles band c l, ∀ g ∈ bandFiles band c l, f.tableId = g.tableId →
        pieces c f = pieces c g → partitionTuple c f = partitionTuple c g := by
  constructor
  · exact fun h f hf g hg htable hpieces =>
      (h f hf g hg htable).1 ((partitionKey_eq_iff c f g).2 hpieces)
  · exact fun h f hf g hg htable =>
      ⟨fun hkey => h f hf g hg htable ((partitionKey_eq_iff c f g).1 hkey), partitionKey_of_tuple⟩

/-! ## Plain values -/

/-- The values of a file with their key indexes. -/
def keyedValues (c : Catalog) (f : DataFile) : List (ℕ × String) :=
  (orderedRows c f).filterMap fun v => v.partitionValue.map fun value => (v.partitionKeyIndex, value)

theorem orderedValues_eq_map (c : Catalog) (f : DataFile) :
    orderedValues c f = (keyedValues c f).map Prod.snd := by
  unfold orderedValues keyedValues
  rw [List.map_filterMap]
  refine List.filterMap_congr fun v _ => ?_
  cases v.partitionValue <;> rfl

theorem partitionTuple_eq_map (c : Catalog) (f : DataFile) (index : ℕ) :
    partitionTuple c f index =
      ((keyedValues c f).filter fun p => p.1 = index).map Prod.snd := by
  unfold partitionTuple keyedValues
  induction orderedRows c f with
  | nil => rfl
  | cons v rest ih =>
      cases hvalue : v.partitionValue with
      | none =>
          rw [List.filterMap_cons_none (by rw [hvalue]; rfl), ← ih, List.filter_cons]
          split
          · rw [List.filterMap_cons_none hvalue]
          · rfl
      | some value =>
          rw [List.filterMap_cons_some (by rw [hvalue]; rfl), List.filter_cons, List.filter_cons]
          dsimp only
          split
          · rw [List.filterMap_cons_some hvalue, List.map_cons, ih]
          · exact ih

/-- A table whose values have no slash, and whose files have values at the same key indexes, is
    grouped by its partitions. -/
theorem keyFaithful_of_plain {band : Band} {c : Catalog} {l : LiveTables}
    (hplain : ∀ f ∈ bandFiles band c l, ∀ value ∈ orderedValues c f, '/' ∉ value.toList)
    (hindexes : ∀ f ∈ bandFiles band c l, ∀ g ∈ bandFiles band c l, f.tableId = g.tableId →
      (keyedValues c f).map Prod.fst = (keyedValues c g).map Prod.fst) :
    KeyFaithful band c l := by
  rw [keyFaithful_iff]
  intro f hf g hg htable hpieces
  -- without slashes the pieces are the values
  have hvalues : ∀ e ∈ bandFiles band c l, orderedValues c e ≠ [] →
      pieces c e = (orderedValues c e).map String.toList := by
    intro e he hne
    rw [pieces, if_neg hne, ← List.flatMap_singleton' ((orderedValues c e).map String.toList),
      List.flatMap_map]
    exact List.flatMap_congr fun value hvalue => List.splitOn_eq_singleton (hplain e he value hvalue)
  have hlengths : (orderedValues c f).length = (orderedValues c g).length := by
    have hlength := congrArg List.length (hindexes f hf g hg htable)
    simpa [orderedValues_eq_map] using hlength
  have hsame : orderedValues c f = orderedValues c g := by
    by_cases hnil : orderedValues c f = []
    · rw [hnil] at hlengths ⊢
      exact (List.eq_nil_of_length_eq_zero hlengths.symm).symm
    · have hnil' : orderedValues c g ≠ [] := fun h => hnil (by
        rw [h] at hlengths
        exact List.eq_nil_of_length_eq_zero hlengths)
      rw [hvalues f hf hnil, hvalues g hg hnil'] at hpieces
      exact List.map_injective_iff.2 (fun _ _ => String.toList_inj.1) hpieces
  have hkeyed : keyedValues c f = keyedValues c g := by
    rw [orderedValues_eq_map, orderedValues_eq_map] at hsame
    exact (List.zip_of_prod (hindexes f hf g hg htable) hsame).trans
      (List.zip_of_prod rfl rfl).symm
  funext index
  rw [partitionTuple_eq_map, partitionTuple_eq_map, hkeyed]

/-! ## The enumeration -/

theorem bandFiles_nodup (band : Band) (c : Catalog) (l : LiveTables) :
    (bandFiles band c l).Nodup := c.dataFiles.rows_nodup.filter _

/-- A list without repetitions has two members if it is not shorter. -/
theorem two_le_length_iff {α : Type} {l : List α} (h : l.Nodup) :
    2 ≤ l.length ↔ ∃ x ∈ l, ∃ y ∈ l, x ≠ y := by
  constructor
  · intro hlength
    match l with
    | x :: y :: rest =>
        have hne : x ≠ y := (List.rel_of_pairwise_cons h List.mem_cons_self)
        exact ⟨x, List.mem_cons_self, y, List.mem_cons_of_mem _ List.mem_cons_self, hne⟩
  · rintro ⟨x, hx, y, hy, hne⟩
    have hsub : [x, y] ⊆ l := List.cons_subset.2 ⟨hx, List.cons_subset.2 ⟨hy, List.nil_subset _⟩⟩
    have hpair : [x, y].Nodup := by simpa using hne
    exact (List.subperm_of_subset hpair hsub).length_le

/-- A value that occurs twice is one of two members. -/
theorem two_le_count_map {α β : Type} [BEq β] [LawfulBEq β] {l : List α} (h : l.Nodup)
    (key : α → β) (b : β) : 2 ≤ (l.map key).count b ↔ ∃ x ∈ l, ∃ y ∈ l, x ≠ y ∧ key x = b ∧ key y = b := by
  rw [List.count_eq_countP, List.countP_map, List.countP_eq_length_filter,
    two_le_length_iff (h.filter _)]
  simp only [List.mem_filter, Function.comp_apply, beq_iff_eq]
  constructor
  · rintro ⟨x, ⟨hx, hkx⟩, y, ⟨hy, hky⟩, hne⟩
    exact ⟨x, hx, y, hy, hne, hkx, hky⟩
  · rintro ⟨x, hx, y, hy, hne, hkx, hky⟩
    exact ⟨x, ⟨hx, hkx⟩, y, ⟨hy, hky⟩, hne⟩

theorem mem_mergeable {band : Band} {c : Catalog} {l : LiveTables} {group : ℕ × String} {n : ℕ} :
    (group, n) ∈ mergeable band c l ↔ n = (fileGroups band c l).count group ∧ 2 ≤ n := by
  unfold mergeable
  simp only [List.mem_filter, List.mem_map, List.mem_dedup, Prod.mk.injEq, decide_eq_true_eq]
  constructor
  · rintro ⟨⟨g, -, rfl, rfl⟩, htwo⟩
    exact ⟨rfl, htwo⟩
  · rintro ⟨rfl, htwo⟩
    exact ⟨⟨group, List.count_pos_iff.1 (by omega), rfl, rfl⟩, htwo⟩

theorem mem_enumerateCompactionTables {band : Band} {c : Catalog} {l : LiveTables}
    {schema name : String} (hschema : isCatalogTableName schema = true)
    (hname : isCatalogTableName name = true) :
    (schema, name) ∈ enumerateCompactionTables band c l ↔
      ∃ f ∈ bandFiles band c l, ∃ g ∈ bandFiles band c l, f ≠ g ∧ f.tableId = g.tableId ∧
        l.nameOf f.tableId = some (schema, name) ∧ partitionKey c f = partitionKey c g := by
  unfold enumerateCompactionTables
  simp only [List.mem_filter, hschema, hname, Bool.and_self, and_true]
  rw [(List.perm_insertionSort _ _).mem_iff, List.mem_dedup, List.mem_filterMap]
  constructor
  · rintro ⟨⟨⟨tableId, key⟩, n⟩, hgroup, hof⟩
    obtain ⟨rfl, htwo⟩ := mem_mergeable.1 hgroup
    obtain ⟨f, hf, g, hg, hne, hkf, hkg⟩ := (two_le_count_map (bandFiles_nodup band c l)
      (fun f => (f.tableId, partitionKey c f)) (tableId, key)).1 htwo
    obtain ⟨rfl, rfl⟩ := Prod.mk.inj hkf
    obtain ⟨htable, hkey⟩ := Prod.mk.inj hkg
    exact ⟨f, hf, g, hg, hne, htable.symm, hof, hkey.symm⟩
  · rintro ⟨f, hf, g, hg, hne, htable, hof, hkey⟩
    refine ⟨((f.tableId, partitionKey c f), _), mem_mergeable.2 ⟨rfl, ?_⟩, hof⟩
    exact (two_le_count_map (bandFiles_nodup band c l) (fun f => (f.tableId, partitionKey c f))
      (f.tableId, partitionKey c f)).2 ⟨f, hf, g, hg, hne, rfl, by rw [htable, hkey]⟩

/-- **When the key is the partition.** For every catalog and band: two files of one table have one key
    exactly if they have one tuple, and the tables enumerated are those with two files in one
    partition, if and only if no two files of one table have the same pieces and different tuples. -/
theorem compactionGroups_iff (band : Band) (c : Catalog) (l : LiveTables) :
    KeyFaithful band c l ∧ EnumerationFaithful band c l ↔
      ∀ f ∈ bandFiles band c l, ∀ g ∈ bandFiles band c l, f.tableId = g.tableId →
        pieces c f = pieces c g → partitionTuple c f = partitionTuple c g := by
  rw [← keyFaithful_iff]
  refine ⟨And.left, fun hkeys => ⟨hkeys, fun schema name hschema hname => ?_⟩⟩
  rw [mem_enumerateCompactionTables hschema hname]
  constructor
  · rintro ⟨f, hf, g, hg, hne, htable, hof, hkey⟩
    exact ⟨f, hf, g, hg, hne, htable, hof, (hkeys f hf g hg htable).1 hkey⟩
  · rintro ⟨f, hf, g, hg, hne, htable, hof, htuple⟩
    exact ⟨f, hf, g, hg, hne, htable, hof, (hkeys f hf g hg htable).2 htuple⟩

/-! ## A slash in a value -/

def slashFile (dataFileId : ℕ) : DataFile :=
  ⟨dataFileId, 1, 0, none, "f.parquet", true, some 1, some 1, some 10⟩

/-- Two files, of the tuples `("a/b", "c")` and `("a", "b/c")`. -/
def slashCatalog : Catalog where
  snapshots := .empty
  dataFiles := ⟨[slashFile 1, slashFile 2], by decide⟩
  deleteFiles := .empty
  filesScheduledForDeletion := []
  fileColumnStats := []
  filePartitionValues :=
    [⟨1, 1, 0, some "a/b"⟩, ⟨1, 1, 1, some "c"⟩, ⟨2, 1, 0, some "a"⟩, ⟨2, 1, 1, some "b/c"⟩]
  fileVariantStats := []
  snapshotChanges := []
  tableStats := []
  versions := []
  cursors := []

def slashTables : LiveTables where
  tables := [⟨1, 1, "imports", none⟩]
  schemas := [⟨1, "main", none⟩]
  oneTable := by decide
  oneSchema := by decide

def tierOneBand : Band := ⟨none, 1048576⟩

/-- The table is enumerated, and no partition has two files. -/
theorem slashCatalog_collides :
    partitionKey slashCatalog (slashFile 1) = partitionKey slashCatalog (slashFile 2) ∧
      partitionTuple slashCatalog (slashFile 1) ≠ partitionTuple slashCatalog (slashFile 2) ∧
      ("main", "imports") ∈ enumerateCompactionTables tierOneBand slashCatalog slashTables ∧
      ¬ (KeyFaithful tierOneBand slashCatalog slashTables ∧
        EnumerationFaithful tierOneBand slashCatalog slashTables) := by
  have hfirst : slashFile 1 ∈ bandFiles tierOneBand slashCatalog slashTables := by decide
  have hsecond : slashFile 2 ∈ bandFiles tierOneBand slashCatalog slashTables := by decide
  have hkey : partitionKey slashCatalog (slashFile 1) = partitionKey slashCatalog (slashFile 2) := by
    decide
  have htuple : partitionTuple slashCatalog (slashFile 1) ≠
      partitionTuple slashCatalog (slashFile 2) := fun h => by
    have hzero := congrFun h 0
    exact absurd hzero (by decide)
  refine ⟨hkey, htuple, ?_, fun h => htuple ((h.1 _ hfirst _ hsecond rfl).1 hkey)⟩
  exact (mem_enumerateCompactionTables (by decide) (by decide)).2
    ⟨_, hfirst, _, hsecond, by decide, rfl, by decide, hkey⟩

end Millpond.Maintenance
