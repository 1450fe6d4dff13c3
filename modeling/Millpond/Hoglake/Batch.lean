import Millpond.Hoglake.Server
import Millpond.Lib.Options
import Mathlib.Data.List.Sort

set_option autoImplicit false

/-! # Batches

The Arrow table a flush is about, as rows and the columns read off them, and what the sink does to
it before the upload: unwritable columns go, `_inserted_at` is stamped, missing columns are filled,
everything is cast to the destination, and the rows are split by partition tuple. Values are a type
`V`; what pyarrow and pyhoglake compute on them is a `Backend`. -/

namespace Millpond.Hoglake

/-- An Arrow type, by the hoglake type pyhoglake maps it to; some have none. -/
inductive ArrowType where
  | of (type : HogType)
  | unmapped (name : String)
deriving DecidableEq

/-- `arrow_type_to_coltype`, `none` for an `UnsupportedTypeError`. -/
def ArrowType.coltype : ArrowType → Option HogType
  | .of type => some type
  | .unmapped _ => none

structure BatchColumn (ρ V : Type) where
  name : String
  type : ArrowType
  cell : ρ → Option V

structure Batch (ρ V : Type) where
  rows : List ρ
  columns : List (BatchColumn ρ V)

/-- What pyarrow, `pyhoglake.transforms` and the uuid codec compute. -/
structure Backend (ρ V : Type) where
  /-- The cast of a value, `none` when Arrow refuses it. -/
  cast : ArrowType → HogType → V → Option V
  /-- `transform_strings`, value by value. -/
  transform : String → Option ℕ → HogType → Option V → Option String
  /-- `uuid_text`. -/
  uuidText : V → V
  /-- `uuid_bytes`, `none` for a `ValueError`. -/
  uuidBytes : V → Option V
  /-- `datetime.now(UTC)` as a value. -/
  timestamp : ℚ → V
  nbytes : Batch ρ V → ℕ

variable {ρ V : Type} (be : Backend ρ V)

namespace Batch

def numRows (batch : Batch ρ V) : ℕ := batch.rows.length

def names (batch : Batch ρ V) : List String := batch.columns.map (·.name)

/-- The column of a name. -/
def column? (batch : Batch ρ V) (name : String) : Option (BatchColumn ρ V) :=
  batch.columns.find? (·.name = name)

/-- `schema.get_field_index`, `none` for its -1: no column has the name, or several have. -/
def fieldIndex? (batch : Batch ρ V) (name : String) : Option ℕ :=
  if batch.names.count name = 1 then some (batch.names.idxOf name) else none

/-- `remove_column`, `none` for an index beyond the end. -/
def removeColumn (batch : Batch ρ V) (index : ℕ) : Option (Batch ρ V) :=
  if index < batch.columns.length then some { batch with columns := batch.columns.eraseIdx index }
  else none

/-- `drop_columns`: the indices of all the names, and then the columns one by one, the last first, so
    that a name given twice takes the next column with it. `none` when it raises: a `KeyError` for a
    name without an index, an `ArrowInvalid`, which is a `ValueError`, beyond the end. -/
def dropColumns (batch : Batch ρ V) (names : List String) : Option (Batch ρ V) :=
  (names.mapM batch.fieldIndex?).bind fun indices =>
    (indices.insertionSort (· ≥ ·)).foldlM removeColumn batch

/-- The columns of other names. -/
def withoutColumns (batch : Batch ρ V) (names : List String) : Batch ρ V :=
  { batch with columns := batch.columns.filter (·.name ∉ names) }

def appendColumn (batch : Batch ρ V) (column : BatchColumn ρ V) : Batch ρ V :=
  { batch with columns := batch.columns ++ [column] }

/-- Replace the column of a name. -/
def setColumn (batch : Batch ρ V) (name : String) (column : BatchColumn ρ V) : Batch ρ V :=
  { batch with columns := batch.columns.map fun c => if c.name = name then column else c }

@[simp] theorem appendColumn_rows (batch : Batch ρ V) (column : BatchColumn ρ V) :
    (batch.appendColumn column).rows = batch.rows := rfl

@[simp] theorem setColumn_rows (batch : Batch ρ V) (name : String) (column : BatchColumn ρ V) :
    (batch.setColumn name column).rows = batch.rows := rfl

/-! ### Dropping columns -/

theorem removeColumn_sublist {batch batch' : Batch ρ V} {index : ℕ}
    (h : batch.removeColumn index = some batch') :
    batch'.rows = batch.rows ∧ batch'.columns.Sublist batch.columns := by
  unfold removeColumn at h
  split at h
  · obtain rfl := Option.some.inj h
    exact ⟨rfl, List.eraseIdx_sublist ..⟩
  · cases h

theorem dropColumns_sublist {batch batch' : Batch ρ V} {names : List String}
    (h : batch.dropColumns names = some batch') :
    batch'.rows = batch.rows ∧ batch'.columns.Sublist batch.columns := by
  obtain ⟨indices, -, hfold⟩ := Option.bind_eq_some_iff.1 h
  clear h
  generalize indices.insertionSort (· ≥ ·) = sorted at hfold
  induction sorted generalizing batch with
  | nil =>
      obtain rfl := Option.some.inj hfold
      exact ⟨rfl, List.Sublist.refl _⟩
  | cons index rest ih =>
      rw [List.foldlM_cons] at hfold
      obtain ⟨batch₁, hfirst, hrest⟩ := Option.bind_eq_some_iff.1 hfold
      obtain ⟨hrows, hcolumns⟩ := removeColumn_sublist hfirst
      obtain ⟨hrows', hcolumns'⟩ := ih hrest
      exact ⟨hrows'.trans hrows, hcolumns'.trans hcolumns⟩

theorem fieldIndex?_some {batch : Batch ρ V} {name : String} {index : ℕ}
    (h : batch.fieldIndex? name = some index) : index = batch.names.idxOf name := by
  unfold fieldIndex? at h
  split at h
  · exact (Option.some.inj h).symm
  · cases h

/-- The order of the names does not matter. -/
theorem dropColumns_perm (batch : Batch ρ V) {names names' : List String} (h : names.Perm names') :
    batch.dropColumns names = batch.dropColumns names' := by
  unfold dropColumns
  by_cases hall : ∀ name ∈ names, (batch.fieldIndex? name).isSome = true
  · have hindex : ∀ name ∈ names, batch.fieldIndex? name = some (batch.names.idxOf name) := by
      intro name hname
      obtain ⟨index, hindex⟩ := Option.isSome_iff_exists.1 (hall name hname)
      rw [hindex, fieldIndex?_some hindex]
    have hindex' := fun name (hname : name ∈ names') => hindex name (h.symm.subset hname)
    have hsorted : (names.map batch.names.idxOf).insertionSort (· ≥ ·) =
        (names'.map batch.names.idxOf).insertionSort (· ≥ ·) :=
      List.Perm.eq_of_sortedGE List.sortedGE_insertionSort List.sortedGE_insertionSort
        (((List.perm_insertionSort _ _).trans (h.map _)).trans (List.perm_insertionSort _ _).symm)
    rw [mapM_eq_some_map hindex, mapM_eq_some_map hindex', Option.bind_some, Option.bind_some, hsorted]
  · simp only [not_forall] at hall
    obtain ⟨name, hname, hnone⟩ := hall
    have hmissing := Option.not_isSome_iff_eq_none.1 hnone
    rw [mapM_eq_none_iff.2 ⟨name, hname, hmissing⟩,
      mapM_eq_none_iff.2 ⟨name, h.subset hname, hmissing⟩]

/-- Removing a later element moves no earlier one. -/
theorem idxOf_eraseIdx {l : List String} {a : String} {i : ℕ} (h : l.idxOf a < i) :
    (l.eraseIdx i).idxOf a = l.idxOf a := by
  induction l generalizing i with
  | nil => simp
  | cons x rest ih =>
      cases i with
      | zero => omega
      | succ i =>
          rw [List.eraseIdx_cons_succ]
          by_cases hx : x = a
          · rw [List.idxOf_cons_eq _ hx, List.idxOf_cons_eq _ hx]
          · rw [List.idxOf_cons_ne _ hx] at h ⊢
            rw [List.idxOf_cons_ne _ hx, ih (by omega)]

/-- Under distinct names the index of a name is the index of its column alone. -/
theorem eraseIdx_idxOf {columns : List (BatchColumn ρ V)} (hdistinct : (columns.map (·.name)).Nodup)
    (name : String) : columns.eraseIdx ((columns.map (·.name)).idxOf name) =
      columns.filter (·.name ∉ [name]) := by
  induction columns with
  | nil => rfl
  | cons c rest ih =>
      rw [List.map_cons, List.nodup_cons] at hdistinct
      rw [List.map_cons]
      by_cases hc : c.name = name
      · have hrest : ∀ d ∈ rest, decide (d.name ∉ [name]) = true := by
          intro d hd
          have hne : d.name ≠ name := fun heq =>
            hdistinct.1 (hc.trans heq.symm ▸ List.mem_map_of_mem hd)
          simpa using hne
        rw [List.idxOf_cons_eq _ hc, List.eraseIdx_cons_zero, List.filter_cons_of_neg (by simp [hc]),
          List.filter_eq_self.2 hrest]
      · rw [List.idxOf_cons_ne _ hc, List.eraseIdx_cons_succ, ih hdistinct.2,
          List.filter_cons_of_pos (by simpa using hc)]

theorem removeColumn_idxOf {batch : Batch ρ V} (hdistinct : batch.names.Nodup) {name : String}
    (h : name ∈ batch.names) :
    batch.removeColumn (batch.names.idxOf name) = some (batch.withoutColumns [name]) := by
  have hlt : batch.names.idxOf name < batch.columns.length := by
    have hlength : batch.names.length = batch.columns.length := List.length_map _
    exact hlength ▸ List.idxOf_lt_length_iff.2 h
  unfold removeColumn withoutColumns
  rw [if_pos hlt]
  exact congrArg some (congrArg (Batch.mk batch.rows) (eraseIdx_idxOf hdistinct name))

theorem names_withoutColumns (batch : Batch ρ V) (names : List String) :
    (batch.withoutColumns names).names = batch.names.filter (· ∉ names) := by
  unfold withoutColumns Batch.names
  rw [List.filter_map]
  rfl

/-- Names by falling index are taken out one by one. -/
theorem removeColumns_idxOf {batch : Batch ρ V} (hdistinct : batch.names.Nodup) {names : List String}
    (hfalling : (names.map batch.names.idxOf).Pairwise (· > ·)) (hsub : names ⊆ batch.names) :
    (names.map batch.names.idxOf).foldlM removeColumn batch = some (batch.withoutColumns names) := by
  induction names generalizing batch with
  | nil => simp [withoutColumns]
  | cons name rest ih =>
      rw [List.map_cons, List.pairwise_cons] at hfalling
      have hname := hsub List.mem_cons_self
      have hnames : (batch.withoutColumns [name]).names =
          batch.names.eraseIdx (batch.names.idxOf name) := by
        rw [List.eraseIdx_idxOf_eq_erase, hdistinct.erase_eq_filter, names_withoutColumns]
        exact List.filter_congr fun a _ => by by_cases ha : a = name <;> simp [ha]
      -- the names still to go are before this one
      have hbefore : ∀ other ∈ rest, (batch.withoutColumns [name]).names.idxOf other =
          batch.names.idxOf other := fun other hother => by
        rw [hnames, idxOf_eraseIdx (hfalling.1 _ (List.mem_map_of_mem hother))]
      have hindices : rest.map batch.names.idxOf =
          rest.map (batch.withoutColumns [name]).names.idxOf :=
        (List.map_congr_left hbefore).symm
      have hrest : rest ⊆ (batch.withoutColumns [name]).names := by
        intro other hother
        rw [names_withoutColumns]
        refine List.mem_filter.2 ⟨hsub (List.mem_cons_of_mem _ hother), ?_⟩
        have hlt := hfalling.1 _ (List.mem_map_of_mem hother)
        have hne : other ≠ name := fun heq => absurd hlt (by rw [heq]; exact Nat.lt_irrefl _)
        simpa using hne
      have hstep := ih (hnames ▸ hdistinct.sublist (List.eraseIdx_sublist ..)) (hindices ▸ hfalling.2)
        hrest
      rw [List.map_cons, List.foldlM_cons, removeColumn_idxOf hdistinct hname, hindices]
      refine hstep.trans (congrArg some ?_)
      unfold withoutColumns
      dsimp only
      rw [List.filter_filter]
      congr 1
      exact List.filter_congr fun c _ => by
        simp [not_or, Bool.and_comm]

/-- **Distinct names of a table with distinct names**: their columns go, and no other. -/
theorem dropColumns_of_nodup {batch : Batch ρ V} (hdistinct : batch.names.Nodup)
    {names : List String} (hnames : names.Nodup) (hsub : names ⊆ batch.names) :
    batch.dropColumns names = some (batch.withoutColumns names) := by
  have hindex : ∀ name ∈ names, batch.fieldIndex? name = some (batch.names.idxOf name) := by
    intro name hname
    unfold fieldIndex?
    rw [if_pos (List.count_eq_one_of_mem hdistinct (hsub hname))]
  let later := fun a b : String => batch.names.idxOf a ≥ batch.names.idxOf b
  have hperm : (names.insertionSort later).Perm names := List.perm_insertionSort _ _
  have hsort : (names.map batch.names.idxOf).insertionSort (· ≥ ·) =
      (names.insertionSort later).map batch.names.idxOf :=
    (List.map_insertionSort later (· ≥ ·) _ _ fun _ _ _ _ => Iff.rfl).symm
  have hfalling : ((names.insertionSort later).map batch.names.idxOf).Pairwise (· > ·) := by
    have hge : ((names.insertionSort later).map batch.names.idxOf).Pairwise (· ≥ ·) := by
      rw [← hsort]
      exact List.pairwise_insertionSort _ _
    have hne : ((names.insertionSort later).map batch.names.idxOf).Nodup := by
      refine List.Nodup.map_on (fun a ha b hb heq => ?_) (hperm.nodup_iff.2 hnames)
      exact (List.idxOf_inj (hsub (hperm.subset ha))).1 heq
    exact (hge.and hne).imp fun h => lt_of_le_of_ne h.1 (Ne.symm h.2)
  unfold dropColumns
  rw [mapM_eq_some_map hindex, Option.bind_some, hsort,
    removeColumns_idxOf hdistinct hfalling fun name hname => hsub (hperm.subset hname)]
  unfold withoutColumns
  congr 2
  exact List.filter_congr fun c _ => by simp [hperm.mem_iff]

end Batch

/-! ## Column names -/

/-- `_INSERTED_AT`. -/
def insertedAt : String := "_inserted_at"

/-- `RESERVED_COLUMNS`. -/
def reservedColumns : List String := ["_inserted_at"]

/-- `_HOG_RESERVED_PREFIX`. -/
def hogReservedPrefix : String := "_hog"

/-- `_MAX_COLUMN_NAME_LEN`. -/
def maxColumnNameLen : ℕ := 128

/-- `[a-zA-Z_]`. -/
def isIdentifierStart (c : Char) : Bool := c.isAlpha || c = '_'

/-- `SAFE_IDENTIFIER.match(name)`, with the `$` that also matches before a final newline. -/
def matchesSafeIdentifier (name : String) : Bool :=
  let chars := name.toList
  let body := if chars.getLast? = some '\n' then chars.dropLast else chars
  match body with
  | [] => false
  | c :: rest => isIdentifierStart c && rest.all fun d => isIdentifierStart d || d.isDigit

/-- The three gates of `_drop_unwritable_columns`. -/
def isWritable (name : String) : Bool :=
  !(hogReservedPrefix.toList.isPrefixOf name.toLower.toList) && matchesSafeIdentifier name &&
    name.length ≤ maxColumnNameLen

/-- `_drop_unwritable_columns`. The names of a table are distinct, so `drop_columns` takes out the
    columns that are named and no other. -/
def dropUnwritableColumns (batch : Batch ρ V) : Batch ρ V :=
  batch.withoutColumns (batch.names.filter (!isWritable ·))

/-- Every column had an unwritable name, or there are no rows: the flush is skipped. -/
def isSkipped (batch : Batch ρ V) : Bool :=
  (!batch.columns.isEmpty && (dropUnwritableColumns batch).columns.isEmpty) || batch.rows.isEmpty

/-! ## Filling and casting -/

/-- `_stamp_inserted_at`: one value for the whole flush. -/
def stampInsertedAt (now : ℚ) (batch : Batch ρ V) : Batch ρ V :=
  batch.appendColumn ⟨insertedAt, .of .timestamptz, fun _ => some (be.timestamp now)⟩

/-- `_null_fill_missing`. -/
def nullFillMissing (liveColumns : List Column) (batch : Batch ρ V) : Batch ρ V :=
  liveColumns.foldl (fun batch c =>
    if c.name ∈ batch.names then batch
    else batch.appendColumn ⟨c.name, .of c.type, fun _ => none⟩) batch

/-- One column cast to its live type, `none` when a value does not cast. -/
def castColumn (batch : Batch ρ V) (live : Column) : Option (BatchColumn ρ V) :=
  match batch.column? live.name with
  | none => none
  | some c =>
    if batch.rows.all fun row => (c.cell row).all fun v => (be.cast c.type live.type v).isSome then
      some ⟨live.name, .of live.type, fun row => (c.cell row).bind (be.cast c.type live.type)⟩
    else none

/-- `batch.select(names).cast(target)`. -/
def align (columns : List Column) (batch : Batch ρ V) : Option (Batch ρ V) :=
  (columns.mapM (castColumn be batch)).map fun cast => { batch with columns := cast }

/-- What `_rewrite_column` makes of a column: uuid bytes to text, or uuid text to bytes. -/
def rewritten (want : HogType) (c : BatchColumn ρ V) : BatchColumn ρ V :=
  if want = .uuid then ⟨c.name, .of .string, fun row => (c.cell row).map be.uuidText⟩
  else ⟨c.name, .of .uuid, fun row => (c.cell row).bind be.uuidBytes⟩

/-- `_rewrite_column`, `none` for the `ValueError` of a name that is not in the batch. -/
def rewriteColumn (name : String) (want : HogType) (batch : Batch ρ V) : Option (Batch ρ V) :=
  (batch.column? name).map fun c => batch.setColumn name (rewritten be want c)

/-! ## Partition tuples -/

/-- A partition tuple on the wire; `none` stands for an unpartitioned table. -/
abbrev PartitionValues := Option (List (Option String))

/-- The live columns the spec's fields read, `none` when one of them is not live. -/
def partitionSources (shape : Shape) : Option (List (PartitionField × Column)) :=
  shape.partitionSpec.mapM fun f =>
    (shape.columns.find? (·.fieldId = f.sourceFieldId)).map fun c => (f, c)

/-- The tuple of one row. -/
def partitionTuple (sources : List (PartitionField × Column)) (data : Batch ρ V) (row : ρ) :
    List (Option String) :=
  sources.map fun source =>
    be.transform source.1.transform source.1.transformParam source.2.type
      ((data.column? source.2.name).bind fun c => c.cell row)

/-- `_partition_groups`: the rows under each distinct tuple, in the order the tuples first appear.
    `none` is its refusal of a spec that reads no live column. -/
def partitionGroups (shape : Shape) (data : Batch ρ V) :
    Option (List (PartitionValues × Batch ρ V)) :=
  if shape.partitionSpec.isEmpty then some [(none, data)]
  else (partitionSources shape).map fun sources =>
    let tuples := data.rows.map (partitionTuple be sources data)
    tuples.eraseDups.map fun values =>
      (some values,
        { data with rows := data.rows.filter fun row => partitionTuple be sources data row = values })

end Millpond.Hoglake
