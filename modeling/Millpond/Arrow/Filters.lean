import Millpond.Arrow.Coercion
import Millpond.Lib.Columnar
import Millpond.Main.Runtime

set_option autoImplicit false

/-! # The two filters of a batch

`_apply_filter` keeps the rows of an include set and `_apply_drop_filter` drops those of a denylist;
what cannot be compared is dropped by the first one and kept by the second one. `main` counts every
consumed value that does not reach the pending buffer. What `pa.array` raises besides Arrow's own
errors is the one thing that neither filter catches. -/

namespace Millpond.Arrow

open ArrowConverter (ColType TypeName)
open Main (SkipReason)

variable {F : Type} [DecidableEq F]

/-! ## Filter values -/

/-- An include set or a denylist. -/
inductive FilterValues where
  | ints (ns : List ℤ)
  | strs (ss : List String)

/-- How `pa.array(values).cast(type)` raises: by one of the three Arrow errors that are caught, or by
    another one, like the `OverflowError` of an integer that `pa.array` has no type for. -/
inductive ArrayError where
  | arrow
  | other
deriving DecidableEq

/-- What pyarrow does to filter values. -/
structure Comparing where
  /-- `pa.array` of these values raises. -/
  refuses : FilterValues → Option ArrayError
  /-- The cast of a string to an integer. -/
  parseInt : String → Option ℤ
  /-- `pc.is_in` of a null, in a set without nulls. -/
  isInNull : Option Bool
  isInNull_ne : isInNull ≠ some true

/-- The filters' part of the configuration. -/
structure FilterConfig where
  keepField : Option String
  dropField : Option String
  dropValues : Option FilterValues

/-- `pa.types.is_integer(type)` or `pa.types.is_string(type)`. -/
def filterable (type : ColType) : Bool := type = .int64 || type = .uint64 || type = .string

variable (cmp : Comparing)

/-- The integer column holds the value. -/
def holds (type : ColType) (n : ℤ) : Bool := if type = .uint64 then inUint64 n else inInt64 n

/-- `pa.array(values).cast(type)`, for a type that is filterable. -/
def valueArray (values : FilterValues) (type : ColType) : Except ArrayError (List (Cell F)) :=
  match cmp.refuses values, values with
  | some e, _ => .error e
  | none, .ints ns =>
      if type = .string then .ok (ns.map fun n => .str (toString n))
      else if ns.all (holds type) then .ok (ns.map .int)
      else .error .arrow
  | none, .strs ss =>
      if type = .string then .ok (ss.map .str)
      else match ss.mapM cmp.parseInt with
        | some ns => .ok (ns.map .int)
        | none => .error .arrow

/-- `_parse_uuid_filter_values`, without the values that are no UUIDs. -/
def parseUuidFilterValues : FilterValues → List Uuid
  | .ints _ => []
  | .strs ss => ss.filterMap uuidBytes

/-! ## The filters -/

/-- Increments of `records_skipped_total`. -/
abbrev Skips := List (SkipReason × ℕ)

/-- `metric.inc(n)` under `if n > 0`. -/
def countIf (reason : SkipReason) (n : ℕ) : Skips := if 0 < n then [(reason, n)] else []

def Table.empty (table : Table F) : Table F := { table with rows := [] }

/-- `_finish_keep_filter`. -/
def finishKeepFilter (table : Table F) (column : Cells F) (valueArray : List (Cell F)) :
    Table F × Skips :=
  let keepMask := Columnar.fillNull (Columnar.isIn cmp.isInNull valueArray column) false
  let nullCount := column.countP (·.isNone)
  let filtered := { table with rows := Columnar.select keepMask table.rows }
  let nExcluded := table.rows.length - filtered.rows.length - nullCount
  (filtered, countIf (.keepFilter .fieldMissing) nullCount ++ countIf (.keepFilter .excluded) nExcluded)

/-- `_apply_filter` under the include set in force, `none` if it raises. -/
def applyFilter (cfg : FilterConfig) (values : Option FilterValues) (table : Table F) :
    Option (Table F × Skips) :=
  match cfg.keepField, values with
  | some field, some values =>
      match table.fields.lookup field with
      | none => some (table.empty, [(.keepFilter .fieldMissing, table.rows.length)])
      | some type =>
          let column := table.rows.map (· field)
          if type = .uuid then
            let uuids := parseUuidFilterValues values
            if uuids.isEmpty then some (table.empty, [(.keepFilter .valueInvalid, table.rows.length)])
            else some (finishKeepFilter cmp table column (uuids.map .uuid))
          else if !filterable type then
            some (table.empty, [(.keepFilter .fieldMissing, table.rows.length)])
          else match valueArray cmp values type with
            | .error .other => none
            | .error .arrow => some (table.empty, [(.keepFilter .fieldMissing, table.rows.length)])
            | .ok array => some (finishKeepFilter cmp table column array)
  | _, _ => some (table, [])

/-- The tail of `_apply_drop_filter`. -/
def finishDropFilter (table : Table F) (column : Cells F) (valueArray : List (Cell F)) :
    Table F × Skips :=
  let dropMask := Columnar.fillNull (Columnar.isIn cmp.isInNull valueArray column) false
  let filtered := { table with rows := Columnar.select (Columnar.invert dropMask) table.rows }
  (filtered, countIf .filterDropped (table.rows.length - filtered.rows.length))

/-- `_apply_drop_filter`, `none` if it raises. -/
def applyDropFilter (cfg : FilterConfig) (table : Table F) : Option (Table F × Skips) :=
  match cfg.dropField, cfg.dropValues with
  | some field, some values =>
      match table.fields.lookup field with
      | none => some (table, [])
      | some type =>
          let column := table.rows.map (· field)
          if type = .uuid then
            let uuids := parseUuidFilterValues values
            if uuids.isEmpty then some (table, [])
            else some (finishDropFilter cmp table column (uuids.map .uuid))
          else if !filterable type then some (table, [])
          else match valueArray cmp values type with
            | .error .other => none
            | .error .arrow => some (table, [])
            | .ok array => some (finishDropFilter cmp table column array)
  | _, _ => some (table, [])

/-! ## The batch -/

/-- What a batch is converted and filtered with. -/
structure Filtering (F : Type) where
  libs : Libs F
  casts : Casts F
  comparing : Comparing
  typedColumns : Option (List (String × TypeName))
  cfg : FilterConfig

variable (m : Filtering F)

/-- `_coerce_columns`. -/
def coerceColumns (table : Table F) : Option (Table F) :=
  match m.typedColumns with
  | none => some table
  | some typedColumns => coerceTypedColumns m.casts typedColumns table

/-- The `if values:` block of the loop: the rows that are appended to the buffer and the skips that
    are counted; `none` if it raises. -/
def receiveValues (include_ : Option FilterValues) (values : List Bytes) :
    Option (List (Row F) × Skips) :=
  match convert m.libs values with
  | .raised => none
  | .none => some ([], countIf .jsonParse values.length)
  | .table converted => do
      let table ← coerceColumns m converted
      let (kept, keepSkips) ← applyFilter m.comparing m.cfg include_ table
      let (left, dropSkips) ← applyDropFilter m.comparing m.cfg kept
      pure (left.rows,
        keepSkips ++ dropSkips ++ countIf .jsonParse (values.length - converted.rows.length))

/-! ## The property -/

/-- The filter values in the terms of a column; a column of another type has none. -/
def comparable (values : FilterValues) (type : ColType) : List (Cell F) :=
  if type = .uuid then (parseUuidFilterValues values).map .uuid
  else if filterable type then
    match valueArray cmp values type with
    | .ok array => array
    | .error _ => []
  else []

/-- The row has a value in the field that is one of the values. -/
def matchesValues (values : FilterValues) (field : String) (table : Table F) (row : Row F) : Bool :=
  match table.fields.lookup field with
  | none => false
  | some type => (row field).any fun c => (comparable cmp values type).contains c

/-- The row survives the keep filter. -/
def kept (cfg : FilterConfig) (include_ : Option FilterValues) (table : Table F) (row : Row F) : Bool :=
  match cfg.keepField, include_ with
  | some field, some values => matchesValues cmp values field table row
  | _, _ => true

/-- The row is dropped by the drop filter. -/
def dropped (cfg : FilterConfig) (table : Table F) (row : Row F) : Bool :=
  match cfg.dropField, cfg.dropValues with
  | some field, some values => matchesValues cmp values field table row
  | _, _ => false

/-- The table that the filters get. -/
def coercedTable (values : List Bytes) : Table F :=
  match convert m.libs values with
  | .table converted => (coerceColumns m converted).getD ⟨[], []⟩
  | _ => ⟨[], []⟩

/-- Conversion and coercion return. -/
def Returns (values : List Bytes) : Prop :=
  match convert m.libs values with
  | .raised => False
  | .none => True
  | .table converted => (coerceColumns m converted).isSome

/-- The rows left are those that are kept and not dropped, and every value is one of them or counted
    once. -/
def Filtered (include_ : Option FilterValues) (values : List Bytes) : Prop :=
  ∃ rows skips, receiveValues m include_ values = some (rows, skips) ∧
    rows = (coercedTable m values).rows.filter (fun row =>
      kept m.comparing m.cfg include_ (coercedTable m values) row &&
        !dropped m.comparing m.cfg (coercedTable m values) row) ∧
    (skips.map Prod.snd).sum + rows.length = values.length

/-- A filter compares a column of integers or strings with values for which `pa.array` raises an
    error that is not caught. -/
def EscapesOn (field : Option String) (values : Option FilterValues) (table : Table F) : Prop :=
  ∃ name vs type, field = some name ∧ values = some vs ∧
    table.fields.lookup name = some type ∧ filterable type = true ∧
    cmp.refuses vs = some .other

def Escapes (include_ : Option FilterValues) (values : List Bytes) : Prop :=
  EscapesOn m.comparing m.cfg.keepField include_ (coercedTable m values) ∨
    EscapesOn m.comparing m.cfg.dropField m.cfg.dropValues (coercedTable m values)

/-! ## One filter -/

variable {cmp} {m} {table : Table F} {field : String} {array : List (Cell F)}

/-- Null-aware membership, row by row. -/
theorem isIn_column (array : List (Cell F)) :
    Columnar.fillNull (Columnar.isIn cmp.isInNull array (table.rows.map (· field))) false
      = table.rows.map fun row => some ((row field).any array.contains) := by
  unfold Columnar.fillNull Columnar.isIn
  rw [List.map_map, List.map_map]
  refine List.map_congr_left fun row _ => ?_
  simp only [Function.comp_apply]
  cases row field with
  | some c => rfl
  | none =>
      have hne := cmp.isInNull_ne
      cases hnull : cmp.isInNull with
      | none => rfl
      | some b =>
          cases b with
          | false => rfl
          | true => exact absurd hnull hne

/-- The row's cell is in the array. -/
def inArray (field : String) (array : List (Cell F)) (row : Row F) : Bool :=
  (row field).any array.contains

theorem select_isIn (array : List (Cell F)) :
    Columnar.select (Columnar.fillNull (Columnar.isIn cmp.isInNull array
        (table.rows.map (· field))) false) table.rows
      = table.rows.filter (inArray field array) := by
  rw [isIn_column, Columnar.select_map]
  exact List.filter_congr fun row _ => by simp [inArray]

theorem select_invert_isIn (array : List (Cell F)) :
    Columnar.select (Columnar.invert (Columnar.fillNull (Columnar.isIn cmp.isInNull array
        (table.rows.map (· field))) false)) table.rows
      = table.rows.filter fun row => !inArray field array row := by
  rw [isIn_column, Columnar.invert, List.map_map]
  refine (Columnar.select_map (fun row => some !inArray field array row) table.rows).trans ?_
  exact List.filter_congr fun row _ => by simp

theorem finishKeepFilter_rows (array : List (Cell F)) :
    (finishKeepFilter cmp table (table.rows.map (· field)) array).1
      = { table with rows := table.rows.filter (inArray field array) } := by
  unfold finishKeepFilter
  simp only [select_isIn]

theorem finishDropFilter_rows (array : List (Cell F)) :
    (finishDropFilter cmp table (table.rows.map (· field)) array).1
      = { table with rows := table.rows.filter fun row => !inArray field array row } := by
  unfold finishDropFilter
  simp only [select_invert_isIn]

omit [DecidableEq F] in
theorem sum_countIf (reason : SkipReason) (n : ℕ) : ((countIf reason n).map Prod.snd).sum = n := by
  unfold countIf
  by_cases h : 0 < n
  · simp [h]
  · simp [h]
    omega

/-- Rows in the array and rows with a null are different rows. -/
theorem length_inArray (array : List (Cell F)) (rows : List (Row F)) :
    (rows.filter (inArray field array)).length + (rows.map (· field)).countP (·.isNone)
      ≤ rows.length := by
  induction rows with
  | nil => simp
  | cons row rest ih =>
      rw [List.filter_cons, List.map_cons, List.countP_cons, List.length_cons]
      cases hcell : row field with
      | none =>
          have hnot : inArray field array row = false := by rw [inArray, hcell, Option.any_none]
          rw [if_neg (by simp [hnot])]
          simp only [Option.isNone_none, if_true]
          omega
      | some c =>
          simp only [Option.isNone_some, Bool.false_eq_true, if_false]
          cases inArray field array row
          · rw [if_neg Bool.false_ne_true]
            omega
          · rw [if_pos rfl, List.length_cons]
            omega

variable (cmp table field) in
/-- Every row of a kept table is left or counted. -/
theorem finishKeepFilter_sum (array : List (Cell F)) :
    ((finishKeepFilter cmp table (table.rows.map (· field)) array).2.map Prod.snd).sum
      + (finishKeepFilter cmp table (table.rows.map (· field)) array).1.rows.length
      = table.rows.length := by
  have hle : (table.rows.filter (inArray field array)).length
      + (table.rows.map (· field)).countP (·.isNone) ≤ table.rows.length := length_inArray array table.rows
  rw [finishKeepFilter_rows]
  unfold finishKeepFilter
  simp only [select_isIn, List.map_append, List.sum_append, sum_countIf]
  omega

variable (cmp table field) in
theorem finishDropFilter_sum (array : List (Cell F)) :
    ((finishDropFilter cmp table (table.rows.map (· field)) array).2.map Prod.snd).sum
      + (finishDropFilter cmp table (table.rows.map (· field)) array).1.rows.length
      = table.rows.length := by
  have hle := List.length_filter_le (fun row => !inArray field array row) table.rows
  rw [finishDropFilter_rows]
  unfold finishDropFilter
  simp only [select_invert_isIn, sum_countIf]
  omega

/-! ## What a filter does -/

omit [DecidableEq F] in
theorem valueArray_other_iff {values : FilterValues} {type : ColType} :
    (valueArray cmp values type : Except ArrayError (List (Cell F))) = .error .other ↔
      cmp.refuses values = some .other := by
  unfold valueArray
  cases hrefuses : cmp.refuses values with
  | some e => simp
  | none =>
      cases values with
      | ints ns =>
          by_cases hstring : type = .string
          · simp [hstring]
          · simp only [hstring, if_false]
            cases ns.all (holds type) <;> simp
      | strs ss =>
          by_cases hstring : type = .string
          · simp [hstring]
          · simp only [hstring, if_false]
            cases ss.mapM cmp.parseInt <;> simp

omit [DecidableEq F] in
/-- Comparing a column raises. -/
theorem escapesOn_iff {values : FilterValues} {type : ColType}
    (hlook : table.fields.lookup field = some type) :
    EscapesOn cmp (some field) (some values) table ↔ filterable type = true ∧
      (valueArray cmp values type : Except ArrayError (List (Cell F))) = .error .other := by
  rw [valueArray_other_iff]
  constructor
  · rintro ⟨name, vs, type', hname, hvalues, hlook', hfilterable, hother⟩
    obtain rfl := Option.some.inj hname
    obtain rfl := Option.some.inj hvalues
    obtain rfl := Option.some.inj (hlook.symm.trans hlook')
    exact ⟨hfilterable, hother⟩
  · rintro ⟨hfilterable, hother⟩
    exact ⟨field, values, type, rfl, rfl, hlook, hfilterable, hother⟩

theorem matchesValues_eq {values : FilterValues} {type : ColType}
    (hlook : table.fields.lookup field = some type) :
    matchesValues cmp values field table = inArray field (comparable cmp values type) := by
  funext row
  unfold matchesValues inArray
  rw [hlook]

theorem inArray_nil (row : Row F) : inArray field [] row = false := by
  unfold inArray
  cases row field <;> rfl

omit [DecidableEq F] in
/-- An integer or string column: comparing raises, or ends with an array, or is given up. -/
theorem comparable_filterable {values : FilterValues} {type : ColType}
    (hfilterable : filterable type = true) :
    type ≠ .uuid ∧ comparable (F := F) cmp values type = match valueArray cmp values type with
      | .ok array => array
      | .error _ => [] := by
  have hne : type ≠ .uuid := fun h => by simp [h, filterable] at hfilterable
  refine ⟨hne, ?_⟩
  unfold comparable
  rw [if_neg hne, if_pos hfilterable]

omit [DecidableEq F] in
/-- A filter that is given up empties the table under one reason. -/
theorem emptied {p : Row F → Bool} (reason : SkipReason) (h : ∀ row, p row = false) :
    ∃ skips : Skips, some (table.empty, [(reason, table.rows.length)])
        = some ({ table with rows := table.rows.filter p }, skips) ∧
      (skips.map Prod.snd).sum + (table.rows.filter p).length = table.rows.length := by
  have hnil : table.rows.filter p = [] := List.filter_eq_nil_iff.2 fun row _ => by simp [h row]
  exact ⟨[(reason, table.rows.length)], by rw [hnil]; rfl, by rw [hnil]; simp⟩

/-- A filter that compares. -/
theorem finished {p : Row F → Bool} {array : List (Cell F)} (h : p = inArray field array) :
    ∃ skips, some (finishKeepFilter cmp table (table.rows.map (· field)) array)
        = some ({ table with rows := table.rows.filter p }, skips) ∧
      (skips.map Prod.snd).sum + (table.rows.filter p).length = table.rows.length := by
  subst h
  refine ⟨_, congrArg some (Prod.ext (finishKeepFilter_rows array) rfl), ?_⟩
  have hsum := finishKeepFilter_sum cmp table field array
  rw [finishKeepFilter_rows] at hsum
  exact hsum

/-- **The keep filter** raises on such values; otherwise it leaves the rows that are kept, and counts
    the others. -/
theorem applyFilter_spec (cfg : FilterConfig) (include_ : Option FilterValues) (table : Table F) :
    (EscapesOn cmp cfg.keepField include_ table → applyFilter cmp cfg include_ table = none) ∧
    (¬ EscapesOn cmp cfg.keepField include_ table → ∃ skips,
      applyFilter cmp cfg include_ table
        = some ({ table with rows := table.rows.filter (kept cmp cfg include_ table) }, skips) ∧
      (skips.map Prod.snd).sum + (table.rows.filter (kept cmp cfg include_ table)).length
        = table.rows.length) := by
  unfold applyFilter
  cases hfield : cfg.keepField with
  | none =>
      have hall : kept cmp cfg include_ table = fun _ => true := by
        funext row
        simp only [kept, hfield]
      refine ⟨fun h => ?_, fun _ => ⟨[], ?_, ?_⟩⟩
      · obtain ⟨_, _, _, hname, -⟩ := h
        cases hname
      · simp [hall]
      · simp [hall]
  | some field =>
      cases include_ with
      | none =>
          have hall : kept cmp cfg none table = fun _ => true := by
            funext row
            simp only [kept, hfield]
          refine ⟨fun h => ?_, fun _ => ⟨[], ?_, ?_⟩⟩
          · obtain ⟨_, _, _, -, hvalues, -⟩ := h
            cases hvalues
          · simp [hall]
          · simp [hall]
      | some values =>
          have hmatches : kept cmp cfg (some values) table = matchesValues cmp values field table := by
            funext row
            simp only [kept, hfield]
          rw [hmatches]
          dsimp only
          cases hlook : table.fields.lookup field with
          | none =>
              have hno : ∀ row, matchesValues cmp values field table row = false := by
                intro row
                unfold matchesValues
                rw [hlook]
              refine ⟨fun h => ?_, fun _ => emptied _ hno⟩
              obtain ⟨name, _, type, hname, -, htype, -⟩ := h
              obtain rfl := Option.some.inj hname
              rw [hlook] at htype
              cases htype
          | some type =>
              rw [escapesOn_iff hlook, matchesValues_eq hlook]
              dsimp only
              by_cases huuid : type = .uuid
              · have hnot : filterable type ≠ true := by simp [huuid, filterable]
                have huuids : comparable (F := F) cmp values type
                    = (parseUuidFilterValues values).map .uuid := by rw [comparable, if_pos huuid]
                rw [if_pos huuid, huuids]
                refine ⟨fun h => absurd h.1 hnot, fun _ => ?_⟩
                cases hempty : (parseUuidFilterValues values).isEmpty with
                | true =>
                    rw [List.isEmpty_iff.1 hempty]
                    exact emptied _ inArray_nil
                | false => exact finished rfl
              · rw [if_neg huuid]
                cases hfilterable : filterable type with
                | false =>
                    have hnone : comparable (F := F) cmp values type = [] := by
                      rw [comparable, if_neg huuid, hfilterable, if_neg Bool.false_ne_true]
                    rw [hnone]
                    exact ⟨fun h => absurd h.1 Bool.false_ne_true, fun _ => emptied _ inArray_nil⟩
                | true =>
                    rw [(comparable_filterable hfilterable).2]
                    cases hvalues : valueArray (F := F) cmp values type with
                    | ok array => exact ⟨fun h => (nomatch h.2), fun _ => finished rfl⟩
                    | error e =>
                        cases e with
                        | other => exact ⟨fun _ => rfl, fun h => absurd ⟨rfl, rfl⟩ h⟩
                        | arrow => exact ⟨fun h => (nomatch h.2), fun _ => emptied _ inArray_nil⟩

omit [DecidableEq F] in
/-- A denylist that is given up keeps the table. -/
theorem passed {p : Row F → Bool} (h : ∀ row, p row = false) :
    ∃ skips : Skips, some (table, [])
        = some ({ table with rows := table.rows.filter fun row => !p row }, skips) ∧
      (skips.map Prod.snd).sum + (table.rows.filter fun row => !p row).length
        = table.rows.length := by
  have hall : (table.rows.filter fun row => !p row) = table.rows :=
    List.filter_eq_self.2 fun row _ => by rw [h row, Bool.not_false]
  exact ⟨[], by rw [hall], by rw [hall]; simp⟩

/-- A denylist that compares. -/
theorem denied {p : Row F → Bool} {array : List (Cell F)} (h : p = inArray field array) :
    ∃ skips, some (finishDropFilter cmp table (table.rows.map (· field)) array)
        = some ({ table with rows := table.rows.filter fun row => !p row }, skips) ∧
      (skips.map Prod.snd).sum + (table.rows.filter fun row => !p row).length
        = table.rows.length := by
  subst h
  refine ⟨_, congrArg some (Prod.ext (finishDropFilter_rows array) rfl), ?_⟩
  have hsum := finishDropFilter_sum cmp table field array
  rw [finishDropFilter_rows] at hsum
  exact hsum

/-- **The drop filter** raises on such values; otherwise it leaves the rows that are not dropped, and
    counts the others. -/
theorem applyDropFilter_spec (cfg : FilterConfig) (table : Table F) :
    (EscapesOn cmp cfg.dropField cfg.dropValues table → applyDropFilter cmp cfg table = none) ∧
    (¬ EscapesOn cmp cfg.dropField cfg.dropValues table → ∃ skips,
      applyDropFilter cmp cfg table
        = some ({ table with rows := table.rows.filter fun row => !dropped cmp cfg table row }, skips) ∧
      (skips.map Prod.snd).sum + (table.rows.filter fun row => !dropped cmp cfg table row).length
        = table.rows.length) := by
  unfold applyDropFilter
  cases hfield : cfg.dropField with
  | none =>
      have hnone : ∀ row, dropped cmp cfg table row = false := fun row => by
        simp only [dropped, hfield]
      refine ⟨fun h => ?_, fun _ => passed hnone⟩
      obtain ⟨_, _, _, hname, -⟩ := h
      cases hname
  | some field =>
      cases hset : cfg.dropValues with
      | none =>
          have hnone : ∀ row, dropped cmp cfg table row = false := fun row => by
            simp only [dropped, hfield, hset]
          refine ⟨fun h => ?_, fun _ => passed hnone⟩
          obtain ⟨_, _, _, -, hvalues, -⟩ := h
          cases hvalues
      | some values =>
          have hmatches : dropped cmp cfg table = matchesValues cmp values field table := by
            funext row
            simp only [dropped, hfield, hset]
          rw [hmatches]
          dsimp only
          cases hlook : table.fields.lookup field with
          | none =>
              have hno : ∀ row, matchesValues cmp values field table row = false := by
                intro row
                unfold matchesValues
                rw [hlook]
              refine ⟨fun h => ?_, fun _ => passed hno⟩
              obtain ⟨name, _, type, hname, -, htype, -⟩ := h
              obtain rfl := Option.some.inj hname
              rw [hlook] at htype
              cases htype
          | some type =>
              rw [escapesOn_iff hlook, matchesValues_eq hlook]
              dsimp only
              by_cases huuid : type = .uuid
              · have hnot : filterable type ≠ true := by simp [huuid, filterable]
                have huuids : comparable (F := F) cmp values type
                    = (parseUuidFilterValues values).map .uuid := by rw [comparable, if_pos huuid]
                rw [if_pos huuid, huuids]
                refine ⟨fun h => absurd h.1 hnot, fun _ => ?_⟩
                cases hempty : (parseUuidFilterValues values).isEmpty with
                | true =>
                    rw [List.isEmpty_iff.1 hempty]
                    exact passed inArray_nil
                | false => exact denied rfl
              · rw [if_neg huuid]
                cases hfilterable : filterable type with
                | false =>
                    have hnone : comparable (F := F) cmp values type = [] := by
                      rw [comparable, if_neg huuid, hfilterable, if_neg Bool.false_ne_true]
                    rw [hnone]
                    exact ⟨fun h => absurd h.1 Bool.false_ne_true, fun _ => passed inArray_nil⟩
                | true =>
                    rw [(comparable_filterable hfilterable).2]
                    cases hvalues : valueArray (F := F) cmp values type with
                    | ok array => exact ⟨fun h => (nomatch h.2), fun _ => denied rfl⟩
                    | error e =>
                        cases e with
                        | other => exact ⟨fun _ => rfl, fun h => absurd ⟨rfl, rfl⟩ h⟩
                        | arrow => exact ⟨fun h => (nomatch h.2), fun _ => passed inArray_nil⟩

/-! ## The batch -/

omit [DecidableEq F] in
/-- Every row of a converted table comes from one value. -/
theorem length_converted {libs : Libs F} {values : List Bytes}
    (h : convert libs values = .table table) : table.rows.length ≤ values.length := by
  have hsome : objects libs values ≠ [] := fun hnil => by
    cases h.symm.trans (convert_nil hnil)
  have hshallow : ¬ NestsTooDeep libs values := fun hdeep => by
    cases h.symm.trans (convert_raised (Or.inl hdeep))
  have hfits : ∀ key, ¬ Refused libs (valuesOf libs values key) := fun key hrefused => by
    cases h.symm.trans (convert_raised (Or.inr ⟨key, hrefused⟩))
  rw [convert_table hsome hshallow hfits] at h
  obtain rfl := (Converted.table.inj h).symm
  show (ArrowConverter.rowsUnder _ ((plainRecords (objects libs values)).map _)).length ≤ _
  calc (ArrowConverter.rowsUnder _ ((plainRecords (objects libs values)).map _)).length
      ≤ ((plainRecords (objects libs values)).map _).length := by
        unfold ArrowConverter.rowsUnder
        split
        · exact Nat.zero_le _
        · exact le_rfl
    _ = (objects libs values).length := by rw [List.length_map, plainRecords, List.length_map]
    _ ≤ values.length := List.length_filterMap_le _ _

omit [DecidableEq F] in
/-- Coercion neither adds rows nor removes any. -/
theorem length_coerceColumns {result : Table F} (h : coerceColumns m table = some result) :
    result.rows.length = table.rows.length := by
  unfold coerceColumns at h
  cases hpins : m.typedColumns with
  | none =>
      rw [hpins] at h
      obtain rfl := Option.some.inj h
      rfl
  | some typedColumns =>
      rw [hpins] at h
      unfold coerceTypedColumns at h
      cases hempty : typedColumns.isEmpty with
      | true =>
          simp only [hempty, if_true] at h
          obtain rfl := Option.some.inj h
          rfl
      | false =>
          simp only [hempty, Bool.false_eq_true, if_false, Option.map_eq_some_iff] at h
          obtain ⟨columns, -, rfl⟩ := h
          split
          · rfl
          · simp [tableOfColumns]

omit [DecidableEq F] in
/-- A table that is filtered was converted and coerced. -/
theorem coerced_of_returns {values : List Bytes} {converted : Table F}
    (hconvert : convert m.libs values = .table converted) (h : Returns m values) :
    coerceColumns m converted = some (coercedTable m values) ∧
      (coercedTable m values).rows.length = converted.rows.length := by
  unfold Returns at h
  rw [hconvert] at h
  obtain ⟨result, hresult⟩ := Option.isSome_iff_exists.1 h
  have hcoerced : coercedTable m values = result := by
    unfold coercedTable
    rw [hconvert]
    simp only [hresult, Option.getD_some]
  rw [hcoerced]
  exact ⟨hresult, length_coerceColumns hresult⟩

omit [DecidableEq F] in
/-- Without a table there is nothing to compare. -/
theorem not_escapes_none {values : List Bytes} {include_ : Option FilterValues}
    (hconvert : convert m.libs values = .none) : ¬ Escapes m include_ values := by
  have hempty : coercedTable m values = ⟨[], []⟩ := by
    unfold coercedTable
    rw [hconvert]
  unfold Escapes
  rw [hempty]
  rintro (⟨_, _, _, -, -, hlook, -⟩ | ⟨_, _, _, -, -, hlook, -⟩) <;> cases hlook

variable {include_ : Option FilterValues} {values : List Bytes}

/-- An uncaught error of either filter ends the batch. -/
theorem receiveValues_escapes (h : Returns m values) (hescapes : Escapes m include_ values) :
    receiveValues m include_ values = none := by
  cases hconvert : convert m.libs values with
  | raised => rw [receiveValues, hconvert]
  | none => exact absurd hescapes (not_escapes_none hconvert)
  | table converted =>
      obtain ⟨hcoerce, -⟩ := coerced_of_returns hconvert h
      unfold receiveValues
      simp only [hconvert, hcoerce, Option.bind_eq_bind, Option.bind_some]
      by_cases hkeep : EscapesOn m.comparing m.cfg.keepField include_ (coercedTable m values)
      · rw [(applyFilter_spec m.cfg include_ _).1 hkeep, Option.bind_none]
      · obtain ⟨keepSkips, hkept, -⟩ := (applyFilter_spec m.cfg include_ _).2 hkeep
        -- the keep filter leaves the columns that the drop filter looks at
        have hdrop : EscapesOn m.comparing m.cfg.dropField m.cfg.dropValues
            ⟨(coercedTable m values).fields, (coercedTable m values).rows.filter
              (kept m.comparing m.cfg include_ (coercedTable m values))⟩ :=
          hescapes.resolve_left hkeep
        rw [hkept, Option.bind_some]
        dsimp only
        rw [(applyDropFilter_spec m.cfg _).1 hdrop, Option.bind_none]

/-- Otherwise every value is left or counted. -/
theorem receiveValues_filtered (h : Returns m values) (hescapes : ¬ Escapes m include_ values) :
    Filtered m include_ values := by
  unfold Filtered
  cases hconvert : convert m.libs values with
  | raised =>
      unfold Returns at h
      rw [hconvert] at h
      exact h.elim
  | none =>
      have hempty : coercedTable m values = ⟨[], []⟩ := by
        unfold coercedTable
        rw [hconvert]
      refine ⟨[], countIf .jsonParse values.length, by rw [receiveValues, hconvert], ?_, ?_⟩
      · rw [hempty]
        rfl
      · rw [sum_countIf]
        rfl
  | table converted =>
      obtain ⟨hcoerce, hrows⟩ := coerced_of_returns hconvert h
      have hle : converted.rows.length ≤ values.length := length_converted hconvert
      obtain ⟨hkeep, hdrop⟩ := not_or.1 hescapes
      obtain ⟨keepSkips, hkept, hkeepSum⟩ := (applyFilter_spec m.cfg include_ _).2 hkeep
      obtain ⟨dropSkips, hleft, hdropSum⟩ := (applyDropFilter_spec m.cfg
        ⟨(coercedTable m values).fields, (coercedTable m values).rows.filter
          (kept m.comparing m.cfg include_ (coercedTable m values))⟩).2 hdrop
      have hboth : ((coercedTable m values).rows.filter
            (kept m.comparing m.cfg include_ (coercedTable m values))).filter (fun row =>
              !dropped m.comparing m.cfg (coercedTable m values) row)
          = (coercedTable m values).rows.filter (fun row =>
            kept m.comparing m.cfg include_ (coercedTable m values) row &&
              !dropped m.comparing m.cfg (coercedTable m values) row) := by
        rw [List.filter_filter]
        exact List.filter_congr fun row _ => Bool.and_comm _ _
      refine ⟨_, keepSkips ++ dropSkips ++ countIf .jsonParse (values.length - converted.rows.length),
        ?_, rfl, ?_⟩
      · rw [← hboth]
        unfold receiveValues
        simp only [hconvert, hcoerce, hkept, hleft, Option.bind_eq_bind, Option.bind_some]
        rfl
      · have hdropSum' : (dropSkips.map Prod.snd).sum + (((coercedTable m values).rows.filter
            (kept m.comparing m.cfg include_ (coercedTable m values))).filter (fun row =>
              !dropped m.comparing m.cfg (coercedTable m values) row)).length
            = ((coercedTable m values).rows.filter
              (kept m.comparing m.cfg include_ (coercedTable m values))).length := hdropSum
        rw [hboth] at hdropSum'
        simp only [List.map_append, List.sum_append, sum_countIf]
        omega

/-- `pa.array` infers int64 for integers, or raises; nothing is in a set when it is null. -/
def someComparing : Comparing where
  refuses := fun
    | .ints ns => if ns.all inInt64 then none else some .other
    | .strs _ => none
  parseInt := String.toInt?
  isInNull := some false
  isInNull_ne := by decide

/-- A keep filter on the one column of the one message. -/
def keepingV : Filtering Unit where
  libs := oneMessage [("v", .int 1)] (List.nodup_singleton "v")
  casts := fewCasts
  comparing := someComparing
  typedColumns := none
  cfg := ⟨some "v", none, none⟩

end Millpond.Arrow
