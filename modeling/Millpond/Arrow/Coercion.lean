import Millpond.Arrow.RecordOrder

set_option autoImplicit false

/-! # Typed columns, value by value

`coerce_typed_columns` pins a column with one vectorized cast, and cast failures with one cast for
each value. The two agree on every value, but not every failure reaches the second: a type pair
without a kernel raises through, and so does a timestamp that Python has no value for. -/

namespace Millpond.Arrow

open ArrowConverter (ColType TypeName targetType pinnedType)

variable {F : Type}

/-! ## Casts -/

/-- `ArrowInvalid`, `ArrowTypeError`, `ArrowNotImplementedError`. -/
inductive CastError where
  | invalid
  | typeError
  | notImplemented
deriving DecidableEq

def Cell.type : Cell F → ColType
  | .bool _ => .bool
  | .int _ => .int64
  | .float _ => .float64
  | .str _ => .string
  | .timestamp _ => .timestamptz
  | .uuid _ => .uuid

/-- What Arrow's casts do. The cast to a timestamp is that to a naive one, which `assume_timezone`
    stamps. -/
structure Casts (F : Type) where
  /-- The error of a type pair that is refused whole. -/
  refuses : ColType → ColType → Option CastError
  /-- The cast of a value of one type to another, `none` if it does not convert. -/
  value : ColType → ColType → Cell F → Option (Cell F)
  value_type : ∀ source target c c', value source target c = some c' → c'.type = target

abbrev Cells (F : Type) := List (Option (Cell F))

/-- A cast is all or nothing: one value that does not convert raises for the column. -/
def vectorized (one : Cell F → Option (Cell F)) (cells : Cells F) : Except CastError (Cells F) :=
  match cells.mapM fun
    | none => some none
    | some v => (one v).map some with
  | some out => .ok out
  | none => .error .invalid

variable (casts : Casts F)

/-- `col.cast(target)`. -/
def castColumn (source target : ColType) (cells : Cells F) : Except CastError (Cells F) :=
  match casts.refuses source target with
  | some e => .error e
  | none => vectorized (casts.value source target) cells

/-- `uuid_bytes` of a Python value. -/
def decodeUuid : Cell F → Option (Cell F)
  | .str s => (uuidBytes s).map .uuid
  | _ => none

/-- `_to_uuid`. Its branches for binary columns have no column to run on here. -/
def toUuid (source : ColType) (cells : Cells F) : Except CastError (Cells F) :=
  if source = .uuid then .ok cells else vectorized decodeUuid cells

/-- `_COERCERS`. -/
def coercer (target : TypeName) (source : ColType) (cells : Cells F) :
    Except CastError (Cells F) :=
  match target with
  | .uuid => toUuid source cells
  | target => castColumn casts source target.arrowType cells

/-- `as_py()` returns: the year of a timestamp is one of 1 to 9999. -/
def hasPython : Cell F → Bool
  | .timestamp micros => -62135596800000000 ≤ micros && micros ≤ 253402300799999999
  | _ => true

/-- The per-value pass of `_coerce_or_null`, `none` if it raises. -/
def coerceEach (target : TypeName) (source : ColType) : Cells F → Option (Cells F × ℕ)
  | [] => some ([], 0)
  | none :: rest => (coerceEach target source rest).map fun (out, failed) => (none :: out, failed)
  | some v :: rest =>
      match coercer casts target source [some v] with
      | .error .notImplemented => none
      | .error _ =>
          (coerceEach target source rest).map fun (out, failed) => (none :: out, failed + 1)
      | .ok one =>
          if one.head?.join.all hasPython then
            (coerceEach target source rest).map fun (out, failed) =>
              (one.head?.join :: out, failed)
          else none

/-- `_coerce_or_null`, `none` if it raises. -/
def coerceOrNull (target : TypeName) (source : ColType) (cells : Cells F) : Option (Cells F × ℕ) :=
  match coercer casts target source cells with
  | .ok out => some (out, 0)
  | .error .notImplemented => none
  | .error _ => coerceEach casts target source cells

/-! ## Tables -/

variable (typedColumns : List (String × TypeName))

/-- The body of the loop of `coerce_typed_columns`. -/
def coerceField (rows : List (Row F)) (field : String × ColType) :
    Option ((String × ColType) × Cells F) :=
  match targetType typedColumns field.1 with
  | none => some (field, rows.map (· field.1))
  | some target =>
      if field.2 = target.arrowType then some (field, rows.map (· field.1))
      else (coerceOrNull casts target field.2 (rows.map (· field.1))).map fun (out, _) =>
        ((field.1, target.arrowType), out)

/-- `pa.table` of some columns. -/
def tableOfColumns (numRows : ℕ) (columns : List ((String × ColType) × Cells F)) : Table F where
  fields := columns.map Prod.fst
  rows := (List.range numRows).map fun i name =>
    (((columns.map fun c => (c.1.1, c.2)).lookup name).bind fun cells => cells[i]?).join

/-- `coerce_typed_columns`, `none` if it raises. -/
def coerceTypedColumns (table : Table F) : Option (Table F) :=
  if typedColumns.isEmpty then some table
  else (table.fields.mapM (coerceField casts typedColumns table.rows)).map fun columns =>
    if columns.map Prod.fst = table.fields then table
    else tableOfColumns table.rows.length columns

/-! ## The property -/

/-- What a value converts to when it is alone in its column. -/
def alone (target : TypeName) (source : ColType) (v : Cell F) : Option (Cell F) :=
  match coercer casts target source [some v] with
  | .ok one => one.head?.join
  | .error _ => none

/-- A field whose type is pinned to another one. -/
def pinnedTo (field : String × ColType) : Option TypeName :=
  (targetType typedColumns field.1).filter fun target => field.2 ≠ target.arrowType

/-- The cell that a field's cell becomes. -/
def coercedCell (field : String × ColType) (cell : Option (Cell F)) : Option (Cell F) :=
  match pinnedTo typedColumns field with
  | none => cell
  | some target => cell.bind (alone casts target field.2)

/-- Pinned columns have their types, and each cell is what it converts to by itself; all else is as
    it was. -/
structure CoercedByValue (table result : Table F) : Prop where
  fields : result.fields = table.fields.map fun field => (field.1, pinnedType typedColumns field)
  cells : List.Forall₂ (fun row row' => ∀ field ∈ table.fields,
    row' field.1 = coercedCell casts typedColumns field (row field.1)) table.rows result.rows
  typed : ∀ field ∈ table.fields, ∀ target, pinnedTo typedColumns field = some target →
    ∀ row ∈ result.rows, ∀ c, row field.1 = some c → c.type = target.arrowType

/-- The type pair is refused whole, by an error that is not caught. -/
def Unimplemented (target : TypeName) (source : ColType) : Prop :=
  target ≠ .uuid ∧ casts.refuses source target.arrowType = some .notImplemented

/-- The column has a value that does not convert, so that every value of it goes through Python, and
    another one that converts to what Python has no value for. -/
def OutOfPython (target : TypeName) (source : ColType) (cells : Cells F) : Prop :=
  (∃ v, some v ∈ cells ∧ alone casts target source v = none) ∧
    ∃ v c, some v ∈ cells ∧ alone casts target source v = some c ∧ hasPython c = false

/-- No pinned column raises. -/
def Coercible (table : Table F) : Prop :=
  ∀ field ∈ table.fields, ∀ target, pinnedTo typedColumns field = some target →
    ¬ Unimplemented casts target field.2 ∧
      ¬ OutOfPython casts target field.2 (table.rows.map (· field.1))

/-! ## Columns -/

variable {casts}

theorem vectorized_ok {one : Cell F → Option (Cell F)} {cells : Cells F}
    (h : ∀ v, some v ∈ cells → (one v).isSome) : vectorized one cells = .ok (cells.map (·.bind one)) := by
  unfold vectorized
  rw [mapM_eq_some_map (g := fun cell => cell.bind one)]
  intro cell hcell
  cases cell with
  | none => rfl
  | some v =>
      obtain ⟨c, hc⟩ := Option.isSome_iff_exists.1 (h v hcell)
      simp [hc]

theorem vectorized_invalid {one : Cell F → Option (Cell F)} {cells : Cells F} {v : Cell F}
    (hv : some v ∈ cells) (hone : one v = none) : vectorized one cells = .error .invalid := by
  unfold vectorized
  rw [mapM_eq_none_iff.2 ⟨some v, hv, by simp [hone]⟩]

/-- The conversion of a value that a coercer applies, and the error of a pair it refuses. -/
def oneOf (casts : Casts F) (target : TypeName) (source : ColType) : Cell F → Option (Cell F) :=
  match target with
  | .uuid => decodeUuid
  | target => casts.value source target.arrowType

def refusalOf (casts : Casts F) (target : TypeName) (source : ColType) : Option CastError :=
  match target with
  | .uuid => none
  | target => casts.refuses source target.arrowType

theorem coercer_eq {target : TypeName} {source : ColType} (h : source ≠ target.arrowType)
    (cells : Cells F) :
    coercer casts target source cells = match refusalOf casts target source with
      | some e => .error e
      | none => vectorized (oneOf casts target source) cells := by
  cases target with
  | uuid =>
      have huuid : source ≠ .uuid := h
      show toUuid source cells = _
      unfold toUuid
      rw [if_neg huuid]
      rfl
  | _ => rfl

theorem alone_eq {target : TypeName} {source : ColType} (h : source ≠ target.arrowType)
    (v : Cell F) : alone casts target source v
      = if (refusalOf casts target source).isSome then none else oneOf casts target source v := by
  unfold alone
  rw [coercer_eq h]
  cases refusalOf casts target source with
  | some e => rfl
  | none =>
      cases hone : oneOf casts target source v with
      | none => simp [vectorized_invalid (List.mem_singleton_self (some v)) hone]
      | some c =>
          have hall : ∀ w, some w ∈ [some v] → (oneOf casts target source w).isSome := by
            intro w hw
            obtain rfl : w = v := by simpa using hw
            simp [hone]
          simp [vectorized_ok hall, hone]

theorem unimplemented_iff {target : TypeName} {source : ColType} :
    Unimplemented casts target source ↔ refusalOf casts target source = some .notImplemented := by
  unfold Unimplemented
  cases target <;> simp [refusalOf]

/-- The per-value pass: every value by itself, unless one of them has no Python value. -/
theorem coerceEach_eq {target : TypeName} {source : ColType} (h : source ≠ target.arrowType)
    (himplemented : ¬ Unimplemented casts target source) (cells : Cells F)
    (hpython : ∀ v c, some v ∈ cells → alone casts target source v = some c → hasPython c = true) :
    ∃ failed, coerceEach casts target source cells
      = some (cells.map (·.bind (alone casts target source)), failed) := by
  induction cells with
  | nil => exact ⟨0, rfl⟩
  | cons cell rest ih =>
      obtain ⟨failed, hrest⟩ := ih fun v c hv => hpython v c (List.mem_cons_of_mem _ hv)
      cases cell with
      | none => exact ⟨failed, by simp [coerceEach, hrest]⟩
      | some v =>
          have hone : alone casts target source v = match coercer casts target source [some v] with
            | .ok one => one.head?.join
            | .error _ => none := rfl
          unfold coerceEach
          cases hcoercer : coercer casts target source [some v] with
          | error e =>
              rw [hcoercer] at hone
              cases e with
              | notImplemented =>
                  rw [coercer_eq h] at hcoercer
                  rw [unimplemented_iff] at himplemented
                  cases hrefusal : refusalOf casts target source with
                  | none =>
                      rw [hrefusal] at hcoercer
                      unfold vectorized at hcoercer
                      dsimp only at hcoercer
                      split at hcoercer <;> cases hcoercer
                  | some e =>
                      rw [hrefusal] at hcoercer
                      obtain rfl : e = .notImplemented := by simpa using hcoercer
                      exact absurd hrefusal himplemented
              | _ => exact ⟨failed + 1, by simp [hrest, hone]⟩
          | ok one =>
              rw [hcoercer] at hone
              have hall : one.head?.join.all hasPython = true := by
                cases hc : one.head?.join with
                | none => rfl
                | some c => exact hpython v c List.mem_cons_self (hone.trans hc)
              exact ⟨failed, by simp [hrest, hall, hone]⟩

/-- The per-value pass raises at a value without a Python value. -/
theorem coerceEach_eq_none {target : TypeName} {source : ColType} {cells : Cells F} {v c : Cell F}
    (hv : some v ∈ cells) (hone : alone casts target source v = some c)
    (hpython : hasPython c = false) : coerceEach casts target source cells = none := by
  induction cells with
  | nil => exact absurd hv List.not_mem_nil
  | cons cell rest ih =>
      rcases List.mem_cons.1 hv with rfl | hrest
      · unfold alone at hone
        unfold coerceEach
        cases hcoercer : coercer casts target source [some v] with
        | error e =>
            rw [hcoercer] at hone
            cases hone
        | ok one =>
            rw [hcoercer] at hone
            simp only at hone
            simp [hone, hpython]
      · have hnone := ih hrest
        cases cell with
        | none => simp [coerceEach, hnone]
        | some w =>
            unfold coerceEach
            cases coercer casts target source [some w] with
            | error e => cases e <;> simp [hnone]
            | ok one => simp [hnone]

/-- **One column.** It raises, or every value becomes what it converts to alone. -/
theorem coerceOrNull_spec {target : TypeName} {source : ColType} (h : source ≠ target.arrowType)
    (cells : Cells F) :
    (Unimplemented casts target source ∨ OutOfPython casts target source cells →
      coerceOrNull casts target source cells = none) ∧
    (¬ Unimplemented casts target source → ¬ OutOfPython casts target source cells →
      ∃ failed, coerceOrNull casts target source cells
        = some (cells.map (·.bind (alone casts target source)), failed)) := by
  unfold coerceOrNull
  rw [coercer_eq h]
  cases hrefusal : refusalOf casts target source with
  | some e =>
      have hnone : ∀ v, alone casts target source v = none := by
        intro v
        rw [alone_eq h, hrefusal]
        rfl
      constructor
      · rintro (hunimplemented | ⟨-, v, c, -, hsome, -⟩)
        · rw [unimplemented_iff, hrefusal] at hunimplemented
          obtain rfl := Option.some.inj hunimplemented
          rfl
        · rw [hnone] at hsome
          cases hsome
      · intro himplemented _
        obtain ⟨failed, heach⟩ := coerceEach_eq h himplemented cells fun v c _ hsome => by
          rw [hnone] at hsome
          cases hsome
        rw [unimplemented_iff, hrefusal] at himplemented
        cases e with
        | notImplemented => exact absurd rfl himplemented
        | _ => exact ⟨failed, heach⟩
  | none =>
      have himplemented : ¬ Unimplemented casts target source := by
        rw [unimplemented_iff, hrefusal]
        exact fun h => by cases h
      have halone : alone casts target source = oneOf casts target source := by
        funext v
        rw [alone_eq h, hrefusal]
        rfl
      by_cases hall : ∀ v, some v ∈ cells → (oneOf casts target source v).isSome
      · -- the vectorized cast goes through
        simp only [vectorized_ok hall]
        constructor
        · rintro (hunimplemented | ⟨⟨v, hv, hnone⟩, -⟩)
          · exact absurd hunimplemented himplemented
          · have hsome := hall v hv
            rw [halone] at hnone
            rw [hnone] at hsome
            cases hsome
        · exact fun _ _ => ⟨0, by rw [halone]⟩
      · simp only [not_forall] at hall
        obtain ⟨v, hv, hbad⟩ := hall
        have hnone : oneOf casts target source v = none := by simpa using hbad
        simp only [vectorized_invalid hv hnone]
        constructor
        · rintro (hunimplemented | ⟨-, w, c, hw, hsome, hpython⟩)
          · exact absurd hunimplemented himplemented
          · exact coerceEach_eq_none hw hsome hpython
        · intro _ hpython
          refine coerceEach_eq h himplemented cells fun w c hw hsome => ?_
          by_contra hno
          exact hpython ⟨⟨v, hv, by rw [halone, hnone]⟩, w, c, hw, hsome, by simpa using hno⟩

/-! ## Fields -/

theorem type_of_alone {target : TypeName} {source : ColType} (h : source ≠ target.arrowType)
    {v c : Cell F} (halone : alone casts target source v = some c) : c.type = target.arrowType := by
  rw [alone_eq h] at halone
  split at halone
  · cases halone
  · cases target with
    | uuid =>
        cases v with
        | str s =>
            obtain ⟨u, -, rfl⟩ := Option.map_eq_some_iff.1 halone
            rfl
        | _ => cases halone
    | _ => exact casts.value_type _ _ _ _ halone

variable {typedColumns : List (String × TypeName)} {rows : List (Row F)} {field : String × ColType}

theorem pinnedTo_eq_some {target : TypeName} (h : pinnedTo typedColumns field = some target) :
    targetType typedColumns field.1 = some target ∧ field.2 ≠ target.arrowType ∧
      pinnedType typedColumns field = target.arrowType := by
  obtain ⟨htarget, hne⟩ := Option.filter_eq_some_iff.1 h
  refine ⟨htarget, by simpa using hne, ?_⟩
  rw [pinnedType, htarget]

variable (casts rows) in
/-- A field that is not pinned to another type is not touched. -/
theorem coerceField_unpinned (h : pinnedTo typedColumns field = none) :
    pinnedType typedColumns field = field.2 ∧
      coerceField casts typedColumns rows field = some (field, rows.map (· field.1)) := by
  unfold pinnedType coerceField
  cases htarget : targetType typedColumns field.1 with
  | none => exact ⟨rfl, rfl⟩
  | some target =>
      have hsame : field.2 = target.arrowType := by
        by_contra hne
        unfold pinnedTo at h
        rw [htarget] at h
        simp [hne] at h
      exact ⟨hsame.symm, by simp [hsame]⟩

theorem coerceField_raises {target : TypeName} (h : pinnedTo typedColumns field = some target)
    (hbad : Unimplemented casts target field.2 ∨
      OutOfPython casts target field.2 (rows.map (· field.1))) :
    coerceField casts typedColumns rows field = none := by
  obtain ⟨htarget, hne, -⟩ := pinnedTo_eq_some h
  unfold coerceField
  simp only [htarget, if_neg hne, (coerceOrNull_spec hne _).1 hbad, Option.map_none]

/-- A field that does not raise. -/
theorem coerceField_eq (h : ∀ target, pinnedTo typedColumns field = some target →
      ¬ Unimplemented casts target field.2 ∧
        ¬ OutOfPython casts target field.2 (rows.map (· field.1))) :
    coerceField casts typedColumns rows field
      = some ((field.1, pinnedType typedColumns field),
          rows.map fun row => coercedCell casts typedColumns field (row field.1)) := by
  cases hpinned : pinnedTo typedColumns field with
  | none =>
      obtain ⟨htype, hfield⟩ := coerceField_unpinned casts rows hpinned
      rw [hfield, htype]
      simp [coercedCell, hpinned]
  | some target =>
      obtain ⟨htarget, hne, htype⟩ := pinnedTo_eq_some hpinned
      obtain ⟨himplemented, hpython⟩ := h target hpinned
      obtain ⟨failed, hcoerced⟩ := (coerceOrNull_spec hne _).2 himplemented hpython
      unfold coerceField
      simp only [htarget, if_neg hne, hcoerced, Option.map_some, htype, List.map_map]
      simp [coercedCell, hpinned, Function.comp_def]

/-! ## The table -/

/-- The columns of the result stand in its rows. -/
theorem tableOfColumns_cells {table : Table F} (hdistinct : (table.fields.map Prod.fst).Nodup)
    (type : String × ColType → ColType) (cell : String × ColType → Option (Cell F) → Option (Cell F)) :
    List.Forall₂ (fun row row' => ∀ field ∈ table.fields, row' field.1 = cell field (row field.1))
      table.rows (tableOfColumns table.rows.length (table.fields.map fun field =>
        ((field.1, type field), table.rows.map fun row => cell field (row field.1)))).rows := by
  unfold tableOfColumns
  rw [List.forall₂_iff_get]
  refine ⟨by simp, fun i hi hi' field hfield => ?_⟩
  have hlook : ((table.fields.map fun field => ((field.1, type field),
        table.rows.map fun row => cell field (row field.1))).map fun c => (c.1.1, c.2)).lookup field.1
      = some (table.rows.map fun row => cell field (row field.1)) := by
    refine lookup_of_mem ?_ ?_
    · rw [List.map_map, List.map_map]
      exact hdistinct
    · rw [List.map_map]
      exact List.mem_map_of_mem hfield
  simp only [List.get_eq_getElem, List.getElem_map, List.getElem_range]
  rw [hlook, Option.bind_some, List.getElem?_map, List.getElem?_eq_getElem hi]
  rfl

theorem coercedByValue_typed {table result : Table F}
    (hcells : List.Forall₂ (fun row row' => ∀ field ∈ table.fields,
      row' field.1 = coercedCell casts typedColumns field (row field.1)) table.rows result.rows) :
    ∀ field ∈ table.fields, ∀ target, pinnedTo typedColumns field = some target →
      ∀ row ∈ result.rows, ∀ c, row field.1 = some c → c.type = target.arrowType := by
  intro field hfield target hpinned row hrow c hc
  obtain ⟨-, hne, -⟩ := pinnedTo_eq_some hpinned
  obtain ⟨i, hi, rfl⟩ := List.getElem_of_mem hrow
  have hi' : i < table.rows.length := hcells.length_eq ▸ hi
  have hcell := hcells.get hi' hi field hfield
  simp only [List.get_eq_getElem] at hcell
  rw [hc, coercedCell, hpinned] at hcell
  obtain ⟨v, -, halone⟩ := Option.bind_eq_some_iff.1 hcell.symm
  exact type_of_alone hne halone

/-- A table that is not changed. -/
theorem coercedByValue_self {table : Table F}
    (h : ∀ field ∈ table.fields, pinnedTo typedColumns field = none) :
    CoercedByValue casts typedColumns table table := by
  refine ⟨?_, ?_, fun field hfield target hpinned => ?_⟩
  · refine (List.map_id' _).symm.trans (List.map_congr_left fun field hfield => ?_)
    rw [(coerceField_unpinned casts [] (h field hfield)).1]
  · rw [List.forall₂_same]
    intro row _ field hfield
    rw [coercedCell, h field hfield]
  · rw [h field hfield] at hpinned
    cases hpinned

/-- **Typed columns.** On a table with distinct columns, `coerce_typed_columns` returns, with every
    cell what it converts to by itself, exactly if no pinned column raises. -/
theorem coerceTypedColumns_iff {table : Table F} (hdistinct : (table.fields.map Prod.fst).Nodup) :
    (∃ result, coerceTypedColumns casts typedColumns table = some result ∧
      CoercedByValue casts typedColumns table result) ↔ Coercible casts typedColumns table := by
  unfold coerceTypedColumns
  cases hempty : typedColumns.isEmpty with
  | true =>
      have hnone : ∀ field ∈ table.fields, pinnedTo typedColumns field = none := by
        intro field _
        obtain rfl := List.isEmpty_iff.1 hempty
        rfl
      refine iff_of_true ⟨table, rfl, coercedByValue_self hnone⟩ fun field hfield target hpinned => ?_
      rw [hnone field hfield] at hpinned
      cases hpinned
  | false =>
      rw [if_neg Bool.false_ne_true]
      constructor
      · rintro ⟨result, hresult, -⟩ field hfield target hpinned
        obtain ⟨columns, hcolumns, -⟩ := Option.map_eq_some_iff.1 hresult
        obtain ⟨column, -, hcolumn⟩ := exists_of_mapM hcolumns hfield
        rw [← not_or]
        intro hbad
        rw [coerceField_raises hpinned hbad] at hcolumn
        cases hcolumn
      · intro hcoercible
        have hcolumns : table.fields.mapM (coerceField casts typedColumns table.rows)
            = some (table.fields.map fun field => ((field.1, pinnedType typedColumns field),
                table.rows.map fun row => coercedCell casts typedColumns field (row field.1))) :=
          mapM_eq_some_map fun field hfield => coerceField_eq (hcoercible field hfield)
        rw [hcolumns, Option.map_some]
        have hfields : (table.fields.map fun field => ((field.1, pinnedType typedColumns field),
            table.rows.map fun row => coercedCell casts typedColumns field (row field.1))).map Prod.fst
              = table.fields.map fun field => (field.1, pinnedType typedColumns field) := by
          rw [List.map_map]
          rfl
        refine ⟨_, rfl, ?_⟩
        rw [hfields]
        split
        · next hsame =>
            refine coercedByValue_self fun field hfield => ?_
            have htype : pinnedType typedColumns field = field.2 := by
              have hall := List.map_inj_left.1 (hsame.trans (List.map_id' _).symm) field hfield
              exact congrArg Prod.snd hall
            cases hpinned : pinnedTo typedColumns field with
            | none => rfl
            | some target =>
                obtain ⟨-, hne, heq⟩ := pinnedTo_eq_some hpinned
                exact absurd (htype.symm.trans heq) hne
        · have hcells := tableOfColumns_cells hdistinct (pinnedType typedColumns)
            (coercedCell casts typedColumns)
          exact ⟨hfields, hcells, coercedByValue_typed hcells⟩

/-- The columns of a converted table are distinct. -/
theorem converted_distinct {libs : Libs F} {messages : List Bytes} {table : Table F}
    (h : convert libs messages = .table table) : (table.fields.map Prod.fst).Nodup := by
  have hraises : ¬ Raises libs messages := by
    rw [raises_iff, h]
    exact fun h => by cases h
  obtain ⟨hshallow, hgood⟩ := not_raises_iff.1 hraises
  have hsome : objects libs messages ≠ [] := by
    intro hnil
    rw [convert_nil hnil] at h
    cases h
  rw [convert_table hsome hshallow hgood] at h
  obtain rfl := Converted.table.inj h
  exact tableFields_distinct _

variable (casts typedColumns) in
/-- **When typed columns are coerced.** On a table from `convert`, every pinned column gets its type
    and every cell what it converts to by itself, exactly if no pinned column meets an unimplemented
    cast, and none that has an unconvertible value has one that Python cannot hold. -/
theorem coerceTypedColumns_converted_iff {libs : Libs F} {messages : List Bytes} {table : Table F}
    (h : convert libs messages = .table table) :
    (∃ result, coerceTypedColumns casts typedColumns table = some result ∧
      CoercedByValue casts typedColumns table result) ↔ Coercible casts typedColumns table :=
  coerceTypedColumns_iff (converted_distinct h)

/-- Arrow has no cast from bools to timestamps, and reads the strings of integers. -/
def fewCasts : Casts F where
  refuses := fun source target =>
    if source = .bool ∧ target = .timestamptz then some .notImplemented else none
  value := fun _ target c =>
    match target, c with
    | .int64, .str s => s.toInt?.map .int
    | _, _ => none
  value_type := by
    intro source target c c' h
    cases target <;> cases c <;> try cases h
    obtain ⟨n, -, rfl⟩ := Option.map_eq_some_iff.1 h
    rfl

/-- A message whose only value is a bool. -/
def aBool : Libs Unit := oneMessage [("ready", .bool true)] (List.nodup_singleton "ready")

theorem coerceTypedColumns_converted_iff_aBool : ∃ table, convert aBool [one] = .table table ∧
    ((∃ result, coerceTypedColumns fewCasts [("ready", .bigint)] table = some result ∧
      CoercedByValue fewCasts [("ready", .bigint)] table result) ↔
        Coercible fewCasts [("ready", .bigint)] table) := by
  obtain ⟨table, h⟩ : ∃ table, convert aBool [one] = .table table := ⟨_, rfl⟩
  exact ⟨table, h, coerceTypedColumns_converted_iff fewCasts [("ready", .bigint)] h⟩

/-- A bool column pinned to a timestamp raises. -/
theorem not_coerced_aBool : ∃ table, convert aBool [one] = .table table ∧
    ¬ ∃ result, coerceTypedColumns fewCasts [("ready", .timestamptz)] table = some result ∧
      CoercedByValue fewCasts [("ready", .timestamptz)] table result := by
  refine ⟨_, rfl, ?_⟩
  rintro ⟨result, hresult, -⟩
  cases hresult

end Millpond.Arrow
