import Millpond.Hoglake.Resolution
import Millpond.Lib.Columnar
import Millpond.Lib.Options

set_option autoImplicit false

/-! # Partition groups, kernel by kernel

`_partition_groups` as pyarrow runs it: the transformed key columns, an aggregate that finds the
distinct tuples, and for each of them a mask that selects its rows. It computes what `partitionGroups`
says, for every order in which the aggregate lists the tuples. -/

namespace Millpond.Hoglake

open Columnar (Arr GroupMin Grouping)

variable {ρ V : Type} (be : Backend ρ V)

/-! ## The source -/

/-- `{c.field_id: c for c in info.columns}.get(field_id)`: the last column of an id. -/
def columnById (shape : Shape) (fieldId : ℕ) : Option Column :=
  shape.columns.reverse.find? (·.fieldId = fieldId)

/-- The loop over the fields of the spec: `None` for the `HoglakeSinkError` of a field that reads no
    live column. -/
def keySources (shape : Shape) : Option (List (PartitionField × Column)) :=
  shape.partitionSpec.mapM fun field => (columnById shape field.sourceFieldId).map (field, ·)

/-- `transform_strings` of one source column. -/
def keyArray (data : Batch ρ V) (source : PartitionField × Column) : Arr String :=
  data.rows.map fun row =>
    be.transform source.1.transform source.1.transformParam source.2.type
      ((data.column? source.2.name).bind fun c => c.cell row)

/-- The rows of `keyed`, without their numbers. -/
def keyedRows (numRows : ℕ) (keyArrays : List (Arr String)) : List (List (Option String)) :=
  (List.range numRows).map fun i => keyArrays.map fun keys => keys[i]?.join

/-- `field_mask`. -/
def fieldMask (keyColumn : Arr String) : Option String → Arr Bool
  | none => Columnar.isNull keyColumn
  | some value => Columnar.fillNull (Columnar.equal keyColumn value) false

/-- `field_mask if mask is None else pc.and_(mask, field_mask)`. -/
def joinMask (fieldMask : Arr Bool) : Option (Arr Bool) → Arr Bool
  | none => fieldMask
  | some mask => Columnar.and mask fieldMask

@[simp] theorem joinMask_none (fieldMask : Arr Bool) : joinMask fieldMask none = fieldMask := rfl

@[simp] theorem joinMask_some (fieldMask mask : Arr Bool) :
    joinMask fieldMask (some mask) = Columnar.and mask fieldMask := rfl

/-- The loop over the fields of a tuple; it starts without a mask. -/
def tupleMask (keyArrays : List (Arr String)) (values : List (Option String)) : Option (Arr Bool) :=
  (keyArrays.zip values).foldl
    (fun mask field => some (joinMask (fieldMask field.1 field.2) mask)) none

/-- `data.filter(mask)`. -/
def filterRows (data : Batch ρ V) : Option (Arr Bool) → Batch ρ V
  | none => data
  | some mask => { data with rows := Columnar.select mask data.rows }

/-- `_partition_groups`. -/
def partitionGroupsByMask (group : GroupMin (List (Option String))) (shape : Shape)
    (data : Batch ρ V) : Option (List (PartitionValues × Batch ρ V)) :=
  if shape.partitionSpec.isEmpty then some [(none, data)]
  else (keySources shape).map fun sources =>
    let keyArrays := sources.map (keyArray be data)
    let combos := (group.run (keyedRows data.numRows keyArrays)).mergeSort fun a b => a.2 ≤ b.2
    combos.map fun combo => (some combo.1, filterRows data (tupleMask keyArrays combo.1))

/-! ## Rows and masks -/

variable {be}

/-- A key column is the transform of each row. -/
def fieldKey (be : Backend ρ V) (data : Batch ρ V) (row : ρ) (source : PartitionField × Column) :
    Option String :=
  be.transform source.1.transform source.1.transformParam source.2.type
    ((data.column? source.2.name).bind fun c => c.cell row)

theorem keyedRows_eq (data : Batch ρ V) (sources : List (PartitionField × Column)) :
    keyedRows data.numRows (sources.map (keyArray be data))
      = data.rows.map (partitionTuple be sources data) := by
  refine List.ext_getElem (by simp [keyedRows, Batch.numRows]) fun i hi hi' => ?_
  have hlt : i < data.rows.length := by simpa using hi'
  simp only [keyedRows, List.getElem_map, List.getElem_range, List.map_map, partitionTuple]
  refine List.map_congr_left fun source _ => ?_
  simp [keyArray, List.getElem?_eq_getElem hlt]

/-- A null-aware equality is true or false for every row. -/
theorem fieldMask_eq (data : Batch ρ V) (source : PartitionField × Column) (value : Option String) :
    fieldMask (keyArray be data source) value
      = data.rows.map fun row => some (decide (fieldKey be data row source = value)) := by
  cases value with
  | none =>
      simp only [fieldMask, Columnar.isNull, keyArray, List.map_map]
      refine List.map_congr_left fun row _ => ?_
      show some (fieldKey be data row source).isNone = _
      cases fieldKey be data row source <;> simp
  | some value =>
      simp only [fieldMask, Columnar.fillNull, Columnar.equal, keyArray, List.map_map]
      refine List.map_congr_left fun row _ => ?_
      show some (((fieldKey be data row source).map fun a => decide (a = value)).getD false) = _
      cases fieldKey be data row source <;> simp

/-- Once there is a mask, the other fields narrow it. -/
theorem foldl_joinMask (data : Batch ρ V) (sources : List (PartitionField × Column)) :
    ∀ (values : List (Option String)) (chosen : ρ → Bool), values.length = sources.length →
      ((sources.map (keyArray be data)).zip values).foldl
          (fun mask field => some (joinMask (fieldMask field.1 field.2) mask))
          (some (data.rows.map fun row => some (chosen row)))
        = some (data.rows.map fun row =>
            some (chosen row && decide (partitionTuple be sources data row = values))) := by
  induction sources with
  | nil =>
      intro values chosen hlen
      obtain rfl := List.length_eq_zero_iff.1 hlen
      simp [partitionTuple]
  | cons source rest ih =>
      intro values chosen hlen
      cases values with
      | nil => simp at hlen
      | cons value values =>
          have hlen' : values.length = rest.length := by simpa using hlen
          rw [List.map_cons, List.zip_cons_cons, List.foldl_cons, joinMask_some, fieldMask_eq,
            Columnar.and_map]
          simp only [Option.bind_some, Option.map_some]
          rw [ih values _ hlen']
          refine congrArg some (List.map_congr_left fun row _ => ?_)
          have htuple : (partitionTuple be (source :: rest) data row = value :: values) ↔
              fieldKey be data row source = value ∧ partitionTuple be rest data row = values := by
            simp [partitionTuple, fieldKey]
          simp only [htuple, Bool.decide_and, Bool.and_assoc]

/-- The mask of a tuple is true on the rows whose own tuple it is. -/
theorem tupleMask_eq (data : Batch ρ V) {sources : List (PartitionField × Column)}
    {values : List (Option String)} (hsources : sources ≠ [])
    (hlen : values.length = sources.length) :
    tupleMask (sources.map (keyArray be data)) values
      = some (data.rows.map fun row => some (decide (partitionTuple be sources data row = values))) := by
  cases sources with
  | nil => exact absurd rfl hsources
  | cons source rest =>
      cases values with
      | nil => simp at hlen
      | cons value values =>
          have hlen' : values.length = rest.length := by simpa using hlen
          unfold tupleMask
          rw [List.map_cons, List.zip_cons_cons, List.foldl_cons, joinMask_none, fieldMask_eq,
            foldl_joinMask data rest values _ hlen']
          refine congrArg some (List.map_congr_left fun row _ => ?_)
          have htuple : (partitionTuple be (source :: rest) data row = value :: values) ↔
              fieldKey be data row source = value ∧ partitionTuple be rest data row = values := by
            simp [partitionTuple, fieldKey]
          simp only [htuple, Bool.decide_and]

/-! ## The groups -/

/-- The part of a batch that a group of rows makes up. -/
def partOf (data : Batch ρ V) (part : List (Option String) × List ρ) :
    PartitionValues × Batch ρ V :=
  (some part.1, { data with rows := part.2 })

/-- The rows under each tuple, and the tuples in the order of their first rows. -/
def tupleParts (be : Backend ρ V) (data : Batch ρ V) (sources : List (PartitionField × Column)) :
    List (List (Option String) × List ρ) :=
  (data.rows.map (partitionTuple be sources data)).eraseDups.map fun values =>
    (values, data.rows.filter (partitionTuple be sources data · = values))

/-- The order in which the aggregate lists the tuples does not matter. -/
theorem partitionGroupsByMask_eq (group : GroupMin (List (Option String))) {shape : Shape}
    (data : Batch ρ V) (hspec : shape.partitionSpec ≠ []) :
    partitionGroupsByMask be group shape data
      = (keySources shape).map fun sources => (tupleParts be data sources).map (partOf data) := by
  have hempty : shape.partitionSpec.isEmpty = false := List.isEmpty_eq_false_iff.2 hspec
  unfold partitionGroupsByMask
  rw [hempty, if_neg Bool.false_ne_true]
  cases hsources : keySources shape with
  | none => rfl
  | some sources =>
      have hne : sources ≠ [] := fun hnil => hspec ((mapM_eq_nil_iff hsources).1 hnil)
      have hsorted := group.sorted (keyedRows data.numRows (sources.map (keyArray be data)))
      simp only [Option.map_some, tupleParts]
      rw [keyedRows_eq] at hsorted ⊢
      rw [← hsorted, List.map_map, List.map_map]
      refine congrArg some (List.map_congr_left fun combo hcombo => ?_)
      have hmem : combo.1 ∈ data.rows.map (partitionTuple be sources data) := by
        rw [← List.mem_eraseDups, ← hsorted]
        exact List.mem_map_of_mem hcombo
      obtain ⟨row, -, hrow⟩ := List.mem_map.1 hmem
      have hlen : combo.1.length = sources.length := by
        rw [← hrow]
        exact List.length_map _
      rw [tupleMask_eq data hne hlen]
      simp [filterRows, partOf, Columnar.select_map]

theorem columnById_eq {shape : Shape} (hids : (shape.columns.map (·.fieldId)).Nodup) (fieldId : ℕ) :
    columnById shape fieldId = shape.columns.find? (·.fieldId = fieldId) := by
  unfold columnById
  generalize shape.columns = columns at hids ⊢
  induction columns with
  | nil => rfl
  | cons c rest ih =>
      rw [List.map_cons, List.nodup_cons] at hids
      rw [List.reverse_cons, List.find?_append, ih hids.2, List.find?_cons]
      by_cases hc : c.fieldId = fieldId
      · -- no later column has this id
        have hnone : rest.find? (·.fieldId = fieldId) = none := by
          rw [List.find?_eq_none]
          intro d hd
          have hne : d.fieldId ≠ c.fieldId := fun heq => hids.1 (heq ▸ List.mem_map_of_mem hd)
          simpa [← hc] using hne
        simp [hnone, hc]
      · simp [hc]

/-- With one live column to an id, the kernels compute what `partitionGroups` says. -/
theorem partitionGroupsByMask_eq_partitionGroups (group : GroupMin (List (Option String)))
    {shape : Shape} (data : Batch ρ V) (hids : (shape.columns.map (·.fieldId)).Nodup) :
    partitionGroupsByMask be group shape data = partitionGroups be shape data := by
  have hsources : keySources shape = partitionSources shape := by
    unfold keySources partitionSources
    simp only [columnById_eq hids]
  by_cases hspec : shape.partitionSpec = []
  · simp [partitionGroupsByMask, partitionGroups, hspec]
  · have hempty : shape.partitionSpec.isEmpty = false := List.isEmpty_eq_false_iff.2 hspec
    rw [partitionGroupsByMask_eq group data hspec, hsources]
    unfold partitionGroups
    rw [hempty, if_neg Bool.false_ne_true]
    refine congrArg (Option.map · _) (funext fun sources => ?_)
    simp [tupleParts, partOf]

/-- Values are numbers, and transforms print them. -/
def nullingBackend : Backend ℕ ℕ where
  cast := fun _ _ v => some v
  transform := fun _ _ _ v => v.map toString
  uuidText := id
  uuidBytes := some
  timestamp := fun _ => 0
  nbytes := fun _ => 0

/-- One column, null in the odd rows. -/
def oddNulls (rows : List ℕ) : Batch ℕ ℕ :=
  ⟨rows, [⟨"v", .of .long, fun n => if n % 2 = 1 then none else some n⟩]⟩

/-- **Partition grouping.** Under a spec with fields, `_partition_groups` refuses exactly the specs
    that read a column which is not live, and otherwise returns the rows grouped by their tuples. -/
theorem partitionGroupsByMask_grouping (be : Backend ρ V)
    (group : GroupMin (List (Option String))) (shape : Shape) (data : Batch ρ V)
    (hspec : shape.partitionSpec ≠ []) :
    (partitionGroupsByMask be group shape data = none ↔ ∃ field ∈ shape.partitionSpec,
      ∀ column ∈ shape.columns, column.fieldId ≠ field.sourceFieldId) ∧
    ∀ groups, partitionGroupsByMask be group shape data = some groups →
      ∃ sources parts, keySources shape = some sources ∧ groups = parts.map (partOf data) ∧
        Grouping (partitionTuple be sources data) data.rows parts := by
  rw [partitionGroupsByMask_eq group data hspec]
  refine ⟨?_, fun groups hgroups => ?_⟩
  · rw [Option.map_eq_none_iff, keySources, mapM_eq_none_iff]
    simp [columnById]
  · obtain ⟨sources, hsources, rfl⟩ := Option.map_eq_some_iff.1 hgroups
    exact ⟨sources, _, hsources, rfl, Columnar.grouping_of_filters _ _⟩

/-- Rows 1 and 3 go by null and row 2 by itself, under two fields that read one column. -/
theorem partitionGroupsByMask_grouping_nulls :
    ∃ groups, partitionGroupsByMask nullingBackend .lastFirst
        ⟨[⟨"v", 1, .long⟩], [⟨1, "identity", none⟩, ⟨1, "bucket", some 4⟩], []⟩ (oddNulls [1, 2, 3])
        = some groups ∧
      ∃ sources parts, keySources
          ⟨[⟨"v", 1, .long⟩], [⟨1, "identity", none⟩, ⟨1, "bucket", some 4⟩], []⟩ = some sources ∧
        groups = parts.map (partOf (oddNulls [1, 2, 3])) ∧
        Grouping (partitionTuple nullingBackend sources (oddNulls [1, 2, 3])) [1, 2, 3] parts := by
  refine ⟨_, rfl, ?_⟩
  exact (partitionGroupsByMask_grouping nullingBackend .lastFirst _ _ (by decide)).2 _ rfl

end Millpond.Hoglake
