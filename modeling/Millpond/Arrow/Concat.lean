import Mathlib.Data.Rat.Defs
import Millpond.Arrow.Converter

set_option autoImplicit false

/-! # Concatenating the pending buffer

What a consume batch adds to `main`'s pending buffer, and when `pa.concat_tables(pending,
promote_options="default")` returns. Concatenation merges the columns of the tables by name and
promotes the null type only, so it depends on the types the converter inferred batch by batch. -/

namespace Millpond.ArrowConverter

variable {F : Type}

/-! ## The pending buffer -/

/-- The rows `_apply_filter` and `_apply_drop_filter` leave of a table. Neither touches a column. -/
structure Filters (F : Type) where
  keep : Table F → Record F → Bool
  drop : Table F → Record F → Bool

def Filters.applyFilter (filters : Filters F) (table : Table F) : Table F :=
  { table with rows := table.rows.filter (filters.keep table) }

def Filters.applyDropFilter (filters : Filters F) (table : Table F) : Table F :=
  { table with rows := table.rows.filter fun row => !filters.drop table row }

variable (be : Backend F) (typedColumns : List (String × TypeName)) (filters : Filters F)

/-- What one consume batch appends to `pending`. -/
def pendingTable (messages : List (Option (Parsed F))) : Converted F :=
  match convert be messages with
  | .raised => .raised
  | .none => .none
  | .table converted =>
    match coerceTypedColumns be typedColumns converted with
    | .raised => .raised
    | .none => .none
    | .table coerced =>
      let filtered := filters.applyDropFilter (filters.applyFilter coerced)
      if filtered.rows.isEmpty then .none else .table filtered

/-- `pending` after these batches, `none` when one of them raised and the loop was left. -/
def pendingBuffer : List (List (Option (Parsed F))) → Option (List (Table F))
  | [] => some []
  | messages :: batches =>
    match pendingTable be typedColumns filters messages with
    | .raised => none
    | .none => pendingBuffer batches
    | .table table => (pendingBuffer batches).map (table :: ·)

/-! ## `pa.concat_tables` -/

/-- The promotion of `promote_options="default"`: only null gives way. -/
def mergeType (a b : ColType) : Option ColType :=
  if a = b then some a
  else if a = .null then some b
  else if b = .null then some a
  else none

/-- One more field in the unified schema. -/
def mergeField (schema : Schema) (field : String × ColType) : Option Schema :=
  match schema.lookup field.1 with
  | none => some (schema ++ [field])
  | some type => (mergeType type field.2).map fun merged =>
      schema.map fun old => if old.1 = field.1 then (old.1, merged) else old

/-- The schema of the concatenation, `none` when it raises. -/
def concatTables (tables : List (Table F)) : Option Schema :=
  (tables.flatMap Table.fields).foldlM mergeField []

/-! ## When the fields merge -/

/-- A name has one type. -/
def Consistent (fields : Schema) : Prop :=
  ∀ a ∈ fields, ∀ b ∈ fields, a.1 = b.1 → a.2 = b.2

theorem lookup_eq_none {fields : Schema} {name : String} (h : fields.lookup name = none) :
    ∀ field ∈ fields, field.1 ≠ name := by
  intro field hfield heq
  rw [List.lookup_eq_none_iff] at h
  simpa [heq] using h field hfield

theorem mem_of_lookup {fields : Schema} {name : String} {type : ColType}
    (h : fields.lookup name = some type) : (name, type) ∈ fields := by
  obtain ⟨before, after, rfl, -⟩ := List.lookup_eq_some_iff.1 h
  simp

theorem Consistent.append_new {fields : Schema} {field : String × ColType}
    (h : Consistent fields) (hnew : fields.lookup field.1 = none) :
    Consistent (fields ++ [field]) := by
  have hne := lookup_eq_none hnew
  intro a ha b hb hab
  rcases List.mem_append.1 ha with ha | ha <;> rcases List.mem_append.1 hb with hb | hb
  · exact h a ha b hb hab
  · rw [List.mem_singleton.1 hb] at hab
    exact absurd hab (hne a ha)
  · rw [List.mem_singleton.1 ha] at hab
    exact absurd hab.symm (hne b hb)
  · rw [List.mem_singleton.1 ha, List.mem_singleton.1 hb]

theorem Consistent.of_subset {fields fields' : Schema} (h : Consistent fields)
    (hsub : fields' ⊆ fields) : Consistent fields' :=
  fun a ha b hb => h a (hsub ha) b (hsub hb)

/-- A field whose type is already there changes nothing. -/
theorem mergeField_same {schema : Schema} {field : String × ColType} (hc : Consistent schema)
    (h : schema.lookup field.1 = some field.2) : mergeField schema field = some schema := by
  have hid : ∀ old ∈ schema, (if old.1 = field.1 then (old.1, field.2) else old) = old := by
    intro old hold
    split
    · next hname => rw [← hc old hold _ (mem_of_lookup h) hname]
    · rfl
  unfold mergeField
  rw [h]
  simp only [mergeType, if_true, Option.map_some, Option.some.injEq]
  calc schema.map _ = schema.map id := List.map_congr_left hid
    _ = schema := by simp

theorem mergeField_other {schema : Schema} {field : String × ColType} {type : ColType}
    (h : schema.lookup field.1 = some type) (hne : type ≠ field.2) (hnull : type ≠ .null)
    (hnull' : field.2 ≠ .null) : mergeField schema field = none := by
  unfold mergeField
  rw [h]
  simp [mergeType, hne, hnull, hnull']

/-- **Fields without the null type merge exactly when a name has one type.** By induction on the
    fields still to merge. -/
theorem foldlM_mergeField_isSome (fields : Schema) :
    ∀ schema : Schema, Consistent schema → (∀ field ∈ schema ++ fields, field.2 ≠ .null) →
      ((fields.foldlM mergeField schema).isSome ↔ Consistent (schema ++ fields)) := by
  induction fields with
  | nil =>
      intro schema hc _
      simp [hc]
  | cons field rest ih =>
      intro schema hc hnull
      rw [List.foldlM_cons]
      have hfield : field.2 ≠ .null := hnull field (by simp)
      cases hlook : schema.lookup field.1 with
      | none =>
          have hstep : mergeField schema field = some (schema ++ [field]) := by
            unfold mergeField
            rw [hlook]
          have happ : schema ++ [field] ++ rest = schema ++ field :: rest := by simp
          rw [hstep, Option.bind_eq_bind, Option.bind_some,
            ih _ (hc.append_new hlook) (by rwa [happ]), happ]
      | some type =>
          have hmem := mem_of_lookup hlook
          by_cases htype : type = field.2
          · subst htype
            have hsub : schema ++ field :: rest ⊆ schema ++ rest := by
              intro f hf
              simp only [List.mem_append, List.mem_cons] at hf ⊢
              rcases hf with hf | rfl | hf
              · exact Or.inl hf
              · exact Or.inl hmem
              · exact Or.inr hf
            have hsub' : schema ++ rest ⊆ schema ++ field :: rest := by
              intro f hf
              simp only [List.mem_append, List.mem_cons] at hf ⊢
              exact hf.imp id Or.inr
            rw [mergeField_same hc hlook, Option.bind_eq_bind, Option.bind_some,
              ih _ hc (fun f hf => hnull f (hsub' hf))]
            exact ⟨fun h => h.of_subset hsub, fun h => h.of_subset hsub'⟩
          · rw [mergeField_other hlook htype (hnull _ (List.mem_append_left _ hmem)) hfield,
              Option.bind_eq_bind, Option.bind_none]
            constructor
            · simp
            · intro h
              exact absurd (h _ (List.mem_append_left _ hmem) field (by simp) rfl) htype

/-! ## The fields of a pending table -/

/-- The type of a field of a pending table. -/
def fieldType (records : List (Record F)) (name : String) : ColType :=
  pinnedType typedColumns (name, inferredType (column name records))

theorem fieldType_ne_null (records : List (Record F)) (name : String) :
    fieldType typedColumns records name ≠ .null := by
  unfold fieldType pinnedType
  cases targetType typedColumns name with
  | none => exact inferredType_ne_null _
  | some target => cases target <;> simp [TypeName.arrowType]

theorem coerceTypedColumns_fields {table coerced : Table F}
    (h : coerceTypedColumns be typedColumns table = .table coerced) :
    coerced.fields = table.fields.map fun field => (field.1, pinnedType typedColumns field) := by
  unfold coerceTypedColumns at h
  split at h
  · simp only [Converted.table.injEq] at h
    rw [← h]
  · exact absurd h (by simp)

/-- **The columns of a pending table** are the keys of its batch. -/
theorem pendingTable_fields {messages : List (Option (Parsed F))} {table : Table F}
    (h : pendingTable be typedColumns filters messages = .table table) :
    table.fields = (keysOf (recordsOf messages)).map
      fun name => (name, fieldType typedColumns (recordsOf messages) name) := by
  unfold pendingTable at h
  cases hconv : convert be messages with
  | raised => simp [hconv] at h
  | none => simp [hconv] at h
  | table converted =>
      simp only [hconv] at h
      cases hcoerce : coerceTypedColumns be typedColumns converted with
      | raised => simp [hcoerce] at h
      | none => simp [hcoerce] at h
      | table coerced =>
          simp only [hcoerce] at h
          split at h
          · exact absurd h (by simp)
          · simp only [Converted.table.injEq] at h
            have hfields : table.fields = coerced.fields := by rw [← h]; rfl
            rw [hfields, coerceTypedColumns_fields be typedColumns hcoerce,
              convert_fields be hconv, List.map_map]
            rfl

theorem mem_pendingBuffer {table : Table F} :
    ∀ {batches : List (List (Option (Parsed F)))} {tables : List (Table F)},
      pendingBuffer be typedColumns filters batches = some tables →
      (table ∈ tables ↔
        ∃ messages ∈ batches, pendingTable be typedColumns filters messages = .table table) := by
  intro batches
  induction batches with
  | nil =>
      intro tables h
      have : tables = [] := by simpa [pendingBuffer] using h.symm
      simp [this]
  | cons messages rest ih =>
      intro tables h
      cases hfirst : pendingTable be typedColumns filters messages with
      | raised => simp [pendingBuffer, hfirst] at h
      | none =>
          rw [ih (by simpa [pendingBuffer, hfirst] using h)]
          simp [hfirst]
      | table first =>
          obtain ⟨others, hothers, rfl⟩ : ∃ others,
              pendingBuffer be typedColumns filters rest = some others ∧ first :: others = tables := by
            simpa [pendingBuffer, hfirst] using h
          simp [ih hothers, hfirst, eq_comm]

/-- A batch that put rows into the pending buffer. -/
def Contributes (messages : List (Option (Parsed F))) : Prop :=
  ∃ table, pendingTable be typedColumns filters messages = .table table

/-- Two batches infer one type for every field they share that is not pinned. -/
def SameInference (messages messages' : List (Option (Parsed F))) : Prop :=
  ∀ name, targetType typedColumns name = none →
    name ∈ keysOf (recordsOf messages) → name ∈ keysOf (recordsOf messages') →
    inferredType (column name (recordsOf messages))
      = inferredType (column name (recordsOf messages'))

/-- A pinned field has its target type whatever is inferred. -/
theorem fieldType_eq_iff {records records' : List (Record F)} {name : String} :
    fieldType typedColumns records name = fieldType typedColumns records' name ↔
      (targetType typedColumns name = none →
        inferredType (column name records) = inferredType (column name records')) := by
  unfold fieldType pinnedType
  cases targetType typedColumns name with
  | none => simp
  | some target => simp

/-- **A flush concatenates exactly when its batches infer the same types.** -/
theorem concatTables_isSome_iff {batches : List (List (Option (Parsed F)))}
    {tables : List (Table F)} (h : pendingBuffer be typedColumns filters batches = some tables) :
    (concatTables tables).isSome ↔
      ∀ messages ∈ batches, ∀ messages' ∈ batches,
        Contributes be typedColumns filters messages →
        Contributes be typedColumns filters messages' →
        SameInference typedColumns messages messages' := by
  have hfields : ∀ table ∈ tables, ∃ messages ∈ batches,
      pendingTable be typedColumns filters messages = .table table :=
    fun table htable => (mem_pendingBuffer be typedColumns filters h).1 htable
  have hmem : ∀ field : String × ColType, field ∈ tables.flatMap Table.fields ↔
      ∃ messages ∈ batches, Contributes be typedColumns filters messages ∧
        field.1 ∈ keysOf (recordsOf messages) ∧
        field.2 = fieldType typedColumns (recordsOf messages) field.1 := by
    intro field
    rw [List.mem_flatMap]
    constructor
    · intro ⟨table, htable, hfield⟩
      obtain ⟨messages, hmessages, hpending⟩ := hfields table htable
      rw [pendingTable_fields be typedColumns filters hpending, List.mem_map] at hfield
      obtain ⟨name, hname, rfl⟩ := hfield
      exact ⟨messages, hmessages, ⟨table, hpending⟩, hname, rfl⟩
    · intro ⟨messages, hmessages, ⟨table, hpending⟩, hkey, htype⟩
      refine ⟨table, (mem_pendingBuffer be typedColumns filters h).2 ⟨messages, hmessages, hpending⟩, ?_⟩
      rw [pendingTable_fields be typedColumns filters hpending, List.mem_map]
      exact ⟨field.1, hkey, by rw [← htype]⟩
  have hnull : ∀ field ∈ ([] : Schema) ++ tables.flatMap Table.fields, field.2 ≠ .null := by
    intro field hfield
    obtain ⟨messages, -, -, -, htype⟩ := (hmem field).1 (by simpa using hfield)
    rw [htype]
    exact fieldType_ne_null typedColumns _ _
  unfold concatTables
  rw [foldlM_mergeField_isSome _ [] (by simp [Consistent]) hnull, List.nil_append]
  constructor
  · intro hc messages hm messages' hm' hcon hcon' name hpin hkey hkey'
    have ha := (hmem (name, fieldType typedColumns (recordsOf messages) name)).2
      ⟨messages, hm, hcon, hkey, rfl⟩
    have hb := (hmem (name, fieldType typedColumns (recordsOf messages') name)).2
      ⟨messages', hm', hcon', hkey', rfl⟩
    exact (fieldType_eq_iff typedColumns).1 (hc _ ha _ hb rfl) hpin
  · intro hs a ha b hb hab
    obtain ⟨messages, hm, hcon, hkey, htype⟩ := (hmem a).1 ha
    obtain ⟨messages', hm', hcon', hkey', htype'⟩ := (hmem b).1 hb
    rw [htype, htype', ← hab]
    rw [← hab] at hkey'
    exact (fieldType_eq_iff typedColumns).2
      (fun hpin => hs messages hm messages' hm' hcon hcon' a.1 hpin hkey hkey')

/-! ## Drift between two batches -/

/-- pyarrow on small values: nothing raises. -/
def smallValues : Backend ℚ where
  ofInt := fun n => n
  floatStr := fun f => toString f
  fromPylist := fun _ _ => true
  castInt64 := fun _ _ => true
  castImplemented := fun _ _ => true

def keepAll : Filters ℚ where
  keep := fun _ _ => true
  drop := fun _ _ => false

/-- The batches of `test_cross_batch_concat_with_promote`: the second one has a new key. -/
def newKeyBatches : List (List (Option (Parsed ℚ))) :=
  [[some (.object [("a", .int 1)] (by decide))],
   [some (.object [("a", .int 2), ("b", .str "new")] (by decide))]]

/-- A field that holds an integer in one batch and a float in the next. -/
def driftingBatches : List (List (Option (Parsed ℚ))) :=
  [[some (.object [("x", .int 1)] (by decide))], [some (.object [("x", .float (3 / 2))] (by decide))]]

theorem concat_newKeyBatches :
    ∃ tables, pendingBuffer smallValues [] keepAll newKeyBatches = some tables ∧
      ((concatTables tables).isSome ↔
        ∀ messages ∈ newKeyBatches, ∀ messages' ∈ newKeyBatches,
          Contributes smallValues [] keepAll messages →
          Contributes smallValues [] keepAll messages' → SameInference [] messages messages') :=
  ⟨_, rfl, concatTables_isSome_iff smallValues [] keepAll rfl⟩

theorem concat_driftingBatches :
    (pendingBuffer smallValues [] keepAll driftingBatches).map concatTables = some none := by
  decide

end Millpond.ArrowConverter
