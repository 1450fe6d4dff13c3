import Mathlib.Data.List.Nodup
import Mathlib.Data.Nat.Notation

set_option autoImplicit false

/-! # Live tables

The rows of `ducklake_table` and `ducklake_schema` that the maintenance commands join a file to. -/

namespace Millpond.Maintenance

/-- `ducklake_table`. -/
structure TableRow where
  tableId : ℕ
  schemaId : ℕ
  tableName : String
  endSnapshot : Option ℕ
deriving DecidableEq, Repr

/-- `ducklake_schema`. -/
structure SchemaRow where
  schemaId : ℕ
  schemaName : String
  endSnapshot : Option ℕ
deriving DecidableEq, Repr

/-- `_CATALOG_TABLE_NAME_RE.fullmatch`. -/
def isCatalogTableName (name : String) : Bool :=
  !name.isEmpty && name.toList.all fun c => c.isAlphanum || c == '_'

/-- Tables and schemas; of the rows with one id one is live at most. -/
structure LiveTables where
  tables : List TableRow
  schemas : List SchemaRow
  oneTable : ((tables.filter fun t => t.endSnapshot.isNone).map TableRow.tableId).Nodup
  oneSchema : ((schemas.filter fun s => s.endSnapshot.isNone).map SchemaRow.schemaId).Nodup

namespace LiveTables

/-- `t.end_snapshot IS NULL`. -/
def findTable (l : LiveTables) (tableId : ℕ) : Option TableRow :=
  (l.tables.filter fun t => t.endSnapshot.isNone).find? fun t => t.tableId == tableId

def findSchema (l : LiveTables) (schemaId : ℕ) : Option SchemaRow :=
  (l.schemas.filter fun s => s.endSnapshot.isNone).find? fun s => s.schemaId == schemaId

/-- Schema and name of a live table, by its id. -/
def nameOf (l : LiveTables) (tableId : ℕ) : Option (String × String) :=
  (l.findTable tableId).bind fun t =>
    (l.findSchema t.schemaId).map fun s => (s.schemaName, t.tableName)

end LiveTables

/-- Where keys are unique, `find?` by the key is membership. -/
theorem find?_key_iff {α : Type} {key : α → ℕ} {l : List α} (h : (l.map key).Nodup) {k : ℕ} {a : α} :
    (l.find? fun x => key x == k) = some a ↔ a ∈ l ∧ key a = k := by
  constructor
  · exact fun hfind => ⟨List.mem_of_find?_eq_some hfind, by simpa using List.find?_some hfind⟩
  · rintro ⟨ha, rfl⟩
    obtain ⟨b, hb⟩ := Option.isSome_iff_exists.1
      (List.find?_isSome.2 ⟨a, ha, by simp⟩ : (l.find? fun x => key x == key a).isSome = true)
    have hkey : key b = key a := by simpa using List.find?_some hb
    rw [hb, List.inj_on_of_nodup_map h (List.mem_of_find?_eq_some hb) ha hkey]

theorem LiveTables.nameOf_eq_some_iff (l : LiveTables) {tableId : ℕ} {schema name : String} :
    l.nameOf tableId = some (schema, name) ↔
      ∃ t ∈ l.tables, ∃ s ∈ l.schemas, t.endSnapshot = none ∧ s.endSnapshot = none ∧
        t.tableId = tableId ∧ s.schemaId = t.schemaId ∧ s.schemaName = schema ∧ t.tableName = name := by
  have htable : ∀ t, l.findTable tableId = some t ↔
      (t ∈ l.tables ∧ t.endSnapshot = none) ∧ t.tableId = tableId := fun t => by
    rw [findTable, find?_key_iff l.oneTable, List.mem_filter, Option.isNone_iff_eq_none]
  have hschema : ∀ id s, l.findSchema id = some s ↔
      (s ∈ l.schemas ∧ s.endSnapshot = none) ∧ s.schemaId = id := fun id s => by
    rw [findSchema, find?_key_iff l.oneSchema, List.mem_filter, Option.isNone_iff_eq_none]
  unfold nameOf
  simp only [Option.bind_eq_some_iff, Option.map_eq_some_iff, htable, hschema, Prod.mk.injEq]
  constructor
  · rintro ⟨t, ⟨⟨ht, htlive⟩, hid⟩, s, ⟨⟨hs, hslive⟩, hsid⟩, hname, htname⟩
    exact ⟨t, ht, s, hs, htlive, hslive, hid, hsid, hname, htname⟩
  · rintro ⟨t, ht, s, hs, htlive, hslive, hid, hsid, hname, htname⟩
    exact ⟨t, ⟨⟨ht, htlive⟩, hid⟩, s, ⟨⟨hs, hslive⟩, hsid⟩, hname, htname⟩

end Millpond.Maintenance
