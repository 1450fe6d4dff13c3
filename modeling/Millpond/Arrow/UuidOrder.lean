import Millpond.Arrow.Uuid
import Millpond.Lib.Sorting
import Mathlib.Algebra.Order.Ring.Int

set_option autoImplicit false

/-! # Sorting a uuid column on its storage

`_apply_sort` hands pyarrow the bytes of a uuid column in place of the extension array. Bytes of one
length compare as their hex digits do, and the hyphens stand at fixed places, so the rows come out
in the order of the canonical texts. -/

namespace Millpond.Arrow

open Sorting
open Columnar (Arr)

/-! ## Bytes and texts -/

theorem hexDigit_lt_iff {m n : ℕ} (hm : m < 16) (hn : n < 16) :
    hexDigit m < hexDigit n ↔ m < n := by
  have hall : ∀ m n : Fin 16, hexDigit m < hexDigit n ↔ m.val < n.val := by decide
  exact hall ⟨m, hm⟩ ⟨n, hn⟩

theorem hexDigit_inj {m n : ℕ} (hm : m < 16) (hn : n < 16) : hexDigit m = hexDigit n ↔ m = n := by
  have hall : ∀ m n : Fin 16, hexDigit m = hexDigit n ↔ m.val = n.val := by decide
  exact hall ⟨m, hm⟩ ⟨n, hn⟩

/-- The digits of lists of one length compare as the lists do. -/
theorem hexed_lt_iff {a b : Bytes} (h : a.length = b.length) : hexed a < hexed b ↔ a < b := by
  induction a generalizing b with
  | nil =>
      obtain rfl : b = [] := List.eq_nil_of_length_eq_zero h.symm
      exact iff_of_false (List.not_lt_nil _) (List.not_lt_nil _)
  | cons x a ih =>
      cases b with
      | nil => cases h
      | cons y b =>
          have hx := x.toNat_lt
          have hy := y.toNat_lt
          rw [hexed_cons, hexed_cons, List.cons_lt_cons_iff, List.cons_lt_cons_iff,
            List.cons_lt_cons_iff, ih (by simpa using h), hexDigit_lt_iff (by omega) (by omega),
            hexDigit_inj (by omega) (by omega), hexDigit_lt_iff (Nat.mod_lt _ (by decide))
              (Nat.mod_lt _ (by decide)), hexDigit_inj (Nat.mod_lt _ (by decide))
              (Nat.mod_lt _ (by decide)), UInt8.lt_iff_toNat_lt, ← UInt8.toNat_inj]
          constructor
          · rintro (hhigh | ⟨hhigh, hlow | ⟨hlow, hrest⟩⟩)
            · exact .inl (by omega)
            · exact .inl (by omega)
            · exact .inr ⟨by omega, hrest⟩
          · rintro (hlt | ⟨heq, hrest⟩)
            · by_cases hhigh : x.toNat / 16 = y.toNat / 16
              · exact .inr ⟨hhigh, .inl (by omega)⟩
              · exact .inl (by omega)
            · exact .inr ⟨by omega, .inr ⟨by omega, hrest⟩⟩

/-- Hyphens at the same places do not change an order. -/
theorem hyphenated_lt_iff {a b : List Char} (h : a.length = b.length) :
    hyphenated a < hyphenated b ↔ a < b := by
  have htake : ∀ n m, ((a.drop n).take m).length = ((b.drop n).take m).length := fun n m => by
    simp [h]
  have hparts : ∀ l : List Char, l = l.take 8 ++ ((l.drop 8).take 4 ++ ((l.drop 12).take 4 ++
      ((l.drop 16).take 4 ++ l.drop 20))) := fun l => by
    have hcut : ∀ n m, (l.drop n).take m ++ l.drop (n + m) = l.drop n := fun n m => by
      rw [← List.drop_drop, List.take_append_drop]
    rw [hcut 16 4, hcut 12 4, hcut 8 4, List.take_append_drop]
  -- both orders look at the five groups one after the other
  conv_rhs => rw [hparts a, hparts b]
  rw [append_lt_append_iff (by simp [h]), append_lt_append_iff (htake 8 4),
    append_lt_append_iff (htake 12 4), append_lt_append_iff (htake 16 4)]
  simp only [hyphenated, List.append_assoc, List.cons_append]
  rw [separated_lt_iff '-' (by simp [h]), separated_lt_iff '-' (htake 8 4),
    separated_lt_iff '-' (htake 12 4), separated_lt_iff '-' (htake 16 4)]

/-- Bytewise order is the order of the canonical texts. -/
theorem uuidText_lt_iff (a b : Uuid) : a.raw < b.raw ↔ uuidText a < uuidText b := by
  have htext : ∀ uuid : Uuid, (uuidText uuid).toList = hyphenated (hexed uuid.raw) :=
    fun uuid => String.toList_ofList
  have hlength : (hexed a.raw).length = (hexed b.raw).length := by
    rw [length_hexed, length_hexed, a.sixteen, b.sixteen]
  rw [String.lt_iff_toList_lt, htext, htext, hyphenated_lt_iff hlength,
    hexed_lt_iff (a.sixteen.trans b.sixteen.symm)]

/-! ## `_apply_sort` -/

/-- The cells of a column: a uuid column, its storage, its texts, a column of a type that pyarrow
    sorts, or one of a type that it does not. -/
inductive KeyCells (α : Type) where
  | uuid (cells : Arr Uuid)
  | binary (cells : Arr Bytes)
  | text (cells : Arr String)
  | plain (cells : Arr α)
  | unsortable (cells : Arr α)

namespace KeyCells

variable {α : Type}

/-- `pc.sort_indices` has a kernel for the type; it has none for an extension type. -/
def hasKernel : KeyCells α → Bool
  | .uuid _ | .unsortable _ => false
  | .binary _ | .text _ | .plain _ => true

/-- `column.storage` of an extension type. -/
def storage : KeyCells α → KeyCells α
  | .uuid cells => .binary (cells.map (Option.map Uuid.raw))
  | cells => cells

/-- The column with canonical texts for uuids. -/
def canonical : KeyCells α → KeyCells α
  | .uuid cells => .text (cells.map (Option.map uuidText))
  | cells => cells

/-- The order of the cells; a type without a kernel puts no row before another. -/
def order [LT α] : KeyCells α → RowOrder
  | .binary cells => .of (· < ·) cells
  | .text cells => .of (· < ·) cells
  | .plain cells => .of (· < ·) cells
  | .uuid _ | .unsortable _ => ⟨fun _ _ => False, fun _ _ => True⟩

/-- `take` on one column. -/
def take (indices : List ℕ) : KeyCells α → KeyCells α
  | .uuid cells => .uuid (indices.map fun i => cells[i]?.join)
  | .binary cells => .binary (indices.map fun i => cells[i]?.join)
  | .text cells => .text (indices.map fun i => cells[i]?.join)
  | .plain cells => .plain (indices.map fun i => cells[i]?.join)
  | .unsortable cells => .unsortable (indices.map fun i => cells[i]?.join)

end KeyCells

/-- A table: its columns by name, all of one length. -/
structure SortTable (α : Type) where
  numRows : ℕ
  columns : List (String × KeyCells α)

namespace SortTable

variable {α : Type}

/-- `table[name]`, for each of the names. -/
def select (table : SortTable α) (names : List String) : List (KeyCells α) :=
  names.filterMap fun name => (table.columns.find? fun c => c.1 == name).map Prod.snd

def take (table : SortTable α) (indices : List ℕ) : SortTable α :=
  ⟨indices.length, table.columns.map fun c => (c.1, c.2.take indices)⟩

/-- `_sortable_key_projection`: only the key columns are touched. -/
def sortableKeyProjection (table : SortTable α) (sortBy : List String) : SortTable α :=
  { table with
    columns := table.columns.map fun c => (c.1, if c.1 ∈ sortBy then c.2.storage else c.2) }

end SortTable

/-- `pc.sort_indices` in ascending order: a stable sort of the row numbers, nulls last, or an error
    when a key has no kernel. -/
structure SortIndices (α : Type) [LT α] where
  run : List (KeyCells α) → ℕ → Option (List ℕ)
  isSome_iff : ∀ keys n, keys ≠ [] → ((run keys n).isSome = true ↔ ∀ key ∈ keys, key.hasKernel = true)
  stable : ∀ keys n indices, run keys n = some indices →
    indices.Perm (List.range n) ∧ indices.Pairwise (before (keys.map KeyCells.order))

/-- `_apply_sort`, without its warnings and counters. -/
def applySort {α : Type} [LT α] (sortIndices : SortIndices α) (table : SortTable α)
    (sortBy : Option (List String)) : SortTable α :=
  match sortBy with
  | none => table
  | some names =>
      if names.any fun name => !table.columns.any fun c => c.1 == name then table
      else
        match sortIndices.run ((table.sortableKeyProjection names).select names) table.numRows with
        | none => table
        | some indices => table.take indices

/-! ## The order of a sorted table -/

theorem raw_injective : Function.Injective Uuid.raw := by
  rintro ⟨raw, _⟩ ⟨raw', _⟩ h
  obtain rfl : raw = raw' := h
  rfl

section Order

variable {α : Type} [LT α]

/-- The storage sorts as the canonical text does. -/
theorem storage_agrees (cells : KeyCells α) :
    RowOrder.Agrees cells.storage.order cells.canonical.order := by
  cases cells with
  | uuid cells =>
      let byRaw : Uuid → Uuid → Prop := fun a b => a.raw < b.raw
      have hleft : (RowOrder.of byRaw cells).Agrees (KeyCells.storage (α := α) (.uuid cells)).order :=
        agrees_map (fun a b : Uuid => Iff.refl (a.raw < b.raw)) raw_injective cells
      have hright : (RowOrder.of byRaw cells).Agrees (KeyCells.canonical (α := α) (.uuid cells)).order :=
        agrees_map uuidText_lt_iff (fun _ _ h => uuidText_injective h) cells
      exact fun i j => ⟨(hleft i j).1.symm.trans (hright i j).1, (hleft i j).2.symm.trans (hright i j).2⟩
  | binary _ | text _ | plain _ | unsortable _ => exact fun _ _ => ⟨Iff.rfl, Iff.rfl⟩

theorem storages_agree (keys : List (KeyCells α)) :
    List.Forall₂ RowOrder.Agrees (keys.map fun key => key.storage.order)
      (keys.map fun key => key.canonical.order) := by
  induction keys with
  | nil => exact .nil
  | cons key rest ih => exact .cons (storage_agrees key) ih

omit [LT α] in
/-- The key columns of the projection are the storages. -/
theorem select_projection (table : SortTable α) {names sortBy : List String} (h : names ⊆ sortBy) :
    (table.sortableKeyProjection sortBy).select names = (table.select names).map KeyCells.storage := by
  unfold SortTable.select SortTable.sortableKeyProjection
  rw [List.map_filterMap]
  refine List.filterMap_congr fun name hname => ?_
  rw [List.find?_map, Option.map_map, Option.map_map]
  have hfind : (fun c : String × KeyCells α => c.1 == name) ∘
      (fun c : String × KeyCells α => (c.1, if c.1 ∈ sortBy then c.2.storage else c.2)) =
        fun c => c.1 == name := rfl
  rw [hfind]
  cases hcolumn : table.columns.find? fun c => c.1 == name with
  | none => rfl
  | some c =>
      have hc : c.1 = name := by simpa using List.find?_some hcolumn
      simp [hc, h hname]

omit [LT α] in
theorem select_ne_nil (table : SortTable α) {names : List String} (hne : names ≠ [])
    (hpresent : ∀ name ∈ names, ∃ c ∈ table.columns, c.1 = name) : table.select names ≠ [] := by
  obtain ⟨name, hname⟩ := List.exists_mem_of_ne_nil _ hne
  obtain ⟨c, hc, hcname⟩ := hpresent name hname
  have hfound : (table.columns.find? fun c => c.1 == name).isSome = true :=
    List.find?_isSome.2 ⟨c, hc, by simpa using hcname⟩
  obtain ⟨d, hd⟩ := Option.isSome_iff_exists.1 hfound
  exact List.ne_nil_of_mem (List.mem_filterMap.2 ⟨name, hname, by rw [hd]; rfl⟩)

/-- **Sorting uuids on storage.** Bytewise order is the order of the canonical texts; and so, for every
    table and sort keys whose storages pyarrow sorts, `_apply_sort` takes the rows in the order of the
    keys, nulls last and ties in place, with every uuid column compared by its canonical text. -/
theorem applySort_canonical (sortIndices : SortIndices α) (table : SortTable α) (names : List String)
    (hne : names ≠ []) (hpresent : ∀ name ∈ names, ∃ c ∈ table.columns, c.1 = name)
    (hkernel : ∀ key ∈ table.select names, key.storage.hasKernel = true) :
    (∀ a b : Uuid, a.raw < b.raw ↔ uuidText a < uuidText b) ∧
      ∃ indices, applySort sortIndices table (some names) = table.take indices ∧
        indices.Perm (List.range table.numRows) ∧
        indices.Pairwise (before ((table.select names).map fun key => key.canonical.order)) := by
  have hkeys := select_projection table (List.Subset.refl names)
  have hsome : (sortIndices.run ((table.select names).map KeyCells.storage) table.numRows).isSome = true := by
    rw [sortIndices.isSome_iff _ _ (by simpa using select_ne_nil table hne hpresent)]
    intro key hkey
    obtain ⟨key', hkey', rfl⟩ := List.mem_map.1 hkey
    exact hkernel key' hkey'
  obtain ⟨indices, hindices⟩ := Option.isSome_iff_exists.1 hsome
  obtain ⟨hperm, hsorted⟩ := sortIndices.stable _ _ _ hindices
  refine ⟨uuidText_lt_iff, indices, ?_, hperm, hsorted.imp fun hbefore => ?_⟩
  · have hmissing : ¬ (names.any fun name => !table.columns.any fun c => c.1 == name) = true := by
      simp only [List.any_eq_true, Bool.not_eq_true', List.any_eq_false, not_exists, not_and]
      intro name hname hnone
      obtain ⟨c, hc, hcname⟩ := hpresent name hname
      exact hnone c hc (by simpa using hcname)
    rw [applySort]
    simp only [if_neg hmissing, hkeys, hindices]
  · rw [List.map_map] at hbefore
    exact (before_congr (storages_agree (table.select names)) _ _).1 hbefore

end Order

/-! ## A table of two uuids -/

/-- The order of bytes, for the order of lists of them. -/
@[reducible] def byteOrder : LinearOrder UInt8 where
  le_refl := UInt8.le_refl
  le_trans _ _ _ := UInt8.le_trans
  le_antisymm _ _ := UInt8.le_antisymm
  le_total := UInt8.le_total
  lt_iff_le_not_ge a b := by
    rw [UInt8.lt_iff_toNat_lt, UInt8.le_iff_toNat_le, UInt8.le_iff_toNat_le]
    omega
  toDecidableLE := inferInstance
  toDecidableEq := inferInstance
  toDecidableLT := inferInstance

theorem order_lawful (key : KeyCells ℤ) : key.order.Lawful := by
  let _ := byteOrder
  cases key with
  | binary cells => exact lawful_of cells
  | text cells => exact lawful_of cells
  | plain cells => exact lawful_of cells
  | uuid _ | unsortable _ => constructor <;> simp [KeyCells.order]

@[reducible] def decidableLt (key : KeyCells ℤ) : DecidableRel key.order.lt := fun i j =>
  match key with
  | .binary cells => nullsLast_decidable cells[i]?.join cells[j]?.join
  | .text cells => nullsLast_decidable cells[i]?.join cells[j]?.join
  | .plain cells => nullsLast_decidable cells[i]?.join cells[j]?.join
  | .uuid _ => .isFalse id
  | .unsortable _ => .isFalse id

@[reducible] def decidableSame (key : KeyCells ℤ) : DecidableRel key.order.same := fun i j =>
  match key with
  | .binary cells => inferInstanceAs (Decidable (cells[i]?.join = cells[j]?.join))
  | .text cells => inferInstanceAs (Decidable (cells[i]?.join = cells[j]?.join))
  | .plain cells => inferInstanceAs (Decidable (cells[i]?.join = cells[j]?.join))
  | .uuid _ => .isTrue trivial
  | .unsortable _ => .isTrue trivial

@[reducible] def decidableBefore :
    (keys : List (KeyCells ℤ)) → DecidableRel (before (keys.map KeyCells.order))
  | [] => fun i j => inferInstanceAs (Decidable (i < j))
  | key :: keys => fun i j =>
      have := decidableLt key i j
      have := decidableSame key i j
      have := decidableBefore keys i j
      inferInstanceAs
        (Decidable (key.order.lt i j ∨ key.order.same i j ∧ before (keys.map KeyCells.order) i j))

/-- A stable sort by insertion. -/
def insertionIndices : SortIndices ℤ where
  run keys n :=
    if keys.all KeyCells.hasKernel then
      let _ := decidableBefore keys
      some (sortRows (keys.map KeyCells.order) n)
    else none
  isSome_iff keys n _ := by
    rw [← List.all_eq_true]
    by_cases h : keys.all KeyCells.hasKernel = true
    · rw [if_pos h]
      exact iff_of_true rfl h
    · rw [if_neg h]
      exact iff_of_false nofun h
  stable keys n indices h := by
    let _ := decidableBefore keys
    have hlawful : ∀ k ∈ keys.map KeyCells.order, k.Lawful := by
      intro k hk
      obtain ⟨key, -, rfl⟩ := List.mem_map.1 hk
      exact order_lawful key
    by_cases hkernel : keys.all KeyCells.hasKernel = true
    · rw [if_pos hkernel] at h
      cases h
      exact sortRows_sorted hlawful n
    · rw [if_neg hkernel] at h
      cases h

/-- Uuids by their last byte. -/
def uuidEnding (b : UInt8) : Uuid := ⟨List.replicate 15 0 ++ [b], rfl⟩

def threeUuids : SortTable ℤ :=
  ⟨3, [("id", .uuid [some (uuidEnding 9), none, some (uuidEnding 7)])]⟩

theorem threeUuids_sorted :
    (∀ a b : Uuid, a.raw < b.raw ↔ uuidText a < uuidText b) ∧
      ∃ indices, applySort insertionIndices threeUuids (some ["id"]) = threeUuids.take indices ∧
        indices.Perm (List.range threeUuids.numRows) ∧
        indices.Pairwise
          (before ((threeUuids.select ["id"]).map fun key => key.canonical.order)) :=
  applySort_canonical insertionIndices threeUuids ["id"] (List.cons_ne_nil _ _)
    (by simp [threeUuids]) (by
      intro key hkey
      have hselect : threeUuids.select ["id"] =
          [.uuid [some (uuidEnding 9), none, some (uuidEnding 7)]] := rfl
      rw [hselect, List.mem_singleton] at hkey
      rw [hkey]
      rfl)

end Millpond.Arrow
