import Mathlib.Data.List.Nodup
import Mathlib.Data.Nat.Notation

set_option autoImplicit false

/-! # Tables with a primary key

Rows in insertion order, no two under one key. The four statements are the only way to build a
table from another, so a table that breaks its key cannot be had. -/

namespace Millpond

/-- A row type with a primary key. -/
class Keyed (α : Type) where
  key : α → ℕ

/-- Rows with distinct keys. -/
structure Table (α : Type) [Keyed α] where
  rows : List α
  once : (rows.map Keyed.key).Nodup

namespace Table

variable {α : Type} [Keyed α]

instance [DecidableEq α] : DecidableEq (Table α) := fun s t =>
  decidable_of_iff (s.rows = t.rows) (by cases s; cases t; simp)

def empty : Table α := ⟨[], List.nodup_nil⟩

@[simp] theorem empty_rows : (empty : Table α).rows = [] := rfl

/-- The keys in use. -/
def keys (t : Table α) : List ℕ := t.rows.map Keyed.key

/-- `INSERT`; a row whose key is taken changes nothing. -/
def insert (t : Table α) (a : α) : Table α :=
  if h : Keyed.key a ∈ t.keys then t
  else ⟨t.rows ++ [a], by
    rw [List.map_append, List.map_singleton]
    exact List.nodup_append.2 ⟨t.once, List.nodup_singleton _, fun k hk k' hk' heq =>
      h ((List.mem_singleton.1 hk') ▸ heq ▸ hk)⟩⟩

/-- `INSERT` of several rows. -/
def insertAll (t : Table α) (as : List α) : Table α := as.foldl insert t

/-- `UPDATE .. SET .. ` that leaves the key alone. -/
def update (t : Table α) (f : α → α) (hf : ∀ a, Keyed.key (f a) = Keyed.key a) : Table α :=
  ⟨t.rows.map f, by
    have hkeys : (t.rows.map f).map Keyed.key = t.rows.map Keyed.key := by
      rw [List.map_map]
      exact List.map_congr_left fun a _ => hf a
    rw [hkeys]
    exact t.once⟩

/-- `DELETE .. WHERE`. -/
def delete (t : Table α) (p : α → Bool) : Table α :=
  ⟨t.rows.filter (fun a => !p a), (List.filter_sublist.map _).nodup t.once⟩

variable {t : Table α} {a b : α}

theorem mem_keys {k : ℕ} : k ∈ t.keys ↔ ∃ a ∈ t.rows, Keyed.key a = k := List.mem_map

/-- A key names one row. -/
theorem eq_of_key (ha : a ∈ t.rows) (hb : b ∈ t.rows) (h : Keyed.key a = Keyed.key b) : a = b :=
  List.inj_on_of_nodup_map t.once ha hb h

theorem rows_nodup (t : Table α) : t.rows.Nodup := List.Nodup.of_map _ t.once

theorem mem_insert (h : Keyed.key b ∉ t.keys) : a ∈ (t.insert b).rows ↔ a ∈ t.rows ∨ a = b := by
  unfold insert
  rw [dif_neg h]
  simp

theorem insert_rows (h : Keyed.key b ∉ t.keys) : (t.insert b).rows = t.rows ++ [b] := by
  unfold insert
  rw [dif_neg h]

theorem mem_insert_self (h : Keyed.key b ∉ t.keys) : b ∈ (t.insert b).rows :=
  (mem_insert h).2 (Or.inr rfl)

theorem mem_of_mem_insert (ha : a ∈ (t.insert b).rows) : a ∈ t.rows ∨ a = b := by
  by_cases h : Keyed.key b ∈ t.keys
  · unfold insert at ha
    rw [dif_pos h] at ha
    exact Or.inl ha
  · exact (mem_insert h).1 ha

theorem mem_insert_of_mem (ha : a ∈ t.rows) : a ∈ (t.insert b).rows := by
  unfold insert
  split
  · exact ha
  · exact List.mem_append_left _ ha

theorem mem_of_mem_insertAll {as : List α} (ha : a ∈ (t.insertAll as).rows) :
    a ∈ t.rows ∨ a ∈ as := by
  induction as generalizing t with
  | nil => exact Or.inl ha
  | cons b rest ih =>
      rcases ih ha with h | h
      · rcases mem_of_mem_insert h with h | rfl
        · exact Or.inl h
        · exact Or.inr List.mem_cons_self
      · exact Or.inr (List.mem_cons_of_mem _ h)

/-- Inserting rows appends those whose keys were free. -/
theorem insertAll_rows (t : Table α) (as : List α) :
    ∃ added, added.Sublist as ∧ (t.insertAll as).rows = t.rows ++ added := by
  induction as generalizing t with
  | nil => exact ⟨[], .slnil, (List.append_nil _).symm⟩
  | cons b rest ih =>
      obtain ⟨added, hsub, hrows⟩ := ih (t.insert b)
      by_cases h : Keyed.key b ∈ t.keys
      · refine ⟨added, hsub.cons b, hrows.trans ?_⟩
        unfold insert
        rw [dif_pos h]
      · refine ⟨b :: added, hsub.cons_cons b, hrows.trans ?_⟩
        rw [insert_rows h, List.append_assoc, List.singleton_append]

/-- Rows that a filter leaves out do not matter to it. -/
theorem filter_insertAll {as : List α} {p : α → Bool} (h : ∀ b ∈ as, p b = false) :
    (t.insertAll as).rows.filter p = t.rows.filter p := by
  induction as generalizing t with
  | nil => rfl
  | cons b rest ih =>
      have hrest : ∀ b' ∈ rest, p b' = false := fun b' hb' => h b' (List.mem_cons_of_mem _ hb')
      have hstep : (t.insert b).rows.filter p = t.rows.filter p := by
        by_cases hkey : Keyed.key b ∈ t.keys
        · unfold insert
          rw [dif_pos hkey]
        · simp [insert_rows hkey, h b List.mem_cons_self]
      exact (ih hrest).trans hstep

/-- An update that only touches rows a filter leaves out, and keeps them out. -/
theorem filter_update {f : α → α} {hf : ∀ a, Keyed.key (f a) = Keyed.key a} {p q : α → Bool}
    (h : ∀ a ∈ t.rows, p (f a) = q a) (hfix : ∀ a ∈ t.rows, q a = true → f a = a) :
    (t.update f hf).rows.filter p = t.rows.filter q := by
  have hfilter : t.rows.filter (p ∘ f) = t.rows.filter q := List.filter_congr fun a ha => h a ha
  unfold update
  rw [List.filter_map, hfilter, List.map_congr_left (g := id), List.map_id]
  intro a ha
  obtain ⟨hmem, hq⟩ := List.mem_filter.1 ha
  exact hfix a hmem hq

@[simp] theorem mem_update {f : α → α} {hf : ∀ a, Keyed.key (f a) = Keyed.key a} :
    b ∈ (t.update f hf).rows ↔ ∃ a ∈ t.rows, f a = b := List.mem_map

@[simp] theorem keys_update {f : α → α} {hf : ∀ a, Keyed.key (f a) = Keyed.key a} :
    (t.update f hf).keys = t.keys := by
  unfold keys update
  rw [List.map_map]
  exact List.map_congr_left fun a _ => hf a

@[simp] theorem mem_delete {p : α → Bool} : a ∈ (t.delete p).rows ↔ a ∈ t.rows ∧ p a = false := by
  simp [delete]

end Table

end Millpond
