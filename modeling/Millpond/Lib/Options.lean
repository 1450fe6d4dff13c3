import Mathlib.Data.List.Forall2
import Mathlib.Data.List.Nodup
import Mathlib.Data.Nat.Notation

set_option autoImplicit false

/-! # Lists of fallible steps

`mapM` into `Option` succeeds when every element does, and then answers element by element. -/

namespace Millpond

variable {α β κ : Type}

theorem mapM_eq_none_iff {f : α → Option β} {l : List α} :
    l.mapM f = none ↔ ∃ a ∈ l, f a = none := by
  induction l with
  | nil => simp
  | cons a rest ih =>
      rw [List.mapM_cons]
      cases ha : f a with
      | none => simp [ha]
      | some b =>
          cases hrest : rest.mapM f with
          | none => simpa [ha, hrest] using ih.1 hrest
          | some bs =>
              have hall := mt ih.2 (by simp [hrest])
              simpa [ha, hrest] using hall

theorem mapM_eq_some_iff {f : α → Option β} {l : List α} {r : List β} :
    l.mapM f = some r ↔ List.Forall₂ (fun a b => f a = some b) l r := by
  induction l generalizing r with
  | nil => cases r <;> simp
  | cons a rest ih =>
      rw [List.mapM_cons]
      cases r with
      | nil => cases f a <;> cases rest.mapM f <;> simp
      | cons b bs =>
          rw [List.forall₂_cons, ← ih]
          cases f a <;> cases rest.mapM f <;> simp

/-- Related lists have a partner for every element. -/
theorem exists_of_forall₂_left {R : α → β → Prop} {l : List α} {r : List β} (h : List.Forall₂ R l r)
    {a : α} (ha : a ∈ l) : ∃ b ∈ r, R a b := by
  induction h with
  | nil => exact absurd ha List.not_mem_nil
  | cons hhead _ ih =>
      rcases List.mem_cons.1 ha with rfl | hrest
      · exact ⟨_, List.mem_cons_self, hhead⟩
      · obtain ⟨b, hb, hR⟩ := ih hrest
        exact ⟨b, List.mem_cons_of_mem _ hb, hR⟩

theorem exists_of_forall₂_right {R : α → β → Prop} {l : List α} {r : List β} (h : List.Forall₂ R l r)
    {b : β} (hb : b ∈ r) : ∃ a ∈ l, R a b :=
  exists_of_forall₂_left h.flip hb

/-- The answer of an element is among the answers. -/
theorem exists_of_mapM {f : α → Option β} {l : List α} {r : List β} (h : l.mapM f = some r) {a : α}
    (ha : a ∈ l) : ∃ b ∈ r, f a = some b :=
  exists_of_forall₂_left (mapM_eq_some_iff.1 h) ha

/-- An answer is the answer of an element. -/
theorem exists_of_mem_mapM {f : α → Option β} {l : List α} {r : List β} (h : l.mapM f = some r) {b : β}
    (hb : b ∈ r) : ∃ a ∈ l, f a = some b :=
  exists_of_forall₂_right (mapM_eq_some_iff.1 h) hb

/-- Every element succeeds. -/
theorem mapM_eq_some_map {f : α → Option β} {g : α → β} {l : List α} (h : ∀ a ∈ l, f a = some (g a)) :
    l.mapM f = some (l.map g) := by
  rw [mapM_eq_some_iff, List.forall₂_map_right_iff, List.forall₂_same]
  exact h

variable [BEq κ] [LawfulBEq κ]

/-- Looking up in a list whose values were computed from their keys and values. -/
theorem lookup_map_values (g : κ → α → β) (name : κ) (items : List (κ × α)) :
    (items.map fun item => (item.1, g item.1 item.2)).lookup name
      = (items.lookup name).map (g name) := by
  induction items with
  | nil => rfl
  | cons item rest ih =>
      obtain ⟨key, value⟩ := item
      rw [List.map_cons, List.lookup_cons, List.lookup_cons]
      by_cases h : name == key
      · obtain rfl := eq_of_beq h
        simp
      · simp only [h, ih]

theorem mem_of_lookup_eq_some {name : κ} {value : α} {items : List (κ × α)}
    (h : items.lookup name = some value) : (name, value) ∈ items := by
  induction items with
  | nil => exact absurd h (by simp)
  | cons item rest ih =>
      obtain ⟨key, v⟩ := item
      rw [List.lookup_cons] at h
      by_cases hkey : name == key
      · obtain rfl := eq_of_beq hkey
        simp only [beq_self_eq_true] at h
        obtain rfl := Option.some.inj h
        exact List.mem_cons_self
      · simp only [hkey] at h
        exact List.mem_cons_of_mem _ (ih h)

/-- With distinct keys an item is what its key looks up. -/
theorem lookup_of_mem {name : κ} {value : α} {items : List (κ × α)}
    (hdistinct : (items.map Prod.fst).Nodup) (h : (name, value) ∈ items) :
    items.lookup name = some value := by
  induction items with
  | nil => exact absurd h List.not_mem_nil
  | cons item rest ih =>
      obtain ⟨key, v⟩ := item
      rw [List.map_cons, List.nodup_cons] at hdistinct
      rw [List.lookup_cons]
      rcases List.mem_cons.1 h with heq | hrest
      · obtain ⟨rfl, rfl⟩ : name = key ∧ value = v := by simpa using heq
        simp
      · have hne : (name == key) = false := by
          rw [beq_eq_false_iff_ne]
          rintro rfl
          exact hdistinct.1 (List.mem_map.2 ⟨_, hrest, rfl⟩)
        simp only [hne, ih hdistinct.2 hrest]

end Millpond
