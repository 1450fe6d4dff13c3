import Mathlib.Data.List.Nodup
import Mathlib.Data.List.Induction

set_option autoImplicit false

/-! # Groups by key

A dictionary that collects the elements of a list under their keys, in insertion order: the first
element of a group starts it, every later one grows it. What a group holds depends on the elements
of its key alone, in their order. -/

namespace Millpond.Groups

variable {κ α β : Type} [DecidableEq κ]

/-- The group of a key. -/
def lookup (k : κ) : List (κ × β) → Option β
  | [] => none
  | (k', b) :: rest => if k' = k then some b else lookup k rest

/-- One element into the group of its key. -/
def add (key : α → κ) (start : α → β) (grow : β → α → β) (a : α) : List (κ × β) → List (κ × β)
  | [] => [(key a, start a)]
  | (k, b) :: rest =>
      if k = key a then (k, grow b a) :: rest else (k, b) :: add key start grow a rest

/-- All elements into their groups. -/
def collect (key : α → κ) (start : α → β) (grow : β → α → β) (items : List α) : List (κ × β) :=
  items.foldl (fun groups a => add key start grow a groups) []

/-- A group from its own elements. -/
def fromMembers (start : α → β) (grow : β → α → β) : List α → Option β
  | [] => none
  | a :: rest => some (rest.foldl grow (start a))

variable {key : α → κ} {start : α → β} {grow : β → α → β}

theorem lookup_add (groups : List (κ × β)) (a : α) (k : κ) :
    lookup k (add key start grow a groups)
      = if key a = k then some ((lookup k groups).elim (start a) fun b => grow b a)
        else lookup k groups := by
  induction groups with
  | nil => rfl
  | cons group rest ih =>
      obtain ⟨k', b⟩ := group
      simp only [add]
      by_cases hkey : k' = key a
      · subst hkey
        by_cases hk : key a = k <;> simp [lookup, hk]
      · rw [if_neg hkey]
        by_cases hk : k' = k
        · have hne : ¬ key a = k := fun heq => hkey (hk.trans heq.symm)
          simp [lookup, hk, hne]
        · simp only [lookup, if_neg hk, ih]

theorem fromMembers_append (members : List α) (a : α) :
    fromMembers start grow (members ++ [a])
      = some ((fromMembers start grow members).elim (start a) fun b => grow b a) := by
  cases members with
  | nil => rfl
  | cons a' rest => simp [fromMembers]

/-- A group holds what its members make of it. -/
theorem lookup_collect (items : List α) (k : κ) :
    lookup k (collect key start grow items)
      = fromMembers start grow (items.filter fun a => key a = k) := by
  induction items using List.reverseRecOn with
  | nil => rfl
  | append_singleton items a ih =>
      rw [collect, List.foldl_append, List.foldl_cons, List.foldl_nil, ← collect, lookup_add, ih,
        List.filter_append]
      by_cases hk : key a = k
      · rw [if_pos hk, List.filter_cons_of_pos (by simpa using hk), List.filter_nil,
          fromMembers_append]
      · rw [if_neg hk, List.filter_cons_of_neg (by simpa using hk), List.filter_nil,
          List.append_nil]

theorem mem_add_keys (groups : List (κ × β)) (a : α) (k : κ) :
    k ∈ (add key start grow a groups).map Prod.fst ↔ k = key a ∨ k ∈ groups.map Prod.fst := by
  induction groups with
  | nil => simp [add]
  | cons group rest ih =>
      obtain ⟨k', b⟩ := group
      simp only [add]
      by_cases hkey : k' = key a
      · rw [if_pos hkey]
        simp only [List.map_cons, List.mem_cons, hkey]
        exact ⟨Or.inr, fun h => h.elim Or.inl id⟩
      · simp only [if_neg hkey, List.map_cons, List.mem_cons, ih]
        exact or_left_comm

theorem add_keys_nodup {groups : List (κ × β)} (h : (groups.map Prod.fst).Nodup) (a : α) :
    ((add key start grow a groups).map Prod.fst).Nodup := by
  induction groups with
  | nil => exact List.nodup_singleton _
  | cons group rest ih =>
      obtain ⟨k', b⟩ := group
      obtain ⟨hfresh, hrest⟩ := List.nodup_cons.1 h
      simp only [add]
      by_cases hkey : k' = key a
      · rwa [if_pos hkey]
      · rw [if_neg hkey]
        refine List.nodup_cons.2 ⟨fun hmem => ?_, ih hrest⟩
        exact ((mem_add_keys rest a k').1 hmem).elim hkey hfresh

/-- No key twice. -/
theorem collect_keys_nodup (items : List α) :
    ((collect key start grow items).map Prod.fst).Nodup := by
  induction items using List.reverseRecOn with
  | nil => exact List.nodup_nil
  | append_singleton items a ih =>
      rw [collect, List.foldl_append]
      exact add_keys_nodup ih a

/-- With distinct keys, the entries are what the keys look up. -/
theorem mem_iff_lookup {groups : List (κ × β)} (h : (groups.map Prod.fst).Nodup) {k : κ} {b : β} :
    (k, b) ∈ groups ↔ lookup k groups = some b := by
  induction groups with
  | nil => simp [lookup]
  | cons group rest ih =>
      obtain ⟨k', b'⟩ := group
      obtain ⟨hfresh, hrest⟩ := List.nodup_cons.1 h
      rw [List.mem_cons, ih hrest, lookup]
      by_cases hk : k' = k
      · subst hk
        have hnone : lookup k' rest ≠ some b := fun hb =>
          hfresh (List.mem_map.2 ⟨_, (ih hrest).2 hb, rfl⟩)
        simp [hnone, eq_comm]
      · have hne : (k, b) ≠ (k', b') := fun heq => hk (congrArg Prod.fst heq).symm
        simp [hk, hne]

/-- The groups are the keys of the elements, each with what its members make of it. -/
theorem mem_collect {items : List α} {k : κ} {b : β} :
    (k, b) ∈ collect key start grow items
      ↔ fromMembers start grow (items.filter fun a => key a = k) = some b := by
  rw [mem_iff_lookup (collect_keys_nodup items), lookup_collect]

theorem add_of_notMem {groups : List (κ × β)} {a : α} (h : key a ∉ groups.map Prod.fst) :
    add key start grow a groups = groups ++ [(key a, start a)] := by
  induction groups with
  | nil => rfl
  | cons group rest ih =>
      obtain ⟨k, b⟩ := group
      rw [List.map_cons, List.mem_cons, not_or] at h
      rw [add, if_neg fun heq => h.1 heq.symm, ih h.2, List.cons_append]

/-- Elements with keys of their own are their own groups. -/
theorem collect_of_nodup {items : List α} (h : (items.map key).Nodup) :
    collect key start grow items = items.map fun a => (key a, start a) := by
  induction items using List.reverseRecOn with
  | nil => rfl
  | append_singleton items a ih =>
      rw [List.map_append, List.map_singleton, List.nodup_append] at h
      obtain ⟨hitems, -, hfresh⟩ := h
      have hnot : key a ∉ ((items.map fun a => (key a, start a)) : List (κ × β)).map Prod.fst := by
        rw [List.map_map]
        exact fun hmem => hfresh _ hmem _ (List.mem_singleton_self _) rfl
      rw [collect, List.foldl_append, List.foldl_cons, List.foldl_nil, ← collect, ih hitems,
        add_of_notMem hnot, List.map_append, List.map_singleton]

/-! ## What the groups hold together -/

theorem flatMap_add_perm {γ : Type} {h : α → γ} {held : β → List γ} {a : α}
    (hstart : held (start a) = [h a]) (hgrow : ∀ b, held (grow b a) = held b ++ [h a])
    (groups : List (κ × β)) :
    ((add key start grow a groups).flatMap fun g => held g.2).Perm
      ((groups.flatMap fun g => held g.2) ++ [h a]) := by
  induction groups with
  | nil => simp [add, hstart]
  | cons group rest ih =>
      obtain ⟨k, b⟩ := group
      simp only [add]
      by_cases hkey : k = key a
      · rw [if_pos hkey]
        simp only [List.flatMap_cons, hgrow, List.append_assoc]
        exact List.Perm.append_left _ List.perm_append_comm
      · rw [if_neg hkey]
        simp only [List.flatMap_cons, List.append_assoc]
        exact ih.append_left _

/-- When every element puts one thing into its group, the groups hold all of them, each once. -/
theorem flatMap_collect_perm {γ : Type} (h : α → γ) (held : β → List γ)
    (hstart : ∀ a, held (start a) = [h a]) (hgrow : ∀ b a, held (grow b a) = held b ++ [h a])
    (items : List α) :
    ((collect key start grow items).flatMap fun g => held g.2).Perm (items.map h) := by
  induction items using List.reverseRecOn with
  | nil => exact List.Perm.refl _
  | append_singleton items a ih =>
      rw [collect, List.foldl_append, List.map_append]
      exact (flatMap_add_perm (hstart a) (fun b => hgrow b a) _).trans (ih.append_right _)

end Millpond.Groups
