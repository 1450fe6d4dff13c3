import Millpond.Lib.Groups
import Mathlib.Data.List.Basic
import Mathlib.Data.List.Forall2
import Mathlib.Order.Lattice

set_option autoImplicit false

/-! # Documents

Trees of arrays and objects over any scalars, as JSON has them. A walk that changes only scalars keeps
the shape; a reader whose objects are dictionaries keeps, of each key, the last value in the place of
the first. -/

namespace Millpond

inductive Doc (σ : Type) where
  | scalar (value : σ)
  | array (items : List (Doc σ))
  | object (members : List (String × Doc σ))

namespace Doc

variable {σ τ υ : Type}

/-- Induction along the items and members. -/
theorem induct {P : Doc σ → Prop} (scalar : ∀ value, P (.scalar value))
    (array : ∀ items : List (Doc σ), (∀ d ∈ items, P d) → P (.array items))
    (object : ∀ members : List (String × Doc σ), (∀ m ∈ members, P m.2) → P (.object members)) :
    ∀ d, P d := by
  intro d
  refine @Doc.rec σ P (fun items => ∀ d ∈ items, P d) (fun members => ∀ m ∈ members, P m.2)
    (fun m => P m.2) scalar array object ?_ ?_ ?_ ?_ ?_ d
  · exact fun d hd => absurd hd List.not_mem_nil
  · intro head tail hhead htail d hd
    rcases List.mem_cons.1 hd with rfl | hd
    · exact hhead
    · exact htail d hd
  · exact fun m hm => absurd hm List.not_mem_nil
  · intro head tail hhead htail m hm
    rcases List.mem_cons.1 hm with rfl | hm
    · exact hhead
    · exact htail m hm
  · exact fun key value hvalue => hvalue

/-! ## Scalars, shape and depth -/

mutual

/-- Another scalar in the place of each. -/
def map (f : σ → τ) : Doc σ → Doc τ
  | .scalar value => .scalar (f value)
  | .array items => .array (mapItems f items)
  | .object members => .object (mapMembers f members)

def mapItems (f : σ → τ) : List (Doc σ) → List (Doc τ)
  | [] => []
  | d :: rest => map f d :: mapItems f rest

def mapMembers (f : σ → τ) : List (String × Doc σ) → List (String × Doc τ)
  | [] => []
  | (key, d) :: rest => (key, map f d) :: mapMembers f rest

end

mutual

/-- The scalars, from left to right. -/
def leaves : Doc σ → List σ
  | .scalar value => [value]
  | .array items => leavesItems items
  | .object members => leavesMembers members

def leavesItems : List (Doc σ) → List σ
  | [] => []
  | d :: rest => leaves d ++ leavesItems rest

def leavesMembers : List (String × Doc σ) → List σ
  | [] => []
  | (_, d) :: rest => leaves d ++ leavesMembers rest

end

mutual

/-- How many nodes stand in each other, a scalar counted as `leaf`. -/
def nesting (leaf : ℕ) : Doc σ → ℕ
  | .scalar _ => leaf
  | .array items => nestingItems leaf items + 1
  | .object members => nestingMembers leaf members + 1

def nestingItems (leaf : ℕ) : List (Doc σ) → ℕ
  | [] => 0
  | d :: rest => max (nesting leaf d) (nestingItems leaf rest)

def nestingMembers (leaf : ℕ) : List (String × Doc σ) → ℕ
  | [] => 0
  | (_, d) :: rest => max (nesting leaf d) (nestingMembers leaf rest)

end

/-- How many arrays and objects stand in each other. -/
abbrev depth (d : Doc σ) : ℕ := d.nesting 0

/-- How many calls deep a recursive walk goes. -/
abbrev height (d : Doc σ) : ℕ := d.nesting 1

mutual

/-- No object has a key twice. -/
def UniqueKeys : Doc σ → Prop
  | .scalar _ => True
  | .array items => UniqueKeysItems items
  | .object members => (members.map Prod.fst).Nodup ∧ UniqueKeysMembers members

def UniqueKeysItems : List (Doc σ) → Prop
  | [] => True
  | d :: rest => UniqueKeys d ∧ UniqueKeysItems rest

def UniqueKeysMembers : List (String × Doc σ) → Prop
  | [] => True
  | (_, d) :: rest => UniqueKeys d ∧ UniqueKeysMembers rest

end

/-- A dictionary: the first place of each key, with its last value. -/
def dict (members : List (String × Doc σ)) : List (String × Doc σ) :=
  Groups.collect Prod.fst Prod.snd (fun _ m => m.2) members

mutual

/-- The document with a dictionary for each object. -/
def collapse : Doc σ → Doc σ
  | .scalar value => .scalar value
  | .array items => .array (collapseItems items)
  | .object members => .object (dict (collapseMembers members))

def collapseItems : List (Doc σ) → List (Doc σ)
  | [] => []
  | d :: rest => collapse d :: collapseItems rest

def collapseMembers : List (String × Doc σ) → List (String × Doc σ)
  | [] => []
  | (key, d) :: rest => (key, collapse d) :: collapseMembers rest

end

/-- The same shape, with related scalars in the same places. -/
structure Rel (R : σ → τ → Prop) (d : Doc σ) (d' : Doc τ) : Prop where
  shape : d.map (fun _ => ()) = d'.map (fun _ => ())
  leaves : List.Forall₂ R d.leaves d'.leaves

theorem mapItems_eq (f : σ → τ) (items : List (Doc σ)) : mapItems f items = items.map (map f) := by
  induction items with
  | nil => rfl
  | cons d rest ih => rw [mapItems, ih, List.map_cons]

theorem mapMembers_eq (f : σ → τ) (members : List (String × Doc σ)) :
    mapMembers f members = members.map fun m => (m.1, map f m.2) := by
  induction members with
  | nil => rfl
  | cons m rest ih => rw [mapMembers, ih, List.map_cons]

theorem leavesItems_eq (items : List (Doc σ)) : leavesItems items = items.flatMap leaves := by
  induction items with
  | nil => rfl
  | cons d rest ih => rw [leavesItems, ih, List.flatMap_cons]

theorem leavesMembers_eq (members : List (String × Doc σ)) :
    leavesMembers members = members.flatMap fun m => leaves m.2 := by
  induction members with
  | nil => rfl
  | cons m rest ih => rw [leavesMembers, ih, List.flatMap_cons]

theorem uniqueKeysItems_iff {items : List (Doc σ)} :
    UniqueKeysItems items ↔ ∀ d ∈ items, UniqueKeys d := by
  induction items with
  | nil => simp [UniqueKeysItems]
  | cons d rest ih => simp [UniqueKeysItems, ih]

theorem uniqueKeysMembers_iff {members : List (String × Doc σ)} :
    UniqueKeysMembers members ↔ ∀ m ∈ members, UniqueKeys m.2 := by
  induction members with
  | nil => simp [UniqueKeysMembers]
  | cons m rest ih => simp only [UniqueKeysMembers, ih, List.forall_mem_cons]

theorem collapseItems_eq (items : List (Doc σ)) : collapseItems items = items.map collapse := by
  induction items with
  | nil => rfl
  | cons d rest ih => rw [collapseItems, ih, List.map_cons]

theorem collapseMembers_eq (members : List (String × Doc σ)) :
    collapseMembers members = members.map fun m => (m.1, collapse m.2) := by
  induction members with
  | nil => rfl
  | cons m rest ih => rw [collapseMembers, ih, List.map_cons]

theorem map_map (f : σ → τ) (g : τ → υ) (d : Doc σ) : (d.map f).map g = d.map (g ∘ f) := by
  induction d using induct with
  | scalar value => rfl
  | array items ih =>
      simp only [map, mapItems_eq, List.map_map]
      exact congrArg Doc.array (List.map_congr_left fun d hd => ih d hd)
  | object members ih =>
      simp only [map, mapMembers_eq, List.map_map]
      refine congrArg Doc.object (List.map_congr_left fun m hm => ?_)
      simp only [Function.comp_apply, ih m hm]

theorem map_id (d : Doc σ) : d.map id = d := by
  induction d using induct with
  | scalar value => rfl
  | array items ih =>
      rw [map, mapItems_eq]
      exact congrArg Doc.array ((List.map_congr_left ih).trans (List.map_id _))
  | object members ih =>
      have hsame : (members.map fun m => (m.1, map id m.2)) = members.map id :=
        List.map_congr_left fun m hm => Prod.ext rfl (ih m hm)
      rw [map, mapMembers_eq, hsame, List.map_id]

theorem leaves_map (f : σ → τ) (d : Doc σ) : (d.map f).leaves = d.leaves.map f := by
  induction d using induct with
  | scalar value => rfl
  | array items ih =>
      simp only [map, leaves, mapItems_eq, leavesItems_eq, List.flatMap_map, List.map_flatMap]
      exact List.flatMap_congr fun d hd => ih d hd
  | object members ih =>
      simp only [map, leaves, mapMembers_eq, leavesMembers_eq, List.flatMap_map, List.map_flatMap]
      exact List.flatMap_congr fun m hm => ih m hm

theorem nesting_map (f : σ → τ) (leaf : ℕ) (d : Doc σ) : (d.map f).nesting leaf = d.nesting leaf := by
  induction d using induct with
  | scalar value => rfl
  | array items ih =>
      have hitems : nestingItems leaf (mapItems f items) = nestingItems leaf items := by
        induction items with
        | nil => rfl
        | cons d rest ihrest =>
            rw [mapItems, nestingItems, nestingItems, ih d List.mem_cons_self,
              ihrest fun e he => ih e (List.mem_cons_of_mem _ he)]
      rw [map, nesting, nesting, hitems]
  | object members ih =>
      have hmembers : nestingMembers leaf (mapMembers f members) = nestingMembers leaf members := by
        induction members with
        | nil => rfl
        | cons m rest ihrest =>
            rw [mapMembers, nestingMembers, nestingMembers, ih m List.mem_cons_self,
              ihrest fun e he => ih e (List.mem_cons_of_mem _ he)]
      rw [map, nesting, nesting, hmembers]

theorem uniqueKeys_map {f : σ → τ} {d : Doc σ} : (d.map f).UniqueKeys ↔ d.UniqueKeys := by
  induction d using induct with
  | scalar value => exact Iff.rfl
  | array items ih =>
      simp only [map, UniqueKeys, mapItems_eq, uniqueKeysItems_iff, List.forall_mem_map]
      exact forall₂_congr ih
  | object members ih =>
      simp only [map, UniqueKeys, mapMembers_eq, uniqueKeysMembers_iff, List.forall_mem_map,
        List.map_map]
      exact and_congr Iff.rfl (forall₂_congr ih)

/-- Documents of one shape have their keys in common. -/
theorem Rel.uniqueKeys {R : σ → τ → Prop} {d : Doc σ} {d' : Doc τ} (h : Rel R d d') :
    d.UniqueKeys ↔ d'.UniqueKeys := by
  rw [← uniqueKeys_map (f := fun _ => ()), h.shape, uniqueKeys_map]

/-- Two walks over one document. -/
theorem rel_map {R : τ → υ → Prop} {f : σ → τ} {g : σ → υ} {d : Doc σ} :
    Rel R (d.map f) (d.map g) ↔ ∀ value ∈ d.leaves, R (f value) (g value) := by
  have hleaves : List.Forall₂ R (d.map f).leaves (d.map g).leaves ↔
      ∀ value ∈ d.leaves, R (f value) (g value) := by
    rw [leaves_map, leaves_map, List.forall₂_map_left_iff, List.forall₂_map_right_iff,
      List.forall₂_same]
  refine ⟨fun h => hleaves.1 h.leaves, fun h => ⟨?_, hleaves.2 h⟩⟩
  rw [map_map, map_map]
  rfl

/-! ## Dictionaries -/

theorem dict_keys_nodup (members : List (String × Doc σ)) : ((dict members).map Prod.fst).Nodup :=
  Groups.collect_keys_nodup members

/-- A dictionary takes its members from the object. -/
theorem dict_subset (members : List (String × Doc σ)) : dict members ⊆ members := by
  intro m hm
  have hfrom := Groups.mem_collect.1 (show (m.1, m.2) ∈ dict members from hm)
  cases hfilter : members.filter (fun a => a.1 = m.1) with
  | nil =>
      rw [hfilter] at hfrom
      cases hfrom
  | cons first rest =>
      -- the value of a key is that of its last member
      have hlast : ∀ (rest : List (String × Doc σ)) (first : String × Doc σ),
          (rest.foldl (fun _ m => m.2) first.2) ∈ (first :: rest).map Prod.snd := by
        intro rest
        induction rest with
        | nil => intro first; exact List.mem_singleton_self _
        | cons next rest ih => intro first; exact List.mem_cons_of_mem _ (ih next)
      rw [hfilter] at hfrom
      have hvalue : rest.foldl (fun _ m => m.2) first.2 = m.2 := Option.some.inj hfrom
      obtain ⟨a, ha, heq⟩ := List.mem_map.1 (hvalue ▸ hlast rest first)
      rw [← hfilter] at ha
      obtain ⟨hmem, hkey⟩ := List.mem_filter.1 ha
      have hsame : a = m := Prod.ext (of_decide_eq_true hkey) heq
      exact hsame ▸ hmem

/-- An object with its keys once is its dictionary. -/
theorem dict_eq_self {members : List (String × Doc σ)} (h : (members.map Prod.fst).Nodup) :
    dict members = members :=
  (Groups.collect_of_nodup h).trans (List.map_id _)

theorem uniqueKeys_collapse (d : Doc σ) : d.collapse.UniqueKeys := by
  induction d using induct with
  | scalar value => exact trivial
  | array items ih =>
      rw [collapse, UniqueKeys, collapseItems_eq, uniqueKeysItems_iff, List.forall_mem_map]
      exact ih
  | object members ih =>
      rw [collapse, UniqueKeys, collapseMembers_eq, uniqueKeysMembers_iff]
      refine ⟨dict_keys_nodup _, fun m hm => ?_⟩
      obtain ⟨a, ha, rfl⟩ := List.mem_map.1 (dict_subset _ hm)
      exact ih a ha

theorem collapse_eq_self {d : Doc σ} (h : d.UniqueKeys) : d.collapse = d := by
  induction d using induct with
  | scalar value => rfl
  | array items ih =>
      rw [UniqueKeys, uniqueKeysItems_iff] at h
      rw [collapse, collapseItems_eq]
      exact congrArg Doc.array ((List.map_congr_left fun d hd => ih d hd (h d hd)).trans (List.map_id _))
  | object members ih =>
      obtain ⟨hkeys, hvalues⟩ := h
      rw [uniqueKeysMembers_iff] at hvalues
      have hsame : (members.map fun m => (m.1, collapse m.2)) = members.map id :=
        List.map_congr_left fun m hm => Prod.ext rfl (ih m hm (hvalues m hm))
      rw [List.map_id] at hsame
      rw [collapse, collapseMembers_eq, hsame, dict_eq_self hkeys]

/-- What a dictionary keeps was in the document. -/
theorem leaves_collapse_subset (d : Doc σ) : d.collapse.leaves ⊆ d.leaves := by
  induction d using induct with
  | scalar value => exact List.Subset.refl _
  | array items ih =>
      intro value hvalue
      rw [collapse, leaves, collapseItems_eq, leavesItems_eq, List.flatMap_map] at hvalue
      rw [leaves, leavesItems_eq]
      obtain ⟨d, hd, hmem⟩ := List.mem_flatMap.1 hvalue
      exact List.mem_flatMap.2 ⟨d, hd, ih d hd hmem⟩
  | object members ih =>
      intro value hvalue
      rw [collapse, leaves, collapseMembers_eq, leavesMembers_eq] at hvalue
      rw [leaves, leavesMembers_eq]
      obtain ⟨m, hm, hmem⟩ := List.mem_flatMap.1 hvalue
      obtain ⟨a, ha, rfl⟩ := List.mem_map.1 (dict_subset _ hm)
      exact List.mem_flatMap.2 ⟨a, ha, ih a ha hmem⟩

end Doc

end Millpond
