import Mathlib.Data.List.Nodup
import Mathlib.Data.List.Perm.Basic
import Mathlib.Data.List.Sort
import Mathlib.Data.Nat.Notation

set_option autoImplicit false

/-! # Columns with nulls

An array of a columnar store is a list of optional values. Comparisons answer null for a null, masks
are arrays of optional booleans, and a filter keeps the rows whose mask is true. Group-by counts null
as a value like any other. -/

namespace Millpond.Columnar

variable {α ρ κ : Type}

/-! ## Masks -/

abbrev Arr (α : Type) := List (Option α)

def isNull (xs : Arr α) : Arr Bool := xs.map fun x => some x.isNone

/-- Comparison with a scalar: null for a null. -/
def equal [DecidableEq α] (xs : Arr α) (v : α) : Arr Bool := xs.map fun x => x.map fun a => a = v

def fillNull (xs : Arr α) (v : α) : Arr α := xs.map fun x => some (x.getD v)

/-- Conjunction: null if either side is. -/
def and (xs ys : Arr Bool) : Arr Bool :=
  xs.zipWith (fun x y => x.bind fun a => y.map fun b => a && b) ys

def invert (xs : Arr Bool) : Arr Bool := xs.map fun x => x.map fun a => !a

/-- Membership in a set without nulls. What it answers for a null differs between versions. -/
def isIn [DecidableEq α] (onNull : Option Bool) (set : List α) (xs : Arr α) : Arr Bool :=
  xs.map fun
    | none => onNull
    | some a => some (set.contains a)

/-- The rows whose mask is true, in their order. -/
def select (mask : Arr Bool) (rows : List ρ) : List ρ :=
  ((rows.zip mask).filter (·.2 = some true)).map Prod.fst

/-- A mask that is computed row by row. -/
theorem select_map (mask : ρ → Option Bool) (rows : List ρ) :
    select (rows.map mask) rows = rows.filter (mask · = some true) := by
  induction rows with
  | nil => rfl
  | cons row rest ih =>
      unfold select at ih ⊢
      by_cases h : mask row = some true
      · simp [h, ih]
      · simp [h, ih]

theorem and_map (f g : ρ → Option Bool) (rows : List ρ) :
    and (rows.map f) (rows.map g) = rows.map fun row => (f row).bind fun a => (g row).map (a && ·) := by
  unfold and
  rw [List.zipWith_map, List.zipWith_self]

/-! ## Group-by -/

/-- `group_by(key).aggregate(min of the row number)`: the distinct keys, each with the number of its
    first row, in an order of its own. -/
structure GroupMin (κ : Type) [BEq κ] where
  run : List κ → List (κ × ℕ)
  perm : ∀ keys, (run keys).Perm (keys.eraseDups.map fun key => (key, keys.idxOf key))

/-- The aggregate that lists the keys last first. -/
def GroupMin.lastFirst [BEq κ] : GroupMin κ where
  run := fun keys => (keys.eraseDups.map fun key => (key, keys.idxOf key)).reverse
  perm := fun _ => List.reverse_perm _

/-- Where the rows of some groups stand in the table. -/
structure Places (rows : List ρ) (groups : List (List ρ)) (positions : List (List ℕ)) : Prop where
  taken : groups = positions.map fun places => places.filterMap (rows[·]?)
  partition : positions.flatten.Perm (List.range rows.length)
  inOrder : ∀ places ∈ positions, places.Pairwise (· < ·)
  nonempty : [] ∉ positions
  byFirst : positions.Pairwise fun p q => ∀ i ∈ p.head?, ∀ j ∈ q.head?, i < j

/-- The rows in groups by key: every position is in exactly one group, that of its key; rows keep
    their order in a group, and the groups have the order of their first rows. -/
structure Grouping (key : ρ → κ) (rows : List ρ) (groups : List (κ × List ρ)) : Prop where
  distinct : (groups.map Prod.fst).Nodup
  own : ∀ group ∈ groups, ∀ row ∈ group.2, key row = group.1
  placed : ∃ positions, Places rows (groups.map Prod.snd) positions

variable [BEq κ] [LawfulBEq κ] [DecidableEq κ]

/-- Filtering keeps which of two values comes first. -/
theorem idxOf_filter_lt (p : κ → Bool) {a b : κ} (ha : p a = true) (hb : p b = true) (keys : List κ) :
    (keys.filter p).idxOf a < (keys.filter p).idxOf b ↔ keys.idxOf a < keys.idxOf b := by
  induction keys with
  | nil => simp
  | cons key rest ih =>
      cases hkey : p key with
      | true =>
          rw [List.filter_cons_of_pos hkey]
          by_cases hka : key = a
          · subst hka
            by_cases hkb : key = b
            · simp [hkb]
            · rw [List.idxOf_cons_self, List.idxOf_cons_self, List.idxOf_cons_ne _ hkb,
                List.idxOf_cons_ne _ hkb]
              simp
          · by_cases hkb : key = b
            · subst hkb
              simp
            · rw [List.idxOf_cons_ne _ hka, List.idxOf_cons_ne _ hkb, List.idxOf_cons_ne _ hka,
                List.idxOf_cons_ne _ hkb, Nat.succ_lt_succ_iff, Nat.succ_lt_succ_iff, ih]
      | false =>
          have hka : key ≠ a := fun h => by simp [h, ha] at hkey
          have hkb : key ≠ b := fun h => by simp [h, hb] at hkey
          rw [List.filter_cons_of_neg (by simp [hkey]), ih]
          simp [hka, hkb]

/-- Distinct keys come in the order of their first positions. -/
theorem eraseDups_byFirst (keys : List κ) :
    keys.eraseDups.Pairwise fun a b => keys.idxOf a < keys.idxOf b := by
  induction hlen : keys.length using Nat.strong_induction_on generalizing keys with
  | _ n ih =>
      cases keys with
      | nil => simp
      | cons key rest =>
          rw [List.eraseDups_cons, List.pairwise_cons]
          have hshort : (rest.filter fun k => !k == key).length < n := by
            have hle := List.length_filter_le (fun k => !k == key) rest
            simp only [List.length_cons] at hlen
            omega
          constructor
          · intro k hk
            rw [List.mem_eraseDups, List.mem_filter] at hk
            have hne : key ≠ k := fun h => by simp [h] at hk
            simp [hne]
          · refine (ih _ hshort _ rfl).imp_of_mem fun {a b} ha hb hlt => ?_
            rw [List.mem_eraseDups, List.mem_filter] at ha hb
            have hka : key ≠ a := fun h => by simp [h] at ha
            have hkb : key ≠ b := fun h => by simp [h] at hb
            have hlt' : rest.idxOf a < rest.idxOf b :=
              (idxOf_filter_lt (fun k => !k == key) ha.2 hb.2 rest).1 hlt
            simpa [hka, hkb] using hlt'

theorem nodup_eraseDups (keys : List κ) : keys.eraseDups.Nodup := by
  refine (eraseDups_byFirst keys).imp fun hlt heq => ?_
  rw [heq] at hlt
  exact Nat.lt_irrefl _ hlt

/-- Sorting by the row number puts the keys in the order they first appear. -/
theorem GroupMin.sorted (group : GroupMin κ) (keys : List κ) :
    ((group.run keys).mergeSort fun a b => a.2 ≤ b.2).map Prod.fst = keys.eraseDups := by
  have hperm := (List.mergeSort_perm (group.run keys) fun a b => a.2 ≤ b.2).trans (group.perm keys)
  have hsorted : ((group.run keys).mergeSort fun a b => a.2 ≤ b.2).Pairwise
      fun a b => decide (a.2 ≤ b.2) = true :=
    List.pairwise_mergeSort (fun _ _ _ h₁ h₂ => by simp only [decide_eq_true_eq] at *; omega)
      (fun _ _ => by simp only [Bool.or_eq_true, decide_eq_true_eq]; omega) _
  have hfirsts : (keys.eraseDups.map fun key => (key, keys.idxOf key)).Pairwise
      fun a b => decide (a.2 ≤ b.2) = true := by
    rw [List.pairwise_map]
    exact (eraseDups_byFirst keys).imp fun hlt => by simpa using Nat.le_of_lt hlt
  have heq := hperm.eq_of_pairwise (fun a b ha hb hab hba => ?_) hsorted hfirsts
  · rw [heq, List.map_map]
    exact List.map_id' _
  · -- two keys with one first position are one key
    obtain ⟨k, hk, rfl⟩ := List.mem_map.1 (hperm.mem_iff.1 ha)
    obtain ⟨k', hk', rfl⟩ := List.mem_map.1 hb
    simp only [decide_eq_true_eq] at hab hba
    rw [List.mem_eraseDups] at hk hk'
    rw [(List.idxOf_inj hk).1 (Nat.le_antisymm hab hba)]

/-- The positions of a key. -/
def placesOf (keys : List κ) (key : κ) : List ℕ :=
  (List.range keys.length).filter fun i => keys[i]? = some key

theorem head?_placesOf {keys : List κ} {key : κ} (h : key ∈ keys) :
    (placesOf keys key).head? = some (keys.idxOf key) := by
  unfold placesOf
  rw [List.head?_filter, List.find?_range_eq_some]
  have hlt := List.idxOf_lt_length_iff.2 h
  refine ⟨by simp [List.getElem?_eq_getElem hlt], List.mem_range.2 hlt, fun i hi => ?_⟩
  have hne : keys[i] ≠ key := beq_eq_false_iff_ne.1 (List.not_of_lt_findIdx hi)
  simpa [List.getElem?_eq_getElem (hi.trans hlt)] using hne

omit [BEq κ] [LawfulBEq κ] in
/-- The rows of a key stand at its positions. -/
theorem filter_eq_placed (key : ρ → κ) (k : κ) (rows : List ρ) :
    rows.filter (key · = k) = (placesOf (rows.map key) k).filterMap (rows[·]?) := by
  induction rows with
  | nil => rfl
  | cons row rest ih =>
      have htail : (placesOf (rest.map key) k).map Nat.succ
          = ((List.range rest.length).map Nat.succ).filter fun i =>
              ((row :: rest).map key)[i]? = some k := by
        unfold placesOf
        rw [List.filter_map, List.length_map]
        rfl
      have hplaces : placesOf ((row :: rest).map key) k
          = (if key row = k then [0] else []) ++ (placesOf (rest.map key) k).map Nat.succ := by
        rw [htail]
        unfold placesOf
        rw [List.length_map, List.length_cons, List.range_succ_eq_map, List.filter_cons]
        by_cases h : key row = k <;> simp [h]
      rw [hplaces, List.filterMap_append, List.filterMap_map]
      have hrest : (placesOf (rest.map key) k).filterMap ((fun i => (row :: rest)[i]?) ∘ Nat.succ)
          = rest.filter (key · = k) := ih.symm
      rw [hrest]
      by_cases h : key row = k <;> simp [h]

/-- **The rows under each distinct key are a grouping.** -/
theorem grouping_of_filters (key : ρ → κ) (rows : List ρ) :
    Grouping key rows ((rows.map key).eraseDups.map fun k => (k, rows.filter (key · = k))) := by
  have hkeys : ∀ k ∈ (rows.map key).eraseDups, k ∈ rows.map key := fun k => List.mem_eraseDups.1
  refine ⟨?_, ?_, (rows.map key).eraseDups.map (placesOf (rows.map key)), ?_, ?_, ?_, ?_, ?_⟩
  · rw [List.map_map]
    exact (List.map_id' _).symm ▸ nodup_eraseDups _
  · intro group hgroup row hrow
    obtain ⟨k, -, rfl⟩ := List.mem_map.1 hgroup
    simpa using (List.mem_filter.1 hrow).2
  · rw [List.map_map, List.map_map]
    exact List.map_congr_left fun k _ => filter_eq_placed key k rows
  · refine (List.perm_ext_iff_of_nodup ?_ List.nodup_range).2 fun i => ?_
    · rw [List.nodup_flatten, List.pairwise_map]
      refine ⟨fun places hplaces => ?_, (nodup_eraseDups _).imp fun hne i hi hi' => ?_⟩
      · obtain ⟨k, -, rfl⟩ := List.mem_map.1 hplaces
        exact List.nodup_range.filter _
      · have hi := (List.mem_filter.1 hi).2
        have hi' := (List.mem_filter.1 hi').2
        simp only [decide_eq_true_eq] at hi hi'
        exact hne (Option.some.inj (hi.symm.trans hi'))
    · simp only [List.mem_flatten, List.mem_map, placesOf, List.mem_range]
      constructor
      · rintro ⟨places, ⟨k, -, rfl⟩, hi⟩
        simpa using (List.mem_filter.1 hi).1
      · intro hi
        refine ⟨_, ⟨key rows[i], ?_, rfl⟩, ?_⟩
        · exact List.mem_eraseDups.2 (List.mem_map_of_mem (List.getElem_mem hi))
        · simp [hi]
  · intro places hplaces
    obtain ⟨k, -, rfl⟩ := List.mem_map.1 hplaces
    exact List.pairwise_lt_range.filter _
  · intro hnil
    obtain ⟨k, hk, hempty⟩ := List.mem_map.1 hnil
    have hhead := head?_placesOf (hkeys k hk)
    rw [hempty] at hhead
    exact absurd hhead (by simp)
  · rw [List.pairwise_map]
    refine (eraseDups_byFirst _).imp_of_mem fun {a b} ha hb hlt i hi j hj => ?_
    rw [head?_placesOf (hkeys a ha)] at hi
    rw [head?_placesOf (hkeys b hb)] at hj
    obtain rfl := Option.some.inj hi
    obtain rfl := Option.some.inj hj
    exact hlt

end Millpond.Columnar
